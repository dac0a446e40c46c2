import Mathlib.Data.List.Basic

/-!
# UTF-8 with replacement

The decoder reads one byte at a time. Inside a character it knows the bits so far, how many bytes
are missing, and the bounds of the next one, which leave out overlong forms, surrogates and what
comes after the last code point. A byte out of bounds ends the character with U+FFFD, and is read
again as the first of another. A character that the input leaves unfinished is replaced as well.

So a text that does not end in U+FFFD leaves no character unfinished, and bytes after it are
decoded on their own (`decode_append`).

The strict decoder, which raises where the other one replaces, is that of Lean. Text that was
encoded is decoded by it (`decodeStrict_encode`), and has the bytes of its line feeds only
(`lf_mem_encode`).
-/

namespace Utf8

/-- U+FFFD. -/
def replacement : Char :=
  '\uFFFD'

inductive State
  | start
  | within (bits missing low high : ℕ)
  deriving DecidableEq, Repr

/-- The first byte of a character. -/
def first (byte : ℕ) : List Char × State :=
  if byte ≤ 0x7F then ([Char.ofNat byte], .start)
  else if 0xC2 ≤ byte ∧ byte ≤ 0xDF then ([], .within (byte - 0xC0) 1 0x80 0xBF)
  else if 0xE0 ≤ byte ∧ byte ≤ 0xEF then
    ([], .within (byte - 0xE0) 2 (if byte = 0xE0 then 0xA0 else 0x80)
      (if byte = 0xED then 0x9F else 0xBF))
  else if 0xF0 ≤ byte ∧ byte ≤ 0xF4 then
    ([], .within (byte - 0xF0) 3 (if byte = 0xF0 then 0x90 else 0x80)
      (if byte = 0xF4 then 0x8F else 0xBF))
  else ([replacement], .start)

def step : State → ℕ → List Char × State
  | .start, byte => first byte
  | .within bits missing low high, byte =>
    if low ≤ byte ∧ byte ≤ high then
      let bits := 64 * bits + (byte - 0x80)
      if missing ≤ 1 then ([Char.ofNat bits], .start)
      else ([], .within bits (missing - 1) 0x80 0xBF)
    else
      let (chars, state) := first byte
      (replacement :: chars, state)

/-- The characters that are complete, and the state after the last byte. -/
def run : State → List UInt8 → List Char × State
  | state, [] => ([], state)
  | state, byte :: bytes =>
    let (chars, state) := step state byte.toNat
    let (more, state) := run state bytes
    (chars ++ more, state)

def State.flush : State → List Char
  | .start => []
  | .within .. => [replacement]

def decode (bytes : List UInt8) : List Char :=
  let (chars, state) := run .start bytes
  chars ++ state.flush

example : decode [0x61, 0xC3, 0xA9, 0xE2, 0x82, 0xAC, 0xF0, 0x9F, 0x98, 0x80] =
    ['a', 'é', '€', '😀'] := by decide

example : decode [0xE2, 0x82, 0x61, 0xC0, 0xED, 0xA0, 0x62, 0xF0, 0x9F] =
    [replacement, 'a', replacement, replacement, replacement, 'b', replacement] := by decide

theorem run_append (state : State) (xs ys : List UInt8) :
    run state (xs ++ ys) = ((run state xs).1 ++ (run (run state xs).2 ys).1,
      (run (run state xs).2 ys).2) := by
  induction xs generalizing state with
  | nil => rfl
  | cons x xs ih =>
    rw [List.cons_append, run, run]
    dsimp only
    rw [ih, List.append_assoc]

/-- A text that does not end in U+FFFD leaves no character unfinished. -/
theorem run_of_getLast?_ne {bytes : List UInt8} (h : (decode bytes).getLast? ≠ some replacement) :
    run .start bytes = (decode bytes, .start) := by
  unfold decode at h ⊢
  generalize run .start bytes = r at h ⊢
  obtain ⟨chars, - | _⟩ := r
  · simp [State.flush]
  · simp [State.flush] at h

theorem decode_append {xs : List UInt8} (h : (decode xs).getLast? ≠ some replacement)
    (ys : List UInt8) : decode (xs ++ ys) = decode xs ++ decode ys := by
  have hstart := run_of_getLast?_ne h
  rw [decode, run_append, hstart]
  dsimp only
  rw [List.append_assoc]
  rfl

/-! ## Encoding -/

def encode (text : List Char) : List UInt8 :=
  text.flatMap String.utf8EncodeChar

/-- The characters, or nothing if some bytes are not those of a character. -/
def decodeStrict (bytes : List UInt8) : Option (List Char) :=
  bytes.toByteArray.utf8Decode?.map Array.toList

theorem encode_append (xs ys : List Char) : encode (xs ++ ys) = encode xs ++ encode ys :=
  List.flatMap_append

theorem decodeStrict_encode (text : List Char) : decodeStrict (encode text) = some text := by
  have hdecode : text.utf8Encode.utf8Decode? = some text.toArray := List.utf8Decode?_utf8Encode
  rw [decodeStrict, encode]
  rw [List.utf8Encode] at hdecode
  rw [hdecode, Option.map_some]

/-- Bytes that are decoded are those of the text. -/
theorem encode_of_decodeStrict {bytes : List UInt8} {text : List Char}
    (h : decodeStrict bytes = some text) : encode text = bytes := by
  obtain ⟨chars, hchars, rfl⟩ := Option.map_eq_some_iff.1 h
  obtain ⟨decoded, hdecoded⟩ :=
    ByteArray.isSome_utf8Decode?_iff.1 (Option.isSome_of_eq_some hchars)
  rw [hdecoded, List.utf8Decode?_utf8Encode] at hchars
  cases hchars
  exact (List.toByteArray_inj.1 hdecoded).symm

/-- The bytes of a text begin with those of its first character only. -/
theorem char_eq_of_encode {x y : Char} {xs ys : List UInt8}
    (h : String.utf8EncodeChar x ++ xs = String.utf8EncodeChar y ++ ys) : x = y := by
  have hx := @ByteArray.utf8DecodeChar?_utf8EncodeChar_append xs.toByteArray x
  have hy := @ByteArray.utf8DecodeChar?_utf8EncodeChar_append ys.toByteArray y
  rw [← List.toByteArray_append] at hx hy
  rw [h, hy] at hx
  exact (Option.some.inj hx).symm

/-- A text begins with another one if its bytes do. -/
theorem prefix_of_encode : ∀ {xs ys : List Char}, encode xs <+: encode ys → xs <+: ys
  | [], _, _ => List.nil_prefix
  | x :: xs, [], h => by
    have hne := List.append_eq_nil_iff.1 (List.prefix_nil.1 h)
    exact absurd hne.1 String.utf8EncodeChar_ne_nil
  | x :: xs, y :: ys, h => by
    obtain ⟨more, hmore⟩ := h
    have hsplit : String.utf8EncodeChar x ++ (encode xs ++ more) =
        String.utf8EncodeChar y ++ encode ys := by
      rw [← List.append_assoc]
      exact hmore
    obtain rfl := char_eq_of_encode hsplit
    exact List.cons_prefix_cons.2
      ⟨rfl, prefix_of_encode ⟨more, List.append_cancel_left hsplit⟩⟩

/-- The byte of a line feed is in no other character. -/
theorem lf_mem_utf8EncodeChar {c : Char} (h : 10 ∈ String.utf8EncodeChar c) : c = '\n' := by
  have hbyte : ∀ n : ℕ, (10 : UInt8) = UInt8.ofNat n → n % 256 = 10 := fun n hn => by
    have hnat := congrArg UInt8.toNat hn
    rw [UInt8.toNat_ofNat'] at hnat
    exact hnat.symm
  unfold String.utf8EncodeChar at h
  dsimp only at h
  split_ifs at h with h1 h2 h3
  · have hval := hbyte _ (List.mem_singleton.1 h)
    exact Char.toNat_inj.1 (show c.val.toNat = 10 by omega)
  -- the bytes of all other characters are at least 128
  all_goals simp only [List.mem_cons, List.not_mem_nil, or_false] at h
  · rcases h with h | h <;> have hval := hbyte _ h <;> omega
  · rcases h with h | h | h <;> have hval := hbyte _ h <;> omega
  · rcases h with h | h | h | h <;> have hval := hbyte _ h <;> omega

theorem lf_mem_encode {text : List Char} (h : 10 ∈ encode text) : '\n' ∈ text := by
  obtain ⟨c, hc, hlf⟩ := List.mem_flatMap.1 h
  exact lf_mem_utf8EncodeChar hlf ▸ hc

end Utf8
