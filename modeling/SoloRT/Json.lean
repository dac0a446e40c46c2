import Mathlib.Data.List.Basic
import Mathlib.Data.Nat.Digits.Defs

/-!
# JSON

Values with whole numbers, and their compact text : no spaces, and no character escaped but quotes,
backslashes and control characters. So a text has no control character (`printable_dumps`), and
the text of an object begins and ends with its braces.

`parse` reads compact text. It gives back the value that was written (`parse_dumps`), whatever
characters the strings have, and nothing for an object whose text is cut off (`parse_cut`).
-/

/-- A JSON value, without fractions. The fields of an object are in the order of the text. -/
inductive Json
  | null
  | bool (b : Bool)
  | num (n : ℤ)
  | str (s : List Char)
  | arr (items : List Json)
  | obj (fields : List (List Char × Json))

namespace Json

/-! ## Writing -/

/-- A character in a string. -/
def escape (c : Char) : List Char :=
  if c = '"' then ['\\', '"']
  else if c = '\\' then ['\\', '\\']
  else if c = '\n' then ['\\', 'n']
  else if c = '\r' then ['\\', 'r']
  else if c = '\t' then ['\\', 't']
  else if c = '\x08' then ['\\', 'b']
  else if c = '\x0c' then ['\\', 'f']
  else if c.toNat < 0x20 then
    ['\\', 'u', '0', '0', Nat.digitChar (c.toNat / 16), Nat.digitChar (c.toNat % 16)]
  else [c]

def quote (s : List Char) : List Char :=
  '"' :: (s.flatMap escape ++ ['"'])

def dumpsInt (n : ℤ) : List Char :=
  if n < 0 then '-' :: Nat.toDigits 10 n.natAbs else Nat.toDigits 10 n.natAbs

/-- The separator before an item, unless it is the first one. -/
def separator (first : Bool) : List Char :=
  if first then [] else [',']

mutual

def dumps : Json → List Char
  | .null => ['n', 'u', 'l', 'l']
  | .bool true => ['t', 'r', 'u', 'e']
  | .bool false => ['f', 'a', 'l', 's', 'e']
  | .num n => dumpsInt n
  | .str s => quote s
  | .arr items => '[' :: (dumpsItems true items ++ [']'])
  | .obj fields => '{' :: (dumpsFields true fields ++ ['}'])

def dumpsItems : Bool → List Json → List Char
  | _, [] => []
  | first, v :: items => separator first ++ (dumps v ++ dumpsItems false items)

def dumpsFields : Bool → List (List Char × Json) → List Char
  | _, [] => []
  | first, (key, v) :: fields =>
    separator first ++ (quote key ++ ':' :: (dumps v ++ dumpsFields false fields))

end

mutual

/-- No object has a key twice. -/
def DistinctKeys : Json → Prop
  | .arr items => DistinctKeysItems items
  | .obj fields => (fields.map Prod.fst).Nodup ∧ DistinctKeysFields fields
  | _ => True

def DistinctKeysItems : List Json → Prop
  | [] => True
  | v :: items => DistinctKeys v ∧ DistinctKeysItems items

def DistinctKeysFields : List (List Char × Json) → Prop
  | [] => True
  | (_, v) :: fields => DistinctKeys v ∧ DistinctKeysFields fields

end

example : dumps (.obj [(['a'], .arr [.num (-12), .str ['"', '\n', 'é']]), (['b'], .null)]) =
    "\x7b\"a\":[-12,\"\\\"\\né\"],\"b\":null\x7d".toList := by decide

/-! ## Reading -/

/-- The value of a hexadecimal digit. -/
def hexValue (c : Char) : Option ℕ :=
  if '0' ≤ c ∧ c ≤ '9' then some (c.toNat - 48)
  else if 'a' ≤ c ∧ c ≤ 'f' then some (c.toNat - 87)
  else if 'A' ≤ c ∧ c ≤ 'F' then some (c.toNat - 55)
  else none

/-- The rest of an escaped character, outside of the surrogates. -/
def readEscape : List Char → Option (Char × List Char)
  | '"' :: rest => some ('"', rest)
  | '\\' :: rest => some ('\\', rest)
  | '/' :: rest => some ('/', rest)
  | 'b' :: rest => some ('\x08', rest)
  | 'f' :: rest => some ('\x0c', rest)
  | 'n' :: rest => some ('\n', rest)
  | 'r' :: rest => some ('\r', rest)
  | 't' :: rest => some ('\t', rest)
  | 'u' :: a :: b :: c :: d :: rest => do
    let n := 4096 * (← hexValue a) + 256 * (← hexValue b) + 16 * (← hexValue c) + (← hexValue d)
    if n.isValidChar then some (Char.ofNat n, rest) else none
  | _ => none

/-- A character of a string. -/
def readChar : List Char → Option (Char × List Char)
  | [] => none
  | c :: rest =>
    if c = '\\' then readEscape rest
    else if c = '"' ∨ c.toNat < 0x20 then none
    else some (c, rest)

/-- The rest of a string, with its quote. -/
def parseString : ℕ → List Char → Option (List Char × List Char)
  | 0, _ => none
  | fuel + 1, text =>
    if text.head? = some '"' then some ([], text.tail)
    else do
      let (c, text) ← readChar text
      let (s, text) ← parseString fuel text
      some (c :: s, text)

def parseInt (text : List Char) : Option (Json × List Char) :=
  let negative := text.head? = some '-'
  let text := if negative then text.tail else text
  let digits := text.takeWhile Char.isDigit
  if digits = [] then none
  else
    let n : ℤ := Nat.ofDigitChars 10 digits 0
    some (.num (if negative then -n else n), text.dropWhile Char.isDigit)

/-- The text after a word that it has to begin with. -/
def expect (word text : List Char) : Option (List Char) :=
  if word <+: text then some (text.drop word.length) else none

mutual

def parseValue : ℕ → List Char → Option (Json × List Char)
  | 0, _ => none
  | _ + 1, [] => none
  | fuel + 1, c :: rest =>
    if c = 'n' then (expect ['u', 'l', 'l'] rest).map (.null, ·)
    else if c = 't' then (expect ['r', 'u', 'e'] rest).map (.bool true, ·)
    else if c = 'f' then (expect ['a', 'l', 's', 'e'] rest).map (.bool false, ·)
    else if c = '"' then (parseString fuel rest).map fun (s, rest) => (.str s, rest)
    else if c = '[' then (parseItems fuel true rest).map fun (items, rest) => (.arr items, rest)
    else if c = '{' then (parseFields fuel true rest).map fun (fields, rest) => (.obj fields, rest)
    else parseInt (c :: rest)

def parseItems : ℕ → Bool → List Char → Option (List Json × List Char)
  | 0, _, _ => none
  | fuel + 1, first, text =>
    if text.head? = some ']' then some ([], text.tail)
    else do
      let text ← expect (separator first) text
      let (v, text) ← parseValue fuel text
      let (items, text) ← parseItems fuel false text
      some (v :: items, text)

def parseFields : ℕ → Bool → List Char → Option (List (List Char × Json) × List Char)
  | 0, _, _ => none
  | fuel + 1, first, text =>
    if text.head? = some '}' then some ([], text.tail)
    else do
      let text ← expect (separator first ++ ['"']) text
      let (key, text) ← parseString fuel text
      let text ← expect [':'] text
      let (v, text) ← parseValue fuel text
      let (fields, text) ← parseFields fuel false text
      some ((key, v) :: fields, text)

end

/-- The value that a text is. -/
def parse (text : List Char) : Option Json :=
  match parseValue text.length text with
  | some (v, []) => some v
  | _ => none

/-! ## Strings and numbers -/

/-- The four digits of a control character. -/
theorem readEscape_control {n : ℕ} (hn : n < 0x20) (rest : List Char) :
    readEscape ('u' :: '0' :: '0' :: Nat.digitChar (n / 16) :: Nat.digitChar (n % 16) :: rest) =
      some (Char.ofNat n, rest) := by
  have hdigits : ∀ n < 0x20, hexValue (Nat.digitChar (n / 16)) = some (n / 16) ∧
      hexValue (Nat.digitChar (n % 16)) = some (n % 16) ∧ n.isValidChar := by decide
  obtain ⟨hhigh, hlow, hvalid⟩ := hdigits n hn
  have hzero : hexValue '0' = some 0 := rfl
  have hn' : 16 * (n / 16) + n % 16 = n := Nat.div_add_mod n 16
  simp [readEscape, hhigh, hlow, hzero, hn', hvalid]

/-- A character is written as a backslash and a letter, as a backslash and its four digits, or as
itself. -/
theorem escape_cases (c : Char) :
    (∃ letter, escape c = ['\\', letter] ∧ 0x20 ≤ letter.toNat ∧
      ∀ rest, readEscape (letter :: rest) = some (c, rest)) ∨
    (c.toNat < 0x20 ∧ escape c =
      ['\\', 'u', '0', '0', Nat.digitChar (c.toNat / 16), Nat.digitChar (c.toNat % 16)]) ∨
    (c ≠ '"' ∧ c ≠ '\\' ∧ 0x20 ≤ c.toNat ∧ escape c = [c]) := by
  by_cases hquote : c = '"'
  · exact .inl ⟨'"', by rw [hquote]; rfl, by decide, fun _ => by rw [hquote]; rfl⟩
  by_cases hback : c = '\\'
  · exact .inl ⟨'\\', by rw [hback]; rfl, by decide, fun _ => by rw [hback]; rfl⟩
  by_cases hlf : c = '\n'
  · exact .inl ⟨'n', by rw [hlf]; rfl, by decide, fun _ => by rw [hlf]; rfl⟩
  by_cases hcr : c = '\r'
  · exact .inl ⟨'r', by rw [hcr]; rfl, by decide, fun _ => by rw [hcr]; rfl⟩
  by_cases htab : c = '\t'
  · exact .inl ⟨'t', by rw [htab]; rfl, by decide, fun _ => by rw [htab]; rfl⟩
  by_cases hbs : c = '\x08'
  · exact .inl ⟨'b', by rw [hbs]; rfl, by decide, fun _ => by rw [hbs]; rfl⟩
  by_cases hff : c = '\x0c'
  · exact .inl ⟨'f', by rw [hff]; rfl, by decide, fun _ => by rw [hff]; rfl⟩
  rw [escape, if_neg hquote, if_neg hback, if_neg hlf, if_neg hcr, if_neg htab, if_neg hbs,
    if_neg hff]
  by_cases hcontrol : c.toNat < 0x20
  · exact .inr (.inl ⟨hcontrol, if_pos hcontrol⟩)
  · exact .inr (.inr ⟨hquote, hback, not_lt.1 hcontrol, if_neg hcontrol⟩)

theorem readChar_escape (c : Char) (rest : List Char) :
    readChar (escape c ++ rest) = some (c, rest) := by
  obtain ⟨letter, heq, -, hread⟩ | ⟨hlow, heq⟩ | ⟨hquote, hback, hhigh, heq⟩ := escape_cases c
  · rw [heq]
    exact hread rest
  · rw [heq, List.cons_append, readChar, if_pos rfl]
    have hread := readEscape_control hlow rest
    rwa [Char.ofNat_toNat] at hread
  · rw [heq, List.singleton_append, readChar, if_neg hback,
      if_neg (not_or.2 ⟨hquote, not_lt.2 hhigh⟩)]

/-- The text of a character does not begin with a quote. -/
theorem head?_escape (c : Char) (rest : List Char) : (escape c ++ rest).head? ≠ some '"' := by
  obtain ⟨letter, heq, -⟩ | ⟨-, heq⟩ | ⟨hquote, -, -, heq⟩ := escape_cases c
  · rw [heq]
    exact fun h => absurd (Option.some.inj h) (by decide)
  · rw [heq]
    exact fun h => absurd (Option.some.inj h) (by decide)
  · rw [heq]
    exact fun h => hquote (Option.some.inj h)

theorem parseString_escape : ∀ (s : List Char) {fuel : ℕ} (rest : List Char), s.length < fuel →
    parseString fuel (s.flatMap escape ++ '"' :: rest) = some (s, rest)
  | [], fuel + 1, rest, _ => rfl
  | c :: s, fuel + 1, rest, h => by
    have hs := parseString_escape s rest (Nat.lt_of_succ_lt_succ h)
    rw [List.flatMap_cons, List.append_assoc, parseString, if_neg (head?_escape c _),
      readChar_escape]
    simp [hs]

/-- The text goes on with something else than a digit. -/
def NoDigit (rest : List Char) : Prop :=
  ∀ c ∈ rest.head?, c.isDigit = false

theorem takeWhile_digits {digits rest : List Char} (hdigits : ∀ c ∈ digits, c.isDigit = true)
    (hrest : NoDigit rest) : (digits ++ rest).takeWhile Char.isDigit = digits ∧
      (digits ++ rest).dropWhile Char.isDigit = rest := by
  rw [List.takeWhile_append_of_pos hdigits, List.dropWhile_append_of_pos hdigits]
  cases rest with
  | nil => simp
  | cons c rest =>
    have hc : c.isDigit = false := hrest c rfl
    simp [hc]

theorem isDigit_toDigits (n : ℕ) : ∀ c ∈ Nat.toDigits 10 n, c.isDigit = true := fun _ hc =>
  Nat.isDigit_of_mem_toDigits (by decide) (by decide) hc

/-- The first character of a number is a digit or a minus. -/
theorem dumpsInt_head (n : ℤ) :
    ∃ c rest, dumpsInt n = c :: rest ∧ (c.isDigit = true ∨ c = '-') := by
  unfold dumpsInt
  split_ifs
  · exact ⟨_, _, rfl, .inr rfl⟩
  · obtain ⟨c, rest, hdigits⟩ := List.exists_cons_of_ne_nil (@Nat.toDigits_ne_nil n.natAbs 10)
    refine ⟨c, rest, hdigits, .inl (isDigit_toDigits n.natAbs c ?_)⟩
    rw [hdigits]
    exact List.mem_cons_self

theorem parseInt_dumpsInt (n : ℤ) {rest : List Char} (hrest : NoDigit rest) :
    parseInt (dumpsInt n ++ rest) = some (.num n, rest) := by
  obtain ⟨htake, hdrop⟩ := takeWhile_digits (isDigit_toDigits n.natAbs) hrest
  have hvalue : Nat.ofDigitChars 10 (Nat.toDigits 10 n.natAbs) 0 = n.natAbs :=
    Nat.ofDigitChars_ten_toDigits
  have hne : Nat.toDigits 10 n.natAbs ≠ [] := Nat.toDigits_ne_nil
  unfold dumpsInt
  split_ifs with hn
  · simp only [parseInt, List.cons_append, List.head?_cons, List.tail_cons, if_true, htake, hdrop,
      hvalue, hne, if_false]
    congr
    omega
  · have hhead : (Nat.toDigits 10 n.natAbs ++ rest).head? ≠ some '-' := by
      obtain ⟨c, more, hdigits⟩ := List.exists_cons_of_ne_nil hne
      have hdigit := isDigit_toDigits n.natAbs c (by rw [hdigits]; exact List.mem_cons_self)
      rw [hdigits, List.cons_append, List.head?_cons]
      intro heq
      rw [Option.some.inj heq] at hdigit
      exact absurd hdigit (by decide)
    simp only [parseInt, hhead, if_false, htake, hdrop, hvalue, hne]
    congr
    omega

/-! ## Reading what was written -/

/-- The text of a value begins with no closing bracket. -/
theorem dumps_head (v : Json) : ∃ c rest, dumps v = c :: rest ∧ c ≠ ']' := by
  rcases v with - | (- | -) | n | s | items | fields
  case num =>
    obtain ⟨c, rest, hdumps, hc⟩ := dumpsInt_head n
    refine ⟨c, rest, hdumps, ?_⟩
    rintro rfl
    exact absurd hc (by decide)
  all_goals exact ⟨_, _, rfl, by decide⟩

theorem dumps_length_pos (v : Json) : 0 < (dumps v).length := by
  obtain ⟨c, rest, hdumps, -⟩ := dumps_head v
  rw [hdumps]
  exact Nat.succ_pos _

theorem length_le_escape (s : List Char) : s.length ≤ (s.flatMap escape).length := by
  induction s with
  | nil => exact le_rfl
  | cons c s ih =>
    have hc : 0 < (escape c).length := by
      obtain ⟨letter, heq, -⟩ | ⟨-, heq⟩ | ⟨-, -, -, heq⟩ := escape_cases c <;> simp [heq]
    rw [List.flatMap_cons, List.length_append, List.length_cons]
    omega

theorem expect_append (word rest : List Char) : expect word (word ++ rest) = some rest := by
  rw [expect, if_pos (List.prefix_append word rest), List.drop_left]

/-- After a value come a separator or a closing bracket. -/
theorem noDigit_items (items : List Json) (rest : List Char) :
    NoDigit (dumpsItems false items ++ ']' :: rest) := by
  cases items <;> rintro c ⟨⟩ <;> rfl

theorem noDigit_fields (fields : List (List Char × Json)) (rest : List Char) :
    NoDigit (dumpsFields false fields ++ '}' :: rest) := by
  rcases fields with - | ⟨⟨key, v⟩, fields⟩ <;> rintro c ⟨⟩ <;> rfl

theorem parseValue_num (n : ℤ) (fuel : ℕ) {rest : List Char} (hrest : NoDigit rest) :
    parseValue (fuel + 1) (dumpsInt n ++ rest) = some (.num n, rest) := by
  have hparse := parseInt_dumpsInt n hrest
  obtain ⟨c, more, hdumps, hc⟩ := dumpsInt_head n
  rw [hdumps, List.cons_append] at hparse ⊢
  have hne : ∀ d : Char, d.isDigit = false → d ≠ '-' → c ≠ d := by
    rintro d hd hd' rfl
    rcases hc with hc | hc
    · rw [hc] at hd
      cases hd
    · exact hd' hc
  rw [parseValue, if_neg (hne _ rfl (by decide)), if_neg (hne _ rfl (by decide)),
    if_neg (hne _ rfl (by decide)), if_neg (hne _ rfl (by decide)), if_neg (hne _ rfl (by decide)),
    if_neg (hne _ rfl (by decide)), hparse]

theorem parseValue_quote (fuel : ℕ) (text : List Char) : parseValue (fuel + 1) ('"' :: text) =
    (parseString fuel text).map fun (s, rest) => (.str s, rest) := rfl

theorem parseValue_bracket (fuel : ℕ) (text : List Char) : parseValue (fuel + 1) ('[' :: text) =
    (parseItems fuel true text).map fun (items, rest) => (.arr items, rest) := rfl

theorem parseValue_brace (fuel : ℕ) (text : List Char) : parseValue (fuel + 1) ('{' :: text) =
    (parseFields fuel true text).map fun (fields, rest) => (.obj fields, rest) := rfl

mutual

theorem parseValue_dumps : ∀ (v : Json) {fuel : ℕ} {rest : List Char},
    (dumps v).length ≤ fuel → NoDigit rest → parseValue fuel (dumps v ++ rest) = some (v, rest)
  | .null, fuel + 1, rest, _, _ => congrArg (Option.map _) (expect_append ['u', 'l', 'l'] rest)
  | .bool true, fuel + 1, rest, _, _ =>
    congrArg (Option.map _) (expect_append ['r', 'u', 'e'] rest)
  | .bool false, fuel + 1, rest, _, _ =>
    congrArg (Option.map _) (expect_append ['a', 'l', 's', 'e'] rest)
  | .num n, fuel + 1, rest, _, hrest => parseValue_num n fuel hrest
  | .str s, fuel + 1, rest, h, _ => by
    have hlen := length_le_escape s
    simp only [dumps, quote, List.length_cons, List.length_append, List.length_nil] at h
    have hs := parseString_escape s rest (by omega : s.length < fuel)
    rw [dumps, quote, List.cons_append, List.append_assoc, List.singleton_append, parseValue_quote,
      hs]
    rfl
  | .arr items, fuel + 1, rest, h, _ => by
    simp only [dumps, List.length_cons, List.length_append, List.length_nil] at h
    have hitems := parseItems_dumps items true rest (by omega : _ < fuel)
    rw [dumps, List.cons_append, List.append_assoc, List.singleton_append, parseValue_bracket,
      hitems]
    rfl
  | .obj fields, fuel + 1, rest, h, _ => by
    simp only [dumps, List.length_cons, List.length_append, List.length_nil] at h
    have hfields := parseFields_dumps fields true rest (by omega : _ < fuel)
    rw [dumps, List.cons_append, List.append_assoc, List.singleton_append, parseValue_brace,
      hfields]
    rfl
  | v, 0, rest, h, _ => absurd h (not_le.2 (dumps_length_pos v))

theorem parseItems_dumps : ∀ (items : List Json) (first : Bool) {fuel : ℕ} (rest : List Char),
    (dumpsItems first items).length < fuel →
    parseItems fuel first (dumpsItems first items ++ ']' :: rest) = some (items, rest)
  | [], first, fuel + 1, rest, _ => by simp [dumpsItems, parseItems]
  | v :: items, first, fuel + 1, rest, h => by
    have hpos := dumps_length_pos v
    simp only [dumpsItems, List.length_append] at h
    have hv := parseValue_dumps v (by omega : (dumps v).length ≤ fuel) (noDigit_items items rest)
    have hitems := parseItems_dumps items false rest (by omega : _ < fuel)
    have hhead : (separator first ++ (dumps v ++ (dumpsItems false items ++ ']' :: rest))).head? ≠
        some ']' := by
      obtain ⟨c, more, hdumps, hc⟩ := dumps_head v
      cases first
      · simp [separator]
      · simpa [separator, hdumps] using hc
    rw [dumpsItems, List.append_assoc, List.append_assoc, parseItems, if_neg hhead, expect_append]
    simp [hv, hitems]

theorem parseFields_dumps : ∀ (fields : List (List Char × Json)) (first : Bool) {fuel : ℕ}
    (rest : List Char), (dumpsFields first fields).length < fuel →
    parseFields fuel first (dumpsFields first fields ++ '}' :: rest) = some (fields, rest)
  | [], first, fuel + 1, rest, _ => by simp [dumpsFields, parseFields]
  | (key, v) :: fields, first, fuel + 1, rest, h => by
    have hpos := dumps_length_pos v
    have hlen := length_le_escape key
    simp only [dumpsFields, quote, List.length_append, List.length_cons, List.length_nil] at h
    have hkey := parseString_escape key
      ([':'] ++ (dumps v ++ (dumpsFields false fields ++ '}' :: rest))) (by omega : _ < fuel)
    have hv := parseValue_dumps v (by omega : (dumps v).length ≤ fuel) (noDigit_fields fields rest)
    have hfields := parseFields_dumps fields false rest (by omega : _ < fuel)
    have htext : dumpsFields first ((key, v) :: fields) ++ '}' :: rest =
        (separator first ++ ['"']) ++ (key.flatMap escape ++ '"' ::
          ([':'] ++ (dumps v ++ (dumpsFields false fields ++ '}' :: rest)))) := by
      simp [dumpsFields, quote]
    have hhead : ((separator first ++ ['"']) ++ (key.flatMap escape ++ '"' ::
        ([':'] ++ (dumps v ++ (dumpsFields false fields ++ '}' :: rest))))).head? ≠ some '}' := by
      cases first <;> simp [separator]
    rw [htext, parseFields, if_neg hhead, expect_append]
    simp only [hkey, expect_append, hv, hfields, Option.bind_eq_bind, Option.bind_some]

end

/-- Whatever was written is read back. -/
theorem parse_dumps (v : Json) : parse (dumps v) = some v := by
  have hparse : parseValue (dumps v).length (dumps v ++ []) = some (v, []) :=
    parseValue_dumps v le_rfl (by rintro c ⟨⟩)
  rw [List.append_nil] at hparse
  rw [parse, hparse]

/-! ## A text that is cut off -/

theorem readEscape_append {text rest : List Char} {c : Char}
    (h : readEscape text = some (c, rest)) (more : List Char) :
    readEscape (text ++ more) = some (c, rest ++ more) := by
  fun_cases readEscape text with
  | case1 | case2 | case3 | case4 | case5 | case6 | case7 | case8 =>
    cases h
    rfl
  | case9 a b c' d rest' =>
    simp only [readEscape, List.cons_append] at h ⊢
    cases ha : hexValue a <;> cases hb : hexValue b <;> cases hc : hexValue c' <;>
      cases hd : hexValue d <;> simp_all
  | case10 => simp_all [readEscape]

theorem readChar_append {text rest : List Char} {c : Char} (h : readChar text = some (c, rest))
    (more : List Char) : readChar (text ++ more) = some (c, rest ++ more) := by
  cases text with
  | nil => cases h
  | cons d text =>
    rw [readChar] at h
    rw [List.cons_append, readChar]
    split_ifs at h ⊢
    · exact readEscape_append h more
    · cases h
      rfl

theorem expect_append_right {word text rest : List Char} (h : expect word text = some rest)
    (more : List Char) : expect word (text ++ more) = some (rest ++ more) := by
  unfold expect at h
  split_ifs at h with hword
  obtain ⟨tail, rfl⟩ := hword
  rw [List.drop_left] at h
  cases h
  rw [List.append_assoc, expect_append]

theorem parseString_append : ∀ {fuel fuel' : ℕ} {text s rest : List Char}, fuel ≤ fuel' →
    parseString fuel text = some (s, rest) → ∀ more,
    parseString fuel' (text ++ more) = some (s, rest ++ more)
  | fuel + 1, fuel' + 1, text, s, rest, hfuel, h, more => by
    have hne : text ≠ [] := by
      rintro rfl
      cases h
    rw [parseString] at h ⊢
    rw [List.head?_append_of_ne_nil text hne]
    split_ifs at h ⊢ with hquote
    · cases h
      rw [List.tail_append_of_ne_nil hne]
    · obtain ⟨⟨c, text'⟩, hread, h⟩ := Option.bind_eq_some_iff.1 h
      obtain ⟨⟨s', rest'⟩, hs, h⟩ := Option.bind_eq_some_iff.1 h
      cases h
      rw [readChar_append hread]
      simp [parseString_append (Nat.le_of_succ_le_succ hfuel) hs more]

/-- The digits at the beginning, if something follows them. -/
theorem digits_append {text : List Char} (h : text.dropWhile Char.isDigit ≠ [])
    (more : List Char) :
    (text ++ more).takeWhile Char.isDigit = text.takeWhile Char.isDigit ∧
      (text ++ more).dropWhile Char.isDigit = text.dropWhile Char.isDigit ++ more := by
  have hlen : (text.takeWhile Char.isDigit).length ≠ text.length := fun heq => h <| by
    have hsplit := congrArg List.length (@List.takeWhile_append_dropWhile _ Char.isDigit text)
    rw [List.length_append, heq, Nat.add_eq_left] at hsplit
    exact List.length_eq_zero_iff.1 hsplit
  rw [List.takeWhile_append, List.dropWhile_append, if_neg hlen, if_neg (by simpa using h)]
  exact ⟨rfl, rfl⟩

theorem parseInt_append {text rest : List Char} {v : Json} (h : parseInt text = some (v, rest))
    (hrest : rest ≠ []) (more : List Char) :
    parseInt (text ++ more) = some (v, rest ++ more) := by
  have hne : text ≠ [] := by
    rintro rfl
    cases h
  unfold parseInt at h ⊢
  rw [List.head?_append_of_ne_nil text hne, List.tail_append_of_ne_nil hne]
  by_cases hminus : text.head? = some '-' <;> simp only [hminus, if_true, if_false] at h ⊢ <;>
    split_ifs at h with hdigits <;> cases h <;>
    rw [(digits_append hrest more).1, (digits_append hrest more).2, if_neg hdigits]

theorem parseInt_num {text rest : List Char} {v : Json} (h : parseInt text = some (v, rest)) :
    ∃ n, v = .num n := by
  simp only [parseInt] at h
  split_ifs at h <;> cases h <;> exact ⟨_, rfl⟩

/-- The closing bracket of items or fields is still to come. -/
theorem parseItems_nil (fuel : ℕ) (first : Bool) : parseItems fuel first [] = none := by
  rcases fuel with - | - | fuel <;> cases first <;> rfl

theorem parseFields_nil (fuel : ℕ) (first : Bool) : parseFields fuel first [] = none := by
  cases fuel <;> cases first <;> rfl

mutual

/-- More text after a value leaves it what it was, but for a number at the end. -/
theorem parseValue_append : ∀ {fuel fuel' : ℕ} {text rest : List Char} {v : Json}, fuel ≤ fuel' →
    parseValue fuel text = some (v, rest) → (rest ≠ [] ∨ ∀ n, v ≠ .num n) → ∀ more,
    parseValue fuel' (text ++ more) = some (v, rest ++ more)
  | fuel + 1, fuel' + 1, c :: text, rest, v, hfuel, h, hend, more => by
    have hfuel' := Nat.le_of_succ_le_succ hfuel
    have hrest : ∀ {n : ℤ}, v = .num n → rest ≠ [] := fun hv =>
      hend.resolve_right fun hne => hne _ hv
    rw [parseValue] at h
    rw [List.cons_append, parseValue]
    split_ifs at h ⊢
    · obtain ⟨text', htext, h⟩ := Option.map_eq_some_iff.1 h
      cases h
      rw [expect_append_right htext, Option.map_some]
    · obtain ⟨text', htext, h⟩ := Option.map_eq_some_iff.1 h
      cases h
      rw [expect_append_right htext, Option.map_some]
    · obtain ⟨text', htext, h⟩ := Option.map_eq_some_iff.1 h
      cases h
      rw [expect_append_right htext, Option.map_some]
    · obtain ⟨⟨s, text'⟩, htext, h⟩ := Option.map_eq_some_iff.1 h
      cases h
      rw [parseString_append hfuel' htext, Option.map_some]
    · obtain ⟨⟨items, text'⟩, htext, h⟩ := Option.map_eq_some_iff.1 h
      cases h
      rw [parseItems_append hfuel' htext, Option.map_some]
    · obtain ⟨⟨fields, text'⟩, htext, h⟩ := Option.map_eq_some_iff.1 h
      cases h
      rw [parseFields_append hfuel' htext, Option.map_some]
    · obtain ⟨n, hn⟩ := parseInt_num h
      exact parseInt_append h (hrest hn) more

theorem parseItems_append : ∀ {fuel fuel' : ℕ} {first : Bool} {text rest : List Char}
    {items : List Json}, fuel ≤ fuel' → parseItems fuel first text = some (items, rest) → ∀ more,
    parseItems fuel' first (text ++ more) = some (items, rest ++ more)
  | fuel + 1, fuel' + 1, first, text, rest, items, hfuel, h, more => by
    have hfuel' := Nat.le_of_succ_le_succ hfuel
    have hne : text ≠ [] := by
      rintro rfl
      rw [parseItems_nil] at h
      cases h
    rw [parseItems] at h ⊢
    rw [List.head?_append_of_ne_nil text hne]
    split_ifs at h ⊢ with hbracket
    · cases h
      rw [List.tail_append_of_ne_nil hne]
    · obtain ⟨text₁, h₁, h⟩ := Option.bind_eq_some_iff.1 h
      obtain ⟨⟨v, text₂⟩, h₂, h⟩ := Option.bind_eq_some_iff.1 h
      obtain ⟨⟨items', text₃⟩, h₃, h⟩ := Option.bind_eq_some_iff.1 h
      cases h
      have hend : text₂ ≠ [] := by
        rintro rfl
        rw [parseItems_nil] at h₃
        cases h₃
      simp [expect_append_right h₁, parseValue_append hfuel' h₂ (.inl hend),
        parseItems_append hfuel' h₃]

theorem parseFields_append : ∀ {fuel fuel' : ℕ} {first : Bool} {text rest : List Char}
    {fields : List (List Char × Json)}, fuel ≤ fuel' →
    parseFields fuel first text = some (fields, rest) → ∀ more,
    parseFields fuel' first (text ++ more) = some (fields, rest ++ more)
  | fuel + 1, fuel' + 1, first, text, rest, fields, hfuel, h, more => by
    have hfuel' := Nat.le_of_succ_le_succ hfuel
    have hne : text ≠ [] := by
      rintro rfl
      rw [parseFields_nil] at h
      cases h
    rw [parseFields] at h ⊢
    rw [List.head?_append_of_ne_nil text hne]
    split_ifs at h ⊢ with hbrace
    · cases h
      rw [List.tail_append_of_ne_nil hne]
    · obtain ⟨text₁, h₁, h⟩ := Option.bind_eq_some_iff.1 h
      obtain ⟨⟨key, text₂⟩, h₂, h⟩ := Option.bind_eq_some_iff.1 h
      obtain ⟨text₃, h₃, h⟩ := Option.bind_eq_some_iff.1 h
      obtain ⟨⟨v, text₄⟩, h₄, h⟩ := Option.bind_eq_some_iff.1 h
      obtain ⟨⟨fields', text₅⟩, h₅, h⟩ := Option.bind_eq_some_iff.1 h
      cases h
      have hend : text₄ ≠ [] := by
        rintro rfl
        rw [parseFields_nil] at h₅
        cases h₅
      simp [expect_append_right h₁, parseString_append hfuel' h₂, expect_append_right h₃,
        parseValue_append hfuel' h₄ (.inl hend), parseFields_append hfuel' h₅]

end

/-- The text of an object is read only when it is whole. -/
theorem parse_cut {fields : List (List Char × Json)} {text : List Char}
    (h : text <+: dumps (.obj fields)) (hne : text ≠ dumps (.obj fields)) : parse text = none := by
  obtain ⟨more, hmore⟩ := h
  have hwhole : parseValue (dumps (.obj fields)).length (dumps (.obj fields) ++ []) =
      some (.obj fields, []) :=
    parseValue_dumps _ le_rfl (by rintro c ⟨⟩)
  rw [List.append_nil] at hwhole
  unfold parse
  split
  · rename_i v hparse
    have hbrace : ∀ n, v ≠ .num n := by
      rintro n rfl
      cases text with
      | nil => cases hparse
      | cons c text =>
        obtain rfl : c = '{' := by
          rw [dumps, List.cons_append] at hmore
          exact (List.cons.inj hmore).1
        rw [List.length_cons, parseValue_brace] at hparse
        obtain ⟨r, -, hr⟩ := Option.map_eq_some_iff.1 hparse
        cases hr
    have hlen : text.length ≤ (dumps (.obj fields)).length := by
      rw [← hmore, List.length_append]
      exact Nat.le_add_right ..
    have happend := parseValue_append hlen hparse (.inr hbrace) more
    rw [hmore, hwhole] at happend
    cases happend
    exact absurd (by rw [← hmore, List.append_nil]) hne
  · rfl

/-! ## The characters of a text -/

/-- No control character. -/
def Printable (text : List Char) : Prop :=
  ∀ c ∈ text, 0x20 ≤ c.toNat

instance (text : List Char) : Decidable (Printable text) :=
  List.decidableBAll (fun c : Char => 0x20 ≤ c.toNat) text

theorem printable_append {xs ys : List Char} :
    Printable (xs ++ ys) ↔ Printable xs ∧ Printable ys :=
  List.forall_mem_append

theorem printable_cons {c : Char} {text : List Char} :
    Printable (c :: text) ↔ 0x20 ≤ c.toNat ∧ Printable text :=
  List.forall_mem_cons

theorem printable_escape (c : Char) : Printable (escape c) := by
  have hcontrol : ∀ n < 0x20, Printable
      ['\\', 'u', '0', '0', Nat.digitChar (n / 16), Nat.digitChar (n % 16)] := by decide
  obtain ⟨letter, heq, hletter, -⟩ | ⟨hlow, heq⟩ | ⟨-, -, hhigh, heq⟩ := escape_cases c
  · rw [heq]
    exact printable_cons.2 ⟨by decide, printable_cons.2 ⟨hletter, nofun⟩⟩
  · rw [heq]
    exact hcontrol _ hlow
  · rw [heq]
    exact printable_cons.2 ⟨hhigh, nofun⟩

theorem printable_quote (s : List Char) : Printable (quote s) := by
  have hs : Printable (s.flatMap escape) := fun c hc => by
    obtain ⟨d, -, hc⟩ := List.mem_flatMap.1 hc
    exact printable_escape d c hc
  exact printable_cons.2 ⟨by decide, printable_append.2 ⟨hs, by decide⟩⟩

theorem printable_dumpsInt (n : ℤ) : Printable (dumpsInt n) := by
  have hdigits : Printable (Nat.toDigits 10 n.natAbs) := fun c hc => by
    have hdigit := Char.isDigit_iff_toNat.1 (isDigit_toDigits n.natAbs c hc)
    have hzero : '0'.toNat = 48 := rfl
    omega
  unfold dumpsInt
  split_ifs
  · exact printable_cons.2 ⟨by decide, hdigits⟩
  · exact hdigits

theorem printable_separator (first : Bool) : Printable (separator first) := by
  cases first <;> decide

mutual

/-- A text has no control character. -/
theorem printable_dumps : ∀ v : Json, Printable (dumps v)
  | .null => by decide
  | .bool true => by decide
  | .bool false => by decide
  | .num n => printable_dumpsInt n
  | .str s => printable_quote s
  | .arr items => printable_cons.2
    ⟨by decide, printable_append.2 ⟨printable_dumpsItems true items, by decide⟩⟩
  | .obj fields => printable_cons.2
    ⟨by decide, printable_append.2 ⟨printable_dumpsFields true fields, by decide⟩⟩

theorem printable_dumpsItems : ∀ (first : Bool) (items : List Json),
    Printable (dumpsItems first items)
  | _, [] => nofun
  | first, v :: items => printable_append.2 ⟨printable_separator first,
    printable_append.2 ⟨printable_dumps v, printable_dumpsItems false items⟩⟩

theorem printable_dumpsFields : ∀ (first : Bool) (fields : List (List Char × Json)),
    Printable (dumpsFields first fields)
  | _, [] => nofun
  | first, (key, v) :: fields => printable_append.2 ⟨printable_separator first,
    printable_append.2 ⟨printable_quote key, printable_cons.2 ⟨by decide,
      printable_append.2 ⟨printable_dumps v, printable_dumpsFields false fields⟩⟩⟩⟩

end

end Json
