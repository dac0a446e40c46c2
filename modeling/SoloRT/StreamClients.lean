import SoloRT.EventStream
import SoloRT.StreamText

/-!
# The clients of the event stream

Three programs read the stream of a completion. `stream_chat_text` (`cli.py`) yields the content of
each payload. `stream_reply` (`scripts/chat.py`) reads one line at a time, passes over what is no
JSON, and stops at `[DONE]`. `run_streaming_request` (`benchmarks/bench_serving.py`) returns at
`[DONE]`, and raises if there is none.

A response can be cut off at any byte : inside a character, inside a payload, or between two events.
The iteration over its lines ends there if the end of the connection ends the response, or raises
and loses the line that is cut off if the response has chunks (`rawLines`). `CutLines` is what the
clients iterate over, and how much of the stream of events is in it. Whatever is left of the next
event, no client takes it for a text, because the beginning of an object is no JSON
(`beginning_of_cut`). So in any run of the server, and wherever the response is cut off, the first
two read the texts that arrived and no others, and the third returns only if all did
(`clients_read`).
-/

namespace SoloRT

/-! ## The clients -/

/-- `json`, with `isinstance(exc, json.JSONDecodeError)`. -/
structure JsonModule extends JsonLibrary where
  isDecodeError : PyError → Bool

/-- The contents of payloads, where the payloads end like this. -/
def contentsOf (lib : JsonLibrary) :
    List Text → Except PyError Unit → List Text × Except PyError Unit
  | [], result => ([], result)
  | payload :: payloads, result =>
    match contentFromSsePayload lib payload with
    | .error e => ([], .error e)
    | .ok content =>
      let (contents, result) := contentsOf lib payloads result
      (content.toList.filter (· ≠ []) ++ contents, result)

/-- `stream_chat_text` of a response. The contents that it yields, and how it ends. -/
def streamChatText (lib : JsonLibrary) (response : List RawLine) :
    List Text × Except PyError Unit :=
  let (payloads, result) := iterSsePayloads response
  contentsOf lib payloads result

/-- `choices[0].get("delta", {}).get("content")`. -/
def choiceContent (choices : Json) : Except PyError Json := do
  let choice ← firstItem choices
  let delta ← getField choice "delta".toList (.obj [])
  getField delta "content".toList .null

/-- What `stream_reply` does with a payload : the pieces, and what it returns or raises if it does
not read on. -/
def replyPayload (lib : JsonModule) (pieces : List Text) (payload : Text) :
    List Text × Option (Except PyError Text) :=
  if payload = "[DONE]".toList then (pieces, some (.ok pieces.flatten))
  else
    match lib.loads payload with
    | .error e => (pieces, if lib.isDecodeError e then none else some (.error e))
    | .ok obj =>
      match getField obj "choices".toList (.arr [.obj []]) >>= choiceContent with
      | .error e => (pieces, some (.error e))
      | .ok delta =>
        if truthy delta then
          match delta with
          | .str text => (pieces ++ [text], none)
          -- `sys.stdout.write` of something else
          | value => (pieces, some (.error ⟨.typeError, "write() argument must be str, not " ++
              typeName value⟩))
        else (pieces, none)

/-- `for raw in resp`, with `raw.decode("utf-8")`. -/
def RawLine.decodeBytes : RawLine → Except PyError Text
  | .str _ => .error ⟨.attributeError, "'str' object has no attribute 'decode'"⟩
  | raw => raw.decode

/-- The loop of `stream_reply`, from these pieces : the pieces it wrote, and what it returns. -/
def streamReplyFrom (lib : JsonModule) : List Text → List RawLine → List Text × Except PyError Text
  | pieces, [] => (pieces, .ok pieces.flatten)
  | pieces, raw :: lines =>
    match raw.decodeBytes with
    | .error e => (pieces, .error e)
    | .ok text =>
      let line := strip text
      if "data:".toList <+: line then
        match replyPayload lib pieces (strip (line.drop 5)) with
        | (pieces, none) => streamReplyFrom lib pieces lines
        | (pieces, some result) => (pieces, result)
      else streamReplyFrom lib pieces lines

def streamReply (lib : JsonModule) (response : List RawLine) : List Text × Except PyError Text :=
  streamReplyFrom lib [] response

/-- `ServingRun`, without its times. -/
structure ServingRun where
  label : String
  url : String
  events : ℕ
  tokenChunks : ℕ
  chars : ℕ
  text : Text
  deriving DecidableEq, Repr

/-- `len(value)`. -/
def lengthOf : Json → Except PyError ℕ
  | .str s => .ok s.length
  | .arr items => .ok items.length
  | .obj fields => .ok fields.length
  | value => .error ⟨.typeError, "object of type '" ++ typeName value ++ "' has no len()"⟩

/-- `"".join(chunks)`, where some chunks came before these. -/
def joinFrom : ℕ → List Json → Except PyError Text
  | _, [] => .ok []
  | i, .str s :: chunks => (joinFrom (i + 1) chunks).map (s ++ ·)
  | i, value :: _ => .error ⟨.typeError, "sequence item " ++ toString i ++
      ": expected str instance, " ++ typeName value ++ " found"⟩

/-- The loop of `run_streaming_request` over the payloads of a response that end like this, from the
events and the contents so far. -/
def runStreamingRequestFrom (lib : JsonLibrary) (label url : String) :
    ℕ → List Json → List Text → Except PyError Unit → Except PyError ServingRun
  | _, _, [], .error e => .error e
  | _, _, [], .ok () => .error ⟨.runtimeError, label ++ ": stream ended without [DONE]"⟩
  | events, chunks, payload :: payloads, result =>
    if payload = "[DONE]".toList then do
      let lengths ← chunks.mapM lengthOf
      let text ← joinFrom 0 chunks
      .ok ⟨label, url, events, chunks.length, lengths.sum, text⟩
    else do
      let event ← lib.loads payload
      let choices ← getField event "choices".toList .null
      if truthy choices then
        let content ← choiceContent choices
        runStreamingRequestFrom lib label url (events + 1)
          (if truthy content then chunks ++ [content] else chunks) payloads result
      else runStreamingRequestFrom lib label url (events + 1) chunks payloads result

/-- `run_streaming_request` of a response. -/
def runStreamingRequest (lib : JsonLibrary) (label url : String) (response : List RawLine) :
    Except PyError ServingRun :=
  let (payloads, result) := iterSsePayloads response
  runStreamingRequestFrom lib label url 0 [] payloads result

/-! ## A stream that is cut off -/

/-- The line of data of an event, without its line feed. -/
def dataLine (payload : Text) : Text :=
  "data: ".toList ++ payload

theorem dataLine_eq (payload : Text) : dataLine payload = "data: ".toList ++ payload := rfl

theorem dataEvent_eq (payload : Text) : dataEvent payload = dataLine payload ++ ['\n', '\n'] := rfl

/-- The end of the iteration over a response. -/
def iterationEnd : Except PyError Unit → List RawLine
  | .ok () => []
  | .error e => [.raises e]

/-- The iteration over a response of which these bytes arrived, where it ends like this. If it
raises, the line that is cut off is lost. -/
def rawLines (received : List UInt8) (ending : Except PyError Unit) : List RawLine :=
  match ending with
  | .ok () => (responseLines received).map .bytes
  | .error e => ((responseLines received).filter (10 ∈ ·)).map .bytes ++ [.raises e]

/-- The number of these events that arrive with so many bytes, if the last bytes of an event are not
needed. -/
def arrived (missing : ℕ) : List Text → ℕ → ℕ
  | [], _ => 0
  | event :: events, received =>
    let size := (Utf8.encode event).length
    if received + missing < size then 0 else arrived missing events (received - size) + 1

/-- The number of events whose line of data is read. Only at the end of the response it needs no
line feed. -/
def linesRead (events : List Text) (received : List UInt8) : Except PyError Unit → ℕ
  | .ok () => arrived 2 events received.length
  | .error _ => arrived 1 events received.length

/-- The number of events that `iter_sse_payloads` yields. Only at the end of the response they need
no empty line. -/
def eventsRead (events : List Text) (received : List UInt8) : Except PyError Unit → ℕ
  | .ok () => arrived 2 events received.length
  | .error _ => arrived 0 events received.length

/-- The iteration over a stream of events that is cut off, the number of events of which it gives
the line of data, and of those that `iter_sse_payloads` yields. -/
inductive CutLines : Except PyError Unit → List Text → List RawLine → ℕ → ℕ → Prop
  /-- After the events that arrived comes nothing. -/
  | nothing {ending : Except PyError Unit} {payloads : List Text} :
      CutLines ending payloads (iterationEnd ending) 0 0
  /-- The line of data of the next event is cut off. -/
  | inside {payload : Text} {payloads : List Text} {line : List UInt8}
      (hcut : line <+: Utf8.encode (dataLine payload))
      (hne : line ≠ Utf8.encode (dataLine payload)) :
      CutLines (.ok ()) (payload :: payloads) [.bytes line] 0 0
  /-- The line of data of the next event is there, perhaps without its line feed. -/
  | data {payload : Text} {payloads : List Text} {lf : Text} (hlf : lf = [] ∨ lf = ['\n']) :
      CutLines (.ok ()) (payload :: payloads) [.bytes (Utf8.encode (dataLine payload ++ lf))] 1 1
  /-- It is there, and the iteration raises before the empty line. -/
  | raised {payload : Text} {payloads : List Text} {e : PyError} :
      CutLines (.error e) (payload :: payloads)
        [.bytes (Utf8.encode (dataLine payload ++ ['\n'])), .raises e] 1 0
  /-- An event that is whole. -/
  | event {ending : Except PyError Unit} {payload : Text} {payloads : List Text}
      {lines : List RawLine} {n m : ℕ} (h : CutLines ending payloads lines n m) :
      CutLines ending (payload :: payloads)
        (.bytes (Utf8.encode (dataLine payload ++ ['\n'])) :: .bytes (Utf8.encode ['\n']) :: lines)
        (n + 1) (m + 1)

theorem CutLines.le_length {ending : Except PyError Unit} {payloads : List Text}
    {lines : List RawLine} {n m : ℕ} (h : CutLines ending payloads lines n m) :
    n ≤ payloads.length ∧ m ≤ payloads.length := by
  induction h with
  | nothing | inside => exact ⟨Nat.zero_le _, Nat.zero_le _⟩
  | data => exact ⟨Nat.le_add_left 1 _, Nat.le_add_left 1 _⟩
  | raised => exact ⟨Nat.le_add_left 1 _, Nat.zero_le _⟩
  | event _ ih => exact ih.imp Nat.succ_le_succ Nat.succ_le_succ

/-! ### The number of events that arrive -/

theorem arrived_whole (missing : ℕ) (events : List Text) :
    arrived missing events (Utf8.encode events.flatten).length = events.length := by
  induction events with
  | nil => rfl
  | cons event events ih =>
    rw [List.flatten_cons, Utf8.encode_append, List.length_append, arrived, if_neg (by omega),
      Nat.add_sub_cancel_left, ih, List.length_cons]

theorem encode_dataEvent (payload : Text) :
    Utf8.encode (dataEvent payload) = Utf8.encode (dataLine payload) ++ [10, 10] := by
  rw [dataEvent_eq, Utf8.encode_append]
  rfl

theorem length_encode_dataEvent (payload : Text) :
    (Utf8.encode (dataEvent payload)).length = (Utf8.encode (dataLine payload)).length + 2 :=
  (congrArg List.length (encode_dataEvent payload)).trans List.length_append

theorem encode_dataLine_lf (payload : Text) :
    Utf8.encode (dataLine payload ++ ['\n']) = Utf8.encode (dataLine payload) ++ [10] := by
  rw [Utf8.encode_append]
  rfl

theorem encode_dataLine_ne_nil (payload : Text) : Utf8.encode (dataLine payload) ≠ [] := by
  rw [dataLine_eq, Utf8.encode_append]
  exact List.append_ne_nil_of_left_ne_nil (by decide) _

/-- No event arrives without a byte. -/
theorem arrived_zero {missing : ℕ} (hmissing : missing ≤ 2) (payloads : List Text) :
    arrived missing (payloads.map dataEvent) 0 = 0 := by
  cases payloads with
  | nil => rfl
  | cons payload payloads =>
    have hsize := length_encode_dataEvent payload
    have hpos := List.length_pos_of_ne_nil (encode_dataLine_ne_nil payload)
    rw [List.map_cons, arrived, if_pos (by omega)]

theorem arrived_event (missing : ℕ) (event : Text) (events : List Text) (received : ℕ) :
    arrived missing (event :: events) ((Utf8.encode event).length + received) =
      arrived missing events received + 1 := by
  rw [arrived, if_neg (by omega), Nat.add_sub_cancel_left]

/-- Of an event that is cut off all but the bytes that are not needed must be there. -/
theorem arrived_cut {missing : ℕ} (hmissing : missing ≤ 2) (payload : Text) (payloads : List Text)
    {received : ℕ} (hcut : received < (Utf8.encode (dataLine payload)).length + 2) :
    arrived missing ((payload :: payloads).map dataEvent) received =
      if received + missing < (Utf8.encode (dataLine payload)).length + 2 then 0 else 1 := by
  have hsize := length_encode_dataEvent payload
  rw [List.map_cons, arrived, Nat.sub_eq_zero_of_le (by omega), arrived_zero hmissing, hsize]

/-! ### The lines of the bytes that arrive -/

/-- Bytes without a line feed are one line. -/
theorem responseLines_of_not_mem {line : List UInt8} (h : 10 ∉ line) (hne : line ≠ []) :
    responseLines line = [line] := by
  induction line with
  | nil => exact absurd rfl hne
  | cons byte line ih =>
    have hbyte : byte ≠ 10 := fun heq => h (heq ▸ List.mem_cons_self)
    rw [responseLines, if_neg hbyte]
    cases line with
    | nil => rfl
    | cons byte' line =>
      rw [ih (fun hmem => h (List.mem_cons_of_mem _ hmem)) (List.cons_ne_nil _ _)]

theorem not_mem_encode_dataLine {payload : Text} (h : '\n' ∉ payload) :
    10 ∉ Utf8.encode (dataLine payload) := fun hmem => by
  rcases List.mem_append.1 (Utf8.lf_mem_encode hmem) with hdata | hmem
  · exact absurd hdata (by decide)
  · exact h hmem

theorem rawLines_nil (ending : Except PyError Unit) : rawLines [] ending = iterationEnd ending := by
  cases ending <;> rfl

/-- A line that is cut off is read if the iteration does not raise. -/
theorem rawLines_cut {line : List UInt8} (h : 10 ∉ line) (hne : line ≠ [])
    (ending : Except PyError Unit) :
    rawLines line ending = if ending = .ok () then [.bytes line] else iterationEnd ending := by
  unfold rawLines
  rw [responseLines_of_not_mem h hne]
  rcases ending with e | ⟨⟩
  · rw [List.filter_cons_of_neg (by simpa using h), if_neg nofun]
    rfl
  · rfl

theorem rawLines_line {line : List UInt8} (h : 10 ∉ line) (ending : Except PyError Unit) :
    rawLines (line ++ [10]) ending = .bytes (line ++ [10]) :: iterationEnd ending := by
  unfold rawLines
  rw [responseLines_append h]
  rcases ending with e | ⟨⟩
  · rw [List.filter_cons_of_pos (by simp)]
    rfl
  · rfl

theorem rawLines_event {payload : Text} (h : '\n' ∉ payload) (bytes : List UInt8)
    (ending : Except PyError Unit) :
    rawLines (Utf8.encode (dataEvent payload) ++ bytes) ending =
      .bytes (Utf8.encode (dataLine payload ++ ['\n'])) :: .bytes (Utf8.encode ['\n']) ::
        rawLines bytes ending := by
  have hlf : 10 ∈ Utf8.encode (dataLine payload ++ ['\n']) := by
    rw [encode_dataLine_lf]
    exact List.mem_append_right _ (List.mem_singleton_self _)
  unfold rawLines
  rw [responseLines_dataEvent h, ← dataLine_eq]
  rcases ending with e | ⟨⟩
  · have hfilter := fun lines : List (List UInt8) =>
      List.filter_cons_of_pos (p := fun line => decide (10 ∈ line)) (l := lines)
        (decide_eq_true hlf)
    rw [hfilter, List.filter_cons_of_pos (by decide)]
    rfl
  · rfl

theorem read_event (payload : Text) (payloads : List Text) (bytes : List UInt8)
    (ending : Except PyError Unit) :
    linesRead ((payload :: payloads).map dataEvent) (Utf8.encode (dataEvent payload) ++ bytes)
        ending = linesRead (payloads.map dataEvent) bytes ending + 1 ∧
      eventsRead ((payload :: payloads).map dataEvent) (Utf8.encode (dataEvent payload) ++ bytes)
        ending = eventsRead (payloads.map dataEvent) bytes ending + 1 := by
  cases ending <;>
    simp only [linesRead, eventsRead, List.length_append, List.map_cons, arrived_event, and_self]

/-- What arrives of an event and of what follows. -/
theorem prefix_dataEvent {payload : Text} {received rest : List UInt8}
    (h : received <+: Utf8.encode (dataEvent payload) ++ rest) :
    (∃ more, received = Utf8.encode (dataEvent payload) ++ more ∧ more <+: rest) ∨
      received = Utf8.encode (dataLine payload) ++ [10] ∨
      received = Utf8.encode (dataLine payload) ∨
      received <+: Utf8.encode (dataLine payload) ∧ received ≠ Utf8.encode (dataLine payload) := by
  rw [encode_dataEvent] at h ⊢
  rw [List.append_assoc] at h
  by_cases hdata : Utf8.encode (dataLine payload) <+: received
  · obtain ⟨lfs, rfl⟩ := hdata
    rw [List.prefix_append_right_inj, List.cons_append, List.singleton_append] at h
    rcases List.prefix_cons_iff.1 h with rfl | ⟨lfs, rfl, hlfs⟩
    · exact .inr (.inr (.inl (List.append_nil _)))
    · rcases List.prefix_cons_iff.1 hlfs with rfl | ⟨more, rfl, hmore⟩
      · exact .inr (.inl rfl)
      · exact .inl ⟨more, by rw [List.append_assoc]; rfl, hmore⟩
  · refine .inr (.inr (.inr ⟨?_, fun heq => hdata (heq ▸ List.prefix_rfl)⟩))
    exact (List.prefix_or_prefix_of_prefix h (List.prefix_append _ _)).resolve_right hdata

/-- The bytes that arrive have the lines of a cut stream. -/
theorem cutLines_of_prefix (ending : Except PyError Unit) {payloads : List Text}
    {received : List UInt8} (hpayloads : ∀ p ∈ payloads, '\n' ∉ p)
    (h : received <+: Utf8.encode (payloads.flatMap dataEvent)) :
    CutLines ending payloads (rawLines received ending)
      (linesRead (payloads.map dataEvent) received ending)
      (eventsRead (payloads.map dataEvent) received ending) := by
  induction payloads generalizing received with
  | nil =>
    rw [List.flatMap_nil] at h
    rw [List.prefix_nil.1 h, rawLines_nil]
    cases ending <;> exact .nothing
  | cons payload payloads ih =>
    obtain ⟨hpayload, hrest⟩ := List.forall_mem_cons.1 hpayloads
    have hline := not_mem_encode_dataLine hpayload
    have hne := encode_dataLine_ne_nil payload
    have hcut := fun {missing received : ℕ} (hmissing : missing ≤ 2) =>
      @arrived_cut missing hmissing payload payloads received
    rw [List.flatMap_cons, Utf8.encode_append] at h
    rcases prefix_dataEvent h with ⟨more, rfl, hmore⟩ | rfl | rfl | ⟨hinside, hnot⟩
    · obtain ⟨hlines, hevents⟩ := read_event payload payloads more ending
      rw [rawLines_event hpayload, hlines, hevents]
      exact .event (ih hrest hmore)
    · rw [rawLines_line hline, ← encode_dataLine_lf]
      have hlen := congrArg List.length (encode_dataLine_lf payload)
      rw [List.length_append, List.length_singleton] at hlen
      rcases ending with e | ⟨⟩
      · rw [linesRead, eventsRead, hlen, hcut (by omega) (by omega), hcut (by omega) (by omega),
          if_neg (by omega), if_pos (by omega)]
        exact .raised
      · rw [linesRead, eventsRead, hlen, hcut (by omega) (by omega), if_neg (by omega)]
        exact .data (.inr rfl)
    · rw [rawLines_cut hline hne]
      rcases ending with e | ⟨⟩
      · rw [if_neg nofun, linesRead, eventsRead, hcut (by omega) (by omega),
          hcut (by omega) (by omega), if_pos (by omega), if_pos (by omega)]
        exact .nothing
      · rw [if_pos rfl, linesRead, eventsRead, hcut (by omega) (by omega), if_neg (by omega)]
        have hdata := @CutLines.data payload payloads [] (.inl rfl)
        rwa [List.append_nil] at hdata
    · have hlt : received.length < (Utf8.encode (dataLine payload)).length :=
        lt_of_le_of_ne hinside.length_le fun heq => hnot (hinside.eq_of_length heq)
      have hread : linesRead ((payload :: payloads).map dataEvent) received ending = 0 ∧
          eventsRead ((payload :: payloads).map dataEvent) received ending = 0 := by
        cases ending <;> rw [linesRead, eventsRead] <;> constructor <;>
          rw [hcut (by omega) (by omega), if_pos (by omega)]
      rw [hread.1, hread.2]
      by_cases hempty : received = []
      · rw [hempty, rawLines_nil]
        exact .nothing
      · rw [rawLines_cut (fun hmem => hline (hinside.subset hmem)) hempty]
        rcases ending with e | ⟨⟩
        · rw [if_neg nofun]
          exact .nothing
        · exact .inside hinside hnot

/-! ## What is left of the next event -/

/-- The bytes of a text that is cut off are the beginning of the text, or are not decoded. -/
theorem RawLine.decode_of_prefix {line : List UInt8} {text : Text} (h : line <+: Utf8.encode text) :
    (∃ t, t <+: text ∧ line = Utf8.encode t ∧ (RawLine.bytes line).decode = .ok t) ∨
      ∃ e : PyError, e.kind = .valueError ∧ (RawLine.bytes line).decode = .error e := by
  cases hdecode : Utf8.decodeStrict line with
  | none =>
    have hraise : (RawLine.bytes line).decode =
        .error ⟨.valueError, "'utf-8' codec can't decode bytes"⟩ := by
      simp only [RawLine.decode, hdecode]
    exact .inr ⟨_, rfl, hraise⟩
  | some t =>
    obtain rfl := Utf8.encode_of_decodeStrict hdecode
    exact .inl ⟨t, Utf8.prefix_of_encode h, rfl, by simp only [RawLine.decode, hdecode]⟩

theorem ne_of_prefix_of_ne {α : Type*} {xs ys zs : List α} (h : xs <+: ys) (hys : ys <+: zs)
    (hne : ys ≠ zs) : xs ≠ zs := by
  rintro rfl
  exact hne (hys.eq_of_length_le h.length_le)

/-- A payload that is cut off is stripped to the beginning of the payload. -/
theorem beginning_of_cut {payload line : Text} (hpayload : Framed payload)
    (hcut : line <+: dataLine payload) (hne : line ≠ dataLine payload)
    (hdata : "data:".toList <+: line) :
    strip (line.drop 5) <+: payload ∧ strip (line.drop 5) ≠ payload := by
  obtain ⟨rest, rfl⟩ := hdata
  have hsplit : dataLine payload = "data:".toList ++ ' ' :: payload := rfl
  have hdrop : ("data:".toList ++ rest).drop 5 = rest := rfl
  rw [hsplit, List.prefix_append_right_inj] at hcut
  rw [hsplit, Ne, List.append_cancel_left_eq] at hne
  rw [hdrop]
  rcases List.prefix_cons_iff.1 hcut with rfl | ⟨text, rfl, htext⟩
  · exact ⟨List.nil_prefix, hpayload.ne_nil.symm⟩
  · have hstrip : strip (' ' :: text) = text.rdropWhile isSpace := by
      rw [strip, List.dropWhile_cons_of_pos (by decide)]
      cases text with
      | nil => rfl
      | cons c text =>
        obtain ⟨more, rfl⟩ := htext
        rw [List.dropWhile_cons_of_neg (by simp [hpayload.head c rfl])]
    rw [hstrip]
    have hbegin := List.rdropWhile_prefix isSpace text
    have hne' : text ≠ payload := fun heq => hne (by rw [heq])
    exact ⟨hbegin.trans htext, ne_of_prefix_of_ne hbegin htext hne'⟩

/-- The line feed is taken off, and nothing else. -/
theorem Framed.rdropWhile_dataLine {payload lf : Text} (h : Framed payload)
    (hlf : lf = [] ∨ lf = ['\n']) {p : Char → Bool} (hspace : ∀ c, p c → isSpace c)
    (hp : p '\n') : (dataLine payload ++ lf).rdropWhile p = dataLine payload := by
  have hdata : (dataLine payload).rdropWhile p = dataLine payload := by
    refine List.rdropWhile_eq_self_iff.2 fun hne hlast => ?_
    have hlast' := h.last _ (List.getLast?_eq_some_getLast h.ne_nil)
    simp only [dataLine_eq, List.getLast_append_right h.ne_nil] at hlast
    rw [hspace _ hlast] at hlast'
    cases hlast'
  rcases hlf with rfl | rfl
  · rw [List.append_nil, hdata]
  · rw [List.rdropWhile_concat_pos _ _ _ hp, hdata]

/-- The client of `cli.py` after the events that it read : it gets nothing more, or it gets the
beginning of the next payload. -/
inductive CutRest : Except PyError Unit → List Text → List Text → Except PyError Unit → Prop
  | nothing {ending : Except PyError Unit} {payloads : List Text} :
      CutRest ending payloads [] ending
  | noText {payload : Text} {payloads : List Text} {e : PyError} (he : e.kind = .valueError) :
      CutRest (.ok ()) (payload :: payloads) [] (.error e)
  | beginning {payload text : Text} {payloads : List Text} (hcut : text <+: payload)
      (hne : text ≠ payload) : CutRest (.ok ()) (payload :: payloads) [text] (.ok ())

theorem isSpace_of_lineBreak (c : Char) (h : decide (c = '\r' ∨ c = '\n') = true) :
    isSpace c = true := by
  rcases of_decide_eq_true h with rfl | rfl <;> rfl

/-- A line of data belongs to an event that is not over. -/
theorem iterSsePayloads_dataLine {payload lf : Text} (h : Framed payload)
    (hlf : lf = [] ∨ lf = ['\n']) (lines : List RawLine) :
    iterSsePayloads (.bytes (Utf8.encode (dataLine payload ++ lf)) :: lines) =
      iterSsePayloadsFrom [payload] lines := by
  have hline : (dataLine payload ++ lf).rdropWhile (fun c => c = '\r' ∨ c = '\n') =
      dataLine payload := h.rdropWhile_dataLine hlf isSpace_of_lineBreak rfl
  have hne : dataLine payload ≠ [] := by simp [dataLine_eq]
  have hdata : "data:".toList <+: dataLine payload := ⟨' ' :: payload, rfl⟩
  have hdrop : (dataLine payload).drop 5 = ' ' :: payload := rfl
  simp only [iterSsePayloads, iterSsePayloadsFrom, RawLine.decode, Utf8.decodeStrict_encode, hline,
    hdrop, h.strip_eq]
  rw [if_neg hne, if_pos hdata, List.nil_append]

theorem CutLines.iterSsePayloads {ending : Except PyError Unit} {payloads : List Text}
    {lines : List RawLine} {n m : ℕ} (h : CutLines ending payloads lines n m)
    (hpayloads : ∀ p ∈ payloads, Framed p) :
    ∃ rest result, SoloRT.iterSsePayloads lines = (payloads.take m ++ rest, result) ∧
      CutRest ending (payloads.drop m) rest result := by
  induction h with
  | @nothing ending payloads =>
    refine ⟨[], ending, ?_, .nothing⟩
    rcases ending with e | ⟨⟩ <;> rfl
  | @inside payload payloads line hcut hne =>
    have hpayload := hpayloads payload List.mem_cons_self
    rcases RawLine.decode_of_prefix hcut with ⟨t, ht, rfl, hdecode⟩ | ⟨e, he, hdecode⟩
    · have hstrip := List.rdropWhile_prefix (fun c => c = '\r' ∨ c = '\n') t
      have hne' := ne_of_prefix_of_ne hstrip ht fun heq => hne (by rw [heq])
      simp only [SoloRT.iterSsePayloads, iterSsePayloadsFrom, hdecode]
      replace hstrip := hstrip.trans ht
      generalize t.rdropWhile (fun c => c = '\r' ∨ c = '\n') = line at hstrip hne'
      by_cases hempty : line = []
      · exact ⟨[], .ok (), by simp [hempty], .nothing⟩
      by_cases hdata : "data:".toList <+: line
      · obtain ⟨hbegin, hbegin'⟩ := beginning_of_cut hpayload hstrip hne' hdata
        refine ⟨[strip (line.drop 5)], .ok (), ?_, .beginning hbegin hbegin'⟩
        rw [if_neg hempty, if_pos hdata, List.nil_append, if_neg (List.cons_ne_nil _ _),
          List.intercalate_singleton]
        rfl
      · refine ⟨[], .ok (), ?_, .nothing⟩
        rw [if_neg hempty, if_neg hdata]
        rfl
    · refine ⟨[], .error e, ?_, .noText he⟩
      simp only [SoloRT.iterSsePayloads, iterSsePayloadsFrom, hdecode]
      rfl
  | @data payload payloads lf hlf =>
    refine ⟨[], .ok (), ?_, .nothing⟩
    rw [iterSsePayloads_dataLine (hpayloads payload List.mem_cons_self) hlf, iterSsePayloadsFrom,
      if_neg (List.cons_ne_nil _ _), List.intercalate_singleton]
    rfl
  | @raised payload payloads e =>
    refine ⟨[], .error e, ?_, .nothing⟩
    rw [iterSsePayloads_dataLine (hpayloads payload List.mem_cons_self) (.inr rfl)]
    rfl
  | @event ending payload payloads lines n m h ih =>
    obtain ⟨hpayload, hrest⟩ := List.forall_mem_cons.1 hpayloads
    obtain ⟨rest, result, hlines, hcut⟩ := ih hrest
    refine ⟨rest, result, ?_, hcut⟩
    have hevent := iterSsePayloads_event hpayload lines
    rw [hlines] at hevent
    exact hevent

/-! ## The payloads of a response -/

/-- What is documented of `json.loads`. -/
structure JsonModule.Documented (lib : JsonModule) : Prop where
  loads_dumps : ∀ v : Json, v.DistinctKeys → lib.loads v.dumps = .ok v
  /-- An object that is not closed is no JSON. -/
  loads_cut : ∀ fields text, text <+: (Json.obj fields).dumps → text ≠ (Json.obj fields).dumps →
    ∃ e, lib.loads text = .error e ∧ lib.isDecodeError e = true
  loads_done : ∀ text, text <+: "[DONE]".toList → text ≠ "[DONE]".toList →
    ∃ e, lib.loads text = .error e ∧ lib.isDecodeError e = true
  /-- `JSONDecodeError` is a `ValueError`. -/
  kind : ∀ e, lib.isDecodeError e = true → e.kind = .valueError

/-- No beginning of the payload is JSON, or `[DONE]`. -/
def JsonModule.RefusesCut (lib : JsonModule) (payload : Text) : Prop :=
  ∀ text, text <+: payload → text ≠ payload → text ≠ "[DONE]".toList ∧
    ∃ e, lib.loads text = .error e ∧ lib.isDecodeError e = true

section

variable {lib : JsonModule} {seqId : Text} {created : ℤ} {model : Text}

theorem JsonModule.Documented.refusesCut_obj (hlib : lib.Documented)
    (fields : List (Text × Json)) : lib.RefusesCut (Json.obj fields).dumps := by
  refine fun text hcut hne => ⟨?_, hlib.loads_cut fields text hcut hne⟩
  rintro rfl
  obtain ⟨more, hmore⟩ := hcut
  rw [Json.dumps] at hmore
  exact absurd (List.cons.inj hmore).1 (by decide)

theorem JsonModule.Documented.refusesCut_done (hlib : lib.Documented) :
    lib.RefusesCut "[DONE]".toList := fun text hcut hne =>
  ⟨hne, hlib.loads_done text hcut hne⟩

variable (seqId created model) in
/-- The payloads of the texts that a stream yielded so far, and of its end. -/
def responsePayloads (stream : StreamState) : List Text :=
  stream.yielded.map (fun tokenText => (tokenChunk seqId created model tokenText).dumps) ++
    if stream.phase = .finished then [(stopChunk seqId created model).dumps, "[DONE]".toList]
    else []

variable (seqId created model) in
/-- What `chat_completion_events` yielded so far. -/
def responseEvents (stream : StreamState) : List Text :=
  if stream.phase = .finished then chatCompletionEvents seqId created model stream.yielded
  else stream.yielded.map fun tokenText =>
    sseEvent (.inl (tokenChunk seqId created model tokenText))

theorem responseEvents_eq (stream : StreamState) :
    responseEvents seqId created model stream =
      (responsePayloads seqId created model stream).map dataEvent := by
  unfold responseEvents responsePayloads
  split_ifs <;> simp [chatCompletionEvents, sseEvent]

theorem JsonModule.Documented.responsePayloads (hlib : lib.Documented) (stream : StreamState) :
    ∀ p ∈ SoloRT.responsePayloads seqId created model stream, Framed p ∧ lib.RefusesCut p := by
  intro p hp
  rcases List.mem_append.1 hp with htoken | hend
  · obtain ⟨tokenText, -, rfl⟩ := List.mem_map.1 htoken
    exact ⟨framed_obj _, hlib.refusesCut_obj _⟩
  · split_ifs at hend
    · rcases List.mem_pair.1 hend with rfl | rfl
      · exact ⟨framed_obj _, hlib.refusesCut_obj _⟩
      · exact ⟨framed_done, hlib.refusesCut_done⟩
    · cases hend

/-- The first payloads of a response are those of its first texts, and its end if the stream is
over. -/
theorem take_responsePayloads (stream : StreamState) {n : ℕ}
    (hn : n ≤ (responsePayloads seqId created model stream).length) :
    ∃ ending, (responsePayloads seqId created model stream).take n =
        (stream.yielded.take n).map
          (fun tokenText => (tokenChunk seqId created model tokenText).dumps) ++ ending ∧
      ((ending = [] ∨ ending = [(stopChunk seqId created model).dumps]) ∧
          ¬(stream.phase = .finished ∧ n = (responsePayloads seqId created model stream).length) ∨
        ending = [(stopChunk seqId created model).dumps, "[DONE]".toList] ∧
          stream.phase = .finished ∧ n = stream.yielded.length + 2) := by
  unfold responsePayloads at hn ⊢
  rw [List.take_append, List.length_map, ← List.map_take]
  refine ⟨_, rfl, ?_⟩
  by_cases hphase : stream.phase = .finished
  · simp only [hphase, if_true, List.length_append, List.length_map, List.length_cons,
      List.length_nil, true_and] at hn ⊢
    rcases hk : n - stream.yielded.length with - | - | k
    · exact .inl ⟨.inl rfl, by omega⟩
    · exact .inl ⟨.inr rfl, by omega⟩
    · exact .inr ⟨List.take_of_length_le (Nat.le_add_left 2 k), by omega⟩
  · exact .inl ⟨.inl (by simp [hphase]), fun h => hphase h.1⟩

/-! ## What the clients read -/

theorem dumps_obj_ne_done (fields : List (Text × Json)) :
    (Json.obj fields).dumps ≠ "[DONE]".toList := by
  rw [Json.dumps]
  intro heq
  exact absurd (List.cons.inj heq).1 (by decide)

theorem tokenChunk_ne_done (tokenText : Text) :
    (tokenChunk seqId created model tokenText).dumps ≠ "[DONE]".toList :=
  dumps_obj_ne_done _

theorem stopChunk_ne_done : (stopChunk seqId created model).dumps ≠ "[DONE]".toList :=
  dumps_obj_ne_done _

theorem distinctKeys_content (tokenText : Text) :
    (Json.obj [("content".toList, .str tokenText)]).DistinctKeys := by
  simp [Json.DistinctKeys, Json.DistinctKeysFields]

theorem JsonModule.Documented.loads_token (hlib : lib.Documented) (tokenText : Text) :
    lib.loads (tokenChunk seqId created model tokenText).dumps =
      .ok (tokenChunk seqId created model tokenText) :=
  hlib.loads_dumps _ (distinctKeys_completionChunk (distinctKeys_content tokenText)
    (by simp [Json.DistinctKeys]))

theorem JsonModule.Documented.loads_stop (hlib : lib.Documented) :
    lib.loads (stopChunk seqId created model).dumps = .ok (stopChunk seqId created model) :=
  hlib.loads_dumps _ (distinctKeys_completionChunk
    (by simp [Json.DistinctKeys, Json.DistinctKeysFields]) (by simp [Json.DistinctKeys]))

/-- The choices of the chunk of a text, and the text in them. -/
theorem choiceContent_token (seqId : Text) (created : ℤ) (model tokenText : Text) :
    ∃ choices, (∀ default, getField (tokenChunk seqId created model tokenText) "choices".toList
        default = .ok choices) ∧ truthy choices = true ∧
      choiceContent choices = .ok (.str tokenText) :=
  ⟨_, fun _ => rfl, rfl, rfl⟩

/-! ### `stream_chat_text` -/

/-- What `cli.py` reads of the beginning of a payload. -/
theorem CutRest.contentsOf_eq {ending : Except PyError Unit} {payloads rest : List Text}
    {result : Except PyError Unit} (h : CutRest ending payloads rest result)
    (hlib : lib.Documented) (hpayloads : ∀ p ∈ payloads, lib.RefusesCut p) :
    (contentsOf lib.toJsonLibrary rest result).1 = [] ∧
      ((contentsOf lib.toJsonLibrary rest result).2 = ending ∨
        ending = .ok () ∧ payloads ≠ [] ∧ ∃ e : PyError, e.kind = .valueError ∧
          (contentsOf lib.toJsonLibrary rest result).2 = .error e) := by
  cases h with
  | nothing => exact ⟨rfl, .inl rfl⟩
  | @noText _ _ e he => exact ⟨rfl, .inr ⟨rfl, List.cons_ne_nil _ _, e, he, rfl⟩⟩
  | @beginning payload text payloads hcut hne =>
    obtain ⟨hdone, e, hloads, he⟩ := hpayloads payload List.mem_cons_self text hcut hne
    have hcontent : contentFromSsePayload lib.toJsonLibrary text = .error e := by
      rw [contentFromSsePayload, if_neg hdone, hloads]
      rfl
    rw [contentsOf, hcontent]
    exact ⟨rfl, .inr ⟨rfl, List.cons_ne_nil _ _, e, hlib.kind e he, rfl⟩⟩

theorem contentsOf_chunks (hlib : lib.Documented) {tokenTexts : List Text}
    (htexts : ∀ t ∈ tokenTexts, t ≠ []) (rest : List Text) (result : Except PyError Unit) :
    contentsOf lib.toJsonLibrary (tokenTexts.map
        (fun tokenText => (tokenChunk seqId created model tokenText).dumps) ++ rest) result =
      (tokenTexts ++ (contentsOf lib.toJsonLibrary rest result).1,
        (contentsOf lib.toJsonLibrary rest result).2) := by
  induction tokenTexts with
  | nil => rfl
  | cons tokenText tokenTexts ih =>
    obtain ⟨hne, hrest⟩ := List.forall_mem_cons.1 htexts
    have hcontent : contentFromSsePayload lib.toJsonLibrary
        (tokenChunk seqId created model tokenText).dumps = .ok (some tokenText) := by
      rw [tokenChunk, contentFromSsePayload_chunk hlib.loads_dumps
        (distinctKeys_content tokenText) (by simp [Json.DistinctKeys])]
      simp [truthy, JsonLibrary.toText, hne]
    rw [List.map_cons, List.cons_append, contentsOf, hcontent]
    simp [ih hrest, hne]

/-- The end of a response has no content. -/
theorem contentsOf_ending (hlib : lib.Documented) {ending : List Text}
    (hending : ending = [] ∨ ending = [(stopChunk seqId created model).dumps] ∨
      ending = [(stopChunk seqId created model).dumps, "[DONE]".toList])
    (rest : List Text) (result : Except PyError Unit) :
    contentsOf lib.toJsonLibrary (ending ++ rest) result =
      contentsOf lib.toJsonLibrary rest result := by
  have hstop : contentFromSsePayload lib.toJsonLibrary (stopChunk seqId created model).dumps =
      .ok none := by
    rw [stopChunk, contentFromSsePayload_chunk hlib.loads_dumps (by simp [Json.DistinctKeys,
      Json.DistinctKeysFields]) (by simp [Json.DistinctKeys])]
    rfl
  have hdone : contentFromSsePayload lib.toJsonLibrary "[DONE]".toList = .ok none := if_pos rfl
  rcases hending with rfl | rfl | rfl
  · rfl
  · simp [contentsOf, hstop]
  · simp only [List.cons_append, List.nil_append, contentsOf, hstop, hdone, Option.toList_none,
      List.filter_nil]

/-- `stream_chat_text` yields the texts that arrived. -/
theorem streamChatText_of_cut (hlib : lib.Documented) {stream : StreamState}
    (htexts : ∀ t ∈ stream.yielded, t ≠ []) {ending : Except PyError Unit} {lines : List RawLine}
    {n m : ℕ} (h : CutLines ending (responsePayloads seqId created model stream) lines n m) :
    (streamChatText lib.toJsonLibrary lines).1 = stream.yielded.take m ∧
      ((streamChatText lib.toJsonLibrary lines).2 = ending ∨
        ending = .ok () ∧ m < (responsePayloads seqId created model stream).length ∧
          ∃ e : PyError, e.kind = .valueError ∧
            (streamChatText lib.toJsonLibrary lines).2 = .error e) := by
  have hpayloads := @JsonModule.Documented.responsePayloads lib seqId created model hlib stream
  obtain ⟨rest, result, hlines, hcut⟩ := h.iterSsePayloads fun p hp => (hpayloads p hp).1
  obtain ⟨hnone, hend⟩ := hcut.contentsOf_eq hlib fun p hp =>
    (hpayloads p (List.mem_of_mem_drop hp)).2
  obtain ⟨ending, htake, hending⟩ := take_responsePayloads stream h.le_length.2
  have hread : streamChatText lib.toJsonLibrary lines =
      (stream.yielded.take m ++ (contentsOf lib.toJsonLibrary rest result).1,
        (contentsOf lib.toJsonLibrary rest result).2) := by
    rw [streamChatText, hlines]
    dsimp only
    rw [htake, List.append_assoc,
      contentsOf_chunks hlib fun t ht => htexts t (List.mem_of_mem_take ht),
      contentsOf_ending hlib (by tauto)]
  rw [Ne, List.drop_eq_nil_iff, not_le] at hend
  rw [hread, hnone, List.append_nil]
  exact ⟨rfl, hend⟩

/-! ### `run_streaming_request` -/

variable {label url : String}

theorem runStreamingRequestFrom_token (hlib : lib.Documented) {tokenText : Text}
    (hne : tokenText ≠ []) (events : ℕ) (chunks : List Json) (rest : List Text)
    (result : Except PyError Unit) :
    runStreamingRequestFrom lib.toJsonLibrary label url events chunks
        ((tokenChunk seqId created model tokenText).dumps :: rest) result =
      runStreamingRequestFrom lib.toJsonLibrary label url (events + 1)
        (chunks ++ [.str tokenText]) rest result := by
  obtain ⟨choices, hchoices, htruthy, hcontent⟩ := choiceContent_token seqId created model tokenText
  have htext : truthy (.str tokenText) = true := by simp [truthy, hne]
  rw [runStreamingRequestFrom, if_neg (tokenChunk_ne_done _), hlib.loads_token]
  simp only [bind, Except.bind, hchoices, htruthy, if_true, hcontent, htext]

/-- The chunk after the last text is an event without content. -/
theorem runStreamingRequestFrom_stop (hlib : lib.Documented) (events : ℕ) (chunks : List Json)
    (rest : List Text) (result : Except PyError Unit) :
    runStreamingRequestFrom lib.toJsonLibrary label url events chunks
        ((stopChunk seqId created model).dumps :: rest) result =
      runStreamingRequestFrom lib.toJsonLibrary label url (events + 1) chunks rest result := by
  rw [runStreamingRequestFrom, if_neg stopChunk_ne_done, hlib.loads_stop]
  rfl

theorem runStreamingRequestFrom_tokens (hlib : lib.Documented) {tokenTexts : List Text}
    (htexts : ∀ t ∈ tokenTexts, t ≠ []) (events : ℕ) (chunks : List Json) (rest : List Text)
    (result : Except PyError Unit) :
    runStreamingRequestFrom lib.toJsonLibrary label url events chunks (tokenTexts.map
        (fun tokenText => (tokenChunk seqId created model tokenText).dumps) ++ rest) result =
      runStreamingRequestFrom lib.toJsonLibrary label url (events + tokenTexts.length)
        (chunks ++ tokenTexts.map .str) rest result := by
  induction tokenTexts generalizing events chunks with
  | nil => simp
  | cons tokenText tokenTexts ih =>
    obtain ⟨hne, hrest⟩ := List.forall_mem_cons.1 htexts
    rw [List.map_cons, List.cons_append, runStreamingRequestFrom_token hlib hne, ih hrest]
    simp [Nat.add_assoc, Nat.add_comm 1]

/-- A chunk list of texts is joined. -/
theorem joinFrom_str (i : ℕ) (texts : List Text) :
    joinFrom i (texts.map .str) = .ok texts.flatten := by
  induction texts generalizing i with
  | nil => rfl
  | cons text texts ih =>
    rw [List.map_cons, joinFrom, ih]
    rfl

theorem mapM_lengthOf_str (texts : List Text) :
    (texts.map Json.str).mapM lengthOf = .ok (texts.map List.length) := by
  induction texts with
  | nil => rfl
  | cons text texts ih =>
    rw [List.map_cons, List.mapM_cons, ih]
    rfl

theorem runStreamingRequestFrom_done (events : ℕ) (texts rest : List Text)
    (result : Except PyError Unit) :
    runStreamingRequestFrom lib.toJsonLibrary label url events (texts.map .str)
        ("[DONE]".toList :: rest) result =
      .ok ⟨label, url, events, texts.length, texts.flatten.length, texts.flatten⟩ := by
  rw [runStreamingRequestFrom, if_pos rfl, mapM_lengthOf_str, joinFrom_str, List.length_map,
    List.length_flatten]
  rfl

/-- What `run_streaming_request` raises, if it raises, in a response that ends like this. -/
def RaisesIn (label : String) (ending : Except PyError Unit) (e : PyError) : Prop :=
  ending = .error e ∨ ending = .ok () ∧
    (e.kind = .valueError ∨ e = ⟨.runtimeError, label ++ ": stream ended without [DONE]"⟩)

/-- What `run_streaming_request` does without `[DONE]`. -/
theorem CutRest.runStreamingRequestFrom_error {ending : Except PyError Unit}
    {payloads rest : List Text} {result : Except PyError Unit}
    (h : CutRest ending payloads rest result) (hlib : lib.Documented)
    (hpayloads : ∀ p ∈ payloads, lib.RefusesCut p) (events : ℕ) (chunks : List Json) :
    ∃ e, runStreamingRequestFrom lib.toJsonLibrary label url events chunks rest result = .error e ∧
      RaisesIn label ending e := by
  cases h with
  | nothing =>
    rcases ending with e | ⟨⟩
    · exact ⟨e, rfl, .inl rfl⟩
    · exact ⟨_, rfl, .inr ⟨rfl, .inr rfl⟩⟩
  | noText he => exact ⟨_, rfl, .inr ⟨rfl, .inl he⟩⟩
  | @beginning payload text payloads hcut hne =>
    obtain ⟨hdone, e, hloads, he⟩ := hpayloads payload List.mem_cons_self text hcut hne
    refine ⟨e, ?_, .inr ⟨rfl, .inl (hlib.kind e he)⟩⟩
    rw [runStreamingRequestFrom, if_neg hdone, hloads]
    rfl

/-- `run_streaming_request` returns exactly if the stream is over and all of it arrived. -/
theorem runStreamingRequest_of_cut (hlib : lib.Documented) {stream : StreamState}
    (htexts : ∀ t ∈ stream.yielded, t ≠ []) {ending : Except PyError Unit} {lines : List RawLine}
    {n m : ℕ} (h : CutLines ending (responsePayloads seqId created model stream) lines n m) :
    (stream.phase = .finished ∧ m = (responsePayloads seqId created model stream).length →
      runStreamingRequest lib.toJsonLibrary label url lines =
        .ok ⟨label, url, stream.yielded.length + 1, stream.yielded.length, stream.content.length,
          stream.content⟩) ∧
    (¬(stream.phase = .finished ∧ m = (responsePayloads seqId created model stream).length) →
      ∃ e, runStreamingRequest lib.toJsonLibrary label url lines = .error e ∧
        RaisesIn label ending e) := by
  have hpayloads := @JsonModule.Documented.responsePayloads lib seqId created model hlib stream
  obtain ⟨rest, result, hlines, hcut⟩ := h.iterSsePayloads fun p hp => (hpayloads p hp).1
  have hraise : ∀ events chunks, ∃ e, runStreamingRequestFrom lib.toJsonLibrary label url events
      chunks rest result = .error e ∧ RaisesIn label ending e :=
    hcut.runStreamingRequestFrom_error hlib fun p hp => (hpayloads p (List.mem_of_mem_drop hp)).2
  obtain ⟨last, htake, hlast⟩ := take_responsePayloads stream h.le_length.2
  have hread : runStreamingRequest lib.toJsonLibrary label url lines =
      runStreamingRequestFrom lib.toJsonLibrary label url (0 + (stream.yielded.take m).length)
        ([] ++ (stream.yielded.take m).map .str) (last ++ rest) result := by
    rw [runStreamingRequest, hlines]
    dsimp only
    rw [htake, List.append_assoc, runStreamingRequestFrom_tokens hlib fun t ht =>
      htexts t (List.mem_of_mem_take ht)]
  rw [hread]
  rcases hlast with ⟨hlast | hlast, hnot⟩ | ⟨hlast, hphase, hm⟩
  · rw [hlast]
    exact ⟨fun h => absurd h hnot, fun _ => hraise _ _⟩
  · rw [hlast, List.singleton_append, runStreamingRequestFrom_stop hlib]
    exact ⟨fun h => absurd h hnot, fun _ => hraise _ _⟩
  · have hlen : (responsePayloads seqId created model stream).length =
        stream.yielded.length + 2 := by simp [responsePayloads, hphase]
    have htexts' : stream.yielded.take m = stream.yielded :=
      List.take_of_length_le (by omega)
    rw [hlast, List.cons_append, runStreamingRequestFrom_stop hlib, htexts', List.nil_append,
      Nat.zero_add, List.cons_append, runStreamingRequestFrom_done, StreamState.content]
    exact ⟨fun _ => rfl, fun hnot => absurd ⟨hphase, hm.trans hlen.symm⟩ hnot⟩

/-! ### `stream_reply` -/

theorem replyPayload_token (hlib : lib.Documented) {tokenText : Text} (hne : tokenText ≠ [])
    (pieces : List Text) :
    replyPayload lib pieces (tokenChunk seqId created model tokenText).dumps =
      (pieces ++ [tokenText], none) := by
  have htruthy : truthy (.str tokenText) = true := by simp [truthy, hne]
  obtain ⟨choices, hchoices, -, hcontent⟩ := choiceContent_token seqId created model tokenText
  rw [replyPayload, if_neg (tokenChunk_ne_done _), hlib.loads_token]
  simp only [bind, Except.bind, hchoices, hcontent, htruthy, if_true]

theorem replyPayload_stop (hlib : lib.Documented) (pieces : List Text) :
    replyPayload lib pieces (stopChunk seqId created model).dumps = (pieces, none) := by
  rw [replyPayload, if_neg stopChunk_ne_done, hlib.loads_stop]
  rfl

/-- A line with a payload is read to its payload. -/
theorem streamReplyFrom_data {payload lf : Text} (h : Framed payload)
    (hlf : lf = [] ∨ lf = ['\n']) (pieces : List Text) (lines : List RawLine) :
    streamReplyFrom lib pieces (.bytes (Utf8.encode (dataLine payload ++ lf)) :: lines) =
      match replyPayload lib pieces payload with
      | (pieces, none) => streamReplyFrom lib pieces lines
      | (pieces, some result) => (pieces, result) := by
  have hstrip : strip (dataLine payload ++ lf) = dataLine payload := by
    rw [strip, dataLine_eq, List.append_assoc]
    exact h.rdropWhile_dataLine hlf (fun _ h => h) rfl
  have hdata : "data:".toList <+: dataLine payload := ⟨' ' :: payload, rfl⟩
  have hdrop : (dataLine payload).drop 5 = ' ' :: payload := rfl
  simp only [streamReplyFrom, RawLine.decodeBytes, RawLine.decode, Utf8.decodeStrict_encode, hstrip,
    hdata, if_true, hdrop, h.strip_eq]

/-- The empty line after it is passed over. -/
theorem streamReplyFrom_lf (pieces : List Text) (lines : List RawLine) :
    streamReplyFrom lib pieces (.bytes (Utf8.encode ['\n']) :: lines) =
      streamReplyFrom lib pieces lines := rfl

/-- At the end of the response the pieces are joined. -/
theorem streamReplyFrom_end (pieces : List Text) (ending : Except PyError Unit) :
    streamReplyFrom lib pieces (iterationEnd ending) =
      (pieces, ending.map fun _ => pieces.flatten) := by
  rcases ending with e | ⟨⟩ <;> rfl

/-- What is left of the next event is passed over, or is not decoded. -/
theorem streamReplyFrom_inside {payload : Text} (hpayload : Framed payload)
    (hrefuses : lib.RefusesCut payload) {line : List UInt8}
    (hcut : line <+: Utf8.encode (dataLine payload)) (hne : line ≠ Utf8.encode (dataLine payload))
    (pieces : List Text) :
    streamReplyFrom lib pieces [.bytes line] = (pieces, .ok pieces.flatten) ∨
      ∃ e : PyError, e.kind = .valueError ∧
        streamReplyFrom lib pieces [.bytes line] = (pieces, .error e) := by
  rcases RawLine.decode_of_prefix hcut with ⟨t, ht, rfl, hdecode⟩ | ⟨e, he, hdecode⟩
  · left
    have hstrip : strip t = t.rdropWhile isSpace := by
      cases t with
      | nil => rfl
      | cons c t =>
        have hc : c = 'd' := (List.cons_prefix_cons.1 ht).1
        rw [strip, hc, List.dropWhile_cons_of_neg (by decide)]
    have hline := List.rdropWhile_prefix isSpace t
    have hne' := ne_of_prefix_of_ne hline ht fun heq => hne (by rw [heq])
    rw [← hstrip] at hline hne'
    simp only [streamReplyFrom, RawLine.decodeBytes, hdecode]
    split_ifs with hdata
    · obtain ⟨hbegin, hbegin'⟩ := beginning_of_cut hpayload (hline.trans ht) hne' hdata
      obtain ⟨hdone, e, hloads, he⟩ := hrefuses _ hbegin hbegin'
      simp only [replyPayload, if_neg hdone, hloads, he, if_true]
    · rfl
  · exact .inr ⟨e, he, by simp only [streamReplyFrom, RawLine.decodeBytes, hdecode]⟩

/-- What `stream_reply` does with the payloads that arrived. -/
def replyPayloads (lib : JsonModule) :
    List Text → List Text → List Text × Option (Except PyError Text)
  | pieces, [] => (pieces, none)
  | pieces, payload :: payloads =>
    match replyPayload lib pieces payload with
    | (pieces, none) => replyPayloads lib pieces payloads
    | (pieces, some result) => (pieces, some result)

theorem CutLines.streamReplyFrom {ending : Except PyError Unit} {payloads : List Text}
    {lines : List RawLine} {n m : ℕ} (h : CutLines ending payloads lines n m)
    (hpayloads : ∀ p ∈ payloads, Framed p ∧ lib.RefusesCut p) (pieces : List Text) :
    ∃ result : Except PyError Text,
      (result = ending.map (fun _ => (replyPayloads lib pieces (payloads.take n)).1.flatten) ∨
        ending = .ok () ∧ n < payloads.length ∧ ∃ e : PyError, e.kind = .valueError ∧
          result = .error e) ∧
      SoloRT.streamReplyFrom lib pieces lines =
        ((replyPayloads lib pieces (payloads.take n)).1,
          (replyPayloads lib pieces (payloads.take n)).2.getD result) := by
  induction h generalizing pieces with
  | nothing => exact ⟨_, .inl rfl, streamReplyFrom_end _ _⟩
  | @inside payload payloads line hcut hne =>
    obtain ⟨hpayload, hrefuses⟩ := hpayloads payload List.mem_cons_self
    rcases streamReplyFrom_inside hpayload hrefuses hcut hne pieces with h | ⟨e, he, h⟩
    · exact ⟨_, .inl rfl, h⟩
    · exact ⟨_, .inr ⟨rfl, Nat.succ_pos _, e, he, rfl⟩, h⟩
  | @data payload payloads lf hlf =>
    rw [streamReplyFrom_data (hpayloads payload List.mem_cons_self).1 hlf, List.take_succ_cons,
      List.take_zero, replyPayloads]
    rcases replyPayload lib pieces payload with ⟨pieces, - | result⟩
    · exact ⟨_, .inl rfl, rfl⟩
    · exact ⟨_, .inl rfl, rfl⟩
  | @raised payload payloads e =>
    rw [streamReplyFrom_data (hpayloads payload List.mem_cons_self).1 (.inr rfl),
      List.take_succ_cons, List.take_zero, replyPayloads]
    rcases replyPayload lib pieces payload with ⟨pieces, - | result⟩
    · exact ⟨_, .inl rfl, rfl⟩
    · exact ⟨_, .inl rfl, rfl⟩
  | @event ending payload payloads lines n m h ih =>
    obtain ⟨hpayload, hrest⟩ := List.forall_mem_cons.1 hpayloads
    rw [streamReplyFrom_data hpayload.1 (.inr rfl), List.take_succ_cons, replyPayloads]
    rcases replyPayload lib pieces payload with ⟨pieces, - | result⟩
    · obtain ⟨result, hresult, hread⟩ := ih hrest pieces
      exact ⟨result, hresult.imp_right (And.imp_right (And.imp_left Nat.succ_lt_succ)),
        (streamReplyFrom_lf pieces lines).trans hread⟩
    · exact ⟨_, .inl rfl, rfl⟩

theorem replyPayloads_tokens (hlib : lib.Documented) {tokenTexts : List Text}
    (htexts : ∀ t ∈ tokenTexts, t ≠ []) (pieces rest : List Text) :
    replyPayloads lib pieces (tokenTexts.map
        (fun tokenText => (tokenChunk seqId created model tokenText).dumps) ++ rest) =
      replyPayloads lib (pieces ++ tokenTexts) rest := by
  induction tokenTexts generalizing pieces with
  | nil => simp
  | cons tokenText tokenTexts ih =>
    obtain ⟨hne, hrest⟩ := List.forall_mem_cons.1 htexts
    rw [List.map_cons, List.cons_append, replyPayloads, replyPayload_token hlib hne]
    simp [ih hrest]

/-- `stream_reply` writes the texts that arrived, and returns them joined. With `[DONE]` it does not
read on. -/
theorem streamReply_of_cut (hlib : lib.Documented) {stream : StreamState}
    (htexts : ∀ t ∈ stream.yielded, t ≠ []) {ending : Except PyError Unit} {lines : List RawLine}
    {n m : ℕ} (h : CutLines ending (responsePayloads seqId created model stream) lines n m) :
    (streamReply lib lines).1 = stream.yielded.take n ∧
      (stream.phase = .finished ∧ n = (responsePayloads seqId created model stream).length →
        (streamReply lib lines).2 = .ok stream.content) ∧
      (¬(stream.phase = .finished ∧ n = (responsePayloads seqId created model stream).length) →
        (streamReply lib lines).2 = ending.map (fun _ => (stream.yielded.take n).flatten) ∨
          ending = .ok () ∧ n < (responsePayloads seqId created model stream).length ∧
            ∃ e : PyError, e.kind = .valueError ∧ (streamReply lib lines).2 = .error e) := by
  have hpayloads := @JsonModule.Documented.responsePayloads lib seqId created model hlib stream
  obtain ⟨result, hresult, hread⟩ := h.streamReplyFrom hpayloads []
  obtain ⟨last, htake, hlast⟩ := take_responsePayloads stream h.le_length.1
  have hreply : replyPayloads lib [] ((SoloRT.responsePayloads seqId created model stream).take n) =
      replyPayloads lib (stream.yielded.take n) last := by
    rw [htake, replyPayloads_tokens hlib fun t ht => htexts t (List.mem_of_mem_take ht),
      List.nil_append]
  rw [hreply] at hresult hread
  have hdone : ∀ pieces, replyPayload lib pieces "[DONE]".toList =
      (pieces, some (.ok pieces.flatten)) := fun _ => if_pos rfl
  rw [streamReply, hread]
  rcases hlast with ⟨rfl | rfl, hnot⟩ | ⟨rfl, hphase, hn⟩
  · exact ⟨rfl, fun h => absurd h hnot, fun _ => hresult⟩
  · simp only [replyPayloads, replyPayload_stop hlib] at hresult ⊢
    exact ⟨trivial, fun h => absurd h hnot, fun _ => hresult⟩
  · have hlen : (SoloRT.responsePayloads seqId created model stream).length =
        stream.yielded.length + 2 := by simp [SoloRT.responsePayloads, hphase]
    have htexts' : stream.yielded.take n = stream.yielded :=
      List.take_of_length_le (by omega)
    simp only [replyPayloads, replyPayload_stop hlib, hdone, htexts']
    exact ⟨trivial, fun _ => rfl, fun hnot => absurd ⟨hphase, hn.trans hlen.symm⟩ hnot⟩

end

/-! ## The streams of a server -/

/-- Every text that a stream yielded, or still yields without another batch, is not empty. -/
def StreamState.YieldsTexts (stream : StreamState) : Prop :=
  ∀ t ∈ stream.yielded ++ stream.pending, t ≠ []

theorem StreamState.YieldsTexts.emit {stream : StreamState} {texts : List Text}
    (h : ∀ t ∈ stream.yielded ++ texts, t ≠ []) : (stream.emit texts).YieldsTexts := by
  cases texts with
  | nil => simpa [YieldsTexts, StreamState.emit, pending] using h
  | cons text texts => simpa [YieldsTexts, StreamState.emit, pending] using h

/-- A stream that is suspended anew, with nothing left to yield. -/
theorem StreamState.YieldsTexts.suspend {stream : StreamState} (h : stream.YieldsTexts)
    (phase : StreamPhase) (hphase : ∀ rest, phase ≠ .yielding rest) :
    ({ stream with phase } : StreamState).YieldsTexts := by
  have hpending : ({ stream with phase } : StreamState).pending = [] := by
    cases phase with
    | yielding rest => exact absurd rfl (hphase rest)
    | loop | finished | raised | closed => rfl
  rw [YieldsTexts, hpending, List.append_nil]
  exact fun t ht => h t (List.mem_append_left _ ht)

theorem consumeSamples_texts_ne_nil (samples : List SampleResult) (q : Sequence)
    (m : RuntimeMetrics) : ∀ t ∈ (consumeSamples samples q m).1, t ≠ [] := by
  cases hq : q.isTerminal with
  | true => cases samples <;> simp [consumeSamples, hq]
  | false =>
    rw [consumeSamples_spec samples q m hq]
    intro t ht
    exact of_decide_eq_true (List.mem_filter.1 ht).2

/-- The texts that the execution of a batch returns are not empty. -/
theorem BatchContext.Executed.texts_ne_nil {σ : Type} {ex : ModelExecutor σ} {c c' : BatchContext σ}
    {batch : Batch} {r : Except PyError (List Text)} (h : Executed ex c batch r c') :
    ∀ t ∈ returnedTexts r, t ≠ [] := by
  cases hphase : batch.phase with
  | prefill =>
    rw [h.returnedTexts_prefill hphase]
    exact nofun
  | decode =>
    cases h with
    | skipped | attachFailed | prefillFailed | decodeFailed => exact nofun
    | prefilled _ hb => simp [hb] at hphase
    | decoded hs hb ha he hn =>
      exact consumeSamples_texts_ne_nil _ _ _

namespace ServerState

variable {σ : Type} {ex : ModelExecutor σ} {s : ServerState σ}

theorem yieldsTexts_step (hs : s.Sound) (h : ∀ id, (s.streams id).YieldsTexts) (e : Event)
    (id : SeqId) : ((s.step ex e).streams id).YieldsTexts := by
  cases e with
  | addRequest | cancelRequest | evict | tick => exact h id
  | close other =>
    rcases s.close_cases other with heq | heq
    · simpa only [step, heq] using h id
    · by_cases hne : id = other
      · subst hne
        simpa [step, heq, setStream] using (h id).suspend .closed (by simp)
      · simpa [step, heq, setStream, hne] using h id
  | resume other =>
    have hres := resumed ex s hs.runtime.wellFormed other
    by_cases hne : id = other
    · subst hne
      simp only [step]
      generalize s.resume ex id = s' at hres
      cases hres with
      | idle => exact h id
      | @emitted rest hrest =>
        have hid := h id
        rw [StreamState.YieldsTexts, StreamState.pending, hrest] at hid
        simpa [setStream] using StreamState.YieldsTexts.emit hid
      | drained => simpa [setStream] using (h id).suspend .finished (by simp)
      | @buildFailed _ _ e => simpa [setStream] using (h id).suspend (.raised e) (by simp)
      | @executed q sel batch r c _ _ hloop _ _ hx =>
        have htexts := (BatchContext.executed_of_eq hx).texts_ne_nil
        cases r with
        | error e =>
          simpa [setStream, StreamState.afterBatch] using
            (h id).suspend (.raised e) (by simp)
        | ok texts =>
          simp only [setStream, Function.update_self, StreamState.afterBatch]
          split_ifs
          · refine StreamState.YieldsTexts.emit (List.forall_mem_append.2 ⟨fun t ht => ?_, htexts⟩)
            exact h id t (List.mem_append_left _ ht)
          · exact h id
    · simpa only [step, hres.streams hne] using h id

theorem yieldsTexts_run (ex : ModelExecutor σ) (config : RuntimeConfig) (executor : σ)
    (es : List Event) (id : SeqId) :
    ((Transition.run (step ex) (init config executor) es).streams id).YieldsTexts := by
  refine (Transition.run_invariant' (I := fun t : ServerState σ =>
    t.Sound ∧ ∀ id, (t.streams id).YieldsTexts) ?_ es ⟨sound_init config executor, ?_⟩).2 id
  · rintro t e ⟨ht, hyields⟩
    exact ⟨ht.step e, fun id => yieldsTexts_step ht hyields e id⟩
  · intro id t ht
    cases ht

/-- What the clients make of a response of which they received these bytes, and that ends like
this. -/
structure ClientsRead (lib : JsonModule) (label url : String) (stream : StreamState)
    (events : List Text) (received : List UInt8) (ending : Except PyError Unit) : Prop where
  whole : received = Utf8.encode events.flatten →
    linesRead events received ending = events.length ∧
      eventsRead events received ending = events.length
  /-- `stream_chat_text` yields the texts that arrived. -/
  yields : (streamChatText lib.toJsonLibrary (rawLines received ending)).1 =
    stream.yielded.take (eventsRead events received ending)
  yieldsEnd : (streamChatText lib.toJsonLibrary (rawLines received ending)).2 = ending ∨
    ending = .ok () ∧ eventsRead events received ending < events.length ∧
      ∃ e : PyError, e.kind = .valueError ∧
        (streamChatText lib.toJsonLibrary (rawLines received ending)).2 = .error e
  /-- `stream_reply` writes them. -/
  writes : (streamReply lib (rawLines received ending)).1 =
    stream.yielded.take (linesRead events received ending)
  /-- It returns the whole text if the stream is over and all of it arrived. -/
  replies : stream.phase = .finished ∧ linesRead events received ending = events.length →
    (streamReply lib (rawLines received ending)).2 = .ok stream.content
  /-- Otherwise it returns what it wrote, unless the iteration or the decoding raises. -/
  returns : ¬(stream.phase = .finished ∧ linesRead events received ending = events.length) →
    (streamReply lib (rawLines received ending)).2 =
        ending.map (fun _ => (stream.yielded.take (linesRead events received ending)).flatten) ∨
      ending = .ok () ∧ linesRead events received ending < events.length ∧
        ∃ e : PyError, e.kind = .valueError ∧
          (streamReply lib (rawLines received ending)).2 = .error e
  /-- `run_streaming_request` returns if the stream is over and all of it arrived, with the text
  that `complete_request` would have returned. -/
  measures : stream.phase = .finished ∧ eventsRead events received ending = events.length →
    runStreamingRequest lib.toJsonLibrary label url (rawLines received ending) =
      .ok ⟨label, url, stream.yielded.length + 1, stream.yielded.length, stream.content.length,
        stream.content⟩
  /-- Otherwise it raises. -/
  raises : ¬(stream.phase = .finished ∧ eventsRead events received ending = events.length) →
    ∃ e, runStreamingRequest lib.toJsonLibrary label url (rawLines received ending) = .error e ∧
      RaisesIn label ending e

/-- Whatever a server did, wherever the response to a request is cut off, and whether the iteration
over it then ends or raises, the clients read the texts that arrived and no others. -/
theorem clients_read {lib : JsonModule} (hlib : lib.Documented) (ex : ModelExecutor σ)
    (config : RuntimeConfig) (executor : σ) (es : List Event) (id : SeqId) (seqId : Text)
    (created : ℤ) (model : Text) (label url : String) {received : List UInt8}
    (hreceived : received <+: Utf8.encode (responseEvents seqId created model
      ((Transition.run (step ex) (init config executor) es).streams id)).flatten)
    (ending : Except PyError Unit) :
    let stream := (Transition.run (step ex) (init config executor) es).streams id
    ClientsRead lib label url stream (responseEvents seqId created model stream) received
      ending := by
  intro stream
  have htexts : ∀ t ∈ stream.yielded, t ≠ [] := fun t ht =>
    yieldsTexts_run ex config executor es id t (List.mem_append_left _ ht)
  have hpayloads := @JsonModule.Documented.responsePayloads lib seqId created model hlib stream
  have hlen : (responseEvents seqId created model stream).length =
      (responsePayloads seqId created model stream).length := by
    rw [responseEvents_eq, List.length_map]
  have hcut : CutLines ending (responsePayloads seqId created model stream)
      (rawLines received ending)
      (linesRead (responseEvents seqId created model stream) received ending)
      (eventsRead (responseEvents seqId created model stream) received ending) := by
    rw [responseEvents_eq] at hreceived ⊢
    exact cutLines_of_prefix ending (fun p hp => (hpayloads p hp).1.oneLine) hreceived
  obtain ⟨hyields, hyieldsEnd⟩ := streamChatText_of_cut hlib htexts hcut
  obtain ⟨hwrites, hreplies, hreturns⟩ := streamReply_of_cut hlib htexts hcut
  obtain ⟨hmeasures, hraises⟩ := @runStreamingRequest_of_cut lib seqId created model label url hlib
    stream htexts _ _ _ _ hcut
  rw [← hlen] at hyieldsEnd hreplies hreturns hmeasures hraises
  refine ⟨?_, hyields, hyieldsEnd, hwrites, hreplies, hreturns, hmeasures, hraises⟩
  rintro rfl
  cases ending <;> exact ⟨arrived_whole _ _, arrived_whole _ _⟩

/-- `compactJson`, whose only errors are those of a text that is no JSON. -/
def compactModule : JsonModule :=
  { compactJson with isDecodeError := fun e => e.kind = .valueError }

theorem documented_compactModule : compactModule.Documented := by
  have hraise : ∀ text, Json.parse text = none → ∃ e, compactModule.loads text = .error e ∧
      compactModule.isDecodeError e = true := fun text h =>
    ⟨⟨.valueError, "Expecting value"⟩, by simp only [compactModule, compactJson, h], rfl⟩
  have hdone : ∀ text ∈ "[DONE]".toList.inits, text ≠ "[DONE]".toList → Json.parse text = none := by
    decide
  refine ⟨fun v _ => by simp only [compactModule, compactJson, Json.parse_dumps],
    fun fields text hcut hne => hraise text (Json.parse_cut hcut hne),
    fun text hcut hne => hraise text (hdone text ((List.mem_inits _ _).2 hcut) hne), ?_⟩
  exact fun e he => of_decide_eq_true he

/-- The stream of a request for two tokens. -/
def twoTokensStream : StreamState :=
  (Transition.run (step (deterministicExecutor false)) (init smallConfig ())
    [.addRequest { shortRequest "a" with maxNewTokens := 2 }, .resume 0, .resume 0, .resume 0,
      .resume 0, .resume 0, .resume 0]).streams 0

def twoTokensEvents : List Text :=
  responseEvents "seq_1".toList 7 "é".toList twoTokensStream

/-- A response that is cut off inside a character of its second event. -/
def cutResponse : List UInt8 :=
  (Utf8.encode twoTokensEvents.flatten).take 229

/-- The first text is read. Without the error the iteration comes to a line that is no UTF-8. -/
theorem clients_read_cutResponse :
    twoTokensStream.yielded = ["SoloRT".toList, " keeps".toList] ∧
      (∀ ending, (streamChatText compactModule.toJsonLibrary (rawLines cutResponse ending)).1 =
        ["SoloRT".toList] ∧
          (streamReply compactModule (rawLines cutResponse ending)).1 = ["SoloRT".toList]) ∧
      (∃ e, runStreamingRequest compactModule.toJsonLibrary "run" "url"
        (rawLines cutResponse (.ok ())) = .error e) ∧
      runStreamingRequest compactModule.toJsonLibrary "run" "url"
        (rawLines cutResponse (.error ⟨.incompleteRead, ""⟩)) = .error ⟨.incompleteRead, ""⟩ := by
  have hread : ∀ ending, ClientsRead compactModule "run" "url" twoTokensStream twoTokensEvents
      cutResponse ending :=
    clients_read documented_compactModule (deterministicExecutor false) smallConfig () _ 0
      "seq_1".toList 7 "é".toList "run" "url" (List.take_prefix 229 _)
  have hyielded : twoTokensStream.yielded = ["SoloRT".toList, " keeps".toList] := by
    decide +kernel
  have harrived : ∀ ending, linesRead twoTokensEvents cutResponse ending = 1 ∧
      eventsRead twoTokensEvents cutResponse ending = 1 := by
    rintro (e | ⟨⟩)
    · have harrived : arrived 1 twoTokensEvents cutResponse.length = 1 ∧
          arrived 0 twoTokensEvents cutResponse.length = 1 := by decide +kernel
      exact harrived
    · have harrived : arrived 2 twoTokensEvents cutResponse.length = 1 := by decide +kernel
      exact ⟨harrived, harrived⟩
  have hevents : twoTokensEvents.length = 4 := by decide +kernel
  have hraises := fun ending => (hread ending).raises fun h => by
    rw [(harrived ending).2, hevents] at h
    exact absurd h.2 (by decide)
  refine ⟨hyielded, fun ending => ?_, (hraises _).imp fun _ => And.left, ?_⟩
  · have hyields := (hread ending).yields
    have hwrites := (hread ending).writes
    rw [(harrived ending).2, hyielded] at hyields
    rw [(harrived ending).1, hyielded] at hwrites
    exact ⟨hyields, hwrites⟩
  · obtain ⟨e, he, hending | ⟨hending, -⟩⟩ := hraises (.error ⟨.incompleteRead, ""⟩)
    · cases hending
      exact he
    · cases hending

end ServerState

end SoloRT
