import SoloRT.Sequence
import SoloRT.Json
import SoloRT.Utf8
import Mathlib.Data.List.DropRight

/-!
# The event stream of a completion

The server writes each token text of a streamed request as an event, a line `data: ` with a JSON
object and an empty line (`api/streaming.py`). The client reads the lines of the response, joins the
data lines of each event, and takes the content out of the object (`cli.py`).

`json.dumps` is that of `Json`, with the separators of the code. `json.loads` is a parameter, of
which it is assumed that it undoes `dumps` on values that have no key twice, as a Python dictionary
has none. Whatever the token texts are, the client gets the content of each, then an event without
content, then `[DONE]` (`iterSsePayloads_chatCompletionEvents`).
-/

namespace SoloRT

/-! ## The server -/

/-- The text of an event. -/
def dataEvent (payload : Text) : Text :=
  "data: ".toList ++ payload ++ "\n\n".toList

/-- `sse_event`, of a dictionary or a text. -/
def sseEvent (data : Json ⊕ Text) : Text :=
  dataEvent (data.elim Json.dumps id)

/-- `chunk`. -/
def completionChunk (seqId : Text) (created : ℤ) (model : Text) (delta finishReason : Json) :
    Json :=
  .obj [
    ("id".toList, .str seqId),
    ("object".toList, .str "chat.completion.chunk".toList),
    ("created".toList, .num created),
    ("model".toList, .str model),
    ("choices".toList, .arr [.obj [
      ("index".toList, .num 0),
      ("delta".toList, delta),
      ("finish_reason".toList, finishReason)]])]

/-- The chunk of a token text. -/
def tokenChunk (seqId : Text) (created : ℤ) (model tokenText : Text) : Json :=
  completionChunk seqId created model (.obj [("content".toList, .str tokenText)]) .null

/-- The chunk after the last token text. -/
def stopChunk (seqId : Text) (created : ℤ) (model : Text) : Json :=
  completionChunk seqId created model (.obj []) (.str "stop".toList)

/-- `chat_completion_events` of a request that streams these token texts. -/
def chatCompletionEvents (seqId : Text) (created : ℤ) (model : Text) (tokenTexts : List Text) :
    List Text :=
  (tokenTexts.map fun tokenText => sseEvent (.inl (tokenChunk seqId created model tokenText))) ++
    [sseEvent (.inl (stopChunk seqId created model)), sseEvent (.inr "[DONE]".toList)]

/-! ## The client -/

/-- The lines of a response, each with its line feed. -/
def responseLines : List UInt8 → List (List UInt8)
  | [] => []
  | byte :: bytes =>
    if byte = 10 then [byte] :: responseLines bytes
    else
      match responseLines bytes with
      | [] => [[byte]]
      | line :: lines => (byte :: line) :: lines

/-- An item of the iterable that `iter_sse_payloads` reads, or what the iteration raises instead. -/
inductive RawLine
  | bytes (line : List UInt8)
  | str (line : Text)
  | raises (e : PyError)
  deriving DecidableEq, Repr

/-- `for raw_line in lines`, with `raw_line.decode("utf-8")` of bytes. -/
def RawLine.decode : RawLine → Except PyError Text
  | .bytes line =>
    match Utf8.decodeStrict line with
    | some text => .ok text
    | none => .error ⟨.valueError, "'utf-8' codec can't decode bytes"⟩
  | .str line => .ok line
  | .raises e => .error e

/-- The characters that `str.strip` takes off. -/
def isSpace (c : Char) : Bool :=
  let n := c.toNat
  0x09 ≤ n ∧ n ≤ 0x0D ∨ 0x1C ≤ n ∧ n ≤ 0x20 ∨ n = 0x85 ∨ n = 0xA0 ∨ n = 0x1680 ∨
    0x2000 ≤ n ∧ n ≤ 0x200A ∨ n = 0x2028 ∨ n = 0x2029 ∨ n = 0x202F ∨ n = 0x205F ∨ n = 0x3000

/-- `str.strip()`. -/
def strip (text : Text) : Text :=
  (text.dropWhile isSpace).rdropWhile isSpace

/-- `iter_sse_payloads`, from the data lines of the event so far. The payloads that it yields, and
how it ends. -/
def iterSsePayloadsFrom : List Text → List RawLine → List Text × Except PyError Unit
  | dataLines, [] => (if dataLines = [] then [] else [['\n'].intercalate dataLines], .ok ())
  | dataLines, rawLine :: lines =>
    match rawLine.decode with
    | .error e => ([], .error e)
    | .ok line =>
      let line := line.rdropWhile fun c => c = '\r' ∨ c = '\n'
      if line = [] then
        if dataLines = [] then iterSsePayloadsFrom [] lines
        else
          let (payloads, result) := iterSsePayloadsFrom [] lines
          (['\n'].intercalate dataLines :: payloads, result)
      else if "data:".toList <+: line then
        iterSsePayloadsFrom (dataLines ++ [strip (line.drop 5)]) lines
      else iterSsePayloadsFrom dataLines lines

def iterSsePayloads (lines : List RawLine) : List Text × Except PyError Unit :=
  iterSsePayloadsFrom [] lines

/-- What the client uses of Python : `json.loads`, and `str` of a value that is no string. -/
structure JsonLibrary where
  loads : Text → Except PyError Json
  str : Json → Text

/-- `type(value).__name__`. -/
def typeName : Json → String
  | .null => "NoneType"
  | .bool _ => "bool"
  | .num _ => "int"
  | .str _ => "str"
  | .arr _ => "list"
  | .obj _ => "dict"

/-- `bool(value)`. -/
def truthy : Json → Bool
  | .null => false
  | .bool b => b
  | .num n => n ≠ 0
  | .str s => s ≠ []
  | .arr items => !items.isEmpty
  | .obj fields => !fields.isEmpty

/-- `value.get(key, default)`. -/
def getField (value : Json) (key : Text) (default : Json) : Except PyError Json :=
  match value with
  | .obj fields => .ok ((fields.lookup key).getD default)
  | value => .error ⟨.attributeError, "'" ++ typeName value ++ "' object has no attribute 'get'"⟩

/-- `value[0]`. -/
def firstItem : Json → Except PyError Json
  | .arr (v :: _) => .ok v
  | .arr [] => .error ⟨.indexError, "list index out of range"⟩
  | .str (c :: _) => .ok (.str [c])
  | .str [] => .error ⟨.indexError, "string index out of range"⟩
  | .obj _ => .error ⟨.keyError, "0"⟩
  | value => .error ⟨.typeError, "'" ++ typeName value ++ "' object is not subscriptable"⟩

/-- `str(value)`. -/
def JsonLibrary.toText (lib : JsonLibrary) : Json → Text
  | .str s => s
  | value => lib.str value

def contentFromSsePayload (lib : JsonLibrary) (payload : Text) : Except PyError (Option Text) :=
  if payload = "[DONE]".toList then .ok none
  else do
    let event ← lib.loads payload
    let choices ← getField event "choices".toList .null
    if !truthy choices then .ok none
    else
      let choice ← firstItem choices
      let delta ← getField choice "delta".toList (.obj [])
      let content ← getField delta "content".toList .null
      .ok (if truthy content then some (lib.toText content) else none)

/-! ## The lines of a stream -/

/-- The first line ends at the first line feed. -/
theorem responseLines_append {line : List UInt8} (h : 10 ∉ line) (bytes : List UInt8) :
    responseLines (line ++ 10 :: bytes) = (line ++ [10]) :: responseLines bytes := by
  induction line with
  | nil => rfl
  | cons byte line ih =>
    have hbyte : byte ≠ 10 := fun heq => h (heq ▸ List.mem_cons_self)
    have hline := ih fun hmem => h (List.mem_cons_of_mem byte hmem)
    rw [List.cons_append, responseLines, if_neg hbyte, hline, List.cons_append]

/-- An event with a payload on one line has two lines. -/
theorem responseLines_dataEvent {payload : Text} (h : '\n' ∉ payload) (bytes : List UInt8) :
    responseLines (Utf8.encode (dataEvent payload) ++ bytes) =
      Utf8.encode ("data: ".toList ++ payload ++ ['\n']) :: Utf8.encode ['\n'] ::
        responseLines bytes := by
  have hlf : Utf8.encode ['\n'] = [10] := rfl
  have hline : 10 ∉ Utf8.encode ("data: ".toList ++ payload) := fun hmem => by
    rcases List.mem_append.1 (Utf8.lf_mem_encode hmem) with hdata | hpayload
    · exact absurd hdata (by decide)
    · exact h hpayload
  have hevent : dataEvent payload = ("data: ".toList ++ payload) ++ (['\n'] ++ ['\n']) := rfl
  rw [hevent]
  generalize "data: ".toList ++ payload = line at hline
  rw [Utf8.encode_append, Utf8.encode_append, Utf8.encode_append, hlf, List.append_assoc,
    List.append_assoc, List.singleton_append, responseLines_append hline]
  rfl

/-- A payload on one line, with no space around it. -/
structure Framed (payload : Text) : Prop where
  oneLine : '\n' ∉ payload
  ne_nil : payload ≠ []
  head : ∀ c ∈ payload.head?, isSpace c = false
  last : ∀ c ∈ payload.getLast?, isSpace c = false

/-- The space after `data:` is stripped, and nothing else. -/
theorem Framed.strip_eq {payload : Text} (h : Framed payload) :
    strip (' ' :: payload) = payload := by
  obtain ⟨c, rest, rfl⟩ := List.exists_cons_of_ne_nil h.ne_nil
  have hhead : isSpace c = false := h.head c rfl
  have hspace : isSpace ' ' = true := by decide
  rw [strip, List.dropWhile_cons_of_pos hspace, List.dropWhile_cons_of_neg (by simp [hhead])]
  refine List.rdropWhile_eq_self_iff.2 fun hne => ?_
  rw [h.last _ (List.getLast?_eq_some_getLast hne)]
  exact Bool.false_ne_true

/-- The two lines of an event give its payload. -/
theorem iterSsePayloads_event {payload : Text} (h : Framed payload) (lines : List RawLine) :
    iterSsePayloads (.bytes (Utf8.encode ("data: ".toList ++ payload ++ ['\n'])) ::
        .bytes (Utf8.encode ['\n']) :: lines) =
      (payload :: (iterSsePayloads lines).1, (iterSsePayloads lines).2) := by
  have hdata : ("data: ".toList ++ payload ++ ['\n']).rdropWhile (fun c => c = '\r' ∨ c = '\n') =
      "data: ".toList ++ payload := by
    rw [List.rdropWhile_concat_pos _ _ _ (by decide), List.rdropWhile_eq_self_iff]
    intro hne hcrlf
    have hlast := h.last _ (List.getLast?_eq_some_getLast h.ne_nil)
    rw [List.getLast_append_right h.ne_nil] at hcrlf
    rcases of_decide_eq_true hcrlf with heq | heq <;> rw [heq] at hlast <;>
      exact absurd hlast (by decide)
  have hempty : ['\n'].rdropWhile (fun c => c = '\r' ∨ c = '\n') = [] := by decide
  have hdata5 : "data:".toList <+: "data: ".toList ++ payload :=
    (by decide : "data:".toList <+: "data: ".toList).trans (List.prefix_append _ _)
  have hdrop : ("data: ".toList ++ payload).drop 5 = ' ' :: payload := rfl
  have hne : "data: ".toList ++ payload ≠ [] := by simp
  simp only [iterSsePayloads, iterSsePayloadsFrom, RawLine.decode, Utf8.decodeStrict_encode, hdata,
    hempty, hne, hdata5, hdrop, h.strip_eq, if_true, if_false, List.nil_append]
  rw [if_neg (List.cons_ne_nil payload []), List.intercalate_singleton]

theorem framed_obj (fields : List (Text × Json)) : Framed (Json.obj fields).dumps := by
  have hdumps : (Json.obj fields).dumps = '{' :: (Json.dumpsFields true fields ++ ['}']) := by
    rw [Json.dumps]
  have hprintable := Json.printable_dumps (.obj fields)
  rw [hdumps] at hprintable ⊢
  refine ⟨fun hmem => absurd (hprintable _ hmem) (by decide), nofun, ?_, ?_⟩
  · rintro c ⟨⟩
    decide
  · intro c hc
    rw [← List.cons_append, List.getLast?_concat] at hc
    cases hc
    decide

theorem framed_done : Framed "[DONE]".toList :=
  ⟨by decide, by decide, by rintro c ⟨⟩; decide, by rintro c ⟨⟩; decide⟩

/-- The client gets the payloads that the server sent, one for each event. -/
theorem iterSsePayloads_dataEvents : ∀ {payloads : List Text}, (∀ p ∈ payloads, Framed p) →
    iterSsePayloads ((responseLines (Utf8.encode (payloads.flatMap dataEvent))).map .bytes) =
      (payloads, .ok ())
  | [], _ => rfl
  | payload :: payloads, h => by
    obtain ⟨hpayload, hrest⟩ := List.forall_mem_cons.1 h
    rw [List.flatMap_cons, Utf8.encode_append, responseLines_dataEvent hpayload.oneLine,
      List.map_cons, List.map_cons, iterSsePayloads_event hpayload,
      iterSsePayloads_dataEvents hrest]

/-! ## The contents -/

variable {lib : JsonLibrary} {seqId model : Text} {created : ℤ}

theorem distinctKeys_completionChunk {delta finishReason : Json} (hdelta : delta.DistinctKeys)
    (hfinish : finishReason.DistinctKeys) :
    (completionChunk seqId created model delta finishReason).DistinctKeys := by
  simp only [completionChunk, Json.DistinctKeys, Json.DistinctKeysItems, Json.DistinctKeysFields,
    hdelta, hfinish, and_true, true_and, List.map_cons, List.map_nil]
  decide

/-- The client finds the delta of a chunk. -/
theorem contentFromSsePayload_chunk
    (hloads : ∀ v : Json, v.DistinctKeys → lib.loads v.dumps = .ok v)
    {deltaFields : List (Text × Json)} {finishReason : Json}
    (hdelta : (Json.obj deltaFields).DistinctKeys) (hfinish : finishReason.DistinctKeys) :
    contentFromSsePayload lib
        (completionChunk seqId created model (.obj deltaFields) finishReason).dumps =
      .ok (let content := (deltaFields.lookup "content".toList).getD .null
        if truthy content then some (lib.toText content) else none) := by
  have hne : (completionChunk seqId created model (.obj deltaFields) finishReason).dumps ≠
      "[DONE]".toList := by
    rw [completionChunk, Json.dumps]
    intro heq
    exact absurd (List.cons.inj heq).1 (by decide)
  rw [contentFromSsePayload, if_neg hne,
    hloads _ (distinctKeys_completionChunk hdelta hfinish)]
  rfl

/-- The client reads the content of every token text that the server streams, whatever its
characters are, then an event without content, then `[DONE]`. -/
theorem iterSsePayloads_chatCompletionEvents
    (hloads : ∀ v : Json, v.DistinctKeys → lib.loads v.dumps = .ok v)
    (seqId : Text) (created : ℤ) (model : Text) (tokenTexts : List Text)
    (htexts : ∀ tokenText ∈ tokenTexts, tokenText ≠ []) :
    ∃ payloads, iterSsePayloads ((responseLines (Utf8.encode
        (chatCompletionEvents seqId created model tokenTexts).flatten)).map .bytes) =
          (payloads, .ok ()) ∧
      payloads =
        tokenTexts.map (fun tokenText => (tokenChunk seqId created model tokenText).dumps) ++
          [(stopChunk seqId created model).dumps, "[DONE]".toList] ∧
      payloads.map (contentFromSsePayload lib) =
        tokenTexts.map (fun tokenText => .ok (some tokenText)) ++ [.ok none, .ok none] := by
  have hevents : (chatCompletionEvents seqId created model tokenTexts).flatten =
      (tokenTexts.map (fun tokenText => (tokenChunk seqId created model tokenText).dumps) ++
        [(stopChunk seqId created model).dumps, "[DONE]".toList]).flatMap dataEvent := by
    simp [chatCompletionEvents, sseEvent, List.flatMap_def, Function.comp_def]
  have hframed : ∀ p ∈ tokenTexts.map (fun tokenText =>
      (tokenChunk seqId created model tokenText).dumps) ++
        [(stopChunk seqId created model).dumps, "[DONE]".toList], Framed p := by
    intro p hp
    rcases List.mem_append.1 hp with htoken | hlast
    · obtain ⟨tokenText, -, rfl⟩ := List.mem_map.1 htoken
      exact framed_obj _
    · rcases List.mem_pair.1 hlast with rfl | rfl
      · exact framed_obj _
      · exact framed_done
  refine ⟨_, hevents ▸ iterSsePayloads_dataEvents hframed, rfl, ?_⟩
  have htoken : ∀ tokenText ∈ tokenTexts, contentFromSsePayload lib
      (tokenChunk seqId created model tokenText).dumps = .ok (some tokenText) := by
    intro tokenText hmem
    have hdelta : (Json.obj [("content".toList, .str tokenText)]).DistinctKeys := by
      simp [Json.DistinctKeys, Json.DistinctKeysFields]
    rw [tokenChunk, contentFromSsePayload_chunk hloads hdelta (by simp [Json.DistinctKeys])]
    simp [truthy, JsonLibrary.toText, htexts tokenText hmem]
  have hstop : contentFromSsePayload lib (stopChunk seqId created model).dumps = .ok none := by
    rw [stopChunk, contentFromSsePayload_chunk hloads (by simp [Json.DistinctKeys,
      Json.DistinctKeysFields]) (by simp [Json.DistinctKeys])]
    rfl
  have hdone : contentFromSsePayload lib "[DONE]".toList = .ok none := if_pos rfl
  rw [List.map_append, List.map_map, List.map_cons, List.map_cons, List.map_nil, hstop, hdone]
  congr 1
  exact List.map_congr_left htoken

/-- The library with `Json.parse` for `json.loads`. -/
def compactJson : JsonLibrary where
  loads text :=
    match Json.parse text with
    | some v => .ok v
    | none => .error ⟨.valueError, "Expecting value"⟩
  str _ := []

/-- Two texts that look like events, and a quote. -/
theorem iterSsePayloads_chatCompletionEvents_threeTexts : ∃ payloads,
    iterSsePayloads ((responseLines (Utf8.encode (chatCompletionEvents "seq_1".toList 7 "é".toList
      ["\n\ndata: x".toList, "[DONE]".toList, "\"".toList]).flatten)).map .bytes) =
        (payloads, .ok ()) ∧
      payloads.map (contentFromSsePayload compactJson) = [.ok (some "\n\ndata: x".toList),
        .ok (some "[DONE]".toList), .ok (some "\"".toList), .ok none, .ok none] := by
  have hloads : ∀ v : Json, v.DistinctKeys → compactJson.loads v.dumps = .ok v := fun v _ => by
    simp only [compactJson, Json.parse_dumps]
  obtain ⟨payloads, hread, -, hcontents⟩ := iterSsePayloads_chatCompletionEvents
    hloads "seq_1".toList 7 "é".toList ["\n\ndata: x".toList, "[DONE]".toList, "\"".toList]
    (by decide)
  exact ⟨payloads, hread, hcontents⟩

end SoloRT
