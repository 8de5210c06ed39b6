import InferenceGateway.Proofs.EventTranslation
import InferenceGateway.Proofs.Framing
import InferenceGateway.Proofs.RecordReading

/-!
# Streamed and single answers

A message of the vendor can be told at once, in a body, or bit by bit, in a stream of events. The
provider reads the two by ways that have nothing in common: it joins the texts of the blocks of a
body, and it makes a fragment of each text that is added in a stream. What comes out is the same
text, under the same id and with the same reason to end.

A message is told by texts of JSON, in whatever order its members stand and whatever others stand
between them. So first it is said which objects tell a message, and that they are read as what they
tell.

* `Response.Told`: the objects that tell a message.
* `Response.Streamed`: the rows of events that tell a message.
* `Client.answers_agree`: what the provider `anthropic` streams of a message is what it answers of
  it at once, for chats and for completions.
-/

namespace InferenceGateway.Anthropic

open Document EventStream

/-- A text of JSON that is an object with some members, which can be held as data. -/
def IsObject (bytes : Bytes) (members : List (String × Node)) : Prop :=
  Json.tree bytes = (.object members, true) ∧ Readable members

theorem IsObject.parse {α : Type} {bytes : Bytes} {members : List (String × Node)} {a : α}
    {r : Reader α} (h : IsObject bytes members) (hr : r .json (.object members) = .ok a) :
    Json.parse r bytes = .ok a := by
  rw [Json.parse, h.1]
  show (do let a ← r .json (.object members); if true then return a else throw _) = _
  rw [hr]
  rfl

/-- An object as it is written, and its members. -/
theorem IsObject.of_print {room : Nat} {ms : List (String × Json)}
    (h : Json.Plain room (.object ms)) (hr : room ≤ Json.Build.depthLimit) :
    IsObject (Text.Utf8.encode (Json.object ms).print) (ms.map fun m => (m.1, m.2.node)) := by
  refine ⟨Json.node_object ms ▸ Json.tree_print h hr, fun m hm => ?_⟩
  obtain ⟨m, -, rfl⟩ := List.mem_map.1 hm
  exact Json.check_node m.2

/-! ## Objects that tell messages -/

/-- A node tells a block. The text may be left out if there is none. -/
def Block.Told (n : Node) (b : Block) : Prop :=
  ∃ members, n = .object members ∧ HasOnce members "type" (.text b.type) ∧
    (HasOnce members "text" (.text b.text) ∨ HasNone members "text" ∧ b.text = "")

/-- The members of an object that tells counts of tokens. -/
structure TokenUsage.Told (members : List (String × Node)) (u : TokenUsage) : Prop where
  input : HasOnce members "input_tokens" (.number (.integer u.inputTokens))
  output : HasOnce members "output_tokens" (.number (.integer u.outputTokens))
  inputFits : u.inputTokens < Nat.pow 2 32
  outputFits : u.outputTokens < Nat.pow 2 32

namespace Response

/-- The members of an object that tells a message. -/
structure Told (members : List (String × Node)) (m : Response) : Prop where
  id : HasOnce members "id" (.text m.id)
  content : ∃ blocks, HasOnce members "content" (.sequence blocks) ∧
    List.Forall₂ Block.Told blocks m.content
  model : HasOnce members "model" (.text m.model)
  stopReason : SaysText members "stop_reason" m.stopReason
  usage : ∃ usage, HasOnce members "usage" (.object usage) ∧ m.usage.Told usage

end Response

theorem Block.read_of_told {d : Dialect} {n : Node} {b : Block} (hc : n.check = .ok ())
    (h : b.Told n) : Block.read d n = .ok b := by
  obtain ⟨members, rfl, ht, h⟩ := h
  refine Fields.closed_object (.seq (.map (.required ht rfl) Block.mk) ?_)
    (Node.readable_of_check hc)
  rcases h with h | ⟨h, he⟩
  · exact .defaulting h rfl
  · exact he ▸ .left_out h _ rfl

theorem TokenUsage.Told.read_eq {d : Dialect} {members : List (String × Node)} {u : TokenUsage}
    (h : u.Told members) (hc : Readable members) :
    TokenUsage.read d (.object members) = .ok u :=
  Fields.closed_object (.seq (.map (.required h.input (Reader.natural_of_lt h.inputFits "u32" d)) _)
    (.required h.output (Reader.natural_of_lt h.outputFits "u32" d))) hc

namespace Response

/-- An object is read as the message that it tells. -/
theorem read_of_told {members : List (String × Node)} {m : Response} (hc : Readable members)
    (h : m.Told members) : read .json (.object members) = .ok m := by
  obtain ⟨id, ⟨blocks, content, hb⟩, model, stopReason, usage, hu, counts⟩ := h
  have read : Reader.list Block.read .json (.sequence blocks) = .ok m.content :=
    mapM_of_forall₂ <|
      ((List.forall₂_and_left _ _).2 ⟨Node.check_of_mem (hc _ content.mem), hb⟩).imp
        fun _ _ h => Block.read_of_told h.1 h.2
  have counted : TokenUsage.read .json (.object usage) = .ok m.usage :=
    counts.read_eq (Node.readable_of_check (hc _ hu.mem))
  exact Fields.closed_object (((((Fields.Finds.required id rfl).map Response.mk).seq
    (.required content read)).seq (.required model rfl)).seq (.optional_text stopReason) |>.seq
    (.required hu counted)) hc

end Response

/-! ## Streams that tell messages -/

/-- The texts that are added for a block: those of a block of text make up its text, and there are
    none for any other block. -/
def Block.Added (b : Block) (texts : List String) : Prop :=
  if b.type = "text" then String.join texts = b.text else texts = []

/-- The events of a message before its end: it begins, texts are added to it, and it gets its reason
    to end. -/
def Response.events (m : Response) (texts : List String) : List Event :=
  .messageStart m.id :: (texts.map .textDelta ++ [.messageDelta m.stopReason])

/-- A row of events that tells a message: the texts that are added are those of its blocks, in
    order. Anywhere there may be events of unknown types, and additions that are no texts. -/
def Response.Streamed (m : Response) (events : List Event) : Prop :=
  ∃ texts, List.Forall₂ Block.Added m.content texts ∧
    events.filter (· ≠ .other) = m.events texts.flatten ++ [.messageStop]

/-- What the fragments of a message say: one has each text, and one its reason to end. -/
def Response.parts (m : Response) (texts : List String) : List Part :=
  texts.map (fun text => ⟨m.id, some text, none⟩) ++
    (m.stopReason.map fun reason => ⟨m.id, none, some (finishReason reason)⟩).toList

/-- The texts that are added for blocks are, joined, the joined texts of the blocks. -/
theorem join_of_added {blocks : List Block} {texts : List (List String)}
    (h : List.Forall₂ Block.Added blocks texts) : String.join texts.flatten =
      String.join ((blocks.filter (·.type = "text")).map (·.text)) := by
  induction h with
  | nil => rfl
  | @cons b texts _ _ hb _ ih =>
    rw [Block.Added] at hb
    rw [List.flatten_cons, String.join_append, ih]
    split at hb
    · rename_i ht
      rw [List.filter_cons_of_pos (by simpa using ht), List.map_cons, String.join_cons, hb]
    · rename_i ht
      rw [List.filter_cons_of_neg (by simpa using ht), hb, String.join_nil, String.empty_append]

/-- An event that is passed over makes no difference. -/
theorem translation_filter (id : String) (events : List Event) :
    translation id (events.filter (· ≠ .other)) = translation id events := by
  induction events generalizing id with
  | nil => rfl
  | cons e events ih =>
    rw [translation_cons]
    by_cases he : e = .other
    · subst he
      rw [List.filter_cons_of_neg (by simp), ih]
      rfl
    · rw [List.filter_cons_of_pos (by simpa using he), translation_cons, ih]

/-- Each text that is added makes a fragment of its own. -/
theorem translation_textDelta (id : String) (texts : List String) (events : List Event) :
    translation id (texts.map .textDelta ++ events) =
      texts.map (fun text => ⟨id, some text, none⟩) ++ translation id events := by
  induction texts with
  | nil => rfl
  | cons text texts ih =>
    rw [List.map_cons, List.cons_append, translation_cons]
    exact congrArg (_ :: ·) ih

/-- What the events of a message are translated to. -/
theorem translation_events (id : String) (m : Response) (texts : List String) :
    translation id (m.events texts) = m.parts texts := by
  rw [Response.events, translation_cons]
  show translation m.id _ = _
  rw [translation_textDelta, translation_cons, Response.parts]
  cases m.stopReason with
  | none => rfl
  | some reason =>
    rw [Option.map_some, finishReason_eq]
    rfl

/-- A row of payloads is read up to the end of the message, whatever follows. -/
theorem reads_of_told {payloads : List String} {before after : List Event}
    (h : List.Forall₂ Event.IsToldBy payloads (before ++ .messageStop :: after))
    (hs : .messageStop ∉ before) (hf : ∀ kind message, .error kind message ∉ before)
    (rest : List (Except GatewayError String)) :
    Reads (payloads.map .ok ++ rest) before none := by
  induction before generalizing payloads with
  | nil =>
    obtain ⟨payload, payloads, hp, -, rfl⟩ := List.forall₂_cons_right_iff.1 h
    exact .ended (.messageStop hp)
  | cons e before ih =>
    obtain ⟨payload, payloads, hp, told, rfl⟩ := List.forall₂_cons_right_iff.1 h
    rw [List.mem_cons, not_or] at hs
    refine .passed (.event hp (Ne.symm hs.1) ?_)
      (ih told hs.2 fun kind message hm => hf kind message (List.mem_cons_of_mem _ hm))
    rintro kind message rfl
    exact hf kind message List.mem_cons_self

namespace Response

/-- A stream tells a message: the payloads of its events come first among its items. -/
def IsStreamedBy (m : Response) (items : List (Except GatewayError String)) : Prop :=
  ∃ payloads events rest, items = payloads.map .ok ++ rest ∧
    List.Forall₂ Event.IsToldBy payloads events ∧ m.Streamed events

/-- A body tells a message. -/
def IsToldBy (m : Response) (body : Bytes) : Prop :=
  ∃ members, IsObject body members ∧ m.Told members

/-- The events that are not passed over end with the end of the message. -/
theorem split_streamed {events told : List Event}
    (h : events.filter (· ≠ .other) = told ++ [.messageStop]) :
    ∃ before after, events = before ++ .messageStop :: after ∧
      before.filter (· ≠ .other) = told := by
  obtain ⟨before, ended, rfl, hb, he⟩ := List.filter_eq_append_iff.1 h
  obtain ⟨passed, after, rfl, hp, -, -⟩ := List.filter_eq_cons_iff.1 he
  refine ⟨before ++ passed, after, (List.append_assoc ..).symm, ?_⟩
  rw [List.filter_append, hb, List.filter_eq_nil_iff.2 hp, List.append_nil]

/-- Values that are written as the data of events are the payloads of their stream, in whatever
    chunks it comes. -/
theorem itemsOfBody_print {values : List Json} {pieces : List Bytes} (h : pieces.flatten =
      Text.Utf8.encode (String.join (values.map fun j => dataLine j.print ++ "\n\n")))
    (complete : Bool) :
    ∃ rest, itemsOfBody pieces complete = (values.map Json.print).map .ok ++ rest := by
  have splits : Splits pieces.flatten
      ((values.map fun j => dataLine j.print).map Text.Utf8.encode) [] := by
    rw [h, ← Function.comp_def (· ++ "\n\n"), ← List.map_map]
    refine splits_join fun t ht => ?_
    obtain ⟨j, -, rfl⟩ := List.mem_map.1 ht
    exact isBlock_dataLine (isPayload_print j)
  have data : ((values.map fun j => dataLine j.print).map Text.Utf8.encode).flatMap eventData =
      values.map Json.print ++ [] := by
    simp [List.flatMap_map, eventData_dataLine (isPayload_print _), ← List.map_eq_flatMap]
  refine ⟨(((Reader.within []).finish (Provider.bodyFault complete) false).map .error).toList, ?_⟩
  rw [itemsOfBody, dataOfPieces_of_splits splits, data, itemsOfData_print, List.map_map]
  rfl

/-- The fragments of a stream that tells a message are those of its texts and its reason. -/
theorem fragments_of_isStreamedBy {α : Type} {m : Response}
    {items : List (Except GatewayError String)} (h : m.IsStreamedBy items) (make : MakeChunk α)
    (id : String) : ∃ texts, String.join texts = m.text ∧
      fragments make id items = (m.parts texts).map fun p => .ok (make p.id p.text p.finish) := by
  obtain ⟨payloads, events, rest, rfl, told, texts, added, he⟩ := h
  refine ⟨texts.flatten, join_of_added added, ?_⟩
  obtain ⟨before, after, rfl, hb⟩ := split_streamed he
  have mem {e : Event} (hm : e ∈ before) (hn : e ≠ .other) : e ∈ m.events texts.flatten :=
    hb ▸ List.mem_filter.2 ⟨hm, by simpa using hn⟩
  have reads := reads_of_told told (fun hm => by simpa [events] using mem hm nofun)
    (fun _ _ hm => by simpa [events] using mem hm nofun) rest
  rw [reads.fragments_eq, ← translation_filter, hb, translation_events]
  exact List.append_nil _

end Response

/-! ## What is said -/

/-- What answers of a type, or fragments of one, say: the id of the message, its texts, and its
    reasons to end. -/
structure Saying (α : Type) where
  id : α → String
  texts : α → List String
  reasons : α → List String

/-- What chat answers say. -/
def chatSaying : Saying Chat.Response where
  id := (·.id)
  texts answer := answer.choices.map (·.message.content)
  reasons answer := answer.choices.filterMap (·.finishReason)

/-- What fragments of chat answers say. -/
def chatChunkSaying : Saying Chat.Chunk where
  id := (·.id)
  texts chunk := chunk.choices.filterMap (·.delta.content)
  reasons chunk := chunk.choices.filterMap (·.finishReason)

/-- What completed texts say. -/
def completionsSaying : Saying Completions.Response where
  id := (·.id)
  texts answer := answer.choices.map (·.text)
  reasons answer := answer.choices.filterMap (·.finishReason)

/-- What fragments of completed texts say. -/
def completionsChunkSaying : Saying Completions.Chunk where
  id := (·.id)
  texts chunk := chunk.choices.filterMap (·.text)
  reasons chunk := chunk.choices.filterMap (·.finishReason)

/-- Fragments that together say what an answer says: each has its id, their texts make up its text,
    and their reasons to end are its reasons. -/
structure SaySame {α β : Type} (part : Saying α) (whole : Saying β) (chunks : List α) (answer : β) :
    Prop where
  id : ∀ chunk ∈ chunks, part.id chunk = whole.id answer
  text : String.join (chunks.flatMap part.texts) = String.join (whole.texts answer)
  reasons : chunks.flatMap part.reasons = whole.reasons answer

/-- Two operations agree on a message that is told in a body to the one, and in a stream to the
    other: the one gives its answer, and what the fragments of the other say is what that answer
    says. -/
def AgreeOn {α β : Type} (part : Saying α) (whole : Saying β) (m : Response)
    (single : ProviderCall β) (answer : β) (streamed : ProviderCall (Fragments α)) : Prop :=
  ∀ (status status' : Nat) (body pieces : List Bytes) (complete : Bool) (later : List Http.Reply),
    Http.isSuccess status → Http.isSuccess status' → m.IsToldBy body.flatten →
    m.IsStreamedBy (itemsOfBody pieces complete) →
    ∃ chunks, single.result (.answer status body true :: later) = .ok answer ∧
      streamed.result (.answer status' pieces complete :: later) = .ok (chunks.map .ok) ∧
      SaySame part whole chunks answer

/-- Fragments of a message say what the message says, if each says what it is made of. -/
theorem saySame_fragments {α β : Type} {part : Saying α} {whole : Saying β} {make : MakeChunk α}
    {m : Response} {texts : List String} {answer : β} (ht : String.join texts = m.text)
    (hmake : ∀ id text reason, part.id (make id text reason) = id ∧
      part.texts (make id text reason) = text.toList ∧
      part.reasons (make id text reason) = reason.toList)
    (hid : whole.id answer = m.id) (htext : whole.texts answer = [m.text])
    (hreason : whole.reasons answer = (m.stopReason.map finishReason).toList) :
    SaySame part whole ((m.parts texts).map fun p => make p.id p.text p.finish) answer := by
  refine ⟨fun chunk hc => ?_, ?_, ?_⟩
  · obtain ⟨p, hp, rfl⟩ := List.mem_map.1 hc
    rw [hid, (hmake ..).1]
    rcases List.mem_append.1 hp with hp | hp
    · obtain ⟨text, -, rfl⟩ := List.mem_map.1 hp
      rfl
    · obtain ⟨reason, -, rfl⟩ := Option.map_eq_some_iff.1 (Option.mem_toList.1 hp)
      rfl
  · rw [htext, Response.parts, List.flatMap_map]
    cases m.stopReason <;> simp [List.flatMap_map, hmake, ht]
  · rw [hreason, Response.parts, List.flatMap_map]
    cases m.stopReason <;> simp [List.flatMap_map, hmake]

namespace Client

/-- A single answer is that of the message that the body tells. -/
theorem result_ask {β : Type} (f : Response → β) {c : Client} {q : Request} {m : Response}
    {body : List Bytes} {status : Nat} {later : List Http.Reply}
    (hr : (Provider.convert f (c.ask q)).sends) (hs : Http.isSuccess status)
    (hm : m.IsToldBy body.flatten) :
    (Provider.convert f (c.ask q)).result (.answer status body true :: later) = .ok (f m) := by
  obtain ⟨members, hb, hm⟩ := hm
  have decoded : Provider.decodeBody Response.read body true = .ok m := by
    unfold Provider.decodeBody
    rw [hb.parse (Response.read_of_told hb.2 hm)]
  rw [Provider.convert, Call.sends_map] at hr
  rw [Provider.convert, Call.result_map, ask, Provider.result_exchange hr hs body true later,
    decoded]
  rfl

/-- Both ways of asking agree, if what they make of a message says what the message says. -/
theorem agreeOn {α β : Type} {part : Saying α} {whole : Saying β} {make : MakeChunk α}
    {f : Response → β} {c : Client} {q q' : Request} {m : Response}
    (hr : (Provider.convert f (c.ask q)).sends)
    (hr' : (c.askStream q' make).sends)
    (hmake : ∀ id text reason, part.id (make id text reason) = id ∧
      part.texts (make id text reason) = text.toList ∧
      part.reasons (make id text reason) = reason.toList)
    (hid : whole.id (f m) = m.id) (htext : whole.texts (f m) = [m.text])
    (hreason : whole.reasons (f m) = (m.stopReason.map finishReason).toList) :
    AgreeOn part whole m (Provider.convert f (c.ask q)) (f m) (c.askStream q' make) := by
  intro status status' body pieces complete later hs hs' hb hp
  obtain ⟨texts, ht, hf⟩ := Response.fragments_of_isStreamedBy hp make ""
  refine ⟨_, result_ask f hr hs hb, ?_, saySame_fragments ht hmake hid htext hreason⟩
  rw [askStream, Provider.result_exchange hr' hs' pieces complete later]
  refine congrArg Except.ok (hf.trans ?_)
  rw [List.map_map]
  rfl

/-- What is streamed of a message is what is answered of it at once, for chats and for completions:
    every fragment has the id of the answer, their texts make up its text, and the only reasons to
    end are those of the answer. -/
theorem answers_agree (c : Client) (now now' : Nat) (m : Response) :
    (∀ r, (c.provider.chat now r).sends →
      (c.provider.chatStream now' r).sends →
      AgreeOn chatChunkSaying chatSaying m (c.provider.chat now r) (m.toChat now)
        (c.provider.chatStream now' r)) ∧
    (∀ r, (c.provider.completions now r).sends →
      (c.provider.completionsStream now' r).sends →
      AgreeOn completionsChunkSaying completionsSaying m (c.provider.completions now r)
        (m.toCompletions now) (c.provider.completionsStream now' r)) := by
  constructor
  · intro r hr hr'
    simp only [provider] at hr hr' ⊢
    refine agreeOn hr hr' (fun id text reason => ⟨rfl, ?_, ?_⟩) rfl rfl ?_
    · cases text <;> rfl
    · cases reason <;> rfl
    · cases h : m.stopReason <;> simp [chatSaying, Response.toChat, h]
  · intro r hr hr'
    simp only [provider] at hr hr' ⊢
    refine agreeOn hr hr' (fun id text reason => ⟨rfl, ?_, ?_⟩) rfl rfl ?_
    · cases text <;> rfl
    · cases reason <;> rfl
    · cases h : m.stopReason <;> simp [completionsSaying, Response.toCompletions, h]

/-- A message with a text, which is streamed in two parts, and a call of a tool. -/
theorem answers_agree_tool_use :
    let c : Client := ⟨"m", "k", "http://h"⟩
    let m : Response := ⟨"a", [⟨"text", "Hello"⟩, ⟨"tool_use", ""⟩], "m", some "max_tokens", ⟨3, 5⟩⟩
    let chat : Chat.Request := ⟨[], none, none, true, none, none, []⟩
    let completions : Completions.Request := ⟨"hi", none, none, none, true, []⟩
    let typed (type : String) (members : List (String × Json)) : List (String × Json) :=
      ("type", .text type) :: members
    let body : List (String × Json) := [("id", .text "a"), ("model", .text "m"),
      ("content", .array [.object (typed "text" [("text", .text "Hello")]),
        .object (typed "tool_use" [])]),
      ("stop_reason", .text "max_tokens"),
      ("usage", .object [("input_tokens", .integer 3), ("output_tokens", .integer 5)])]
    let delta (members : List (String × Json)) : List (String × Json) :=
      typed "content_block_delta" [("delta", .object members)]
    let events := [typed "message_start" [("message", .object [("id", .text "a")])],
      typed "ping" [], delta (typed "text_delta" [("text", .text "Hel")]),
      delta (typed "text_delta" [("text", .text "lo")]), delta (typed "input_json_delta" []),
      typed "message_delta" [("delta", .object [("stop_reason", .text "max_tokens")])],
      typed "message_stop" []]
    let bytes := Text.Utf8.encode (Json.object body).print
    let pieces := [Text.Utf8.encode
      (String.join (events.map fun members => dataLine (Json.object members).print ++ "\n\n"))]
    m.IsToldBy bytes ∧ m.IsStreamedBy (itemsOfBody pieces true) ∧
      (∃ chunks, (c.provider.chat 7 chat).result [.answer 200 [bytes] true] = .ok (m.toChat 7) ∧
        (c.provider.chatStream 8 chat).result [.answer 200 pieces true] = .ok (chunks.map .ok) ∧
        SaySame chatChunkSaying chatSaying chunks (m.toChat 7)) ∧
      (∃ chunks,
        (c.provider.completions 7 completions).result [.answer 200 [bytes] true] =
          .ok (m.toCompletions 7) ∧
        (c.provider.completionsStream 8 completions).result [.answer 200 pieces true] =
          .ok (chunks.map .ok) ∧
        SaySame completionsChunkSaying completionsSaying chunks (m.toCompletions 7)) := by
  intro c m chat completions typed body delta events bytes pieces
  have object_iff {room : Nat} {members : List (String × Json)} :
      Json.Plain (room + 1) (.object members) ↔ ∀ m ∈ members, Json.Plain room m.2 :=
    ⟨fun h => by cases h; assumption, .object⟩
  have told : m.IsToldBy bytes := by
    have three : Json.Plain 1 (.integer 3) := .natural (show 3 < _ by decide)
    have five : Json.Plain 1 (.integer 5) := .natural (show 5 < _ by decide)
    have blocks : Json.Plain 2 (.array [.object (typed "text" [("text", .text "Hello")]),
        .object (typed "tool_use" [])]) :=
      .array (by simp [typed, object_iff, Json.Plain.text])
    have plain : Json.Plain 3 (.object body) := by
      simp [body, object_iff, blocks, Json.Plain.text, three, five]
    refine ⟨_, .of_print plain (by decide), rfl, ⟨[.object [("type", .text "text"),
      ("text", .text "Hello")], .object [("type", .text "tool_use")]], rfl, ?_⟩, rfl, .text rfl,
      ⟨[("input_tokens", .number (.integer 3)), ("output_tokens", .number (.integer 5))], rfl,
        ⟨rfl, rfl, by decide, by decide⟩⟩⟩
    exact .cons ⟨_, rfl, rfl, .inl rfl⟩ (.cons ⟨_, rfl, rfl, .inr ⟨rfl, rfl⟩⟩ .nil)
  have streamed : m.IsStreamedBy (itemsOfBody pieces true) := by
    have plain : ∀ members ∈ events, Json.Plain 2 (.object members) := by
      simp only [events, typed, delta, List.forall_mem_cons, object_iff, Json.Plain.text,
        List.not_mem_nil, IsEmpty.forall_iff, implies_true, and_true]
    have tells {members : List (String × Json)} {e : Event} (hm : members ∈ events)
        (he : Event.Told (.object (members.map fun m => (m.1, m.2.node))) e) :
        e.IsToldBy (Json.object members).print :=
      have h := IsObject.of_print (plain _ hm) (by decide)
      ⟨_, h.1, Node.checkEntries_entriesOf.2 h.2, he⟩
    have joined : pieces.flatten = Text.Utf8.encode (String.join
        ((events.map Json.object).map fun j => dataLine j.print ++ "\n\n")) := by
      simp [pieces, Function.comp_def]
    obtain ⟨rest, hrest⟩ := Response.itemsOfBody_print joined true
    refine ⟨_, [.messageStart "a", .other, .textDelta "Hel", .textDelta "lo", .other,
      .messageDelta (some "max_tokens"), .messageStop], rest, hrest, ?_,
      [["Hel", "lo"], []], .cons rfl (.cons rfl .nil), by decide +kernel⟩
    have added (text : String) :
        HasTag "type" (.object [("type", .text "text_delta"), ("text", .text text)])
          (.text "text_delta") (.object [("text", .text text)]) := .member rfl
    refine .cons (tells (by simp [events]) ?_) <| .cons (tells (by simp [events]) ?_) <|
      .cons (tells (by simp [events]) ?_) <| .cons (tells (by simp [events]) ?_) <|
      .cons (tells (by simp [events]) ?_) <| .cons (tells (by simp [events]) ?_) <|
      .cons (tells (by simp [events]) ?_) .nil
    · have id : HasField "id" (.object [("id", .text "a")]) (.text "a") := .member rfl
      exact .messageStart (.member rfl) (.member rfl) id
    · exact .unknown (.member rfl) (by decide) (Event.exhausted_object _)
    · exact .textDelta (.member rfl) (.member rfl) (added "Hel") .text (.member rfl)
    · exact .textDelta (.member rfl) (.member rfl) (added "lo") .text (.member rfl)
    · have tool : HasTag "type" (.object [("type", .text "input_json_delta")])
        (.text "input_json_delta") (.object []) := .member rfl
      exact .otherDelta (.member rfl) (.member rfl) tool (.text (by decide))
        (Event.exhausted_object _)
    · have reason : Event.SaysReason (.object [("stop_reason", .text "max_tokens")])
        (some "max_tokens") := .text (.member rfl)
      exact .messageDelta (.member rfl) (.member rfl) reason
    · exact .messageStop (.member rfl) (Event.exhausted_object _)
  have agree := c.answers_agree 7 8 m
  have flat : m.IsToldBy [bytes].flatten := by simpa using told
  exact ⟨told, streamed,
    agree.1 chat (by decide +kernel) (by decide +kernel) 200 200 _ _ true [] rfl rfl flat streamed,
    agree.2 completions (by decide +kernel) (by decide +kernel) 200 200 _ _ true [] rfl rfl flat
      streamed⟩

end Client

end InferenceGateway.Anthropic
