import InferenceGateway.Proofs.EventReading
import InferenceGateway.Proofs.Exchanges
import InferenceGateway.Proofs.StreamEnding

/-!
# Translated events

The fragments of a streamed message, event by event. What stands before an item matters to it in
two ways only: whether the stream has ended, and which message began last. So what is made of a
stream can be said of each of its events alone (`translation`), once it is said which events are
read at all (`Reads`). Neither is said with the help of the code: which payloads a stream has, which
event a payload tells, and what a fragment says of it are all said of the texts.

* `Part`: what a fragment says of an event.
* `Reads.fragments_eq`: the fragments of a stream are the translation of the events that it tells,
  with the error that ends it, if any.
* `Client.streams_translation`: what the provider `anthropic` streams, for chats and for
  completions.
-/

namespace InferenceGateway.Anthropic

open Document EventStream

/-! ## What is made of an event -/

/-- What a fragment says: a text that is added to a message, or a reason for which it ends. -/
structure Part where
  /-- The id of the message. -/
  id : String
  text : Option String
  finish : Option String
deriving DecidableEq, Repr

/-- The reasons to end for which the gateway has words of its own. -/
def reasonNames : List (String × String) :=
  [("end_turn", "stop"), ("stop_sequence", "stop"), ("max_tokens", "length")]

theorem finishReason_eq (reason : String) :
    finishReason reason = (reasonNames.lookup reason).getD reason := by
  rw [finishReason, reasonNames, lookup_cons_if, lookup_cons_if, lookup_cons_if]
  by_cases turn : reason = "end_turn" <;> by_cases sequence : reason = "stop_sequence" <;>
    by_cases tokens : reason = "max_tokens" <;> simp [turn, sequence, tokens]

namespace Event

/-- The id of the message that an event begins. -/
def startedId? : Event → Option String
  | .messageStart id => some id
  | _ => none

/-- What is made of an event: its text, or its reason to end. -/
def part? (id : String) : Event → Option Part
  | .textDelta text => some ⟨id, some text, none⟩
  | .messageDelta (some reason) => some ⟨id, none, some ((reasonNames.lookup reason).getD reason)⟩
  | _ => none

end Event

/-- The id of the message that began last among events, or an id from before them. -/
def messageId (id : String) (events : List Event) : String :=
  (events.filterMap Event.startedId?).getLast?.getD id

/-- What a row of events is translated to: each event makes one fragment at most, with the id of
    the message that began last before it. -/
def translation (id : String) (events : List Event) : List Part :=
  (List.range events.length).filterMap fun k =>
    events[k]?.bind (Event.part? (messageId id (events.take k)))

theorem messageId_cons (id : String) (e : Event) (events : List Event) :
    messageId id (e :: events) = messageId (e.startedId?.getD id) events := by
  rw [messageId, messageId, List.filterMap_cons]
  cases e.startedId? with
  | none => rfl
  | some next => simp [List.getLast?_cons]

/-- The first event makes its fragment, and a message that it begins is that of the others. -/
theorem translation_cons (id : String) (e : Event) (events : List Event) :
    translation id (e :: events) =
      (e.part? id).toList ++ translation (e.startedId?.getD id) events := by
  have first : messageId id [] = id := rfl
  rw [translation, List.length_cons, List.range_succ_eq_map, List.filterMap_cons,
    List.filterMap_map]
  simp only [Function.comp_def, List.getElem?_cons_zero, List.getElem?_cons_succ, Option.bind_some,
    List.take_zero, List.take_succ_cons, first, messageId_cons]
  cases e.part? id <;> rfl

example : translation "" [.textDelta "x", .messageStart "a", .textDelta "y", .messageDelta none,
      .messageStart "b", .other, .messageDelta (some "max_tokens")] =
    [⟨"", some "x", none⟩, ⟨"a", some "y", none⟩, ⟨"b", none, some "length"⟩] := by
  decide

/-! ## What is read of a stream -/

/-- An item after which a stream goes on, with its event. -/
inductive Passes : Except GatewayError String → Event → Prop
  | event {payload : String} {e : Event} : e.IsToldBy payload → e ≠ .messageStop →
    (∀ kind message, e ≠ .error kind message) → Passes (.ok payload) e

/-- An item that ends a stream, with its error, if it has one: the end of the message, an event
    that tells an error, a payload that tells no event, or a fault of the transport. -/
inductive Ends : Except GatewayError String → Option GatewayError → Prop
  | messageStop {payload : String} : Event.IsToldBy payload .messageStop → Ends (.ok payload) none
  | error {payload kind message : String} : Event.IsToldBy payload (.error kind message) →
    Ends (.ok payload) (some (.vendor 502 (.event "Anthropic" kind message)))
  | malformed {payload : String} {fault : ReadError} : (∀ e, ¬Event.IsToldBy payload e) →
    Json.parse Event.read (Text.Utf8.encode payload) = .error fault →
      Ends (.ok payload) (some (.vendor 502 (.fragment "Anthropic" fault)))
  | broken {e : GatewayError} : Ends (.error e) (some e)

/-- What is read of a row of items: the events before the first item that ends the stream, and
    the error of that item. A stream that just stops is truncated. -/
inductive Reads : List (Except GatewayError String) → List Event → Option GatewayError → Prop
  | out : Reads [] [] (some .truncatedStream)
  | ended {item : Except GatewayError String} {rest : List (Except GatewayError String)}
    {error : Option GatewayError} : Ends item error → Reads (item :: rest) [] error
  | passed {item : Except GatewayError String} {e : Event}
    {items : List (Except GatewayError String)} {events : List Event}
    {error : Option GatewayError} :
    Passes item e → Reads items events error → Reads (item :: items) (e :: events) error

/-- The end of the message is reached: before it the stream goes on. -/
def StopReached (items : List (Except GatewayError String)) : Prop :=
  ∃ before payload after, items = before ++ .ok payload :: after ∧
    (∀ item ∈ before, ∃ e, Passes item e) ∧ Event.IsToldBy payload .messageStop

/-- Rows of items that are the same up to an item that ends a stream. -/
def SameToEnd (items items' : List (Except GatewayError String)) : Prop :=
  ∃ before item rest rest', items = before ++ item :: rest ∧ items' = before ++ item :: rest' ∧
    ∃ error, Ends item error

variable {items items' : List (Except GatewayError String)} {events : List Event}
  {error : Option GatewayError}

/-- A payload tells one event at most. -/
theorem Event.IsToldBy.unique {payload : String} {e e' : Event} (h : e.IsToldBy payload)
    (h' : e'.IsToldBy payload) : e = e' :=
  Except.ok.inj
    ((Event.decodeFragment_eq_ok_iff.2 h).symm.trans (Event.decodeFragment_eq_ok_iff.2 h'))

/-- A payload tells an event, or it cannot be read as one. -/
theorem isToldBy_or_malformed (payload : String) : (∃ e, Event.IsToldBy payload e) ∨
    (∀ e, ¬Event.IsToldBy payload e) ∧
      ∃ fault, Json.parse Event.read (Text.Utf8.encode payload) = .error fault := by
  by_cases h : ∃ e, Event.IsToldBy payload e
  · exact .inl h
  · refine .inr ⟨not_exists.1 h, ?_⟩
    rcases hp : Json.parse Event.read (Text.Utf8.encode payload) with fault | e
    · exact ⟨fault, rfl⟩
    · refine absurd ⟨e, Event.decodeFragment_eq_ok_iff.1 ?_⟩ h
      rw [Provider.decodeFragment, hp]
      rfl

/-- A stream goes on after an item, or ends with it. -/
theorem passes_or_ends (item : Except GatewayError String) :
    (∃ e, Passes item e) ∨ ∃ error, Ends item error := by
  rcases item with e | payload
  · exact .inr ⟨_, .broken⟩
  rcases isToldBy_or_malformed payload with ⟨event, h⟩ | ⟨h, fault, hp⟩
  · cases event with
    | messageStop => exact .inr ⟨_, .messageStop h⟩
    | error kind message => exact .inr ⟨_, .error h⟩
    | _ => exact .inl ⟨_, .event h nofun nofun⟩
  · exact .inr ⟨_, .malformed h hp⟩

/-- A stream does not go on after an item that ends it. -/
theorem Passes.not_ends {item : Except GatewayError String} {e : Event} (h : Passes item e) :
    ¬Ends item error := by
  obtain ⟨h, hs, hf⟩ := h
  rintro (h' | h' | ⟨h', -⟩ | -)
  · exact hs (h.unique h')
  · exact hf _ _ (h.unique h')
  · exact h' _ h

/-- Something is read of every row of items. -/
theorem exists_reads (items : List (Except GatewayError String)) :
    ∃ events error, Reads items events error := by
  induction items with
  | nil => exact ⟨_, _, .out⟩
  | cons item items ih =>
    rcases passes_or_ends item with ⟨e, h⟩ | ⟨error, h⟩
    · obtain ⟨events, error, hr⟩ := ih
      exact ⟨_, _, .passed h hr⟩
    · exact ⟨_, _, .ended h⟩

namespace Reads

/-- A stream has no error exactly if the end of its message is reached. -/
theorem eq_none_iff (h : Reads items events error) : error = none ↔ StopReached items := by
  induction h with
  | out =>
    refine ⟨nofun, fun ⟨before, _, _, h, _⟩ => ?_⟩
    simp at h
  | @ended item rest error he =>
    refine ⟨?_, fun ⟨before, payload, after, h, hb, hp⟩ => ?_⟩
    · rintro rfl
      cases he with
      | messageStop hp => exact ⟨[], _, rest, rfl, nofun, hp⟩
    · rcases before with _ | ⟨first, before⟩
      · obtain ⟨rfl, -⟩ := List.cons.inj h
        cases he with
        | messageStop => rfl
        | error h' => cases hp.unique h'
        | malformed h' => exact absurd hp (h' _)
      · obtain ⟨rfl, -⟩ := List.cons.inj h
        obtain ⟨e, hf⟩ := hb item List.mem_cons_self
        exact absurd he hf.not_ends
  | @passed item e items events error hp _ ih =>
    rw [ih]
    constructor
    · rintro ⟨before, payload, after, rfl, hb, hs⟩
      exact ⟨item :: before, payload, after, rfl, List.forall_mem_cons.2 ⟨⟨e, hp⟩, hb⟩, hs⟩
    · rintro ⟨before, payload, after, h, hb, hs⟩
      rcases before with _ | ⟨first, before⟩
      · obtain ⟨rfl, -⟩ := List.cons.inj h
        exact absurd (.messageStop hs) hp.not_ends
      · obtain ⟨rfl, rfl⟩ := List.cons.inj h
        exact ⟨before, payload, after, rfl, (List.forall_mem_cons.1 hb).2, hs⟩

/-- What follows the item that ends a stream is not looked at. -/
theorem of_same (h : Reads items events error) (hs : SameToEnd items items') :
    Reads items' events error := by
  obtain ⟨before, item, rest, rest', rfl, rfl, last, he⟩ := hs
  induction before generalizing events with
  | nil =>
    cases h with
    | ended he => exact .ended he
    | passed hp => exact absurd he hp.not_ends
  | cons first before ih =>
    cases h with
    | ended he => exact .ended he
    | passed hp hr => exact .passed hp (ih hr)

/-- The fragments of a stream are the translation of its events, and its error. -/
theorem fragments_eq {α : Type} (make : MakeChunk α) (h : Reads items events error)
    (id : String) : fragments make id items =
      (translation id events).map (fun p => .ok (make p.id p.text p.finish)) ++
        (error.map .error).toList := by
  -- Along the row only the id of the message changes.
  induction h generalizing id with
  | out => rfl
  | ended he =>
    cases he with
    | broken => rfl
    | messageStop hp | error hp =>
      rw [fragments, Event.decodeFragment_eq_ok_iff.2 hp]
      rfl
    | malformed _ hp =>
      rw [fragments, Provider.decodeFragment, hp]
      rfl
  | @passed _ e items events error hp _ ih =>
    obtain ⟨hp, hs, hf⟩ := hp
    rw [fragments, Event.decodeFragment_eq_ok_iff.2 hp, translation_cons]
    cases e with
    | messageStop => exact absurd rfl hs
    | error kind message => exact absurd rfl (hf kind message)
    | messageStart next => exact ih next
    | textDelta text => exact congrArg _ (ih id)
    | messageDelta reason =>
      cases reason with
      | none => exact ih id
      | some reason =>
        simp only [finishReason_eq]
        exact congrArg _ (ih id)
    | other => exact ih id

end Reads

/-! ## What is streamed -/

/-- The items of the body of a reply. -/
def itemsOfBody (pieces : List Bytes) (complete : Bool) : List (Except GatewayError String) :=
  dataOfPieces pieces (Provider.bodyFault complete) false

/-- An operation streams the translation of what a vendor sends in a successful reply, and an
    error after it unless the end of the message is reached. What follows the item that ends the
    stream has no part in it. -/
def Translates {α : Type} (call : ProviderCall (Fragments α)) (chunk : Part → α) : Prop :=
  ∀ (status : Nat) (pieces : List Bytes) (complete : Bool) (later : List Http.Reply),
    Http.isSuccess status → ∃ items events error,
      StreamTells pieces (if complete then none else some .undecodable) false items ∧
      Reads items events error ∧ (error = none ↔ StopReached items) ∧
      call.result (.answer status pieces complete :: later) =
        .ok ((translation "" events).map (fun p => .ok (chunk p)) ++
          (error.map .error).toList) ∧
      ∀ (pieces' : List Bytes) (complete' : Bool) (items' : List (Except GatewayError String)),
        StreamTells pieces' (if complete' then none else some .undecodable) false items' →
        SameToEnd items items' → call.result (.answer status pieces' complete' :: later) =
          call.result (.answer status pieces complete :: later)

namespace Client

/-- A streamed answer is translated. -/
theorem translates_askStream {α : Type} (c : Client) (r : Request) (make : MakeChunk α)
    (hr : (c.askStream r make).sends) :
    Translates (c.askStream r make) fun p => make p.id p.text p.finish := by
  intro status pieces complete later hs
  have run (pieces : List Bytes) (complete : Bool) :
      (c.askStream r make).result (.answer status pieces complete :: later) =
        .ok (fragments make "" (itemsOfBody pieces complete)) :=
    Provider.result_exchange hr hs pieces complete later
  obtain ⟨events, error, h⟩ := exists_reads (itemsOfBody pieces complete)
  refine ⟨_, events, error, streamTells_dataOfPieces .., h, h.eq_none_iff, ?_,
    fun pieces' complete' items' ht hp => ?_⟩
  · rw [run, h.fragments_eq]
  · rw [run, run, h.fragments_eq, itemsOfBody, Provider.bodyFault, ← ht.eq,
      (h.of_same hp).fragments_eq]

/-- The events of a vendor are translated exactly, for chats and for completions: every text and
    every reason to end has a fragment, in order, with the name of the model and the id of the
    message that began last, and nothing else has one. -/
theorem streams_translation (c : Client) (now : Nat) :
    (∀ r, (c.provider.chatStream now r).sends →
      Translates (c.provider.chatStream now r) fun p =>
        ⟨p.id, "chat.completion.chunk", now, c.model, [⟨0, ⟨none, p.text⟩, p.finish⟩]⟩) ∧
    (∀ r, (c.provider.completionsStream now r).sends →
      Translates (c.provider.completionsStream now r) fun p =>
        ⟨p.id, "text_completion_chunk", now, c.model, [⟨0, p.text, p.finish⟩]⟩) := by
  refine ⟨fun r hr => ?_, fun r hr => ?_⟩
  · simp only [provider] at hr ⊢
    exact c.translates_askStream _ _ hr
  · simp only [provider] at hr ⊢
    exact c.translates_askStream _ _ hr

/-- A message with a text and a reason to end, and one that an error ends. What comes after the end
    of a message is no event at all. -/
theorem streams_translation_text :
    let c : Client := ⟨"m", "k", "http://h"⟩
    let chat := c.provider.chatStream 7 ⟨[], none, none, true, none, none, []⟩
    let completions := c.provider.completionsStream 7 ⟨"hi", none, none, none, true, []⟩
    let chatChunk (p : Part) : Chat.Chunk :=
      ⟨p.id, "chat.completion.chunk", 7, "m", [⟨0, ⟨none, p.text⟩, p.finish⟩]⟩
    let completionsChunk (p : Part) : Completions.Chunk :=
      ⟨p.id, "text_completion_chunk", 7, "m", [⟨0, p.text, p.finish⟩]⟩
    let stream (payloads : List String) : List Bytes :=
      payloads.map fun payload => Text.Utf8.encode ("event: e\ndata: " ++ payload ++ "\n\n")
    let object (type rest : String) : String := "\x7b\"type\":\"" ++ type ++ "\"" ++ rest ++ "\x7d"
    let begun := [object "message_start" ",\"message\":\x7b\"id\":\"a\"\x7d", object "ping" "",
      object "content_block_delta" (",\"delta\":" ++ object "text_delta" ",\"text\":\"hi\"")]
    let ended := stream (begun ++ [object "message_delta"
      ",\"delta\":\x7b\"stop_reason\":\"max_tokens\"\x7d", object "message_stop" "", "\x7b"])
    let failed := stream (begun ++
      [object "error" (",\"error\":" ++ object "busy" ",\"message\":\"no\"")])
    let text : Part := ⟨"a", some "hi", none⟩
    let finish : Part := ⟨"a", none, some "length"⟩
    let error : GatewayError := .vendor 502 (.event "Anthropic" "busy" "no")
    Translates chat chatChunk ∧ Translates completions completionsChunk ∧
      chat.result [.answer 200 ended true] = .ok [.ok (chatChunk text), .ok (chatChunk finish)] ∧
      completions.result [.answer 200 failed true] =
        .ok [.ok (completionsChunk text), .error error] := by
  intro c
  exact ⟨(c.streams_translation 7).1 _ (by decide +kernel),
    (c.streams_translation 7).2 _ (by decide +kernel), by decide +kernel, by decide +kernel⟩

end Client

end InferenceGateway.Anthropic
