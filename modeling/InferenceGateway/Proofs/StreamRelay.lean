import InferenceGateway.Proofs.EventTranslation
import InferenceGateway.Proofs.FragmentReading

/-!
# Relayed streams

What a client gets to see of a vendor's stream. The bytes are split into events, their data
are read as fragments, the fragments are written as frames; a stream can break on each of
these ways, and none of them may look like an end.

A `StreamProtocol` says what the data of a vendor mean, line by line, and its `Outcome` what
comes of a row of data: sound data up to the end mark, up to the first data that tell an
error, or up to the end of the bytes. `Relays` says which text belongs to an outcome, letter by
letter.

* `OpenAi.relays`, `Anthropic.relays`: the frames of the fragments of either provider.
* `Server.relayed_of_stream`: what a client is answered, for every route of a provider that is
  always there, every payload that asks for a stream and every body of a successful reply.
-/

namespace InferenceGateway

open EventStream

/-! ## Fragments as they are sent -/

namespace Chat

/-- An addition to a message as it is sent. What it does not add is left out. -/
def Delta.data (d : Delta) : Json := .object <|
  (d.content.map fun s => ("content", .text s)).toList ++
    (d.role.map fun s => ("role", .text s)).toList

/-- A choice in a fragment as it is sent. -/
def StreamChoice.data (c : StreamChoice) : Json := .object [("delta", c.delta.data),
  ("finish_reason", (c.finishReason.map Json.text).getD .null), ("index", .integer c.index)]

/-- A fragment as it is sent: its members in the order of their names. -/
def Chunk.data (c : Chunk) : Json := .object [("choices", .array (c.choices.map (·.data))),
  ("created", .integer c.created), ("id", .text c.id), ("model", .text c.model),
  ("object", .text c.object)]

theorem Delta.canonical_toJson (d : Delta) : d.toJson.canonical = d.data := by
  obtain ⟨role, content⟩ := d
  have order : "content" < "role" := by decide
  cases role <;> cases content <;> simp [toJson, data, Json.member?, Json.canonical,
    Json.canonicalMembers, sortMembers, insertMember, order]

theorem StreamChoice.canonical_toJson (c : StreamChoice) : c.toJson.canonical = c.data := by
  have reason : (Json.ofOption .text c.finishReason).canonical =
      (c.finishReason.map Json.text).getD .null := by
    cases c.finishReason <;> rfl
  have order : "delta" < "index" ∧ ¬"finish_reason" < "delta" ∧ "finish_reason" < "index" := by
    decide
  simp [toJson, data, Json.canonical, Json.canonicalMembers, sortMembers, insertMember, order,
    reason, Delta.canonical_toJson]

/-- The members that all fragments have, in the order of their names. -/
theorem canonical_chunk (id object model : String) (created : Nat) (choices : List Json) :
    (Json.object [("id", .text id), ("object", .text object), ("created", .integer created),
      ("model", .text model), ("choices", .array choices)]).canonical =
    .object [("choices", .array (choices.map Json.canonical)), ("created", .integer created),
      ("id", .text id), ("model", .text model), ("object", .text object)] := by
  have order : "created" < "id" ∧ ¬"object" < "id" ∧ ¬"model" < "created" ∧ ¬"model" < "id" ∧
      "model" < "object" ∧ "choices" < "created" := by decide
  simp [Json.canonical, Json.canonicalMembers, sortMembers, insertMember, order,
    Json.canonicalItems_eq_map]

theorem Chunk.canonical_toJson (c : Chunk) : c.toJson.canonical = c.data := by
  rw [toJson, canonical_chunk, List.map_map, data]
  exact congrArg _ (by simp [StreamChoice.canonical_toJson])

end Chat

namespace Completions

/-- A choice in a fragment as it is sent. A text that it does not add is left out. -/
def StreamChoice.data (c : StreamChoice) : Json := .object <|
  [("finish_reason", (c.finishReason.map Json.text).getD .null), ("index", .integer c.index)] ++
    (c.text.map fun s => ("text", .text s)).toList

/-- A fragment as it is sent: its members in the order of their names. -/
def Chunk.data (c : Chunk) : Json := .object [("choices", .array (c.choices.map (·.data))),
  ("created", .integer c.created), ("id", .text c.id), ("model", .text c.model),
  ("object", .text c.object)]

theorem StreamChoice.canonical_toJson (c : StreamChoice) : c.toJson.canonical = c.data := by
  have reason : (Json.ofOption .text c.finishReason).canonical =
      (c.finishReason.map Json.text).getD .null := by
    cases c.finishReason <;> rfl
  have order : ¬"text" < "index" ∧ "finish_reason" < "index" := by decide
  cases h : c.text <;> simp [toJson, data, Json.member?, Json.canonical, Json.canonicalMembers,
    sortMembers, insertMember, order, reason, h]

theorem Chunk.canonical_toJson (c : Chunk) : c.toJson.canonical = c.data := by
  rw [toJson, Chat.canonical_chunk, List.map_map, data]
  exact congrArg _ (by simp [StreamChoice.canonical_toJson])

end Completions

/-! ## Frames -/

namespace EventStream

/-- The last frame of a stream, which tells the error that ended it, if one did. -/
def terminalFrame : Option GatewayError → String
  | none => "data: [DONE]\n\n"
  | some e => "event: error\ndata: " ++ (Json.object [("error", .object [
      ("message", .text e.message), ("status", .integer e.status)])]).print ++ "\n\n"

theorem terminalFrame_some (e : GatewayError) : terminalFrame (some e) = errorFrame e := by
  have heading : "event: error\ndata: " = "event: error\n" ++ "data: " := by decide +kernel
  show "event: error\ndata: " ++ (errorBody e).print ++ "\n\n" =
    "event: error\n" ++ ("data: " ++ (errorBody e).print ++ "\n\n")
  generalize (errorBody e).print = text
  rw [heading, String.append_assoc, String.append_assoc, String.append_assoc]

/-- What a row of fragments holds: those before the first error, and that error. What comes
    after the error does not matter. -/
inductive Holds {α : Type} : List (Except GatewayError α) → List α → Option GatewayError → Prop
  | nil : Holds [] [] none
  | error {e : GatewayError} {rest : List (Except GatewayError α)} :
    Holds (.error e :: rest) [] (some e)
  | ok {a : α} {rest : List (Except GatewayError α)} {found : List α}
    {error : Option GatewayError} :
    Holds rest found error → Holds (.ok a :: rest) (a :: found) error

/-- A row of fragments before others. -/
theorem holds_append {α : Type} (found : List α) {items : Fragments α}
    {error : Option GatewayError} (h : Holds items [] error) :
    Holds (found.map .ok ++ items) found error := by
  induction found with
  | nil => exact h
  | cons a found ih => exact .ok ih

theorem holds_toList {α : Type} (error : Option GatewayError) :
    Holds (error.map (Except.error (α := α))).toList [] error := by
  cases error with
  | none => exact .nil
  | some e => exact .error

/-- Each fragment before the first error has its frame, and one more frame ends the stream. -/
theorem frames_of_holds {items : List (Except GatewayError Json)} {found : List Json}
    {error : Option GatewayError} (h : Holds items found error) :
    frames items = found.map chunkFrame ++ [terminalFrame error] := by
  induction h with
  | nil => rfl
  | error => rw [terminalFrame_some]; rfl
  | ok _ ih => rw [frames, ih, List.map_cons, List.cons_append]

/-- Fragments held as data are held in the same order, up to the same error. -/
theorem Holds.map {α β : Type} (f : α → β) {items : List (Except GatewayError α)}
    {found : List α} {error : Option GatewayError} (h : Holds items found error) :
    Holds (items.map (·.map f)) (found.map f) error := by
  induction h with
  | nil => exact .nil
  | error => exact .error
  | ok _ ih => exact .ok ih

theorem dataFrame_injective {s t : String} (h : dataFrame s = dataFrame t) : s = t := by
  have h := congrArg String.toList h
  simp only [dataFrame, String.toList_append, List.append_cancel_right_eq,
    List.append_cancel_left_eq] at h
  exact String.toList_injective h

/-- The frame of an object is not the frame that ends a stream. -/
theorem chunkFrame_object_ne (members : List (String × Json)) :
    chunkFrame (.object members) ≠ doneFrame := by
  intro h
  -- The written object begins with a brace and the mark with a bracket.
  have h := congrArg String.toList (dataFrame_injective h)
  rw [Json.print, String.toList_ofList] at h
  rcases members with _ | ⟨⟨name, j⟩, members⟩ <;> simp [Json.chars] at h

theorem errorFrame_ne (e : GatewayError) : errorFrame e ≠ doneFrame := by
  intro h
  have h := congrArg String.toList h
  simp [errorFrame, doneFrame, dataFrame] at h

/-- A stream that an error ended does not look like one that came to its end. -/
theorem terminalFrame_eq_doneFrame {error : Option GatewayError} :
    terminalFrame error = doneFrame ↔ error = none := by
  cases error with
  | none => exact ⟨fun _ => rfl, fun _ => rfl⟩
  | some e => simp [terminalFrame_some, errorFrame_ne]

end EventStream

/-! ## What data mean -/

/-- What the data of a vendor's stream mean: which data mark its end, which errors data tell, and
    which fragments are made of sound data. -/
structure StreamProtocol where
  IsEnd : String → Prop
  Fails : String → GatewayError → Prop
  Makes : List String → List Json → Prop

namespace StreamProtocol

variable (p : StreamProtocol)

/-- Data after which a stream goes on. -/
def Sound (d : String) : Prop := ¬p.IsEnd d ∧ ∀ e, ¬p.Fails d e

/-- What comes of a row of data: the sound data at its beginning, and the error that cuts them
    short, if the end mark does not. Where the data just stop, this is the error `ending`. -/
inductive Outcome (ending : GatewayError) :
    List String → List String → Option GatewayError → Prop
  | complete (sound : List String) {rest : List String} {mark : String} :
    (∀ d ∈ sound, p.Sound d) → p.IsEnd mark → Outcome ending (sound ++ mark :: rest) sound none
  | faulty (sound : List String) {rest : List String} {d : String} {e : GatewayError} :
    (∀ d ∈ sound, p.Sound d) → ¬p.IsEnd d → p.Fails d e →
      Outcome ending (sound ++ d :: rest) sound (some e)
  | cut {sound : List String} :
    (∀ d ∈ sound, p.Sound d) → Outcome ending sound sound (some ending)

/-- The end of the stream is reached: there is an end mark, and nothing before it tells an
    error. -/
def EndReached (data : List String) : Prop :=
  ∃ before mark after, data = before ++ mark :: after ∧ p.IsEnd mark ∧
    ∀ d ∈ before, ∀ e, ¬p.Fails d e

variable {p}

/-- One more line of sound data. -/
theorem Outcome.cons {ending : GatewayError} {data sound : List String}
    {error : Option GatewayError} {d : String} (hd : p.Sound d)
    (h : p.Outcome ending data sound error) : p.Outcome ending (d :: data) (d :: sound) error := by
  cases h with
  | complete _ hs hm => exact .complete (d :: sound) (List.forall_mem_cons.2 ⟨hd, hs⟩) hm
  | faulty _ hs hn he => exact .faulty (d :: sound) (List.forall_mem_cons.2 ⟨hd, hs⟩) hn he
  | cut hs => exact .cut (List.forall_mem_cons.2 ⟨hd, hs⟩)

/-- A stream ends without an error exactly if its end is reached. -/
theorem Outcome.eq_none_iff {ending : GatewayError} {data sound : List String}
    {error : Option GatewayError} (h : p.Outcome ending data sound error) :
    error = none ↔ p.EndReached data := by
  cases h with
  | complete _ hs hm => exact ⟨fun _ => ⟨_, _, _, rfl, hm, fun d hd => (hs d hd).2⟩, fun _ => rfl⟩
  | @faulty _ rest d e hs hn he =>
    refine ⟨nofun, fun ⟨before, mark, after, hb, hm, hf⟩ => ?_⟩
    -- The faulty data stand before the mark, are the mark, or stand after it.
    rcases List.append_eq_append_iff.1 hb with ⟨u, rfl, hu⟩ | ⟨u, rfl, hu⟩
    · rcases u with _ | ⟨x, u⟩
      · obtain ⟨rfl, -⟩ := List.cons.inj (hu : d :: rest = mark :: after)
        exact absurd hm hn
      · obtain ⟨rfl, -⟩ := List.cons.inj (hu : d :: rest = x :: (u ++ mark :: after))
        exact absurd he (hf d (by simp) e)
    · rcases u with _ | ⟨x, u⟩
      · obtain ⟨rfl, -⟩ := List.cons.inj (hu : mark :: after = d :: rest)
        exact absurd hm hn
      · obtain ⟨rfl, -⟩ := List.cons.inj (hu : mark :: after = x :: (u ++ d :: rest))
        exact absurd hm (hs mark (by simp)).1
  | cut hs =>
    refine ⟨nofun, fun ⟨before, mark, after, hb, hm, _⟩ => ?_⟩
    exact absurd hm (hs mark (by simp [hb])).1

variable (p) in
/-- The text that belongs to the body of a reply: a frame with each fragment that is made of the
    payloads of its complete events, line by line, before the first error, and a last one, which is
    that of the end exactly if the end of the stream is reached. -/
def Relays (pieces : List Bytes) (complete : Bool) (sent : String) : Prop :=
  ∃ events tail data sound error found,
    Splits pieces.flatten events tail ∧
    data = (events.flatMap fun event => payloadsOf (Text.Utf8.decodeLenient event).toList) ∧
    p.Outcome (if complete then .truncatedStream else .transport .undecodable) data sound error ∧
    p.Makes sound found ∧
    sent = String.join ((found.map fun j => "data: " ++ j.print ++ "\n\n") ++
      [terminalFrame error]) ∧
    (terminalFrame error = "data: [DONE]\n\n" ↔ p.EndReached data) ∧
    "data: [DONE]\n\n" ∉ found.map fun j => "data: " ++ j.print ++ "\n\n"

/-- The frames of fragments that hold what the data make, written as objects. -/
theorem relays_of_holds {pieces events : List Bytes} {tail : Bytes} {complete : Bool}
    {sound : List String} {error : Option GatewayError} {found : List Json}
    {items : Fragments Json} (hs : Splits pieces.flatten events tail)
    (ho : p.Outcome (if complete then .truncatedStream else .transport .undecodable)
      (events.flatMap eventData) sound error)
    (hm : p.Makes sound found) (hw : ∀ j ∈ found, ∃ members, j = .object members)
    (hh : Holds items found error) : p.Relays pieces complete (String.join (frames items)) := by
  refine ⟨events, tail, _, sound, error, found, hs, rfl, ?_, hm, ?_, ?_, ?_⟩
  · simpa only [← eventData_eq] using ho
  · rw [frames_of_holds hh]
    rfl
  · have done : "data: [DONE]\n\n" = doneFrame := by decide
    simp only [← eventData_eq]
    rw [done, terminalFrame_eq_doneFrame, ho.eq_none_iff]
  · intro hd
    obtain ⟨j, hj, he⟩ := List.mem_map.1 hd
    obtain ⟨members, rfl⟩ := hw j hj
    exact chunkFrame_object_ne members he

end StreamProtocol

/-! ## The provider `openai` -/

namespace OpenAi

variable {α : Type} {r : Document.Reader α} {told : Document.Node → α → Prop}
  (hr : r.Reads told) (data : α → Json)

variable (r told) in
/-- What data mean to a vendor whose interface is that of the gateway: a fragment each, up to
    the end mark. -/
def protocol : StreamProtocol where
  IsEnd d := d = "[DONE]"
  Fails d e := d ≠ "[DONE]" ∧ (∀ a, ¬Json.Tells told d a) ∧ ∃ fault,
    Json.parse r (Text.Utf8.encode d) = .error fault ∧ e = .vendor 502 (.fragment "OpenAI" fault)
  Makes := List.Forall₂ fun d j => ∃ a, Json.Tells told d a ∧ j = data a

include hr

/-- What comes of a row of data that an end mark or an error ends. -/
theorem outcome (row : List String) (ending : GatewayError) :
    ∃ sound error found, (protocol r told data).Outcome ending row sound error ∧
      List.Forall₂ (Json.Tells told) sound found ∧
      Holds ((itemsOfData row [.error ending]).map fun item =>
        item.bind (Provider.decodeFragment vendor r)) found error := by
  -- The first end mark or error decides; data before it only add their fragments.
  induction row with
  | nil => exact ⟨[], some ending, [], .cut (List.forall_mem_nil _), .nil, .error⟩
  | cons d row ih =>
    by_cases hd : d = endMark
    · subst hd
      refine ⟨[], none, [], .complete [] (List.forall_mem_nil _) rfl, .nil, ?_⟩
      rw [itemsOfData_endMark]
      exact .nil
    rw [itemsOfData_cons hd, List.map_cons, Except.bind, Provider.decodeFragment]
    rcases ha : Json.parse r (Text.Utf8.encode d) with fault | a
    · have silent (a : α) : ¬Json.Tells told d a := fun h => by
        cases ha.symm.trans (hr.parse_iff.2 h)
      exact ⟨[], some (.vendor 502 (.fragment vendor fault)), [],
        .faulty [] (List.forall_mem_nil _) hd ⟨hd, silent, fault, ha, rfl⟩, .nil, .error⟩
    · obtain ⟨sound, error, found, ho, hm, hh⟩ := ih
      have good : (protocol r told data).Sound d := by
        refine ⟨hd, ?_⟩
        rintro e ⟨-, -, fault, hf, -⟩
        cases ha.symm.trans hf
      exact ⟨d :: sound, error, a :: found, ho.cons good, .cons (hr.parse_iff.1 ha) hm, .ok hh⟩

/-- What is sent of the body of a reply: every fragment, and the end if the end mark came. -/
theorem relays {write : α → Json} (hw : ∀ a, (write a).canonical = data a)
    (hd : ∀ a, ∃ members, data a = .object members) (pieces : List Bytes) (complete : Bool) :
    (protocol r told data).Relays pieces complete (String.join
      (frames ((Client.fragments r pieces complete).map fun f =>
        f.map fun a => (write a).canonical))) := by
  obtain ⟨events, tail, hs⟩ := Splits.exists pieces.flatten
  obtain ⟨sound, error, found, ho, hm, hh⟩ := outcome hr data (events.flatMap eventData)
    (if complete then .truncatedStream else .transport .undecodable)
  have made : (protocol r told data).Makes sound (found.map data) :=
    List.forall₂_map_right_iff.2 (hm.imp fun d a h => ⟨a, h, rfl⟩)
  refine StreamProtocol.relays_of_holds hs ho made (List.forall_mem_map.2 fun a _ => hd a) ?_
  simp only [hw]
  refine Holds.map data ?_
  rw [Client.fragments, dataOfPieces_of_splits hs]
  cases complete <;> exact hh

end OpenAi

/-! ## The provider `anthropic` -/

namespace Anthropic

variable (data : Part → Json)

/-- What data mean to the vendor: an event each, up to the event that ends the message. The
    end mark of other vendors cuts the stream short. -/
def protocol : StreamProtocol where
  IsEnd d := Event.IsToldBy d .messageStop
  Fails d e := d = "[DONE]" ∧ e = .truncatedStream ∨ d ≠ "[DONE]" ∧ Ends (.ok d) (some e)
  Makes sound made := ∃ events, List.Forall₂ Event.IsToldBy sound events ∧
    made = (translation "" events).map data

/-- The end mark of other vendors is no event. -/
theorem not_isToldBy_endMark (e : Event) : ¬e.IsToldBy endMark := by
  have malformed : Provider.decodeFragment vendor Event.read endMark
      = .error (.vendor 502 (.fragment vendor .malformed)) := by decide +kernel
  rw [← Event.decodeFragment_eq_ok_iff, malformed]
  nofun

/-- What is read of a row of data that an end mark or an error ends is what comes of it. Without an
    event that ends the message a stream that just stops is truncated. -/
theorem outcome_of_reads {ending : GatewayError} {last : List (Except GatewayError String)}
    (hl : last = [] ∧ ending = .truncatedStream ∨ last = [.error ending]) {row : List String}
    {events : List Event} {error : Option GatewayError}
    (h : Reads (itemsOfData row last) events error) : ∃ sound,
      (protocol data).Outcome ending row sound error ∧
        List.Forall₂ Event.IsToldBy sound events := by
  induction row generalizing events error with
  | nil =>
    rw [itemsOfData_nil] at h
    rcases hl with ⟨rfl, rfl⟩ | rfl
    · obtain ⟨⟩ := h
      exact ⟨[], .cut (List.forall_mem_nil _), .nil⟩
    · obtain _ | ⟨⟨⟩⟩ | ⟨⟨⟩⟩ := h
      exact ⟨[], .cut (List.forall_mem_nil _), .nil⟩
  | cons d row ih =>
    by_cases hd : d = endMark
    · subst hd
      rw [itemsOfData_endMark] at h
      obtain ⟨⟩ := h
      exact ⟨[], .faulty [] (List.forall_mem_nil _) (not_isToldBy_endMark _) (.inl ⟨rfl, rfl⟩),
        .nil⟩
    rw [itemsOfData_cons hd] at h
    cases h with
    | ended he =>
      cases he with
      | messageStop hs => exact ⟨[], .complete [] (List.forall_mem_nil _) hs, .nil⟩
      | error he =>
        have goesOn : ¬Event.IsToldBy d .messageStop := fun hs => by cases hs.unique he
        exact ⟨[], .faulty [] (List.forall_mem_nil _) goesOn (.inr ⟨hd, .error he⟩), .nil⟩
      | malformed hn hp =>
        exact ⟨[], .faulty [] (List.forall_mem_nil _) (hn _) (.inr ⟨hd, .malformed hn hp⟩), .nil⟩
    | passed hp hr =>
      obtain ⟨sound, ho, hm⟩ := ih hr
      have good : (protocol data).Sound d := by
        refine ⟨fun hs => hp.not_ends (.messageStop hs), fun e he => ?_⟩
        exact he.elim (fun h => hd h.1) fun h => hp.not_ends h.2
      obtain ⟨ht, -, -⟩ := hp
      exact ⟨d :: sound, ho.cons good, .cons ht hm⟩

/-- What is sent of the body of a reply: what its events make, and the end if the event that
    ends the message came. -/
theorem relays {α : Type} {make : MakeChunk α} {write : α → Json}
    (hw : ∀ p, (write (make p.id p.text p.finish)).canonical = data p)
    (hd : ∀ p, ∃ members, data p = .object members) (pieces : List Bytes) (complete : Bool) :
    (protocol data).Relays pieces complete (String.join (frames
      ((fragments make "" (itemsOfBody pieces complete)).map fun f =>
        f.map fun a => (write a).canonical))) := by
  obtain ⟨events, tail, hs⟩ := Splits.exists pieces.flatten
  -- The reader expects no end mark, so where nothing is left of an event it tells no error at
  -- the end; then the missing end of the message is what makes the stream truncated.
  have hl : ∀ last, last = (((Reader.within tail).finish (Provider.bodyFault complete) false).map
      (Except.error (α := String))).toList →
      last = [] ∧ (if complete then .truncatedStream else .transport .undecodable) =
          GatewayError.truncatedStream ∨
        last = [.error (if complete then .truncatedStream else .transport .undecodable)] := by
    rintro _ rfl
    cases complete with
    | false => exact .inr rfl
    | true =>
      by_cases hb : tail.any (! Text.isAsciiBlank ·)
      · exact .inr (by simp [Reader.finish, Provider.bodyFault, hb])
      · exact .inl ⟨by simp [Reader.finish, Provider.bodyFault, hb], rfl⟩
  obtain ⟨told, error, reads⟩ := exists_reads (itemsOfBody pieces complete)
  have read := reads
  rw [itemsOfBody, dataOfPieces_of_splits hs] at read
  obtain ⟨sound, ho, hm⟩ := outcome_of_reads data (hl _ rfl) read
  have makes : (protocol data).Makes sound ((translation "" told).map data) := ⟨told, hm, rfl⟩
  refine StreamProtocol.relays_of_holds hs ho makes (List.forall_mem_map.2 fun p _ => hd p) ?_
  have made := (holds_append ((translation "" told).map fun p => make p.id p.text p.finish)
    (holds_toList error)).map fun a => (write a).canonical
  rw [reads.fragments_eq]
  simpa only [List.map_map, Function.comp_def, hw] using made

end Anthropic

/-! ## Routes -/

/-- What the data of a stream mean to an endpoint of a provider that is always there. -/
inductive Speaks (now : Nat) (e : EndpointConfig) : StreamProtocol → Prop
  | openAiChat : e.model.provider = "openai" → e.type = .chat →
    Speaks now e (OpenAi.protocol Chat.Chunk.read Chat.Chunk.Told Chat.Chunk.data)
  | openAiCompletions : e.model.provider = "openai" → e.type = .completions →
    Speaks now e
      (OpenAi.protocol Completions.Chunk.read Completions.Chunk.Told Completions.Chunk.data)
  | anthropicChat : e.model.provider = "anthropic" → e.type = .chat →
    Speaks now e (Anthropic.protocol fun p => Chat.Chunk.data
      ⟨p.id, "chat.completion.chunk", now, e.model.name, [⟨0, ⟨none, p.text⟩, p.finish⟩]⟩)
  | anthropicCompletions : e.model.provider = "anthropic" → e.type = .completions →
    Speaks now e (Anthropic.protocol fun p => Completions.Chunk.data
      ⟨p.id, "text_completion_chunk", now, e.model.name, [⟨0, p.text, p.finish⟩]⟩)

/-- The client of a model asks for it by its name. -/
theorem Anthropic.Client.model_of_ofConfig {m : ModelConfig} {c : Anthropic.Client}
    (h : ofConfig m = .ok c) : c.model = m.name := by
  rw [ofConfig] at h
  split at h
  · cases h
    rfl
  · cases h

namespace Handler

/-- A payload that asks for a stream is answered with the frames of what the vendor sends. -/
theorem relays_of_invoke {e : EndpointConfig} {provider : Provider} {now : Nat} {body : Bytes}
    (hp : Resolver.builtin.resolve e.model = .ok provider) (hb : AsksForStream e.type body)
    (hr : (invoke ⟨e.type, provider⟩ now body).sends) {status : Nat} (hs : Http.isSuccess status)
    (pieces : List Bytes) (complete : Bool) (later : List Http.Reply) :
    ∃ p fragments, Speaks now e p ∧ (invoke ⟨e.type, provider⟩ now body).result
        (.answer status pieces complete :: later) = .ok (.stream fragments) ∧
      p.Relays pieces complete (String.join (frames fragments)) := by
  -- Two vendors and two types of endpoints that can be streamed.
  rcases client_of_resolve hp with ⟨hv, c, -, rfl⟩ | ⟨hv, c, hc, rfl⟩ <;>
    generalize ht : e.type = type at hb hr ⊢ <;> cases hb
  case inl.chat r hn ha hb =>
    rw [invoke_chat hb hn ha] at hr ⊢
    simp only [OpenAi.Client.provider, OpenAi.Client.askStream] at hr ⊢
    exact ⟨_, _, .openAiChat hv ht, result_streamed hr hs .., OpenAi.relays
      Chat.Chunk.reads _ Chat.Chunk.canonical_toJson (fun _ => ⟨_, rfl⟩) pieces complete⟩
  case inl.completions r ha hb =>
    rw [invoke_completions hb ha] at hr ⊢
    simp only [OpenAi.Client.provider, OpenAi.Client.askStream] at hr ⊢
    exact ⟨_, _, .openAiCompletions hv ht, result_streamed hr hs .., OpenAi.relays
      Completions.Chunk.reads _ Completions.Chunk.canonical_toJson (fun _ => ⟨_, rfl⟩) pieces
      complete⟩
  case inr.chat r hn ha hb =>
    rw [invoke_chat hb hn ha] at hr ⊢
    simp only [Anthropic.Client.provider, Anthropic.Client.askStream] at hr ⊢
    refine ⟨_, _, .anthropicChat hv ht, result_streamed hr hs .., Anthropic.relays _
      (fun p => ?_) (fun _ => ⟨_, rfl⟩) pieces complete⟩
    rw [Chat.Chunk.canonical_toJson, Chat.Chunk.delta, Anthropic.Client.model_of_ofConfig hc]
    rfl
  case inr.completions r ha hb =>
    rw [invoke_completions hb ha] at hr ⊢
    simp only [Anthropic.Client.provider, Anthropic.Client.askStream] at hr ⊢
    refine ⟨_, _, .anthropicCompletions hv ht, result_streamed hr hs .., Anthropic.relays _
      (fun p => ?_) (fun _ => ⟨_, rfl⟩) pieces complete⟩
    rw [Completions.Chunk.canonical_toJson, Completions.Chunk.delta,
      Anthropic.Client.model_of_ofConfig hc]
    rfl

end Handler

namespace Server

/-- A broken stream never looks like one that came to its end: whatever a vendor sends in a
    successful reply to a payload that asks for a stream, in whatever chunks, and whether or not
    it breaks off, the client is sent the frames that belong to it. -/
theorem relayed_of_stream {g : Gateway} {now : Nat} {request : Request} {segment name : String}
    {e : EndpointConfig} {route : Route} {body : Bytes} {status : Nat}
    (ht : Target.resolve request.method request.path = .invoke segment)
    (hn : decodeName segment = .ok name) (hg : g.table.get? name = some route)
    (hc : Route.compile .builtin e = .ok route) (hb : request.body = .ok body)
    (ha : AsksForStream e.type body) (hr : (answer g now request).sends)
    (hs : Http.isSuccess status) (pieces : List Bytes) (complete : Bool)
    (later : List Http.Reply) :
    let a := (respond g now request (.answer status pieces complete :: later)).1
    ∃ p, Speaks now e p ∧ a.status = 200 ∧ p.Relays pieces complete a.body := by
  intro a
  obtain ⟨provider, hp, hh⟩ := handler_of_compile hc
  rw [answer_of_invoke ht hn hg hb, Call.sends_map, hh] at hr
  obtain ⟨p, fragments, speaks, hi, hf⟩ :=
    Handler.relays_of_invoke hp ha hr hs pieces complete later
  have ha : a = .ofStream fragments := by
    simp only [a, respond, answer_of_invoke ht hn hg hb, Call.result_map, hh, hi,
      Outcome.ofInvocation]
  rw [ha]
  exact ⟨p, speaks, rfl, hf⟩

/-- A stream of the one vendor that stops before the empty line after its end mark, and one of the
    other that comes to its end. -/
theorem relayed_of_stream_truncated :
    let chat : EndpointConfig := ⟨"a", .chat, ⟨"m", "openai", ⟨some "k", some "http://h", []⟩⟩⟩
    let completions : EndpointConfig :=
      ⟨"b", .completions, ⟨"m", "anthropic", ⟨some "k", some "http://h", []⟩⟩⟩
    let routes : List Route :=
      [⟨"a", .chat, chat.model, ⟨.chat, (OpenAi.Client.mk "m" "k" "http://h").provider⟩⟩,
        ⟨"b", .completions, completions.model,
          ⟨.completions, (Anthropic.Client.mk "m" "k" "http://h").provider⟩⟩]
    let g : Gateway := ⟨.builtin, ⟨routes, by decide⟩, none, .zero⟩
    let object (members : String) : String := "\x7b" ++ members ++ "\x7d"
    let asked (name payload : String) : Request := ⟨"POST", "/endpoints/" ++ name ++ "/invocations",
      none, .ok (Text.Utf8.encode (object (payload ++ ",\"stream\":true")))⟩
    let talk := asked "a"
      ("\"messages\":[" ++ object "\"role\":\"user\",\"content\":\"hi\"" ++ "]")
    let text := asked "b" "\"prompt\":\"hi\""
    let answered (request : Request) (pieces : List String) : Answer :=
      (respond g 7 request [.answer 200 (pieces.map Text.Utf8.encode) true]).1
    let relayed (e : EndpointConfig) (request : Request) (pieces : List String) : Prop :=
      ∃ p, Speaks 7 e p ∧ (answered request pieces).status = 200 ∧
        p.Relays (pieces.map Text.Utf8.encode) true (answered request pieces).body
    let chunk := "data:" ++ object
      ("\"id\":\"1\",\"object\":\"o\",\"created\":5,\"model\":\"up\",\"choices\":[" ++
        object ("\"index\":0,\"delta\":" ++ object "\"content\":\"x\"") ++ "]") ++ "\r\n\r\n"
    let event (type rest : String) : String :=
      "event: e\ndata: " ++ object ("\"type\":\"" ++ type ++ "\"" ++ rest) ++ "\n\n"
    let delta := event "content_block_delta"
      (",\"delta\":" ++ object "\"type\":\"text_delta\",\"text\":\"x\"")
    let talkFrame := "data: " ++ object ("\"choices\":[" ++ object ("\"delta\":" ++
      object "\"content\":\"x\"" ++ ",\"finish_reason\":null,\"index\":0") ++
      "],\"created\":5,\"id\":\"1\",\"model\":\"up\",\"object\":\"o\"") ++ "\n\n"
    let textFrame := "data: " ++ object ("\"choices\":[" ++
      object "\"finish_reason\":null,\"index\":0,\"text\":\"x\"" ++
      "],\"created\":7,\"id\":\"\",\"model\":\"m\",\"object\":\"text_completion_chunk\"") ++ "\n\n"
    let errorFrame := "event: error\ndata: " ++ object ("\"error\":" ++ object ("\"message\":" ++
      "\"上游 API 错误: 502 - upstream stream ended before completion\",\"status\":502")) ++ "\n\n"
    relayed chat talk [chunk, "data: [DO", "NE]\n"] ∧
      relayed completions text [delta, event "message_stop" ""] ∧
      (answered talk [chunk, "data: [DO", "NE]\n"]).body = talkFrame ++ errorFrame ∧
      (answered text [delta, event "message_stop" ""]).body =
        textFrame ++ "data: [DONE]\n\n" := by
  intro chat completions routes g object asked talk text answered relayed
  refine ⟨?_, ?_, by decide +kernel, by decide +kernel⟩
  · have hc : Route.compile .builtin chat = .ok routes[0] := by
      dsimp only [chat, routes]
      rfl
    exact relayed_of_stream (by decide +kernel : Target.resolve _ _ = .invoke "a")
      (by decide +kernel : decodeName "a" = .ok "a") rfl hc rfl (.of_chat (by decide +kernel))
      (by decide +kernel) rfl _ true []
  · have hc : Route.compile .builtin completions = .ok routes[1] := by
      dsimp only [completions, routes]
      rfl
    exact relayed_of_stream (by decide +kernel : Target.resolve _ _ = .invoke "b")
      (by decide +kernel : decodeName "b" = .ok "b") rfl hc rfl
      (.of_completions (by decide +kernel)) (by decide +kernel) rfl _ true []

end Server

end InferenceGateway
