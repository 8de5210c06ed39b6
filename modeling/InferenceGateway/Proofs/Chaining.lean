import InferenceGateway.Proofs.AnswerReading
import InferenceGateway.Proofs.Framing
import InferenceGateway.Proofs.StreamRelay

/-!
# Gateways in a row

The vendor `openai` has the interface of the gateway itself, so a gateway can be the vendor of
another one. What it streams and answers is then read and written once more, and comes out as it
went in. The one thing that is not handed on is the wording of an error that ended a stream: its
body is no fragment, so the second gateway meets an error of its own, and ends the stream with it.

* `OpenAi.holds_fragments`: the frames of a stream are read as its fragments, and an error at its
  end as an error.
* `Handler.streams_of_invoke`: what the routes of providers that are always there stream is of
  the kind that is handed on (`Streams`).
* `Server.chained`: what the client of the second gateway is answered.
-/

namespace InferenceGateway

open Json

/-! ## Frames -/

/-- A status has three digits. -/
theorem GatewayError.status_le (e : GatewayError) : e.status ≤ 999 := by
  cases e with
  | vendor s fault =>
    rw [status]
    split
    · rename_i h
      exact of_decide_eq_true (Bool.and_eq_true_iff.1 h).2
    · decide
  | _ => simp [status]

namespace EventStream

/-- The body of an error is read as it is written. -/
theorem plain_errorBody (e : GatewayError) : Plain 2 (errorBody e) := by
  have status : e.status < Numeral.wordLimit := Nat.lt_of_le_of_lt e.status_le (by decide)
  refine .object (List.forall_mem_singleton.2 (.object ?_))
  exact List.forall_mem_cons.2 ⟨.text _, List.forall_mem_singleton.2 (.natural status)⟩

/-- Every row of fragments holds some before its first error, if there is one. -/
theorem exists_holds {α : Type} (items : Fragments α) : ∃ found error, Holds items found error := by
  induction items with
  | nil => exact ⟨[], none, .nil⟩
  | cons item items ih =>
    rcases item with e | a
    · exact ⟨[], some e, .error⟩
    · obtain ⟨found, error, h⟩ := ih
      exact ⟨a :: found, error, .ok h⟩

theorem Holds.firstError? {items : Fragments Json} {found : List Json}
    {error : Option GatewayError} (h : Holds items found error) : firstError? items = error := by
  induction h with
  | nil => rfl
  | error => rfl
  | ok _ ih => exact ih

/-- Fragments before the first error are among the fragments. -/
theorem Holds.mem {α : Type} {items : Fragments α} {found : List α} {error : Option GatewayError}
    (h : Holds items found error) : ∀ a ∈ found, .ok a ∈ items := by
  induction h with
  | nil => nofun
  | error => nofun
  | ok _ ih =>
    refine List.forall_mem_cons.2 ⟨List.mem_cons_self, fun a ha => ?_⟩
    exact List.mem_cons_of_mem _ (ih a ha)

/-- Fragments that are held as data are fragments in the same order, up to the same error. -/
theorem exists_of_holds_map {α β : Type} {f : α → β} {items : Fragments α} {found : List β}
    {error : Option GatewayError} (h : Holds (items.map (·.map f)) found error) :
    ∃ as, Holds items as error ∧ found = as.map f := by
  induction items generalizing found with
  | nil =>
    cases h
    exact ⟨[], .nil, rfl⟩
  | cons item items ih =>
    rcases item with e | a
    · cases h
      exact ⟨[], .error, rfl⟩
    · rcases h with _ | _ | h
      obtain ⟨as, hs, rfl⟩ := ih h
      exact ⟨a :: as, .ok hs, rfl⟩

end EventStream

theorem Chat.Chunk.parse_errorBody (e : GatewayError) :
    Json.parse read (Text.Utf8.encode (EventStream.errorBody e).print) =
      .error (.missingField "id") := by
  rw [parse_print (EventStream.plain_errorBody e) (by decide)]
  rfl

theorem Completions.Chunk.parse_errorBody (e : GatewayError) :
    Json.parse read (Text.Utf8.encode (EventStream.errorBody e).print) =
      .error (.missingField "id") := by
  rw [parse_print (EventStream.plain_errorBody e) (by decide)]
  rfl

/-- What comes of an error of the gateway before: it is no fragment. -/
def OpenAi.chainedError : GatewayError := .vendor 502 (.fragment vendor (.missingField "id"))

/-- The fragments of a stream are read back from its frames; an error at its end is met as
    one. -/
theorem OpenAi.holds_fragments {α : Type} {r : Document.Reader α} {write : α → Json} {as : List α}
    {error : Option GatewayError} {pieces : List Bytes}
    (back : ∀ a ∈ as, Json.parse r (Text.Utf8.encode (write a).canonical.print) = .ok a)
    (refused : ∀ e, Json.parse r (Text.Utf8.encode (EventStream.errorBody e).print) =
      .error (.missingField "id"))
    (h : pieces.flatten = Text.Utf8.encode (String.join (EventStream.frames
      ((as.map fun a => (write a).canonical).map .ok ++ (error.map .error).toList)))) :
    EventStream.Holds (Client.fragments r pieces true) as (error.map fun _ => chainedError) := by
  have fragment {a : α} (ha : a ∈ as) :
      Provider.decodeFragment vendor r (write a).canonical.print = .ok a := by
    rw [Provider.decodeFragment, back a ha]
    rfl
  have fragments : ((as.map fun a => (write a).canonical).map fun j => .ok j.print).map
      (fun item : Except GatewayError String => item.bind (Provider.decodeFragment vendor r)) =
        as.map .ok := by
    rw [List.map_map, List.map_map]
    refine List.map_congr_left fun a ha => ?_
    simp only [Function.comp_apply, Except.bind, fragment ha]
  have refusal (e : GatewayError) :
      Provider.decodeFragment vendor r (EventStream.errorBody e).print = .error chainedError := by
    rw [Provider.decodeFragment, refused]
    rfl
  have ending : EventStream.Holds ((EventStream.readBack error).map
      (fun item => item.bind (Provider.decodeFragment vendor r))) []
        (error.map fun _ => chainedError) := by
    rcases error with _ | e
    · exact .nil
    · simp only [EventStream.readBack, List.map_cons, Except.bind, refusal]
      exact .error
  have read := EventStream.dataOfPieces_frames _ error pieces h
  have complete : Provider.bodyFault true = none := rfl
  rw [Client.fragments, complete, read, List.map_append, fragments]
  exact EventStream.holds_append as ending

/-! ## What gateways stream -/

/-- The fragments that an endpoint of a type streams, as data. -/
inductive Streams : EndpointType → Fragments Json → Prop
  | chat {items : Fragments Chat.Chunk} : (∀ c, .ok c ∈ items → c.Fits) →
    Streams .chat (items.map fun f => f.map fun c => c.toJson.canonical)
  | completions {items : Fragments Completions.Chunk} : (∀ c, .ok c ∈ items → c.Fits) →
    Streams .completions (items.map fun f => f.map fun c => c.toJson.canonical)

/-- What an operation has read is of the body of a reply. -/
theorem Provider.exists_of_exchange {α : Type} {vendor : String}
    {request : Except TransportFault Http.Request}
    {read : List Bytes → Bool → Except GatewayError α} {replies : List Http.Reply} {a : α}
    (h : (exchange vendor request read).result replies = .ok a) :
    ∃ pieces complete, read pieces complete = .ok a := by
  rcases request with fault | request
  · cases h
  · obtain ⟨⟨pieces, complete⟩, -, h⟩ := Document.ok_of_bind h
    exact ⟨pieces, complete, h⟩

theorem Provider.exists_of_decodeFragment {α : Type} {vendor : String} {r : Document.Reader α}
    {data : String} {a : α} (h : decodeFragment vendor r data = .ok a) :
    ∃ n, r .json n = .ok a := by
  have h := Document.ok_of_mapError h
  rw [Json.parse] at h
  generalize Json.tree (Text.Utf8.encode data) = t at h
  obtain ⟨n, whole⟩ := t
  obtain ⟨b, hb, h⟩ := Document.ok_of_bind h
  cases whole with
  | false => cases h
  | true => exact ⟨n, Except.ok.inj h ▸ hb⟩

/-- A fragment of a vendor's stream has been read of its data. -/
theorem OpenAi.Client.exists_of_askStream {α : Type} {c : Client} {path : String} {body : Json}
    {r : Document.Reader α} {replies : List Http.Reply} {items : Fragments α}
    (h : (c.askStream path body r).result replies = .ok items) :
    ∀ a, .ok a ∈ items → ∃ n, r .json n = .ok a := by
  rw [askStream] at h
  obtain ⟨pieces, whole, h⟩ := Provider.exists_of_exchange h
  obtain rfl := Except.ok.inj h
  intro a ha
  obtain ⟨item, -, ha⟩ := List.mem_map.1 ha
  obtain ⟨data, -, ha⟩ := Document.ok_of_bind ha
  exact Provider.exists_of_decodeFragment ha

/-- A fragment of a translated stream is one that is made. -/
theorem Anthropic.exists_of_mem_fragments {α : Type} {make : MakeChunk α} {id : String}
    {items : List (Except GatewayError String)} {a : α} (h : .ok a ∈ fragments make id items) :
    ∃ id text finish, a = make id text finish := by
  induction items generalizing id with
  | nil => simp [fragments] at h
  | cons item items ih =>
    rcases item with e | data
    · simp [fragments] at h
    rw [fragments] at h
    split at h
    · simp at h
    · exact ih h
    · rcases List.mem_cons.1 h with h | h
      · exact ⟨_, _, _, Except.ok.inj h⟩
      · exact ih h
    · rcases List.mem_cons.1 h with h | h
      · exact ⟨_, _, _, Except.ok.inj h⟩
      · exact ih h
    · cases h
    · simp at h
    · exact ih h
    · exact ih h

/-- A fragment of the stream of a vendor whose events are translated is one that is made. -/
theorem Anthropic.Client.exists_of_askStream {α : Type} {c : Client} {r : Request}
    {make : MakeChunk α} {replies : List Http.Reply} {items : Fragments α}
    (h : (c.askStream r make).result replies = .ok items) :
    ∀ a, .ok a ∈ items → ∃ id text finish, a = make id text finish := by
  rw [askStream] at h
  obtain ⟨pieces, whole, h⟩ := Provider.exists_of_exchange h
  obtain rfl := Except.ok.inj h
  exact fun a ha => exists_of_mem_fragments ha

namespace Handler

/-- A stream is one of the provider. -/
theorem exists_of_streamed {α : Type} {write : α → Json} {c : ProviderCall (Fragments α)}
    {replies : List Http.Reply} {fragments : Fragments Json}
    (h : (streamed write c).result replies = .ok (.stream fragments)) : ∃ items,
      c.result replies = .ok items ∧
        fragments = items.map fun f => f.map fun a => (write a).canonical := by
  rw [streamed, Provider.convert, Call.result_map] at h
  rcases hc : c.result replies with e | items <;> rw [hc] at h
  · cases h
  · cases h
    exact ⟨items, rfl, rfl⟩

/-- A single answer is no stream. -/
theorem result_complete_ne_stream {α : Type} {write : α → Json} {c : ProviderCall α}
    {replies : List Http.Reply} {fragments : Fragments Json} :
    (complete write c).result replies ≠ .ok (.stream fragments) := by
  rw [complete, Provider.convert, Call.result_map]
  rcases c.result replies with e | a <;> rintro ⟨⟩

variable {provider : Provider} {now : Nat} {body : Bytes} {replies : List Http.Reply}
  {fragments : Fragments Json}

/-- Embeddings are not streamed. -/
theorem result_embeddings_ne_stream :
    (invoke ⟨.embeddings, provider⟩ now body).result replies ≠ .ok (.stream fragments) := by
  rw [invoke]
  dsimp only
  cases payload Embeddings.Request.read body with
  | error => rintro ⟨⟩
  | ok => exact result_complete_ne_stream

theorem exists_of_invoke_chat
    (h : (invoke ⟨.chat, provider⟩ now body).result replies = .ok (.stream fragments)) :
    ∃ r items, (provider.chatStream now r).result replies = .ok items ∧
      fragments = items.map fun f => f.map fun c => c.toJson.canonical := by
  rw [invoke] at h
  dsimp only at h
  split at h
  · cases h
  · split at h
    · cases h
    · split at h
      · exact ⟨_, exists_of_streamed h⟩
      · exact absurd h result_complete_ne_stream

theorem exists_of_invoke_completions
    (h : (invoke ⟨.completions, provider⟩ now body).result replies = .ok (.stream fragments)) :
    ∃ r items, (provider.completionsStream now r).result replies = .ok items ∧
      fragments = items.map fun f => f.map fun c => c.toJson.canonical := by
  rw [invoke] at h
  dsimp only at h
  split at h
  · cases h
  · split at h
    · exact ⟨_, exists_of_streamed h⟩
    · exact absurd h result_complete_ne_stream

/-- What the providers that are always there stream are fragments whose numbers fit, as long as
    the time does. -/
theorem streams_of_invoke (hn : now < Nat.pow 2 64) {e : EndpointConfig}
    (hp : Resolver.builtin.resolve e.model = .ok provider)
    (hr : (invoke ⟨e.type, provider⟩ now body).result replies = .ok (.stream fragments)) :
    Streams e.type fragments := by
  have zero : 0 < Nat.pow 2 32 := by decide
  generalize e.type = type at hr ⊢
  rcases resolve_builtin hp with ⟨c, rfl⟩ | ⟨c, rfl⟩ <;> cases type
  case inl.chat =>
    obtain ⟨r, items, hi, rfl⟩ := exists_of_invoke_chat hr
    simp only [OpenAi.Client.provider] at hi
    refine .chat fun c hc => ?_
    obtain ⟨n, hread⟩ := OpenAi.Client.exists_of_askStream hi c hc
    exact Chat.Chunk.fits_of_read hread
  case inl.completions =>
    obtain ⟨r, items, hi, rfl⟩ := exists_of_invoke_completions hr
    simp only [OpenAi.Client.provider] at hi
    refine .completions fun c hc => ?_
    obtain ⟨n, hread⟩ := OpenAi.Client.exists_of_askStream hi c hc
    exact Completions.Chunk.fits_of_read hread
  case inr.chat =>
    obtain ⟨r, items, hi, rfl⟩ := exists_of_invoke_chat hr
    simp only [Anthropic.Client.provider] at hi
    refine .chat fun c hc => ?_
    obtain ⟨id, text, finish, rfl⟩ := Anthropic.Client.exists_of_askStream hi c hc
    exact ⟨hn, List.forall_mem_singleton.2 zero⟩
  case inr.completions =>
    obtain ⟨r, items, hi, rfl⟩ := exists_of_invoke_completions hr
    simp only [Anthropic.Client.provider] at hi
    refine .completions fun c hc => ?_
    obtain ⟨id, text, finish, rfl⟩ := Anthropic.Client.exists_of_askStream hi c hc
    exact ⟨hn, List.forall_mem_singleton.2 zero⟩
  case inl.embeddings | inr.embeddings => exact absurd hr result_embeddings_ne_stream

end Handler

/-- No frame of a fragment is the one that ends a stream. -/
theorem Streams.doneFrame_not_mem {type : EndpointType} {fragments : Fragments Json}
    (h : Streams type fragments) {found : List Json} {error : Option GatewayError}
    (hh : EventStream.Holds fragments found error) :
    EventStream.doneFrame ∉ found.map EventStream.chunkFrame := by
  rw [List.mem_map]
  rintro ⟨j, hj, he⟩
  cases h with
  | chat _ =>
    obtain ⟨as, -, rfl⟩ := EventStream.exists_of_holds_map hh
    obtain ⟨c, -, rfl⟩ := List.mem_map.1 hj
    exact EventStream.chunkFrame_object_ne _ he
  | completions _ =>
    obtain ⟨as, -, rfl⟩ := EventStream.exists_of_holds_map hh
    obtain ⟨c, -, rfl⟩ := List.mem_map.1 hj
    exact EventStream.chunkFrame_object_ne _ he

/-! ## Gateways -/

/-- The single answers of an endpoint of a type, as data. -/
inductive Answers : EndpointType → Json → Prop
  | chat {r : Chat.Response} : r.Fits → Answers .chat r.toJson.canonical
  | completions {r : Completions.Response} : r.Fits → Answers .completions r.toJson.canonical

/-- A payload that is accepted and asks for a single answer. -/
inductive AsksOnce : EndpointType → Bytes → Prop
  | chat {body : Bytes} {r : Chat.Request} : Handler.payload Chat.Request.read body = .ok r →
    r.refusal? = none → r.stream = false → AsksOnce .chat body
  | completions {body : Bytes} {r : Completions.Request} :
    Handler.payload Completions.Request.read body = .ok r → r.stream = false →
      AsksOnce .completions body

namespace Handler

/-- A single answer to the request that is sent, as data. -/
theorem result_complete {α : Type} {write : α → Json} {vendor : String}
    {request : Except TransportFault Http.Request}
    {read : List Bytes → Bool → Except GatewayError α}
    (hr : (complete write (Provider.exchange vendor request read)).sends) {status : Nat}
    (hs : Http.isSuccess status) (pieces : List Bytes) (whole : Bool) (later : List Http.Reply) :
    (complete write (Provider.exchange vendor request read)).result
        (.answer status pieces whole :: later) =
      (read pieces whole).map fun a => .complete (write a).canonical := by
  rw [complete, Provider.convert, Call.sends_map] at hr
  rw [complete, Provider.convert, Call.result_map, Provider.result_exchange hr hs]

/-- A payload for chats that asks for a single answer is answered with one. -/
theorem invoke_chat_once {provider : Provider} {now : Nat} {body : Bytes} {r : Chat.Request}
    (hb : payload Chat.Request.read body = .ok r) (hn : r.refusal? = none)
    (ht : r.stream = false) : invoke ⟨.chat, provider⟩ now body =
      complete Chat.Response.toJson (provider.chat now r) := by
  simp only [invoke, hb, hn, streams, ht, Bool.false_and, Bool.false_eq_true, if_false]

/-- A payload for completions that asks for a single answer is answered with one. -/
theorem invoke_completions_once {provider : Provider} {now : Nat} {body : Bytes}
    {r : Completions.Request} (hb : payload Completions.Request.read body = .ok r)
    (ht : r.stream = false) : invoke ⟨.completions, provider⟩ now body =
      complete Completions.Response.toJson (provider.completions now r) := by
  simp only [invoke, hb, streams, ht, Bool.false_and, Bool.false_eq_true, if_false]

section Exchange

variable {α : Type} {r : Document.Reader α} {write : α → Json}
  {request : Except TransportFault Http.Request} {status : Nat} {pieces : List Bytes}
  {later : List Http.Reply}

/-- What is streamed of the frames of a gateway: the same fragments, and another error in place
    of an error at the end. -/
theorem result_streamed_frames {items : Fragments α}
    (back : ∀ a, .ok a ∈ items → Json.parse r (Text.Utf8.encode (write a).canonical.print) = .ok a)
    (refused : ∀ e, Json.parse r (Text.Utf8.encode (EventStream.errorBody e).print) =
      .error (.missingField "id"))
    (hr : (streamed write (Provider.exchange OpenAi.vendor request fun pieces complete =>
      .ok (OpenAi.Client.fragments r pieces complete))).sends) (hs : Http.isSuccess status)
    {found : List Json} {error : Option GatewayError}
    (hh : EventStream.Holds (items.map (·.map fun a => (write a).canonical)) found error)
    (hp : pieces.flatten = Text.Utf8.encode (String.join
      (EventStream.frames (items.map (·.map fun a => (write a).canonical))))) :
    ∃ again, (streamed write (Provider.exchange OpenAi.vendor request fun pieces complete =>
        .ok (OpenAi.Client.fragments r pieces complete))).result
        (.answer status pieces true :: later) =
          .ok (.stream again) ∧
      EventStream.Holds again found (error.map fun _ => OpenAi.chainedError) := by
  obtain ⟨as, hi, rfl⟩ := EventStream.exists_of_holds_map hh
  -- What would come after the error is in no frame.
  have alone := EventStream.holds_append (as.map fun a => (write a).canonical)
    (EventStream.holds_toList error)
  rw [EventStream.frames_of_holds hh, ← EventStream.frames_of_holds alone] at hp
  refine ⟨_, result_streamed hr hs pieces true later, ?_⟩
  exact (OpenAi.holds_fragments (fun a ha => back a (hi.mem a ha)) refused hp).map _

/-- What is answered of the answer of a gateway: the same value. -/
theorem result_complete_text {a : α}
    (back : Json.parse r (Text.Utf8.encode (write a).canonical.print) = .ok a)
    (hr : (complete write (Provider.exchange OpenAi.vendor request
      (Provider.decodeBody r))).sends) (hs : Http.isSuccess status)
    (hp : pieces.flatten = Text.Utf8.encode (write a).canonical.print) :
    (complete write (Provider.exchange OpenAi.vendor request (Provider.decodeBody r))).result
      (.answer status pieces true :: later) = .ok (.complete (write a).canonical) := by
  have decoded : Provider.decodeBody r pieces true = .ok a := by
    simp only [Provider.decodeBody, hp, back]
  rw [result_complete hr hs, decoded]
  rfl

end Exchange

section Invoke

variable {type : EndpointType} {c : OpenAi.Client} {now : Nat} {body : Bytes} {status : Nat}
  {pieces : List Bytes} {later : List Http.Reply}

/-- A handler for a gateway streams the fragments that the gateway streams. -/
theorem result_invoke_streams (ha : AsksForStream type body)
    (hr : (invoke ⟨type, c.provider⟩ now body).sends) (hs : Http.isSuccess status)
    {fragments : Fragments Json} (hf : Streams type fragments) {found : List Json}
    {error : Option GatewayError} (hh : EventStream.Holds fragments found error)
    (hp : pieces.flatten = Text.Utf8.encode (String.join (EventStream.frames fragments))) :
    ∃ again, (invoke ⟨type, c.provider⟩ now body).result (.answer status pieces true :: later) =
        .ok (.stream again) ∧
      EventStream.Holds again found (error.map fun _ => OpenAi.chainedError) := by
  cases hf with
  | chat hi =>
    obtain ⟨hb, hn, ht⟩ := ha
    rw [invoke_chat hb hn ht] at hr ⊢
    simp only [OpenAi.Client.provider, OpenAi.Client.askStream] at hr ⊢
    have back := fun a ha => (Chat.Chunk.readsBack (hi a ha) 0).parse (by decide)
    exact result_streamed_frames back Chat.Chunk.parse_errorBody hr hs hh hp
  | completions hi =>
    obtain _ | ⟨hb, ht⟩ := ha
    rw [invoke_completions hb ht] at hr ⊢
    simp only [OpenAi.Client.provider, OpenAi.Client.askStream] at hr ⊢
    have back := fun a ha => (Completions.Chunk.readsBack (hi a ha) 0).parse (by decide)
    exact result_streamed_frames back Completions.Chunk.parse_errorBody hr hs hh hp

/-- A handler for a gateway answers what the gateway answers. -/
theorem result_invoke_answers (ha : AsksOnce type body)
    (hr : (invoke ⟨type, c.provider⟩ now body).sends) (hs : Http.isSuccess status)
    {value : Json} (hv : Answers type value)
    (hp : pieces.flatten = Text.Utf8.encode value.print) :
    (invoke ⟨type, c.provider⟩ now body).result (.answer status pieces true :: later) =
      .ok (.complete value) := by
  cases hv with
  | chat hf =>
    obtain ⟨hb, hn, ht⟩ := ha
    rw [invoke_chat_once hb hn ht] at hr ⊢
    simp only [OpenAi.Client.provider, OpenAi.Client.ask] at hr ⊢
    exact result_complete_text ((Chat.Response.readsBack hf 0).parse (by decide)) hr hs hp
  | completions hf =>
    obtain _ | ⟨hb, ht⟩ := ha
    rw [invoke_completions_once hb ht] at hr ⊢
    simp only [OpenAi.Client.provider, OpenAi.Client.ask] at hr ⊢
    exact result_complete_text ((Completions.Response.readsBack hf 0).parse (by decide)) hr hs hp

end Invoke

end Handler

namespace Server

open EventStream

variable {g : Gateway} {now : Nat} {request : Request} {segment name : String}
  {e : EndpointConfig} {route : Route} {payload : Bytes} {status : Nat} {pieces : List Bytes}
  {later : List Http.Reply}

/-- The handler of a route of the provider `openai` is one for its vendor. -/
theorem handler_of_openai (hc : Route.compile .builtin e = .ok route)
    (hv : e.model.provider = "openai") :
    ∃ c : OpenAi.Client, route.handler = ⟨e.type, c.provider⟩ := by
  obtain ⟨provider, hp, hh⟩ := handler_of_compile hc
  rcases client_of_resolve hp with ⟨-, c, -, rfl⟩ | ⟨ha, -⟩
  · exact ⟨c, hh⟩
  · rw [hv] at ha
    contradiction

/-- Gateways can be put in a row. The second is asked through an endpoint of the type that the
    first one answers for, and its vendor is the first: what it is sent, in whatever chunks, is
    what the first has streamed or answered. Then it streams the same, up to the wording of an
    error at the end, which it can tell from a fragment; and it answers the same. -/
theorem chained (ht : Target.resolve request.method request.path = .invoke segment)
    (hn : decodeName segment = .ok name) (hg : g.table.get? name = some route)
    (hc : Route.compile .builtin e = .ok route) (hv : e.model.provider = "openai")
    (hb : request.body = .ok payload) (hr : (answer g now request).sends)
    (hs : Http.isSuccess status) :
    let second := (respond g now request (.answer status pieces true :: later)).1
    (AsksForStream e.type payload → ∀ fragments, Streams e.type fragments →
      let first := Answer.ofStream fragments
      pieces.flatten = Text.Utf8.encode first.body →
        (firstError? fragments = none → second = first) ∧
        ∀ error, firstError? fragments = some error → ∃ (found : List Json) (error' : GatewayError),
          first.body = String.join (found.map chunkFrame ++ [errorFrame error]) ∧
          second = { first with
            body := String.join (found.map chunkFrame ++ [errorFrame error']) } ∧
          doneFrame ∉ found.map chunkFrame ++ [errorFrame error']) ∧
    (AsksOnce e.type payload → ∀ value, Answers e.type value →
      let first := Answer.ofJson 200 value
      pieces.flatten = Text.Utf8.encode first.body → second = first) := by
  intro second
  obtain ⟨c, hh⟩ := handler_of_openai hc hv
  have invoked : answer g now request =
      (Handler.invoke ⟨e.type, c.provider⟩ now payload).map .ofInvocation := by
    rw [answer_of_invoke ht hn hg hb, hh]
  rw [invoked, Call.sends_map] at hr
  have told {result : Except GatewayError Invocation}
      (h : (Handler.invoke ⟨e.type, c.provider⟩ now payload).result
        (.answer status pieces true :: later) = result) :
      second = (Outcome.ofInvocation result).answer := by
    simp only [second, respond, invoked, Call.result_map, h]
  constructor
  · intro ha fragments hf first hp
    obtain ⟨found, error, holds⟩ := exists_holds fragments
    obtain ⟨again, run, same⟩ := Handler.result_invoke_streams ha hr hs hf holds hp
    have streamed : second = .ofStream again := told run
    rw [holds.firstError?]
    refine ⟨?_, ?_⟩
    · rintro rfl
      rw [streamed]
      show Answer.ofStream again = Answer.ofStream fragments
      rw [Answer.ofStream, Answer.ofStream, frames_of_holds holds, frames_of_holds same]
      rfl
    · rintro error rfl
      refine ⟨found, OpenAi.chainedError, ?_, ?_, ?_⟩
      · show String.join (frames fragments) = _
        rw [frames_of_holds holds, terminalFrame_some]
      · rw [streamed, Answer.ofStream, frames_of_holds same, Option.map_some, terminalFrame_some]
        rfl
      · rw [List.mem_append, List.mem_singleton, not_or]
        exact ⟨hf.doneFrame_not_mem holds, (errorFrame_ne _).symm⟩
  · intro ha value hv first hp
    exact told (Handler.result_invoke_answers ha hr hs hv hp)

/-- A stream that an error ended is handed on as one, a byte at a time. -/
theorem chained_truncated :
    let model : ModelConfig := ⟨"m", "openai", ⟨some "k", some "http://h", []⟩⟩
    let route : Route :=
      ⟨"a", .completions, model, ⟨.completions, (OpenAi.Client.mk "m" "k" "http://h").provider⟩⟩
    let g : Gateway := ⟨.builtin, ⟨[route], by decide⟩, none, .zero⟩
    let request : Request := ⟨"POST", "/endpoints/a/invocations", none,
      .ok (Text.Utf8.encode "\x7b\"prompt\":\"hi\",\"stream\":true\x7d")⟩
    let items : Fragments Completions.Chunk :=
      [.ok ⟨"1", "text_completion_chunk", 0, "m", [⟨0, some "\"\n", none⟩]⟩,
        .error .truncatedStream]
    let first := Answer.ofStream (items.map fun f => f.map fun c => c.toJson.canonical)
    let pieces := (Text.Utf8.encode first.body).map ([·])
    ∃ (found : List Json) (error' : GatewayError),
      first.body = String.join (found.map chunkFrame ++ [errorFrame .truncatedStream]) ∧
      (respond g 0 request [.answer 200 pieces true]).1 =
        { first with body := String.join (found.map chunkFrame ++ [errorFrame error']) } ∧
      doneFrame ∉ found.map chunkFrame ++ [errorFrame error'] := by
  intro model route g request items first pieces
  have hc : Route.compile .builtin ⟨"a", .completions, model⟩ = .ok route := by
    dsimp only [model, route]
    rfl
  have hp : Handler.payload Completions.Request.read
      (Text.Utf8.encode "\x7b\"prompt\":\"hi\",\"stream\":true\x7d") =
        .ok ⟨"hi", none, none, none, true, []⟩ := by rfl
  have fits : Streams .completions (items.map fun f => f.map fun c => c.toJson.canonical) := by
    refine .completions fun c hc => ?_
    obtain rfl : c = ⟨"1", "text_completion_chunk", 0, "m", [⟨0, some "\"\n", none⟩]⟩ := by
      simpa [items] using hc
    exact ⟨by decide, List.forall_mem_singleton.2 (by decide)⟩
  have flat : pieces.flatten = Text.Utf8.encode first.body := by
    simp [pieces, ← List.flatMap_def]
  exact ((chained (by decide +kernel : Target.resolve _ _ = .invoke "a")
    (by decide +kernel : decodeName "a" = .ok "a") rfl hc rfl rfl (by decide +kernel) rfl).1
      (.completions hp rfl) _ fits flat).2 _ rfl

end Server

end InferenceGateway
