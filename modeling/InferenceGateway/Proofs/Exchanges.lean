import InferenceGateway.Proofs.Reading
import InferenceGateway.Server.Session

/-!
# Routes and their vendors

What the routes of the providers that are always there do with a request: which client answers it,
and how a successful reply of its vendor becomes the answer.

* `client_of_resolve`, `Route.eq_of_compile`: the clients and the routes that a configuration makes.
* `Provider.result_exchange`: what an operation makes of a successful reply.
* `Handler.invoke_chat`, `Handler.invoke_completions`: the operation that a payload asks for.
* `Server.answer_of_invoke`: the route that a request invokes.
-/

namespace InferenceGateway

/-! ## Routes -/

/-- The providers that are always there are those of the two vendors, each of a client that its
    model configures. -/
theorem client_of_resolve {m : ModelConfig} {provider : Provider}
    (h : Resolver.builtin.resolve m = .ok provider) :
    (m.provider = "openai" ∧
        ∃ c, OpenAi.Client.ofConfig m = .ok c ∧ provider = c.provider) ∨
      (m.provider = "anthropic" ∧
        ∃ c, Anthropic.Client.ofConfig m = .ok c ∧ provider = c.provider) := by
  have hc : Resolver.builtin.constructors =
      [("anthropic", fun m => Anthropic.Client.provider <$> Anthropic.Client.ofConfig m),
        ("openai", fun m => OpenAi.Client.provider <$> OpenAi.Client.ofConfig m)] := rfl
  rw [Resolver.resolve, hc, List.lookup_cons, List.lookup_cons, List.lookup_nil] at h
  by_cases ha : m.provider = "anthropic"
  · rw [beq_iff_eq.2 ha] at h
    cases hk : Anthropic.Client.ofConfig m with
    | error e => simp [hk] at h
    | ok c => exact .inr ⟨ha, c, rfl, by simpa [hk] using h.symm⟩
  · rw [beq_eq_false_iff_ne.2 ha] at h
    by_cases ho : m.provider = "openai"
    · rw [beq_iff_eq.2 ho] at h
      cases hk : OpenAi.Client.ofConfig m with
      | error e => simp [hk] at h
      | ok c => exact .inl ⟨ho, c, rfl, by simpa [hk] using h.symm⟩
    · rw [beq_eq_false_iff_ne.2 ho] at h
      cases h

theorem resolve_builtin {m : ModelConfig} {provider : Provider}
    (h : Resolver.builtin.resolve m = .ok provider) :
    (∃ c : OpenAi.Client, provider = c.provider) ∨
      ∃ c : Anthropic.Client, provider = c.provider :=
  (client_of_resolve h).imp (fun ⟨_, c, _, hp⟩ => ⟨c, hp⟩) fun ⟨_, c, _, hp⟩ => ⟨c, hp⟩

/-- What the route of an endpoint is made of: its configuration, and the provider that is
    constructed for its model. -/
theorem Route.eq_of_compile {resolver : Resolver} {e : EndpointConfig} {route : Route}
    (h : compile resolver e = .ok route) : ∃ provider, resolver.resolve e.model = .ok provider ∧
      route = ⟨e.name, e.type, e.model, ⟨e.type, provider⟩⟩ := by
  obtain ⟨provider, hp, h⟩ := Document.ok_of_bind h
  rw [Handler.build] at h
  split at h
  · rename_i handler hh
    split at hh
    · cases hh
      cases h
      exact ⟨provider, hp, rfl⟩
    · cases hh
  · cases h

/-- The handler of a route that is compiled is one for the type of its endpoint. -/
theorem handler_of_compile {resolver : Resolver} {e : EndpointConfig} {route : Route}
    (h : Route.compile resolver e = .ok route) :
    ∃ provider, resolver.resolve e.model = .ok provider ∧ route.handler = ⟨e.type, provider⟩ := by
  obtain ⟨provider, hp, rfl⟩ := Route.eq_of_compile h
  exact ⟨provider, hp, rfl⟩

/-! ## Exchanges -/

/-- The body of a reply of success is handed on. -/
theorem Http.Reply.success_answer {vendor url : String} {status : Nat} (hs : isSuccess status)
    (pieces : List Bytes) (complete : Bool) :
    (Reply.answer status pieces complete).success vendor url = .ok (pieces, complete) := by
  show (if isSuccess status then _ else _) = _
  rw [if_pos hs]
  rfl

/-- A reply that is not one of success is an error with its status. -/
theorem Http.Reply.success_refused {vendor url : String} {status : Nat} (hs : ¬isSuccess status)
    (pieces : List Bytes) (complete : Bool) :
    (Reply.answer status pieces complete).success vendor url =
      .error (.vendor status (.refused vendor (errorText pieces.flatten complete))) := by
  show (if isSuccess status then _ else _) = _
  rw [if_neg hs]
  rfl

/-- What is read of a successful reply to the request that is sent. -/
theorem Provider.result_exchange {α : Type} {vendor : String}
    {request : Except TransportFault Http.Request}
    {read : List Bytes → Bool → Except GatewayError α}
    (hr : (exchange vendor request read).sends) {status : Nat} (hs : Http.isSuccess status)
    (pieces : List Bytes) (complete : Bool) (later : List Http.Reply) :
    (exchange vendor request read).result (.answer status pieces complete :: later) =
      read pieces complete := by
  cases request with
  | error fault =>
    -- No request could be put together, so there is none to reply to.
    exact absurd hr nofun
  | ok request =>
    simp only [exchange, Call.result, List.headD_cons, Http.Reply.success_answer hs]
    rfl

/-! ## Payloads -/

/-- A payload that is accepted and asks for a stream. -/
inductive AsksForStream : EndpointType → Bytes → Prop
  | chat {body : Bytes} {r : Chat.Request} : Handler.payload Chat.Request.read body = .ok r →
    r.refusal? = none → r.stream = true → AsksForStream .chat body
  | completions {body : Bytes} {r : Completions.Request} :
    Handler.payload Completions.Request.read body = .ok r → r.stream = true →
      AsksForStream .completions body

/-- Whether a payload of a chat asks for a stream can be computed. -/
theorem AsksForStream.of_chat {body : Bytes}
    (h : (Handler.payload Chat.Request.read body).toOption.any fun r =>
      r.refusal?.isNone && r.stream) : AsksForStream .chat body := by
  rcases hr : Handler.payload Chat.Request.read body with e | r <;> rw [hr] at h
  · cases h
  · obtain ⟨refused, stream⟩ := Bool.and_eq_true_iff.1 h
    exact .chat hr (Option.isNone_iff_eq_none.1 refused) stream

theorem AsksForStream.of_completions {body : Bytes}
    (h : (Handler.payload Completions.Request.read body).toOption.any (·.stream)) :
    AsksForStream .completions body := by
  rcases hr : Handler.payload Completions.Request.read body with e | r <;> rw [hr] at h
  · cases h
  · exact .completions hr h

namespace Handler

/-- A payload for chats that asks for a stream is answered with one. -/
theorem invoke_chat {provider : Provider} {now : Nat} {body : Bytes} {r : Chat.Request}
    (hb : payload Chat.Request.read body = .ok r) (hn : r.refusal? = none)
    (ht : r.stream = true) : invoke ⟨.chat, provider⟩ now body =
      streamed Chat.Chunk.toJson (provider.chatStream now r) := by
  simp only [invoke, hb, hn, streams, ht, EndpointType.canStream, Bool.and_true, if_true]

/-- A payload for completions that asks for a stream is answered with one. -/
theorem invoke_completions {provider : Provider} {now : Nat} {body : Bytes}
    {r : Completions.Request} (hb : payload Completions.Request.read body = .ok r)
    (ht : r.stream = true) : invoke ⟨.completions, provider⟩ now body =
      streamed Completions.Chunk.toJson (provider.completionsStream now r) := by
  simp only [invoke, hb, streams, ht, EndpointType.canStream, Bool.and_true, if_true]

/-- The fragments of a streamed answer to the request that is sent, as data. -/
theorem result_streamed {α : Type} {write : α → Json} {vendor : String}
    {request : Except TransportFault Http.Request} {read : List Bytes → Bool → Fragments α}
    (hr : (streamed write (Provider.exchange vendor request
      fun pieces complete => .ok (read pieces complete))).sends) {status : Nat}
    (hs : Http.isSuccess status) (pieces : List Bytes) (complete : Bool)
    (later : List Http.Reply) :
    (streamed write (Provider.exchange vendor request
      fun pieces complete => .ok (read pieces complete))).result
        (.answer status pieces complete :: later) =
      .ok (.stream ((read pieces complete).map fun f => f.map fun a => (write a).canonical)) := by
  rw [streamed, Provider.convert, Call.sends_map] at hr
  rw [streamed, Provider.convert, Call.result_map, Provider.result_exchange hr hs]
  rfl

end Handler

namespace Server

/-- A request that invokes an endpoint of the table. -/
theorem answer_of_invoke {g : Gateway} {now : Nat} {request : Request} {segment name : String}
    {route : Route} {body : Bytes}
    (ht : Target.resolve request.method request.path = .invoke segment)
    (hn : decodeName segment = .ok name) (hg : g.table.get? name = some route)
    (hb : request.body = .ok body) :
    answer g now request = (route.handler.invoke now body).map .ofInvocation := by
  simp only [answer, ht, hn, invoke, hg, hb]

end Server

end InferenceGateway
