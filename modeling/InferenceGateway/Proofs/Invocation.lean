import InferenceGateway.Proofs.Exchanges

/-!
# Invocations

What becomes of a payload that an endpoint is invoked with. It is refused, or it is accepted and
then its vendor is asked once; what is read of the reply is all that is left to happen. Everything
that an invocation sends, answers or fails of can be read off these two cases.

* `Handler.Accepts`: the payloads that the handlers of a type accept. Any other one is refused
  (`Handler.invoke_of_not_accepts`).
* `Handler.Asks`: where the handlers of the providers that are always there ask. Every route of
  such a provider has a handler like this (`asks_of_compile`).
* `Access.Exchanges`: calls that ask a vendor once and read the reply. An accepted payload is such
  a call (`Handler.Asks.exchanges`).
-/

namespace InferenceGateway

/-! ## Payloads -/

namespace Handler

/-- The payloads that are accepted: of the form of a request, and for chats with values that are
    not refused. -/
inductive Accepts : EndpointType → Bytes → Prop
  | chat {body : Bytes} {r : Chat.Request} :
    payload Chat.Request.read body = .ok r → r.refusal? = none → Accepts .chat body
  | completions {body : Bytes} {r : Completions.Request} :
    payload Completions.Request.read body = .ok r → Accepts .completions body
  | embeddings {body : Bytes} {r : Embeddings.Request} :
    payload Embeddings.Request.read body = .ok r → Accepts .embeddings body

/-- Any other payload is refused. -/
theorem invoke_of_not_accepts {h : Handler} {body : Bytes} (hb : ¬Accepts h.type body)
    (now : Nat) : ∃ e, h.invoke now body = refuse e := by
  obtain ⟨type, provider⟩ := h
  cases type with
  | chat =>
    rcases hp : payload Chat.Request.read body with e | r
    · exact ⟨e, by simp only [invoke, hp]⟩
    · rcases hr : r.refusal? with _ | e
      · exact absurd (.chat hp hr) hb
      · exact ⟨e, by simp only [invoke, hp, hr]⟩
  | completions =>
    rcases hp : payload Completions.Request.read body with e | r
    · exact ⟨e, by simp only [invoke, hp]⟩
    · exact absurd (.completions hp) hb
  | embeddings =>
    rcases hp : payload Embeddings.Request.read body with e | r
    · exact ⟨e, by simp only [invoke, hp]⟩
    · exact absurd (.embeddings hp) hb

end Handler

/-! ## Asking -/

/-- Where a vendor is asked, and with which key. -/
structure Access where
  /-- The name of the vendor in messages. -/
  vendor : String
  /-- The address of the vendor. -/
  base : String
  /-- The path of the task at this address. -/
  path : String
  key : String
  /-- The headers of a request, one of which holds the key. -/
  headers : List (String × String)

namespace Access

variable {α β : Type} {a : Access} {c : ProviderCall α}

/-- A request with a body. -/
def request (a : Access) (body : Json) : Except TransportFault Http.Request :=
  Http.post (a.base ++ "/" ++ a.path) a.headers body

/-- What is read of a body of success, unless it breaks off or does not make sense. -/
def ReadsBody (read : List Bytes → Bool → Except GatewayError α) : Prop :=
  ∀ pieces complete e, read pieces complete = .error e → e = .transport .undecodable

/-- A call that asks the vendor once, and has nothing left to do with the reply but to read it. -/
def Exchanges (a : Access) (c : ProviderCall α) : Prop :=
  ∃ body read, ReadsBody read ∧ c = Provider.exchange a.vendor (a.request body) read

theorem readsBody_decodeBody (r : Document.Reader α) : ReadsBody (Provider.decodeBody r) := by
  intro pieces complete e he
  unfold Provider.decodeBody at he
  split at he
  · cases he
  · exact (Except.error.inj he).symm

theorem readsBody_ok (read : List Bytes → Bool → α) :
    ReadsBody fun pieces complete => .ok (read pieces complete) := nofun

theorem ReadsBody.map {read : List Bytes → Bool → Except GatewayError α} (h : ReadsBody read)
    (f : α → β) : ReadsBody fun pieces complete => (read pieces complete).map f := by
  intro pieces complete e he
  refine h pieces complete e ?_
  rcases hr : read pieces complete with e' | a <;> simp only [hr] at he
  · exact congrArg _ (Except.error.inj he)
  · cases he

/-- An answer that is converted is that of the same exchange. -/
theorem Exchanges.convert (h : a.Exchanges c) (f : α → β) :
    a.Exchanges (Provider.convert f c) := by
  obtain ⟨body, read, hr, rfl⟩ := h
  refine ⟨body, _, hr.map f, ?_⟩
  cases a.request body with
  | error fault => rfl
  | ok request =>
    refine congrArg (Call.send request) (funext fun reply => ?_)
    dsimp only
    cases reply.success a.vendor request.url <;> rfl

/-- An exchange fails of the transport, or of a vendor that refuses. -/
theorem Exchanges.error_cases (hc : a.Exchanges c) {replies : List Http.Reply} {e : GatewayError}
    (he : c.result replies = .error e) : (∃ fault, e = .transport fault) ∨
      ∃ status pieces complete later fault, replies = .answer status pieces complete :: later ∧
        ¬Http.isSuccess status ∧ e = .vendor status fault := by
  obtain ⟨body, read, hr, rfl⟩ := hc
  cases hp : a.request body with
  | error fault =>
    -- The request cannot even be put together.
    rw [hp] at he
    cases he
    exact .inl ⟨fault, rfl⟩
  | ok request =>
    rw [hp] at he
    rcases replies with _ | ⟨_ | ⟨status, pieces, complete⟩, later⟩
    · cases he
      exact .inl ⟨_, rfl⟩
    · cases he
      exact .inl ⟨_, rfl⟩
    · rw [Provider.exchange, Call.result, List.headD_cons, Call.result] at he
      by_cases hs : Http.isSuccess status
      · rw [Http.Reply.success_answer hs] at he
        exact .inl ⟨_, hr pieces complete e he⟩
      · rw [Http.Reply.success_refused hs] at he
        cases he
        exact .inr ⟨status, pieces, complete, later, _, rfl, hs, rfl⟩

theorem Exchanges.complete (h : a.Exchanges c) (write : α → Json) :
    a.Exchanges (Handler.complete write c) := h.convert _

theorem Exchanges.streamed {c : ProviderCall (Fragments α)} (h : a.Exchanges c)
    (write : α → Json) : a.Exchanges (Handler.streamed write c) := h.convert _

/-- A call posts a body, unless the request cannot be put together, and nothing after it, whatever
    comes back. -/
def Posts (a : Access) (c : ProviderCall α) (body : Json) : Prop :=
  ∀ replies, c.requests replies = (a.request body).toOption.toList

theorem posts_exchange (a : Access) (vendor : String) (body : Json)
    (read : List Bytes → Bool → Except GatewayError α) :
    a.Posts (Provider.exchange vendor (a.request body) read) body := by
  intro replies
  cases a.request body <;> rfl

theorem Posts.convert {body : Json} (h : a.Posts c body) (f : α → β) :
    a.Posts (Provider.convert f c) body := by
  intro replies
  rw [Provider.convert, Call.requests_map]
  exact h replies

end Access

/-- The path of a task at `openai`. -/
def OpenAi.taskPath : EndpointType → String
  | .chat => "chat/completions"
  | .completions => "completions"
  | .embeddings => "embeddings"

/-- Where a client of `openai` asks. -/
def OpenAi.Client.access (c : OpenAi.Client) (type : EndpointType) : Access :=
  ⟨OpenAi.vendor, c.base, OpenAi.taskPath type, c.key,
    [("authorization", "Bearer " ++ c.key), ("content-type", "application/json")]⟩

/-- The path of all tasks at `anthropic`. -/
def Anthropic.taskPath : String := "v1/messages"

/-- Where a client of `anthropic` asks. -/
def Anthropic.Client.access (c : Anthropic.Client) : Access :=
  ⟨Anthropic.vendor, c.base, Anthropic.taskPath, c.key,
    [("x-api-key", c.key), ("anthropic-version", Anthropic.version),
      ("content-type", "application/json")]⟩

/-- A provider each of whose operations asks a vendor once, wherever it asks for the task. -/
structure Provider.AsksAt (p : Provider) (access : EndpointType → Access) : Prop where
  chat : ∀ now r, (access .chat).Exchanges (p.chat now r)
  chatStream : ∀ now r, (access .chat).Exchanges (p.chatStream now r)
  completions : ∀ now r, (access .completions).Exchanges (p.completions now r)
  completionsStream : ∀ now r, (access .completions).Exchanges (p.completionsStream now r)
  embeddings : p.supports .embeddings → ∀ now r, (access .embeddings).Exchanges (p.embeddings now r)

namespace OpenAi.Client

variable {α : Type} (c : OpenAi.Client)

theorem exchanges_ask (type : EndpointType) (body : Json) (r : Document.Reader α) :
    (c.access type).Exchanges (c.ask (taskPath type) body r) :=
  ⟨body, _, Access.readsBody_decodeBody r, rfl⟩

theorem exchanges_askStream (type : EndpointType) (body : Json) (r : Document.Reader α) :
    (c.access type).Exchanges (c.askStream (taskPath type) body r) :=
  ⟨body, _, Access.readsBody_ok _, rfl⟩

theorem asksAt : c.provider.AsksAt c.access := by
  constructor <;> dsimp only [provider] <;> intros
  · exact c.exchanges_ask .chat _ _
  · exact c.exchanges_askStream .chat _ _
  · exact c.exchanges_ask .completions _ _
  · exact c.exchanges_askStream .completions _ _
  · exact c.exchanges_ask .embeddings _ _

end OpenAi.Client

namespace Anthropic.Client

/-- The request to the vendor is one at the path of all tasks. -/
theorem request_eq (c : Anthropic.Client) (r : Anthropic.Request) :
    c.request r = c.access.request r.toJson := by
  have path : "/v1/messages" = "/" ++ taskPath := by decide
  rw [request, path, ← String.append_assoc]
  rfl

theorem exchanges_ask (c : Anthropic.Client) (r : Anthropic.Request) :
    c.access.Exchanges (c.ask r) := by
  rw [ask, request_eq]
  exact ⟨_, _, Access.readsBody_decodeBody _, rfl⟩

theorem exchanges_askStream {α : Type} (c : Anthropic.Client) (r : Anthropic.Request)
    (make : MakeChunk α) : c.access.Exchanges (c.askStream r make) := by
  rw [askStream, request_eq]
  exact ⟨_, _, Access.readsBody_ok _, rfl⟩

theorem asksAt (c : Anthropic.Client) : c.provider.AsksAt fun _ => c.access := by
  constructor <;> dsimp only [provider] <;> intros
  · exact (c.exchanges_ask _).convert _
  · exact c.exchanges_askStream _ _
  · exact (c.exchanges_ask _).convert _
  · exact c.exchanges_askStream _ _
  · contradiction

end Anthropic.Client

namespace Handler

/-- Where a handler of a provider that is always there asks its vendor. -/
inductive Asks : Handler → Access → Prop
  | openAi (c : OpenAi.Client) (type : EndpointType) : Asks ⟨type, c.provider⟩ (c.access type)
  | anthropic (c : Anthropic.Client) {type : EndpointType} :
    type ≠ .embeddings → Asks ⟨type, c.provider⟩ c.access

variable {h : Handler} {a : Access} {body : Bytes}

/-- An accepted payload is an exchange with the vendor. -/
theorem exchanges_of_accepts {type : EndpointType} {p : Provider} {access : EndpointType → Access}
    (hp : p.AsksAt access) (hs : p.supports type) (hb : Accepts type body) (now : Nat) :
    (access type).Exchanges (invoke ⟨type, p⟩ now body) := by
  cases hb with
  | chat hb hr =>
    simp only [invoke, hb, hr]
    split
    · exact (hp.chatStream now _).streamed _
    · exact (hp.chat now _).complete _
  | completions hb =>
    simp only [invoke, hb]
    split
    · exact (hp.completionsStream now _).streamed _
    · exact (hp.completions now _).complete _
  | embeddings hb =>
    simp only [invoke, hb]
    exact (hp.embeddings hs now _).complete _

theorem Asks.exchanges (ha : Asks h a) (hb : Accepts h.type body) (now : Nat) :
    a.Exchanges (h.invoke now body) := by
  cases ha with
  | openAi c type => exact exchanges_of_accepts c.asksAt rfl hb now
  | @anthropic c type ht =>
    have hs : c.provider.supports type := by cases type <;> first | rfl | exact absurd rfl ht
    exact exchanges_of_accepts c.asksAt hs hb now

/-- A handler that is built for a client of a vendor asks it. -/
theorem asks_of_build {type : EndpointType} {provider : Provider}
    (hp : (∃ c : OpenAi.Client, provider = c.provider) ∨
      ∃ c : Anthropic.Client, provider = c.provider)
    (hb : build type provider = .ok h) : ∃ a, Asks h a := by
  rw [build] at hb
  split at hb
  · rename_i supported
    obtain rfl := (Except.ok.inj hb).symm
    rcases hp with ⟨c, rfl⟩ | ⟨c, rfl⟩
    · exact ⟨_, .openAi c type⟩
    · refine ⟨_, .anthropic c ?_⟩
      rintro rfl
      cases supported
  · cases hb

end Handler

/-- The handler of a route is built for the provider that is constructed for its model. -/
theorem Route.build_of_compile {resolver : Resolver} {e : EndpointConfig} {route : Route}
    (h : compile resolver e = .ok route) : ∃ provider, resolver.resolve e.model = .ok provider ∧
      Handler.build e.type provider = .ok route.handler := by
  obtain ⟨provider, hp, h⟩ := Document.ok_of_bind h
  split at h
  · rename_i handler hh
    cases h
    exact ⟨provider, hp, hh⟩
  · cases h

/-- Every route of a provider that is always there asks a vendor. -/
theorem asks_of_compile {e : EndpointConfig} {route : Route}
    (h : Route.compile .builtin e = .ok route) : ∃ a, route.handler.Asks a := by
  obtain ⟨provider, hp, hb⟩ := Route.build_of_compile h
  exact Handler.asks_of_build (resolve_builtin hp) hb

end InferenceGateway
