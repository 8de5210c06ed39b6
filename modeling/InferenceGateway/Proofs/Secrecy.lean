import InferenceGateway.Proofs.Reloading
import InferenceGateway.Proofs.Exchanges
import InferenceGateway.Proofs.Text

/-!
# Secrecy of keys

The keys of providers go to the providers and nowhere else. Two gateways whose configurations
differ in keys, and in settings that no provider knows, are run side by side; at each stage the
one does what the other does, up to the headers that hold a key. What a client is answered is the
same.

Two things are `Alike` if this is so for them: calls (`Call.Alike`), the operations of providers
(`Provider.Alike`), routes (`Route.Alike`) and gateways (`Gateway.Alike`).

* `Provider.alike_of_resolve`: the only place where a key comes in.
* `Server.answer_alike`: what one request leads to.
* `Server.converse_secret`: what any row of requests leads to.
-/

namespace InferenceGateway

/-! ## What is sent to providers -/

namespace Http

/-- The headers that hold the key of a provider. -/
def keyHeaders : List String := ["authorization", "x-api-key"]

/-- A header, without its value if that is a key. -/
def shownHeader (h : String × String) : String × String :=
  if h.1 ∈ keyHeaders then (h.1, "") else h

/-- A request without the keys in its headers. -/
def Request.shown (r : Request) : Request := { r with headers := r.headers.map shownHeader }

theorem isHeaderValue_append (s t : String) :
    isHeaderValue (s ++ t) = (isHeaderValue s && isHeaderValue t) := by
  rw [isHeaderValue, Text.Utf8.encode_append, List.all_append]
  rfl

/-- Keys in headers do not decide whether a request can be put together, as long as they can be
    the values of headers. -/
theorem post_shown {address : String} {headers headers' : List (String × String)} {body : Json}
    (hs : headers.map shownHeader = headers'.map shownHeader)
    (hv : headers.all (isHeaderValue ·.2)) (hv' : headers'.all (isHeaderValue ·.2)) :
    (post address headers body).map Request.shown =
      (post address headers' body).map Request.shown := by
  rw [post, post, hv, hv']
  split
  · rfl
  · split
    · rfl
    · split
      · contradiction
      · split
        · rfl
        · simp only [Except.map, Request.shown, List.map_append, hs]

end Http

/-! ## Calls -/

namespace Call

/-- Calls that go on with any reply in the same way, and send at most different keys before. -/
inductive Alike {α : Type} : Call α → Call α → Prop
  | done (a : α) : Alike (.done a) (.done a)
  | send {r r' : Http.Request} {next next' : Http.Reply → Call α} : r.shown = r'.shown →
    (∀ reply, Alike (next reply) (next' reply)) → Alike (.send r next) (.send r' next')

variable {α β : Type} {c c' : Call α}

theorem Alike.refl (c : Call α) : c.Alike c := by
  induction c with
  | done a => exact .done a
  | send r next ih => exact .send rfl ih

theorem Alike.map (f : α → β) (h : c.Alike c') : (c.map f).Alike (c'.map f) := by
  induction h with
  | done a => exact .done _
  | send h _ ih => exact .send h ih

/-- The same replies give the same result. -/
theorem Alike.result_eq (h : c.Alike c') (replies : List Http.Reply) :
    c.result replies = c'.result replies := by
  induction h generalizing replies with
  | done => rfl
  | send _ _ ih => exact ih _ _

/-- The same is sent but for keys. -/
theorem Alike.requests_shown (h : c.Alike c') (replies : List Http.Reply) :
    (c.requests replies).map Http.Request.shown =
      (c'.requests replies).map Http.Request.shown := by
  induction h generalizing replies with
  | done => rfl
  | send h _ ih => rw [requests, requests, List.map_cons, List.map_cons, h, ih]

/-- As many requests are sent. -/
theorem Alike.requests_length (h : c.Alike c') (replies : List Http.Reply) :
    (c.requests replies).length = (c'.requests replies).length := by
  simpa using congrArg List.length (h.requests_shown replies)

end Call

/-! ## Providers -/

namespace Provider

/-- Providers whose operations are alike. -/
structure Alike (p p' : Provider) : Prop where
  chat : ∀ now r, (p.chat now r).Alike (p'.chat now r)
  chatStream : ∀ now r, (p.chatStream now r).Alike (p'.chatStream now r)
  completions : ∀ now r, (p.completions now r).Alike (p'.completions now r)
  completionsStream : ∀ now r, (p.completionsStream now r).Alike (p'.completionsStream now r)
  embeddings : ∀ now r, (p.embeddings now r).Alike (p'.embeddings now r)

/-- Of the request that is sent only the address comes back, in errors. -/
theorem exchange_alike {α : Type} {vendor : String}
    {request request' : Except TransportFault Http.Request}
    (h : request.map Http.Request.shown = request'.map Http.Request.shown)
    (read : List Bytes → Bool → Except GatewayError α) :
    (exchange vendor request read).Alike (exchange vendor request' read) := by
  cases request with
  | error fault =>
    cases request' with
    | error fault' =>
      cases h
      exact .done _
    | ok r' => cases h
  | ok r =>
    cases request' with
    | error fault' => cases h
    | ok r' =>
      have shown : r.shown = r'.shown := Except.ok.inj h
      have url : r.url = r'.url := show r.shown.url = r'.shown.url by rw [shown]
      rw [exchange, exchange, url]
      exact .send shown fun _ => .refl _

end Provider

/-- The headers of a request to a vendor, but for the key. -/
theorem OpenAi.Client.request_shown {c c' : OpenAi.Client} (hb : c.base = c'.base)
    (hk : Http.isHeaderValue c.key) (hk' : Http.isHeaderValue c'.key) (path : String)
    (body : Json) :
    (c.request path body).map Http.Request.shown =
      (c'.request path body).map Http.Request.shown := by
  have bearer : Http.isHeaderValue "Bearer " := by decide
  have type : Http.isHeaderValue "application/json" := by decide
  rw [request, request, hb]
  refine Http.post_shown ?_ ?_ ?_
  · simp [Http.shownHeader, Http.keyHeaders]
  · simp [Http.isHeaderValue_append, bearer, type, hk]
  · simp [Http.isHeaderValue_append, bearer, type, hk']

theorem Anthropic.Client.request_shown {c c' : Anthropic.Client} (hb : c.base = c'.base)
    (hk : Http.isHeaderValue c.key) (hk' : Http.isHeaderValue c'.key) (r : Anthropic.Request) :
    (c.request r).map Http.Request.shown = (c'.request r).map Http.Request.shown := by
  have version : Http.isHeaderValue version := by decide
  have type : Http.isHeaderValue "application/json" := by decide
  rw [request, request, hb]
  refine Http.post_shown ?_ ?_ ?_
  · simp [Http.shownHeader, Http.keyHeaders]
  · simp [version, type, hk]
  · simp [version, type, hk']

/-- Clients with different keys are providers that are alike. -/
theorem OpenAi.Client.provider_alike {c c' : OpenAi.Client} (hm : c.model = c'.model)
    (hb : c.base = c'.base) (hk : Http.isHeaderValue c.key) (hk' : Http.isHeaderValue c'.key) :
    c.provider.Alike c'.provider := by
  have asked {α : Type} (path : String) (payload : Json) (stream : Option Bool)
      (read : List Bytes → Bool → Except GatewayError α) :
      (Provider.exchange vendor (c.request path (c.body payload stream)) read).Alike
        (Provider.exchange vendor (c'.request path (c'.body payload stream)) read) := by
    have same : c.body payload stream = c'.body payload stream := by simp only [body, hm]
    rw [same]
    exact Provider.exchange_alike (request_shown hb hk hk' path _) read
  constructor <;> intro now r
  case chat | completions | embeddings =>
    simp only [provider, ask]
    exact asked _ _ _ _
  case chatStream | completionsStream =>
    simp only [provider, askStream]
    exact asked _ _ _ _

theorem Anthropic.Client.provider_alike {c c' : Anthropic.Client} (hm : c.model = c'.model)
    (hb : c.base = c'.base) (hk : Http.isHeaderValue c.key) (hk' : Http.isHeaderValue c'.key) :
    c.provider.Alike c'.provider := by
  have asked {α : Type} (r : Anthropic.Request) (read : List Bytes → Bool → Except GatewayError α) :
      (Provider.exchange vendor (c.request r) read).Alike
        (Provider.exchange vendor (c'.request r) read) :=
    Provider.exchange_alike (request_shown hb hk hk' r) read
  constructor <;> intro now r
  case chat | completions =>
    simp only [provider, ask, hm]
    exact (asked _ _).map _
  case chatStream | completionsStream =>
    simp only [provider, askStream, hm]
    exact asked _ _
  case embeddings => exact .refl _

/-! ## Configurations -/

/-- The settings that decide what clients see: there are neither the key nor those that are
    only kept. -/
def ProviderSettings.shown (s : ProviderSettings) : ProviderSettings := ⟨none, s.apiBase, []⟩

/-- A model without its key. -/
def ModelConfig.shown (m : ModelConfig) : ModelConfig := { m with settings := m.settings.shown }

/-- An endpoint without its key. -/
def EndpointConfig.shown (e : EndpointConfig) : EndpointConfig := { e with model := e.model.shown }

/-- A configuration without its keys. -/
def GatewayConfig.shown (c : GatewayConfig) : GatewayConfig :=
  ⟨c.endpoints.map EndpointConfig.shown⟩

/-- The key of a model, if it has one, can be the value of a header. -/
def ModelConfig.KeySendable (m : ModelConfig) : Prop :=
  ∀ key ∈ m.settings.apiKey, Http.isHeaderValue key

/-- All keys of a configuration can be values of headers. -/
def GatewayConfig.KeysSendable (c : GatewayConfig) : Prop :=
  ∀ e ∈ c.endpoints, e.model.KeySendable

theorem OpenAi.Client.eq_of_ofConfig {m : ModelConfig} {c : OpenAi.Client}
    (h : ofConfig m = .ok c) : ∃ key ∈ m.settings.apiKey,
      c = ⟨m.name, key, Provider.baseAddress m.settings.apiBase usualBase⟩ := by
  rw [ofConfig] at h
  split at h
  · rename_i key hk
    exact ⟨key, (Option.filter_eq_some_iff.1 hk).1, (Except.ok.inj h).symm⟩
  · cases h

theorem Anthropic.Client.eq_of_ofConfig {m : ModelConfig} {c : Anthropic.Client}
    (h : ofConfig m = .ok c) : ∃ key ∈ m.settings.apiKey,
      c = ⟨m.name, key, Provider.baseAddress m.settings.apiBase usualBase⟩ := by
  rw [ofConfig] at h
  split at h
  · rename_i key hk
    exact ⟨key, (Option.filter_eq_some_iff.1 hk).1, (Except.ok.inj h).symm⟩
  · cases h

/-- Models that are the same but for their keys have providers that are alike. -/
theorem Provider.alike_of_resolve {m m' : ModelConfig} {p p' : Provider}
    (hs : m.shown = m'.shown) (hk : m.KeySendable) (hk' : m'.KeySendable)
    (hp : Resolver.builtin.resolve m = .ok p) (hp' : Resolver.builtin.resolve m' = .ok p') :
    p.Alike p' := by
  have name : m.name = m'.name := show m.shown.name = m'.shown.name by rw [hs]
  have vendor : m.provider = m'.provider := show m.shown.provider = m'.shown.provider by rw [hs]
  have base : m.settings.apiBase = m'.settings.apiBase :=
    show m.shown.settings.apiBase = m'.shown.settings.apiBase by rw [hs]
  rcases client_of_resolve hp with ⟨hv, c, hc, rfl⟩ | ⟨hv, c, hc, rfl⟩ <;>
    rcases client_of_resolve hp' with ⟨hv', c', hc', rfl⟩ | ⟨hv', c', hc', rfl⟩
  · obtain ⟨key, hm, rfl⟩ := OpenAi.Client.eq_of_ofConfig hc
    obtain ⟨key', hm', rfl⟩ := OpenAi.Client.eq_of_ofConfig hc'
    exact OpenAi.Client.provider_alike name (by rw [base]) (hk _ hm) (hk' _ hm')
  · rw [vendor, hv'] at hv
    contradiction
  · rw [vendor, hv'] at hv
    contradiction
  · obtain ⟨key, hm, rfl⟩ := Anthropic.Client.eq_of_ofConfig hc
    obtain ⟨key', hm', rfl⟩ := Anthropic.Client.eq_of_ofConfig hc'
    exact Anthropic.Client.provider_alike name (by rw [base]) (hk _ hm) (hk' _ hm')

/-! ## Routes -/

/-- Handlers for a type of endpoint with providers that are alike do the same with any payload. -/
theorem Handler.invoke_alike {p p' : Provider} (h : p.Alike p') (type : EndpointType) (now : Nat)
    (body : Bytes) : (invoke ⟨type, p⟩ now body).Alike (invoke ⟨type, p'⟩ now body) := by
  have streams : streams ⟨type, p⟩ = streams ⟨type, p'⟩ := rfl
  -- A payload that is refused does not come to the provider.
  rcases type with _ | _ | _ <;> rw [invoke, invoke]
  · dsimp only
    rw [streams]
    rcases payload Chat.Request.read body with e | r
    · exact .refl _
    dsimp only
    rcases r.refusal? with _ | e
    · dsimp only
      split
      · exact (h.chatStream now r).map _
      · exact (h.chat now r).map _
    · exact .refl _
  · dsimp only
    rw [streams]
    rcases payload Completions.Request.read body with e | r
    · exact .refl _
    dsimp only
    split
    · exact (h.completionsStream now r).map _
    · exact (h.completions now r).map _
  · rcases payload Embeddings.Request.read body with e | r
    · exact .refl _
    · exact (h.embeddings now r).map _

/-- Routes that look the same and do the same with any payload. -/
structure Route.Alike (r r' : Route) : Prop where
  name : r.name = r'.name
  type : r.type = r'.type
  modelInfo : r.modelInfo = r'.modelInfo
  invoke : ∀ now body, (r.handler.invoke now body).Alike (r'.handler.invoke now body)

/-- Endpoints that are the same but for their keys have routes that are alike. -/
theorem Route.alike_of_compile {e e' : EndpointConfig} {r r' : Route} (hs : e.shown = e'.shown)
    (hk : e.model.KeySendable) (hk' : e'.model.KeySendable)
    (hr : compile .builtin e = .ok r) (hr' : compile .builtin e' = .ok r') : r.Alike r' := by
  obtain ⟨p, hp, rfl⟩ := Route.eq_of_compile hr
  obtain ⟨p', hp', rfl⟩ := Route.eq_of_compile hr'
  have name : e.name = e'.name := show e.shown.name = e'.shown.name by rw [hs]
  have type : e.type = e'.type := show e.shown.type = e'.shown.type by rw [hs]
  have model : e.model.shown = e'.model.shown := show e.shown.model = e'.shown.model by rw [hs]
  have info : ModelInfo.mk e.model.name e.model.provider = ⟨e'.model.name, e'.model.provider⟩ :=
    show ModelInfo.mk e.model.shown.name e.model.shown.provider = _ by rw [model]; rfl
  refine ⟨name, type, info, ?_⟩
  show ∀ now body,
    (Handler.invoke ⟨e.type, p⟩ now body).Alike (Handler.invoke ⟨e'.type, p'⟩ now body)
  rw [type]
  exact Handler.invoke_alike (Provider.alike_of_resolve model hk hk' hp hp') e'.type

namespace Table

/-- Tables of routes that are alike, one for one. -/
def Alike (t t' : Table) : Prop := List.Forall₂ Route.Alike t.routes t'.routes

variable {t t' : Table}

/-- Configurations that are the same but for their keys have tables that are alike. -/
theorem alike_of_ofConfig {c c' : GatewayConfig} (hs : c.shown = c'.shown) (hk : c.KeysSendable)
    (hk' : c'.KeysSendable) (h : ofConfig .builtin c = .ok t) (h' : ofConfig .builtin c' = .ok t') :
    t.Alike t' := by
  have compiled := Document.forall₂_of_mapM (mapM_of_ofConfig h)
  have compiled' := Document.forall₂_of_mapM (mapM_of_ofConfig h')
  have shown : c.endpoints.map EndpointConfig.shown = c'.endpoints.map EndpointConfig.shown :=
    show c.shown.endpoints = c'.shown.endpoints by rw [hs]
  rw [GatewayConfig.KeysSendable] at hk hk'
  rw [Alike]
  -- Both tables go along the endpoints, which correspond one for one.
  generalize c.endpoints = endpoints, c'.endpoints = endpoints', t.routes = routes,
    t'.routes = routes' at *
  induction compiled generalizing endpoints' routes' with
  | nil =>
    rw [List.map_nil, eq_comm, List.map_eq_nil_iff] at shown
    rw [shown, List.forall₂_nil_left_iff] at compiled'
    rw [compiled']
    exact .nil
  | @cons e r endpoints routes hr compiled ih =>
    rcases compiled' with _ | ⟨hr', compiled'⟩
    · cases shown
    obtain ⟨head, tail⟩ := List.cons.inj shown
    rw [List.forall_mem_cons] at hk hk'
    exact .cons (Route.alike_of_compile head hk.1 hk'.1 hr hr') (ih _ _ hk.2 hk'.2 compiled' tail)

/-- The same names have routes that are alike. -/
theorem Alike.get? (h : t.Alike t') (name : String) :
    Option.Rel Route.Alike (t.get? name) (t'.get? name) := by
  rw [Alike] at h
  rw [Table.get?, Table.get?]
  generalize t.routes = routes, t'.routes = routes' at h ⊢
  induction h with
  | nil => exact .none
  | @cons r r' _ _ hr _ ih =>
    rw [List.find?_cons, List.find?_cons, hr.name]
    cases decide (r'.name = name) with
    | true => exact .some hr
    | false => exact ih

/-- Any view of the routes by what they look like is the same. -/
theorem Alike.map_eq {α : Type} {view : Route → α} (hv : ∀ {r r'}, r.Alike r' → view r = view r')
    (h : t.Alike t') : t.routes.map view = t'.routes.map view := by
  rw [Alike] at h
  generalize t.routes = routes, t'.routes = routes' at h ⊢
  induction h with
  | nil => rfl
  | cons hr _ ih => rw [List.map_cons, List.map_cons, hv hr, ih]

end Table

/-! ## Answers -/

/-- A page has the same items and the same next page, if the routes look the same. -/
theorem Directory.page_eq_of_alike {α : Type} {t t' : Table} (h : t.Alike t') {view : Route → α}
    (hv : ∀ {r r'}, Route.Alike r r' → view r = view r') (size : Nat) (token : Option String) :
    (ofTable t).page view size token = (ofTable t').page view size token := by
  have length : t.routes.length = t'.routes.length := List.Forall₂.length_eq h
  have items (w : Page.Window) :
      (w.items t.routes).map view = (w.items t'.routes).map view := by
    simp only [Page.Window.items, List.map_take, List.map_drop, h.map_eq hv]
  simp only [page, ofTable, Table.size, length, items]

theorem Route.Alike.toEndpoint {r r' : Route} (h : r.Alike r') : r.toEndpoint = r'.toEndpoint := by
  rw [Route.toEndpoint, Route.toEndpoint, h.name, h.type, h.modelInfo]

theorem Route.Alike.toView {r r' : Route} (h : r.Alike r') : r.toView = r'.toView := by
  rw [Route.toView, Route.toView, h.name, h.type, h.modelInfo]

/-- Gateways with tables that are alike, which have counted the same. -/
structure Gateway.Alike (g g' : Gateway) : Prop where
  table : g.table.Alike g'.table
  metrics : g.metrics = g'.metrics

/-- A gateway of a configuration has not counted anything yet. -/
theorem Gateway.eq_of_ofConfig {resolver : Resolver} {c : GatewayConfig} {g : Gateway}
    (h : ofConfig resolver c = .ok g) :
    ∃ t, Table.ofConfig resolver c = .ok t ∧ g = ⟨resolver, t, none, .zero⟩ := by
  rw [ofConfig] at h
  rcases ht : Table.ofConfig resolver c with e | t <;> rw [ht] at h
  · cases h
  · exact ⟨t, rfl, (Except.ok.inj h).symm⟩

namespace Server

variable {g g' : Gateway}

/-- The invocation of an endpoint. -/
theorem invoke_alike (h : g.Alike g') (now : Nat) (name : String) (body : Except String Bytes) :
    (invoke g now name body).Alike (invoke g' now name body) := by
  have found := h.table.get? name
  rw [invoke, invoke]
  generalize g.table.get? name = route, g'.table.get? name = route' at found ⊢
  rcases found with hr | _
  · rcases body with reason | body
    · exact .refl _
    · exact (hr.invoke now body).map _
  · exact .refl _

/-- What the directory tells of a name. -/
theorem getEndpoint_eq_of_alike (h : g.Alike g') :
    g.directory.getEndpoint = g'.directory.getEndpoint := by
  funext name
  have found := h.table.get? name
  simp only [Directory.getEndpoint, Gateway.directory, Directory.ofTable]
  generalize g.table.get? name = route, g'.table.get? name = route' at found ⊢
  rcases found with hr | _
  · exact congrArg Except.ok hr.toEndpoint
  · rfl

theorem getRoute_eq_of_alike (h : g.Alike g') :
    g.directory.getRoute = g'.directory.getRoute := by
  funext name
  have found := h.table.get? name
  simp only [Directory.getRoute, Gateway.directory, Directory.ofTable]
  generalize g.table.get? name = route, g'.table.get? name = route' at found ⊢
  rcases found with hr | _
  · exact congrArg Except.ok hr.toView
  · rfl

/-- A request is answered alike, whatever it is for. -/
theorem answer_alike (h : g.Alike g') (now : Nat) (r : Request) :
    (answer g now r).Alike (answer g' now r) := by
  have endpoints : g.directory.listEndpoints = g'.directory.listEndpoints :=
    funext (Directory.page_eq_of_alike h.table Route.Alike.toEndpoint _)
  have routes : g.directory.searchRoutes = g'.directory.searchRoutes :=
    funext (Directory.page_eq_of_alike h.table Route.Alike.toView _)
  rw [answer, answer, h.metrics, endpoints, routes, getEndpoint_eq_of_alike h,
    getRoute_eq_of_alike h]
  rcases Target.resolve r.method r.path
  case invoke segment =>
    dsimp only
    rcases decodeName segment with e | name
    · exact .refl _
    · exact invoke_alike h now name r.body
  all_goals exact .refl _

/-- Gateways that are alike are so after a request, to which they give the same answer. -/
theorem respond_alike (h : g.Alike g') (now : Nat) (r : Request) (replies : List Http.Reply) :
    (respond g now r replies).1 = (respond g' now r replies).1 ∧
      (respond g now r replies).2.Alike (respond g' now r replies).2 := by
  have same := (answer_alike h now r).result_eq replies
  rw [respond, respond, same]
  refine ⟨rfl, h.table, ?_⟩
  show g.metrics.recordAll _ = g'.metrics.recordAll _
  rw [h.metrics]

/-! ## Conversations -/

/-- Answers requests in a row, each at its time: the answers, each with the requests that were
    sent to providers for it. The replies of providers follow a script, one reply to each request;
    at its end there is no connection. -/
def converse (g : Gateway) :
    List (Nat × Request) → List Http.Reply → List (Answer × List Http.Request)
  | [], _ => []
  | (now, r) :: requests, script =>
    let sent := (answer g now r).requests script
    let result := respond g now r script
    (result.1, sent) :: converse result.2 requests (script.drop sent.length)

/-- Gateways that are alike lead the same conversation, but for the keys that they send. -/
theorem converse_alike (h : g.Alike g') (requests : List (Nat × Request))
    (script : List Http.Reply) :
    (converse g requests script).map (·.1) = (converse g' requests script).map (·.1) ∧
      (converse g requests script).map (·.2.map Http.Request.shown) =
        (converse g' requests script).map (·.2.map Http.Request.shown) := by
  -- Each answer leaves gateways that are alike, and uses up as much of the script.
  induction requests generalizing g g' script with
  | nil => exact ⟨rfl, rfl⟩
  | cons request requests ih =>
    obtain ⟨now, r⟩ := request
    have alike := answer_alike h now r
    obtain ⟨answers, later⟩ := respond_alike h now r script
    obtain ⟨told, sent⟩ := ih later (script.drop ((answer g now r).requests script).length)
    rw [converse, converse, ← alike.requests_length]
    simp only [List.map_cons]
    rw [answers, told, alike.requests_shown, sent]
    exact ⟨rfl, rfl⟩

/-- Keys are told to providers only. Of two configurations that differ in keys that can be sent,
    and in settings that are only kept, clients are told the same, whatever row of requests they
    send and whatever the providers reply; and the providers are sent the same, but for the headers
    with the key. -/
theorem converse_secret {c c' : GatewayConfig} (hs : c.shown = c'.shown) (hk : c.KeysSendable)
    (hk' : c'.KeysSendable) (h : Gateway.ofConfig .builtin c = .ok g)
    (h' : Gateway.ofConfig .builtin c' = .ok g') (requests : List (Nat × Request))
    (script : List Http.Reply) :
    (converse g requests script).map (·.1) = (converse g' requests script).map (·.1) ∧
      (converse g requests script).map (·.2.map Http.Request.shown) =
        (converse g' requests script).map (·.2.map Http.Request.shown) := by
  obtain ⟨t, ht, rfl⟩ := Gateway.eq_of_ofConfig h
  obtain ⟨t', ht', rfl⟩ := Gateway.eq_of_ofConfig h'
  have alike : Gateway.Alike ⟨.builtin, t, none, .zero⟩ ⟨.builtin, t', none, .zero⟩ :=
    ⟨Table.alike_of_ofConfig hs hk hk' ht ht', rfl⟩
  exact converse_alike alike requests script

/-- A configuration with one endpoint, which has a key. -/
def withKey (key : String) (extra : List (String × Json)) : GatewayConfig :=
  ⟨[⟨"a", .completions, ⟨"m", "openai", ⟨some key, some "http://h", extra⟩⟩⟩]⟩

theorem keysSendable_withKey {key : String} (hk : Http.isHeaderValue key)
    (extra : List (String × Json)) : (withKey key extra).KeysSendable := by
  rintro e he key' hk'
  obtain rfl := List.mem_singleton.1 he
  obtain rfl : key = key' := Option.some.inj hk'
  exact hk

/-- The gateway of such a configuration. -/
def gatewayWithKey (key : String) (extra : List (String × Json)) : Gateway :=
  ⟨.builtin, ⟨[⟨"a", .completions, ⟨"m", "openai", ⟨some key, some "http://h", extra⟩⟩,
    ⟨.completions, (OpenAi.Client.mk "m" key "http://h").provider⟩⟩], by simp⟩, none, .zero⟩

/-- A provider that refuses a key is sent one or the other; the client is told the same of it. -/
theorem converse_secret_refused :
    let requests : List (Nat × Request) :=
      [(0, ⟨"POST", "/endpoints/a/invocations", none,
        .ok (Text.Utf8.encode "\x7b\"prompt\":\"hi\"\x7d")⟩),
      (1, ⟨"GET", "/metrics", none, .ok []⟩)]
    let script : List Http.Reply := [.answer 401 [Text.Utf8.encode "no such key"] true]
    let first := converse (gatewayWithKey "one" []) requests script
    let second := converse (gatewayWithKey "other" [("extra", .null)]) requests script
    (first.map (·.1) = second.map (·.1) ∧
      first.map (·.2.map Http.Request.shown) = second.map (·.2.map Http.Request.shown)) ∧
      first ≠ second := by
  intro requests script first second
  have one : Gateway.ofConfig .builtin (withKey "one" []) = .ok (gatewayWithKey "one" []) := rfl
  have other : Gateway.ofConfig .builtin (withKey "other" [("extra", .null)]) =
      .ok (gatewayWithKey "other" [("extra", .null)]) := rfl
  have shown : (withKey "one" []).shown = (withKey "other" [("extra", .null)]).shown := rfl
  refine ⟨?_, by decide +kernel⟩
  exact converse_secret shown (keysSendable_withKey (by decide) _)
    (keysSendable_withKey (by decide) _) one other requests script

end Server

end InferenceGateway
