import InferenceGateway.Proofs.Reading
import InferenceGateway.Server.Session

/-!
# Reloading

A gateway that has been running for long is no different from one that has just been started.
Whatever was taken over or refused on the way, only the last configuration that loaded
matters; only the counters remember more.

* `Gateway.Serves`: the invariant, that the table is the one of a configuration.
* `Server.lastLoaded`: the last configuration of a session that loaded. An action keeps the
  invariant with the configuration that it brings if that one loads (`serves_step`), and so
  does a session with the last one that loaded (`serves_run`).
* `Server.run_as_fresh`: after any session the gateway answers like a new one.
-/

namespace InferenceGateway

/-! ## Configurations that load -/

/-- Whether a configuration loads: whether there is a table of it. -/
def GatewayConfig.loads (resolver : Resolver) (c : GatewayConfig) : Bool :=
  (Table.ofConfig resolver c).isOk

namespace Table

/-- The routes of a table are those that it is made of. -/
theorem routes_of_ofRoutes {routes : List Route} {t : Table} (h : ofRoutes routes = .ok t) :
    t.routes = routes := by
  rw [ofRoutes] at h
  split at h
  · cases h
  · cases h
    rfl

/-- The routes of the table of a configuration are those of its endpoints, in order. -/
theorem mapM_of_ofConfig {resolver : Resolver} {c : GatewayConfig} {t : Table}
    (h : ofConfig resolver c = .ok t) :
    c.endpoints.mapM (Route.compile resolver) = .ok t.routes := by
  obtain ⟨routes, hm, h⟩ := Document.ok_of_bind h
  rw [hm, routes_of_ofRoutes (Document.ok_of_mapError h)]

end Table

/-! ## Tables of configurations -/

namespace Gateway

variable {resolver : Resolver} {c : GatewayConfig} {g : Gateway} {path : Option String}

/-- A gateway that came into being with a configuration, or with the file of one. -/
inductive Started (resolver : Resolver) : GatewayConfig → Gateway → Prop
  | ofConfig {c : GatewayConfig} {g : Gateway} :
    Gateway.ofConfig resolver c = .ok g → Started resolver c g
  | ofFile {c : GatewayConfig} {g : Gateway} {env : Environment} {files : Files} {path : String} :
    GatewayConfig.load env files path = .ok c → Gateway.ofFile resolver env files path = .ok g →
      Started resolver c g

/-- A gateway whose table is the one of a configuration. -/
structure Serves (resolver : Resolver) (path : Option String) (c : GatewayConfig) (g : Gateway) :
    Prop where
  resolver_eq : g.resolver = resolver
  path_eq : g.path = path
  table_eq : Table.ofConfig resolver c = .ok g.table

theorem serves_of_ofConfig (h : ofConfig resolver c = .ok g) : Serves resolver none c g := by
  rcases ht : Table.ofConfig resolver c with e | t
  · simp [ofConfig, ht, Except.map] at h
  · obtain rfl : _ = g := by simpa [ofConfig, ht, Except.map] using h
    exact ⟨rfl, rfl, ht⟩

/-- A new gateway has the table of its configuration. -/
theorem Started.serves (h : Started resolver c g) : Serves resolver g.path c g := by
  cases h with
  | ofConfig h =>
    have hs := serves_of_ofConfig h
    rwa [hs.path_eq]
  | @ofFile env files path hc h =>
    rcases hg : Gateway.ofConfig resolver c with e | g'
    · simp [Gateway.ofFile, hc, hg, bind, Except.bind] at h
    · obtain rfl : { g' with path := some path } = g := by
        simpa [Gateway.ofFile, hc, hg, bind, Except.bind, pure, Except.pure] using h
      have hs := serves_of_ofConfig hg
      exact ⟨hs.resolver_eq, rfl, hs.table_eq⟩

/-- There is a gateway of each configuration that has a table. -/
theorem Serves.fresh (h : Serves resolver path c g) :
    ∃ fresh, ofConfig resolver c = .ok fresh ∧ fresh.table = g.table :=
  ⟨⟨resolver, g.table, none, .zero⟩, by rw [ofConfig, h.table_eq]; rfl, rfl⟩

/-- A configuration is taken over exactly if it loads. -/
theorem Serves.apply (h : Serves resolver path c g) (config : GatewayConfig) :
    Serves resolver path (if config.loads resolver then config else c) (g.apply config).2 := by
  rw [Gateway.apply, h.resolver_eq, GatewayConfig.loads]
  rcases ht : Table.ofConfig resolver config with e | t
  · exact ⟨h.resolver_eq, h.path_eq, h.table_eq⟩
  · exact ⟨rfl, h.path_eq, ht⟩

end Gateway

/-! ## Sessions -/

namespace Server

/-- The configuration that an action brings, if it brings one. -/
def Action.config? (path : Option String) : Action → Option GatewayConfig
  | .request .. => none
  | .apply config => some config
  | .reload env files => path.bind fun p => (GatewayConfig.load env files p).toOption

/-- The last configuration of a session that loaded, and the first one of all if none did. -/
def lastLoaded (resolver : Resolver) (path : Option String) (first : GatewayConfig)
    (actions : List Action) : GatewayConfig :=
  (((actions.filterMap (·.config? path)).filter (·.loads resolver)).getLast?).getD first

variable {resolver : Resolver} {c : GatewayConfig} {g : Gateway} {path : Option String}

/-- What loaded later is what counts. -/
theorem lastLoaded_cons (resolver : Resolver) (path : Option String) (c : GatewayConfig)
    (a : Action) (actions : List Action) : lastLoaded resolver path c (a :: actions) =
      lastLoaded resolver path (lastLoaded resolver path c [a]) actions := by
  have split : a :: actions = [a] ++ actions := rfl
  rw [split, lastLoaded, List.filterMap_append, List.filter_append, List.getLast?_append]
  simp only [lastLoaded]
  cases (List.filter _ (List.filterMap _ actions)).getLast? <;> rfl

/-- An action that brings no configuration leaves the last one. -/
theorem lastLoaded_of_none {a : Action} (h : a.config? path = none) :
    lastLoaded resolver path c [a] = c := by
  simp [lastLoaded, h]

/-- A configuration that is brought is the last one if it loads. -/
theorem lastLoaded_of_some {a : Action} {config : GatewayConfig}
    (h : a.config? path = some config) :
    lastLoaded resolver path c [a] = if config.loads resolver then config else c := by
  by_cases hl : config.loads resolver <;> simp [lastLoaded, h, hl]

/-- An action leaves a gateway with the table of the configuration that it brings, if that one
    loads, and else with the table that it had. -/
theorem serves_step (h : g.Serves resolver path c) (a : Action) :
    (step g a).Serves resolver path (lastLoaded resolver path c [a]) := by
  cases a with
  | request now r reply =>
    -- A request is counted, and counting changes neither the table nor where it comes from.
    rw [lastLoaded_of_none rfl]
    exact ⟨h.resolver_eq, h.path_eq, h.table_eq⟩
  | apply config =>
    rw [lastLoaded_of_some rfl]
    exact h.apply config
  | reload env files =>
    rw [step, Gateway.reload, h.path_eq]
    cases path with
    | none =>
      rw [lastLoaded_of_none rfl]
      exact h
    | some p =>
      rcases hc : GatewayConfig.load env files p with e | config
      · -- The file holds no configuration, so there is nothing to take over.
        rw [lastLoaded_of_none (by simp [Action.config?, hc, Except.toOption])]
        simp only [hc]
        exact h
      · have hb : (Action.reload env files).config? (some p) = some config := by
          simp [Action.config?, hc, Except.toOption]
        rw [lastLoaded_of_some hb]
        simp only [hc]
        exact h.apply config

/-- A session leaves a gateway with the table of the last configuration that loaded. -/
theorem serves_run (h : g.Serves resolver path c) (actions : List Action) :
    (run g actions).Serves resolver path (lastLoaded resolver path c actions) := by
  induction actions generalizing g c with
  | nil => exact h
  | cons a actions ih =>
    rw [lastLoaded_cons]
    exact ih (serves_step h a)

/-- Gateways with the same table give the same answers, except for those that tell what has
    been counted. -/
theorem answer_eq_of_table {g h : Gateway} (ht : g.table = h.table) {r : Request}
    (hr : Target.resolve r.method r.path ≠ .metrics) (now : Nat) :
    answer g now r = answer h now r := by
  have hd : g.directory = h.directory := congrArg Directory.ofTable ht
  have hi (name : String) : invoke g now name r.body = invoke h now name r.body := by
    rw [invoke, invoke, ht]
  -- All other targets look at the table only, some of them through the directory.
  cases hk : Target.resolve r.method r.path with
  | metrics => exact absurd hk hr
  | invoke segment => simp only [answer, hk, hi]
  | _ => simp only [answer, hk, hd]

/-- An action that is refused. -/
def Refuses (g : Gateway) : Action → Prop
  | .request .. => False
  | .apply config => ∃ e, (g.apply config).1 = .error e
  | .reload env files => ∃ e, (g.reload env files).1 = .error e

/-- What is refused leaves the table as it was. -/
theorem table_of_apply {config : GatewayConfig} {e : GatewayError}
    (h : (g.apply config).1 = .error e) : (g.apply config).2.table = g.table := by
  rw [Gateway.apply] at h ⊢
  split at h
  · cases h
  · rfl

/-- An action that is refused leaves the table as it was. -/
theorem table_of_refuses {a : Action} (h : Refuses g a) : (step g a).table = g.table := by
  cases a with
  | request => cases h
  | apply config =>
    obtain ⟨e, h⟩ := h
    exact table_of_apply h
  | reload env files =>
    obtain ⟨e, h⟩ := h
    rw [step]
    rw [Gateway.reload] at h ⊢
    split at h
    · rfl
    · split at h
      · rfl
      · exact table_of_apply h

/-- Reloading leaves no trace. After any session a gateway answers like a new one with the last
    configuration that loaded, except for what it has counted. It serves the endpoints of that
    configuration, in order, and no others, and what is refused next changes nothing. -/
theorem run_as_fresh (h : Gateway.Started resolver c g) (actions : List Action) :
    let last := lastLoaded resolver g.path c actions
    ∃ fresh, Gateway.ofConfig resolver last = .ok fresh ∧
      (∀ now request replies, Target.resolve request.method request.path ≠ .metrics →
        (respond (run g actions) now request replies).1 = (respond fresh now request replies).1 ∧
        (answer (run g actions) now request).requests replies =
          (answer fresh now request).requests replies) ∧
      last.endpoints.mapM (Route.compile resolver) = .ok (run g actions).table.routes ∧
      ∀ a, Refuses (run g actions) a → (step (run g actions) a).table = (run g actions).table := by
  intro last
  have hs := serves_run h.serves actions
  obtain ⟨fresh, hf, ht⟩ := hs.fresh
  refine ⟨fresh, hf, fun now request replies hr => ?_, Table.mapM_of_ofConfig hs.table_eq,
    fun a ha => table_of_refuses ha⟩
  have ha := answer_eq_of_table ht.symm hr now
  rw [respond, respond, ha]
  exact ⟨rfl, rfl⟩

/-- A gateway with one endpoint goes on with it when two endpoints of one name are refused. -/
theorem run_as_fresh_after_duplicates :
    let resolver := Resolver.empty.register "p" fun _ => .ok (.unsupporting "p" fun _ => true)
    let endpoint (name : String) : EndpointConfig := ⟨name, .chat, ⟨"m", "p", ⟨none, none, []⟩⟩⟩
    let c : GatewayConfig := ⟨[endpoint "a"]⟩
    let twice : GatewayConfig := ⟨[endpoint "b", endpoint "b"]⟩
    ∃ g, Gateway.Started resolver c g ∧ Refuses g (.apply twice) ∧
      ∃ fresh, Gateway.ofConfig resolver c = .ok fresh ∧
        ∀ now request replies, Target.resolve request.method request.path ≠ .metrics →
          (respond (run g [.apply twice]) now request replies).1 =
            (respond fresh now request replies).1 := by
  intro resolver endpoint c twice
  obtain ⟨g, hg⟩ : ∃ g, Gateway.ofConfig resolver c = .ok g := ⟨_, rfl⟩
  have hs : Gateway.Started resolver c g := .ofConfig hg
  have hr : Refuses g (.apply twice) := by
    cases hg
    exact ⟨_, rfl⟩
  obtain ⟨fresh, hf, ha, -⟩ := run_as_fresh hs [.apply twice]
  refine ⟨g, hs, hr, fresh, ?_, fun now request replies hr => (ha now request replies hr).1⟩
  cases hg
  exact hf

end Server

end InferenceGateway
