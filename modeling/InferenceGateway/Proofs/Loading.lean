import InferenceGateway.Proofs.ObjectReading
import InferenceGateway.Proofs.Reloading

/-!
# Loading a table

When a table takes over a configuration, and what is told when it does not. Endpoints are compiled
one after the other, and only then are their names compared. So the first endpoint that is not
sound is told, wherever a name is repeated; and a name that is repeated is told only if all
endpoints are sound.

* `Route.compile_eq_ok_iff`, `Route.compile_eq_error_iff`: the endpoints that compile, and the
  faults of the others (`Unsound`).
* `mapM_eq_error_iff`, `firstRepeated?_eq_some_iff`: the first endpoint and the first name that
  stop a scan.
* `Table.Loads`: the two ways in which loading goes (`Table.loads`). A gateway that takes over a
  configuration loads it (`Table.apply_eq_load`).
* `Table.load_first_fault`: what becomes of a table that loads a configuration.
-/

namespace InferenceGateway

open Document

/-! ## Sound endpoints -/

section Endpoint

variable {resolver : Resolver} {e : EndpointConfig}

/-- A provider that can answer for an endpoint: there is a constructor of its identifier, which
    makes it for the model, and it supports the type. -/
def Provides (resolver : Resolver) (e : EndpointConfig) (provider : Provider) : Prop :=
  ∃ make, resolver.constructors.lookup e.model.provider = some make ∧
    make e.model = .ok provider ∧ provider.supports e.type = true

/-- An endpoint with a provider that can answer for it. -/
def Sound (resolver : Resolver) (e : EndpointConfig) : Prop :=
  ∃ provider, Provides resolver e provider

/-- What is wrong with an endpoint that is not sound. -/
inductive Unsound (resolver : Resolver) (e : EndpointConfig) : GatewayError → Prop
  /-- There is no constructor of its identifier. -/
  | unknown : resolver.constructors.lookup e.model.provider = none →
    Unsound resolver e (.config (.unknownProvider e.model.provider))
  /-- No provider can be made for its model. -/
  | unmade {make : ProviderConstructor} {fault : GatewayError} :
    resolver.constructors.lookup e.model.provider = some make → make e.model = .error fault →
      Unsound resolver e fault
  /-- Its provider does not support its type. -/
  | unsupported {make : ProviderConstructor} {provider : Provider} :
    resolver.constructors.lookup e.model.provider = some make → make e.model = .ok provider →
      provider.supports e.type = false →
        Unsound resolver e (.config (.registration e.name (.unsupportedType provider.name e.type)))

/-- The route of an endpoint with a provider. -/
def EndpointConfig.route (e : EndpointConfig) (provider : Provider) : Route :=
  ⟨e.name, e.type, e.model, ⟨e.type, provider⟩⟩

/-- An endpoint has a provider that can answer for it, or a fault. -/
theorem provides_or_unsound (resolver : Resolver) (e : EndpointConfig) :
    (∃ provider, Provides resolver e provider) ∨ ∃ fault, Unsound resolver e fault := by
  rcases hl : resolver.constructors.lookup e.model.provider with _ | make
  · exact .inr ⟨_, .unknown hl⟩
  rcases hm : make e.model with fault | provider
  · exact .inr ⟨fault, .unmade hl hm⟩
  cases hs : provider.supports e.type with
  | true => exact .inl ⟨provider, make, hl, hm, hs⟩
  | false => exact .inr ⟨_, .unsupported hl hm hs⟩

/-- The route of an endpoint has the provider that can answer for it. -/
theorem Provides.compile_eq {provider : Provider} (h : Provides resolver e provider) :
    Route.compile resolver e = .ok (e.route provider) := by
  obtain ⟨make, hl, hm, hs⟩ := h
  simp only [Route.compile, Resolver.resolve, hl, hm, Handler.build, hs, if_true, bind, Except.bind]
  rfl

/-- Of an endpoint with a fault the fault is told. -/
theorem Unsound.compile_eq {fault : GatewayError} (h : Unsound resolver e fault) :
    Route.compile resolver e = .error fault := by
  cases h with
  | unknown hl =>
    simp only [Route.compile, Resolver.resolve, hl]
    rfl
  | unmade hl hm =>
    simp only [Route.compile, Resolver.resolve, hl, hm]
    rfl
  | unsupported hl hm hs =>
    simp only [Route.compile, Resolver.resolve, hl, hm, Handler.build, hs, Bool.false_eq_true,
      if_false, bind, Except.bind]
    rfl

/-- A sound endpoint has no fault. -/
theorem Unsound.not_sound {fault : GatewayError} (h : Unsound resolver e fault) :
    ¬Sound resolver e := by
  rintro ⟨provider, hp⟩
  cases hp.compile_eq.symm.trans h.compile_eq

namespace Route

/-- The endpoints that compile, and their routes. -/
theorem compile_eq_ok_iff {route : Route} : compile resolver e = .ok route ↔
    ∃ provider, Provides resolver e provider ∧ route = e.route provider := by
  constructor
  · intro h
    rcases provides_or_unsound resolver e with ⟨provider, hp⟩ | ⟨fault, hf⟩
    · exact ⟨provider, hp, Except.ok.inj (h.symm.trans hp.compile_eq)⟩
    · cases h.symm.trans hf.compile_eq
  · rintro ⟨provider, hp, rfl⟩
    exact hp.compile_eq

/-- The endpoints that do not compile, and what is told of them. -/
theorem compile_eq_error_iff {fault : GatewayError} :
    compile resolver e = .error fault ↔ Unsound resolver e fault := by
  refine ⟨fun h => ?_, Unsound.compile_eq⟩
  rcases provides_or_unsound resolver e with ⟨provider, hp⟩ | ⟨fault', hf⟩
  · cases h.symm.trans hp.compile_eq
  · exact Except.error.inj (hf.compile_eq.symm.trans h) ▸ hf

theorem sound_iff : Sound resolver e ↔ ∃ route, compile resolver e = .ok route := by
  simp only [compile_eq_ok_iff]
  exact ⟨fun ⟨provider, hp⟩ => ⟨_, provider, hp, rfl⟩, fun ⟨_, provider, hp, _⟩ => ⟨provider, hp⟩⟩

end Route

end Endpoint

/-! ## Scans that stop -/

/-- Results are not all there exactly if one of the arguments has none, after others that have. -/
theorem mapM_eq_error_iff {ε α β : Type} {f : α → Except ε β} {xs : List α} {error : ε} :
    xs.mapM f = .error error ↔ ∃ before x after, xs = before ++ x :: after ∧
      (∀ b ∈ before, ∃ y, f b = .ok y) ∧ f x = .error error := by
  induction xs with
  | nil => simp [pure, Except.pure]
  | cons x xs ih =>
    rw [List.mapM_cons]
    rcases hx : f x with e | y
    · constructor
      · rintro ⟨⟩
        exact ⟨[], x, xs, rfl, nofun, hx⟩
      · rintro ⟨before, x', after, hxs, hb, hx'⟩
        rcases List.cons_eq_append_iff.1 hxs with ⟨rfl, hs⟩ | ⟨rest, rfl, -⟩
        · obtain ⟨rfl, -⟩ := List.cons.inj hs
          rw [← hx, hx']
          rfl
        · obtain ⟨y, hy⟩ := hb x List.mem_cons_self
          rw [hx] at hy
          cases hy
    · have later : (xs.mapM f >>= fun ys => pure (y :: ys)) = .error error ↔
          xs.mapM f = .error error := by
        rcases xs.mapM f with e | ys
        · exact Iff.rfl
        · exact ⟨nofun, nofun⟩
      show (xs.mapM f >>= fun ys => pure (y :: ys)) = .error error ↔ _
      rw [later, ih]
      constructor
      · rintro ⟨before, x', after, rfl, hb, hx'⟩
        exact ⟨x :: before, x', after, rfl, List.forall_mem_cons.2 ⟨⟨y, hx⟩, hb⟩, hx'⟩
      · rintro ⟨before, x', after, hxs, hb, hx'⟩
        rcases List.cons_eq_append_iff.1 hxs with ⟨rfl, hs⟩ | ⟨rest, rfl, rfl⟩
        · obtain ⟨rfl, -⟩ := List.cons.inj hs
          rw [hx] at hx'
          cases hx'
        · exact ⟨rest, x', after, rfl, (List.forall_mem_cons.1 hb).2, hx'⟩

/-- The first name that repeats one before it, or one of those seen. -/
theorem firstRepeated?_eq_some_iff {seen names : List String} {name : String} :
    firstRepeated? seen names = some name ↔ ∃ before after, names = before ++ name :: after ∧
      before.Nodup ∧ (∀ n ∈ before, n ∉ seen) ∧ (name ∈ seen ∨ name ∈ before) := by
  induction names generalizing seen with
  | nil => simp [firstRepeated?]
  | cons n names ih =>
    rw [firstRepeated?]
    split
    · rename_i hn
      constructor
      · rintro ⟨⟩
        exact ⟨[], names, rfl, List.nodup_nil, List.forall_mem_nil _, .inl hn⟩
      · rintro ⟨before, after, hs, -, fresh, -⟩
        rcases List.cons_eq_append_iff.1 hs with ⟨rfl, hs⟩ | ⟨rest, rfl, -⟩
        · rw [(List.cons.inj hs).1]
        · exact absurd hn (fresh n List.mem_cons_self)
    · rename_i hn
      rw [ih]
      constructor
      · rintro ⟨before, after, rfl, nodup, fresh, again⟩
        have unseen : n ∉ before := fun h => fresh n h List.mem_cons_self
        refine ⟨n :: before, after, rfl, List.nodup_cons.2 ⟨unseen, nodup⟩,
          List.forall_mem_cons.2 ⟨hn, fun m hm hs => fresh m hm (List.mem_cons_of_mem _ hs)⟩, ?_⟩
        simp only [List.mem_cons] at again ⊢
        tauto
      · rintro ⟨before, after, hs, nodup, fresh, again⟩
        rcases List.cons_eq_append_iff.1 hs with ⟨rfl, hs⟩ | ⟨rest, rfl, rfl⟩
        · -- The first name is none of those seen, so it repeats nothing.
          obtain ⟨rfl, -⟩ := List.cons.inj hs
          simp [hn] at again
        · obtain ⟨unseen, nodup⟩ := List.nodup_cons.1 nodup
          refine ⟨rest, after, rfl, nodup, fun m hm hs => ?_, ?_⟩
          · rcases List.mem_cons.1 hs with rfl | hs
            · exact unseen hm
            · exact fresh m (List.mem_cons_of_mem _ hm) hs
          · simp only [List.mem_cons] at again ⊢
            tauto

/-- The first of some names that repeats one before it. -/
def FirstRepeated (names : List String) (name : String) : Prop :=
  ∃ before after, names = before ++ name :: after ∧ before.Nodup ∧ name ∈ before

theorem firstRepeated_iff {names : List String} {name : String} :
    FirstRepeated names name ↔ firstRepeated? [] names = some name := by
  simp [firstRepeated?_eq_some_iff, FirstRepeated]

theorem FirstRepeated.not_nodup {names : List String} {name : String}
    (h : FirstRepeated names name) : ¬names.Nodup := by
  obtain ⟨before, after, rfl, -, hm⟩ := h
  intro nodup
  exact (List.nodup_append.1 nodup).2.2 name hm name List.mem_cons_self rfl

/-! ## Names of a configuration -/

/-- The endpoints of a configuration without a fault have names that differ, from one another and
    from those seen. -/
theorem GatewayConfig.nodup_of_firstFault? {seen : List String} {endpoints : List EndpointConfig}
    (h : firstFault? seen endpoints = none) :
    (endpoints.map EndpointConfig.name).Nodup ∧ ∀ e ∈ endpoints, e.name ∉ seen := by
  induction endpoints generalizing seen with
  | nil => simp
  | cons e rest ih =>
    rw [firstFault?] at h
    split at h
    · cases h
    split at h
    · cases h
    rename_i unseen
    split at h
    · cases h
    split at h
    · cases h
    obtain ⟨nodup, fresh⟩ := ih h
    refine ⟨List.nodup_cons.2 ⟨fun hm => ?_, nodup⟩, List.forall_mem_cons.2 ⟨by simpa using unseen,
      fun e' he' hs => fresh e' he' (List.mem_cons_of_mem _ hs)⟩⟩
    obtain ⟨e', he', hn⟩ := List.mem_map.1 hm
    exact fresh e' he' (hn ▸ List.mem_cons_self)

/-- The endpoints of a configuration that is read of a text have names that differ. -/
theorem GatewayConfig.nodup_of_parse {env : Environment} {text : String} {config : GatewayConfig}
    (h : parse env text = .ok config) : (config.endpoints.map EndpointConfig.name).Nodup := by
  rw [parse] at h
  split at h
  · obtain ⟨document, -, h⟩ := ok_of_bind h
    obtain ⟨found, -, h⟩ := ok_of_bind h
    split at h
    · cases h
    · rename_i hf
      cases h
      exact (nodup_of_firstFault? hf).1
  · cases h

/-! ## Loading -/

namespace Table

/-- Routes are refused for the first name that is repeated, and taken over if there is none. -/
theorem ofRoutes_cases (routes : List Route) :
    (∃ t, (routes.map Route.name).Nodup ∧ ofRoutes routes = .ok t ∧ t.routes = routes) ∨
      ∃ name, FirstRepeated (routes.map Route.name) name ∧
        ofRoutes routes = .error (.duplicateEndpoint name) := by
  rcases ht : ofRoutes routes with fault | t
  · rw [ofRoutes] at ht
    split at ht
    · rename_i name hr
      cases ht
      exact .inr ⟨name, firstRepeated_iff.2 hr, rfl⟩
    · cases ht
  · have same := routes_of_ofRoutes ht
    exact .inl ⟨t, same ▸ t.nodup, rfl, same⟩

/-- The first fault of a row of endpoints: that of the first one that is not sound, or if all are
    sound the first name that repeats one before it. -/
inductive FirstFault (resolver : Resolver) (endpoints : List EndpointConfig) : GatewayError → Prop
  | unsound {before after : List EndpointConfig} {e : EndpointConfig} {fault : GatewayError} :
    endpoints = before ++ e :: after → (∀ b ∈ before, Sound resolver b) → Unsound resolver e fault →
      FirstFault resolver endpoints fault
  | repeated {name : String} : (∀ e ∈ endpoints, Sound resolver e) →
    FirstRepeated (endpoints.map EndpointConfig.name) name →
      FirstFault resolver endpoints (.config (.duplicateEndpoint name))

/-- A route as an endpoint with its provider asks for it. -/
structure IsRouteOf (resolver : Resolver) (e : EndpointConfig) (r : Route) : Prop where
  name_eq : r.name = e.name
  type_eq : r.type = e.type
  model_eq : r.model = e.model
  handler_type : r.handler.type = e.type
  provides : Provides resolver e r.handler.provider

/-- A table that loads a configuration becomes its table, or stays as it is and tells the first
    fault. -/
inductive Loads (t : Table) (resolver : Resolver) (endpoints : List EndpointConfig) :
    Except GatewayError Unit × Table → Prop
  | taken {new : Table} : (∀ e ∈ endpoints, Sound resolver e) →
    (endpoints.map EndpointConfig.name).Nodup →
      List.Forall₂ (IsRouteOf resolver) endpoints new.routes →
        Loads t resolver endpoints (.ok (), new)
  | refused {fault : GatewayError} : FirstFault resolver endpoints fault →
    Loads t resolver endpoints (.error fault, t)

variable {resolver : Resolver} {endpoints : List EndpointConfig}

/-- Routes that are compiled are those of sound endpoints, one for one. -/
theorem isRouteOf_of_mapM {routes : List Route}
    (h : endpoints.mapM (Route.compile resolver) = .ok routes) :
    List.Forall₂ (IsRouteOf resolver) endpoints routes :=
  (forall₂_of_mapM h).imp fun e r hr => by
    obtain ⟨provider, hp, rfl⟩ := Route.compile_eq_ok_iff.1 hr
    exact ⟨rfl, rfl, rfl, rfl, hp⟩

theorem names_of_isRouteOf {routes : List Route}
    (h : List.Forall₂ (IsRouteOf resolver) endpoints routes) :
    routes.map Route.name = endpoints.map EndpointConfig.name := by
  induction h with
  | nil => rfl
  | cons hr _ ih => rw [List.map_cons, List.map_cons, hr.name_eq, ih]

theorem sound_of_isRouteOf {routes : List Route}
    (h : List.Forall₂ (IsRouteOf resolver) endpoints routes) : ∀ e ∈ endpoints, Sound resolver e :=
  fun e he => by
    obtain ⟨r, hr⟩ := exists_of_forall₂ h.flip e he
    exact ⟨_, hr.provides⟩

/-- Loading goes one of two ways. -/
theorem loads (t : Table) (resolver : Resolver) (config : GatewayConfig) :
    Loads t resolver config.endpoints (t.load resolver config) := by
  rw [load]
  rcases hm : config.endpoints.mapM (Route.compile resolver) with fault | routes
  · obtain ⟨before, e, after, hs, hb, he⟩ := mapM_eq_error_iff.1 hm
    exact .refused (.unsound hs (fun b h => Route.sound_iff.2 (hb b h))
      (Route.compile_eq_error_iff.1 he))
  · have all := isRouteOf_of_mapM hm
    have names := names_of_isRouteOf all
    dsimp only
    rw [replaceAll]
    rcases ofRoutes_cases routes with ⟨new, nodup, ho, same⟩ | ⟨name, again, ho⟩ <;> rw [ho]
    · exact .taken (sound_of_isRouteOf all) (names ▸ nodup) (same ▸ all)
    · exact .refused (.repeated (sound_of_isRouteOf all) (names ▸ again))

/-- Endpoints with a first fault are not all sound, or repeat a name. -/
theorem FirstFault.not_taken {fault : GatewayError} (h : FirstFault resolver endpoints fault) :
    ¬((∀ e ∈ endpoints, Sound resolver e) ∧ (endpoints.map EndpointConfig.name).Nodup) := by
  rintro ⟨sound, nodup⟩
  cases h with
  | unsound hs _ hu => exact hu.not_sound (sound _ (by simp [hs]))
  | repeated _ again => exact again.not_nodup nodup

/-- There is one first fault. -/
theorem FirstFault.unique {fault fault' : GatewayError} (h : FirstFault resolver endpoints fault)
    (h' : FirstFault resolver endpoints fault') : fault = fault' := by
  cases h with
  | unsound hs hb hu =>
    have stops := mapM_eq_error_iff.2 ⟨_, _, _, hs, fun b h => Route.sound_iff.1 (hb b h),
      Route.compile_eq_error_iff.2 hu⟩
    cases h' with
    | unsound hs' hb' hu' =>
      have stops' := mapM_eq_error_iff.2 ⟨_, _, _, hs', fun b h => Route.sound_iff.1 (hb' b h),
        Route.compile_eq_error_iff.2 hu'⟩
      exact Except.error.inj (stops.symm.trans stops')
    | repeated sound => exact absurd (sound _ (by simp [hs])) hu.not_sound
  | repeated sound again =>
    cases h' with
    | unsound hs' hb' hu' => exact absurd (sound _ (by simp [hs'])) hu'.not_sound
    | repeated _ again' =>
      rw [Option.some.inj ((firstRepeated_iff.1 again).symm.trans (firstRepeated_iff.1 again'))]

namespace Loads

variable {t : Table} {result : Except GatewayError Unit × Table}

/-- What is taken over. -/
theorem ok_iff (h : Loads t resolver endpoints result) : result.1 = .ok () ↔
    (∀ e ∈ endpoints, Sound resolver e) ∧ (endpoints.map EndpointConfig.name).Nodup := by
  cases h with
  | taken sound nodup => exact iff_of_true rfl ⟨sound, nodup⟩
  | refused first => exact iff_of_false nofun first.not_taken

/-- What is refused, and what is told of it. -/
theorem error_iff (h : Loads t resolver endpoints result) {fault : GatewayError} :
    result.1 = .error fault ↔ FirstFault resolver endpoints fault := by
  cases h with
  | taken sound nodup => exact iff_of_false nofun fun first => first.not_taken ⟨sound, nodup⟩
  | refused first => exact ⟨fun h => Except.error.inj h ▸ first, fun h => by rw [first.unique h]⟩

theorem routes_of_ok (h : Loads t resolver endpoints result) (ok : result.1 = .ok ()) :
    List.Forall₂ (IsRouteOf resolver) endpoints result.2.routes := by
  cases h with
  | taken _ _ routes => exact routes
  | refused => cases ok

theorem table_of_error (h : Loads t resolver endpoints result) {fault : GatewayError}
    (error : result.1 = .error fault) : result.2 = t := by
  cases h with
  | taken => cases error
  | refused => rfl

end Loads

/-- A table loads a configuration of which it is the table, or stays as it is. -/
theorem load_eq (t : Table) (resolver : Resolver) (config : GatewayConfig) :
    t.load resolver config = match ofConfig resolver config with
      | .ok new => (.ok (), new)
      | .error e => (.error e, t) := by
  rw [load, ofConfig]
  rcases config.endpoints.mapM (Route.compile resolver) with e | routes
  · rfl
  · show t.replaceAll routes = match (ofRoutes routes).mapError GatewayError.config with
      | .ok new => (.ok (), new)
      | .error e => (.error e, t)
    rw [replaceAll]
    cases ofRoutes routes <;> rfl

/-- A gateway that takes over a configuration loads its table. -/
theorem apply_eq_load (g : Gateway) (config : GatewayConfig) :
    (g.apply config).1 = (g.table.load g.resolver config).1 ∧
      (g.apply config).2.table = (g.table.load g.resolver config).2 := by
  rw [Gateway.apply, load_eq]
  cases ofConfig g.resolver config <;> exact ⟨rfl, rfl⟩

/-- A configuration is loaded exactly if each of its endpoints is sound and their names differ.
    Then there is one route for each endpoint, in their order. Else the first fault is told and the
    table stays as it is: that of the first endpoint that is not sound, and a repeated name only if
    all of them are sound. In a configuration that is read of a text no name is repeated. -/
theorem load_first_fault (t : Table) (resolver : Resolver) (config : GatewayConfig) :
    let result := t.load resolver config
    let names := config.endpoints.map EndpointConfig.name
    (result.1 = .ok () ↔ (∀ e ∈ config.endpoints, Sound resolver e) ∧ names.Nodup) ∧
      (result.1 = .ok () →
        List.Forall₂ (IsRouteOf resolver) config.endpoints result.2.routes) ∧
      (∀ fault, result.1 = .error fault ↔ FirstFault resolver config.endpoints fault) ∧
      (∀ fault, result.1 = .error fault → result.2 = t) ∧
      ∀ env text, GatewayConfig.parse env text = .ok config →
        names.Nodup ∧ (result.1 = .ok () ↔ ∀ e ∈ config.endpoints, Sound resolver e) := by
  intro result names
  have ways : Loads t resolver config.endpoints result := loads t resolver config
  refine ⟨ways.ok_iff, ways.routes_of_ok, fun _ => ways.error_iff, fun _ => ways.table_of_error,
    fun env text h => ?_⟩
  have nodup : names.Nodup := GatewayConfig.nodup_of_parse h
  exact ⟨nodup, ways.ok_iff.trans (and_iff_left nodup)⟩

/-- Of two endpoints of one name and a third with a provider that there is not, it is the third
    that is told of. -/
theorem load_first_fault_of_unknown :
    let resolver := Resolver.empty.register "p" fun _ => .ok (.unsupporting "p" fun _ => true)
    let endpoint (name provider : String) : EndpointConfig :=
      ⟨name, .chat, ⟨"m", provider, ⟨none, none, []⟩⟩⟩
    let config : GatewayConfig := ⟨[endpoint "a" "p", endpoint "a" "p", endpoint "b" "q"]⟩
    (empty.load resolver config).1 = .error (.config (.unknownProvider "q")) ∧
      (empty.load resolver config).2 = empty := by
  intro resolver endpoint config
  obtain ⟨-, -, told, same, -⟩ := load_first_fault empty resolver config
  have sound (name : String) : Sound resolver (endpoint name "p") := ⟨_, _, rfl, rfl, rfl⟩
  have unknown : Unsound resolver (endpoint "b" "q") (.config (.unknownProvider "q")) :=
    .unknown (by decide +kernel)
  have third : config.endpoints = [endpoint "a" "p", endpoint "a" "p"] ++ endpoint "b" "q" :: [] :=
    rfl
  have error := (told _).2 (.unsound third (by simp [sound]) unknown)
  exact ⟨error, same _ error⟩

end Table

end InferenceGateway
