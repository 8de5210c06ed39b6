import InferenceGateway.Proofs.Reachability
import InferenceGateway.Proofs.RespelledRecords

/-!
# Spellings of a configuration

Some keys of a configuration have older names: the list of its endpoints, the type of an endpoint,
and the key and the address in the settings of a provider. A document may use any of the names, and
another one at each place. This makes no difference to the configuration, and none of the names is
taken for a setting that only the provider knows.

* `GatewayConfig.keys`: the names of each key, and where the documents may differ.
* `GatewayConfig.read_respelled`: respelled documents are read as one configuration.
* `EndpointConfig.SaidBy`: what an endpoint has of a document, under any of the names.
* `GatewayConfig.same_under_any_spelling`: all of this for a document before it is filled.
-/

namespace InferenceGateway

open Document

/-! ## Keys with several names -/

/-- The names of the key of a provider. -/
def ProviderSettings.keyNames : List String := ["api_key", "openai_api_key", "anthropic_api_key"]

/-- The names of the address of a provider. -/
def ProviderSettings.baseNames : List String := ["api_base", "openai_api_base"]

/-- The names of the type of an endpoint. -/
def EndpointConfig.typeNames : List String := ["endpoint_type", "route_type"]

/-- In provider settings two keys have several names. -/
def ProviderSettings.keys : List Key := [⟨keyNames, Eq⟩, ⟨baseNames, Eq⟩]

/-- In a model the settings may be respelled. -/
def ModelConfig.keys : List Key := [⟨["config"], RecordRespelled ProviderSettings.keys⟩]

/-- In an endpoint the type has several names, and the model may be respelled. -/
def EndpointConfig.keys : List Key :=
  [⟨typeNames, Eq⟩, ⟨["model"], RecordRespelled ModelConfig.keys⟩]

/-- In a configuration the list of the endpoints has several names, and each endpoint may be
    respelled. -/
def GatewayConfig.keys : List Key :=
  [⟨["endpoints", "routes"], ListRespelled (RecordRespelled EndpointConfig.keys)⟩]

variable {n n' : Node}

/-! ## Reading respelled documents -/

namespace ProviderSettings

theorem unambiguous_fields : Unambiguous fields.fields := by decide

theorem areFields_keys : AreFields keys fields.fields := by decide

theorem read_respelled (h : RecordRespelled keys n n') : read .yaml n = read .yaml n' := by
  have key : (Fields.optionalUnder "api_key" ["openai_api_key", "anthropic_api_key"]
      Reader.text).ReadsAlike keys := .single (by simp [keys]) _ _ _
  have base : (Fields.optionalUnder "api_base" ["openai_api_base"] Reader.text).ReadsAlike keys :=
    .single (by simp [keys]) _ _ _
  exact Fields.keeping_respelled ((key.map _).seq base) unambiguous_fields areFields_keys _ h

end ProviderSettings

namespace ModelConfig

theorem unambiguous_fields : Unambiguous fields.fields := by decide

theorem read_respelled (h : RecordRespelled keys n n') : read .yaml n = read .yaml n' := by
  have name : (Fields.required "name" Reader.text).ReadsAlike keys := .single (by simp [keys]) _ _ _
  have provider : (Fields.required "provider" Reader.text).ReadsAlike keys :=
    .single (by simp [keys]) _ _ _
  have settings : (Fields.defaulting "config" ProviderSettings.read .empty).ReadsAlike keys :=
    .single (by simpa [keys] using fun _ _ => ProviderSettings.read_respelled) _ _ _
  exact Fields.closed_respelled (((name.map _).seq provider).seq settings) unambiguous_fields
    (by decide) _ h

end ModelConfig

namespace EndpointConfig

theorem unambiguous_fields : Unambiguous fields.fields := by decide

theorem read_respelled (h : RecordRespelled keys n n') : read .yaml n = read .yaml n' := by
  have name : (Fields.required "name" Reader.text).ReadsAlike keys :=
    .single (by simp [keys, typeNames]) _ _ _
  have type : (Fields.requiredUnder "endpoint_type" ["route_type"] EndpointType.read).ReadsAlike
      keys := .single (by simp [keys]) _ _ _
  have model : (Fields.required "model" ModelConfig.read).ReadsAlike keys :=
    .single (by simpa [keys, typeNames] using fun _ _ => ModelConfig.read_respelled) _ _ _
  exact Fields.closed_respelled (((name.map _).seq type).seq model) unambiguous_fields
    (by decide) _ h

end EndpointConfig

namespace GatewayConfig

/-- A document and the same document respelled are read as one configuration, or refused for the
    same reason. -/
theorem read_respelled (h : RecordRespelled keys n n') : read .yaml n = read .yaml n' := by
  have endpoints : (Fields.requiredUnder "endpoints" ["routes"]
      (.list EndpointConfig.read)).ReadsAlike keys := by
    refine .single ?_ _ _ _
    simpa [keys] using fun _ _ => Reader.list_respelled fun _ _ => EndpointConfig.read_respelled
  exact Fields.closed_respelled (endpoints.map _) (by decide) (by decide) _ h

/-- A respelled document is one after it has been filled. -/
theorem keptByFilling_keys (env : Environment) : KeptByFilling env (RecordRespelled keys) := by
  have settings : KeptByFilling env (RecordRespelled ProviderSettings.keys) :=
    .record (by simp [ProviderSettings.keys, KeptByFilling.eq])
  have model : KeptByFilling env (RecordRespelled ModelConfig.keys) :=
    .record (by simp [ModelConfig.keys, settings])
  have endpoint : KeptByFilling env (RecordRespelled EndpointConfig.keys) :=
    .record (by simp [EndpointConfig.keys, KeptByFilling.eq, model])
  exact .record (by simp [keys, endpoint.list])

end GatewayConfig

/-! ## What an endpoint has of a document -/

/-- Provider settings have the key and the address that are under any of their names. -/
structure ProviderSettings.SaidBy (n : Node) (s : ProviderSettings) : Prop where
  key : ∀ x, n.Holds keyNames x → Reader.option .text .yaml x = .ok s.apiKey
  base : ∀ x, n.Holds baseNames x → Reader.option .text .yaml x = .ok s.apiBase

/-- No key with several names is among the settings that are kept beside the known ones. -/
def ProviderSettings.KeepsNoKey (s : ProviderSettings) : Prop :=
  ∀ key ∈ keys, ∀ name ∈ key.names, s.extra.lookup name = none

/-- An endpoint has the type that is under any of its names, and the settings of its provider that
    are in its model, none of whose names is kept beside. -/
structure EndpointConfig.SaidBy (n : Node) (e : EndpointConfig) : Prop where
  type : ∀ x, n.Holds typeNames x → EndpointType.read .yaml x = .ok e.type
  settings : ∀ model x, n.Holds ["model"] model → model.Holds ["config"] x →
    e.model.settings.SaidBy x
  others : e.model.settings.KeepsNoKey

theorem ProviderSettings.saidBy_of_read {s : ProviderSettings} (h : read .yaml n = .ok s) :
    s.SaidBy n ∧ s.KeepsNoKey := by
  obtain ⟨look, record, extra, built, rfl, found, others⟩ :=
    Fields.exists_look_of_keeping unambiguous_fields h
  obtain ⟨withKey, base, hwith, hbase, rfl⟩ := Fields.of_build_seq built
  obtain ⟨key, hkey, rfl⟩ := Fields.of_build_map hwith
  refine ⟨⟨fun x hx => ?_, fun x hx => ?_⟩, fun key hkey name hname => others name ?_⟩
  · exact Fields.read_of_build_single hkey (found "api_key" _ (by decide) x hx)
  · exact Fields.read_of_build_single hbase (found "api_base" _ (by decide) x hx)
  · exact mem_names_of_areFields areFields_keys hkey hname

theorem ModelConfig.saidBy_of_read {m : ModelConfig} (h : read .yaml n = .ok m) :
    (∀ x, n.Holds ["config"] x → m.settings.SaidBy x) ∧ m.settings.KeepsNoKey := by
  obtain ⟨look, built, found⟩ := Fields.exists_look_of_closed unambiguous_fields h
  obtain ⟨withNames, settings, hnames, hs, rfl⟩ := Fields.of_build_seq built
  obtain ⟨withName, provider, hname, -, rfl⟩ := Fields.of_build_seq hnames
  obtain ⟨name, -, rfl⟩ := Fields.of_build_map hname
  constructor
  · intro x hx
    have read := Fields.read_of_build_single hs (found "config" _ (by decide) x hx)
    exact (ProviderSettings.saidBy_of_read read).1
  · rcases hl : look "config" with _ | x
    · -- Without settings nothing is kept.
      simp only [Fields.defaulting, Fields.single, hl] at hs
      obtain rfl := Except.ok.inj hs
      exact fun _ _ _ _ => rfl
    · exact (ProviderSettings.saidBy_of_read (Fields.read_of_build_single hs hl)).2

theorem EndpointConfig.saidBy_of_read {e : EndpointConfig} (h : read .yaml n = .ok e) :
    e.SaidBy n := by
  obtain ⟨look, built, found⟩ := Fields.exists_look_of_closed unambiguous_fields h
  obtain ⟨withType, model, hwith, hmodel, rfl⟩ := Fields.of_build_seq built
  obtain ⟨withName, type, hname, htype, rfl⟩ := Fields.of_build_seq hwith
  obtain ⟨name, -, rfl⟩ := Fields.of_build_map hname
  obtain ⟨m, hlook, hm⟩ := Fields.node_of_requiredUnder hmodel
  obtain ⟨settings, others⟩ := ModelConfig.saidBy_of_read hm
  refine ⟨fun x hx => ?_, fun m' x hm' hx => ?_, others⟩
  · exact Fields.read_of_build_single htype (found "endpoint_type" _ (by decide) x hx)
  · obtain rfl := Option.some.inj (hlook.symm.trans (found "model" _ (by decide) m' hm'))
    exact settings x hx

/-! ## Configurations -/

namespace GatewayConfig

variable {env : Environment} {document respelled : Node}

/-- Filled documents that are respelled mean the same. -/
theorem ofDocument_respelled (h : RecordRespelled keys document respelled) :
    ofDocument env document = ofDocument env respelled := by
  have filled := keptByFilling_keys env document respelled h
  rw [ofDocument, ofDocument]
  generalize Placeholder.resolve env document = x, Placeholder.resolve env respelled = y at filled
  cases filled with
  | error e => rfl
  | @ok n n' hn =>
    show (read .yaml n).mapError GatewayError.yaml >>= _ =
      (read .yaml n').mapError GatewayError.yaml >>= _
    rw [read_respelled hn]

/-- Which of its names a key has, at any places of a document, makes no difference: the documents
    mean the same configuration, or are refused for the same reason, and so are texts of them. A
    mapping that has two names of one key is refused in both, so it need not be excluded. Each
    endpoint of the configuration has what its document has under any of the names, and none of the
    names is kept beside the known settings. -/
theorem same_under_any_spelling (h : RecordRespelled keys document respelled) :
    ofDocument env document = ofDocument env respelled ∧
    (∀ text text', Yaml.parse text = some document → Yaml.parse text' = some respelled →
      parse env text = parse env text') ∧
    ∀ written ∈ [document, respelled], ∀ config, ofDocument env written = .ok config →
      ∃ filled items, Placeholder.resolve env written = .ok filled ∧ Lists filled items ∧
        List.Forall₂ EndpointConfig.SaidBy items config.endpoints := by
  refine ⟨ofDocument_respelled h, fun text text' ht ht' => ?_, fun written _ config hc => ?_⟩
  · rw [parse, parse, ht, ht']
    exact ofDocument_respelled h
  · obtain ⟨filled, hf, hc⟩ := ok_of_bind hc
    obtain ⟨read, hr, hc⟩ := ok_of_bind hc
    split at hc
    · cases hc
    obtain rfl := Except.ok.inj hc
    obtain ⟨items, hl, hi⟩ := lists_of_read (ok_of_mapError hr)
    exact ⟨filled, items, ok_of_mapError hf, hl, hi.imp fun _ _ => EndpointConfig.saidBy_of_read⟩

/-- An endpoint whose keys have their newer names but for the address, and the same endpoint with
    older names, the key of its provider being tagged and its value a placeholder. -/
theorem same_under_any_spelling_older :
    let env : Environment := fun name => [("K", "secret")].lookup name
    let settings (key : String) : Node := .mapping [(.tagged "t" (.text key), .text "$\x7bK\x7d"),
      (.text "region", .text "eu"), (.text "openai_api_base", .text "http://h")]
    let model (key : String) : Node := .mapping [(.text "name", .text "m"),
      (.text "provider", .text "anthropic"), (.text "config", settings key)]
    let endpoint (type key : String) : Node := .mapping [(.text "name", .text "e"),
      (.text type, .text "llm/v1/chat"), (.text "model", model key)]
    let newer : Node :=
      .mapping [(.text "endpoints", .sequence [endpoint "endpoint_type" "api_key"])]
    let older : Node :=
      .mapping [(.text "routes", .sequence [endpoint "route_type" "anthropic_api_key"])]
    RecordRespelled keys newer older ∧ ofDocument env newer = ofDocument env older ∧
      ∃ config e, ofDocument env older = .ok config ∧ config.endpoints = [e] ∧
        e.model.settings.apiKey = some "secret" ∧ e.model.settings.apiBase = some "http://h" ∧
        e.model.settings.extra.map Prod.fst = ["region"] ∧ e.model.settings.KeepsNoKey := by
  intro env settings model endpoint newer older
  have hsettings : RecordRespelled ProviderSettings.keys (settings "api_key")
      (settings "anthropic_api_key") :=
    .mapping <| .cons (.key List.mem_cons_self (.tagged (.text (by decide) (by decide))) rfl) <|
      .cons (.same _) <| .cons (.same _) .nil
  have hmodel : RecordRespelled ModelConfig.keys (model "api_key") (model "anthropic_api_key") :=
    .mapping <| .cons (.same _) <| .cons (.same _) <|
      .cons (.key List.mem_cons_self (.text (by decide) (by decide)) hsettings) .nil
  have hendpoint : RecordRespelled EndpointConfig.keys (endpoint "endpoint_type" "api_key")
      (endpoint "route_type" "anthropic_api_key") :=
    .mapping <| .cons (.same _) <|
      .cons (.key List.mem_cons_self (.text (by decide) (by decide)) rfl) <|
      .cons (.key (List.mem_cons_of_mem _ List.mem_cons_self) (.text (by decide) (by decide))
        hmodel) .nil
  have respelled : RecordRespelled keys newer older :=
    .mapping <| .cons (.key List.mem_cons_self (.text (by decide) (by decide))
      (.sequence (.cons hendpoint .nil))) .nil
  obtain ⟨same, -, said⟩ := @same_under_any_spelling env newer older respelled
  have values : (ofDocument env older).toOption.map (fun c => c.endpoints.map fun e =>
      (e.model.settings.apiKey, e.model.settings.apiBase, e.model.settings.extra.map Prod.fst)) =
      some [(some "secret", some "http://h", ["region"])] := by
    decide +kernel
  rcases hc : ofDocument env older with err | config
  · rw [hc] at values
    cases values
  rw [hc] at values
  obtain ⟨e, he, hv⟩ := List.map_eq_singleton_iff.1 (Option.some.inj values)
  obtain ⟨_, items, -, -, hi⟩ := said older (by simp) config hc
  rw [he] at hi
  simp only [Prod.mk.injEq] at hv
  obtain ⟨_, _, he', -, rfl⟩ := List.forall₂_cons_right_iff.1 hi
  exact ⟨respelled, hc ▸ same, config, e, rfl, he, hv.1, hv.2.1, hv.2.2, he'.others⟩

end GatewayConfig

end InferenceGateway
