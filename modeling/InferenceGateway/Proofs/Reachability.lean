import InferenceGateway.Proofs.Exchanges
import InferenceGateway.Proofs.PercentSpelling
import InferenceGateway.Proofs.Reloading
import Mathlib.Data.List.Nodup

/-!
# Reachability

Every endpoint of a configuration can be reached. Its name is checked when the configuration is
read, becomes a part of the paths that clients are told, is found in the paths that they ask for,
and is looked up; nothing on this way may depend on which name it is. Names are made of few
characters, but words of the fixed paths are among them, and any of their characters may be
written as `%` and digits.

* `Server.Target.resolve_endpoint`, `resolve_route`, `resolve_invocation`: what is found in a path
  that is made of a base and a segment, whatever the segment is.
* `GatewayConfig.of_parse`: what a configuration has to do with the text that it is read of.
* `Route.shown`: what clients are told of a route, member by member.
* `Server.reachable`: every endpoint of a text, under every spelling of its name.
-/

namespace InferenceGateway

/-! ## Paths -/

namespace Server.Target

theorem afterBase?_append (base s : List Char) : afterBase? base (base ++ s) = some s := by
  rw [afterBase?, if_pos (by simp), List.drop_left]

/-- A path that begins in another way does not begin with a base. -/
theorem afterBase?_eq_none {base front path : List Char} (hp : front <+: path)
    (hb : ¬base <+: front) (hf : ¬front <+: base) : afterBase? base path = none := by
  refine if_neg fun h => ?_
  exact (List.prefix_or_prefix_of_prefix (List.isPrefixOf_iff_prefix.1 h) hp).elim hb hf

theorem beforeSuffix?_append (suffix s : List Char) :
    beforeSuffix? suffix (s ++ suffix) = some s := by
  rw [beforeSuffix?, if_pos (by simp)]
  simp

/-- A path that begins in another way than a base is not the base. -/
theorem isCollection_eq_false {base path : String} {front : List Char}
    (hp : front <+: path.toList) (hf : ¬front <+: base.toList) :
    isCollection base path = false := by
  have no_slash : path.toList ≠ base.toList.dropLast := by
    intro h
    exact hf ((h ▸ hp).trans (List.dropLast_prefix _))
  have slash : path ≠ base := by
    rintro rfl
    exact hf hp
  simp [isCollection, slash, no_slash]

theorem prefix_append (base s : String) : base.toList <+: (base ++ s).toList :=
  ⟨s.toList, String.toList_append.symm⟩

/-- A path that begins with a base is none of those that do not. -/
theorem append_not_mem {base : String} {paths : List String}
    (h : ∀ path ∈ paths, ¬base.toList <+: path.toList) (s : String) : base ++ s ∉ paths :=
  fun hm => h _ hm (prefix_append base s)

section Segment

variable {base suffix s : String}

/-- A segment is found after its base. -/
theorem segment?_append (hs : isSegment s.toList) : segment? base (base ++ s) = some s := by
  rw [segment?, String.toList_append, afterBase?_append, Option.filter_some, if_pos hs,
    Option.map_some, String.ofList_toList]

/-- A segment is found between its base and its suffix. -/
theorem segmentBetween?_append (hs : isSegment s.toList) :
    segmentBetween? base suffix (base ++ s ++ suffix) = some s := by
  rw [segmentBetween?, String.toList_append, String.toList_append, List.append_assoc,
    afterBase?_append, Option.bind_some, beforeSuffix?_append, Option.filter_some, if_pos hs,
    Option.map_some, String.ofList_toList]

/-- Nothing is found after a base that the path does not begin with. -/
theorem segment?_eq_none (other : String) (hb : ¬other.toList <+: base.toList)
    (ho : ¬base.toList <+: other.toList) : segment? other (base ++ s) = none := by
  rw [segment?, afterBase?_eq_none (prefix_append base s) hb ho]
  rfl

/-- Nothing is found after a base that is longer by a slash. -/
theorem segment?_longer {longer : String} (more : List Char)
    (hl : longer.toList = base.toList ++ more) (hm : '/' ∈ more) (hs : isSegment s.toList) :
    segment? longer (base ++ s) = none := by
  have : ¬longer.toList <+: (base ++ s).toList := by
    rw [hl, String.toList_append, List.prefix_append_right_inj]
    intro h
    have : '/' ∈ s.toList := h.subset hm
    simp [isSegment, this] at hs
  rw [segment?, afterBase?, if_neg (by simpa using this)]
  rfl

/-- A path that goes on with a segment is not its base. -/
theorem isCollection_append (hs : isSegment s.toList) : isCollection base (base ++ s) = false := by
  obtain ⟨c, rest, hc⟩ : ∃ c rest, s.toList = c :: rest := by
    cases h : s.toList with
    | nil =>
      rw [h] at hs
      cases hs
    | cons c rest => exact ⟨c, rest, rfl⟩
  have longer : base.toList ++ [c] <+: (base ++ s).toList := ⟨rest, by simp [hc]⟩
  refine isCollection_eq_false longer fun h => ?_
  have := h.length_le
  rw [List.length_append, List.length_singleton] at this
  omega

end Segment

/-- What a path is for that is known under a method. -/
theorem resolve_of_route {method path : String} {t : Target} (h : route method path = some t) :
    resolve method path = t := by
  rw [resolve, h]

/-- The paths under `GET` that are not made of a base and a segment. -/
theorem ofGet_append (base s : String)
    (h : ∀ path ∈ metricsPath :: healthPaths, ¬base.toList <+: path.toList)
    (he : segment? endpointLimitsBase (base ++ s) = none)
    (hr : segment? routeLimitsBase (base ++ s) = none) : ofGet (base ++ s) =
      if isCollection endpointsBase (base ++ s) then some .listEndpoints
      else match segment? endpointsBase (base ++ s) with
        | some s => some (.getEndpoint s)
        | none =>
          if isCollection routesBase (base ++ s) then some .searchRoutes
          else (segment? routesBase (base ++ s)).map .getRoute := by
  have hn := append_not_mem h s
  have health : ¬healthPaths.contains (base ++ s) := by
    simpa using List.not_mem_of_not_mem_cons hn
  have limits : ¬((segment? endpointLimitsBase (base ++ s)).isSome ||
      (segment? routeLimitsBase (base ++ s)).isSome) := by
    rw [he, hr]
    nofun
  exact (if_neg health).trans ((if_neg (List.ne_of_not_mem_cons hn)).trans (if_neg limits))

/-- The path of an endpoint is for the endpoint, whatever its name. -/
theorem resolve_endpoint {s : String} (hs : isSegment s.toList) :
    resolve "GET" (endpointsBase ++ s) = .getEndpoint s := by
  -- The limits of endpoints have a longer base, so they are no segment of this one.
  have limits : segment? endpointLimitsBase (endpointsBase ++ s) = none :=
    segment?_longer "limits/".toList (by decide +kernel) (by decide +kernel) hs
  have get := ofGet_append endpointsBase s (by decide +kernel) limits
    (segment?_eq_none _ (by decide +kernel) (by decide +kernel))
  refine resolve_of_route ?_
  rw [route, if_pos rfl, get, isCollection_append hs, if_neg nofun, segment?_append hs]

/-- The path of a route is for the route, whatever its name. -/
theorem resolve_route {s : String} (hs : isSegment s.toList) :
    resolve "GET" (routesBase ++ s) = .getRoute s := by
  have get := ofGet_append routesBase s (by decide +kernel)
    (segment?_eq_none _ (by decide +kernel) (by decide +kernel))
    (segment?_eq_none _ (by decide +kernel) (by decide +kernel))
  have list : isCollection endpointsBase (routesBase ++ s) = false :=
    isCollection_eq_false (prefix_append _ _) (by decide +kernel)
  have other : segment? endpointsBase (routesBase ++ s) = none :=
    segment?_eq_none _ (by decide +kernel) (by decide +kernel)
  refine resolve_of_route ?_
  rw [route, if_pos rfl, get, list, if_neg nofun, other, segment?_append hs]
  simp [isCollection_append hs]

/-- The path of an invocation is for the invocation, whatever the name. -/
theorem resolve_invocation {base s : String}
    (hb : base ∈ [Route.endpointBase, Route.routeBase]) (hs : isSegment s.toList) :
    resolve "POST" (base ++ s ++ Route.invocationSuffix) = .invoke s := by
  have path : base ++ s ++ Route.invocationSuffix = base ++ (s ++ Route.invocationSuffix) :=
    String.append_assoc
  have bases : ∀ base ∈ [Route.endpointBase, Route.routeBase],
      ∀ limits ∈ [endpointLimitsBase, routeLimitsBase], ¬base.toList <+: limits.toList := by
    decide +kernel
  have limits : ∀ limits ∈ [endpointLimitsBase, routeLimitsBase],
      isCollection limits (base ++ s ++ Route.invocationSuffix) = false :=
    fun _ hl => isCollection_eq_false (path ▸ prefix_append _ _) (bases _ hb _ hl)
  have found : [Route.endpointBase, Route.routeBase].findSome? (fun base' =>
      segmentBetween? base' Route.invocationSuffix (base ++ s ++ Route.invocationSuffix)) =
        some s := by
    rcases List.mem_cons.1 hb with rfl | hb
    · rw [List.findSome?_cons, segmentBetween?_append hs]
    · obtain rfl := List.mem_singleton.1 hb
      have other : segmentBetween? Route.endpointBase Route.invocationSuffix
          (Route.routeBase ++ s ++ Route.invocationSuffix) = none := by
        rw [segmentBetween?, path, afterBase?_eq_none (prefix_append _ _) (by decide +kernel)
          (by decide +kernel)]
        rfl
      rw [List.findSome?_cons, other, List.findSome?_cons, segmentBetween?_append hs]
  refine resolve_of_route ?_
  rw [route, if_neg (by decide), if_pos rfl, ofPost, limits _ (by simp), limits _ (by simp), found]
  rfl

end Server.Target

/-! ## Endpoints of a document -/

namespace GatewayConfig

open Document

/-- An endpoint without a fault has a name that is one. -/
theorem isName_of_firstFault? {seen : List String} {endpoints : List EndpointConfig}
    (h : firstFault? seen endpoints = none) : ∀ e ∈ endpoints, isName e.name := by
  induction endpoints generalizing seen with
  | nil => nofun
  | cons e rest ih =>
    rw [firstFault?] at h
    split at h
    · cases h
    rename_i hn
    split at h
    · cases h
    split at h
    · cases h
    split at h
    · cases h
    exact List.forall_mem_cons.2 ⟨by simpa using hn, ih h⟩

/-- What a name is not made of. -/
theorem not_mem_of_isName {name : String} (h : isName name) {c : Char}
    (hc : isNameChar c = false) : c ∉ name.toList := by
  intro hm
  have := List.all_eq_true.1 (Bool.and_eq_true_iff.1 h).2 c hm
  rw [hc] at this
  cases this

theorem toList_ne_nil_of_isName {name : String} (h : isName name) : name.toList ≠ [] := by
  intro hn
  have := (Bool.and_eq_true_iff.1 h).1
  simp [String.toList_eq_nil_iff.1 hn] at this

/-- The nodes that a document lists as its endpoints, under either name of the list. -/
def Lists (document : Node) (items : List Node) : Prop :=
  ∃ list, document.Holds ["endpoints", "routes"] list ∧ list.items? = some items

/-- An endpoint that is read has the name that it is given. -/
theorem holds_name {item : Node} {e : EndpointConfig} (h : EndpointConfig.read .yaml item = .ok e) :
    ∃ n, item.Holds ["name"] n ∧ n.text? = some e.name := by
  obtain ⟨look, hb, hl⟩ := Fields.placed_of_closed h
  -- The fields are put together from the last one to the first.
  obtain ⟨withType, htype, hb⟩ := ok_of_bind hb
  obtain ⟨model, -, he⟩ := ok_of_bind hb
  obtain ⟨withName, hname, htype⟩ := ok_of_bind htype
  obtain ⟨type, -, hw⟩ := ok_of_bind htype
  obtain ⟨name, hread, hm⟩ := ok_of_bind hname
  cases hm
  cases hw
  cases he
  obtain ⟨n, hlook, hn⟩ := Fields.node_of_requiredUnder hread
  obtain ⟨f, hf, hfn, holds⟩ := hl _ _ hlook
  have spellings : (f.name, f.spellings) ∈
      [("name", []), ("endpoint_type", ["route_type"]), ("model", [])] :=
    List.mem_map_of_mem (f := fun f : Field => (f.name, f.spellings)) hf
  have none_other : f.spellings = [] := by simpa [hfn] using spellings
  rw [hfn, none_other] at holds
  exact ⟨n, holds, Reader.text?_of_text hn⟩

/-- The endpoints of a configuration are those that its document lists, in order. -/
theorem lists_of_read {document : Node} {config : GatewayConfig}
    (h : read .yaml document = .ok config) :
    ∃ items, Lists document items ∧ List.Forall₂
      (fun item e => EndpointConfig.read .yaml item = .ok e) items config.endpoints := by
  obtain ⟨look, hb, hl⟩ := Fields.placed_of_closed h
  obtain ⟨endpoints, hread, hc⟩ := ok_of_bind hb
  cases hc
  obtain ⟨n, hlook, hr⟩ := Fields.node_of_requiredUnder hread
  obtain ⟨f, hf, -, hn⟩ := hl _ _ hlook
  obtain rfl := List.mem_singleton.1 hf
  obtain ⟨items, hi, hall⟩ := Reader.items_of_list hr
  exact ⟨items, ⟨n, hn, hi⟩, hall⟩

/-- A configuration is what the document of its text says, and its endpoints have names. -/
theorem of_parse {env : Environment} {text : String} {config : GatewayConfig}
    (h : parse env text = .ok config) :
    (∃ written document items, Yaml.parse text = some written ∧
      Placeholder.resolve env written = .ok document ∧ Lists document items ∧
      List.Forall₂ (fun item e => EndpointConfig.read .yaml item = .ok e) items config.endpoints) ∧
    ∀ e ∈ config.endpoints, isName e.name := by
  rw [parse] at h
  split at h
  · rename_i written hw
    obtain ⟨document, hd, h⟩ := ok_of_bind h
    obtain ⟨found, hr, h⟩ := ok_of_bind h
    split at h
    · cases h
    · rename_i hf
      cases h
      obtain ⟨items, hl, hi⟩ := lists_of_read (ok_of_mapError hr)
      exact ⟨⟨written, document, items, hw, ok_of_mapError hd, hl, hi⟩, isName_of_firstFault? hf⟩
  · cases h

end GatewayConfig

/-! ## Routes of a table -/

namespace Route

/-- A route has the name of its endpoint. -/
theorem name_of_compile {resolver : Resolver} {e : EndpointConfig} {r : Route}
    (h : compile resolver e = .ok r) : r.name = e.name := by
  obtain ⟨_, -, rfl⟩ := eq_of_compile h
  rfl

/-- How the types of endpoints are told. -/
def typeText : EndpointType → String
  | .chat => "llm/v1/chat"
  | .completions => "llm/v1/completions"
  | .embeddings => "llm/v1/embeddings"

/-- What clients are told of a route: its name, its type, its model, the path of its invocations
    under a base, and that it has no limit. The type and the path stand under names of the view. -/
def shown (r : Route) (type url base : String) : Json := .object [("name", .text r.name),
  (type, .text (typeText r.type)),
  ("model", .object [("name", .text r.model.name), ("provider", .text r.model.provider)]),
  (url, .text (base ++ r.name ++ "/invocations")), ("limit", .null)]

theorem toJson_type (t : EndpointType) : t.toJson = .text (typeText t) := by
  cases t <;> rfl

/-- A route as an endpoint. -/
theorem toJson_toEndpoint (r : Route) :
    r.toEndpoint.toJson = r.shown "endpoint_type" "endpoint_url" "/endpoints/" := by
  rw [Endpoint.toJson, shown, ← toJson_type]
  rfl

/-- A route as older clients see it. -/
theorem toJson_toView (r : Route) :
    r.toView.toJson = r.shown "route_type" "route_url" "/gateway/" := by
  rw [RouteView.toJson, shown, ← toJson_type]
  rfl

end Route

namespace Table

/-- A route is found under its name. -/
theorem get?_of_mem {t : Table} {r : Route} (h : r ∈ t.routes) : t.get? r.name = some r := by
  rcases hf : t.get? r.name with _ | found
  · have := List.find?_eq_none.1 hf r h
    simp at this
  · have hn : found.name = r.name := by simpa using List.find?_some hf
    have hm := List.mem_of_find?_eq_some hf
    rw [List.inj_on_of_nodup_map t.nodup hm h hn]

end Table

/-! ## Requests -/

namespace Server

open Text

/-- An answer that tells some data: nothing is sent for it, and nothing is counted. -/
def tells (data : Json) : Call Outcome :=
  .done ⟨⟨200, [("content-type", "application/json")], data.print⟩, []⟩

/-- A route can be reached under a segment: the paths of invocations that clients are told, and
    those with the segment, lead to its handler, and the paths with the segment under which it
    can be looked up tell what there is to tell of it. -/
structure Reached (g : Gateway) (r : Route) (segment : String) : Prop where
  invoked : ∀ base ∈ ["/endpoints/", "/gateway/"], ∀ s ∈ [r.name, segment],
    ∀ (now : Nat) (query : Option String) (body : Bytes),
      answer g now ⟨"POST", base ++ s ++ "/invocations", query, .ok body⟩ =
        (r.handler.invoke now body).map .ofInvocation
  endpoint : ∀ (now : Nat) (query : Option String) (body : Except String Bytes),
    answer g now ⟨"GET", "/api/2.0/endpoints/" ++ segment, query, body⟩ =
      tells (r.shown "endpoint_type" "endpoint_url" "/endpoints/")
  route : ∀ (now : Nat) (query : Option String) (body : Except String Bytes),
    answer g now ⟨"GET", "/api/2.0/gateway/routes/" ++ segment, query, body⟩ =
      tells (r.shown "route_type" "route_url" "/gateway/")

/-- A route whose name is one is reached under every spelling of it. -/
theorem reached_of_spells {g : Gateway} {r : Route} (hr : r ∈ g.table.routes)
    (hn : GatewayConfig.isName r.name) {segment : String} (hs : Spells r.name segment) :
    Reached g r segment := by
  have slash : '/' ∉ r.name.toList := GatewayConfig.not_mem_of_isName hn (by decide)
  have percent : '%' ∉ r.name.toList := GatewayConfig.not_mem_of_isName hn (by decide)
  have segment_of {s : String} (hs : Spells r.name s) : Target.isSegment s.toList := by
    have ne_nil := hs.ne_nil (GatewayConfig.toList_ne_nil_of_isName hn)
    simp [Target.isSegment, hs.not_mem_slash slash, ne_nil]
  have named {s : String} (hs : Spells r.name s) : decodeName s = .ok r.name := by
    rw [decodeName, hs.decodeSegment percent]
    rfl
  have found := Table.get?_of_mem hr
  have invoked (base : String) {s : String} (hb : base ∈ [Route.endpointBase, Route.routeBase])
      (hs : Spells r.name s) (now : Nat) (query : Option String) (body : Bytes) :
      answer g now ⟨"POST", base ++ s ++ Route.invocationSuffix, query, .ok body⟩ =
        (r.handler.invoke now body).map .ofInvocation :=
    answer_of_invoke (Target.resolve_invocation hb (segment_of hs)) (named hs) found rfl
  refine ⟨fun base hb s hm now query body => ?_, fun now query body => ?_,
    fun now query body => ?_⟩
  · refine invoked base hb ?_ now query body
    -- A path that clients are told has the name as it is.
    rcases List.mem_cons.1 hm with rfl | hm
    · exact .refl _
    · exact List.mem_singleton.1 hm ▸ hs
  · have target := Target.resolve_endpoint (segment_of hs)
    rw [Target.endpointsBase] at target
    have view : g.directory.getEndpoint r.name = .ok r.toEndpoint := by
      simp only [Directory.getEndpoint, Gateway.directory, Directory.ofTable, found]
    simp only [answer, target, named hs, Except.bind, view, Answer.ofResult,
      Route.toJson_toEndpoint]
    rfl
  · have target := Target.resolve_route (segment_of hs)
    rw [Target.routesBase] at target
    have view : g.directory.getRoute r.name = .ok r.toView := by
      simp only [Directory.getRoute, Gateway.directory, Directory.ofTable, found]
    simp only [answer, target, named hs, Except.bind, view, Answer.ofResult, Route.toJson_toView]
    rfl

/-- Every endpoint of a text that can be loaded can be reached. The table has a route for each
    endpoint that the document lists, in the same order, made of its name, its type and its model,
    and their names differ; each of them is reached under every spelling of its name. -/
theorem reachable {env : Environment} {text : String} {config : GatewayConfig}
    {resolver : Resolver} {g : Gateway} (hp : GatewayConfig.parse env text = .ok config)
    (ht : Table.ofConfig resolver config = .ok g.table) :
    (∃ written document items, Yaml.parse text = some written ∧
      Placeholder.resolve env written = .ok document ∧ GatewayConfig.Lists document items ∧
      List.Forall₂ (fun item e => EndpointConfig.read .yaml item = .ok e ∧
        ∃ n, item.Holds ["name"] n ∧ n.text? = some e.name) items config.endpoints ∧
      List.Forall₂ (fun e r => Route.compile resolver e = .ok r ∧
        ∃ provider, resolver.resolve e.model = .ok provider ∧
          r = ⟨e.name, e.type, e.model, ⟨e.type, provider⟩⟩) config.endpoints g.table.routes) ∧
    (g.table.routes.map Route.name).Nodup ∧
    ∀ r ∈ g.table.routes, ∀ segment, Spells r.name segment → Reached g r segment := by
  obtain ⟨⟨written, document, items, hw, hd, hl, hi⟩, names⟩ := GatewayConfig.of_parse hp
  have compiled := Document.forall₂_of_mapM (Table.mapM_of_ofConfig ht)
  refine ⟨⟨written, document, items, hw, hd, hl, ?_, ?_⟩, g.table.nodup, fun r hr segment hs => ?_⟩
  · exact hi.imp fun item e he => ⟨he, GatewayConfig.holds_name he⟩
  · exact compiled.imp fun e r he => ⟨he, Route.eq_of_compile he⟩
  · obtain ⟨k, hk, rfl⟩ := List.getElem_of_mem hr
    have hc := compiled.get (compiled.length_eq ▸ hk) hk
    have he := names _ (List.getElem_mem (compiled.length_eq ▸ hk))
    exact reached_of_spells hr (Route.name_of_compile hc ▸ he) hs

/-- Endpoints that are named like parts of the fixed paths, one of them by a variable. -/
theorem reachable_limits :
    let env : Environment := fun name => [("N", "limits")].lookup name
    let model := "  endpoint_type: llm/v1/chat\n  model:\n    name: m\n    provider: openai\n" ++
      "    config:\n      api_key: k\n"
    let text := "endpoints:\n- name: $\x7bN\x7d\n" ++ model ++ "- name: ..\n" ++ model
    ∃ config g, GatewayConfig.parse env text = .ok config ∧
      Table.ofConfig .builtin config = .ok g.table ∧ g.table.names = ["limits", ".."] ∧
      (∃ r ∈ g.table.routes, r.name = "limits" ∧ Reached g r "%6Cim%69ts") ∧
      (respond g 0 ⟨"GET", "/api/2.0/endpoints/%6Cim%69ts", none, .ok []⟩ []).1.body =
        "\x7b\"name\":\"limits\",\"endpoint_type\":\"llm/v1/chat\"," ++
          "\"model\":\x7b\"name\":\"m\",\"provider\":\"openai\"\x7d," ++
          "\"endpoint_url\":\"/endpoints/limits/invocations\",\"limit\":null\x7d" := by
  intro env model text
  have loaded : (GatewayConfig.parse env text >>= Table.ofConfig .builtin).toOption.map
      (·.routes.map fun r => (r.name, r.type, r.model.name, r.model.provider)) =
        some [("limits", .chat, "m", "openai"), ("..", .chat, "m", "openai")] := by
    decide +kernel
  rcases hl : GatewayConfig.parse env text >>= Table.ofConfig .builtin with e | table
  · rw [hl] at loaded
    cases loaded
  rw [hl] at loaded
  obtain ⟨config, hp, ht⟩ := Document.ok_of_bind hl
  let g : Gateway := ⟨.builtin, table, none, .zero⟩
  obtain ⟨-, -, all⟩ := reachable (g := g) hp ht
  obtain ⟨r, rest, hr, first, others⟩ := List.map_eq_cons_iff.1 (Option.some.inj loaded)
  simp only [Prod.mk.injEq] at first
  obtain ⟨name, type, modelName, provider⟩ := first
  have names : table.names = ["limits", ".."] := by
    have := congrArg (List.map Prod.fst) (Option.some.inj loaded)
    rwa [List.map_map] at this
  have spells : Spells "limits" "%6Cim%69ts" := by
    have plain : Utf8.encode "limits" = [0x6C, 0x69, 0x6D, 0x69, 0x74, 0x73] := by decide +kernel
    have spelled : Utf8.encode "%6Cim%69ts" =
        [0x25, 0x36, 0x43, 0x69, 0x6D, 0x25, 0x36, 0x39, 0x74, 0x73] := by
      decide +kernel
    rw [Spells, plain, spelled]
    exact .escaped _ (.inl (by decide +kernel)) (.inl (by decide +kernel)) <| .plain _ <|
      .plain _ <| .escaped _ (.inl (by decide +kernel)) (.inl (by decide +kernel)) <| .refl _
  have hm : r ∈ g.table.routes := by simp [g, hr]
  have reached := all r hm _ (name ▸ spells)
  refine ⟨config, g, hp, ht, names, ⟨r, hm, name, reached⟩, ?_⟩
  have told := reached.endpoint 0 none (.ok [])
  have path : "/api/2.0/endpoints/" ++ "%6Cim%69ts" = "/api/2.0/endpoints/%6Cim%69ts" := by
    decide +kernel
  rw [path, Route.shown, name, type, modelName, provider] at told
  simp only [respond, told, tells, Call.result]
  decide +kernel

end Server

end InferenceGateway
