import InferenceGateway.Proofs.Loading
import InferenceGateway.Proofs.Pagination
import InferenceGateway.Proofs.Reachability

/-!
# Views of the routes

Routes are read in four ways: by their names, as a list, and through the directory, one by one or
page by page, each in one of two views. All of them read one table, so they agree, whatever the
table went through.

A table is the list of its routes. The store that is in use keeps them under keys, which are put
one after the other (`Entries`). That a key is the name of its route, that no key is put twice, and
that the keys are in the order of the list is an invariant of the changes of a table
(`Entries.change_eq`), the refused ones included, and so of all that it goes through
(`Entries.run_eq`).

* `Table.Change`: what can be done to a table.
* `Directory.Agrees`: lists and single answers that agree.
* `Table.views_agree`: after any changes all ways to read the routes agree.
-/

namespace InferenceGateway

/-! ## Changes -/

namespace Table

/-- What can be done to a table. -/
inductive Change where
  | replaceAll (routes : List Route)
  | load (resolver : Resolver) (config : GatewayConfig)

/-- What becomes of a table. -/
def change (t : Table) : Change → Except GatewayError Unit × Table
  | .replaceAll routes => t.replaceAll routes
  | .load resolver config => t.load resolver config

/-- The table after changes, those that are refused among them. -/
def run (t : Table) (changes : List Change) : Table :=
  changes.foldl (fun t c => (t.change c).2) t

end Table

/-- Routes under keys, in the order in which they are put. -/
abbrev Entries := List (String × Route)

namespace Entries

/-- Puts routes under their names, one after the other, up to one whose name is a key already. -/
def putAll (entries : Entries) : List Route → Except ConfigFault Entries
  | [] => .ok entries
  | r :: routes =>
    if (entries.lookup r.name).isSome then .error (.duplicateEndpoint r.name)
    else putAll (entries ++ [(r.name, r)]) routes

/-- Takes over routes if all of them can be put. -/
def replaceAll (entries : Entries) (routes : List Route) : Except GatewayError Unit × Entries :=
  match putAll [] routes with
  | .ok new => (.ok (), new)
  | .error fault => (.error (.config fault), entries)

/-- What becomes of the entries of a table. -/
def change (entries : Entries) : Table.Change → Except GatewayError Unit × Entries
  | .replaceAll routes => entries.replaceAll routes
  | .load resolver config =>
    match config.endpoints.mapM (Route.compile resolver) with
    | .ok routes => entries.replaceAll routes
    | .error e => (.error e, entries)

/-- The entries after changes. -/
def run (entries : Entries) (changes : List Table.Change) : Entries :=
  changes.foldl (fun entries c => (entries.change c).2) entries

/-- The entries of routes, each under its own name. -/
def ofRoutes (routes : List Route) : Entries := routes.map fun r => (r.name, r)

theorem lookup_ofRoutes (routes : List Route) (name : String) :
    (ofRoutes routes).lookup name = routes.find? (·.name = name) := by
  induction routes with
  | nil => rfl
  | cons r routes ih =>
    rw [ofRoutes, List.map_cons, List.lookup_cons, List.find?_cons]
    by_cases hr : r.name = name
    · simp [hr]
    · rw [beq_eq_false_iff_ne.2 (Ne.symm hr), decide_eq_false hr]
      exact ih

theorem isSome_lookup_ofRoutes {routes : List Route} {name : String} :
    ((ofRoutes routes).lookup name).isSome ↔ name ∈ routes.map Route.name := by
  simp [lookup_ofRoutes, List.find?_isSome]

/-- Routes are put up to the first one whose name is repeated, and all of them if there is none. -/
theorem putAll_eq {seen : List String} {before : List Route}
    (h : ∀ n, n ∈ seen ↔ n ∈ before.map Route.name) (routes : List Route) :
    putAll (ofRoutes before) routes = match firstRepeated? seen (routes.map Route.name) with
      | some name => .error (.duplicateEndpoint name)
      | none => .ok (ofRoutes (before ++ routes)) := by
  induction routes generalizing seen before with
  | nil => simp [putAll, firstRepeated?]
  | cons r routes ih =>
    rw [putAll, List.map_cons, firstRepeated?]
    by_cases hr : r.name ∈ seen
    · rw [if_pos (isSome_lookup_ofRoutes.2 ((h _).1 hr)), if_pos hr]
    · rw [if_neg fun hs => hr ((h _).2 (isSome_lookup_ofRoutes.1 hs)), if_neg hr]
      have put : ofRoutes before ++ [(r.name, r)] = ofRoutes (before ++ [r]) := by simp [ofRoutes]
      have keys : ∀ n, n ∈ r.name :: seen ↔ n ∈ (before ++ [r]).map Route.name := fun n => by
        simp [h n, or_comm]
      rw [put, ih keys, List.append_assoc, List.singleton_append]

/-- What is put under keys is what a table is made of. -/
theorem putAll_eq_ofRoutes (routes : List Route) :
    putAll [] routes = (Table.ofRoutes routes).map fun t => ofRoutes t.routes := by
  have none : ∀ n, n ∈ ([] : List String) ↔ n ∈ ([] : List Route).map Route.name := by simp
  rw [show ([] : Entries) = ofRoutes [] from rfl, putAll_eq none, Table.ofRoutes]
  split <;> split <;> simp_all [Except.map]

/-- Entries that are those of a table are replaced as the table is. -/
theorem replaceAll_eq (t : Table) (routes : List Route) :
    (ofRoutes t.routes).replaceAll routes =
      ((t.replaceAll routes).1, ofRoutes (t.replaceAll routes).2.routes) := by
  rw [replaceAll, putAll_eq_ofRoutes, Table.replaceAll]
  cases Table.ofRoutes routes <;> rfl

/-- A change does to the entries of a table what it does to the table. -/
theorem change_eq (t : Table) (c : Table.Change) : (ofRoutes t.routes).change c =
    ((t.change c).1, ofRoutes (t.change c).2.routes) := by
  cases c with
  | replaceAll routes => exact replaceAll_eq t routes
  | load resolver config =>
    rw [change, Table.change, Table.load]
    cases config.endpoints.mapM (Route.compile resolver) with
    | error e => rfl
    | ok routes => exact replaceAll_eq t routes

/-- The entries after changes are those of the table. -/
theorem run_eq (t : Table) (changes : List Table.Change) :
    (ofRoutes t.routes).run changes = ofRoutes (t.run changes).routes := by
  induction changes generalizing t with
  | nil => rfl
  | cons c changes ih =>
    show ((ofRoutes t.routes).change c).2.run changes = ofRoutes ((t.change c).2.run changes).routes
    rw [change_eq]
    exact ih _

end Entries

/-! ## Single routes -/

namespace Table

/-- The route of a name is the one in the list that has it. -/
theorem get?_eq_some_iff {t : Table} {name : String} {r : Route} :
    t.get? name = some r ↔ r ∈ t.routes ∧ r.name = name := by
  constructor
  · intro h
    exact ⟨List.mem_of_find?_eq_some h, by simpa using List.find?_some h⟩
  · rintro ⟨h, rfl⟩
    exact get?_of_mem h

end Table

namespace Directory

variable {d : Directory}

/-- Single answers: both views of a route, or that there is none, under either word for it. -/
theorem single_cases (d : Directory) (name : String) :
    (∃ r, d.table.get? name = some r ∧ d.getEndpoint name = .ok r.toEndpoint ∧
        d.getRoute name = .ok r.toView) ∨
      d.table.get? name = none ∧ d.getEndpoint name = .error (.endpointNotFound name) ∧
        d.getRoute name = .error (.routeNotFound name) := by
  rw [getEndpoint, getRoute]
  cases d.table.get? name with
  | none => exact .inr ⟨rfl, rfl, rfl⟩
  | some r => exact .inl ⟨r, rfl, rfl, rfl⟩

/-- A single endpoint is the one of its name among all endpoints. -/
theorem getEndpoint_eq_ok_iff {name : String} {e : Endpoint} :
    d.getEndpoint name = .ok e ↔ e ∈ d.table.routes.map Route.toEndpoint ∧ e.name = name := by
  rw [List.mem_map]
  constructor
  · intro h
    rcases d.single_cases name with ⟨r, hr, he, -⟩ | ⟨-, he, -⟩ <;> rw [he] at h
    · cases h
      obtain ⟨hm, hn⟩ := Table.get?_eq_some_iff.1 hr
      exact ⟨⟨r, hm, rfl⟩, hn⟩
    · cases h
  · rintro ⟨⟨r, hm, rfl⟩, rfl⟩
    rw [getEndpoint, show d.table.get? r.toEndpoint.name = some r from Table.get?_of_mem hm]

/-- A single route is the one of its name among all routes. -/
theorem getRoute_eq_ok_iff {name : String} {v : RouteView} :
    d.getRoute name = .ok v ↔ v ∈ d.table.routes.map Route.toView ∧ v.name = name := by
  rw [List.mem_map]
  constructor
  · intro h
    rcases d.single_cases name with ⟨r, hr, -, hv⟩ | ⟨-, -, hv⟩ <;> rw [hv] at h
    · cases h
      obtain ⟨hm, hn⟩ := Table.get?_eq_some_iff.1 hr
      exact ⟨⟨r, hm, rfl⟩, hn⟩
    · cases h
  · rintro ⟨⟨r, hm, rfl⟩, rfl⟩
    rw [getRoute, show d.table.get? r.toView.name = some r from Table.get?_of_mem hm]

/-! ## Lists -/

/-- Lists of all endpoints and of all routes that agree with one another and with the single
    answers. -/
structure Agrees (d : Directory) (endpoints : List Endpoint) (routes : List RouteView) : Prop where
  /-- Both lists have the names of the table, in its order. -/
  names_endpoints : endpoints.map Endpoint.name = d.table.names
  names_routes : routes.map RouteView.name = d.table.names
  /-- What is told of a name is what the list holds under it. -/
  endpoint_iff : ∀ name e, d.getEndpoint name = .ok e ↔ e ∈ endpoints ∧ e.name = name
  route_iff : ∀ name v, d.getRoute name = .ok v ↔ v ∈ routes ∧ v.name = name

/-- The views of all routes agree. -/
theorem agrees (d : Directory) :
    d.Agrees (d.table.routes.map Route.toEndpoint) (d.table.routes.map Route.toView) where
  names_endpoints := by
    rw [List.map_map]
    rfl
  names_routes := by
    rw [List.map_map]
    rfl
  endpoint_iff _ _ := getEndpoint_eq_ok_iff
  route_iff _ _ := getRoute_eq_ok_iff

/-- A walk through all pages of a view shows the views of all routes. -/
theorem walk_view {α : Type} (hd : d.table.size ≤ Page.lastIndex) (view : Route → α) (size : Nat) :
    ∃ pages, Walk (d.page view size) none pages ∧
      pages.flatMap Listing.items = d.table.routes.map view := by
  have start : Page.start none = .ok 0 := rfl
  obtain ⟨pages, walk, items, -⟩ := walk_of_start hd start view size
  exact ⟨pages, walk, items⟩

end Directory

namespace Table

/-- However the routes are read, what is read is the same, after any changes. The keys of the store
    are the names of the routes and differ. A name has the route that the list has under it; it has
    an endpoint and a route in the directory exactly if it has one; and these are the items that the
    walks through all pages show under it, both walks in the order of the list. The number of routes
    of a table that is held is one of 64 bits, as positions are. -/
theorem views_agree (changes : List Change) (endpointsPerPage routesPerPage : Nat) :
    let t := empty.run changes
    let entries := Entries.run [] changes
    let d : Directory := ⟨t, endpointsPerPage, routesPerPage⟩
    (entries = t.routes.map (fun r => (r.name, r)) ∧ (entries.map Prod.fst).Nodup) ∧
      (∀ name r, t.get? name = some r ↔ r ∈ t.routes ∧ r.name = name) ∧
      (∀ name, entries.lookup name = t.get? name) ∧
      (∀ name, (∃ r, t.get? name = some r ∧ d.getEndpoint name = .ok r.toEndpoint ∧
          d.getRoute name = .ok r.toView) ∨
        t.get? name = none ∧ d.getEndpoint name = .error (.endpointNotFound name) ∧
          d.getRoute name = .error (.routeNotFound name)) ∧
      (t.size ≤ Page.lastIndex →
        (∃ pages, Walk d.listEndpoints none pages) ∧
        (∃ pages, Walk d.searchRoutes none pages) ∧
        ∀ endpoints routes, Walk d.listEndpoints none endpoints →
          Walk d.searchRoutes none routes →
            d.Agrees (endpoints.flatMap Listing.items) (routes.flatMap Listing.items)) := by
  intro t entries d
  have same : entries = Entries.ofRoutes t.routes := Entries.run_eq empty changes
  refine ⟨⟨same, ?_⟩, fun _ _ => get?_eq_some_iff, fun name => ?_, d.single_cases, fun hd => ?_⟩
  · rw [same, Entries.ofRoutes, List.map_map]
    exact t.nodup
  · rw [same, Entries.lookup_ofRoutes]
    rfl
  · obtain ⟨pages, walk, items⟩ := Directory.walk_view (d := d) hd Route.toEndpoint endpointsPerPage
    obtain ⟨pages', walk', items'⟩ := Directory.walk_view (d := d) hd Route.toView routesPerPage
    refine ⟨⟨pages, walk⟩, ⟨pages', walk'⟩, fun endpoints routes he hr => ?_⟩
    rw [he.unique walk, hr.unique walk', items, items']
    exact d.agrees

/-- After two routes are taken over and two of one name are refused, the names of the first two are
    those that are listed, in their order, and their routes are found. -/
theorem views_agree_after_duplicates :
    let route (name : String) : Route :=
      ⟨name, .chat, ⟨"m", "p", ⟨none, none, []⟩⟩, ⟨.chat, .unsupporting "p" fun _ => true⟩⟩
    let t := empty.run [.replaceAll [route "b", route "a"], .replaceAll [route "c", route "c"]]
    let d : Directory := ⟨t, 1, 1⟩
    (∃ pages, Walk d.listEndpoints none pages ∧
      (pages.flatMap Listing.items).map Endpoint.name = ["b", "a"]) ∧
      d.getEndpoint "a" = .ok (route "a").toEndpoint ∧
      d.getRoute "c" = .error (.routeNotFound "c") := by
  intro route t d
  obtain ⟨-, get, -, single, lists⟩ :=
    views_agree [.replaceAll [route "b", route "a"], .replaceAll [route "c", route "c"]] 1 1
  have routes : t.routes = [route "b", route "a"] := rfl
  obtain ⟨⟨pages, walk⟩, ⟨pages', walk'⟩, agree⟩ :=
    lists (show t.size ≤ Page.lastIndex by decide +kernel)
  refine ⟨⟨pages, walk, (agree _ _ walk walk').names_endpoints⟩, ?_, ?_⟩
  · have found := (get "a" (route "a")).2 ⟨show route "a" ∈ t.routes by simp [routes], rfl⟩
    rcases single "a" with ⟨r, hr, he, -⟩ | ⟨hr, -⟩
    · rw [Option.some.inj (found.symm.trans hr)]
      exact he
    · cases found.symm.trans hr
  · rcases single "c" with ⟨r, hr, -⟩ | ⟨-, -, hv⟩
    · have none_c : t.get? "c" = none := by decide +kernel
      cases none_c.symm.trans hr
    · exact hv

end Table

end InferenceGateway
