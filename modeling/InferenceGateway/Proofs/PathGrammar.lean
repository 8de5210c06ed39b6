import InferenceGateway.Proofs.AllowedMethods
import InferenceGateway.Proofs.TaskAddress
import Mathlib

/-!
# The grammar of paths

The paths that are served, as rules: a fixed path, a collection with or without a slash at its
end, a name after a base, and a name between a base and a last part. Routing tests for one rule
after the other. Bases begin in the same way and names can be any words, also those that fixed
paths have in their place. Yet no path is one of two rules, so it does not matter which of them
is tested for first.

Two rules are kept apart by their rows, which are the parts of their paths between the slashes
(`Rule.rows`): rows of one path have the same length, and no two of their parts are different.

* `Rule.test_eq_some`: what is tested for is what a rule says.
* `Rule.eq_of_leads`: no path is one of two rules.
* `route_eq_findSome?`: routing is testing for the rules.
* `route_grammar`: so what a path leads to is what its rule says, whatever the order of the tests.
-/

namespace InferenceGateway.Server.Target

/-! ## Rules -/

/-- A name that can stand between two slashes. -/
def IsName (s : String) : Prop := s ≠ "" ∧ '/' ∉ s.toList

instance : DecidablePred IsName := fun _ => inferInstanceAs (Decidable (_ ∧ _))

/-- The form of paths, and what they are for. Bases have no slash at their end. -/
inductive Rule where
  | fixed (path : String) (target : Target)
  /-- A base, with or without a slash after it. -/
  | collection (base : String) (target : Target)
  /-- A name after a base. -/
  | item (base : String) (target : String → Target)
  /-- A name between a base and a last part. -/
  | within (base last : String) (target : String → Target)

/-- The rules of a method. -/
def rules (method : String) : List Rule :=
  if method = "GET" then
    [.fixed "/health" .health, .fixed "/api/2.0/gateway/health" .health,
      .fixed "/metrics" .metrics,
      .item "/api/2.0/endpoints/limits" fun _ => .getLimits,
      .item "/api/2.0/gateway/limits" fun _ => .getLimits,
      .collection "/api/2.0/endpoints" .listEndpoints, .item "/api/2.0/endpoints" .getEndpoint,
      .collection "/api/2.0/gateway/routes" .searchRoutes,
      .item "/api/2.0/gateway/routes" .getRoute]
  else if method = "POST" then
    [.collection "/api/2.0/endpoints/limits" .setLimits,
      .collection "/api/2.0/gateway/limits" .setLimits,
      .within "/endpoints" "invocations" .invoke, .within "/gateway" "invocations" .invoke]
  else []

namespace Rule

/-- A path is one of a rule, and is for a target. -/
inductive Leads : Rule → String → Target → Prop
  | fixed (path : String) (t : Target) : Leads (.fixed path t) path t
  | collection (base : String) (t : Target) : Leads (.collection base t) base t
  | collection_slash (base : String) (t : Target) : Leads (.collection base t) (base ++ "/") t
  | item (base : String) (t : String → Target) {s : String} :
    IsName s → Leads (.item base t) (base ++ "/" ++ s) (t s)
  | within (base last : String) (t : String → Target) {s : String} :
    IsName s → Leads (.within base last t) (base ++ "/" ++ s ++ ("/" ++ last)) (t s)

/-- The test for a rule. -/
def test (r : Rule) (path : String) : Option Target :=
  match r with
  | .fixed other t => if path = other then some t else none
  | .collection base t => if isCollection (base ++ "/") path then some t else none
  | .item base t => (segment? (base ++ "/") path).map t
  | .within base last t => (segmentBetween? (base ++ "/") ("/" ++ last) path).map t

end Rule

/-! ## Tests -/

theorem isSegment_iff {s : List Char} : isSegment s ↔ IsName (String.ofList s) := by
  simp [isSegment, IsName]

theorem afterBase?_eq_some {base path s : List Char} :
    afterBase? base path = some s ↔ path = base ++ s := by
  constructor
  · intro h
    rw [afterBase?] at h
    split at h
    · rename_i hp
      obtain ⟨rest, rfl⟩ := List.isPrefixOf_iff_prefix.1 hp
      rw [List.drop_left] at h
      rw [Option.some.inj h]
    · cases h
  · rintro rfl
    exact afterBase?_append base s

theorem beforeSuffix?_eq_some {suffix path s : List Char} :
    beforeSuffix? suffix path = some s ↔ path = s ++ suffix := by
  constructor
  · intro h
    rw [beforeSuffix?] at h
    split at h
    · rename_i hp
      obtain ⟨front, rfl⟩ := List.isSuffixOf_iff_suffix.1 hp
      simp at h
      rw [h]
    · cases h
  · rintro rfl
    exact beforeSuffix?_append suffix s

theorem isCollection_slash {base path : String} :
    isCollection (base ++ "/") path ↔ path = base ∨ path = base ++ "/" := by
  have slash : (base ++ "/").toList.dropLast = base.toList := by
    rw [String.toList_append]
    exact List.dropLast_concat
  rw [isCollection, slash, Bool.or_eq_true, decide_eq_true_eq, decide_eq_true_eq,
    String.toList_inj, or_comm]

theorem segment?_eq_some {base path s : String} :
    segment? base path = some s ↔ IsName s ∧ path = base ++ s := by
  simp only [segment?, Option.map_eq_some_iff, Option.filter_eq_some_iff, afterBase?_eq_some,
    isSegment_iff]
  constructor
  · rintro ⟨s, ⟨hp, hs⟩, rfl⟩
    exact ⟨hs, String.toList_injective (by simpa using hp)⟩
  · rintro ⟨hs, rfl⟩
    exact ⟨s.toList, ⟨String.toList_append, by rwa [String.ofList_toList]⟩, String.ofList_toList⟩

theorem segmentBetween?_eq_some {base suffix path s : String} :
    segmentBetween? base suffix path = some s ↔ IsName s ∧ path = base ++ s ++ suffix := by
  simp only [segmentBetween?, Option.map_eq_some_iff, Option.filter_eq_some_iff,
    Option.bind_eq_some_iff, afterBase?_eq_some, beforeSuffix?_eq_some, isSegment_iff]
  constructor
  · rintro ⟨s, ⟨⟨rest, hp, rfl⟩, hs⟩, rfl⟩
    exact ⟨hs, String.toList_injective (by simpa using hp)⟩
  · rintro ⟨hs, rfl⟩
    exact ⟨s.toList, ⟨⟨_, by simp, rfl⟩, by rwa [String.ofList_toList]⟩, String.ofList_toList⟩

namespace Rule

variable {r r' : Rule} {path : String} {t t' : Target}

/-- The test for a rule finds what the rule says. -/
theorem test_eq_some : r.test path = some t ↔ r.Leads path t := by
  constructor
  · intro h
    cases r with
    | fixed other t =>
      rw [test] at h
      split at h
      · cases h
        rename_i hp
        rw [hp]
        exact .fixed _ _
      · cases h
    | collection base t =>
      rw [test] at h
      split at h
      · rename_i hp
        cases h
        rcases isCollection_slash.1 hp with rfl | rfl
        · exact .collection _ _
        · exact .collection_slash _ _
      · cases h
    | item base t =>
      obtain ⟨s, hs, rfl⟩ := Option.map_eq_some_iff.1 h
      obtain ⟨name, rfl⟩ := segment?_eq_some.1 hs
      exact .item base t name
    | within base last t =>
      obtain ⟨s, hs, rfl⟩ := Option.map_eq_some_iff.1 h
      obtain ⟨name, rfl⟩ := segmentBetween?_eq_some.1 hs
      exact .within base last t name
  · intro h
    cases h with
    | fixed => rw [test, if_pos rfl]
    | collection base => rw [test, if_pos (isCollection_slash.2 (.inl rfl))]
    | collection_slash base => rw [test, if_pos (isCollection_slash.2 (.inr rfl))]
    | item base _ name => rw [test, segment?_eq_some.2 ⟨name, rfl⟩, Option.map_some]
    | within base last _ name => rw [test, segmentBetween?_eq_some.2 ⟨name, rfl⟩, Option.map_some]

/-! ## Rows -/

/-- The parts of a path between its slashes. -/
def parts (path : String) : List (Option (List Char)) := (Text.splitAt '/' path.toList).map some

/-- The parts of the paths of a rule, without the name. -/
def rows : Rule → List (List (Option (List Char)))
  | .fixed path _ => [parts path]
  | .collection base _ => [parts base, parts base ++ [some []]]
  | .item base _ => [parts base ++ [none]]
  | .within base last _ => [parts base ++ none :: parts last]

/-- A part of a path that stands in a row. -/
def Fills (part : List Char) : Option (List Char) → Prop
  | some other => part = other
  | none => isSegment part

/-- Whether a part can stand in two places of rows. -/
def agree : Option (List Char) → Option (List Char) → Bool
  | some x, some y => x = y
  | some x, none | none, some x => isSegment x
  | none, none => true

theorem agree_of_fills {part : List Char} {x y : Option (List Char)} (hx : Fills part x)
    (hy : Fills part y) : agree x y := by
  cases x with
  | none =>
    cases y with
    | none => rfl
    | some y =>
      obtain rfl : part = y := hy
      exact hx
  | some x =>
    obtain rfl : part = x := hx
    cases y with
    | none => exact hy
    | some y => exact decide_eq_true hy

theorem fills_parts (path : String) :
    List.Forall₂ Fills (Text.splitAt '/' path.toList) (parts path) := by
  rw [parts, List.forall₂_map_right_iff]
  exact List.forall₂_same.2 fun _ _ => rfl

/-- Two paths with a slash between them have the parts of both. -/
theorem splitAt_slash (front back : String) : Text.splitAt '/' (front ++ "/" ++ back).toList =
    Text.splitAt '/' front.toList ++ Text.splitAt '/' back.toList := by
  rw [← Text.splitAt_append_cons]
  simp

/-- A name has one part. -/
theorem splitAt_name {s : String} (hs : IsName s) : Text.splitAt '/' s.toList = [s.toList] := by
  have whole := List.splitOn_intercalate '/' (List.forall_mem_singleton.2 hs.2)
    (List.cons_ne_nil s.toList [])
  rwa [List.intercalate_singleton, ← Text.splitAt_eq_splitOn] at whole

/-- The parts of a path stand in a row of its rule. -/
theorem exists_row (h : r.Leads path t) :
    ∃ row ∈ r.rows, List.Forall₂ Fills (Text.splitAt '/' path.toList) row := by
  have name {s : String} (hs : IsName s) : Fills s.toList none :=
    isSegment_iff.2 (by rwa [String.ofList_toList])
  cases h with
  | fixed => exact ⟨_, List.mem_singleton_self _, fills_parts path⟩
  | collection => exact ⟨_, List.mem_cons_self, fills_parts path⟩
  | collection_slash base =>
    refine ⟨parts base ++ [some []], List.mem_cons_of_mem _ List.mem_cons_self, ?_⟩
    have cut := splitAt_slash base ""
    rw [String.append_empty] at cut
    rw [cut]
    exact List.rel_append (fills_parts base) (.cons rfl .nil)
  | item base _ hs =>
    refine ⟨_, List.mem_singleton_self _, ?_⟩
    rw [splitAt_slash, splitAt_name hs]
    exact List.rel_append (fills_parts base) (.cons (name hs) .nil)
  | within base last _ hs =>
    refine ⟨_, List.mem_singleton_self _, ?_⟩
    rw [← String.append_assoc, splitAt_slash, splitAt_slash, splitAt_name hs, List.append_assoc]
    exact List.rel_append (fills_parts base) (.cons (name hs) (fills_parts last))

/-- Whether a row of a rule and a row of another can be those of one path. -/
def meets (r r' : Rule) : Bool :=
  r.rows.any fun row => r'.rows.any fun row' => decide (List.Forall₂ (agree · ·) row row')

theorem meets_of_leads (h : r.Leads path t) (h' : r'.Leads path t') : r.meets r' := by
  obtain ⟨row, hr, fills⟩ := exists_row h
  obtain ⟨row', hr', fills'⟩ := exists_row h'
  refine List.any_eq_true.2 ⟨row, hr, List.any_eq_true.2 ⟨row', hr', decide_eq_true ?_⟩⟩
  generalize Text.splitAt '/' path.toList = cut at fills fills'
  clear hr hr'
  induction fills generalizing row' with
  | nil =>
    cases fills'
    exact .nil
  | cons hx _ ih =>
    cases fills' with
    | cons hy fills' => exact .cons (agree_of_fills hx hy) (ih _ fills')

/-- No path is one of both rules. -/
def Apart (r r' : Rule) : Prop := ∀ path t t', r.Leads path t → ¬r'.Leads path t'

instance : Std.Symm Apart := ⟨fun _ _ h path t t' hr hr' => h path t' t hr' hr⟩

/-- No path is one of two rules of a method. -/
theorem pairwise_rules (method : String) : (rules method).Pairwise Apart := by
  have rows : (rules method).Pairwise fun r r' => ¬r.meets r' := by
    rw [rules]
    split
    · decide +kernel
    · split
      · decide +kernel
      · exact .nil
  exact rows.imp fun h _ _ _ hr hr' => h (meets_of_leads hr hr')

/-- A path is one of one rule at most, and is for one target. -/
theorem eq_of_leads {method : String} (hr : r ∈ rules method) (hr' : r' ∈ rules method)
    (h : r.Leads path t) (h' : r'.Leads path t') : r = r' ∧ t = t' := by
  have same : r = r' := by
    by_contra hne
    exact (pairwise_rules method).forall hr hr' hne path t t' h h'
  subst same
  refine ⟨rfl, Option.some.inj ?_⟩
  rw [← test_eq_some.2 h, test_eq_some.2 h']

/-- The first of the rules whose test finds something is the one that the path is one of, whatever
    the order of the rules. -/
theorem findSome?_eq_some {method : String} {rs : List Rule} (hrs : rs.Perm (rules method)) :
    rs.findSome? (·.test path) = some t ↔ ∃ r ∈ rules method, r.Leads path t := by
  constructor
  · intro h
    obtain ⟨r, hr, ht⟩ := List.exists_of_findSome?_eq_some h
    exact ⟨r, hrs.subset hr, test_eq_some.1 ht⟩
  · rintro ⟨r, hr, h⟩
    have found : (rs.findSome? (·.test path)).isSome :=
      List.findSome?_isSome_iff.2 ⟨r, hrs.symm.subset hr, by simp [test_eq_some.2 h]⟩
    obtain ⟨t', ht'⟩ := Option.isSome_iff_exists.1 found
    obtain ⟨r', hr', h'⟩ := List.exists_of_findSome?_eq_some ht'
    rw [ht', (eq_of_leads hr (hrs.subset hr') h (test_eq_some.1 h')).2]

end Rule

/-! ## Routing -/

variable {method path : String} {t : Target}

section Tests

variable {rs : List Rule} {base : String}

/-- Testing for a fixed path or a collection first. -/
theorem findSome?_fixed {other : String} :
    (.fixed other t :: rs : List Rule).findSome? (·.test path) =
    if path = other then some t else rs.findSome? (·.test path) := by
  rw [List.findSome?_cons, Rule.test]
  by_cases h : path = other
  · simp only [h, if_true]
  · simp only [h, if_false]

theorem findSome?_collection : (.collection base t :: rs : List Rule).findSome? (·.test path) =
    if isCollection (base ++ "/") path then some t else rs.findSome? (·.test path) := by
  rw [List.findSome?_cons, Rule.test]
  cases isCollection (base ++ "/") path <;> rfl

/-- Testing for a name first. -/
theorem findSome?_item {t : String → Target} :
    (.item base t :: rs : List Rule).findSome? (·.test path) =
      match segment? (base ++ "/") path with
      | some s => some (t s)
      | none => rs.findSome? (·.test path) := by
  rw [List.findSome?_cons, Rule.test]
  cases segment? (base ++ "/") path <;> rfl

theorem findSome?_within {last : String} {t : String → Target} :
    (.within base last t :: rs : List Rule).findSome? (·.test path) =
      match segmentBetween? (base ++ "/") ("/" ++ last) path with
      | some s => some (t s)
      | none => rs.findSome? (·.test path) := by
  rw [List.findSome?_cons, Rule.test]
  cases segmentBetween? (base ++ "/") ("/" ++ last) path <;> rfl

end Tests

theorem ofGet_eq_findSome? (path : String) :
    ofGet path = (rules "GET").findSome? (·.test path) := by
  have endpoints : endpointsBase = "/api/2.0/endpoints" ++ "/" := by decide +kernel
  have routes : routesBase = "/api/2.0/gateway/routes" ++ "/" := by decide +kernel
  have endpointLimits : endpointLimitsBase = "/api/2.0/endpoints/limits" ++ "/" := by
    decide +kernel
  have routeLimits : routeLimitsBase = "/api/2.0/gateway/limits" ++ "/" := by decide +kernel
  rw [ofGet, rules, if_pos rfl, endpoints, routes, endpointLimits, routeLimits]
  simp only [findSome?_fixed, findSome?_collection, findSome?_item, List.findSome?_nil, healthPaths,
    metricsPath, List.contains_cons, List.contains_nil, Bool.or_false, Bool.or_eq_true, beq_iff_eq,
    ite_or]
  -- What is left is the two tests for limits, which look for a name but do not keep it, and the
  -- last test, which is the answer.
  congr 3
  cases segment? ("/api/2.0/endpoints/limits" ++ "/") path
  · cases segment? ("/api/2.0/gateway/limits" ++ "/") path
    · cases segment? ("/api/2.0/gateway/routes" ++ "/") path <;> rfl
    · rfl
  · rfl

theorem ofPost_eq_findSome? (path : String) :
    ofPost path = (rules "POST").findSome? (·.test path) := by
  have endpointLimits : endpointLimitsBase = "/api/2.0/endpoints/limits" ++ "/" := by
    decide +kernel
  have routeLimits : routeLimitsBase = "/api/2.0/gateway/limits" ++ "/" := by decide +kernel
  have endpoint : Route.endpointBase = "/endpoints" ++ "/" := by decide +kernel
  have gateway : Route.routeBase = "/gateway" ++ "/" := by decide +kernel
  have suffix : Route.invocationSuffix = "/" ++ "invocations" := by decide +kernel
  have other : "POST" ≠ "GET" := by decide
  rw [ofPost, rules, if_neg other, if_pos rfl, endpointLimits, routeLimits, endpoint, gateway,
    suffix]
  simp only [findSome?_collection, findSome?_within, Bool.or_eq_true, ite_or]
  simp only [List.findSome?_cons, List.findSome?_nil]
  congr 2
  cases segmentBetween? ("/endpoints" ++ "/") ("/" ++ "invocations") path
  · cases segmentBetween? ("/gateway" ++ "/") ("/" ++ "invocations") path <;> rfl
  · rfl

/-- Routing is testing for the rules. -/
theorem route_eq_findSome? (method path : String) :
    route method path = (rules method).findSome? (·.test path) := by
  by_cases hg : method = "GET"
  · subst hg
    exact ofGet_eq_findSome? path
  by_cases hp : method = "POST"
  · subst hp
    exact ofPost_eq_findSome? path
  · rw [route, if_neg hg, if_neg hp, rules, if_neg hg, if_neg hp, List.findSome?_nil]

/-- What a path leads to is what its rule says. -/
theorem route_eq_some : route method path = some t ↔ ∃ r ∈ rules method, r.Leads path t := by
  rw [route_eq_findSome?, Rule.findSome?_eq_some (.refl _)]

/-! ## Names in paths -/

namespace Rule

@[simp] theorem leads_fixed {other : String} {u : Target} :
    (fixed other u).Leads path t ↔ path = other ∧ t = u := by
  constructor
  · intro h
    cases h
    exact ⟨rfl, rfl⟩
  · rintro ⟨rfl, rfl⟩
    exact .fixed _ _

@[simp] theorem leads_collection {base : String} {u : Target} :
    (collection base u).Leads path t ↔ (path = base ∨ path = base ++ "/") ∧ t = u := by
  constructor
  · intro h
    cases h
    · exact ⟨.inl rfl, rfl⟩
    · exact ⟨.inr rfl, rfl⟩
  · rintro ⟨rfl | rfl, rfl⟩
    · exact .collection _ _
    · exact .collection_slash _ _

@[simp] theorem leads_item {base : String} {u : String → Target} :
    (item base u).Leads path t ↔ ∃ s, IsName s ∧ path = base ++ "/" ++ s ∧ t = u s := by
  constructor
  · intro h
    cases h with
    | item _ _ hs => exact ⟨_, hs, rfl, rfl⟩
  · rintro ⟨s, hs, rfl, rfl⟩
    exact .item _ _ hs

@[simp] theorem leads_within {base last : String} {u : String → Target} :
    (within base last u).Leads path t ↔
      ∃ s, IsName s ∧ path = base ++ "/" ++ s ++ ("/" ++ last) ∧ t = u s := by
  constructor
  · intro h
    cases h with
    | within _ _ _ hs => exact ⟨_, hs, rfl, rfl⟩
  · rintro ⟨s, hs, rfl, rfl⟩
    exact .within _ _ _ hs

end Rule

section Names

variable {s : String}

/-- There are rules for two methods. -/
theorem exists_mem_rules {p : Rule → Prop} : (∃ r ∈ rules method, p r) ↔
    method = "GET" ∧ (∃ r ∈ rules "GET", p r) ∨ method = "POST" ∧ ∃ r ∈ rules "POST", p r := by
  by_cases hg : method = "GET"
  · simp [hg]
  by_cases hp : method = "POST"
  · simp [hp]
  · simp [rules, hg, hp]

theorem route_eq_invoke : route method path = some (.invoke s) ↔
    method = "POST" ∧ IsName s ∧ ∃ base ∈ ["/endpoints/", "/gateway/"],
      path = base ++ s ++ "/invocations" := by
  rw [route_eq_some, exists_mem_rules]
  simp [rules, ← and_or_left]

theorem route_eq_getEndpoint : route method path = some (.getEndpoint s) ↔
    method = "GET" ∧ IsName s ∧ path = "/api/2.0/endpoints/" ++ s := by
  rw [route_eq_some, exists_mem_rules]
  simp [rules]

theorem route_eq_getRoute : route method path = some (.getRoute s) ↔
    method = "GET" ∧ IsName s ∧ path = "/api/2.0/gateway/routes/" ++ s := by
  rw [route_eq_some, exists_mem_rules]
  simp [rules]

end Names

/-- The grammar of paths. A path is one of one rule at most and leads to what that rule says, or
    to nothing if it is one of none, in whatever order the rules are tested for. A target with a
    name is that of a path with this name between the parts that the target has, whatever the name
    is, and of no other path. -/
theorem route_grammar (method path : String) :
    (∀ r ∈ rules method, ∀ r' ∈ rules method, ∀ t t', r.Leads path t → r'.Leads path t' →
      r = r' ∧ t = t') ∧
    (∀ t, route method path = some t ↔ ∃ r ∈ rules method, r.Leads path t) ∧
    (∀ rs : List Rule, rs.Perm (rules method) →
      rs.findSome? (·.test path) = route method path) ∧
    ∀ s,
      (route method path = some (.invoke s) ↔ method = "POST" ∧ IsName s ∧
        ∃ base ∈ ["/endpoints/", "/gateway/"], path = base ++ s ++ "/invocations") ∧
      (route method path = some (.getEndpoint s) ↔
        method = "GET" ∧ IsName s ∧ path = "/api/2.0/endpoints/" ++ s) ∧
      (route method path = some (.getRoute s) ↔
        method = "GET" ∧ IsName s ∧ path = "/api/2.0/gateway/routes/" ++ s) := by
  refine ⟨fun r hr r' hr' t t' => Rule.eq_of_leads hr hr', fun t => route_eq_some,
    fun rs hrs => ?_, fun s => ⟨route_eq_invoke, route_eq_getEndpoint, route_eq_getRoute⟩⟩
  ext t
  rw [Rule.findSome?_eq_some hrs, route_eq_some]

/-- Names that are words of other paths: an endpoint `limits`, whose path is also that of the
    limits without a name, and an endpoint `invocations`. -/
theorem route_grammar_words :
    route "GET" "/api/2.0/endpoints/limits" = some (.getEndpoint "limits") ∧
      route "POST" "/api/2.0/endpoints/limits" = some .setLimits ∧
      route "POST" "/gateway/invocations/invocations" = some (.invoke "invocations") ∧
      route "POST" "/gateway//invocations" = none := by
  have name : ∀ s ∈ ["limits", "invocations"], IsName s := by decide +kernel
  obtain ⟨-, -, -, get⟩ := route_grammar "GET" "/api/2.0/endpoints/limits"
  obtain ⟨-, limits, -, -⟩ := route_grammar "POST" "/api/2.0/endpoints/limits"
  obtain ⟨-, -, -, post⟩ := route_grammar "POST" "/gateway/invocations/invocations"
  refine ⟨(get _).2.1.2 ⟨rfl, name _ (by simp), by decide +kernel⟩, (limits _).2 ?_,
    (post _).1.2 ⟨rfl, name _ (by simp), "/gateway/", by simp, by decide +kernel⟩, ?_⟩
  · exact ⟨_, List.mem_cons_self, .collection _ _⟩
  · decide +kernel

end InferenceGateway.Server.Target
