import InferenceGateway.Proofs.Reachability
import Mathlib

/-!
# Allowed methods

A path that is not served under the method of a request may be served under another one; then
the answer says under which. There are two methods with paths of their own, and the names of
endpoints make that a path can be one of both.

* `Target.served`: the methods under which a path is served.
* `Target.eq_of_both`: only one path is served under both methods, because `limits` can be the
  name of an endpoint, too.
* `Target.resolve_unserved`: what is told of a path that is not served under a method.
-/

namespace InferenceGateway.Server.Target

/-- The methods under which a path is served. -/
def served (path : String) : Set String := {method | (route method path).isSome}

/-- The methods that the value of the header `allow` names. -/
def named (allow : String) : Set String := {method | method ∈ allow.splitOn ", "}

/-- The path of the limits of all endpoints, which is also that of an endpoint `limits`. -/
def limitsPath : String := "/api/2.0/endpoints/limits"

variable {method path : String} {t : Target}

/-! ## Paths of the two methods -/

theorem ofGet_ne (h : ofGet path = some t) :
    t ≠ .notFound ∧ ∀ allow, t ≠ .methodNotAllowed allow := by
  unfold ofGet at h
  repeat' split at h
  all_goals simp only [Option.some.injEq, Option.map_eq_some_iff] at h
  all_goals first | subst h | obtain ⟨_, _, rfl⟩ := h
  all_goals exact ⟨nofun, nofun⟩

theorem ofPost_ne (h : ofPost path = some t) :
    t ≠ .notFound ∧ ∀ allow, t ≠ .methodNotAllowed allow := by
  unfold ofPost at h
  split at h
  · cases h
    exact ⟨nofun, nofun⟩
  · obtain ⟨_, _, rfl⟩ := Option.map_eq_some_iff.1 h
    exact ⟨nofun, nofun⟩

/-- A path is a base or the base without its last slash. -/
theorem eq_of_isCollection {base : String} (h : isCollection base path) :
    path = base ∨ path = String.ofList base.toList.dropLast := by
  rw [isCollection, Bool.or_eq_true, decide_eq_true_eq, decide_eq_true_eq] at h
  exact h.imp_right fun h => by rw [← h, String.ofList_toList]

/-- A path with a segment in it begins with its base. -/
theorem eq_append_of_segmentBetween? {base suffix : String}
    (h : (segmentBetween? base suffix path).isSome) : ∃ s, path = base ++ s := by
  have hp : base.toList <+: path.toList := by
    by_contra hn
    rw [segmentBetween?, afterBase?, if_neg (by simpa using hn)] at h
    cases h
  obtain ⟨s, hs⟩ := hp
  refine ⟨String.ofList s, String.toList_injective ?_⟩
  rw [String.toList_append, String.toList_ofList, hs]

/-- What is served under `POST`: the limits, and what begins like an invocation. -/
theorem of_ofPost (h : (ofPost path).isSome) :
    path ∈ [endpointLimitsBase, limitsPath, routeLimitsBase, "/api/2.0/gateway/limits"] ∨
      ∃ base ∈ [Route.endpointBase, Route.routeBase], ∃ s, path = base ++ s := by
  rw [ofPost] at h
  split at h
  · rename_i hl
    have without_slash : String.ofList endpointLimitsBase.toList.dropLast = limitsPath ∧
        String.ofList routeLimitsBase.toList.dropLast = "/api/2.0/gateway/limits" := by
      decide +kernel
    refine .inl ?_
    rcases Bool.or_eq_true_iff.1 hl with hl | hl
    · rcases eq_of_isCollection hl with rfl | rfl <;> simp [without_slash]
    · rcases eq_of_isCollection hl with rfl | rfl <;> simp [without_slash]
  · rw [Option.isSome_map, List.findSome?_isSome_iff] at h
    obtain ⟨base, hb, hs⟩ := h
    exact .inr ⟨base, hb, eq_append_of_segmentBetween? hs⟩

/-- What begins like an invocation is not served under `GET`. -/
theorem ofGet_invocation {base : String} (hb : base ∈ [Route.endpointBase, Route.routeBase])
    (s : String) : ofGet (base ++ s) = none := by
  have fixed : ∀ base ∈ [Route.endpointBase, Route.routeBase],
      ∀ path ∈ metricsPath :: healthPaths, ¬base.toList <+: path.toList := by
    decide +kernel
  have bases : ∀ base ∈ [Route.endpointBase, Route.routeBase],
      ∀ other ∈ [endpointLimitsBase, routeLimitsBase, endpointsBase, routesBase],
        ¬other.toList <+: base.toList ∧ ¬base.toList <+: other.toList := by
    decide +kernel
  have segment {other : String} (ho : other ∈ _) : segment? other (base ++ s) = none :=
    segment?_eq_none other (bases base hb other ho).1 (bases base hb other ho).2
  have list {other : String} (ho : other ∈ _) : isCollection other (base ++ s) = false :=
    isCollection_eq_false (prefix_append base s) (bases base hb other ho).2
  rw [ofGet_append base s (fixed base hb) (segment (by simp)) (segment (by simp)),
    list (by simp), segment (by simp), list (by simp), segment (by simp)]
  rfl

/-- Only one path is served under both methods. -/
theorem eq_of_both (hg : (ofGet path).isSome) (hp : (ofPost path).isSome) : path = limitsPath := by
  rcases of_ofPost hp with hm | ⟨base, hb, s, rfl⟩
  · have others : ∀ path ∈ [endpointLimitsBase, limitsPath, routeLimitsBase,
        "/api/2.0/gateway/limits"], (ofGet path).isSome → path = limitsPath := by
      decide +kernel
    exact others path hm hg
  · rw [ofGet_invocation hb] at hg
    cases hg

/-! ## Paths that are not served -/

theorem mem_served_get : "GET" ∈ served path ↔ (ofGet path).isSome := Iff.rfl

theorem mem_served_post : "POST" ∈ served path ↔ (ofPost path).isSome := Iff.rfl

/-- There are no paths under other methods. -/
theorem eq_of_mem_served (h : method ∈ served path) : method = "GET" ∨ method = "POST" := by
  rw [served, Set.mem_ofPred_eq, route] at h
  split at h
  · exact .inl (by assumption)
  · split at h
    · exact .inr (by assumption)
    · cases h

/-- A path that is served leads to something. -/
theorem resolve_of_mem (h : method ∈ served path) :
    resolve method path ≠ .notFound ∧ ∀ allow, resolve method path ≠ .methodNotAllowed allow := by
  obtain ⟨t, ht⟩ := Option.isSome_iff_exists.1 h
  rw [resolve_of_route ht]
  rcases eq_of_mem_served h with rfl | rfl
  · exact ofGet_ne ht
  · exact ofPost_ne ht

/-- A path that is not served is looked for under both methods. -/
theorem resolve_of_not_mem (h : method ∉ served path) : resolve method path =
    if (ofGet path).isSome then .methodNotAllowed "GET"
    else if (ofPost path).isSome then .methodNotAllowed "POST" else .notFound := by
  have none_found : route method path = none := by simpa [served] using h
  rw [resolve, none_found]
  rfl

theorem served_eq_empty : served path = ∅ ↔ ¬(ofGet path).isSome ∧ ¬(ofPost path).isSome := by
  refine ⟨fun h => ?_, fun ⟨hg, hp⟩ => Set.eq_empty_of_forall_notMem fun method hm => ?_⟩
  · rw [← mem_served_get, ← mem_served_post, h]
    exact ⟨nofun, nofun⟩
  · rcases eq_of_mem_served hm with rfl | rfl
    · exact hg hm
    · exact hp hm

/-- A value of the header that names one method. -/
theorem named_eq (h : method ∈ ["GET", "POST"]) : named method = {method} := by
  have split : method.splitOn ", " = [method] := by
    simp only [List.mem_cons, List.not_mem_nil, or_false] at h
    rcases h with rfl | rfl <;> cbv
  ext other
  rw [named, Set.mem_ofPred_eq, split, List.mem_singleton, Set.mem_singleton_iff]

/-- What is told of a path. It is not found exactly if it is served under no method, and it is
    told to be served under another method exactly if it is. The methods that are named are all
    of them, except for the one path that is served under both. -/
theorem resolve_unserved (method path : String) :
    (resolve method path = .notFound ↔ served path = ∅) ∧
    ((∃ allow, resolve method path = .methodNotAllowed allow) ↔
      method ∉ served path ∧ (served path).Nonempty) ∧
    (path ≠ limitsPath → ∀ allow, resolve method path = .methodNotAllowed allow →
      named allow = served path) := by
  by_cases hm : method ∈ served path
  · obtain ⟨found, allowed⟩ := resolve_of_mem hm
    have nonempty : served path ≠ ∅ := Set.Nonempty.ne_empty ⟨method, hm⟩
    exact ⟨iff_of_false found nonempty, iff_of_false (fun ⟨_, h⟩ => allowed _ h) fun h => h.1 hm,
      fun _ _ h => absurd h (allowed _)⟩
  rw [resolve_of_not_mem hm]
  by_cases hg : (ofGet path).isSome
  · have get : "GET" ∈ served path := hg
    rw [if_pos hg]
    refine ⟨iff_of_false nofun (Set.Nonempty.ne_empty ⟨_, get⟩),
      iff_of_true ⟨_, rfl⟩ ⟨hm, _, get⟩, fun hp allow ha => ?_⟩
    cases ha
    rw [named_eq (by simp)]
    -- The path would be the one that is served under both, if it were served under `POST`.
    refine (Set.eq_singleton_iff_unique_mem.2 ⟨get, fun other ho => ?_⟩).symm
    exact (eq_of_mem_served ho).resolve_right (by rintro rfl; exact hp (eq_of_both hg ho))
  by_cases hp : (ofPost path).isSome
  · have post : "POST" ∈ served path := hp
    rw [if_neg hg, if_pos hp]
    refine ⟨iff_of_false nofun (Set.Nonempty.ne_empty ⟨_, post⟩),
      iff_of_true ⟨_, rfl⟩ ⟨hm, _, post⟩, fun _ allow ha => ?_⟩
    cases ha
    rw [named_eq (by simp)]
    refine (Set.eq_singleton_iff_unique_mem.2 ⟨post, fun other ho => ?_⟩).symm
    exact (eq_of_mem_served ho).resolve_left (by rintro rfl; exact hg ho)
  · have empty : served path = ∅ := served_eq_empty.2 ⟨hg, hp⟩
    rw [if_neg hg, if_neg hp]
    exact ⟨iff_of_true rfl empty,
      iff_of_false nofun fun h => h.2.ne_empty empty, fun _ _ h => by cases h⟩

/-- The path of an invocation under another method. -/
theorem resolve_unserved_invocation :
    let path := "/gateway/limits/invocations"
    path ≠ limitsPath ∧ resolve "get" path = .methodNotAllowed "POST" ∧
      named "POST" = served path := by
  intro path
  have other : path ≠ limitsPath := by decide +kernel
  have told : resolve "get" path = .methodNotAllowed "POST" := by decide +kernel
  exact ⟨other, told, (resolve_unserved "get" path).2.2 other _ told⟩

/-- The path that is served under both methods is told to be served under one of them. -/
theorem resolve_limitsPath :
    "DELETE" ∉ served limitsPath ∧ "GET" ∈ served limitsPath ∧ "POST" ∈ served limitsPath ∧
      resolve "DELETE" limitsPath = .methodNotAllowed "GET" ∧ "POST" ∉ named "GET" := by
  refine ⟨?_, ?_, ?_, by decide +kernel, ?_⟩
  · intro h
    exact absurd (eq_of_mem_served h) (by decide)
  · rw [mem_served_get]
    decide +kernel
  · rw [mem_served_post]
    decide +kernel
  · rw [named_eq (by simp), Set.mem_singleton_iff]
    decide

end InferenceGateway.Server.Target
