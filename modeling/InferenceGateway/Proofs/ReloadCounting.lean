import InferenceGateway.Proofs.Reading
import InferenceGateway.Gateway

/-!
# Counting reloads

What the counters tell of a gateway that is told again and again to reload its configuration.
A call comes to the counters only with a configuration in hand: where the file cannot be read, or
does not hold a configuration, it ends before. So both counters are short of the calls by the
number of those (`uncounted`), and right exactly if there are none.

* `Gateway.reload_step`: what one call does to the counters.
* `Gateway.reloadAll_counts`: what any row of calls does.
-/

namespace InferenceGateway.Gateway

/-- Reloads again and again, with the variables and the files as they are each time: what the
    calls return, and the gateway after the last one. -/
def reloadAll (g : Gateway) :
    List (Environment × Files) → List (Except GatewayError Unit) × Gateway
  | [] => ([], g)
  | call :: calls =>
    let result := g.reload call.1 call.2
    let later := result.2.reloadAll calls
    (result.1 :: later.1, later.2)

/-- Whether the file at a path holds a configuration. -/
def holdsConfig (path : String) (call : Environment × Files) : Bool :=
  (GatewayConfig.load call.1 call.2 path).isOk

/-- The number of calls that find no configuration. -/
def uncounted (path : String) (calls : List (Environment × Files)) : Nat :=
  calls.countP (! holdsConfig path ·)

/-- The number of calls that return an error. -/
def refused (results : List (Except GatewayError Unit)) : Nat := results.countP (! ·.isOk)

/-- Calls are counted one by one. -/
theorem uncounted_cons (path : String) (call : Environment × Files)
    (calls : List (Environment × Files)) :
    uncounted path (call :: calls) = uncounted path [call] + uncounted path calls := by
  rw [← List.singleton_append, uncounted, List.countP_append]
  rfl

theorem refused_cons (result : Except GatewayError Unit)
    (results : List (Except GatewayError Unit)) :
    refused (result :: results) = refused [result] + refused results := by
  rw [← List.singleton_append, refused, List.countP_append]
  rfl

variable {g : Gateway} {path : String}

/-- Taking over a configuration is counted, and so is refusing it. -/
theorem apply_counts (g : Gateway) (config : GatewayConfig) :
    (g.apply config).2.path = g.path ∧
    (g.apply config).2.metrics.reloads = g.metrics.reloads + 1 ∧
    (g.apply config).2.metrics.reloadFailures =
      g.metrics.reloadFailures + refused [(g.apply config).1] := by
  rw [apply]
  split <;> exact ⟨rfl, rfl, rfl⟩

/-- A call keeps the path of the file. It adds to the counters, unless the file holds no
    configuration; then it returns an error that is not counted. -/
theorem reload_step (h : g.path = some path) (call : Environment × Files) :
    let result := g.reload call.1 call.2
    result.2.path = some path ∧
    result.2.metrics.reloads + uncounted path [call] = g.metrics.reloads + 1 ∧
    result.2.metrics.reloadFailures + uncounted path [call] =
      g.metrics.reloadFailures + refused [result.1] := by
  rw [uncounted, List.countP_singleton, holdsConfig]
  rcases hc : GatewayConfig.load call.1 call.2 path with e | config
  · have hr : g.reload call.1 call.2 = (.error e, g) := by simp only [reload, h, hc]
    rw [hr]
    exact ⟨h, rfl, rfl⟩
  · have hr : g.reload call.1 call.2 = g.apply config := by simp only [reload, h, hc]
    rw [hr]
    obtain ⟨hp, reloads, failures⟩ := g.apply_counts config
    exact ⟨hp.trans h, reloads, failures⟩

/-- After any row of calls each counter has grown by the number of calls, or of errors, less the
    number of calls that found no configuration. -/
theorem metrics_reloadAll (h : g.path = some path) (calls : List (Environment × Files)) :
    (g.reloadAll calls).2.metrics.reloads + uncounted path calls =
      g.metrics.reloads + calls.length ∧
    (g.reloadAll calls).2.metrics.reloadFailures + uncounted path calls =
      g.metrics.reloadFailures + refused (g.reloadAll calls).1 := by
  -- The path stays the same from call to call, so it is always the same file that is read.
  induction calls generalizing g with
  | nil => exact ⟨rfl, rfl⟩
  | cons call calls ih =>
    obtain ⟨hp, reloads, failures⟩ := reload_step h call
    obtain ⟨later_reloads, later_failures⟩ := ih hp
    simp only [reloadAll]
    rw [uncounted_cons, refused_cons, List.length_cons]
    omega

/-- A gateway remembers the path of its file. -/
theorem path_of_ofFile {resolver : Resolver} {env : Environment} {files : Files}
    (h : ofFile resolver env files path = .ok g) : g.path = some path := by
  obtain ⟨config, -, h⟩ := Document.ok_of_bind h
  obtain ⟨g', -, h⟩ := Document.ok_of_bind h
  cases h
  rfl

/-- The file of a gateway held a configuration when the gateway was made. -/
theorem holdsConfig_of_ofFile {resolver : Resolver} {env : Environment} {files : Files}
    (h : ofFile resolver env files path = .ok g) : holdsConfig path (env, files) := by
  obtain ⟨config, hc, -⟩ := Document.ok_of_bind h
  rw [holdsConfig, hc]
  rfl

/-- What is counted of the calls of a gateway with a file: all but those that find no configuration
    in it. So the counters tell the number of calls and the number of errors exactly if every call
    finds one. -/
theorem reloadAll_counts {resolver : Resolver} {env : Environment} {files : Files}
    (h : ofFile resolver env files path = .ok g) (calls : List (Environment × Files)) :
    let results := (g.reloadAll calls).1
    let after := (g.reloadAll calls).2.metrics
    after.reloads + uncounted path calls = g.metrics.reloads + calls.length ∧
    after.reloadFailures + uncounted path calls = g.metrics.reloadFailures + refused results ∧
    (after.reloads = g.metrics.reloads + calls.length ∧
      after.reloadFailures = g.metrics.reloadFailures + refused results ↔
        ∀ call ∈ calls, holdsConfig path call) := by
  intro results after
  have counts := metrics_reloadAll (path_of_ofFile h) calls
  have reloads : after.reloads + uncounted path calls = g.metrics.reloads + calls.length := counts.1
  have failures : after.reloadFailures + uncounted path calls =
      g.metrics.reloadFailures + refused results := counts.2
  have all : uncounted path calls = 0 ↔ ∀ call ∈ calls, holdsConfig path call := by
    simp [uncounted, List.countP_eq_zero]
  refine ⟨reloads, failures, ?_⟩
  rw [← all]
  omega

/-- A file with one endpoint of a provider. -/
def fileWith (provider : String) : Files := fun _ => .ok <| Text.Utf8.encode <|
  "endpoints:\n- name: a\n  endpoint_type: llm/v1/chat\n  model:\n    name: m\n    provider: " ++
    provider ++ "\n    config:\n      api_key: k\n"

/-- There is no file. -/
def noFile : Files := fun _ => .error "No such file or directory (os error 2)"

/-- A gateway of the file. -/
theorem exists_ofFile_fileWith :
    ∃ g, ofFile .builtin (fun _ => none) (fileWith "openai") "a.yaml" = .ok g ∧
      g.metrics = .zero := by
  have loads : ((ofFile .builtin (fun _ => none) (fileWith "openai") "a.yaml").toOption.map
      Gateway.metrics) = some .zero := by
    decide +kernel
  rcases hg : ofFile .builtin (fun _ => none) (fileWith "openai") "a.yaml" with e | g
  · rw [hg] at loads
    cases loads
  · rw [hg] at loads
    exact ⟨g, rfl, Option.some.inj loads⟩

/-- Of three calls one finds no file and one an unknown provider; two come to the counters. -/
theorem reloadAll_counts_two :
    let env : Environment := fun _ => none
    let calls := [(env, noFile), (env, fileWith "nobody"), (env, fileWith "openai")]
    ∃ g, ofFile .builtin env (fileWith "openai") "a.yaml" = .ok g ∧
      (g.reloadAll calls).2.metrics.reloads = 2 ∧
      (g.reloadAll calls).2.metrics.reloadFailures + 1 = refused (g.reloadAll calls).1 := by
  intro env calls
  obtain ⟨g, hg, hz⟩ := exists_ofFile_fileWith
  have missing : holdsConfig "a.yaml" (env, noFile) = false := rfl
  have unknown : holdsConfig "a.yaml" (env, fileWith "nobody") = true := by decide +kernel
  have known : holdsConfig "a.yaml" (env, fileWith "openai") = true := holdsConfig_of_ofFile hg
  have one : uncounted "a.yaml" calls = 1 := by simp [uncounted, calls, missing, unknown, known]
  obtain ⟨reloads, failures, -⟩ := reloadAll_counts hg calls
  rw [one, hz] at reloads failures
  refine ⟨g, hg, Nat.add_right_cancel reloads, ?_⟩
  rw [failures]
  exact Nat.zero_add _

/-- A call that finds no file returns an error, and no counter tells of it. -/
theorem reloadAll_noFile :
    ∃ g, ofFile .builtin (fun _ => none) (fileWith "openai") "a.yaml" = .ok g ∧
      refused (g.reloadAll [(fun _ => none, noFile)]).1 = 1 ∧
      (g.reloadAll [(fun _ => none, noFile)]).2.metrics = g.metrics := by
  obtain ⟨g, hg, -⟩ := exists_ofFile_fileWith
  have hr : g.reload (fun _ => none) noFile =
      (.error (.config (.unreadableFile "a.yaml" "No such file or directory (os error 2)")),
        g) := by
    simp only [reload, path_of_ofFile hg]
    rfl
  refine ⟨g, hg, ?_, ?_⟩ <;> simp only [reloadAll, hr]
  rfl

end InferenceGateway.Gateway
