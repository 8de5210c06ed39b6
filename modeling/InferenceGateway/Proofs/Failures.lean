import InferenceGateway.Proofs.Invocation
import InferenceGateway.Proofs.Reachability

/-!
# Failed invocations

What an invocation fails of, and what its client is told. A configuration that loads is not to
blame any more: a payload is refused, or the vendor cannot be reached, makes no sense or refuses.
Each of them has a status of its own, and none of these is one of success.

* `Handler.Failure`: the ways to fail, each with the status that is told.
* `Handler.Asks.failure`: there are no others.
* `Server.failures_of_invocation`: what this means for the routes of a configuration.
-/

namespace InferenceGateway

namespace Http

/-- A reply with a status that can be the last one of an answer. -/
def Reply.IsFinal : Reply → Prop
  | .down => True
  | .answer status _ _ => 200 ≤ status ∧ status ≤ 999

end Http

namespace Handler

/-- How an invocation fails, given the reply of the vendor, and the status that is told then. -/
inductive Failure (reply : Http.Reply) : GatewayError → (status : Nat) → Prop
  | refused (refusal : Refusal) : Failure reply (.badRequest refusal) 400
  | transport (fault : TransportFault) : Failure reply (.transport fault) 502
  | vendor {status : Nat} {pieces : List Bytes} {complete : Bool} (fault : VendorFault) :
    reply = .answer status pieces complete → ¬Http.isSuccess status →
      Failure reply (.vendor status fault) status

variable {reply : Http.Reply} {e : GatewayError} {status : Nat}

/-- No failure is one of the configuration. -/
theorem Failure.isConfiguration (h : Failure reply e status) : e.isConfiguration = false := by
  cases h <;> rfl

/-- No failure has a status of success. -/
theorem Failure.not_isSuccess (h : Failure reply e status) : ¬Http.isSuccess status := by
  cases h with
  | refused | transport => decide
  | vendor _ _ hs => exact hs

/-- A client is told the status of a vendor that refuses. -/
theorem Failure.status_eq {told : Nat} {fault : VendorFault}
    (h : Failure reply (.vendor status fault) told) : told = status := by
  cases h
  rfl

/-- A final status of a vendor is passed on. -/
theorem Failure.of_answer {pieces : List Bytes} {complete : Bool}
    (hf : (Http.Reply.answer status pieces complete).IsFinal) (hs : ¬Http.isSuccess status)
    (fault : VendorFault) : Failure (.answer status pieces complete) (.vendor status fault)
      (GatewayError.vendor status fault).status := by
  obtain ⟨low, high⟩ := hf
  have passed : (GatewayError.vendor status fault).status = status := by
    rw [GatewayError.status, if_pos]
    simp only [Bool.and_eq_true, decide_eq_true_eq]
    omega
  rw [passed]
  exact .vendor fault rfl hs

end Handler

/-- An exchange fails of the transport or of the vendor. -/
theorem Access.Exchanges.failure {α : Type} {a : Access} {c : ProviderCall α} {reply : Http.Reply}
    {later : List Http.Reply} {e : GatewayError} (hc : a.Exchanges c) (hf : reply.IsFinal)
    (he : c.result (reply :: later) = .error e) : Handler.Failure reply e e.status := by
  rcases hc.error_cases he with ⟨fault, rfl⟩ | ⟨_, _, _, _, fault, hl, hs, rfl⟩
  · exact .transport fault
  · obtain ⟨rfl, -⟩ := List.cons.inj hl
    exact .of_answer hf hs fault

/-- An exchange that is answered with another status than one of success fails of it. -/
theorem Access.Exchanges.result_refused {α : Type} {a : Access} {c : ProviderCall α}
    (hc : a.Exchanges c) (hn : c.sends) {status : Nat} (hs : ¬Http.isSuccess status)
    (pieces : List Bytes) (complete : Bool) (later : List Http.Reply) : ∃ fault,
      c.result (.answer status pieces complete :: later) = .error (.vendor status fault) := by
  obtain ⟨body, read, -, rfl⟩ := hc
  cases hp : a.request body with
  | error fault =>
    rw [hp] at hn
    exact absurd hn nofun
  | ok request =>
    rw [Provider.exchange, Call.result, List.headD_cons, Call.result, Http.Reply.success_refused hs]
    exact ⟨_, rfl⟩

namespace Handler

variable {h : Handler} {a : Access} {reply : Http.Reply} {later : List Http.Reply}
  {e : GatewayError}

/-- A handler of a provider that is always there fails in no other way. -/
theorem Asks.failure (ha : Asks h a) (hf : reply.IsFinal) {now : Nat} {body : Bytes}
    (he : (h.invoke now body).result (reply :: later) = .error e) : Failure reply e e.status := by
  by_cases hb : Accepts h.type body
  · exact (ha.exchanges hb now).failure hf he
  · obtain ⟨refusal, hi⟩ := invoke_of_not_accepts hb now
    rw [hi] at he
    cases he
    exact .refused refusal

/-- A request that the vendor refuses is an invocation that fails of it. -/
theorem Asks.result_refused (ha : Asks h a) {now : Nat} {body : Bytes}
    (hn : (h.invoke now body).sends) {status : Nat} (hs : ¬Http.isSuccess status)
    (pieces : List Bytes) (complete : Bool) (later : List Http.Reply) : ∃ fault,
      (h.invoke now body).result (.answer status pieces complete :: later) =
        .error (.vendor status fault) := by
  by_cases hb : Accepts h.type body
  · exact (ha.exchanges hb now).result_refused hn hs pieces complete later
  · obtain ⟨refusal, hi⟩ := invoke_of_not_accepts hb now
    rw [hi] at hn
    exact absurd hn nofun

end Handler

/-- Every route of the table of a configuration asks a vendor. -/
theorem Table.asks_of_ofConfig {c : GatewayConfig} {t : Table} (h : ofConfig .builtin c = .ok t)
    {route : Route} (hr : route ∈ t.routes) : ∃ a, route.handler.Asks a := by
  have compiled := Document.forall₂_of_mapM (mapM_of_ofConfig h)
  obtain ⟨e, he⟩ := Document.exists_of_forall₂ compiled route hr
  exact asks_of_compile he

namespace Server

/-- An invocation that succeeds has the status `200`, in whichever way it is answered. -/
theorem Outcome.status_ofInvocation (i : Invocation) :
    (Outcome.ofInvocation (.ok i)).answer.status = 200 := by
  cases i <;> rfl

/-- Configurations that load are not what invocations fail of, and no failure looks like a success.
    Whatever payload an endpoint is invoked with, and however its vendor replies, an invocation
    that fails is told the status of its failure, one that succeeds `200`, and a vendor's own
    status where it is not one of success. -/
theorem failures_of_invocation {c : GatewayConfig} {g : Gateway}
    (hc : Table.ofConfig .builtin c = .ok g.table) {route : Route} (hr : route ∈ g.table.routes)
    (now : Nat) (body : Bytes) {reply : Http.Reply} (hf : reply.IsFinal)
    (later : List Http.Reply) :
    let call := route.handler.invoke now body
    let answer := (Outcome.ofInvocation (call.result (reply :: later))).answer
    (∀ e, call.result (reply :: later) = .error e →
      Handler.Failure reply e answer.status ∧ e.isConfiguration = false ∧
        ¬Http.isSuccess answer.status) ∧
    (answer.status = 200 ↔ ∃ i, call.result (reply :: later) = .ok i) ∧
    (∀ status pieces complete, reply = .answer status pieces complete → ¬Http.isSuccess status →
      call.sends → answer.status = status) ∧
    ∀ request segment, Target.resolve request.method request.path = .invoke segment →
      decodeName segment = .ok route.name → request.body = .ok body →
        (respond g now request (reply :: later)).1 = answer := by
  intro call answer
  obtain ⟨a, ha⟩ := Table.asks_of_ofConfig hc hr
  have failure (e : GatewayError) (he : call.result (reply :: later) = .error e) :
      Handler.Failure reply e answer.status := by
    have told : answer.status = e.status := by
      show (Outcome.ofInvocation (call.result (reply :: later))).answer.status = _
      rw [he]
      rfl
    rw [told]
    exact ha.failure hf he
  refine ⟨fun e he => ⟨failure e he, (failure e he).isConfiguration, (failure e he).not_isSuccess⟩,
    ⟨fun hs => ?_, fun ⟨i, hi⟩ => ?_⟩, ?_, ?_⟩
  · rcases he : call.result (reply :: later) with e | i
    · exact absurd (by rw [hs]; decide) (failure e he).not_isSuccess
    · exact ⟨i, rfl⟩
  · show (Outcome.ofInvocation (call.result (reply :: later))).answer.status = _
    rw [hi]
    exact Outcome.status_ofInvocation i
  · rintro status pieces complete rfl hs hn
    obtain ⟨fault, hv⟩ := ha.result_refused hn hs pieces complete later
    exact (failure _ hv).status_eq
  · intro request segment ht hn hb
    have hg : g.table.get? route.name = some route := Table.get?_of_mem hr
    simp only [respond, answer_of_invoke ht hn hg hb, Call.result_map]
    rfl

/-- A vendor that is overloaded, and breaks off while it tells so. -/
theorem failures_of_invocation_overloaded :
    let model : ModelConfig := ⟨"m", "anthropic", ⟨some "k", some "http://h", []⟩⟩
    let route : Route :=
      ⟨"a", .completions, model, ⟨.completions, (Anthropic.Client.mk "m" "k" "http://h").provider⟩⟩
    let g : Gateway := ⟨.builtin, ⟨[route], by decide⟩, none, .zero⟩
    let body := Text.Utf8.encode "\x7b\"prompt\":\"hi\"\x7d"
    let reply : Http.Reply := .answer 529 [Text.Utf8.encode "\x7b\"type\":\"err"] false
    let call := route.handler.invoke 0 body
    let answer := (Outcome.ofInvocation (call.result [reply])).answer
    Table.ofConfig .builtin ⟨[⟨"a", .completions, model⟩]⟩ = .ok g.table ∧ reply.IsFinal ∧
      answer.status = 529 ∧ ¬∃ i, call.result [reply] = .ok i := by
  intro model route g body reply call answer
  have hc : Table.ofConfig .builtin ⟨[⟨"a", .completions, model⟩]⟩ = .ok g.table := by
    dsimp only [model, route, g]
    rfl
  have hf : reply.IsFinal := ⟨by decide, by decide⟩
  obtain ⟨-, succeeds, refused, -⟩ :=
    failures_of_invocation hc (List.mem_singleton_self route) 0 body hf []
  have hs : answer.status = 529 := refused 529 _ _ rfl (by decide) (by decide +kernel)
  exact ⟨hc, hf, hs, fun h => absurd (hs.symm.trans (succeeds.2 h)) (by decide)⟩

end Server

end InferenceGateway
