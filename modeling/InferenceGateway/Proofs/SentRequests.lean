import InferenceGateway.Proofs.Failures
import InferenceGateway.Proofs.Rounding
import InferenceGateway.Proofs.Secrecy
import InferenceGateway.Proofs.TaskAddress

/-!
# Requests that are sent

How often an invocation asks a vendor: once for a payload that is accepted, whatever comes back,
and never for one that is refused. What is asked goes to the host of the vendor.

* `Chat.Request.refusal?_eq_none_iff`: the requests of a chat that are not refused.
* `Handler.Asks.sent_once`: what is sent for the payloads of all types.
-/

namespace InferenceGateway

/-! ## Values of numbers -/

namespace Numeral

variable {x : Binary} {bound : Nat}

/-- A number is within a bound if its value is. -/
theorem Binary.isWithin_iff : x.isWithin bound ↔ ∃ q ∈ x.value?, 0 ≤ q ∧ q ≤ bound := by
  cases x with
  | finite negative m e =>
    obtain ⟨hd, quotient⟩ := magnitude_eq m e
    have hd' : (0 : ℚ) < (magnitude m e).2 := by exact_mod_cast hd
    have hn := (div_eq_iff hd'.ne').1 quotient
    have scaled : (magnitude m e).1 ≤ bound * (magnitude m e).2 ↔ (m * 2 ^ e : ℚ) ≤ bound := by
      rw [← mul_le_mul_iff_of_pos_right hd', ← hn]
      exact_mod_cast Iff.rfl
    rcases Nat.eq_zero_or_pos m with rfl | hm
    · simp [isWithin, value?]
    · have positive : (0 : ℚ) < m * 2 ^ e :=
        mul_pos (Nat.cast_pos.2 hm) (zpow_pos two_pos e)
      cases negative with
      | false => simp [isWithin, value?, scaled, hm.ne', positive.le]
      | true => simp [isWithin, value?, hm.ne', positive]
  | infinite | nan => simp [isWithin, value?]

end Numeral

/-- The values of a chat that are not refused. -/
theorem Chat.Request.refusal?_eq_none_iff {r : Chat.Request} : r.refusal? = none ↔
    (∀ x ∈ r.temperature, ∃ q ∈ x.value?, 0 ≤ q ∧ q ≤ 2) ∧
      (∀ x ∈ r.topP, ∃ q ∈ x.value?, 0 ≤ q ∧ q ≤ 1) ∧ r.messages ≠ [] := by
  have two (x : Numeral.Binary) : x.isWithin 2 ↔ ∃ q ∈ x.value?, 0 ≤ q ∧ q ≤ 2 := by
    exact_mod_cast Numeral.Binary.isWithin_iff
  have one (x : Numeral.Binary) : x.isWithin 1 ↔ ∃ q ∈ x.value?, 0 ≤ q ∧ q ≤ 1 := by
    exact_mod_cast Numeral.Binary.isWithin_iff
  have temperature : (∀ x ∈ r.temperature, x.isWithin 2) ↔
      r.temperature.filter (! ·.isWithin 2) = none := by simp [Option.filter_eq_none_iff]
  have topP : (∀ x ∈ r.topP, x.isWithin 1) ↔ r.topP.filter (! ·.isWithin 1) = none := by
    simp [Option.filter_eq_none_iff]
  simp only [← two, ← one, temperature, topP]
  rw [refusal?]
  rcases r.temperature.filter _ with _ | x <;> rcases r.topP.filter _ with _ | x <;> simp

/-! ## Requests -/

namespace Access

variable {α : Type} {a : Access} {c : ProviderCall α}

/-- A request to an address of the web can be put together. -/
theorem request_of_parse {u : Http.Url} (hu : Http.Url.parse (a.base ++ "/" ++ a.path) = some u)
    (hw : u.scheme = "http" ∨ u.scheme = "https") (hosted : u.host.isSome)
    (hh : a.headers.all (Http.isHeaderValue ·.2)) (body : Json) :
    a.request body = .ok ⟨u.text, u.authorization ++ a.headers, body.print⟩ := by
  have web : (u.scheme ≠ "http" && u.scheme ≠ "https") = false := by
    rcases hw with h | h <;> rw [h] <;> decide
  have hosted' : u.host.isNone = false := by simp [hosted]
  rw [request, Http.post, hu]
  simp only [hosted', hh, web, Bool.not_true, Bool.false_eq_true, if_false]

/-- What is sent by an exchange whose request can be put together. -/
theorem Exchanges.requests_eq (hc : a.Exchanges c) {made : Json → Http.Request}
    (h : ∀ body, a.request body = .ok (made body)) :
    ∃ body, ∀ replies, c.requests replies = [made body] := by
  obtain ⟨body, read, -, rfl⟩ := hc
  rw [h body]
  exact ⟨body, fun _ => rfl⟩

/-- A vendor that is asked is not the one who refuses a payload. -/
theorem Exchanges.result_ne_badRequest (hc : a.Exchanges c) (replies : List Http.Reply)
    (e : Refusal) : c.result replies ≠ .error (.badRequest e) := by
  intro he
  rcases hc.error_cases he with ⟨_, ⟨⟩⟩ | ⟨_, _, _, _, _, -, -, ⟨⟩⟩

end Access

namespace Handler

variable {h : Handler} {a : Access}

/-- The path of a task is plain. -/
theorem Asks.isPlain (ha : Asks h a) : Http.Url.IsPlain a.path := by
  cases ha with
  | openAi c type =>
    have all (type : EndpointType) : Http.Url.IsPlain (OpenAi.taskPath type) := by
      cases type <;> decide
    exact all type
  | anthropic c _ =>
    have all : Http.Url.IsPlain Anthropic.taskPath := by decide
    exact all

/-- The headers of a request can be sent if the key can. -/
theorem Asks.isHeaderValue (ha : Asks h a) (hk : Http.isHeaderValue a.key) :
    a.headers.all (Http.isHeaderValue ·.2) := by
  have bearer : Http.isHeaderValue "Bearer " := by decide
  have version : Http.isHeaderValue Anthropic.version := by decide
  have type : Http.isHeaderValue "application/json" := by decide
  cases ha with
  | openAi c _ =>
    have key : Http.isHeaderValue c.key := hk
    simp [OpenAi.Client.access, Http.isHeaderValue_append, bearer, type, key]
  | anthropic c _ =>
    have key : Http.isHeaderValue c.key := hk
    simp [Anthropic.Client.access, version, type, key]

/-- A payload is sent once if it is accepted, whatever comes back, and never if it is refused.
    There is one address that it is sent to. It has the host of the vendor, and it is that of the
    task below the vendor, unless the address of the vendor has a query or a fragment. A user in
    the address of the vendor is told in a header of its own. -/
theorem Asks.sent_once {u : Http.Url} (ha : Asks h a) (hb : Http.Url.IsBase a.base u)
    (hk : Http.isHeaderValue a.key) :
    ∃ target : Http.Url, Http.Url.parse (a.base ++ "/" ++ a.path) = some target ∧
      target.scheme = u.scheme ∧ target.host = u.host ∧ target.login = u.login ∧
      ((∀ c ∈ a.base.toList, Http.Url.isPathChar c) → ∃ before,
        (u.text = before ∨ u.text = before ++ "/") ∧ target.text = before ++ "/" ++ a.path) ∧
      ∀ now body,
        let call := h.invoke now body
        (Accepts h.type body → ∃ text, ∀ replies,
          call.requests replies = [⟨target.text, u.authorization ++ a.headers, text⟩]) ∧
        (¬Accepts h.type body → (∀ replies, call.requests replies = []) ∧
          ∃ e, ∀ replies, call.result replies = .error (.badRequest e)) ∧
        (∀ replies e, call.result replies = .error (.badRequest e) → call.requests replies = []) ∧
        (h.type = .chat → ∀ r, payload Chat.Request.read body = .ok r →
          (r.messages = [] ∨ (∃ x ∈ r.temperature, ¬∃ q ∈ x.value?, 0 ≤ q ∧ q ≤ 2) ∨
            ∃ x ∈ r.topP, ¬∃ q ∈ x.value?, 0 ≤ q ∧ q ≤ 1) →
          ∀ replies, call.requests replies = []) := by
  obtain ⟨target, parsed, scheme, host, login, below⟩ := hb.exists_target ha.isPlain
  have made := a.request_of_parse parsed (scheme ▸ hb.web) (host ▸ hb.host_isSome)
    (ha.isHeaderValue hk)
  refine ⟨target, parsed, scheme, host, login, below, fun now body => ?_⟩
  have refused (hn : ¬Accepts h.type body) :
      (∀ replies, (h.invoke now body).requests replies = []) ∧
        ∃ e, ∀ replies, (h.invoke now body).result replies = .error (.badRequest e) := by
    obtain ⟨e, hi⟩ := invoke_of_not_accepts hn now
    rw [hi]
    exact ⟨fun _ => rfl, e, fun _ => rfl⟩
  refine ⟨fun hy => ?_, refused, fun replies e he => ?_, fun ht r hr hbad => ?_⟩
  · obtain ⟨sent, hs⟩ := (ha.exchanges hy now).requests_eq made
    have told : target.authorization = u.authorization := by
      rw [Http.Url.authorization, login, Http.Url.authorization]
    exact ⟨sent.print, fun replies => told ▸ hs replies⟩
  · exact (refused fun hy => (ha.exchanges hy now).result_ne_badRequest replies e he).1 replies
  · refine (refused fun hy => ?_).1
    rw [ht] at hy
    obtain ⟨hr', hn⟩ := hy
    obtain rfl := Except.ok.inj (hr.symm.trans hr')
    obtain ⟨temperature, topP, messages⟩ := Chat.Request.refusal?_eq_none_iff.1 hn
    rcases hbad with none | ⟨x, hx, bad⟩ | ⟨x, hx, bad⟩
    · exact messages none
    · exact bad (temperature x hx)
    · exact bad (topP x hx)

/-- A chat with a vendor whose address has a port that need not be told and a step up. -/
theorem Asks.sent_once_greeting :
    let c : OpenAi.Client := ⟨"m", "k", "HTTP://h:80/x/../v1"⟩
    let h : Handler := ⟨.chat, c.provider⟩
    let u : Http.Url := ⟨"http", some "h", "http://h/v1", none⟩
    let greeting := Text.Utf8.encode
      "\x7b\"messages\":[\x7b\"role\":\"user\",\"content\":\"hi\"\x7d],\"temperature\":2\x7d"
    let silence := Text.Utf8.encode "\x7b\"messages\":[]\x7d"
    h.Asks (c.access .chat) ∧ Http.Url.IsBase c.base u ∧ Http.isHeaderValue c.key ∧
      (∃ text, ∀ replies, (h.invoke 0 greeting).requests replies =
        [⟨"http://h/v1/chat/completions", (c.access .chat).headers, text⟩]) ∧
      ∀ replies, (h.invoke 0 silence).requests replies = [] := by
  intro c h u greeting silence
  have ha : h.Asks (c.access .chat) := .openAi c .chat
  have path : c.base.toList.all Http.Url.isPathChar := by decide
  have last : c.base.toList.getLast? = some '1' := by decide
  have hb : Http.Url.IsBase c.base u := by
    refine ⟨by decide +kernel, .inl rfl, ?_⟩
    rw [last]
    rintro d ⟨⟩
    decide
  have hk : Http.isHeaderValue c.key := by decide
  obtain ⟨target, -, -, -, -, addressed, sent⟩ := ha.sent_once hb hk
  obtain ⟨before, hu, below⟩ := addressed (List.all_eq_true.1 path)
  have same : u.text = before := by
    refine hu.resolve_right fun slash => ?_
    have last := congrArg (·.toList.getLast?) slash
    simp [u] at last
  have read {b : Bytes} {p : Chat.Request → Bool}
      (hp : (payload Chat.Request.read b).toOption.any p) :
      ∃ r, payload Chat.Request.read b = .ok r ∧ p r := by
    rcases hr : payload Chat.Request.read b with e | r <;> rw [hr] at hp
    · cases hp
    · exact ⟨r, rfl, hp⟩
  obtain ⟨r, hr, polite⟩ := read (b := greeting) (p := (·.refusal?.isNone)) (by decide +kernel)
  obtain ⟨r', hr', silent⟩ := read (b := silence) (p := (·.messages.isEmpty)) (by decide +kernel)
  rw [← same] at below
  rw [below] at sent
  exact ⟨ha, hb, hk, (sent 0 greeting).1 (.chat hr (Option.isNone_iff_eq_none.1 polite)),
    (sent 0 silence).2.2.2 rfl r' hr' (.inl (List.isEmpty_iff.1 silent))⟩

end Handler

end InferenceGateway
