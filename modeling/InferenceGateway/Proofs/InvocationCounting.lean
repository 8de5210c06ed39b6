import InferenceGateway.Proofs.Chaining
import InferenceGateway.Proofs.Reloading
import Mathlib.Data.List.Perm.Basic

/-!
# Counting invocations

What the counters tell of a gateway that has answered requests, while its configuration changed.
Clients can count, too: an answer shows whether it is an error, a stream, or a single answer, and
the last event of a stream whether an error ended it. What clients count of the invocations of
endpoints that are there, and what the gateway counts, is the same.

* `Answer.isError`, `Answer.isStream`, `Answer.isSingle`: what answers show.
* `invocations`: the answers that count.
* `Accounts`: counters that have grown by what some answers show. Each action accounts for
  its answers (`accounts_step`), and so does a session (`accounts_run`).
-/

namespace InferenceGateway

namespace EventStream

/-! ## Events of a body -/

/-- The events of a text: its lines in blocks, with empty lines between them. -/
def blocks (text : List Char) : List (List (List Char)) :=
  ((lines text).splitOnP List.isEmpty).filter (! ·.isEmpty)

/-- A text with an empty line after it is a block before others. -/
theorem blocks_append {text : List Char} (h : ∀ line ∈ lines text, line ≠ [])
    (more : List Char) : blocks (text ++ '\n' :: '\n' :: more) = lines text :: blocks more := by
  have some : lines text ≠ [] := lines_eq_splitOnP text ▸ List.splitOnP_ne_nil _ _
  have empty : lines ('\n' :: more) = [] :: lines more := lines_append [] more
  have whole : (lines text).splitOnP List.isEmpty = [lines text] :=
    List.splitOnP_eq_singleton fun line hl => by simpa using h line hl
  rw [blocks, lines_append, empty, List.splitOnP_append_cons _ _ List.isEmpty_nil, whole]
  simp [blocks, some]

/-- The events of texts with an empty line after each. -/
theorem blocks_join {texts : List String} (h : ∀ t ∈ texts, ∀ line ∈ lines t.toList, line ≠ []) :
    blocks (String.join (texts.map (· ++ "\n\n"))).toList = texts.map (lines ·.toList) := by
  induction texts with
  | nil => rfl
  | cons t texts ih =>
    obtain ⟨ht, hrest⟩ := List.forall_mem_cons.1 h
    rw [List.map_cons, List.map_cons, String.join_cons, String.toList_append, String.toList_append,
      List.append_assoc, (rfl : "\n\n".toList = ['\n', '\n'])]
    exact (blocks_append ht _).trans (congrArg _ (ih hrest))

/-- Whether the last event of a text tells an error. -/
def endsInError (text : List Char) : Bool :=
  (blocks text).getLast?.any (·.head? == some errorLine.toList)

theorem dataLine_ne_nil (data : String) : (dataLine data).toList ≠ [] := by
  rw [dataLine, String.toList_append]
  exact List.append_ne_nil_of_left_ne_nil (by decide) _

/-- No line of a frame is empty. -/
theorem ne_nil_of_mem_lines {data : String} (h : IsPayload data) :
    ∀ line ∈ lines (dataLine data).toList, line ≠ [] := by
  rw [lines_of_inline h.inline_dataLine]
  simpa using dataLine_ne_nil data

theorem ne_nil_of_mem_lines_lastText (error : Option GatewayError) :
    ∀ line ∈ lines (lastText error).toList, line ≠ [] := by
  cases error with
  | none => exact ne_nil_of_mem_lines isPayload_endMark
  | some e =>
    rw [lines_lastText]
    exact List.forall_mem_cons.2 ⟨by decide, by simpa using dataLine_ne_nil _⟩

/-- The frames of a stream end in an error if there is one among the fragments. -/
theorem endsInError_frames (items : Fragments Json) :
    endsInError (String.join (frames items)).toList = (firstError? items).isSome := by
  obtain ⟨found, error, hh⟩ := exists_holds items
  have alone := holds_append found (holds_toList error)
  rw [hh.firstError?, frames_of_holds hh, ← frames_of_holds alone, frames_eq, endsInError,
    blocks_join]
  · rw [List.map_append, List.map_singleton, List.getLast?_concat, Option.any_some]
    cases error with
    | none =>
      rw [lastText, lines_of_inline isPayload_endMark.inline_dataLine]
      decide
    | some e => simp [lines_lastText]
  · intro t ht
    rcases List.mem_append.1 ht with ht | ht
    · obtain ⟨j, -, rfl⟩ := List.mem_map.1 ht
      exact ne_nil_of_mem_lines (isPayload_print j)
    · rw [List.mem_singleton.1 ht]
      exact ne_nil_of_mem_lines_lastText error

end EventStream

/-! ## Answers -/

namespace Json

/-- What an object begins with whose first member has this name. -/
def memberMark (name : String) : List Char := '\x7b' :: (quote name ++ [':'])

theorem prefix_print (name : String) (value : Json) (rest : List (String × Json)) :
    memberMark name <+: (print (.object ((name, value) :: rest))).toList := by
  rw [print, String.toList_ofList]
  exact ⟨chars value ++ memberChars rest, by simp [memberMark, chars]⟩

/-- What answers to payloads are: objects that begin with a member of their own. -/
def IsAnswer (j : Json) : Prop :=
  ∃ name value rest, name ∈ ["choices", "data"] ∧ j = .object ((name, value) :: rest)

end Json

theorem Chat.Response.isAnswer (r : Chat.Response) : r.toJson.canonical.IsAnswer := by
  rcases r with ⟨id, object, created, model, choices, _ | usage⟩ <;>
    exact ⟨"choices", _, _, by decide, rfl⟩

theorem Completions.Response.isAnswer (r : Completions.Response) :
    r.toJson.canonical.IsAnswer := by
  rcases r with ⟨id, object, created, model, choices, _ | usage⟩ <;>
    exact ⟨"choices", _, _, by decide, rfl⟩

theorem Embeddings.Response.isAnswer (r : Embeddings.Response) :
    r.toJson.canonical.IsAnswer := by
  rcases r with ⟨object, data, model, _ | usage⟩ <;> exact ⟨"data", _, _, by decide, rfl⟩

namespace Handler

theorem exists_of_complete {α : Type} {write : α → Json} {c : ProviderCall α}
    {replies : List Http.Reply}
    {j : Json} (h : (complete write c).result replies = .ok (.complete j)) :
    ∃ a, j = (write a).canonical := by
  rw [complete, Provider.convert, Call.result_map] at h
  rcases hr : c.result replies with e | a <;> rw [hr] at h <;> cases h
  exact ⟨a, rfl⟩

theorem result_streamed_ne_complete {α : Type} {write : α → Json} {c : ProviderCall (Fragments α)}
    {replies : List Http.Reply} {j : Json} :
    (streamed write c).result replies ≠ .ok (.complete j) := by
  rw [streamed, Provider.convert, Call.result_map]
  rcases c.result replies with e | a <;> rintro ⟨⟩

/-- Whatever provider answers, a single answer is one of the type of the endpoint. -/
theorem isAnswer_of_invoke {h : Handler} {now : Nat} {body : Bytes}
    {replies : List Http.Reply} {j : Json}
    (hj : (h.invoke now body).result replies = .ok (.complete j)) : j.IsAnswer := by
  rw [invoke] at hj
  split at hj
  · split at hj
    · cases hj
    · split at hj
      · cases hj
      · split at hj
        · exact absurd hj result_streamed_ne_complete
        · obtain ⟨a, rfl⟩ := exists_of_complete hj
          exact a.isAnswer
  · split at hj
    · cases hj
    · split at hj
      · exact absurd hj result_streamed_ne_complete
      · obtain ⟨a, rfl⟩ := exists_of_complete hj
        exact a.isAnswer
  · split at hj
    · cases hj
    · obtain ⟨a, rfl⟩ := exists_of_complete hj
      exact a.isAnswer

end Handler

namespace Server

namespace Answer

/-- An answer that is streamed. -/
def isStream (a : Answer) : Bool := a.headers.contains ("content-type", "text/event-stream")

/-- What the body of an error begins with. -/
def detailMark : List Char := "\x7b\"detail\":".toList

/-- An answer that tells an error. -/
def isError (a : Answer) : Bool :=
  a.headers.contains ("content-type", "application/json") && detailMark.isPrefixOf a.body.toList

/-- A single answer that is complete. -/
def isSingle (a : Answer) : Bool :=
  a.status = 200 && a.headers.contains ("content-type", "application/json") && !a.isError

/-- A stream that an error ended. -/
def isBrokenStream (a : Answer) : Bool := a.isStream && EventStream.endsInError a.body.toList

/-- What an answer shows: whether it is an error, a stream, a stream that an error ended, and
    whether it is single. -/
structure Shows (a : Answer) (error stream broken single : Bool) : Prop where
  error : a.isError = error
  stream : a.isStream = stream
  broken : a.isBrokenStream = broken
  single : a.isSingle = single

/-- An error shows that it is one. -/
theorem shows_ofError (e : GatewayError) : Shows (ofError e) true false false false := by
  have mark : detailMark = Json.memberMark "detail" := rfl
  have begins := List.isPrefixOf_iff_prefix.2 (Json.prefix_print "detail" (.text e.message) [])
  rw [← mark] at begins
  have told : (ofError e).isError = true := Bool.and_eq_true_iff.2 ⟨rfl, begins⟩
  exact ⟨told, rfl, rfl, by rw [isSingle, told, Bool.not_true, Bool.and_false]⟩

/-- A single answer does not look like an error. -/
theorem shows_ofJson {j : Json} (h : j.IsAnswer) :
    Shows (ofJson 200 j) false false false true := by
  obtain ⟨name, value, rest, hn, rfl⟩ := h
  have apart : ∀ name ∈ ["choices", "data"],
      ¬detailMark <+: Json.memberMark name ∧ ¬Json.memberMark name <+: detailMark := by
    decide
  have differs : ¬detailMark <+: (Json.print (.object ((name, value) :: rest))).toList := by
    intro hp
    rcases List.prefix_or_prefix_of_prefix hp (Json.prefix_print name value rest) with h | h
    · exact (apart name hn).1 h
    · exact (apart name hn).2 h
  have told : (ofJson 200 (.object ((name, value) :: rest))).isError = false :=
    Bool.and_eq_false_iff.2 (.inr (Bool.eq_false_iff.2 fun hp =>
      differs (List.isPrefixOf_iff_prefix.1 hp)))
  exact ⟨told, rfl, rfl, by rw [isSingle, told]; rfl⟩

/-- A stream shows whether an error ended it. -/
theorem shows_ofStream (fragments : Fragments Json) :
    Shows (ofStream fragments) false true (EventStream.firstError? fragments).isSome false :=
  ⟨rfl, rfl, EventStream.endsInError_frames fragments, rfl⟩

end Answer

/-! ## Counters -/

/-- Counters that have grown by what some answers show, each of which shows one thing. -/
structure Accounts (before after : Metrics) (answers : List Answer) : Prop where
  invocations : after.invocations = before.invocations + answers.length
  failed : after.failed = before.failed + answers.countP Answer.isError
  streaming : after.streaming = before.streaming + answers.countP Answer.isStream
  streamErrors : after.streamErrors = before.streamErrors + answers.countP Answer.isBrokenStream
  kinds : answers.length = answers.countP Answer.isError + answers.countP Answer.isStream +
    answers.countP Answer.isSingle

namespace Accounts

variable {m m' m'' : Metrics}

/-- Without answers only reloads are counted. -/
theorem nil (m : Metrics) (reloads reloadFailures : Nat) :
    Accounts m { m with reloads, reloadFailures } [] :=
  ⟨rfl, rfl, rfl, rfl, rfl⟩

theorem append {xs ys : List Answer} (hx : Accounts m m' xs) (hy : Accounts m' m'' ys) :
    Accounts m m'' (xs ++ ys) := by
  obtain ⟨invocations, failed, streaming, streamErrors, kinds⟩ := hx
  obtain ⟨invocations', failed', streaming', streamErrors', kinds'⟩ := hy
  constructor <;> simp only [List.length_append, List.countP_append] <;> omega

/-- One answer, and counters that have grown by what it shows. -/
theorem single {a : Answer} {error stream broken single : Bool}
    (h : a.Shows error stream broken single)
    (invocations : m'.invocations = m.invocations + 1)
    (failed : m'.failed = m.failed + error.toNat)
    (streaming : m'.streaming = m.streaming + stream.toNat)
    (streamErrors : m'.streamErrors = m.streamErrors + broken.toNat)
    (kinds : error.toNat + stream.toNat + single.toNat = 1) : Accounts m m' [a] := by
  have count (p : Answer → Bool) : [a].countP p = (p a).toNat := by
    rw [List.countP_singleton]
    cases p a <;> rfl
  refine ⟨invocations, ?_, ?_, ?_, ?_⟩
  · rw [count, h.error, failed]
  · rw [count, h.stream, streaming]
  · rw [count, h.broken, streamErrors]
  · rw [count, count, count, h.error, h.stream, h.single, kinds, List.length_singleton]

/-- An invocation is counted as what its answer shows. -/
theorem ofInvocation (m : Metrics) {result : Except GatewayError Invocation}
    (h : ∀ j, result = .ok (.complete j) → j.IsAnswer) :
    Accounts m (m.recordAll (Outcome.ofInvocation result).counts)
      [(Outcome.ofInvocation result).answer] := by
  rcases result with e | ⟨j⟩ | ⟨fragments⟩
  · exact single (Answer.shows_ofError e) rfl rfl rfl rfl rfl
  · exact single (Answer.shows_ofJson (h j rfl)) rfl rfl rfl rfl rfl
  · have shown := Answer.shows_ofStream fragments
    rw [Outcome.ofInvocation]
    generalize (EventStream.firstError? fragments).isSome = broken at shown ⊢
    cases broken <;> exact single shown rfl rfl rfl rfl rfl

end Accounts

/-! ## Sessions -/

/-- The route that a request invokes, if there is one of the name in its path. -/
def invoked? (g : Gateway) (r : Request) : Option Route :=
  match Target.resolve r.method r.path with
  | .invoke segment => (decodeName segment).toOption.bind g.table.get?
  | _ => none

/-- The answers to the invocations among actions. -/
def answersTo (g : Gateway) : Action → List Answer
  | .request now r replies => if (invoked? g r).isSome then [(respond g now r replies).1] else []
  | .apply _ | .reload .. => []

/-- The answers to the invocations of a session, each of a route that was there at the time. -/
def invocations (g : Gateway) : List Action → List Answer
  | [] => []
  | a :: actions => answersTo g a ++ invocations (step g a) actions

variable {g : Gateway} {r : Request}

/-- Any other request is answered at once, and nothing is counted. -/
theorem respond_of_not_invoked (h : invoked? g r = none) (now : Nat) (replies : List Http.Reply) :
    (respond g now r replies).2 = g := by
  suffices at_once : ∃ a, answer g now r = Server.reply a by
    obtain ⟨a, ha⟩ := at_once
    rw [respond, ha]
    rfl
  rw [answer]
  cases ht : Target.resolve r.method r.path with
  | invoke segment =>
    rw [invoked?, ht] at h
    dsimp only at h ⊢
    rcases hn : decodeName segment with e | name <;> rw [hn] at h
    · exact ⟨_, rfl⟩
    · have none : g.table.get? name = none := h
      exact ⟨.ofError (.endpointNotFound name), by simp only [invoke, none]⟩
  | _ => exact ⟨_, rfl⟩

/-- What an invocation comes to. -/
theorem exists_of_invoked {route : Route} (h : invoked? g r = some route) (now : Nat)
    (replies : List Http.Reply) : ∃ result, (∀ j, result = .ok (.complete j) → j.IsAnswer) ∧
      (answer g now r).result replies = .ofInvocation result := by
  rw [invoked?] at h
  split at h
  · rename_i segment ht
    rcases hn : decodeName segment with e | name <;> rw [hn] at h
    · cases h
    · have found : g.table.get? name = some route := h
      rcases hb : r.body with reason | body
      · refine ⟨.error (.badRequest (.unreadableBody reason)), nofun, ?_⟩
        simp only [answer, ht, hn, invoke, found, hb, Call.result]
      · refine ⟨(route.handler.invoke now body).result replies,
          fun j => Handler.isAnswer_of_invoke, ?_⟩
        rw [answer_of_invoke ht hn found hb, Call.result_map]
  · cases h

/-- Taking over a configuration, or refusing it, is no answer. -/
theorem accounts_apply (g : Gateway) (config : GatewayConfig) :
    Accounts g.metrics (g.apply config).2.metrics [] := by
  rw [Gateway.apply]
  split <;> exact .nil _ _ _

/-- An action accounts for its answers. -/
theorem accounts_step (g : Gateway) (a : Action) :
    Accounts g.metrics (step g a).metrics (answersTo g a) := by
  rcases a with ⟨now, r, replies⟩ | config | ⟨env, files⟩
  · rw [answersTo, step]
    rcases hi : invoked? g r with _ | route
    · rw [respond_of_not_invoked hi]
      exact .nil _ _ _
    · obtain ⟨result, hr, run⟩ := exists_of_invoked hi now replies
      rw [Option.isSome_some, if_pos rfl, respond, run]
      exact .ofInvocation g.metrics hr
  · exact accounts_apply g config
  · rw [answersTo, step, Gateway.reload]
    split
    · exact .nil _ _ _
    · split
      · exact .nil _ _ _
      · exact accounts_apply g _

/-- A session accounts for its answers. -/
theorem accounts_run (g : Gateway) (actions : List Action) :
    Accounts g.metrics (run g actions).metrics (invocations g actions) := by
  induction actions generalizing g with
  | nil => exact .nil _ _ _
  | cons a actions ih => exact (accounts_step g a).append (ih (step g a))

/-- An action has one answer at most, so no counter of answers passes the number of actions. -/
theorem length_invocations_le (g : Gateway) (actions : List Action) :
    (invocations g actions).length ≤ actions.length := by
  induction actions generalizing g with
  | nil => exact le_rfl
  | cons a actions ih =>
    have one : (answersTo g a).length ≤ 1 := by
      rw [answersTo.eq_def]
      split
      · split <;> simp
      · exact Nat.zero_le 1
      · exact Nat.zero_le 1
    have rest := ih (step g a)
    rw [invocations, List.length_append, List.length_cons]
    omega

/-! ## Late counting -/

/-- What is counted of an action. -/
def countsOf (g : Gateway) : Action → List Count
  | .request now r replies => ((answer g now r).result replies).counts
  | a => (a.config? g.path).toList.map fun config => .reload (config.loads g.resolver)

/-- What is counted in a session, in order. -/
def counted (g : Gateway) : List Action → List Count
  | [] => []
  | a :: actions => countsOf g a ++ counted (step g a) actions

theorem metrics_apply (g : Gateway) (config : GatewayConfig) :
    (g.apply config).2.metrics = g.metrics.recordAll [.reload (config.loads g.resolver)] := by
  rw [Gateway.apply, GatewayConfig.loads]
  rcases Table.ofConfig g.resolver config with e | table <;> rfl

theorem metrics_step (g : Gateway) (a : Action) :
    (step g a).metrics = g.metrics.recordAll (countsOf g a) := by
  rcases a with ⟨now, r, replies⟩ | config | ⟨env, files⟩
  · rfl
  · exact metrics_apply g config
  · rw [step, Gateway.reload, countsOf, Action.config?]
    · rcases g.path with _ | path
      · rfl
      · rw [Option.bind_some]
        dsimp only
        rcases GatewayConfig.load env files path with e | config
        · rfl
        · exact metrics_apply g config
    · rintro _ _ _ ⟨⟩

/-- The counters after a session are told by what was counted in it. -/
theorem metrics_eq_recordAll (g : Gateway) (actions : List Action) :
    (run g actions).metrics = g.metrics.recordAll (counted g actions) := by
  induction actions generalizing g with
  | nil => rfl
  | cons a actions ih =>
    have later : g.metrics.recordAll (counted g (a :: actions)) =
        (g.metrics.recordAll (countsOf g a)).recordAll (counted (step g a) actions) :=
      List.foldl_append
    rw [later, ← metrics_step]
    exact ih (step g a)

/-- In which order two events are counted does not matter. -/
instance : RightCommutative Metrics.record where
  right_comm m c d := by
    cases c <;> cases d <;> simp only [Metrics.record, Nat.add_right_comm]

/-- What clients count and what the gateway counts is the same. After a session that starts with
    the counters at zero, whatever is requested in it and whatever configurations are taken over or
    refused between, each counter is the number of the answers to invocations that show what it
    counts. The other requests leave the gateway as it is. An error that ends a stream is counted
    when the stream is read to there, which may be late; but the order does not matter. -/
theorem metrics_of_run (h : g.metrics = .zero) (actions : List Action) :
    let m := (run g actions).metrics
    let answers := invocations g actions
    (m.invocations = answers.length ∧ m.failed = answers.countP Answer.isError ∧
      m.streaming = answers.countP Answer.isStream ∧
      m.streamErrors = answers.countP Answer.isBrokenStream) ∧
    (m.invocations ≤ actions.length ∧ m.failed + m.streaming ≤ m.invocations ∧
      m.streamErrors ≤ m.streaming ∧ m.invocations - m.failed - m.streaming =
        answers.countP Answer.isSingle) ∧
    (∀ g' r, invoked? g' r = none → ∀ now replies, (respond g' now r replies).2 = g') ∧
    ∀ counts, counts.Perm (counted g actions) → Metrics.zero.recordAll counts = m := by
  intro m answers
  have accounts : Accounts .zero m answers := h ▸ accounts_run g actions
  obtain ⟨total, failed, streaming, streamErrors, kinds⟩ := accounts
  simp only [Metrics.zero, Nat.zero_add] at total failed streaming streamErrors
  have broken : answers.countP Answer.isBrokenStream ≤ answers.countP Answer.isStream :=
    List.countP_mono_left fun a _ ha => (Bool.and_eq_true_iff.1 ha).1
  have few : answers.length ≤ actions.length := length_invocations_le g actions
  refine ⟨⟨total, failed, streaming, streamErrors⟩, ?_, fun g' r hr now replies =>
    respond_of_not_invoked hr now replies, fun counts hp => ?_⟩
  · omega
  · exact (hp.foldl_eq _).trans (h ▸ metrics_eq_recordAll g actions).symm

/-- A payload that is refused, a stream that breaks off at once, a configuration that is refused,
    and two requests that do not count. -/
theorem metrics_of_run_mixed :
    let model : ModelConfig := ⟨"m", "openai", ⟨some "k", some "http://h", []⟩⟩
    let route : Route :=
      ⟨"a", .completions, model, ⟨.completions, (OpenAi.Client.mk "m" "k" "http://h").provider⟩⟩
    let g : Gateway := ⟨.builtin, ⟨[route], by decide⟩, none, .zero⟩
    let post (path text : String) : Request := ⟨"POST", path, none, .ok (Text.Utf8.encode text)⟩
    let actions : List Action :=
      [.request 0 (post "/endpoints/a/invocations" "\x7b\x7d") [],
        .apply ⟨[⟨"a", .embeddings, ⟨"m", "nobody", ⟨none, none, []⟩⟩⟩]⟩,
        .request 0 (post "/endpoints/%61/invocations" "\x7b\"prompt\":\"hi\",\"stream\":true\x7d")
          [.answer 200 [] false],
        .request 0 (post "/endpoints/b/invocations" "\x7b\x7d") [],
        .request 0 ⟨"GET", "/health", none, .ok []⟩ []]
    let m := (run g actions).metrics
    m.invocations = 2 ∧ m.failed = 1 ∧ m.streaming = 1 ∧ m.streamErrors = 1 := by
  intro model route g post actions m
  have counted : ((invocations g actions).length, (invocations g actions).countP Answer.isError,
      (invocations g actions).countP Answer.isStream,
      (invocations g actions).countP Answer.isBrokenStream) = (2, 1, 1, 1) := by decide +kernel
  simp only [Prod.mk.injEq] at counted
  obtain ⟨⟨total, failed, streaming, streamErrors⟩, -⟩ := metrics_of_run (g := g) rfl actions
  exact ⟨total.trans counted.1, failed.trans counted.2.1, streaming.trans counted.2.2.1,
    streamErrors.trans counted.2.2.2⟩

end Server

end InferenceGateway
