import InferenceGateway.Proofs.ComparedReading
import InferenceGateway.Proofs.InvocationCounting
import InferenceGateway.Proofs.PassedPayloads

/-!
# The choice of a stream

A payload asks for a stream by its member `stream`, the flag. Chats and texts that are gone on with
are answered in the way that the flag says, and at once if there is none: to leave it out is to say
`false`. Embeddings are never streamed. There the flag is a member like any other, which may hold
anything that can be read, and it is taken out before a vendor is asked.

* `SaysFlag`: what members say of a flag. A chat or a text is answered in the way that the flag of
  its payload says (`Handler.saysFlag_of_result`).
* `Handler.invoke_left_out`, `Handler.invoke_but_flags`: payloads that are invoked alike.
* `Handler.stream_decides`: how an invocation is answered, and what the flag changes.
-/

namespace InferenceGateway

open Document

/-! ## Chats and texts -/

/-- What members say of a flag: it stands under its name, or they leave it out, which is to say
    that it is not set. -/
inductive SaysFlag (members : List (String × Node)) (name : String) : Bool → Prop
  | value {b : Bool} : HasOnce members name (.bool b) → SaysFlag members name b
  | absent : HasNone members name → SaysFlag members name false

theorem SaysFlag.of_defaulting {members : List (String × Node)} {name : String}
    {look : String → Option Node} {b : Bool} (hj : (Node.object members).IsJson)
    (hl : FoundOnce members name (look name))
    (h : (Fields.defaulting name .bool false).build .json look = .ok b) :
    SaysFlag members name b := by
  generalize hn : look name = found at hl
  simp only [Fields.defaulting, Fields.single, hn] at h
  cases hl with
  | nothing none => exact Except.ok.inj h ▸ .absent none
  | @member n once =>
    simp only [Reader.bool, (hj.of_mem once.mem).untag] at h
    split at h
    · exact Except.ok.inj h ▸ .value once
    · cases h

theorem Chat.Request.saysFlag_of_read {n : Node} (hn : n.IsJson) {r : Chat.Request}
    (h : read .json n = .ok r) :
    ∃ members, n = .object members ∧ SaysFlag members "stream" r.stream := by
  obtain ⟨members, look, record, extra, rfl, found, built, rfl, -⟩ :=
    Fields.of_keeping (by decide) hn h
  obtain ⟨record₅, stop, built₅, -, rfl⟩ := Fields.of_build_seq built
  obtain ⟨record₄, topP, built₄, -, rfl⟩ := Fields.of_build_seq built₅
  obtain ⟨record₃, stream, built₃, hstream, rfl⟩ := Fields.of_build_seq built₄
  obtain ⟨record₂, maxTokens, built₂, -, rfl⟩ := Fields.of_build_seq built₃
  obtain ⟨record₁, temperature, built₁, -, rfl⟩ := Fields.of_build_seq built₂
  obtain ⟨messages, -, rfl⟩ := Fields.of_build_map built₁
  exact ⟨members, rfl, .of_defaulting hn (found _ (by decide)) hstream⟩

theorem Completions.Request.saysFlag_of_read {n : Node} (hn : n.IsJson) {r : Completions.Request}
    (h : read .json n = .ok r) :
    ∃ members, n = .object members ∧ SaysFlag members "stream" r.stream := by
  obtain ⟨members, look, record, extra, rfl, found, built, rfl, -⟩ :=
    Fields.of_keeping (by decide) hn h
  obtain ⟨record₄, stream, built₄, hstream, rfl⟩ := Fields.of_build_seq built
  obtain ⟨record₃, stop, built₃, -, rfl⟩ := Fields.of_build_seq built₄
  obtain ⟨record₂, maxTokens, built₂, -, rfl⟩ := Fields.of_build_seq built₃
  obtain ⟨record₁, temperature, built₁, -, rfl⟩ := Fields.of_build_seq built₂
  obtain ⟨prompt, -, rfl⟩ := Fields.of_build_map built₁
  exact ⟨members, rfl, .of_defaulting hn (found _ (by decide)) hstream⟩

section LeftOut

variable {front back : List (Node × Node)}

/-- A chat is the same, whether its flag is left out or not set. -/
theorem Chat.Request.read_left_out (others : ∀ e ∈ front ++ back, e.1.text? ≠ some "stream") :
    read .json (.mapping (front ++ back)) =
      read .json (.mapping (front ++ (.text "stream", .bool false) :: back)) := by
  have flag : ∃ f, fields.fields.find? (·.isNamed "stream") = some f ∧ f.name = "stream" ∧
      f.check .json (.bool false) = .ok () := ⟨_, rfl, rfl, rfl⟩
  refine Fields.keeping_left_out (by decide) flag (fun look look' none false same => ?_) others
  refine Fields.BuiltAlike.seq (.seq (.seq (.seq (.seq (.map ?_ _) ?_) ?_)
    (.default none false rfl)) ?_) ?_
  all_goals exact .single (same _ (by decide)) _ _ _

theorem Completions.Request.read_left_out
    (others : ∀ e ∈ front ++ back, e.1.text? ≠ some "stream") :
    read .json (.mapping (front ++ back)) =
      read .json (.mapping (front ++ (.text "stream", .bool false) :: back)) := by
  have flag : ∃ f, fields.fields.find? (·.isNamed "stream") = some f ∧ f.name = "stream" ∧
      f.check .json (.bool false) = .ok () := ⟨_, rfl, rfl, rfl⟩
  refine Fields.keeping_left_out (by decide) flag (fun look look' none false same => ?_) others
  refine Fields.BuiltAlike.seq (.seq (.seq (.seq (.map ?_ _) ?_) ?_) ?_) (.default none false rfl)
  all_goals exact .single (same _ (by decide)) _ _ _

end LeftOut

/-! ## Embeddings -/

/-- Requests of payloads that differ in flags only, all of which can be read, differ in flags
    only. -/
theorem Embeddings.Request.read_but_flags {members members' : List (String × Node)}
    {r : Embeddings.Request} (h : read .json (.object members) = .ok r)
    (readable : ∀ n, ("stream", n) ∈ members' → ∃ j, Reader.value .json n = .ok j)
    (same : members'.filter (·.1 ≠ "stream") = members.filter (·.1 ≠ "stream")) :
    ∃ r', read .json (.object members') = .ok r' ∧ r'.input = r.input ∧
      (IsSorted r.extra ∧ IsSorted r'.extra) ∧
      ∀ name, name ≠ "stream" → r'.extra.lookup name = r.extra.lookup name := by
  have built : ∀ look look', (∀ other, other ≠ "stream" → look other = look' other) →
      fields.BuiltAlike look look' :=
    fun _ _ same => .map (.single (same _ (by decide)) _ _ _) _
  obtain ⟨look, record, ms, ms', hr, rfl, read', data⟩ :=
    Fields.keeping_but_named (by decide) (by decide) built h readable same
  obtain ⟨input, -, rfl⟩ := Fields.of_build_map hr
  refine ⟨_, read', rfl, ⟨isSorted_sortMembers ms, isSorted_sortMembers ms'⟩, fun name hn => ?_⟩
  have found := congrArg (fun ms => ms.reverse.lookup name) data
  simp only [← List.filter_reverse, lookup_filter (· ≠ "stream")] at found
  show (sortMembers ms').lookup name = (sortMembers ms).lookup name
  rw [lookup_sortMembers, lookup_sortMembers]
  simpa [hn] using found

/-- The body for a vendor does not depend on flags. -/
theorem OpenAi.Client.body_but_flags (c : OpenAi.Client) {r r' : Embeddings.Request}
    (input : r'.input = r.input) (sorted : IsSorted r.extra ∧ IsSorted r'.extra)
    (others : ∀ name, name ≠ "stream" → r'.extra.lookup name = r.extra.lookup name) :
    c.body r'.toJson none = c.body r.toJson none := by
  have sent (r : Embeddings.Request) :
      c.body r.toJson none = .object (c.sent (("input", r.input.toJson) :: r.extra) none) :=
    c.body_object _ _
  rw [sent, sent]
  refine congrArg Json.object
    ((c.isSorted_sent _ _).ext (c.isSorted_sent _ _) fun name => ?_)
  rw [c.lookup_sent, c.lookup_sent]
  by_cases hn : name = "stream"
  · rw [if_pos hn, if_pos hn]
  · simp only [if_neg hn, List.reverse_cons, List.lookup_append, lookup_reverse sorted.1.nodup,
      lookup_reverse sorted.2.nodup, others name hn, input]

/-! ## Invocations -/

/-- Whether an answer is a stream. -/
def Invocation.isStream : Invocation → Bool
  | .complete _ => false
  | .stream _ => true

/-- What is read of payloads of which the same is read. -/
theorem Json.parse_congr {α : Type} {r : Reader α} {body body' : Bytes} {n n' : Node}
    {complete : Bool} (ht : tree body = (n, complete)) (ht' : tree body' = (n', complete))
    (h : r .json n = r .json n') : parse r body = parse r body' := by
  rw [parse, parse, ht, ht']
  simp only [h]

namespace Handler

variable {now : Nat} {body body' : Bytes} {replies : List Http.Reply}

/-- A payload that asks for a stream is answered with one, and any other at once. -/
theorem isStream_of_result {α β : Type} {write : α → Json} {write' : β → Json}
    {c : ProviderCall (Fragments α)} {c' : ProviderCall β} {flag : Bool} {answer : Invocation}
    (h : (if flag then streamed write c else complete write' c').result replies = .ok answer) :
    answer.isStream = flag := by
  cases flag <;> cases answer
  · rfl
  · exact absurd h result_complete_ne_stream
  · exact absurd h result_streamed_ne_complete
  · rfl

/-- How a chat or a text is answered is what the flag of the payload says. -/
theorem saysFlag_of_result {h : Handler} (ht : h.type ≠ .embeddings) {answer : Invocation}
    (hr : (h.invoke now body).result replies = .ok answer) : ∃ members,
      Json.tree body = (.object members, true) ∧ SaysFlag members "stream" answer.isStream := by
  obtain ⟨type, provider⟩ := h
  cases type with
  | chat =>
    rw [invoke] at hr
    dsimp only at hr
    split at hr
    · cases hr
    rename_i r hp
    split at hr
    · cases hr
    obtain ⟨n, tree, hn, read⟩ := Json.tree_of_parse (ok_of_mapError hp)
    obtain ⟨members, rfl, flag⟩ := Chat.Request.saysFlag_of_read hn read
    have answered : answer.isStream = r.stream := (isStream_of_result hr).trans (Bool.and_true _)
    exact ⟨members, tree, answered ▸ flag⟩
  | completions =>
    rw [invoke] at hr
    dsimp only at hr
    split at hr
    · cases hr
    rename_i r hp
    obtain ⟨n, tree, hn, read⟩ := Json.tree_of_parse (ok_of_mapError hp)
    obtain ⟨members, rfl, flag⟩ := Completions.Request.saysFlag_of_read hn read
    have answered : answer.isStream = r.stream := (isStream_of_result hr).trans (Bool.and_true _)
    exact ⟨members, tree, answered ▸ flag⟩
  | embeddings => exact absurd rfl ht

/-- A chat or a text without a flag is one whose flag is not set. -/
theorem invoke_left_out {h : Handler} (ht : h.type ≠ .embeddings)
    {front back : List (Node × Node)} {complete : Bool}
    (others : ∀ e ∈ front ++ back, e.1 ≠ .text "stream")
    (tree : Json.tree body = (.mapping (front ++ back), complete))
    (tree' : Json.tree body' =
      (.mapping (front ++ (.text "stream", .bool false) :: back), complete)) :
    h.invoke now body = h.invoke now body' := by
  have isJson := Json.isJson_tree body
  rw [tree] at isJson
  have others : ∀ e ∈ front ++ back, e.1.text? ≠ some "stream" := by
    cases isJson with
    | mapping keys _ =>
      intro e he text
      rw [Node.text?, (keys e he).untag] at text
      split at text
      · rename_i s hs
        exact others e he (Option.some.inj text ▸ hs)
      · cases text
  obtain ⟨type, provider⟩ := h
  cases type with
  | chat => simp only [invoke, payload,
      Json.parse_congr tree tree' (Chat.Request.read_left_out others)]
  | completions => simp only [invoke, payload,
      Json.parse_congr tree tree' (Completions.Request.read_left_out others)]
  | embeddings => exact absurd rfl ht

/-- Payloads for embeddings that differ in flags only are invoked alike. -/
theorem invoke_but_flags {c : OpenAi.Client} {members members' : List (String × Node)}
    (accepts : Accepts .embeddings body) (tree : Json.tree body = (.object members, true))
    (tree' : Json.tree body' = (.object members', true))
    (readable : ∀ n, ("stream", n) ∈ members' → ∃ j, Reader.value .json n = .ok j)
    (same : members'.filter (·.1 ≠ "stream") = members.filter (·.1 ≠ "stream")) :
    invoke ⟨.embeddings, c.provider⟩ now body' = invoke ⟨.embeddings, c.provider⟩ now body := by
  cases accepts with
  | embeddings hp =>
    obtain ⟨n, tree₁, -, read⟩ := Json.tree_of_parse (ok_of_mapError hp)
    obtain rfl := (Prod.mk.inj (tree.symm.trans tree₁)).1
    obtain ⟨r', read', input, sorted, others⟩ :=
      Embeddings.Request.read_but_flags read readable same
    have hp' : payload Embeddings.Request.read body' = .ok r' := by
      rw [payload, Json.parse_of_tree tree' read']
      rfl
    simp only [invoke, hp, hp', OpenAi.Client.provider, c.body_but_flags input sorted others]

/-- The flag decides how an invocation is answered, and nothing else does, for the handlers of the
    providers that are always there. A chat or a text is answered with a stream only if the flag of
    the payload is set, and at once only if it is not set or left out; and it is invoked alike
    whether the flag is not set or left out, wherever it stands. Embeddings are never answered with
    a stream. An accepted payload is an object, and any payload that differs from it in flags only,
    whose values can be read, whatever they are, is invoked alike. Calls that are the same send the
    same requests, and have the same result whatever comes back. -/
theorem stream_decides {model : ModelConfig} {provider : Provider} {type : EndpointType}
    {h : Handler} (hp : Resolver.builtin.resolve model = .ok provider)
    (hb : build type provider = .ok h) (now : Nat) :
    (type ≠ .embeddings →
      (∀ body replies fragments, (h.invoke now body).result replies = .ok (.stream fragments) →
        ∃ members, Json.tree body = (.object members, true) ∧
          HasOnce members "stream" (.bool true)) ∧
      (∀ body replies j, (h.invoke now body).result replies = .ok (.complete j) →
        ∃ members, Json.tree body = (.object members, true) ∧
          (HasOnce members "stream" (.bool false) ∨ HasNone members "stream")) ∧
      ∀ body body' front back complete, (∀ e ∈ front ++ back, e.1 ≠ .text "stream") →
        Json.tree body = (.mapping (front ++ back), complete) →
        Json.tree body' = (.mapping (front ++ (.text "stream", .bool false) :: back), complete) →
          h.invoke now body = h.invoke now body') ∧
    (type = .embeddings →
      (∀ body replies fragments, (h.invoke now body).result replies ≠ .ok (.stream fragments)) ∧
      ∀ body, Accepts .embeddings body → ∃ members, Json.tree body = (.object members, true) ∧
        ∀ body' members', Json.tree body' = (.object members', true) →
          (∀ n, ("stream", n) ∈ members' → ∃ j, Reader.value .json n = .ok j) →
          members'.filter (·.1 ≠ "stream") = members.filter (·.1 ≠ "stream") →
            h.invoke now body' = h.invoke now body) := by
  have supported : provider.supports type := by
    by_contra no
    rw [build, if_neg no] at hb
    cases hb
  rw [build, if_pos supported] at hb
  obtain rfl := Except.ok.inj hb
  refine ⟨fun ht => ⟨fun body replies fragments hr => ?_, fun body replies j hr => ?_,
    fun _ _ _ _ _ => invoke_left_out ht⟩, ?_⟩
  · obtain ⟨members, tree, flag⟩ := saysFlag_of_result ht hr
    cases flag with
    | value once => exact ⟨members, tree, once⟩
  · obtain ⟨members, tree, flag⟩ := saysFlag_of_result ht hr
    cases flag with
    | value once => exact ⟨members, tree, .inl once⟩
    | absent none => exact ⟨members, tree, .inr none⟩
  · rintro rfl
    refine ⟨fun _ _ _ => result_embeddings_ne_stream, fun body accepts => ?_⟩
    obtain ⟨c, rfl⟩ | ⟨c, rfl⟩ := resolve_builtin hp
    · obtain ⟨members, tree⟩ : ∃ members, Json.tree body = (.object members, true) := by
        cases accepts with
        | embeddings hp =>
          obtain ⟨n, tree, hn, read⟩ := Json.tree_of_parse (ok_of_mapError hp)
          obtain ⟨members, rfl, -⟩ := OpenAi.isEmbeddingsBody_sent hn read
          exact ⟨members, tree⟩
      exact ⟨members, tree, fun _ _ tree' readable same =>
        invoke_but_flags accepts tree tree' readable same⟩
    · cases supported

/-- A text that is gone on with, without a flag and with one that is not set, and a text that is to
    be turned into a vector, with a flag that is no truth value and without one. -/
theorem stream_decides_of_flags :
    let model : ModelConfig := ⟨"m", "openai", ⟨some "k", some "http://h", []⟩⟩
    let text := Text.Utf8.encode "\x7b\"prompt\":\"hi\"\x7d"
    let unset := Text.Utf8.encode "\x7b\"prompt\":\"hi\",\"stream\":false\x7d"
    let vector := Text.Utf8.encode "\x7b\"input\":\"hi\"\x7d"
    let odd := Text.Utf8.encode "\x7b\"stream\":[1,\"x\"],\"input\":\"hi\"\x7d"
    ∃ provider completions embeddings, Resolver.builtin.resolve model = .ok provider ∧
      build .completions provider = .ok completions ∧
      build .embeddings provider = .ok embeddings ∧
      completions.invoke 0 text = completions.invoke 0 unset ∧ Accepts .embeddings vector ∧
      embeddings.invoke 0 odd = embeddings.invoke 0 vector := by
  intro model text unset vector odd
  obtain ⟨provider, hp⟩ : ∃ provider, Resolver.builtin.resolve model = .ok provider := ⟨_, rfl⟩
  obtain ⟨completions, hc⟩ : ∃ h, build .completions provider = .ok h := by
    cases hp
    exact ⟨_, rfl⟩
  obtain ⟨embeddings, he⟩ : ∃ h, build .embeddings provider = .ok h := by
    cases hp
    exact ⟨_, rfl⟩
  have tree : Json.tree vector = (.object [("input", .text "hi")], true) := rfl
  have read : Embeddings.Request.read .json (.object [("input", .text "hi")]) =
      .ok ⟨.single "hi", []⟩ := rfl
  have accepts : Accepts .embeddings vector :=
    .embeddings (by rw [payload, Json.parse_of_tree tree read]; rfl)
  obtain ⟨-, -, left_out⟩ := (stream_decides hp hc 0).1 nofun
  obtain ⟨members, tree', but_flags⟩ := ((stream_decides hp he 0).2 rfl).2 vector accepts
  obtain rfl := entriesOf_injective (Node.mapping.inj (Prod.mk.inj (tree.symm.trans tree')).1)
  refine ⟨provider, completions, embeddings, hp, hc, he, ?_, accepts, ?_⟩
  · exact left_out text unset [(.text "prompt", .text "hi")] [] true (by simp) rfl rfl
  · refine but_flags odd [("stream", .sequence [.number (.integer 1), .text "x"]),
      ("input", .text "hi")] rfl ?_ rfl
    intro n hn
    obtain rfl : n = .sequence [.number (.integer 1), .text "x"] := by simpa using hn
    exact ⟨_, rfl⟩

end Handler

end InferenceGateway
