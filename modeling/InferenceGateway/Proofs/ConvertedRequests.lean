import InferenceGateway.Proofs.Invocation
import InferenceGateway.Proofs.RecordReading

/-!
# Converted requests

What the provider `anthropic` asks its vendor for. The messages of a chat are gone through once,
and what the system is told grows on the way (`Request.setApart`). Here it is said what comes of
this, whatever messages there are and in whatever order: nothing is lost, doubled or moved.

* `Request.setApart_eq`: the messages for the system and the others, each in their order.
* `Request.IsOfChat`: a request that says what a chat payload says, and nothing else.
* `Request.IsBody`: the members that a request is posted with.
* `Client.converts`: what is posted for chats and for completions, in both ways of answering.
-/

namespace InferenceGateway.Anthropic

namespace Request

/-! ## Messages -/

/-- The contents of the messages for the system. -/
def systemContents (messages : List Chat.Message) : List String :=
  (messages.filter (·.role = "system")).map (·.content)

/-- The text of what the system is told, line by line. -/
def linesOf : List String → Option String
  | [] => none
  | contents => some ("\n".intercalate contents)

/-- Two contents that stand below each other are like one content of two lines. -/
theorem linesOf_told (told content : String) (contents : List String) :
    linesOf ((told ++ "\n" ++ content) :: contents) = linesOf (told :: content :: contents) := by
  cases contents with
  | nil => simp [linesOf]
  | cons next contents => simp [linesOf, String.intercalate_cons_cons, String.append_assoc]

/-- One more message for the system is one more line. -/
theorem linesOf_tell (system : Option String) (content : String) (contents : List String) :
    linesOf (tell system content :: contents) = linesOf (system.toList ++ content :: contents) := by
  cases system with
  | none => rfl
  | some told => exact linesOf_told told content contents

/-- The messages for the system are told in order, after what has been told before, and the others
    are left as they are. -/
theorem setApart_eq (system : Option String) (messages : List Chat.Message) :
    setApart system messages = (linesOf (system.toList ++ systemContents messages),
      messages.filter (·.role ≠ "system")) := by
  -- What the system has been told so far changes along the conversation.
  induction messages generalizing system with
  | nil => cases system <;> rfl
  | cons m messages ih =>
    rw [setApart]
    by_cases hm : m.role = "system"
    · have contents : systemContents (m :: messages) = m.content :: systemContents messages := by
        simp [systemContents, hm]
      rw [if_pos (by simpa [isSystem] using hm), ih, contents, ← linesOf_tell]
      simp [hm]
    · have contents : systemContents (m :: messages) = systemContents messages := by
        simp [systemContents, hm]
      rw [if_neg (by simpa [isSystem] using hm), ih, contents]
      simp [hm]

theorem isSome_linesOf (contents : List String) : (linesOf contents).isSome ↔ contents ≠ [] := by
  cases contents <;> simp [linesOf]

theorem mem_linesOf {contents : List String} {text : String} (h : text ∈ linesOf contents) :
    text = "\n".intercalate contents := by
  cases contents with
  | nil => cases h
  | cons => exact (Option.some.inj h).symm

/-! ## Requests -/

/-- A request that says what a chat payload says, to a model. -/
structure IsOfChat (q : Request) (model : String) (r : Chat.Request) : Prop where
  model : q.model = model
  messages : q.messages = r.messages.filter (·.role ≠ "system")
  system : q.system.isSome ↔ ∃ m ∈ r.messages, m.role = "system"
  told : ∀ text ∈ q.system, text =
    "\n".intercalate ((r.messages.filter (·.role = "system")).map (·.content))
  maxTokens : q.maxTokens = r.maxTokens.getD 1024
  temperature : q.temperature = r.temperature
  topP : q.topP = r.topP
  stop : q.stopSequences = r.stop

/-- A request that asks to go on after a text, which is its only message. -/
structure IsOfCompletions (q : Request) (model : String) (r : Completions.Request) : Prop where
  model : q.model = model
  messages : q.messages = [⟨"user", r.prompt⟩]
  system : q.system = none
  maxTokens : q.maxTokens = r.maxTokens.getD 1024
  temperature : q.temperature = r.temperature
  topP : q.topP = none
  stop : q.stopSequences = r.stop

/-- A request as it is posted: what stands under each of its names, of which none is there twice,
    and nothing else. -/
structure IsBody (q : Request) (sent : List (String × Json)) : Prop where
  names : (sent.map (·.1)).Sublist ["model", "messages", "system", "max_tokens", "temperature",
    "top_p", "stop_sequences", "stream"]
  model : sent.lookup "model" = some (.text q.model)
  messages : sent.lookup "messages" = some (.array (q.messages.map fun m =>
    .object [("role", .text m.role), ("content", .text m.content)]))
  system : sent.lookup "system" = q.system.map .text
  maxTokens : sent.lookup "max_tokens" = some (.integer q.maxTokens)
  temperature : sent.lookup "temperature" = q.temperature.map .single
  topP : sent.lookup "top_p" = q.topP.map .single
  stop : sent.lookup "stop_sequences" = q.stopSequences.map fun ss => .array (ss.map .text)
  stream : sent.lookup "stream" = if q.stream then some (.bool true) else none

/-- Requests for a single answer and for a streamed one that are posted with the same members, but
    that the latter has one more. -/
def DifferInStream (single streamed : Request) : Prop :=
  ∃ members, single.toJson = .object members ∧ "stream" ∉ members.map (·.1) ∧
    streamed.toJson = .object (members ++ [("stream", .bool true)]) ∧
    single.IsBody members ∧ streamed.IsBody (members ++ [("stream", .bool true)])

theorem isOfChat_ofChat (model : String) (stream : Bool) (r : Chat.Request) :
    (ofChat model stream r).IsOfChat model r := by
  have apart := setApart_eq none r.messages
  rw [Option.toList_none, List.nil_append] at apart
  have messages : (ofChat model stream r).messages = (setApart none r.messages).2 := rfl
  have system : (ofChat model stream r).system = (setApart none r.messages).1 := rfl
  rw [apart] at messages system
  refine ⟨rfl, messages, ?_, fun text ht => ?_, rfl, rfl, rfl, rfl⟩
  · rw [system, isSome_linesOf]
    simp [systemContents]
  · rw [system] at ht
    exact mem_linesOf ht

theorem isOfCompletions_ofCompletions (model : String) (stream : Bool) (r : Completions.Request) :
    (ofCompletions model stream r).IsOfCompletions model r := ⟨rfl, rfl, rfl, rfl, rfl, rfl, rfl⟩

/-- The members of a request beside that for the stream. -/
def known (q : Request) : List (String × Json) :=
  [("model", .text q.model), ("messages", .array (q.messages.map Chat.Message.toJson))]
    ++ Json.member? "system" .text q.system
    ++ [("max_tokens", .integer q.maxTokens)]
    ++ Json.member? "temperature" .single q.temperature
    ++ Json.member? "top_p" .single q.topP
    ++ Json.member? "stop_sequences" (fun ss => .array (ss.map .text)) q.stopSequences

theorem names_known (q : Request) : (q.known.map (·.1)).Sublist
    ["model", "messages", "system", "max_tokens", "temperature", "top_p", "stop_sequences"] := by
  simp only [known, List.map_append]
  exact (((((List.Sublist.refl _).append (Json.names_member? _ _ _)).append (.refl _)).append
    (Json.names_member? _ _ _)).append (Json.names_member? _ _ _)).append
    (Json.names_member? _ _ _)

theorem stream_not_mem_known (q : Request) : "stream" ∉ q.known.map (·.1) :=
  fun hm => absurd (q.names_known.subset hm) (by decide)

/-- The member for the stream, if the answer is to be streamed. -/
def streamMember (q : Request) : List (String × Json) :=
  if q.stream then [("stream", .bool true)] else []

theorem isBody_known (q : Request) : q.IsBody (q.known ++ q.streamMember) := by
  have stream : q.known.lookup "stream" = none :=
    List.lookup_eq_none_iff.2 fun m hm => bne_iff_ne.2 fun h =>
      q.stream_not_mem_known (h ▸ List.mem_map_of_mem hm)
  have others (name : String) (hn : name ≠ "stream") :
      (q.known ++ q.streamMember).lookup name = q.known.lookup name := by
    rw [List.lookup_append, streamMember]
    cases q.stream <;> simp [Document.lookup_cons_if, hn]
  refine ⟨?names, ?_, ?_, ?_, ?_, ?_, ?_, ?_, ?stream⟩
  case names =>
    have one : (q.streamMember.map (·.1)).Sublist ["stream"] := by
      rw [streamMember]
      cases q.stream <;> simp
    rw [List.map_append]
    exact q.names_known.append one
  case stream =>
    rw [List.lookup_append, stream, streamMember]
    cases q.stream <;> rfl
  all_goals
    rw [others _ (by decide)]
    simp [known, List.lookup_append, Json.lookup_member?, Document.lookup_cons_if,
      Chat.Message.toJson]

/-- Without a stream nothing is said of streams. -/
theorem differInStream {single streamed : Request} (hs : single.stream = false)
    (h : streamed = { single with stream := true }) : DifferInStream single streamed := by
  have body := single.isBody_known
  have body' := streamed.isBody_known
  have same : streamed.known = single.known := by rw [h]; rfl
  have stream : streamed.stream = true := by rw [h]
  rw [streamMember, hs, if_neg Bool.false_ne_true, List.append_nil] at body
  rw [streamMember, stream, if_pos rfl, same] at body'
  refine ⟨single.known, ?_, single.stream_not_mem_known, ?_, body, body'⟩
  · rw [toJson, hs, if_neg Bool.false_ne_true, List.append_nil]
    rfl
  · rw [h]
    rfl

end Request

/-! ## What is posted -/

namespace Client

theorem posts_ask (c : Client) (q : Request) : c.access.Posts (c.ask q) q.toJson := by
  rw [ask, request_eq]
  exact c.access.posts_exchange _ _ _

theorem posts_askStream {α : Type} (c : Client) (q : Request) (make : MakeChunk α) :
    c.access.Posts (c.askStream q make) q.toJson := by
  rw [askStream, request_eq]
  exact c.access.posts_exchange _ _ _

theorem posts_chat (c : Client) (now : Nat) (r : Chat.Request) :
    c.access.Posts (c.provider.chat now r) (Request.ofChat c.model false r).toJson := by
  dsimp only [provider]
  exact (c.posts_ask _).convert _

theorem posts_chatStream (c : Client) (now : Nat) (r : Chat.Request) :
    c.access.Posts (c.provider.chatStream now r) (Request.ofChat c.model true r).toJson := by
  dsimp only [provider]
  exact c.posts_askStream _ _

theorem posts_completions (c : Client) (now : Nat) (r : Completions.Request) :
    c.access.Posts (c.provider.completions now r)
      (Request.ofCompletions c.model false r).toJson := by
  dsimp only [provider]
  exact (c.posts_ask _).convert _

theorem posts_completionsStream (c : Client) (now : Nat) (r : Completions.Request) :
    c.access.Posts (c.provider.completionsStream now r)
      (Request.ofCompletions c.model true r).toJson := by
  dsimp only [provider]
  exact c.posts_askStream _ _

/-- The vendor is asked for what the payload asks for, in both ways of answering: the messages that
    are not for the system, those for the system joined line by line, and the other values. Members
    beyond the known ones have no part in it, and the two ways differ in one member. -/
theorem converts (c : Client) (now : Nat) :
    (∀ r : Chat.Request,
      let single := Request.ofChat c.model false r
      let streamed := Request.ofChat c.model true r
      single.IsOfChat c.model r ∧ streamed.IsOfChat c.model r ∧
      Request.DifferInStream single streamed ∧
      ∀ extra, c.access.Posts (c.provider.chat now { r with extra := extra }) single.toJson ∧
        c.access.Posts (c.provider.chatStream now { r with extra := extra }) streamed.toJson) ∧
    (∀ r : Completions.Request,
      let single := Request.ofCompletions c.model false r
      let streamed := Request.ofCompletions c.model true r
      single.IsOfCompletions c.model r ∧ streamed.IsOfCompletions c.model r ∧
      Request.DifferInStream single streamed ∧
      ∀ extra, c.access.Posts (c.provider.completions now { r with extra := extra }) single.toJson ∧
        c.access.Posts (c.provider.completionsStream now { r with extra := extra })
          streamed.toJson) := by
  constructor
  · intro r
    exact ⟨Request.isOfChat_ofChat _ _ _, Request.isOfChat_ofChat _ _ _,
      Request.differInStream rfl rfl,
      fun _ => ⟨c.posts_chat now _, c.posts_chatStream now _⟩⟩
  · intro r
    exact ⟨Request.isOfCompletions_ofCompletions _ _ _, Request.isOfCompletions_ofCompletions _ _ _,
      Request.differInStream rfl rfl,
      fun _ => ⟨c.posts_completions now _, c.posts_completionsStream now _⟩⟩

end Client

end InferenceGateway.Anthropic
