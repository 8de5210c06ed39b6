import InferenceGateway.Proofs.Invocation
import InferenceGateway.Proofs.KeptMembers

/-!
# Payloads that are passed on

The provider `openai` asks its vendor for what it is asked for. On the way a payload is read, held
as data and written again. Here it is said what is left of it, by its members and by those of the
body that is posted. Under the names that the gateway knows stand the values that it has read, the
other members are as they were, and the model and the way of answering are those that the gateway
sets.

Numbers are passed on as they are held. An integer of 64 bits is held as it is, and any other number
is rounded to one of 64 bits, or of 32 bits where one of these is read. A number that is not finite
cannot be written, so one beyond those of 32 bits, where one of these is read, is passed on as
`null`.

* `IsBody`: a body with a model and a way of answering, in which the members of a payload are kept,
  but for some names.
* `IsChatBody`, `IsCompletionsBody`, `IsEmbeddingsBody`: and what stands under these names.
* `Client.passes_on`: what is posted for a payload, in both ways of answering.
-/

namespace InferenceGateway.OpenAi

open Document Numeral

/-! ## Bodies -/

/-- A number of 32 bits as it is written: it has the same sign and value in 64 bits, unless it is
    infinite. -/
inductive WritesNumber : Binary → Json → Prop
  | finite {negative : Bool} {m m' : Nat} {e e' : Int} : (m' * 2 ^ e' : ℚ) = m * 2 ^ e →
    WritesNumber (.finite negative m e) (.real (.finite negative m' e'))
  | infinite {negative : Bool} : WritesNumber (.infinite negative) .null

/-- A message as it is written: its content and its role, and nothing else. -/
def messageData (m : Chat.Message) : Json :=
  .object [("content", .text m.content), ("role", .text m.role)]

/-- What is to be embedded as it is written: one text, or a list of them. -/
inductive WritesInput : Embeddings.Input → Json → Prop
  | single (s : String) : WritesInput (.single s) (.text s)
  | batch (ss : List String) : WritesInput (.batch ss) (.array (ss.map .text))

/-- What is read of a payload under a name is written under this name. If nothing is read, nothing
    is written. -/
structure PassesOn {α : Type} (read : Reader α) (Writes : α → Json → Prop)
    (members : List (String × Node)) (sent : List (String × Json)) (name : String)
    (x : Option α) : Prop where
  said : Says read members name x
  sent : Option.Rel Writes x (sent.lookup name)

/-- A body with a model and a way of answering, whatever the payload says of them, and with all
    members of the payload but those of some names. Each has the last value that it had, at every
    depth, and there are no others. -/
structure IsBody (model : String) (stream : Option Bool) (names : List String)
    (members : List (String × Node)) (sent : List (String × Json)) : Prop where
  sorted : IsSorted sent
  model : sent.lookup "model" = some (.text model)
  stream : sent.lookup "stream" = stream.map .bool
  others : ∀ name, name ∉ "model" :: "stream" :: names →
    Option.Rel Json.Keeps (members.reverse.lookup name) (sent.lookup name)

/-- The body for a chat. -/
structure IsChatBody (r : Chat.Request) (model : String) (stream : Bool)
    (members : List (String × Node)) (sent : List (String × Json)) : Prop
    extends IsBody model (some stream)
      ["messages", "temperature", "max_tokens", "top_p", "stop"] members sent where
  messages : PassesOn (.list Chat.Message.read) (fun ms j => j = .array (ms.map messageData))
    members sent "messages" (some r.messages)
  temperature : PassesOn .single WritesNumber members sent "temperature" r.temperature
  maxTokens : PassesOn .word32 (fun k j => j = .integer k) members sent "max_tokens" r.maxTokens
  topP : PassesOn .single WritesNumber members sent "top_p" r.topP
  stop : PassesOn (.list .text) (fun ss j => j = .array (ss.map .text)) members sent "stop" r.stop

/-- The body for a text that is to be gone on with. -/
structure IsCompletionsBody (r : Completions.Request) (model : String) (stream : Bool)
    (members : List (String × Node)) (sent : List (String × Json)) : Prop
    extends IsBody model (some stream)
      ["prompt", "temperature", "max_tokens", "stop"] members sent where
  prompt : PassesOn .text (fun s j => j = .text s) members sent "prompt" (some r.prompt)
  temperature : PassesOn .single WritesNumber members sent "temperature" r.temperature
  maxTokens : PassesOn .word32 (fun k j => j = .integer k) members sent "max_tokens" r.maxTokens
  stop : PassesOn (.list .text) (fun ss j => j = .array (ss.map .text)) members sent "stop" r.stop

/-- The body for texts that are to be turned into vectors. There is no way of answering in it. -/
structure IsEmbeddingsBody (r : Embeddings.Request) (model : String)
    (members : List (String × Node)) (sent : List (String × Json)) : Prop
    extends IsBody model none ["input"] members sent where
  input : PassesOn Embeddings.Input.read WritesInput members sent "input" (some r.input)

/-! ## Values -/

theorem writesNumber_round {negative : Bool} {num den : Nat} (hd : 0 < den) :
    WritesNumber (Format.single.round negative num den)
      (Json.single (Format.single.round negative num den)).canonical := by
  rcases @Format.round_cases .single num den negative with ⟨m, e, h⟩ | h
  · have fits : (Format.single.round negative num den).FitsIn .single :=
      Binary.fitsIn_round (by decide) hd
    rw [h] at fits
    obtain ⟨m', e', converted, value⟩ := Binary.convert_double fits
    rw [h, Json.canonical, converted]
    exact .finite value
  · rw [h]
    exact .infinite

/-- A number that is read is written. -/
theorem writesNumber_of_read {n : Node} {x : Binary} (hn : n.IsJson)
    (h : Reader.single .json n = .ok x) : WritesNumber x (Json.single x).canonical := by
  cases hn with
  | integer i => exact Except.ok.inj h ▸ writesNumber_round one_pos
  | real hx =>
    obtain ⟨negative, m, e, rfl, -⟩ := hx
    exact Except.ok.inj h ▸ writesNumber_round (Binary.magnitude_eq m e).1
  | _ => cases h

theorem canonical_message (m : Chat.Message) : m.toJson.canonical = messageData m := by
  have order : "content" < "role" := by decide
  simp [Chat.Message.toJson, Json.canonical, Json.canonicalMembers, sortMembers, insertMember,
    order, messageData]

theorem canonical_messages (ms : List Chat.Message) :
    (Json.array (ms.map Chat.Message.toJson)).canonical = .array (ms.map messageData) := by
  rw [Json.canonical, Json.canonicalItems_eq_map, List.map_map]
  exact congrArg _ (List.map_congr_left fun m _ => canonical_message m)

theorem canonical_texts (ss : List String) :
    (Json.array (ss.map .text)).canonical = .array (ss.map .text) := by
  rw [Json.canonical, Json.canonicalItems_eq_map, List.map_map]
  rfl

theorem writesInput_canonical (i : Embeddings.Input) : WritesInput i i.toJson.canonical := by
  cases i with
  | single s => exact .single s
  | batch ss =>
    rw [Embeddings.Input.toJson, canonical_texts]
    exact .batch ss

/-! ## Members -/

namespace Client

variable (c : Client) (payload : List (String × Json)) (stream : Option Bool)

/-- The members of the body for a payload with some members. -/
def sent : List (String × Json) :=
  let ms := insertMember "model" (.text c.model) (sortMembers (Json.canonicalMembers payload))
  match stream with
  | some stream => insertMember "stream" (.bool stream) ms
  | none => removeMember "stream" ms

theorem body_object : c.body (.object payload) stream = .object (c.sent payload stream) := by
  cases stream <;> rfl

theorem isSorted_sent : IsSorted (c.sent payload stream) := by
  have sorted := (isSorted_sortMembers (Json.canonicalMembers payload)).insertMember "model"
    (.text c.model)
  cases stream with
  | none => exact sorted.removeMember _
  | some => exact sorted.insertMember _ _

theorem lookup_sent (name : String) : (c.sent payload stream).lookup name =
    if name = "stream" then stream.map .bool
    else if name = "model" then some (.text c.model)
    else (payload.reverse.lookup name).map Json.canonical := by
  cases stream with
  | none =>
    rw [sent, lookup_removeMember, lookup_insertMember, Json.lookup_canonicalMembers]
    rfl
  | some =>
    rw [sent, lookup_insertMember, lookup_insertMember, Json.lookup_canonicalMembers]
    rfl

/-- Bodies for one payload differ in the way of answering only. -/
theorem removeMember_sent (single streamed : Bool) :
    removeMember "stream" (c.sent payload (some single)) =
      removeMember "stream" (c.sent payload (some streamed)) := by
  rw [sent, sent, removeMember_insertMember, removeMember_insertMember]

end Client

/-- The members of a request: those that are known under some names, and those that are kept of a
    payload. -/
structure Splits (names : List String) (members : List (String × Node))
    (known extra : List (String × Json)) : Prop where
  isJson : (Node.object members).IsJson
  known : (known.map (·.1)).Sublist names
  nodup : names.Nodup
  kept : KeepsOthers names members extra

namespace Splits

variable {names : List String} {members : List (String × Node)} {known extra : List (String × Json)}

/-- What is kept has other names, so a name that is known finds what is known. -/
theorem lookup_known (h : Splits names members known extra) {name : String} (hm : name ∈ names) :
    (known ++ extra).reverse.lookup name = known.lookup name := by
  rw [List.reverse_append, List.lookup_append, lookup_reverse h.kept.sorted.nodup,
    h.kept.named name hm, Option.none_or, lookup_reverse (h.known.nodup h.nodup)]

/-- Any other name finds what is kept. -/
theorem lookup_extra (h : Splits names members known extra) {name : String} (hm : name ∉ names) :
    (known ++ extra).reverse.lookup name = extra.lookup name := by
  have unknown : known.reverse.lookup name = none := by
    refine List.lookup_eq_none_iff.2 fun m hknown => bne_iff_ne.2 ?_
    rintro rfl
    exact hm (h.known.subset (List.mem_map_of_mem (List.mem_reverse.1 hknown)))
  rw [List.reverse_append, List.lookup_append, lookup_reverse h.kept.sorted.nodup, unknown,
    Option.or_none]

/-- The body for a request, but for what is known. -/
theorem isBody (h : Splits names members known extra) (c : Client) (stream : Option Bool)
    {others : List String} (ho : ∀ name ∈ names, name ∈ "model" :: "stream" :: others) :
    IsBody c.model stream others members (c.sent (known ++ extra) stream) where
  sorted := c.isSorted_sent _ _
  model := by rw [Client.lookup_sent, if_neg (by decide), if_pos rfl]
  stream := by rw [Client.lookup_sent, if_pos rfl]
  others name hm := by
    have unknown : name ∉ names := fun known => hm (ho name known)
    rw [List.mem_cons, List.mem_cons, not_or, not_or] at hm
    rw [Client.lookup_sent, if_neg hm.2.1, if_neg hm.1, h.lookup_extra unknown]
    exact h.kept.others name unknown

/-- What is read under a name is written under it. -/
theorem passesOn {α : Type} {read : Reader α} {Writes : α → Json → Prop} {name : String}
    {x : Option α} {write : α → Json} (h : Splits names members known extra) (c : Client)
    (stream : Option Bool) (hm : name ∈ names ∧ name ≠ "stream" ∧ name ≠ "model")
    (hs : Says read members name x) (hl : known.lookup name = x.map write)
    (hw : ∀ n a, n.IsJson → read .json n = .ok a → Writes a (write a).canonical) :
    PassesOn read Writes members (c.sent (known ++ extra) stream) name x := by
  refine ⟨hs, ?_⟩
  rw [Client.lookup_sent, if_neg hm.2.1, if_neg hm.2.2, h.lookup_known hm.1, hl]
  cases hs with
  | value once _ ha => exact .some (hw _ _ (h.isJson.of_mem once.mem) ha)
  | null | absent => exact .none

end Splits

/-! ## Chats -/

/-- What the members of a payload say of a chat. -/
theorem exists_members_of_chat {n : Node} (hn : n.IsJson) {r : Chat.Request}
    (h : Chat.Request.read .json n = .ok r) : ∃ members, n = .object members ∧
      Says (.list Chat.Message.read) members "messages" (some r.messages) ∧
      Says .single members "temperature" r.temperature ∧
      Says .word32 members "max_tokens" r.maxTokens ∧ Says .single members "top_p" r.topP ∧
      Says (.list .text) members "stop" r.stop ∧
      KeepsOthers (Chat.Request.fields.fields.map Field.name) members r.extra := by
  obtain ⟨members, look, record, extra, rfl, found, built, rfl, kept⟩ :=
    Fields.of_keeping (by decide) hn h
  obtain ⟨record₅, stop, built₅, hstop, rfl⟩ := Fields.of_build_seq built
  obtain ⟨record₄, topP, built₄, htopP, rfl⟩ := Fields.of_build_seq built₅
  obtain ⟨record₃, _, built₃, -, rfl⟩ := Fields.of_build_seq built₄
  obtain ⟨record₂, maxTokens, built₂, hmaxTokens, rfl⟩ := Fields.of_build_seq built₃
  obtain ⟨record₁, temperature, built₁, htemperature, rfl⟩ := Fields.of_build_seq built₂
  obtain ⟨messages, hmessages, rfl⟩ := Fields.of_build_map built₁
  exact ⟨members, rfl, .of_required (found _ (by decide)) nofun hmessages,
    .of_optional (found _ (by decide)) htemperature,
    .of_optional (found _ (by decide)) hmaxTokens, .of_optional (found _ (by decide)) htopP,
    .of_optional (found _ (by decide)) hstop, kept⟩

/-- The known members of a chat as they are written. -/
def knownOfChat (r : Chat.Request) : List (String × Json) :=
  [("messages", .array (r.messages.map Chat.Message.toJson))]
    ++ Json.member? "temperature" .single r.temperature
    ++ Json.member? "max_tokens" (fun (k : Nat) => .integer k) r.maxTokens
    ++ [("stream", .bool r.stream)]
    ++ Json.member? "top_p" .single r.topP
    ++ Json.member? "stop" (fun ss => .array (ss.map .text)) r.stop

theorem names_knownOfChat (r : Chat.Request) :
    ((knownOfChat r).map (·.1)).Sublist (Chat.Request.fields.fields.map Field.name) := by
  simp only [knownOfChat, List.map_append]
  exact (((((List.Sublist.refl _).append (Json.names_member? _ _ _)).append
    (Json.names_member? _ _ _)).append (.refl _)).append (Json.names_member? _ _ _)).append
    (Json.names_member? _ _ _)

theorem lookup_knownOfChat (r : Chat.Request) :
    (knownOfChat r).lookup "messages" =
      (some r.messages).map (fun ms => .array (ms.map Chat.Message.toJson)) ∧
    (knownOfChat r).lookup "temperature" = r.temperature.map .single ∧
    (knownOfChat r).lookup "max_tokens" = r.maxTokens.map (fun (k : Nat) => .integer k) ∧
    (knownOfChat r).lookup "top_p" = r.topP.map .single ∧
    (knownOfChat r).lookup "stop" = r.stop.map fun ss => .array (ss.map .text) := by
  simp [knownOfChat, List.lookup_append, Json.lookup_member?, lookup_cons_if]

/-- The bodies for a chat. -/
theorem isChatBody_sent {n : Node} (hn : n.IsJson) {r : Chat.Request}
    (h : Chat.Request.read .json n = .ok r) : ∃ members, n = .object members ∧
      ∀ (c : Client) (stream : Bool), IsChatBody r c.model stream members
        (c.sent (knownOfChat r ++ r.extra) (some stream)) := by
  obtain ⟨members, rfl, messages, temperature, maxTokens, topP, stop, kept⟩ :=
    exists_members_of_chat hn h
  have splits : Splits _ members (knownOfChat r) r.extra :=
    ⟨hn, names_knownOfChat r, by decide, kept⟩
  obtain ⟨lmessages, ltemperature, lmaxTokens, ltopP, lstop⟩ := lookup_knownOfChat r
  refine ⟨members, rfl, fun c stream => ⟨splits.isBody c _ (by decide),
    splits.passesOn c _ (by decide) messages lmessages ?_,
    splits.passesOn c _ (by decide) temperature ltemperature ?_,
    splits.passesOn c _ (by decide) maxTokens lmaxTokens ?_,
    splits.passesOn c _ (by decide) topP ltopP ?_,
    splits.passesOn c _ (by decide) stop lstop ?_⟩⟩
  · exact fun _ ms _ _ => canonical_messages ms
  · exact fun _ _ => writesNumber_of_read
  · exact fun _ _ _ _ => rfl
  · exact fun _ _ => writesNumber_of_read
  · exact fun _ ss _ _ => canonical_texts ss

/-! ## Completions -/

/-- What the members of a payload say of a text that is to be gone on with. -/
theorem exists_members_of_completions {n : Node} (hn : n.IsJson) {r : Completions.Request}
    (h : Completions.Request.read .json n = .ok r) : ∃ members, n = .object members ∧
      Says .text members "prompt" (some r.prompt) ∧
      Says .single members "temperature" r.temperature ∧
      Says .word32 members "max_tokens" r.maxTokens ∧ Says (.list .text) members "stop" r.stop ∧
      KeepsOthers (Completions.Request.fields.fields.map Field.name) members r.extra := by
  obtain ⟨members, look, record, extra, rfl, found, built, rfl, kept⟩ :=
    Fields.of_keeping (by decide) hn h
  obtain ⟨record₄, _, built₄, -, rfl⟩ := Fields.of_build_seq built
  obtain ⟨record₃, stop, built₃, hstop, rfl⟩ := Fields.of_build_seq built₄
  obtain ⟨record₂, maxTokens, built₂, hmaxTokens, rfl⟩ := Fields.of_build_seq built₃
  obtain ⟨record₁, temperature, built₁, htemperature, rfl⟩ := Fields.of_build_seq built₂
  obtain ⟨prompt, hprompt, rfl⟩ := Fields.of_build_map built₁
  exact ⟨members, rfl, .of_required (found _ (by decide)) nofun hprompt,
    .of_optional (found _ (by decide)) htemperature,
    .of_optional (found _ (by decide)) hmaxTokens, .of_optional (found _ (by decide)) hstop, kept⟩

/-- The known members of a request to go on with a text as they are written. -/
def knownOfCompletions (r : Completions.Request) : List (String × Json) :=
  [("prompt", .text r.prompt)]
    ++ Json.member? "temperature" .single r.temperature
    ++ Json.member? "max_tokens" (fun (k : Nat) => .integer k) r.maxTokens
    ++ Json.member? "stop" (fun ss => .array (ss.map .text)) r.stop
    ++ [("stream", .bool r.stream)]

theorem names_knownOfCompletions (r : Completions.Request) :
    ((knownOfCompletions r).map (·.1)).Sublist
      (Completions.Request.fields.fields.map Field.name) := by
  simp only [knownOfCompletions, List.map_append]
  exact ((((List.Sublist.refl _).append (Json.names_member? _ _ _)).append
    (Json.names_member? _ _ _)).append (Json.names_member? _ _ _)).append (.refl _)

theorem lookup_knownOfCompletions (r : Completions.Request) :
    (knownOfCompletions r).lookup "prompt" = (some r.prompt).map .text ∧
    (knownOfCompletions r).lookup "temperature" = r.temperature.map .single ∧
    (knownOfCompletions r).lookup "max_tokens" = r.maxTokens.map (fun (k : Nat) => .integer k) ∧
    (knownOfCompletions r).lookup "stop" = r.stop.map fun ss => .array (ss.map .text) := by
  simp [knownOfCompletions, List.lookup_append, Json.lookup_member?, lookup_cons_if]

/-- The bodies for a text that is to be gone on with. -/
theorem isCompletionsBody_sent {n : Node} (hn : n.IsJson) {r : Completions.Request}
    (h : Completions.Request.read .json n = .ok r) : ∃ members, n = .object members ∧
      ∀ (c : Client) (stream : Bool), IsCompletionsBody r c.model stream members
        (c.sent (knownOfCompletions r ++ r.extra) (some stream)) := by
  obtain ⟨members, rfl, prompt, temperature, maxTokens, stop, kept⟩ :=
    exists_members_of_completions hn h
  have splits : Splits _ members (knownOfCompletions r) r.extra :=
    ⟨hn, names_knownOfCompletions r, by decide, kept⟩
  obtain ⟨lprompt, ltemperature, lmaxTokens, lstop⟩ := lookup_knownOfCompletions r
  refine ⟨members, rfl, fun c stream => ⟨splits.isBody c _ (by decide),
    splits.passesOn c _ (by decide) prompt lprompt ?_,
    splits.passesOn c _ (by decide) temperature ltemperature ?_,
    splits.passesOn c _ (by decide) maxTokens lmaxTokens ?_,
    splits.passesOn c _ (by decide) stop lstop ?_⟩⟩
  · exact fun _ _ _ _ => rfl
  · exact fun _ _ => writesNumber_of_read
  · exact fun _ _ _ _ => rfl
  · exact fun _ ss _ _ => canonical_texts ss

/-! ## Embeddings -/

/-- The body for texts that are to be turned into vectors. -/
theorem isEmbeddingsBody_sent {n : Node} (hn : n.IsJson) {r : Embeddings.Request}
    (h : Embeddings.Request.read .json n = .ok r) : ∃ members, n = .object members ∧
      ∀ c : Client, IsEmbeddingsBody r c.model members
        (c.sent (("input", r.input.toJson) :: r.extra) none) := by
  obtain ⟨members, look, record, extra, rfl, found, built, rfl, kept⟩ :=
    Fields.of_keeping (by decide) hn h
  obtain ⟨input, hinput, rfl⟩ := Fields.of_build_map built
  have said : Says Embeddings.Input.read members "input" (some input) :=
    .of_required (found _ (by decide)) nofun hinput
  have splits : Splits (Embeddings.Request.fields.fields.map Field.name) members
      [("input", input.toJson)] extra := ⟨hn, .refl _, by decide, kept⟩
  exact ⟨members, rfl, fun c => ⟨splits.isBody c _ (by decide),
    splits.passesOn c _ (by decide) said rfl fun _ i _ _ => writesInput_canonical i⟩⟩

/-! ## What is posted -/

namespace Client

variable {α : Type} (c : Client) (type : EndpointType) (now : Nat)

theorem posts_ask (body : Json) (r : Reader α) :
    (c.access type).Posts (c.ask (taskPath type) body r) body :=
  (c.access type).posts_exchange _ _ _

theorem posts_askStream (body : Json) (r : Reader α) :
    (c.access type).Posts (c.askStream (taskPath type) body r) body :=
  (c.access type).posts_exchange _ _ _

theorem posts_chat (r : Chat.Request) : (c.access .chat).Posts (c.provider.chat now r)
    (.object (c.sent (knownOfChat r ++ r.extra) (some false))) := by
  rw [← body_object]
  dsimp only [provider]
  exact c.posts_ask .chat _ Chat.Response.read

theorem posts_chatStream (r : Chat.Request) : (c.access .chat).Posts (c.provider.chatStream now r)
    (.object (c.sent (knownOfChat r ++ r.extra) (some true))) := by
  rw [← body_object]
  dsimp only [provider]
  exact c.posts_askStream .chat _ Chat.Chunk.read

theorem posts_completions (r : Completions.Request) :
    (c.access .completions).Posts (c.provider.completions now r)
      (.object (c.sent (knownOfCompletions r ++ r.extra) (some false))) := by
  rw [← body_object]
  dsimp only [provider]
  exact c.posts_ask .completions _ Completions.Response.read

theorem posts_completionsStream (r : Completions.Request) :
    (c.access .completions).Posts (c.provider.completionsStream now r)
      (.object (c.sent (knownOfCompletions r ++ r.extra) (some true))) := by
  rw [← body_object]
  dsimp only [provider]
  exact c.posts_askStream .completions _ Completions.Chunk.read

theorem posts_embeddings (r : Embeddings.Request) :
    (c.access .embeddings).Posts (c.provider.embeddings now r)
      (.object (c.sent (("input", r.input.toJson) :: r.extra) none)) := by
  rw [← body_object]
  dsimp only [provider]
  exact c.posts_ask .embeddings _ Embeddings.Response.read

/-- What is posted for a payload. The payload is an object, and in place of what it says of the
    model and the way of answering the body has what the gateway says of them. What is known of the
    payload is written as it has been read, and all else is kept. For one payload the two ways of
    answering differ in one member. -/
theorem passes_on (payload : Bytes) :
    (∀ r, Json.parse Chat.Request.read payload = .ok r → ∃ members single streamed,
      Json.tree payload = (.object members, true) ∧
      c.body r.toJson (some false) = .object single ∧
      c.body r.toJson (some true) = .object streamed ∧
      (c.access .chat).Posts (c.provider.chat now r) (.object single) ∧
      (c.access .chat).Posts (c.provider.chatStream now r) (.object streamed) ∧
      IsChatBody r c.model false members single ∧ IsChatBody r c.model true members streamed ∧
      removeMember "stream" single = removeMember "stream" streamed) ∧
    (∀ r, Json.parse Completions.Request.read payload = .ok r → ∃ members single streamed,
      Json.tree payload = (.object members, true) ∧
      c.body r.toJson (some false) = .object single ∧
      c.body r.toJson (some true) = .object streamed ∧
      (c.access .completions).Posts (c.provider.completions now r) (.object single) ∧
      (c.access .completions).Posts (c.provider.completionsStream now r) (.object streamed) ∧
      IsCompletionsBody r c.model false members single ∧
      IsCompletionsBody r c.model true members streamed ∧
      removeMember "stream" single = removeMember "stream" streamed) ∧
    (∀ r, Json.parse Embeddings.Request.read payload = .ok r → ∃ members sent,
      Json.tree payload = (.object members, true) ∧
      c.body r.toJson none = .object sent ∧
      (c.access .embeddings).Posts (c.provider.embeddings now r) (.object sent) ∧
      IsEmbeddingsBody r c.model members sent) := by
  refine ⟨fun r hr => ?_, fun r hr => ?_, fun r hr => ?_⟩ <;>
    obtain ⟨n, tree, hn, read⟩ := Json.tree_of_parse hr
  · obtain ⟨members, rfl, body⟩ := isChatBody_sent hn read
    exact ⟨members, _, _, tree, c.body_object _ _, c.body_object _ _, c.posts_chat now r,
      c.posts_chatStream now r, body c false, body c true, c.removeMember_sent _ _ _⟩
  · obtain ⟨members, rfl, body⟩ := isCompletionsBody_sent hn read
    exact ⟨members, _, _, tree, c.body_object _ _, c.body_object _ _, c.posts_completions now r,
      c.posts_completionsStream now r, body c false, body c true, c.removeMember_sent _ _ _⟩
  · obtain ⟨members, rfl, body⟩ := isEmbeddingsBody_sent hn read
    exact ⟨members, _, tree, c.body_object _ _, c.posts_embeddings now r, body c⟩

/-- Payloads that name a model of their own and a way of answering, and say something twice. -/
theorem passes_on_overridden :
    let c : Client := ⟨"m", "k", "http://h"⟩
    let chat := Text.Utf8.encode
      "\x7b\"model\":\"x\",\"stream\":true,\"n\":1,\"messages\":[[\"user\",\"hi\"]],\"n\":2\x7d"
    let completions := Text.Utf8.encode
      "\x7b\"stream\":false,\"temperature\":0.7,\"prompt\":\"hi\",\"model\":null\x7d"
    let embeddings := Text.Utf8.encode
      "\x7b\"input\":[\"a\"],\"stream\":true,\"model\":\"x\"\x7d"
    (∃ r sent, Json.parse Chat.Request.read chat = .ok r ∧
      (c.access .chat).Posts (c.provider.chat 0 r) (.object sent) ∧
      sent.lookup "model" = some (.text "m") ∧ sent.lookup "stream" = some (.bool false)) ∧
    (∃ r sent, Json.parse Completions.Request.read completions = .ok r ∧
      (c.access .completions).Posts (c.provider.completionsStream 0 r) (.object sent) ∧
      sent.lookup "model" = some (.text "m") ∧ sent.lookup "stream" = some (.bool true)) ∧
    (∃ r sent, Json.parse Embeddings.Request.read embeddings = .ok r ∧
      (c.access .embeddings).Posts (c.provider.embeddings 0 r) (.object sent) ∧
      sent.lookup "model" = some (.text "m") ∧ sent.lookup "stream" = none) := by
  intro c chat completions embeddings
  have read {β : Type} {r : Reader β} {bytes : Bytes}
      (h : (Json.parse r bytes).toOption.isSome) : ∃ a, Json.parse r bytes = .ok a := by
    rcases hp : Json.parse r bytes with e | a <;> rw [hp] at h
    · cases h
    · exact ⟨a, rfl⟩
  obtain ⟨r, hr⟩ : ∃ r, Json.parse Chat.Request.read chat = .ok r := read (by decide +kernel)
  obtain ⟨r', hr'⟩ : ∃ r, Json.parse Completions.Request.read completions = .ok r :=
    read (by decide +kernel)
  obtain ⟨r'', hr''⟩ : ∃ r, Json.parse Embeddings.Request.read embeddings = .ok r :=
    read (by decide +kernel)
  obtain ⟨_, single, -, -, -, -, posts, -, body, -⟩ := (c.passes_on 0 chat).1 r hr
  obtain ⟨_, -, streamed, -, -, -, -, posts', -, body', -⟩ :=
    (c.passes_on 0 completions).2.1 r' hr'
  obtain ⟨_, sent, -, -, posts'', body''⟩ := (c.passes_on 0 embeddings).2.2 r'' hr''
  exact ⟨⟨r, single, hr, posts, body.model, body.stream⟩,
    ⟨r', streamed, hr', posts', body'.model, body'.stream⟩,
    ⟨r'', sent, hr'', posts'', body''.model, body''.stream⟩⟩

/-- A parameter that is passed on is not what it was if it is an integer beyond those of 64 bits: it
    is rounded when it is read. -/
theorem passes_on_beyond :
    let c : Client := ⟨"m", "k", "http://h"⟩
    let payload := Text.Utf8.encode <| "\x7b\"messages\":[\x7b\"role\":\"user\"," ++
      "\"content\":\"hi\"\x7d],\"n\":18446744073709551617\x7d"
    let body := "\x7b\"messages\":[\x7b\"content\":\"hi\",\"role\":\"user\"\x7d]," ++
      "\"model\":\"m\",\"n\":1.8446744073709552e+19,\"stream\":false\x7d"
    ∃ r, Json.parse Chat.Request.read payload = .ok r ∧ r.refusal? = none ∧
      ∀ replies, ((c.provider.chat 0 r).requests replies).map (·.body) = [body] := by
  intro c payload body
  have posted : (Json.parse Chat.Request.read payload).toOption.map
      (fun r => (r.refusal?.isNone, (c.provider.chat 0 r).requests.map (·.body))) =
      some (true, [body]) := by
    decide +kernel
  rcases hr : Json.parse Chat.Request.read payload with e | r <;> rw [hr] at posted
  · cases posted
  · obtain ⟨accepted, sent⟩ := Prod.mk.inj (Option.some.inj posted)
    have posts := c.posts_chat 0 r
    refine ⟨r, rfl, Option.isNone_iff_eq_none.1 accepted, fun replies => ?_⟩
    rw [posts replies, ← posts []]
    exact sent

end Client

end InferenceGateway.OpenAi
