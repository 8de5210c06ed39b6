import InferenceGateway.Proofs.AnswerReading
import InferenceGateway.Proofs.FieldReading
import InferenceGateway.Proofs.JsonRecognition

/-!
# Data that tell fragments

Which fragment of a streamed answer data tell, if the vendor has the interface of the gateway. The
data are a text of JSON. What they say of a fragment, of a choice in it and of an addition to a
message stands in members of these names, among which others may stand, or in an array that has a
place for each name and no other items.

* `Reader.Reads`: a reader reads the nodes that tell something, and no others. So it is with texts
  (`Reader.Reads.parse_iff`).
* `Chat.Chunk.reads`, `Completions.Chunk.reads`: the nodes that tell a fragment.
-/

namespace InferenceGateway

open Document

variable {α β : Type}

/-! ## Readers -/

/-- Relations that agree on the items of a list relate it to the same lists. -/
theorem forall₂_congr_of_mem {R S : α → β → Prop} {xs : List α} {ys : List β}
    (h : ∀ x ∈ xs, ∀ y, R x y ↔ S x y) : List.Forall₂ R xs ys ↔ List.Forall₂ S xs ys := by
  induction xs generalizing ys with
  | nil => simp
  | cons x xs ih =>
    rw [List.forall_mem_cons] at h
    cases ys with
    | nil => simp
    | cons y ys => rw [List.forall₂_cons, List.forall₂_cons, h.1 y, ih h.2]

namespace Document

/-- A reader reads exactly the nodes that tell a value, as this value. -/
def Reader.Reads (r : Reader α) (told : Node → α → Prop) : Prop :=
  ∀ {n : Node} {a : α}, n.IsJson → n.isWellFormed → (r .json n = .ok a ↔ told n a)

/-- A list of values is told by a sequence of nodes, one for each. -/
theorem Reader.Reads.list {r : Reader α} {told : Node → α → Prop} (h : r.Reads told) :
    (Reader.list r).Reads fun n as =>
      ∃ items, n = .sequence items ∧ List.Forall₂ told items as := by
  intro n as hn hw
  rw [Reader.list_eq_ok_iff (by decide) hn]
  refine exists_congr fun items => and_congr_right ?_
  rintro rfl
  cases hn with
  | sequence isJson =>
    exact forall₂_congr_of_mem fun item hi a =>
      h (isJson item hi) (Node.areWellFormed_iff.1 hw item hi)

/-- What the node of a field says of a text: the text, or that there is none. Such a field may also
    be left out. -/
inductive SaysOptional : Option Node → Option String → Prop
  | text (s : String) : SaysOptional (some (.text s)) (some s)
  | null : SaysOptional (some .null) none
  | absent : SaysOptional none none

namespace HasFields

variable {names : List String} {n : Node} {look : String → Option Node} {name : String}
  (h : HasFields names n look) (hn : n.IsJson) (hm : name ∈ names)

include h hn hm

theorem required_text_iff {s : String} :
    (Fields.required name .text).build .json look = .ok s ↔ look name = some (.text s) := by
  rw [Fields.required_iff]
  constructor
  · rintro ⟨n, hl, hs⟩
    rw [hl, (Reader.text_eq_ok_iff (h.isJson hn hm hl)).1 hs]
  · exact fun hl => ⟨_, hl, rfl⟩

theorem required_natural_iff {bits k : Nat} {type : String} :
    (Fields.required name (.natural bits type)).build .json look = .ok k ↔
      look name = some (.number (.integer k)) ∧ k < Nat.pow 2 bits := by
  rw [Fields.required_iff]
  constructor
  · rintro ⟨n, hl, hk⟩
    obtain ⟨rfl, hb⟩ := (Reader.natural_eq_ok_iff (h.isJson hn hm hl)).1 hk
    exact ⟨hl, hb⟩
  · rintro ⟨hl, hb⟩
    exact ⟨_, hl, Reader.natural_of_lt hb type .json⟩

theorem optional_text_iff {x : Option String} :
    (Fields.optional name .text).build .json look = .ok x ↔ SaysOptional (look name) x := by
  simp only [Fields.optional, Fields.single]
  rcases hl : look name with _ | n
  · constructor
    · intro h
      exact Except.ok.inj h ▸ .absent
    · rintro ⟨⟩
      rfl
  · dsimp only
    rw [Reader.option.eq_def]
    constructor
    · intro hx
      split at hx
      · exact Except.ok.inj hx ▸ .null
      · obtain ⟨s, hs, rfl⟩ := map_eq_ok_iff.1 hx
        exact (Reader.text_eq_ok_iff (h.isJson hn hm hl)).1 hs ▸ .text s
    · rintro (_ | _) <;> rfl

/-- A field of any other kind is read of the node that tells its value. -/
theorem required_iff (hw : n.isWellFormed) {r : Reader α} {told : Node → α → Prop}
    (hr : r.Reads told) {a : α} : (Fields.required name r).build .json look = .ok a ↔
      ∃ value, look name = some value ∧ told value a := by
  rw [Fields.required_iff]
  refine exists_congr fun value => and_congr_right fun hl => ?_
  exact hr (h.isJson hn hm hl) (h.isWellFormed hw hm hl)

end HasFields

end Document

/-- A text of JSON tells what its tree tells. -/
def Json.Tells (told : Node → α → Prop) (text : String) (a : α) : Prop :=
  ∃ n, Json.tree (Text.Utf8.encode text) = (n, true) ∧ told n a

/-- A text is read as what it tells, and no other text is read. -/
theorem Document.Reader.Reads.parse_iff {r : Reader α} {told : Node → α → Prop} (h : r.Reads told)
    {text : String} {a : α} :
    Json.parse r (Text.Utf8.encode text) = .ok a ↔ Json.Tells told text a := by
  constructor
  · intro hp
    obtain ⟨n, ht, hn, hr⟩ := Json.tree_of_parse hp
    exact ⟨n, ht, (h hn (Json.isWellFormed_of_tree ht)).1 hr⟩
  · rintro ⟨n, ht, hr⟩
    have hn : n.IsJson := by simpa [ht] using Json.isJson_tree (Text.Utf8.encode text)
    exact Json.parse_of_tree ht ((h hn (Json.isWellFormed_of_tree ht)).2 hr)

/-! ## Fragments -/

/-- What a node says of the members that all fragments have. -/
def IsFragment (choice : Node → α → Prop) (n : Node) (id object : String) (created : Nat)
    (model : String) (choices : List α) : Prop :=
  ∃ look, HasFields ["id", "object", "created", "model", "choices"] n look ∧
    look "id" = some (.text id) ∧ look "object" = some (.text object) ∧
    (look "created" = some (.number (.integer created)) ∧ created < Nat.pow 2 64) ∧
    look "model" = some (.text model) ∧
    ∃ list, look "choices" = some list ∧
      ∃ items, list = .sequence items ∧ List.Forall₂ choice items choices

/-- The members that all fragments have are read of the nodes that say something of them. -/
theorem reads_common (make : String → String → Nat → String → List α → β) {r : Reader α}
    {choice : Node → α → Prop} (hr : r.Reads choice) {label : String} :
    ((commonFields make r).closed label).Reads fun n b => ∃ id object created model choices,
      IsFragment choice n id object created model choices ∧
        b = make id object created model choices := by
  intro n b hn hw
  have whole : (commonFields make r).IsWhole .json :=
    (((((Fields.IsWhole.required _ _).map make).seq (.required _ _)).seq (.required _ _)).seq
      (.required _ _)).seq (.required _ _)
  have names : (commonFields make r).fields.map Field.name =
      ["id", "object", "created", "model", "choices"] := rfl
  rw [Fields.closed_eq_ok_iff whole (by rw [names]; decide) (by decide) hn hw, names]
  constructor
  · rintro ⟨look, has, hb⟩
    obtain ⟨_, choices, h₄, hchoices, rfl⟩ := Fields.of_build_seq hb
    obtain ⟨_, model, h₃, hmodel, rfl⟩ := Fields.of_build_seq h₄
    obtain ⟨_, created, h₂, hcreated, rfl⟩ := Fields.of_build_seq h₃
    obtain ⟨_, object, h₁, hobject, rfl⟩ := Fields.of_build_seq h₂
    obtain ⟨id, hid, rfl⟩ := Fields.of_build_map h₁
    exact ⟨id, object, created, model, choices, ⟨look, has,
      (has.required_text_iff hn (by decide)).1 hid,
      (has.required_text_iff hn (by decide)).1 hobject,
      (has.required_natural_iff hn (by decide)).1 hcreated,
      (has.required_text_iff hn (by decide)).1 hmodel,
      (has.required_iff hn (by decide) hw hr.list).1 hchoices⟩, rfl⟩
  · rintro ⟨id, object, created, model, choices,
      ⟨look, has, hid, hobject, hcreated, hmodel, hchoices⟩, rfl⟩
    refine ⟨look, has, Fields.build_seq (Fields.build_seq (Fields.build_seq (Fields.build_seq
      (Fields.build_map make ?_) ?_) ?_) ?_) ?_⟩
    · exact (has.required_text_iff hn (by decide)).2 hid
    · exact (has.required_text_iff hn (by decide)).2 hobject
    · exact (has.required_natural_iff hn (by decide)).2 hcreated
    · exact (has.required_text_iff hn (by decide)).2 hmodel
    · exact (has.required_iff hn (by decide) hw hr.list).2 hchoices

namespace Chat

/-! ### Chats -/

/-- What a node says of an addition to a message. -/
def Delta.Told (n : Node) (d : Delta) : Prop :=
  ∃ look, HasFields ["role", "content"] n look ∧ SaysOptional (look "role") d.role ∧
    SaysOptional (look "content") d.content

theorem Delta.reads : read.Reads Told := by
  intro n d hn hw
  have whole : fields.IsWhole .json := ((Fields.IsWhole.optional _ _).map mk).seq (.optional _ _)
  refine (Fields.closed_eq_ok_iff whole (by decide) (by decide) hn hw).trans ?_
  refine exists_congr fun look => and_congr_right
    fun (has : HasFields ["role", "content"] n look) => ?_
  constructor
  · intro hb
    obtain ⟨_, content, h₁, hcontent, rfl⟩ := Fields.of_build_seq hb
    obtain ⟨role, hrole, rfl⟩ := Fields.of_build_map h₁
    exact ⟨(has.optional_text_iff hn (by decide)).1 hrole,
      (has.optional_text_iff hn (by decide)).1 hcontent⟩
  · rintro ⟨hrole, hcontent⟩
    exact Fields.build_seq (Fields.build_map mk ((has.optional_text_iff hn (by decide)).2 hrole))
      ((has.optional_text_iff hn (by decide)).2 hcontent)

/-- What a node says of a choice. -/
def StreamChoice.Told (n : Node) (c : StreamChoice) : Prop :=
  ∃ look, HasFields ["index", "delta", "finish_reason"] n look ∧
    (look "index" = some (.number (.integer c.index)) ∧ c.index < Nat.pow 2 32) ∧
    (∃ delta, look "delta" = some delta ∧ Delta.Told delta c.delta) ∧
    SaysOptional (look "finish_reason") c.finishReason

theorem StreamChoice.reads : read.Reads Told := by
  intro n c hn hw
  have whole : fields.IsWhole .json :=
    (((Fields.IsWhole.required _ _).map mk).seq (.required _ _)).seq (.optional _ _)
  refine (Fields.closed_eq_ok_iff whole (by decide) (by decide) hn hw).trans ?_
  refine exists_congr fun look => and_congr_right
    fun (has : HasFields ["index", "delta", "finish_reason"] n look) => ?_
  constructor
  · intro hb
    obtain ⟨_, reason, h₂, hreason, rfl⟩ := Fields.of_build_seq hb
    obtain ⟨_, delta, h₁, hdelta, rfl⟩ := Fields.of_build_seq h₂
    obtain ⟨index, hindex, rfl⟩ := Fields.of_build_map h₁
    exact ⟨(has.required_natural_iff hn (by decide)).1 hindex,
      (has.required_iff hn (by decide) hw Delta.reads).1 hdelta,
      (has.optional_text_iff hn (by decide)).1 hreason⟩
  · rintro ⟨hindex, hdelta, hreason⟩
    refine Fields.build_seq (Fields.build_seq (Fields.build_map mk ?_) ?_) ?_
    · exact (has.required_natural_iff hn (by decide)).2 hindex
    · exact (has.required_iff hn (by decide) hw Delta.reads).2 hdelta
    · exact (has.optional_text_iff hn (by decide)).2 hreason

/-- What a node says of a fragment. -/
def Chunk.Told (n : Node) (c : Chunk) : Prop :=
  IsFragment StreamChoice.Told n c.id c.object c.created c.model c.choices

theorem Chunk.reads : read.Reads Told := by
  intro n c hn hw
  refine (reads_common mk StreamChoice.reads hn hw).trans ⟨?_, fun h => ?_⟩
  · rintro ⟨id, object, created, model, choices, h, rfl⟩
    exact h
  · exact ⟨_, _, _, _, _, h, rfl⟩

end Chat

namespace Completions

/-! ### Completions -/

/-- What a node says of a choice. -/
def StreamChoice.Told (n : Node) (c : StreamChoice) : Prop :=
  ∃ look, HasFields ["index", "text", "finish_reason"] n look ∧
    (look "index" = some (.number (.integer c.index)) ∧ c.index < Nat.pow 2 32) ∧
    SaysOptional (look "text") c.text ∧ SaysOptional (look "finish_reason") c.finishReason

theorem StreamChoice.reads : read.Reads Told := by
  intro n c hn hw
  have whole : fields.IsWhole .json :=
    (((Fields.IsWhole.required _ _).map mk).seq (.optional _ _)).seq (.optional _ _)
  refine (Fields.closed_eq_ok_iff whole (by decide) (by decide) hn hw).trans ?_
  refine exists_congr fun look => and_congr_right
    fun (has : HasFields ["index", "text", "finish_reason"] n look) => ?_
  constructor
  · intro hb
    obtain ⟨_, reason, h₂, hreason, rfl⟩ := Fields.of_build_seq hb
    obtain ⟨_, text, h₁, htext, rfl⟩ := Fields.of_build_seq h₂
    obtain ⟨index, hindex, rfl⟩ := Fields.of_build_map h₁
    exact ⟨(has.required_natural_iff hn (by decide)).1 hindex,
      (has.optional_text_iff hn (by decide)).1 htext,
      (has.optional_text_iff hn (by decide)).1 hreason⟩
  · rintro ⟨hindex, htext, hreason⟩
    refine Fields.build_seq (Fields.build_seq (Fields.build_map mk ?_) ?_) ?_
    · exact (has.required_natural_iff hn (by decide)).2 hindex
    · exact (has.optional_text_iff hn (by decide)).2 htext
    · exact (has.optional_text_iff hn (by decide)).2 hreason

/-- What a node says of a fragment. -/
def Chunk.Told (n : Node) (c : Chunk) : Prop :=
  IsFragment StreamChoice.Told n c.id c.object c.created c.model c.choices

theorem Chunk.reads : read.Reads Told := by
  intro n c hn hw
  refine (reads_common mk StreamChoice.reads hn hw).trans ⟨?_, fun h => ?_⟩
  · rintro ⟨id, object, created, model, choices, h, rfl⟩
    exact h
  · exact ⟨_, _, _, _, _, h, rfl⟩

end Completions

end InferenceGateway
