import InferenceGateway.Completions
import InferenceGateway.Proofs.Reading
import InferenceGateway.Proofs.RecordReading

/-!
# Reading written answers

The answers of the gateway and the fragments of its streams are read back as what they are. A
vendor may be a gateway itself, so this is what it takes to put gateways in a row.

The numbers of an answer have a size, 32 bits or 64. The types here have none, so it is a
condition on their values (`Fits`), which fragments that have been read meet.

* `Chat.Response.readsBack`, `Completions.Response.readsBack`: single answers.
* `Chat.Chunk.readsBack`, `Completions.Chunk.readsBack`: fragments.
* `Chat.Chunk.fits_of_read`, `Completions.Chunk.fits_of_read`: fragments that have been read fit.
-/

namespace InferenceGateway

open Document Json

/-! ## Common members -/

section Common

variable {α β : Type} {r : Reader α} {write : α → Json} {room created : Nat} {choices : List α}

/-- The members that answers and fragments have in common. -/
def commonFields (make : String → String → Nat → String → List α → β) (r : Reader α) : Fields β :=
  make <$> .required "id" .text <*> .required "object" .text <*> .required "created" .word64
    <*> .required "model" .text <*> .required "choices" (.list r)

/-- The common members are read back, whatever comes after them. -/
theorem builds_common (make : String → String → Nat → String → List α → β)
    (id object model : String) (more : List (String × Json)) (hc : created < Nat.pow 2 64)
    (h : ∀ c ∈ choices, ReadsBack r room (write c) c) :
    Builds (commonFields make r) (room + 1)
      ([("id", .text id), ("object", .text object), ("created", .integer created),
        ("model", .text model), ("choices", .array (choices.map write))] ++ more)
      (make id object created model choices) := by
  refine ((((Builds.map make ?_).seq ?_).seq ?_).seq ?_).seq ?_
  · exact .required rfl (.text id)
  · exact .required rfl (.text object)
  · exact .required rfl (.natural hc (by decide) "u64")
  · exact .required rfl (.text model)
  · exact .required rfl (.list h)

/-- What the common members have been read as. -/
theorem of_build_common {make : String → String → Nat → String → List α → β} {d : Dialect}
    {look : String → Option Node} {b : β} (h : (commonFields make r).build d look = .ok b) :
    ∃ id object created model choices, b = make id object created model choices ∧
      created < Nat.pow 2 64 ∧ ∀ c ∈ choices, ∃ n, r d n = .ok c := by
  obtain ⟨_, choices, h₄, hchoices, rfl⟩ := Fields.of_build_seq h
  obtain ⟨_, model, h₃, -, rfl⟩ := Fields.of_build_seq h₄
  obtain ⟨_, created, h₂, hcreated, rfl⟩ := Fields.of_build_seq h₃
  obtain ⟨_, object, h₁, -, rfl⟩ := Fields.of_build_seq h₂
  obtain ⟨id, -, rfl⟩ := Fields.of_build_map h₁
  obtain ⟨_, -, hcreated⟩ := Fields.node_of_requiredUnder hcreated
  obtain ⟨_, -, hchoices⟩ := Fields.node_of_requiredUnder hchoices
  obtain ⟨items, -, hitems⟩ := Reader.items_of_list hchoices
  exact ⟨id, object, created, model, choices, rfl, Reader.lt_of_natural hcreated,
    exists_of_forall₂ hitems⟩

end Common

/-! ## Answers -/

namespace Usage

/-- Counts of 32 bits. -/
structure Fits (u : Usage) : Prop where
  prompt : u.promptTokens < Nat.pow 2 32
  completion : u.completionTokens < Nat.pow 2 32
  total : u.totalTokens < Nat.pow 2 32

theorem readsBack {u : Usage} (h : u.Fits) (room : Nat) :
    ReadsBack read (room + 1) u.toJson u := by
  refine .record (r := fields) ?_ (.refl _) (by decide)
  refine ((Builds.map mk ?_).seq ?_).seq ?_
  · exact .defaulting rfl (.natural h.prompt (by decide) "u32")
  · exact .defaulting rfl (.natural h.completion (by decide) "u32")
  · exact .defaulting rfl (.natural h.total (by decide) "u32")

end Usage

namespace Chat

theorem Message.readsBack (m : Message) (room : Nat) : ReadsBack read (room + 1) m.toJson m := by
  refine .record (r := fields) ?_ (.refl _) (by decide)
  refine (Builds.map mk ?_).seq ?_
  · exact .required rfl (.text _)
  · exact .required rfl (.text _)

theorem Choice.readsBack {c : Choice} (h : c.index < Nat.pow 2 32) (room : Nat) :
    ReadsBack read (room + 2) c.toJson c := by
  refine .record (r := fields) ?_ (.refl _) (by decide)
  refine ((Builds.map mk ?_).seq ?_).seq ?_
  · exact .required rfl (.natural h (by decide) "u32")
  · exact .required rfl (c.message.readsBack room)
  · exact .optional rfl (.optionalText _)

namespace Response

/-- An answer whose numbers are of the sizes that they are written for. -/
structure Fits (r : Response) : Prop where
  created : r.created < Nat.pow 2 64
  choices : ∀ c ∈ r.choices, c.index < Nat.pow 2 32
  usage : ∀ u ∈ r.usage, u.Fits

theorem readsBack {r : Response} (h : r.Fits) (room : Nat) :
    ReadsBack read (room + 4) r.toJson r := by
  refine .record (r := fields) ?_ ?_ (by decide)
  · refine Builds.seq (builds_common mk _ _ _ _ h.created ?_) ?_
    · exact fun c hc => Choice.readsBack (h.choices c hc) room
    · refine .optional_member ?_ (fun u hu => Usage.readsBack (h.usage u hu) (room + 2)) nofun
      cases r.usage <;> rfl
  · rw [List.map_append]
    exact .append (.refl _) (names_member? _ _ _)

end Response

theorem Delta.readsBack (d : Delta) (room : Nat) : ReadsBack read (room + 1) d.toJson d := by
  refine .record (r := fields) ?_ ?_ (by decide)
  · refine (Builds.map mk ?_).seq ?_
    · refine .optional_member ?_ (fun s _ => .text s) nofun
      cases d.role <;> cases d.content <;> rfl
    · refine .optional_member ?_ (fun s _ => .text s) nofun
      cases d.role <;> cases d.content <;> rfl
  · rw [List.map_append]
    exact .append (names_member? _ _ _) (names_member? _ _ _)

theorem StreamChoice.readsBack {c : StreamChoice} (h : c.index < Nat.pow 2 32) (room : Nat) :
    ReadsBack read (room + 2) c.toJson c := by
  refine .record (r := fields) ?_ (.refl _) (by decide)
  refine ((Builds.map mk ?_).seq ?_).seq ?_
  · exact .required rfl (.natural h (by decide) "u32")
  · exact .required rfl (c.delta.readsBack room)
  · exact .optional rfl (.optionalText _)

/-- The index of a choice that has been read has 32 bits. -/
theorem StreamChoice.index_of_read {d : Dialect} {n : Node} {s : StreamChoice}
    (h : read d n = .ok s) : s.index < Nat.pow 2 32 := by
  obtain ⟨look, hb⟩ := Fields.build_of_closed h
  obtain ⟨_, _, h₂, -, rfl⟩ := Fields.of_build_seq hb
  obtain ⟨_, _, h₁, -, rfl⟩ := Fields.of_build_seq h₂
  obtain ⟨index, hindex, rfl⟩ := Fields.of_build_map h₁
  obtain ⟨_, -, hn⟩ := Fields.node_of_requiredUnder hindex
  exact Reader.lt_of_natural hn

namespace Chunk

/-- A fragment whose numbers are of the sizes that they are written for. -/
structure Fits (c : Chunk) : Prop where
  created : c.created < Nat.pow 2 64
  choices : ∀ s ∈ c.choices, s.index < Nat.pow 2 32

theorem readsBack {c : Chunk} (h : c.Fits) (room : Nat) :
    ReadsBack read (room + 4) c.toJson c := by
  refine .record (r := fields) (builds_common mk _ _ _ [] h.created ?_) (.refl _) (by decide)
  exact fun s hs => StreamChoice.readsBack (h.choices s hs) room

/-- A fragment that has been read fits. -/
theorem fits_of_read {d : Dialect} {n : Node} {c : Chunk} (h : read d n = .ok c) : c.Fits := by
  obtain ⟨look, hb⟩ := Fields.build_of_closed h
  obtain ⟨id, object, created, model, choices, rfl, hc, hs⟩ := of_build_common hb
  refine ⟨hc, fun s hm => ?_⟩
  obtain ⟨n, hn⟩ := hs s hm
  exact StreamChoice.index_of_read hn

end Chunk

end Chat

namespace Completions

theorem Choice.readsBack {c : Choice} (h : c.index < Nat.pow 2 32) (room : Nat) :
    ReadsBack read (room + 1) c.toJson c := by
  refine .record (r := fields) ?_ (.refl _) (by decide)
  refine ((Builds.map mk ?_).seq ?_).seq ?_
  · exact .required rfl (.natural h (by decide) "u32")
  · exact .required rfl (.text _)
  · exact .optional rfl (.optionalText _)

namespace Response

/-- An answer whose numbers are of the sizes that they are written for. -/
structure Fits (r : Response) : Prop where
  created : r.created < Nat.pow 2 64
  choices : ∀ c ∈ r.choices, c.index < Nat.pow 2 32
  usage : ∀ u ∈ r.usage, u.Fits

theorem readsBack {r : Response} (h : r.Fits) (room : Nat) :
    ReadsBack read (room + 3) r.toJson r := by
  refine .record (r := fields) ?_ ?_ (by decide)
  · refine Builds.seq (builds_common mk _ _ _ _ h.created ?_) ?_
    · exact fun c hc => Choice.readsBack (h.choices c hc) room
    · refine .optional_member ?_ (fun u hu => Usage.readsBack (h.usage u hu) (room + 1)) nofun
      cases r.usage <;> rfl
  · rw [List.map_append]
    exact .append (.refl _) (names_member? _ _ _)

end Response

theorem StreamChoice.readsBack {c : StreamChoice} (h : c.index < Nat.pow 2 32) (room : Nat) :
    ReadsBack read (room + 1) c.toJson c := by
  refine .record (r := fields) ?_ ?_ (by decide)
  · refine ((Builds.map mk ?_).seq ?_).seq ?_
    · exact .required rfl (.natural h (by decide) "u32")
    · refine .optional_member ?_ (fun s _ => .text s) nofun
      cases c.text <;> rfl
    · refine .optional (j := .ofOption .text c.finishReason) ?_ (.optionalText _)
      cases c.text <;> rfl
  · rw [List.map_append, List.map_append]
    exact .append (.append (.refl _) (names_member? _ _ _)) (.refl _)

/-- The index of a choice that has been read has 32 bits. -/
theorem StreamChoice.index_of_read {d : Dialect} {n : Node} {s : StreamChoice}
    (h : read d n = .ok s) : s.index < Nat.pow 2 32 := by
  obtain ⟨look, hb⟩ := Fields.build_of_closed h
  obtain ⟨_, _, h₂, -, rfl⟩ := Fields.of_build_seq hb
  obtain ⟨_, _, h₁, -, rfl⟩ := Fields.of_build_seq h₂
  obtain ⟨index, hindex, rfl⟩ := Fields.of_build_map h₁
  obtain ⟨_, -, hn⟩ := Fields.node_of_requiredUnder hindex
  exact Reader.lt_of_natural hn

namespace Chunk

/-- A fragment whose numbers are of the sizes that they are written for. -/
structure Fits (c : Chunk) : Prop where
  created : c.created < Nat.pow 2 64
  choices : ∀ s ∈ c.choices, s.index < Nat.pow 2 32

theorem readsBack {c : Chunk} (h : c.Fits) (room : Nat) :
    ReadsBack read (room + 3) c.toJson c := by
  refine .record (r := fields) (builds_common mk _ _ _ [] h.created ?_) (.refl _) (by decide)
  exact fun s hs => StreamChoice.readsBack (h.choices s hs) room

/-- A fragment that has been read fits. -/
theorem fits_of_read {d : Dialect} {n : Node} {c : Chunk} (h : read d n = .ok c) : c.Fits := by
  obtain ⟨look, hb⟩ := Fields.build_of_closed h
  obtain ⟨id, object, created, model, choices, rfl, hc, hs⟩ := of_build_common hb
  refine ⟨hc, fun s hm => ?_⟩
  obtain ⟨n, hn⟩ := hs s hm
  exact StreamChoice.index_of_read hn

end Chunk

end Completions

end InferenceGateway
