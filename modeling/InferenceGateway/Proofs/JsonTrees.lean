import InferenceGateway.Json.Tree
import InferenceGateway.Proofs.ObjectReading
import InferenceGateway.Proofs.Rounding

/-!
# Trees of JSON texts

A tree of a document can hold more than a JSON text can write: tags, and numbers that are not
finite. The machines that read a JSON text put no such thing into its tree, whatever the text is.

* `Token.isJson_of_mem_ofBytes`: the values of the tokens of a text.
* `isJson_tree`: the tree of a text. It is the tree that readers read (`tree_of_parse`).
* `exists_entriesOf`: so the entries of an object whose keys can be read are those of members.
-/

namespace InferenceGateway

open Document Numeral

namespace Document.Node

/-- A node that can stand in the tree of a JSON text: there are no tags in it, and its numbers are
    finite. -/
inductive IsJson : Node → Prop
  | fault : IsJson .fault
  | unreadable : IsJson .unreadable
  | null : IsJson .null
  | bool (b : Bool) : IsJson (.bool b)
  | integer (i : Int) : IsJson (.number (.integer i))
  | real {x : Binary} : x.IsFiniteIn .double → IsJson (.number (.real x))
  | text (s : String) : IsJson (.text s)
  | sequence {items : List Node} : (∀ n ∈ items, IsJson n) → IsJson (.sequence items)
  | mapping {entries : List (Node × Node)} : (∀ e ∈ entries, IsJson e.1) →
    (∀ e ∈ entries, IsJson e.2) → IsJson (.mapping entries)

theorem IsJson.untag {n : Node} (h : n.IsJson) : n.untag = n := by cases h <;> rfl

/-- The value of a member of an object. -/
theorem IsJson.of_mem {members : List (String × Node)} (h : (object members).IsJson)
    {m : String × Node} (hm : m ∈ members) : m.2.IsJson := by
  cases h with
  | mapping _ values => exact values (.text m.1, m.2) (List.mem_map_of_mem hm)

/-- Entries whose keys can be read are those of members. -/
theorem exists_entriesOf {d : Dialect} {entries : List (Node × Node)}
    (keys : ∀ e ∈ entries, e.1.IsJson) (read : ∀ e ∈ entries, ∃ name, keyText d e.1 = .ok name) :
    ∃ members, entries = entriesOf members := by
  induction entries with
  | nil => exact ⟨[], rfl⟩
  | cons e entries ih =>
    rw [List.forall_mem_cons] at keys read
    obtain ⟨members, rfl⟩ := ih keys.2 read.2
    obtain ⟨name, hname⟩ := read.1
    have key : e.1 = .text name := by
      have text := text?_of_keyText hname
      rw [Node.text?, keys.1.untag] at text
      split at text
      · rename_i s hs
        rw [hs, Option.some.inj text]
      · cases text
    exact ⟨(name, e.2) :: members, by rw [← Prod.eta e, key]; rfl⟩

end Document.Node

namespace Json

/-! ## Tokens -/

namespace Token

/-- The value of a token, if it has one, can stand in a tree. -/
def IsJson : Token → Prop
  | .scalar n | .string n => n.IsJson
  | _ => True

/-- The value of the word that the machine stands in, if it stands in one, can stand in a tree. -/
def Mode.IsJson : Mode → Prop
  | .word _ n => n.IsJson
  | _ => True

theorem isJson_number (d : Draft) : d.value.IsJson := by
  rw [Draft.value]
  split
  · rename_i x hx
    cases x with
    | integer i => exact .integer i
    | real x => exact .real (Literal.isFiniteIn_of_jsonNumber hx)
  · exact .unreadable

theorem isJson_string (s : Scribe) : s.value.IsJson := by
  rw [Scribe.value]
  split
  · exact .unreadable
  · split
    · exact .text _
    · exact .unreadable

/-- Tokens that a byte ends, and a mode after it, without a value that cannot stand in a tree. -/
def Sound (r : List Token × Mode) : Prop := (∀ t ∈ r.1, t.IsJson) ∧ r.2.IsJson

theorem sound_lost : Sound ([.fault], .lost) := ⟨List.forall_mem_singleton.2 trivial, trivial⟩

theorem Sound.ite {c : Prop} [Decidable c] {r r' : List Token × Mode} (h : Sound r)
    (h' : Sound r') : Sound (if c then r else r') := by
  split
  · exact h
  · exact h'

/-- What a byte between two tokens begins. -/
theorem sound_begin (b : UInt8) : Sound (begin b) := by
  have mark {t : Token} (ht : t.IsJson) : Sound ([t], .between) :=
    ⟨List.forall_mem_singleton.2 ht, trivial⟩
  have word {rest : Bytes} {n : Node} (hn : n.IsJson) : Sound ([], .word rest n) := ⟨nofun, hn⟩
  rw [begin]
  refine .ite ⟨nofun, trivial⟩ <| .ite (mark trivial) <| .ite (mark trivial) <|
    .ite (mark trivial) <| .ite (mark trivial) <| .ite (mark trivial) <| .ite (mark trivial) <|
    .ite ⟨nofun, trivial⟩ <| .ite (word .null) <| .ite (word (.bool true)) <|
    .ite (word (.bool false)) ?_
  split
  · exact ⟨nofun, trivial⟩
  · exact sound_lost

/-- What a byte ends or goes on with. -/
theorem sound_step {mode : Mode} (h : mode.IsJson) (b : UInt8) : Sound (step mode b) := by
  cases mode with
  | between => exact sound_begin b
  | word rest value =>
    rw [step.eq_def]
    dsimp only
    split
    · split
      · exact ⟨List.forall_mem_singleton.2 h, trivial⟩
      · exact sound_lost
    · split
      · exact ⟨nofun, h⟩
      · exact sound_lost
    · exact sound_lost
  | number d =>
    rw [step]
    split
    · exact ⟨nofun, trivial⟩
    · split
      · obtain ⟨ht, hm⟩ := sound_begin b
        exact ⟨List.forall_mem_cons.2 ⟨isJson_number d, ht⟩, hm⟩
      · exact sound_lost
  | string s =>
    rw [step]
    split
    · exact ⟨List.forall_mem_singleton.2 (isJson_string s), trivial⟩
    · split
      · exact ⟨nofun, trivial⟩
      · split
        · exact sound_lost
        · exact ⟨nofun, trivial⟩
  | escape s =>
    rw [step]
    split
    · exact ⟨nofun, trivial⟩
    · split
      · exact ⟨nofun, trivial⟩
      · exact sound_lost
  | unicode s missing value =>
    rw [step]
    split
    · split <;> exact ⟨nofun, trivial⟩
    · exact sound_lost
  | lost => exact ⟨nofun, trivial⟩

/-- The tokens of a text, along its bytes. -/
theorem sound_read (bytes : Bytes) {start : List Token × Mode} (h : Sound start) :
    Sound (read bytes start) := by
  induction bytes generalizing start with
  | nil => exact h
  | cons b bytes ih =>
    obtain ⟨hs, hm⟩ := sound_step h.2 b
    refine ih ⟨fun t ht => ?_, hm⟩
    rcases List.mem_append.1 ht with ht | ht
    · exact hs t (List.mem_reverse.1 ht)
    · exact h.1 t ht

/-- The values of the tokens of a text can stand in a tree. -/
theorem isJson_of_mem_ofBytes {bytes : Bytes} : ∀ t ∈ ofBytes bytes, t.IsJson := by
  obtain ⟨found, -⟩ : Sound (read bytes ([], .between)) := sound_read bytes ⟨nofun, trivial⟩
  intro t ht
  rcases List.mem_append.1 (List.mem_reverse.1 ht) with ht | ht
  · have ht := List.mem_reverse.1 ht
    rw [finish.eq_def] at ht
    split at ht
    · cases ht
    · cases ht
    · split at ht <;> obtain rfl := List.mem_singleton.1 ht
      · exact isJson_number _
      · exact trivial
    · obtain rfl := List.mem_singleton.1 ht
      exact trivial
  · exact found t ht

end Token

/-! ## Trees -/

namespace Build

/-- The key that waits for its value, if there is one, can stand in a tree. -/
def NextIsJson : Next → Prop
  | .colon key | .value key => key.IsJson
  | _ => True

/-- What an open container holds can stand in a tree. -/
def FrameIsJson : Frame → Prop
  | .array items _ => ∀ n ∈ items, n.IsJson
  | .object entries next =>
    (∀ e ∈ entries, e.1.IsJson) ∧ (∀ e ∈ entries, e.2.IsJson) ∧ NextIsJson next

/-- All that has been read so far can stand in a tree. -/
structure IsJson (b : Build) : Prop where
  frames : ∀ f ∈ b.frames, FrameIsJson f
  root : ∀ n ∈ b.root, n.IsJson

variable {b : Build} {n : Node}

theorem IsJson.put (h : b.IsJson) (hn : n.IsJson) : (b.put n).IsJson := by
  obtain ⟨hf, hr⟩ := h
  rw [Build.put]
  split
  · rename_i hb
    exact ⟨hf, fun n' hn' => Option.some.inj hn' ▸ hn⟩
  · rename_i items _ rest hb
    rw [hb, List.forall_mem_cons] at hf
    exact ⟨List.forall_mem_cons.2 ⟨List.forall_mem_cons.2 ⟨hn, hf.1⟩, hf.2⟩, hr⟩
  · rename_i entries key rest hb
    rw [hb, List.forall_mem_cons] at hf
    obtain ⟨⟨keys, values, hkey⟩, hf⟩ := hf
    exact ⟨List.forall_mem_cons.2 ⟨⟨List.forall_mem_cons.2 ⟨hkey, keys⟩,
      List.forall_mem_cons.2 ⟨hn, values⟩, trivial⟩, hf⟩, hr⟩
  · rename_i entries next rest _ hb
    rw [hb, List.forall_mem_cons] at hf
    obtain ⟨⟨keys, values, -⟩, hf⟩ := hf
    exact ⟨List.forall_mem_cons.2 ⟨⟨keys, values, hn⟩, hf⟩, hr⟩

/-- Entries in reverse make an object. -/
theorem isJson_mapping {entries : List (Node × Node)} (keys : ∀ e ∈ entries, e.1.IsJson)
    (values : ∀ e ∈ entries, e.2.IsJson) : (Node.mapping entries.reverse).IsJson :=
  .mapping (fun e he => keys e (List.mem_reverse.1 he)) fun e he => values e (List.mem_reverse.1 he)

theorem isJson_sequence {items : List Node} (h : ∀ n ∈ items, n.IsJson) :
    (Node.sequence items.reverse).IsJson := .sequence fun n hn => h n (List.mem_reverse.1 hn)

/-- Containers that are closed early hold what they held. -/
theorem isJson_closeAll {frames : List Frame} (hf : ∀ f ∈ frames, FrameIsJson f) (hn : n.IsJson) :
    (closeAll n frames).IsJson := by
  induction frames generalizing n with
  | nil => exact hn
  | cons f frames ih =>
    rw [List.forall_mem_cons] at hf
    cases f with
    | array items next => exact ih hf.2 (isJson_sequence (List.forall_mem_cons.2 ⟨hn, hf.1⟩))
    | object entries next =>
      obtain ⟨⟨keys, values, hkey⟩, hf⟩ := hf
      have waiting {key : Node} (hk : key.IsJson) :
          (Node.mapping ((key, n) :: entries).reverse).IsJson :=
        isJson_mapping (List.forall_mem_cons.2 ⟨hk, keys⟩) (List.forall_mem_cons.2 ⟨hn, values⟩)
      have broken : (Node.mapping ((n, .fault) :: entries).reverse).IsJson :=
        isJson_mapping (List.forall_mem_cons.2 ⟨hn, keys⟩) (List.forall_mem_cons.2 ⟨.fault, values⟩)
      cases next with
      | colon key | value key => exact ih hf (waiting hkey)
      | first | item | separator => exact ih hf broken

theorem IsJson.fail (h : b.IsJson) (hn : n.IsJson) : (b.fail n).IsJson := by
  rw [Build.fail]
  split
  · rename_i root hb
    exact ⟨h.frames, fun n' hn' => h.root n' (hb ▸ hn')⟩
  · refine ⟨nofun, fun n' hn' => Option.some.inj hn' ▸ isJson_closeAll
      (fun f hf => h.frames f (List.mem_of_mem_drop hf)) ?_⟩
    split
    · exact .fault
    · exact hn

theorem IsJson.push (h : b.IsJson) {f : Frame} (hf : FrameIsJson f) : (b.push f).IsJson :=
  ⟨List.forall_mem_cons.2 ⟨hf, h.frames⟩, h.root⟩

theorem IsJson.pop (h : b.IsJson) {f : Frame} {rest : List Frame} (hb : b.frames = f :: rest)
    (hn : n.IsJson) : (b.pop rest n).IsJson := by
  have frames := h.frames
  rw [hb, List.forall_mem_cons] at frames
  refine IsJson.put ⟨frames.2, h.root⟩ ?_
  rw [close]
  split
  · exact .unreadable
  · exact hn

/-- The innermost container with another state of reading. -/
theorem IsJson.next (h : b.IsJson) {f : Frame} {rest : List Frame}
    (hb : b.frames = f :: rest) {f' : Frame} (hf : FrameIsJson f → FrameIsJson f') :
    ({ b with frames := f' :: rest } : Build).IsJson := by
  have frames := h.frames
  rw [hb, List.forall_mem_cons] at frames
  exact ⟨List.forall_mem_cons.2 ⟨hf frames.1, frames.2⟩, h.root⟩

/-- One token more adds nothing that cannot stand in a tree. -/
theorem IsJson.step (h : b.IsJson) {t : Token} (ht : t.IsJson) : (b.step t).IsJson := by
  have innermost {f : Frame} {rest : List Frame} (hb : b.frames = f :: rest) : FrameIsJson f :=
    h.frames f (hb ▸ List.mem_cons_self)
  rw [Build.step.eq_def]
  split
  · exact h
  split
  · split
    · exact h.push nofun
    · refine h.fail ?_
      split
      · exact .sequence (List.forall_mem_singleton.2 .fault)
      · exact .fault
  · split
    · exact h.push ⟨nofun, nofun, trivial⟩
    · refine h.fail ?_
      split
      · exact .mapping (List.forall_mem_singleton.2 .fault) (List.forall_mem_singleton.2 .fault)
      · exact .fault
  · split
    · exact h.put ht
    · refine h.fail ?_
      split
      · exact ht
      · exact .fault
  · split
    · exact h.put ht
    · exact h.fail .fault
  · rename_i hb
    exact h.pop hb (isJson_sequence (innermost hb))
  · rename_i hb
    exact h.pop hb (isJson_sequence (innermost hb))
  · rename_i hb
    exact h.pop hb (isJson_mapping (innermost hb).1 (innermost hb).2.1)
  · rename_i hb
    exact h.pop hb (isJson_mapping (innermost hb).1 (innermost hb).2.1)
  · rename_i hb
    exact h.next hb id
  · rename_i hb
    exact h.next hb id
  · rename_i hb
    exact h.next hb id
  · exact h.fail .fault

end Build

/-- The tree of a text has no tags, and its numbers are finite. -/
theorem isJson_tree (bytes : Bytes) : (tree bytes).1.IsJson := by
  have all (tokens : List Token) (ht : ∀ t ∈ tokens, t.IsJson) {b : Build} (h : b.IsJson) :
      (tokens.foldl Build.step b).IsJson := by
    induction tokens generalizing b with
    | nil => exact h
    | cons t tokens ih =>
      rw [List.forall_mem_cons] at ht
      exact ih ht.2 (h.step ht.1)
  have built := all (Token.ofBytes bytes) Token.isJson_of_mem_ofBytes (b := .start) ⟨nofun, nofun⟩
  rw [tree, Build.finish]
  split
  · rename_i n hn
    exact built.root n hn
  · have failed := (built.fail .fault).root
    dsimp only
    cases hroot : ((List.foldl Build.step Build.start (Token.ofBytes bytes)).fail .fault).root with
    | none => exact .fault
    | some n => exact failed n hroot

/-- A text that is read has a tree, which is read. -/
theorem tree_of_parse {α : Type} {r : Reader α} {bytes : Bytes} {a : α}
    (h : parse r bytes = .ok a) :
    ∃ n, tree bytes = (n, true) ∧ n.IsJson ∧ r .json n = .ok a := by
  have isJson := isJson_tree bytes
  rw [parse] at h
  generalize tree bytes = t at isJson h ⊢
  obtain ⟨n, complete⟩ := t
  obtain ⟨a', ha, h⟩ := ok_of_bind h
  cases complete with
  | false => cases h
  | true => exact ⟨n, rfl, isJson, Except.ok.inj h ▸ ha⟩

/-- A text with a tree that is read is read. -/
theorem parse_of_tree {α : Type} {r : Reader α} {bytes : Bytes} {n : Node} {a : α}
    (h : tree bytes = (n, true)) (hr : r .json n = .ok a) : parse r bytes = .ok a := by
  rw [parse, h]
  simp only [hr]
  rfl

end Json

end InferenceGateway
