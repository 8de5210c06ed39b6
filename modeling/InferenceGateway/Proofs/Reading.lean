import InferenceGateway.Document.Tagged
import Mathlib.Data.List.Forall2

/-!
# What has been read

What a value says of the document that it was read of. Readers stop at the first error, so a value
is there only if every step has gone well (`ok_of_bind`); what a step has looked at is an entry of
the document.

* `Tags.read_json`: a tag in a text of JSON is a text.
* `exists_entry_of_place`: the node of a field is that of an entry that names the field.
* `forall₂_of_mapM`: the values of a list are read of its items, one for one.
-/

namespace InferenceGateway.Document

/-- A step that is gone on from has gone well. -/
theorem ok_of_bind {ε α β : Type} {x : Except ε α} {f : α → Except ε β} {b : β}
    (h : x >>= f = .ok b) : ∃ a, x = .ok a ∧ f a = .ok b := by
  cases x with
  | error e => cases h
  | ok a => exact ⟨a, rfl, h⟩

theorem map_eq_ok_iff {ε α β : Type} {f : α → β} {x : Except ε α} {b : β} :
    f <$> x = .ok b ↔ ∃ a, x = .ok a ∧ b = f a := by
  cases x with
  | error e => exact ⟨nofun, nofun⟩
  | ok a =>
    refine ⟨fun h => ⟨a, rfl, (Except.ok.inj h).symm⟩, ?_⟩
    rintro ⟨_, ⟨⟩, rfl⟩
    rfl

theorem ok_of_mapError {ε ε' α : Type} {f : ε → ε'} {x : Except ε α} {a : α}
    (h : x.mapError f = .ok a) : x = .ok a := by
  cases x with
  | error e => cases h
  | ok a => exact congrArg _ (Except.ok.inj h)

/-- Results that are all there were made of the arguments, one for one. -/
theorem forall₂_of_mapM {ε α β : Type} {f : α → Except ε β} {xs : List α} {ys : List β}
    (h : xs.mapM f = .ok ys) : List.Forall₂ (fun x y => f x = .ok y) xs ys := by
  induction xs generalizing ys with
  | nil =>
    cases h
    exact .nil
  | cons x xs ih =>
    rw [List.mapM_cons] at h
    obtain ⟨y, hy, h⟩ := ok_of_bind h
    obtain ⟨ys, hys, h⟩ := ok_of_bind h
    cases h
    exact .cons hy (ih hys)

/-- Each of values that were made one for one has been made. -/
theorem exists_of_forall₂ {α β : Type} {R : α → β → Prop} {xs : List α} {ys : List β}
    (h : List.Forall₂ R xs ys) : ∀ y ∈ ys, ∃ x, R x y := by
  induction h with
  | nil => nofun
  | cons hxy _ ih => exact List.forall_mem_cons.2 ⟨⟨_, hxy⟩, ih⟩

/-! ## Nodes -/

namespace Node

/-- A node is the value of an entry under one of some names. -/
def Holds (n : Node) (names : List String) (value : Node) : Prop :=
  ∃ entries key name, n.untag = .mapping entries ∧ (key, value) ∈ entries ∧
    key.text? = some name ∧ name ∈ names

/-- The items of a node that is read as a list. A list without a value has none. -/
def items? (n : Node) : Option (List Node) :=
  match n.untag with
  | .sequence items => some items
  | .null => some []
  | _ => none

theorem areWellFormed_iff {items : List Node} :
    areWellFormed items ↔ ∀ n ∈ items, n.isWellFormed := by
  induction items with
  | nil => simp [areWellFormed]
  | cons n items ih => simp [areWellFormed, ih]

theorem haveWellFormed_iff {entries : List (Node × Node)} :
    haveWellFormed entries ↔ ∀ e ∈ entries, e.1.isWellFormed ∧ e.2.isWellFormed := by
  induction entries with
  | nil => simp [haveWellFormed]
  | cons e entries ih => simp [haveWellFormed, ih, and_assoc]

end Node

theorem text?_of_keyText {d : Dialect} {key : Node} {name : String}
    (h : keyText d key = .ok name) : key.text? = some name := by
  rw [keyText] at h
  rw [Node.text?]
  cases hk : key.untag <;> rw [hk] at h
  case text => exact congrArg some (Except.ok.inj h)
  all_goals
    dsimp only at h
    split at h <;> cases h

namespace Reader

theorem text?_of_text {d : Dialect} {n : Node} {s : String} (h : text d n = .ok s) :
    n.text? = some s := by
  rw [text] at h
  rw [Node.text?]
  cases hn : n.untag <;> rw [hn] at h
  case text => exact congrArg some (Except.ok.inj h)
  all_goals cases h

/-- A natural number that has been read fits. -/
theorem lt_of_natural {bits k : Nat} {name : String} {d : Dialect} {n : Node}
    (h : natural bits name d n = .ok k) : k < Nat.pow 2 bits := by
  rw [natural] at h
  split at h
  · split at h
    · rename_i i _ hi
      simp only [Bool.and_eq_true, decide_eq_true_eq] at hi
      obtain rfl : i.toNat = k := Except.ok.inj h
      omega
    · cases h
  · cases h

/-- What is read as a natural number is this number. -/
theorem untag_of_natural {bits k : Nat} {name : String} {d : Dialect} {n : Node}
    (h : natural bits name d n = .ok k) : n.untag = .number (.integer k) := by
  rw [natural] at h
  split at h
  · rename_i i hn
    split at h
    · rename_i hi
      simp only [Bool.and_eq_true, decide_eq_true_eq] at hi
      obtain rfl : i.toNat = k := Except.ok.inj h
      rw [hn, Int.toNat_of_nonneg hi.1]
    · cases h
  · cases h

/-- A natural number that fits is read as it is. -/
theorem natural_of_lt {bits k : Nat} (h : k < Nat.pow 2 bits) (name : String) (d : Dialect) :
    natural bits name d (.number (.integer k)) = .ok k := by
  have hk : (k : Int) < Nat.pow 2 bits := Int.ofNat_lt.2 h
  simp only [natural, Node.untag, hk, Int.natCast_nonneg, decide_true, Bool.and_self, if_true,
    Int.toNat_natCast]
  rfl

/-- The values of a list are read of the items of its node. -/
theorem items_of_list {α : Type} {r : Reader α} {d : Dialect} {n : Node} {as : List α}
    (h : list r d n = .ok as) :
    ∃ items, n.items? = some items ∧ List.Forall₂ (fun item a => r d item = .ok a) items as := by
  rw [list] at h
  rw [Node.items?]
  cases hn : n.untag <;> rw [hn] at h
  case sequence items => exact ⟨items, rfl, forall₂_of_mapM h⟩
  case null =>
    dsimp only at h
    split at h
    · cases h
      exact ⟨[], rfl, .nil⟩
    · cases h
  all_goals cases h

end Reader

/-! ## Tags -/

namespace Tags

variable {τ : Type} {t : Tags τ} {d : Dialect} {name label : String}

/-- In JSON a tag is a text. -/
theorem read_json {n : Node} {tag : τ} (h : t.read .json n = .ok tag) :
    ∃ s, n = .text s ∧ (t.named.lookup s).getD t.other = tag := by
  cases n with
  | text s => exact ⟨s, rfl, Except.ok.inj h⟩
  | number x => cases x <;> cases h
  | _ => cases h

end Tags

/-! ## Records -/

/-- What one more entry is placed as: the node of a field that has none yet, or an entry that no
    field is named after, which is kept or passed over. -/
inductive Places (d : Dialect) (fields : List Field) (p : Placed) (e : Node × Node) :
    (keep : Bool) → Placed → Prop
  | field {keep : Bool} {key : String} {f : Field} : keyText d e.1 = .ok key →
    fields.find? (·.isNamed key) = some f → p.known.lookup f.name = none →
    f.check d e.2 = .ok () → Places d fields p e keep { p with known := (f.name, e.2) :: p.known }
  | kept {key : String} : keyText d e.1 = .ok key → fields.find? (·.isNamed key) = none →
    e.2.check = .ok () → Places d fields p e true { p with extra := (.text key, e.2) :: p.extra }
  | passed {key : String} : keyText d e.1 = .ok key → fields.find? (·.isNamed key) = none →
    e.2.isWellFormed → Places d fields p e false p

/-- An entry that has been placed was placed in one of these ways. -/
theorem places_of_placeEntry {d : Dialect} {fields : List Field} {keep : Bool} {p q : Placed}
    {e : Node × Node} (h : placeEntry d fields keep p e = .ok q) : Places d fields p e keep q := by
  rw [placeEntry] at h
  obtain ⟨key, hk, h⟩ := ok_of_bind h
  rcases hf : fields.find? (·.isNamed key) with _ | f <;> simp only [hf] at h
  · cases keep with
    | true =>
      obtain ⟨_, hc, h⟩ := ok_of_bind h
      exact Except.ok.inj h ▸ .kept hk hf hc
    | false =>
      simp only [Bool.false_eq_true, if_false] at h
      split at h
      · rename_i hw
        exact Except.ok.inj h ▸ .passed hk hf hw
      · cases h
  · split at h
    · cases h
    · rename_i fresh
      obtain ⟨_, hc, h⟩ := ok_of_bind h
      exact Except.ok.inj h ▸ .field hk hf (Option.not_isSome_iff_eq_none.1 fresh) hc

/-- The nodes that are placed are those of entries that name the fields. -/
theorem mem_of_foldlM_placeEntry {d : Dialect} {fields : List Field} {entries : List (Node × Node)}
    {p q : Placed} (h : entries.foldlM (placeEntry d fields false) p = .ok q) {name : String}
    {n : Node} (hn : (name, n) ∈ q.known) : (name, n) ∈ p.known ∨
      ∃ k key f, (k, n) ∈ entries ∧ keyText d k = .ok key ∧ f ∈ fields ∧ f.isNamed key ∧
        f.name = name := by
  induction entries generalizing p with
  | nil =>
    cases h
    exact .inl hn
  | cons entry entries ih =>
    obtain ⟨k, x⟩ := entry
    rw [List.foldlM_cons] at h
    obtain ⟨p', hp, h⟩ := ok_of_bind h
    rcases ih h with hm | ⟨k', key, f, hm, hrest⟩
    · cases places_of_placeEntry hp with
      | @field _ key f hk hf =>
        have named : f.isNamed key = true := by simpa using List.find?_some hf
        rcases List.mem_cons.1 hm with he | hm
        · cases he
          exact .inr ⟨k, key, f, List.mem_cons_self, hk, List.mem_of_find?_eq_some hf, named, rfl⟩
        · exact .inl hm
      | passed => exact .inl hm
    · exact .inr ⟨k', key, f, List.mem_cons_of_mem _ hm, hrest⟩

/-- The node of a field is that of an entry that names it. -/
theorem exists_entry_of_place {d : Dialect} {fields : List Field} {entries : List (Node × Node)}
    {p : Placed} (h : place d fields false entries = .ok p) {name : String} {n : Node}
    (hn : p.known.lookup name = some n) : ∃ k key f, (k, n) ∈ entries ∧ keyText d k = .ok key ∧
      f ∈ fields ∧ f.isNamed key ∧ f.name = name := by
  obtain ⟨known, _, hk, -⟩ := List.lookup_eq_some_iff.1 hn
  have hm : (name, n) ∈ p.known := by simp [hk]
  exact (mem_of_foldlM_placeEntry h hm).resolve_left (List.not_mem_nil)

namespace Fields

variable {α : Type} {r : Reader α} {name label : String} {spellings : List String} {d : Dialect}

/-- A field that must be there is read of its node. -/
theorem node_of_requiredUnder {look : String → Option Node} {a : α}
    (h : (requiredUnder name spellings r).build d look = .ok a) :
    ∃ n, look name = some n ∧ r d n = .ok a := by
  simp only [requiredUnder, single] at h
  split at h
  · exact ⟨_, by assumption, h⟩
  · cases h

/-- A record that is passed on to a function has been built. -/
theorem of_build_map {β : Type} {f : α → β} {r : Fields α} {look : String → Option Node} {b : β}
    (h : (f <$> r).build d look = .ok b) : ∃ a, r.build d look = .ok a ∧ b = f a :=
  map_eq_ok_iff.1 h

/-- Records that are put together have been built, one after the other. -/
theorem of_build_seq {β : Type} {f : Fields (α → β)} {r : Fields α} {look : String → Option Node}
    {b : β} (h : (f <*> r).build d look = .ok b) :
    ∃ g a, f.build d look = .ok g ∧ r.build d look = .ok a ∧ b = g a := by
  obtain ⟨g, hg, h⟩ := ok_of_bind h
  obtain ⟨a, ha, h⟩ := ok_of_bind h
  exact ⟨g, a, hg, ha, (Except.ok.inj h).symm⟩

/-- A record is built of the nodes of its fields. -/
theorem build_of_closed {r : Fields α} {n : Node} {a : α} (h : r.closed label d n = .ok a) :
    ∃ look, r.build d look = .ok a := by
  have of_entries {entries : List (Node × Node)} (h : r.ofEntries d entries = .ok a) :
      ∃ look, r.build d look = .ok a := by
    obtain ⟨p, -, h⟩ := ok_of_bind h
    exact ⟨_, h⟩
  rw [closed] at h
  split at h
  · exact of_entries h
  · split at h
    · exact of_entries h
    · cases h
  · split at h
    · cases h
    · obtain ⟨_, -, h⟩ := ok_of_bind h
      exact ⟨_, h⟩
  · cases h

/-- A record in YAML is built of the entries of a mapping. -/
theorem placed_of_closed {r : Fields α} {n : Node} {a : α} (h : r.closed label .yaml n = .ok a) :
    ∃ look, r.build .yaml look = .ok a ∧ ∀ name x, look name = some x →
      ∃ f ∈ r.fields, f.name = name ∧ n.Holds (f.name :: f.spellings) x := by
  have of_entries {entries : List (Node × Node)} (hn : n.untag = .mapping entries ∨ entries = [])
      (h : r.ofEntries .yaml entries = .ok a) :
      ∃ look, r.build .yaml look = .ok a ∧ ∀ name x, look name = some x →
        ∃ f ∈ r.fields, f.name = name ∧ n.Holds (f.name :: f.spellings) x := by
    obtain ⟨p, hp, h⟩ := ok_of_bind h
    refine ⟨_, h, fun name x hx => ?_⟩
    obtain ⟨k, key, f, hm, hk, hf, hkey, hname⟩ := exists_entry_of_place hp hx
    have named : key ∈ f.name :: f.spellings := by
      simpa [Field.isNamed, eq_comm (a := key)] using hkey
    rcases hn with hn | rfl
    · exact ⟨f, hf, hname, entries, k, key, hn, hm, text?_of_keyText hk, named⟩
    · cases hm
  rw [closed] at h
  split at h
  · rename_i hn
    exact of_entries (.inl hn) h
  · exact of_entries (.inr rfl) h
  · cases h
  · cases h

end Fields

end InferenceGateway.Document
