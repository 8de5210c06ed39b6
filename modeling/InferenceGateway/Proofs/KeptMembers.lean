import InferenceGateway.Proofs.JsonTrees
import InferenceGateway.Proofs.RecordReading

/-!
# Kept members

A payload may have members that no field is named after. They are kept as data and written again
among the fields. A name may be used more than once in a text; as data each name is there once, and
the last value counts.

Where members are in the order of their names, it is enough to know what each name finds. So all
that is said here of members is said by `List.lookup`.

* `lookup_sortMembers`, `isSorted_sortMembers`: members in the order of their names.
* `Json.Keeps`: a value of a document as data, at every depth. Reading it as data makes this of it
  (`Json.keeps_of_toJson`).
* `Fields.of_keeping`: what a record that keeps members was read of, and what it keeps.
* `Fields.of_closed`: what a record that passes over members was read of.
-/

namespace InferenceGateway

open Document

/-! ## Members in the order of their names -/

section Members

variable {α : Type} {ms : List (String × α)} {name : String}

/-- Members in the order of their names, which are different. -/
def IsSorted (ms : List (String × α)) : Prop := (ms.map (·.1)).Pairwise (· < ·)

theorem IsSorted.nodup (h : IsSorted ms) : (ms.map (·.1)).Nodup := by
  refine List.Pairwise.imp ?_ h
  rintro a _ hlt rfl
  exact String.lt_irrefl a hlt

/-- Where names differ, the last member of a name is the first. -/
theorem lookup_reverse (h : (ms.map (·.1)).Nodup) (name : String) :
    ms.reverse.lookup name = ms.lookup name :=
  (lookup_of_perm ms.reverse_perm.symm h name).symm

/-- What is left of members when some names are passed over. -/
theorem lookup_filter (p : String → Bool) (ms : List (String × α)) (name : String) :
    (ms.filter (p ·.1)).lookup name = if p name then ms.lookup name else none := by
  induction ms with
  | nil => simp
  | cons m ms ih =>
    rw [List.filter_cons, lookup_cons_if]
    by_cases hn : name = m.1
    · subst hn
      cases hp : p m.1 <;> simp [ih, hp, lookup_cons_if]
    · rw [if_neg hn]
      split
      · rw [lookup_cons_if, if_neg hn, ih]
      · exact ih

/-- A member that is put in is found, and the others are found as before. -/
theorem lookup_insertMember (name : String) (value : α) (ms : List (String × α))
    (other : String) : (insertMember name value ms).lookup other =
      if other = name then some value else ms.lookup other := by
  induction ms with
  | nil => exact lookup_cons_if _ _ _
  | cons m ms ih =>
    rw [insertMember]
    split
    · exact lookup_cons_if _ _ _
    · split
      · rename_i hn
        rw [lookup_cons_if, lookup_cons_if, ← hn]
        split <;> rfl
      · rename_i hn
        rw [lookup_cons_if, ih, lookup_cons_if]
        split <;> split <;> simp_all

theorem names_insertMember {value : α} {n : String}
    (h : n ∈ (insertMember name value ms).map (·.1)) : n = name ∨ n ∈ ms.map (·.1) := by
  induction ms with
  | nil => simpa [insertMember] using h
  | cons m ms ih =>
    rw [insertMember] at h
    split at h
    · simpa using h
    · split at h
      · rename_i hn
        simpa [hn] using h
      · rw [List.map_cons, List.mem_cons] at h ⊢
        rcases h with h | h
        · exact .inr (.inl h)
        · exact (ih h).imp_right .inr

theorem IsSorted.insertMember (h : IsSorted ms) (name : String) (value : α) :
    IsSorted (insertMember name value ms) := by
  induction ms with
  | nil => exact List.pairwise_singleton _ _
  | cons m ms ih =>
    obtain ⟨first, rest⟩ := List.pairwise_cons.1 h
    rw [InferenceGateway.insertMember]
    split
    · rename_i hlt
      refine List.pairwise_cons.2 ⟨List.forall_mem_cons.2 ⟨hlt, fun n hn => ?_⟩, h⟩
      exact String.lt_trans hlt (first n hn)
    · split
      · rename_i hn
        exact List.pairwise_cons.2 ⟨hn ▸ first, rest⟩
      · rename_i hlt hn
        refine List.pairwise_cons.2 ⟨fun n hm => ?_, ih rest⟩
        rcases names_insertMember hm with rfl | hm
        · exact Std.lt_of_le_of_ne (String.not_lt.1 hlt) (Ne.symm hn)
        · exact first n hm

theorem IsSorted.removeMember (h : IsSorted ms) (name : String) :
    IsSorted (removeMember name ms) := List.Pairwise.sublist (List.filter_sublist.map _) h

theorem lookup_removeMember (name : String) (ms : List (String × α)) (other : String) :
    (removeMember name ms).lookup other = if other = name then none else ms.lookup other := by
  rw [removeMember, lookup_filter (· ≠ name)]
  by_cases h : other = name <;> simp [h]

/-- What is put in under a name is taken out with it. -/
theorem removeMember_insertMember (name : String) (value : α) (ms : List (String × α)) :
    removeMember name (insertMember name value ms) = removeMember name ms := by
  induction ms with
  | nil => simp [insertMember, removeMember]
  | cons m ms ih =>
    rw [insertMember]
    split
    · simp [removeMember]
    · split
      · rename_i hn
        simp [removeMember, hn]
      · simp only [removeMember, List.filter_cons] at ih ⊢
        rw [ih]

/-- Sorted members are in order, and the last of several with one name is found. -/
theorem sortMembers_spec (ms : List (String × α)) : IsSorted (sortMembers ms) ∧
    ∀ name, (sortMembers ms).lookup name = ms.reverse.lookup name := by
  have all (sorted : List (String × α)) (h : IsSorted sorted) :
      IsSorted (ms.foldl (fun sorted m => insertMember m.1 m.2 sorted) sorted) ∧
        ∀ name, (ms.foldl (fun sorted m => insertMember m.1 m.2 sorted) sorted).lookup name =
          (ms.reverse.lookup name).or (sorted.lookup name) := by
    induction ms generalizing sorted with
    | nil => exact ⟨h, fun _ => by simp⟩
    | cons m ms ih =>
      obtain ⟨hs, hl⟩ := ih _ (h.insertMember m.1 m.2)
      refine ⟨hs, fun name => ?_⟩
      rw [List.foldl_cons, hl, List.reverse_cons, List.lookup_append, lookup_cons_if,
        lookup_insertMember, Option.or_assoc]
      split <;> simp
  obtain ⟨hs, hl⟩ := all [] List.Pairwise.nil
  exact ⟨hs, fun name => (hl name).trans (by simp)⟩

theorem isSorted_sortMembers (ms : List (String × α)) : IsSorted (sortMembers ms) :=
  (sortMembers_spec ms).1

theorem lookup_sortMembers (ms : List (String × α)) (name : String) :
    (sortMembers ms).lookup name = ms.reverse.lookup name := (sortMembers_spec ms).2 name

end Members

/-! ## Values held as data -/

namespace Json

/-- The members of an object that is held as data: each name finds the last value it had. -/
theorem lookup_canonicalMembers (ms : List (String × Json)) (name : String) :
    (sortMembers (canonicalMembers ms)).lookup name = (ms.reverse.lookup name).map canonical := by
  rw [lookup_sortMembers, canonicalMembers_eq_map, ← List.map_reverse, lookup_map]

/-- A value of a document as data. Of several members of one name the last counts, at every
    depth; all else is the same. -/
inductive Keeps : Node → Json → Prop
  | null : Keeps .null .null
  | bool (b : Bool) : Keeps (.bool b) (.bool b)
  | integer (i : Int) : Keeps (.number (.integer i)) (.integer i)
  | real {x : Numeral.Binary} : x.IsFiniteIn .double → Keeps (.number (.real x)) (.real x)
  | text (s : String) : Keeps (.text s) (.text s)
  | array {items : List Node} {kept : List Json} :
    List.Forall₂ Keeps items kept → Keeps (.sequence items) (.array kept)
  | object {members : List (String × Node)} {kept : List (String × Json)} : IsSorted kept →
    (∀ name, Option.Rel Keeps (members.reverse.lookup name) (kept.lookup name)) →
    Keeps (.object members) (.object kept)

/-- Members and their data, one for one. -/
def KeepsMembers (members : List (String × Node)) (ms : List (String × Json)) : Prop :=
  List.Forall₂ (fun m m' => m.1 = m'.1 ∧ Keeps m.2 m'.2.canonical) members ms

theorem KeepsMembers.reverse {members : List (String × Node)} {ms : List (String × Json)}
    (h : KeepsMembers members ms) : KeepsMembers members.reverse ms.reverse := List.rel_reverse h

/-- A name finds a value, and the data of this value. -/
theorem KeepsMembers.lookup {members : List (String × Node)} {ms : List (String × Json)}
    (h : KeepsMembers members ms) (name : String) :
    Option.Rel Keeps (members.lookup name) ((ms.lookup name).map canonical) := by
  induction h with
  | nil => exact .none
  | cons hm _ ih =>
    rw [lookup_cons_if, lookup_cons_if, hm.1]
    split
    · exact .some hm.2
    · exact ih

/-- Members that have been sorted are held as data as they were. -/
theorem KeepsMembers.sorted {members : List (String × Node)} {ms : List (String × Json)}
    (h : KeepsMembers members ms) (name : String) :
    Option.Rel Keeps (members.reverse.lookup name)
      (((sortMembers ms).lookup name).map canonical) := by
  rw [lookup_sortMembers]
  exact h.reverse.lookup name

mutual

/-- What is read as data keeps the value of the document. -/
theorem keeps_of_toJson : (n : Node) → n.IsJson → ∀ {j : Json}, n.toJson = .ok j →
    Keeps n j.canonical
  | .null, _, _, h => Except.ok.inj h ▸ .null
  | .bool b, _, _, h => Except.ok.inj h ▸ .bool b
  | .number (.integer i), _, _, h => Except.ok.inj h ▸ .integer i
  | .number (.real x), .real hx, _, h => by
    obtain ⟨negative, m, e, rfl, -⟩ := id hx
    exact Except.ok.inj h ▸ .real hx
  | .text s, _, _, h => Except.ok.inj h ▸ .text s
  | .sequence items, .sequence hn, _, h => by
    rw [Node.toJson] at h
    obtain ⟨js, hjs, h⟩ := ok_of_bind h
    rw [← Except.ok.inj h, canonical, canonicalItems_eq_map]
    exact .array (keeps_of_toJsonItems items hn hjs)
  | .mapping entries, .mapping _ hn, _, h => by
    rw [Node.toJson] at h
    obtain ⟨ms, hms, made⟩ := ok_of_bind h
    obtain ⟨members, rfl, kept⟩ := keeps_of_toJsonMembers entries hn hms
    rw [← Except.ok.inj made, canonical]
    refine .object (isSorted_sortMembers _) fun name => ?_
    rw [lookup_canonicalMembers, lookup_reverse (isSorted_sortMembers ms).nodup]
    exact kept.sorted name

theorem keeps_of_toJsonItems : (items : List Node) → (∀ n ∈ items, n.IsJson) →
    ∀ {js : List Json}, Node.toJsonItems items = .ok js →
      List.Forall₂ Keeps items (js.map canonical)
  | [], _, _, h => Except.ok.inj h ▸ .nil
  | n :: rest, hn, _, h => by
    rw [List.forall_mem_cons] at hn
    rw [Node.toJsonItems] at h
    obtain ⟨j, hj, h⟩ := ok_of_bind h
    obtain ⟨js, hjs, h⟩ := ok_of_bind h
    rw [← Except.ok.inj h]
    exact .cons (keeps_of_toJson n hn.1 hj) (keeps_of_toJsonItems rest hn.2 hjs)

theorem keeps_of_toJsonMembers : (entries : List (Node × Node)) → (∀ e ∈ entries, e.2.IsJson) →
    ∀ {ms : List (String × Json)}, Node.toJsonMembers entries = .ok ms →
      ∃ members, entries = entriesOf members ∧ KeepsMembers members ms
  | [], _, _, h => ⟨[], rfl, Except.ok.inj h ▸ .nil⟩
  | (.text name, n) :: rest, hn, _, h => by
    rw [List.forall_mem_cons] at hn
    rw [Node.toJsonMembers] at h
    obtain ⟨j, hj, h⟩ := ok_of_bind h
    obtain ⟨ms, hms, made⟩ := ok_of_bind h
    obtain ⟨members, rfl, kept⟩ := keeps_of_toJsonMembers rest hn.2 hms
    rw [← Except.ok.inj made]
    exact ⟨(name, n) :: members, rfl, .cons ⟨rfl, keeps_of_toJson n hn.1 hj⟩ kept⟩

end

end Json

/-! ## Records that keep members -/

namespace Document

variable {α : Type} {d : Dialect} {fields : List Field} {members : List (String × Node)}
  {name : String} {read : Reader α}

/-- What a name finds among members, of which at most one has it. -/
inductive FoundOnce (members : List (String × Node)) (name : String) : Option Node → Prop
  | member {n : Node} : HasOnce members name n → FoundOnce members name (some n)
  | nothing : HasNone members name → FoundOnce members name none

theorem entriesOf_injective : Function.Injective entriesOf :=
  List.map_injective_iff.2 fun _ _ h =>
    Prod.ext (Node.text.inj (Prod.mk.inj h).1) (Prod.mk.inj h).2

theorem foundOnce_of_length_le (h : (members.filter (·.1 = name)).length ≤ 1) :
    FoundOnce members name (members.lookup name) := by
  rcases hf : members.filter (·.1 = name) with _ | ⟨m, rest⟩
  · rw [HasNone.lookup hf]
    exact .nothing hf
  · rw [hf, List.length_cons] at h
    obtain rfl : rest = [] := List.length_eq_zero_iff.1 (by omega)
    have named : m.1 = name := by
      have hm : m ∈ members.filter (·.1 = name) := by rw [hf]; exact List.mem_cons_self
      simpa using (List.mem_filter.1 hm).2
    have once : HasOnce members name m.2 := by rw [HasOnce, hf, ← named]
    rw [once.lookup]
    exact .member once

/-- What members say of a value: it is read of the only member of its name, or they leave it out,
    or say that there is none. -/
inductive Says (read : Reader α) (members : List (String × Node)) (name : String) :
    Option α → Prop
  | value {n : Node} {a : α} : HasOnce members name n → n ≠ .null → read .json n = .ok a →
    Says read members name (some a)
  | null : HasOnce members name .null → Says read members name none
  | absent : HasNone members name → Says read members name none

theorem Says.of_optional {look : String → Option Node} {x : Option α}
    (hl : FoundOnce members name (look name))
    (h : (Fields.optional name read).build .json look = .ok x) : Says read members name x := by
  generalize hn : look name = found at hl
  simp only [Fields.optional, Fields.single, hn] at h
  cases hl with
  | nothing none => exact Except.ok.inj h ▸ .absent none
  | @member n once =>
    simp only at h
    rw [Reader.option.eq_def] at h
    split at h
    · exact Except.ok.inj h ▸ .null once
    · rename_i hnull
      rcases ha : read .json n with e | a <;> rw [ha] at h
      · cases h
      · exact Except.ok.inj h ▸ .value once hnull ha

theorem Says.of_required {look : String → Option Node} {a : α}
    (hl : FoundOnce members name (look name)) (hnull : ∀ a, read .json .null ≠ .ok a)
    (h : (Fields.required name read).build .json look = .ok a) :
    Says read members name (some a) := by
  obtain ⟨n, hn, ha⟩ := Fields.node_of_requiredUnder h
  rw [hn] at hl
  obtain ⟨once⟩ := hl
  refine .value once ?_ ha
  rintro rfl
  exact hnull a ha

/-- What is kept of members beside some names: each of the other names has the last value it had,
    as data. -/
structure KeepsOthers (names : List String) (members : List (String × Node))
    (extra : List (String × Json)) : Prop where
  sorted : IsSorted extra
  named : ∀ name ∈ names, extra.lookup name = none
  others : ∀ name, name ∉ names → Option.Rel Json.Keeps (members.reverse.lookup name)
    ((extra.lookup name).map Json.canonical)

/-- The keys of entries that are placed are texts. -/
theorem keys_of_place {keep : Bool} {entries : List (Node × Node)} {p q : Placed}
    (h : entries.foldlM (placeEntry d fields keep) p = .ok q) :
    ∀ e ∈ entries, ∃ key, keyText d e.1 = .ok key := by
  induction entries generalizing p with
  | nil => nofun
  | cons e entries ih =>
    rw [List.foldlM_cons] at h
    obtain ⟨p', hp, h⟩ := ok_of_bind h
    obtain ⟨key, hk, -⟩ := ok_of_bind hp
    exact List.forall_mem_cons.2 ⟨⟨key, hk⟩, ih h⟩

/-- One more member is the first of a field, or it is kept or passed over. -/
theorem of_placeEntry (hs : ∀ f ∈ fields, f.spellings = []) {keep : Bool} {p q : Placed}
    {key : String} {value : Node} (h : placeEntry d fields keep p (.text key, value) = .ok q) :
    (key ∈ fields.map Field.name ∧ p.known.lookup key = none ∧
      q = { p with known := (key, value) :: p.known }) ∨
    (key ∉ fields.map Field.name ∧
      q = if keep then { p with extra := (.text key, value) :: p.extra } else p) := by
  have named := find?_isNamed hs key
  cases places_of_placeEntry h with
  | field hk hf fresh =>
    obtain rfl := Except.ok.inj hk
    rw [hf] at named
    obtain ⟨-, ⟨⟩⟩ | ⟨f, hmem, rfl, ⟨⟩⟩ := named
    exact .inl ⟨List.mem_map_of_mem hmem, fresh, rfl⟩
  | kept hk hf =>
    obtain rfl := Except.ok.inj hk
    rw [hf] at named
    obtain ⟨unnamed, -⟩ | ⟨_, -, -, ⟨⟩⟩ := named
    exact .inr ⟨unnamed, rfl⟩
  | passed hk hf =>
    obtain rfl := Except.ok.inj hk
    rw [hf] at named
    obtain ⟨unnamed, -⟩ | ⟨_, -, -, ⟨⟩⟩ := named
    exact .inr ⟨unnamed, rfl⟩

/-- Members that are placed have the name of each field at most once, and the others are kept, the
    last first, or passed over. -/
theorem of_place_members (hs : ∀ f ∈ fields, f.spellings = []) {keep : Bool} {p q : Placed}
    (h : (entriesOf members).foldlM (placeEntry d fields keep) p = .ok q) :
    (∀ f ∈ fields, q.known.lookup f.name = (p.known.lookup f.name).or (members.lookup f.name) ∧
      (p.known.lookup f.name).isSome.toNat + (members.filter (·.1 = f.name)).length ≤ 1) ∧
    q.extra.reverse = p.extra.reverse ++
      entriesOf (members.filter (keep && ·.1 ∉ fields.map Field.name)) := by
  -- A field that has been placed already counts as one of the members of its name.
  induction members generalizing p with
  | nil =>
    obtain rfl := Except.ok.inj h
    refine ⟨fun f _ => ⟨by simp, ?_⟩, by simp [entriesOf]⟩
    cases (p.known.lookup f.name).isSome <;> simp
  | cons m members ih =>
    obtain ⟨key, value⟩ := m
    replace h : ((.text key, value) :: entriesOf members).foldlM (placeEntry d fields keep) p =
      .ok q := h
    rw [List.foldlM_cons] at h
    obtain ⟨p', hp, h⟩ := ok_of_bind h
    obtain ⟨known, extra⟩ := ih h
    rcases of_placeEntry hs hp with ⟨hkey, fresh, rfl⟩ | ⟨hkey, rfl⟩
    · refine ⟨fun f hf => ?_, ?_⟩
      · obtain ⟨hl, once⟩ := known f hf
        rw [lookup_cons_if] at hl once
        rw [lookup_cons_if, List.filter_cons]
        by_cases hn : f.name = key
        · subst hn
          rw [if_pos rfl] at hl once
          rw [if_pos rfl, if_pos (by simp), fresh]
          exact ⟨hl, by simpa using once⟩
        · rw [if_neg hn] at hl once
          rw [if_neg hn, if_neg (by simpa using Ne.symm hn)]
          exact ⟨hl, once⟩
      · rw [extra, List.filter_cons, if_neg (by simpa using fun _ => hkey)]
    · refine ⟨fun f hf => ?_, ?_⟩
      · have other : f.name ≠ key := fun hn => hkey (hn ▸ List.mem_map_of_mem hf)
        have same : (if keep then { p with extra := (.text key, value) :: p.extra } else p).known =
            p.known := by cases keep <;> rfl
        obtain ⟨hl, once⟩ := known f hf
        rw [same] at hl once
        rw [lookup_cons_if, if_neg other, List.filter_cons, if_neg (by simpa using other.symm)]
        exact ⟨hl, once⟩
      · cases keep with
        | true =>
          have kept : decide (key ∉ fields.map Field.name) = true := decide_eq_true hkey
          simp only [if_true, Bool.true_and] at extra ⊢
          rw [extra, List.filter_cons, if_pos kept]
          simp [entriesOf]
        | false => simp [extra]

/-- Each field is found at most once among members that are placed. -/
theorem found_of_place (hs : ∀ f ∈ fields, f.spellings = []) {keep : Bool} {p : Placed}
    (h : place d fields keep (entriesOf members) = .ok p) :
    ∀ f ∈ fields, FoundOnce members f.name (p.known.lookup f.name) := by
  intro f hf
  obtain ⟨hl, once⟩ := (of_place_members hs h).1 f hf
  rw [show p.known.lookup f.name = members.lookup f.name by simpa using hl]
  exact foundOnce_of_length_le (by simpa using once)

/-- The members that name no field are kept. -/
theorem extra_of_place (hs : ∀ f ∈ fields, f.spellings = []) {p : Placed}
    (h : place d fields true (entriesOf members) = .ok p) :
    p.extra.reverse = entriesOf (members.filter (·.1 ∉ fields.map Field.name)) := by
  obtain ⟨-, extra⟩ := of_place_members hs h
  simpa using extra

/-- The members that no field is named after are kept. -/
theorem keepsOthers_of_toJsonMembers {names : List String} {ms : List (String × Json)}
    (hn : ∀ e ∈ entriesOf members, e.2.IsJson)
    (h : Node.toJsonMembers (entriesOf (members.filter (·.1 ∉ names))) = .ok ms) :
    KeepsOthers names members (sortMembers ms) := by
  have others : ∀ e ∈ entriesOf (members.filter (·.1 ∉ names)), e.2.IsJson := fun e he =>
    hn e (List.map_subset _ (List.filter_subset_self _) he)
  obtain ⟨kept, same, hk⟩ := Json.keeps_of_toJsonMembers _ others h
  obtain rfl := entriesOf_injective same
  have found (name : String) : Option.Rel Json.Keeps
      (if name ∉ names then members.reverse.lookup name else none)
      (((sortMembers ms).lookup name).map Json.canonical) := by
    have := hk.sorted name
    rw [← List.filter_reverse, lookup_filter (decide <| · ∉ names)] at this
    simpa using this
  refine ⟨isSorted_sortMembers ms, fun name hm => ?_, fun name hm => ?_⟩
  · have := found name
    rw [if_neg (not_not.2 hm)] at this
    cases hl : (sortMembers ms).lookup name with
    | none => rfl
    | some j =>
      rw [hl] at this
      cases this
  · have := found name
    rwa [if_pos hm] at this

/-- What a record that keeps members is read of: the members of an object. Each field is found
    among them at most once, and the others are kept. -/
theorem Fields.of_keeping {r : Fields (List (String × Json) → α)} {label : String} {n : Node}
    {a : α} (hs : ∀ f ∈ r.fields, f.spellings = []) (hn : n.IsJson)
    (h : r.keeping label .json n = .ok a) : ∃ members look record extra, n = .object members ∧
      (∀ name ∈ r.fields.map Field.name, FoundOnce members name (look name)) ∧
      r.build .json look = .ok record ∧ a = record extra ∧
      KeepsOthers (r.fields.map Field.name) members extra := by
  rw [keeping, hn.untag] at h
  cases hn with
  | @mapping entries keys values =>
    obtain ⟨p, hp, placed⟩ := ok_of_bind h
    obtain ⟨record, built, kept⟩ := ok_of_bind placed
    obtain ⟨extra, hextra, made⟩ := ok_of_bind kept
    obtain ⟨members, rfl⟩ := Node.exists_entriesOf keys (keys_of_place hp)
    rw [extra_of_place hs hp] at hextra
    exact ⟨members, _, record, _, rfl, List.forall_mem_map.2 (found_of_place hs hp), built,
      (Except.ok.inj made).symm, keepsOthers_of_toJsonMembers values hextra⟩
  | _ => cases h

/-- What a record that passes over members is read of: the members of an object, among which each
    field is found at most once, or an array of the fields. -/
theorem Fields.of_closed {r : Fields α} {label : String} {n : Node} {a : α} (hd : d ≠ .yaml)
    (hs : ∀ f ∈ r.fields, f.spellings = []) (hn : n.IsJson) (h : r.closed label d n = .ok a) :
    (∃ members look, n = .object members ∧
      (∀ name ∈ r.fields.map Field.name, FoundOnce members name (look name)) ∧
        r.build d look = .ok a) ∨
    ∃ items, n = .sequence items ∧ r.ofItems d label items = .ok a := by
  rw [closed, hn.untag] at h
  simp only [if_neg hd] at h
  cases hn with
  | @mapping entries keys _ =>
    obtain ⟨p, hp, built⟩ := ok_of_bind h
    obtain ⟨members, rfl⟩ := Node.exists_entriesOf keys (keys_of_place hp)
    exact .inl ⟨members, _, rfl, List.forall_mem_map.2 (found_of_place hs hp), built⟩
  | @sequence items _ => exact .inr ⟨items, rfl, h⟩
  | _ => cases h

end Document

end InferenceGateway
