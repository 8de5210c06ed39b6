import InferenceGateway.Proofs.JsonReading
import InferenceGateway.Proofs.ObjectReading

/-!
# Reading written records

A record is written as an object of its fields, some of which may be left out, and is held as
data before it is sent; so the reader finds its members in another order. It reads the same
record nevertheless, as it looks for each field by its name.

`ReadsBack` says of one written value that it is read as what it was written for, and `Builds` of
the members of an object that a record is built of them. Both go along the types of the values:
there is a lemma for each kind of value, and one for each way to put fields together.

* `sortMembers_perm`, `lookup_of_perm`: the order of members does not matter.
* `Json.ReadsBack.record`: a record of fields that are read back is read back.
* `Json.ReadsBack.parse`: so is its text.
-/

namespace InferenceGateway

open Document

/-! ## The order of members -/

section Members

variable {α : Type} {ms ns : List (String × α)}

/-- A member of a new name is one more. -/
theorem insertMember_perm {name : String} (value : α) (h : name ∉ ms.map (·.1)) :
    (insertMember name value ms).Perm ((name, value) :: ms) := by
  induction ms with
  | nil => exact .refl _
  | cons m ms ih =>
    obtain ⟨n, v⟩ := m
    rw [List.map_cons, List.mem_cons, not_or] at h
    rw [insertMember]
    split
    · exact .refl _
    · rw [if_neg h.1]
      exact ((ih h.2).cons _).trans (.swap _ _ _)

/-- Members of different names are only put into another order. -/
theorem sortMembers_perm (h : (ms.map (·.1)).Nodup) : (sortMembers ms).Perm ms := by
  have all (sorted ms : List (String × α)) (h : ((sorted ++ ms).map (·.1)).Nodup) :
      (ms.foldl (fun sorted m => insertMember m.1 m.2 sorted) sorted).Perm (sorted ++ ms) := by
    induction ms generalizing sorted with
    | nil => simp
    | cons m ms ih =>
      have fresh : m.1 ∉ sorted.map (·.1) := by
        intro hm
        rw [List.map_append, List.nodup_append] at h
        exact h.2.2 _ hm _ (List.mem_map_of_mem List.mem_cons_self) rfl
      have moved : (insertMember m.1 m.2 sorted ++ ms).Perm (sorted ++ m :: ms) :=
        ((insertMember_perm m.2 fresh).append_right ms).trans List.perm_middle.symm
      rw [List.foldl_cons]
      exact (ih _ ((moved.map _).nodup_iff.2 h)).trans moved
  exact all [] ms h

/-- Where names differ, a name finds its member in any order. -/
theorem lookup_of_perm (p : ms.Perm ns) (h : (ms.map (·.1)).Nodup) (name : String) :
    ms.lookup name = ns.lookup name := by
  induction p with
  | nil => rfl
  | cons m p ih =>
    rw [List.map_cons, List.nodup_cons] at h
    rw [lookup_cons_if, lookup_cons_if, ih h.2]
  | swap m m' ms =>
    rw [List.map_cons, List.map_cons, List.nodup_cons, List.mem_cons, not_or] at h
    simp only [lookup_cons_if]
    by_cases hn : name = m.1
    · have other : name ≠ m'.1 := hn ▸ Ne.symm h.1.1
      simp only [if_neg other]
    · simp only [if_neg hn]
  | trans p q ihp ihq => rw [ihp h, ihq ((p.map _).nodup_iff.1 h)]

/-- Where names differ, a member is found by its name. -/
theorem lookup_of_mem (h : (ms.map (·.1)).Nodup) {m : String × α} (hm : m ∈ ms) :
    ms.lookup m.1 = some m.2 := by
  obtain ⟨before, after, rfl⟩ := List.append_of_mem hm
  rw [List.map_append, List.nodup_append] at h
  refine List.lookup_eq_some_iff.2 ⟨before, after, rfl, fun x hx => ?_⟩
  have other := h.2.2 _ (List.mem_map_of_mem hx) _ (List.mem_map_of_mem List.mem_cons_self)
  exact bne_iff_ne.2 other.symm

/-- Where names differ, no two members have one name. -/
theorem length_filter_le_one (h : (ms.map (·.1)).Nodup) (name : String) :
    (ms.filter (·.1 = name)).length ≤ 1 := by
  have same : (ms.filter (·.1 = name)).map (·.1) =
      List.replicate (ms.filter (·.1 = name)).length name :=
    List.eq_replicate_iff.2 ⟨List.length_map _, fun n hn => by
      obtain ⟨m, hm, rfl⟩ := List.mem_map.1 hn
      simpa using (List.mem_filter.1 hm).2⟩
  have sub : ((ms.filter (·.1 = name)).map (·.1)).Sublist (ms.map (·.1)) :=
    List.filter_sublist.map _
  have nodup := sub.nodup h
  rwa [same, List.nodup_replicate] at nodup

/-- A name finds its member after a change of the values. -/
theorem lookup_map {β : Type} (f : α → β) (ms : List (String × α)) (name : String) :
    (ms.map fun m => (m.1, f m.2)).lookup name = (ms.lookup name).map f := by
  induction ms with
  | nil => rfl
  | cons m ms ih =>
    rw [List.map_cons, lookup_cons_if, lookup_cons_if, ih]
    split <;> rfl

end Members

namespace Json

/-- The members of an object are held as data one by one. -/
theorem canonicalMembers_eq_map (members : List (String × Json)) :
    canonicalMembers members = members.map fun m => (m.1, m.2.canonical) := by
  induction members with
  | nil => rfl
  | cons m members ih => rw [canonicalMembers, ih, List.map_cons]

theorem itemNodes_eq_map (items : List Json) : itemNodes items = items.map node := by
  induction items with
  | nil => rfl
  | cons j items ih => rw [itemNodes, ih, List.map_cons]

theorem memberNodes_eq_map (members : List (String × Json)) :
    memberNodes members = members.map fun m => (.text m.1, node m.2) := by
  induction members with
  | nil => rfl
  | cons m members ih => rw [memberNodes, ih, List.map_cons]

/-- An object is read as the object of what its members are read as. -/
theorem node_object (members : List (String × Json)) :
    node (.object members) = .object (members.map fun m => (m.1, node m.2)) := by
  rw [node, memberNodes_eq_map, Node.object, entriesOf, List.map_map]
  rfl

mutual

/-- What a written value is read as can be held as data. -/
theorem check_node : (j : Json) → (node j).check = .ok ()
  | .null | .bool _ | .integer _ | .real _ | .single _ | .text _ => rfl
  | .array items => checkItems_itemNodes items
  | .object members => checkEntries_memberNodes members

theorem checkItems_itemNodes : (items : List Json) → Node.checkItems (itemNodes items) = .ok ()
  | [] => rfl
  | j :: items => by
    rw [itemNodes, Node.checkItems, check_node j]
    exact checkItems_itemNodes items

theorem checkEntries_memberNodes :
    (members : List (String × Json)) → Node.checkEntries (memberNodes members) = .ok ()
  | [] => rfl
  | (name, j) :: members => by
    rw [memberNodes, Node.checkEntries, check_node j]
    exact checkEntries_memberNodes members

end

/-! ## Values that are read back -/

/-- A written value, held as data within so many containers, is read as a value. -/
structure ReadsBack {α : Type} (r : Reader α) (room : Nat) (j : Json) (a : α) : Prop where
  plain : Plain room j.canonical
  read : r .json (node j.canonical) = .ok a

namespace ReadsBack

variable {α : Type} {r : Reader α} {room : Nat}

theorem text (s : String) : ReadsBack .text room (.text s) s := ⟨.text s, rfl⟩

/-- A natural number that fits is read as it is. -/
theorem natural {bits n : Nat} (h : n < Nat.pow 2 bits) (hb : bits ≤ 64) (name : String) :
    ReadsBack (.natural bits name) room (.integer n) n where
  plain := .natural (Nat.lt_of_lt_of_le h (Nat.pow_le_pow_right (by decide) hb))
  read := Reader.natural_of_lt h name .json

/-- What may be absent is written as nothing if it is. -/
theorem ofOption {write : α → Json} {x : Option α} (h : ∀ a ∈ x, ReadsBack r room (write a) a)
    (hn : ∀ a ∈ x, node (write a).canonical ≠ .null) :
    ReadsBack (.option r) room (.ofOption write x) x := by
  rcases x with _ | a
  · exact ⟨.null, rfl⟩
  · obtain ⟨plain, read⟩ := h a rfl
    refine ⟨plain, ?_⟩
    have present := hn a rfl
    show Reader.option r .json (node (write a).canonical) = .ok (some a)
    rw [Reader.option]
    · rw [read]
      rfl
    · exact present

theorem optionalText (x : Option String) : ReadsBack (.option .text) room (.ofOption .text x) x :=
  .ofOption (fun s _ => .text s) nofun

/-- The items of an array are read one by one. -/
theorem list {write : α → Json} {as : List α} (h : ∀ a ∈ as, ReadsBack r room (write a) a) :
    ReadsBack (.list r) (room + 1) (.array (as.map write)) as where
  plain := by
    rw [canonical, canonicalItems_eq_map]
    refine .array fun j hj => ?_
    rw [List.map_map, List.mem_map] at hj
    obtain ⟨a, ha, rfl⟩ := hj
    exact (h a ha).plain
  read := by
    rw [canonical, canonicalItems_eq_map, node, itemNodes_eq_map]
    show List.mapM (r .json) (((as.map write).map canonical).map node) = .ok as
    induction as with
    | nil => rfl
    | cons a as ih =>
      rw [List.forall_mem_cons] at h
      rw [List.map_cons, List.map_cons, List.map_cons, List.mapM_cons, h.1.read, ih h.2]
      rfl

/-- The text of a value that is read back. -/
theorem parse {j : Json} {a : α} (h : ReadsBack r room j a) (hr : room ≤ Build.depthLimit) :
    Json.parse r (Text.Utf8.encode j.canonical.print) = .ok a := by
  rw [parse_print h.plain hr, h.read]

end ReadsBack

/-! ## Records that are read back -/

/-- The nodes in which a record finds its fields. -/
def lookIn (ms : List (String × Json)) (name : String) : Option Node :=
  (ms.lookup name).map fun j => node j.canonical

/-- A record is built of members, each of which can be read as its field. -/
structure Builds {α : Type} (r : Fields α) (room : Nat) (ms : List (String × Json)) (a : α) :
    Prop where
  built : ∀ look : String → Option Node, (∀ f ∈ r.fields, look f.name = lookIn ms f.name) →
    r.build .json look = .ok a
  plain : ∀ f ∈ r.fields, ∀ j, ms.lookup f.name = some j → Plain room j.canonical
  checked : ∀ f ∈ r.fields, ∀ j, ms.lookup f.name = some j →
    f.check .json (node j.canonical) = .ok ()
  spellings : ∀ f ∈ r.fields, f.spellings = []

namespace Builds

variable {α β : Type} {r : Fields α} {read : Reader α} {room : Nat} {ms : List (String × Json)}
  {name : String}

theorem map (f : α → β) {a : α} (h : Builds r room ms a) : Builds (f <$> r) room ms (f a) where
  built look hl := by
    show f <$> r.build .json look = _
    rw [h.built look hl]
    rfl
  plain := h.plain
  checked := h.checked
  spellings := h.spellings

theorem seq {r : Fields (α → β)} {x : Fields α} {g : α → β} {a : α} (h : Builds r room ms g)
    (hx : Builds x room ms a) : Builds (r <*> x) room ms (g a) where
  built look hl := by
    obtain ⟨hr, hlx⟩ := List.forall_mem_append.1 hl
    show (do let g ← r.build .json look; let a ← x.build .json look; return g a) = _
    rw [h.built look hr, hx.built look hlx]
    rfl
  plain := List.forall_mem_append.2 ⟨h.plain, hx.plain⟩
  checked := List.forall_mem_append.2 ⟨h.checked, hx.checked⟩
  spellings := List.forall_mem_append.2 ⟨h.spellings, hx.spellings⟩

/-- A single field that is there. -/
theorem single {j : Json} {a : α} (hj : ms.lookup name = some j) (h : ReadsBack read room j a)
    (mayTrail : Bool) (absent : Reading α) :
    Builds (.single name [] read mayTrail absent) room ms a where
  built look hl := by
    have looked : look name = some (node j.canonical) :=
      (hl _ (List.mem_singleton_self _)).trans (by rw [lookIn, hj]; rfl)
    simp only [Fields.single, looked]
    exact h.read
  plain := by
    rintro f hf j' hj'
    obtain rfl := List.mem_singleton.1 hf
    obtain rfl := Option.some.inj (hj.symm.trans hj')
    exact h.plain
  checked := by
    rintro f hf j' hj'
    obtain rfl := List.mem_singleton.1 hf
    obtain rfl := Option.some.inj (hj.symm.trans hj')
    show (fun _ => ()) <$> read .json (node j.canonical) = _
    rw [h.read]
    rfl
  spellings := List.forall_mem_singleton.2 rfl

/-- A single field that is left out. -/
theorem left_out {a : α} (hj : ms.lookup name = none) (mayTrail : Bool) {absent : Reading α}
    (h : absent = .ok a) : Builds (.single name [] read mayTrail absent) room ms a where
  built look hl := by
    have looked : look name = none :=
      (hl _ (List.mem_singleton_self _)).trans (by rw [lookIn, hj]; rfl)
    simp only [Fields.single, looked]
    exact h
  plain := by
    rintro f hf j' hj'
    obtain rfl := List.mem_singleton.1 hf
    cases hj.symm.trans hj'
  checked := by
    rintro f hf j' hj'
    obtain rfl := List.mem_singleton.1 hf
    cases hj.symm.trans hj'
  spellings := List.forall_mem_singleton.2 rfl

theorem required {j : Json} {a : α} (hj : ms.lookup name = some j) (h : ReadsBack read room j a) :
    Builds (.required name read) room ms a := single hj h _ _

theorem defaulting {j : Json} {a absent : α} (hj : ms.lookup name = some j)
    (h : ReadsBack read room j a) : Builds (.defaulting name read absent) room ms a :=
  single hj h _ _

/-- A field that may be absent is written as nothing if it is. -/
theorem optional {x : Option α} {j : Json} (hj : ms.lookup name = some j)
    (h : ReadsBack (.option read) room j x) : Builds (.optional name read) room ms x :=
  single hj h _ _

/-- A field that may be absent is left out if it is. -/
theorem optional_member {write : α → Json} {x : Option α} (hj : ms.lookup name = x.map write)
    (h : ∀ a ∈ x, ReadsBack read room (write a) a)
    (hn : ∀ a ∈ x, node (write a).canonical ≠ .null) : Builds (.optional name read) room ms x := by
  rcases x with _ | a
  · exact left_out hj _ rfl
  · exact single hj (ReadsBack.ofOption h hn) _ _

end Builds

/-- A member that is written only if there is a value for it has its name, if it is there. -/
theorem names_member? {α : Type} (name : String) (write : α → Json) (x : Option α) :
    ((member? name write x).map (·.1)).Sublist [name] := by
  cases x with
  | none => exact List.nil_sublist _
  | some a => exact .refl _

/-- Such a member is found under its name only. -/
theorem lookup_member? {α : Type} (name : String) (write : α → Json) (x : Option α)
    (other : String) :
    (member? name write x).lookup other = if other = name then x.map write else none := by
  cases x with
  | none => simp [member?]
  | some a => exact lookup_cons_if _ _ _

/-- A record whose members are some of its fields is read back. -/
theorem ReadsBack.record {α : Type} {r : Fields α} {label : String} {room : Nat}
    {ms : List (String × Json)} {a : α} (h : Builds r room ms a)
    (hs : (ms.map (·.1)).Sublist (r.fields.map Field.name))
    (hd : (r.fields.map Field.name).Nodup) :
    ReadsBack (r.closed label) (room + 1) (.object ms) a := by
  have names : (ms.map (·.1)).Nodup := hs.nodup hd
  -- As data the members have the same names, in another order.
  have data : canonical (.object ms) =
      .object (sortMembers (ms.map fun m => (m.1, m.2.canonical))) := by
    rw [canonical, canonicalMembers_eq_map]
  have sorted := sortMembers_perm (show ((ms.map fun m => (m.1, m.2.canonical)).map (·.1)).Nodup by
    rwa [List.map_map])
  generalize sortMembers (ms.map fun m => (m.1, m.2.canonical)) = members at data sorted
  have member {m : String × Json} (hm : m ∈ members) : ∃ f ∈ r.fields, f.name = m.1 ∧
      ∃ j, ms.lookup f.name = some j ∧ m.2 = j.canonical := by
    obtain ⟨m', hm', rfl⟩ := List.mem_map.1 (sorted.mem_iff.1 hm)
    obtain ⟨f, hf, hn⟩ := List.mem_map.1 (hs.subset (List.mem_map_of_mem hm'))
    exact ⟨f, hf, hn, m'.2, by rw [hn]; exact lookup_of_mem names hm', rfl⟩
  constructor
  case plain =>
    rw [data]
    refine .object fun m hm => ?_
    obtain ⟨f, hf, -, j, hj, he⟩ := member hm
    rw [he]
    exact h.plain f hf j hj
  case read =>
    have nodup : (members.map (·.1)).Nodup :=
      (sorted.map _).nodup_iff.2 (by rwa [List.map_map])
    have found (name : String) :
        (members.map fun m => (m.1, node m.2)).lookup name = lookIn ms name := by
      rw [lookup_map, lookup_of_perm sorted nodup, lookup_map, Option.map_map]
      rfl
    have finds : r.Finds .json (members.map fun m => (m.1, node m.2)) a := by
      refine ⟨fun look hl => h.built look fun f hf => (hl f hf).trans (found f.name),
        fun f _ => length_filter_le_one (by rwa [List.map_map]) f.name, fun f hf m hm he => ?_,
        h.spellings⟩
      obtain ⟨m', hm', rfl⟩ := List.mem_map.1 hm
      obtain ⟨g, -, hn, j, hj, hv⟩ := member hm'
      exact hv ▸ h.checked f hf j (by rw [← he, ← hn, hj])
    rw [data, node_object]
    refine Fields.closed_object finds fun m hm => ?_
    obtain ⟨m, -, rfl⟩ := List.mem_map.1 hm
    exact check_node m.2

end Json

end InferenceGateway
