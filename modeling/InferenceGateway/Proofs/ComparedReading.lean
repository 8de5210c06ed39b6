import InferenceGateway.Proofs.KeptMembers

/-!
# Compared readings

What two readings of a record have in common when the members that are read differ under one name
only. Members are read entry by entry, and at each entry what has been read of the one is like what
has been read of the other (`Placed.Alike`), or both are refused for the same reason (`InStep`).

* `foldlM_alike`: entries are sorted out alike, with those of a name and without them.
* `Fields.keeping_left_out`: a record is the same whether a field with a default says the default
  or is left out.
* `Fields.keeping_but_named`: records of members that differ under a name that names no field differ
  under this name only.
* `IsSorted.ext`: members in the order of their names are known by what each name finds.
-/

namespace InferenceGateway

open Document

namespace Document

variable {α β : Type} {d : Dialect} {fields : List Field} {keep : Bool} {name : String}
  {found found' : Option Node} {kept : Node × Node → Bool} {p q : Placed}

/-! ## Entries in step -/

/-- Entries that have been sorted out alike, but for what one name finds in either, and but for
    other entries that do not matter. -/
structure Placed.Alike (name : String) (found found' : Option Node) (kept : Node × Node → Bool)
    (p q : Placed) : Prop where
  finds : p.known.lookup name = found
  finds' : q.known.lookup name = found'
  known : ∀ other, other ≠ name → p.known.lookup other = q.known.lookup other
  extra : p.extra.filter kept = q.extra.filter kept

/-- Two readings that have sorted out entries alike, or have ended for the same reason. -/
inductive InStep (name : String) (found found' : Option Node) (kept : Node × Node → Bool) :
    Reading Placed → Reading Placed → Prop
  | error (e : ReadError) : InStep name found found' kept (.error e) (.error e)
  | ok {p q : Placed} : p.Alike name found found' kept q →
    InStep name found found' kept (.ok p) (.ok q)

/-- An entry of another name keeps the step. -/
theorem placeEntry_alike (hs : ∀ f ∈ fields, f.spellings = [])
    (h : p.Alike name found found' kept q) {e : Node × Node} (he : e.1.text? ≠ some name) :
    InStep name found found' kept (placeEntry d fields keep p e)
      (placeEntry d fields keep q e) := by
  rw [placeEntry, placeEntry]
  rcases hk : keyText d e.1 with err | key
  · exact .error err
  have other : key ≠ name := by
    rintro rfl
    exact he (text?_of_keyText hk)
  simp only [bind, Except.bind]
  rcases find?_isNamed hs key with ⟨-, hf⟩ | ⟨f, -, rfl, hf⟩ <;> simp only [hf]
  · cases keep with
    | true =>
      rcases e.2.check with err | _
      · exact .error err
      · exact .ok ⟨h.finds, h.finds', h.known, by simp only [List.filter_cons, h.extra]⟩
    | false =>
      cases e.2.isWellFormed with
      | true => exact .ok h
      | false => exact .error _
  · rw [h.known _ other]
    cases (q.known.lookup f.name).isSome with
    | true => exact .error _
    | false =>
      rcases f.check d e.2 with err | _
      · exact .error err
      · refine .ok ⟨?_, ?_, fun n hn => ?_, h.extra⟩
        · rw [lookup_cons_if, if_neg other.symm, h.finds]
        · rw [lookup_cons_if, if_neg other.symm, h.finds']
        · rw [lookup_cons_if, lookup_cons_if, h.known n hn]

/-- Entries are sorted out alike, with those of a name and without them, if those make no
    difference by themselves. -/
theorem foldlM_alike (hs : ∀ f ∈ fields, f.spellings = []) {entries : List (Node × Node)}
    (named : ∀ e ∈ entries, e.1.text? = some name → ∀ p q, p.Alike name found found' kept q →
      ∃ p', placeEntry d fields keep p e = .ok p' ∧ p'.Alike name found found' kept q)
    (h : p.Alike name found found' kept q) :
    InStep name found found' kept (entries.foldlM (placeEntry d fields keep) p)
      ((entries.filter (·.1.text? ≠ some name)).foldlM (placeEntry d fields keep) q) := by
  induction entries generalizing p q with
  | nil => exact .ok h
  | cons e entries ih =>
    rw [List.forall_mem_cons] at named
    rw [List.foldlM_cons, List.filter_cons]
    by_cases he : e.1.text? = some name
    · obtain ⟨p', placed, h'⟩ := named.1 he p q h
      rw [if_neg (by simpa using he), placed]
      exact ih named.2 h'
    · rw [if_pos (by simpa using he), List.foldlM_cons]
      have step : InStep name found found' kept (placeEntry d fields keep p e)
          (placeEntry d fields keep q e) := placeEntry_alike hs h he
      generalize placeEntry d fields keep p e = x at step
      generalize placeEntry d fields keep q e = y at step
      cases step with
      | error err => exact .error err
      | ok h' => exact ih named.2 h'

/-- Entries of other names are sorted out alike. -/
theorem foldlM_others_alike (hs : ∀ f ∈ fields, f.spellings = []) {entries : List (Node × Node)}
    (others : ∀ e ∈ entries, e.1.text? ≠ some name) (h : p.Alike name found found' kept q) :
    InStep name found found' kept (entries.foldlM (placeEntry d fields keep) p)
      (entries.foldlM (placeEntry d fields keep) q) := by
  have same : entries.filter (·.1.text? ≠ some name) = entries :=
    List.filter_eq_self.2 (by simpa using others)
  have all : InStep name found found' kept (entries.foldlM (placeEntry d fields keep) p)
      ((entries.filter (·.1.text? ≠ some name)).foldlM (placeEntry d fields keep) q) :=
    foldlM_alike hs (fun e he hn => absurd hn (others e he)) h
  rwa [same] at all

/-! ## Members that are kept -/

/-- Entries that have been sorted out were sorted out one by one. -/
theorem exists_placeEntry_of_foldlM {entries : List (Node × Node)}
    (h : entries.foldlM (placeEntry d fields keep) p = .ok q) :
    ∀ e ∈ entries, ∃ p q, placeEntry d fields keep p e = .ok q := by
  induction entries generalizing p with
  | nil => nofun
  | cons e entries ih =>
    rw [List.foldlM_cons] at h
    obtain ⟨p', hp, h⟩ := ok_of_bind h
    exact List.forall_mem_cons.2 ⟨⟨p, p', hp⟩, ih h⟩

/-- A member that names no field is kept exactly if it can be held as data. -/
theorem placeEntry_kept (hs : ∀ f ∈ fields, f.spellings = [])
    (unnamed : name ∉ fields.map Field.name) (p : Placed) (n : Node) :
    placeEntry d fields true p (.text name, n) =
      n.check.map fun _ => { p with extra := (.text name, n) :: p.extra } := by
  rcases find?_isNamed hs name with ⟨-, hf⟩ | ⟨f, hf, rfl, -⟩
  · simp only [placeEntry, keyText, Node.untag, pure_bind, hf, if_true]
    rcases n.check with e | _ <;> rfl
  · exact absurd (List.mem_map_of_mem hf) unnamed

variable {members members' : List (String × Node)}

/-- Members of a name that names no field make no difference to the fields. -/
theorem place_alike_without (hs : ∀ f ∈ fields, f.spellings = [])
    (unnamed : name ∉ fields.map Field.name)
    (checked : ∀ n, (name, n) ∈ members → n.check = .ok ()) :
    InStep name none none (fun _ => false) (place d fields true (entriesOf members))
      (place d fields true (entriesOf (members.filter (·.1 ≠ name)))) := by
  have others : (entriesOf members).filter (·.1.text? ≠ some name) =
      entriesOf (members.filter (·.1 ≠ name)) := by
    rw [entriesOf, List.filter_map, entriesOf]
    simp [Function.comp_def, Node.text?, Node.untag]
  rw [← others, place, place]
  refine foldlM_alike hs (fun e he hn p q h => ?_) ⟨rfl, rfl, fun _ _ => rfl, rfl⟩
  obtain ⟨m, hm, rfl⟩ := List.mem_map.1 he
  obtain rfl : m.1 = name := Option.some.inj hn
  refine ⟨{ p with extra := (.text m.1, m.2) :: p.extra }, ?_, h.finds, h.finds', h.known, by simp⟩
  rw [placeEntry_kept hs unnamed, checked m.2 hm, Except.map]

/-- Members that differ in those of a name only, which names no field, are sorted out alike. -/
theorem exists_place_of_filter_eq (hs : ∀ f ∈ fields, f.spellings = [])
    (unnamed : name ∉ fields.map Field.name)
    (checked : ∀ n, (name, n) ∈ members' → n.check = .ok ())
    (same : members'.filter (·.1 ≠ name) = members.filter (·.1 ≠ name))
    (h : place d fields true (entriesOf members) = .ok p) :
    ∃ p', place d fields true (entriesOf members') = .ok p' ∧
      ∀ other, other ≠ name → p'.known.lookup other = p.known.lookup other := by
  have held : ∀ n, (name, n) ∈ members → n.check = .ok () := fun n hn => by
    obtain ⟨_, _, placed⟩ := exists_placeEntry_of_foldlM h (.text name, n) (List.mem_map_of_mem hn)
    rw [placeEntry_kept hs unnamed] at placed
    rcases hc : n.check with e | ok
    · rw [hc] at placed
      cases placed
    · rfl
  have first := place_alike_without (d := d) hs unnamed held
  have second := place_alike_without (d := d) hs unnamed checked
  rw [h] at first
  rw [same] at second
  generalize place d fields true (entriesOf (members.filter (·.1 ≠ name))) = z at first second
  generalize place d fields true (entriesOf members') = x at second
  cases first with
  | ok alike =>
    cases second with
    | ok alike' =>
      exact ⟨_, rfl, fun other ho => (alike'.known other ho).trans (alike.known other ho).symm⟩

/-- A member as data. -/
structure IsData (m : String × Node) (m' : String × Json) : Prop where
  name_eq : m.1 = m'.1
  value_eq : m.2.toJson = .ok m'.2

theorem IsData.unique : Relator.RightUnique IsData := fun _ _ _ h h' =>
  Prod.ext (h.name_eq.symm.trans h'.name_eq) (Except.ok.inj (h.value_eq.symm.trans h'.value_eq))

/-- Members are read as data one for one. -/
theorem Node.toJsonMembers_eq_ok_iff {ms : List (String × Json)} :
    toJsonMembers (entriesOf members) = .ok ms ↔ List.Forall₂ IsData members ms := by
  induction members generalizing ms with
  | nil => exact ⟨fun h => Except.ok.inj h ▸ .nil, fun h => by cases h; rfl⟩
  | cons m members ih =>
    show toJsonMembers ((.text m.1, m.2) :: entriesOf members) = _ ↔ _
    rw [toJsonMembers]
    constructor
    · intro h
      obtain ⟨j, hj, h⟩ := ok_of_bind h
      obtain ⟨js, hjs, h⟩ := ok_of_bind h
      rw [← Except.ok.inj h]
      exact .cons ⟨rfl, hj⟩ (ih.1 hjs)
    · intro h
      cases h with
      | @cons _ m' _ ms hm h =>
        rw [hm.value_eq, ih.2 h, hm.name_eq]
        rfl

/-- Members each of which can be read as data can be read. -/
theorem exists_isData (h : ∀ m ∈ members, ∃ j, m.2.toJson = .ok j) :
    ∃ ms, List.Forall₂ IsData members ms := by
  induction members with
  | nil => exact ⟨[], .nil⟩
  | cons m members ih =>
    obtain ⟨⟨j, hj⟩, h⟩ := List.forall_mem_cons.1 h
    obtain ⟨ms, hms⟩ := ih h
    exact ⟨(m.1, j) :: ms, .cons ⟨rfl, hj⟩ hms⟩

/-- What is left of members as data when those of a name are taken out. -/
theorem filter_isData {ms : List (String × Json)} (h : List.Forall₂ IsData members ms)
    (name : String) :
    List.Forall₂ IsData (members.filter (·.1 ≠ name)) (ms.filter (·.1 ≠ name)) :=
  List.rel_filter (fun _ _ hm => by simp [hm.name_eq]) h

/-- Members that differ in those of a name only, all of which can be read, differ as data in those
    of this name only. -/
theorem exists_isData_of_filter_eq {ms : List (String × Json)}
    (h : List.Forall₂ IsData members ms)
    (readable : ∀ n, (name, n) ∈ members' → ∃ j, n.toJson = .ok j)
    (same : members'.filter (·.1 ≠ name) = members.filter (·.1 ≠ name)) :
    ∃ ms', List.Forall₂ IsData members' ms' ∧
      ms'.filter (·.1 ≠ name) = ms.filter (·.1 ≠ name) := by
  have held : ∀ m ∈ members', ∃ j, m.2.toJson = .ok j := fun m hm => by
    by_cases hn : m.1 = name
    · exact readable m.2 (hn ▸ hm)
    · have other := List.mem_filter (p := (·.1 ≠ name)).2 ⟨hm, by simpa using hn⟩
      rw [same] at other
      obtain ⟨m', hm'⟩ := exists_of_forall₂ h.flip m (List.mem_filter.1 other).1
      exact ⟨m'.2, hm'.value_eq⟩
  obtain ⟨ms', hms'⟩ := exists_isData held
  exact ⟨ms', hms', IsData.unique.forall₂ (filter_isData hms' _) (same ▸ filter_isData h _)⟩

/-! ## Records in step -/

namespace Fields

variable {look look' : String → Option Node} {read : Reader α}

/-- A record that is built alike of what two payloads say. -/
def BuiltAlike (look look' : String → Option Node) (r : Fields α) : Prop :=
  r.build .json look = r.build .json look'

theorem BuiltAlike.map {r : Fields α} (h : r.BuiltAlike look look') (f : α → β) :
    (f <$> r).BuiltAlike look look' := by
  show f <$> r.build .json look = f <$> r.build .json look'
  rw [h]

theorem BuiltAlike.seq {r : Fields (α → β)} {x : Fields α} (h : r.BuiltAlike look look')
    (hx : x.BuiltAlike look look') : (r <*> x).BuiltAlike look look' := by
  show (do let g ← r.build .json look; let a ← x.build .json look; return g a) =
    (do let g ← r.build .json look'; let a ← x.build .json look'; return g a)
  rw [h, hx]

/-- A field that finds the same in both. -/
theorem BuiltAlike.single (h : look name = look' name) (spellings : List String) (mayTrail : Bool)
    (absent : Reading α) :
    (Fields.single name spellings read mayTrail absent).BuiltAlike look look' := by
  simp only [BuiltAlike, Fields.single, h]

/-- A field that is left out in the one, and says its default in the other. -/
theorem BuiltAlike.default {a : α} {n : Node} (h : look name = none) (h' : look' name = some n)
    (hn : read .json n = .ok a) : (Fields.defaulting name read a).BuiltAlike look look' := by
  simp only [BuiltAlike, Fields.defaulting, Fields.single, h, h', hn]
  rfl

/-- The record of entries that have been sorted out. -/
def finish (r : Fields (List (String × Json) → α)) (d : Dialect) (p : Placed) : Reading α := do
  let record ← r.build d (p.known.lookup ·)
  let extra ← Node.toJsonMembers p.extra.reverse
  return record (sortMembers extra)

theorem ofEntriesWithExtra_eq (r : Fields (List (String × Json) → α)) (d : Dialect)
    (entries : List (Node × Node)) :
    r.ofEntriesWithExtra d entries = place d r.fields true entries >>= r.finish d := rfl

/-- Entries that are sorted out alike are finished alike, if the record is built alike. -/
theorem finish_alike {r : Fields (List (String × Json) → α)} {x y : Reading Placed}
    (h : InStep name found found' (fun _ => true) x y)
    (built : ∀ look look', look name = found → look' name = found' →
      (∀ other, other ≠ name → look other = look' other) → r.BuiltAlike look look') :
    x >>= r.finish .json = y >>= r.finish .json := by
  cases h with
  | error => rfl
  | @ok p q same =>
    have extra : p.extra = q.extra := by simpa using same.extra
    have record : r.build .json (p.known.lookup ·) = r.build .json (q.known.lookup ·) :=
      built _ _ same.finds same.finds' same.known
    show r.finish .json p = r.finish .json q
    rw [finish, finish, extra, record]

/-- A record is the same, or refused for the same reason, whether a field says its default or is
    left out. -/
theorem keeping_left_out {r : Fields (List (String × Json) → α)} {label : String} {n : Node}
    (hs : ∀ f ∈ r.fields, f.spellings = [])
    (hf : ∃ f, r.fields.find? (·.isNamed name) = some f ∧ f.name = name ∧ f.check .json n = .ok ())
    (built : ∀ look look', look name = none → look' name = some n →
      (∀ other, other ≠ name → look other = look' other) → r.BuiltAlike look look')
    {front back : List (Node × Node)} (others : ∀ e ∈ front ++ back, e.1.text? ≠ some name) :
    r.keeping label .json (.mapping (front ++ back)) =
      r.keeping label .json (.mapping (front ++ (.text name, n) :: back)) := by
  obtain ⟨f, named, rfl, checked⟩ := hf
  obtain ⟨before, after⟩ := List.forall_mem_append.1 others
  show r.ofEntriesWithExtra .json _ = r.ofEntriesWithExtra .json _
  rw [ofEntriesWithExtra_eq, ofEntriesWithExtra_eq, place, place, List.foldlM_append,
    List.foldlM_append]
  have start : Placed.Alike f.name none none (fun _ => true) ⟨[], []⟩ ⟨[], []⟩ :=
    ⟨rfl, rfl, fun _ _ => rfl, rfl⟩
  have first : InStep f.name none none (fun _ => true)
      (front.foldlM (placeEntry .json r.fields true) ⟨[], []⟩)
      (front.foldlM (placeEntry .json r.fields true) ⟨[], []⟩) :=
    foldlM_others_alike hs before start
  generalize front.foldlM (placeEntry .json r.fields true) ⟨[], []⟩ = x at first
  cases first with
  | error => rfl
  | @ok p _ same =>
    -- What stands before the field is sorted out as one. From there on one has the field.
    have new : p.known.lookup f.name = none := same.finds
    have placed : placeEntry .json r.fields true p (.text f.name, n) =
        .ok { p with known := (f.name, n) :: p.known } := by
      simp only [placeEntry, keyText, Node.untag, pure_bind, named, new, Option.isSome_none,
        Bool.false_eq_true, if_false, checked]
      rfl
    have known : p.Alike f.name none (some n) (fun _ => true)
        { p with known := (f.name, n) :: p.known } :=
      ⟨new, by simp, fun other ho => by rw [lookup_cons_if, if_neg ho], rfl⟩
    show back.foldlM (placeEntry .json r.fields true) p >>= r.finish .json =
      ((.text f.name, n) :: back).foldlM (placeEntry .json r.fields true) p >>= r.finish .json
    rw [List.foldlM_cons, placed]
    exact finish_alike (foldlM_others_alike hs after known) built

/-- A record that keeps members is read of members that differ from its own in those of a name only,
    which names no field, if they can be read. It is the same but for what it keeps under this
    name. -/
theorem keeping_but_named {r : Fields (List (String × Json) → α)} {label : String} {a : α}
    {members members' : List (String × Node)} (hs : ∀ f ∈ r.fields, f.spellings = [])
    (unnamed : name ∉ r.fields.map Field.name)
    (built : ∀ look look', (∀ other, other ≠ name → look other = look' other) →
      r.BuiltAlike look look')
    (h : r.keeping label .json (.object members) = .ok a)
    (readable : ∀ n, (name, n) ∈ members' → ∃ j, Reader.value .json n = .ok j)
    (same : members'.filter (·.1 ≠ name) = members.filter (·.1 ≠ name)) :
    ∃ look record ms ms', r.build .json look = .ok record ∧ a = record (sortMembers ms) ∧
      r.keeping label .json (.object members') = .ok (record (sortMembers ms')) ∧
      ms'.filter (·.1 ≠ name) = ms.filter (·.1 ≠ name) := by
  have checked : ∀ n, (name, n) ∈ members' → n.check = .ok () ∧ ∃ j, n.toJson = .ok j :=
    fun n hn => by
      obtain ⟨j, hj⟩ := readable n hn
      obtain ⟨_, hc, hj⟩ := ok_of_bind hj
      exact ⟨hc, j, hj⟩
  have h : (place .json r.fields true (entriesOf members) >>= r.finish .json) = .ok a := h
  obtain ⟨p, hp, h⟩ := ok_of_bind h
  obtain ⟨record, hr, h⟩ := ok_of_bind h
  obtain ⟨ms, hms, made⟩ := ok_of_bind h
  rw [extra_of_place hs hp, Node.toJsonMembers_eq_ok_iff] at hms
  obtain ⟨p', hp', known⟩ := exists_place_of_filter_eq hs unnamed (fun n hn => (checked n hn).1)
    same hp
  have others : (members'.filter (·.1 ∉ r.fields.map Field.name)).filter (·.1 ≠ name) =
      (members.filter (·.1 ∉ r.fields.map Field.name)).filter (·.1 ≠ name) := by
    rw [List.filter_comm, same, List.filter_comm]
  obtain ⟨ms', hms', data⟩ := exists_isData_of_filter_eq hms
    (fun n hn => (checked n (List.mem_filter.1 hn).1).2) others
  refine ⟨_, record, ms, ms', hr, (Except.ok.inj made).symm, ?_, data⟩
  show (place .json r.fields true (entriesOf members') >>= r.finish .json) = _
  rw [hp']
  show r.finish .json p' = _
  rw [finish, built _ _ known, hr, extra_of_place hs hp', Node.toJsonMembers_eq_ok_iff.2 hms']
  rfl

end Fields

end Document

/-- Members in the order of their names are the same if each name finds the same. -/
theorem IsSorted.ext {α : Type} {ms ns : List (String × α)} (hm : IsSorted ms) (hn : IsSorted ns)
    (h : ∀ name, ms.lookup name = ns.lookup name) : ms = ns := by
  -- A name that does not come after the first one finds nothing among the others.
  have before {m : String × α} {ms : List (String × α)} {name : String} (hs : IsSorted (m :: ms))
      (hl : ¬m.1 < name) : ms.lookup name = none := by
    refine List.lookup_eq_none_iff.2 fun m' hm' => bne_iff_ne.2 ?_
    rintro rfl
    exact hl ((List.pairwise_cons.1 hs).1 _ (List.mem_map_of_mem hm'))
  induction ms generalizing ns with
  | nil =>
    cases ns with
    | nil => rfl
    | cons n ns => simpa [lookup_cons_if] using h n.1
  | cons m ms ih =>
    cases ns with
    | nil => simpa [lookup_cons_if] using h m.1
    | cons n ns =>
      simp only [lookup_cons_if] at h
      have name : m.1 = n.1 := by
        by_contra hne
        by_cases hlt : m.1 < n.1
        · simpa [hne, before hn (String.lt_asymm hlt)] using h m.1
        · simpa [Ne.symm hne, before hm hlt] using h n.1
      have value : m.2 = n.2 := by simpa [name] using h m.1
      have rest : ms = ns := by
        refine ih (List.pairwise_cons.1 hm).2 (List.pairwise_cons.1 hn).2 fun other => ?_
        by_cases ho : other = m.1
        · rw [before hm (ho ▸ String.lt_irrefl _), before hn (ho ▸ name ▸ String.lt_irrefl _)]
        · simpa [ho, name ▸ ho] using h other
      rw [Prod.ext name value, rest]

end InferenceGateway
