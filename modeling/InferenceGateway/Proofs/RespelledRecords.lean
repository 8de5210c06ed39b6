import InferenceGateway.Config.Placeholder
import InferenceGateway.Proofs.KeptMembers

/-!
# Records with respelled keys

A key of a record may have several names. Two documents that differ in such names only are read
alike: the entries of a record are sorted out by the field that a key names, not by the name that
it has. A record may stand within another one, so what stands under a key may be respelled as well.

* `RecordRespelled`, `ListRespelled`: documents that are the same but for the names of keys.
* `KeptByFilling.record`: they remain so when their placeholders are replaced.
* `Fields.closed_respelled`, `Fields.keeping_respelled`: a record is read alike of both.
* `Fields.exists_look_of_closed`, `Fields.exists_look_of_keeping`: each field of a record that has
  been read is found under any of its names, and no name of a field is kept among the rest.
-/

namespace InferenceGateway.Document

variable {α β ε : Type}

/-! ## Computations side by side -/

/-- Two computations that fail for the same reason, or have results that are related. -/
inductive Agree (R : α → α → Prop) : Except ε α → Except ε α → Prop
  | error (e : ε) : Agree R (.error e) (.error e)
  | ok {a b : α} : R a b → Agree R (.ok a) (.ok b)

namespace Agree

variable {R : α → α → Prop} {S : β → β → Prop} {x y : Except ε α}

theorem refl (h : ∀ a, R a a) (x : Except ε α) : Agree R x x := by
  cases x with
  | error e => exact .error e
  | ok a => exact .ok (h a)

theorem bind (h : Agree R x y) {f g : α → Except ε β} (hf : ∀ a b, R a b → Agree S (f a) (g b)) :
    Agree S (x >>= f) (y >>= g) := by
  cases h with
  | error e => exact .error e
  | ok h => exact hf _ _ h

theorem map (h : Agree R x y) {f g : α → β} (hf : ∀ a b, R a b → S (f a) (g b)) :
    Agree S (f <$> x) (g <$> y) := by
  cases h with
  | error e => exact .error e
  | ok h => exact .ok (hf _ _ h)

/-- What goes on alike from related results is the same. -/
theorem bind_eq (h : Agree R x y) {f g : α → Except ε β} (hf : ∀ a b, R a b → f a = g b) :
    x >>= f = y >>= g := by
  cases h with
  | error e => rfl
  | ok h => exact hf _ _ h

/-- A step that keeps a relation keeps it along related rows. -/
theorem foldlM {step : α → β → Except ε α} (hs : ∀ p q b c, R p q → S b c →
    Agree R (step p b) (step q c)) {bs cs : List β} (h : List.Forall₂ S bs cs) {p q : α}
    (hp : R p q) : Agree R (bs.foldlM step p) (cs.foldlM step q) := by
  induction h generalizing p q with
  | nil => exact .ok hp
  | cons hbc _ ih =>
    rw [List.foldlM_cons, List.foldlM_cons]
    exact (hs _ _ _ _ hp hbc).bind fun _ _ => ih

end Agree

/-! ## Respelled documents -/

/-- A key that a record may have: the names that it may be written with, and how what stands under
    it may be written otherwise. -/
structure Key where
  names : List String
  value : Node → Node → Prop

/-- A key with one of some names, and the same key with any other of them. Its tags stay. -/
inductive Respelled (names : List String) : Node → Node → Prop
  | text {s s' : String} : s ∈ names → s' ∈ names → Respelled names (.text s) (.text s')
  | tagged {tag : String} {k k' : Node} : Respelled names k k' →
    Respelled names (.tagged tag k) (.tagged tag k')

/-- An entry of a record and the same entry with another name of its key, and with what stands under
    it written otherwise. -/
inductive EntryRespelled (keys : List Key) : Node × Node → Node × Node → Prop
  | same (e : Node × Node) : EntryRespelled keys e e
  | key {key : Key} {k k' n n' : Node} : key ∈ keys → Respelled key.names k k' →
    key.value n n' → EntryRespelled keys (k, n) (k', n')

/-- A record and the same record with any of its entries respelled, all in the same order. A node
    that is no mapping stays as it is. -/
inductive RecordRespelled (keys : List Key) : Node → Node → Prop
  | same (n : Node) : RecordRespelled keys n n
  | mapping {entries entries' : List (Node × Node)} :
    List.Forall₂ (EntryRespelled keys) entries entries' →
    RecordRespelled keys (.mapping entries) (.mapping entries')
  | tagged {tag : String} {n n' : Node} : RecordRespelled keys n n' →
    RecordRespelled keys (.tagged tag n) (.tagged tag n')

/-- A list and the same list with any of its items written otherwise. -/
inductive ListRespelled (item : Node → Node → Prop) : Node → Node → Prop
  | same (n : Node) : ListRespelled item n n
  | sequence {items items' : List Node} : List.Forall₂ item items items' →
    ListRespelled item (.sequence items) (.sequence items')
  | tagged {tag : String} {n n' : Node} : ListRespelled item n n' →
    ListRespelled item (.tagged tag n) (.tagged tag n')

/-! ## Filled documents -/

section Filling

open Placeholder

variable {env : Environment} {keys : List Key} {R : Node → Node → Prop}

/-- Documents that are related remain so when they are filled, or they are not filled for the same
    reason. -/
def KeptByFilling (env : Environment) (R : Node → Node → Prop) : Prop :=
  ∀ n n', R n n' → Agree R (resolve env n) (resolve env n')

theorem KeptByFilling.eq : KeptByFilling env Eq := by
  rintro n _ rfl
  exact .refl (fun _ => rfl) _

/-- A key is not filled, so it keeps its name. -/
theorem agree_resolve_value (h : ∀ key ∈ keys, KeptByFilling env key.value) {e e' : Node × Node}
    (he : EntryRespelled keys e e') :
    Agree (fun n n' => EntryRespelled keys (e.1, n) (e'.1, n')) (resolve env e.2)
      (resolve env e'.2) := by
  cases he with
  | same e => exact .refl (fun n => .same (e.1, n)) _
  | @key key k k' n n' hkey hk hn =>
    have filled := h key hkey n n' hn
    generalize resolve env n = x, resolve env n' = y at filled
    cases filled with
    | error e => exact .error e
    | ok hv => exact .ok (.key hkey hk hv)

theorem agree_resolveEntries (h : ∀ key ∈ keys, KeptByFilling env key.value)
    {entries entries' : List (Node × Node)}
    (he : List.Forall₂ (EntryRespelled keys) entries entries') :
    Agree (List.Forall₂ (EntryRespelled keys)) (resolveEntries env entries)
      (resolveEntries env entries') := by
  induction he with
  | nil => exact .ok .nil
  | cons he _ ih =>
    rw [resolveEntries, resolveEntries]
    exact (agree_resolve_value h he).bind fun _ _ head => ih.map fun _ _ tail => .cons head tail

theorem agree_resolveItems (h : KeptByFilling env R) {items items' : List Node}
    (hi : List.Forall₂ R items items') :
    Agree (List.Forall₂ R) (resolveItems env items) (resolveItems env items') := by
  induction hi with
  | nil => exact .ok .nil
  | cons hn _ ih =>
    rw [resolveItems, resolveItems]
    exact (h _ _ hn).bind fun _ _ head => ih.map fun _ _ tail => .cons head tail

/-- A respelled record is one after it has been filled. -/
theorem KeptByFilling.record (h : ∀ key ∈ keys, KeptByFilling env key.value) :
    KeptByFilling env (RecordRespelled keys) := by
  intro n n' hn
  induction hn with
  | same n => exact .refl .same _
  | mapping he => exact (agree_resolveEntries h he).map fun _ _ => .mapping
  | tagged _ ih => exact ih.map fun _ _ => .tagged

theorem KeptByFilling.list (h : KeptByFilling env R) : KeptByFilling env (ListRespelled R) := by
  intro n n' hn
  induction hn with
  | same n => exact .refl .same _
  | sequence hi => exact (agree_resolveItems h hi).map fun _ _ => .sequence
  | tagged _ ih => exact ih.map fun _ _ => .tagged

end Filling

/-! ## Names of fields -/

/-- The names of a field. -/
def Field.names (f : Field) : List String := f.name :: f.spellings

theorem Field.isNamed_iff (f : Field) (key : String) : f.isNamed key ↔ key ∈ f.names := by
  rw [Field.isNamed, Bool.or_eq_true, decide_eq_true_iff, List.contains_iff_mem, names,
    List.mem_cons, eq_comm]

theorem keyText_of_respelled {names : List String} {k k' : Node} (h : Respelled names k k')
    (d : Dialect) : ∃ s ∈ names, ∃ s' ∈ names, keyText d k = .ok s ∧ keyText d k' = .ok s' := by
  induction h with
  | text hs hs' => exact ⟨_, hs, _, hs', rfl, rfl⟩
  | tagged _ ih => exact ih

variable {d : Dialect} {fields : List Field} {keep : Bool} {p q : Placed} {key : String}
  {f : Field}

theorem keyText_of_text? {k : Node} (h : k.text? = some key) : keyText d k = .ok key := by
  rw [Node.text?] at h
  rw [keyText]
  cases hk : k.untag <;> rw [hk] at h
  case text => exact congrArg Except.ok (Option.some.inj h)
  all_goals cases h

/-- No two fields have a name in common, nor has one of them a name twice. -/
def Unambiguous (fields : List Field) : Prop := (fields.flatMap Field.names).Nodup

instance : Decidable (Unambiguous fields) := inferInstanceAs (Decidable (List.Nodup _))

/-- Each name of a field finds the field. -/
theorem Unambiguous.find? (h : Unambiguous fields) (hf : f ∈ fields) (hk : key ∈ f.names) :
    fields.find? (·.isNamed key) = some f := by
  rw [Unambiguous] at h
  induction fields with
  | nil => cases hf
  | cons g fields ih =>
    rw [List.flatMap_cons, List.nodup_append] at h
    rcases List.mem_cons.1 hf with rfl | hf
    · exact List.find?_cons_of_pos ((f.isNamed_iff key).2 hk)
    · rw [List.find?_cons_of_neg]
      · exact ih h.2.1 hf
      · rw [g.isNamed_iff]
        exact fun hg => h.2.2 key hg key (List.mem_flatMap_of_mem hf hk) rfl

/-- An entry whose key names a field is checked and placed there, unless the field has been. -/
theorem placeEntry_of_named {e : Node × Node} (hk : keyText d e.1 = .ok key)
    (hf : fields.find? (·.isNamed key) = some f) : placeEntry d fields keep p e = do
      if (p.known.lookup f.name).isSome then throw (.duplicateField f.name)
      f.check d e.2
      return { p with known := (f.name, e.2) :: p.known } := by
  rw [placeEntry, hk]
  simp only [bind, Except.bind, hf]

/-! ## Records side by side -/

variable {keys : List Key} {name : String} {read : Reader α}

/-- What stands under a name in two documents of which one is the other respelled. -/
def Interchangeable (keys : List Key) (name : String) (n n' : Node) : Prop :=
  n = n' ∨ ∃ key ∈ keys, name ∈ key.names ∧ key.value n n'

/-- Entries of two such documents that have been sorted out. -/
structure Placed.Respelled (keys : List Key) (p q : Placed) : Prop where
  known : ∀ name, Option.Rel (Interchangeable keys name) (p.known.lookup name) (q.known.lookup name)
  extra : p.extra = q.extra

/-- The same fields have been placed. -/
theorem Placed.Respelled.isSome_eq (h : p.Respelled keys q) (name : String) :
    (p.known.lookup name).isSome = (q.known.lookup name).isSome := by
  have found := h.known name
  generalize p.known.lookup name = x, q.known.lookup name = y at found
  cases found <;> rfl

/-- The keys that may be respelled are fields of a record, with all their names. -/
def AreFields (keys : List Key) (fields : List Field) : Prop :=
  ∀ key ∈ keys, key.names ∈ fields.map Field.names

instance : Decidable (AreFields keys fields) :=
  inferInstanceAs (Decidable (∀ key ∈ keys, _ ∈ _))

theorem mem_names_of_areFields (h : AreFields keys fields) {k : Key} (hk : k ∈ keys)
    (hn : name ∈ k.names) : name ∈ fields.flatMap Field.names := by
  obtain ⟨f, hf, names⟩ := List.mem_map.1 (h k hk)
  exact List.mem_flatMap.2 ⟨f, hf, names ▸ hn⟩

namespace Fields

/-- A record that is checked and built alike of whatever may stand under the names of its
    fields. -/
structure ReadsAlike (r : Fields α) (keys : List Key) : Prop where
  checked : ∀ f ∈ r.fields, ∀ n n', Interchangeable keys f.name n n' →
    f.check .yaml n = f.check .yaml n'
  built : ∀ look look' : String → Option Node,
    (∀ f ∈ r.fields, Option.Rel (Interchangeable keys f.name) (look f.name) (look' f.name)) →
    r.build .yaml look = r.build .yaml look'

namespace ReadsAlike

theorem map {r : Fields α} (h : r.ReadsAlike keys) (f : α → β) : (f <$> r).ReadsAlike keys where
  checked := h.checked
  built look look' hl := by
    show f <$> r.build .yaml look = f <$> r.build .yaml look'
    rw [h.built look look' hl]

theorem seq {r : Fields (α → β)} {x : Fields α} (h : r.ReadsAlike keys) (hx : x.ReadsAlike keys) :
    (r <*> x).ReadsAlike keys where
  checked := List.forall_mem_append.2 ⟨h.checked, hx.checked⟩
  built look look' hl := by
    obtain ⟨hr, hlx⟩ := List.forall_mem_append.1 hl
    show (do let g ← r.build .yaml look; let a ← x.build .yaml look; return g a) =
      (do let g ← r.build .yaml look'; let a ← x.build .yaml look'; return g a)
    rw [h.built look look' hr, hx.built look look' hlx]

/-- A field is read alike if what stands under its name is. -/
theorem single (h : ∀ key ∈ keys, name ∈ key.names → ∀ n n', key.value n n' →
    read .yaml n = read .yaml n') (spellings : List String) (mayTrail : Bool)
    (absent : Reading α) : (Fields.single name spellings read mayTrail absent).ReadsAlike keys := by
  have same : ∀ n n', Interchangeable keys name n n' → read .yaml n = read .yaml n' := by
    rintro n n' (rfl | ⟨key, hkey, hn, hv⟩)
    · rfl
    · exact h key hkey hn n n' hv
  constructor
  · refine List.forall_mem_singleton.2 fun n n' hn => ?_
    show (fun _ => ()) <$> read .yaml n = (fun _ => ()) <$> read .yaml n'
    rw [same n n' hn]
  · intro look look' hl
    have found := hl _ (List.mem_singleton_self _)
    simp only [Fields.single]
    generalize look name = x, look' name = y at found
    cases found with
    | some hn => exact same _ _ hn
    | none => rfl

end ReadsAlike

variable {r : Fields α}

/-- An entry of a field is placed by the field, whichever of its names it has. -/
theorem placeEntry_of_same_field (hr : r.ReadsAlike keys) (hp : p.Respelled keys q)
    {e e' : Node × Node} {key key' : String} (hk : keyText .yaml e.1 = .ok key)
    (hk' : keyText .yaml e'.1 = .ok key') (hf : r.fields.find? (·.isNamed key) = some f)
    (hf' : r.fields.find? (·.isNamed key') = some f)
    (hv : Interchangeable keys f.name e.2 e'.2) :
    Agree (Placed.Respelled keys) (placeEntry .yaml r.fields keep p e)
      (placeEntry .yaml r.fields keep q e') := by
  rw [placeEntry_of_named hk hf, placeEntry_of_named hk' hf', hp.isSome_eq,
    hr.checked f (List.mem_of_find?_eq_some hf) _ _ hv]
  cases (q.known.lookup f.name).isSome with
  | true => exact .error _
  | false =>
    rcases f.check .yaml e'.2 with err | _
    · exact .error err
    · refine .ok ⟨fun name => ?_, hp.extra⟩
      rw [lookup_cons_if, lookup_cons_if]
      split
      · rename_i hn
        exact .some (hn ▸ hv)
      · exact hp.known name

/-- An entry is placed alike beside entries that are respelled. -/
theorem placeEntry_of_same_entry (hr : r.ReadsAlike keys) (hp : p.Respelled keys q)
    (e : Node × Node) : Agree (Placed.Respelled keys) (placeEntry .yaml r.fields keep p e)
      (placeEntry .yaml r.fields keep q e) := by
  rcases hk : keyText .yaml e.1 with err | key
  · rw [placeEntry, placeEntry, hk]
    exact .error err
  rcases hf : r.fields.find? (·.isNamed key) with _ | f
  · rw [placeEntry, placeEntry, hk]
    simp only [bind, Except.bind, hf]
    cases keep with
    | true =>
      rcases e.2.check with err | _
      · exact .error err
      · exact .ok ⟨hp.known, congrArg (_ :: ·) hp.extra⟩
    | false =>
      cases e.2.isWellFormed with
      | true => exact .ok hp
      | false => exact .error _
  · exact placeEntry_of_same_field hr hp hk hk hf hf (.inl rfl)

/-- An entry that is respelled is placed alike. -/
theorem placeEntry_respelled (hr : r.ReadsAlike keys) (hu : Unambiguous r.fields)
    (ha : AreFields keys r.fields) (hp : p.Respelled keys q) {e e' : Node × Node}
    (he : EntryRespelled keys e e') :
    Agree (Placed.Respelled keys) (placeEntry .yaml r.fields keep p e)
      (placeEntry .yaml r.fields keep q e') := by
  cases he with
  | same => exact placeEntry_of_same_entry hr hp e
  | @key key k k' n n' hkey hk hv =>
    obtain ⟨f, hf, names⟩ := List.mem_map.1 (ha key hkey)
    obtain ⟨s, hs, s', hs', hks, hks'⟩ := keyText_of_respelled hk .yaml
    have values : Interchangeable keys f.name n n' :=
      .inr ⟨key, hkey, names ▸ List.mem_cons_self, hv⟩
    rw [← names] at hs hs'
    exact placeEntry_of_same_field hr hp hks hks' (hu.find? hf hs) (hu.find? hf hs') values

/-- Entries that are respelled are sorted out alike. -/
theorem place_respelled (hr : r.ReadsAlike keys) (hu : Unambiguous r.fields)
    (ha : AreFields keys r.fields) (keep : Bool) {entries entries' : List (Node × Node)}
    (he : List.Forall₂ (EntryRespelled keys) entries entries') :
    Agree (Placed.Respelled keys) (place .yaml r.fields keep entries)
      (place .yaml r.fields keep entries') := by
  have start : Placed.Respelled keys ⟨[], []⟩ ⟨[], []⟩ := ⟨fun _ => .none, rfl⟩
  refine Agree.foldlM (S := EntryRespelled keys) (fun p q e e' hp he => ?_) he start
  exact placeEntry_respelled hr hu ha hp he

/-- A record that passes over its other entries is read alike of a document and of the same document
    respelled. -/
theorem closed_respelled (hr : r.ReadsAlike keys) (hu : Unambiguous r.fields)
    (ha : AreFields keys r.fields) (label : String) {n n' : Node}
    (h : RecordRespelled keys n n') : r.closed label .yaml n = r.closed label .yaml n' := by
  induction h with
  | same n => rfl
  | mapping he =>
    show place .yaml r.fields false _ >>= _ = place .yaml r.fields false _ >>= _
    exact (place_respelled hr hu ha false he).bind_eq fun p q hp =>
      hr.built _ _ fun f _ => hp.known f.name
  | tagged _ ih => exact ih

/-- A record that keeps its other entries is read alike of a document and of the same document
    respelled. -/
theorem keeping_respelled {r : Fields (List (String × Json) → α)} (hr : r.ReadsAlike keys)
    (hu : Unambiguous r.fields) (ha : AreFields keys r.fields) (label : String) {n n' : Node}
    (h : RecordRespelled keys n n') : r.keeping label .yaml n = r.keeping label .yaml n' := by
  induction h with
  | same n => rfl
  | mapping he =>
    show place .yaml r.fields true _ >>= _ = place .yaml r.fields true _ >>= _
    refine (place_respelled hr hu ha true he).bind_eq fun p q hp => ?_
    rw [hr.built (p.known.lookup ·) (q.known.lookup ·) fun f _ => hp.known f.name, hp.extra]
  | tagged _ ih => exact ih

end Fields

/-- A list is read alike of items that are. -/
theorem Reader.list_respelled {R : Node → Node → Prop}
    (hr : ∀ n n', R n n' → read .yaml n = read .yaml n') {n n' : Node} (h : ListRespelled R n n') :
    Reader.list read .yaml n = Reader.list read .yaml n' := by
  induction h with
  | same n => rfl
  | @sequence items items' hi =>
    show items.mapM (read .yaml) = items'.mapM (read .yaml)
    induction hi with
    | nil => rfl
    | cons hn _ ih => rw [List.mapM_cons, List.mapM_cons, hr _ _ hn, ih]
  | tagged _ ih => exact ih

/-! ## Where the entries of a record go -/

/-- A field that has a node keeps it. -/
theorem Places.lookup {e : Node × Node} (h : Places d fields p e keep q) {n : Node}
    (hn : p.known.lookup name = some n) : q.known.lookup name = some n := by
  cases h with
  | @field _ key f _ _ fresh =>
    have other : name ≠ f.name := by
      rintro rfl
      cases fresh.symm.trans hn
    rw [lookup_cons_if, if_neg other, hn]
  | kept => exact hn
  | passed => exact hn

/-- The field that an entry names has the node of the entry. -/
theorem Places.lookup_of_named {e : Node × Node} (h : Places d fields p e keep q)
    (hk : keyText d e.1 = .ok key) (hf : fields.find? (·.isNamed key) = some f) :
    q.known.lookup f.name = some e.2 := by
  cases h with
  | field hk' hf' =>
    obtain rfl := Except.ok.inj (hk.symm.trans hk')
    obtain rfl := Option.some.inj (hf.symm.trans hf')
    rw [lookup_cons_if, if_pos rfl]
  | kept hk' unnamed | passed hk' unnamed =>
    obtain rfl := Except.ok.inj (hk.symm.trans hk')
    cases hf.symm.trans unnamed

theorem lookup_of_foldlM_placeEntry {entries : List (Node × Node)} {n : Node}
    (h : entries.foldlM (placeEntry d fields keep) p = .ok q)
    (hn : p.known.lookup name = some n) : q.known.lookup name = some n := by
  induction entries generalizing p with
  | nil => exact Except.ok.inj h ▸ hn
  | cons e entries ih =>
    rw [List.foldlM_cons] at h
    obtain ⟨p', hp, h⟩ := ok_of_bind h
    exact ih h ((places_of_placeEntry hp).lookup hn)

/-- A field has the node of the entry that names it. -/
theorem lookup_of_mem_entries {entries : List (Node × Node)}
    (h : entries.foldlM (placeEntry d fields keep) p = .ok q) {e : Node × Node} (he : e ∈ entries)
    (hk : keyText d e.1 = .ok key) (hf : fields.find? (·.isNamed key) = some f) :
    q.known.lookup f.name = some e.2 := by
  induction entries generalizing p with
  | nil => cases he
  | cons first entries ih =>
    rw [List.foldlM_cons] at h
    obtain ⟨p', hp, hrest⟩ := ok_of_bind h
    rcases List.mem_cons.1 he with rfl | he
    · exact lookup_of_foldlM_placeEntry hrest ((places_of_placeEntry hp).lookup_of_named hk hf)
    · exact ih hrest he

/-- What is kept beside the fields has a key that none of them is named after. -/
theorem unnamed_of_mem_extra {entries : List (Node × Node)}
    (h : entries.foldlM (placeEntry d fields keep) p = .ok q) {e : Node × Node}
    (he : e ∈ q.extra) : e ∈ p.extra ∨
      ∃ key, e.1 = .text key ∧ fields.find? (·.isNamed key) = none := by
  induction entries generalizing p with
  | nil => exact .inl (Except.ok.inj h ▸ he)
  | cons first entries ih =>
    rw [List.foldlM_cons] at h
    obtain ⟨p', hp, h⟩ := ok_of_bind h
    rcases ih h with he | unnamed
    · cases places_of_placeEntry hp with
      | field => exact .inl he
      | @kept key _ hf =>
        rcases List.mem_cons.1 he with rfl | he
        · exact .inr ⟨key, rfl, hf⟩
        · exact .inl he
      | passed => exact .inl he
    · exact .inr unnamed

/-- Members that are read as data have the keys of their entries. -/
theorem exists_entry_of_toJsonMembers {entries : List (Node × Node)}
    {ms : List (String × Json)} (h : Node.toJsonMembers entries = .ok ms) :
    ∀ m ∈ ms, ∃ e ∈ entries, e.1 = .text m.1 := by
  induction entries generalizing ms with
  | nil =>
    obtain rfl := Except.ok.inj h
    nofun
  | cons e entries ih =>
    obtain ⟨k, n⟩ := e
    rw [Node.toJsonMembers.eq_def] at h
    dsimp only at h
    split at h
    · obtain ⟨j, -, h⟩ := ok_of_bind h
      obtain ⟨js, hjs, h⟩ := ok_of_bind h
      obtain rfl := Except.ok.inj h
      refine List.forall_mem_cons.2 ⟨⟨_, List.mem_cons_self, rfl⟩, fun m hm => ?_⟩
      obtain ⟨e, he, hk⟩ := ih hjs m hm
      exact ⟨e, List.mem_cons_of_mem _ he, hk⟩
    · cases h

/-- None of the names of the fields is among the data of what is kept beside them. -/
theorem lookup_extra_of_place (hu : Unambiguous fields) {entries : List (Node × Node)}
    (h : place d fields keep entries = .ok p) {ms : List (String × Json)}
    (hms : Node.toJsonMembers p.extra.reverse = .ok ms) (hn : name ∈ fields.flatMap Field.names) :
    (sortMembers ms).lookup name = none := by
  obtain ⟨f, hf, hn⟩ := List.mem_flatMap.1 hn
  rw [lookup_sortMembers, List.lookup_eq_none_iff]
  intro m hm
  obtain ⟨e, he, hk⟩ := exists_entry_of_toJsonMembers hms m (List.mem_reverse.1 hm)
  obtain ⟨key, hk', unnamed⟩ :=
    (unnamed_of_mem_extra h (List.mem_reverse.1 he)).resolve_left List.not_mem_nil
  obtain rfl : m.1 = key := Node.text.inj (hk.symm.trans hk')
  refine bne_iff_ne.2 ?_
  rintro rfl
  cases unnamed.symm.trans (hu.find? hf hn)

namespace Fields

/-- What a node has under any name of a field is what the field finds. -/
def FindsHeld (fields : List Field) (n : Node) (look : String → Option Node) : Prop :=
  ∀ name older, name :: older ∈ fields.map Field.names →
    ∀ x, n.Holds (name :: older) x → look name = some x

/-- Fields find what is held by a node whose entries, if it has any, have been placed. -/
theorem findsHeld_of_place (hu : Unambiguous fields) {n : Node} {entries : List (Node × Node)}
    (hn : ∀ held, n.untag = .mapping held → held = entries)
    (h : place .yaml fields keep entries = .ok p) : FindsHeld fields n (p.known.lookup ·) := by
  rintro name older hnames x ⟨held, k, key, hheld, hm, hk, hkey⟩
  obtain rfl := hn held hheld
  obtain ⟨f, hf, hnames⟩ := List.mem_map.1 hnames
  obtain ⟨rfl, rfl⟩ := List.cons.inj hnames
  exact lookup_of_mem_entries h hm (keyText_of_text? hk) (hu.find? hf hkey)

/-- A field that is found is read of its node. -/
theorem read_of_build_single {spellings : List String} {mayTrail : Bool} {absent : Reading α}
    {look : String → Option Node} {n : Node} {a : α}
    (h : (single name spellings read mayTrail absent).build d look = .ok a)
    (hn : look name = some n) : read d n = .ok a := by
  simp only [single, hn] at h
  exact h

/-- A record that passes over its other entries is built of what its fields find. -/
theorem exists_look_of_closed {r : Fields α} {label : String} (hu : Unambiguous r.fields)
    {n : Node} {a : α} (h : r.closed label .yaml n = .ok a) :
    ∃ look, r.build .yaml look = .ok a ∧ FindsHeld r.fields n look := by
  have of_entries {entries : List (Node × Node)}
      (hn : ∀ held, n.untag = .mapping held → held = entries)
      (h : r.ofEntries .yaml entries = .ok a) :
      ∃ look, r.build .yaml look = .ok a ∧ FindsHeld r.fields n look := by
    obtain ⟨p, hp, h⟩ := ok_of_bind h
    exact ⟨_, h, findsHeld_of_place hu hn hp⟩
  rw [closed] at h
  split at h
  · rename_i hn
    exact of_entries (fun _ hm => Node.mapping.inj (hm.symm.trans hn)) h
  · rename_i hn
    exact of_entries (fun _ hm => by cases hm.symm.trans hn) h
  · cases h
  · cases h

/-- A record that keeps its other entries is built of what its fields find, and none of their names
    is kept. -/
theorem exists_look_of_keeping {r : Fields (List (String × Json) → α)} {label : String}
    (hu : Unambiguous r.fields) {n : Node} {a : α} (h : r.keeping label .yaml n = .ok a) :
    ∃ look record extra, r.build .yaml look = .ok record ∧ a = record extra ∧
      FindsHeld r.fields n look ∧
      ∀ name ∈ r.fields.flatMap Field.names, extra.lookup name = none := by
  have of_entries {entries : List (Node × Node)}
      (hn : ∀ held, n.untag = .mapping held → held = entries)
      (h : r.ofEntriesWithExtra .yaml entries = .ok a) :
      ∃ look record extra, r.build .yaml look = .ok record ∧ a = record extra ∧
        FindsHeld r.fields n look ∧
        ∀ name ∈ r.fields.flatMap Field.names, extra.lookup name = none := by
    obtain ⟨p, hp, h⟩ := ok_of_bind h
    obtain ⟨record, built, h⟩ := ok_of_bind h
    obtain ⟨ms, hms, made⟩ := ok_of_bind h
    exact ⟨_, record, _, built, (Except.ok.inj made).symm, findsHeld_of_place hu hn hp,
      fun _ hname => lookup_extra_of_place hu hp hms hname⟩
  rw [keeping] at h
  split at h
  · rename_i hn
    exact of_entries (fun _ hm => Node.mapping.inj (hm.symm.trans hn)) h
  · rename_i hn
    exact of_entries (fun _ hm => by cases hm.symm.trans hn) h
  · cases h

end Fields

end InferenceGateway.Document
