import InferenceGateway.Proofs.Reading

/-!
# Reading objects

What is read of an object, when it is known what its members are. A record takes its fields from
the members that have their names and passes over the others, wherever they stand; a tagged value
finds its tag wherever that stands. So it is enough to know, for each name that matters, that one
member has it, or none.

* `Tags.fromEntries_unknown_iff`: the tag of an object, and what is held back.
* `Fields.closed_object`: a record is read of an object in which it finds its fields.
* `Fields.Finds`: how a record finds its fields, with a lemma for each way to put fields together.
-/

namespace InferenceGateway.Document

variable {α β τ : Type} {d : Dialect} {members : List (String × Node)} {name : String} {n : Node}

/-! ## Members -/

theorem lookup_cons_if (m : String × α) (ms : List (String × α)) (name : String) :
    (m :: ms).lookup name = if name = m.1 then some m.2 else ms.lookup name := by
  obtain ⟨n, v⟩ := m
  rw [List.lookup_cons]
  by_cases h : name = n
  · simp [h]
  · rw [beq_eq_false_iff_ne.2 h, if_neg h]

/-- Exactly one member has a name. -/
def HasOnce (members : List (String × Node)) (name : String) (value : Node) : Prop :=
  members.filter (·.1 = name) = [(name, value)]

/-- No member has a name. -/
def HasNone (members : List (String × Node)) (name : String) : Prop :=
  members.filter (·.1 = name) = []

/-- Each member can be held as data. -/
def Readable (members : List (String × Node)) : Prop := ∀ m ∈ members, m.2.check = .ok ()

/-- What members say of a text: it stands under its name, or they leave it out, or say that there
    is none. -/
inductive SaysText (members : List (String × Node)) (name : String) : Option String → Prop
  | text {s : String} : HasOnce members name (.text s) → SaysText members name (some s)
  | null : HasOnce members name .null → SaysText members name none
  | absent : HasNone members name → SaysText members name none

/-- The entries of an object with some members. -/
def entriesOf (members : List (String × Node)) : List (Node × Node) :=
  members.map fun m => (.text m.1, m.2)

theorem entriesOf_cons (m : String × Node) (members : List (String × Node)) :
    entriesOf (m :: members) = (.text m.1, m.2) :: entriesOf members := rfl

namespace Node

/-- The object with some members. -/
def object (members : List (String × Node)) : Node := .mapping (entriesOf members)

/-- The members of an object that can be held as data can be. -/
theorem checkEntries_entriesOf : checkEntries (entriesOf members) = .ok () ↔
    Readable members := by
  induction members with
  | nil => exact ⟨fun _ => nofun, fun _ => rfl⟩
  | cons m members ih =>
    rw [Readable, List.forall_mem_cons]
    refine Iff.trans ?_ (and_congr_right fun _ => ih)
    show (do m.2.check; checkEntries (entriesOf members)) = _ ↔ _
    cases m.2.check with
    | error e => exact ⟨nofun, nofun⟩
    | ok => exact (and_iff_right rfl).symm

theorem readable_of_check (h : (object members).check = .ok ()) : Readable members := by
  rw [object, check] at h
  exact checkEntries_entriesOf.1 h

/-- The members of a well-formed object are well formed. -/
theorem isWellFormed_of_mem (h : (object members).isWellFormed) :
    ∀ m ∈ members, m.2.isWellFormed := fun m hm =>
  (haveWellFormed_iff.1 h (.text m.1, m.2) (List.mem_map_of_mem hm)).2

/-- The items of a sequence that can be held as data can be. -/
theorem check_of_mem {items : List Node} (h : checkItems items = .ok ()) :
    ∀ n ∈ items, n.check = .ok () := by
  induction items with
  | nil => nofun
  | cons n items ih =>
    obtain ⟨_, hn, h⟩ := ok_of_bind h
    exact List.forall_mem_cons.2 ⟨hn, ih h⟩

mutual

/-- What can be held as data is well formed. -/
theorem isWellFormed_of_check : (n : Node) → n.check = .ok () → n.isWellFormed = true
  | .null, _ | .bool _, _ | .number _, _ | .text _, _ => rfl
  | .sequence items, h => areWellFormed_of_checkItems items h
  | .mapping entries, h => haveWellFormed_of_checkEntries entries h

theorem areWellFormed_of_checkItems :
    (items : List Node) → checkItems items = .ok () → areWellFormed items = true
  | [], _ => rfl
  | n :: rest, h => by
    obtain ⟨_, hn, h⟩ := ok_of_bind h
    rw [areWellFormed, isWellFormed_of_check n hn, areWellFormed_of_checkItems rest h]
    rfl

theorem haveWellFormed_of_checkEntries :
    (entries : List (Node × Node)) → checkEntries entries = .ok () → haveWellFormed entries = true
  | [], _ => rfl
  | (k, n) :: rest, h => by
    obtain ⟨_, hk, h⟩ := ok_of_bind h
    obtain ⟨_, hn, h⟩ := ok_of_bind h
    rw [haveWellFormed, isWellFormed_of_check k hk, isWellFormed_of_check n hn,
      haveWellFormed_of_checkEntries rest h]
    rfl

end

end Node

theorem HasOnce.mem_iff (h : HasOnce members name n) {m : String × Node} :
    m ∈ members ∧ m.1 = name ↔ m = (name, n) := by
  rw [← List.mem_singleton (b := (name, n)), ← h, List.mem_filter, decide_eq_true_iff]

theorem HasOnce.mem (h : HasOnce members name n) : (name, n) ∈ members := (h.mem_iff.2 rfl).1

/-- The one member of a name is found by its name. -/
theorem HasOnce.lookup (h : HasOnce members name n) : members.lookup name = some n := by
  rw [HasOnce] at h
  induction members with
  | nil => cases h
  | cons m members ih =>
    rw [List.filter_cons] at h
    rw [lookup_cons_if]
    by_cases hk : name = m.1
    · rw [if_pos (by simpa using hk.symm)] at h
      rw [if_pos hk, (List.cons.inj h).1]
    · rw [if_neg (by simpa using Ne.symm hk)] at h
      rw [if_neg hk]
      exact ih h

theorem HasNone.lookup (h : HasNone members name) : members.lookup name = none := by
  refine List.lookup_eq_none_iff.2 fun m hm => ?_
  have : m.1 ≠ name := by simpa using List.filter_eq_nil_iff.1 h m hm
  exact bne_iff_ne.2 this.symm

/-- Values that can be made of the arguments, one for one, are made. -/
theorem mapM_of_forall₂ {ε : Type} {f : α → Except ε β} {xs : List α} {ys : List β}
    (h : List.Forall₂ (fun x y => f x = .ok y) xs ys) : xs.mapM f = .ok ys := by
  induction h with
  | nil => rfl
  | cons hxy _ ih =>
    rw [List.mapM_cons, hxy, ih]
    rfl

/-! ## Tags -/

namespace Tags

variable {t : Tags τ}

/-- Once the tag is known, no member may have its name, and all of them are held back. -/
theorem fromEntries_known_iff {tag : τ} {rest : List (Node × Node)} {v : Variant τ} :
    t.fromEntries d name (some tag) rest (entriesOf members) = .ok v ↔ HasNone members name ∧
      Readable members ∧ v = ⟨tag, .mapping (rest.reverse ++ entriesOf members)⟩ := by
  induction members generalizing rest with
  | nil =>
    have done : t.fromEntries d name (some tag) rest [] = .ok ⟨tag, .mapping rest.reverse⟩ := rfl
    simp [entriesOf, done, HasNone, Readable, eq_comm]
  | cons m members ih =>
    have entry : t.fromEntries d name (some tag) rest (entriesOf (m :: members)) =
        if m.1 = name then .error (.duplicateField name)
        else m.2.check.bind fun _ =>
          t.fromEntries d name (some tag) ((.text m.1, m.2) :: rest) (entriesOf members) := by
      split <;> rename_i h <;> simp [entriesOf_cons, fromEntries, keyText, Node.untag, h] <;> rfl
    rw [entry, HasNone, Readable, List.forall_mem_cons, List.filter_cons]
    by_cases hm : m.1 = name
    · simp [hm]
    · cases hc : m.2.check with
      | error e => simp [hm, Except.bind]
      | ok =>
        rw [if_neg hm, Except.bind, ih]
        simp [hm, HasNone, Readable, entriesOf_cons]

/-- Before the tag is known, one member must have its name, and the others are held back. -/
theorem fromEntries_unknown_iff {rest : List (Node × Node)} {v : Variant τ} :
    t.fromEntries d name none rest (entriesOf members) = .ok v ↔
      ∃ n, HasOnce members name n ∧ t.read d n = .ok v.tag ∧
        Readable (members.filter (·.1 ≠ name)) ∧
        v.rest = .mapping (rest.reverse ++ entriesOf (members.filter (·.1 ≠ name))) := by
  induction members generalizing rest with
  | nil => exact ⟨nofun, fun ⟨_, h, _⟩ => nomatch h⟩
  | cons m members ih =>
    have entry : t.fromEntries d name none rest (entriesOf (m :: members)) =
        if m.1 = name then (t.read d m.2).bind fun tag =>
          t.fromEntries d name (some tag) rest (entriesOf members)
        else m.2.check.bind fun _ =>
          t.fromEntries d name none ((.text m.1, m.2) :: rest) (entriesOf members) := by
      split <;> rename_i h <;> simp [entriesOf_cons, fromEntries, keyText, Node.untag, h] <;> rfl
    rw [entry]
    by_cases hm : m.1 = name
    · have once {n : Node} : HasOnce (m :: members) name n ↔ m.2 = n ∧ HasNone members name := by
        rw [HasOnce, HasNone, List.filter_cons, if_pos (by simpa using hm), List.cons.injEq,
          Prod.ext_iff, hm, and_iff_right rfl]
      have others (h : HasNone members name) : members.filter (·.1 ≠ name) = members := by
        refine List.filter_eq_self.2 fun m' hm' => ?_
        simpa using List.filter_eq_nil_iff.1 h m' hm'
      simp only [once, List.filter_cons, hm, ne_eq, not_true, decide_false, Bool.false_eq_true,
        if_false, if_true]
      constructor
      · intro h
        obtain ⟨tag, ht, h⟩ := ok_of_bind h
        obtain ⟨hn, hc, rfl⟩ := fromEntries_known_iff.1 h
        refine ⟨m.2, ⟨rfl, hn⟩, ht, ?_⟩
        rw [others hn]
        exact ⟨hc, rfl⟩
      · rintro ⟨n, ⟨rfl, hn⟩, ht, hc, hr⟩
        rw [others hn] at hc hr
        rw [ht]
        exact fromEntries_known_iff.2 ⟨hn, hc, by rw [← hr]⟩
    · have once {n : Node} : HasOnce (m :: members) name n ↔ HasOnce members name n := by
        simp [HasOnce, hm]
      have others : (m :: members).filter (·.1 ≠ name) = m :: members.filter (·.1 ≠ name) := by
        simp [hm]
      simp only [if_neg hm, once, others]
      cases hc : m.2.check with
      | error e => simp [Except.bind, Readable, hc]
      | ok =>
        rw [Except.bind, ih]
        simp [Readable, hc, entriesOf_cons]

end Tags

/-! ## Records -/

/-- The field that a key names, if there is one. -/
theorem find?_isNamed {fields : List Field} (hs : ∀ f ∈ fields, f.spellings = []) (key : String) :
    (key ∉ fields.map Field.name ∧ fields.find? (·.isNamed key) = none) ∨
      ∃ f ∈ fields, f.name = key ∧ fields.find? (·.isNamed key) = some f := by
  rcases hfind : fields.find? (·.isNamed key) with _ | f
  · refine .inl ⟨fun hm => ?_, hfind⟩
    obtain ⟨f, hf, rfl⟩ := List.mem_map.1 hm
    exact absurd (List.find?_eq_none.1 hfind f hf) (by simp [Field.isNamed])
  · have hf := List.mem_of_find?_eq_some hfind
    have named := List.find?_some hfind
    exact .inr ⟨f, hf, by simpa [Field.isNamed, hs f hf] using named, hfind⟩

/-- A member that names no field is passed over. -/
theorem placeEntry_passed {fields : List Field} {p : Placed} {m : String × Node}
    (hf : fields.find? (·.isNamed m.1) = none) (hm : m.2.isWellFormed) :
    placeEntry d fields false p (.text m.1, m.2) = .ok p := by
  simp only [placeEntry, keyText, Node.untag, pure_bind, hf, Bool.false_eq_true, if_false, hm,
    if_true]
  rfl

/-- The first member that names a field is placed. -/
theorem placeEntry_placed {fields : List Field} {p : Placed} {m : String × Node} {f : Field}
    (hf : fields.find? (·.isNamed m.1) = some f) (hn : p.known.lookup f.name = none)
    (hc : f.check d m.2 = .ok ()) : placeEntry d fields false p (.text m.1, m.2) =
      .ok { p with known := (f.name, m.2) :: p.known } := by
  simp only [placeEntry, keyText, Node.untag, pure_bind, hf, hn, Option.isSome_none,
    Bool.false_eq_true, if_false, hc]
  rfl

/-- Members of which at most one has the name of each field are all placed, or passed over. -/
theorem place_object {fields : List Field} (hs : ∀ f ∈ fields, f.spellings = [])
    (hw : ∀ m ∈ members, m.2.isWellFormed)
    (once : ∀ f ∈ fields, (members.filter (·.1 = f.name)).length ≤ 1)
    (checked : ∀ f ∈ fields, ∀ m ∈ members, m.1 = f.name → f.check d m.2 = .ok ()) :
    ∃ known, place d fields false (entriesOf members) = .ok ⟨known, []⟩ ∧
      ∀ f ∈ fields, known.lookup f.name = members.lookup f.name := by
  -- What is placed already must not come again.
  have all (known : List (String × Node))
      (fresh : ∀ f ∈ fields, (known.lookup f.name).isSome → members.filter (·.1 = f.name) = []) :
      ∃ known', (entriesOf members).foldlM (placeEntry d fields false) ⟨known, []⟩ =
          .ok ⟨known', []⟩ ∧
        ∀ f ∈ fields, known'.lookup f.name = (known.lookup f.name).or (members.lookup f.name) := by
    induction members generalizing known with
    | nil => exact ⟨known, rfl, fun f _ => by simp⟩
    | cons m members ih =>
      rw [List.forall_mem_cons] at hw
      have once' : ∀ f ∈ fields, (members.filter (·.1 = f.name)).length ≤ 1 := fun f hf =>
        Nat.le_trans ((List.sublist_cons_self _ _).filter _).length_le (once f hf)
      have checked' : ∀ f ∈ fields, ∀ m ∈ members, m.1 = f.name → f.check d m.2 = .ok () :=
        fun f hf m hm => checked f hf m (List.mem_cons_of_mem _ hm)
      show ∃ known', ((Node.text m.1, m.2) :: entriesOf members).foldlM _ _ = _ ∧ _
      rw [List.foldlM_cons]
      rcases find?_isNamed hs m.1 with ⟨unnamed, hfind⟩ | ⟨f, hf, hname, hfind⟩
      · have other : ∀ f ∈ fields, f.name ≠ m.1 := fun f hf he =>
          unnamed (he ▸ List.mem_map_of_mem hf)
        obtain ⟨known', hk, hl⟩ := ih hw.2 once' checked' known fun f hf hsome => by
          have := fresh f hf hsome
          rwa [List.filter_cons, if_neg (by simpa using (other f hf).symm)] at this
        refine ⟨known', by rw [placeEntry_passed hfind hw.1]; exact hk, fun f hf => ?_⟩
        rw [hl f hf, lookup_cons_if, if_neg (other f hf)]
      · have new : known.lookup f.name = none := by
          by_contra hne
          have := fresh f hf (Option.isSome_iff_ne_none.2 hne)
          simp [hname] at this
        have rest : members.filter (·.1 = f.name) = [] := by
          have := once f hf
          rw [List.filter_cons, if_pos (by simpa using hname.symm), List.length_cons] at this
          exact List.length_eq_zero_iff.1 (by omega)
        have placed := placeEntry_placed (p := ⟨known, []⟩) hfind new
          (checked f hf _ List.mem_cons_self hname.symm)
        obtain ⟨known', hk, hl⟩ := ih hw.2 once' checked' ((f.name, m.2) :: known)
          fun g hg hsome => by
            by_cases hn : g.name = f.name
            · rw [hn]
              exact rest
            · rw [lookup_cons_if, if_neg hn] at hsome
              have := fresh g hg hsome
              rwa [List.filter_cons, if_neg (by simpa [← hname] using Ne.symm hn)] at this
        refine ⟨known', by rw [placed]; exact hk, fun g hg => ?_⟩
        rw [hl g hg, lookup_cons_if, lookup_cons_if, ← hname]
        by_cases hn : g.name = f.name
        · rw [if_pos hn, if_pos hn, hn, new]
          rfl
        · rw [if_neg hn, if_neg hn]
  obtain ⟨known, hk, hl⟩ := all [] fun f _ h => by simp at h
  exact ⟨known, hk, fun f hf => by simpa using hl f hf⟩

namespace Fields

/-- A record finds its fields among the members of an object: each at most once, and of a form in
    which it can be read. -/
structure Finds (r : Fields α) (d : Dialect) (members : List (String × Node)) (a : α) : Prop where
  built : ∀ look : String → Option Node,
    (∀ f ∈ r.fields, look f.name = members.lookup f.name) → r.build d look = .ok a
  once : ∀ f ∈ r.fields, (members.filter (·.1 = f.name)).length ≤ 1
  checked : ∀ f ∈ r.fields, ∀ m ∈ members, m.1 = f.name → f.check d m.2 = .ok ()
  spellings : ∀ f ∈ r.fields, f.spellings = []

/-- A record is read of an object in which it finds its fields, and passes over the others, which
    must be well formed. -/
theorem closed_of_isWellFormed {r : Fields α} {label : String} {a : α} (h : r.Finds d members a)
    (hw : ∀ m ∈ members, m.2.isWellFormed) : r.closed label d (.object members) = .ok a := by
  obtain ⟨known, hk, hl⟩ := place_object h.spellings hw h.once h.checked
  show r.ofEntries d (entriesOf members) = .ok a
  rw [ofEntries, hk]
  exact h.built _ hl

/-- So it is if the members can be held as data. -/
theorem closed_object {r : Fields α} {label : String} {a : α} (h : r.Finds d members a)
    (hc : Readable members) : r.closed label d (.object members) = .ok a :=
  closed_of_isWellFormed h fun m hm => m.2.isWellFormed_of_check (hc m hm)

namespace Finds

variable {read : Reader α}

theorem map {r : Fields α} {a : α} (h : r.Finds d members a) (f : α → β) :
    (f <$> r).Finds d members (f a) where
  built look hl := by
    show f <$> r.build d look = _
    rw [h.built look hl]
    rfl
  once := h.once
  checked := h.checked
  spellings := h.spellings

theorem seq {r : Fields (α → β)} {x : Fields α} {g : α → β} {a : α} (h : r.Finds d members g)
    (hx : x.Finds d members a) : (r <*> x).Finds d members (g a) where
  built look hl := by
    obtain ⟨hr, hlx⟩ := List.forall_mem_append.1 hl
    show (do let g ← r.build d look; let a ← x.build d look; return g a) = _
    rw [h.built look hr, hx.built look hlx]
    rfl
  once := List.forall_mem_append.2 ⟨h.once, hx.once⟩
  checked := List.forall_mem_append.2 ⟨h.checked, hx.checked⟩
  spellings := List.forall_mem_append.2 ⟨h.spellings, hx.spellings⟩

/-- A single field that one member has the name of. -/
theorem single {a : α} (hf : HasOnce members name n) (h : read d n = .ok a)
    (mayTrail : Bool) (absent : Reading α) :
    (Fields.single name [] read mayTrail absent).Finds d members a where
  built look hl := by
    have looked := (hl _ (List.mem_singleton_self _)).trans hf.lookup
    simp only [Fields.single, looked]
    exact h
  once := List.forall_mem_singleton.2 (Nat.le_of_eq (congrArg List.length hf))
  checked := by
    refine List.forall_mem_singleton.2 fun m hm he => ?_
    rw [hf.mem_iff.1 ⟨hm, he⟩]
    show (fun _ => ()) <$> read d n = _
    rw [h]
    rfl
  spellings := List.forall_mem_singleton.2 rfl

/-- A single field that no member has the name of. -/
theorem left_out {a : α} (hf : HasNone members name) (mayTrail : Bool)
    {absent : Reading α} (h : absent = .ok a) :
    (Fields.single name [] read mayTrail absent).Finds d members a where
  built look hl := by
    have looked := (hl _ (List.mem_singleton_self _)).trans hf.lookup
    simp only [Fields.single, looked]
    exact h
  once := List.forall_mem_singleton.2 (by rw [show members.filter _ = [] from hf]; decide)
  checked := by
    refine List.forall_mem_singleton.2 fun m hm he => ?_
    exact absurd he (by simpa using List.filter_eq_nil_iff.1 hf m hm)
  spellings := List.forall_mem_singleton.2 rfl

theorem required {a : α} (hf : HasOnce members name n) (h : read d n = .ok a) :
    (Fields.required name read).Finds d members a := single hf h _ _

theorem defaulting {a absent : α} (hf : HasOnce members name n) (h : read d n = .ok a) :
    (Fields.defaulting name read absent).Finds d members a := single hf h _ _

/-- What members say of a text is read of them. -/
theorem optional_text {x : Option String} (h : SaysText members name x) :
    (Fields.optional name .text).Finds d members x := by
  cases h with
  | text hf => exact single hf rfl _ _
  | null hf => exact single hf rfl _ _
  | absent hf => exact left_out hf _ rfl

end Finds

end Fields

end InferenceGateway.Document
