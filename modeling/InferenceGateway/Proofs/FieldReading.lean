import InferenceGateway.Proofs.KeptMembers

/-!
# Fields by name and by place

What a record of a JSON text is read of, and nothing else. In an object the fields have names, and
a member with another name makes no difference; in an array they have places, and there are no
other items. Either way a record is built of the nodes of its fields alone.

* `HasFields`: the nodes that a node has for some names.
* `Fields.IsWhole`: the records none of whose fields can be left out of an array, with a lemma for
  each way to put fields together.
* `Fields.closed_eq_ok_iff`: what a record is read of.
* `Reader.text_eq_ok_iff`, `Reader.natural_eq_ok_iff`, `Reader.list_eq_ok_iff`: what a value is
  read of.
-/

namespace InferenceGateway.Document

variable {α β : Type} {d : Dialect} {n : Node}

/-! ## Values -/

namespace Reader

theorem text_eq_ok_iff (hn : n.IsJson) {s : String} : text d n = .ok s ↔ n = .text s := by
  cases hn with
  | text t => exact ⟨fun h => congrArg _ (Except.ok.inj h), fun h => congrArg _ (Node.text.inj h)⟩
  | _ => exact ⟨nofun, nofun⟩

theorem natural_eq_ok_iff (hn : n.IsJson) {bits k : Nat} {name : String} :
    natural bits name d n = .ok k ↔ n = .number (.integer k) ∧ k < Nat.pow 2 bits := by
  constructor
  · exact fun h => ⟨hn.untag ▸ untag_of_natural h, lt_of_natural h⟩
  · rintro ⟨rfl, hk⟩
    exact natural_of_lt hk name d

theorem list_eq_ok_iff (hd : d ≠ .yaml) (hn : n.IsJson) {r : Reader α} {as : List α} :
    list r d n = .ok as ↔
      ∃ items, n = .sequence items ∧ List.Forall₂ (fun item a => r d item = .ok a) items as := by
  constructor
  · intro h
    rw [list, hn.untag] at h
    cases hn with
    | @sequence items => exact ⟨items, rfl, forall₂_of_mapM h⟩
    | null =>
      simp only [if_neg hd] at h
      cases h
    | _ => cases h
  · rintro ⟨items, rfl, h⟩
    exact mapM_of_forall₂ h

end Reader

/-! ## Fields -/

theorem FoundOnce.lookup {members : List (String × Node)} {name : String} {found : Option Node}
    (h : FoundOnce members name found) : members.lookup name = found := by
  cases h with
  | member once => exact once.lookup
  | nothing none => exact none.lookup

theorem FoundOnce.length_le {members : List (String × Node)} {name : String} {found : Option Node}
    (h : FoundOnce members name found) : (members.filter (·.1 = name)).length ≤ 1 := by
  cases h with
  | member once => exact Nat.le_of_eq (congrArg List.length once)
  | nothing none =>
    rw [show members.filter _ = [] from none]
    exact Nat.zero_le 1

/-- What a name finds is the member that has it. -/
theorem FoundOnce.eq_some {members : List (String × Node)} {name : String} {found : Option Node}
    (h : FoundOnce members name found) {m : String × Node} (hm : m ∈ members) (he : m.1 = name) :
    found = some m.2 := by
  cases h with
  | member once => rw [once.mem_iff.1 ⟨hm, he⟩]
  | nothing none => exact absurd he (by simpa using List.filter_eq_nil_iff.1 none m hm)

/-- The nodes that a node has for some names: in an object each name finds the only member that has
    it, if there is one, and in an array each name has its place. -/
inductive HasFields (names : List String) : Node → (String → Option Node) → Prop
  | members {members : List (String × Node)} {look : String → Option Node} :
    (∀ name ∈ names, FoundOnce members name (look name)) → HasFields names (.object members) look
  | items {items : List Node} {look : String → Option Node} :
    List.Forall₂ (fun name n => look name = some n) names items →
      HasFields names (.sequence items) look

namespace HasFields

variable {names : List String} {look : String → Option Node} {name : String} {value : Node}

/-- What holds of all parts of a node holds of those that it has for names. -/
theorem forall_of {P : Node → Prop} (h : HasFields names n look)
    (members : ∀ ms, n = .object ms → ∀ m ∈ ms, P m.2)
    (items : ∀ ns, n = .sequence ns → ∀ n ∈ ns, P n) (hm : name ∈ names)
    (hv : look name = some value) : P value := by
  cases h with
  | members found =>
    have := found name hm
    rw [hv] at this
    obtain ⟨once⟩ := this
    exact members _ rfl _ once.mem
  | @items ns _ placed =>
    refine items _ rfl _ ?_
    clear members items
    induction placed with
    | nil => cases hm
    | cons hl _ ih =>
      rcases List.mem_cons.1 hm with rfl | hm
      · exact Option.some.inj (hv.symm.trans hl) ▸ List.mem_cons_self
      · exact List.mem_cons_of_mem _ (ih hm)

theorem isJson (h : HasFields names n look) (hn : n.IsJson) (hm : name ∈ names)
    (hv : look name = some value) : value.IsJson := by
  refine h.forall_of ?_ ?_ hm hv
  · rintro ms rfl m hm
    exact hn.of_mem hm
  · rintro ns rfl
    cases hn with
    | sequence items => exact items

theorem isWellFormed (h : HasFields names n look) (hw : n.isWellFormed) (hm : name ∈ names)
    (hv : look name = some value) : value.isWellFormed := by
  refine h.forall_of (P := fun n => n.isWellFormed) ?_ ?_ hm hv
  · rintro ms rfl
    exact Node.isWellFormed_of_mem hw
  · rintro ns rfl
    exact Node.areWellFormed_iff.1 hw

end HasFields

namespace Fields

variable {r : Fields α} {look look' : String → Option Node}

/-- A record none of whose fields can be left out of an array, and that is built of the nodes of
    its fields, each of which it has checked. -/
structure IsWhole (r : Fields α) (d : Dialect) : Prop where
  spellings : ∀ f ∈ r.fields, f.spellings = []
  placed : ∀ f ∈ r.fields, f.mayTrail = false
  built : ∀ {look look' : String → Option Node}, (∀ f ∈ r.fields, look f.name = look' f.name) →
    r.build d look = r.build d look'
  checked : ∀ {look : String → Option Node} {a : α}, r.build d look = .ok a →
    ∀ f ∈ r.fields, ∀ n, look f.name = some n → f.check d n = .ok ()

theorem build_map (f : α → β) {a : α} (h : r.build d look = .ok a) :
    (f <$> r).build d look = .ok (f a) :=
  map_eq_ok_iff.2 ⟨a, h, rfl⟩

theorem build_seq {f : Fields (α → β)} {g : α → β} {a : α} (hf : f.build d look = .ok g)
    (h : r.build d look = .ok a) : (f <*> r).build d look = .ok (g a) := by
  show (do let g ← f.build d look; let a ← r.build d look; return g a) = _
  rw [hf, h]
  rfl

namespace IsWhole

theorem map (h : r.IsWhole d) (f : α → β) : (f <$> r).IsWhole d where
  spellings := h.spellings
  placed := h.placed
  built hl := congrArg (f <$> ·) (h.built hl)
  checked hb := by
    obtain ⟨a, ha, -⟩ := of_build_map hb
    exact h.checked ha

theorem seq {f : Fields (α → β)} (hf : f.IsWhole d) (h : r.IsWhole d) : (f <*> r).IsWhole d where
  spellings := List.forall_mem_append.2 ⟨hf.spellings, h.spellings⟩
  placed := List.forall_mem_append.2 ⟨hf.placed, h.placed⟩
  built {look look'} hl := by
    obtain ⟨hlf, hl⟩ := List.forall_mem_append.1 hl
    show (do let g ← f.build d look; let a ← r.build d look; return g a) =
      (do let g ← f.build d look'; let a ← r.build d look'; return g a)
    rw [hf.built hlf, h.built hl]
  checked hb := by
    obtain ⟨g, a, hg, ha, -⟩ := of_build_seq hb
    exact List.forall_mem_append.2 ⟨hf.checked hg, h.checked ha⟩

theorem single (name : String) (read : Reader α) (absent : Reading α) :
    (Fields.single name [] read false absent).IsWhole d where
  spellings := List.forall_mem_singleton.2 rfl
  placed := List.forall_mem_singleton.2 rfl
  built hl := by
    have looked := hl _ (List.mem_singleton_self _)
    simp only [Fields.single] at looked ⊢
    rw [looked]
  checked {look a} hb := by
    refine List.forall_mem_singleton.2 fun n hn => ?_
    have hb : read d n = .ok a := by simpa only [Fields.single, hn] using hb
    show (fun _ => ()) <$> read d n = _
    rw [hb]
    rfl

theorem required (name : String) (read : Reader α) : (Fields.required name read).IsWhole d :=
  single _ _ _

theorem optional (name : String) (read : Reader α) : (Fields.optional name read).IsWhole d :=
  single _ _ _

end IsWhole

/-- A field that must be there is built of its node. -/
theorem required_iff {name : String} {read : Reader α} {a : α} :
    (required name read).build d look = .ok a ↔ ∃ n, look name = some n ∧ read d n = .ok a := by
  refine ⟨node_of_requiredUnder, ?_⟩
  rintro ⟨n, hn, ha⟩
  simpa only [required, single, hn] using ha

/-! ## Arrays -/

/-- Items in the places of fields that cannot be left out. -/
theorem arrange_eq_ok_iff {label : String} {all : List Field} {items' : List Node} {index : Nat}
    {fields : List Field} (hf : ∀ f ∈ fields, f.mayTrail = false) {items : List Node}
    {known : List (String × Node)} :
    arrange d label all items' index fields items = .ok known ↔
      List.Forall₂ (fun f n => f.check d n = .ok ()) fields items ∧
        known = (fields.map Field.name).zip items := by
  induction fields generalizing index items known with
  | nil =>
    cases items with
    | nil => simp [arrange, pure, Except.pure, eq_comm]
    | cons n items =>
      rw [arrange]
      split <;> simp
  | cons f fields ih =>
    rw [List.forall_mem_cons] at hf
    cases items with
    | nil => simp [arrange, hf.1]
    | cons n items =>
      rw [arrange, List.forall₂_cons]
      constructor
      · intro h
        obtain ⟨_, hc, h⟩ := ok_of_bind h
        obtain ⟨rest, hr, h⟩ := ok_of_bind h
        obtain ⟨hrest, rfl⟩ := (ih hf.2).1 hr
        exact ⟨⟨hc, hrest⟩, (Except.ok.inj h).symm⟩
      · rintro ⟨⟨hc, hrest⟩, rfl⟩
        rw [hc, (ih hf.2).2 ⟨hrest, rfl⟩]
        rfl

/-- Each of different names is found beside its item. -/
theorem forall₂_lookup_zip {names : List String} {items : List Node} (hn : names.Nodup)
    (hl : names.length = items.length) :
    List.Forall₂ (fun name n => (names.zip items).lookup name = some n) names items := by
  induction names generalizing items with
  | nil =>
    cases items with
    | nil => exact .nil
    | cons => cases hl
  | cons name names ih =>
    cases items with
    | nil => cases hl
    | cons n items =>
      rw [List.nodup_cons] at hn
      refine .cons List.lookup_cons_self ?_
      have rest := (List.forall₂_and_left names items).2
        ⟨fun other ho => ho, ih hn.2 (Nat.succ.inj hl)⟩
      refine rest.imp fun other n h => ?_
      have different : other ≠ name := fun he => hn.1 (he ▸ h.1)
      rw [List.zip_cons_cons, lookup_cons_if, if_neg different]
      exact h.2

/-- What names find at the places of items, they find there only. -/
theorem eq_of_forall₂ {names : List String} {items : List Node}
    (h : List.Forall₂ (fun name n => look name = some n) names items)
    (h' : List.Forall₂ (fun name n => look' name = some n) names items) :
    ∀ name ∈ names, look name = look' name := by
  induction h with
  | nil => nofun
  | cons hl _ ih =>
    cases h' with
    | cons hl' h' => exact List.forall_mem_cons.2 ⟨hl.trans hl'.symm, ih h'⟩

/-- An array of a record has the items of its fields. -/
theorem ofItems_eq_ok_iff (h : r.IsWhole d) (hn : (r.fields.map Field.name).Nodup) {label : String}
    {items : List Node} {a : α} : r.ofItems d label items = .ok a ↔
      ∃ look, List.Forall₂ (fun name n => look name = some n) (r.fields.map Field.name) items ∧
        r.build d look = .ok a := by
  constructor
  · intro ho
    obtain ⟨known, hk, hb⟩ := ok_of_bind ho
    obtain ⟨checked, rfl⟩ := (arrange_eq_ok_iff h.placed).1 hk
    refine ⟨_, forall₂_lookup_zip hn ?_, hb⟩
    rw [List.length_map]
    exact checked.length_eq
  · rintro ⟨look, hl, hb⟩
    have found := forall₂_lookup_zip hn hl.length_eq
    have checked : List.Forall₂ (fun f n => f.check d n = .ok ()) r.fields items := by
      have each := (List.forall₂_and_left r.fields items).2
        ⟨fun f hf => hf, List.forall₂_map_left_iff.1 hl⟩
      exact each.imp fun f n hf => h.checked hb f hf.1 n hf.2
    rw [ofItems, (arrange_eq_ok_iff h.placed).2 ⟨checked, rfl⟩]
    refine (h.built fun f hf => ?_).trans hb
    exact eq_of_forall₂ found hl f.name (List.mem_map_of_mem hf)

/-- A record of one field is read of an array of it alone. -/
theorem ofItems_required_iff {name label : String} {read : Reader α} {items : List Node} {a : α} :
    (required name read).ofItems d label items = .ok a ↔
      ∃ n, items = [n] ∧ read d n = .ok a := by
  rw [ofItems_eq_ok_iff (.required name read) (List.pairwise_singleton _ name)]
  constructor
  · rintro ⟨look, placed, hb⟩
    obtain _ | ⟨hl, ⟨⟩⟩ := placed
    obtain ⟨n, hn, ha⟩ := required_iff.1 hb
    obtain rfl := Option.some.inj (hl.symm.trans hn)
    exact ⟨_, rfl, ha⟩
  · rintro ⟨n, rfl, ha⟩
    exact ⟨fun _ => some n, .cons rfl .nil, required_iff.2 ⟨n, rfl, ha⟩⟩

/-! ## Records -/

/-- A record finds its fields among members that have the name of each once at most. -/
theorem IsWhole.finds (h : r.IsWhole d) {members : List (String × Node)} {a : α}
    (found : ∀ name ∈ r.fields.map Field.name, FoundOnce members name (look name))
    (hb : r.build d look = .ok a) : r.Finds d members a := by
  rw [List.forall_mem_map] at found
  refine ⟨fun look' hl => ?_, fun f hf => ?_, fun f hf m hm he => ?_, h.spellings⟩
  · refine (h.built fun f hf => ?_).trans hb
    exact (hl f hf).trans (found f hf).lookup
  · exact (found f hf).length_le
  · exact h.checked hb f hf m.2 ((found f hf).eq_some hm he)

/-- What a record is read of, if its names are different: a node that has fields of which it is
    built. -/
theorem closed_eq_ok_iff (h : r.IsWhole d) (hnames : (r.fields.map Field.name).Nodup)
    (hd : d ≠ .yaml) (hn : n.IsJson) (hw : n.isWellFormed) {label : String} {a : α} :
    r.closed label d n = .ok a ↔
      ∃ look, HasFields (r.fields.map Field.name) n look ∧ r.build d look = .ok a := by
  constructor
  · intro hc
    rcases of_closed hd h.spellings hn hc with ⟨members, look, rfl, found, hb⟩ | ⟨items, rfl, ho⟩
    · exact ⟨look, .members found, hb⟩
    · obtain ⟨look, placed, hb⟩ := (ofItems_eq_ok_iff h hnames).1 ho
      exact ⟨look, .items placed, hb⟩
  · rintro ⟨look, has, hb⟩
    cases has with
    | members found =>
      exact closed_of_isWellFormed (h.finds found hb) (Node.isWellFormed_of_mem hw)
    | items placed =>
      simp only [closed, Node.untag, if_neg hd]
      exact (ofItems_eq_ok_iff h hnames).2 ⟨look, placed, hb⟩

end Fields

end InferenceGateway.Document
