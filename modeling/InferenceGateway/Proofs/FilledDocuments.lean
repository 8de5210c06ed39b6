import InferenceGateway.Config.Load
import InferenceGateway.Proofs.Substitution
import Mathlib.Data.List.Forall2

/-!
# Filled documents

What becomes of a document when its placeholders are replaced. A document is parsed first and
filled then, so no value of a variable is ever parsed: texts stay texts, whatever the values are,
and all else stays as it is. If a variable is not set, the first one in the order of the document is
told, and there is no document.

* `valueTexts`: the texts that are filled, in the order of the document.
* `Filled`: a document and what it is after it has been filled.
* `Outcome`: what can become of texts with placeholders. It is put together of the outcomes of their
  parts (`Outcome.seq`), and so are the outcomes of documents (`outcome_resolve`).
* `resolve_fills`: which documents are filled, what they become, and what is told of the others.
-/

namespace InferenceGateway.Placeholder

open Document

/-! ## Variables of a document -/

mutual

/-- The texts of a document that stand in the place of values, in order. The keys of mappings do
    not. -/
def valueTexts : Node → List String
  | .text s => [s]
  | .sequence items => itemTexts items
  | .mapping entries => entryTexts entries
  | .tagged _ n => valueTexts n
  | _ => []

/-- `valueTexts` for items in order. -/
def itemTexts : List Node → List String
  | [] => []
  | n :: rest => valueTexts n ++ itemTexts rest

/-- `valueTexts` for the values of entries in order. -/
def entryTexts : List (Node × Node) → List String
  | [] => []
  | (_, n) :: rest => valueTexts n ++ entryTexts rest

end

/-- The variables that texts name, in order. -/
def variablesOf (texts : List String) : List String :=
  texts.flatMap fun s => (names s.toList).map String.ofList

theorem variablesOf_append (texts more : List String) :
    variablesOf (texts ++ more) = variablesOf texts ++ variablesOf more := List.flatMap_append

theorem variablesOf_singleton (s : String) : variablesOf [s] = (names s.toList).map String.ofList :=
  List.flatMap_singleton _ _

variable {env : Environment} {texts more : List String} {name : String}

/-- The variables that texts name are all set. -/
def AreSet (env : Environment) (texts : List String) : Prop :=
  ∀ v ∈ variablesOf texts, (env v).isSome

/-- The first of the variables that texts name which is not set. -/
def FirstUnset (env : Environment) (texts : List String) (name : String) : Prop :=
  ∃ before after, variablesOf texts = before ++ name :: after ∧ (∀ v ∈ before, (env v).isSome) ∧
    env name = none

theorem areSet_nil : AreSet env [] := nofun

theorem AreSet.append (h : AreSet env texts) (h' : AreSet env more) :
    AreSet env (texts ++ more) := by
  rw [AreSet, variablesOf_append]
  exact List.forall_mem_append.2 ⟨h, h'⟩

theorem FirstUnset.append (h : FirstUnset env texts name) (more : List String) :
    FirstUnset env (texts ++ more) name := by
  obtain ⟨before, after, ht, hb, hn⟩ := h
  exact ⟨before, after ++ variablesOf more, by rw [variablesOf_append, ht]; simp, hb, hn⟩

theorem FirstUnset.prepend (h : FirstUnset env more name) (hs : AreSet env texts) :
    FirstUnset env (texts ++ more) name := by
  obtain ⟨before, after, ht, hb, hn⟩ := h
  exact ⟨variablesOf texts ++ before, after, by rw [variablesOf_append, ht, List.append_assoc],
    List.forall_mem_append.2 ⟨hs, hb⟩, hn⟩

theorem FirstUnset.not_areSet (h : FirstUnset env texts name) : ¬AreSet env texts := by
  obtain ⟨before, after, ht, -, hn⟩ := h
  intro hs
  have := hs name (by simp [ht])
  rw [hn] at this
  cases this

/-- A variable is the first one that is not set exactly if a search for one ends there. -/
theorem firstUnset_iff :
    FirstUnset env texts name ↔
      (variablesOf texts).find? (fun v => (env v).isNone) = some name := by
  rw [List.find?_eq_some_iff_append]
  constructor
  · rintro ⟨before, after, ht, hb, hn⟩
    exact ⟨by simp [hn], before, after, ht,
      fun v hv => by simpa [Option.isSome_iff_ne_none] using hb v hv⟩
  · rintro ⟨hn, before, after, ht, hb⟩
    exact ⟨before, after, ht, fun v hv => by simpa [Option.isSome_iff_ne_none] using hb v hv,
      by simpa using hn⟩

theorem FirstUnset.unique {other : String} (h : FirstUnset env texts name)
    (h' : FirstUnset env texts other) : name = other :=
  Option.some.inj ((firstUnset_iff.1 h).symm.trans (firstUnset_iff.1 h'))

/-- Where not all variables are set there is a first one that is not. -/
theorem exists_firstUnset (h : ¬AreSet env texts) : ∃ name, FirstUnset env texts name := by
  rcases hf : (variablesOf texts).find? (fun v => (env v).isNone) with _ | name
  · refine absurd (fun v hv => ?_) h
    have := List.find?_eq_none.1 hf v hv
    simpa [Option.isSome_iff_ne_none] using this
  · exact ⟨name, firstUnset_iff.2 hf⟩

/-! ## Outcomes -/

/-- What can become of something with placeholders in some texts: the first variable that is not
    set is told, or all are set and the placeholders are filled. -/
inductive Outcome {α : Type} (env : Environment) (texts : List String) (Good : α → Prop) :
    Except ConfigFault α → Prop
  | unset {name : String} : FirstUnset env texts name →
    Outcome env texts Good (.error (.unsetVariable name))
  | filled {a : α} : AreSet env texts → Good a → Outcome env texts Good (.ok a)

section Outcome

variable {α β γ : Type} {Good : α → Prop} {Good' : β → Prop} {Both : γ → Prop}
  {x : Except ConfigFault α} {y : Except ConfigFault β}

theorem Outcome.map (h : Outcome env texts Good x) {f : α → β} (hf : ∀ a, Good a → Good' (f a)) :
    Outcome env texts Good' (f <$> x) := by
  cases h with
  | unset first => exact .unset first
  | filled set good => exact .filled set (hf _ good)

/-- Of two things the first is filled first. -/
theorem Outcome.seq (hx : Outcome env texts Good x) (hy : Outcome env more Good' y)
    {f : α → β → γ} (hf : ∀ a b, Good a → Good' b → Both (f a b)) :
    Outcome env (texts ++ more) Both (do let a ← x; return f a (← y)) := by
  cases hx with
  | unset first => exact .unset (first.append more)
  | filled set good =>
    cases hy with
    | unset first => exact .unset (first.prepend set)
    | filled set' good' => exact .filled (set.append set') (hf _ _ good good')

end Outcome

/-! ## Documents -/

/-- A document and what it is after it has been filled. Its texts are substituted, a text without
    placeholders is the same, and so is all else: the kinds of nodes, the lengths of sequences, the
    keys of mappings and their order, tags, and the scalars that are no texts. -/
inductive Filled (env : Environment) : Node → Node → Prop
  | text {s s' : String} : substitute env s = .ok s' → (names s.toList = [] → s' = s) →
    Filled env (.text s) (.text s')
  | sequence {items items' : List Node} : List.Forall₂ (Filled env) items items' →
    Filled env (.sequence items) (.sequence items')
  | mapping {entries entries' : List (Node × Node)} :
    entries'.map Prod.fst = entries.map Prod.fst →
    List.Forall₂ (Filled env) (entries.map Prod.snd) (entries'.map Prod.snd) →
    Filled env (.mapping entries) (.mapping entries')
  | tagged {tag : String} {n n' : Node} : Filled env n n' →
    Filled env (.tagged tag n) (.tagged tag n')
  | null : Filled env .null .null
  | bool {b : Bool} : Filled env (.bool b) (.bool b)
  | number {x : Numeral.Number} : Filled env (.number x) (.number x)
  | unreadable : Filled env .unreadable .unreadable
  | fault : Filled env .fault .fault

theorem outcome_substitute (env : Environment) (s : String) :
    Outcome env [s] (fun s' => Filled env (.text s) (.text s')) (substitute env s) := by
  by_cases hs : AreSet env [s]
  · have set : ∀ n ∈ names s.toList, (env (String.ofList n)).isSome := fun n hn =>
      hs _ (by rw [variablesOf_singleton]; exact List.mem_map_of_mem hn)
    obtain ⟨text, ht⟩ := exists_foldlM_fill set s.toList
    have filled : substitute env s = .ok (String.ofList text) := by
      rw [substitute, ht]
      rfl
    rw [filled]
    refine .filled hs (.text filled fun none => ?_)
    rw [none] at ht
    rw [← Except.ok.inj ht, String.ofList_toList]
  · obtain ⟨name, first⟩ := exists_firstUnset hs
    obtain ⟨_, _, all, set, unset⟩ := id first
    rw [variablesOf_singleton] at all
    obtain ⟨before, rest, split, rfl, later⟩ := List.map_eq_append_iff.1 all
    obtain ⟨n, after, rfl, rfl, -⟩ := List.map_eq_cons_iff.1 later
    rw [substitute_unset split (List.forall_mem_map.1 set) unset]
    exact .unset first

mutual

/-- What can become of a document. The recursion is that of the document. -/
theorem outcome_resolve (env : Environment) :
    (n : Node) → Outcome env (valueTexts n) (Filled env n) (resolve env n)
  | .text s => (outcome_substitute env s).map fun _ h => h
  | .sequence items => (outcome_resolveItems env items).map fun _ h => .sequence h
  | .mapping entries => (outcome_resolveEntries env entries).map fun _ h => .mapping h.1 h.2
  | .tagged _ n => (outcome_resolve env n).map fun _ h => .tagged h
  | .null => .filled areSet_nil .null
  | .bool _ => .filled areSet_nil .bool
  | .number _ => .filled areSet_nil .number
  | .unreadable => .filled areSet_nil .unreadable
  | .fault => .filled areSet_nil .fault

theorem outcome_resolveItems (env : Environment) : (items : List Node) →
    Outcome env (itemTexts items) (List.Forall₂ (Filled env) items) (resolveItems env items)
  | [] => .filled areSet_nil .nil
  | n :: rest => (outcome_resolve env n).seq (outcome_resolveItems env rest)
      fun _ _ h hs => .cons h hs

theorem outcome_resolveEntries (env : Environment) : (entries : List (Node × Node)) →
    Outcome env (entryTexts entries)
      (fun entries' => entries'.map Prod.fst = entries.map Prod.fst ∧
        List.Forall₂ (Filled env) (entries.map Prod.snd) (entries'.map Prod.snd))
      (resolveEntries env entries)
  | [] => .filled areSet_nil ⟨rfl, .nil⟩
  | (k, n) :: rest => (outcome_resolve env n).seq (outcome_resolveEntries env rest)
      fun _ _ h hs => ⟨congrArg (k :: ·) hs.1, .cons h hs.2⟩

end

/-- A document is not filled exactly if one of its texts in the place of a value, at any depth,
    names a variable that is not set. Then the first such variable is told, in the order of the
    document and in that of the text, and it is told of the whole configuration. Else the document
    is filled, and only its texts have changed. -/
theorem resolve_fills (env : Environment) (document : Node) :
    ((∃ e, resolve env document = .error e) ↔
      ∃ s ∈ valueTexts document, ∃ name ∈ names s.toList, env (String.ofList name) = none) ∧
    (∀ e, resolve env document = .error e ↔
      ∃ name, FirstUnset env (valueTexts document) name ∧ e = .unsetVariable name) ∧
    (∀ name, FirstUnset env (valueTexts document) name →
      GatewayConfig.ofDocument env document = .error (.config (.unsetVariable name))) ∧
    ∀ filled, resolve env document = .ok filled → Filled env document filled := by
  have unset : ¬AreSet env (valueTexts document) ↔
      ∃ s ∈ valueTexts document, ∃ name ∈ names s.toList, env (String.ofList name) = none := by
    simp [AreSet, variablesOf]
  have outcome := outcome_resolve env document
  rw [GatewayConfig.ofDocument, ← unset]
  generalize resolve env document = x at outcome
  cases outcome with
  | unset first =>
    refine ⟨iff_of_true ⟨_, rfl⟩ first.not_areSet, fun e => ?_, fun name first' => ?_, nofun⟩
    · constructor
      · rintro ⟨⟩
        exact ⟨_, first, rfl⟩
      · rintro ⟨name, first', rfl⟩
        rw [first.unique first']
    · rw [first.unique first']
      rfl
  | filled set good =>
    refine ⟨iff_of_false nofun (not_not.2 set), fun e => iff_of_false nofun ?_,
      fun name first => absurd set first.not_areSet, ?_⟩
    · rintro ⟨name, first, -⟩
      exact first.not_areSet set
    · rintro _ ⟨⟩
      exact good

/-- A value that would be a sequence if it were parsed, under a key that is no placeholder although
    it looks like one, and the first of two variables that are not set. -/
theorem resolve_fills_odd_value :
    let env : Environment := fun name => [("A", "- x: \"1\"\n")].lookup name
    let document : Node := .mapping [(.text "$\x7bB\x7d",
      .sequence [.text "$\x7bA\x7d", .number (.integer 1), .tagged "t" (.text "true")])]
    let unset : Node := .mapping
      [(.text "k", .text "$\x7bA\x7d$\x7bC\x7d"), (.text "l", .text "$\x7bB\x7d")]
    (∃ filled, resolve env document = .ok filled ∧ Filled env document filled) ∧
      resolve env unset = .error (.unsetVariable "C") ∧
      GatewayConfig.ofDocument env unset = .error (.config (.unsetVariable "C")) := by
  intro env document unset
  obtain ⟨-, -, -, fills⟩ := resolve_fills env document
  obtain ⟨-, told, configured, -⟩ := resolve_fills env unset
  have first : FirstUnset env (valueTexts unset) "C" :=
    ⟨["A"], ["B"], by decide +kernel, by decide +kernel, by decide +kernel⟩
  obtain ⟨filled, hf⟩ : ∃ filled, resolve env document = .ok filled := ⟨_, rfl⟩
  exact ⟨⟨filled, hf, fills filled hf⟩, (told _).2 ⟨"C", first, rfl⟩, configured "C" first⟩

end InferenceGateway.Placeholder
