import InferenceGateway.Config.Placeholder
import Mathlib.Data.List.Count

/-!
# Substitution

When the placeholders of a text can be said to be replaced all at once. The program replaces them
one name after the other, each wherever it occurs in what has become of the text; so a value that
holds a placeholder, or that makes one together with what stands around it, can be taken for a
part of the text. Where this does not happen (`Undisturbed`) nothing of a value is ever replaced,
and every placeholder of the text is, by the value of its own variable.

* `splice`: a text with all of its placeholders replaced at once.
* `splice_step`: replacing the placeholders of one more name.
* `substitute_undisturbed`: an undisturbed text is substituted at once.
* `undisturbed_of_plain`: a text whose dollar signs all begin placeholders is undisturbed if no
  value has a dollar sign.
* `substitute_unset`: of the variables that are not set, the first one is told.
-/

namespace InferenceGateway.Placeholder

/-! ## Placeholders -/

/-- A text that can be the name of a variable. -/
def IsName (name : List Char) : Prop :=
  name.head?.any isNameStart = true ∧ ∀ c ∈ name, isNameChar c = true

/-- A text begins with the placeholder of a name if the name stands there between its marks. -/
theorem name?_eq_some {text name : List Char} :
    name? text = some name ↔ IsName name ∧ write name <+: text := by
  constructor
  · intro h
    rw [name?.eq_def] at h
    split at h
    · rename_i rest
      dsimp only at h
      split at h
      · rename_i hn
        obtain rfl := Option.some.inj h
        obtain ⟨hs, hc⟩ := Bool.and_eq_true_iff.1 hn
        refine ⟨⟨hs, List.all_eq_true.1 List.all_takeWhile⟩, ?_⟩
        obtain ⟨tail, ht⟩ : ∃ tail, rest.drop (rest.takeWhile isNameChar).length = '\x7d' :: tail :=
          List.head?_eq_some_iff.1 (by simpa using hc)
        have hr : rest.takeWhile isNameChar ++ '\x7d' :: tail = rest := by
          rw [← ht]
          conv_rhs => rw [← List.take_append_drop (rest.takeWhile isNameChar).length rest]
          rw [← List.prefix_iff_eq_take.1 (List.takeWhile_prefix _)]
        exact ⟨tail, by simp [write, hr]⟩
      · cases h
    · cases h
  · rintro ⟨⟨hs, hn⟩, rest, rfl⟩
    have close : isNameChar '\x7d' = false := by decide
    have taken : (name ++ '\x7d' :: rest).takeWhile isNameChar = name := by
      rw [List.takeWhile_append_of_pos hn, List.takeWhile_cons, close]
      simp
    simp [write, name?, taken, hs]

theorem name?_of_ne {c : Char} (hc : c ≠ '$') (text : List Char) : name? (c :: text) = none := by
  rw [Option.eq_none_iff_forall_ne_some]
  intro name h
  obtain ⟨-, rest, h⟩ := name?_eq_some.1 h
  exact hc (List.cons.inj h).1.symm

theorem name?_write {name : List Char} (h : IsName name) (text : List Char) :
    name? (write name ++ text) = some name :=
  name?_eq_some.2 ⟨h, List.prefix_append _ _⟩

/-- The dollar sign of a placeholder is its first character. -/
theorem write_eq (name : List Char) : write name = '$' :: (write name).tail := rfl

theorem ne_dollar_of_mem_tail {name : List Char} (h : IsName name) :
    ∀ c ∈ (write name).tail, c ≠ '$' := by
  rintro c hc rfl
  simp only [write, List.tail_cons, List.cons_append, List.mem_cons, List.mem_append,
    List.not_mem_nil, or_false] at hc
  rcases hc with hc | hc | hc
  · exact absurd hc (by decide)
  · exact absurd (h.2 _ hc) (by decide)
  · exact absurd hc (by decide)

/-- A text is nothing, begins with a placeholder, or begins with a character that does not begin
    one. -/
@[elab_as_elim]
theorem text_induction {P : List Char → Prop} (nil : P [])
    (hole : ∀ name text, IsName name → P text → P (write name ++ text))
    (char : ∀ c text, name? (c :: text) = none → P text → P (c :: text)) (text : List Char) :
    P text := by
  induction h : text.length using Nat.strongRecOn generalizing text with
  | ind n ih =>
    rcases text with _ | ⟨c, text⟩
    · exact nil
    rcases hn : name? (c :: text) with _ | name
    · exact char c text hn (ih _ (by simp [← h]) text rfl)
    · obtain ⟨hi, rest, hr⟩ := name?_eq_some.1 hn
      rw [← hr]
      refine hole name rest hi (ih _ ?_ rest rfl)
      simp only [← h, ← hr, write, List.length_append, List.length_cons]
      omega

/-! ## Names -/

/-- Characters that are no dollar signs hold no placeholder. -/
theorem names_append {xs : List Char} (h : ∀ c ∈ xs, c ≠ '$') (text : List Char) :
    names (xs ++ text) = names text := by
  induction xs with
  | nil => rfl
  | cons c xs ih =>
    rw [List.cons_append, names, name?_of_ne (h c List.mem_cons_self),
      ih fun d hd => h d (List.mem_cons_of_mem _ hd)]
    rfl

theorem names_write {name : List Char} (h : IsName name) (text : List Char) :
    names (write name ++ text) = name :: names text := by
  have hn := name?_write h text
  rw [write_eq, List.cons_append] at hn ⊢
  rw [names, hn, names_append (ne_dollar_of_mem_tail h)]
  rfl

theorem names_cons {c : Char} {text : List Char} (h : name? (c :: text) = none) :
    names (c :: text) = names text := by
  rw [names, h]
  rfl

theorem isName_of_mem_names {text name : List Char} (h : name ∈ names text) : IsName name := by
  induction text with
  | nil => cases h
  | cons c text ih =>
    rcases List.mem_append.1 h with h | h
    · exact (name?_eq_some.1 (Option.mem_toList.1 h)).1
    · exact ih h

/-! ## Replacing a pattern -/

section Replace

variable {pattern : List Char} (value : List Char)

theorem replaceFrom_skip (skipped text : List Char) :
    replaceFrom pattern value skipped.length (skipped ++ text) = replaceAll pattern value text := by
  induction skipped with
  | nil => rfl
  | cons c skipped ih => exact ih

/-- What is replaced at the beginning of a text. -/
theorem replaceAll_append (hp : pattern ≠ []) (text : List Char) :
    replaceAll pattern value (pattern ++ text) = value ++ replaceAll pattern value text := by
  obtain ⟨c, rest, rfl⟩ := List.exists_cons_of_ne_nil hp
  rw [replaceAll, List.cons_append, replaceFrom, if_pos (by simp)]
  exact congrArg _ (replaceFrom_skip value rest text)

theorem replaceAll_cons {c : Char} {text : List Char} (h : ¬pattern <+: c :: text) :
    replaceAll pattern value (c :: text) = c :: replaceAll pattern value text := by
  rw [replaceAll, replaceFrom, if_neg (by simpa using h)]
  rfl

end Replace

/-! ## Replacing all at once -/

/-- What a text becomes if its placeholders are all replaced at once, by what a function gives for
    their names; `skip` characters of it belong to a placeholder already. -/
def spliceFrom (value : List Char → List Char) : (skip : Nat) → List Char → List Char
  | _, [] => []
  | skip + 1, _ :: text => spliceFrom value skip text
  | 0, c :: text =>
    match name? (c :: text) with
    | some name => value name ++ spliceFrom value (name.length + 2) text
    | none => c :: spliceFrom value 0 text

/-- A text with all of its placeholders replaced at once. -/
def splice (value : List Char → List Char) (text : List Char) : List Char := spliceFrom value 0 text

section Splice

variable {value value' : List Char → List Char}

theorem spliceFrom_skip (skipped text : List Char) :
    spliceFrom value skipped.length (skipped ++ text) = splice value text := by
  induction skipped with
  | nil => rfl
  | cons c skipped ih => exact ih

theorem splice_write {name : List Char} (h : IsName name) (text : List Char) :
    splice value (write name ++ text) = value name ++ splice value text := by
  have hn := name?_write h text
  have hl : name.length + 2 = (write name).tail.length := by simp [write]
  rw [write_eq, List.cons_append] at hn ⊢
  rw [splice, spliceFrom, hn]
  exact congrArg _ (hl ▸ spliceFrom_skip _ _)

theorem splice_cons {c : Char} {text : List Char} (h : name? (c :: text) = none) :
    splice value (c :: text) = c :: splice value text := by
  rw [splice, spliceFrom, h]
  rfl

/-- Only the values of the names in a text matter. -/
theorem splice_congr {text : List Char} (h : ∀ name ∈ names text, value name = value' name) :
    splice value text = splice value' text := by
  induction text using text_induction with
  | nil => rfl
  | hole name text hn ih =>
    rw [names_write hn] at h
    rw [splice_write hn, splice_write hn, h name List.mem_cons_self,
      ih fun n hm => h n (List.mem_cons_of_mem _ hm)]
  | char c text hc ih =>
    rw [names_cons hc] at h
    rw [splice_cons hc, splice_cons hc, ih h]

/-- Placeholders that are replaced by themselves stay. -/
theorem splice_write_self (text : List Char) : splice write text = text := by
  induction text using text_induction with
  | nil => rfl
  | hole name text hn ih => rw [splice_write hn, ih]
  | char c text hc ih => rw [splice_cons hc, ih]

end Splice

/-! ## One name after the other -/

/-- The value of the variable of a name, if it is set. -/
def valueOf (env : Environment) (name : List Char) : List Char :=
  ((env (String.ofList name)).getD "").toList

/-- The value of a name of which some have had their turn; the others are left. -/
def valueAfter (env : Environment) (before : List (List Char)) (name : List Char) : List Char :=
  if name ∈ before then valueOf env name else write name

/-- A text in which the placeholders of some names are replaced, all at once. -/
def spliced (env : Environment) (before : List (List Char)) (text : List Char) : List Char :=
  splice (valueAfter env before) text

section Step

variable {env : Environment} {before : List (List Char)} {name : List Char}

theorem spliced_write_of_mem (hn : IsName name) (hb : name ∈ before) (text : List Char) :
    spliced env before (write name ++ text) = valueOf env name ++ spliced env before text := by
  rw [spliced, splice_write hn, valueAfter, if_pos hb, ← spliced]

theorem spliced_write_of_not_mem (hn : IsName name) (hb : name ∉ before) (text : List Char) :
    spliced env before (write name ++ text) = write name ++ spliced env before text := by
  rw [spliced, splice_write hn, valueAfter, if_neg hb, ← spliced]

theorem spliced_cons {c : Char} {text : List Char} (h : name? (c :: text) = none) :
    spliced env before (c :: text) = c :: spliced env before text :=
  splice_cons h

/-- Before the first turn a text is as it was. -/
theorem spliced_nil (env : Environment) (text : List Char) : spliced env [] text = text :=
  (splice_congr fun _ _ => if_neg List.not_mem_nil).trans (splice_write_self text)

/-- After the last turn all placeholders are replaced. -/
theorem spliced_names (env : Environment) (text : List Char) :
    spliced env (names text) text = splice (valueOf env) text :=
  splice_congr fun _ hm => if_pos hm

/-- More text in front holds the placeholders of the text, and maybe more. -/
theorem count_names_le (name xs text : List Char) :
    (names text).count name ≤ (names (xs ++ text)).count name := by
  induction xs with
  | nil => exact Nat.le_refl _
  | cons c xs ih =>
    rw [List.cons_append, names, List.count_append]
    omega

/-- Text in front of other text that adds no placeholder of a name is left as it is when that
    name has its turn. -/
theorem replaceAll_append_of_count (hn : IsName name) (value xs text : List Char)
    (h : (names (xs ++ text)).count name ≤ (names text).count name) :
    replaceAll (write name) value (xs ++ text) = xs ++ replaceAll (write name) value text := by
  induction xs with
  | nil => rfl
  | cons c xs ih =>
    rw [List.cons_append, names, List.count_append] at h
    have hle := count_names_le name xs text
    have here : ¬write name <+: c :: (xs ++ text) := by
      intro hp
      rw [name?_eq_some.2 ⟨hn, hp⟩] at h
      simp only [Option.toList_some, List.count_cons_self, List.count_nil] at h
      omega
    rw [List.cons_append, replaceAll_cons value here, ih (by omega), List.cons_append]

/-- The placeholders of a text that have not had their turn. -/
def waiting (before : List (List Char)) (text : List Char) : List (List Char) :=
  (names text).filter (· ∉ before)

theorem waiting_write_of_mem (hn : IsName name) (hb : name ∈ before) (text : List Char) :
    waiting before (write name ++ text) = waiting before text := by
  rw [waiting, names_write hn, List.filter_cons_of_neg (by simpa using hb), ← waiting]

theorem waiting_write_of_not_mem (hn : IsName name) (hb : name ∉ before) (text : List Char) :
    waiting before (write name ++ text) = name :: waiting before text := by
  rw [waiting, names_write hn, List.filter_cons_of_pos (by simpa using hb), ← waiting]

theorem waiting_cons {c : Char} {text : List Char} (h : name? (c :: text) = none) :
    waiting before (c :: text) = waiting before text := by
  rw [waiting, names_cons h, ← waiting]

/-- The placeholders that have not had their turn are still there. -/
theorem count_waiting_le (env : Environment) (before : List (List Char)) (name text : List Char) :
    (waiting before text).count name ≤ (names (spliced env before text)).count name := by
  induction text using text_induction with
  | nil => exact Nat.le_refl _
  | hole n text hn ih =>
    by_cases hb : n ∈ before
    · rw [waiting_write_of_mem hn hb, spliced_write_of_mem hn hb]
      exact Nat.le_trans ih (count_names_le _ _ _)
    · rw [waiting_write_of_not_mem hn hb, spliced_write_of_not_mem hn hb, names_write hn,
        List.count_cons, List.count_cons]
      exact Nat.add_le_add_right ih _
  | char c text hc ih =>
    rw [waiting_cons hc, spliced_cons hc]
    exact Nat.le_trans ih (count_names_le name [c] _)

/-- The turn of a name is that of the placeholders that the text has of it, if no other ones have
    come into being. -/
theorem replaceAll_spliced (hn : IsName name) {text : List Char}
    (h : (names (spliced env before text)).count name ≤ (waiting before text).count name) :
    replaceAll (write name) (valueOf env name) (spliced env before text) =
      spliced env (before ++ [name]) text := by
  -- No part of the text has fewer placeholders of the name than it had, so none has more.
  induction text using text_induction with
  | nil => rfl
  | hole n text hi ih =>
    have rest := count_waiting_le env before name text
    by_cases hb : n ∈ before
    · rw [spliced_write_of_mem hi hb, waiting_write_of_mem hi hb] at h
      have front := count_names_le name (valueOf env n) (spliced env before text)
      rw [spliced_write_of_mem hi hb, spliced_write_of_mem hi (List.mem_append_left _ hb),
        replaceAll_append_of_count hn _ _ _ (by omega), ih (by omega)]
    · rw [spliced_write_of_not_mem hi hb, waiting_write_of_not_mem hi hb, names_write hi,
        List.count_cons, List.count_cons] at h
      rw [spliced_write_of_not_mem hi hb]
      by_cases hs : n = name
      · subst hs
        rw [spliced_write_of_mem hi (by simp), replaceAll_append _ (by simp [write]),
          ih (by omega)]
      · rw [spliced_write_of_not_mem hi (by simp [hb, hs]), replaceAll_append_of_count hn,
          ih (by omega)]
        exact Nat.le_of_eq (by rw [names_write hi, List.count_cons_of_ne hs])
  | char c text hc ih =>
    have rest := count_waiting_le env before name text
    have front := count_names_le name [c] (spliced env before text)
    rw [List.singleton_append] at front
    rw [spliced_cons hc, waiting_cons hc] at h
    rw [spliced_cons hc, spliced_cons hc, ← ih (by omega)]
    refine replaceAll_append_of_count hn _ [c] (spliced env before text) ?_
    rw [List.singleton_append]
    omega

end Step

/-! ## All names -/

/-- When the placeholders of a text are replaced one name after the other, none comes into being
    on the way: whenever a name has its turn, its placeholders are those that the text has of it
    and that have not had their turn. -/
def Undisturbed (env : Environment) (text : List Char) : Prop :=
  ∀ (k : Nat) (h : k < (names text).length),
    let before := (names text).take k
    let name := (names text)[k]
    (names (spliced env before text)).count name ≤ (waiting before text).count name

instance (env : Environment) (text : List Char) : Decidable (Undisturbed env text) :=
  inferInstanceAs (Decidable (∀ _ _, _))

/-- The values of all variables that a text names are set. -/
def AllSet (env : Environment) (text : List Char) : Prop :=
  ∀ name ∈ names text, (env (String.ofList name)).isSome

instance (env : Environment) (text : List Char) : Decidable (AllSet env text) :=
  inferInstanceAs (Decidable (∀ name ∈ names text, _))

/-- Some names of an undisturbed text have their turns. -/
theorem foldlM_fill {env : Environment} {text : List Char} (hs : AllSet env text)
    (hu : Undisturbed env text) {before rest : List (List Char)} (h : names text = before ++ rest) :
    rest.foldlM (fill env) (spliced env before text) = .ok (splice (valueOf env) text) := by
  induction rest generalizing before with
  | nil =>
    rw [List.append_nil] at h
    rw [← h, spliced_names]
    rfl
  | cons name rest ih =>
    have hm : name ∈ names text := by simp [h]
    obtain ⟨value, hv⟩ := Option.isSome_iff_exists.1 (hs name hm)
    have turn := hu before.length (by simp [h])
    simp only [h, List.take_left, List.getElem_append_right (Nat.le_refl _), Nat.sub_self,
      List.getElem_cons_zero] at turn
    have filled : fill env (spliced env before text) name =
        .ok (spliced env (before ++ [name]) text) := by
      rw [← replaceAll_spliced (isName_of_mem_names hm) turn, fill, valueOf, hv]
      rfl
    rw [List.foldlM_cons, filled]
    exact ih (by rw [h, List.append_assoc, List.singleton_append])

/-- A text of which all variables are set and whose placeholders stay undisturbed is substituted
    all at once: each of its placeholders by the value of its variable, and nothing else. -/
theorem substitute_undisturbed {env : Environment} {text : String} (hs : AllSet env text.toList)
    (hu : Undisturbed env text.toList) :
    substitute env text = .ok (String.ofList (splice (valueOf env) text.toList)) := by
  have run := foldlM_fill hs hu (List.nil_append _).symm
  rw [spliced_nil] at run
  rw [substitute, run]
  rfl

/-- A value that looks like a placeholder, where no placeholder of its name is waiting, and another
    one that ends in a dollar sign. -/
theorem substitute_undisturbed_dollar :
    let env : Environment := fun name =>
      [("A", "$\x7bB\x7d"), ("B", "x$"), ("C", "\x7bA\x7d")].lookup name
    let text := "$\x7bB\x7d-$\x7bA\x7d$\x7bC\x7d"
    AllSet env text.toList ∧ Undisturbed env text.toList ∧
      substitute env text = .ok "x$-$\x7bB\x7d\x7bA\x7d" := by
  intro env text
  have hs : AllSet env text.toList := by decide +kernel
  have hu : Undisturbed env text.toList := by decide +kernel
  have at_once : String.ofList (splice (valueOf env) text.toList) = "x$-$\x7bB\x7d\x7bA\x7d" := by
    decide +kernel
  exact ⟨hs, hu, at_once ▸ substitute_undisturbed hs hu⟩

/-- The variables of a text being set is not enough: a value that holds the placeholder of a name
    which comes later has it replaced. -/
theorem substitute_disturbed : ¬∀ (env : Environment) (text : String), AllSet env text.toList →
    substitute env text = .ok (String.ofList (splice (valueOf env) text.toList)) := by
  intro h
  let env : Environment := fun name => [("A", "$\x7bB\x7d"), ("B", "x")].lookup name
  have both := h env "$\x7bA\x7d$\x7bB\x7d" (by decide +kernel)
  have twice : substitute env "$\x7bA\x7d$\x7bB\x7d" = .ok "xx" := by decide +kernel
  have once : String.ofList (splice (valueOf env) "$\x7bA\x7d$\x7bB\x7d".toList) =
      "$\x7bB\x7dx" := by
    decide +kernel
  rw [twice, once] at both
  exact absurd both (by decide)

/-! ## Plain texts -/

/-- Every dollar sign of a text begins a placeholder. -/
def IsPlain (text : List Char) : Prop :=
  ∀ front rest, text = front ++ '$' :: rest → name? ('$' :: rest) ≠ none

theorem IsPlain.of_append {xs text : List Char} (h : IsPlain (xs ++ text)) : IsPlain text :=
  fun front rest ht => h (xs ++ front) rest (by rw [ht, List.append_assoc])

/-- Values without dollar signs bring no placeholder into a plain text. -/
theorem names_spliced {env : Environment} {text : List Char} (ht : IsPlain text)
    (hv : ∀ name ∈ names text, ∀ c ∈ valueOf env name, c ≠ '$') (before : List (List Char)) :
    names (spliced env before text) = waiting before text := by
  induction text using text_induction with
  | nil => rfl
  | hole name text hn ih =>
    rw [names_write hn] at hv
    have ih := ih ht.of_append fun n hm => hv n (List.mem_cons_of_mem _ hm)
    by_cases hb : name ∈ before
    · rw [spliced_write_of_mem hn hb, waiting_write_of_mem hn hb,
        names_append (hv name List.mem_cons_self), ih]
    · rw [spliced_write_of_not_mem hn hb, waiting_write_of_not_mem hn hb, names_write hn, ih]
  | char c text hc ih =>
    rw [names_cons hc] at hv
    have hd : c ≠ '$' := by
      rintro rfl
      exact ht [] text rfl hc
    have plain : IsPlain text := (show IsPlain ([c] ++ text) from ht).of_append
    rw [spliced_cons hc, waiting_cons hc, names_cons (name?_of_ne hd _), ih plain hv]

/-- A plain text is undisturbed by values without dollar signs. -/
theorem undisturbed_of_plain {env : Environment} {text : List Char} (ht : IsPlain text)
    (hv : ∀ name ∈ names text, ∀ c ∈ valueOf env name, c ≠ '$') : Undisturbed env text := by
  intro k h
  dsimp only
  exact Nat.le_of_eq (by rw [names_spliced ht hv])

/-! ## Variables that are not set -/

/-- Names that all have a value have their turns. -/
theorem exists_foldlM_fill {env : Environment} {names : List (List Char)}
    (h : ∀ n ∈ names, (env (String.ofList n)).isSome) (text : List Char) :
    ∃ text', names.foldlM (fill env) text = .ok text' := by
  induction names generalizing text with
  | nil => exact ⟨text, rfl⟩
  | cons n names ih =>
    obtain ⟨value, hv⟩ := Option.isSome_iff_exists.1 (h n List.mem_cons_self)
    rw [List.foldlM_cons, fill, hv]
    exact ih (fun n hm => h n (List.mem_cons_of_mem _ hm)) _

/-- The first name without a value is the one that is told. -/
theorem substitute_unset {env : Environment} {text : String} {before rest : List (List Char)}
    {name : List Char} (h : names text.toList = before ++ name :: rest)
    (hb : ∀ n ∈ before, (env (String.ofList n)).isSome) (hn : env (String.ofList name) = none) :
    substitute env text = .error (.unsetVariable (String.ofList name)) := by
  obtain ⟨text', ht⟩ := exists_foldlM_fill hb text.toList
  rw [substitute, h, List.foldlM_append, ht]
  show String.ofList <$> (fill env text' name >>= _) = _
  rw [fill, hn]
  rfl

end InferenceGateway.Placeholder
