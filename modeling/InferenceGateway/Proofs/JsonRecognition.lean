import InferenceGateway.Proofs.JsonLexing
import InferenceGateway.Proofs.JsonScanning

/-!
# Texts that are read

A text that is read to its end is one of the grammar, with the value that was read. The machine for
trees has put the tokens of the text together as the grammar says (`Tree`), and the tokens stand in
the text with white space between them, so the text is put together in the same way.

For each state of the machine it is said which tokens have led to it (`Build.Spells`): those of the
open containers, each of them up to where it stands.

* `Build.spells_step`: one step of the machine.
* `tree_eq`: the tree of a text is one of its tokens.
* `Tree.exists_value`: a text with the tokens of a tree is a value of the grammar.
* `Tree.exists_items`, `Tree.exists_members`: what arrays and objects hold.
* `tree_complete_iff`: the texts that are read are those of the grammar.
-/

namespace InferenceGateway.Json

open Grammar Document

/-! ## Trees of tokens -/

/-- The tokens of a value, and its tree. -/
inductive Tree : List Token → Node → Prop
  | scalar (n : Node) : Tree [.scalar n] n
  | string (n : Node) : Tree [.string n] n
  | array {items : List (List Token × Node)} : (∀ x ∈ items, Tree x.1 x.2) →
    Tree (.openArray :: ([.comma].intercalate (items.map (·.1)) ++ [.closeArray]))
      (.sequence (items.map (·.2)))
  | object {members : List (Node × List Token × Node)} : (∀ m ∈ members, Tree m.2.1 m.2.2) →
    Tree (.openObject ::
        ([.comma].intercalate (members.map fun m => .string m.1 :: .colon :: m.2.1) ++
          [.closeObject]))
      (.mapping (members.map fun m => (m.1, m.2.2)))
  /-- A container that is too deep to be held. -/
  | deep {ts : List Token} {n : Node} : Tree ts n → Tree ts .unreadable

theorem Tree.close {ts : List Token} {n : Node} (h : Tree ts n) (depth : Nat) :
    Tree ts (Build.close depth n) := by
  rw [Build.close]
  split
  · exact h.deep
  · exact h

/-- The tokens of items with a comma after each. -/
def listed (parts : List (List Token)) : List Token := parts.flatMap (· ++ [.comma])

theorem intercalate_concat (parts : List (List Token)) (ts : List Token) :
    [.comma].intercalate (parts ++ [ts]) = listed parts ++ ts := by
  induction parts with
  | nil => exact List.intercalate_singleton
  | cons part parts ih =>
    rw [List.cons_append, List.intercalate_cons_of_ne_nil (by simp), ih]
    simp [listed]

theorem listed_eq {parts : List (List Token)} (h : parts ≠ []) :
    listed parts = [.comma].intercalate parts ++ [.comma] := by
  obtain ⟨before, last, rfl⟩ := (List.eq_nil_or_concat' parts).resolve_left h
  rw [intercalate_concat]
  simp [listed]

/-! ## The machine for trees -/

/-- The tokens of an open container after its bracket, with those of the items that have been
    read. -/
def Next.Spells (parts : List (List Token)) : Next → List Token → Prop
  | .first, ts => parts = [] ∧ ts = []
  | .item, ts => ts = listed parts
  | .separator, ts => parts ≠ [] ∧ ts = [.comma].intercalate parts
  | .colon key, ts => ts = listed parts ++ [.string key]
  | .value key, ts => ts = listed parts ++ [.string key, .colon]

namespace Next

variable {next : Next} {parts : List (List Token)} {us : List Token}

/-- The tokens before an item. -/
theorem Spells.eq_listed (h : next.Spells parts us) (hn : next = .first ∨ next = .item) :
    us = listed parts := by
  rcases hn with rfl | rfl
  · obtain ⟨rfl, rfl⟩ := h
    rfl
  · exact h

/-- The tokens before the end. -/
theorem Spells.eq_intercalate (h : next.Spells parts us) (hn : next = .first ∨ next = .separator) :
    us = [.comma].intercalate parts := by
  rcases hn with rfl | rfl
  · obtain ⟨rfl, rfl⟩ := h
    rfl
  · exact h.2

theorem spells_separator (ts : List Token) :
    separator.Spells (parts ++ [ts]) (listed parts ++ ts) :=
  ⟨by simp, (intercalate_concat parts ts).symm⟩

end Next

/-- The tokens of an open container. -/
def Frame.Spells : Frame → List Token → Prop
  | .array found next, ts => ∃ (items : List (List Token × Node)) (us : List Token),
      (∀ x ∈ items, Tree x.1 x.2) ∧ found.reverse = items.map (·.2) ∧
        next.Spells (items.map (·.1)) us ∧ ts = .openArray :: us
  | .object found next, ts => ∃ (members : List (Node × List Token × Node)) (us : List Token),
      (∀ m ∈ members, Tree m.2.1 m.2.2) ∧ found.reverse = members.map (fun m => (m.1, m.2.2)) ∧
        next.Spells (members.map fun m => .string m.1 :: .colon :: m.2.1) us ∧
          ts = .openObject :: us

namespace Frame

variable {above ts : List Token} {n : Node}

/-- One more item of an array. -/
theorem Spells.item {found : List Node} {next : Next} (h : (array found next).Spells above)
    (hn : next = .first ∨ next = .item) (ht : Tree ts n) :
    (array (n :: found) .separator).Spells (above ++ ts) := by
  obtain ⟨items, us, hi, hf, hs, rfl⟩ := h
  obtain rfl := hs.eq_listed hn
  refine ⟨items ++ [(ts, n)], listed (items.map (·.1)) ++ ts,
    List.forall_mem_append.2 ⟨hi, List.forall_mem_singleton.2 ht⟩, ?_, ?_, rfl⟩
  · rw [List.reverse_cons, hf, List.map_append]
    rfl
  · rw [List.map_append]
    exact Next.spells_separator ts

/-- The value of a member of an object. -/
theorem Spells.value {found : List (Node × Node)} {key : Node}
    (h : (object found (.value key)).Spells above) (ht : Tree ts n) :
    (object ((key, n) :: found) .separator).Spells (above ++ ts) := by
  obtain ⟨members, us, hm, hf, rfl, rfl⟩ := h
  refine ⟨members ++ [(key, ts, n)],
    listed (members.map fun m => .string m.1 :: .colon :: m.2.1) ++ .string key :: .colon :: ts,
    List.forall_mem_append.2 ⟨hm, List.forall_mem_singleton.2 ht⟩, ?_, ?_, by simp⟩
  · rw [List.reverse_cons, hf, List.map_append]
    rfl
  · rw [List.map_append]
    exact Next.spells_separator (.string key :: .colon :: ts)

/-- The key of a member of an object. -/
theorem Spells.key {found : List (Node × Node)} {next : Next} (h : (object found next).Spells above)
    (hn : next = .first ∨ next = .item) (k : Node) :
    (object found (.colon k)).Spells (above ++ [.string k]) := by
  obtain ⟨members, us, hm, hf, hs, rfl⟩ := h
  obtain rfl := hs.eq_listed hn
  exact ⟨members, _, hm, hf, rfl, rfl⟩

/-- The end of an array. -/
theorem Spells.tree_array {found : List Node} {next : Next} (h : (array found next).Spells above)
    (hn : next = .first ∨ next = .separator) :
    Tree (above ++ [.closeArray]) (.sequence found.reverse) := by
  obtain ⟨items, us, hi, hf, hs, rfl⟩ := h
  rw [hf, hs.eq_intercalate hn]
  exact .array hi

/-- The end of an object. -/
theorem Spells.tree_object {found : List (Node × Node)} {next : Next}
    (h : (object found next).Spells above) (hn : next = .first ∨ next = .separator) :
    Tree (above ++ [.closeObject]) (.mapping found.reverse) := by
  obtain ⟨members, us, hm, hf, hs, rfl⟩ := h
  rw [hf, hs.eq_intercalate hn]
  exact .object hm

/-- A comma after an item. -/
theorem Spells.comma_array {found : List Node} (h : (array found .separator).Spells above) :
    (array found .item).Spells (above ++ [.comma]) := by
  obtain ⟨items, us, hi, hf, ⟨hn, rfl⟩, rfl⟩ := h
  exact ⟨items, _, hi, hf, (listed_eq hn).symm, rfl⟩

/-- A comma after a member. -/
theorem Spells.comma_object {found : List (Node × Node)}
    (h : (object found .separator).Spells above) :
    (object found .item).Spells (above ++ [.comma]) := by
  obtain ⟨members, us, hm, hf, ⟨hn, rfl⟩, rfl⟩ := h
  exact ⟨members, _, hm, hf, (listed_eq hn).symm, rfl⟩

/-- The colon after a key. -/
theorem Spells.colon {found : List (Node × Node)} {key : Node}
    (h : (object found (.colon key)).Spells above) :
    (object found (.value key)).Spells (above ++ [.colon]) := by
  obtain ⟨members, us, hm, hf, rfl, rfl⟩ := h
  exact ⟨members, _, hm, hf, rfl, by simp⟩

end Frame

/-- The tokens of open containers, the innermost first. Each stands where a value may come in the
    one around it. -/
def Stack : List Frame → List Token → Prop
  | [], ts => ts = []
  | f :: rest, ts => ∃ below above, Stack rest below ∧
      (∀ depth, (⟨rest, depth, none, false⟩ : Build).takesValue) ∧ f.Spells above ∧
        ts = below ++ above

/-- The tokens that have led to a state. -/
inductive Build.Spells : Build → List Token → Prop
  | within {frames : List Frame} {depth : Nat} {ts : List Token} :
    Stack frames ts → Spells ⟨frames, depth, none, false⟩ ts
  | done {depth : Nat} {n : Node} {ts : List Token} :
    Tree ts n → Spells ⟨[], depth, some n, false⟩ ts

namespace Build

variable {frames : List Frame} {depth : Nat} {us ts : List Token} {n : Node}

/-- The innermost container goes on. -/
theorem spells_next {f f' : Frame} {rest : List Frame} (hs : Stack (f :: rest) us)
    (hf : ∀ above, f.Spells above → f'.Spells (above ++ ts)) :
    Spells ⟨f' :: rest, depth, none, false⟩ (us ++ ts) := by
  obtain ⟨below, above, hs, hrest, ha, rfl⟩ := hs
  exact .within ⟨below, _, hs, hrest, hf above ha, List.append_assoc _ _ _⟩

/-- A value is put where it belongs. -/
theorem spells_put (hs : Stack frames us)
    (hv : (⟨frames, depth, none, false⟩ : Build).takesValue) (ht : Tree ts n) :
    ((⟨frames, depth, none, false⟩ : Build).put n).Spells (us ++ ts) := by
  match frames with
  | [] =>
    obtain rfl : us = [] := hs
    exact .done ht
  | .array found next :: rest =>
    have ready : next = .first ∨ next = .item := by
      cases next <;> simp [takesValue] at hv ⊢
    exact spells_next hs fun _ ha => ha.item ready ht
  | .object found next :: rest =>
    obtain ⟨key, rfl⟩ : ∃ key, next = .value key := by
      cases next <;> simp [takesValue] at hv ⊢
    exact spells_next hs fun _ ha => ha.value ht

/-- A key is put where it belongs. -/
theorem spells_put_key (hs : Stack frames us)
    (hk : (⟨frames, depth, none, false⟩ : Build).takesKey) :
    ((⟨frames, depth, none, false⟩ : Build).put n).Spells (us ++ [.string n]) := by
  match frames with
  | .object found next :: rest =>
    have ready : next = .first ∨ next = .item := by
      cases next <;> simp [takesKey] at hk ⊢
    have put : (⟨.object found next :: rest, depth, none, false⟩ : Build).put n =
        ⟨.object found (.colon n) :: rest, depth, none, false⟩ := by
      rcases ready with rfl | rfl <;> rfl
    rw [put]
    exact spells_next hs fun _ ha => ha.key ready n

/-- A container is opened. -/
theorem spells_push (hs : Stack frames us)
    (hv : (⟨frames, depth, none, false⟩ : Build).takesValue) {f : Frame} {t : Token}
    (hf : f.Spells [t]) : ((⟨frames, depth, none, false⟩ : Build).push f).Spells (us ++ [t]) :=
  .within ⟨us, [t], hs, fun _ => hv, hf, rfl⟩

/-- A container is closed. -/
theorem spells_pop {f : Frame} {rest : List Frame} (hs : Stack (f :: rest) us) {t : Token}
    (hf : ∀ above, f.Spells above → Tree (above ++ [t]) n) :
    ((⟨f :: rest, depth, none, false⟩ : Build).pop rest n).Spells (us ++ [t]) := by
  obtain ⟨below, above, hs, hrest, ha, rfl⟩ := hs
  rw [List.append_assoc]
  exact spells_put hs (hrest _) ((hf above ha).close _)

theorem failed_fail (b : Build) (n : Node) : (b.fail n).failed := by
  rw [fail]
  split <;> rfl

/-- One token more, unless it makes the text go wrong. -/
theorem spells_step {b : Build} (h : b.Spells ts) (t : Token) :
    (b.step t).failed ∨ (b.step t).Spells (ts ++ [t]) := by
  cases h with
  | done ht =>
    refine .inl ?_
    cases t <;> rfl
  | within hs =>
    rw [Build.step.eq_def, if_neg (by simp)]
    split
    · split
      · rename_i hv
        exact .inr (spells_push hs hv ⟨[], [], List.forall_mem_nil _, rfl, ⟨rfl, rfl⟩, rfl⟩)
      · exact .inl (failed_fail _ _)
    · split
      · rename_i hv
        exact .inr (spells_push hs hv ⟨[], [], List.forall_mem_nil _, rfl, ⟨rfl, rfl⟩, rfl⟩)
      · exact .inl (failed_fail _ _)
    · split
      · rename_i hv
        exact .inr (spells_put hs hv (.scalar _))
      · exact .inl (failed_fail _ _)
    · split
      · rename_i h
        rcases Bool.or_eq_true .. ▸ h with hv | hk
        · exact .inr (spells_put hs hv (.string _))
        · exact .inr (spells_put_key hs hk)
      · exact .inl (failed_fail _ _)
    · rename_i hb
      subst hb
      exact .inr (spells_pop hs fun _ ha => ha.tree_array (.inl rfl))
    · rename_i hb
      subst hb
      exact .inr (spells_pop hs fun _ ha => ha.tree_array (.inr rfl))
    · rename_i hb
      subst hb
      exact .inr (spells_pop hs fun _ ha => ha.tree_object (.inl rfl))
    · rename_i hb
      subst hb
      exact .inr (spells_pop hs fun _ ha => ha.tree_object (.inr rfl))
    · rename_i hb
      subst hb
      exact .inr (spells_next hs fun _ ha => ha.comma_array)
    · rename_i hb
      subst hb
      exact .inr (spells_next hs fun _ ha => ha.comma_object)
    · rename_i hb
      subst hb
      exact .inr (spells_next hs fun _ ha => ha.colon)
    · exact .inl (failed_fail _ _)

theorem step_of_failed {b : Build} (h : b.failed) (t : Token) : b.step t = b := by
  rw [Build.step.eq_def, if_pos h]

theorem failed_step_fault (b : Build) : (b.step .fault).failed := by
  rw [Build.step.eq_def]
  split
  · assumption
  · exact failed_fail b .fault

/-- What has gone wrong stays so. -/
theorem failed_foldl {b : Build} (h : b.failed) (ts : List Token) : (ts.foldl step b).failed := by
  induction ts with
  | nil => exact h
  | cons t ts ih => rwa [List.foldl_cons, step_of_failed h]

/-- Tokens with a fault among them go wrong. -/
theorem failed_of_fault_mem {b : Build} (h : .fault ∈ ts) : (ts.foldl step b).failed := by
  obtain ⟨before, after, rfl⟩ := List.append_of_mem h
  rw [List.foldl_append, List.foldl_cons]
  exact failed_foldl (failed_step_fault _) after

/-- The tokens of a state that has not gone wrong are those that have been read. -/
theorem spells_foldl (ts : List Token) :
    (ts.foldl step start).failed ∨ (ts.foldl step start).Spells ts := by
  induction ts using List.reverseRecOn with
  | nil => exact .inr (.within rfl)
  | append_singleton ts t ih =>
    rw [List.foldl_append, List.foldl_cons, List.foldl_nil]
    rcases ih with failed | spells
    · rw [step_of_failed failed]
      exact .inl failed
    · exact spells_step spells t

theorem root_of_finish {b : Build} (h : b.finish = (n, true)) :
    b.root = some n ∧ b.failed = false := by
  rw [finish] at h
  split at h
  · rename_i root hr
    obtain ⟨rfl, failed⟩ := Prod.mk.inj h
    exact ⟨hr, by simpa using failed⟩
  · cases (Prod.mk.inj h).2

end Build

/-- The tree of a text is one of its tokens. -/
theorem tree_eq {bytes : Bytes} {n : Node} (h : tree bytes = (n, true)) :
    ∃ ts, Token.Lexes bytes ts ∧ Tree ts n := by
  obtain ⟨root, well⟩ := Build.root_of_finish h
  rcases Token.lexes_ofBytes bytes with fault | lexes
  · rw [Build.failed_of_fault_mem fault] at well
    cases well
  · rcases Build.spells_foldl (Token.ofBytes bytes) with failed | spells
    · rw [failed] at well
      cases well
    · refine ⟨_, lexes, ?_⟩
      generalize (Token.ofBytes bytes).foldl Build.step .start = b at spells root
      cases spells with
      | within => cases root
      | done ht => exact Option.some.inj root ▸ ht

/-! ## Values -/

/-- A text with tokens of items and commas between them. -/
theorem exists_row {parts : List (List Token)} (hn : parts ≠ []) {bytes : Bytes}
    (h : Token.Lexes bytes ([.comma].intercalate parts)) :
    ∃ texts, List.Forall₂ Token.Lexes texts parts ∧
      ∀ items, List.Forall₂ Padded items texts → Row items bytes := by
  induction parts generalizing bytes with
  | nil => exact absurd rfl hn
  | cons part parts ih =>
    by_cases hp : parts = []
    · subst hp
      rw [List.intercalate_singleton] at h
      refine ⟨[bytes], .cons h .nil, fun items hi => ?_⟩
      cases hi with
      | cons hi hs =>
        cases hs
        exact .last hi
    · rw [List.intercalate_cons_of_ne_nil hp, List.append_assoc] at h
      obtain ⟨text, _, ht, hr, rfl⟩ := h.split
      obtain ⟨comma, more, hc, hm, rfl⟩ := hr.split
      obtain ⟨_, spelled, before, after, hb, ha, rfl⟩ := hc.padded
      cases spelled
      -- The white space around the comma is taken to the items beside it.
      obtain ⟨texts, hts, hrow⟩ := ih hp ((Token.Lexes.of_isBlank ha).append hm)
      have first : Token.Lexes (text ++ before) part := by
        have all := ht.append (.of_isBlank hb)
        rwa [List.append_nil] at all
      refine ⟨_ :: texts, .cons first hts, fun items hi => ?_⟩
      cases hi with
      | cons hi hs =>
        have row := Row.cons hi (hrow _ hs)
        simpa using row

/-- A text with tokens of items in brackets. -/
theorem exists_enclosed {opens closes : Token} {opening closing : UInt8}
    (ho : ∀ text, opens.IsSpelled text → text = [opening])
    (hc : ∀ text, closes.IsSpelled text → text = [closing]) {parts : List (List Token)}
    {bytes : Bytes} (h : Token.Lexes bytes (opens :: ([.comma].intercalate parts ++ [closes]))) :
    ∃ texts, List.Forall₂ Token.Lexes texts parts ∧ ∀ items, List.Forall₂ Padded items texts →
      ∃ text, Padded text bytes ∧ Enclosed opening closing items text := by
  obtain ⟨before, _, rest, hb, hopens, hr, rfl⟩ := h.uncons
  obtain rfl := ho _ hopens
  obtain ⟨inner, last, hi, hl, rfl⟩ := hr.split
  obtain ⟨_, hcloses, w, after, hw, ha, rfl⟩ := hl.padded
  obtain rfl := hc _ hcloses
  -- The white space before the last bracket is taken to what stands in the brackets.
  have hi : Token.Lexes (inner ++ w) ([.comma].intercalate parts) := by
    have all := hi.append (.of_isBlank hw)
    rwa [List.append_nil] at all
  have padded : Padded (opening :: (inner ++ w ++ [closing]))
      (before ++ [opening] ++ (inner ++ (w ++ [closing] ++ after))) :=
    ⟨before, after, hb, ha, by simp⟩
  by_cases hp : parts = []
  · subst hp
    refine ⟨[], .nil, fun items hi' => ?_⟩
    cases hi'
    exact ⟨_, padded, .empty hi.isBlank⟩
  · obtain ⟨texts, hts, hrow⟩ := exists_row hp hi
    exact ⟨texts, hts, fun items hi' => ⟨_, padded, .row (hrow items hi')⟩⟩

/-- Things of a third kind beside those of two related lists. -/
theorem exists_beside {α β γ : Type} {R : α → β → Prop} {S : γ → α → Prop} {T : γ → β → Prop}
    {as : List α} {bs : List β} (h : List.Forall₂ R as bs)
    (third : ∀ a, ∀ b ∈ bs, R a b → ∃ c, S c a ∧ T c b) :
    ∃ cs, List.Forall₂ S cs as ∧ List.Forall₂ T cs bs := by
  induction h with
  | nil => exact ⟨[], .nil, .nil⟩
  | cons hab _ ih =>
    rw [forall_comm] at third
    obtain ⟨c, hs, ht⟩ := third _ _ List.mem_cons_self hab
    obtain ⟨cs, hss, hts⟩ := ih fun a b hb => third b a (List.mem_cons_of_mem _ hb)
    exact ⟨c :: cs, .cons hs hss, .cons ht hts⟩

/-- A value as it is written, and the number that it is read as, if it is read as a natural one. -/
def Shows (value : Bytes) (n : Node) : Prop :=
  IsValue value ∧ ∀ i : Nat, n = .number (.integer i) → value = digitBytes i

/-- A key as it is written, without quotes, and the text that it is read as, if it is read as
    one. -/
def Names (key : Bytes) (n : Node) : Prop :=
  IsContent key ∧ ∀ t, n = .text t → Denotes key (Text.Utf8.encode t)

/-- A member as it is written, and the entry that it is read as. -/
def ShowsMember (item : Bytes) (e : Node × Node) : Prop :=
  ∃ key value, IsMember key value item ∧ Names key e.1 ∧ Shows value e.2

/-- The text of an array, and the items that are read of it. -/
def ShowsItems (text : Bytes) (nodes : List Node) : Prop :=
  ∃ items, InArray items text ∧ List.Forall₂ Shows items nodes

/-- The text of an object, and the entries that are read of it. -/
def ShowsMembers (text : Bytes) (entries : List (Node × Node)) : Prop :=
  ∃ items, InObject items text ∧ List.Forall₂ ShowsMember items entries

theorem ShowsItems.isValue {nodes : List Node} {text : Bytes} (h : ShowsItems text nodes) :
    IsValue text := by
  obtain ⟨items, hi, hs⟩ := h
  refine .array (fun item hm => ?_) hi
  obtain ⟨n, hn⟩ := exists_of_forall₂ hs.flip item hm
  exact hn.1

theorem ShowsMembers.isValue {entries : List (Node × Node)} {text : Bytes}
    (h : ShowsMembers text entries) : IsValue text := by
  obtain ⟨items, hi, hs⟩ := h
  obtain ⟨members, hm, -⟩ := exists_beside
    (S := fun (m : Bytes × Bytes) item => (IsContent m.1 ∧ IsValue m.2) ∧ IsMember m.1 m.2 item)
    (T := fun _ _ => True) hs fun item e _ he => by
      obtain ⟨key, value, hm, hk, hv⟩ := he
      exact ⟨(key, value), ⟨⟨hk.1, hv.1⟩, hm⟩, trivial⟩
  obtain ⟨each, hm⟩ := (List.forall₂_and_left members items).1 hm
  exact .object (fun m h => (each m h).1) (fun m h => (each m h).2) hm hi

/-- The text of an array, if the items have texts. -/
theorem exists_array {items : List (List Token × Node)}
    (hi : ∀ x ∈ items, ∀ bytes, Token.Lexes bytes x.1 → ∃ v, Padded v bytes ∧ Shows v x.2)
    {bytes : Bytes} (h : Token.Lexes bytes
      (.openArray :: ([.comma].intercalate (items.map (·.1)) ++ [.closeArray]))) :
    ∃ text, Padded text bytes ∧ ShowsItems text (items.map (·.2)) := by
  have opens (text : Bytes) (ht : Token.IsSpelled .openArray text) : text = [0x5B] := by
    cases ht
    rfl
  have closes (text : Bytes) (ht : Token.IsSpelled .closeArray text) : text = [0x5D] := by
    cases ht
    rfl
  obtain ⟨texts, hts, henclosed⟩ := exists_enclosed opens closes h
  rw [List.forall₂_map_right_iff] at hts
  obtain ⟨values, hp, hs⟩ := exists_beside hts fun text x hx => hi x hx text
  obtain ⟨text, padded, array⟩ := henclosed values hp
  exact ⟨text, padded, values, array, List.forall₂_map_right_iff.2 hs⟩

/-- The text of a member, if its value has one. -/
theorem exists_member {k n : Node} {ts : List Token}
    (hv : ∀ bytes, Token.Lexes bytes ts → ∃ v, Padded v bytes ∧ Shows v n) {bytes : Bytes}
    (h : Token.Lexes bytes (.string k :: .colon :: ts)) :
    ∃ item, Padded item bytes ∧ ShowsMember item (k, n) := by
  obtain ⟨before, _, rest, hb, hstring, hr, rfl⟩ := h.uncons
  obtain ⟨w, _, more, hw, hcolon, hm, rfl⟩ := hr.uncons
  obtain ⟨value, ⟨w', after, hw', ha, rfl⟩, hs⟩ := hv _ hm
  cases hcolon
  cases hstring with
  | @string s key hk =>
    exact ⟨quoted key ++ w ++ 0x3A :: (w' ++ value), ⟨before, after, hb, ha, by simp⟩,
      key, value, ⟨w, w', hw, hw', rfl⟩, ⟨hk.isContent, fun t ht => hk.denotes ht⟩, hs⟩

/-- The text of an object, if the values have texts. -/
theorem exists_object {members : List (Node × List Token × Node)}
    (hm : ∀ m ∈ members, ∀ bytes, Token.Lexes bytes m.2.1 → ∃ v, Padded v bytes ∧ Shows v m.2.2)
    {bytes : Bytes} (h : Token.Lexes bytes (.openObject ::
      ([.comma].intercalate (members.map fun m => .string m.1 :: .colon :: m.2.1) ++
        [.closeObject]))) :
    ∃ text, Padded text bytes ∧ ShowsMembers text (members.map fun m => (m.1, m.2.2)) := by
  have opens (text : Bytes) (ht : Token.IsSpelled .openObject text) : text = [0x7B] := by
    cases ht
    rfl
  have closes (text : Bytes) (ht : Token.IsSpelled .closeObject text) : text = [0x7D] := by
    cases ht
    rfl
  obtain ⟨texts, hts, henclosed⟩ := exists_enclosed opens closes h
  rw [List.forall₂_map_right_iff] at hts
  obtain ⟨items, hp, hs⟩ := exists_beside hts fun text m h => exists_member (hm m h)
  obtain ⟨text, padded, object⟩ := henclosed items hp
  exact ⟨text, padded, items, object, List.forall₂_map_right_iff.2 hs⟩

/-- A text with the tokens of a tree is a value. -/
theorem Tree.exists_value {ts : List Token} {n : Node} (h : Tree ts n) {bytes : Bytes}
    (hb : Token.Lexes bytes ts) : ∃ value, Padded value bytes ∧ Shows value n := by
  induction h generalizing bytes with
  | scalar n =>
    obtain ⟨text, spelled, padded⟩ := hb.padded
    refine ⟨text, padded, ?_⟩
    cases spelled with
    | word hw hn =>
      refine ⟨.word hw, ?_⟩
      rcases hn with rfl | ⟨b, rfl⟩ <;> simp
    | number hd he => exact ⟨.number (hd.isNumber he), fun i hi => hd.eq_digitBytes he hi⟩
  | string n =>
    obtain ⟨text, spelled, padded⟩ := hb.padded
    refine ⟨text, padded, ?_⟩
    cases spelled with
    | string hs =>
      refine ⟨.string hs.isContent, fun i hi => ?_⟩
      rw [Token.Scribe.value] at hi
      split at hi
      · cases hi
      · split at hi <;> cases hi
  | array _ ih =>
    obtain ⟨text, padded, hs⟩ := exists_array (fun x hx bytes => ih x hx) hb
    exact ⟨text, padded, hs.isValue, by simp⟩
  | object _ ih =>
    obtain ⟨text, padded, hs⟩ := exists_object (fun m hm bytes => ih m hm) hb
    exact ⟨text, padded, hs.isValue, by simp⟩
  | deep _ ih =>
    obtain ⟨text, padded, hs⟩ := ih hb
    exact ⟨text, padded, hs.1, by simp⟩

/-- The text of a tree that is an array. -/
theorem Tree.exists_items {ts : List Token} {nodes : List Node} (h : Tree ts (.sequence nodes))
    {bytes : Bytes} (hb : Token.Lexes bytes ts) :
    ∃ text, Padded text bytes ∧ ShowsItems text nodes := by
  cases h with
  | scalar => exact (hb.isAtom (.inl rfl)).elim
  | string => exact (hb.isAtom (.inr rfl)).elim
  | array hi => exact exists_array (fun x hx _ hl => (hi x hx).exists_value hl) hb

/-- The text of a tree that is an object. -/
theorem Tree.exists_members {ts : List Token} {entries : List (Node × Node)}
    (h : Tree ts (.mapping entries)) {bytes : Bytes} (hb : Token.Lexes bytes ts) :
    ∃ text, Padded text bytes ∧ ShowsMembers text entries := by
  cases h with
  | scalar => exact (hb.isAtom (.inl rfl)).elim
  | string => exact (hb.isAtom (.inr rfl)).elim
  | object hm => exact exists_object (fun m h _ hl => (hm m h).exists_value hl) hb

/-- A text is read to its end without a fault if it is a value, with white space around it, and
    no other text is. -/
theorem tree_complete_iff {bytes : Bytes} :
    (tree bytes).2 = true ↔ ∃ value, IsValue value ∧ Padded value bytes := by
  constructor
  · intro h
    obtain ⟨ts, hb, ht⟩ := tree_eq (Prod.ext rfl h : tree bytes = ((tree bytes).1, true))
    obtain ⟨value, hp, hv, -⟩ := ht.exists_value hb
    exact ⟨value, hv, hp⟩
  · rintro ⟨value, hv, hp⟩
    obtain ⟨n, -, hn⟩ := hv.reads.tree hp
    rw [hn]

/-- The tree of a text that is read has no fault. -/
theorem isWellFormed_of_tree {bytes : Bytes} {n : Node} (h : tree bytes = (n, true)) :
    n.isWellFormed := by
  obtain ⟨value, hv, hp⟩ := tree_complete_iff.1 (congrArg Prod.snd h)
  obtain ⟨n', hw, hn⟩ := hv.reads.tree hp
  obtain rfl := congrArg Prod.fst (h.symm.trans hn)
  exact hw

end InferenceGateway.Json
