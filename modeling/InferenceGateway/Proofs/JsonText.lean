import InferenceGateway.Json.Printer

/-!
# The look of written JSON

A written value is one line, and it begins and ends with a visible character: one of a
number or of a word, a quote, a bracket or a brace. Within brackets it goes on with such a
character too, so a mark in brackets that begins with any other letter is no written value.

* `Json.chars_cases`: what a written value is from outside.
* `Json.exists_head_chars`, `Json.exists_last_chars`: how it begins and how it ends.
* `Json.le_of_mem_chars`: it has no control characters.
-/

namespace InferenceGateway

/-! ## Numbers -/

/-- A character of a number or of a word. -/
def Json.IsBare (c : Char) : Prop :=
  c.isDigit ∨ c ∈ ['+', '-', '.', 'a', 'e', 'f', 'l', 'n', 'r', 's', 't', 'u']

instance (c : Char) : Decidable (Json.IsBare c) := inferInstanceAs (Decidable (_ ∨ _))

/-- A row of such characters. -/
structure Json.IsWord (cs : List Char) : Prop where
  ne_nil : cs ≠ []
  bare : ∀ c ∈ cs, IsBare c

namespace Json

theorem isBare_zero : IsBare '0' := .inl (by decide)

theorem isBare_point : IsBare '.' := .inr (by decide)

theorem IsWord.of_all {cs : List Char} (hn : cs ≠ []) (h : cs.all (IsBare ·)) : IsWord cs :=
  ⟨hn, by simpa using h⟩

theorem isWord_null : IsWord ['n', 'u', 'l', 'l'] := .of_all (by decide) (by decide)

/-- A sign may stand before a word. -/
theorem IsWord.negative {cs : List Char} (h : IsWord cs) : IsWord ('-' :: cs) where
  ne_nil := List.cons_ne_nil _ _
  bare := List.forall_mem_cons.2 ⟨.inr (by decide), h.bare⟩

end Json

namespace Numeral

open Json

theorem isWord_digitsOf (n : Nat) : IsWord (digitsOf n) where
  ne_nil := Nat.toDigits_ne_nil
  bare _ hc := .inl (Nat.isDigit_of_mem_toDigits (by decide) (by decide) hc)

theorem isBare_of_mem_zeros {n : Nat} : ∀ c ∈ zeros n, IsBare c := by
  intro c hc
  rw [List.eq_of_mem_replicate hc]
  exact isBare_zero

namespace Decimal

variable (d : Decimal)

theorem isWord_positional (pointed : Bool) : IsWord (d.positional pointed) := by
  have hd := isWord_digitsOf d.digits
  have take (k : Nat) : ∀ c ∈ (digitsOf d.digits).take k, IsBare c :=
    fun c hc => hd.bare c (List.mem_of_mem_take hc)
  have drop (k : Nat) : ∀ c ∈ (digitsOf d.digits).drop k, IsBare c :=
    fun c hc => hd.bare c (List.mem_of_mem_drop hc)
  rw [positional]
  split
  · refine ⟨by simp [hd.ne_nil], ?_⟩
    have hp : ∀ c ∈ if pointed then ['.', '0'] else [], IsBare c := by
      cases pointed <;> simp [isBare_point, isBare_zero]
    exact List.forall_mem_append.2 ⟨List.forall_mem_append.2 ⟨hd.bare, isBare_of_mem_zeros⟩, hp⟩
  · split
    · exact ⟨by simp, List.forall_mem_append.2
        ⟨take _, List.forall_mem_cons.2 ⟨isBare_point, drop _⟩⟩⟩
    · exact ⟨by simp, List.forall_mem_append.2 ⟨List.forall_mem_cons.2 ⟨isBare_zero,
        List.forall_mem_cons.2 ⟨isBare_point, isBare_of_mem_zeros⟩⟩, hd.bare⟩⟩

theorem isWord_scientific : IsWord d.scientific := by
  have hd := isWord_digitsOf d.digits
  have take (k : Nat) : ∀ c ∈ (digitsOf d.digits).take k, IsBare c :=
    fun c hc => hd.bare c (List.mem_of_mem_take hc)
  have drop (k : Nat) : ∀ c ∈ (digitsOf d.digits).drop k, IsBare c :=
    fun c hc => hd.bare c (List.mem_of_mem_drop hc)
  have fraction : ∀ c ∈ if ((digitsOf d.digits).drop 1).isEmpty then []
      else '.' :: (digitsOf d.digits).drop 1, IsBare c := by
    split
    · nofun
    · exact List.forall_mem_cons.2 ⟨isBare_point, drop 1⟩
  have sign (e : Int) : IsBare (if e < 0 then '-' else '+') := by
    split <;> exact .inr (by decide)
  refine ⟨by simp [scientific], List.forall_mem_append.2
    ⟨List.forall_mem_append.2 ⟨take 1, fraction⟩, List.forall_mem_cons.2 ⟨.inr (by decide),
      List.forall_mem_cons.2 ⟨sign _, (isWord_digitsOf _).bare⟩⟩⟩⟩

/-- A decimal is a word. -/
theorem isWord_text (l : Layout) : IsWord (d.text l) := by
  rw [text]
  split
  · exact d.isWord_positional _
  · exact d.isWord_scientific

end Decimal

theorem Binary.isWord_finiteText (f : Format) (l : Layout) (negative : Bool) (m : Nat) (e : Int) :
    IsWord (Binary.finiteText f l negative m e).toList := by
  have magnitude : IsWord (if m = 0 then '0' :: (if l.pointed then ['.', '0'] else [])
      else (f.shortest m e).text l) := by
    split
    · refine ⟨List.cons_ne_nil _ _, List.forall_mem_cons.2 ⟨isBare_zero, ?_⟩⟩
      cases l.pointed <;> simp [isBare_point, isBare_zero]
    · exact Decimal.isWord_text _ l
  rw [Binary.finiteText, String.toList_ofList]
  cases negative
  · exact magnitude
  · exact magnitude.negative

/-- A binary number in JSON is a word. -/
theorem Binary.isWord_finiteOrNull (f : Format) (l : Layout) (x : Binary) :
    IsWord (x.finiteOrNull f l).toList := by
  cases x with
  | finite negative m e => exact isWord_finiteText f l negative m e
  | infinite | nan =>
    show IsWord "null".toList
    rw [(by decide +kernel : "null".toList = ['n', 'u', 'l', 'l'])]
    exact isWord_null

end Numeral

/-! ## Values -/

namespace Json

theorem isWord_bool (b : Bool) : IsWord (chars (.bool b)) := by
  cases b <;> exact .of_all (by decide) (by decide +kernel)

theorem isWord_integerChars (n : Int) : IsWord (integerChars n) := by
  rw [integerChars]
  split
  · exact (Numeral.isWord_digitsOf _).negative
  · exact Numeral.isWord_digitsOf _

/-- A character that a written value begins or ends with. -/
def IsEdge (c : Char) : Prop := IsBare c ∨ c ∈ ['"', '[', ']', '\x7b', '\x7d']

instance (c : Char) : Decidable (IsEdge c) := inferInstanceAs (Decidable (_ ∨ _))

/-- Such a character is visible, and one of ASCII. -/
theorem IsEdge.visible {c : Char} (h : IsEdge c) : 0x20 < c.toNat ∧ c.toNat < 0x7F := by
  have visible : (['+', '-', '.', 'a', 'e', 'f', 'l', 'n', 'r', 's', 't', 'u'] ++
      ['"', '[', ']', '\x7b', '\x7d']).all (fun c => 0x20 < c.toNat ∧ c.toNat < 0x7F) := by decide
  have all (c : Char) (hc : c ∈ _) := of_decide_eq_true (List.all_eq_true.1 visible c hc)
  rcases h with (h | h) | h
  · simp only [Char.isDigit, Bool.and_eq_true, decide_eq_true_eq] at h
    exact ⟨Nat.lt_of_lt_of_le (by decide : 0x20 < '0'.toNat) h.1,
      Nat.lt_of_le_of_lt h.2 (by decide : '9'.toNat < 0x7F)⟩
  · exact all c (List.mem_append_left _ h)
  · exact all c (List.mem_append_right _ h)

theorem IsBare.le {c : Char} (h : IsBare c) : 0x20 ≤ c.toNat :=
  Nat.le_of_lt (IsEdge.visible (.inl h)).1

/-- Further items end in a bracket. -/
theorem itemChars_eq (items : List Json) : ∃ front, itemChars items = front ++ [']'] := by
  induction items with
  | nil => exact ⟨[], rfl⟩
  | cons j items ih =>
    obtain ⟨front, hf⟩ := ih
    exact ⟨',' :: (chars j ++ front), by simp [itemChars, hf]⟩

/-- Further members end in a brace. -/
theorem memberChars_eq (members : List (String × Json)) :
    ∃ front, memberChars members = front ++ ['\x7d'] := by
  induction members with
  | nil => exact ⟨[], rfl⟩
  | cons m members ih =>
    obtain ⟨front, hf⟩ := ih
    exact ⟨',' :: (quote m.1 ++ ':' :: (chars m.2 ++ front)), by simp [memberChars, hf]⟩

/-- A written value is a word, or it stands between quotes, brackets or braces. -/
theorem chars_cases (j : Json) : IsWord (chars j) ∨
    (∃ inner, chars j = '"' :: (inner ++ ['"'])) ∨
    (∃ inner, chars j = '[' :: (inner ++ [']']) ∧
      (inner = [] ∨ ∃ item more, inner = chars item ++ more)) ∨
    ∃ inner, chars j = '\x7b' :: (inner ++ ['\x7d']) := by
  cases j with
  | null => exact .inl isWord_null
  | bool b => exact .inl (isWord_bool b)
  | integer n => exact .inl (isWord_integerChars n)
  | real x => exact .inl (x.isWord_finiteOrNull _ _)
  | single x => exact .inl (x.isWord_finiteOrNull _ _)
  | text s => exact .inr (.inl ⟨_, rfl⟩)
  | array items =>
    refine .inr (.inr (.inl ?_))
    rcases items with _ | ⟨j, items⟩
    · exact ⟨[], rfl, .inl rfl⟩
    · obtain ⟨front, hf⟩ := itemChars_eq items
      exact ⟨chars j ++ front, by simp [chars, hf], .inr ⟨j, front, rfl⟩⟩
  | object members =>
    refine .inr (.inr (.inr ?_))
    rcases members with _ | ⟨⟨name, j⟩, members⟩
    · exact ⟨[], rfl⟩
    · obtain ⟨front, hf⟩ := memberChars_eq members
      exact ⟨quote name ++ ':' :: (chars j ++ front), by simp [chars, hf]⟩

/-- How a written value begins. -/
theorem exists_head_chars (j : Json) : ∃ c rest, chars j = c :: rest ∧ IsEdge c := by
  rcases chars_cases j with h | ⟨_, h⟩ | ⟨_, h, -⟩ | ⟨_, h⟩
  · obtain ⟨c, rest, hc⟩ := List.exists_cons_of_ne_nil h.ne_nil
    exact ⟨c, rest, hc, .inl (h.bare c (by simp [hc]))⟩
  all_goals exact ⟨_, _, h, .inr (by decide)⟩

/-- How a written value ends. -/
theorem exists_last_chars (j : Json) : ∃ front c, chars j = front ++ [c] ∧ IsEdge c := by
  rcases chars_cases j with h | ⟨_, h⟩ | ⟨_, h, -⟩ | ⟨_, h⟩
  · exact ⟨_, _, (List.dropLast_concat_getLast h.ne_nil).symm,
      .inl (h.bare _ (List.getLast_mem h.ne_nil))⟩
  all_goals exact ⟨_ :: _, _, h, .inr (by decide)⟩

/-- What a written value in brackets begins with. -/
theorem isEdge_of_chars_eq {j : Json} {c : Char} {rest : List Char}
    (h : chars j = '[' :: c :: rest) : IsEdge c := by
  rcases chars_cases j with hw | ⟨inner, hi⟩ | ⟨inner, hi, he⟩ | ⟨inner, hi⟩
  · have := hw.bare '[' (by simp [h])
    exact absurd this (by decide)
  · simp [h] at hi
  · rw [h, List.cons.injEq] at hi
    rcases he with rfl | ⟨item, more, rfl⟩
    · obtain ⟨rfl, -⟩ := List.cons.inj hi.2
      exact .inr (by decide)
    · obtain ⟨d, rest', hd, he⟩ := exists_head_chars item
      rw [hd] at hi
      obtain ⟨rfl, -⟩ := List.cons.inj hi.2
      exact he
  · simp [h] at hi

theorem le_of_mem_quote {s : String} {c : Char} (h : c ∈ quote s) : 0x20 ≤ c.toNat := by
  simp only [quote, List.cons_append, List.mem_cons, List.mem_append, List.mem_flatMap,
    List.not_mem_nil, or_false] at h
  rcases h with rfl | ⟨d, -, hd⟩ | rfl
  · decide
  · exact le_of_mem_escape hd
  · decide

mutual

/-- A written value has no control characters. -/
theorem le_of_mem_chars {c : Char} : (j : Json) → c ∈ chars j → 0x20 ≤ c.toNat
  | .null, h => (isWord_null.bare c h).le
  | .bool b, h => ((isWord_bool b).bare c h).le
  | .integer n, h => ((isWord_integerChars n).bare c h).le
  | .real x, h => ((x.isWord_finiteOrNull _ _).bare c h).le
  | .single x, h => ((x.isWord_finiteOrNull _ _).bare c h).le
  | .text _, h => le_of_mem_quote h
  | .array [], h => by
    simp only [chars, List.mem_cons, List.not_mem_nil, or_false] at h
    rcases h with rfl | rfl <;> decide
  | .array (j :: items), h => by
    simp only [chars, List.mem_cons, List.mem_append] at h
    rcases h with rfl | h | h
    · decide
    · exact le_of_mem_chars j h
    · exact le_of_mem_itemChars items h
  | .object [], h => by
    simp only [chars, List.mem_cons, List.not_mem_nil, or_false] at h
    rcases h with rfl | rfl <;> decide
  | .object ((name, j) :: members), h => by
    simp only [chars, List.mem_cons, List.mem_append] at h
    rcases h with rfl | h | rfl | h | h
    · decide
    · exact le_of_mem_quote h
    · decide
    · exact le_of_mem_chars j h
    · exact le_of_mem_memberChars members h

/-- The further items of an array have no control characters. -/
theorem le_of_mem_itemChars {c : Char} : (items : List Json) → c ∈ itemChars items → 0x20 ≤ c.toNat
  | [], h => by
    obtain rfl := List.mem_singleton.1 h
    decide
  | j :: items, h => by
    simp only [itemChars, List.mem_cons, List.mem_append] at h
    rcases h with rfl | h | h
    · decide
    · exact le_of_mem_chars j h
    · exact le_of_mem_itemChars items h

/-- The further members of an object have no control characters. -/
theorem le_of_mem_memberChars {c : Char} : (members : List (String × Json)) →
    c ∈ memberChars members → 0x20 ≤ c.toNat
  | [], h => by
    obtain rfl := List.mem_singleton.1 h
    decide
  | (name, j) :: members, h => by
    simp only [memberChars, List.mem_cons, List.mem_append] at h
    rcases h with rfl | h | rfl | h | h
    · decide
    · exact le_of_mem_quote h
    · decide
    · exact le_of_mem_chars j h
    · exact le_of_mem_memberChars members h

end

end Json

end InferenceGateway
