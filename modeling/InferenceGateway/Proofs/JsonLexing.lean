import InferenceGateway.Proofs.JsonGrammar
import InferenceGateway.Proofs.JsonTrees
import Mathlib.Data.List.Induction

/-!
# The tokens of a text

The machine for tokens finds those that stand in the text, or it finds a fault. Each token has one
of the texts that the grammar gives it (`Token.IsSpelled`), and between the tokens of a text there
is white space only (`Token.Lexes`).

For each state of the machine it is said which bytes have led to it since the last token
(`Token.Mode.Pending`); one step adds its byte to them. What a number or a string will mean is said
in the same way, of the part of it that has been read (`Draft.Spells`, `Scribe.Spells`).

* `Token.Draft.Spells.eq_digitBytes`: natural numbers are written with their digits alone.
* `Token.Scribe.Spells.denotes`: a string that is read as a text stands for its bytes.
* `Token.follows_step`: one step of the machine.
* `Token.lexes_ofBytes`: the tokens of a text.
-/

namespace InferenceGateway.Json

open Grammar Numeral Document

namespace Token

/-! ## Numbers -/

theorem le_of_digit? {b : UInt8} {k : Nat} (h : digit? b = some k) :
    (0x30 ≤ b ∧ b ≤ 0x39) ∧ k < 10 ∧ b = digitByte k := by
  rw [digit?] at h
  split at h
  · rename_i hb
    obtain rfl := Option.some.inj h
    rw [Bool.and_eq_true, decide_eq_true_eq, decide_eq_true_eq] at hb
    have hl : 0x30 ≤ b.toNat := UInt8.le_iff_toNat_le.1 hb.1
    have hh : b.toNat ≤ 0x39 := UInt8.le_iff_toNat_le.1 hb.2
    exact ⟨hb, by omega, (Text.ofNat_of_eq (by omega)).symm⟩
  · cases h

theorem isDigits_singleton {b : UInt8} {k : Nat} (h : digit? b = some k) : IsDigits [b] :=
  ⟨List.cons_ne_nil _ _, List.forall_mem_singleton.2 (le_of_digit? h).1⟩

theorem isDigits_concat {ds : Bytes} (hd : IsDigits ds) {b : UInt8} {k : Nat}
    (h : digit? b = some k) : IsDigits (ds ++ [b]) :=
  ⟨by simp, List.forall_mem_append.2 ⟨hd.2, (isDigits_singleton h).2⟩⟩

/-- A number that is read as a natural number has no sign, no fraction and no exponent. -/
theorem Draft.literal_of_value {d : Draft} {n : Nat} (hv : d.value = .number (.integer n)) :
    d.negative = false ∧ d.fraction = [] ∧ d.exponent = [] ∧ valueOf d.whole.reverse = n := by
  have integer : d.literal.integer? = some (n : Int) := by
    rw [Draft.value, Literal.jsonNumber] at hv
    cases hi : d.literal.integer? with
    | some i => simpa [hi] using hv
    | none =>
      rw [hi] at hv
      cases hs : d.literal.scaled <;> simp [hs] at hv
  rw [Literal.integer?, Draft.literal] at integer
  rcases hf : d.fraction with _ | ⟨_, _⟩
  · rcases he : d.exponent with _ | ⟨_, _⟩
    · simp only [hf, he, List.isEmpty_nil, if_true] at integer
      split at integer
      · -- With a sign, the value would not be that of a natural number.
        split at integer
        · rename_i hn
          simp only [Bool.and_eq_true, decide_eq_true_eq, Option.some.injEq] at integer hn
          omega
        · cases integer
      · rename_i negative
        split at integer
        · exact ⟨by simpa using negative, rfl, rfl, by simpa using integer⟩
        · cases integer
    · simp [hf, he] at integer
  · simp [hf] at integer

/-- What a byte that is no digit begins. -/
theorem Draft.extend_other {d : Draft} {b : UInt8} (hk : digit? b = none) : d.extend b =
    if b = 0x2E && (d.part = .zero || d.part = .whole) then some { d with part := .point }
    else if (b = 0x65 || b = 0x45) && (d.part = .zero || d.part = .whole || d.part = .fraction) then
      some { d with part := .mark }
    else if (b = 0x2B || b = 0x2D) && d.part = .mark then
      some { d with part := .exponentSign, exponentNegative := b = 0x2D }
    else none := by
  rw [Draft.extend, hk]
  cases d.part <;> rfl

/-- The bytes that end in a part of a number. -/
def Part.Ends (p : Part) (bytes : Bytes) : Prop :=
  match p with
  | .sign => bytes = [0x2D]
  | .zero => IsInteger bytes
  | .whole => ∃ sign ds, sign ∈ [[], [0x2D]] ∧ IsDigits ds ∧ ds.head? ≠ some 0x30 ∧
      bytes = sign ++ ds
  | .point => ∃ front, IsInteger front ∧ bytes = front ++ [0x2E]
  | .fraction => ∃ front ds, IsInteger front ∧ IsDigits ds ∧ bytes = front ++ 0x2E :: ds
  | .mark => ∃ front mark, IsDecimal front ∧ mark ∈ [0x65, 0x45] ∧ bytes = front ++ [mark]
  | .exponentSign => ∃ front mark sign, IsDecimal front ∧ mark ∈ [0x65, 0x45] ∧
      sign ∈ [0x2B, 0x2D] ∧ bytes = front ++ [mark, sign]
  | .exponent => ∃ front mark sign ds, IsDecimal front ∧ mark ∈ [0x65, 0x45] ∧
      sign ∈ [[], [0x2B], [0x2D]] ∧ IsDigits ds ∧ bytes = front ++ mark :: (sign ++ ds)

/-- The text of a number so far. -/
structure Draft.Spells (d : Draft) (text : Bytes) : Prop where
  ends : d.part.Ends text
  signed : d.part = .sign → d.negative
  /-- Digits without a sign are those of a natural number. -/
  natural : d.part = .zero ∨ d.part = .whole → d.negative = false →
    ∃ n, d.Writes n ∧ text = digitBytes n
  fraction : d.part = .fraction → d.fraction ≠ []
  exponent : d.part = .exponent → d.exponent ≠ []

namespace Draft.Spells

variable {d : Draft} {text : Bytes}

theorem isInteger (h : d.Spells text) (hp : d.part = .zero ∨ d.part = .whole) : IsInteger text := by
  have ends := h.ends
  rcases hp with hp | hp <;> rw [hp] at ends
  · exact ends
  · obtain ⟨sign, ds, hs, hd, hz, rfl⟩ := ends
    exact ⟨sign, ds, hs, .inr ⟨hd, hz⟩, rfl⟩

theorem isDecimal (h : d.Spells text)
    (hp : d.part = .zero ∨ d.part = .whole ∨ d.part = .fraction) : IsDecimal text := by
  rcases or_assoc.2 hp with hp | hp
  · exact ⟨text, [], h.isInteger hp, .inl rfl, (List.append_nil _).symm⟩
  · have ends := h.ends
    rw [hp] at ends
    obtain ⟨front, ds, hf, hd, rfl⟩ := ends
    exact ⟨front, _, hf, .inr ⟨ds, hd, rfl⟩, rfl⟩

/-- What can end as a number is a number. -/
theorem isNumber (h : d.Spells text) (he : d.canEnd) : IsNumber text := by
  simp only [canEnd, Bool.or_eq_true, decide_eq_true_eq] at he
  rcases he with he | he
  · exact ⟨text, [], h.isDecimal (or_assoc.1 he), .inl rfl, (List.append_nil _).symm⟩
  · have ends := h.ends
    rw [he] at ends
    obtain ⟨front, mark, sign, ds, hf, hm, hs, hd, rfl⟩ := ends
    exact ⟨front, _, hf, .inr ⟨mark, sign, ds, hm, hs, hd, rfl⟩, rfl⟩

/-- A number that is read as a natural number is written with its digits. -/
theorem eq_digitBytes (h : d.Spells text) (he : d.canEnd) {n : Nat}
    (hv : d.value = .number (.integer n)) : text = digitBytes n := by
  obtain ⟨negative, fraction, exponent, whole⟩ := Draft.literal_of_value hv
  have part : d.part = .zero ∨ d.part = .whole := by
    simp only [canEnd, Bool.or_eq_true, decide_eq_true_eq] at he
    rcases he with (he | he) | he
    · exact he
    · exact absurd fraction (h.fraction he)
    · exact absurd exponent (h.exponent he)
  obtain ⟨m, hw, rfl⟩ := h.natural part negative
  rw [← hw.whole, whole]

/-- A first digit, after a sign or without one. -/
theorem ends_digit {sign : Bytes} (hs : sign ∈ [[], [0x2D]]) {b : UInt8} {k : Nat}
    (hk : digit? b = some k) : (if k = 0 then Part.zero else .whole).Ends (sign ++ [b]) := by
  obtain ⟨hb, hl, rfl⟩ := le_of_digit? hk
  split
  · rename_i hz
    exact ⟨sign, [digitByte k], hs, .inl (by rw [hz]; rfl), rfl⟩
  · rename_i hz
    refine ⟨sign, [digitByte k], hs, isDigits_singleton hk, ?_, rfl⟩
    intro h
    have zero : digit? (digitByte k) = some 0 := by
      rw [Option.some.inj h]
      rfl
    exact hz (Option.some.inj (hk.symm.trans zero))

/-- A number that has come to its first digits. -/
theorem of_whole (hp : d.part = .zero ∨ d.part = .whole) (ends : d.part.Ends text)
    (natural : d.negative = false → ∃ n, d.Writes n ∧ text = digitBytes n) : d.Spells text where
  ends := ends
  signed h := by simp [h] at hp
  natural _ := natural
  fraction h := by simp [h] at hp
  exponent h := by simp [h] at hp

/-- A number that has come further. -/
theorem of_later (hp : d.part ∉ [.sign, .zero, .whole]) (ends : d.part.Ends text)
    (fraction : d.part = .fraction → d.fraction ≠ [])
    (exponent : d.part = .exponent → d.exponent ≠ []) : d.Spells text where
  ends := ends
  signed h := by simp [h] at hp
  natural h := by rcases h with h | h <;> simp [h] at hp
  fraction := fraction
  exponent := exponent

theorem zero_or_whole (k : Nat) : (if k = 0 then Part.zero else .whole) = .zero ∨
    (if k = 0 then Part.zero else .whole) = .whole := by
  split <;> simp

/-- The first byte of a number. -/
theorem start {b : UInt8} (h : Draft.start b = some d) : d.Spells [b] := by
  rw [Draft.start] at h
  split at h
  · rename_i hb
    obtain rfl := Option.some.inj h
    exact ⟨congrArg (· :: []) hb, fun _ => rfl, by simp, by simp, by simp⟩
  · obtain ⟨k, hk, rfl⟩ := Option.map_eq_some_iff.1 h
    obtain ⟨-, hl, rfl⟩ := le_of_digit? hk
    refine .of_whole (zero_or_whole k) (ends_digit List.mem_cons_self hk) fun _ => ?_
    exact ⟨k, ⟨rfl, rfl, rfl, rfl, by simp [valueOf]⟩, (digitBytes_of_lt hl).symm⟩

/-- One digit more before the point. -/
theorem extend_whole (h : d.Spells text) (hp : d.part = .whole) {b : UInt8} {k : Nat}
    (hk : digit? b = some k) : ({ d with whole := k :: d.whole } : Draft).Spells (text ++ [b]) := by
  have ends := h.ends
  rw [hp] at ends
  obtain ⟨sign, ds, hs, hd, hz, same⟩ := ends
  refine .of_whole (.inr hp) ?_ fun negative => ?_
  · show d.part.Ends _
    rw [hp, same]
    refine ⟨sign, ds ++ [b], hs, isDigits_concat hd hk, ?_, List.append_assoc _ _ _⟩
    rwa [List.head?_append_of_ne_nil _ hd.1]
  · obtain ⟨m, hw, hm⟩ := h.natural (.inr hp) negative
    have positive : 0 < m := by
      have part := hw.part
      rw [hp] at part
      split at part
      · cases part
      · omega
    obtain ⟨-, hl, rfl⟩ := le_of_digit? hk
    obtain ⟨d', he, hw'⟩ := hw.extend positive hl
    rw [Draft.extend, hk, hp] at he
    obtain rfl := Option.some.inj he
    rw [← hp] at hw'
    exact ⟨_, hw', by rw [hm, digitBytes_append positive hl]⟩

/-- One digit more. -/
theorem extend_digit (h : d.Spells text) {b : UInt8} {k : Nat} (hk : digit? b = some k) {d' : Draft}
    (he : d.extend b = some d') : d'.Spells (text ++ [b]) := by
  have ends := h.ends
  have digits := isDigits_singleton hk
  rw [Draft.extend, hk] at he
  cases hp : d.part with
  | sign =>
    rw [hp] at ends he
    obtain rfl := Option.some.inj he
    obtain rfl : text = [0x2D] := ends
    refine .of_whole (zero_or_whole k) (ends_digit (by simp) hk) fun negative => ?_
    rw [h.signed hp] at negative
    cases negative
  | zero =>
    rw [hp] at he
    cases he
  | whole =>
    have spells := h.extend_whole hp hk
    rw [hp] at he
    rw [hp] at spells
    exact Option.some.inj he ▸ spells
  | point =>
    rw [hp] at ends he
    obtain rfl := Option.some.inj he
    obtain ⟨front, hf, rfl⟩ := ends
    exact .of_later (by simp) ⟨front, [b], hf, digits, by simp⟩ (by simp) (by simp)
  | fraction =>
    rw [hp] at ends he
    obtain rfl := Option.some.inj he
    obtain ⟨front, ds, hf, hd, rfl⟩ := ends
    exact .of_later (by simp) ⟨front, ds ++ [b], hf, isDigits_concat hd hk, by simp⟩ (by simp)
      (by simp)
  | mark =>
    rw [hp] at ends he
    obtain rfl := Option.some.inj he
    obtain ⟨front, mark, hf, hm, rfl⟩ := ends
    exact .of_later (by simp) ⟨front, mark, [], [b], hf, hm, by simp, digits, by simp⟩ (by simp)
      (by simp)
  | exponentSign =>
    rw [hp] at ends he
    obtain rfl := Option.some.inj he
    obtain ⟨front, mark, sign, hf, hm, hs, rfl⟩ := ends
    have signs : [sign] ∈ [[], [0x2B], [0x2D]] := by simpa using hs
    exact .of_later (by simp) ⟨front, mark, [sign], [b], hf, hm, signs, digits, by simp⟩ (by simp)
      (by simp)
  | exponent =>
    rw [hp] at ends he
    obtain rfl := Option.some.inj he
    obtain ⟨front, mark, sign, ds, hf, hm, hs, hd, rfl⟩ := ends
    exact .of_later (by simp)
      ⟨front, mark, sign, ds ++ [b], hf, hm, hs, isDigits_concat hd hk, by simp⟩ (by simp) (by simp)

/-- One byte more. -/
theorem extend (h : d.Spells text) {b : UInt8} {d' : Draft} (he : d.extend b = some d') :
    d'.Spells (text ++ [b]) := by
  cases hk : digit? b with
  | some k => exact h.extend_digit hk he
  | none =>
    rw [Draft.extend_other hk] at he
    split at he
    · rename_i point
      obtain rfl := Option.some.inj he
      simp only [Bool.and_eq_true, Bool.or_eq_true, decide_eq_true_eq] at point
      obtain ⟨rfl, part⟩ := point
      exact .of_later (by simp) ⟨text, h.isInteger part, rfl⟩ (by simp) (by simp)
    split at he
    · rename_i mark
      obtain rfl := Option.some.inj he
      simp only [Bool.and_eq_true, Bool.or_eq_true, decide_eq_true_eq, or_assoc] at mark
      exact .of_later (by simp) ⟨text, b, h.isDecimal mark.2, by simpa using mark.1, rfl⟩ (by simp)
        (by simp)
    split at he
    · rename_i sign
      obtain rfl := Option.some.inj he
      simp only [Bool.and_eq_true, Bool.or_eq_true, decide_eq_true_eq] at sign
      have ends := h.ends
      rw [sign.2] at ends
      obtain ⟨front, mark, hf, hm, rfl⟩ := ends
      exact .of_later (by simp) ⟨front, mark, b, hf, hm, by simpa using sign.1, by simp⟩ (by simp)
        (by simp)
    · cases he

end Draft.Spells

/-! ## Strings -/

/-- The text of a string so far, without its first quote. -/
structure Scribe.Spells (s : Scribe) (content : Bytes) : Prop where
  isContent : IsContent content
  whole : s.broken = false → s.half = none → Denotes content s.bytes.reverse
  /-- A first half of a surrogate pair has been read last. -/
  half : s.broken = false → ∀ high, s.half = some high → ∃ before digits,
    content = before ++ 0x5C :: 0x75 :: digits ∧ IsCode digits high ∧ IsHigh high ∧
      Denotes before s.bytes.reverse

namespace Scribe.Spells

variable {s : Scribe} {content : Bytes}

theorem blank : Scribe.blank.Spells [] := ⟨.nil, fun _ _ => .nil, by simp [Scribe.blank]⟩

/-- More of the string, which stands for bytes. -/
theorem add (h : s.Spells content) {more bytes : Bytes} (hm : Denotes more bytes) :
    (s.add bytes).Spells (content ++ more) := by
  refine ⟨h.isContent.append hm.isContent, fun broken _ => ?_, by simp [Scribe.add]⟩
  obtain ⟨broken, half⟩ : s.broken = false ∧ s.half = none := by simpa [Scribe.add] using broken
  have whole := (h.whole broken half).append hm
  simpa [Scribe.add] using whole

/-- An escape by number more. -/
theorem addUnit (h : s.Spells content) {digits : Bytes} {n : Nat} (hn : IsCode digits n) :
    (s.addUnit n).Spells (content ++ 0x5C :: 0x75 :: digits) := by
  have code : IsContent (0x5C :: 0x75 :: digits) := by simpa using IsContent.code hn .nil
  have isContent := h.isContent.append code
  rw [Scribe.addUnit]
  split
  · rename_i low
    rw [Bool.and_eq_true, decide_eq_true_eq, decide_eq_true_eq] at low
    split
    · -- The second half of a pair.
      rename_i high hs
      refine ⟨isContent, fun broken _ => ?_, by simp⟩
      obtain ⟨before, first, rfl, hf, hh, hd⟩ := h.half broken high hs
      have pair := hd.append (.pair hf hh hn low .nil)
      simpa [charOf] using pair
    · exact ⟨isContent, by simp, by simp⟩
  · rename_i low
    split
    · rename_i high
      rw [Bool.and_eq_true, decide_eq_true_eq, decide_eq_true_eq] at high
      refine ⟨isContent, by simp, fun broken m hm => ?_⟩
      obtain rfl := Option.some.inj hm
      obtain ⟨broken, half⟩ : s.broken = false ∧ s.half = none := by simpa using broken
      exact ⟨content, digits, rfl, hn, high, h.whole broken half⟩
    · rename_i high
      have char : Denotes (0x5C :: 0x75 :: (digits ++ [])) (charOf n ++ []) :=
        .code hn (by simpa [IsHigh] using high) (by simpa [IsLow] using low) .nil
      rw [List.append_nil, List.append_nil] at char
      exact h.add char

/-- A string that is read as a text stands for the bytes of the text. -/
theorem denotes (h : s.Spells content) {t : String} (ht : s.value = .text t) :
    Denotes content (Text.Utf8.encode t) := by
  rw [Scribe.value] at ht
  split at ht
  · cases ht
  · rename_i ends
    obtain ⟨broken, half⟩ : s.broken = false ∧ s.half = none := by simpa using ends
    split at ht
    · rename_i decoded
      obtain rfl := Node.text.inj ht
      rw [← Text.Utf8.eq_encode_of_decode decoded]
      exact h.whole broken half
    · cases ht

end Scribe.Spells

/-! ## Tokens of a text -/

/-- The text of a token. -/
inductive IsSpelled : Token → Bytes → Prop
  | openArray : IsSpelled .openArray [0x5B]
  | closeArray : IsSpelled .closeArray [0x5D]
  | openObject : IsSpelled .openObject [0x7B]
  | closeObject : IsSpelled .closeObject [0x7D]
  | comma : IsSpelled .comma [0x2C]
  | colon : IsSpelled .colon [0x3A]
  | word {text : Bytes} {n : Node} :
    text ∈ words → (n = .null ∨ ∃ b, n = .bool b) → IsSpelled (.scalar n) text
  | number {d : Draft} {text : Bytes} : d.Spells text → d.canEnd → IsSpelled (.scalar d.value) text
  | string {s : Scribe} {content : Bytes} :
    s.Spells content → IsSpelled (.string s.value) (quoted content)

/-- A node without parts. -/
def IsAtom : Node → Prop
  | .sequence _ | .mapping _ => False
  | _ => True

/-- The value of a token has no parts. -/
theorem IsSpelled.isAtom {t : Token} {text : Bytes} (h : t.IsSpelled text) {n : Node}
    (ht : t = .scalar n ∨ t = .string n) : IsAtom n := by
  cases h with
  | word hw hn =>
    obtain rfl : _ = n := by simpa using ht
    rcases hn with rfl | ⟨b, rfl⟩ <;> exact trivial
  | @number d text hd he =>
    obtain rfl : d.value = n := by simpa using ht
    rw [Draft.value]
    split <;> exact trivial
  | @string s content hs =>
    obtain rfl : s.value = n := by simpa using ht
    rw [Scribe.value]
    split
    · exact trivial
    · split <;> exact trivial
  | _ => simp at ht

/-- The tokens that stand in a text, with white space between them. -/
inductive Lexes : Bytes → List Token → Prop
  | nil : Lexes [] []
  | blank {b : UInt8} {bytes : Bytes} {ts : List Token} :
    b ∈ [0x20, 0x09, 0x0A, 0x0D] → Lexes bytes ts → Lexes (b :: bytes) ts
  | token {t : Token} {text bytes : Bytes} {ts : List Token} :
    t.IsSpelled text → Lexes bytes ts → Lexes (text ++ bytes) (t :: ts)

namespace Lexes

variable {bytes xs ys : Bytes} {t : Token} {ts us : List Token}

theorem append (hx : Lexes xs ts) (hy : Lexes ys us) : Lexes (xs ++ ys) (ts ++ us) := by
  induction hx with
  | nil => exact hy
  | blank hb _ ih => exact .blank hb ih
  | token ht _ ih =>
    rw [List.append_assoc]
    exact .token ht ih

theorem single {text : Bytes} (h : t.IsSpelled text) : Lexes text [t] := by
  have one := Lexes.token h .nil
  rwa [List.append_nil] at one

theorem of_isBlank {w : Bytes} (h : IsBlank w) : Lexes w [] := by
  induction w with
  | nil => exact .nil
  | cons b w ih =>
    rw [IsBlank, List.forall_mem_cons] at h
    exact .blank h.1 (ih h.2)

/-- A text without tokens. -/
theorem isBlank (h : Lexes bytes []) : IsBlank bytes := by
  generalize hts : ([] : List Token) = ts at h
  induction h with
  | nil => exact .nil
  | blank hb _ ih => exact List.forall_mem_cons.2 ⟨hb, ih hts⟩
  | token => cases hts

/-- The first token of a text. -/
theorem uncons (h : Lexes bytes (t :: ts)) : ∃ w text rest,
    IsBlank w ∧ t.IsSpelled text ∧ Lexes rest ts ∧ bytes = w ++ text ++ rest := by
  generalize hus : t :: ts = us at h
  induction h with
  | nil => cases hus
  | blank hb _ ih =>
    obtain ⟨w, text, rest, hw, ht, hr, rfl⟩ := ih hus
    exact ⟨_ :: w, text, rest, List.forall_mem_cons.2 ⟨hb, hw⟩, ht, hr, rfl⟩
  | token ht hr =>
    obtain ⟨rfl, rfl⟩ := List.cons.inj hus
    exact ⟨[], _, _, .nil, ht, hr, rfl⟩

/-- A text with tokens in two parts. -/
theorem split (h : Lexes bytes (ts ++ us)) :
    ∃ xs ys, Lexes xs ts ∧ Lexes ys us ∧ bytes = xs ++ ys := by
  induction ts generalizing bytes with
  | nil => exact ⟨[], bytes, .nil, h, rfl⟩
  | cons t ts ih =>
    obtain ⟨w, text, rest, hw, ht, hr, rfl⟩ := h.uncons
    obtain ⟨xs, ys, hx, hy, rfl⟩ := ih hr
    exact ⟨w ++ (text ++ xs), ys, (of_isBlank hw).append (.token ht hx), hy, by simp⟩

/-- A text with one token is the text of the token, with white space around it. -/
theorem padded (h : Lexes bytes [t]) : ∃ text, t.IsSpelled text ∧ Padded text bytes := by
  obtain ⟨w, text, rest, hw, ht, hr, rfl⟩ := h.uncons
  exact ⟨text, ht, w, rest, hw, hr.isBlank, rfl⟩

theorem isAtom (h : Lexes bytes [t]) {n : Node} (ht : t = .scalar n ∨ t = .string n) :
    IsAtom n := by
  obtain ⟨text, spelled, -⟩ := h.padded
  exact spelled.isAtom ht

end Lexes

/-! ## The machine for tokens -/

/-- The bytes of a token that is not finished. -/
def Mode.Pending : Mode → Bytes → Prop
  | .between, bytes => bytes = []
  | .word rest n, bytes => bytes ++ rest ∈ words ∧ (n = .null ∨ ∃ b, n = .bool b)
  | .number d, bytes => d.Spells bytes
  | .string s, bytes => ∃ content, s.Spells content ∧ bytes = 0x22 :: content
  | .escape s, bytes => ∃ content, s.Spells content ∧ bytes = 0x22 :: (content ++ [0x5C])
  | .unicode s missing value, bytes => ∃ content digits, s.Spells content ∧
      digits.length + missing = 4 ∧ 1 ≤ missing ∧ hexValue digits = some value ∧
        bytes = 0x22 :: (content ++ 0x5C :: 0x75 :: digits)
  | .lost, _ => False

/-- Bytes are read as tokens, up to those of an unfinished one, or not without a fault. -/
def Follows (bytes : Bytes) (r : List Token × Mode) : Prop :=
  .fault ∈ r.1 ∨ ∃ more pending, Lexes more r.1 ∧ r.2.Pending pending ∧ bytes = more ++ pending

namespace Follows

variable {bytes : Bytes} {mode : Mode} {t : Token}

theorem fault : Follows bytes ([.fault], mode) := .inl List.mem_cons_self

theorem pending (h : mode.Pending bytes) : Follows bytes ([], mode) :=
  .inr ⟨[], bytes, .nil, h, rfl⟩

theorem token (h : t.IsSpelled bytes) : Follows bytes ([t], .between) :=
  .inr ⟨bytes, [], .single h, rfl, (List.append_nil _).symm⟩

theorem ite {c : Prop} [Decidable c] {r r' : List Token × Mode} (h : c → Follows bytes r)
    (h' : Follows bytes r') : Follows bytes (if c then r else r') := by
  split
  · rename_i hc
    exact h hc
  · exact h'

end Follows

theorem mem_words : [0x6E, 0x75, 0x6C, 0x6C] ∈ words ∧ [0x74, 0x72, 0x75, 0x65] ∈ words ∧
    [0x66, 0x61, 0x6C, 0x73, 0x65] ∈ words := by
  decide +kernel

/-- What a byte between two tokens begins. -/
theorem follows_begin (b : UInt8) : Follows [b] (begin b) := by
  have blank (space : isSpace b) : b ∈ [0x20, 0x09, 0x0A, 0x0D] := by
    simp only [isSpace, Bool.or_eq_true, decide_eq_true_eq] at space
    simp only [List.mem_cons, List.not_mem_nil, or_false]
    tauto
  rw [begin]
  refine .ite (fun space => .inr ⟨[b], [], .blank (blank space) .nil, rfl, rfl⟩) <|
    .ite (fun h => .token (h ▸ .openArray)) <| .ite (fun h => .token (h ▸ .closeArray)) <|
    .ite (fun h => .token (h ▸ .openObject)) <| .ite (fun h => .token (h ▸ .closeObject)) <|
    .ite (fun h => .token (h ▸ .comma)) <| .ite (fun h => .token (h ▸ .colon)) <|
    .ite (fun h => .pending ⟨[], .blank, congrArg (· :: []) h⟩) <|
    .ite (fun h => .pending ⟨?_, .inl rfl⟩) <| .ite (fun h => .pending ⟨?_, .inr ⟨true, rfl⟩⟩) <|
    .ite (fun h => .pending ⟨?_, .inr ⟨false, rfl⟩⟩) ?_
  · rw [h]
    exact mem_words.1
  · rw [h]
    exact mem_words.2.1
  · rw [h]
    exact mem_words.2.2
  · split
    · rename_i d hd
      exact .pending (.start hd)
    · exact .fault

/-- What a byte ends or goes on with. -/
theorem follows_step {mode : Mode} {bytes : Bytes} (h : mode.Pending bytes) (b : UInt8) :
    Follows (bytes ++ [b]) (step mode b) := by
  cases mode with
  | between =>
    obtain rfl : bytes = [] := h
    exact follows_begin b
  | word rest n =>
    obtain ⟨hw, hn⟩ := h
    match rest with
    | [] => exact .fault
    | [c] =>
      rw [step]
      refine .ite (fun hb => .token (.word ?_ hn)) .fault
      rwa [hb]
    | c :: c' :: rest =>
      rw [step]
      · refine .ite (fun hb => .pending ⟨?_, hn⟩) .fault
        rwa [hb, List.append_assoc]
      · simp
  | number d =>
    rw [step]
    split
    · rename_i d' he
      exact .pending (h.extend he)
    · refine .ite (fun ends => ?_) .fault
      rw [Bool.and_eq_true] at ends
      have number : Lexes bytes [.scalar d.value] := .single (.number h ends.1)
      rcases follows_begin b with fault | ⟨more, pending, hm, hp, hb⟩
      · exact .inl (List.mem_cons_of_mem _ fault)
      · exact .inr ⟨bytes ++ more, pending, number.append hm, hp, by rw [hb, List.append_assoc]⟩
  | string s =>
    obtain ⟨content, hs, rfl⟩ := h
    rw [step]
    split
    · rename_i quote
      rw [quote]
      exact .token (.string hs)
    split
    · rename_i backslash
      exact .pending ⟨content, hs, by rw [backslash]; rfl⟩
    split
    · exact .fault
    · rename_i quote backslash control
      have raw : IsRaw b := ⟨quote, backslash, UInt8.not_lt.1 control⟩
      exact .pending ⟨_, hs.add (.raw raw .nil), rfl⟩
  | escape s =>
    obtain ⟨content, hs, rfl⟩ := h
    rw [step]
    split
    · rename_i u
      exact .pending ⟨content, [], hs, rfl, by omega, rfl, by rw [u]; simp⟩
    split
    · rename_i c hc
      exact .pending ⟨_, hs.add (.letter hc .nil), by simp⟩
    · exact .fault
  | unicode s missing value =>
    obtain ⟨content, digits, hs, hl, hm, hv, rfl⟩ := h
    rw [step]
    split
    · rename_i k hk
      have more : hexValue (digits ++ [b]) = some (16 * value + k) := by
        rw [hexValue] at hv
        rw [hexValue, List.foldlM_append, hv]
        simp [hk]
      split
      · have code : IsCode (digits ++ [b]) (16 * value + k) :=
          ⟨by rw [List.length_append, List.length_singleton]; omega, more⟩
        exact .pending ⟨_, hs.addUnit code, by simp⟩
      · exact .pending ⟨content, digits ++ [b], hs,
          by rw [List.length_append, List.length_singleton]; omega, by omega, more, by simp⟩
    · exact .fault
  | lost => exact h.elim

/-- The tokens of bytes, the last first, unless there is a fault among them. -/
theorem follows_read (bytes : Bytes) :
    Follows bytes ((read bytes ([], .between)).1.reverse, (read bytes ([], .between)).2) := by
  induction bytes using List.reverseRecOn with
  | nil => exact .pending rfl
  | append_singleton bytes b ih =>
    rw [read_append]
    generalize read bytes ([], .between) = r at ih ⊢
    obtain ⟨found, mode⟩ := r
    rw [read_cons]
    show Follows (bytes ++ [b]) (((step mode b).1.reverse ++ found).reverse, (step mode b).2)
    rw [List.reverse_append, List.reverse_reverse]
    rcases ih with fault | ⟨before, pending, hl, hp, rfl⟩
    · exact .inl (List.mem_append_left _ fault)
    · rw [List.append_assoc]
      rcases follows_step hp b with fault | ⟨more, pending', hm, hp', hb⟩
      · exact .inl (List.mem_append_right _ fault)
      · exact .inr ⟨before ++ more, pending', hl.append hm, hp', by rw [hb, List.append_assoc]⟩

/-- The tokens of a text, unless there is a fault among them. -/
theorem lexes_ofBytes (bytes : Bytes) : .fault ∈ ofBytes bytes ∨ Lexes bytes (ofBytes bytes) := by
  have follows := follows_read bytes
  rw [ofBytes]
  generalize read bytes ([], .between) = r at follows ⊢
  obtain ⟨found, mode⟩ := r
  dsimp only at follows ⊢
  rw [List.reverse_append, List.reverse_reverse]
  rcases follows with fault | ⟨more, pending, hl, hp, rfl⟩
  · exact .inl (List.mem_append_left _ fault)
  · cases mode with
    | between =>
      obtain rfl : pending = [] := hp
      exact .inr (hl.append .nil)
    | number d =>
      rw [finish]
      split
      · rename_i ends
        exact .inr (hl.append (.single (.number hp ends)))
      · exact .inl (List.mem_append_right _ List.mem_cons_self)
    | lost => exact hp.elim
    | word | string | escape | unicode => exact .inl (List.mem_append_right _ List.mem_cons_self)

end Token

end InferenceGateway.Json
