import InferenceGateway.Proofs.JsonGrammar
import InferenceGateway.Proofs.Reading

/-!
# Reading texts of the grammar

Every text of the grammar is read to its end, and its tree is as the text says. As with written
values, a text is read in front of anything that may follow a value; but here there may be white
space, strings may be spelled in any way, and a value that is passed over may be one that cannot be
held. Of such a value only this is said, that it is well formed.

Arrays and objects are read in the same way. What they differ in is their brackets and what one
item of them is (`Brackets`).

* `Token.scans_number`, `Token.read_content`, `Token.read_denotes`: the scalars.
* `Brackets.build`: items in brackets.
* `Grammar.IsValue.reads`: values.
* `Reads.tree`, `Brackets.tree`: texts.
-/

namespace InferenceGateway.Json

open Grammar Numeral

/-! ## Tokens -/

namespace Token

/-- White space does not change what may follow a value. -/
theorem Stops.blank {w rest : Bytes} (hw : IsBlank w) (hr : Stops rest) : Stops (w ++ rest) := by
  cases w with
  | nil => exact hr
  | cons b w => exact stops_cons.2 (.inl (hw b List.mem_cons_self))

/-- Bytes that are read as tokens, where a value can end after them. -/
def Scans (bytes : Bytes) (ts : List Token) : Prop := ∀ rest found, Stops rest →
  readAll (bytes ++ rest) (found, .between) = readAll rest (ts.reverse ++ found, .between)

theorem begin_blank {b : UInt8} (h : b ∈ [0x20, 0x09, 0x0A, 0x0D]) : begin b = ([], .between) := by
  simp only [List.mem_cons, List.not_mem_nil, or_false] at h
  rcases h with rfl | rfl | rfl | rfl <;> rfl

theorem readAll_blank {w : Bytes} (hw : IsBlank w) (rest : Bytes) (found : List Token) :
    readAll (w ++ rest) (found, .between) = readAll rest (found, .between) := by
  induction w with
  | nil => rfl
  | cons b w ih =>
    rw [List.cons_append, readAll_cons, step, begin_blank (hw b List.mem_cons_self)]
    exact ih fun c hc => hw c (List.mem_cons_of_mem _ hc)

namespace Scans

variable {xs ys : Bytes} {ts us : List Token}

/-- Bytes that are read as tokens whatever comes after them. -/
theorem of_read (h : ∀ found, read xs (found, .between) = (ts.reverse ++ found, .between)) :
    Scans xs ts := by
  intro rest found _
  rw [readAll_append, h]

theorem nil : Scans [] [] := .of_read fun _ => rfl

/-- Bytes that are read as tokens whatever comes after them, before others. -/
theorem after_read (h : ∀ found, read xs (found, .between) = (ts.reverse ++ found, .between))
    (hy : Scans ys us) : Scans (xs ++ ys) (ts ++ us) := by
  intro rest found hr
  rw [List.append_assoc, readAll_append, h, hy _ _ hr, List.reverse_append, List.append_assoc]

/-- White space before other bytes. -/
theorem blank (hx : IsBlank xs) (hy : Scans ys us) : Scans (xs ++ ys) us := by
  intro rest found hr
  rw [List.append_assoc, readAll_blank hx, hy _ _ hr]

/-- A mark before other bytes. -/
theorem mark {b : UInt8} {t : Token} (h : begin b = ([t], .between)) (hy : Scans ys us) :
    Scans (b :: ys) (t :: us) := by
  intro rest found hr
  have more := hy rest (t :: found) hr
  rw [List.cons_append, readAll_cons, step, h]
  simpa using more

/-- Bytes before others, which begin with the end of a value. -/
theorem append {b : UInt8} (hx : Scans xs ts) (hb : IsStop b) (hy : Scans (b :: ys) us) :
    Scans (xs ++ b :: ys) (ts ++ us) := by
  intro rest found hr
  have more : Stops (b :: ys ++ rest) := stops_cons.2 hb
  rw [List.append_assoc, hx _ _ more, hy _ _ hr, List.reverse_append, List.append_assoc]

/-- White space around a text is read over. -/
theorem padded (hx : Scans xs ts) (hy : Padded xs ys) : Scans ys ts := by
  obtain ⟨before, after, hb, ha, rfl⟩ := hy
  intro rest found hr
  rw [List.append_assoc, List.append_assoc, readAll_blank hb, hx _ _ (Stops.blank ha hr),
    readAll_blank ha]

end Scans

/-! ## Words and numbers -/

/-- The word is read as a token, whose value is well formed. -/
theorem scans_word {text : Bytes} (h : text ∈ words) :
    ∃ n : Document.Node, n.isWellFormed ∧ Scans text [.scalar n] := by
  have all : ∀ text ∈ words, text = [0x6E, 0x75, 0x6C, 0x6C] ∨ text = [0x74, 0x72, 0x75, 0x65] ∨
      text = [0x66, 0x61, 0x6C, 0x73, 0x65] := by
    decide +kernel
  rcases all text h with rfl | rfl | rfl
  · exact ⟨.null, rfl, .of_read fun _ => rfl⟩
  · exact ⟨.bool true, rfl, .of_read fun _ => rfl⟩
  · exact ⟨.bool false, rfl, .of_read fun _ => rfl⟩

/-- Bytes that are read as the beginning of a number, up to some part of it. -/
def Reaches (text : Bytes) (part : Part) : Prop :=
  ∃ d : Draft, d.part = part ∧ ∀ found, read text (found, .between) = (found, .number d)

/-- The part of a number that a digit is in. -/
def Part.digit : Part → Nat → Part
  | .sign, k => if k = 0 then .zero else .whole
  | .zero, _ | .whole, _ => .whole
  | .point, _ | .fraction, _ => .fraction
  | .mark, _ | .exponentSign, _ | .exponent, _ => .exponent

theorem digit?_of_le {b : UInt8} (h : 0x30 ≤ b ∧ b ≤ 0x39) : digit? b = some (b.toNat - 0x30) := by
  simp [digit?, h]

namespace Reaches

variable {text ds : Bytes} {p q : Part} {b : UInt8}

/-- A digit more. Only a leading zero is not followed by digits. -/
theorem digit (h : Reaches text p) (hp : p ≠ .zero) (hb : 0x30 ≤ b ∧ b ≤ 0x39) :
    Reaches (text ++ [b]) (p.digit (b.toNat - 0x30)) := by
  obtain ⟨d, rfl, hr⟩ := h
  have extended : ∃ d', d.extend b = some d' ∧ d'.part = d.part.digit (b.toNat - 0x30) := by
    rw [Draft.extend, digit?_of_le hb]
    cases hd : d.part with
    | zero => exact absurd hd hp
    | _ => exact ⟨_, rfl, by simp [Part.digit]⟩
  obtain ⟨d', he, hd'⟩ := extended
  refine ⟨d', hd', fun found => ?_⟩
  rw [read_append, hr, read_cons, step, he]
  rfl

/-- Digits that stay in one part. -/
theorem digits (h : Reaches text p) (hp : p ≠ .zero) (hq : ∀ k, p.digit k = p)
    (hds : ∀ b ∈ ds, 0x30 ≤ b ∧ b ≤ 0x39) : Reaches (text ++ ds) p := by
  induction ds generalizing text with
  | nil => rwa [List.append_nil]
  | cons b ds ih =>
    rw [List.forall_mem_cons] at hds
    have more := h.digit hp hds.1
    rw [hq] at more
    have all := ih more hds.2
    rwa [List.append_assoc] at all

/-- Digits that begin another part. -/
theorem isDigits (h : Reaches text p) (hp : ∀ k, p.digit k = q) (hq : ∀ k, q.digit k = q)
    (hz : p ≠ .zero ∧ q ≠ .zero) (hds : IsDigits ds) : Reaches (text ++ ds) q := by
  obtain ⟨hn, hds⟩ := hds
  cases ds with
  | nil => exact absurd rfl hn
  | cons b ds =>
    rw [List.forall_mem_cons] at hds
    have more := h.digit hz.1 hds.1
    rw [hp] at more
    have all := more.digits hz.2 hq hds.2
    rwa [List.append_assoc] at all

/-- A byte that is no digit and that begins another part. -/
theorem other (h : Reaches text p) (hb : ∀ d : Draft, d.part = p →
    ∃ d', d.extend b = some d' ∧ d'.part = q) : Reaches (text ++ [b]) q := by
  obtain ⟨d, hp, hr⟩ := h
  obtain ⟨d', he, hd'⟩ := hb d hp
  refine ⟨d', hd', fun found => ?_⟩
  rw [read_append, hr, read_cons, step, he]
  rfl

end Reaches

/-- The first byte of a number. -/
theorem reaches_start {b : UInt8} {d : Draft} (h : begin b = ([], .number d)) :
    Reaches [b] d.part := by
  refine ⟨d, rfl, fun found => ?_⟩
  rw [read_cons, step, h]
  rfl

theorem sub_ne_zero_of_digit {b : UInt8} (h : 0x30 ≤ b ∧ b ≤ 0x39) (hb : b ≠ 0x30) :
    b.toNat - 0x30 ≠ 0 := by
  intro hn
  have hl : 0x30 ≤ b.toNat := UInt8.le_iff_toNat_le.1 h.1
  exact hb (UInt8.toNat_inj.1 (show b.toNat = 0x30 by omega))

/-- A first digit that is not zero. -/
theorem reaches_digit {b : UInt8} (h : 0x30 ≤ b ∧ b ≤ 0x39) (hb : b.toNat - 0x30 ≠ 0) :
    Reaches [b] .whole := by
  have hl : 0x30 ≤ b.toNat := UInt8.le_iff_toNat_le.1 h.1
  have hh : b.toNat ≤ 0x39 := UInt8.le_iff_toNat_le.1 h.2
  obtain ⟨d, hd, hw⟩ := begin_digitByte (by omega : b.toNat - 0x30 < 10)
  rw [digitByte, Text.ofNat_of_eq (by omega : 0x30 + (b.toNat - 0x30) = b.toNat)] at hd
  have part := hw.part
  rw [if_neg hb] at part
  exact part ▸ reaches_start hd

/-- The digits before a point, after a sign or without one. -/
theorem reaches_whole {sign whole : Bytes} (hs : sign ∈ [[], [0x2D]]) (hw : IsWhole whole) :
    ∃ p, (p = .zero ∨ p = .whole) ∧ Reaches (sign ++ whole) p := by
  have zero : Reaches [0x30] .zero := reaches_start (d := ⟨.zero, false, [0], [], false, []⟩) rfl
  have minus : Reaches [0x2D] .sign := reaches_start (d := ⟨.sign, true, [], [], false, []⟩) rfl
  simp only [List.mem_cons, List.not_mem_nil, or_false] at hs
  rcases hw with rfl | ⟨⟨hn, hds⟩, hz⟩
  · refine ⟨.zero, .inl rfl, ?_⟩
    rcases hs with rfl | rfl
    · exact zero
    · exact minus.digit (by decide) (by decide)
  · -- The first digit is no zero, so it is followed by any digits.
    cases whole with
    | nil => exact absurd rfl hn
    | cons b ds =>
      rw [List.forall_mem_cons] at hds
      have first : Reaches (sign ++ [b]) .whole := by
        have positive : b.toNat - 0x30 ≠ 0 := sub_ne_zero_of_digit hds.1 (by simpa using hz)
        rcases hs with rfl | rfl
        · exact reaches_digit hds.1 positive
        · have more := minus.digit (by decide) hds.1
          rwa [Part.digit, if_neg positive] at more
      have all := first.digits (by decide) (fun _ => rfl) hds.2
      rw [List.append_assoc] at all
      exact ⟨.whole, .inr rfl, all⟩

/-- A fraction, or none. -/
theorem Reaches.fraction {text bytes : Bytes} {p : Part} (h : Reaches text p)
    (hp : p = .zero ∨ p = .whole) (hf : IsFraction bytes) :
    ∃ q, (q = .zero ∨ q = .whole ∨ q = .fraction) ∧ Reaches (text ++ bytes) q := by
  rcases hf with rfl | ⟨ds, hds, rfl⟩
  · rw [List.append_nil]
    exact ⟨p, hp.imp_right .inl, h⟩
  · have point : Reaches (text ++ [0x2E]) .point := by
      refine h.other fun d hd => ⟨{ d with part := .point }, ?_, rfl⟩
      rcases hp with rfl | rfl <;> simp [Draft.extend, hd, digit?]
    have all := point.isDigits (fun _ => rfl) (fun _ => rfl) (by decide) hds
    rw [List.append_assoc] at all
    exact ⟨.fraction, .inr (.inr rfl), all⟩

/-- An exponent, or none. -/
theorem Reaches.exponent {text bytes : Bytes} {p : Part} (h : Reaches text p)
    (hp : p = .zero ∨ p = .whole ∨ p = .fraction) (he : IsExponent bytes) :
    ∃ q, (q = .zero ∨ q = .whole ∨ q = .fraction ∨ q = .exponent) ∧ Reaches (text ++ bytes) q := by
  rcases he with rfl | ⟨mark, sign, ds, hm, hs, hds, rfl⟩
  · rw [List.append_nil]
    exact ⟨p, hp.imp_right fun hp => hp.imp_right .inl, h⟩
  · have marked : Reaches (text ++ [mark]) .mark := by
      refine h.other fun d hd => ⟨{ d with part := .mark }, ?_, rfl⟩
      simp only [List.mem_cons, List.not_mem_nil, or_false] at hm
      rcases hm with rfl | rfl <;> rcases hp with rfl | rfl | rfl <;>
        simp [Draft.extend, hd, digit?]
    refine ⟨.exponent, .inr (.inr (.inr rfl)), ?_⟩
    simp only [List.mem_cons, List.not_mem_nil, or_false] at hs
    have signed (sign : UInt8) (hs : sign = 0x2B ∨ sign = 0x2D) :
        Reaches (text ++ [mark] ++ [sign]) .exponentSign := by
      refine marked.other fun d hd =>
        ⟨{ d with part := .exponentSign, exponentNegative := sign = 0x2D }, ?_, rfl⟩
      rcases hs with rfl | rfl <;> simp [Draft.extend, hd, digit?]
    rcases hs with rfl | rfl | rfl
    · have all := marked.isDigits (fun _ => rfl) (fun _ => rfl) (by decide) hds
      rwa [List.append_assoc] at all
    · have all := (signed _ (.inl rfl)).isDigits (fun _ => rfl) (fun _ => rfl) (by decide) hds
      rwa [List.append_assoc, List.append_assoc] at all
    · have all := (signed _ (.inr rfl)).isDigits (fun _ => rfl) (fun _ => rfl) (by decide) hds
      rwa [List.append_assoc, List.append_assoc] at all

/-- A number is read as a token, whose value is well formed. -/
theorem scans_number {text : Bytes} (h : IsNumber text) :
    ∃ n : Document.Node, n.isWellFormed ∧ Scans text [.scalar n] := by
  obtain ⟨_, exponent, ⟨_, fraction, ⟨sign, whole, hs, hw, rfl⟩, hf, rfl⟩, he, rfl⟩ := h
  obtain ⟨p, hp, hr⟩ := reaches_whole hs hw
  obtain ⟨p, hp, hr⟩ := hr.fraction hp hf
  obtain ⟨_, hp, d, rfl, hr⟩ := hr.exponent hp he
  have ends : d.canEnd := by
    rcases hp with hp | hp | hp | hp <;> simp [Draft.canEnd, hp]
  refine ⟨d.value, ?_, ?_⟩
  · rw [Draft.value]
    split <;> rfl
  · intro rest found hrest
    rw [readAll_append, hr, readAll_stops ends hrest]
    rfl

/-! ## Strings -/

/-- The digits of an escape by number. -/
theorem read_unicode_digits {digits : Bytes} {value n : Nat} (hn : digits ≠ [])
    (h : digits.foldlM (fun n b => (hexDigit? b).map (16 * n + ·)) value = some n)
    (found : List Token) (s : Scribe) : read digits (found, .unicode s digits.length value) =
      (found, .string (s.addUnit n)) := by
  induction digits generalizing value with
  | nil => exact absurd rfl hn
  | cons b digits ih =>
    rw [List.foldlM_cons, Option.bind_eq_bind, Option.bind_eq_some_iff] at h
    obtain ⟨value', hv, h⟩ := h
    obtain ⟨d, hd, rfl⟩ := Option.map_eq_some_iff.1 hv
    rw [read_cons, step, hd]
    cases digits with
    | nil =>
      obtain rfl := Option.some.inj h
      rfl
    | cons c digits =>
      have more : ¬(b :: c :: digits).length ≤ 1 := by simp
      simp only [if_neg more]
      exact ih (List.cons_ne_nil _ _) h

/-- An escape by number. -/
theorem read_code {digits : Bytes} {n : Nat} (h : IsCode digits n) (rest : Bytes)
    (found : List Token) (s : Scribe) :
    read (0x5C :: 0x75 :: (digits ++ rest)) (found, .string s) =
      read rest (found, .string (s.addUnit n)) := by
  obtain ⟨hl, hv⟩ := h
  have hn : digits ≠ [] := by
    rintro rfl
    cases hl
  have begun : read (0x5C :: 0x75 :: (digits ++ rest)) (found, .string s) =
      read (digits ++ rest) (found, .unicode s digits.length 0) := by
    rw [hl]
    rfl
  rw [begun, read_append, read_unicode_digits hn hv]

/-- A byte that stands for itself. -/
theorem read_plain {b : UInt8} (h : IsRaw b) (rest : Bytes) (found : List Token) (s : Scribe) :
    read (b :: rest) (found, .string s) = read rest (found, .string (s.add [b])) := by
  have one := read_raw (List.forall_mem_singleton.2 h) (List.cons_ne_nil b []) found s
  rw [← List.singleton_append, read_append, one]

/-- An escape by a letter. -/
theorem read_letter {b c : UInt8} (h : escaped? b = some c) (rest : Bytes) (found : List Token)
    (s : Scribe) : read (0x5C :: b :: rest) (found, .string s) =
      read rest (found, .string (s.add [c])) := by
  have hu : b ≠ 0x75 := by
    rintro rfl
    cases h
  have first : step (.string s) 0x5C = ([], .escape s) := rfl
  rw [read_cons, first, read_cons, step, if_neg hu, h]
  rfl

/-- A string that is passed over is read to its end. -/
theorem read_content {content : Bytes} (h : IsContent content) (s : Scribe) :
    ∃ s', ∀ found, read content (found, .string s) = (found, .string s') := by
  induction h generalizing s with
  | nil => exact ⟨s, fun _ => rfl⟩
  | raw hb _ ih =>
    obtain ⟨s', hs⟩ := ih (s.add [_])
    exact ⟨s', fun found => (read_plain hb _ found s).trans (hs found)⟩
  | letter hb _ ih =>
    obtain ⟨s', hs⟩ := ih (s.add [_])
    exact ⟨s', fun found => (read_letter hb _ found s).trans (hs found)⟩
  | code hn _ ih =>
    obtain ⟨s', hs⟩ := ih (s.addUnit _)
    exact ⟨s', fun found => (read_code hn _ found s).trans (hs found)⟩

namespace Scribe

/-- A character that is no half of a surrogate pair is added as it is. -/
theorem addUnit_char {n : Nat} (hh : ¬IsHigh n) (hl : ¬IsLow n) (s : Scribe) :
    s.addUnit n = s.add (charOf n) := by
  rw [addUnit, if_neg (by simpa [IsLow] using hl), if_neg (by simpa [IsHigh] using hh)]
  rfl

/-- Two halves of a surrogate pair are added as one character. -/
theorem addUnit_pair {high low : Nat} (hh : IsHigh high) (hl : IsLow low) {s : Scribe}
    (hs : s.half = none) : (s.addUnit high).addUnit low =
      s.add (charOf (0x10000 + (high - 0xD800) * 0x400 + (low - 0xDC00))) := by
  obtain ⟨h1, h2⟩ := hh
  have first : s.addUnit high = ⟨s.bytes, some high, s.broken || s.half.isSome⟩ := by
    rw [addUnit, if_neg (by simp; omega), if_pos (by simp; omega)]
  rw [first, addUnit, if_pos (by simpa [IsLow] using hl), add, charOf, hs]

end Scribe

/-- A string that stands for bytes is read as these bytes. -/
theorem read_denotes {content bytes : Bytes} (h : Denotes content bytes) (found : List Token)
    {s : Scribe} (hs : s.half = none) :
    read content (found, .string s) = (found, .string (s.add bytes)) := by
  induction h generalizing s with
  | nil =>
    have same : s.add [] = s := by
      obtain ⟨bytes, half, broken⟩ := s
      obtain rfl : half = none := hs
      simp [Scribe.add]
    rw [same]
    rfl
  | raw hb _ ih => rw [read_plain hb, ih rfl, Scribe.add_add, List.singleton_append]
  | letter hb _ ih => rw [read_letter hb, ih rfl, Scribe.add_add, List.singleton_append]
  | code hn hh hl _ ih => rw [read_code hn, Scribe.addUnit_char hh hl, ih rfl, Scribe.add_add]
  | pair hh high hl low _ ih =>
    rw [read_code hh, read_code hl, Scribe.addUnit_pair high low hs, ih rfl, Scribe.add_add]

/-- A string is read as a token, once what stands in it has been read. -/
theorem read_quoted {content : Bytes} {s : Scribe}
    (h : ∀ found, read content (found, .string .blank) = (found, .string s)) (found : List Token) :
    read (quoted content) (found, .between) = (.string s.value :: found, .between) := by
  have opened : step .between 0x22 = ([], .string .blank) := rfl
  have closed : step (.string s) 0x22 = ([.string s.value], .between) := rfl
  rw [quoted, read_cons, opened, read_append]
  show read [0x22] (read content (found, .string .blank)) = _
  rw [h, read_cons, closed]
  rfl

/-- A string is read as a token, whose value is well formed. -/
theorem read_string {content : Bytes} (h : IsContent content) :
    ∃ n : Document.Node, n.isWellFormed ∧
      ∀ found, read (quoted content) (found, .between) = (.string n :: found, .between) := by
  obtain ⟨s, hs⟩ := read_content h .blank
  refine ⟨s.value, ?_, read_quoted hs⟩
  rw [Scribe.value]
  split
  · rfl
  · split <;> rfl

/-- A string that stands for the bytes of a text is read as the text. -/
theorem read_text {content : Bytes} {t : String} (h : Denotes content (Text.Utf8.encode t))
    (found : List Token) :
    read (quoted content) (found, .between) = (.string (.text t) :: found, .between) := by
  rw [← Scribe.value_blank_add]
  exact read_quoted (fun found => read_denotes h found rfl) found

end Token

/-! ## Containers -/

open Token Document

/-- A kind of containers: their brackets, and how they are held while they are open and when they
    are closed. -/
structure Brackets (α : Type) where
  opening : UInt8
  closing : UInt8
  opens : Token
  closes : Token
  frame : List α → Next → Frame
  node : List α → Node
  begin_opening : begin opening = ([opens], .between)
  begin_closing : begin closing = ([closes], .between)
  isStop_closing : IsStop closing
  step_opens (frames : List Frame) (depth : Nat) (root : Option Node) :
    (⟨frames, depth, root, false⟩ : Build).takesValue →
      (⟨frames, depth, root, false⟩ : Build).step opens =
        ⟨frame [] .first :: frames, depth + 1, root, false⟩
  step_comma (found : List α) (frames : List Frame) (depth : Nat) (root : Option Node) :
    (⟨frame found .separator :: frames, depth, root, false⟩ : Build).step .comma =
      ⟨frame found .item :: frames, depth, root, false⟩
  step_closes (found : List α) (next : Next) (frames : List Frame) (depth : Nat)
    (root : Option Node) : next = .first ∨ next = .separator →
    (⟨frame found next :: frames, depth + 1, root, false⟩ : Build).step closes =
      (⟨frames, depth, root, false⟩ : Build).put (Build.close depth (node found.reverse))

/-- Arrays. -/
def arrays : Brackets Node where
  opening := 0x5B
  closing := 0x5D
  opens := .openArray
  closes := .closeArray
  frame := .array
  node := .sequence
  begin_opening := rfl
  begin_closing := rfl
  isStop_closing := .inr (.inr (.inl rfl))
  step_opens _ _ _ h := Build.step_openArray h
  step_comma _ _ _ _ := rfl
  step_closes _ _ _ _ _ h := by rcases h with rfl | rfl <;> rfl

/-- Objects. -/
def objects : Brackets (Node × Node) where
  opening := 0x7B
  closing := 0x7D
  opens := .openObject
  closes := .closeObject
  frame := .object
  node := .mapping
  begin_opening := rfl
  begin_closing := rfl
  isStop_closing := .inr (.inr (.inr rfl))
  step_opens _ _ _ h := Build.step_openObject h
  step_comma _ _ _ _ := rfl
  step_closes _ _ _ _ _ h := by rcases h with rfl | rfl <;> rfl

/-- Bytes are read as a value, of which something is known. -/
def Reads (P : Node → Prop) (bytes : Bytes) : Prop :=
  ∃ ts, Scans bytes ts ∧ ∀ frames depth root, (⟨frames, depth, root, false⟩ : Build).takesValue →
    ∃ n, P n ∧ ts.foldl Build.step ⟨frames, depth, root, false⟩ =
      (⟨frames, depth, root, false⟩ : Build).put n

namespace Brackets

variable {α β : Type} {B : Brackets α} {Q : β → α → Prop} {ms : List β} {items : List Bytes}
  {bytes : Bytes}

/-- Bytes are read as one more item of an open container, of which something is known. -/
def Adds (B : Brackets α) (P : α → Prop) (bytes : Bytes) : Prop :=
  ∃ ts, Scans bytes ts ∧ ∀ found next frames depth root, next = .first ∨ next = .item →
    ∃ x, P x ∧ ts.foldl Build.step ⟨B.frame found next :: frames, depth, root, false⟩ =
      ⟨B.frame (x :: found) .separator :: frames, depth, root, false⟩

theorem Adds.imp {P P' : α → Prop} (h : B.Adds P bytes) (hp : ∀ x, P x → P' x) :
    B.Adds P' bytes := by
  obtain ⟨ts, hs, hb⟩ := h
  refine ⟨ts, hs, fun found next frames depth root hn => ?_⟩
  obtain ⟨x, hx, he⟩ := hb found next frames depth root hn
  exact ⟨x, hp x hx, he⟩

/-- Items with commas between them. -/
theorem adds_row (h : Row items bytes)
    (hm : List.Forall₂ (fun m item => B.Adds (Q m) item) ms items) :
    ∃ ts, Scans bytes ts ∧ ∀ found next frames depth root, next = .first ∨ next = .item →
      ∃ xs, List.Forall₂ Q ms xs ∧
        ts.foldl Build.step ⟨B.frame found next :: frames, depth, root, false⟩ =
          ⟨B.frame (xs.reverse ++ found) .separator :: frames, depth, root, false⟩ := by
  induction h generalizing ms with
  | last hp =>
    cases hm with
    | cons hi hm =>
      cases hm
      obtain ⟨ts, hs, hb⟩ := hi
      refine ⟨ts, hs.padded hp, fun found next frames depth root hn => ?_⟩
      obtain ⟨x, hx, he⟩ := hb found next frames depth root hn
      exact ⟨[x], .cons hx .nil, he⟩
  | cons hp _ ih =>
    cases hm with
    | cons hi hm =>
      obtain ⟨ts, hs, hb⟩ := hi
      obtain ⟨us, hus, hbs⟩ := ih hm
      refine ⟨ts ++ .comma :: us, (hs.padded hp).append (.inr (.inl rfl)) (hus.mark rfl), ?_⟩
      intro found next frames depth root hn
      obtain ⟨x, hx, he⟩ := hb found next frames depth root hn
      obtain ⟨xs, hxs, hes⟩ := hbs (x :: found) .item frames depth root (.inr rfl)
      refine ⟨x :: xs, .cons hx hxs, ?_⟩
      rw [List.foldl_append, he, List.foldl_cons, B.step_comma, hes, List.reverse_cons,
        List.append_assoc, List.singleton_append]

/-- Items in brackets are read as a container. -/
theorem build (h : Enclosed B.opening B.closing items bytes)
    (hm : List.Forall₂ (fun m item => B.Adds (Q m) item) ms items) :
    ∃ ts, Scans bytes ts ∧ ∀ frames depth root,
      (⟨frames, depth, root, false⟩ : Build).takesValue → ∃ xs, List.Forall₂ Q ms xs ∧
        ts.foldl Build.step ⟨frames, depth, root, false⟩ =
          (⟨frames, depth, root, false⟩ : Build).put (Build.close depth (B.node xs)) := by
  have closing : Scans [B.closing] [B.closes] := Scans.nil.mark B.begin_closing
  cases h with
  | @empty w hw =>
    cases hm
    refine ⟨[B.opens, B.closes], (closing.blank hw).mark B.begin_opening, ?_⟩
    intro frames depth root hv
    refine ⟨[], .nil, ?_⟩
    rw [List.foldl_cons, B.step_opens _ _ _ hv, List.foldl_cons,
      B.step_closes _ _ _ _ _ (.inl rfl)]
    rfl
  | row hr =>
    obtain ⟨ts, hs, hb⟩ := adds_row hr hm
    refine ⟨B.opens :: (ts ++ [B.closes]),
      (hs.append B.isStop_closing closing).mark B.begin_opening, ?_⟩
    intro frames depth root hv
    obtain ⟨xs, hxs, he⟩ := hb [] .first frames (depth + 1) root (.inl rfl)
    refine ⟨xs, hxs, ?_⟩
    rw [List.foldl_cons, B.step_opens _ _ _ hv, List.foldl_append, he, List.foldl_cons,
      B.step_closes _ _ _ _ _ (.inr rfl), List.append_nil, List.reverse_reverse]
    rfl

end Brackets

/-! ## Values -/

namespace Reads

variable {P P' : Node → Prop} {bytes : Bytes}

theorem imp (h : Reads P bytes) (hp : ∀ n, P n → P' n) : Reads P' bytes := by
  obtain ⟨ts, hs, hb⟩ := h
  refine ⟨ts, hs, fun frames depth root hv => ?_⟩
  obtain ⟨n, hn, he⟩ := hb frames depth root hv
  exact ⟨n, hp n hn, he⟩

/-- A value that is one token. -/
theorem scalar {n : Node} (hs : Scans bytes [.scalar n]) : Reads (· = n) bytes :=
  ⟨_, hs, fun _ _ _ hv => ⟨n, rfl, by simp [Build.step, hv]⟩⟩

theorem string {n : Node} (hs : Scans bytes [.string n]) : Reads (· = n) bytes :=
  ⟨_, hs, fun _ _ _ hv => ⟨n, rfl, by simp [Build.step, hv]⟩⟩

/-- A value is read as an item of an array. -/
theorem item (h : Reads P bytes) : arrays.Adds P bytes := by
  obtain ⟨ts, hs, hb⟩ := h
  refine ⟨ts, hs, fun found next frames depth root hn => ?_⟩
  have hv : (⟨.array found next :: frames, depth, root, false⟩ : Build).takesValue := by
    rcases hn with rfl | rfl <;> rfl
  exact hb _ depth root hv

/-- A value after a key is read as a member of an object. -/
theorem member {key value : Bytes} {k : Node}
    (hk : ∀ found, read (quoted key) (found, .between) = (.string k :: found, .between))
    (h : Reads P value) (hm : IsMember key value bytes) :
    objects.Adds (fun x => x.1 = k ∧ P x.2) bytes := by
  obtain ⟨before, after, hbefore, hafter, rfl⟩ := hm
  obtain ⟨ts, hs, hb⟩ := h
  have colon : Scans (0x3A :: (after ++ value)) (.colon :: ts) := (hs.blank hafter).mark rfl
  rw [List.append_assoc]
  have name (found : List Token) : read (quoted key) (found, .between) =
      ([.string k].reverse ++ found, .between) := hk found
  refine ⟨.string k :: .colon :: ts, .after_read name (colon.blank hbefore), ?_⟩
  intro found next frames depth root hn
  obtain ⟨n, hn', he⟩ := hb (.object found (.value k) :: frames) depth root rfl
  refine ⟨(k, n), ⟨rfl, hn'⟩, ?_⟩
  -- The key and the colon leave the object waiting for the value.
  have waiting : (⟨.object found next :: frames, depth, root, false⟩ : Build).step (.string k) =
      ⟨.object found (.colon k) :: frames, depth, root, false⟩ := by
    rcases hn with rfl | rfl <;> rfl
  rw [List.foldl_cons]
  show List.foldl Build.step ((⟨.object found next :: frames, depth, root, false⟩ : Build).step
    (.string k)) (.colon :: ts) = _
  rw [waiting, List.foldl_cons]
  exact he

end Reads

/-- A container is well formed, whether it can be held or not. -/
theorem isWellFormed_close {depth : Nat} {n : Node} (h : n.isWellFormed) :
    (Build.close depth n).isWellFormed := by
  rw [Build.close]
  split
  · rfl
  · exact h

/-- A value is read to its end, and is well formed. -/
theorem Grammar.IsValue.reads {text : Bytes} (h : IsValue text) :
    Reads (fun n => n.isWellFormed) text := by
  induction h with
  | word hw =>
    obtain ⟨n, hn, hs⟩ := scans_word hw
    exact (Reads.scalar hs).imp fun _ h => h ▸ hn
  | number hw =>
    obtain ⟨n, hn, hs⟩ := scans_number hw
    exact (Reads.scalar hs).imp fun _ h => h ▸ hn
  | string hc =>
    obtain ⟨n, hn, hs⟩ := read_string hc
    exact (Reads.string (.of_read hs)).imp fun _ h => h ▸ hn
  | @array items text _ he ih =>
    have adds : List.Forall₂ (fun _ item => arrays.Adds (fun n => n.isWellFormed) item)
        items items :=
      List.forall₂_same.2 fun item hi => (ih item hi).item
    obtain ⟨ts, hs, hb⟩ := arrays.build he adds
    refine ⟨ts, hs, fun frames depth root hv => ?_⟩
    obtain ⟨xs, hxs, he⟩ := hb frames depth root hv
    have wellFormed : (Node.sequence xs).isWellFormed := Node.areWellFormed_iff.2 fun n hn => by
      obtain ⟨_, h⟩ := exists_of_forall₂ hxs n hn
      exact h
    exact ⟨_, isWellFormed_close wellFormed, he⟩
  | @object members items text hk _ hm he ih =>
    have adds : List.Forall₂ (fun _ item => objects.Adds
        (fun e => e.1.isWellFormed ∧ e.2.isWellFormed) item) members items := by
      have each : List.Forall₂ (fun m item =>
          (IsContent m.1 ∧ Reads (fun n => n.isWellFormed) m.2) ∧ IsMember m.1 m.2 item)
          members items :=
        (List.forall₂_and_left members items).2 ⟨fun m hm => ⟨hk m hm, ih m hm⟩, hm⟩
      refine each.imp fun m item h => ?_
      obtain ⟨⟨hc, hv⟩, hm⟩ := h
      obtain ⟨k, hwf, hs⟩ := read_string hc
      exact (hv.member hs hm).imp fun e h => ⟨h.1 ▸ hwf, h.2⟩
    obtain ⟨ts, hs, hb⟩ := objects.build he adds
    refine ⟨ts, hs, fun frames depth root hv => ?_⟩
    obtain ⟨xs, hxs, he⟩ := hb frames depth root hv
    have wellFormed : (Node.mapping xs).isWellFormed := Node.haveWellFormed_iff.2 fun e hx => by
      obtain ⟨_, h⟩ := exists_of_forall₂ hxs e hx
      exact h
    exact ⟨_, isWellFormed_close wellFormed, he⟩

/-! ## Texts -/

/-- The digits of a natural number of 64 bits are read as the number. -/
theorem reads_digitBytes {n : Nat} (h : n < wordLimit) :
    Reads (· = .number (.integer n)) (digitBytes n) := by
  refine .scalar fun rest found hr => ?_
  obtain ⟨d, hd, hw⟩ := read_digitBytes n found
  rw [readAll_append, hd, readAll_stops hw.canEnd hr, hw.value h]
  rfl

/-- A text whose tokens are built into a tree has this tree. -/
theorem tree_of_scans {bytes : Bytes} {ts : List Token} {n : Node} (hs : Scans bytes ts)
    (hb : ts.foldl Build.step .start = Build.start.put n) : tree bytes = (n, true) := by
  have all : Token.ofBytes bytes = ts := by
    have read := hs [] [] nofun
    rw [List.append_nil, List.append_nil] at read
    rw [Token.ofBytes_eq, read]
    exact List.reverse_reverse _
  rw [tree, all, hb]
  rfl

/-- A text that is read as a value has the value as its tree. -/
theorem Reads.tree {P : Node → Prop} {text bytes : Bytes} (h : Reads P text)
    (hp : Padded text bytes) : ∃ n, P n ∧ tree bytes = (n, true) := by
  obtain ⟨ts, hs, hb⟩ := h
  obtain ⟨n, hn, he⟩ := hb [] 0 none rfl
  exact ⟨n, hn, tree_of_scans (hs.padded hp) he⟩

/-- A text of items in brackets has the container of them as its tree. -/
theorem Brackets.tree {α β : Type} {B : Brackets α} {Q : β → α → Prop} {ms : List β}
    {items : List Bytes} {text bytes : Bytes} (h : Enclosed B.opening B.closing items text)
    (hm : List.Forall₂ (fun m item => B.Adds (Q m) item) ms items) (hp : Padded text bytes) :
    ∃ xs, List.Forall₂ Q ms xs ∧ tree bytes = (B.node xs, true) := by
  obtain ⟨ts, hs, hb⟩ := B.build h hm
  obtain ⟨xs, hx, he⟩ := hb [] 0 none rfl
  exact ⟨xs, hx, tree_of_scans (hs.padded hp) he⟩

end InferenceGateway.Json
