import InferenceGateway.Json.Printer
import InferenceGateway.Json.Tree
import InferenceGateway.Proofs.Text
import Mathlib.Data.Nat.Digits.Defs
import Mathlib.Tactic.IntervalCases

/-!
# Reading written JSON

What the gateway has written it can read again. The text of a value goes through two machines,
one for tokens and one for the tree. Both go along the value just as the printer did: a value
makes its tokens, whatever stands before it and whatever ends it, and its tokens make its node
wherever a value may come next.

This holds of values without fractions, of which nobody but the reader knows what they are read
as, and of containers that are not too deep (`Plain`).

* `Token.readAll_chars`: the characters of a value are read as its tokens.
* `foldl_tokens`: the tokens of a value are built into its node.
* `tree_print`, `parse_print`: the text of a value is read as the value.
-/

namespace InferenceGateway.Json

open Document Numeral Text

/-- The bytes of characters. -/
def charBytes (cs : List Char) : Bytes := cs.flatMap String.utf8EncodeChar

theorem charBytes_append (cs ds : List Char) :
    charBytes (cs ++ ds) = charBytes cs ++ charBytes ds := List.flatMap_append

theorem charBytes_cons (c : Char) (cs : List Char) :
    charBytes (c :: cs) = String.utf8EncodeChar c ++ charBytes cs := rfl

theorem encode_print (j : Json) : Utf8.encode j.print = charBytes j.chars := by
  rw [Utf8.encode, print, String.toList_ofList, charBytes]

/-- The bytes of the digits of a number. -/
def digitBytes (n : Nat) : Bytes := (digitsOf n).flatMap String.utf8EncodeChar

/-- A digit as it is written. -/
def digitByte (k : Nat) : UInt8 := UInt8.ofNat (0x30 + k)

theorem utf8EncodeChar_digitChar {k : Nat} (h : k < 10) :
    String.utf8EncodeChar k.digitChar = [digitByte k] := by
  have all : ∀ k : Fin 10, String.utf8EncodeChar (Nat.digitChar k.val) = [digitByte k.val] := by
    decide
  exact all ⟨k, h⟩

theorem digitBytes_of_lt {n : Nat} (h : n < 10) : digitBytes n = [digitByte n] := by
  rw [digitBytes, digitsOf, Nat.toDigits_of_lt_base h, List.flatMap_singleton,
    utf8EncodeChar_digitChar h]

theorem digitBytes_append {m k : Nat} (hm : 0 < m) (hk : k < 10) :
    digitBytes (10 * m + k) = digitBytes m ++ [digitByte k] := by
  rw [digitBytes, digitsOf, ← Nat.toDigits_append_toDigits (by decide) hm hk, List.flatMap_append,
    Nat.toDigits_of_lt_base hk, List.flatMap_singleton, utf8EncodeChar_digitChar hk]
  rfl

/-- A natural number is written with its digits. -/
theorem charBytes_integerChars (n : Nat) : charBytes (integerChars n) = digitBytes n := by
  rw [integerChars, if_neg (by omega), Int.natAbs_natCast]
  rfl

namespace Token

theorem read_cons (b : UInt8) (bytes : Bytes) (found : List Token) (mode : Mode) :
    read (b :: bytes) (found, mode) =
      read bytes ((step mode b).1.reverse ++ found, (step mode b).2) := rfl

theorem read_append (xs ys : Bytes) (start : List Token × Mode) :
    read (xs ++ ys) start = read ys (read xs start) := List.foldl_append

/-- The tokens of bytes that are read on to their end, the last first. -/
def readAll (bytes : Bytes) (start : List Token × Mode) : List Token :=
  let (found, mode) := read bytes start
  (finish mode).reverse ++ found

theorem ofBytes_eq (bytes : Bytes) : ofBytes bytes = (readAll bytes ([], .between)).reverse := rfl

theorem readAll_cons (b : UInt8) (bytes : Bytes) (found : List Token) (mode : Mode) :
    readAll (b :: bytes) (found, mode) =
      readAll bytes ((step mode b).1.reverse ++ found, (step mode b).2) := rfl

theorem readAll_append (xs ys : Bytes) (start : List Token × Mode) :
    readAll (xs ++ ys) start = readAll ys (read xs start) := by
  rw [readAll, readAll, read_append]

/-! ## Strings -/

namespace Scribe

/-- The string at its opening quote. -/
def blank : Scribe := ⟨[], none, false⟩

theorem add_add (s : Scribe) (xs ys : Bytes) : (s.add xs).add ys = s.add (xs ++ ys) := by
  simp [add]

/-- The bytes of a text make the text. -/
theorem value_blank_add (t : String) : (blank.add (Utf8.encode t)).value = .text t := by
  simp [value, add, blank]

end Scribe

/-- A byte of a string that stands for itself. -/
def IsRaw (b : UInt8) : Prop := b ≠ 0x22 ∧ b ≠ 0x5C ∧ 0x20 ≤ b

theorem read_raw {bytes : Bytes} (h : ∀ b ∈ bytes, IsRaw b) (hn : bytes ≠ []) (found : List Token)
    (s : Scribe) : read bytes (found, .string s) = (found, .string (s.add bytes)) := by
  induction bytes generalizing s with
  | nil => exact absurd rfl hn
  | cons b bytes ih =>
    obtain ⟨hq, hb, hl⟩ := h b List.mem_cons_self
    have stays : step (.string s) b = ([], .string (s.add [b])) := by
      rw [step, if_neg hq, if_neg hb, if_neg (UInt8.not_lt.2 hl)]
    rw [read_cons, stays]
    rcases bytes with _ | ⟨c, bytes⟩
    · rfl
    · rw [List.reverse_nil, List.nil_append, ih (fun x hx => h x (List.mem_cons_of_mem _ hx))
        (List.cons_ne_nil _ _), Scribe.add_add]
      rfl

/-- A hexadecimal digit as it is written has its value. -/
theorem hexDigit?_digitChar {k : Nat} (h : k < 16) :
    ∃ b, String.utf8EncodeChar k.digitChar = [b] ∧ hexDigit? b = some k := by
  interval_cases k <;> exact ⟨_, rfl, by decide⟩

/-- An escape by number stands for the character of that number. -/
theorem read_unicode {c : Char} (h : c.toNat < 0x20) (found : List Token) (s : Scribe) :
    read (charBytes ('\\' :: 'u' :: '0' :: '0' :: hexPair c.toNat)) (found, .string s) =
      (found, .string (s.add (String.utf8EncodeChar c))) := by
  obtain ⟨b, hb, high⟩ := hexDigit?_digitChar (show c.toNat / 16 < 16 by omega)
  obtain ⟨d, hd, low⟩ := hexDigit?_digitChar (show c.toNat % 16 < 16 by omega)
  have bytes : charBytes ('\\' :: 'u' :: '0' :: '0' :: hexPair c.toNat) =
      [0x5C, 0x75, 0x30, 0x30] ++ [b, d] := by
    simp only [charBytes, hexPair, List.flatMap_cons, List.flatMap_nil, hb, hd]
    rfl
  have zeros : read [0x5C, 0x75, 0x30, 0x30] (found, .string s) = (found, .unicode s 2 0) := by
    rfl
  have unit : s.addUnit c.toNat = s.add (String.utf8EncodeChar c) := by
    rw [Scribe.addUnit, if_neg (by simp; omega), if_neg (by simp; omega), Char.ofNat_toNat]
  rw [bytes, read_append, zeros, read_cons, step, high]
  simp only [Nat.not_ofNat_le_one, if_false]
  rw [read_cons, step, low]
  simp only [Nat.reduceSub, Nat.le_refl, if_true]
  rw [(by omega : 16 * (16 * 0 + c.toNat / 16) + c.toNat % 16 = c.toNat), unit]
  rfl

/-- The byte of a character that is written as it is. -/
theorem isRaw_of_mem {c : Char} (hq : c ≠ '"') (hb : c ≠ '\\') (hl : 0x20 ≤ c.toNat) {b : UInt8}
    (h : b ∈ String.utf8EncodeChar c) : IsRaw b := by
  -- A byte of ASCII is that of the character itself.
  have ascii (hn : b < 0x80) : Char.ofNat b.toNat = c := by
    have hm : b ∈ Utf8.encode (String.ofList [c]) := by simpa [Utf8.encode] using h
    simpa using Utf8.ofNat_mem_of_mem_encode hm hn
  refine ⟨?_, ?_, ?_⟩
  · rintro rfl
    exact hq (ascii (by decide)).symm
  · rintro rfl
    exact hb (ascii (by decide)).symm
  · rw [← UInt8.not_lt]
    intro hn
    have all : ∀ n : Fin 0x20, (Char.ofNat n.val).toNat < 0x20 := by decide
    have small : (Char.ofNat b.toNat).toNat < 0x20 := all ⟨b.toNat, UInt8.lt_iff_toNat_lt.1 hn⟩
    rw [ascii (UInt8.lt_trans hn (by decide))] at small
    omega

/-- A character is read from its escape, or from its bytes if it needs none. -/
theorem read_escape (c : Char) (found : List Token) (s : Scribe) :
    read (charBytes (escape c)) (found, .string s) =
      (found, .string (s.add (String.utf8EncodeChar c))) := by
  unfold escape
  split
  iterate 7 rfl
  split
  · exact read_unicode (by assumption) found s
  · rename_i hq hb _ _ _ _ _ hl
    have raw : ∀ b ∈ String.utf8EncodeChar c, IsRaw b := fun b h =>
      isRaw_of_mem (by rintro rfl; exact hq rfl) (by rintro rfl; exact hb rfl) (by omega) h
    have bytes : charBytes [c] = String.utf8EncodeChar c := List.append_nil _
    rw [bytes]
    exact read_raw raw String.utf8EncodeChar_ne_nil found s

/-- The characters of a string are read one by one. -/
theorem read_escapes (cs : List Char) (found : List Token) (bytes : Bytes) :
    read (charBytes (cs.flatMap escape)) (found, .string (Scribe.blank.add bytes)) =
      (found, .string (Scribe.blank.add (bytes ++ charBytes cs))) := by
  induction cs generalizing bytes with
  | nil => rw [charBytes, charBytes, List.flatMap_nil, List.flatMap_nil, List.append_nil]; rfl
  | cons c cs ih =>
    rw [List.flatMap_cons, charBytes_append, read_append, read_escape, Scribe.add_add, ih,
      charBytes_cons, List.append_assoc]

/-- A quoted text is read as the text. -/
theorem read_quote (t : String) (found : List Token) :
    read (charBytes (quote t)) (found, .between) = (.string (.text t) :: found, .between) := by
  have opened : read (String.utf8EncodeChar '"') (found, .between) =
      (found, .string (Scribe.blank.add [])) := rfl
  rw [quote, List.cons_append, charBytes_cons, read_append, opened, charBytes_append, read_append,
    read_escapes, List.nil_append]
  show read [0x22] (found, .string (Scribe.blank.add (Utf8.encode t))) = _
  rw [read_cons, step, if_pos rfl, Scribe.value_blank_add]
  rfl

/-! ## Numbers -/

theorem digit?_digitByte {k : Nat} (h : k < 10) : digit? (digitByte k) = some k := by
  have all : ∀ k : Fin 10, digit? (digitByte k.val) = some k.val := by decide
  exact all ⟨k, h⟩

/-- The text so far of a natural number, all of whose digits have been read. -/
structure Draft.Writes (d : Draft) (n : Nat) : Prop where
  part : d.part = if n = 0 then .zero else .whole
  negative : d.negative = false
  fraction : d.fraction = []
  exponent : d.exponent = []
  whole : valueOf d.whole.reverse = n

namespace Draft.Writes

variable {d : Draft} {n : Nat}

theorem canEnd (h : d.Writes n) : d.canEnd = true := by
  rw [Draft.canEnd, h.part]
  split <;> rfl

/-- A natural number of 64 bits is read as it is. -/
theorem value (h : d.Writes n) (hn : n < wordLimit) : d.value = .number (.integer n) := by
  have hl : d.literal.integer? = some (n : Int) := by
    simp only [Literal.integer?, Draft.literal, h.fraction, h.exponent, h.negative, h.whole,
      List.isEmpty_nil, if_true, Bool.false_eq_true, if_false, if_pos hn]
  rw [Draft.value, Literal.jsonNumber, hl]

/-- One digit more. -/
theorem extend (h : d.Writes n) (hn : 0 < n) {k : Nat} (hk : k < 10) :
    ∃ d', d.extend (digitByte k) = some d' ∧ d'.Writes (10 * n + k) := by
  have hp : d.part = .whole := by rw [h.part, if_neg (by omega)]
  refine ⟨{ d with whole := k :: d.whole }, ?_, ?_, h.negative, h.fraction, h.exponent, ?_⟩
  · rw [Draft.extend, hp, digit?_digitByte hk]
  · rw [if_neg (by omega)]
    exact hp
  · have := h.whole
    rw [valueOf] at this ⊢
    rw [List.reverse_cons, List.foldl_append, this]
    rfl

end Draft.Writes

/-- A digit begins a number. -/
theorem begin_digitByte {k : Nat} (h : k < 10) :
    ∃ d, begin (digitByte k) = ([], .number d) ∧ d.Writes k := by
  refine ⟨⟨if k = 0 then .zero else .whole, false, [k], [], false, []⟩, ?_, rfl, rfl, rfl, rfl, ?_⟩
  · -- A digit is none of the other bytes that begin a token.
    interval_cases k <;> rfl
  · simp [valueOf]

/-- The digits of a natural number are read as a number. -/
theorem read_digitBytes (n : Nat) (found : List Token) :
    ∃ d, read (digitBytes n) (found, .between) = (found, .number d) ∧ d.Writes n := by
  -- The digits are read from the left, so the induction takes off the last one.
  induction n using Nat.base_induction 10 (by decide) with
  | single k hk =>
    obtain ⟨d, hd, hw⟩ := begin_digitByte hk
    refine ⟨d, ?_, hw⟩
    rw [digitBytes_of_lt hk, read_cons, step, hd]
    rfl
  | digit m k hk hm ih =>
    obtain ⟨d, hd, hw⟩ := ih
    obtain ⟨d', hd', hw'⟩ := hw.extend hm hk
    refine ⟨d', ?_, hw'⟩
    rw [digitBytes_append hm hk, read_append, hd, read_cons, step, hd']
    rfl

/-- A byte that no number and no word goes on with: white space, a comma or the end of a
    container. -/
def IsStop (b : UInt8) : Prop := b ∈ [0x20, 0x09, 0x0A, 0x0D] ∨ b = 0x2C ∨ b = 0x5D ∨ b = 0x7D

/-- Bytes before which a value ends: none, or such that white space, a comma or the end of a
    container comes first. -/
def Stops (rest : Bytes) : Prop := ∀ b ∈ rest.head?, IsStop b

theorem stops_cons {b : UInt8} {rest : Bytes} : Stops (b :: rest) ↔ IsStop b := by
  simp [Stops]

/-- A number ends before a byte that it cannot go on with. -/
theorem step_number {d : Draft} (h : d.canEnd) {b : UInt8} (digit : digit? b = none)
    (other : b ∉ [0x2E, 0x65, 0x45, 0x2B, 0x2D]) :
    step (.number d) b = (.scalar d.value :: (begin b).1, (begin b).2) := by
  have extend : d.extend b = none := by
    simp only [List.mem_cons, List.not_mem_nil, or_false, not_or] at other
    rw [Draft.extend, digit]
    cases d.part <;> simp [other]
  simp [step, extend, h, digit]

/-- A number ends where a value can end. -/
theorem readAll_stops {d : Draft} (h : d.canEnd) {rest : Bytes} (hr : Stops rest)
    (found : List Token) : readAll rest (found, .number d) =
      readAll rest (.scalar d.value :: found, .between) := by
  cases rest with
  | nil =>
    show (finish (.number d)).reverse ++ found = _
    rw [finish, if_pos h]
    rfl
  | cons b rest =>
    have stops : ∀ b, IsStop b → digit? b = none ∧ b ∉ [0x2E, 0x65, 0x45, 0x2B, 0x2D] := by
      intro b hb
      simp only [IsStop, List.mem_cons, List.not_mem_nil, or_false] at hb
      rcases hb with (rfl | rfl | rfl | rfl) | rfl | rfl | rfl <;> decide
    obtain ⟨digit, other⟩ := stops b (stops_cons.1 hr)
    have begins : step .between b = begin b := rfl
    rw [readAll_cons, readAll_cons, step_number h digit other, begins]
    simp

/-- Bytes before which a value ends: none, or a comma, a bracket or a brace first. -/
def EndsValue (rest : Bytes) : Prop := ∀ b ∈ rest.head?, b = 0x2C ∨ b = 0x5D ∨ b = 0x7D

theorem endsValue_cons {b : UInt8} {rest : Bytes} :
    EndsValue (b :: rest) ↔ b = 0x2C ∨ b = 0x5D ∨ b = 0x7D := by
  simp [EndsValue]

theorem EndsValue.stops {rest : Bytes} (h : EndsValue rest) : Stops rest :=
  fun b hb => .inr (h b hb)

/-- A natural number ends where a value can end. -/
theorem readAll_number {d : Draft} {n : Nat} (h : d.Writes n) (hn : n < wordLimit) {rest : Bytes}
    (hr : EndsValue rest) (found : List Token) : readAll rest (found, .number d) =
      readAll rest (.scalar (.number (.integer n)) :: found, .between) := by
  rw [readAll_stops h.canEnd hr.stops, h.value hn]

/-! ## Values -/

end Token

/-- A value that is read as it was written, within so many containers: all its numbers are
    natural numbers of 64 bits. -/
inductive Plain : Nat → Json → Prop
  | null {room : Nat} : Plain room .null
  | bool {room : Nat} (b : Bool) : Plain room (.bool b)
  | natural {room n : Nat} : n < wordLimit → Plain room (.integer n)
  | text {room : Nat} (s : String) : Plain room (.text s)
  | array {room : Nat} {items : List Json} :
    (∀ j ∈ items, Plain room j) → Plain (room + 1) (.array items)
  | object {room : Nat} {members : List (String × Json)} :
    (∀ m ∈ members, Plain room m.2) → Plain (room + 1) (.object members)

mutual

/-- The tokens of a written value. -/
def tokens : Json → List Token
  | .null => [.scalar .null]
  | .bool b => [.scalar (.bool b)]
  | .integer n => [.scalar (.number (.integer n))]
  | .real x | .single x => [.scalar (.number (.real x))]
  | .text s => [.string (.text s)]
  | .array [] => [.openArray, .closeArray]
  | .array (j :: rest) => .openArray :: (tokens j ++ itemTokens rest)
  | .object [] => [.openObject, .closeObject]
  | .object ((name, j) :: rest) =>
    .openObject :: .string (.text name) :: .colon :: (tokens j ++ memberTokens rest)

/-- The tokens of the further items of an array, and of its end. -/
def itemTokens : List Json → List Token
  | [] => [.closeArray]
  | j :: rest => .comma :: (tokens j ++ itemTokens rest)

/-- The tokens of the further members of an object, and of its end. -/
def memberTokens : List (String × Json) → List Token
  | [] => [.closeObject]
  | (name, j) :: rest => .comma :: .string (.text name) :: .colon :: (tokens j ++ memberTokens rest)

end

namespace Token

/-- Characters that are read as tokens, where a value can end after them. -/
def Spells (cs : List Char) (tokens : List Token) : Prop :=
  ∀ rest found, EndsValue rest → readAll (charBytes cs ++ rest) (found, .between) =
    readAll rest (tokens.reverse ++ found, .between)

namespace Spells

variable {cs ds : List Char} {ts us : List Token}

/-- Characters that are read as tokens whatever comes after them. -/
theorem of_read
    (h : ∀ found, read (charBytes cs) (found, .between) = (ts.reverse ++ found, .between)) :
    Spells cs ts := by
  intro rest found _
  rw [readAll_append, h]

/-- A mark before other characters. -/
theorem mark {c : Char} {t : Token}
    (h : ∀ found, read (String.utf8EncodeChar c) (found, .between) = (t :: found, .between))
    (hd : Spells ds us) : Spells (c :: ds) (t :: us) := by
  intro rest found hr
  rw [charBytes_cons, List.append_assoc, readAll_append, h, hd rest _ hr, List.reverse_cons,
    List.append_assoc]
  rfl

/-- More characters after a value, which can end before them. -/
theorem append (hc : Spells cs ts) (hd : Spells ds us)
    (he : ∃ c rest, ds = c :: rest ∧ (c = ',' ∨ c = ']' ∨ c = '\x7d')) :
    Spells (cs ++ ds) (ts ++ us) := by
  intro rest found hr
  have ends : EndsValue (charBytes ds ++ rest) := by
    obtain ⟨c, more, rfl, hc⟩ := he
    rw [charBytes_cons]
    rcases hc with rfl | rfl | rfl
    · exact endsValue_cons.2 (.inl rfl)
    · exact endsValue_cons.2 (.inr (.inl rfl))
    · exact endsValue_cons.2 (.inr (.inr rfl))
  rw [charBytes_append, List.append_assoc, hc _ found ends, hd rest _ hr, List.reverse_append,
    List.append_assoc]

/-- The name of a member and its colon, before other characters. -/
theorem name (n : String) (hd : Spells ds us) :
    Spells (quote n ++ ':' :: ds) (.string (.text n) :: .colon :: us) := by
  have colon : Spells (':' :: ds) (.colon :: us) := .mark (fun _ => rfl) hd
  intro rest found hr
  rw [charBytes_append, List.append_assoc, readAll_append, read_quote, colon rest _ hr]
  simp

end Spells

theorem itemChars_head (items : List Json) :
    ∃ c rest, itemChars items = c :: rest ∧ (c = ',' ∨ c = ']' ∨ c = '\x7d') := by
  rcases items with _ | ⟨j, items⟩
  · exact ⟨']', [], rfl, .inr (.inl rfl)⟩
  · exact ⟨',', _, rfl, .inl rfl⟩

theorem memberChars_head (members : List (String × Json)) :
    ∃ c rest, memberChars members = c :: rest ∧ (c = ',' ∨ c = ']' ∨ c = '\x7d') := by
  rcases members with _ | ⟨⟨name, j⟩, members⟩
  · exact ⟨'\x7d', [], rfl, .inr (.inr rfl)⟩
  · exact ⟨',', _, rfl, .inl rfl⟩

theorem spells_integerChars {n : Nat} (hn : n < wordLimit) :
    Spells (integerChars n) [.scalar (.number (.integer n))] := by
  intro rest found hr
  obtain ⟨d, hd, hw⟩ := read_digitBytes n found
  rw [charBytes_integerChars, readAll_append, hd, readAll_number hw hn hr]
  rfl

mutual

/-- A written value is read as its tokens. -/
theorem spells_chars : {room : Nat} → (j : Json) → Plain room j → Spells (chars j) (tokens j)
  | _, .null, _ => .of_read fun _ => rfl
  | _, .bool true, _ => .of_read fun _ => rfl
  | _, .bool false, _ => .of_read fun _ => rfl
  | _, .integer _, .natural hn => spells_integerChars hn
  | _, .text s, _ => .of_read (read_quote s)
  | _, .array [], _ => .of_read fun _ => rfl
  | _, .array (j :: items), .array h => by
    rw [List.forall_mem_cons] at h
    exact .mark (fun _ => rfl)
      ((spells_chars j h.1).append (spells_itemChars items h.2) (itemChars_head items))
  | _, .object [], _ => .of_read fun _ => rfl
  | _, .object ((name, j) :: members), .object h => by
    rw [List.forall_mem_cons] at h
    exact .mark (fun _ => rfl)
      (.name name ((spells_chars j h.1).append (spells_memberChars members h.2)
        (memberChars_head members)))

/-- The further items of an array, and its end. -/
theorem spells_itemChars : {room : Nat} → (items : List Json) → (∀ j ∈ items, Plain room j) →
    Spells (itemChars items) (itemTokens items)
  | _, [], _ => .of_read fun _ => rfl
  | _, j :: items, h => by
    rw [List.forall_mem_cons] at h
    exact .mark (fun _ => rfl)
      ((spells_chars j h.1).append (spells_itemChars items h.2) (itemChars_head items))

/-- The further members of an object, and its end. -/
theorem spells_memberChars : {room : Nat} → (members : List (String × Json)) →
    (∀ m ∈ members, Plain room m.2) → Spells (memberChars members) (memberTokens members)
  | _, [], _ => .of_read fun _ => rfl
  | _, (name, j) :: members, h => by
    rw [List.forall_mem_cons] at h
    exact .mark (fun _ => rfl)
      (.name name ((spells_chars j h.1).append (spells_memberChars members h.2)
        (memberChars_head members)))

end

end Token

/-! ## Trees -/

mutual

/-- What a written value is read as. -/
def node : Json → Node
  | .null => .null
  | .bool b => .bool b
  | .integer n => .number (.integer n)
  | .real x | .single x => .number (.real x)
  | .text s => .text s
  | .array items => .sequence (itemNodes items)
  | .object members => .mapping (memberNodes members)

/-- `node` for each item of an array. -/
def itemNodes : List Json → List Node
  | [] => []
  | j :: rest => node j :: itemNodes rest

/-- `node` for each member of an object. -/
def memberNodes : List (String × Json) → List (Node × Node)
  | [] => []
  | (name, j) :: rest => (.text name, node j) :: memberNodes rest

end

namespace Build

variable {frames : List Frame} {depth : Nat} {root : Option Node}

/-- A container that is not too deep is put where it belongs when it is closed. -/
theorem pop_of_lt (h : depth < depthLimit) (f : Frame) (n : Node) :
    (⟨f :: frames, depth + 1, root, false⟩ : Build).pop frames n =
      (⟨frames, depth, root, false⟩ : Build).put n := by
  rw [pop, Nat.add_sub_cancel, close, if_neg (Nat.not_le.2 h)]

theorem step_openArray (h : (⟨frames, depth, root, false⟩ : Build).takesValue) :
    (⟨frames, depth, root, false⟩ : Build).step .openArray =
      ⟨.array [] .first :: frames, depth + 1, root, false⟩ := by
  simp [step, h, push]

theorem step_openObject (h : (⟨frames, depth, root, false⟩ : Build).takesValue) :
    (⟨frames, depth, root, false⟩ : Build).step .openObject =
      ⟨.object [] .first :: frames, depth + 1, root, false⟩ := by
  simp [step, h, push]

mutual

/-- Where a value may come next, its tokens are built into its node. -/
theorem foldl_tokens {frames : List Frame} {depth : Nat} {root : Option Node} : {room : Nat} →
    (j : Json) → Plain room j → depth + room ≤ depthLimit →
    (⟨frames, depth, root, false⟩ : Build).takesValue →
    (tokens j).foldl step ⟨frames, depth, root, false⟩ =
      (⟨frames, depth, root, false⟩ : Build).put (node j)
  | _, .null, _, _, hv => by simp [tokens, step, hv, node]
  | _, .bool b, _, _, hv => by simp [tokens, step, hv, node]
  | _, .integer n, _, _, hv => by simp [tokens, step, hv, node]
  | _, .text s, _, _, hv => by simp [tokens, step, hv, node]
  | _, .array [], .array _, hd, hv => by
    rw [tokens, List.foldl_cons, step_openArray hv]
    exact pop_of_lt (by omega) _ _
  | _, .array (j :: items), .array h, hd, hv => by
    rw [List.forall_mem_cons] at h
    rw [tokens, List.foldl_cons, step_openArray hv, List.foldl_append,
      foldl_tokens j h.1 (by omega) rfl]
    exact foldl_itemTokens [node j] items h.2 (by omega)
  | _, .object [], .object _, hd, hv => by
    rw [tokens, List.foldl_cons, step_openObject hv]
    exact pop_of_lt (by omega) _ _
  | _, .object ((name, j) :: members), .object h, hd, hv => by
    rw [List.forall_mem_cons] at h
    rw [tokens, List.foldl_cons, step_openObject hv, List.foldl_cons, List.foldl_cons,
      List.foldl_append]
    -- The name and its colon leave the object waiting for the value.
    show (memberTokens members).foldl step ((tokens j).foldl step
      ⟨.object [] (.value (.text name)) :: frames, depth + 1, root, false⟩) = _
    rw [foldl_tokens j h.1 (by omega) rfl]
    exact foldl_memberTokens [(.text name, node j)] members h.2 (by omega)

/-- The tokens of further items close the array around them and those found before. -/
theorem foldl_itemTokens {frames : List Frame} {depth : Nat} {root : Option Node} {room : Nat}
    (found : List Node) : (items : List Json) → (∀ j ∈ items, Plain room j) →
    depth + 1 + room ≤ depthLimit →
    (itemTokens items).foldl step ⟨.array found .separator :: frames, depth + 1, root, false⟩ =
      (⟨frames, depth, root, false⟩ : Build).put (.sequence (found.reverse ++ itemNodes items))
  | [], _, hd => by
    rw [itemNodes, List.append_nil]
    exact pop_of_lt (by omega) _ _
  | j :: items, h, hd => by
    rw [List.forall_mem_cons] at h
    rw [itemTokens, List.foldl_cons, List.foldl_append]
    show (itemTokens items).foldl step ((tokens j).foldl step
      ⟨.array found .item :: frames, depth + 1, root, false⟩) = _
    rw [foldl_tokens j h.1 hd rfl, itemNodes, List.append_cons, ← List.reverse_cons]
    exact foldl_itemTokens (node j :: found) items h.2 hd

/-- The tokens of further members close the object around them and those found before. -/
theorem foldl_memberTokens {frames : List Frame} {depth : Nat} {root : Option Node} {room : Nat}
    (found : List (Node × Node)) : (members : List (String × Json)) →
    (∀ m ∈ members, Plain room m.2) → depth + 1 + room ≤ depthLimit →
    (memberTokens members).foldl step ⟨.object found .separator :: frames, depth + 1, root, false⟩ =
      (⟨frames, depth, root, false⟩ : Build).put (.mapping (found.reverse ++ memberNodes members))
  | [], _, hd => by
    rw [memberNodes, List.append_nil]
    exact pop_of_lt (by omega) _ _
  | (name, j) :: members, h, hd => by
    rw [List.forall_mem_cons] at h
    rw [memberTokens, List.foldl_cons, List.foldl_cons, List.foldl_cons, List.foldl_append]
    show (memberTokens members).foldl step ((tokens j).foldl step
      ⟨.object found (.value (.text name)) :: frames, depth + 1, root, false⟩) = _
    rw [foldl_tokens j h.1 hd rfl, memberNodes, List.append_cons, ← List.reverse_cons]
    exact foldl_memberTokens ((.text name, node j) :: found) members h.2 hd

end

end Build

/-! ## Texts -/

/-- The text of a value is one value, and read as what was written. -/
theorem tree_print {room : Nat} {j : Json} (h : Plain room j) (hr : room ≤ Build.depthLimit) :
    tree (Utf8.encode j.print) = (node j, true) := by
  have all : Token.ofBytes (Utf8.encode j.print) = tokens j := by
    have read := Token.spells_chars j h [] [] nofun
    rw [List.append_nil, List.append_nil] at read
    rw [encode_print, Token.ofBytes_eq, read]
    exact List.reverse_reverse _
  have built : (tokens j).foldl Build.step .start = Build.start.put (node j) :=
    Build.foldl_tokens j h (by omega) rfl
  rw [tree, all, built]
  rfl

/-- Reading a text that was written is reading its value. -/
theorem parse_print {α : Type} {room : Nat} {j : Json} (h : Plain room j)
    (hr : room ≤ Build.depthLimit) (r : Reader α) :
    parse r (Utf8.encode j.print) = r .json (node j) := by
  rw [parse, tree_print h hr]
  simp only [if_true]
  rcases r .json (node j) <;> rfl

end InferenceGateway.Json
