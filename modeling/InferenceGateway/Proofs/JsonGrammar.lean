import InferenceGateway.Proofs.JsonReading

/-!
# The grammar of JSON

What a JSON text is, said of its bytes alone. The machines that read a JSON text are not mentioned
here; that they accept such texts and no others is shown elsewhere.

Strings are looked at in two ways. Those that are passed over must only be written as strings are
(`IsContent`): bytes that stand for themselves, whatever they are, and escapes. Those that are read
stand for bytes (`Denotes`), which must be those of a text; there the two halves of a surrogate
pair must stand together.

* `IsNumber`, `IsContent`, `Denotes`: the scalars, without quotes.
* `Enclosed`: items in brackets, with commas between them and white space around each.
* `IsValue`: values.
-/

namespace InferenceGateway.Json.Grammar

open Token

/-! ## Scalars -/

/-- White space. -/
def IsBlank (w : Bytes) : Prop := ∀ b ∈ w, b ∈ [0x20, 0x09, 0x0A, 0x0D]

/-- The three words. -/
def words : List Bytes := ["null", "true", "false"].map Text.Utf8.encode

/-- Decimal digits, at least one. -/
def IsDigits (ds : Bytes) : Prop := ds ≠ [] ∧ ∀ b ∈ ds, 0x30 ≤ b ∧ b ≤ 0x39

/-- Digits before a point: a zero, or digits that do not begin with one. -/
def IsWhole (ds : Bytes) : Prop := ds = [0x30] ∨ IsDigits ds ∧ ds.head? ≠ some 0x30

/-- A number before its point: a sign or none, and digits. -/
def IsInteger (text : Bytes) : Prop :=
  ∃ sign whole, sign ∈ [[], [0x2D]] ∧ IsWhole whole ∧ text = sign ++ whole

/-- A point and digits, or nothing. -/
def IsFraction (text : Bytes) : Prop := text = [] ∨ ∃ ds, IsDigits ds ∧ text = 0x2E :: ds

/-- A number without an exponent. -/
def IsDecimal (text : Bytes) : Prop :=
  ∃ front fraction, IsInteger front ∧ IsFraction fraction ∧ text = front ++ fraction

/-- The letter of an exponent, a sign or none, and digits; or nothing. -/
def IsExponent (text : Bytes) : Prop := text = [] ∨ ∃ mark sign ds, mark ∈ [0x65, 0x45] ∧
  sign ∈ [[], [0x2B], [0x2D]] ∧ IsDigits ds ∧ text = mark :: (sign ++ ds)

/-- A number. -/
def IsNumber (text : Bytes) : Prop :=
  ∃ front exponent, IsDecimal front ∧ IsExponent exponent ∧ text = front ++ exponent

/-- The value of hexadecimal digits. -/
def hexValue (digits : Bytes) : Option Nat :=
  digits.foldlM (fun n b => (hexDigit? b).map (16 * n + ·)) 0

/-- Four hexadecimal digits and their value. -/
def IsCode (digits : Bytes) (n : Nat) : Prop := digits.length = 4 ∧ hexValue digits = some n

/-- A string as it is written, without its quotes. -/
inductive IsContent : Bytes → Prop
  | nil : IsContent []
  | raw {b : UInt8} {rest : Bytes} : IsRaw b → IsContent rest → IsContent (b :: rest)
  | letter {b c : UInt8} {rest : Bytes} :
    escaped? b = some c → IsContent rest → IsContent (0x5C :: b :: rest)
  | code {digits : Bytes} {n : Nat} {rest : Bytes} :
    IsCode digits n → IsContent rest → IsContent (0x5C :: 0x75 :: (digits ++ rest))

/-- A first half of a surrogate pair. -/
def IsHigh (n : Nat) : Prop := 0xD800 ≤ n ∧ n ≤ 0xDBFF

/-- A second half of a surrogate pair. -/
def IsLow (n : Nat) : Prop := 0xDC00 ≤ n ∧ n ≤ 0xDFFF

/-- The bytes of the character of a number. -/
def charOf (n : Nat) : Bytes := String.utf8EncodeChar (Char.ofNat n)

/-- A string as it is written, without its quotes, and the bytes that it stands for. -/
inductive Denotes : Bytes → Bytes → Prop
  | nil : Denotes [] []
  | raw {b : UInt8} {rest bytes : Bytes} :
    IsRaw b → Denotes rest bytes → Denotes (b :: rest) (b :: bytes)
  | letter {b c : UInt8} {rest bytes : Bytes} :
    escaped? b = some c → Denotes rest bytes → Denotes (0x5C :: b :: rest) (c :: bytes)
  | code {digits : Bytes} {n : Nat} {rest bytes : Bytes} :
    IsCode digits n → ¬IsHigh n → ¬IsLow n → Denotes rest bytes →
      Denotes (0x5C :: 0x75 :: (digits ++ rest)) (charOf n ++ bytes)
  | pair {first second : Bytes} {high low : Nat} {rest bytes : Bytes} :
    IsCode first high → IsHigh high → IsCode second low → IsLow low → Denotes rest bytes →
      Denotes (0x5C :: 0x75 :: (first ++ 0x5C :: 0x75 :: (second ++ rest)))
        (charOf (0x10000 + (high - 0xD800) * 0x400 + (low - 0xDC00)) ++ bytes)

/-- A string with its quotes. -/
def quoted (content : Bytes) : Bytes := 0x22 :: (content ++ [0x22])

/-! ## Values -/

/-- A text with white space around it. -/
def Padded (text bytes : Bytes) : Prop :=
  ∃ before after, IsBlank before ∧ IsBlank after ∧ bytes = before ++ text ++ after

/-- Items with commas between them and white space around each. -/
inductive Row : List Bytes → Bytes → Prop
  | last {item bytes : Bytes} : Padded item bytes → Row [item] bytes
  | cons {item bytes : Bytes} {items : List Bytes} {more : Bytes} :
    Padded item bytes → Row items more → Row (item :: items) (bytes ++ 0x2C :: more)

/-- Items between two brackets. -/
inductive Enclosed (opening closing : UInt8) : List Bytes → Bytes → Prop
  | empty {w : Bytes} : IsBlank w → Enclosed opening closing [] (opening :: (w ++ [closing]))
  | row {items : List Bytes} {bytes : Bytes} :
    Row items bytes → Enclosed opening closing items (opening :: (bytes ++ [closing]))

/-- Items of an array. -/
abbrev InArray : List Bytes → Bytes → Prop := Enclosed 0x5B 0x5D

/-- Members of an object. -/
abbrev InObject : List Bytes → Bytes → Prop := Enclosed 0x7B 0x7D

/-- A member of an object: its key without quotes and its value. -/
def IsMember (key value bytes : Bytes) : Prop :=
  ∃ before after, IsBlank before ∧ IsBlank after ∧
    bytes = quoted key ++ before ++ 0x3A :: (after ++ value)

/-- A value. -/
inductive IsValue : Bytes → Prop
  | word {text : Bytes} : text ∈ words → IsValue text
  | number {text : Bytes} : IsNumber text → IsValue text
  | string {content : Bytes} : IsContent content → IsValue (quoted content)
  | array {items : List Bytes} {text : Bytes} :
    (∀ item ∈ items, IsValue item) → InArray items text → IsValue text
  | object {members : List (Bytes × Bytes)} {items : List Bytes} {text : Bytes} :
    (∀ m ∈ members, IsContent m.1) → (∀ m ∈ members, IsValue m.2) →
      List.Forall₂ (fun m item => IsMember m.1 m.2 item) members items →
        InObject items text → IsValue text

/-! ## Putting together -/

theorem IsBlank.nil : IsBlank [] := nofun

theorem IsContent.append {xs ys : Bytes} (hx : IsContent xs) (hy : IsContent ys) :
    IsContent (xs ++ ys) := by
  induction hx with
  | nil => exact hy
  | raw hb _ ih => exact .raw hb ih
  | letter hb _ ih => exact .letter hb ih
  | code hn _ ih =>
    rw [List.cons_append, List.cons_append, List.append_assoc]
    exact .code hn ih

theorem Denotes.append {xs ys bytes more : Bytes} (hx : Denotes xs bytes) (hy : Denotes ys more) :
    Denotes (xs ++ ys) (bytes ++ more) := by
  induction hx with
  | nil => exact hy
  | raw hb _ ih => exact .raw hb ih
  | letter hb _ ih => exact .letter hb ih
  | code hn hh hl _ ih =>
    rw [List.cons_append, List.cons_append, List.append_assoc, List.append_assoc]
    exact .code hn hh hl ih
  | pair hh high hl low _ ih =>
    simp only [List.cons_append, List.append_assoc]
    exact .pair hh high hl low ih

theorem Denotes.isContent {content bytes : Bytes} (h : Denotes content bytes) :
    IsContent content := by
  induction h with
  | nil => exact .nil
  | raw hb _ ih => exact .raw hb ih
  | letter hb _ ih => exact .letter hb ih
  | code hn _ _ _ ih => exact .code hn ih
  | pair hh _ hl _ _ ih => exact .code hh (.code hl ih)

end InferenceGateway.Json.Grammar
