import InferenceGateway.Proofs.Text
import InferenceGateway.Text.Percent

/-!
# Percent spellings

The texts that a text can be written as in a path: any of its bytes may stand as `%` and two
hexadecimal digits, each of them in either case. Decoding gives the text back, as long as it has
no `%` of its own.

* `percentDecode_of_spell`: what decoding makes of a spelling.
* `Spells.decodeSegment`: the same for texts.
-/

namespace InferenceGateway.Text

/-! ## Spellings of bytes -/

/-- The hexadecimal digits of the values below 16, in upper case. -/
def upperDigits : Bytes := Utf8.encode "0123456789ABCDEF"

/-- The hexadecimal digits of the values below 16, in lower case. -/
def lowerDigits : Bytes := Utf8.encode "0123456789abcdef"

/-- A byte is the hexadecimal digit of a value, in either case. -/
def IsHexDigit (value : Nat) (digit : UInt8) : Prop :=
  upperDigits[value]? = some digit ∨ lowerDigits[value]? = some digit

/-- Bytes, and what they can be written as. -/
inductive BytesSpell : Bytes → Bytes → Prop
  | nil : BytesSpell [] []
  | plain (b : UInt8) {bytes spelled : Bytes} :
    BytesSpell bytes spelled → BytesSpell (b :: bytes) (b :: spelled)
  | escaped (b : UInt8) {high low : UInt8} {bytes spelled : Bytes} :
    IsHexDigit (b.toNat / 16) high → IsHexDigit (b.toNat % 16) low → BytesSpell bytes spelled →
      BytesSpell (b :: bytes) (0x25 :: high :: low :: spelled)

theorem not_isHexDigit {b : UInt8} (hu : b ∉ upperDigits) (hl : b ∉ lowerDigits) (value : Nat) :
    ¬IsHexDigit value b :=
  not_or_intro (fun h => hu (List.mem_of_getElem? h)) fun h => hl (List.mem_of_getElem? h)

theorem hexDigit?_of_isHexDigit {value : Nat} {digit : UInt8} (h : IsHexDigit value digit) :
    hexDigit? digit = some (UInt8.ofNat value) := by
  have digits : ∀ ds ∈ [upperDigits, lowerDigits], ∀ (value : Nat) (h : value < ds.length),
      hexDigit? ds[value] = some (UInt8.ofNat value) := by
    decide +kernel
  rcases h with h | h <;> obtain ⟨hl, rfl⟩ := List.getElem?_eq_some_iff.1 h
  · exact digits _ (by simp) value hl
  · exact digits _ (by simp) value hl

theorem percentByte?_of_isHexDigit {b high low : UInt8} (hh : IsHexDigit (b.toNat / 16) high)
    (hl : IsHexDigit (b.toNat % 16) low) : percentByte? 0x25 high low = some b := by
  have whole : UInt8.ofNat (b.toNat / 16) * 16 + UInt8.ofNat (b.toNat % 16) = b := by
    have := b.toNat_lt
    apply UInt8.toNat_inj.1
    simp
    omega
  simp [percentByte?, hexDigit?_of_isHexDigit hh, hexDigit?_of_isHexDigit hl, whole]

/-- A byte that is no `%` is read as it is. -/
theorem percentDecode_cons {b : UInt8} (hb : b ≠ 0x25) (bytes : Bytes) :
    percentDecode (b :: bytes) = b :: percentDecode bytes := by
  match bytes with
  | [] => rfl
  | [_] => rfl
  | high :: low :: rest => simp [percentDecode, percentByte?, hb]

/-- Spelled bytes are decoded to the bytes. -/
theorem percentDecode_of_spell {bytes spelled : Bytes} (h : BytesSpell bytes spelled)
    (hb : 0x25 ∉ bytes) : percentDecode spelled = bytes := by
  induction h with
  | nil => rfl
  | plain b _ ih =>
    rw [percentDecode_cons (Ne.symm (List.ne_of_not_mem_cons hb)),
      ih (List.not_mem_of_not_mem_cons hb)]
  | escaped b hh hl _ ih =>
    rw [percentDecode, percentByte?_of_isHexDigit hh hl]
    exact congrArg _ (ih (List.not_mem_of_not_mem_cons hb))

namespace BytesSpell

variable {bytes spelled : Bytes}

/-- Every row of bytes can be written as it is. -/
theorem refl (bytes : Bytes) : BytesSpell bytes bytes := by
  induction bytes with
  | nil => exact .nil
  | cons b bytes ih => exact .plain b ih

/-- Rows of bytes are spelled one after the other. -/
theorem append (h : BytesSpell bytes spelled) {more moreSpelled : Bytes}
    (h' : BytesSpell more moreSpelled) : BytesSpell (bytes ++ more) (spelled ++ moreSpelled) := by
  induction h with
  | nil => exact h'
  | plain b _ ih => exact .plain b ih
  | escaped b hh hl _ ih => exact .escaped b hh hl ih

/-- What is written is there, unless there is nothing to write. -/
theorem ne_nil (h : BytesSpell bytes spelled) (hb : bytes ≠ []) : spelled ≠ [] := by
  cases h with
  | nil => exact absurd rfl hb
  | plain | escaped => simp

/-- Spelling bytes brings no other bytes in but `%` and digits. -/
theorem not_mem (h : BytesSpell bytes spelled) {b : UInt8} (hb : b ∉ bytes) (hm : b ≠ 0x25)
    (hd : ∀ value, ¬IsHexDigit value b) : b ∉ spelled := by
  induction h with
  | nil => exact hb
  | plain c _ ih =>
    refine List.not_mem_cons_of_ne_of_not_mem (List.ne_of_not_mem_cons hb) ?_
    exact ih (List.not_mem_of_not_mem_cons hb)
  | @escaped c high low _ _ hh hl _ ih =>
    have high : b ≠ high := by
      rintro rfl
      exact hd _ hh
    have low : b ≠ low := by
      rintro rfl
      exact hd _ hl
    exact List.not_mem_cons_of_ne_of_not_mem hm <| List.not_mem_cons_of_ne_of_not_mem high <|
      List.not_mem_cons_of_ne_of_not_mem low <| ih (List.not_mem_of_not_mem_cons hb)

end BytesSpell

/-! ## Spellings of texts -/

/-- What a text can be written as. -/
def Spells (text spelled : String) : Prop := BytesSpell (Utf8.encode text) (Utf8.encode spelled)

namespace Spells

variable {text spelled : String}

theorem refl (text : String) : Spells text text := BytesSpell.refl _

/-- A spelled segment is decoded to the text. -/
theorem decodeSegment (h : Spells text spelled) (ht : '%' ∉ text.toList) :
    decodeSegment spelled = .ok text := by
  have hb : 0x25 ∉ Utf8.encode text := fun hm => ht (Utf8.ofNat_mem_of_mem_encode hm (by decide))
  rw [Text.decodeSegment, percentDecode_of_spell h hb, Utf8.decode_encode]

theorem ne_nil (h : Spells text spelled) (ht : text.toList ≠ []) : spelled.toList ≠ [] := by
  intro hs
  refine BytesSpell.ne_nil h ?_ (by rw [Utf8.encode, hs]; rfl)
  obtain ⟨c, rest, hc⟩ := List.exists_cons_of_ne_nil ht
  rw [Utf8.encode, hc, List.flatMap_cons]
  exact List.append_ne_nil_of_left_ne_nil String.utf8EncodeChar_ne_nil _

/-- A spelled segment is a segment. -/
theorem not_mem_slash (h : Spells text spelled) (ht : '/' ∉ text.toList) :
    '/' ∉ spelled.toList := by
  intro hm
  have hb : 0x2F ∉ Utf8.encode text := fun hm => ht (Utf8.ofNat_mem_of_mem_encode hm (by decide))
  exact BytesSpell.not_mem h hb (by decide) (not_isHexDigit (by decide +kernel) (by decide +kernel))
    (List.mem_flatMap.2 ⟨'/', hm, by decide⟩)

end Spells

end InferenceGateway.Text
