import InferenceGateway.Page.Token
import InferenceGateway.Proofs.RecordReading

/-!
# Page tokens

A token is handed out by the gateway and handed back by a client, and says where a listing
goes on. On its way it is a number, a JSON text, base 64 and a text again; each of these
forms gives back what it was made of.

* `Text.Base64.decode_encode`, `Text.Base64.encode_of_decode`: bytes are what their written form
  stands for, and no other form stands for them.
* `Page.parse_index`: the JSON text of a position is read as that position.
* `Page.decode?_encode`: a token stands for the position that it was made for.
* `Page.round_trip`: so a listing goes on where the token says, and tokens differ if positions do.
-/

namespace InferenceGateway

/-- A visible character of ASCII. -/
def Text.IsVisible (b : UInt8) : Prop := 0x20 < b ∧ b < 0x7F

/-! ## Base 64 -/

namespace Text.Base64

/-- A value below 64 is the value of its character. -/
theorem digit?_digit {n : Nat} (h : n < 64) : digit? (digit n) = some n := by
  have all : ∀ n : Fin 64, digit? (digit n) = some n.val := by decide
  exact all ⟨n, h⟩

/-- No value is written with the padding character. -/
theorem digit_ne_pad {n : Nat} (h : n < 64) : digit n ≠ pad := by
  have all : ∀ n : Fin 64, digit n ≠ pad := by decide
  exact all ⟨n, h⟩

/-- A full group stands for three bytes, wherever it stands. -/
theorem decode_group {p q r s : Nat} (hp : p < 64) (hq : q < 64) (hr : r < 64) (hs : s < 64)
    (rest : Bytes) : decode (digit p :: digit q :: digit r :: digit s :: rest) =
      (decode rest).map fun bytes => UInt8.ofNat (p * 4 + q / 16) ::
        UInt8.ofNat (q % 16 * 16 + r / 4) :: UInt8.ofNat (r % 4 * 64 + s) :: bytes := by
  cases rest with
  | nil =>
    simp only [decode, decodeLast, digit?_digit, hp, hq, hr, hs, digit_ne_pad, if_false,
      Option.bind_eq_bind, Option.bind_some, Option.map_some]
  | cons b rest =>
    simp only [decode, digit?_digit, hp, hq, hr, hs, Option.bind_eq_bind, Option.bind_some,
      Option.map_eq_bind]
    rfl

/-- Bytes are what their written form stands for. -/
@[simp] theorem decode_encode (bytes : Bytes) : decode (encode bytes) = some bytes := by
  -- Bytes are written in groups of three. The two padded groups can only be the last.
  induction bytes using encode.induct with
  | case1 a b c rest ih =>
    have ha := a.toNat_lt
    have hb := b.toNat_lt
    have hc := c.toNat_lt
    rw [encode, decode_group (by omega) (by omega) (by omega) (by omega), ih, Option.map_some,
      ofNat_of_eq (by omega : _ = a.toNat), ofNat_of_eq (by omega : _ = b.toNat),
      ofNat_of_eq (by omega : _ = c.toNat)]
  | case2 a b =>
    have ha := a.toNat_lt
    have hb := b.toNat_lt
    simp only [encode, decode, decodeLast]
    rw [digit?_digit (by omega), digit?_digit (by omega), digit?_digit (by omega)]
    simp only [digit_ne_pad (by omega : (a.toNat * 256 + b.toNat) % 16 * 4 < 64), if_false,
      Option.bind_eq_bind, Option.bind_some, if_true]
    rw [if_pos (by omega), ofNat_of_eq (by omega : _ = a.toNat),
      ofNat_of_eq (by omega : _ = b.toNat)]
  | case3 a =>
    have ha := a.toNat_lt
    simp only [encode, decode, decodeLast]
    rw [digit?_digit (by omega), digit?_digit (by omega)]
    simp only [if_true, Option.bind_eq_bind, Option.bind_some, decide_true, Bool.true_and]
    rw [if_pos (by rw [decide_eq_true_eq]; omega), ofNat_of_eq (by omega : _ = a.toNat)]
  | case4 => rfl

/-- A character that has a value is the character of that value. -/
theorem digit_of_digit? {b : UInt8} {n : Nat} (h : digit? b = some n) : n < 64 ∧ digit n = b := by
  have all : ∀ b : Fin 256, ∀ n ∈ digit? (UInt8.ofNat b.val),
      n < 64 ∧ digit n = UInt8.ofNat b.val := by
    decide +kernel
  have := all ⟨b.toNat, b.toNat_lt⟩
  rw [UInt8.ofNat_toNat] at this
  exact this n h

theorem toNat_ofNat_of_lt {n : Nat} (h : n < 256) : (UInt8.ofNat n).toNat = n := by
  rw [UInt8.toNat_ofNat', Nat.mod_eq_of_lt h]

/-- The last group is the written form of its bytes. -/
theorem encode_of_decodeLast {w x y z : UInt8} {bytes : Bytes}
    (h : decodeLast w x y z = some bytes) : encode bytes = [w, x, y, z] := by
  simp only [decodeLast, Option.bind_eq_bind, Option.bind_eq_some_iff] at h
  obtain ⟨a, ha, b, hb, h⟩ := h
  obtain ⟨la, rfl⟩ := digit_of_digit? ha
  obtain ⟨lb, rfl⟩ := digit_of_digit? hb
  split at h
  · rename_i hy
    split at h
    · rename_i hz
      obtain ⟨hz, h0⟩ := Bool.and_eq_true_iff.1 hz
      rw [decide_eq_true_eq] at hz h0
      cases h
      rw [encode, toNat_ofNat_of_lt (by omega), hy, hz, (by omega : (a * 4 + b / 16) / 4 = a),
        (by omega : (a * 4 + b / 16) % 4 * 16 = b)]
    · cases h
  · rw [Option.bind_eq_some_iff] at h
    obtain ⟨c, hc, h⟩ := h
    obtain ⟨lc, rfl⟩ := digit_of_digit? hc
    split at h
    · rename_i hz
      split at h
      · cases h
        simp only [encode]
        rw [toNat_ofNat_of_lt (by omega), toNat_ofNat_of_lt (by omega), hz]
        congr <;> omega
      · cases h
    · rw [Option.bind_eq_some_iff] at h
      obtain ⟨d, hd, h⟩ := h
      obtain ⟨ld, rfl⟩ := digit_of_digit? hd
      cases h
      simp only [encode]
      rw [toNat_ofNat_of_lt (by omega), toNat_ofNat_of_lt (by omega), toNat_ofNat_of_lt (by omega)]
      congr <;> omega

/-- Only the written form of bytes stands for them. -/
theorem encode_of_decode {chars bytes : Bytes} (h : decode chars = some bytes) :
    encode bytes = chars := by
  induction chars using decode.induct generalizing bytes with
  | case1 =>
    cases h
    rfl
  | case2 w x y z => exact encode_of_decodeLast h
  | case3 w x y z rest hrest ih =>
    rw [decode] at h
    · simp only [Option.bind_eq_bind, Option.bind_eq_some_iff] at h
      obtain ⟨a, ha, b, hb, c, hc, d, hd, more, hm, h⟩ := h
      obtain ⟨la, rfl⟩ := digit_of_digit? ha
      obtain ⟨lb, rfl⟩ := digit_of_digit? hb
      obtain ⟨lc, rfl⟩ := digit_of_digit? hc
      obtain ⟨ld, rfl⟩ := digit_of_digit? hd
      cases h
      simp only [encode]
      rw [toNat_ofNat_of_lt (by omega), toNat_ofNat_of_lt (by omega), toNat_ofNat_of_lt (by omega),
        ih hm]
      congr <;> omega
    · exact hrest
  | case4 chars hn hl hm =>
    rw [decode] at h
    · cases h
    · exact hn
    · exact hl
    · exact hm

theorem isVisible_digit (n : Nat) : IsVisible (digit n) := by
  rcases Nat.lt_or_ge n 64 with h | h
  · have all : ∀ n : Fin 64, 0x20 < digit n ∧ digit n < 0x7F := by decide
    exact all ⟨n, h⟩
  · have hd : digit n = 0x2F := by
      rw [digit, if_neg (by omega), if_neg (by omega), if_neg (by omega), if_neg (by omega)]
    rw [hd]
    exact ⟨by decide, by decide⟩

theorem isVisible_pad : IsVisible pad := ⟨by decide, by decide⟩

/-- The characters of a written form are visible. -/
theorem isVisible_of_mem_encode {bytes : Bytes} {b : UInt8} (h : b ∈ encode bytes) :
    IsVisible b := by
  induction bytes using encode.induct with
  | case1 x y z rest ih =>
    simp only [encode, List.mem_cons] at h
    rcases h with rfl | rfl | rfl | rfl | h
    · exact isVisible_digit _
    · exact isVisible_digit _
    · exact isVisible_digit _
    · exact isVisible_digit _
    · exact ih h
  | case2 x y =>
    simp only [encode, List.mem_cons, List.not_mem_nil, or_false] at h
    rcases h with rfl | rfl | rfl | rfl
    · exact isVisible_digit _
    · exact isVisible_digit _
    · exact isVisible_digit _
    · exact isVisible_pad
  | case3 x =>
    simp only [encode, List.mem_cons, List.not_mem_nil, or_false] at h
    rcases h with rfl | rfl | rfl | rfl
    · exact isVisible_digit _
    · exact isVisible_digit _
    · exact isVisible_pad
    · exact isVisible_pad
  | case4 => cases h

end Text.Base64

/-! ## Tokens -/

namespace Page

open Document Text

/-- The JSON text of a position is read as a token. -/
theorem parse_index {index : Nat} (h : index < Numeral.wordLimit) :
    Json.parse (tokenFields.closed "struct PageToken")
      (Utf8.encode (Json.object [("index", .integer index)]).print) = .ok index := by
  have back : Json.ReadsBack (tokenFields.closed "struct PageToken") 1
      (.object [("index", .integer index)]) index :=
    .record (.required rfl (.natural h (by decide) "usize")) (.refl _) (by decide)
  exact back.parse (by decide)

/-- A token stands for the position that it was made for, with any white space around it. -/
theorem decode?_blank {index : Nat} (h : index < Numeral.wordLimit) {before after : String}
    (hb : ∀ c ∈ before.toList, isBlank c) (ha : ∀ c ∈ after.toList, isBlank c) :
    decode? (before ++ (encode index ++ after)) = some index := by
  have visible : ∀ b ∈ Base64.encode (Utf8.encode (Json.object [("index", .integer index)]).print),
      IsVisible b := fun b hb => Base64.isVisible_of_mem_encode hb
  have ascii := fun b hb => (UInt8.lt_trans (visible b hb).2 (by decide : (0x7F : UInt8) < 0x80))
  -- No character of base 64 is white space, so trimming gives back the token itself.
  have clean : ∀ c ∈ (encode index).toList, isBlank c = false := by
    intro c hc
    rw [encode, Utf8.decodeLenient_ascii ascii, String.toList_ofList] at hc
    obtain ⟨b, hb, rfl⟩ := List.mem_map.1 hc
    have hv := visible b hb
    exact isBlank_ofNat (UInt8.lt_iff_toNat_lt.1 hv.1) (UInt8.lt_iff_toNat_lt.1 hv.2)
  have trimmed : trim (before ++ (encode index ++ after)) = encode index := by
    rw [trim, String.toList_append, String.toList_append,
      trimBlank_append hb (fun c hc => clean c (List.mem_of_head? hc))
        (fun c hc => clean c (List.mem_of_getLast? hc)) ha,
      String.ofList_toList]
  rw [decode?, trimmed, encode, Utf8.encode_decodeLenient ascii, Base64.decode_encode]
  simp only [Option.bind_eq_bind, Option.bind_some, parse_index h, Except.toOption]

/-- A token stands for the position that it was made for. -/
theorem decode?_encode {index : Nat} (h : index < Numeral.wordLimit) :
    decode? (encode index) = some index := by
  have alone := @decode?_blank index h "" "" nofun nofun
  simpa using alone

/-- A listing goes on at the position that its token was made for, with any white space around
    the token. No other position has that token. -/
theorem round_trip {index : Nat} (h : index < Numeral.wordLimit) {before after : String}
    (hb : ∀ c ∈ before.toList, isBlank c) (ha : ∀ c ∈ after.toList, isBlank c) :
    start (some (before ++ encode index ++ after)) = .ok index ∧
      ∀ other < Numeral.wordLimit, encode other = encode index → other = index := by
  constructor
  · rw [start, String.append_assoc, decode?_blank h hb ha]
  · intro other ho he
    have back := decode?_encode ho
    rw [he, decode?_encode h] at back
    exact (Option.some.inj back).symm

/-- The token of the greatest position, between a space that is not broken, a line break and an
    ideographic space. -/
theorem round_trip_greatest :
    let token := "eyJpbmRleCI6MTg0NDY3NDQwNzM3MDk1NTE2MTV9"
    encode 18446744073709551615 = token ∧
      start (some ("\u00a0\n" ++ token ++ "\u3000")) = .ok 18446744073709551615 := by
  intro token
  have he : encode 18446744073709551615 = token := by decide +kernel
  have before : "\u00a0\n".toList.all isBlank := by decide +kernel
  have after : "\u3000".toList.all isBlank := by decide +kernel
  obtain ⟨started, -⟩ := round_trip (by decide : 18446744073709551615 < Numeral.wordLimit)
    (List.all_eq_true.1 before) (List.all_eq_true.1 after)
  exact ⟨he, he ▸ started⟩

end Page

end InferenceGateway
