import InferenceGateway.Text.Blank
import InferenceGateway.Text.Utf8
import Mathlib.Data.List.TakeWhile

/-!
# Texts

Each character is read back from its bytes, so a text is what its bytes stand for, to a
strict reader and to a lenient one. No byte of a longer character is one of ASCII: where such
a byte stands among the bytes of a text, there is its character.

* `Utf8.decode_encode`, `Utf8.decodeLenient_encode`: the bytes of a text are read as the text.
* `Utf8.eq_encode_of_decode`: no other bytes are read strictly as the text.
* `Utf8.ofNat_mem_of_mem_encode`: the ASCII among the bytes of a text.
* `Utf8.decodeLenient_ascii`, `Utf8.encode_decodeLenient`: bytes of ASCII are a text.
* `trimBlank_append`: white space is trimmed off what neither begins nor ends with any.
-/

namespace InferenceGateway.Text

/-- A number that is the value of a byte makes that byte. -/
theorem ofNat_of_eq {n : Nat} {b : UInt8} (h : n = b.toNat) : UInt8.ofNat n = b := by
  rw [h, UInt8.ofNat_toNat]

namespace Utf8

theorem read_cons (b : UInt8) (bytes : Bytes) (found : List Piece) (state : State) :
    read (b :: bytes) (found, state) =
      read bytes ((step state b).1.reverse ++ found, (step state b).2) := rfl

theorem read_append (xs ys : Bytes) (start : List Piece × State) :
    read (xs ++ ys) start = read ys (read xs start) := List.foldl_append

/-! ## Characters -/

/-- The only byte of a character of ASCII. -/
theorem step_ascii {b : UInt8} (h : b < 0x80) :
    step .ready b = ([.char (Char.ofNat b.toNat)], .ready) := by
  rw [step, lead, if_pos h]

/-- The first of two bytes. -/
theorem lead_two {n : Nat} (hl : 2 ≤ n) (hn : n < 32) :
    lead (UInt8.ofNat (n + 192)) = ([], .within n 1 1 0x80 0xBF) := by
  have all : ∀ n : Fin 32, 2 ≤ n.val →
      lead (UInt8.ofNat (n.val + 192)) = ([], .within n.val 1 1 0x80 0xBF) := by decide
  exact all ⟨n, hn⟩ hl

/-- The first of three bytes. -/
theorem lead_three {n : Nat} (hn : n < 16) :
    lead (UInt8.ofNat (n + 224)) =
      ([], .within n 2 1 (if n = 0 then 0xA0 else 0x80) (if n = 13 then 0x9F else 0xBF)) := by
  have all : ∀ n : Fin 16, lead (UInt8.ofNat (n.val + 224)) = ([], .within n.val 2 1
      (if n.val = 0 then 0xA0 else 0x80) (if n.val = 13 then 0x9F else 0xBF)) := by decide
  exact all ⟨n, hn⟩

/-- The first of four bytes. -/
theorem lead_four {n : Nat} (hn : n < 5) :
    lead (UInt8.ofNat (n + 240)) =
      ([], .within n 3 1 (if n = 0 then 0x90 else 0x80) (if n = 4 then 0x8F else 0xBF)) := by
  have all : ∀ n : Fin 5, lead (UInt8.ofNat (n.val + 240)) = ([], .within n.val 3 1
      (if n.val = 0 then 0x90 else 0x80) (if n.val = 4 then 0x8F else 0xBF)) := by decide
  exact all ⟨n, hn⟩

/-- A later byte that a character expects. -/
theorem step_within {value missing seen n : Nat} {low high : UInt8} (hn : n < 64)
    (hl : low.toNat ≤ n + 128) (hh : n + 128 ≤ high.toNat) :
    step (.within value missing seen low high) (UInt8.ofNat (n + 128)) =
      if missing ≤ 1 then ([.char (Char.ofNat (value * 64 + n))], .ready)
      else ([], .within (value * 64 + n) (missing - 1) (seen + 1) 0x80 0xBF) := by
  have hb : (UInt8.ofNat (n + 128)).toNat = n + 128 := by
    rw [UInt8.toNat_ofNat']
    omega
  have hs : low ≤ UInt8.ofNat (n + 128) ∧ UInt8.ofNat (n + 128) ≤ high := by
    rw [UInt8.le_iff_toNat_le, UInt8.le_iff_toNat_le, hb]
    exact ⟨hl, hh⟩
  rw [step, if_pos (by simpa using hs), hb, Nat.add_sub_cancel]

/-- The bytes of a character are read as that character. -/
theorem read_utf8EncodeChar (c : Char) (found : List Piece) :
    read (String.utf8EncodeChar c) (found, .ready) = (.char c :: found, .ready) := by
  have valid : c.toNat < 0xD800 ∨ 0xDFFF < c.toNat ∧ c.toNat < 0x110000 := c.valid
  have made {n : Nat} (h : n = c.toNat) : Char.ofNat n = c := h ▸ Char.ofNat_toNat c
  simp only [String.utf8EncodeChar, Char.toNat_val]
  -- A case for each number of bytes.
  split
  · have hb : (UInt8.ofNat c.toNat).toNat = c.toNat := by
      rw [UInt8.toNat_ofNat']
      omega
    have h : UInt8.ofNat c.toNat < 0x80 := UInt8.lt_iff_toNat_lt.2 (by rw [hb]; simp; omega)
    rw [read_cons, step_ascii h, made hb]
    rfl
  split
  · rw [read_cons, step, lead_two (by omega) (by omega), read_cons,
      step_within (by omega) (by simp) (by simp; omega), if_pos (by omega), made (by omega)]
    rfl
  split
  · rw [read_cons, step, lead_three (by omega), read_cons,
      step_within (by omega) (by split <;> simp; omega) (by split <;> simp <;> omega),
      if_neg (by omega), read_cons,
      step_within (by omega) (by simp) (by simp; omega), if_pos (by omega), made (by omega)]
    rfl
  · rw [read_cons, step, lead_four (by omega), read_cons,
      step_within (by omega) (by split <;> simp; omega) (by split <;> simp <;> omega),
      if_neg (by omega), read_cons,
      step_within (by omega) (by simp) (by simp; omega), if_neg (by omega), read_cons,
      step_within (by omega) (by simp) (by simp; omega), if_pos (by omega), made (by omega)]
    rfl

/-! ## Texts -/

/-- What the bytes of a text hold: its characters. -/
theorem pieces_encode (s : String) : pieces (encode s) = s.toList.map .char := by
  have all (cs : List Char) (found : List Piece) :
      read (cs.flatMap String.utf8EncodeChar) (found, .ready) =
        ((cs.map .char).reverse ++ found, .ready) := by
    induction cs generalizing found with
    | nil => rfl
    | cons c cs ih =>
      rw [List.flatMap_cons, read_append, read_utf8EncodeChar, ih]
      simp
  rw [pieces, encode, all]
  simp [finish]

/-- A text is what its bytes stand for. -/
@[simp] theorem decodeLenient_encode (s : String) : decodeLenient (encode s) = s := by
  rw [decodeLenient, pieces_encode, List.map_map]
  simp [Function.comp_def, Piece.shown]

/-- The bytes of a text are those of a text. -/
@[simp] theorem decode_encode (s : String) : decode (encode s) = .ok s := by
  have all (cs before : List Char) (index : Nat) :
      charsOf index before (cs.map .char) = .ok (before.reverse ++ cs) := by
    induction cs generalizing before index with
    | nil => simp [charsOf]
    | cons c cs ih => simp [charsOf, ih]
  rw [decode, pieces_encode, all]
  simp [Except.map]

theorem encode_append (s t : String) : encode (s ++ t) = encode s ++ encode t := by
  simp [encode]

/-- A byte of ASCII in a text is a character of the text. -/
theorem ofNat_mem_of_mem_encode {s : String} {b : UInt8} (h : b ∈ encode s) (hb : b < 0x80) :
    Char.ofNat b.toNat ∈ s.toList := by
  obtain ⟨c, hc, hm⟩ := List.mem_flatMap.1 h
  have hn : b.toNat < 128 := UInt8.lt_iff_toNat_lt.1 hb
  -- All bytes of longer characters lie beyond ASCII.
  have far {n k : Nat} (hk : 128 ≤ k) (hl : n + k < 256) : b ≠ UInt8.ofNat (n + k) := by
    rintro rfl
    rw [UInt8.toNat_ofNat'] at hn
    omega
  simp only [String.utf8EncodeChar, Char.toNat_val] at hm
  split at hm
  · rename_i hv
    obtain rfl := List.mem_singleton.1 hm
    rw [UInt8.toNat_ofNat', Nat.mod_eq_of_lt (by omega), Char.ofNat_toNat]
    exact hc
  · exfalso
    split at hm
    · simp only [List.mem_cons, List.not_mem_nil, or_false] at hm
      rcases hm with hm | hm <;> exact far (by decide) (by omega) hm
    split at hm
    · simp only [List.mem_cons, List.not_mem_nil, or_false] at hm
      rcases hm with hm | hm | hm <;> exact far (by decide) (by omega) hm
    · simp only [List.mem_cons, List.not_mem_nil, or_false] at hm
      rcases hm with hm | hm | hm | hm <;> exact far (by decide) (by omega) hm

/-! ## Texts of ASCII -/

/-- Bytes of ASCII are a character each. -/
theorem read_ascii {bytes : Bytes} (h : ∀ b ∈ bytes, b < 0x80) (found : List Piece) :
    read bytes (found, .ready) =
      ((bytes.map fun b => .char (Char.ofNat b.toNat)).reverse ++ found, .ready) := by
  induction bytes generalizing found with
  | nil => rfl
  | cons b bytes ih =>
    rw [read_cons, step_ascii (h b List.mem_cons_self),
      ih fun x hx => h x (List.mem_cons_of_mem _ hx)]
    simp

/-- The text of bytes of ASCII. -/
theorem decodeLenient_ascii {bytes : Bytes} (h : ∀ b ∈ bytes, b < 0x80) :
    decodeLenient bytes = String.ofList (bytes.map fun b => Char.ofNat b.toNat) := by
  rw [decodeLenient, pieces, read_ascii h]
  simp [finish, Piece.shown, Function.comp_def]

/-- The character of a byte of ASCII is that byte. -/
theorem utf8EncodeChar_ascii {b : UInt8} (h : b < 0x80) :
    String.utf8EncodeChar (Char.ofNat b.toNat) = [b] := by
  have all : ∀ n : Fin 128, String.utf8EncodeChar (Char.ofNat n.val) = [UInt8.ofNat n.val] := by
    decide
  have := all ⟨b.toNat, UInt8.lt_iff_toNat_lt.1 h⟩
  rwa [UInt8.ofNat_toNat] at this

/-- Bytes of ASCII are those of their text. -/
theorem encode_decodeLenient {bytes : Bytes} (h : ∀ b ∈ bytes, b < 0x80) :
    encode (decodeLenient bytes) = bytes := by
  rw [decodeLenient_ascii h, encode, String.toList_ofList]
  induction bytes with
  | nil => rfl
  | cons b bytes ih =>
    rw [List.map_cons, List.flatMap_cons, utf8EncodeChar_ascii (h b List.mem_cons_self),
      ih fun x hx => h x (List.mem_cons_of_mem _ hx), List.singleton_append]

/-! ## Bytes that are read as texts -/

/-- The pieces that are found from a state on. -/
def piecesFrom : State → Bytes → List Piece
  | state, [] => finish state
  | state, b :: bytes => (step state b).1 ++ piecesFrom (step state b).2 bytes

theorem pieces_eq (bytes : Bytes) : pieces bytes = piecesFrom .ready bytes := by
  have all (bytes : Bytes) (found : List Piece) (state : State) :
      (finish (read bytes (found, state)).2 ++ (read bytes (found, state)).1).reverse =
        found.reverse ++ piecesFrom state bytes := by
    induction bytes generalizing found state with
    | nil => cases state <;> simp [read, finish, piecesFrom]
    | cons b bytes ih =>
      rw [read_cons, ih, piecesFrom]
      simp
  exact all bytes [] .ready

/-- Characters are read only of pieces that are characters. -/
theorem pieces_of_charsOf {ps : List Piece} {index : Nat} {before cs : List Char}
    (h : charsOf index before ps = .ok cs) :
    ∃ more, ps = more.map .char ∧ cs = before.reverse ++ more := by
  induction ps generalizing index before with
  | nil =>
    cases h
    exact ⟨[], rfl, (List.append_nil _).symm⟩
  | cons p ps ih =>
    cases p with
    | char c =>
      obtain ⟨more, rfl, rfl⟩ := ih h
      exact ⟨c :: more, rfl, by simp⟩
    | broken | cut => cases h

/-- A character that has begun goes on, if only characters are found. -/
theorem of_piecesFrom_within {value missing seen : Nat} {low high : UInt8} {bytes : Bytes}
    {cs : List Char} (h : piecesFrom (.within value missing seen low high) bytes = cs.map .char) :
    ∃ b rest, bytes = b :: rest ∧ low ≤ b ∧ b ≤ high ∧
      if missing ≤ 1 then ∃ more, cs = Char.ofNat (value * 64 + (b.toNat - 0x80)) :: more ∧
        piecesFrom .ready rest = more.map .char
      else piecesFrom (.within (value * 64 + (b.toNat - 0x80)) (missing - 1) (seen + 1) 0x80 0xBF)
        rest = cs.map .char := by
  have only {p : Piece} {ps : List Piece} (h : p :: ps = cs.map .char) :
      ∃ c more, cs = c :: more ∧ p = .char c ∧ ps = more.map .char := by
    cases cs with
    | nil => cases h
    | cons c more =>
      obtain ⟨hp, hps⟩ := List.cons.inj h
      exact ⟨c, more, rfl, hp, hps⟩
  cases bytes with
  | nil =>
    obtain ⟨c, more, -, hp, -⟩ := only h
    cases hp
  | cons b rest =>
    rw [piecesFrom, step] at h
    split at h
    · rename_i hb
      obtain ⟨hl, hh⟩ := Bool.and_eq_true_iff.1 hb
      refine ⟨b, rest, rfl, of_decide_eq_true hl, of_decide_eq_true hh, ?_⟩
      dsimp only at h
      split
      · rename_i hm
        rw [if_pos hm] at h
        obtain ⟨c, more, rfl, hp, hps⟩ := only h
        rw [Piece.char.inj hp]
        exact ⟨more, rfl, hps⟩
      · rename_i hm
        rw [if_neg hm] at h
        exact h
    · obtain ⟨c, more, -, hp, -⟩ := only h
      cases hp

/-- The number of a character, if it is one. -/
theorem toNat_ofNat {n : Nat} (h : n < 0xD800 ∨ 0xDFFF < n ∧ n < 0x110000) :
    (Char.ofNat n).toNat = n := by
  rw [Char.ofNat, dif_pos h]
  rfl

section Made

variable {a b c d : UInt8}

/-- Two bytes that are read as a character are its bytes. -/
theorem utf8EncodeChar_two (ha : 0xC2 ≤ a.toNat ∧ a.toNat < 0xE0)
    (hb : 0x80 ≤ b.toNat ∧ b.toNat ≤ 0xBF) : String.utf8EncodeChar
      (Char.ofNat ((a.toNat - 0xC0) * 64 + (b.toNat - 0x80))) = [a, b] := by
  simp only [String.utf8EncodeChar, Char.toNat_val]
  rw [toNat_ofNat (by omega), if_neg (by omega), if_pos (by omega),
    ofNat_of_eq (by omega : _ = a.toNat), ofNat_of_eq (by omega : _ = b.toNat)]

/-- Three bytes that are read as a character are its bytes. -/
theorem utf8EncodeChar_three (ha : 0xE0 ≤ a.toNat ∧ a.toNat < 0xF0)
    (hb : 0x80 ≤ b.toNat ∧ b.toNat ≤ 0xBF) (hl : a.toNat = 0xE0 → 0xA0 ≤ b.toNat)
    (hs : a.toNat = 0xED → b.toNat ≤ 0x9F) (hc : 0x80 ≤ c.toNat ∧ c.toNat ≤ 0xBF) :
    String.utf8EncodeChar (Char.ofNat
      (((a.toNat - 0xE0) * 64 + (b.toNat - 0x80)) * 64 + (c.toNat - 0x80))) = [a, b, c] := by
  simp only [String.utf8EncodeChar, Char.toNat_val]
  rw [toNat_ofNat (by omega), if_neg (by omega), if_neg (by omega), if_pos (by omega),
    ofNat_of_eq (by omega : _ = a.toNat), ofNat_of_eq (by omega : _ = b.toNat),
    ofNat_of_eq (by omega : _ = c.toNat)]

/-- Four bytes that are read as a character are its bytes. -/
theorem utf8EncodeChar_four (ha : 0xF0 ≤ a.toNat ∧ a.toNat < 0xF5)
    (hb : 0x80 ≤ b.toNat ∧ b.toNat ≤ 0xBF) (hl : a.toNat = 0xF0 → 0x90 ≤ b.toNat)
    (hs : a.toNat = 0xF4 → b.toNat ≤ 0x8F) (hc : 0x80 ≤ c.toNat ∧ c.toNat ≤ 0xBF)
    (hd : 0x80 ≤ d.toNat ∧ d.toNat ≤ 0xBF) : String.utf8EncodeChar (Char.ofNat
      ((((a.toNat - 0xF0) * 64 + (b.toNat - 0x80)) * 64 + (c.toNat - 0x80)) * 64 +
        (d.toNat - 0x80))) = [a, b, c, d] := by
  simp only [String.utf8EncodeChar, Char.toNat_val]
  rw [toNat_ofNat (by omega), if_neg (by omega), if_neg (by omega), if_neg (by omega),
    ofNat_of_eq (by omega : _ = a.toNat), ofNat_of_eq (by omega : _ = b.toNat),
    ofNat_of_eq (by omega : _ = c.toNat), ofNat_of_eq (by omega : _ = d.toNat)]

/-- A byte between the bounds of a second byte, one of which depends on the first byte. -/
theorem bounds_of_ite {x y low high : UInt8} (hlow : 0x80 ≤ low) (hhigh : high ≤ 0xBF)
    (hl : (if a = x then low else 0x80) ≤ b) (hh : b ≤ if a = y then high else 0xBF) :
    (0x80 ≤ b.toNat ∧ b.toNat ≤ 0xBF) ∧ (a.toNat = x.toNat → low.toNat ≤ b.toNat) ∧
      (a.toNat = y.toNat → b.toNat ≤ high.toNat) := by
  refine ⟨⟨?_, ?_⟩, fun h => ?_, fun h => ?_⟩
  · split at hl
    · exact Nat.le_trans hlow hl
    · exact hl
  · split at hh
    · exact Nat.le_trans hh hhigh
    · exact hh
  · rwa [if_pos (UInt8.toNat_inj.1 h)] at hl
  · rwa [if_pos (UInt8.toNat_inj.1 h)] at hh

end Made

/-- Bytes of which only characters are read are those of these characters. -/
theorem eq_of_piecesFrom {bytes : Bytes} {cs : List Char}
    (h : piecesFrom .ready bytes = cs.map .char) : bytes = cs.flatMap String.utf8EncodeChar := by
  -- The induction is on the number of bytes, as a character takes several of them.
  induction hn : bytes.length using Nat.strongRecOn generalizing bytes cs with
  | ind n ih =>
    cases bytes with
    | nil =>
      cases cs with
      | nil => rfl
      | cons => cases h
    | cons b bytes =>
      rw [piecesFrom, step, lead] at h
      simp only [UInt8.lt_iff_toNat_lt] at h
      split at h
      · -- One byte.
        rename_i h0
        cases cs with
        | nil => cases h
        | cons c cs =>
          obtain ⟨hc, hcs⟩ := List.cons.inj h
          obtain rfl := Piece.char.inj hc
          rw [List.flatMap_cons, utf8EncodeChar_ascii (UInt8.lt_iff_toNat_lt.2 h0),
            ← ih _ (by simp only [← hn, List.length_cons]; omega) hcs rfl]
          rfl
      split at h
      · cases cs <;> cases h
      split at h
      · rename_i h0 h1 h2
        obtain ⟨c, rest, rfl, hl, hh, hr⟩ := of_piecesFrom_within h
        rw [if_pos (Nat.le_refl 1)] at hr
        obtain ⟨more, rfl, hm⟩ := hr
        rw [List.flatMap_cons, ← ih _ (by simp only [← hn, List.length_cons]; omega) hm rfl,
          utf8EncodeChar_two ⟨Nat.not_lt.1 h1, h2⟩ ⟨hl, hh⟩]
        rfl
      split at h
      · rename_i h0 h1 h2 h3
        obtain ⟨c, rest, rfl, hl, hh, hr⟩ := of_piecesFrom_within h
        rw [if_neg (by decide)] at hr
        obtain ⟨d, rest, rfl, hl', hh', hr⟩ := of_piecesFrom_within hr
        rw [if_pos (by decide)] at hr
        obtain ⟨more, rfl, hm⟩ := hr
        rw [List.flatMap_cons, ← ih _ (by simp only [← hn, List.length_cons]; omega) hm rfl]
        obtain ⟨hb, low, high⟩ := bounds_of_ite (by decide) (by decide) hl hh
        rw [utf8EncodeChar_three ⟨Nat.not_lt.1 h2, h3⟩ hb low high ⟨hl', hh'⟩]
        rfl
      split at h
      · rename_i h0 h1 h2 h3 h4
        obtain ⟨c, rest, rfl, hl, hh, hr⟩ := of_piecesFrom_within h
        rw [if_neg (by decide)] at hr
        obtain ⟨d, rest, rfl, hl', hh', hr⟩ := of_piecesFrom_within hr
        rw [if_neg (by decide)] at hr
        obtain ⟨e, rest, rfl, hl'', hh'', hr⟩ := of_piecesFrom_within hr
        rw [if_pos (by decide)] at hr
        obtain ⟨more, rfl, hm⟩ := hr
        rw [List.flatMap_cons, ← ih _ (by simp only [← hn, List.length_cons]; omega) hm rfl]
        obtain ⟨hb, low, high⟩ := bounds_of_ite (by decide) (by decide) hl hh
        rw [utf8EncodeChar_four ⟨Nat.not_lt.1 h3, h4⟩ hb low high ⟨hl', hh'⟩ ⟨hl'', hh''⟩]
        rfl
      · cases cs <;> cases h

/-- Only the bytes of a text are read as the text. -/
theorem eq_encode_of_decode {bytes : Bytes} {s : String} (h : decode bytes = .ok s) :
    bytes = encode s := by
  rw [decode, pieces_eq] at h
  cases hcs : charsOf 0 [] (piecesFrom .ready bytes) with
  | error fault =>
    rw [hcs] at h
    cases h
  | ok cs =>
    rw [hcs] at h
    obtain rfl := Except.ok.inj h
    obtain ⟨more, only, rfl⟩ := pieces_of_charsOf hcs
    rw [eq_of_piecesFrom only, encode, String.toList_ofList]

end Utf8

/-! ## White space -/

/-- A visible character of ASCII is not white space. -/
theorem isBlank_ofNat {n : Nat} (hl : 0x20 < n) (hn : n < 0x7F) :
    isBlank (Char.ofNat n) = false := by
  have all : ∀ n : Fin 0x7F, 0x20 < n.val → isBlank (Char.ofNat n.val) = false := by decide
  exact all ⟨n, hn⟩ hl

/-- White space is trimmed off what neither begins nor ends with any. -/
theorem trimBlank_append {before s after : List Char} (hb : ∀ c ∈ before, isBlank c)
    (hf : ∀ c ∈ s.head?, isBlank c = false) (hl : ∀ c ∈ s.getLast?, isBlank c = false)
    (ha : ∀ c ∈ after, isBlank c) : trimBlank (before ++ (s ++ after)) = s := by
  have keep {t : List Char} (ht : ∀ c ∈ t.head?, isBlank c = false) (u : List Char)
      (hu : t ≠ []) : (t ++ u).dropWhile isBlank = t ++ u := by
    obtain ⟨c, t, rfl⟩ := List.exists_cons_of_ne_nil hu
    exact List.dropWhile_cons_of_neg (by simp [ht c rfl])
  rw [trimBlank, List.dropWhile_append_of_pos hb]
  by_cases hn : s = []
  · subst hn
    rw [List.nil_append, List.dropWhile_eq_nil_iff.2 ha]
    rfl
  · rw [keep hf after hn, List.reverse_append,
      List.dropWhile_append_of_pos fun c hc => ha c (List.mem_reverse.1 hc)]
    have := keep (t := s.reverse) (by rwa [List.head?_reverse]) [] (by simpa using hn)
    rw [List.append_nil] at this
    rw [this, List.reverse_reverse]

end InferenceGateway.Text
