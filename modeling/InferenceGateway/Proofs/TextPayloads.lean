import InferenceGateway.Proofs.Framing
import Mathlib.Data.List.DropRight
import Mathlib.Data.List.Forall2

/-!
# Payloads of a text

What the data of an event stream are whose bytes are those of a text. The reader looks for empty
lines among bytes, and decodes what is between them. A text can be read by its characters alone:
the breaks are characters of ASCII, and no other character has a byte of one of them.

* `payloads`: the payloads of a text, by its characters.
* `readerAfter`: what is left to be read after them.
* `splits_bytesOf`: the events among the bytes are those among the characters.
* `dataOfPieces_of_text`: the bytes of a text, in whatever chunks, are read as its payloads.
-/

namespace InferenceGateway

namespace EventStream

open Text

/-! ## Reading characters -/

/-- A text cut after each empty line, from left to right. What comes after the last one is
    dropped. -/
def piecesOf : List Char → List (List Char)
  | [] => []
  | '\r' :: '\n' :: '\r' :: '\n' :: rest => ['\r', '\n', '\r', '\n'] :: piecesOf rest
  | '\n' :: '\n' :: rest => ['\n', '\n'] :: piecesOf rest
  | '\r' :: '\r' :: rest => ['\r', '\r'] :: piecesOf rest
  | c :: rest => (piecesOf rest).modifyHead (c :: ·)

/-- What comes after the last piece of a text. -/
def remainder (cs : List Char) : List Char := cs.drop (piecesOf cs).flatten.length

/-- A break between two lines. -/
def isBreak (c : Char) : Bool := c = '\n' || c = '\r'

/-- The payloads of a piece: what follows the mark of data in its lines, without the white space
    around it, unless nothing does. -/
def payloadsOf (piece : List Char) : List String :=
  (((piece.splitOnP isBreak).filterMap fun line => (line.dropPrefix? dataMark).map fun data =>
    (data.dropWhile isBlank).rdropWhile isBlank).filter (! ·.isEmpty)).map String.ofList

/-- The payloads of all pieces of a text. -/
def allPayloads (text : String) : List String := (piecesOf text.toList).flatMap payloadsOf

/-- The payloads of a text, up to the one that marks the end. -/
def payloads (text : String) : List String := (allPayloads text).takeWhile (· ≠ endMark)

/-! ## Bytes and characters -/

/-- The bytes of some characters. -/
def bytesOf (cs : List Char) : Bytes := cs.flatMap String.utf8EncodeChar

/-- The state in which a text leaves its reader. -/
def readerAfter (text : String) : Reader :=
  if endMark ∈ allPayloads text then .done else .within (bytesOf (remainder text.toList))

theorem bytesOf_cons (c : Char) (cs : List Char) :
    bytesOf (c :: cs) = String.utf8EncodeChar c ++ bytesOf cs := rfl

/-- A byte of ASCII is a character of its own. -/
theorem eq_of_mem_utf8EncodeChar {b : UInt8} {c : Char} (hb : b < 0x80)
    (h : b ∈ String.utf8EncodeChar c) :
    c = Char.ofNat b.toNat ∧ String.utf8EncodeChar c = [b] := by
  have hm : Char.ofNat b.toNat ∈ (String.ofList [c]).toList :=
    Utf8.ofNat_mem_of_mem_encode (by simpa [Utf8.encode] using h) hb
  have hc : c = Char.ofNat b.toNat := by simpa [eq_comm] using hm
  exact ⟨hc, hc ▸ Utf8.utf8EncodeChar_ascii hb⟩

/-- Bytes of ASCII at the beginning of a text are the characters that it begins with. -/
theorem prefix_of_prefix_bytesOf {bytes : Bytes} (hb : ∀ b ∈ bytes, b < 0x80) {cs : List Char}
    (h : bytes <+: bytesOf cs) : bytes.map (Char.ofNat ·.toNat) <+: cs := by
  induction bytes generalizing cs with
  | nil => exact List.nil_prefix
  | cons b bytes ih =>
    obtain ⟨low, hrest⟩ := List.forall_mem_cons.1 hb
    rcases cs with _ | ⟨c, cs⟩
    · exact absurd (List.prefix_nil.1 h) (List.cons_ne_nil _ _)
    · rw [bytesOf_cons] at h
      obtain ⟨d, more, hd⟩ := List.exists_cons_of_ne_nil (String.utf8EncodeChar_ne_nil (c := c))
      have first : b = d := by
        rw [hd] at h
        exact (List.cons_prefix_cons.1 h).1
      have hm : b ∈ String.utf8EncodeChar c := by rw [hd, first]; exact List.mem_cons_self
      obtain ⟨rfl, one⟩ := eq_of_mem_utf8EncodeChar low hm
      rw [one] at h
      exact List.cons_prefix_cons.2 ⟨rfl, ih hrest (List.cons_prefix_cons.1 h).2⟩

theorem ascii_of_mem_separators {s : Bytes} (hs : s ∈ separators) : ∀ b ∈ s, b < 0x80 := by
  have all : separators.all (·.all (· < 0x80)) := by decide
  simpa using List.all_eq_true.1 all s hs

/-- A separator among the bytes of a text begins where a character begins. -/
theorem prefix_of_separator {s t u : Bytes} (hs : s ∈ separators) {c : Char} {cs : List Char}
    (hc : String.utf8EncodeChar c = t ++ u) (hu : u ≠ []) (hp : s <+: u ++ bytesOf cs) :
    s.map (Char.ofNat ·.toNat) <+: c :: cs := by
  have ascii := ascii_of_mem_separators hs
  obtain ⟨b, s', rfl⟩ := List.exists_cons_of_ne_nil (ne_nil_of_mem_separators hs)
  obtain ⟨d, u', rfl⟩ := List.exists_cons_of_ne_nil hu
  obtain rfl : b = d := (List.cons_prefix_cons.1 hp).1
  have hm : b ∈ String.utf8EncodeChar c := by simp [hc]
  have one := (eq_of_mem_utf8EncodeChar (ascii b List.mem_cons_self) hm).2
  -- The character has one byte only, which is that of the separator.
  have whole : t = [] := by
    rw [one] at hc
    rcases t with _ | ⟨d, t⟩
    · rfl
    · simp at hc
  subst whole
  rw [List.nil_append] at hc
  rw [← hc] at hp
  exact prefix_of_prefix_bytesOf ascii hp

/-! ## Splitting -/

/-- A byte that begins no separator goes before the first event. -/
theorem splits_cons {bytes tail : Bytes} {events : List Bytes} (h : Splits bytes events tail)
    {b : UInt8} (hb : ∀ s ∈ separators, ¬s <+: b :: bytes) :
    Splits (b :: bytes) (events.modifyHead (b :: ·))
      (if events.isEmpty then b :: tail else tail) := by
  cases h with
  | tail hn =>
    refine .tail fun s hs hi => ?_
    rcases List.infix_cons_iff.1 hi with hp | hi
    · exact hb s hs hp
    · exact hn s hs hi
  | event hc hrest => exact .event (hc.cons (separatorAt?_eq_none.2 hb)) hrest

/-- Bytes in which no separator begins go before the first event. -/
theorem splits_append {bytes tail : Bytes} {events : List Bytes} (h : Splits bytes events tail)
    {before : Bytes}
    (hb : ∀ t u, before = t ++ u → u ≠ [] → ∀ s ∈ separators, ¬s <+: u ++ bytes) :
    Splits (before ++ bytes) (events.modifyHead (before ++ ·))
      (if events.isEmpty then before ++ tail else tail) := by
  induction before with
  | nil => cases events <;> exact h
  | cons b before ih =>
    have later := ih fun t u ht => hb (b :: t) u (by rw [ht]; rfl)
    have now := splits_cons later (hb [] (b :: before) rfl (List.cons_ne_nil _ _))
    cases events <;> exact now

/-- A separator goes after an empty event. -/
theorem splits_separator {bytes tail : Bytes} {events : List Bytes} (h : Splits bytes events tail)
    {s : Bytes} (hs : s ∈ separators) : Splits (s ++ bytes) ([] :: events) tail := by
  refine .event ⟨rfl, hs, fun t u he hu => ?_⟩ h
  exact absurd (List.append_eq_nil_iff.1 he.symm).2 hu

/-- An event and the piece that is cut there: its text, and the breaks after it. -/
def Cuts (event : Bytes) (piece : List Char) : Prop :=
  ∃ text breaks, event = bytesOf text ∧ piece = text ++ breaks ∧ ∀ c ∈ breaks, isBreak c

theorem cuts_breaks {breaks : List Char} (h : breaks.all isBreak) : Cuts [] breaks :=
  ⟨[], breaks, rfl, rfl, List.all_eq_true.1 h⟩

/-- The events among the bytes of a text are cut where its pieces are. -/
theorem splits_bytesOf (cs : List Char) : ∃ events,
    Splits (bytesOf cs) events (bytesOf (remainder cs)) ∧
      List.Forall₂ Cuts events (piecesOf cs) := by
  rw [remainder]
  fun_induction piecesOf cs with
  | case1 =>
    refine ⟨[], .tail fun s hs hi => ?_, .nil⟩
    exact ne_nil_of_mem_separators hs (List.infix_nil.1 hi)
  | case2 rest ih =>
    obtain ⟨events, hs, hc⟩ := ih
    have sep : [0x0D, 0x0A, 0x0D, 0x0A] ∈ separators := by decide
    exact ⟨[] :: events, splits_separator hs sep, .cons (cuts_breaks (by decide)) hc⟩
  | case3 rest ih =>
    obtain ⟨events, hs, hc⟩ := ih
    have sep : [0x0A, 0x0A] ∈ separators := by decide
    exact ⟨[] :: events, splits_separator hs sep, .cons (cuts_breaks (by decide)) hc⟩
  | case4 rest ih =>
    obtain ⟨events, hs, hc⟩ := ih
    have sep : [0x0D, 0x0D] ∈ separators := by decide
    exact ⟨[] :: events, splits_separator hs sep, .cons (cuts_breaks (by decide)) hc⟩
  | case5 c rest four feeds returns ih =>
    obtain ⟨events, hs, hc⟩ := ih
    have inside (t u : Bytes) (hu : String.utf8EncodeChar c = t ++ u) (hne : u ≠ []) :
        ∀ s ∈ separators, ¬s <+: u ++ bytesOf rest := by
      intro s hs hp
      obtain ⟨after, begins⟩ := prefix_of_separator hs hu hne hp
      simp only [separators, List.mem_cons, List.not_mem_nil, or_false] at hs
      rcases hs with rfl | rfl | rfl <;> obtain ⟨rfl, rfl⟩ := List.cons.inj begins
      · exact four after rfl rfl
      · exact feeds after rfl rfl
      · exact returns after rfl rfl
    have hs' := splits_append hs inside
    generalize piecesOf rest = pieces at hc hs' ⊢
    cases hc with
    | nil => exact ⟨[], hs', .nil⟩
    | cons h hrest =>
      obtain ⟨text, breaks, rfl, rfl, hb⟩ := h
      exact ⟨_, hs', .cons ⟨c :: text, breaks, rfl, rfl, hb⟩ hrest⟩

/-! ## Data -/

theorem lines_eq (text : List Char) : lines text = text.splitOnP isBreak := lines_eq_splitOnP text

theorem lineData?_eq (line : List Char) : lineData? line =
    (line.dropPrefix? dataMark).map fun data => (data.dropWhile isBlank).rdropWhile isBlank := by
  rw [lineData?]
  split
  · rename_i hp
    obtain ⟨data, rfl⟩ := List.isPrefixOf_iff_prefix.1 hp
    rw [List.drop_left, List.dropPrefix?_append_of_beq data (beq_self_eq_true dataMark)]
    rfl
  · rename_i hp
    rcases hd : line.dropPrefix? dataMark with _ | data
    · rfl
    · obtain ⟨mark, rfl, hm⟩ := List.dropPrefix?_eq_some_iff.1 hd
      obtain rfl := beq_iff_eq.1 hm
      exact absurd (List.isPrefixOf_iff_prefix.2 (List.prefix_append _ _)) hp

/-- The data of an event are the payloads of its text. -/
theorem eventData_eq (event : Bytes) :
    eventData event = payloadsOf (Utf8.decodeLenient event).toList := by
  simp only [eventData, payloadsOf, ← lineData?_eq, lines_eq]

/-- The lines of breaks are empty. -/
theorem splitOnP_append_breaks (text : List Char) {breaks : List Char}
    (h : ∀ c ∈ breaks, isBreak c) : (text ++ breaks).splitOnP isBreak =
      text.splitOnP isBreak ++ List.replicate breaks.length [] := by
  induction breaks generalizing text with
  | nil => simp
  | cons c breaks ih =>
    obtain ⟨hc, hrest⟩ := List.forall_mem_cons.1 h
    have empty : breaks.splitOnP isBreak = [] :: List.replicate breaks.length [] := ih [] hrest
    rw [List.splitOnP_append_cons text breaks hc, empty]
    rfl

/-- The data of an event are the payloads of its piece. -/
theorem eventData_of_cuts {event : Bytes} {piece : List Char} (h : Cuts event piece) :
    eventData event = payloadsOf piece := by
  obtain ⟨text, breaks, rfl, rfl, hb⟩ := h
  have decoded : (Utf8.decodeLenient (bytesOf text)).toList = text := by
    have := congrArg String.toList (Utf8.decodeLenient_encode (String.ofList text))
    simpa [Utf8.encode, bytesOf] using this
  have mark : lineData? [] = none := by decide
  rw [eventData_eq, decoded, payloadsOf, payloadsOf, splitOnP_append_breaks text hb]
  simp only [← lineData?_eq, List.filterMap_append, List.filterMap_replicate_of_none mark,
    List.append_nil]

theorem flatMap_eventData {events : List Bytes} {pieces : List (List Char)}
    (h : List.Forall₂ Cuts events pieces) :
    events.flatMap eventData = pieces.flatMap payloadsOf := by
  induction h with
  | nil => rfl
  | cons h _ ih => rw [List.flatMap_cons, List.flatMap_cons, eventData_of_cuts h, ih]

/-- The bytes of a text are read as its payloads, and after them as the error that is due in the
    state in which they leave the reader. -/
theorem dataOfPieces_eq {text : String} {chunks : List Bytes}
    (h : chunks.flatten = Utf8.encode text) (fault : Option TransportFault) (expectEnd : Bool) :
    dataOfPieces chunks fault expectEnd = (payloads text).map .ok ++
      (((readerAfter text).finish fault expectEnd).map .error).toList := by
  obtain ⟨events, hs, hc⟩ := splits_bytesOf text.toList
  have hs' : Splits chunks.flatten events (bytesOf (remainder text.toList)) := h ▸ hs
  have data : events.flatMap eventData = allPayloads text := flatMap_eventData hc
  rw [dataOfPieces_of_splits hs', itemsOfData, data, readerAfter, payloads]
  by_cases hm : endMark ∈ allPayloads text
  · rw [if_pos hm, if_pos hm]
    rfl
  · rw [if_neg hm, if_neg hm]

/-! ## Parts of a text -/

/-- The pieces, one after the other, are what a text begins with. -/
theorem flatten_piecesOf (cs : List Char) : (piecesOf cs).flatten <+: cs := by
  fun_induction piecesOf cs with
  | case1 => exact List.nil_prefix
  | case2 rest ih => exact (List.prefix_append_right_inj ['\r', '\n', '\r', '\n']).2 ih
  | case3 rest ih => exact (List.prefix_append_right_inj ['\n', '\n']).2 ih
  | case4 rest ih => exact (List.prefix_append_right_inj ['\r', '\r']).2 ih
  | case5 c rest _ _ _ ih =>
    rcases h : piecesOf rest with _ | ⟨piece, more⟩
    · exact List.nil_prefix
    · rw [h] at ih
      exact List.cons_prefix_cons.2 ⟨rfl, ih⟩

/-- Lines are parts of a text, and the first one is at its beginning. -/
theorem parts_splitOnP (p : Char → Bool) (text : List Char) :
    ∃ first rest, text.splitOnP p = first :: rest ∧ first <+: text ∧
      ∀ line ∈ rest, line <:+: text := by
  induction text with
  | nil => exact ⟨[], [], rfl, List.nil_prefix, nofun⟩
  | cons c text ih =>
    obtain ⟨first, rest, hs, hf, hr⟩ := ih
    have later (line : List Char) (hl : line <:+: text) : line <:+: c :: text :=
      hl.trans (List.suffix_cons c text).isInfix
    rw [List.splitOnP_cons_eq_if_modifyHead, hs]
    split
    · exact ⟨[], first :: rest, rfl, List.nil_prefix,
        List.forall_mem_cons.2 ⟨later _ hf.isInfix, fun line hl => later line (hr line hl)⟩⟩
    · exact ⟨c :: first, rest, rfl, List.cons_prefix_cons.2 ⟨rfl, hf⟩,
        fun line hl => later line (hr line hl)⟩

theorem infix_of_mem_payloadsOf {piece : List Char} {data : String} (h : data ∈ payloadsOf piece) :
    data.toList <:+: piece := by
  obtain ⟨trimmed, ht, rfl⟩ := List.mem_map.1 h
  obtain ⟨line, hl, hd⟩ := List.mem_filterMap.1 (List.mem_filter.1 ht).1
  obtain ⟨rest, hr, rfl⟩ := Option.map_eq_some_iff.1 hd
  obtain ⟨mark, rfl, -⟩ := List.dropPrefix?_eq_some_iff.1 hr
  obtain ⟨first, others, hs, hf, ho⟩ := parts_splitOnP isBreak piece
  have whole : mark ++ rest <:+: piece := by
    rw [hs] at hl
    rcases List.mem_cons.1 hl with hl | hl
    · rw [hl]
      exact hf.isInfix
    · exact ho _ hl
  rw [String.toList_ofList]
  calc (rest.dropWhile isBlank).rdropWhile isBlank
      <:+: rest.dropWhile isBlank := (List.rdropWhile_prefix _ _).isInfix
    _ <:+: rest := (List.dropWhile_suffix _).isInfix
    _ <:+: mark ++ rest := (List.suffix_append _ _).isInfix
    _ <:+: piece := whole

/-- A payload is a part of its text. -/
theorem infix_of_mem_payloads {text data : String} (h : data ∈ payloads text) :
    data.toList <:+: text.toList := by
  obtain ⟨piece, hp, hd⟩ := List.mem_flatMap.1 ((List.takeWhile_prefix _).subset h)
  calc data.toList
      <:+: piece := infix_of_mem_payloadsOf hd
    _ <:+: (piecesOf text.toList).flatten := List.infix_of_mem_flatten hp
    _ <:+: text.toList := (flatten_piecesOf _).isInfix

/-- Nothing of a text is lost among bytes. In whatever chunks its bytes arrive, be they cut within
    characters or within empty lines, they are read as the payloads that the text has by its
    characters, and then as an error, if what is left of the text calls for one. Each payload is a
    part of the text, so a replacement character is in none, unless it is in the text. -/
theorem dataOfPieces_of_text {text : String} {chunks : List Bytes}
    (h : chunks.flatten = Utf8.encode text) (fault : Option TransportFault) (expectEnd : Bool) :
    dataOfPieces chunks fault expectEnd = (payloads text).map .ok ++
      (((readerAfter text).finish fault expectEnd).map .error).toList ∧
    ∀ data ∈ payloads text, data.toList <:+: text.toList ∧
      (Utf8.replacement ∈ data.toList → Utf8.replacement ∈ text.toList) :=
  ⟨dataOfPieces_eq h fault expectEnd, fun _ hd =>
    ⟨infix_of_mem_payloads hd, fun hr => (infix_of_mem_payloads hd).subset hr⟩⟩

/-- Breaks that overlap, a character and an empty line that are cut, a replacement character of the
    text itself, and a rest that is no event. -/
theorem dataOfPieces_of_text_overlapping :
    let text := "data: \ufffd\u00e9\r\r\n\r\ndata:x\n\n\ndata: y \r\n\rdata: z"
    let bytes := Utf8.encode text
    let chunks := [bytes.take 10, (bytes.drop 10).take 2, bytes.drop 12]
    chunks.flatten = bytes ∧ payloads text = ["\ufffd\u00e9", "x"] ∧
      dataOfPieces chunks none false =
        [.ok "\ufffd\u00e9", .ok "x", .error .truncatedStream] := by
  intro text bytes chunks
  have whole : chunks.flatten = bytes := by decide
  have read : payloads text = ["\ufffd\u00e9", "x"] ∧
      readerAfter text = .within (Utf8.encode "\ndata: y \r\n\rdata: z") := by
    decide +kernel
  obtain ⟨items, -⟩ := dataOfPieces_of_text whole none false
  rw [read.1, read.2] at items
  exact ⟨whole, read.1, items⟩

end EventStream

end InferenceGateway
