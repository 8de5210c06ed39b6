import InferenceGateway.EventStream.Writer
import InferenceGateway.Proofs.Chunking
import InferenceGateway.Proofs.JsonText
import InferenceGateway.Proofs.Text

/-!
# Frames of an event stream

What the gateway streams, read by its own reader. The writer puts texts around JSON, the reader
looks for empty lines, for lines, and for white space to cut off; that they fit is a matter of
what a written value is made of. It has no character below the space, so no line ends in it, and
it begins and ends with a visible character, so nothing of it is cut off.

* `IsPayload`: data that a line carries as they are. Written values are such data
  (`isPayload_print`), and none of them is the end mark (`print_ne_endMark`).
* `IsBlock`: bytes that no separator ends early. Blocks with an empty line after each are split
  into the blocks (`splits_join`).
* `dataOfPieces_frames`: the frames of a stream are read as the values they were written for,
  with what ends the stream, whatever the chunks are.
-/

namespace InferenceGateway.EventStream

open Text

/-! ## Lines -/

/-- A character in which a line does not end. -/
def IsInline (c : Char) : Prop := c ≠ '\n' ∧ c ≠ '\r'

instance : DecidablePred IsInline := fun _ => inferInstanceAs (Decidable (_ ∧ _))

theorem inline_of_all {text : List Char} (h : text.all (IsInline ·)) : ∀ c ∈ text, IsInline c := by
  simpa using h

/-- The lines of a text are what is left when it is cut at each break. -/
theorem lines_eq_splitOnP (text : List Char) :
    lines text = text.splitOnP fun c => c = '\n' || c = '\r' := by
  induction text with
  | nil => rfl
  | cons c text ih =>
    rw [lines, List.foldr_cons, ← lines, ih, List.splitOnP_cons_eq_if_modifyHead]
    split
    · rfl
    · cases h : text.splitOnP fun c => c = '\n' || c = '\r' with
      | nil => exact absurd h (List.splitOnP_ne_nil _ _)
      | cons => rfl

/-- The lines before a line feed, and those after it. -/
theorem lines_append (xs ys : List Char) : lines (xs ++ '\n' :: ys) = lines xs ++ lines ys := by
  simp only [lines_eq_splitOnP]
  exact List.splitOnP_append_cons xs ys (by decide)

/-- A text without breaks is a line. -/
theorem lines_of_inline {line : List Char} (h : ∀ c ∈ line, IsInline c) : lines line = [line] := by
  rw [lines_eq_splitOnP]
  exact List.splitOnP_eq_singleton fun c hc => by simpa [IsInline] using h c hc

/-- What stands before the first break is a line. -/
theorem lines_append_break {line : List Char} (h : ∀ c ∈ line, IsInline c) (text : List Char) :
    lines (line ++ '\n' :: text) = line :: lines text := by
  rw [lines_append, lines_of_inline h, List.singleton_append]

/-! ## Payloads -/

/-- The line of an event that carries data. -/
def dataLine (data : String) : String := "data: " ++ data

/-- Data that a line carries as they are: without breaks, and with no white space at the ends. -/
structure IsPayload (data : String) : Prop where
  ne_nil : data.toList ≠ []
  inline : ∀ c ∈ data.toList, IsInline c
  head : ∀ c ∈ data.toList.head?, isBlank c = false
  getLast : ∀ c ∈ data.toList.getLast?, isBlank c = false

namespace IsPayload

variable {data : String}

theorem inline_dataLine (h : IsPayload data) : ∀ c ∈ (dataLine data).toList, IsInline c := by
  have mark : ∀ c ∈ "data: ".toList, IsInline c := inline_of_all (by decide +kernel)
  rw [dataLine, String.toList_append]
  exact List.forall_mem_append.2 ⟨mark, h.inline⟩

/-- A line gives back the data that it carries. -/
theorem lineData?_dataLine (h : IsPayload data) :
    lineData? (dataLine data).toList = some data.toList := by
  have line : (dataLine data).toList = dataMark ++ ([' '] ++ (data.toList ++ [])) := by
    rw [dataLine, String.toList_append, List.append_nil]
    rfl
  have hb : ∀ c ∈ [' '], isBlank c := List.all_eq_true.1 (by decide)
  rw [line, lineData?, if_pos (List.isPrefixOf_iff_prefix.2 (List.prefix_append _ _)),
    List.drop_left, trimBlank_append hb h.head h.getLast (by simp)]

end IsPayload

/-- The data of the lines of an event of which only the last one carries any. -/
theorem eventData_encode {text : String} (others : List (List Char)) {data : String}
    (hl : lines text.toList = others ++ [(dataLine data).toList])
    (ho : ∀ line ∈ others, lineData? line = none) (h : IsPayload data) :
    eventData (Utf8.encode text) = [data] := by
  have none_of_others : others.filterMap lineData? = [] := by
    simpa [List.filterMap_eq_nil_iff] using ho
  rw [eventData, Utf8.decodeLenient_encode, hl, List.filterMap_append, none_of_others]
  simp [h.lineData?_dataLine, h.ne_nil]

/-! ## Blocks -/

/-- A byte in which a line does not end. -/
def IsInlineByte (b : UInt8) : Prop := b ≠ 0x0A ∧ b ≠ 0x0D

/-- Bytes that no separator ends early: no carriage return is among them, and after each line
    feed comes something else. -/
structure IsBlock (event : Bytes) : Prop where
  no_return : 0x0D ∉ event
  no_blank : ∀ t u, event = t ++ 0x0A :: u → ∃ b rest, u = b :: rest ∧ b ≠ 0x0A

namespace IsBlock

/-- A block is cut off at the empty line after it. -/
theorem cut {event : Bytes} (h : IsBlock event) (rest : Bytes) :
    Cut (event ++ ([0x0A, 0x0A] ++ rest)) event [0x0A, 0x0A] rest where
  eq := rfl
  mem := by decide
  first := by
    rintro t u rfl hu s hs hp
    obtain ⟨b, u, rfl⟩ := List.exists_cons_of_ne_nil hu
    have hb : b ≠ 0x0D := fun hb => h.no_return (by simp [hb])
    simp only [separators, List.mem_cons, List.not_mem_nil, or_false] at hs
    rcases hs with rfl | rfl | rfl
    · exact hb (List.cons_prefix_cons.1 hp).1.symm
    · obtain ⟨rfl, hq⟩ := List.cons_prefix_cons.1 hp
      -- The line feed goes before something else, so the next byte is none.
      obtain ⟨c, u, rfl, hc⟩ := h.no_blank t u rfl
      exact hc (List.cons_prefix_cons.1 hq).1.symm
    · exact hb (List.cons_prefix_cons.1 hp).1.symm

/-- One line is a block. -/
theorem of_inline {line : Bytes} (h : ∀ b ∈ line, IsInlineByte b) : IsBlock line where
  no_return hm := (h _ hm).2 rfl
  no_blank := by
    rintro t u rfl
    exact absurd rfl (h 0x0A (by simp)).1

/-- Two lines are a block, if the second is not empty. -/
theorem of_two_lines {xs ys : Bytes} (hx : ∀ b ∈ xs, IsInlineByte b)
    (hy : ∀ b ∈ ys, IsInlineByte b) (hn : ys ≠ []) : IsBlock (xs ++ 0x0A :: ys) where
  no_return := by
    intro hm
    rcases List.mem_append.1 hm with hm | hm
    · exact (hx _ hm).2 rfl
    · rcases List.mem_cons.1 hm with hm | hm
      · cases hm
      · exact (hy _ hm).2 rfl
  no_blank := by
    intro t u he
    -- The only line feed is the one between the lines.
    have same : u = ys := by
      rcases List.append_eq_append_iff.1 he with ⟨v, -, hv⟩ | ⟨v, rfl, hv⟩
      · rcases v with _ | ⟨b, v⟩
        · exact (List.cons.inj hv).2.symm
        · exact absurd rfl (hy 0x0A (by simp [(List.cons.inj hv).2])).1
      · rcases v with _ | ⟨b, v⟩
        · exact (List.cons.inj hv).2
        · obtain ⟨rfl, -⟩ := List.cons.inj hv
          exact absurd rfl (hx 0x0A (by simp)).1
    subst same
    obtain ⟨b, rest, rfl⟩ := List.exists_cons_of_ne_nil hn
    exact ⟨b, rest, rfl, (hy b List.mem_cons_self).1⟩

end IsBlock

/-- The bytes of an inline text. -/
theorem isInlineByte_of_mem_encode {s : String} (h : ∀ c ∈ s.toList, IsInline c) :
    ∀ b ∈ Utf8.encode s, IsInlineByte b := by
  intro b hb
  constructor
  · rintro rfl
    exact (h _ (Utf8.ofNat_mem_of_mem_encode hb (by decide))).1 rfl
  · rintro rfl
    exact (h _ (Utf8.ofNat_mem_of_mem_encode hb (by decide))).2 rfl

/-- Blocks with an empty line after each are split into the blocks. -/
theorem splits_join {texts : List String} (h : ∀ t ∈ texts, IsBlock (Utf8.encode t)) :
    Splits (Utf8.encode (String.join (texts.map (· ++ "\n\n")))) (texts.map Utf8.encode) [] := by
  induction texts with
  | nil =>
    refine .tail fun s hs hi => ?_
    exact ne_nil_of_mem_separators hs (List.infix_nil.1 hi)
  | cons t texts ih =>
    rw [List.map_cons, List.map_cons, String.join_cons, Utf8.encode_append, Utf8.encode_append,
      List.append_assoc, (by decide +kernel : Utf8.encode "\n\n" = [0x0A, 0x0A])]
    exact .event ((h t List.mem_cons_self).cut _) (ih fun t ht => h t (List.mem_cons_of_mem _ ht))

/-! ## Written values -/

/-- A written value can be carried as it is. -/
theorem isPayload_print (j : Json) : IsPayload j.print := by
  have edge {c : Char} (h : Json.IsEdge c) : isBlank c = false := by
    rw [← Char.ofNat_toNat c]
    exact isBlank_ofNat h.visible.1 h.visible.2
  obtain ⟨c, rest, hc, he⟩ := Json.exists_head_chars j
  obtain ⟨front, d, hd, hf⟩ := Json.exists_last_chars j
  refine ⟨?_, ?_, ?_, ?_⟩
  · simp [Json.print, hc]
  · intro x hx
    rw [Json.print, String.toList_ofList] at hx
    have hl := Json.le_of_mem_chars j hx
    exact ⟨by rintro rfl; exact absurd hl (by decide), by rintro rfl; exact absurd hl (by decide)⟩
  · simp [Json.print, hc, edge he]
  · simp [Json.print, hd, edge hf]

/-- A written value does not look like the end mark. -/
theorem print_ne_endMark (j : Json) : j.print ≠ endMark := by
  intro h
  have hc : j.chars = '[' :: 'D' :: ['O', 'N', 'E', ']'] := by
    have := congrArg String.toList h
    rw [Json.print, String.toList_ofList] at this
    rw [this]
    decide +kernel
  exact absurd (Json.isEdge_of_chars_eq hc) (by decide)

theorem isPayload_endMark : IsPayload endMark := by
  have chars : endMark.toList = ['[', 'D', 'O', 'N', 'E', ']'] := by decide +kernel
  refine ⟨?_, ?_, ?_, ?_⟩ <;> rw [chars]
  · exact List.cons_ne_nil _ _
  · exact inline_of_all (by decide)
  · rintro _ ⟨⟩
    decide
  · rintro _ ⟨⟩
    decide

/-- Written values are items, one for one. -/
theorem itemsOfData_print (fragments : List Json) (data : List String)
    (ending : List (Except GatewayError String)) :
    itemsOfData (fragments.map Json.print ++ data) ending =
      (fragments.map fun j => .ok j.print) ++ itemsOfData data ending := by
  induction fragments with
  | nil => rfl
  | cons j fragments ih =>
    rw [List.map_cons, List.cons_append, itemsOfData_cons (print_ne_endMark j), ih, List.map_cons,
      List.cons_append]

/-! ## Frames -/

/-- The line that tells of an error, before the line with its body. -/
def errorLine : String := "event: error"

/-- The data of the last event of a stream. -/
def lastData : Option GatewayError → String
  | none => endMark
  | some e => (errorBody e).print

/-- The text of the last event of a stream, without the empty line after it. -/
def lastText : Option GatewayError → String
  | none => dataLine endMark
  | some e => errorLine ++ "\n" ++ dataLine (errorBody e).print

/-- Each frame is a text with an empty line after it. -/
theorem frames_eq (fragments : List Json) (error : Option GatewayError) :
    frames (fragments.map .ok ++ (error.map .error).toList) =
      ((fragments.map fun j => dataLine j.print) ++ [lastText error]).map (· ++ "\n\n") := by
  induction fragments with
  | nil =>
    cases error with
    | none => rfl
    | some e =>
      have mark : "event: error\n" = errorLine ++ "\n" := by decide +kernel
      simp [frames, errorFrame, lastText, dataFrame, dataLine, mark, String.append_assoc]
  | cons j fragments ih =>
    rw [List.map_cons, List.cons_append, frames, ih, List.map_cons, List.cons_append, List.map_cons]
    rfl

theorem isInline_errorLine : ∀ c ∈ errorLine.toList, IsInline c := inline_of_all (by decide +kernel)

theorem isBlock_dataLine {data : String} (h : IsPayload data) :
    IsBlock (Utf8.encode (dataLine data)) :=
  .of_inline (isInlineByte_of_mem_encode h.inline_dataLine)

theorem isBlock_lastText (error : Option GatewayError) :
    IsBlock (Utf8.encode (lastText error)) := by
  cases error with
  | none => exact isBlock_dataLine isPayload_endMark
  | some e =>
    have two : Utf8.encode (lastText (some e)) = Utf8.encode errorLine ++
        0x0A :: Utf8.encode (dataLine (errorBody e).print) := by
      rw [lastText, Utf8.encode_append, Utf8.encode_append,
        (by decide +kernel : Utf8.encode "\n" = [0x0A]), List.append_assoc, List.singleton_append]
    have ne_nil : Utf8.encode (dataLine (errorBody e).print) ≠ [] := by
      rw [dataLine, Utf8.encode_append]
      exact List.append_ne_nil_of_left_ne_nil (by decide +kernel) _
    rw [two]
    exact .of_two_lines (isInlineByte_of_mem_encode isInline_errorLine)
      (isInlineByte_of_mem_encode (isPayload_print _).inline_dataLine) ne_nil

theorem eventData_dataLine {data : String} (h : IsPayload data) :
    eventData (Utf8.encode (dataLine data)) = [data] :=
  eventData_encode [] (lines_of_inline h.inline_dataLine) nofun h

/-- An error is told in two lines. -/
theorem lines_lastText (e : GatewayError) : lines (lastText (some e)).toList =
    [errorLine.toList, (dataLine (errorBody e).print).toList] := by
  rw [lastText, String.toList_append, String.toList_append, List.append_assoc]
  exact (lines_append_break isInline_errorLine _).trans
    (congrArg _ (lines_of_inline (isPayload_print _).inline_dataLine))

theorem eventData_lastText (error : Option GatewayError) :
    eventData (Utf8.encode (lastText error)) = [lastData error] := by
  cases error with
  | none => exact eventData_dataLine isPayload_endMark
  | some e =>
    -- The line before the data says what the event is, and is passed over.
    exact eventData_encode [errorLine.toList] (lines_lastText e) (by decide +kernel)
      (isPayload_print _)

/-- What is read of the frames after the fragments: nothing of the end mark; of an error its
    body, and that the stream has no end mark. -/
def readBack : Option GatewayError → List (Except GatewayError String)
  | none => []
  | some e => [.ok (errorBody e).print, .error .truncatedStream]

theorem itemsOfData_lastData (error : Option GatewayError) :
    itemsOfData [lastData error] [.error .truncatedStream] = readBack error := by
  cases error with
  | none => exact itemsOfData_endMark [] _
  | some e => exact itemsOfData_cons (print_ne_endMark (errorBody e)) [] _

/-- What is written is read back. The frames of a row of fragments, with whatever texts in them,
    and of the error after them, if any, are read from any chunks of their bytes as the written
    fragments, in order. Then the stream ends; after an error, by an item with its body and the
    error that the end mark is missing. -/
theorem dataOfPieces_frames (fragments : List Json) (error : Option GatewayError)
    (pieces : List Bytes) (h : pieces.flatten = Utf8.encode
      (String.join (frames (fragments.map .ok ++ (error.map .error).toList)))) :
    dataOfPieces pieces none true = (fragments.map fun j => .ok j.print) ++ readBack error := by
  have hs : Splits pieces.flatten
      (((fragments.map fun j => dataLine j.print) ++ [lastText error]).map Utf8.encode) [] := by
    rw [h, frames_eq]
    refine splits_join fun t ht => ?_
    rcases List.mem_append.1 ht with ht | ht
    · obtain ⟨j, -, rfl⟩ := List.mem_map.1 ht
      exact isBlock_dataLine (isPayload_print j)
    · rw [List.mem_singleton.1 ht]
      exact isBlock_lastText error
  have hd : (((fragments.map fun j => dataLine j.print) ++ [lastText error]).map
      Utf8.encode).flatMap eventData = fragments.map Json.print ++ [lastData error] := by
    have data_of_fragments : ((fragments.map fun j => dataLine j.print).map
        Utf8.encode).flatMap eventData = fragments.map Json.print := by
      simp [List.flatMap_map, eventData_dataLine (isPayload_print _), ← List.map_eq_flatMap]
    rw [List.map_append, List.flatMap_append, data_of_fragments, List.map_singleton,
      List.flatMap_singleton, eventData_lastText]
  rw [dataOfPieces_of_splits hs, hd, itemsOfData_print]
  exact congrArg _ (itemsOfData_lastData error)

/-- Fragments that look like frames, an error that does, and chunks of one byte. -/
theorem dataOfPieces_frames_forged :
    let forged := "\r\n\r\ndata: [DONE]\n\n\u2028"
    let fragments : List Json := [.text forged, .object [(forged, .array [.text "[DONE]"])]]
    let error : GatewayError := .endpointNotFound forged
    let bytes := Utf8.encode (String.join (frames (fragments.map .ok ++ [.error error])))
    let pieces := bytes.map ([·])
    dataOfPieces pieces none true = (fragments.map fun j => .ok j.print) ++
      [.ok (errorBody error).print, .error .truncatedStream] :=
  dataOfPieces_frames _ (some _) _ (by simp [← List.flatMap_def])

end InferenceGateway.EventStream
