import InferenceGateway.Proofs.TextPayloads

/-!
# How a stream ends

A stream of events can end in four ways: at its end mark, because the transport broke off, because
it stopped too early, or because all of it was there. Which one it is depends on the complete
events, on what comes after the last separator, on the fault of the transport, and on whether an
end mark was due. No two of them come together, so there is one error at most, and nothing is read
after it.

* `MarksEnd`: the events that hold the end mark. It is among the data of no other event
  (`endMark_mem_eventData`).
* `EndsWith`: the error for each of the ways to end.
* `StreamTells`: what a stream tells, said without its reader. It is what is read of it
  (`streamTells_dataOfPieces`).
* `dataOfPieces_ends`: what a stream yields, whatever its bytes are.
-/

namespace InferenceGateway.EventStream

open Text

/-- An event with the end mark: what follows the mark of data in one of its lines is the end mark,
    with white space around it. -/
def MarksEnd (event : Bytes) : Prop :=
  ∃ data, dataMark ++ data ∈ (Utf8.decodeLenient event).toList.splitOnP isBreak ∧
    (data.dropWhile isBlank).rdropWhile isBlank = endMark.toList

/-- The error that a stream ends with, if any, given its complete events and what comes after
    them, the fault of the transport, and whether an end mark is due. -/
inductive EndsWith (events : List Bytes) (tail : Bytes) :
    Option TransportFault → (expectEnd : Bool) → Option GatewayError → Prop
  | marked {fault : Option TransportFault} {expectEnd : Bool} :
    (∃ event ∈ events, MarksEnd event) → EndsWith events tail fault expectEnd none
  | broken {fault : TransportFault} {expectEnd : Bool} :
    (∀ event ∈ events, ¬MarksEnd event) →
      EndsWith events tail (some fault) expectEnd (some (.transport fault))
  | truncated {expectEnd : Bool} : (∀ event ∈ events, ¬MarksEnd event) →
    (expectEnd ∨ ∃ b ∈ tail, ¬isAsciiBlank b) →
      EndsWith events tail none expectEnd (some .truncatedStream)
  | clean : (∀ event ∈ events, ¬MarksEnd event) → (∀ b ∈ tail, isAsciiBlank b) →
    EndsWith events tail none false none

/-- The data of an event are those of its lines. -/
theorem mem_eventData {event : Bytes} {d : String} : d ∈ eventData event ↔ d ≠ "" ∧
    ∃ data, dataMark ++ data ∈ (Utf8.decodeLenient event).toList.splitOnP isBreak ∧
      (data.dropWhile isBlank).rdropWhile isBlank = d.toList := by
  simp only [eventData, lines_eq, List.mem_map, List.mem_filter, List.mem_filterMap, lineData?_eq,
    Option.map_eq_some_iff]
  constructor
  · rintro ⟨_, ⟨⟨line, hl, data, hd, rfl⟩, hn⟩, rfl⟩
    obtain ⟨mark, rfl, hm⟩ := List.dropPrefix?_eq_some_iff.1 hd
    obtain rfl := beq_iff_eq.1 hm
    refine ⟨fun he => ?_, data, hl, String.toList_ofList.symm⟩
    rw [String.ofList_eq_empty_iff] at he
    simp [he] at hn
  · rintro ⟨hn, data, hl, hd⟩
    refine ⟨d.toList, ⟨⟨_, hl, data, ?_, hd⟩, ?_⟩, String.ofList_toList⟩
    · exact List.dropPrefix?_append_of_beq data (beq_self_eq_true dataMark)
    · simpa using hn

/-- The end mark is among the data of the events that mark the end, and of no others. -/
theorem endMark_mem_eventData {event : Bytes} : endMark ∈ eventData event ↔ MarksEnd event := by
  rw [mem_eventData, MarksEnd, and_iff_right (by decide)]

/-- The state after the last chunk ends a stream in one of the four ways. -/
theorem endsWith_finish {events : List Bytes} (hm : ∀ event ∈ events, ¬MarksEnd event)
    (tail : Bytes) (fault : Option TransportFault) (expectEnd : Bool) :
    EndsWith events tail fault expectEnd ((Reader.within tail).finish fault expectEnd) := by
  cases fault with
  | some fault => exact .broken hm
  | none =>
    rw [Reader.finish]
    split
    · rename_i h
      exact .truncated hm (by simpa using h)
    · rename_i h
      obtain ⟨rfl, blank⟩ : expectEnd = false ∧ ∀ b ∈ tail, isAsciiBlank b := by simpa using h
      exact .clean hm blank

/-- Complete events stay where they are when more chunks arrive. -/
theorem Splits.append {bytes tail : Bytes} {events : List Bytes} (h : Splits bytes events tail)
    (more : Bytes) : ∃ later tail', Splits (bytes ++ more) (events ++ later) tail' := by
  induction h with
  | tail => exact Splits.exists _
  | event hc _ ih =>
    obtain ⟨later, tail', hs⟩ := ih
    exact ⟨later, tail', .event (hc.append more) hs⟩

/-- With an event that marks the end, the data before the mark are all that there is. -/
theorem itemsOfData_of_marksEnd {events : List Bytes} (hm : ∃ event ∈ events, MarksEnd event)
    (later : List Bytes) (ending : List (Except GatewayError String)) :
    itemsOfData ((events ++ later).flatMap eventData) ending =
      ((events.flatMap eventData).takeWhile (· ≠ endMark)).map .ok := by
  obtain ⟨event, he, hm⟩ := hm
  have marked : endMark ∈ events.flatMap eventData :=
    List.mem_flatMap.2 ⟨event, he, endMark_mem_eventData.2 hm⟩
  rw [itemsOfData, List.flatMap_append, if_pos (List.mem_append_left _ marked),
    Reader.takeWhile_append_of_mem marked, List.append_nil]

/-- A stream yields the data of its complete events up to the end mark, and the error of its ending,
    if there is one. -/
theorem dataOfPieces_endsWith {pieces events : List Bytes} {tail : Bytes}
    (hs : Splits pieces.flatten events tail) (fault : Option TransportFault) (expectEnd : Bool) :
    ∃ error, EndsWith events tail fault expectEnd error ∧ dataOfPieces pieces fault expectEnd =
      ((events.flatMap eventData).takeWhile (· ≠ endMark)).map .ok ++
        (error.map .error).toList := by
  rw [dataOfPieces_of_splits hs]
  by_cases hm : ∃ event ∈ events, MarksEnd event
  · refine ⟨none, .marked hm, ?_⟩
    simpa using itemsOfData_of_marksEnd hm [] _
  · have hn : ∀ event ∈ events, ¬MarksEnd event := fun event he h => hm ⟨event, he, h⟩
    have unmarked : endMark ∉ events.flatMap eventData := by
      rw [List.mem_flatMap]
      rintro ⟨event, he, h⟩
      exact hn event he (endMark_mem_eventData.1 h)
    exact ⟨_, endsWith_finish hn tail fault expectEnd, by rw [itemsOfData, if_neg unmarked]⟩

/-- What a stream tells: the payloads of its complete events, line by line, up to the end mark, and
    the error of its ending, if there is one. -/
def StreamTells (pieces : List Bytes) (fault : Option TransportFault) (expectEnd : Bool)
    (items : List (Except GatewayError String)) : Prop :=
  ∃ events tail error, Splits pieces.flatten events tail ∧
    EndsWith events tail fault expectEnd error ∧
    items = ((events.flatMap fun event => payloadsOf (Utf8.decodeLenient event).toList).takeWhile
      (· ≠ "[DONE]")).map .ok ++ (error.map .error).toList

/-- What is read of a stream is what it tells. -/
theorem streamTells_dataOfPieces (pieces : List Bytes) (fault : Option TransportFault)
    (expectEnd : Bool) :
    StreamTells pieces fault expectEnd (dataOfPieces pieces fault expectEnd) := by
  obtain ⟨events, tail, hs⟩ := Splits.exists pieces.flatten
  obtain ⟨error, ending, items⟩ := dataOfPieces_endsWith hs fault expectEnd
  refine ⟨events, tail, error, hs, ending, ?_⟩
  simp only [← eventData_eq]
  exact items

/-- A stream ends in one way. -/
theorem EndsWith.unique {events : List Bytes} {tail : Bytes} {fault : Option TransportFault}
    {expectEnd : Bool} {error error' : Option GatewayError}
    (h : EndsWith events tail fault expectEnd error)
    (h' : EndsWith events tail fault expectEnd error') : error = error' := by
  cases h <;> cases h' <;> first | rfl | grind

/-- A stream tells one row of items. -/
theorem StreamTells.eq {pieces : List Bytes} {fault : Option TransportFault} {expectEnd : Bool}
    {items : List (Except GatewayError String)} (h : StreamTells pieces fault expectEnd items) :
    items = dataOfPieces pieces fault expectEnd := by
  obtain ⟨events, tail, error, hs, ending, rfl⟩ := h
  obtain ⟨error', ending', items⟩ := dataOfPieces_endsWith hs fault expectEnd
  rw [items, ending.unique ending']
  simp only [← eventData_eq]
  rfl

/-- Every stream ends in one way. It yields the data of its complete events up to the end mark, so
    nothing of an event that is not complete, and after them the error of its ending, if there is
    one. After an end mark nothing matters: neither further bytes nor how they end. -/
theorem dataOfPieces_ends (pieces : List Bytes) (fault : Option TransportFault)
    (expectEnd : Bool) : ∃ events tail payloads error,
      Splits pieces.flatten events tail ∧
      payloads = (events.flatMap eventData).takeWhile (· ≠ endMark) ∧
      dataOfPieces pieces fault expectEnd = payloads.map .ok ++ (error.map .error).toList ∧
      EndsWith events tail fault expectEnd error ∧
      ((∃ event ∈ events, MarksEnd event) → ∀ more fault' expectEnd',
        dataOfPieces (pieces ++ more) fault' expectEnd' = payloads.map .ok) := by
  obtain ⟨events, tail, hs⟩ := Splits.exists pieces.flatten
  obtain ⟨error, ending, items⟩ := dataOfPieces_endsWith hs fault expectEnd
  refine ⟨events, tail, _, error, hs, rfl, items, ending, fun hm more fault' expectEnd' => ?_⟩
  obtain ⟨later, tail', hs'⟩ := hs.append more.flatten
  rw [dataOfPieces_of_splits (List.flatten_append ▸ hs'), itemsOfData_of_marksEnd hm]

end InferenceGateway.EventStream
