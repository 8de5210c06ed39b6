import InferenceGateway.EventStream.Reader
import Mathlib.Data.List.Infix

/-!
# Chunks of an event stream

Where the chunks of a stream begin and end is not up to the one who sends it, so it must not
matter. The reader searches its buffer again for each chunk; what has to be shown is that the
separator it finds in a part of the bytes is the one it would find in all of them.

* `Cut`: bytes cut at their first separator. A cut stays where it is when more bytes arrive
  (`Cut.append`), as no separator goes on within another one.
* `Splits`: bytes split into their complete events and the rest. Every row of bytes has
  exactly one such split (`Splits.exists`, `Splits.unique`).
* `Reader.feed_append`: reading on is reading everything.
* `dataOfPieces_chunking`: the items of a stream do not depend on its chunks, and those that
  are there after some chunks remain, whatever comes.
-/

namespace InferenceGateway.EventStream

/-! ## Separators -/

/-- Of two separators neither begins with the other. -/
theorem separators_prefix_free : ∀ s ∈ separators, ∀ x ∈ separators, s <+: x → s = x := by
  decide

/-- No separator occurs in another one but at its beginning. -/
theorem separators_inside : ∀ s ∈ separators, ∀ x ∈ separators, ¬s <:+: x.tail := by decide

theorem ne_nil_of_mem_separators {s : Bytes} (h : s ∈ separators) : s ≠ [] := by
  rintro rfl
  exact absurd h (by decide)

theorem separatorAt?_eq_none {bytes : Bytes} :
    separatorAt? bytes = none ↔ ∀ s ∈ separators, ¬s <+: bytes := by
  simp [separatorAt?, List.find?_eq_none]

theorem separatorAt?_eq_some {bytes s : Bytes} (h : separatorAt? bytes = some s) :
    s ∈ separators ∧ s <+: bytes := by
  rw [separatorAt?] at h
  exact ⟨List.mem_of_find?_eq_some h, by simpa using List.find?_some h⟩

/-! ## The first event -/

/-- Bytes cut at their first separator: none begins before it. -/
structure Cut (bytes event separator rest : Bytes) : Prop where
  eq : bytes = event ++ (separator ++ rest)
  mem : separator ∈ separators
  first : ∀ t u, event = t ++ u → u ≠ [] → ∀ s ∈ separators, ¬s <+: u ++ (separator ++ rest)

namespace Cut

variable {bytes event separator rest : Bytes}

/-- A byte that begins no separator belongs to the event. -/
theorem cons {b : UInt8} (h : Cut bytes event separator rest)
    (hb : separatorAt? (b :: bytes) = none) : Cut (b :: bytes) (b :: event) separator rest where
  eq := by rw [h.eq, List.cons_append]
  mem := h.mem
  first := by
    intro t u he hu s hs
    rcases t with _ | ⟨c, t⟩
    · -- The event as a whole: a separator here would begin with `b`.
      rw [List.nil_append] at he
      rw [← he, List.cons_append, ← h.eq]
      exact separatorAt?_eq_none.1 hb s hs
    · exact h.first t u (List.cons.inj he).2 hu s hs

/-- A cut stays where it is when more bytes arrive. -/
theorem append (h : Cut bytes event separator rest) (more : Bytes) :
    Cut (bytes ++ more) event separator (rest ++ more) where
  eq := by rw [h.eq]; simp
  mem := h.mem
  first := by
    intro t u he hu s hs hp
    have assoc : u ++ (separator ++ (rest ++ more)) = (u ++ (separator ++ rest)) ++ more := by simp
    rw [assoc] at hp
    rcases List.prefix_or_prefix_of_prefix hp (List.prefix_append _ more) with hp | hp
    · exact h.first t u he hu s hs hp
    · -- Now `s` reaches beyond the bytes so far, so the separator of the cut is inside `s`.
      obtain ⟨v, rfl⟩ := hp
      obtain ⟨a, u, rfl⟩ := List.exists_cons_of_ne_nil hu
      exact separators_inside separator h.mem _ hs ⟨u, rest ++ v, by simp⟩

/-- There is one first separator. -/
theorem unique (h : Cut bytes event separator rest) {event' separator' rest' : Bytes}
    (h' : Cut bytes event' separator' rest') :
    event = event' ∧ separator = separator' ∧ rest = rest' := by
  -- Were one of the events shorter, its separator would begin within the other one.
  have same : event = event' := by
    have e := h.eq.symm.trans h'.eq
    rcases List.append_eq_append_iff.1 e with ⟨u, rfl, hu⟩ | ⟨u, rfl, hu⟩
    · by_contra hne
      refine h'.first event u rfl (by rintro rfl; simp at hne) separator h.mem ?_
      exact ⟨rest, hu⟩
    · by_contra hne
      refine h.first event' u rfl (by rintro rfl; simp at hne) separator' h'.mem ?_
      exact ⟨rest', hu⟩
  subst same
  have e := List.append_cancel_left (h.eq.symm.trans h'.eq)
  have same : separator = separator' := by
    rcases List.prefix_or_prefix_of_prefix ⟨rest, e⟩ (List.prefix_append separator' rest')
      with hp | hp
    · exact separators_prefix_free _ h.mem _ h'.mem hp
    · exact (separators_prefix_free _ h'.mem _ h.mem hp).symm
  subst same
  exact ⟨rfl, rfl, List.append_cancel_left e⟩

theorem isInfix (h : Cut bytes event separator rest) : separator <:+: bytes :=
  ⟨event, rest, by rw [h.eq, List.append_assoc]⟩

end Cut

/-- What is found in bytes is a cut of them. -/
theorem cut_of_findSeparator? {start : Nat} {bytes : Bytes} {position length : Nat}
    (h : findSeparator? start bytes = some (position, length)) :
    ∃ event separator rest, Cut bytes event separator rest ∧
      position = start + event.length ∧ length = separator.length := by
  -- The induction is on the bytes that are left to search; those before them are counted.
  induction bytes generalizing start with
  | nil => cases h
  | cons b bytes ih =>
    rw [findSeparator?] at h
    split at h
    · rename_i s hs
      obtain ⟨hm, rest, hr⟩ := separatorAt?_eq_some hs
      cases h
      refine ⟨[], s, rest, ⟨hr.symm, hm, ?_⟩, rfl, rfl⟩
      intro t u he hu
      exact absurd (List.append_eq_nil_iff.1 he.symm).2 hu
    · rename_i hs
      obtain ⟨event, separator, rest, hc, hp, hl⟩ := ih h
      exact ⟨b :: event, separator, rest, hc.cons hs, by rw [hp, List.length_cons]; omega, hl⟩

/-- Where nothing is found there is no separator. -/
theorem not_infix_of_findSeparator? {start : Nat} {bytes : Bytes}
    (h : findSeparator? start bytes = none) : ∀ s ∈ separators, ¬s <:+: bytes := by
  induction bytes generalizing start with
  | nil =>
    intro s hs hi
    exact ne_nil_of_mem_separators hs (List.infix_nil.1 hi)
  | cons b bytes ih =>
    rw [findSeparator?] at h
    split at h
    · cases h
    · rename_i hb
      intro s hs hi
      rcases List.infix_cons_iff.1 hi with hp | hi
      · exact separatorAt?_eq_none.1 hb s hs hp
      · exact ih h s hs hi

theorem takeEvent?_eq_none {bytes : Bytes} :
    takeEvent? bytes = none ↔ ∀ s ∈ separators, ¬s <:+: bytes := by
  rw [takeEvent?, Option.map_eq_none_iff]
  refine ⟨not_infix_of_findSeparator?, fun h => ?_⟩
  by_contra hne
  obtain ⟨⟨position, length⟩, hp⟩ := Option.ne_none_iff_exists'.1 hne
  obtain ⟨_, s, _, hc, _⟩ := cut_of_findSeparator? hp
  exact h s hc.mem hc.isInfix

/-- The event that is taken is the one before the first separator. -/
theorem takeEvent?_eq_some {bytes event rest : Bytes} :
    takeEvent? bytes = some (event, rest) ↔ ∃ s, Cut bytes event s rest := by
  have cut {event rest : Bytes} (h : takeEvent? bytes = some (event, rest)) :
      ∃ s, Cut bytes event s rest := by
    obtain ⟨⟨position, length⟩, hp, he⟩ := Option.map_eq_some_iff.1 h
    obtain ⟨event, s, rest, hc, rfl, rfl⟩ := cut_of_findSeparator? hp
    have hc' := hc.eq
    subst hc'
    simp only [Nat.zero_add, List.take_left, Prod.mk.injEq] at he
    rw [← List.append_assoc, ← List.length_append, List.drop_left] at he
    obtain ⟨rfl, rfl⟩ := he
    exact ⟨s, hc⟩
  refine ⟨cut, fun ⟨s, hc⟩ => ?_⟩
  rcases h : takeEvent? bytes with _ | ⟨event', rest'⟩
  · exact absurd hc.isInfix (takeEvent?_eq_none.1 h s hc.mem)
  · obtain ⟨s', hc'⟩ := cut h
    obtain ⟨rfl, _, rfl⟩ := hc.unique hc'
    rfl

/-- An event that is complete is the same when more bytes arrive. -/
theorem takeEvent?_append {bytes event rest : Bytes} (h : takeEvent? bytes = some (event, rest))
    (more : Bytes) : takeEvent? (bytes ++ more) = some (event, rest ++ more) := by
  obtain ⟨s, hc⟩ := takeEvent?_eq_some.1 h
  exact takeEvent?_eq_some.2 ⟨s, hc.append more⟩

/-! ## All events -/

/-- Bytes split into their complete events and what comes after the last separator. -/
inductive Splits : Bytes → List Bytes → Bytes → Prop
  | tail {rest : Bytes} : (∀ s ∈ separators, ¬s <:+: rest) → Splits rest [] rest
  | event {bytes event separator rest tail : Bytes} {events : List Bytes} :
    Cut bytes event separator rest → Splits rest events tail → Splits bytes (event :: events) tail

/-- Every row of bytes can be split. -/
theorem Splits.exists (bytes : Bytes) : ∃ events tail, Splits bytes events tail := by
  induction h : bytes.length using Nat.strongRecOn generalizing bytes with
  | ind n ih =>
    rcases ht : takeEvent? bytes with _ | ⟨event, rest⟩
    · exact ⟨[], bytes, .tail (takeEvent?_eq_none.1 ht)⟩
    · obtain ⟨events, tail, hs⟩ := ih _ (h ▸ length_lt_of_takeEvent? ht) rest rfl
      obtain ⟨s, hc⟩ := takeEvent?_eq_some.1 ht
      exact ⟨event :: events, tail, .event hc hs⟩

/-- Bytes can be split in one way only. -/
theorem Splits.unique {bytes tail tail' : Bytes} {events events' : List Bytes}
    (h : Splits bytes events tail) (h' : Splits bytes events' tail') :
    events = events' ∧ tail = tail' := by
  induction h generalizing events' with
  | tail hn =>
    cases h' with
    | tail => exact ⟨rfl, rfl⟩
    | event hc => exact absurd hc.isInfix (hn _ hc.mem)
  | event hc _ ih =>
    cases h' with
    | tail hn => exact absurd hc.isInfix (hn _ hc.mem)
    | event hc' hs' =>
      obtain ⟨rfl, _, rfl⟩ := hc.unique hc'
      obtain ⟨rfl, rfl⟩ := ih hs'
      exact ⟨rfl, rfl⟩

namespace Reader

/-! ## Draining the buffer -/

theorem drain_none {buffer : Bytes} (h : takeEvent? buffer = none) (found : List String) :
    drain found buffer = (found, .within buffer) := by
  rw [drain]
  split
  · rfl
  · rename_i h'
    rw [h] at h'
    cases h'

theorem drain_some {buffer event rest : Bytes} (h : takeEvent? buffer = some (event, rest))
    (found : List String) : drain found buffer =
      if endMark ∈ eventData event then
        (((eventData event).takeWhile (· ≠ endMark)).reverse ++ found, .done)
      else drain ((eventData event).reverse ++ found) rest := by
  rw [drain]
  split
  · rename_i h'
    rw [h] at h'
    cases h'
  · rename_i h'
    rw [h] at h'
    cases h'
    simp only [List.contains_iff_mem]

/-- What was found before does not matter for what is found. -/
theorem drain_eq (found : List String) (buffer : Bytes) :
    drain found buffer = ((drain [] buffer).1 ++ found, (drain [] buffer).2) := by
  -- A split of the buffer has a case for each way in which draining goes on or ends.
  obtain ⟨events, tail, hs⟩ := Splits.exists buffer
  induction hs generalizing found with
  | tail hn => simp [drain_none (takeEvent?_eq_none.2 hn)]
  | event hc _ ih =>
    have h := takeEvent?_eq_some.2 ⟨_, hc⟩
    rw [drain_some h, drain_some h]
    split
    · simp
    · rw [ih, ih ((eventData _).reverse ++ [])]
      simp

/-- What follows the end mark is not taken. -/
theorem takeWhile_append_of_mem {data : List String} (h : endMark ∈ data) (more : List String) :
    (data ++ more).takeWhile (· ≠ endMark) = data.takeWhile (· ≠ endMark) := by
  induction data with
  | nil => cases h
  | cons d data ih =>
    by_cases hd : d = endMark
    · simp [hd]
    · have hm := List.mem_of_ne_of_mem (Ne.symm hd) h
      simpa [hd] using ih hm

/-- Data without the end mark are taken as a whole. -/
theorem takeWhile_append_of_not_mem {data : List String} (h : endMark ∉ data)
    (more : List String) :
    (data ++ more).takeWhile (· ≠ endMark) = data ++ more.takeWhile (· ≠ endMark) := by
  refine List.takeWhile_append_of_pos fun d hd => ?_
  simpa using fun e : d = endMark => h (e ▸ hd)

/-- The items of a buffer: the data of its events, up to the first end mark. Without one the
    rest of the buffer remains. -/
theorem drain_of_splits {buffer tail : Bytes} {events : List Bytes}
    (h : Splits buffer events tail) : drain [] buffer =
      (((events.flatMap eventData).takeWhile (· ≠ endMark)).reverse,
        if endMark ∈ events.flatMap eventData then .done else .within tail) := by
  induction h with
  | tail hn => simp [drain_none (takeEvent?_eq_none.2 hn)]
  | @event _ event _ _ _ events hc _ ih =>
    rw [drain_some (takeEvent?_eq_some.2 ⟨_, hc⟩), List.flatMap_cons]
    by_cases hm : endMark ∈ eventData event
    · -- What the later events hold is not looked at.
      rw [if_pos hm, if_pos (List.mem_append_left _ hm), takeWhile_append_of_mem hm,
        List.append_nil]
    · rw [if_neg hm, drain_eq, ih, takeWhile_append_of_not_mem hm]
      simp [hm]

/-- Draining what is left of a buffer with more bytes is draining all of them at once. -/
theorem drain_append (xs ys : Bytes) : drain [] (xs ++ ys) =
    match (drain [] xs).2 with
    | .done => ((drain [] xs).1, .done)
    | .within rest =>
      ((drain [] (rest ++ ys)).1 ++ (drain [] xs).1, (drain [] (rest ++ ys)).2) := by
  obtain ⟨events, tail, hs⟩ := Splits.exists xs
  induction hs with
  | tail hn => simp [drain_none (takeEvent?_eq_none.2 hn)]
  | @event bytes event _ rest _ _ hc _ ih =>
    have h := takeEvent?_eq_some.2 ⟨_, hc⟩
    -- The first event is the same with the bytes that come later, so it is taken off first.
    rw [drain_some h, drain_some (takeEvent?_append h ys)]
    by_cases hm : endMark ∈ eventData event
    · simp only [if_pos hm]
    · simp only [if_neg hm]
      rw [drain_eq _ (rest ++ ys), ih, drain_eq ((eventData event).reverse ++ []) rest]
      rcases (drain [] rest).2 with rest' | _ <;> simp

/-! ## Chunks -/

/-- A state in which no complete event waits in the buffer. -/
def Settled : Reader → Prop
  | .within buffer => takeEvent? buffer = none
  | .done => True

theorem settled_start : start.Settled := rfl

/-- After each chunk no complete event is left in the buffer. -/
theorem settled_drain (found : List String) (buffer : Bytes) : (drain found buffer).2.Settled := by
  obtain ⟨events, tail, hs⟩ := Splits.exists buffer
  induction hs generalizing found with
  | tail hn =>
    have h := takeEvent?_eq_none.2 hn
    rw [drain_none h]
    exact h
  | event hc _ ih =>
    rw [drain_some (takeEvent?_eq_some.2 ⟨_, hc⟩)]
    split
    · trivial
    · exact ih _

theorem settled_feed {r : Reader} (chunk : Bytes) : (r.feed chunk).2.Settled := by
  cases r with
  | within buffer => exact settled_drain [] (buffer ++ chunk)
  | done => trivial

theorem feed_nil {r : Reader} (h : r.Settled) : r.feed [] = ([], r) := by
  cases r with
  | within buffer =>
    rw [feed, List.append_nil, drain_none h]
    rfl
  | done => rfl

/-- Reading on is reading everything: the borders of the chunks do not matter. -/
theorem feed_append (r : Reader) (xs ys : Bytes) :
    r.feed (xs ++ ys)
      = ((r.feed xs).1 ++ ((r.feed xs).2.feed ys).1, ((r.feed xs).2.feed ys).2) := by
  cases r with
  | done => rfl
  | within buffer =>
    simp only [feed, ← List.append_assoc]
    rw [drain_append]
    rcases (drain [] (buffer ++ xs)).2 with rest | _ <;> simp

/-- Reading chunks is reading what they are chunks of. -/
theorem feedPieces_eq {r : Reader} (h : r.Settled) (pieces : List Bytes) :
    r.feedPieces pieces = r.feed pieces.flatten := by
  induction pieces generalizing r with
  | nil => rw [List.flatten_nil, feed_nil h, feedPieces]
  | cons piece pieces ih =>
    simp only [List.flatten_cons, feed_append, feedPieces, ih (settled_feed piece)]

/-- The state after chunks: the data of the complete events up to the end mark are there, and
    without one the bytes after the last separator wait. -/
theorem feedPieces_of_splits {pieces : List Bytes} {events : List Bytes} {tail : Bytes}
    (h : Splits pieces.flatten events tail) : start.feedPieces pieces =
      ((events.flatMap eventData).takeWhile (· ≠ endMark),
        if endMark ∈ events.flatMap eventData then .done else .within tail) := by
  rw [feedPieces_eq settled_start, start, feed, List.nil_append, drain_of_splits h]
  simp

end Reader

/-- The items of a stream with a row of data: the data up to the end mark, and without one what
    ends the stream. -/
def itemsOfData (data : List String) (ending : List (Except GatewayError String)) :
    List (Except GatewayError String) :=
  (data.takeWhile (· ≠ endMark)).map .ok ++ if endMark ∈ data then [] else ending

@[simp] theorem itemsOfData_nil (ending : List (Except GatewayError String)) :
    itemsOfData [] ending = ending := rfl

@[simp] theorem itemsOfData_endMark (data : List String)
    (ending : List (Except GatewayError String)) : itemsOfData (endMark :: data) ending = [] := by
  simp [itemsOfData]

theorem itemsOfData_cons {d : String} (hd : d ≠ endMark) (data : List String)
    (ending : List (Except GatewayError String)) :
    itemsOfData (d :: data) ending = .ok d :: itemsOfData data ending := by
  simp [itemsOfData, hd, Ne.symm hd]

/-- The items of a stream are those of the data of its complete events. What comes after the
    last separator matters for the error at the end only. -/
theorem dataOfPieces_of_splits {pieces : List Bytes} {events : List Bytes} {tail : Bytes}
    (h : Splits pieces.flatten events tail) (fault : Option TransportFault) (expectEnd : Bool) :
    dataOfPieces pieces fault expectEnd = itemsOfData (events.flatMap eventData)
      (((Reader.within tail).finish fault expectEnd).map .error).toList := by
  rw [dataOfPieces, Reader.feedPieces_of_splits h, itemsOfData]
  by_cases hm : endMark ∈ events.flatMap eventData
  · simp only [if_pos hm]
    rfl
  · simp only [if_neg hm]

/-- The items that are there after some of the chunks of a stream. -/
def itemsAfter (k : Nat) (pieces : List Bytes) : List String :=
  (Reader.start.feedPieces (pieces.take k)).1

/-- The borders of the chunks do not matter: two rows of chunks of the same bytes give the
    same items with the same ending. Nor do they matter on the way: the items that are there
    after some chunks depend on the bytes so far alone, and they begin the items of every
    stream that goes on from there. -/
theorem dataOfPieces_chunking :
    (∀ (xs ys : List Bytes) (fault : Option TransportFault) (expectEnd : Bool),
      xs.flatten = ys.flatten → dataOfPieces xs fault expectEnd = dataOfPieces ys fault expectEnd) ∧
    (∀ (xs ys : List Bytes) (j k : Nat),
      (xs.take j).flatten = (ys.take k).flatten → itemsAfter j xs = itemsAfter k ys) ∧
    (∀ (xs ys : List Bytes) (k : Nat) (fault : Option TransportFault) (expectEnd : Bool),
      (xs.take k).flatten <+: ys.flatten →
        (itemsAfter k xs).map .ok <+: dataOfPieces ys fault expectEnd) := by
  -- Chunks are read like the bytes that they are chunks of (`Reader.feedPieces_eq`).
  refine ⟨fun xs ys fault expectEnd h => ?_, fun xs ys j k h => ?_,
    fun xs ys k fault expectEnd h => ?_⟩
  · rw [dataOfPieces, dataOfPieces, Reader.feedPieces_eq Reader.settled_start,
      Reader.feedPieces_eq Reader.settled_start, h]
  · rw [itemsAfter, itemsAfter, Reader.feedPieces_eq Reader.settled_start,
      Reader.feedPieces_eq Reader.settled_start, h]
  · obtain ⟨more, hm⟩ := h
    rw [dataOfPieces, Reader.feedPieces_eq Reader.settled_start, ← hm, Reader.feed_append,
      itemsAfter, Reader.feedPieces_eq Reader.settled_start]
    simp only [List.map_append, List.append_assoc]
    exact List.prefix_append _ _

/-- A character and a separator that are cut, and an empty chunk between the parts. -/
theorem dataOfPieces_within_separator :
    let xs : List Bytes :=
      [Text.Utf8.encode "data: " ++ [0xC3], [0xA9, 0x0D, 0x0A, 0x0D], [], [0x0A]]
    let ys : List Bytes := [Text.Utf8.encode "data: \u00e9\r\n\r\n"]
    dataOfPieces xs none true = dataOfPieces ys none true ∧ itemsAfter 4 xs = itemsAfter 1 ys ∧
      (itemsAfter 4 xs).map .ok <+: dataOfPieces (ys ++ [[0x21]]) none true ∧
      itemsAfter 3 xs = [] ∧ itemsAfter 4 xs = ["\u00e9"] :=
  ⟨dataOfPieces_chunking.1 _ _ _ _ (by decide +kernel),
    dataOfPieces_chunking.2.1 _ _ _ _ (by decide +kernel),
    dataOfPieces_chunking.2.2 _ _ _ _ _ (by decide +kernel), by decide +kernel, by decide +kernel⟩

end InferenceGateway.EventStream
