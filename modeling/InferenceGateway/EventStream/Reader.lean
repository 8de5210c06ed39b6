import InferenceGateway.Error
import InferenceGateway.Text.Blank

/-!
# Reading an event stream

A stream of server-sent events, read chunk by chunk. What has arrived of an event waits in
a buffer until the first empty line: two line feeds, two carriage returns, or two pairs of
both in a row. The text of an event is decoded as a whole, so no character is cut, and the
data of each of its lines is an item of the stream. The data `[DONE]` marks the end, after
which nothing is read.

The buffer is searched again whenever a chunk is added to it. That the borders of the
chunks do not matter is proved in `InferenceGateway.Proofs.Chunking`.
-/

namespace InferenceGateway.EventStream

/-! ## Events -/

/-- What ends an event: two pairs of a carriage return and a line feed, two line feeds, or
    two carriage returns. -/
def separators : List Bytes := [[0x0D, 0x0A, 0x0D, 0x0A], [0x0A, 0x0A], [0x0D, 0x0D]]

/-- The separator that bytes begin with, if they begin with one. -/
def separatorAt? (bytes : Bytes) : Option Bytes := separators.find? (·.isPrefixOf bytes)

/-- The position and the length of the first separator in bytes, the first of which stands
    at a position. -/
def findSeparator? (position : Nat) : Bytes → Option (Nat × Nat)
  | [] => none
  | b :: rest =>
    match separatorAt? (b :: rest) with
    | some s => some (position, s.length)
    | none => findSeparator? (position + 1) rest

/-- The first event of a buffer, if it is complete, and what is left of the buffer. -/
def takeEvent? (buffer : Bytes) : Option (Bytes × Bytes) :=
  (findSeparator? 0 buffer).map fun (position, length) =>
    (buffer.take position, buffer.drop (position + length))

/-- A separator is found within the bytes, and it is not empty. -/
theorem findSeparator?_bounds {start : Nat} {bytes : Bytes} {position length : Nat}
    (h : findSeparator? start bytes = some (position, length)) :
    start ≤ position ∧ position < start + bytes.length ∧ 0 < length := by
  induction bytes generalizing start with
  | nil => cases h
  | cons b rest ih =>
    rw [findSeparator?] at h
    split at h
    · rename_i s hs
      have hm := List.mem_of_find?_eq_some hs
      cases h
      refine ⟨Nat.le_refl _, by simp, ?_⟩
      simp only [separators, List.mem_cons, List.not_mem_nil, or_false] at hm
      rcases hm with rfl | rfl | rfl <;> decide
    · have := ih h
      simp only [List.length_cons]
      omega

/-- Taking an event makes the buffer shorter. -/
theorem length_lt_of_takeEvent? {buffer event rest : Bytes}
    (h : takeEvent? buffer = some (event, rest)) : rest.length < buffer.length := by
  obtain ⟨⟨position, length⟩, hp, he⟩ := Option.map_eq_some_iff.1 h
  have := findSeparator?_bounds hp
  cases he
  simp only [List.length_drop]
  omega

/-! ## Data -/

/-- The lines of the text of an event. -/
def lines (text : List Char) : List (List Char) :=
  text.foldr (fun c ls =>
    if c = '\n' || c = '\r' then [] :: ls
    else match ls with
      | [] => [[c]]
      | l :: rest => (c :: l) :: rest) [[]]

/-- What a line with data begins with. -/
def dataMark : List Char := ['d', 'a', 't', 'a', ':']

/-- The data of a line, without the white space around it. -/
def lineData? (line : List Char) : Option (List Char) :=
  if dataMark.isPrefixOf line then some (Text.trimBlank (line.drop dataMark.length)) else none

/-- The data of an event, line by line. Empty data is passed over. -/
def eventData (event : Bytes) : List String :=
  (((lines (Text.Utf8.decodeLenient event).toList).filterMap lineData?).filter
    (! ·.isEmpty)).map String.ofList

/-- The data that marks the end of a stream. -/
def endMark : String := "[DONE]"

/-- The state of reading a stream. -/
inductive Reader where
  /-- With the bytes that have arrived of an event that is not complete. -/
  | within (buffer : Bytes)
  /-- After the end mark. -/
  | done
deriving DecidableEq, Repr

namespace Reader

/-- Before the first chunk. -/
def start : Reader := .within []

/-- Takes the complete events off a buffer: their data, before the items of `found` in
    reverse, and the state after them. -/
def drain (found : List String) (buffer : Bytes) : List String × Reader :=
  match _h : takeEvent? buffer with
  | none => (found, .within buffer)
  | some (event, rest) =>
    let data := eventData event
    if data.contains endMark then ((data.takeWhile (· ≠ endMark)).reverse ++ found, .done)
    else drain (data.reverse ++ found) rest
termination_by buffer.length
decreasing_by exact length_lt_of_takeEvent? _h

/-- One chunk more: the items that it completes, and the state after it. -/
def feed : Reader → Bytes → List String × Reader
  | .done, _ => ([], .done)
  | .within buffer, chunk =>
    let (found, r) := drain [] (buffer ++ chunk)
    (found.reverse, r)

/-- Chunks, one after the other: the items that they complete, and the state after them. -/
def feedPieces (r : Reader) : List Bytes → List String × Reader
  | [] => ([], r)
  | piece :: pieces =>
    let (items, r) := r.feed piece
    let (more, r) := r.feedPieces pieces
    (items ++ more, r)

/-- The error at the end of the bytes, if any. A stream that broke off, that was to have an
    end mark, or that stops within an event has one; nothing matters after the end mark. -/
def finish (r : Reader) (fault : Option TransportFault) (expectEnd : Bool) :
    Option GatewayError :=
  match r, fault with
  | .done, _ => none
  | .within _, some fault => some (.transport fault)
  | .within buffer, none =>
    if expectEnd || buffer.any (! Text.isAsciiBlank ·) then some .truncatedStream else none

end Reader

/-- The items of a stream that arrives in pieces, and the error that ends it, if any. -/
def dataOfPieces (pieces : List Bytes) (fault : Option TransportFault) (expectEnd : Bool) :
    List (Except GatewayError String) :=
  let (items, r) := Reader.start.feedPieces pieces
  items.map .ok ++ ((r.finish fault expectEnd).map .error).toList

end InferenceGateway.EventStream
