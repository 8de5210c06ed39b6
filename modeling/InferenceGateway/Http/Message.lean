import InferenceGateway.Http
import InferenceGateway.Numeral.Layout
import InferenceGateway.Text.Blank

/-!
# Messages

The messages in which requests and answers travel: a first line, headers, an empty line and
a body. A message may still be on its way, so what has arrived of it is read as far as it
goes (`Progress`), and what follows a message is left for the next one.

* A head that has arrived stays the same when more bytes arrive (`headLines?_append`).
* So does a body (`Framing.read_append`), wherever it ends.
-/

namespace InferenceGateway.Http

/-- What has arrived of a value. -/
inductive Progress (α : Type) where
  /-- The value, and the bytes after it. -/
  | complete (value : α) (rest : Bytes)
  /-- The value so far, of which more is on its way. -/
  | partway (value : α)
deriving Repr

namespace Progress

/-- A value converted, as far as it goes. -/
def map {α β : Type} (f : α → β) : Progress α → Progress β
  | .complete a rest => .complete (f a) rest
  | .partway a => .partway (f a)

/-- The value, as far as it goes. -/
def value {α : Type} : Progress α → α
  | .complete a _ => a
  | .partway a => a

/-- Whether nothing more of the value is on its way. -/
def isComplete {α : Type} : Progress α → Bool
  | .complete .. => true
  | .partway _ => false

end Progress

/-! ## The head of a message -/

/-- The head of a message: its first line and its headers, their names in lower case. -/
structure Head where
  first : String
  headers : List (String × String)
deriving DecidableEq, Repr

/-- A line without the carriage return at its end, from its bytes in reverse. -/
def lineOf (reversed : Bytes) : Bytes :=
  match reversed with
  | 0x0D :: line => line.reverse
  | line => line.reverse

/-- The lines before the first empty one, and the bytes after it. The lines before these
    bytes and the bytes of the current line are in reverse. -/
def headLines? (lines : List Bytes) (line : Bytes) : Bytes → Option (List Bytes × Bytes)
  | [] => none
  | 0x0A :: rest =>
    let l := lineOf line
    if l.isEmpty then some (lines.reverse, rest) else headLines? (l :: lines) [] rest
  | b :: rest => headLines? lines (b :: line) rest

/-- The lines of a head that has arrived stay the same when more bytes arrive. -/
theorem headLines?_append {lines : List Bytes} {line bytes rest : Bytes} {found : List Bytes}
    (h : headLines? lines line bytes = some (found, rest)) (more : Bytes) :
    headLines? lines line (bytes ++ more) = some (found, rest ++ more) := by
  induction bytes generalizing lines line with
  | nil => simp [headLines?] at h
  | cons b bytes ih =>
    unfold headLines? at h
    rw [List.cons_append, headLines?.eq_def]
    -- The byte is a line feed, which may end the head, or any other byte.
    split at h
    · cases h
    · rename_i hb
      obtain ⟨rfl, rfl⟩ := List.cons.inj hb
      simp only at h ⊢
      split at h
      · rename_i hl
        cases h
        simp [hl]
      · rename_i hl
        simp [hl, ih h]
    · rename_i hne hb
      obtain ⟨rfl, rfl⟩ := List.cons.inj hb
      split
      · simp at *
      · rename_i heq
        simp_all
      · rename_i heq
        obtain ⟨rfl, rfl⟩ := List.cons.inj heq
        exact ih h

/-- The name and the value in the line of a header. -/
def header (line : Bytes) : String × String :=
  let name := line.takeWhile (· ≠ 0x3A)
  ((Text.Utf8.decodeLenient name).toLower,
    Text.trim (Text.Utf8.decodeLenient (line.drop (name.length + 1))))

/-- The head of a message, and the bytes after it. Empty lines before it are passed over. -/
def Head.ofBytes? (bytes : Bytes) : Option (Head × Bytes) :=
  match headLines? [] [] (bytes.dropWhile fun b => b = 0x0D || b = 0x0A) with
  | some (first :: lines, rest) => some (⟨Text.Utf8.decodeLenient first, lines.map header⟩, rest)
  | _ => none

/-- The value of a header. -/
def Head.get? (h : Head) (name : String) : Option String := h.headers.lookup name

/-- Whether one of the words of a header, with commas between them, is this one. -/
def Head.hasWord (h : Head) (name word : String) : Bool :=
  (h.get? name).any fun value =>
    (value.splitOn ",").any fun w => (Text.trim w).toLower = word

/-! ## The body of a message -/

/-- Where the body of a message ends. -/
inductive Framing where
  /-- After so many bytes. -/
  | length (n : Nat)
  /-- After its last chunk. -/
  | chunked
  /-- Where the connection ends. -/
  | untilClosed
deriving DecidableEq, Repr

/-- Where the body ends of a message that tells it, if it does. -/
def Head.framing? (h : Head) : Option Framing :=
  if h.hasWord "transfer-encoding" "chunked" then some .chunked
  else ((h.get? "content-length").bind String.toNat?).map .length

/-- Where a body in chunks stands. -/
inductive ChunkState where
  /-- In the line with the size of a chunk; what follows the digits is passed over. -/
  | size (n : Nat) (ended : Bool)
  /-- In a chunk, with so many bytes to come after the next one. -/
  | data (more : Nat)
  /-- At the end of the line after a chunk. -/
  | afterData
  /-- In the lines after the last chunk, at the beginning of a line or not. -/
  | trailer (fresh : Bool)
deriving DecidableEq, Repr

/-- Reads on in the chunks of a body, of which the bytes so far are given in reverse. -/
def readChunks (found : Bytes) : ChunkState → Bytes → Progress Bytes
  | _, [] => .partway found.reverse
  | .size n ended, b :: rest =>
    if b = 0x0A then
      -- A chunk without bytes is the last one.
      match n with
      | 0 => readChunks found (.trailer true) rest
      | n + 1 => readChunks found (.data n) rest
    else match Text.hexDigit? b, ended with
      | some d, false => readChunks found (.size (16 * n + d.toNat) false) rest
      | _, _ => readChunks found (.size n true) rest
  | .data 0, b :: rest => readChunks (b :: found) .afterData rest
  | .data (n + 1), b :: rest => readChunks (b :: found) (.data n) rest
  | .afterData, b :: rest =>
    if b = 0x0A then readChunks found (.size 0 false) rest else readChunks found .afterData rest
  | .trailer fresh, b :: rest =>
    if b = 0x0D then readChunks found (.trailer fresh) rest
    else if b ≠ 0x0A then readChunks found (.trailer false) rest
    else if fresh then .complete found.reverse rest
    else readChunks found (.trailer true) rest

/-- The body at the beginning of bytes. -/
def Framing.read (bytes : Bytes) : Framing → Progress Bytes
  | .length n =>
    if n ≤ bytes.length then .complete (bytes.take n) (bytes.drop n) else .partway bytes
  | .chunked => readChunks [] (.size 0 false) bytes
  | .untilClosed => .partway bytes

/-- A body in chunks that has arrived stays the same when more bytes arrive. -/
theorem readChunks_append {found bytes body rest : Bytes} {s : ChunkState}
    (h : readChunks found s bytes = .complete body rest) (more : Bytes) :
    readChunks found s (bytes ++ more) = .complete body (rest ++ more) := by
  induction bytes generalizing found s with
  | nil => cases s <;> simp [readChunks] at h
  | cons b bytes ih =>
    -- What a byte does depends on the state alone, not on what follows it.
    cases s with
    | size n ended =>
      simp only [readChunks, List.cons_append] at h ⊢
      split
      · rename_i hb
        rw [if_pos hb] at h
        cases n <;> exact ih h
      · rename_i hb
        rw [if_neg hb] at h
        split at h <;> exact ih h
    | data n => cases n <;> exact ih h
    | afterData =>
      simp only [readChunks, List.cons_append] at h ⊢
      split
      · rename_i hb
        rw [if_pos hb] at h
        exact ih h
      · rename_i hb
        rw [if_neg hb] at h
        exact ih h
    | trailer fresh =>
      simp only [readChunks, List.cons_append] at h ⊢
      split
      · rename_i hb
        rw [if_pos hb] at h
        exact ih h
      · rename_i hb
        rw [if_neg hb] at h
        split
        · rename_i hn
          rw [if_pos hn] at h
          exact ih h
        · rename_i hn
          rw [if_neg hn] at h
          cases fresh
          · exact ih h
          · cases h
            rfl

/-- A body that has arrived stays the same when more bytes arrive. -/
theorem Framing.read_append {f : Framing} {bytes body rest : Bytes}
    (h : f.read bytes = .complete body rest) (more : Bytes) :
    f.read (bytes ++ more) = .complete body (rest ++ more) := by
  cases f with
  | length n =>
    simp only [Framing.read] at h ⊢
    split at h
    · rename_i hn
      cases h
      rw [if_pos (by simp; omega), List.take_append_of_le_length hn,
        List.drop_append_of_le_length hn]
    · cases h
  | chunked => exact readChunks_append h more
  | untilClosed => cases h

/-! ## Writing messages -/

/-- What ends a line. -/
def lineEnd : String := "\r\n"

/-- A message of a first line, headers and a body, whose length is told. -/
def messageBytes (first : String) (headers : List (String × String)) (length : Nat)
    (body : Bytes) : Bytes :=
  let headers := headers ++ [("content-length", toString length)]
  let lines := headers.map fun (name, value) => name ++ ": " ++ value ++ lineEnd
  Text.Utf8.encode (first ++ lineEnd ++ String.join lines ++ lineEnd) ++ body

/-! ## Requests to providers -/

/-- Where a request goes to. -/
structure Destination where
  host : String
  port : Nat
  path : String
deriving DecidableEq, Repr

/-- The name of a host without square brackets around it. -/
def Destination.hostName (d : Destination) : String :=
  String.ofList (d.host.toList.filter fun c => c ≠ '[' && c ≠ ']')

/-- The port that is meant when none is given. -/
def usualPort : Nat := 80

/-- Where a request goes to, if that is reached without encryption. -/
def Request.destination? (r : Request) : Option Destination := do
  let url ← Url.parse r.url
  let host ← url.host
  if url.scheme ≠ "http" then none
  let after := (url.text.toList.drop ("http://".length + host.length)).takeWhile (· ≠ '#')
  let port := after.takeWhile fun c => c ≠ '/' && c ≠ '?'
  return ⟨host, (String.ofList (port.drop 1)).toNat?.getD usualPort,
    String.ofList (after.drop port.length)⟩

/-- The message of a request to its destination. -/
def Request.toBytes (r : Request) (d : Destination) : Bytes :=
  let host := if d.port = usualPort then d.host else d.host ++ ":" ++ toString d.port
  let body := Text.Utf8.encode r.body
  messageBytes ("POST " ++ d.path ++ " HTTP/1.1")
    ([("host", host)] ++ r.headers ++ [("connection", "close")]) body.length body

/-- The reply in all the bytes that a provider sent before it closed the connection. -/
def Reply.ofBytes (bytes : Bytes) : Reply :=
  match Head.ofBytes? bytes with
  | none => .down
  | some (head, rest) =>
    match (head.first.splitOn " ").drop 1 with
    | status :: _ =>
      match status.toNat? with
      | none => .down
      | some status =>
        let framing := head.framing?.getD .untilClosed
        let body := framing.read rest
        -- A body that lasts until the connection ends is complete by that.
        .answer status [body.value] (body.isComplete || framing = .untilClosed)
    | [] => .down

end InferenceGateway.Http
