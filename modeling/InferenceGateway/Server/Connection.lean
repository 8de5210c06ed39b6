import InferenceGateway.Http.Message
import InferenceGateway.Server.Answer

/-!
# Connections

What a client sends on a connection, one request after the other, and how answers are sent
back. A connection stays open after an answer, unless the client wants it closed.
-/

namespace InferenceGateway.Server

open Http

/-- What has arrived of a request. -/
inductive Arrival where
  /-- Nothing that could be answered yet. -/
  | waiting
  /-- A request whose body is not complete. -/
  | partway (request : Request)
  /-- A request, whether the connection stays open after it, and the bytes after it. -/
  | complete (request : Request) (stays : Bool) (rest : Bytes)
  /-- Nothing that makes sense. -/
  | malformed

/-- Path and query of a target, which may be an address. -/
def targetParts (target : String) : String × Option String :=
  let chars := target.toList.takeWhile (· ≠ '#')
  let chars := match Url.scheme? chars with
    | some (_, rest) => (rest.drop "//".length).dropWhile (· ≠ '/')
    | none => chars
  let path := chars.takeWhile (· ≠ '?')
  (String.ofList path, match chars.drop path.length with
    | [] => none
    | _ :: query => some (String.ofList query))

/-- Whether the connection stays open after a request, by its version and what it says. -/
def staysOpen (version : String) (head : Head) : Bool :=
  if version = "HTTP/1.0" then head.hasWord "connection" "keep-alive"
  else !head.hasWord "connection" "close"

/-- Why a body that breaks off cannot be read. -/
def brokenBody : String := "error reading a body from connection"

/-- What has arrived of a request. A request that does not tell where its body ends has
    none. -/
def Arrival.ofBytes (bytes : Bytes) : Arrival :=
  match Head.ofBytes? bytes with
  | none => .waiting
  | some (head, rest) =>
    match head.first.splitOn " " with
    | [method, target, version] =>
      let (path, query) := targetParts target
      match (head.framing?.getD (.length 0)).read rest with
      | .complete body rest =>
        .complete ⟨method, path, query, .ok body⟩ (staysOpen version head) rest
      | .partway _ => .partway ⟨method, path, query, .error brokenBody⟩
    | _ => .malformed

/-- The message of an answer to a method. The length of a body that is left out is told
    nevertheless. -/
def Answer.toBytes (a : Answer) (method : String) (stays : Bool) : Bytes :=
  messageBytes ("HTTP/1.1 " ++ toString a.status ++ " ")
    (a.headers ++ if stays then [] else [("connection", "close")])
    (Text.Utf8.encode a.body).length (Text.Utf8.encode (a.sentBody method))

end InferenceGateway.Server
