import InferenceGateway.CommandLine
import InferenceGateway.Server.Connection
import Std.Async.DNS
import Std.Async.Signal
import Std.Async.System
import Std.Async.TCP

/-!
# The program

The outer layer: files, variables, sockets, signals and the clock. It listens, hands what
arrives to the gateway and sends back what the gateway answers. A hangup signal makes the
gateway read its configuration again; an interrupt or a termination signal ends the program.

Providers are reached without encryption only.
-/

namespace InferenceGateway.Main

open Std.Async Std.Net

/-- The number of an error of the system. Some come with the sign changed. -/
def errorNumber (code : UInt32) : Nat :=
  if code.toNat < UInt32.size / 2 then code.toNat else UInt32.size - code.toNat

/-- Why an operation failed. -/
def ioReason : IO.Error → String
  | .noFileOrDirectory _ code details
  | .permissionDenied _ code details
  | .inappropriateType _ code details
  | .resourceBusy code details
  | .unsupportedOperation code details =>
    details.capitalize ++ " (os error " ++ toString (errorNumber code) ++ ")"
  | e => toString e

/-- The bytes of a file, or why there are none. -/
def readFile (path : String) : IO (Except String Bytes) := do
  try return .ok (← IO.FS.readBinFile path).toList
  catch e => return .error (ioReason e)

/-- The environment variables. -/
def readEnvironment : IO Environment := do
  let env ← System.getEnv
  return env.get?

/-- The files of which only one is ever read. -/
def onlyFile (path : String) (content : Except String Bytes) : Files := fun asked =>
  if asked = path then content else .error "No such file or directory (os error 2)"

/-- Seconds since the beginning of 1970. -/
def clock : IO Nat := do
  return (← Std.Time.Timestamp.now).toSecondsSinceUnixEpoch.val.toNat

/-! ## Sockets -/

/-- How many bytes are taken from a socket at once. -/
def receiveSize : UInt64 := 65536

/-- Bytes for a socket. -/
def packet (bytes : Bytes) : ByteArray := ⟨bytes.toArray⟩

/-- The address of a socket. -/
def socketAddress (port : Nat) : IPAddr → SocketAddress
  | .v4 addr => .v4 ⟨addr, port.toUInt16⟩
  | .v6 addr => .v6 ⟨addr, port.toUInt16⟩

/-- The address to listen on. -/
def listenAddress : CommandLine.SocketAddress → SocketAddress
  | .v4 bytes port => socketAddress port (.v4 ⟨bytes.map Nat.toUInt8⟩)
  | .v6 words _ port => socketAddress port (.v6 ⟨words.map Nat.toUInt16⟩)

/-- All the bytes that arrive until the connection is closed. -/
partial def receiveAll (socket : TCP.Socket.Client) (found : ByteArray) : Async ByteArray := do
  match ← socket.recv? receiveSize with
  | none => return found
  | some more => receiveAll socket (found ++ more)

/-- Asks one of the addresses of a host. -/
def ask (message : Bytes) (address : SocketAddress) : Async Http.Reply := do
  let socket ← TCP.Socket.Client.mk
  socket.connect address
  socket.send (packet message)
  let received ← receiveAll socket .empty
  return .ofBytes received.toList

/-- Asks the addresses of a host until one replies. -/
def askAny (message : Bytes) : List SocketAddress → Async Http.Reply
  | [] => return .down
  | address :: rest => do
    try ask message address
    catch _ => askAny message rest

/-- Sends a request to a provider. -/
def send (request : Http.Request) : Async Http.Reply := do
  match request.destination? with
  | none => return .down
  | some d =>
    let addresses ← try DNS.getAddrInfo d.hostName (toString d.port) catch _ => pure #[]
    askAny (request.toBytes d) (addresses.toList.map (socketAddress d.port))

/-! ## The server -/

/-- The result of a call, each of whose requests is sent. -/
def perform {α : Type} : Call α → Async α
  | .done a => return a
  | .send request next => do perform (next (← send request))

/-- The answer to a request, and its events counted. -/
def answer (gateway : IO.Ref Gateway) (request : Server.Request) : Async Server.Answer := do
  let outcome ← perform (Server.answer (← gateway.get) (← clock) request)
  gateway.modify (·.count outcome.counts)
  return outcome.answer

/-- Serves a connection on which some bytes have arrived. -/
partial def serveConnection (gateway : IO.Ref Gateway) (socket : TCP.Socket.Client)
    (arrived : Bytes) : Async Unit := do
  match Server.Arrival.ofBytes arrived with
  | .malformed => socket.send (packet (Server.Answer.toBytes ⟨400, [], ""⟩ "GET" false))
  | .complete request stays rest =>
    let a ← answer gateway request
    socket.send (packet (a.toBytes request.method stays))
    if stays then serveConnection gateway socket rest else socket.shutdown
  | .waiting =>
    if let some more ← socket.recv? receiveSize then
      serveConnection gateway socket (arrived ++ more.toList)
  | .partway request =>
    match ← socket.recv? receiveSize with
    | some more => serveConnection gateway socket (arrived ++ more.toList)
    | none => discard (answer gateway request)

/-- Accepts connections for ever. -/
partial def accept (gateway : IO.Ref Gateway) (server : TCP.Socket.Server) : Async Unit := do
  try
    let socket ← server.accept
    background (try serveConnection gateway socket [] catch _ => pure ())
  catch _ => pure ()
  accept gateway server

/-- Reads the configuration again at every hangup signal. -/
partial def reloadOnHangup (gateway : IO.Ref Gateway) (path : String) (waiter : Signal.Waiter) :
    Async Unit := do
  discard (Async.ofIOTask (waiter.wait))
  let files := onlyFile path (← readFile path)
  let env ← readEnvironment
  gateway.modify fun g => (g.reload env files).2
  reloadOnHangup gateway path waiter

/-- Waits for a signal. -/
def awaitSignal (signal : Signal) : Async Unit := do
  let waiter ← Signal.Waiter.mk signal false
  discard (Async.ofIOTask waiter.wait)

/-- Listens on an address and serves the gateway until a signal ends the program. -/
def serve (path : String) (address : SocketAddress) (g : Gateway) : IO UInt32 := do
  let server ← TCP.Socket.Server.mk
  try
    server.bind address
    server.listen 1024
  catch e =>
    IO.eprint (CommandLine.listenReport (ioReason e))
    return 1
  let gateway ← IO.mkRef g
  Async.block do
    background (accept gateway server)
    background (reloadOnHangup gateway path (← Signal.Waiter.mk .sighup true))
    discard <| Async.race (awaitSignal .sigint) (awaitSignal .sigterm)
  return 0

/-- Runs the program with arguments. -/
def run (args : List String) : IO UInt32 := do
  let env ← readEnvironment
  match CommandLine.Options.ofArgs args env with
  | .error .help =>
    IO.print CommandLine.usage
    return 0
  | .error .misuse =>
    IO.eprint CommandLine.usage
    return 2
  | .ok options =>
    let files := onlyFile options.config (← readFile options.config)
    match CommandLine.start options env files with
    | .error report =>
      IO.eprint report
      return 1
    | .ok (address, g) => serve options.config (listenAddress address) g

end InferenceGateway.Main

/-- Runs the program. -/
def main (args : List String) : IO UInt32 := InferenceGateway.Main.run args
