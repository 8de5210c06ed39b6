import InferenceGateway.Gateway

/-!
# The command line

The program is given a configuration file and an address to listen on, by options, by
environment variables, or as usual. It refuses to start if the address is none or if the
configuration cannot be served, and reports why.
-/

namespace InferenceGateway.CommandLine

/-! ## Addresses -/

/-- An address to listen on. -/
inductive SocketAddress where
  | v4 (bytes : Vector Nat 4) (port : Nat)
  | v6 (words : Vector Nat 8) (scope port : Nat)
deriving DecidableEq, Repr

namespace SocketAddress

/-- A number in a base with at most so many digits, below a bound; a zero before other digits
    is admitted or not. -/
def number? (base digits bound : Nat) (leadingZero : Bool) (cs : List Char) : Option Nat :=
  if cs.isEmpty || digits < cs.length || (!leadingZero && 1 < cs.length && cs.head? == some '0')
  then none
  else
    let n := cs.foldlM (fun n c => do
      let d ← Text.hexDigit? (UInt8.ofNat (if c.toNat < 256 then c.toNat else 0))
      if d.toNat < base then some (base * n + d.toNat) else none) 0
    n.filter (· < bound)

/-- Characters cut at every occurrence of one of them. -/
def cut (separator : Char) (cs : List Char) : List (List Char) :=
  ((String.ofList cs).splitOn (String.ofList [separator])).map String.toList

/-- So many numbers, if there are just as many. -/
def exactly? (n : Nat) (numbers : List Nat) : Option (Vector Nat n) :=
  if h : numbers.length = n then some ⟨numbers.toArray, by simpa using h⟩ else none

/-- Four bytes with points between them. -/
def bytes? (cs : List Char) : Option (Vector Nat 4) :=
  ((cut '.' cs).mapM (number? 10 3 256 false)).bind (exactly? 4)

/-- A port. -/
def port? (cs : List Char) : Option Nat := number? 10 cs.length 65536 true cs

/-- Words with colons between them; the last two may be written as four bytes. -/
def words? (cs : List Char) : Option (List Nat) :=
  if cs.isEmpty then some []
  else do
    let parts := cut ':' cs
    let last ← parts.getLast?
    match bytes? last with
    | some bytes =>
      let front ← parts.dropLast.mapM (number? 16 4 65536 true)
      return front ++ [bytes[0] * 256 + bytes[1], bytes[2] * 256 + bytes[3]]
    | none => parts.mapM (number? 16 4 65536 true)

/-- Eight words; two colons in a row stand for zeros, one at least. -/
def address? (cs : List Char) : Option (Vector Nat 8) :=
  match (String.ofList cs).splitOn "::" with
  | [all] => (words? all.toList).bind (exactly? 8)
  | [front, back] => do
    -- Four bytes can only stand at the end.
    if front.toList.contains '.' then none
    let front ← words? front.toList
    let back ← words? back.toList
    let size := front.length + back.length
    if 7 < size then none
    else exactly? 8 (front ++ List.replicate (8 - size) 0 ++ back)
  | _ => none

/-- What stands in square brackets: an address, and possibly the number of a network. -/
def bracketed? (cs : List Char) : Option (Vector Nat 8 × Nat) :=
  match cut '%' cs with
  | [address] => (address? address).map (·, 0)
  | [address, scope] => do
    return (← address? address, ← number? 10 scope.length UInt32.size true scope)
  | _ => none

/-- The address that a text writes. -/
def parse (text : String) : Option SocketAddress :=
  match text.toList with
  | '[' :: rest =>
    let inner := rest.takeWhile (· ≠ ']')
    match rest.drop inner.length with
    | ']' :: ':' :: port => do
      let (words, scope) ← bracketed? inner
      return .v6 words scope (← port? port)
    | _ => none
  | cs =>
    match cut ':' cs with
    | [host, port] => do return .v4 (← bytes? host) (← port? port)
    | _ => none

end SocketAddress

/-! ## Options -/

/-- What the program is started with. -/
structure Options where
  config : String
  bind : String
deriving DecidableEq, Repr

/-- The options that are given, so far. -/
structure Given where
  config : Option String
  bind : Option String

/-- An option. -/
inductive Name where
  | config
  | bind
deriving DecidableEq

/-- Why arguments are not options to start with. -/
inductive Stop where
  /-- Help is asked for. -/
  | help
  /-- They make no sense. -/
  | misuse
deriving DecidableEq, Repr

/-- Notes the value of an option, which may be given once. -/
def Given.set (g : Given) (name : Name) (value : String) : Except Stop Given :=
  match name with
  | .config =>
    if g.config.isSome || value.isEmpty then .error .misuse
    else .ok { g with config := value }
  | .bind => if g.bind.isSome then .error .misuse else .ok { g with bind := value }

/-- The option that an argument begins with, and the value in the same argument. -/
def option? (arg : List Char) : Option (Name × Option (List Char)) :=
  let long (name : List Char) : Bool :=
    arg.take (name.length + 2) = '-' :: '-' :: name
  let short (name : Name) (rest : List Char) : Name × Option (List Char) :=
    match rest with
    | [] => (name, none)
    | '=' :: value => (name, some value)
    | value => (name, some value)
  match arg with
  | '-' :: 'c' :: rest => some (short .config rest)
  | '-' :: 'b' :: rest => some (short .bind rest)
  | _ =>
    let long? (name : Name) (word : List Char) : Option (Name × Option (List Char)) :=
      if long word then
        match arg.drop (word.length + 2) with
        | [] => some (name, none)
        | '=' :: value => some (name, some value)
        | _ => none
      else none
    (long? .config "config".toList).orElse fun _ => long? .bind "bind".toList

/-- Whether an argument can be the value of the option before it. -/
def isValue (arg : String) : Bool := !arg.startsWith "-" || arg = "-"

/-- Whether an argument asks for help. -/
def asksForHelp (arg : String) : Bool := arg = "--help" || arg.startsWith "-h"

/-- Notes the options of arguments in order. -/
def Given.ofArgs (g : Given) : List String → Except Stop Given
  | [] => .ok g
  | ["--"] => .ok g
  | arg :: rest =>
    if asksForHelp arg then .error .help
    else match option? arg.toList, rest with
      | some (name, some value), rest => do (← g.set name (String.ofList value)).ofArgs rest
      | some (name, none), value :: rest =>
        if isValue value then do (← g.set name value).ofArgs rest else .error .misuse
      | _, _ => .error .misuse

/-- The usual configuration file. -/
def usualConfig : String := "deploygate.yaml"

/-- The usual address. -/
def usualBind : String := "127.0.0.1:5000"

/-- The options of arguments and environment variables. Arguments come before variables. -/
def Options.ofArgs (args : List String) (env : Environment) : Except Stop Options := do
  let g ← (⟨none, none⟩ : Given).ofArgs args
  let config := (g.config.orElse fun _ => env "DEPLOYGATE_CONFIG").getD usualConfig
  let bind := (g.bind.orElse fun _ => env "DEPLOYGATE_BIND").getD usualBind
  if config.isEmpty then .error .misuse else return ⟨config, bind⟩

/-- How the program is used. -/
def usage : String := "Usage: deploygate [-c|--config <CONFIG>] [-b|--bind <BIND>]\n"

/-! ## Reports -/

/-- The lines of a cause after its first, put below it. -/
def indent (width : Nat) (text : String) : String :=
  ("\n" ++ String.ofList (List.replicate width ' ')).intercalate (text.splitOn "\n")

/-- A report: what was tried, and what stood in the way. Several causes are numbered. -/
def report (context : String) (causes : List String) : String :=
  let lines := match causes with
    | [cause] => "\n    " ++ indent 4 cause
    | causes => String.join (causes.zipIdx.map fun (cause, n) =>
        "\n    " ++ toString n ++ ": " ++ indent 7 cause)
  "Error: " ++ context ++ "\n\nCaused by:" ++ lines ++ "\n"

/-- The causes of an error, one behind the other. -/
def causes (e : GatewayError) : List String :=
  match e with
  | .yaml inner => [e.message, inner.message .yaml]
  | .json inner => [e.message, inner.message .json]
  | .io reason => [e.message, reason]
  | e => [e.message]

/-- The report of an error that is met while the gateway starts to listen. -/
def listenReport (reason : String) : String :=
  let e := GatewayError.io reason
  report e.message ((causes e).drop 1)

/-- Starts the gateway, or reports why it cannot start. The address is looked at first. -/
def start (o : Options) (env : Environment) (files : Files) :
    Except String (SocketAddress × Gateway) :=
  match SocketAddress.parse o.bind with
  | none => .error (report ("无效的监听地址: " ++ o.bind) ["invalid socket address syntax"])
  | some address =>
    match Gateway.ofFile .builtin env files o.config with
    | .error e => .error (report ("无法从 " ++ o.config ++ " 加载网关配置") (causes e))
    | .ok g => .ok (address, g)

end InferenceGateway.CommandLine
