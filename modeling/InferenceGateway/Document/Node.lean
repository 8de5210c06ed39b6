import InferenceGateway.Json.Value
import InferenceGateway.Numeral.Literal

/-!
# Documents

The tree of a document that the gateway reads: a configuration, a request body, an
answer or an event of a provider. Such a tree is made of any text. Where a JSON text
stops making sense, the tree ends in a `fault`: it is then the last item of every
container that was open at that point. So a reader that goes through a tree in order
meets a wrong value first if it stands before the fault, and the fault otherwise.

A value that is not needed must only be well formed (`Node.isWellFormed`). One that is
needed as data must be readable too (`Node.check`).
-/

namespace InferenceGateway.Document

open Numeral

/-- The tree of a document. -/
inductive Node where
  /-- The text makes no sense from here on. -/
  | fault
  /-- A well-formed value that cannot be held: a number out of range, a text that is not
      one, or a container nested too deeply. -/
  | unreadable
  | null
  | bool (value : Bool)
  | number (value : Number)
  | text (value : String)
  | sequence (items : List Node)
  /-- Keys and values. The key of a JSON object that is no text is followed by a fault. -/
  | mapping (entries : List (Node × Node))
  /-- A value under a local tag. -/
  | tagged (tag : String) (value : Node)
deriving Inhabited

namespace Node

mutual

/-- Whether a tree has no fault. -/
def isWellFormed : Node → Bool
  | .fault => false
  | .sequence items => areWellFormed items
  | .mapping entries => haveWellFormed entries
  | .tagged _ n => isWellFormed n
  | _ => true

/-- Whether no item has a fault. -/
def areWellFormed : List Node → Bool
  | [] => true
  | n :: rest => isWellFormed n && areWellFormed rest

/-- Whether no key and no value has a fault. -/
def haveWellFormed : List (Node × Node) → Bool
  | [] => true
  | (k, n) :: rest => isWellFormed k && isWellFormed n && haveWellFormed rest

end

/-- A value without its tags. -/
def untag : Node → Node
  | .tagged _ n => untag n
  | n => n

/-- The text of a node. -/
def text? (n : Node) : Option String :=
  match n.untag with
  | .text s => some s
  | _ => none

end Node

end InferenceGateway.Document
