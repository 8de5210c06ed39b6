import InferenceGateway.Document.Node
import InferenceGateway.Error

/-!
# Placeholders

The texts of a configuration may name environment variables, as in `${API_KEY}`. Each text
in the place of a value is searched for placeholders once; then its placeholders are
replaced one after the other, each wherever it occurs in what the replacements before it
have left.
-/

namespace InferenceGateway

open Document

/-- The values of the environment variables that are set. -/
abbrev Environment := String → Option String

namespace Placeholder

/-- Whether the name of a variable may begin with a character. -/
def isNameStart (c : Char) : Bool := ('A' ≤ c && c ≤ 'Z') || c == '_'

/-- Whether the name of a variable may hold a character. -/
def isNameChar (c : Char) : Bool := isNameStart c || ('0' ≤ c && c ≤ '9')

/-- The name in the placeholder at the beginning of a text. -/
def name? : List Char → Option (List Char)
  | '$' :: '\x7b' :: rest =>
    let name := rest.takeWhile isNameChar
    if name.head?.any isNameStart && (rest.drop name.length).head? == some '\x7d' then some name
    else none
  | _ => none

/-- The names in the placeholders of a text, in order. -/
def names : List Char → List (List Char)
  | [] => []
  | c :: rest => (name? (c :: rest)).toList ++ names rest

/-- The placeholder of a name. -/
def write (name : List Char) : List Char := '$' :: '\x7b' :: name ++ ['\x7d']

/-- A text with every occurrence of a pattern replaced, from left to right; `skip` characters
    of it belong to an occurrence already. -/
def replaceFrom (pattern value : List Char) : (skip : Nat) → List Char → List Char
  | _, [] => []
  | skip + 1, _ :: rest => replaceFrom pattern value skip rest
  | 0, c :: rest =>
    if pattern.isPrefixOf (c :: rest) then
      value ++ replaceFrom pattern value (pattern.length - 1) rest
    else c :: replaceFrom pattern value 0 rest

/-- A text with every occurrence of a pattern replaced. -/
def replaceAll (pattern value text : List Char) : List Char := replaceFrom pattern value 0 text

/-- A text with the placeholders of one name replaced. -/
def fill (env : Environment) (text name : List Char) : Except ConfigFault (List Char) :=
  match env (String.ofList name) with
  | some value => .ok (replaceAll (write name) value.toList text)
  | none => .error (.unsetVariable (String.ofList name))

/-- A text with its placeholders replaced by the values of their variables. -/
def substitute (env : Environment) (text : String) : Except ConfigFault String :=
  String.ofList <$> (names text.toList).foldlM (fill env) text.toList

mutual

/-- A document with the placeholders in its values replaced. Keys are left alone. -/
def resolve (env : Environment) : Node → Except ConfigFault Node
  | .text s => .text <$> substitute env s
  | .sequence items => .sequence <$> resolveItems env items
  | .mapping entries => .mapping <$> resolveEntries env entries
  | .tagged tag n => .tagged tag <$> resolve env n
  | n => .ok n

/-- `resolve` for items in order. -/
def resolveItems (env : Environment) : List Node → Except ConfigFault (List Node)
  | [] => .ok []
  | n :: rest => do
    let n ← resolve env n
    return n :: (← resolveItems env rest)

/-- `resolve` for the values of entries in order. -/
def resolveEntries (env : Environment) :
    List (Node × Node) → Except ConfigFault (List (Node × Node))
  | [] => .ok []
  | (k, n) :: rest => do
    let n ← resolve env n
    return (k, n) :: (← resolveEntries env rest)

end

end Placeholder

end InferenceGateway
