import InferenceGateway.Numeral.Binary

/-!
# JSON values

The values that the gateway writes. A record is written as an object with its members in
the order of its fields. A value that was held as data before it is written, such as the
body of an answer, is *canonical* first (`Json.canonical`): the members of each of its
objects are in the order of their names, and a number of 32 bits has become one of 64.
-/

namespace InferenceGateway

open Numeral

/-- A JSON value. -/
inductive Json where
  | null
  | bool (value : Bool)
  | integer (value : Int)
  /-- A number of 64 bits. -/
  | real (value : Binary)
  /-- A number of 32 bits. -/
  | single (value : Binary)
  | text (value : String)
  | array (items : List Json)
  | object (members : List (String × Json))
deriving Inhabited

/-- A member put where its name belongs among members in the order of their names. A
    member of the same name is replaced. -/
def insertMember {α : Type} (name : String) (value : α) :
    List (String × α) → List (String × α)
  | [] => [(name, value)]
  | (n, v) :: rest =>
    if name < n then (name, value) :: (n, v) :: rest
    else if name = n then (name, value) :: rest
    else (n, v) :: insertMember name value rest

/-- Members in the order of their names; the last of several with one name remains. -/
def sortMembers {α : Type} (members : List (String × α)) : List (String × α) :=
  members.foldl (fun sorted (name, value) => insertMember name value sorted) []

/-- Members without those of one name. -/
def removeMember {α : Type} (name : String) (members : List (String × α)) :
    List (String × α) :=
  members.filter (·.1 ≠ name)

namespace Json

/-- A number as data: infinities and no-numbers have no JSON form. -/
def ofReal : Binary → Json
  | .finite negative m e => .real (.finite negative m e)
  | _ => .null

mutual

/-- A value held as data. -/
def canonical : Json → Json
  | .single x => ofReal (x.convert .double)
  | .real x => ofReal x
  | .array items => .array (canonicalItems items)
  | .object members => .object (sortMembers (canonicalMembers members))
  | j => j

/-- `canonical` for each item of an array. -/
def canonicalItems : List Json → List Json
  | [] => []
  | j :: rest => canonical j :: canonicalItems rest

/-- `canonical` for each member of an object. -/
def canonicalMembers : List (String × Json) → List (String × Json)
  | [] => []
  | (name, j) :: rest => (name, canonical j) :: canonicalMembers rest

end

/-- A value that may be absent; then it is `null`. -/
def ofOption {α : Type} (f : α → Json) (x : Option α) : Json := (x.map f).getD .null

/-- A member that is written only if there is a value for it. -/
def member? {α : Type} (name : String) (f : α → Json) (x : Option α) : List (String × Json) :=
  (x.map fun a => (name, f a)).toList

/-- The members of an object. -/
def members : Json → List (String × Json)
  | .object ms => ms
  | _ => []

/-- The object with one member set. -/
def set (j : Json) (name : String) (value : Json) : Json :=
  match j with
  | .object ms => .object (insertMember name value ms)
  | j => j

/-- The object without a member. -/
def unset (j : Json) (name : String) : Json :=
  match j with
  | .object ms => .object (removeMember name ms)
  | j => j

/-- The items of an array are held as data one by one. -/
theorem canonicalItems_eq_map (items : List Json) :
    canonicalItems items = items.map canonical := by
  induction items with
  | nil => rfl
  | cons j rest ih => simp [canonicalItems, ih]

end Json

end InferenceGateway
