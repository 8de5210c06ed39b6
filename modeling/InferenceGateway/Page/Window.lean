import InferenceGateway.Page.Token

/-!
# Pages

Which items of a listing are on a page, and where the next page begins. There is a next page
only if there is an item on it.
-/

namespace InferenceGateway.Page

/-- The greatest position. -/
def lastIndex : Nat := Nat.pow 2 64 - 1

/-- A page of a listing: the positions of its items, from `start` up to `stop`, and the
    token of the next page. -/
structure Window where
  start : Nat
  stop : Nat
  next : Option String
deriving DecidableEq, Repr

/-- The page at a position of a listing of so many items. A page has room for at least one
    item. -/
def windowAt (length index size : Nat) : Window :=
  let stop := min (index + max size 1) lastIndex
  ⟨min index length, min stop length, if stop < length then some (encode stop) else none⟩

/-- The page that a token asks for. -/
def window (length : Nat) (token : Option String) (size : Nat) : Except Refusal Window :=
  (start token).map fun index => windowAt length index size

/-- The items of a listing on a page. -/
def Window.items {α : Type} (w : Window) (all : List α) : List α :=
  (all.drop w.start).take (w.stop - w.start)

end InferenceGateway.Page
