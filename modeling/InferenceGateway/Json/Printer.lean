import InferenceGateway.Json.Value
import InferenceGateway.Numeral.Layout

/-!
# Written JSON

The compact text of a JSON value: no space between the tokens, and in strings only the
quote, the backslash and the control characters below the space escaped. So a written
value is one line, whatever texts it holds.
-/

namespace InferenceGateway.Json

open Numeral

/-- The two hexadecimal digits of a number below 256. -/
def hexPair (n : Nat) : List Char := [Nat.digitChar (n / 16), Nat.digitChar (n % 16)]

/-- A character as it stands in a string. -/
def escape (c : Char) : List Char :=
  match c with
  | '"' => ['\\', '"']
  | '\\' => ['\\', '\\']
  | '\x08' => ['\\', 'b']
  | '\x0c' => ['\\', 'f']
  | '\n' => ['\\', 'n']
  | '\r' => ['\\', 'r']
  | '\t' => ['\\', 't']
  | c => if c.toNat < 0x20 then '\\' :: 'u' :: '0' :: '0' :: hexPair c.toNat else [c]

/-- A string with its quotes. -/
def quote (s : String) : List Char := '"' :: s.toList.flatMap escape ++ ['"']

/-- The digits of an integer, after a sign if it is negative. -/
def integerChars (n : Int) : List Char :=
  if n < 0 then '-' :: digitsOf n.natAbs else digitsOf n.natAbs

mutual

/-- The characters of a written value. -/
def chars : Json → List Char
  | .null => ['n', 'u', 'l', 'l']
  | .bool true => ['t', 'r', 'u', 'e']
  | .bool false => ['f', 'a', 'l', 's', 'e']
  | .integer n => integerChars n
  | .real x => x.jsonText.toList
  | .single x => x.jsonTextSingle.toList
  | .text s => quote s
  | .array [] => ['[', ']']
  | .array (j :: rest) => '[' :: (chars j ++ itemChars rest)
  | .object [] => ['\x7b', '\x7d']
  | .object ((name, j) :: rest) =>
    '\x7b' :: (quote name ++ ':' :: (chars j ++ memberChars rest))

/-- The further items of an array, and its end. -/
def itemChars : List Json → List Char
  | [] => [']']
  | j :: rest => ',' :: (chars j ++ itemChars rest)

/-- The further members of an object, and its end. -/
def memberChars : List (String × Json) → List Char
  | [] => ['\x7d']
  | (name, j) :: rest => ',' :: (quote name ++ ':' :: (chars j ++ memberChars rest))

end

/-- The compact text of a value. -/
def print (j : Json) : String := String.ofList j.chars

/-- No character of a string is written as a control character. -/
theorem le_of_mem_escape {c d : Char} (h : d ∈ escape c) : 0x20 ≤ d.toNat := by
  unfold escape at h
  split at h
  all_goals try
    simp only [List.mem_cons, List.not_mem_nil, or_false] at h
    rcases h with rfl | rfl <;> decide
  rename_i c _ _ _ _ _ _ _
  split at h
  · rename_i hc
    simp only [hexPair, List.mem_cons, List.not_mem_nil, or_false] at h
    have digit (n : Nat) (hn : n < 16) : 0x20 ≤ (Nat.digitChar n).toNat := by
      have : ∀ n : Fin 16, 0x20 ≤ (Nat.digitChar n.val).toNat := by decide
      exact this ⟨n, hn⟩
    rcases h with rfl | rfl | rfl | rfl | rfl | rfl
    · decide
    · decide
    · decide
    · decide
    · exact digit _ (by omega)
    · exact digit _ (by omega)
  · simp only [List.mem_cons, List.not_mem_nil, or_false] at h
    subst h
    omega

end InferenceGateway.Json
