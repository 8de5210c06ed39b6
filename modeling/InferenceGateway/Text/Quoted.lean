import InferenceGateway.Text.Unprintable

/-!
# Quoted text

How a message shows a text that a client or a configuration sent: in double quotes,
with the quote, the backslash and the unprintable characters escaped, so that the
message itself stays on one printable line.
-/

namespace InferenceGateway.Text

/-- The written form of one character inside a quoted text. -/
def escapeQuoted (c : Char) : List Char :=
  match c with
  | '"' => ['\\', '"']
  | '\\' => ['\\', '\\']
  | '\n' => ['\\', 'n']
  | '\r' => ['\\', 'r']
  | '\t' => ['\\', 't']
  | '\x00' => ['\\', '0']
  | c =>
    if isUnprintable c then ['\\', 'u', '\x7b'] ++ Nat.toDigits 16 c.toNat ++ ['\x7d'] else [c]

/-- A text in double quotes. -/
def quoted (s : String) : String :=
  String.ofList ('"' :: s.toList.flatMap escapeQuoted ++ ['"'])

end InferenceGateway.Text
