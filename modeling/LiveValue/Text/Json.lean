import LiveValue.Text.Hex

/-!
# Strings of structured text

The quoted form of a text inside JSON: quotes, backslashes and control characters are escaped, all
other characters stand for themselves.
-/

namespace LiveValue.Text.Json

def escape (c : Char) : List Char :=
  match c with
  | '"' => ['\\', '"']
  | '\\' => ['\\', '\\']
  | '\n' => ['\\', 'n']
  | '\r' => ['\\', 'r']
  | '\t' => ['\\', 't']
  | '\x08' => ['\\', 'b']
  | '\x0c' => ['\\', 'f']
  | c => if c.toNat < 0x20 then '\\' :: 'u' :: hex 4 c.toNat else [c]

def quoted (s : List Char) : List Char := '"' :: s.flatMap escape ++ ['"']

end LiveValue.Text.Json
