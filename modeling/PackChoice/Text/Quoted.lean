import PackChoice.Text.Printable

/-!
Names in quotes, as error texts list them: quotation marks and backslashes are escaped, line
feed, carriage return, tab and null have short escapes, and any other character that is not
printable is given by its number.
-/

namespace PackChoice.Text

/-- How one character stands inside quotes. -/
def escaped (c : Char) : List Char :=
  match c with
  | '"' => ['\\', '"']
  | '\\' => ['\\', '\\']
  | '\n' => ['\\', 'n']
  | '\r' => ['\\', 'r']
  | '\t' => ['\\', 't']
  | '\x00' => ['\\', '0']
  | c =>
    if isPrintable c then [c]
    else ['\\', 'u', '\x7b'] ++ Nat.toDigits 16 c.toNat ++ ['\x7d']

/-- The name in quotes. -/
def quoted (name : String) : String :=
  "\"" ++ String.ofList (name.toList.flatMap escaped) ++ "\""

/-- The names in quotes, between square brackets. -/
def quotedList (names : List String) : String :=
  "[" ++ ", ".intercalate (names.map quoted) ++ "]"

end PackChoice.Text
