import PackChoice.Json.Basic

/-!
Writing documents: on one line without spaces, or with one item or member a line, indented by two
spaces a level. In strings quotation marks, backslashes and the controls below the space are
escaped and nothing else.
-/

namespace PackChoice.Json

/-- How one character stands in a string. -/
def escapedChar (c : Char) : List Char :=
  match c with
  | '"' => ['\\', '"']
  | '\\' => ['\\', '\\']
  | '\x08' => ['\\', 'b']
  | '\x0c' => ['\\', 'f']
  | '\n' => ['\\', 'n']
  | '\r' => ['\\', 'r']
  | '\t' => ['\\', 't']
  | c =>
    if c.toNat < 0x10 then ['\\', 'u', '0', '0', '0'] ++ Nat.toDigits 16 c.toNat
    else if c.toNat < 0x20 then ['\\', 'u', '0', '0'] ++ Nat.toDigits 16 c.toNat
    else [c]

/-- A string between quotation marks. -/
def stringText (s : String) : String :=
  "\"" ++ String.ofList (s.toList.flatMap escapedChar) ++ "\""

mutual

/-- The document on one line. -/
def compact : Json → String
  | .null => "null"
  | .bool true => "true"
  | .bool false => "false"
  | .number n => n.text
  | .string s => stringText s
  | .array items => "[" ++ ",".intercalate (compactItems items) ++ "]"
  | .object members => "\x7b" ++ ",".intercalate (compactMembers members) ++ "\x7d"

/-- The items of an array, each on one line. -/
def compactItems : List Json → List String
  | [] => []
  | item :: items => item.compact :: compactItems items

/-- The members of an object, each on one line. -/
def compactMembers : List (String × Json) → List String
  | [] => []
  | (name, value) :: members => (stringText name ++ ":" ++ value.compact) :: compactMembers members

end

/-- The start of a line at a level. -/
def indentation (level : Nat) : String := String.ofList (List.replicate (2 * level) ' ')

/-- Lines at a level between two brackets, or the brackets alone. -/
def bracketed (level : Nat) (left right : String) (lines : List String) : String :=
  if lines.isEmpty then left ++ right
  else
    let start := "\n" ++ indentation (level + 1)
    left ++ start ++ ("," ++ start).intercalate lines ++ "\n" ++ indentation level ++ right

mutual

/-- The document with one item or member a line, when its first line stands at a level. -/
def indented (level : Nat) : Json → String
  | .array items => bracketed level "[" "]" (indentedItems (level + 1) items)
  | .object members => bracketed level "\x7b" "\x7d" (indentedMembers (level + 1) members)
  | .null => "null"
  | .bool true => "true"
  | .bool false => "false"
  | .number n => n.text
  | .string s => stringText s

/-- The items of an array at a level. -/
def indentedItems (level : Nat) : List Json → List String
  | [] => []
  | item :: items => item.indented level :: indentedItems level items

/-- The members of an object at a level. -/
def indentedMembers (level : Nat) : List (String × Json) → List String
  | [] => []
  | (name, value) :: members =>
    (stringText name ++ ": " ++ value.indented level) :: indentedMembers level members

end

/-- The document with one item or member a line. -/
def pretty (value : Json) : String := value.indented 0

end PackChoice.Json
