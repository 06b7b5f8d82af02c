import PackChoice.Json.Number
import PackChoice.Sorted

/-!
Documents as values. The members of an object are listed in the order of their names and no name
repeats: the reader builds objects with `Json.ofMembers`, which keeps the last of repeated members.
-/

namespace PackChoice

/-- The value of a document. -/
inductive Json where
  | null
  | bool (b : Bool)
  | number (n : Number)
  | string (s : String)
  | array (items : List Json)
  | object (members : List (String × Json))
deriving Inhabited

namespace Json

/-- The object with the listed members; of several with one name the last. -/
def ofMembers (members : List (String × Json)) : Json := .object (Sorted.ofList Prod.fst members)

/-- A natural number. -/
def ofNat (n : Nat) : Json := .number (.integer n)

/-- A string, or null where there is none. -/
def ofOption : Option String → Json
  | some s => .string s
  | none => .null

/-- An array of strings. -/
def ofStrings (names : List String) : Json := .array (names.map .string)

/-- The member of an object under a name. -/
def member? (name : String) : Json → Option Json
  | .object members => (members.find? (fun m => m.1 = name)).map Prod.snd
  | _ => none

end Json

end PackChoice
