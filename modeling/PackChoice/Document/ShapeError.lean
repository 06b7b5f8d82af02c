import PackChoice.Json.Number
import PackChoice.Text.Quoted

/-!
What can be wrong with the shape of a document that is otherwise well formed, and how it is put
into words.
-/

namespace PackChoice

/-- What stands in a document where something else was expected. -/
inductive Found where
  | null
  | bool (b : Bool)
  | number (n : Number)
  | string (s : String)
  | sequence
  | map

/-- What was expected at a place of a document. -/
inductive Expected where
  | string
  | boolean
  | sequence
  | map
  | nothing
  /-- A number of bytes. -/
  | size
  /-- A position in a list. -/
  | index
  /-- The members of a structure. -/
  | structure (name : String)
  | condition
  | conditionKind
  | policy

/-- Why a document does not have the expected shape. -/
inductive ShapeError where
  | wrongType (found : Found) (expected : Expected)
  | outOfRange (n : Int) (expected : Expected)
  | missingMember (name : String)
  | repeatedMember (name : String)
  /-- An alternative that is none of the known ones. -/
  | unknownVariant (name : String) (known : List String)
  /-- The number of an alternative where there are only `count` of them. -/
  | unknownVariantIndex (index : Int) (count : Nat)
  /-- A list of members that ends before the member at position `length`. -/
  | tooFewMembers (length : Nat) (owner : String) (count : Nat)
  /-- A list with more members than the structure has. -/
  | tooManyMembers (length : Nat)
  /-- A list with more than the `count` members of an alternative. -/
  | tooManyFields (length : Nat) (count : Nat)
  /-- An object that should have had one member. -/
  | notOneMember
  /-- A pack's condition that is not an expression. -/
  | badExpression (text : String)

/-- The words for what was found. -/
def Found.describe : Found → String
  | .null => "null"
  | .bool true => "boolean `true`"
  | .bool false => "boolean `false`"
  | .number (.integer n) => "integer `" ++ toString n ++ "`"
  | .number (.float x) => "floating point `" ++ floatText x ++ "`"
  | .string s => "string " ++ Text.quoted s
  | .sequence => "sequence"
  | .map => "map"

/-- The words for what was expected. -/
def Expected.describe : Expected → String
  | .string => "a string"
  | .boolean => "a boolean"
  | .sequence => "a sequence"
  | .map => "a map"
  | .nothing => "unit"
  | .size => "u64"
  | .index => "usize"
  | .structure name => "struct " ++ name
  | .condition => "internally tagged enum Condition"
  | .conditionKind => "variant identifier"
  | .policy => "string or map"

/-- A number of things, with the right ending. -/
def countOf (count : Nat) (thing : String) : String :=
  toString count ++ " " ++ thing ++ (if count = 1 then "" else "s")

/-- The words for a list of known alternatives. -/
def alternatives (known : List String) : String :=
  match known.map fun name => "`" ++ name ++ "`" with
  | [a, b] => a ++ " or " ++ b
  | names => "one of " ++ ", ".intercalate names

/-- The words for what is wrong with a document. -/
def ShapeError.message : ShapeError → String
  | .wrongType found expected =>
    "invalid type: " ++ found.describe ++ ", expected " ++ expected.describe
  | .outOfRange n expected =>
    "invalid value: integer `" ++ toString n ++ "`, expected " ++ expected.describe
  | .missingMember name => "missing field `" ++ name ++ "`"
  | .repeatedMember name => "duplicate field `" ++ name ++ "`"
  | .unknownVariant name known =>
    "unknown variant `" ++ name ++ "`, expected " ++ alternatives known
  | .unknownVariantIndex index count =>
    "invalid value: integer `" ++ toString index ++ "`, expected variant index 0 <= i < "
      ++ toString count
  | .tooFewMembers length owner count =>
    "invalid length " ++ toString length ++ ", expected " ++ owner ++ " with "
      ++ countOf count "element"
  | .tooManyMembers length =>
    "invalid length " ++ toString length ++ ", expected fewer elements in array"
  | .tooManyFields length count =>
    "invalid length " ++ toString length ++ ", expected " ++ countOf count "element"
      ++ " in sequence"
  | .notOneMember => "invalid value: map, expected map with a single key"
  | .badExpression text =>
    "parsing error: missing condition id in expression \"" ++ text ++ "\""

end PackChoice
