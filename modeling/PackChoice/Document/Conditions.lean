import PackChoice.Condition
import PackChoice.Document.Structure

/-!
Conditions in documents. A condition is an object whose member `type` tells its kind, or an array
of the kind and the members that the kind has. Inside another condition the kind may also be
given by its number.
-/

namespace PackChoice.Condition

open Document (Reading readString)

/-- The kinds of conditions. -/
inductive Kind where
  | variable
  | not
  | ref
  | join (op : Connective)
deriving DecidableEq

namespace Kind

/-- All kinds in the order of their numbers. -/
def all : List Kind := [.variable, .not, .ref, .join .and, .join .or, .join .xor]

/-- The word for a kind. -/
def word : Kind → String
  | .variable => "variable"
  | .not => "not"
  | .ref => "ref"
  | .join op => op.word

/-- The kind that a word stands for. -/
def ofWord? : String → Option Kind
  | "variable" => some .variable
  | "not" => some .not
  | "ref" => some .ref
  | w => (Connective.ofWord? w).map .join

/-- The members of a kind, in the order declared. -/
def members : Kind → List String
  | .variable => ["name", "value"]
  | .not => ["condition"]
  | .ref => ["refid"]
  | .join _ => ["left", "right"]

/-- The name of a kind in error texts. -/
def title : Kind → String
  | .variable => "struct variant Condition::Variable"
  | .not => "struct variant Condition::Not"
  | .ref => "struct variant Condition::Ref"
  | .join .and => "struct variant Condition::And"
  | .join .or => "struct variant Condition::Or"
  | .join .xor => "struct variant Condition::Xor"

/-- The kind that a document gives, by its word or, where that is allowed, by its number. -/
def ofJson (byNumber : Bool) : Json → Reading Kind
  | .string s =>
    match ofWord? s with
    | some kind => .ok kind
    | none => .error (.unknownVariant s (all.map word))
  | .number (.integer n) =>
    if byNumber && decide (0 ≤ n) then
      match all[n.toNat]? with
      | some kind => .ok kind
      | none => .error (.unknownVariantIndex n all.length)
    else .error (.wrongType (.number (.integer n)) .conditionKind)
  | v => .error (.wrongType v.found .conditionKind)

end Kind

/-- The values of the listed members of an object, each read as the object gives it. -/
def pick {α : Type} (names : List String) (members : List (String × Reading α)) :
    Reading (List α) := do
  let given ← (members.filter fun m => names.contains m.1).mapM fun m => do
    return (m.1, ← m.2)
  names.mapM fun name =>
    match given.find? (fun m => m.1 = name) with
    | some m => .ok m.2
    | none => .error (.missingMember name)

/-- The values of the items behind the kind in an array. -/
def pickInOrder {α : Type} (kind : Kind) (items : List (Reading α)) : Reading (List α) := do
  let count := kind.members.length
  let given ← (items.take count).mapM id
  if items.length < count then .error (.tooFewMembers items.length kind.title count)
  else if count < items.length then .error (.tooManyFields items.length count)
  else .ok given

/-- The condition of a kind, from the values of its members: read as texts where the kind has
texts, and as conditions where it has conditions. -/
def assemble (kind : Kind) (texts : Reading (List String)) (conditions : Reading (List Condition)) :
    Reading Condition :=
  match kind with
  | .variable => texts.map fun values => .variable (values.getD 0 "") (values.getD 1 "")
  | .ref => texts.map fun values => .ref (values.getD 0 "")
  | .not => conditions.map fun cs => .not (cs.getD 0 default)
  | .join op => conditions.map fun cs => .join op (cs.getD 0 default) (cs.getD 1 default)

mutual

/-- The condition that a document describes; `nested` when it stands inside another one. -/
def ofJson (nested : Bool) : Json → Reading Condition
  | .object members => do
    match members.find? (fun m => m.1 = "type") with
    | none => .error (.missingMember "type")
    | some (_, type) =>
      let kind ← Kind.ofJson nested type
      assemble kind
        (pick kind.members (members.map fun m => (m.1, readString m.2)))
        (pick kind.members (memberReadings members))
  | .array [] => .error (.missingMember "type")
  | .array (type :: items) => do
    let kind ← Kind.ofJson nested type
    assemble kind (pickInOrder kind (items.map readString)) (pickInOrder kind (itemReadings items))
  | v => .error (.wrongType v.found .condition)

/-- The members of an object, each read as a condition. -/
def memberReadings : List (String × Json) → List (String × Reading Condition)
  | [] => []
  | (name, value) :: members => (name, ofJson true value) :: memberReadings members

/-- The items of an array, each read as a condition. -/
def itemReadings : List Json → List (Reading Condition)
  | [] => []
  | item :: items => ofJson true item :: itemReadings items

end

/-- The document that describes a condition. -/
def toJson : Condition → Json
  | .variable name value =>
    .ofMembers [("type", .string "variable"), ("name", .string name), ("value", .string value)]
  | .not c => .ofMembers [("type", .string "not"), ("condition", c.toJson)]
  | .ref id => .ofMembers [("type", .string "ref"), ("refid", .string id)]
  | .join op left right =>
    .ofMembers [("type", .string op.word), ("left", left.toJson), ("right", right.toJson)]

end PackChoice.Condition
