import PackChoice.Document.Conditions

/-!
The schema of definitions. It describes documents independently of how they are read: it knows
only the members that a definition may have, asks names to be non-empty, takes a number without a
fractional part for an integer, and does not admit the forms that write a structure as an array.
-/

namespace PackChoice.Document.Schema

/-- Any string. -/
def isString : Json → Bool
  | .string _ => true
  | _ => false

/-- A string with at least one character. -/
def isFilled : Json → Bool
  | .string s => s != ""
  | _ => false

/-- A string with at least one character, or null. -/
def isFilledOrNull : Json → Bool
  | .null => true
  | v => isFilled v

/-- A truth value. -/
def isBool : Json → Bool
  | .bool _ => true
  | _ => false

/-- A number without a fractional part that is not negative. -/
def isCount : Json → Bool
  | .number n => n.isWhole && n.isNonnegative
  | _ => false

/-- An array whose items all pass a test. -/
def isArrayOf (test : Json → Bool) : Json → Bool
  | .array items => items.all test
  | _ => false

/-- An object whose members all pass a test. -/
def isMapOf (test : Json → Bool) : Json → Bool
  | .object members => members.all fun m => test m.2
  | _ => false

/-- An array of different strings with at least one character each. -/
def isFilledSet : Json → Bool
  | .array items =>
    items.all isFilled && decide (items.filterMap fun v =>
      match v with
      | .string s => some s
      | _ => none).Nodup
  | _ => false

/-- An object that has all of the required members and no members but those listed, each of which
passes its test. -/
def isObject (required : List String) (tests : List (String × (Json → Bool))) : Json → Bool
  | .object members =>
    (required.all fun name => members.any fun m => m.1 = name)
      && members.all fun m =>
        match tests.find? (fun t => t.1 = m.1) with
        | some t => t.2 m.2
        | none => false
  | _ => false

/-- A pack. -/
def isPack : Json → Bool :=
  isObject ["name"]
    [("name", isFilled), ("id", isFilledOrNull), ("description", isString), ("required", isBool),
      ("preselected", isBool), ("loose", isBool), ("exclude_group", isFilledOrNull),
      ("install_groups", isFilledSet), ("dependencies", isArrayOf isFilled),
      ("condition", isFilledOrNull), ("hidden", isBool), ("parent", isFilledOrNull),
      ("size", isCount)]

/-- A requirement. -/
def isRequirement : Json → Bool :=
  isObject ["condition", "message"] [("condition", isFilled), ("message", isString)]

/-- An object with exactly the listed members, beside `type`, all of which pass. -/
def hasExactly (names : List String) (members : List (String × Bool)) : Bool :=
  (names.all fun name => members.any fun m => m.1 = name)
    && members.all fun m => decide (m.1 = "type") || (names.contains m.1 && m.2)

mutual

/-- A condition. -/
def isCondition : Json → Bool
  | .object members =>
    match members.find? (fun m => m.1 = "type") with
    | some (_, .string word) =>
      match Condition.Kind.ofWord? word with
      | some .variable => hasExactly ["name", "value"] (members.map fun m => (m.1, isString m.2))
      | some .ref => hasExactly ["refid"] (members.map fun m => (m.1, isFilled m.2))
      | some .not => hasExactly ["condition"] (memberConditions members)
      | some (.join _) => hasExactly ["left", "right"] (memberConditions members)
      | none => false
    | _ => false
  | _ => false

/-- Which members of an object are conditions. -/
def memberConditions : List (String × Json) → List (String × Bool)
  | [] => []
  | (name, value) :: members => (name, isCondition value) :: memberConditions members

end

/-- A definition. -/
def isDefinition : Json → Bool :=
  isObject ["packs"]
    [("packs", isArrayOf isPack), ("conditions", isMapOf isCondition),
      ("requirements", isArrayOf isRequirement), ("variables", isMapOf isString)]

end PackChoice.Document.Schema
