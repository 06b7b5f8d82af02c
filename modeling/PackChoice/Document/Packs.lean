import PackChoice.Document.Structure
import PackChoice.Pack

/-!
Packs in documents. Everything but the name may be left out. A pack that does not say whether it
starts out selected does so unless it is in an exclude group, and the text of its condition is
parsed after all members were read.
-/

namespace PackChoice.Pack

open Document

/-- A pack as a document gives it: what is left out or null is still told apart, and the
condition is a text. -/
structure Draft where
  pack : Pack := { name := "" }
  preselected : Option Bool := none
  condition : Option String := none

/-- How a pack is written. -/
def layout : Layout where
  name := "PackDefinition"
  members := [⟨"name", false⟩, ⟨"id", true⟩, ⟨"description", true⟩, ⟨"required", true⟩,
    ⟨"preselected", true⟩, ⟨"loose", true⟩, ⟨"exclude_group", true⟩, ⟨"install_groups", true⟩,
    ⟨"dependencies", true⟩, ⟨"condition", true⟩, ⟨"hidden", true⟩, ⟨"parent", true⟩,
    ⟨"size", true⟩]

/-- The draft with the value of a member. -/
def Draft.put (d : Draft) (name : String) (v : Json) : Reading Draft :=
  match name with
  | "name" => do return { d with pack := { d.pack with name := ← readString v } }
  | "id" => do return { d with pack := { d.pack with id := ← readOption readString v } }
  | "description" => do return { d with pack := { d.pack with description := ← readString v } }
  | "required" => do return { d with pack := { d.pack with required := ← readBool v } }
  | "preselected" => do return { d with preselected := ← readOption readBool v }
  | "loose" => do return { d with pack := { d.pack with loose := ← readBool v } }
  | "exclude_group" => do
    return { d with pack := { d.pack with excludeGroup := ← readOption readString v } }
  | "install_groups" => do
    return { d with pack := { d.pack with installGroups := .ofList (← readList readString v) } }
  | "dependencies" => do
    return { d with pack := { d.pack with dependencies := ← readList readString v } }
  | "condition" => do return { d with condition := ← readOption readString v }
  | "hidden" => do return { d with pack := { d.pack with hidden := ← readBool v } }
  | "parent" => do return { d with pack := { d.pack with parent := ← readOption readString v } }
  | "size" => do return { d with pack := { d.pack with size := ← readNat .size v } }
  | _ => .ok d

/-- The expression of a pack, if it has one. -/
def readCondition : Option String → Reading (Option Expression)
  | none => .ok none
  | some text =>
    match Expression.parse? text with
    | some e => .ok (some e)
    | none => .error (.badExpression text)

/-- The pack that a draft describes. -/
def Draft.finish (d : Draft) : Reading Pack := do
  let condition ← readCondition d.condition
  return { d.pack with
    preselected := d.preselected.getD d.pack.excludeGroup.isNone
    condition }

/-- The pack that a document describes. -/
def ofJson (v : Json) : Reading Pack := do
  (← layout.read Draft.put {} v).finish

/-- The document that describes a pack, with all its members. -/
def toJson (p : Pack) : Json :=
  .ofMembers
    [("name", .string p.name), ("id", .ofOption p.id), ("description", .string p.description),
      ("required", .bool p.required), ("preselected", .bool p.preselected),
      ("loose", .bool p.loose), ("exclude_group", .ofOption p.excludeGroup),
      ("install_groups", .ofStrings p.installGroups.toList),
      ("dependencies", .ofStrings p.dependencies),
      ("condition", .ofOption (p.condition.map Expression.text)), ("hidden", .bool p.hidden),
      ("parent", .ofOption p.parent), ("size", .ofNat p.size)]

end PackChoice.Pack
