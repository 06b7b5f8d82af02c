import PackChoice.Document.Conditions
import PackChoice.Document.Packs
import PackChoice.Document.Settings
import PackChoice.Rules

/-!
Definitions of installers: the packs, the named conditions, the requirements and the first values
of the variables. A definition is read from a document and can be written as one; whether its
parts fit together is checked later.
-/

namespace PackChoice

open Document

namespace Requirement

/-- How a requirement is written. -/
def layout : Layout where
  name := "InstallerRequirement"
  members := [⟨"condition", false⟩, ⟨"message", false⟩]

/-- The requirement with the value of a member. -/
def put (q : Requirement) (name : String) (v : Json) : Reading Requirement :=
  match name with
  | "condition" => do return { q with condition := ← readString v }
  | "message" => do return { q with message := ← readString v }
  | _ => .ok q

/-- The requirement that a document describes. -/
def ofJson : Json → Reading Requirement := layout.read put ⟨"", ""⟩

/-- The document that describes a requirement. -/
def toJson (q : Requirement) : Json :=
  .ofMembers [("condition", .string q.condition), ("message", .string q.message)]

end Requirement

/-- Everything an installer is made from. -/
structure Definition where
  packs : List Pack := []
  conditions : NameMap Condition := ∅
  requirements : List Requirement := []
  /-- The values of the variables at the start. -/
  vars : Variables := ∅
deriving DecidableEq

namespace Definition

/-- How a definition is written. -/
def layout : Layout where
  name := "InstallerDefinition"
  members := [⟨"packs", false⟩, ⟨"conditions", true⟩, ⟨"requirements", true⟩, ⟨"variables", true⟩]

/-- The definition with the value of a member. -/
def put (d : Definition) (name : String) (v : Json) : Reading Definition :=
  match name with
  | "packs" => do return { d with packs := ← readList Pack.ofJson v }
  | "conditions" => do return { d with conditions := ← readMap (Condition.ofJson false) v }
  | "requirements" => do return { d with requirements := ← readList Requirement.ofJson v }
  | "variables" => do return { d with vars := ← Variables.ofJson v }
  | _ => .ok d

/-- The definition that a document describes. -/
def ofJson : Json → Reading Definition := layout.read put {}

/-- The document that describes a definition. -/
def toJson (d : Definition) : Json :=
  .ofMembers
    [("packs", .array (d.packs.map Pack.toJson)),
      ("conditions", .object (d.conditions.toList.map fun e => (e.1, e.2.toJson))),
      ("requirements", .array (d.requirements.map Requirement.toJson)),
      ("variables", d.vars.toJson)]

end Definition

end PackChoice
