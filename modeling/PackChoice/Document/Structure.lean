import PackChoice.Document.ShapeError
import PackChoice.Json.Basic
import PackChoice.NameMap

/-!
Reading typed values out of documents. A structure is written as an object, whose members are
visited in the order of their names, or as an array of its members in the order declared. The
first fault met is reported; missing members are looked for only after all present ones were
read, and members that the structure does not have are ignored.
-/

namespace PackChoice

/-- What a document is, for an error text. -/
def Json.found : Json → Found
  | .null => .null
  | .bool b => .bool b
  | .number n => .number n
  | .string s => .string s
  | .array _ => .sequence
  | .object _ => .map

namespace Document

/-- A value read from a document. -/
abbrev Reading (α : Type) : Type := Except ShapeError α

/-- A string. -/
def readString : Json → Reading String
  | .string s => .ok s
  | v => .error (.wrongType v.found .string)

/-- A truth value. -/
def readBool : Json → Reading Bool
  | .bool b => .ok b
  | v => .error (.wrongType v.found .boolean)

/-- A natural number, written as a plain integer. -/
def readNat (expected : Expected) : Json → Reading Nat
  | .number (.integer n) => if 0 ≤ n then .ok n.toNat else .error (.outOfRange n expected)
  | v => .error (.wrongType v.found expected)

/-- A value that may be null. -/
def readOption {α : Type} (read : Json → Reading α) : Json → Reading (Option α)
  | .null => .ok none
  | v => (read v).map some

/-- The items of an array, from the first to the last. -/
def readList {α : Type} (read : Json → Reading α) : Json → Reading (List α)
  | .array items => items.mapM read
  | v => .error (.wrongType v.found .sequence)

/-- The members of an object, in the order of their names. -/
def readMap {α : Type} (read : Json → Reading α) : Json → Reading (NameMap α)
  | .object members => do
    return .ofList (← members.mapM fun m => do return (m.1, ← read m.2))
  | v => .error (.wrongType v.found .map)

/-- A member of a structure. -/
structure Member where
  name : String
  /-- Whether the member may be left out. -/
  optional : Bool

/-- How a structure is written. -/
structure Layout where
  /-- The name of the structure in error texts. -/
  name : String
  /-- The members in the order declared. -/
  members : List Member

namespace Layout

/-- The member at or behind a position that may not be left out, with its position. -/
def requiredFrom? (layout : Layout) (start : Nat) : Option Nat :=
  (List.range layout.members.length).find? fun i =>
    decide (start ≤ i) && ((layout.members[i]?).map fun m => !m.optional).getD false

/-- The member that may not be left out and is not among the given names. -/
def missing? (layout : Layout) (given : List String) : Option Member :=
  layout.members.find? fun m => !m.optional && !given.contains m.name

/-- Reads a structure. `put` stores the value of a member and leaves the structure as it is for a
name that is none of its members. -/
def read {σ : Type} (layout : Layout) (put : σ → String → Json → Reading σ) (start : σ) :
    Json → Reading σ
  | .object members => do
    let filled ← members.foldlM (fun s m => put s m.1 m.2) start
    match layout.missing? (members.map Prod.fst) with
    | some m => .error (.missingMember m.name)
    | none => .ok filled
  | .array items => do
    let names := layout.members.map (·.name)
    let filled ← (names.zip items).foldlM (fun s m => put s m.1 m.2) start
    match layout.requiredFrom? items.length with
    | some i => .error (.tooFewMembers i ("struct " ++ layout.name) layout.members.length)
    | none =>
      if layout.members.length < items.length then .error (.tooManyMembers items.length)
      else .ok filled
  | v => .error (.wrongType v.found (.structure layout.name))

end Layout

end Document

end PackChoice
