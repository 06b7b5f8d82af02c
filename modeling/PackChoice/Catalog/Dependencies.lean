import PackChoice.Catalog
import PackChoice.Walk

/-!
Dependencies between the packs of a catalog, by position. The closure of some packs lists them
and everything they need, each pack after its dependencies; a circle of dependencies is an error
that names the packs of the circle. The dependents of a pack are the packs that need it.
-/

namespace PackChoice.Catalog

/-- Positions behind the end of the catalog count modulo this number. -/
def positionCycle : Nat := 4294967296

/-- The pack that a position stands for: the one there, and behind the end of the catalog the one
at the remainder by `positionCycle`, if there is one. -/
def packAt? (c : Catalog) (i : Nat) : Option Pack :=
  match c.packs[i]? with
  | some p => some p
  | none => c.packs[i % positionCycle]?

/-- The positions of the dependencies of the pack that a position stands for, in the order
declared. A position that stands for no pack has none. -/
def dependenciesOf (c : Catalog) (i : Nat) : List Nat :=
  match c.packAt? i with
  | some p => c.indexesOf p.dependencies
  | none => []

/-- The name of the pack at a position. -/
def nameAt (c : Catalog) (i : Nat) : String := ((c.packs[i]?).map Pack.name).getD ""

/-- The graph of dependencies. Of the positions behind the end of the catalog it holds those among
`seeds`; no pack depends on one of these. -/
def dependencyGraph (c : Catalog) (seeds : List Nat) : Graph Nat Error where
  nodes := List.range c.packs.length ++ seeds
  next i := .ok (c.dependenciesOf i)
  circle is := .cyclicDependency (is.map c.nameAt)

/-- The packs at the positions `seeds` and all they need, in an order for installation. -/
def closure (c : Catalog) (seeds : List Nat) : Except Error (List Nat) :=
  (c.dependencyGraph seeds).finishOrder seeds

/-- The positions of the packs that list a pack among their dependencies. -/
def directDependents (c : Catalog) (i : Nat) : List Nat :=
  (List.range c.packs.length).filter fun j => i ∈ c.dependenciesOf j

/-- The positions of the other packs that need the pack at a position, in order. -/
def dependentsOf (c : Catalog) (start : Nat) : List Nat :=
  let others := (List.range c.packs.length).filter (· ≠ start)
  let found := spread others c.directDependents [] [start]
  others.filter (· ∈ found)

/-- The other packs that need the pack with a name, in the order of the catalog. -/
def dependents (c : Catalog) (name : String) : Except Error (List Pack) :=
  match c.indexOf? name with
  | none => .error (.unknownPack name none)
  | some i => .ok (c.packsAt (c.dependentsOf i))

end PackChoice.Catalog
