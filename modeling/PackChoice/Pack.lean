import PackChoice.Expression
import PackChoice.NameSet

/-!
Packs, the single units that can be installed. A catalog knows a pack by its name; the rules know
it by its key, which is its id or, where it has none, its name.
-/

namespace PackChoice

/-- A number of bytes. It is held in 64 bits, so that adding sizes gives the sum modulo `2 ^ 64`. -/
abbrev Size : Type := UInt64

/-- A size as a number. -/
instance : CoeOut Size Nat := ⟨UInt64.toNat⟩

/-- A number as a size, modulo `2 ^ 64`. -/
instance : CoeTail Nat Size := ⟨UInt64.ofNat⟩

/-- One unit that can be installed. -/
structure Pack where
  name : String
  id : Option String := none
  description : String := ""
  /-- Always part of a selection. -/
  required : Bool := false
  /-- Part of a selection at the start. -/
  preselected : Bool := true
  /-- Stored outside the bundle of the other packs. -/
  loose : Bool := false
  /-- Of the packs in one exclude group at most one may be installed. -/
  excludeGroup : Option String := none
  /-- A pack in no install group belongs to all of them. -/
  installGroups : NameSet := ∅
  /-- Names of the packs that must be installed together with this one. -/
  dependencies : List String := []
  /-- Whether the pack is on offer. -/
  condition : Option Expression := none
  /-- Not shown, though a dependency may still bring it in. -/
  hidden : Bool := false
  /-- The pack below which this one is shown; not a dependency. -/
  parent : Option String := none
  size : Size := 0
deriving DecidableEq

namespace Pack

/-- The key under which the rules know the pack. -/
def key (p : Pack) : String := p.id.getD p.name

/-- Whether the pack belongs to an install group. -/
def isInInstallGroup (p : Pack) (group : String) : Bool :=
  p.installGroups.isEmpty || p.installGroups.contains group

/-- Whether the pack starts out selected. -/
def isInitial (p : Pack) : Bool := p.preselected || p.required

/-- The pack as a member of an exclude group, where packs start out unselected. -/
def inExcludeGroup (p : Pack) (group : String) : Pack :=
  { p with excludeGroup := some group, preselected := false }

/-- The pack with one more install group. -/
def inInstallGroup (p : Pack) (group : String) : Pack :=
  { p with installGroups := p.installGroups.insert group }

/-- The pack with further dependencies. -/
def dependingOn (p : Pack) (names : List String) : Pack :=
  { p with dependencies := p.dependencies ++ names }

/-- Whether a pack comes before another in the order of names. -/
def precedes (p q : Pack) : Bool := Text.precedes p.name q.name

/-- The packs in the order of their names, those with one name in the order given. -/
def sortByName (packs : List Pack) : List Pack := packs.mergeSort fun p q => !q.precedes p

/-- The names of a list of packs. -/
def names (packs : List Pack) : List String := packs.map name

/-- The total size of packs, modulo `2 ^ 64`. -/
def totalSize (packs : List Pack) : Size := packs.foldr (fun p total => p.size + total) 0

end Pack

end PackChoice
