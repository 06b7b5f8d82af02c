import PackChoice.Catalog.Dependencies
import PackChoice.Variables

/-!
Install groups, ready-made choices of packs. The groups on offer are those that some candidate is
in; each holds the candidates that are in it or in no group, and everything those need. Variables
may give a group a description and a place among the groups, and name the group offered first.
-/

namespace PackChoice

/-- A ready-made choice of packs. -/
structure InstallGroup where
  name : String
  description : String
  /-- Decides the place among the groups. -/
  sortKey : String
  /-- The total size of the packs. -/
  size : Size
  packNames : NameSet
deriving DecidableEq

/-- The bytes in a kibibyte. -/
def kibibyte : Nat := 1024

/-- The bytes in a mebibyte. -/
def mebibyte : Nat := 1024 * kibibyte

/-- The bytes in a gibibyte. -/
def gibibyte : Nat := 1024 * mebibyte

/-- A size for people: in bytes below a kibibyte, else in whole units, at most gibibytes. -/
def sizeText (bytes : Nat) : String :=
  if bytes < kibibyte then toString bytes ++ " bytes"
  else if bytes < mebibyte then toString (bytes / kibibyte) ++ " KB"
  else if bytes < gibibyte then toString (bytes / mebibyte) ++ " MB"
  else toString (bytes / gibibyte) ++ " GB"

namespace InstallGroup

/-- The variable that describes a group. -/
def descriptionVariable (group : String) : String := "InstallationGroupPanel.description." ++ group

/-- The variable that holds a group's sort key. -/
def sortKeyVariable (group : String) : String := "InstallationGroupPanel.sortKey." ++ group

/-- The variable that names the group offered first. -/
def defaultVariable : String := "InstallationGroupPanel.defaultGroup"

/-- The variable that holds the chosen group. -/
def chosenVariable : String := "INSTALL_GROUP"

/-- The group with a name, of the given packs. -/
def ofPacks (name : String) (packs : List Pack) (vars : Variables) : InstallGroup where
  name
  description := (vars.get? (descriptionVariable name)).getD (name ++ " installation")
  sortKey := (vars.get? (sortKeyVariable name)).getD name
  size := Pack.totalSize packs
  packNames := .ofList (Pack.names packs)

/-- Whether a group comes before another: by sort key, then by name. -/
def precedes (a b : InstallGroup) : Bool :=
  Text.precedes a.sortKey b.sortKey
    || (decide (a.sortKey = b.sortKey) && Text.precedes a.name b.name)

end InstallGroup

/-- Install groups by name. -/
abbrev InstallGroups := NameMap InstallGroup

namespace InstallGroups

/-- The names of the groups that some candidate is in. -/
def tags (candidates : List Pack) : NameSet :=
  .ofList (candidates.flatMap fun p => p.installGroups.toList)

/-- The candidates of a group and everything they need. -/
def members (c : Catalog) (candidates : List Pack) (group : String) : Except Error (List Pack) := do
  let seeds := c.indexesOf (Pack.names (packsInGroup group candidates))
  return c.packsAt (← c.closure seeds)

/-- The install groups on offer among the candidates. -/
def partition (c : Catalog) (candidates : List Pack) (vars : Variables) :
    Except Error InstallGroups := do
  let groups ← (tags candidates).toList.mapM fun name => do
    return (name, InstallGroup.ofPacks name (← members c candidates name) vars)
  return .ofList groups

/-- The groups in their order of display. -/
def sorted (groups : InstallGroups) : List InstallGroup :=
  groups.values.mergeSort fun a b => !b.precedes a

/-- The group offered first: the one a variable names, or else the first one displayed. -/
def default? (groups : InstallGroups) (vars : Variables) : Option InstallGroup :=
  match (vars.get? InstallGroup.defaultVariable).bind groups.get? with
  | some group => some group
  | none => groups.sorted.head?

end InstallGroups

end PackChoice
