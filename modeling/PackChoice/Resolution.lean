import PackChoice.Catalog.Dependencies

/-!
Resolving a request: the required candidates and the requested packs, with everything they need,
in an order for installation. A request is refused when it names a pack that is unknown or not a
candidate, when packs depend on each other in a circle, and when two packs of one exclude group
would come together; faults are looked for in this order.
-/

namespace PackChoice

/-- The names of the packs of an exclude group. -/
def excludeGroupMembers (packs : List Pack) (group : String) : List String :=
  Pack.names (packs.filter (·.excludeGroup = some group))

/-- The exclude groups of some packs. -/
def excludeGroups (packs : List Pack) : NameSet := .ofList (packs.filterMap Pack.excludeGroup)

/-- Refuses packs of which two share an exclude group, naming the first such group. -/
def checkExclusions (packs : List Pack) : Except Error Unit :=
  match (excludeGroups packs).toList.find?
      fun group => decide (1 < (excludeGroupMembers packs group).length) with
  | some group => .error (.exclusionViolated group (excludeGroupMembers packs group))
  | none => .ok ()

namespace Catalog

/-- The position of a requested pack, which must be a candidate. -/
def requestedIndex (c : Catalog) (candidates : List Pack) (name : String) : Except Error Nat :=
  match c.indexOf? name with
  | none => .error (.unknownPack name none)
  | some i =>
    if i ∈ c.indexesOf (Pack.names candidates) then .ok i else .error (.packUnavailable name)

/-- The positions of the required candidates. -/
def requiredIndexes (c : Catalog) (candidates : List Pack) : List Nat :=
  c.indexesOf (Pack.names (candidates.filter (·.required)))

/-- The packs to install for a request, in order. -/
def resolve (c : Catalog) (candidates : List Pack) (requested : List String) :
    Except Error (List Pack) := do
  let indexes ← requested.mapM (c.requestedIndex candidates)
  let closed ← c.closure (c.requiredIndexes candidates ++ indexes)
  let packs := c.packsAt closed
  checkExclusions packs
  return packs

end Catalog

end PackChoice
