import PackChoice.Catalog
import PackChoice.Definition
import PackChoice.InstallGroup
import PackChoice.Rules.Evaluation
import PackChoice.Rules.Validation

/-!
Everything known about an installer: its catalog, its rules, its options and the first values of
its variables. Making a context from a definition checks every reference between its parts.
-/

namespace PackChoice

/-- Everything known about an installer. -/
structure Context where
  catalog : Catalog
  rules : Rules
  options : Options
  /-- The values of the variables at the start. -/
  vars : Variables

namespace Context

/-- The rules with the expressions of some packs. -/
def gatePacks (rules : Rules) (packs : List Pack) : Rules :=
  packs.foldl (fun rules p =>
    match p.condition with
    | some expression => rules.setPackCondition p.key expression
    | none => rules) rules

/-- The context of a definition. Its variables may change the options. -/
def ofDefinition (definition : Definition) (options : Options) : Except Error Context := do
  let options := options.applyVariables definition.vars
  let rules : Rules := { policy := options.unknownPolicy }
  let rules ← rules.registerAll definition.conditions.toList
  let rules ← rules.addRequirements definition.requirements
  let catalog ← Catalog.ofPacks definition.packs
  let rules := gatePacks rules catalog.packs
  rules.validate
  return { catalog, rules, options, vars := definition.vars }

/-- Whether a pack is on offer. A required pack always is. -/
def offers (c : Context) (vars : Variables) (p : Pack) : Except Error Bool :=
  if p.required then .ok true else c.rules.canInstall vars p.key

/-- The packs on offer, in the order of the catalog. -/
def availablePacks (c : Context) (vars : Variables) : Except Error (List Pack) :=
  sift (c.offers vars) c.catalog.packs

/-- The install groups among the packs on offer. -/
def installGroups (c : Context) (vars : Variables) : Except Error InstallGroups := do
  InstallGroups.partition c.catalog (← c.availablePacks vars) vars

end Context

end PackChoice
