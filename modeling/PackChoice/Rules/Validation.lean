import PackChoice.Rules
import PackChoice.Walk

/-!
Checking all references of the rules without evaluating anything. Circles among the conditions
are looked for first, from each registered id in turn; then the ids in the expressions of packs
and of requirements.
-/

namespace PackChoice.Rules

/-- Refuses an id that names no condition, unless the policy allows it. -/
def checkKnown (r : Rules) (id : String) : Except Error Unit :=
  if r.conditions.contains id then .ok ()
  else
    match r.policy with
    | .fail => .error (.unknownCondition id)
    | .assumeFalse => .ok ()

/-- The graph of the conditions' references. -/
def referenceGraph (r : Rules) : Graph String Error where
  nodes := r.conditions.keys
  next id :=
    match r.conditions.get? id with
    | some condition => .ok condition.references
    | none =>
      match r.checkKnown id with
      | .error e => .error e
      | .ok () => .ok []
  circle ids := .cyclicCondition ids

/-- The given expressions of packs and after them those of the requirements. -/
def expressionsWith (r : Rules) (ofPacks : List Expression) : List Expression :=
  ofPacks ++ r.requirements.map (·.expression)

/-- The expressions of the packs, in the order of their keys, and of the requirements. -/
def expressions (r : Rules) : List Expression := r.expressionsWith r.packConditions.values

/-- Refuses rules that refer to conditions in a circle or, unless the policy allows it, to ids
that name no condition. The expressions of the packs are looked at in the given order. -/
def validateIn (r : Rules) (ofPacks : List Expression) : Except Error Unit :=
  match r.referenceGraph.finishOrder r.conditions.keys with
  | .error e => .error e
  | .ok _ => ((r.expressionsWith ofPacks).flatMap Expression.references).forM r.checkKnown

/-- Checks the rules, the packs in the order of their keys. -/
def validate (r : Rules) : Except Error Unit := r.validateIn r.packConditions.values

end PackChoice.Rules
