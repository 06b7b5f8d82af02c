import PackChoice.Condition
import PackChoice.Expression
import PackChoice.Options

/-!
The rules of an installer: conditions under their ids, the expressions that decide whether packs
are on offer, and the requirements for installing at all. An id under which a condition is
registered can always be written in an expression.
-/

namespace PackChoice

/-- What must hold before anything may be installed. -/
structure Requirement where
  /-- The text of an expression. -/
  condition : String
  /-- What is shown when the expression does not hold. -/
  message : String
deriving DecidableEq, Repr

/-- A requirement together with its expression. -/
structure CheckedRequirement extends Requirement where
  expression : Expression
deriving DecidableEq

/-- The rules of an installer. -/
structure Rules where
  conditions : NameMap Condition := ∅
  /-- The expressions of packs, by their keys. -/
  packConditions : NameMap Expression := ∅
  requirements : List CheckedRequirement := []
  policy : UnknownPolicy := .fail
  ids_valid : ∀ id ∈ conditions.keys, Expression.isId id = true := by
    simp [NameMap.keys, EmptyCollection.emptyCollection, NameMap.empty]

namespace Rules

/-- The rules with one more condition. -/
def register (r : Rules) (id : String) (condition : Condition) : Except Error Rules :=
  if h : Expression.isId id = true then
    if r.conditions.contains id then .error (.duplicateCondition id)
    else
      .ok { r with
        conditions := r.conditions.insert id condition
        ids_valid := fun name hn => by
          rcases NameMap.mem_keys_insert.1 hn with rfl | hn
          · exact h
          · exact r.ids_valid name hn }
  else .error (.invalidConditionId id)

/-- The rules with the listed conditions registered from the first to the last. -/
def registerAll (r : Rules) (conditions : List (String × Condition)) : Except Error Rules :=
  conditions.foldlM (fun r e => r.register e.1 e.2) r

/-- The rules with an expression for the pack with a key, instead of any earlier one. -/
def setPackCondition (r : Rules) (key : String) (expression : Expression) : Rules :=
  { r with packConditions := r.packConditions.insert key expression }

/-- The rules with one more requirement. -/
def addRequirement (r : Rules) (requirement : Requirement) : Except Error Rules := do
  let expression ← Expression.parse requirement.condition
  return { r with requirements := r.requirements ++ [{ requirement with expression }] }

/-- The rules with the listed requirements added from the first to the last. -/
def addRequirements (r : Rules) (requirements : List Requirement) : Except Error Rules :=
  requirements.foldlM addRequirement r

end Rules

end PackChoice
