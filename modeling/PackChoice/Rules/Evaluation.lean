import PackChoice.Rules
import PackChoice.Sift
import PackChoice.Walk

/-!
Evaluating conditions and expressions. A condition may refer to others, so evaluation keeps the
chain of ids it is in; an id that is met again in its own chain is an error. Both sides of a
connective are always evaluated, the left one first, so that whether evaluation fails does not
depend on the values. Evaluation ends because the ids of a chain are distinct and registered.
-/

namespace PackChoice.Rules

mutual

/-- The value of the condition under an id, met in a chain of ids. There is none when no condition
has the id and the policy allows that. -/
def evalReference (r : Rules) (vars : Variables) (chain : List String) (id : String) :
    Except Error (Option Bool) :=
  if id ∈ chain then .error (.cyclicCondition (chain ++ [id]))
  else
    match _h : r.conditions.get? id with
    | none =>
      match r.policy with
      | .fail => .error (.unknownCondition id)
      | .assumeFalse => .ok none
    | some condition =>
      match evalCondition r vars (chain ++ [id]) condition with
      | .error e => .error e
      | .ok value => .ok (some value)
termination_by (Graph.unmet r.conditions.keys chain, 0)
decreasing_by
  refine Prod.Lex.left _ _ (Graph.unmet_lt_of_mem (fun y hy => List.mem_append_left _ hy) ?_ ‹_›
    (List.mem_append_right _ List.mem_cons_self))
  rw [← NameMap.contains_eq_true_iff, NameMap.contains, _h]
  rfl

/-- The value of a condition in a chain of ids. A reference that has no value counts as false. -/
def evalCondition (r : Rules) (vars : Variables) (chain : List String) :
    Condition → Except Error Bool
  | .variable name value => .ok (decide (vars.get? name = some value))
  | .not c =>
    match evalCondition r vars chain c with
    | .error e => .error e
    | .ok value => .ok (!value)
  | .ref id =>
    match evalReference r vars chain id with
    | .error e => .error e
    | .ok value => .ok (value.getD false)
  | .join op left right =>
    match evalCondition r vars chain left with
    | .error e => .error e
    | .ok a =>
      match evalCondition r vars chain right with
      | .error e => .error e
      | .ok b => .ok (op.apply a b)
termination_by c => (Graph.unmet r.conditions.keys chain, sizeOf c)
decreasing_by all_goals exact Prod.Lex.right _ (by simp_wf <;> omega)

end

/-- The value of an expression. A term without a value counts as false, even when negated. -/
def evalExpression (r : Rules) (vars : Variables) : Expression → Except Error Bool
  | .term id negated =>
    match r.evalReference vars [] id with
    | .error e => .error e
    | .ok none => .ok false
    | .ok (some value) => .ok (value != negated)
  | .join op left right =>
    match r.evalExpression vars left with
    | .error e => .error e
    | .ok a =>
      match r.evalExpression vars right with
      | .error e => .error e
      | .ok b => .ok (op.apply a b)

/-- The value of the condition under an id; a `!` in front negates it. -/
def evaluate (r : Rules) (vars : Variables) (id : String) : Except Error Bool :=
  match id.toList with
  | '!' :: rest => r.evalExpression vars (.term (String.ofList rest) true)
  | _ => r.evalExpression vars (.term id false)

/-- The value of the expression written in a text. -/
def evaluateText (r : Rules) (vars : Variables) (text : String) : Except Error Bool := do
  r.evalExpression vars (← Expression.parse text)

/-- Whether the pack with a key is on offer. A pack without an expression is. -/
def canInstall (r : Rules) (vars : Variables) (key : String) : Except Error Bool :=
  match r.packConditions.get? key with
  | none => .ok true
  | some expression => r.evalExpression vars expression

/-- The requirements that do not hold, in order. -/
def unmetRequirements (r : Rules) (vars : Variables) : Except Error (List Requirement) := do
  let unmet ← sift (fun q : CheckedRequirement => do
    return !(← r.evalExpression vars q.expression)) r.requirements
  return unmet.map (·.toRequirement)

end PackChoice.Rules
