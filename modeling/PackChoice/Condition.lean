import PackChoice.Connective

/-!
Conditions over the installer's variables. A condition is registered under an id, and other
conditions may refer to it by that id.
-/

namespace PackChoice

/-- A condition. -/
inductive Condition where
  /-- The variable has exactly this value. -/
  | variable (name value : String)
  | not (condition : Condition)
  /-- The condition registered under an id. -/
  | ref (id : String)
  | join (op : Connective) (left right : Condition)
deriving DecidableEq, Repr, Inhabited

namespace Condition

/-- The ids that a condition refers to, from left to right. -/
def references : Condition → List String
  | .variable _ _ => []
  | .not c => c.references
  | .ref id => [id]
  | .join _ left right => left.references ++ right.references

end Condition

end PackChoice
