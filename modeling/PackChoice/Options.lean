import PackChoice.Variables

/-!
How a session behaves: what becomes of ids that name no condition, and whether choosing an install
group selects all of its packs. The second may be set by a variable.
-/

namespace PackChoice

/-- What to do with an id that names no condition. -/
inductive UnknownPolicy where
  /-- It is an error. -/
  | fail
  /-- The condition is false, and so is its negation in an expression. -/
  | assumeFalse
deriving DecidableEq, Repr, Inhabited

/-- How a session behaves. -/
structure Options where
  unknownPolicy : UnknownPolicy := .fail
  /-- Whether choosing an install group selects all of its packs, or only the initial ones. -/
  selectAllInGroup : Bool := true
deriving DecidableEq, Repr, Inhabited

namespace Options

/-- The variable that, set to `no`, keeps the choice of an install group from selecting all. -/
def selectPacksVariable : String := "InstallationGroupPanel.selectPacks"

/-- The options with what the variables say about them. -/
def applyVariables (options : Options) (vars : Variables) : Options :=
  match vars.get? selectPacksVariable with
  | some value => { options with selectAllInGroup := value != "no" }
  | none => options

end Options

end PackChoice
