import PackChoice.Document.ShapeError

/-!
Everything that can go wrong, by cause, and the text shown for each cause.
-/

namespace PackChoice

/-- Why an operation was refused. -/
inductive Error where
  /-- A text that is not a document. -/
  | malformedDocument
  /-- A document of the wrong shape. -/
  | misshapenDocument (cause : ShapeError)
  /-- A document that the definition schema does not admit. -/
  | schemaViolated
  /-- An expression with a term that names no condition. -/
  | missingConditionId (expression : String)
  /-- A condition id that no expression could name. -/
  | invalidConditionId (id : String)
  /-- A text that does not assign a value to a variable. -/
  | malformedAssignment (text : String)
  /-- Two packs share a name or an id. -/
  | duplicatePack (name : String)
  /-- A name that no pack has, asked for or referred to by another pack. -/
  | unknownPack (name : String) (referencedBy : Option String)
  | duplicateCondition (id : String)
  | unknownCondition (id : String)
  /-- Conditions that refer to each other in a circle; the last is one of those before. -/
  | cyclicCondition (ids : List String)
  /-- Packs that depend on each other in a circle; the last is the first again. -/
  | cyclicDependency (packs : List String)
  /-- Packs of one exclude group that would be installed together. -/
  | exclusionViolated (group : String) (packs : List String)
  | packUnavailable (name : String)
  | packRequired (name : String)
  /-- A pack that selected packs depend on. -/
  | packNeeded (name : String) (dependents : List String)
  | unknownInstallGroup (name : String)
  /-- A pack that a validator refused. -/
  | packRejected (name : String)

/-- The text shown for an error. -/
def Error.message : Error → String
  | .malformedDocument => "JSON error: the text is not a document"
  | .misshapenDocument cause => "JSON error: " ++ cause.message
  | .schemaViolated => "validation error: the document does not match the schema"
  | .missingConditionId expression =>
    "parsing error: missing condition id in expression \"" ++ expression ++ "\""
  | .invalidConditionId id => "parsing error: \"" ++ id ++ "\" is not a valid condition id"
  | .malformedAssignment text => "parsing error: expected NAME=VALUE, got \"" ++ text ++ "\""
  | .duplicatePack name => "pack `" ++ name ++ "` is defined more than once"
  | .unknownPack name none => "unknown pack `" ++ name ++ "`"
  | .unknownPack name (some owner) =>
    "unknown pack `" ++ name ++ "` referenced by `" ++ owner ++ "`"
  | .duplicateCondition id => "condition `" ++ id ++ "` is defined more than once"
  | .unknownCondition id => "unknown condition `" ++ id ++ "`"
  | .cyclicCondition ids => "cyclic condition reference: " ++ " -> ".intercalate ids
  | .cyclicDependency packs => "cyclic dependency: " ++ " -> ".intercalate packs
  | .exclusionViolated group packs =>
    "packs " ++ Text.quotedList packs ++ " are in the same exclude group `" ++ group ++ "`"
  | .packUnavailable name => "pack `" ++ name ++ "` is not available for installation"
  | .packRequired name => "pack `" ++ name ++ "` is required and can't be deselected"
  | .packNeeded name dependents =>
    "pack `" ++ name ++ "` is needed by " ++ Text.quotedList dependents
  | .unknownInstallGroup name => "unknown install group `" ++ name ++ "`"
  | .packRejected name => "validator rejected pack `" ++ name ++ "`"

end PackChoice
