import PackChoice.Definition
import PackChoice.Document.Schema
import PackChoice.Json.Reader

/-!
Reading typed values from the texts of documents. A text that is not a document is reported as
such, then a document that the schema does not admit, where the schema is asked for, and last a
document of the wrong shape.
-/

namespace PackChoice.Document

/-- The document that a text holds. -/
def parse (text : String) : Except Error Json :=
  match Json.ofText? text with
  | some v => .ok v
  | none => .error .malformedDocument

/-- A value read from a document. -/
def convert {α : Type} (read : Json → Reading α) (v : Json) : Except Error α :=
  match read v with
  | .ok a => .ok a
  | .error e => .error (.misshapenDocument e)

/-- A value read from the text of a document. -/
def ofText {α : Type} (read : Json → Reading α) (text : String) : Except Error α := do
  convert read (← parse text)

end PackChoice.Document

namespace PackChoice.Definition

open Document

/-- The definition that a document describes, after a check against the schema if asked for. -/
def ofDocument (validate : Bool) (v : Json) : Except Error Definition :=
  if validate && !Schema.isDefinition v then .error .schemaViolated else convert ofJson v

/-- The definition in a text, after a check against the schema if asked for. -/
def ofText (validate : Bool) (text : String) : Except Error Definition := do
  ofDocument validate (← parse text)

end PackChoice.Definition
