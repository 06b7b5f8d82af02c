/-!
The connectives that join two conditions: their truth table, the character they have in an
expression and the word they have in a document.
-/

namespace PackChoice

/-- How two conditions are joined. -/
inductive Connective where
  | and
  | or
  | xor
deriving DecidableEq, Repr

namespace Connective

/-- The truth table. -/
def apply : Connective → Bool → Bool → Bool
  | .and, a, b => a && b
  | .or, a, b => a || b
  | .xor, a, b => a ^^ b

/-- The character between two conditions of an expression. -/
def symbol : Connective → Char
  | .and => '+'
  | .or => '|'
  | .xor => '\\'

/-- The connective that a character stands for. -/
def ofSymbol? : Char → Option Connective
  | '+' => some .and
  | '|' => some .or
  | '\\' => some .xor
  | _ => none

/-- The word in a document. -/
def word : Connective → String
  | .and => "and"
  | .or => "or"
  | .xor => "xor"

/-- The connective that a word stands for. -/
def ofWord? : String → Option Connective
  | "and" => some .and
  | "or" => some .or
  | "xor" => some .xor
  | _ => none

@[simp] theorem ofSymbol?_symbol (op : Connective) : ofSymbol? op.symbol = some op := by
  cases op <;> rfl

theorem ofSymbol?_eq_some_iff {c : Char} {op : Connective} :
    ofSymbol? c = some op ↔ c = op.symbol := by
  constructor
  · intro h
    unfold ofSymbol? at h
    split at h <;> cases h <;> rfl
  · rintro rfl
    exact ofSymbol?_symbol op

@[simp] theorem ofWord?_word (op : Connective) : ofWord? op.word = some op := by
  cases op <;> rfl

end Connective

end PackChoice
