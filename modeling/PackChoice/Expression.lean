import PackChoice.Connective
import PackChoice.Error
import PackChoice.Text.Blank

/-!
Condition expressions. An expression is a chain of condition ids joined by `+` (and), `|` (or)
and `\` (exclusive or). The connectives bind equally strongly and group to the left, so that
`a|b+c` is `(a|b)+c`; a `!` in front of an id negates that id alone. `Expression.parse` reads the
text of an expression and `Expression.text` writes it.
-/

namespace PackChoice

/-- A condition expression. -/
inductive Expression where
  /-- The condition with an id, or its negation. -/
  | term (id : String) (negated : Bool)
  | join (op : Connective) (left right : Expression)
deriving DecidableEq, Repr

namespace Expression

/-- The ids of the conditions an expression refers to, from left to right. -/
def references : Expression → List String
  | .term id _ => [id]
  | .join _ left right => left.references ++ right.references

/-- The characters of an expression's text. -/
def render : Expression → List Char
  | .term id true => '!' :: id.toList
  | .term id false => id.toList
  | .join op left right => left.render ++ op.symbol :: right.render

/-- The text of an expression. Grouping is not written. -/
def text (e : Expression) : String := String.ofList e.render

/-- The term with the given characters as its id, which may neither be missing nor start with a
negation. -/
def namedTerm? (negated : Bool) : List Char → Option Expression
  | [] => none
  | '!' :: _ => none
  | cs => some (.term (String.ofList cs) negated)

/-- The term written in the piece of text between two connectives. -/
def term? (piece : List Char) : Option Expression :=
  match Text.trim piece with
  | '!' :: cs => namedTerm? true (Text.trim cs)
  | cs => namedTerm? false cs

/-- What stands to the left of a term: nothing, or an expression and a connective. -/
inductive Side where
  | start
  | after (left : Expression) (op : Connective)

/-- The expression that a term completes. -/
def Side.complete : Side → Expression → Expression
  | .start, e => e
  | .after left op, e => .join op left e

/-- Reads an expression from left to right; `piece` holds the characters since the last
connective, the last one first. -/
def parseFrom (side : Side) (piece : List Char) : List Char → Option Expression
  | [] => (term? piece.reverse).map side.complete
  | c :: cs =>
    match Connective.ofSymbol? c with
    | none => parseFrom side (c :: piece) cs
    | some op => do
      let e ← term? piece.reverse
      parseFrom (.after (side.complete e) op) [] cs

/-- The expression written in a text. -/
def parse? (text : String) : Option Expression := parseFrom .start [] text.toList

/-- The expression written in a text, or the error that names the text. -/
def parse (text : String) : Except Error Expression :=
  match parse? text with
  | some e => .ok e
  | none => .error (.missingConditionId text)

/-- Whether a condition with this id could be named in an expression: the id is not empty, has no
blanks around it, holds no connective and does not start with a negation. -/
def isId (id : String) : Bool :=
  let cs := id.toList
  !cs.isEmpty && Text.trim cs == cs && cs.head? != some '!'
    && !cs.any fun c => (Connective.ofSymbol? c).isSome

end Expression

end PackChoice
