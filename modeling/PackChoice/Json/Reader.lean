import PackChoice.Json.Basic
import PackChoice.Json.Token

/-!
Reading a document's value from its tokens. Every step leaves a shorter list of tokens, which is
why reading ends. Arrays and objects may be nested up to a given depth.
-/

namespace PackChoice.Json

/-- What a step leaves of the tokens `ts`. -/
abbrev Rest (ts : List Token) : Type := { rest : List Token // rest.length < ts.length }

theorem lt_cons_cons {t u : Token} {rest : List Token} :
    rest.length < (t :: u :: rest).length :=
  Nat.lt_succ_of_lt (Nat.lt_succ_self _)

theorem lt_of_cons {t : Token} {rest : List Token} {n : Nat} (h : (t :: rest).length < n) :
    rest.length < n :=
  Nat.lt_of_succ_lt h

theorem lt_cons_cons_of_lt {t u : Token} {ts : List Token} {n : Nat} (h : n < ts.length) :
    n < (t :: u :: ts).length :=
  Nat.lt_trans h lt_cons_cons

mutual

/-- The value at the start of the tokens, with arrays and objects nested at most `depth` deep. -/
def readValue (depth : Nat) (ts : List Token) : Option (Json × Rest ts) :=
  match ts with
  | .null :: rest => some (.null, ⟨rest, Nat.lt_succ_self _⟩)
  | .bool b :: rest => some (.bool b, ⟨rest, Nat.lt_succ_self _⟩)
  | .number t :: rest => t.value?.map fun n => (.number n, ⟨rest, Nat.lt_succ_self _⟩)
  | .string parts :: rest =>
    (StringPart.value? parts).map fun s => (.string s, ⟨rest, Nat.lt_succ_self _⟩)
  | .openArray :: rest =>
    if depth = 0 then none
    else match rest with
      | .closeArray :: rest => some (.array [], ⟨rest, lt_cons_cons⟩)
      | rest =>
        match readItems (depth - 1) rest with
        | none => none
        | some (items, ⟨rest', h⟩) => some (.array items, ⟨rest', Nat.lt_succ_of_lt h⟩)
  | .openObject :: rest =>
    if depth = 0 then none
    else match rest with
      | .closeObject :: rest => some (ofMembers [], ⟨rest, lt_cons_cons⟩)
      | rest =>
        match readMembers (depth - 1) rest with
        | none => none
        | some (members, ⟨rest', h⟩) => some (ofMembers members, ⟨rest', Nat.lt_succ_of_lt h⟩)
  | _ => none
termination_by (ts.length, 0)
decreasing_by all_goals exact Prod.Lex.left _ _ (Nat.lt_succ_self _)

/-- The items of an array up to its end. -/
def readItems (depth : Nat) (ts : List Token) : Option (List Json × Rest ts) :=
  match readValue depth ts with
  | none => none
  | some (item, ⟨.comma :: rest, h⟩) =>
    match readItems depth rest with
    | none => none
    | some (items, ⟨rest', h'⟩) => some (item :: items, ⟨rest', Nat.lt_trans h' (lt_of_cons h)⟩)
  | some (item, ⟨.closeArray :: rest, h⟩) => some ([item], ⟨rest, lt_of_cons h⟩)
  | some _ => none
termination_by (ts.length, 1)
decreasing_by
  · exact Prod.Lex.right _ (by decide)
  · exact Prod.Lex.left _ _ (lt_of_cons h)

/-- The members of an object up to its end. -/
def readMembers (depth : Nat) (ts : List Token) : Option (List (String × Json) × Rest ts) :=
  match ts with
  | .string parts :: .colon :: rest =>
    match StringPart.value? parts with
    | none => none
    | some name =>
      match readValue depth rest with
      | none => none
      | some (value, ⟨.comma :: rest', h⟩) =>
        match readMembers depth rest' with
        | none => none
        | some (members, ⟨rest'', h'⟩) =>
          some ((name, value) :: members,
            ⟨rest'', lt_cons_cons_of_lt (Nat.lt_trans h' (lt_of_cons h))⟩)
      | some (value, ⟨.closeObject :: rest', h⟩) =>
        some ([(name, value)], ⟨rest', lt_cons_cons_of_lt (lt_of_cons h)⟩)
      | some _ => none
  | _ => none
termination_by (ts.length, 1)
decreasing_by
  · exact Prod.Lex.left _ _ lt_cons_cons
  · exact Prod.Lex.left _ _ (lt_cons_cons_of_lt (lt_of_cons h))

end

/-- The value of a whole text, with arrays and objects nested at most `depth` deep. -/
def read? (depth : Nat) (text : String) : Option Json :=
  match readValue depth (tokens text.toList) with
  | some (value, ⟨[], _⟩) => some value
  | _ => none

/-- How deep arrays and objects of a document may be nested. -/
def maxDepth : Nat := 127

/-- The value of a document's text. -/
def ofText? (text : String) : Option Json := read? maxDepth text

end PackChoice.Json
