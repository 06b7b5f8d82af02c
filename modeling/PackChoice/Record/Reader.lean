import PackChoice.Document.Structure
import PackChoice.Json.Reader
import PackChoice.Record

/-!
Reading records. A record is read from its text in one pass: the members are visited in the order
of the text, a member that repeats is refused, and the first fault ends the reading, whether it
is one of shape or one of the text. The values of members that a record does not have are skipped.
-/

namespace PackChoice.Record

open Document Json

/-- Why a text was not read. -/
inductive Fault where
  /-- The text is not a document. -/
  | malformed
  /-- The document has the wrong shape. -/
  | misshapen (cause : ShapeError)

mutual

/-- The tokens behind the value at the start. -/
def skipValue (ts : List Token) : Option (Rest ts) :=
  match ts with
  | .null :: rest => some ⟨rest, Nat.lt_succ_self _⟩
  | .bool _ :: rest => some ⟨rest, Nat.lt_succ_self _⟩
  | .number _ :: rest => some ⟨rest, Nat.lt_succ_self _⟩
  | .string _ :: rest => some ⟨rest, Nat.lt_succ_self _⟩
  | .openArray :: .closeArray :: rest => some ⟨rest, lt_cons_cons⟩
  | .openArray :: rest => (skipItems rest).map fun ⟨rest', h⟩ => ⟨rest', Nat.lt_succ_of_lt h⟩
  | .openObject :: .closeObject :: rest => some ⟨rest, lt_cons_cons⟩
  | .openObject :: rest => (skipMembers rest).map fun ⟨rest', h⟩ => ⟨rest', Nat.lt_succ_of_lt h⟩
  | _ => none
termination_by (ts.length, 0)

/-- The tokens behind the items of an array and its end. -/
def skipItems (ts : List Token) : Option (Rest ts) :=
  match skipValue ts with
  | none => none
  | some ⟨.comma :: rest, h⟩ =>
    (skipItems rest).map fun ⟨rest', h'⟩ => ⟨rest', Nat.lt_trans h' (lt_of_cons h)⟩
  | some ⟨.closeArray :: rest, h⟩ => some ⟨rest, lt_of_cons h⟩
  | some _ => none
termination_by (ts.length, 1)
decreasing_by
  · exact Prod.Lex.right _ (by decide)
  · exact Prod.Lex.left _ _ (lt_of_cons h)

/-- The tokens behind the members of an object and its end. -/
def skipMembers (ts : List Token) : Option (Rest ts) :=
  match ts with
  | .string _ :: .colon :: rest =>
    match skipValue rest with
    | none => none
    | some ⟨.comma :: rest', h⟩ =>
      (skipMembers rest').map fun ⟨rest'', h'⟩ =>
        ⟨rest'', lt_cons_cons_of_lt (Nat.lt_trans h' (lt_of_cons h))⟩
    | some ⟨.closeObject :: rest', h⟩ => some ⟨rest', lt_cons_cons_of_lt (lt_of_cons h)⟩
    | some _ => none
  | _ => none
termination_by (ts.length, 1)
decreasing_by
  · exact Prod.Lex.left _ _ lt_cons_cons
  · exact Prod.Lex.left _ _ (lt_cons_cons_of_lt (lt_of_cons h))

end

/-- The value that a token starts, as far as the token tells. -/
def startOf? : Token → Option Json
  | .null => some .null
  | .bool b => some (.bool b)
  | .number t => t.value?.map .number
  | .string parts => (StringPart.value? parts).map .string
  | .openArray => some (.array [])
  | .openObject => some (.object [])
  | _ => none

/-- A value of one token. -/
def readToken {α : Type} (read : Json → Reading α) (ts : List Token) :
    Except Fault (α × Rest ts) :=
  match ts with
  | [] => .error .malformed
  | t :: rest =>
    match startOf? t with
    | none => .error .malformed
    | some v =>
      match read v with
      | .error e => .error (.misshapen e)
      | .ok a => .ok (a, ⟨rest, Nat.lt_succ_self _⟩)

/-- How the members of a structure are stored: `put` reads the value of a member. -/
abbrev Put (σ : Type) : Type := σ → String → (ts : List Token) → Except Fault (σ × Rest ts)

/-- The members of an object up to its end; `seen` lists the members met before. -/
def readMembers {σ : Type} (layout : Layout) (put : Put σ) (s : σ) (seen : List String)
    (ts : List Token) : Except Fault (σ × Rest ts) :=
  match ts with
  | .string parts :: rest =>
    match StringPart.value? parts with
    | none => .error .malformed
    | some name =>
      let known := layout.members.any fun m => m.name = name
      if known && seen.contains name then .error (.misshapen (.repeatedMember name))
      else
        match rest with
        | .colon :: rest =>
          let value : Except Fault (σ × Rest rest) :=
            if known then put s name rest
            else
              match skipValue rest with
              | some behind => .ok (s, behind)
              | none => .error .malformed
          match value with
          | .error e => .error e
          | .ok (s, ⟨.comma :: rest', h⟩) =>
            match readMembers layout put s (name :: seen) rest' with
            | .error e => .error e
            | .ok (s, ⟨rest'', h'⟩) =>
              .ok (s, ⟨rest'', lt_cons_cons_of_lt (Nat.lt_trans h' (lt_of_cons h))⟩)
          | .ok (s, ⟨.closeObject :: rest', h⟩) =>
            match layout.missing? (name :: seen) with
            | some m => .error (.misshapen (.missingMember m.name))
            | none => .ok (s, ⟨rest', lt_cons_cons_of_lt (lt_of_cons h)⟩)
          | .ok _ => .error .malformed
        | _ => .error .malformed
  | _ => .error .malformed
termination_by ts.length
decreasing_by exact lt_cons_cons_of_lt (lt_of_cons h)

/-- The end of a structure written as an array with `count` members. -/
def endPositions {σ : Type} (layout : Layout) (s : σ) (count : Nat) (ts : List Token) :
    Except Fault (σ × Rest (.closeArray :: ts)) :=
  match layout.requiredFrom? count with
  | some i =>
    .error (.misshapen (.tooFewMembers i ("struct " ++ layout.name) layout.members.length))
  | none => .ok (s, ⟨ts, Nat.lt_succ_self _⟩)

/-- The members with the listed names behind an earlier one of a structure written as an array,
up to its end; `count` members were read before. -/
def readPositions {σ : Type} (layout : Layout) (put : Put σ) (s : σ) (count : Nat) :
    List String → (ts : List Token) → Except Fault (σ × Rest ts)
  | _, .closeArray :: rest => endPositions layout s count rest
  | name :: names, .comma :: rest =>
    if rest matches .closeArray :: _ then .error .malformed
    else
      match put s name rest with
      | .error e => .error e
      | .ok (s, ⟨rest', h⟩) =>
        match readPositions layout put s (count + 1) names rest' with
        | .error e => .error e
        | .ok (s, ⟨rest'', h'⟩) => .ok (s, ⟨rest'', Nat.lt_succ_of_lt (Nat.lt_trans h' h)⟩)
  | _, _ => .error .malformed

/-- A structure, written as an object or as an array. -/
def readStructure {σ : Type} (layout : Layout) (put : Put σ) (start : σ) (ts : List Token) :
    Except Fault (σ × Rest ts) :=
  match ts with
  | .openObject :: .closeObject :: rest =>
    match layout.missing? [] with
    | some m => .error (.misshapen (.missingMember m.name))
    | none => .ok (start, ⟨rest, lt_cons_cons⟩)
  | .openObject :: rest =>
    match readMembers layout put start [] rest with
    | .error e => .error e
    | .ok (s, ⟨rest', h⟩) => .ok (s, ⟨rest', Nat.lt_succ_of_lt h⟩)
  | .openArray :: .closeArray :: rest =>
    match endPositions layout start 0 rest with
    | .error e => .error e
    | .ok (s, ⟨rest', h⟩) => .ok (s, ⟨rest', Nat.lt_succ_of_lt h⟩)
  | .openArray :: rest =>
    match layout.members.map (·.name) with
    | [] => .error .malformed
    | name :: names =>
      match put start name rest with
      | .error e => .error e
      | .ok (s, ⟨rest', h⟩) =>
        match readPositions layout put s 1 names rest' with
        | .error e => .error e
        | .ok (s, ⟨rest'', h'⟩) => .ok (s, ⟨rest'', Nat.lt_succ_of_lt (Nat.lt_trans h' h)⟩)
  | ts => readToken (fun v => .error (.wrongType v.found (.structure layout.name))) ts

/-- How an entry is written. -/
def Entry.layout : Layout where
  name := "AutomatedPackEntry"
  members := [⟨"index", true⟩, ⟨"name", true⟩, ⟨"selected", false⟩]

/-- The entry with the value of a member. -/
def Entry.put (e : Entry) (name : String) (ts : List Token) : Except Fault (Entry × Rest ts) :=
  match name with
  | "index" => do
    let (index, rest) ← readToken (readOption (readNat .index)) ts
    return ({ e with index }, rest)
  | "name" => do
    let (name, rest) ← readToken (readOption readString) ts
    return ({ e with name }, rest)
  | _ => do
    let (selected, rest) ← readToken readBool ts
    return ({ e with selected }, rest)

/-- The entries of a list up to its end. -/
def readEntries (ts : List Token) : Except Fault (List Entry × Rest ts) :=
  match readStructure Entry.layout Entry.put {} ts with
  | .error e => .error e
  | .ok (e, ⟨.comma :: rest, h⟩) =>
    match readEntries rest with
    | .error e => .error e
    | .ok (es, ⟨rest', h'⟩) => .ok (e :: es, ⟨rest', Nat.lt_trans h' (lt_of_cons h)⟩)
  | .ok (e, ⟨.closeArray :: rest, h⟩) => .ok ([e], ⟨rest, lt_of_cons h⟩)
  | .ok _ => .error .malformed
termination_by ts.length
decreasing_by exact lt_of_cons h

/-- The list of entries. -/
def readEntryList (ts : List Token) : Except Fault (List Entry × Rest ts) :=
  match ts with
  | .openArray :: .closeArray :: rest => .ok ([], ⟨rest, lt_cons_cons⟩)
  | .openArray :: rest =>
    match readEntries rest with
    | .error e => .error e
    | .ok (es, ⟨rest', h⟩) => .ok (es, ⟨rest', Nat.lt_succ_of_lt h⟩)
  | ts => readToken (fun v => .error (.wrongType v.found .sequence)) ts

/-- How a record is written. -/
def layout : Layout where
  name := "AutomatedSelection"
  members := [⟨"install_group", true⟩, ⟨"packs", false⟩]

/-- The record with the value of a member. -/
def put (r : Record) (name : String) (ts : List Token) : Except Fault (Record × Rest ts) :=
  match name with
  | "install_group" => do
    let (installGroup, rest) ← readToken (readOption readString) ts
    return ({ r with installGroup }, rest)
  | _ => do
    let (entries, rest) ← readEntryList ts
    return ({ r with entries }, rest)

/-- The record in a text. -/
def ofText (text : String) : Except Error Record :=
  match readStructure layout put {} (tokens text.toList) with
  | .error .malformed => .error .malformedDocument
  | .error (.misshapen e) => .error (.misshapenDocument e)
  | .ok (r, ⟨[], _⟩) => .ok r
  | .ok _ => .error .malformedDocument

end PackChoice.Record
