import PackChoice.Document.Structure
import PackChoice.Options

/-!
Variables and options in documents.
-/

namespace PackChoice

open Document

namespace Variables

/-- The variables that a document lists. -/
def ofJson : Json → Reading Variables := readMap readString

/-- The document that lists the variables. -/
def toJson (vars : Variables) : Json :=
  .object (vars.toList.map fun e => (e.1, .string e.2))

end Variables

namespace UnknownPolicy

/-- The word for a policy. -/
def word : UnknownPolicy → String
  | .fail => "Fail"
  | .assumeFalse => "AssumeFalse"

/-- The policy that a word stands for. -/
def ofWord : String → Reading UnknownPolicy
  | "Fail" => .ok .fail
  | "AssumeFalse" => .ok .assumeFalse
  | w => .error (.unknownVariant w [fail.word, assumeFalse.word])

/-- The policy that a document gives, by its word or by an object whose one member has the word
as its name and no value. -/
def ofJson : Json → Reading UnknownPolicy
  | .string s => ofWord s
  | .object [(name, value)] => do
    let policy ← ofWord name
    match value with
    | .null => .ok policy
    | v => .error (.wrongType v.found .nothing)
  | .object _ => .error .notOneMember
  | v => .error (.wrongType v.found .policy)

end UnknownPolicy

namespace Options

/-- How options are written. -/
def layout : Layout where
  name := "SessionOptions"
  members := [⟨"unknown_condition_policy", false⟩, ⟨"select_all_in_group", false⟩]

/-- The options with the value of a member. -/
def put (options : Options) (name : String) (v : Json) : Reading Options :=
  match name with
  | "unknown_condition_policy" => do
    return { options with unknownPolicy := ← UnknownPolicy.ofJson v }
  | "select_all_in_group" => do return { options with selectAllInGroup := ← readBool v }
  | _ => .ok options

/-- The options that a document describes. -/
def ofJson : Json → Reading Options := layout.read put {}

/-- The document that describes the options. -/
def toJson (options : Options) : Json :=
  .ofMembers
    [("unknown_condition_policy", .string options.unknownPolicy.word),
      ("select_all_in_group", .bool options.selectAllInGroup)]

end Options

end PackChoice
