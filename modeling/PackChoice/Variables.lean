import PackChoice.Error
import PackChoice.NameMap
import PackChoice.Text.Blank

/-!
The installer's variables, and assignments to them written as `NAME=VALUE`.
-/

namespace PackChoice

/-- Values of variables by name. -/
abbrev Variables := NameMap String

namespace Variables

/-- The name and the value of an assignment. The name is taken without the blanks around it and
may not be missing; the value is everything behind the first equals sign. -/
def parseAssignment (text : String) : Except Error (String × String) :=
  let cs := text.toList
  let name := Text.trim (cs.takeWhile (· ≠ '='))
  match cs.dropWhile (· ≠ '=') with
  | [] => .error (.malformedAssignment text)
  | _ :: value =>
    if name.isEmpty then .error (.malformedAssignment text)
    else .ok (String.ofList name, String.ofList value)

/-- The variables after the assignments in a list of texts, from left to right. -/
def assignAll (vars : Variables) (texts : List String) : Except Error Variables :=
  texts.foldlM (fun vs text => do
    let (name, value) ← parseAssignment text
    return vs.insert name value) vars

end Variables

end PackChoice
