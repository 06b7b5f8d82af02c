/-!
Arguments of the command line. Options may stand anywhere among the other arguments: a short
option has one character and may stand in a bundle behind one dash, a long option has a name
behind two dashes. The value of an option follows in the same argument or is the next one. Two
dashes alone end the options.
-/

namespace PackChoice.CommandLine

/-- The options of the command line. -/
inductive Opt where
  | help
  | verbose
  | group
  | define
  | strict
  | lenient
  | validate
  | record
  | replay
  | list
  | json
deriving DecidableEq

namespace Opt

/-- All options, in the order of the help text. -/
def all : List Opt :=
  [help, verbose, group, define, strict, lenient, validate, record, replay, list, json]

/-- The long name. -/
def long : Opt → String
  | help => "help"
  | verbose => "verbose"
  | group => "group"
  | define => "define"
  | strict => "strict"
  | lenient => "lenient"
  | validate => "validate"
  | record => "record"
  | replay => "replay"
  | list => "list"
  | json => "json"

/-- The short name, if there is one. -/
def short? : Opt → Option Char
  | help => some 'h'
  | verbose => some 'v'
  | group => some 'g'
  | define => some 'D'
  | list => some 'l'
  | json => some 'j'
  | _ => none

/-- What the value of an option is, for those that have one. -/
def value? : Opt → Option String
  | group => some "GROUP"
  | define => some "NAME=VALUE"
  | record => some "FILE"
  | replay => some "FILE"
  | _ => none

/-- Whether an option has a value. -/
def hasValue (o : Opt) : Bool := o.value?.isSome

/-- Whether an option may be given more than once. -/
def isRepeatable : Opt → Bool
  | define => true
  | _ => false

/-- What an option does. -/
def summary : Opt → String
  | help => "Show help"
  | verbose => "Increased verbosity"
  | group => "Install group to use instead of the default"
  | define => "Set an installer variable"
  | strict => "Fail on conditions that are never defined (default)"
  | lenient => "Treat unknown conditions as false instead of failing"
  | validate => "Check the installer definition against its schema"
  | record => "Write the final selection for unattended installs"
  | replay => "Select the packs recorded in FILE"
  | list => "List the packs that can be selected and exit"
  | json => "Print the selection as JSON"

/-- The option with a short name. -/
def ofShort? (c : Char) : Option Opt := all.find? (·.short? = some c)

/-- The option with a name as typed behind two dashes; a name of one ASCII character is a short
name. -/
def ofName? (name : String) : Option Opt :=
  match name.toList with
  | [c] => if c.toNat < 128 then ofShort? c else all.find? (·.long = name)
  | _ => all.find? (·.long = name)

end Opt

/-- Why the arguments could not be understood; names are as typed. -/
inductive ArgumentError where
  | unrecognized (name : String)
  | missingValue (name : String)
  | unexpectedValue (name : String)
  | repeated (o : Opt)

/-- The text of an argument error. -/
def ArgumentError.message : ArgumentError → String
  | .unrecognized name => "Unrecognized option: '" ++ name ++ "'"
  | .missingValue name => "Argument to option '" ++ name ++ "' missing"
  | .unexpectedValue name => "Option '" ++ name ++ "' does not take an argument"
  | .repeated o => "Option '" ++ o.long ++ "' given more than once"

/-- An option that was given, with its value. -/
structure Given where
  option : Opt
  value : Option String
deriving DecidableEq

/-- The arguments, sorted into options and others. -/
structure Arguments where
  given : List Given := []
  /-- The arguments that are no options, in order. -/
  free : List String := []

/-- What one argument is. -/
inductive Argument where
  | free
  /-- The end of the options. -/
  | stop
  /-- A long option, with a value if there is one behind an equals sign. -/
  | long (name : String) (value : Option String)
  /-- Short options. -/
  | bundle (options : List Char)

/-- What an argument is. -/
def Argument.ofString (arg : String) : Argument :=
  match arg.toList with
  | ['-', '-'] => .stop
  | '-' :: '-' :: cs =>
    let name := String.ofList (cs.takeWhile (· ≠ '='))
    match cs.dropWhile (· ≠ '=') with
    | [] => .long name none
    | _ :: value => .long name (some (String.ofList value))
  | '-' :: c :: cs => .bundle (c :: cs)
  | _ => .free

/-- An option whose value is still to be found. -/
structure Pending where
  option : Opt
  /-- The name as typed. -/
  name : String
  /-- The value, if it stands in the same argument. -/
  value : Option String

/-- The options of a bundle; the first one that has a value takes the rest of the bundle. -/
def readBundle : List Char → Except ArgumentError (List Given × Option Pending)
  | [] => .ok ([], none)
  | c :: cs =>
    match Opt.ofShort? c with
    | none => .error (.unrecognized (String.ofList [c]))
    | some o =>
      if o.hasValue then
        let value := if cs.isEmpty then none else some (String.ofList cs)
        .ok ([], some ⟨o, String.ofList [c], value⟩)
      else do
        let (given, pending) ← readBundle cs
        return (⟨o, none⟩ :: given, pending)

/-- The options of an argument, the last of which may need the next argument as its value. -/
def readOption (arg : Argument) : Except ArgumentError (List Given × Option Pending) :=
  match arg with
  | .long name value =>
    match Opt.ofName? name with
    | none => .error (.unrecognized name)
    | some o =>
      if o.hasValue then .ok ([], some ⟨o, name, value⟩)
      else if value.isSome then .error (.unexpectedValue name)
      else .ok ([⟨o, none⟩], none)
  | .bundle options => readBundle options
  | _ => .ok ([], none)

/-- The arguments with options in front. -/
def Arguments.withGiven (a : Arguments) (given : List Given) : Arguments :=
  { a with given := given ++ a.given }

/-- Sorts the arguments. -/
def sortArguments : List String → Except ArgumentError Arguments
  | [] => .ok {}
  | arg :: args =>
    match Argument.ofString arg with
    | .free => do
      let a ← sortArguments args
      return { a with free := arg :: a.free }
    | .stop => .ok { free := args }
    | argument =>
      match readOption argument with
      | .error e => .error e
      | .ok (given, none) => do
        return (← sortArguments args).withGiven given
      | .ok (given, some pending) =>
        match pending.value, args with
        | some value, args => do
          return (← sortArguments args).withGiven (given ++ [⟨pending.option, some value⟩])
        | none, value :: args => do
          return (← sortArguments args).withGiven (given ++ [⟨pending.option, some value⟩])
        | none, [] => .error (.missingValue pending.name)

namespace Arguments

/-- How often an option was given. -/
def count (a : Arguments) (o : Opt) : Nat := a.given.countP (·.option = o)

/-- Whether an option was given. -/
def has (a : Arguments) (o : Opt) : Bool := decide (0 < a.count o)

/-- The values of an option, in order. -/
def values (a : Arguments) (o : Opt) : List String :=
  a.given.filterMap fun g => if g.option = o then g.value else none

/-- The first value of an option. -/
def value? (a : Arguments) (o : Opt) : Option String := (a.values o).head?

/-- The arguments of a command line, in which most options may be given only once. -/
def parse (args : List String) : Except ArgumentError Arguments := do
  let a ← sortArguments args
  match Opt.all.find? fun o => !o.isRepeatable && decide (1 < a.count o) with
  | some o => .error (.repeated o)
  | none => return a

end Arguments

end PackChoice.CommandLine
