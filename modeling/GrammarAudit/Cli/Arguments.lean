import GrammarAudit.Distinct
import GrammarAudit.Text.Quoted

/-!
# Arguments of a command

Options have a long name after two hyphens and perhaps a letter after one. A value follows an
option as the next argument, or right after a long name and an equals sign or a letter. Two hyphens
alone end the options.

- `OptionSpec`: the spellings of an option and whether it takes a value.
- `Parsed`, `parseArguments`: the options and the other arguments of a command.
- `UsageError`: why a command cannot be understood, with its wording.
-/

namespace GrammarAudit.Cli

/-- Why a command cannot be understood. -/
inductive UsageError where
  | nothing
  | noCommand
  | unknownCommand (name : String)
  | unknownOption (name : String)
  | valueMissing (option : String)
  | valueUnwanted (option : String)
  | argumentMissing (name : String)
  | argumentsUnwanted (arguments : List String)
  | notChoice (option value : String) (choices : List String)
  | notNumber (option value : String)
deriving DecidableEq, Repr

/-- The wording of an error; a command without any arguments gets none. -/
def UsageError.message? : UsageError → Option String
  | nothing => none
  | noCommand => some "Missing command."
  | unknownCommand name => some ("No such command " ++ Text.quote name ++ ".")
  | unknownOption name => some ("No such option " ++ Text.quote name ++ ".")
  | valueMissing option => some ("Option " ++ Text.quote option ++ " requires an argument.")
  | valueUnwanted option => some ("Option " ++ Text.quote option ++ " does not take a value.")
  | argumentMissing name => some ("Missing argument '" ++ name ++ "'.")
  | argumentsUnwanted arguments =>
    some ("Got unexpected extra argument" ++ (if arguments.length = 1 then "" else "s") ++ " (" ++
      " ".intercalate arguments ++ ")")
  | notChoice option value choices =>
    some ("Invalid value for '" ++ option ++ "': " ++ Text.quote value ++ " is not one of " ++
      ", ".intercalate (choices.map Text.quote) ++ ".")
  | notNumber option value =>
    some ("Invalid value for '" ++ option ++ "': " ++ Text.quote value ++
      " is not a valid float.")

/-- An option: its long name, its letter if it has one, and whether it takes a value. -/
structure OptionSpec (ο : Type) where
  option : ο
  long : String
  letter : Option Char := none
  takesValue : Bool := false

/-- An option as it is given, with its value if it takes one. -/
abbrev Given (ο : Type) := ο × Option String

/-- The options that a command is given, in order, and its other arguments. -/
structure Parsed (ο : Type) where
  options : List (Given ο) := []
  others : List String := []

variable {ο : Type}

/-- A text around its first equals sign. -/
def splitValue (s : String) : String × Option String :=
  let name := s.toList.takeWhile (· ≠ '=')
  match s.toList.dropWhile (· ≠ '=') with
  | _ :: value => (String.ofList name, some (String.ofList value))
  | [] => (s, none)

/-- Options at the start of a list of arguments, with the arguments after them: no more than there
were. -/
abbrev Taken (ο : Type) (arguments : List String) :=
  List (Given ο) × { rest : List String // rest.length ≤ arguments.length }

/-- Takes the value of an option: the one attached to it, or else the next argument. -/
def takeValue (option : ο) (name : String) (attached : Option String) (arguments : List String) :
    Except UsageError (Taken ο arguments) :=
  match attached with
  | some value => .ok ([(option, some value)], ⟨arguments, Nat.le_refl _⟩)
  | none =>
    match arguments with
    | value :: rest => .ok ([(option, some value)], ⟨rest, by simp⟩)
    | [] => .error (.valueMissing name)

/-- Takes the options that a run of letters names. What follows the letter of an option with a
value is that value. -/
def takeLetters (specs : List (OptionSpec ο)) (arguments : List String) :
    List Char → Except UsageError (Taken ο arguments)
  | [] => .ok ([], ⟨arguments, Nat.le_refl _⟩)
  | c :: more =>
    let name := String.ofList ['-', c]
    match specs.find? fun spec => spec.letter = some c with
    | none => .error (.unknownOption name)
    | some spec =>
      if spec.takesValue then
        takeValue spec.option name (if more = [] then none else some (String.ofList more))
          arguments
      else do
        let (options, rest) ← takeLetters specs arguments more
        return ((spec.option, none) :: options, rest)

/-- Takes the options that an argument gives. -/
def takeOptions (specs : List (OptionSpec ο)) (argument : String) (arguments : List String) :
    Except UsageError (Taken ο arguments) :=
  let (name, attached) := splitValue argument
  match specs.find? fun spec => spec.long = name with
  | some spec =>
    if spec.takesValue then takeValue spec.option name attached arguments
    else if attached.isSome then .error (.valueUnwanted name)
    else .ok ([(spec.option, none)], ⟨arguments, Nat.le_refl _⟩)
  | none =>
    match argument.toList with
    | '-' :: '-' :: _ => .error (.unknownOption name)
    | _ :: letters => takeLetters specs arguments letters
    | [] => .error (.unknownOption name)

/-- Whether an argument gives options. -/
def givesOptions (argument : String) : Bool :=
  match argument.toList with
  | '-' :: _ :: _ => true
  | _ => false

/-- The options and the other arguments of a command. Unless options may come between other
arguments, the first of those ends the options. -/
def parseArguments (specs : List (OptionSpec ο)) (mayMix : Bool) (arguments : List String) :
    Except UsageError (Parsed ο) :=
  match arguments with
  | [] => .ok {}
  | argument :: rest =>
    if argument = "--" then .ok { others := rest }
    else if givesOptions argument then do
      let (options, remaining) ← takeOptions specs argument rest
      let parsed ← parseArguments specs mayMix remaining.val
      return { parsed with options := options ++ parsed.options }
    else if mayMix then do
      let parsed ← parseArguments specs mayMix rest
      return { parsed with others := argument :: parsed.others }
    else .ok { others := argument :: rest }
termination_by arguments.length
decreasing_by
  · exact Nat.lt_succ_of_le remaining.property
  · exact Nat.lt_succ_self _

/-- The options that are given, each where it is first given but with its last value. -/
def Parsed.settled [DecidableEq ο] (p : Parsed ο) : List (Given ο) :=
  (firstPerKey Prod.fst p.options).map fun (option, value) =>
    (option, (p.options.reverse.lookup option).getD value)

/-- The value that is given for an option. -/
def Parsed.value? [DecidableEq ο] (p : Parsed ο) (option : ο) : Option String :=
  (p.settled.lookup option).join

/-- Whether an option is given. -/
def Parsed.has [DecidableEq ο] (p : Parsed ο) (option : ο) : Bool :=
  p.options.any fun given => given.1 = option

end GrammarAudit.Cli
