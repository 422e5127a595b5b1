/-!
# Options on a command line

An option is a name behind two hyphens, or a letter behind one, and may have a value: in the
same argument, or as the next one. Options end at the first other word or at a lone double
hyphen. `readOptions` reads those at the front of a list of arguments.

## Implementation notes

The next argument is no value if it starts with a hyphen, unless it is nothing else. An
option that ends the reading leaves what follows it unread, whatever that is. Letters cannot
be clustered, because no letter but that of an option that ends the reading goes without a
value.
-/

namespace AggQuery

/-- One option that a command line may give. -/
structure OptionSpec where
  name : String
  letter : Option Char := none
  hasValue : Bool := true
  /-- Which values are admitted. -/
  accepts : String → Bool := fun _ => true
  /-- Whether the option ends the reading. -/
  isLast : Bool := false

/-- Why a command line cannot be used. -/
inductive UsageError where
  | unexpected (argument : String)
  | missingValue (name : String)
  | refusedValue (name value : String)
  | repeated (name : String)
  | missingCommand
deriving DecidableEq, Inhabited, Repr

namespace UsageError

/-- The text of a usage error. -/
def message : UsageError → String
  | .unexpected argument => "unexpected argument '" ++ argument ++ "' found"
  | .missingValue name => "a value is required for '--" ++ name ++ "' but none was supplied"
  | .refusedValue name value => "invalid value '" ++ value ++ "' for '--" ++ name ++ "'"
  | .repeated name => "the argument '--" ++ name ++ "' cannot be used multiple times"
  | .missingCommand => "a command is required but none was provided"

end UsageError

/-- The options that have been read, with their values; a flag has an empty one. -/
abbrev GivenOptions := List (String × String)

namespace GivenOptions

/-- Add an option that has not been given before. -/
def add (given : GivenOptions) (spec : OptionSpec) (value : String) :
    Except UsageError GivenOptions :=
  if (given.lookup spec.name).isSome then .error (.repeated spec.name)
  else if spec.accepts value then .ok (given ++ [(spec.name, value)])
  else .error (.refusedValue spec.name value)

/-- Whether an option has been given. -/
def has (given : GivenOptions) (name : String) : Bool := (given.lookup name).isSome

end GivenOptions

/-- What an argument is. -/
inductive ArgumentForm where
  /-- An option, with the value in the same argument. -/
  | option (spec : OptionSpec) (attached : Option String)
  | escape
  | word

/-- A value behind a letter; an equals sign in front of it is passed over. -/
def attachedValue (text : List Char) : Option String :=
  match text with
  | [] => none
  | '=' :: value => some (String.ofList value)
  | value => some (String.ofList value)

/-- What an argument is, given the options that may occur. -/
def ArgumentForm.of (specs : List OptionSpec) (argument : String) :
    Except UsageError ArgumentForm :=
  match argument.toList with
  | ['-'] => .ok .word
  | ['-', '-'] => .ok .escape
  | '-' :: '-' :: text =>
    let name := String.ofList (text.takeWhile (· ≠ '='))
    match specs.find? (·.name == name) with
    | none => .error (.unexpected argument)
    | some spec =>
      match text.dropWhile (· ≠ '=') with
      | [] => .ok (.option spec none)
      | _ :: value => .ok (.option spec (some (String.ofList value)))
  | '-' :: letter :: text =>
    match specs.find? (·.letter == some letter) with
    | none => .error (.unexpected argument)
    | some spec => .ok (.option spec (if spec.hasValue then attachedValue text else none))
  | _ => .ok .word

/-- Whether an argument can be the value of the option in front of it. -/
def isDetachedValue (argument : String) : Bool :=
  argument == "-" || argument.toList.head? != some '-'

/-- The options at the front of the arguments, and the arguments behind them. -/
def readOptions (specs : List OptionSpec) (given : GivenOptions) (arguments : List String) :
    Except UsageError (GivenOptions × List String) :=
  match arguments with
  | [] => .ok (given, [])
  | argument :: rest => do
    match ← ArgumentForm.of specs argument with
    | .word | .escape => .ok (given, argument :: rest)
    | .option spec none =>
      if spec.hasValue then
        match rest with
        | [] => .error (.missingValue spec.name)
        | value :: rest =>
          if isDetachedValue value then readOptions specs (← given.add spec value) rest
          else .error (.missingValue spec.name)
      else
        let given ← given.add spec ""
        if spec.isLast then .ok (given, []) else readOptions specs given rest
    | .option spec (some value) =>
      if spec.hasValue then readOptions specs (← given.add spec value) rest
      else .error (.unexpected argument)

end AggQuery
