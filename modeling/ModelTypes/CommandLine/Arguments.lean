/-!
Command line arguments. Options start with a hyphen, two for words and one for letters; letters
can be joined, and a value may follow its option or be joined to it. Two hyphens alone end the
options.
-/

namespace ModelTypes.CommandLine

/-- An option with its words and its letter, and the name by which it is known once read. -/
structure OptionSpec where
  name : String
  words : List String
  letter : Option Char := none
  takesValue : Bool := false

/-- Why arguments cannot be read. -/
inductive UsageError where
  | noSuchOption (written : String)
  | missingValue (name : String)
  | unexpectedValue (written : String)
  | noSuchCommand (name : String)
  | missingCommand
deriving DecidableEq, Repr

def UsageError.message : UsageError → String
  | .noSuchOption written => "No such option: " ++ written
  | .missingValue name => "Option '" ++ name ++ "' requires an argument."
  | .unexpectedValue written => "Option '" ++ written ++ "' does not take a value."
  | .noSuchCommand name => "No such command '" ++ name ++ "'."
  | .missingCommand => "Missing command."

/-- The options that were given, in order, and the arguments that are none. -/
structure Arguments where
  options : List (String × String) := []
  rest : List String := []
deriving DecidableEq, Repr

namespace Arguments

def addOption (name value : String) (a : Arguments) : Arguments :=
  { a with options := (name, value) :: a.options }

def addArgument (argument : String) (a : Arguments) : Arguments :=
  { a with rest := argument :: a.rest }

def has (a : Arguments) (name : String) : Bool := a.options.any (·.1 == name)

/-- The last value that was given for an option. -/
def last? (a : Arguments) (name : String) : Option String :=
  ((a.options.filter (·.1 == name)).getLast?).map (·.2)

/-- Options written as joined letters; the second answer is an option whose value is still to
come. -/
def ofLetters (specs : List OptionSpec) :
    List Char → Except UsageError (List (String × String) × Option String)
  | [] => .ok ([], none)
  | c :: cs =>
    match specs.find? (·.letter == some c) with
    | none => .error (.noSuchOption (String.ofList ['-', c]))
    | some spec =>
      if spec.takesValue then
        if cs.isEmpty then .ok ([], some spec.name)
        else .ok ([(spec.name, String.ofList cs)], none)
      else do
        let (more, waiting) ← ofLetters specs cs
        return ((spec.name, "") :: more, waiting)

/-- An option as it is written. -/
def ofWritten (specs : List OptionSpec) (written : String) :
    Except UsageError (List (String × String) × Option String) :=
  let cs := written.toList
  let word := String.ofList (cs.takeWhile (· != '='))
  let value := cs.dropWhile (· != '=')
  match specs.find? (·.words.contains word) with
  | some spec =>
    if spec.takesValue then
      if value.isEmpty then .ok ([], some spec.name)
      else .ok ([(spec.name, String.ofList (value.drop 1))], none)
    else if value.isEmpty then .ok ([(spec.name, "")], none)
    else .error (.unexpectedValue word)
  | none =>
    if ['-', '-'].isPrefixOf cs then .error (.noSuchOption word)
    else ofLetters specs (cs.drop 1)

/-- Reads arguments; `waiting` is an option whose value comes next. If options may not be mixed
with other arguments, the first of those ends them. -/
def read (specs : List OptionSpec) (mixed : Bool) :
    Option String → List String → Except UsageError Arguments
  | none, [] => .ok {}
  | some name, [] => .error (.missingValue name)
  | some name, value :: rest => (read specs mixed none rest).map (addOption name value)
  | none, argument :: rest =>
    if argument == "--" then .ok { rest }
    else if ['-'].isPrefixOf argument.toList && argument != "-" then
      match ofWritten specs argument with
      | .error e => .error e
      | .ok (options, waiting) =>
        (read specs mixed waiting rest).map fun a => { a with options := options ++ a.options }
    else if mixed then (read specs mixed none rest).map (addArgument argument)
    else .ok { rest := argument :: rest }

end Arguments
end ModelTypes.CommandLine
