import DeckDoc.Text.Control
import DeckDoc.Text.Similar

namespace DeckDoc

/-- The values among the arguments so far: none, an input, or both. A value is checked once the next
argument takes effect. -/
inductive Positionals where
  | none
  | input (path : String)
  | both (input output : String)
  deriving DecidableEq

/-- Why arguments cannot be used. -/
inductive Misuse where
  | missingInput
  | emptyValue (placeholder : String)
  | extraValue (value : String)
  | unknownLetter (letter : Char)
  | unknownName (name : String) (values : Positionals)
  | valueForHelp (value : String) (values : Positionals)
  deriving DecidableEq

def inputPlaceholder : String := "<keyword.json>"

def outputPlaceholder : String := "[output.md]"

def usageOf (arguments : String) : String := "Usage: kwdoc " ++ arguments

def usage : String := usageOf (inputPlaceholder ++ " " ++ outputPlaceholder)

def helpHint : String := "For more information, try '--help'."

/-- What is wrong, some tips, how the program is used, and where to learn more. -/
def misuseLines (fault : String) (tips : List String) (usage : String) : List String :=
  [fault, ""] ++ tips.flatMap (fun tip => ["  tip: " ++ tip, ""]) ++ [usage, "", helpHint]

def unexpectedArgument (shown : String) : String :=
  "error: unexpected argument '" ++ shown ++ "' found"

def asValueTip (shown : String) : String :=
  "to pass '" ++ shown ++ "' as a value, use '-- " ++ shown ++ "'"

namespace Misuse

/-- The usage near an unknown name: an output that has been given is no longer optional. -/
def usageAfter : Positionals → String
  | .both _ _ => inputPlaceholder ++ " <output.md>"
  | _ => inputPlaceholder ++ " " ++ outputPlaceholder

/-- The usage of the help option near a value of it: an input and an output that have been given are
one group. -/
def usageWithHelp : Positionals → String
  | .both _ _ => "--help <keyword.json|output.md>"
  | _ => "--help " ++ inputPlaceholder ++ " " ++ outputPlaceholder

/-- Arguments are shown without control characters. -/
def lines : Misuse → List String
  | missingInput =>
    ["error: the following required arguments were not provided:", "  " ++ inputPlaceholder, "",
      usage, "", helpHint]
  | emptyValue placeholder =>
    ["error: a value is required for '" ++ placeholder ++ "' but none was supplied", "", helpHint]
  | extraValue value => misuseLines (unexpectedArgument (Text.withoutControls value)) [] usage
  | unknownLetter letter =>
    let shown := Text.withoutControls ("-" ++ String.singleton letter)
    misuseLines (unexpectedArgument shown) [asValueTip shown] usage
  | unknownName name values =>
    let shown := Text.withoutControls ("--" ++ name)
    if Text.isSimilar name "help" then
      misuseLines (unexpectedArgument shown) ["a similar argument exists: '--help'"]
        (usageOf ("--help " ++ usageAfter values))
    else misuseLines (unexpectedArgument shown) [asValueTip shown] (usageOf (usageAfter values))
  | valueForHelp value values =>
    misuseLines ("error: unexpected value '" ++ Text.withoutControls value ++
      "' for '--help' found; no more were expected") [] (usageOf (usageWithHelp values))

end Misuse

def helpLines : List String :=
  ["Generate a Markdown documentation skeleton from a keyword JSON description", "", usage, "",
    "Arguments:",
    "  <keyword.json>  Path to the keyword JSON description file",
    "  [output.md]     Output Markdown file (defaults to stdout)", "",
    "Options:",
    "  -h, --help  Print help"]

/-- What the arguments ask for. -/
inductive Command where
  | help
  | document (input : String) (output : Option String)
  deriving DecidableEq

namespace Positionals

/-- The last value must not be empty. -/
def check : Positionals → Except Misuse Unit
  | none => .ok ()
  | input path => if path = "" then .error (.emptyValue inputPlaceholder) else .ok ()
  | both _ output => if output = "" then .error (.emptyValue outputPlaceholder) else .ok ()

def add (values : Positionals) (value : String) : Except Misuse Positionals := do
  match values with
  | none => .ok (input value)
  | input path =>
    (input path).check
    .ok (both path value)
  | both _ _ => .error (.extraValue value)

def finish (values : Positionals) : Except Misuse Command := do
  values.check
  match values with
  | none => .error .missingInput
  | input path => .ok (.document path .none)
  | both path output => .ok (.document path (some output))

end Positionals

/-- The kinds of arguments before a double dash. -/
inductive Argument where
  | value
  | escape
  | help
  | helpWith (value : String)
  | unknownLetter (letter : Char)
  | unknownName (name : String)
  deriving DecidableEq

/-- The name of an option ends at an equals sign, and of a group of letters the first counts. A
single dash is a value. -/
def Argument.classify (argument : String) : Argument :=
  match argument.toList with
  | ['-', '-'] => .escape
  | '-' :: '-' :: option =>
    let name := String.ofList (option.takeWhile (· ≠ '='))
    match option.dropWhile (· ≠ '=') with
    | [] => if name = "help" then .help else .unknownName name
    | _ :: given => if name = "help" then .helpWith (String.ofList given) else .unknownName name
  | '-' :: c :: _ => if c = 'h' then .help else .unknownLetter c
  | _ => .value

namespace Command

/-- Values only, as after a double dash. -/
def ofValues (values : Positionals) : List String → Except Misuse Command
  | [] => values.finish
  | argument :: rest => do ofValues (← values.add argument) rest

/-- Arguments are taken from left to right. -/
def ofArguments (values : Positionals) : List String → Except Misuse Command
  | [] => values.finish
  | argument :: rest =>
    match Argument.classify argument with
    | .escape => ofValues values rest
    | .value => do ofArguments (← values.add argument) rest
    | .help => do
      values.check
      .ok .help
    | .helpWith value => .error (.valueForHelp value values)
    | .unknownLetter letter => .error (.unknownLetter letter)
    | .unknownName name => .error (.unknownName name values)

end Command

end DeckDoc
