/-!
# Command-line arguments

Options may be written with a long name, whose value follows an equals sign or is the next argument,
or with one letter; letters can be strung together, and the rest of the argument behind a letter
that takes a value is that value.  Two hyphens end the options.
-/

namespace ServiceKeys.Command

/-- What is wrong with a command line. -/
inductive Usage where
  /-- A required argument is missing. -/
  | missingParameter
  | noSuchOption
  /-- An option lacks its value, or has one that it does not take. -/
  | badOptionUsage
  /-- A value that is not acceptable; where the program itself finds out, in its own words. -/
  | badParameter (message : Option String)
  /-- An unknown command, or too many arguments. -/
  | other
  deriving DecidableEq, Repr

/-- What is said about a wrong command line. -/
def Usage.message : Usage → String
  | .missingParameter => "Missing argument."
  | .noSuchOption => "No such option."
  | .badOptionUsage => "An option lacks its value or takes none."
  | .badParameter message => message.getD "Invalid value."
  | .other => "No such command, or too many arguments."

/-- An option. -/
structure Opt where
  long : String
  short : Option Char := none
  takesValue : Bool := false
  deriving DecidableEq, Repr

/-- Arguments taken apart. -/
structure Parsed where
  /-- The options by their long names, with their values, in order. -/
  options : List (String × String) := []
  positional : List String := []
  deriving DecidableEq, Repr

/-- The options of one argument, and the one that takes the next argument as its value. -/
structure Taken where
  options : List (String × String) := []
  awaiting : Option String := none

/-- Reads the letters of an argument. -/
def letters (opts : List Opt) : List Char → Except Usage Taken
  | [] => .ok {}
  | c :: cs =>
    match opts.find? (·.short == some c) with
    | none => .error .noSuchOption
    | some o =>
      if o.takesValue then
        if cs.isEmpty then .ok { awaiting := some o.long }
        else .ok { options := [(o.long, String.ofList cs)] }
      else do
        let rest ← letters opts cs
        return { rest with options := (o.long, "") :: rest.options }

/-- Reads one argument that starts with a hyphen. -/
def option (opts : List Opt) (arg : List Char) : Except Usage Taken :=
  let name := arg.takeWhile (· != '=')
  let value := if arg.contains '=' then some (arg.drop (name.length + 1)) else none
  match opts.find? (·.long == String.ofList name) with
  | some o =>
    match o.takesValue, value with
    | true, some v => .ok { options := [(o.long, String.ofList v)] }
    | true, none => .ok { awaiting := some o.long }
    | false, some _ => .error .badOptionUsage
    | false, none => .ok { options := [(o.long, "")] }
  | none =>
    if ['-', '-'].isPrefixOf arg then .error .noSuchOption else letters opts (arg.drop 1)

/-- Whether an argument is written like an option. -/
def isOption (arg : String) : Bool := arg.toList.head? == some '-' && 1 < arg.length

/-- Takes arguments apart.  Unless options may stand between them, the first argument that is no
option ends the options. -/
def scan (opts : List Opt) (mixed : Bool) : List String → Parsed → Except Usage Parsed
  | [], p => .ok p
  | arg :: rest, p =>
    if arg == "--" then .ok { p with positional := p.positional ++ rest }
    else if isOption arg then
      match option opts arg.toList with
      | .error e => .error e
      | .ok ⟨taken, none⟩ => scan opts mixed rest { p with options := p.options ++ taken }
      | .ok ⟨taken, some name⟩ =>
        match rest with
        | [] => .error .badOptionUsage
        | value :: rest =>
          scan opts mixed rest { p with options := p.options ++ taken ++ [(name, value)] }
    else if mixed then scan opts mixed rest { p with positional := p.positional ++ [arg] }
    else .ok { p with positional := p.positional ++ arg :: rest }

/-- The value of an option; the last one given counts. -/
def Parsed.value? (p : Parsed) (name : String) : Option String :=
  (p.options.reverse.lookup name)

/-- Whether an option was given. -/
def Parsed.has (p : Parsed) (name : String) : Bool := (p.value? name).isSome

end ServiceKeys.Command
