import RegisterRules.Document.Diagnostic
import RegisterRules.Trace

/-!
# The command line

The command compiles one rule, given as an argument, in a file or on standard input, and prints the
procedure or the report of its failure. The arguments are read from left to right. The first that is
wrong decides, and so does a request for the version before it; only whether rule and file exclude
each other is asked at the end.

## Main definitions

* `Command`: a rule to compile and how to print the result.
* `Command.Usage`: what is wrong with the arguments.
* `Command.parse`: what the arguments ask for.
* `Command.execute`: what is printed for a rule, and the exit code.
-/

namespace RegisterRules

/-- Where the rule comes from. -/
inductive Command.Source where
  | rule (text : String)
  | file (path : String)
  | standardInput
deriving DecidableEq

/-- A rule to compile and how to print the result. -/
structure Command where
  source : Command.Source
  settings : Settings
  /-- Whether the stages are written to standard error. -/
  trace : Bool
  /-- Whether the result is printed as a JSON document. -/
  json : Bool
  /-- Whether documents are spread over lines. -/
  pretty : Bool

namespace Command

/-- What the arguments ask for. -/
inductive Request where
  | compile (command : Command)
  | version
  | help

/-- What is wrong with the arguments. -/
inductive Usage where
  | unknownOption (option : String)
  | unexpectedValue (option : String)
  | missingValue (option : String)
  | repeated (option : String)
  | invalidValue (option value : String)
  | extraArgument (argument : String)
  | ruleAndFile
deriving DecidableEq

/-- The message about wrong arguments. -/
def Usage.message : Usage → String
  | .unknownOption option => "unexpected argument '" ++ option ++ "'"
  | .unexpectedValue option => "no value is allowed for '" ++ option ++ "'"
  | .missingValue option => "a value is required for '" ++ option ++ "'"
  | .repeated option => "'" ++ option ++ "' cannot be used more than once"
  | .invalidValue option value => "invalid value '" ++ value ++ "' for '" ++ option ++ "'"
  | .extraArgument argument => "unexpected argument '" ++ argument ++ "'"
  | .ruleAndFile => "a rule cannot be given together with '--file'"

/-- The arguments that were read so far. -/
structure Given where
  rule : Option String := none
  file : Option String := none
  name : Option String := none
  indent : Option Nat := none
  trace : Bool := false
  json : Bool := false
  pretty : Bool := false

/-! ### Options with a value -/

/-- The options that take a value. -/
inductive ValueOption where
  | file | name | indent
deriving DecidableEq

/-- The option that takes a value and has the given name. -/
def ValueOption.ofName? (name : String) : Option ValueOption :=
  if name = "--file" then some .file
  else if name = "--procedure-name" then some .name
  else if name = "--indent" then some .indent
  else none

/-- The name of an option. -/
def ValueOption.label : ValueOption → String
  | .file => "--file"
  | .name => "--procedure-name"
  | .indent => "--indent"

/-- An indentation: decimal digits with an optional plus sign, below `2 ^ 64`. -/
def indent? (value : String) : Option Nat :=
  let digits := match value.toList with
    | '+' :: digits => digits
    | digits => digits
  (Text.decimal? digits).filter (· < UInt64.size)

/-- The arguments with an option set to a value. -/
def Given.set (given : Given) (option : ValueOption) (value : String) : Except Usage Given :=
  match option with
  | .file =>
    if given.file.isSome then .error (.repeated option.label)
    else if value = "" then .error (.invalidValue option.label value)
    else .ok { given with file := some value }
  | .name =>
    if given.name.isSome then .error (.repeated option.label)
    else .ok { given with name := some value }
  | .indent =>
    if given.indent.isSome then .error (.repeated option.label)
    else
      match indent? value with
      | some n => .ok { given with indent := some n }
      | none => .error (.invalidValue option.label value)

/-! ### Flags -/

/-- The options without a value. -/
inductive Flag where
  | trace | json | pretty | version | help
deriving DecidableEq

/-- The flag with the given name. -/
def Flag.ofName? (name : String) : Option Flag :=
  if name = "--trace" then some .trace
  else if name = "--json" then some .json
  else if name = "--pretty" then some .pretty
  else if name = "--version" then some .version
  else if name = "--help" then some .help
  else none

/-- The arguments with a flag raised, or the request that the flag makes. -/
def Given.raise (given : Given) (flag : Flag) : Except Usage (Given ⊕ Request) :=
  match flag with
  | .trace =>
    if given.trace then .error (.repeated "--trace") else .ok (.inl { given with trace := true })
  | .json =>
    if given.json then .error (.repeated "--json") else .ok (.inl { given with json := true })
  | .pretty =>
    if given.pretty then .error (.repeated "--pretty") else .ok (.inl { given with pretty := true })
  | .version => .ok (.inr .version)
  | .help => .ok (.inr .help)

/-! ### Arguments -/

/-- The arguments with a rule. -/
def Given.setRule (given : Given) (rule : String) : Except Usage Given :=
  if given.rule.isSome then .error (.extraArgument rule) else .ok { given with rule := some rule }

/-- The command that the arguments make up. -/
def Given.request (given : Given) : Except Usage Request :=
  let settings : Settings :=
    { procedureName := given.name.getD "Validate", indentWidth := given.indent.getD 4 }
  let make (source : Source) : Except Usage Request :=
    .ok (.compile ⟨source, settings, given.trace, given.json, given.pretty⟩)
  match given.rule, given.file with
  | some _, some _ => .error .ruleAndFile
  | some rule, none => make (.rule rule)
  | none, some path => make (.file path)
  | none, none => make .standardInput

/-- An argument by its form. -/
inductive Form where
  /-- Not an option. -/
  | plain
  /-- The mark behind which nothing is an option. -/
  | separator
  /-- A long option, with the value behind its equals sign if there is one. -/
  | long (name : String) (value : Option String)
  /-- A short option, with the characters behind its letter. -/
  | short (letter : Char) (rest : List Char)

/-- The form of an argument. A lone hyphen is no option. -/
def formOf (argument : String) : Form :=
  match argument.toList with
  | ['-', '-'] => .separator
  | '-' :: '-' :: body =>
    let name := String.ofList ('-' :: '-' :: body.takeWhile (· ≠ '='))
    match body.dropWhile (· ≠ '=') with
    | [] => .long name none
    | _ :: value => .long name (some (String.ofList value))
  | '-' :: letter :: rest => .short letter rest
  | _ => .plain

/-- Whether an argument can be the value of the option before it. -/
def isValue (argument : String) : Bool :=
  match formOf argument with
  | .plain => true
  | _ => false

/-- Read arguments that are no options. -/
def readPlain (given : Given) : List String → Except Usage Given
  | [] => .ok given
  | argument :: rest =>
    match given.setRule argument with
    | .error e => .error e
    | .ok given => readPlain given rest

/-- Read arguments behind those that are given. When `awaiting` holds an option, the next argument
is its value. -/
def read (given : Given) (awaiting : Option ValueOption) : List String → Except Usage Request
  | [] =>
    match awaiting with
    | some option => .error (.missingValue option.label)
    | none => given.request
  | argument :: rest =>
    match awaiting with
    | some option =>
      if isValue argument then
        match given.set option argument with
        | .error e => .error e
        | .ok given => read given none rest
      else .error (.missingValue option.label)
    | none =>
      match formOf argument with
      | .plain =>
        match given.setRule argument with
        | .error e => .error e
        | .ok given => read given none rest
      | .separator =>
        match readPlain given rest with
        | .error e => .error e
        | .ok given => given.request
      | .long name value =>
        match ValueOption.ofName? name, value with
        | some option, none => read given (some option) rest
        | some option, some value =>
          match given.set option value with
          | .error e => .error e
          | .ok given => read given none rest
        | none, value =>
          match Flag.ofName? name, value with
          | none, _ => .error (.unknownOption name)
          | some _, some _ => .error (.unexpectedValue name)
          | some flag, none =>
            match given.raise flag with
            | .error e => .error e
            | .ok (.inl given) => read given none rest
            | .ok (.inr request) => .ok request
      | .short letter body =>
        if letter = 'f' then
          match body with
          | [] => read given (some .file) rest
          | '=' :: path =>
            match given.set .file (String.ofList path) with
            | .error e => .error e
            | .ok given => read given none rest
          | path =>
            match given.set .file (String.ofList path) with
            | .error e => .error e
            | .ok given => read given none rest
        else if letter = 'V' then .ok .version
        else if letter = 'h' then .ok .help
        else .error (.unknownOption (String.ofList ['-', letter]))

/-- What the arguments ask for. -/
def parse (arguments : List String) : Except Usage Request := read {} none arguments

/-! ### Execution -/

/-- What a command prints, and its exit code. -/
structure Output where
  exitCode : Nat
  stdout : String
  stderr : String
deriving DecidableEq

/-- The answer to a request for the version. -/
def versionText : String := "alc 0.1.0\n"

/-- The style of the documents of a command. -/
def style (c : Command) : Json.Style := if c.pretty then .pretty else .compact

/-- The result of a compilation as a document. -/
def resultDocument : Except Diagnostic String → Json
  | .ok code => .object [("code", .string code), ("ok", .bool true)]
  | .error d => .object [("error", d.toJson), ("ok", .bool false)]

/-- The result of a compilation, and what the trace of it prints. -/
def compileTraced (c : Command) (source : String) : Except Diagnostic String × String :=
  if c.trace then
    let (result, writer) := c.settings.compileWith (Journal.observer c.style) source {}
    (result, writer.text)
  else (c.settings.compile source, "")

/-- Compile a rule and print the result. As a document it goes to standard output in any case;
otherwise a procedure goes to standard output and a report to standard error. -/
def execute (c : Command) (source : String) : Output :=
  let (result, trace) := c.compileTraced source
  let exitCode := match result with
    | .ok _ => 0
    | .error _ => 1
  if c.json then ⟨exitCode, (resultDocument result).print c.style ++ "\n", trace⟩
  else
    match result with
    | .ok code => ⟨exitCode, code, trace⟩
    | .error d => ⟨exitCode, "", trace ++ "error: " ++ d.display ++ "\n"⟩

end Command

end RegisterRules
