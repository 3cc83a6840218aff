/-
# Command line arguments

Options may stand anywhere behind their command, with their value in the same argument or in the
next one. An option may be given once. Behind a double dash everything is positional. What does not
fit is a usage error.

Arguments are read from the left. So a question how a command is used is answered whatever stands
behind it, unless something in front of it does not fit. The wording of usage errors and of the
answers is not part of this library.
-/

namespace CachedCalls.CommandLine

/-- How reports are shown. -/
inductive Format where
  | text
  | json
  | source
deriving DecidableEq, Repr

/-- The format of the given name. -/
def Format.ofName? : String → Option Format
  | "text" => some .text
  | "json" => some .json
  | "source" => some .source
  | _ => none

/-- The format of the given name, or text if no name is given. -/
def Format.ofOption? : Option String → Option Format
  | none => some .text
  | some name => ofName? name

/-- A text about the program itself. -/
inductive Page where
  /-- How the command with these names is used, in brief or in full. -/
  | usage (command : List String) (inFull : Bool)
  /-- Which version of the program this is. -/
  | version
deriving DecidableEq, Repr

/-- What the program is asked to do. -/
inductive Command where
  /-- Wrap the functions at a path. -/
  | wrap (path : String) (write : Bool) (format : Format) (config adapter marker : Option String)
  /-- Check a configuration file. -/
  | validateConfig (path : Option String)
  /-- Show the configuration. -/
  | showConfig (path : Option String)
  /-- Show a text about the program. -/
  | showPage (page : Page)
deriving DecidableEq, Repr

/-- One argument behind a command, once options are told apart from the rest. -/
inductive Item where
  | positional (text : String)
  /-- An option without a value. -/
  | flag (name : String)
  /-- An option with its value. -/
  | option (name value : String)
  /-- The question how the command is used. Nothing behind it is read. -/
  | usage (inFull : Bool)
deriving DecidableEq, Repr

/-- Whether an argument looks like an option. A single dash does not. -/
def isOption (argument : String) : Bool :=
  match argument.toList with
  | '-' :: _ :: _ => true
  | _ => false

/-- Whether an argument only raises the amount of logging. -/
def isVerbosity (argument : String) : Bool :=
  argument == "--verbose" ||
    match argument.toList with
    | '-' :: 'v' :: more => more.all (· == 'v')
    | _ => false

/-- The first letter among short options that does more than raise the amount of logging. -/
def shortOption? (argument : String) : Option Char :=
  match argument.toList with
  | '-' :: letters => (letters.dropWhile (· = 'v')).head?
  | _ => none

/-- Whether an argument asks how a command is used, and if so whether in full. -/
def asksUsage? (argument : String) : Option Bool :=
  if argument = "--help" then some true
  else if shortOption? argument = some 'h' then some false
  else none

/-- Whether an argument asks for the version. -/
def asksVersion (argument : String) : Bool :=
  argument == "--version" || shortOption? argument == some 'V'

/-- A long option split at its first equals sign. -/
def splitOption (argument : String) : String × Option String :=
  let name := argument.toList.takeWhile (· ≠ '=')
  match argument.toList.dropWhile (· ≠ '=') with
  | [] => (String.ofList name, none)
  | _ :: value => (String.ofList name, some (String.ofList value))

/-- Tell options apart from positional arguments. `valued` are the options that take a value and
`flags` those that take none. There is no answer for an unknown option, a missing value or a value
that is not wanted. -/
def items? (valued flags : List String) : List String → Option (List Item)
  | [] => some []
  | argument :: rest =>
    if argument = "--" then some (rest.map .positional)
    else if isVerbosity argument then items? valued flags rest
    else
      match asksUsage? argument with
      | some inFull => some [.usage inFull]
      | none =>
        if !isOption argument then (items? valued flags rest).map (.positional argument :: ·)
        else
          let (name, value) := splitOption argument
          if valued.contains name then
            match value with
            | some value => (items? valued flags rest).map (.option name value :: ·)
            | none =>
              match rest with
              | [] => none
              | value :: rest =>
                if isOption value then none
                else (items? valued flags rest).map (.option name value :: ·)
          else if flags.contains name ∧ value.isNone then
            (items? valued flags rest).map (.flag name :: ·)
          else none

/-- The positional arguments among items. -/
def positionals (items : List Item) : List String :=
  items.filterMap fun
    | .positional text => some text
    | _ => none

/-- The question how the command is used, if it is among items. -/
def usage? (items : List Item) : Option Bool :=
  items.findSome? fun
    | .usage inFull => some inFull
    | _ => none

/-- The only member of a list, if it has one: no answer when it has more. -/
def atMostOne? : List String → Option (Option String)
  | [] => some none
  | [value] => some (some value)
  | _ => none

/-- The value of an option that may be given at most once: no answer when it is given twice. -/
def single? (items : List Item) (name : String) : Option (Option String) :=
  atMostOne? <| items.filterMap fun
    | .option other value => if other = name then some value else none
    | _ => none

/-- Whether a flag that may be given at most once is given. -/
def flag? (items : List Item) (name : String) : Option Bool :=
  match items.countP (· == .flag name) with
  | 0 => some false
  | 1 => some true
  | _ => none

/-- A path among the arguments, which must not be empty. -/
def path? (text : String) : Option String :=
  if text.isEmpty then none else some text

/-- An optional path among the arguments, which must not be empty if it is given. -/
def optionalPath? : Option String → Option (Option String)
  | none => some none
  | some text => (path? text).map some

/-- The arguments of the command that wraps functions. -/
def wrapCommand? (arguments : List String) : Option Command := do
  let items ← items? ["--format", "--config", "--adapter", "--marker"] ["--write"] arguments
  let path ← optionalPath? (← atMostOne? (positionals items))
  let write ← flag? items "--write"
  let format ← Format.ofOption? (← single? items "--format")
  let config ← optionalPath? (← single? items "--config")
  let adapter ← single? items "--adapter"
  let marker ← single? items "--marker"
  match usage? items with
  | some inFull => some (.showPage (.usage ["rewrite"] inFull))
  | none => path.map fun path => .wrap path write format config adapter marker

/-- The arguments of a command on the configuration. -/
def configCommand? (name : String) (make : Option String → Command) (arguments : List String) :
    Option Command := do
  let items ← items? ["--path"] [] arguments
  let path ← optionalPath? (← single? items "--path")
  match positionals items, usage? items with
  | [], some inFull => some (.showPage (.usage ["config", name] inFull))
  | [], none => some (make path)
  | _ :: _, _ => none

/-- The names of the commands below the command with the given names. -/
def subcommands : List String → List String
  | [] => ["rewrite", "config", "help"]
  | ["config"] => ["validate", "show", "help"]
  | _ => []

/-- The page on a command below another one, by the names on the way down to it. -/
def pageBelow? (command : List String) : List String → Option Page
  | [] => some (.usage command true)
  | name :: rest =>
    if (subcommands command).contains name then pageBelow? (command ++ [name]) rest else none

/-- The command below another one that the first argument names. In front of it only the amount of
logging may be set, and in its place the other command's usage may be asked for. -/
def subcommand? (command : List String) (named? : String → List String → Option Command)
    (arguments : List String) : Option Command :=
  match arguments.dropWhile isVerbosity with
  | [] => none
  | name :: rest =>
    match asksUsage? name with
    | some inFull => some (.showPage (.usage command inFull))
    | none => if name = "help" then (pageBelow? command rest).map .showPage else named? name rest

/-- The command on the configuration that arguments ask for. -/
def parseConfig? : List String → Option Command :=
  subcommand? ["config"] fun
    | "validate" => configCommand? "validate" .validateConfig
    | "show" => configCommand? "show" .showConfig
    | _ => fun _ => none

/-- The command that arguments ask for. There is no answer for a usage error. -/
def parse? : List String → Option Command :=
  subcommand? [] fun
    | "rewrite" => wrapCommand?
    | "config" => parseConfig?
    | name => fun _ => if asksVersion name then some (.showPage .version) else none

end CachedCalls.CommandLine
