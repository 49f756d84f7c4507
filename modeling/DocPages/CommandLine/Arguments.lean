/-
Reading the command line.

Options are long, with a value in the next argument or behind an equals sign, or short,
and then several may stand in one argument.  Two hyphens end the options.
-/
import DocPages.Text.Cut

namespace DocPages
namespace CommandLine

open Text

structure Arguments where
  inputs : List String := []
  output : Option String := none
  config : Option String := none
  noTitle : Bool := false
  contents : Bool := false
  noAttributes : Bool := false
  inlineTypes : Bool := false
  disabledPlugins : List String := []
  listPlugins : Bool := false
  dumpConfig : Bool := false
  verbosity : Nat := 0
deriving Repr, DecidableEq

/-- What the command line asks for. -/
inductive Request where
  | help
  | version
  | run (arguments : Arguments)
deriving Repr, DecidableEq

inductive UsageError where
  | unknown (argument : String)
  | repeated (option : String)
  | missingValue (option : String)
  | emptyValue (option : String)
  | unexpectedValue (option value : String)
deriving Repr, DecidableEq

def UsageError.message : UsageError → String
  | .unknown argument => "unexpected argument '" ++ argument ++ "' found"
  | .repeated option => "the argument '" ++ option ++ "' cannot be used multiple times"
  | .missingValue option => "a value is required for '" ++ option ++ "' but none was supplied"
  | .emptyValue option => "a value is required for '" ++ option ++ "' but none was supplied"
  | .unexpectedValue option value =>
    "unexpected value '" ++ value ++ "' for '" ++ option ++ "' found; no more were expected"

/-- Options that stand alone. -/
inductive Flag where
  | noTitle
  | contents
  | noAttributes
  | inlineTypes
  | listPlugins
  | dumpConfig
  | verbose
  | help
  | version
deriving Repr, DecidableEq

/-- Options with a value. -/
inductive Setting where
  | output
  | config
  | disablePlugin
deriving Repr, DecidableEq

abbrev Opt := Flag ⊕ Setting

def long? : String → Option Opt
  | "no-title" => some (.inl .noTitle)
  | "toc" => some (.inl .contents)
  | "no-attributes" => some (.inl .noAttributes)
  | "inline-classes" => some (.inl .inlineTypes)
  | "list-plugins" => some (.inl .listPlugins)
  | "dump-config" => some (.inl .dumpConfig)
  | "verbose" => some (.inl .verbose)
  | "help" => some (.inl .help)
  | "version" => some (.inl .version)
  | "output" => some (.inr .output)
  | "config" => some (.inr .config)
  | "disable-plugin" => some (.inr .disablePlugin)
  | _ => none

def short? : Char → Option Opt
  | 'v' => some (.inl .verbose)
  | 'h' => some (.inl .help)
  | 'V' => some (.inl .version)
  | 'o' => some (.inr .output)
  | 'c' => some (.inr .config)
  | _ => none

/-- How reading may stop early. -/
inductive Stop where
  | usage (error : UsageError)
  | help
  | version
deriving Repr, DecidableEq

/-- Turns something on that can be turned on only once. -/
def once (option : String) (already : Bool) (a : Arguments) : Except Stop Arguments :=
  if already then .error (.usage (.repeated option)) else .ok a

def setFlag (a : Arguments) : Flag → Except Stop Arguments
  | .noTitle => once "--no-title" a.noTitle { a with noTitle := true }
  | .contents => once "--toc" a.contents { a with contents := true }
  | .noAttributes => once "--no-attributes" a.noAttributes { a with noAttributes := true }
  | .inlineTypes => once "--inline-classes" a.inlineTypes { a with inlineTypes := true }
  | .listPlugins => once "--list-plugins" a.listPlugins { a with listPlugins := true }
  | .dumpConfig => once "--dump-config" a.dumpConfig { a with dumpConfig := true }
  | .verbose => .ok { a with verbosity := a.verbosity + 1 }
  | .help => .error .help
  | .version => .error .version

/-- A path must not be empty. -/
def nonEmpty (option value : String) : Except Stop Unit :=
  if value.isEmpty then .error (.usage (.emptyValue option)) else .ok ()

def setValue (a : Arguments) (value : String) : Setting → Except Stop Arguments
  | .output => do
    nonEmpty "--output" value
    once "--output" a.output.isSome { a with output := some value }
  | .config => do
    nonEmpty "--config" value
    once "--config" a.config.isSome { a with config := some value }
  | .disablePlugin => .ok { a with disabledPlugins := a.disabledPlugins ++ [value] }

def Setting.display : Setting → String
  | .output => "--output <OUTPUT>"
  | .config => "--config <CONFIG>"
  | .disablePlugin => "--disable-plugin <NAME>"

def addInput (a : Arguments) (value : String) : Except Stop Arguments := do
  nonEmpty "[INPUTS]..." value
  .ok { a with inputs := a.inputs ++ [value] }

/-- Short options in one argument.  The first that takes a value takes the rest of the
argument, if there is any, and else it waits for the next argument. -/
def readShort (a : Arguments) : List Char → Except Stop (Arguments × Option Setting)
  | [] => .ok (a, none)
  | c :: rest =>
    match short? c with
    | none => .error (.usage (.unknown (String.ofList ['-', c])))
    | some (.inl flag) => do
      let a ← setFlag a flag
      readShort a rest
    | some (.inr setting) =>
      match rest with
      | [] => .ok (a, some setting)
      | '=' :: value => (setValue a (String.ofList value) setting).map (·, none)
      | value => (setValue a (String.ofList value) setting).map (·, none)

/-- A long option without its hyphens. -/
def readLong (a : Arguments) (s : List Char) : Except Stop (Arguments × Option Setting) :=
  let name := String.ofList (s.takeWhile (· ≠ '='))
  let value? := (s.dropWhile (· ≠ '=')).tail? |>.map String.ofList
  match long? name, value? with
  | none, _ => .error (.usage (.unknown ("--" ++ name)))
  | some (.inl flag), none => (setFlag a flag).map (·, none)
  | some (.inl _), some value => .error (.usage (.unexpectedValue ("--" ++ name) value))
  | some (.inr setting), none => .ok (a, some setting)
  | some (.inr setting), some value => (setValue a value setting).map (·, none)

/-- Reads arguments one by one.  `waiting` is an option whose value has to come next, and
a value does not look like an option, though a single hyphen is one. -/
def readAll (a : Arguments) (waiting : Option Setting) : List String → Except Stop Arguments
  | [] =>
    match waiting with
    | some setting => .error (.usage (.missingValue setting.display))
    | none => .ok a
  | argument :: rest =>
    match argument.toList, waiting with
    | '-' :: _ :: _, some setting => .error (.usage (.missingValue setting.display))
    | _, some setting => do
      let a ← setValue a argument setting
      readAll a none rest
    | ['-', '-'], none => rest.foldlM addInput a
    | '-' :: '-' :: name, none => do
      let (a, waiting) ← readLong a name
      readAll a waiting rest
    | '-' :: c :: more, none => do
      let (a, waiting) ← readShort a (c :: more)
      readAll a waiting rest
    | _, none => do
      let a ← addInput a argument
      readAll a none rest

/-- What the arguments of the program ask for. -/
def parse (arguments : List String) : Except UsageError Request :=
  match readAll {} none arguments with
  | .ok a => .ok (.run a)
  | .error .help => .ok .help
  | .error .version => .ok .version
  | .error (.usage e) => .error e

end CommandLine
end DocPages
