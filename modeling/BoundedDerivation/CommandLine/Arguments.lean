import BoundedDerivation.Kind
import BoundedDerivation.Text.Blank

/-! Arguments of the command line, read from left to right. No switch may be given twice, a setting
takes a number, and one misused argument spoils them all, unless the version or help has been
asked for before it. -/
namespace BoundedDerivation.CommandLine

inductive Setting where
  | length
  | count
  | seed
  | maxDepth
  | maxLength
  deriving DecidableEq

inductive Flag where
  | strictMatrices
  | json
  | quiet
  deriving DecidableEq

/-- What a name after one or two hyphens stands for. -/
inductive Switch where
  | setting (setting : Setting)
  | flag (flag : Flag)
  | version
  | help

def shortSwitch : Char → Option Switch
  | 'l' => some (.setting .length)
  | 'n' => some (.setting .count)
  | 'q' => some (.flag .quiet)
  | 'V' => some .version
  | 'h' => some .help
  | _ => none

def longSwitches : List (String × Switch) :=
  [("length", .setting .length), ("count", .setting .count), ("seed", .setting .seed),
    ("max-depth", .setting .maxDepth), ("max-length", .setting .maxLength),
    ("strict-matrices", .flag .strictMatrices), ("json", .flag .json), ("quiet", .flag .quiet),
    ("version", .version), ("help", .help)]

def longSwitch (name : Text) : Option Switch := longSwitches.lookup (String.ofList name)

/-- The arguments of a run that derives words. -/
structure Options where
  file : Option Text := none
  settings : List (Setting × Nat) := []
  flags : List Flag := []
  deriving DecidableEq

/-- The arguments of a run that writes an example. -/
structure ExampleOptions where
  kind : Option Kind := none
  output : Option Text := none
  json : Bool := false
  deriving DecidableEq

/-- What the arguments ask for. -/
inductive Request where
  | derive (options : Options)
  | example (options : ExampleOptions)
  | version
  | help
  deriving DecidableEq

/-- A number in decimal that fits into 64 bits, with or without a plus sign. -/
def readNumber (text : Text) : Option Nat :=
  let digits := match text with
    | '+' :: digits => digits
    | digits => digits
  let value := digits.foldl (fun n c => n * 10 + (c.toNat - '0'.toNat)) 0
  if digits ≠ [] && digits.all Char.isDigit && value < UInt64.size then some value else none

namespace Options

def get (options : Options) (setting : Setting) : Option Nat := options.settings.lookup setting

def has (options : Options) (flag : Flag) : Bool := options.flags.contains flag

/-- Settings are made once. -/
def set (options : Options) (setting : Setting) (value : Text) : Option Options :=
  match options.get setting, readNumber value with
  | none, some number => some { options with settings := (setting, number) :: options.settings }
  | _, _ => none

def raise (options : Options) (flag : Flag) : Option Options :=
  if options.has flag then none else some { options with flags := flag :: options.flags }

/-- There is one operand, the path of the grammar file, which may not be empty. -/
def operand (options : Options) (path : Text) : Option Options :=
  if options.file = none ∧ path ≠ [] then some { options with file := some path } else none

end Options

/-- Where an argument that starts with a hyphen leaves the reading. -/
inductive Step where
  | go (options : Options)
  | await (setting : Setting) (options : Options)
  | stop (request : Request)

/-- A name in full, with its value after an equals sign if it has one there. -/
def readLong (options : Options) (argument : Text) : Option Step :=
  let value := match argument.dropWhile (· ≠ '=') with
    | [] => none
    | _ :: value => some value
  match longSwitch (argument.takeWhile (· ≠ '=')), value with
  | some (.setting setting), some value => (options.set setting value).map .go
  | some (.setting setting), none => some (.await setting options)
  | some (.flag flag), none => (options.raise flag).map .go
  | some .version, none => some (.stop .version)
  | some .help, none => some (.stop .help)
  | _, _ => none

/-- Letters in a row. What follows the letter of a setting is its value. -/
def readShort (options : Options) : Text → Option Step
  | [] => some (.go options)
  | letter :: rest =>
    match shortSwitch letter with
    | some (.setting setting) => match rest with
      | [] => some (.await setting options)
      | '=' :: value => (options.set setting value).map .go
      | value => (options.set setting value).map .go
    | some (.flag flag) => match options.raise flag with
      | some options => readShort options rest
      | none => none
    | some .version => some (.stop .version)
    | some .help => some (.stop .help)
    | none => none

/-- A hyphen alone is an operand like any other. -/
def isSwitch : Text → Bool
  | '-' :: _ :: _ => true
  | _ => false

namespace ExampleOptions

def kinds : List (String × Kind) := [("cfg", .contextFree), ("mg", .matrix)]

/-- The first operand names the kind of the example, the second one the file to write. -/
def operand (options : ExampleOptions) (argument : Text) : Option ExampleOptions :=
  match options.kind, options.output with
  | none, _ =>
    (kinds.lookup (String.ofList argument)).map fun kind => { options with kind := some kind }
  | some _, none => if argument = [] then none else some { options with output := some argument }
  | some _, some _ => none

def operands (options : ExampleOptions) (arguments : List Text) : Option ExampleOptions :=
  arguments.foldlM operand options

end ExampleOptions

/-- Arguments after the word that asks for an example. -/
def readExample (options : ExampleOptions) : List Text → Option Request
  | [] => some (.example options)
  | argument :: rest =>
    if argument = "--".toList then (options.operands rest).map .example
    else if argument = "--json".toList then
      if options.json then none else readExample { options with json := true } rest
    else if argument = "--help".toList ∨ argument.take 2 = "-h".toList then some .help
    else if isSwitch argument then none
    else match options.operand argument with
      | some options => readExample options rest
      | none => none

/-- Help may be asked for on the words that ask for something else than a derivation. -/
def readHelp (arguments : List Text) : Option Request :=
  if arguments ∈ [[], ["example".toList], ["help".toList]] then some .help else none

/-- Arguments of a run that derives words, unless they turn out to ask for something else. -/
def readArguments (options : Options) : List Text → Option Request
  | [] => some (.derive options)
  | argument :: rest =>
    if argument = "example".toList then readExample {} rest
    else if argument = "help".toList then readHelp rest
    else if argument = "--".toList then (rest.foldlM Options.operand options).map .derive
    else if isSwitch argument then
      let step := match argument with
        | _ :: '-' :: long => readLong options long
        | _ :: short => readShort options short
        | [] => none
      match step with
      | none => none
      | some (.stop request) => some request
      | some (.go options) => readArguments options rest
      | some (.await setting options) => match rest with
        | [] => none
        | value :: rest =>
          if isSwitch value then none
          else match options.set setting value with
            | some options => readArguments options rest
            | none => none
    else match options.operand argument with
      | some options => readArguments options rest
      | none => none

/-- What the arguments ask for; none if they are misused. -/
def Request.ofArguments (arguments : List Text) : Option Request := readArguments {} arguments

end BoundedDerivation.CommandLine
