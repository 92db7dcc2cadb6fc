import BoundedDerivation.CommandLine.Run

/-! The program: arguments, files and standard streams around the runs of the command line. -/
namespace BoundedDerivation.CommandLine
open Randomness

/-- A file that is inspected before it is opened has its fault numbered below zero. -/
def isNumbered (code number : UInt32) : Bool := code = number || code = 0 - number

/-- Faults of the file system that runs know about; any other one ends the program. -/
def faultOf : IO.Error → IO FileFault
  | .noFileOrDirectory .. => return .notFound
  | .inappropriateType _ code _ =>
    return if isNumbered code 21 then .isDirectory else .notDirectory
  | error@(.invalidArgument _ code _) =>
    if isNumbered code 36 then return .nameTooLong else throw error
  | error => throw error

def readFile (path : Text) : IO (Except FileFault Text) := do
  match ← (IO.FS.readBinFile (String.ofList path)).toBaseIO with
  | .ok bytes => return GrammarFile.ofBytes bytes
  | .error error => return .error (← faultOf error)

def writeFile (path content : Text) : IO (Except FileFault Unit) := do
  match ← (IO.FS.writeFile (String.ofList path) (String.ofList content)).toBaseIO with
  | .ok () => return .ok ()
  | .error error => return .error (← faultOf error)

def freshWord : IO UInt32 := do
  let bytes ← IO.getRandomBytes 4
  return bytes.foldl (fun word byte => word * 256 + byte.toUInt32) 0

def freshRow : IO Row := return ⟨← freshWord, ← freshWord, ← freshWord, ← freshWord⟩

/-- A source with a random key. -/
def freshSource : IO ChaCha := return .ofKey (← freshRow) (← freshRow)

def finish (exit : Exit) : IO UInt32 := do
  IO.print (String.ofList exit.output)
  IO.eprint (String.ofList exit.errors)
  return exit.code.toUInt32

def performExample (options : ExampleOptions) : IO Exit := do
  match options.content with
  | .error error => return .failure (detail error)
  | .ok content => match ← writeFile options.path content with
    | .error fault => return .failure (faultDetail fault)
    | .ok () => return .success options.confirmation

def performOptions (options : Options) : IO Exit := do
  let content ← match options.file with
    | some path => readFile path
    | none => pure (.error .notFound)
  match runOptions options (fun _ => content) (← freshSource) with
  | some exit => return exit
  | none => throw (IO.userError "the random source gave out")

def perform (arguments : List Text) : IO Exit := do
  match Request.ofArguments arguments with
  | none => return misuse
  | some .help => return .success usage
  | some .version => return .success versionLine
  | some (.example options) => performExample options
  | some (.derive options) => performOptions options

end BoundedDerivation.CommandLine

def main (arguments : List String) : IO UInt32 := do
  BoundedDerivation.CommandLine.finish
    (← BoundedDerivation.CommandLine.perform (arguments.map String.toList))
