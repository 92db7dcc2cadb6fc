import BoundedDerivation.CommandLine.Detail
import BoundedDerivation.CommandLine.Example
import BoundedDerivation.CommandLine.Folder
import BoundedDerivation.CommandLine.Report
import BoundedDerivation.GrammarFile
import BoundedDerivation.Randomness.ChaCha

/-! Whole runs of the command line, on a disk. -/
namespace BoundedDerivation.CommandLine
open Randomness

/-- What a run leaves behind besides files. -/
structure Exit where
  code : Nat
  output : Text
  errors : Text
  deriving DecidableEq

namespace Exit

def success (output : Text) : Exit := ⟨0, output, []⟩

def failure (detail : Text) : Exit := ⟨1, [], "Error: ".toList ++ detail ++ ['\n']⟩

end Exit

def usage : Text :=
  ("Usage: grammar-derive [OPTIONS] [GRAMMAR_FILE]\n" ++
    "       grammar-derive example [--json] [cfg|mg] [OUTPUT]\n" ++
    "Options: -l/--length N, -n/--count N, --seed N, --max-depth N, --max-length N,\n" ++
    "         --strict-matrices, --json, -q/--quiet, -V/--version, -h/--help\n").toList

def misuse : Exit := ⟨2, [], usage⟩

def versionLine : Text := "grammar-derive 0.1.0\n".toList

/-- The random source of a run. A fresh one is used where the options give no seed. -/
def Options.source (options : Options) (fresh : ChaCha) : ChaCha :=
  match options.get .seed with
  | some seed => .ofSeed seed.toUInt64
  | none => fresh

/-- A run on the grammar file that has been asked for. None if the random source gives out. -/
def runOptions (options : Options) (read : Text → Except FileFault Text) (fresh : ChaCha) :
    Option Exit :=
  match options.file with
  | none => some (.failure (quoted "Grammar file path required"))
  | some path =>
    match (GrammarFile.load path (read path) options.config).result with
    | .error error => some (.failure (detail error))
    | .ok grammar =>
      (report options grammar (options.source fresh)).map fun lines =>
        .success (lines.flatMap Line.write)

/-- A run that writes an example to a disk. -/
def runExample (options : ExampleOptions) (disk : Disk) : Exit × Disk :=
  match options.content with
  | .error error => (.failure (detail error), disk)
  | .ok content =>
    match disk.write options.path content with
    | .error fault => (.failure (faultDetail fault), disk)
    | .ok disk => (.success options.confirmation, disk)

def runOn (disk : Disk) (arguments : List Text) (fresh : ChaCha) : Option (Exit × Disk) :=
  match Request.ofArguments arguments with
  | none => some (misuse, disk)
  | some .help => some (.success usage, disk)
  | some .version => some (.success versionLine, disk)
  | some (.example options) => some (runExample options disk)
  | some (.derive options) => (runOptions options disk.read fresh).map (·, disk)

/-- A run in a folder, whose fresh source has a seed as well. -/
def run (arguments : List Text) (seed : UInt64) (folder : Folder) : Option (Exit × Folder) :=
  (runOn folder.disk arguments (.ofSeed seed)).map fun (exit, disk) => (exit, .ofDisk disk)

end BoundedDerivation.CommandLine
