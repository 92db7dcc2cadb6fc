import BoundedDerivation.Definition.Encoding
import BoundedDerivation.Json.Reader
import BoundedDerivation.LineForm.Reader
import BoundedDerivation.Path

/-! Grammars from files. The extension of the file's name decides the form of its content. -/
namespace BoundedDerivation.GrammarFile

/-- JSON files are known by their extension, in letters of either case. -/
def isJson (path : Text) : Bool :=
  (Path.ofText path).extension.any fun ext => ext.map Char.toLower = "json".toList

def ofBytes (bytes : ByteArray) : Except FileFault Text :=
  match String.fromUTF8? bytes with
  | some text => .ok text.toList
  | none => .error .notUtf8

def readDefinition (text : Text) : Except GrammarError Definition :=
  match Json.read text >>= Definition.decode with
  | some definition => .ok definition
  | none => .error .malformedJson

/-- The grammar that a file holds, of which we know the path and the content or why it has none. -/
def load (path : Text) (content : Except FileFault Text) (config : Config) : Checked Grammar := do
  let text ← content.mapError GrammarError.unreadable
  let json := isJson path
  Checked.tell (.loading json)
  if json then
    (← readDefinition text).build config
  else
    LineForm.read text config

end BoundedDerivation.GrammarFile
