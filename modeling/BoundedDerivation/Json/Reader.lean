import BoundedDerivation.Json.Quoted
import BoundedDerivation.Json.Value

/-! Reading JSON, strictly: nothing may follow the value but blanks, and brackets may be nested
127 deep. -/
namespace BoundedDerivation.Json

/-- The four characters that may stand between tokens. -/
def isSpace (c : Char) : Bool := c = ' ' || c = '\n' || c = '\t' || c = '\r'

def skip (text : Text) : Text := text.dropWhile isSpace

/-- The rest of a text that starts with the given word. -/
def expect : Text → Text → Option Text
  | [], text => some text
  | _, [] => none
  | c :: word, d :: text => if c = d then expect word text else none

/-- Items up to a closing bracket, at least one, with commas between them, in a limited number of
rounds. Every item takes a character with it, so one round for each character is enough. -/
def readItems {α : Type} (readItem : Text → Option (α × Text)) (close : Char) :
    Nat → Text → Option (List α × Text)
  | 0, _ => none
  | rounds + 1, text => do
    let (item, text) ← readItem text
    match skip text with
    | [] => none
    | c :: text =>
      if c = close then some ([item], text)
      else if c = ',' then
        let (items, text) ← readItems readItem close rounds text
        some (item :: items, text)
      else none

/-- Everything between two brackets, of which the first one has been read. -/
def readBracket {α : Type} (readItem : Text → Option (α × Text)) (close : Char) (rounds : Nat)
    (text : Text) : Option (List α × Text) :=
  match skip text with
  | [] => none
  | c :: rest =>
    if c = close then some ([], rest) else readItems readItem close rounds (c :: rest)

/-- A quoted key, a colon and a value. -/
def readMember (readValue : Text → Option (Json × Text)) (text : Text) :
    Option ((Text × Json) × Text) := do
  let text ← expect ['"'] (skip text)
  let (key, text) ← Quoted.readBody text
  let text ← expect [':'] (skip text)
  let (value, text) ← readValue text
  return ((key, value), text)

/-- A value whose brackets are nested to the given depth at most, each with as many items as there
are rounds at most, and what follows it. -/
def readValue (rounds depth : Nat) (text : Text) : Option (Json × Text) :=
  match skip text with
  | [] => none
  | 'n' :: text => (expect "ull".toList text).map fun text => (null, text)
  | 't' :: text => (expect "rue".toList text).map fun text => (bool true, text)
  | 'f' :: text => (expect "alse".toList text).map fun text => (bool false, text)
  | '"' :: text => (Quoted.readBody text).map fun (value, text) => (string value, text)
  | '[' :: text => match depth with
    | 0 => none
    | depth + 1 => (readBracket (readValue rounds depth) ']' rounds text).map
      fun (items, text) => (array items, text)
  | '{' :: text => match depth with
    | 0 => none
    | depth + 1 => (readBracket (readMember (readValue rounds depth)) '}' rounds text).map
      fun (members, text) => (object members, text)
  | text => (Numeral.read text).map fun (numeral, text) => (number numeral, text)

def read (text : Text) : Option Json := do
  let (value, text) ← readValue text.length 127 text
  if skip text = [] then some value else none

end BoundedDerivation.Json
