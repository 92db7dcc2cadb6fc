import BoundedDerivation.Text.Blank

/-! Quoted strings. Writing escapes quotes, backslashes and control characters only; reading also
takes escaped solidi and hexadecimal escapes of any character, in pairs beyond 16 bits. -/
namespace BoundedDerivation.Json.Quoted

def hexDigit (n : Nat) : Char := (Nat.toDigits 16 n).headD '0'

def escape (c : Char) : Text :=
  if c = '"' then ['\\', '"']
  else if c = '\\' then ['\\', '\\']
  else if c = '\x08' then ['\\', 'b']
  else if c = '\x0c' then ['\\', 'f']
  else if c = '\n' then ['\\', 'n']
  else if c = '\r' then ['\\', 'r']
  else if c = '\t' then ['\\', 't']
  else if c.toNat < 0x20 then
    ['\\', 'u', '0', '0', hexDigit (c.toNat / 16), hexDigit (c.toNat % 16)]
  else [c]

def write (text : Text) : Text := '"' :: text.flatMap escape ++ ['"']

def hexValue (c : Char) : Option Nat :=
  if '0' ≤ c ∧ c ≤ '9' then some (c.toNat - '0'.toNat)
  else if 'a' ≤ c ∧ c ≤ 'f' then some (c.toNat - 'a'.toNat + 10)
  else if 'A' ≤ c ∧ c ≤ 'F' then some (c.toNat - 'A'.toNat + 10)
  else none

/-- Four hexadecimal digits make a unit of 16 bits. -/
def unit (a b c d : Char) : Option Nat := do
  return (((← hexValue a) * 16 + (← hexValue b)) * 16 + (← hexValue c)) * 16 + (← hexValue d)

def isHigh (unit : Nat) : Bool := 0xD800 ≤ unit && unit < 0xDC00

def isLow (unit : Nat) : Bool := 0xDC00 ≤ unit && unit < 0xE000

/-- The character beyond 16 bits that a high and a low unit stand for. -/
def pair (high low : Nat) : Char := Char.ofNat (0x10000 + (high - 0xD800) * 0x400 + (low - 0xDC00))

/-- What a backslash and one letter stand for. -/
def shortEscape (c : Char) : Option Char :=
  if c = '"' ∨ c = '\\' ∨ c = '/' then some c
  else if c = 'b' then some '\x08'
  else if c = 'f' then some '\x0c'
  else if c = 'n' then some '\n'
  else if c = 'r' then some '\r'
  else if c = 't' then some '\t'
  else none

def prepend (c : Char) : Option (Text × Text) → Option (Text × Text) :=
  Option.map fun (content, rest) => (c :: content, rest)

/-- Reads on from an opening quote: the content, and what follows the closing quote. A unit that
is half of a pair is refused without its other half. -/
def readBody : Text → Option (Text × Text)
  | [] => none
  | c :: text =>
    if c = '"' then some ([], text)
    else if c = '\\' then
      match text with
      | 'u' :: a :: b :: c :: d :: text =>
        match unit a b c d with
        | none => none
        | some high =>
          if isLow high then none
          else if isHigh high then
            match text with
            | '\\' :: 'u' :: a :: b :: c :: d :: text =>
              match unit a b c d with
              | none => none
              | some low => if isLow low then prepend (pair high low) (readBody text) else none
            | _ => none
          else prepend (Char.ofNat high) (readBody text)
      | letter :: text =>
        match shortEscape letter with
        | none => none
        | some c => prepend c (readBody text)
      | [] => none
    else if c.toNat < 0x20 then none
    else prepend c (readBody text)

end BoundedDerivation.Json.Quoted
