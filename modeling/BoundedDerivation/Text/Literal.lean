import BoundedDerivation.Text.Joining
import BoundedDerivation.Text.Unassigned

/-! Literals: texts and characters in quotes, written so that every character can be told. What
cannot be seen on its own is given by its number. -/
namespace BoundedDerivation.Text

def isControl (c : Char) : Bool := c.toNat < 0x20 || (0x7F ≤ c.toNat && c.toNat < 0xA0)

/-- The format characters (general category Cf in Unicode 17.0), and the four letters that fill
the place of a missing part of a Hangul syllable. -/
def formlessRanges : Ranges :=
  [(0xAD, 0xAD), (0x600, 0x605), (0x61C, 0x61C), (0x6DD, 0x6DD), (0x70F, 0x70F), (0x890, 0x891),
    (0x8E2, 0x8E2), (0x115F, 0x1160), (0x180E, 0x180E), (0x200B, 0x200F), (0x202A, 0x202E),
    (0x2060, 0x2064), (0x2066, 0x206F), (0x3164, 0x3164), (0xFEFF, 0xFEFF), (0xFFA0, 0xFFA0),
    (0xFFF9, 0xFFFB), (0x110BD, 0x110BD), (0x110CD, 0x110CD), (0x13430, 0x1343F),
    (0x1BCA0, 0x1BCA3), (0x1D173, 0x1D17A), (0xE0001, 0xE0001), (0xE0020, 0xE007F)]

example : formlessRanges.isAscending = true ∧ formlessRanges.count = 174 := by decide

def isFormless (c : Char) : Bool := formlessRanges.covers c

/-- Of the ASCII characters only the controls are unseen: the space shows by its width. -/
def isUnseen (c : Char) : Bool :=
  isControl c ||
    (0x7F < c.toNat && (isBlank c || isFormless c || isJoining c || isUnassigned c))

/-- One character of a literal in the given quotes. -/
def exposeIn (quote c : Char) : Text :=
  if c = quote || c = '\\' then ['\\', c]
  else if c = '\n' then ['\\', 'n']
  else if c = '\r' then ['\\', 'r']
  else if c = '\t' then ['\\', 't']
  else if c = '\x00' then ['\\', '0']
  else if isUnseen c then '\\' :: 'u' :: '\x7b' :: Nat.toDigits 16 c.toNat ++ ['\x7d']
  else [c]

def literal (text : Text) : Text := '"' :: text.flatMap (exposeIn '"') ++ ['"']

def charLiteral (c : Char) : Text := '\'' :: exposeIn '\'' c ++ ['\'']

end BoundedDerivation.Text
