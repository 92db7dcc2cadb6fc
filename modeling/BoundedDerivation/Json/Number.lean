import BoundedDerivation.Text.Blank

/-! Numerals. A reader that keeps numbers in double precision refuses those that are too large for
it, and it comes to know of them in its own way: from the digits that fit into 64 bits. -/
namespace BoundedDerivation.Json

structure Numeral where
  negative : Bool
  whole : Text
  /-- The digits after the point, empty if there is no point. -/
  fraction : Text
  /-- Whether the exponent is negative, and its digits. -/
  exponent : Option (Bool × Text)
  deriving DecidableEq

namespace Numeral

/-- The numeral of a small whole number. -/
def ofNat (n : Nat) : Numeral := ⟨false, Nat.toDigits 10 n, [], none⟩

def digit (c : Char) : Nat := c.toNat - '0'.toNat

/-- The number with one more digit, unless it outgrows 64 bits. -/
def extend (significand : Nat) (c : Char) : Option Nat :=
  let extended := significand * 10 + digit c
  if extended < UInt64.size then some extended else none

/-- Takes whole digits while they fit, and counts the remaining ones. -/
def takeWhole (significand : Nat) : Text → Nat × Nat
  | [] => (significand, 0)
  | c :: rest =>
    match extend significand c with
    | some extended => takeWhole extended rest
    | none => (significand, rest.length + 1)

/-- Takes digits after the point while they fit, and counts them. -/
def takeFraction (significand : Nat) : Text → Nat × Nat
  | [] => (significand, 0)
  | c :: rest =>
    match extend significand c with
    | some extended =>
      let (final, count) := takeFraction extended rest
      (final, count + 1)
    | none => (significand, 0)

/-- The nearest number of 53 significant bits, the even one of two. -/
def nearestDouble (n : Nat) : Nat :=
  let shift := n.log2 - 52
  let kept := n >>> shift
  let lost := n - kept <<< shift
  let half := 1 <<< shift / 2
  if shift = 0 || lost < half || (lost = half && kept % 2 = 0) then kept <<< shift
  else (kept + 1) <<< shift

/-- A product of doubles overflows from the midpoint between the largest double and the power of
two after it. -/
def overflows (significand power : Nat) : Bool :=
  1 <<< 1024 - 1 <<< 970 ≤ nearestDouble significand * nearestDouble (Nat.pow 10 power)

/-- The exponent that the digits of an exponent denote; past 31 bits its size does not matter. -/
def exponentValue : Option (Bool × Text) → Int
  | none => 0
  | some (negative, digits) =>
    let size := min (digits.foldl (fun n c => n * 10 + digit c) 0) (1 <<< 31)
    if negative then -size else size

def inRange (numeral : Numeral) : Bool :=
  let (whole, dropped) := takeWhole 0 numeral.whole
  let (significand, taken) := takeFraction whole numeral.fraction
  let exponent := (dropped : Int) - taken + exponentValue numeral.exponent
  significand = 0 || exponent < 0 ||
    (exponent ≤ 308 && !overflows significand exponent.toNat)

def write (numeral : Numeral) : Text :=
  (if numeral.negative then ['-'] else []) ++ numeral.whole ++
    (if numeral.fraction = [] then [] else '.' :: numeral.fraction) ++
    match numeral.exponent with
    | none => []
    | some (negative, digits) => 'e' :: (if negative then ['-'] else []) ++ digits

/-- The digits at the front of a text, at least one, and what follows them. -/
def readDigits (text : Text) : Option (Text × Text) :=
  match text.takeWhile Char.isDigit with
  | [] => none
  | digits => some (digits, text.dropWhile Char.isDigit)

def readFraction : Text → Option (Text × Text)
  | '.' :: rest => readDigits rest
  | rest => some ([], rest)

def readExponent (text : Text) : Option (Option (Bool × Text) × Text) :=
  match text with
  | c :: rest =>
    if c = 'e' || c = 'E' then
      let (negative, rest) := match rest with
        | '-' :: rest => (true, rest)
        | '+' :: rest => (false, rest)
        | rest => (false, rest)
      (readDigits rest).map fun (digits, rest) => (some (negative, digits), rest)
    else some (none, text)
  | [] => some (none, [])

/-- Zero is the only number whose first digit is a zero. -/
def read (text : Text) : Option (Numeral × Text) := do
  let (negative, text) := match text with
    | '-' :: rest => (true, rest)
    | rest => (false, rest)
  let (whole, text) ← readDigits text
  if whole.head? = some '0' && whole ≠ ['0'] then
    none
  let (fraction, text) ← readFraction text
  let (exponent, text) ← readExponent text
  let numeral : Numeral := ⟨negative, whole, fraction, exponent⟩
  if numeral.inRange then some (numeral, text) else none

end Numeral
end BoundedDerivation.Json
