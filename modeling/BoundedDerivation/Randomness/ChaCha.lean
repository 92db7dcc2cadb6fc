import BoundedDerivation.Randomness.Source

/-! The ChaCha generator with twelve rounds. A block of sixteen words is a function of the key and
of the block's number; the draws are the words of the blocks in order. -/
namespace BoundedDerivation.Randomness

/-- The words of a block stand in four rows of four. -/
structure Row where
  w0 : UInt32
  w1 : UInt32
  w2 : UInt32
  w3 : UInt32
  deriving DecidableEq

namespace Row

def zipWith (f : UInt32 → UInt32 → UInt32) (a b : Row) : Row :=
  ⟨f a.w0 b.w0, f a.w1 b.w1, f a.w2 b.w2, f a.w3 b.w3⟩

def rotateWords (count : UInt32) (a : Row) : Row :=
  let rotate (w : UInt32) := (w <<< count) ||| (w >>> (32 - count))
  ⟨rotate a.w0, rotate a.w1, rotate a.w2, rotate a.w3⟩

/-- The row with its first word moved to the end. -/
def turn (a : Row) : Row := ⟨a.w1, a.w2, a.w3, a.w0⟩

def toList (a : Row) : List UInt32 := [a.w0, a.w1, a.w2, a.w3]

end Row

structure Block where
  a : Row
  b : Row
  c : Row
  d : Row
  deriving DecidableEq

namespace Block

def zipWith (f : UInt32 → UInt32 → UInt32) (x y : Block) : Block :=
  ⟨x.a.zipWith f y.a, x.b.zipWith f y.b, x.c.zipWith f y.c, x.d.zipWith f y.d⟩

def toList (x : Block) : List UInt32 := x.a.toList ++ x.b.toList ++ x.c.toList ++ x.d.toList

/-- Half of a quarter round, on the four columns at once. -/
def mix (first second : UInt32) (x : Block) : Block :=
  let a := x.a.zipWith (· + ·) x.b
  let d := (x.d.zipWith (· ^^^ ·) a).rotateWords first
  let c := x.c.zipWith (· + ·) d
  let b := (x.b.zipWith (· ^^^ ·) c).rotateWords second
  ⟨a, b, c, d⟩

def columnRound (x : Block) : Block := (x.mix 16 12).mix 8 7

/-- Turning the rows by 0, 1, 2 and 3 places brings the diagonals into the columns. -/
def diagonalRound (x : Block) : Block :=
  let y := columnRound ⟨x.a, x.b.turn, x.c.turn.turn, x.d.turn.turn.turn⟩
  ⟨y.a, y.b.turn.turn.turn, y.c.turn.turn, y.d.turn⟩

def doubleRound (x : Block) : Block := x.columnRound.diagonalRound

end Block

structure ChaCha where
  keyLow : Row
  keyHigh : Row
  /-- The number of the block that comes next. -/
  counter : UInt64
  /-- What is left of the block before it. -/
  pending : List UInt32
  deriving DecidableEq

namespace ChaCha

def initialBlock (keyLow keyHigh : Row) (counter : UInt64) : Block :=
  ⟨⟨0x61707865, 0x3320646e, 0x79622d32, 0x6b206574⟩, keyLow, keyHigh,
    ⟨counter.toUInt32, (counter >>> 32).toUInt32, 0, 0⟩⟩

/-- Six double rounds, whose outcome is added to the block they started from. -/
def block (keyLow keyHigh : Row) (counter : UInt64) : Block :=
  let start := initialBlock keyLow keyHigh counter
  let mixed :=
    start.doubleRound.doubleRound.doubleRound.doubleRound.doubleRound.doubleRound
  mixed.zipWith (· + ·) start

/-- Block numbers wrap around after `2 ^ 64` blocks of sixteen words each. -/
instance : Source ChaCha where
  next source :=
    match source.pending with
    | draw :: pending => (draw, { source with pending })
    | [] =>
      let words := (block source.keyLow source.keyHigh source.counter).toList
      (words.headD 0, { source with counter := source.counter + 1, pending := words.tail })
  period source := source.pending.length + 16 * UInt64.size

/-- The congruential step that stretches a seed to a key. -/
def stretch (state : UInt64) : UInt64 := state * 6364136223846793005 + 11634580027462260723

/-- The key word that a stretched seed gives: its high bits, folded and then rotated by an amount
that its highest five bits hold. -/
def keyWord (state : UInt64) : UInt32 :=
  let folded := (((state >>> 18) ^^^ state) >>> 27).toUInt32
  let count := (state >>> 59).toUInt32
  (folded >>> count) ||| (folded <<< (32 - count))

/-- The draws of a key from its first block on. -/
def ofKey (keyLow keyHigh : Row) : ChaCha := ⟨keyLow, keyHigh, 0, []⟩

def ofSeed (seed : UInt64) : ChaCha :=
  let s0 := stretch seed
  let s1 := stretch s0
  let s2 := stretch s1
  let s3 := stretch s2
  let s4 := stretch s3
  let s5 := stretch s4
  let s6 := stretch s5
  let s7 := stretch s6
  ofKey ⟨keyWord s0, keyWord s1, keyWord s2, keyWord s3⟩
    ⟨keyWord s4, keyWord s5, keyWord s6, keyWord s7⟩

end ChaCha
end BoundedDerivation.Randomness
