import BoundedDerivation.Text.Blank

/-! Patterns of characters, matched from the start of a text. A text may match in several ways. They
are listed in the order in which a matcher that backtracks comes upon them: in a sequence the first
part chooses before the second one, and a repetition prefers either more characters or fewer. The
first way is the one that counts. -/
namespace BoundedDerivation.Text

inductive Pattern where
  | one (fits : Char → Bool)
  /-- Any number of fitting characters, as many as possible. -/
  | many (fits : Char → Bool)
  /-- Any number of fitting characters, as few as possible. -/
  | few (fits : Char → Bool)
  /-- What the inner pattern takes is kept. -/
  | group (inner : Pattern)
  | sequence (first second : Pattern)
  | atEnd

/-- What one way of matching takes of a text, which groups it keeps, and what it leaves. -/
structure Match where
  taken : Text
  groups : List Text
  rest : Text
  deriving DecidableEq

def Match.followedBy (first second : Match) : Match :=
  ⟨first.taken ++ second.taken, first.groups ++ second.groups, second.rest⟩

/-- All ways to take fitting characters off the front of a text, longest first. -/
def takings (fits : Char → Bool) : Text → List (Text × Text)
  | [] => [([], [])]
  | c :: text =>
    if fits c then (takings fits text).map (Prod.map (c :: ·) id) ++ [([], c :: text)]
    else [([], c :: text)]

namespace Pattern

/-- The ways in which a pattern matches the start of a text, in order of preference. -/
def ways : Pattern → Text → List Match
  | one _, [] => []
  | one fits, c :: text => if fits c then [⟨[c], [], text⟩] else []
  | many fits, text => (takings fits text).map fun taking => ⟨taking.1, [], taking.2⟩
  | few fits, text => (takings fits text).reverse.map fun taking => ⟨taking.1, [], taking.2⟩
  | group inner, text => (ways inner text).map fun m => { m with groups := m.taken :: m.groups }
  | sequence first second, text =>
    (ways first text).flatMap fun m => (ways second m.rest).map m.followedBy
  | atEnd, text => if text = [] then [⟨[], [], []⟩] else []

/-- The groups of the preferred way. -/
def captures (pattern : Pattern) (text : Text) : Option (List Text) :=
  (pattern.ways text).head?.map Match.groups

end Pattern
end BoundedDerivation.Text
