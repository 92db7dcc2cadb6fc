import BoundedDerivation.Error

/-! Reading the tokens that name one thing: a symbol or a kind of grammar. Blanks around a token
do not count. -/
namespace BoundedDerivation

/-- A token names a symbol if, trimmed, it is that one character. -/
def readSymbol (token : Text) : Except GrammarError Char :=
  match token.trim with
  | [symbol] => .ok symbol
  | other => .error (.invalidSymbol other)

/-- Kinds are named in letters of either case. -/
def readKind (token : Text) : Except GrammarError Kind :=
  let name := token.trim.map Char.toUpper
  if name = Kind.contextFree.name.toList then .ok .contextFree
  else if name = Kind.matrix.name.toList then .ok .matrix
  else .error (.unknownKind name)

end BoundedDerivation
