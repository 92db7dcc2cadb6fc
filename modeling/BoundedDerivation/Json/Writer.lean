import BoundedDerivation.Json.Quoted
import BoundedDerivation.Json.Value
import BoundedDerivation.Text.Pieces

/-! Writing JSON, either without any blanks or with one line for each item and member. -/
namespace BoundedDerivation.Json

mutual

def compact : Json → Text
  | null => "null".toList
  | bool true => "true".toList
  | bool false => "false".toList
  | number numeral => numeral.write
  | string value => Quoted.write value
  | array items => '[' :: Text.join [','] (compactItems items) ++ [']']
  | object members => '{' :: Text.join [','] (compactMembers members) ++ ['}']

def compactItems : List Json → List Text
  | [] => []
  | item :: items => compact item :: compactItems items

def compactMembers : List (Text × Json) → List Text
  | [] => []
  | (key, value) :: members => (Quoted.write key ++ ':' :: compact value) :: compactMembers members

end

/-- Brackets around pieces, each on a line of its own and indented one level more than they are. -/
def block (level : Nat) (opening closing : Char) (pieces : List Text) : Text :=
  if pieces = [] then [opening, closing]
  else
    let indent (level : Nat) : Text := '\n' :: List.replicate (2 * level) ' '
    opening :: Text.join [','] (pieces.map (indent (level + 1) ++ ·)) ++ indent level ++ [closing]

mutual

def pretty (level : Nat) : Json → Text
  | null => "null".toList
  | bool true => "true".toList
  | bool false => "false".toList
  | number numeral => numeral.write
  | string value => Quoted.write value
  | array items => block level '[' ']' (prettyItems (level + 1) items)
  | object members => block level '{' '}' (prettyMembers (level + 1) members)

def prettyItems (level : Nat) : List Json → List Text
  | [] => []
  | item :: items => pretty level item :: prettyItems level items

def prettyMembers (level : Nat) : List (Text × Json) → List Text
  | [] => []
  | (key, value) :: members =>
    (Quoted.write key ++ ':' :: ' ' :: pretty level value) :: prettyMembers level members

end

end BoundedDerivation.Json
