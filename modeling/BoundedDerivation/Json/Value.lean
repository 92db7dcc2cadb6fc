import BoundedDerivation.Json.Number

/-! JSON values. Members keep their order and may repeat a key; numbers keep their digits. -/
namespace BoundedDerivation

inductive Json where
  | null
  | bool (value : Bool)
  | number (numeral : Json.Numeral)
  | string (value : Text)
  | array (items : List Json)
  | object (members : List (Text × Json))

namespace Json

/-- The value under a key that occurs exactly once. -/
def uniqueMember (key : Text) (members : List (Text × Json)) : Option Json :=
  match members.filter (·.1 = key) with
  | [(_, value)] => some value
  | _ => none

end Json
end BoundedDerivation
