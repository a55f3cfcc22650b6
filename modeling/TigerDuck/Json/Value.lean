import Mathlib.Algebra.Order.Ring.Rat

/-!
# JSON values

What Python's `json` makes of a document.
-/

namespace TigerDuck

/-- A JSON number with a fraction or an exponent, `NaN` or an `Infinity`. -/
inductive JsonFloat
  | finite (value : ℚ)
  | infinity (negative : Bool)
  | nan

/-- A JSON value. -/
inductive JsonValue
  | null
  | bool (value : Bool)
  | int (value : ℤ)
  | float (value : JsonFloat)
  | str (text : String)
  | list (items : List JsonValue)
  | dict (members : List (String × JsonValue))

/-- `raw.get(k)` of a dict. -/
def getField (members : List (String × JsonValue)) (k : String) : JsonValue :=
  (members.lookup k).getD .null

end TigerDuck
