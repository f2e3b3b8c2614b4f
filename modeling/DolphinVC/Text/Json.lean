import Mathlib.Data.Rat.Defs

/-!
# JSON values

What a JSON text is read as. Numbers with a fraction or an exponent are floats, which are
fractions here, and a reader may also accept the infinities and a float that is no number.
-/

inductive JsonFloat where
  | finite (q : Rat)
  | infinite
  | nan

inductive JsonValue where
  | null
  | bool (b : Bool)
  | int (n : Int)
  | float (x : JsonFloat)
  | string (s : String)
  | list (items : List JsonValue)
  | dict (fields : List (String × JsonValue))

namespace JsonValue

/-- The value under a key; of a repeated key the last one counts. -/
def lookup (key : String) (fields : List (String × JsonValue)) : Option JsonValue :=
  (fields.reverse.find? fun field => field.1 = key).map Prod.snd

end JsonValue
