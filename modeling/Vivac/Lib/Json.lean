import Vivac.Lib.PyText

/-!
# JSON values as Python loads them

`subscript` is `payload[key]`, `toFloat` is `float(value)`. The failures are the
classes of the exceptions Python raises.
-/

set_option autoImplicit false

namespace Vivac.Lib

/-- A loaded JSON value. -/
inductive Json where
  | null
  | bool (b : Bool)
  | int (n : ℤ)
  | float (f : PyFloat)
  | str (s : String)
  | arr (xs : List Json)
  | obj (fields : List (String × Json))

/-- The exceptions of the accessors. -/
inductive JsonFault where
  | value
  | key
  | type
  | overflow
  deriving DecidableEq

namespace Json

/-- `payload[key]`, for a string key. -/
def subscript (payload : Json) (key : String) : Except JsonFault Json :=
  match payload with
  | .obj fields =>
    match fields.lookup key with
    | some v => .ok v
    | none => .error .key
  | _ => .error .type

/-- `payload.get(key, default)`; only a dict has `get`. -/
def getD (payload : Json) (key : String) (default : Json) : Except JsonFault Json :=
  match payload with
  | .obj fields => .ok ((fields.lookup key).getD default)
  | _ => .error .type

/-- `float(value)`. -/
def toFloat : Json → Except JsonFault PyFloat
  | .float f => .ok f
  | .int n =>
    match Py.toDouble n with
    | .fin q => .ok (.fin q)
    | _ => .error .overflow
  | .bool b => .ok (.fin (if b then 1 else 0))
  | .str s =>
    match Py.float s with
    | some f => .ok f
    | none => .error .value
  | _ => .error .type

end Json

end Vivac.Lib
