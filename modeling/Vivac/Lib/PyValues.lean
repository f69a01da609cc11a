import Vivac.Lib.Base64
import Vivac.Lib.Json

/-!
# Python values that JSON text gives

A Python string is a list of code points, and may hold surrogates, which no encoding to UTF-8
takes. The accessors and conversions of a value fail with the class of the exception they raise.

`EndsIn` says how a computation that may raise ends: it raises only some exceptions and returns only
some values. It goes through `bind` (`endsIn_bind`).
-/

set_option autoImplicit false

namespace Vivac.Lib

/-! ## Computations that raise -/

section EndsIn

variable {ε ε' α β : Type}

/-- The computation raises only what `raised` allows, and returns only what `returned` allows. -/
def EndsIn (raised : ε → Prop) (returned : α → Prop) : Except ε α → Prop
  | .ok a => returned a
  | .error e => raised e

@[simp]
theorem endsIn_ok {raised : ε → Prop} {returned : α → Prop} {a : α} :
    EndsIn raised returned (.ok a) ↔ returned a := Iff.rfl

@[simp]
theorem endsIn_error {raised : ε → Prop} {returned : α → Prop} {e : ε} :
    EndsIn raised returned (.error e) ↔ raised e := Iff.rfl

theorem endsIn_bind {raised : ε → Prop} {returned : β → Prop} {x : Except ε α}
    {f : α → Except ε β} :
    EndsIn raised returned (x.bind f) ↔
      EndsIn raised (fun a => EndsIn raised returned (f a)) x := by
  cases x <;> exact Iff.rfl

theorem endsIn_mapError {raised : ε' → Prop} {returned : α → Prop} {x : Except ε α} {f : ε → ε'} :
    EndsIn raised returned (x.mapError f) ↔ EndsIn (fun e => raised (f e)) returned x := by
  cases x <;> exact Iff.rfl

theorem not_endsIn_iff {raised : ε → Prop} {returned : α → Prop} {x : Except ε α} :
    ¬EndsIn raised returned x ↔
      (∃ e, x = .error e ∧ ¬raised e) ∨ ∃ a, x = .ok a ∧ ¬returned a := by
  cases x <;> simp [EndsIn]

end EndsIn

namespace Py

/-! ## Strings -/

/-- A code point, which may be a surrogate. -/
abbrev CodePoint := Fin 0x110000

/-- A Python string. -/
abbrev Text := List CodePoint

namespace CodePoint

def ofChar (c : Char) : CodePoint := Fin.ofNat _ c.toNat

/-- The NUL character. -/
def nul : CodePoint := Fin.ofNat _ 0

def isSurrogate (n : CodePoint) : Bool := 0xd800 ≤ n.val && n.val ≤ 0xdfff

theorem val_ofChar (c : Char) : (ofChar c).val = c.toNat := by
  have hvalid : c.toNat < 0x110000 := by
    rcases c.valid with h | ⟨-, h⟩
    · exact Nat.lt_trans h (by decide)
    · exact h
  exact Nat.mod_eq_of_lt hvalid

theorem isSurrogate_ofChar (c : Char) : isSurrogate (ofChar c) = false := by
  have hval := val_ofChar c
  have hvalid : c.toNat < 0xd800 ∨ 0xdfff < c.toNat ∧ c.toNat < 0x110000 := c.valid
  simp only [isSurrogate, hval, Bool.and_eq_false_iff, decide_eq_false_iff_not]
  omega

end CodePoint

namespace Text

def ofString (s : String) : Text := s.toList.map CodePoint.ofChar

/-- The text, when it has no surrogate; then `encode()` goes through. -/
def toString? (t : Text) : Option String :=
  if t.any CodePoint.isSurrogate then none
  else some (String.ofList (t.map fun n => Char.ofNat n.val))

/-- The driver encodes the text, and the database takes it. -/
def Storable (t : Text) : Prop := CodePoint.nul ∉ t ∧ t.toString?.isSome = true

@[simp]
theorem toString?_ofString (s : String) : (ofString s).toString? = some s := by
  have hnone : (ofString s).any CodePoint.isSurrogate = false := by
    simp [ofString, CodePoint.isSurrogate_ofChar]
  have hchars : (ofString s).map (fun n => Char.ofNat n.val) = s.toList := by
    rw [ofString, List.map_map]
    refine (List.map_congr_left fun c _ => ?_).trans (List.map_id _)
    simp [CodePoint.val_ofChar, Char.ofNat_toNat]
  rw [toString?, hnone, hchars, String.ofList_toList]
  rfl

theorem ofString_injective {s s' : String} (h : ofString s = ofString s') : s = s' := by
  have h' := congrArg toString? h
  rwa [toString?_ofString, toString?_ofString, Option.some.injEq] at h'

end Text

/-! ## Values -/

/-- The exceptions of decoding, by their class. -/
inductive Fault where
  | value
  | key
  | type
  | attribute
  | overflow
  | recursion
  deriving DecidableEq

/-- What `except (ValueError, KeyError, TypeError)` catches. -/
def Fault.isCaught : Fault → Bool
  | .value => true
  | .key => true
  | .type => true
  | _ => false

inductive Value where
  | none
  | bool (b : Bool)
  | int (n : ℤ)
  | float (f : PyFloat)
  | str (s : Text)
  | list (xs : List Value)
  | dict (fields : List (Text × Value))

namespace Value

/-- `payload[key]`, for a string key. -/
def subscript (payload : Value) (key : String) : Except Fault Value :=
  match payload with
  | .dict fields =>
    match fields.lookup (Text.ofString key) with
    | some v => .ok v
    | Option.none => .error .key
  | _ => .error .type

/-- `payload.get(key, default)`; only a dict has `get`. -/
def get (payload : Value) (key : String) (default : Value) : Except Fault Value :=
  match payload with
  | .dict fields => .ok ((fields.lookup (Text.ofString key)).getD default)
  | _ => .error .attribute

/-- The integer is beyond the doubles. -/
def Huge (n : ℤ) : Prop := ∀ q, toDouble n ≠ .fin q

/-- `float(value)`. -/
def toFloat : Value → Except Fault PyFloat
  | .float f => .ok f
  | .int n =>
    match toDouble n with
    | .fin q => .ok (.fin q)
    | _ => .error .overflow
  | .bool b => .ok (.fin (if b then 1 else 0))
  | .str s =>
    match s.toString?.bind Py.float with
    | some f => .ok f
    | Option.none => .error .value
  | _ => .error .type

/-- `float` overflows on the huge integers only; its other exceptions are caught. -/
theorem toFloat_escapes_iff {v : Value} :
    (∃ f, v.toFloat = .error f ∧ f.isCaught = false) ↔ ∃ n, v = .int n ∧ Huge n := by
  constructor
  · rintro ⟨f, hf, hescapes⟩
    cases v with
    | int n =>
        refine ⟨n, rfl, fun q hq => ?_⟩
        rw [toFloat, hq] at hf
        cases hf
    | str s =>
        rw [toFloat] at hf
        split at hf
        · cases hf
        · cases hf
          cases hescapes
    | float | bool => cases hf
    | none | list | dict =>
        cases hf
        cases hescapes
  · rintro ⟨n, rfl, hn⟩
    refine ⟨.overflow, ?_, rfl⟩
    rw [toFloat]
    split
    · rename_i q hq
      exact absurd hq (hn q)
    · rfl

/-- An accessor's exceptions are caught. -/
theorem isCaught_of_subscript {payload : Value} {key : String} {f : Fault}
    (h : payload.subscript key = .error f) : f.isCaught = true := by
  unfold subscript at h
  split at h
  · split at h
    · cases h
    · cases h
      rfl
  · cases h
    rfl

/-- What has a subscript has `get`. -/
theorem get_of_subscript {payload v default : Value} {key key' : String}
    (h : payload.subscript key = .ok v) : ∃ v', payload.get key' default = .ok v' := by
  cases payload with
  | dict fields => exact ⟨_, rfl⟩
  | none | bool | int | float | str | list => cases h

end Value

/-! ## Times -/

/-- A datetime: its clock, in microseconds from the start of the year 1, and its offset from UTC,
when it is aware. -/
structure Datetime where
  clock : ℤ
  utcoffset : Option ℤ

namespace Datetime

/-- The clock's last value, in the year 9999. -/
def maxClock : ℤ := 315537897599999999

/-- The driver takes the time: it is aware, and in UTC it is a datetime again. -/
def Storable (t : Datetime) : Prop :=
  ∃ offset, t.utcoffset = some offset ∧ 0 ≤ t.clock - offset ∧ t.clock - offset ≤ maxClock

/-- The instant of an aware time. -/
def instant (t : Datetime) : ℤ := t.clock - t.utcoffset.getD 0

end Datetime

end Py

end Vivac.Lib
