import Vivac.Core.Errors

/-!
# Bounding boxes

`parseBbox` reads `min_lng,min_lat,max_lng,max_lat`.
-/

set_option autoImplicit false

namespace Vivac

open Lib

structure BBox where
  minLng : FiniteFloat
  minLat : FiniteFloat
  maxLng : FiniteFloat
  maxLat : FiniteFloat
  deriving DecidableEq

/-- `(32.5, 38.7)`, as floats. -/
def koreaLatRange : ℚ × ℚ := (32.5, 2723270399675597 / 70368744177664)

/-- `(124.0, 132.5)`. -/
def koreaLngRange : ℚ × ℚ := (124, 132.5)

def isWithinKorea (latitude longitude : ℚ) : Bool :=
  decide (koreaLatRange.1 ≤ latitude ∧ latitude ≤ koreaLatRange.2 ∧
    koreaLngRange.1 ≤ longitude ∧ longitude ≤ koreaLngRange.2)

/-- A float within `[-bound, bound]`; a nan is within no range. -/
def withinRange (bound : ℚ) : PyFloat → Option FiniteFloat
  | .fin f => if -bound ≤ f.value ∧ f.value ≤ bound then some f else none
  | _ => none

/-- `min_lng,min_lat,max_lng,max_lat`, longitude first. -/
def parseBbox (raw : String) : Except Exc BBox :=
  match raw.toList.splitOn ',' with
  | [p₀, p₁, p₂, p₃] =>
    match Py.float (String.ofList p₀), Py.float (String.ofList p₁),
      Py.float (String.ofList p₂), Py.float (String.ofList p₃) with
    | some f₀, some f₁, some f₂, some f₃ =>
      match withinRange 180 f₀, withinRange 180 f₂ with
      | some minLng, some maxLng =>
        match withinRange 90 f₁, withinRange 90 f₃ with
        | some minLat, some maxLat =>
          if maxLng.value ≤ minLng.value ∨ maxLat.value ≤ minLat.value then
            .error (.app .validationError ("bbox must satisfy min_lng < max_lng and " ++
              "min_lat < max_lat (order is lng,lat — not lat,lng)"))
          else .ok ⟨minLng, minLat, maxLng, maxLat⟩
        | _, _ => .error (.app .validationError "bbox latitude out of range")
      | _, _ => .error (.app .validationError "bbox longitude out of range")
    | _, _, _, _ => .error (.app .validationError "bbox values must be numbers")
  | _ => .error (.app .validationError "bbox must be 'min_lng,min_lat,max_lng,max_lat'")

/-- `f"{value:.6f}"`: the sign bit, and six decimals, ties to even. -/
def fixed6 (f : FiniteFloat) : String :=
  let n := (Py.roundHalfEven (|f.value| * 1000000)).toNat
  let frac := toString (n % 1000000)
  (if f.signed then "-" else "") ++ toString (n / 1000000) ++ "." ++
    String.ofList (List.replicate (6 - frac.length) '0') ++ frac

/-- A negative zero is written like a number just below zero. -/
example : fixed6 .negZero = "-0.000000" ∧ fixed6 (.num (-1 / 10000000)) = "-0.000000" ∧
    fixed6 0 = "0.000000" := by
  decide +kernel

namespace BBox

/-- The order of the tuple's values. -/
def values (b : BBox) : List FiniteFloat := [b.minLng, b.minLat, b.maxLng, b.maxLat]

/-- `",".join(f"{value:.6f}" for value in bbox)`. -/
def fixedText (b : BBox) : String := ",".intercalate (b.values.map fixed6)

/-- `latitude BETWEEN .. AND longitude BETWEEN ..`; a null coordinate is in no box. -/
def contains (b : BBox) (lat lng : Option ℚ) : Bool :=
  match lat, lng with
  | some lat, some lng =>
    decide (b.minLat.value ≤ lat ∧ lat ≤ b.maxLat.value ∧
      b.minLng.value ≤ lng ∧ lng ≤ b.maxLng.value)
  | _, _ => false

end BBox

end Vivac
