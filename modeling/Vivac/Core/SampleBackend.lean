import Vivac.Core.Session
import Mathlib.Data.Rat.Encodable
import Mathlib.Logic.Encodable.Basic
import Mathlib.Logic.Equiv.List

/-!
# A backend to run the model with

A backend given by functions, for concrete runs. Its JSON text of an object of
numbers and strings is a unary code, so that reading it back is exact.
-/

set_option autoImplicit false

namespace Vivac

open Lib

namespace Sample

instance encodableChar : Encodable Char :=
  Encodable.ofLeftInjection Char.toNat (fun n => some (Char.ofNat n)) fun c => by
    rw [Char.ofNat_toNat]

instance encodableString : Encodable String :=
  Encodable.ofLeftInjection String.toList (fun cs => some (String.ofList cs)) fun s => by
    rw [String.ofList_toList]

/-- The fields of an object of numbers and strings. -/
abbrev Fields := List (String × (ℚ ⊕ String))

def valueOf : ℚ ⊕ String → Json := Sum.elim (fun q => .float (.fin q)) .str

def ofFields (fields : Fields) : Json := .obj (fields.map fun p => (p.1, valueOf p.2))

def toValue? : Json → Option (ℚ ⊕ String)
  | .float (.fin (.num q)) => some (.inl q)
  | .str s => some (.inr s)
  | _ => none

def toFields? : List (String × Json) → Option Fields
  | [] => some []
  | p :: ps => (toValue? p.2).bind fun v => (toFields? ps).map ((p.1, v) :: ·)

def dumps (v : Json) : String :=
  match v with
  | .obj ps =>
    match toFields? ps with
    | some fields => String.ofList (List.replicate (Encodable.encode fields + 1) '1')
    | none => "?"
  | _ => "?"

def loads (text : String) : Option Json :=
  if text.length = 0 then none
  else (Encodable.decode (α := Fields) (text.length - 1)).map ofFields

theorem toFields?_ofFields (fields : Fields) :
    toFields? (fields.map fun p => (p.1, valueOf p.2)) = some fields := by
  induction fields with
  | nil => rfl
  | cons p ps ih =>
    have hv : toValue? (valueOf p.2) = some p.2 := by
      cases p.2 <;> rfl
    rw [List.map_cons, toFields?, hv, Option.bind_some, ih]
    rfl

theorem loads_dumps (fields : Fields) : loads (dumps (ofFields fields)) =
    some (ofFields fields) := by
  have hlen : (dumps (ofFields fields)).length = Encodable.encode fields + 1 := by
    simp only [dumps, ofFields, toFields?_ofFields, String.length_ofList, List.length_replicate]
  simp only [loads, hlen, Nat.add_sub_cancel, Nat.succ_ne_zero, if_false, Encodable.encodek,
    Option.map_some]

/-- The backend: texts are exact, a search matches and scores everything alike, and
the database refuses nothing of its own. -/
def backend : Backend where
  b64encode := id
  b64decode := some
  jsonDumps := dumps
  jsonLoads := loads
  jsonStr := fun _ => ""
  isoformat := fun t => String.ofList (List.replicate (Encodable.encode t) '1')
  fromisoformat := fun text => Encodable.decode text.length
  sha256 := id
  lower := String.toLower
  isPrintable := fun c => 0x20 ≤ c.toNat && c.toNat < 0x7f
  searchScore := fun _ _ => 0
  searchMatch := fun _ _ => true
  refusesSpot := fun _ => none
  refusesBusinessInfo := fun _ => none
  resolveUrl := fun key _ => key
  dumpDatabase := fun _ => .ok ("db-dumps/d.dump", 0)

/-- A published spot. -/
def spot (uid : String) : Spot := { uid := uid, title := "Camp", pipelineStatus := .published }

/-- A user under a uid, which is its nickname too. -/
def user (uid : String) : User :=
  { uid := uid, email := uid, googleSub := uid, nickname := uid }

/-- Redis is there, and spots without coordinates are shown. -/
def settings : Settings := ⟨true, false⟩

/-- A running job with one row, on tables without spots. -/
def runningJob : Job where
  uid := "j"
  status := .running
  payload := .spots ⟨false, [{ title := "Camp" }]⟩
  createdBy := "u"

def oneJob : Db := { Db.empty with jobs := ⟨[runningJob], by decide⟩ }

end Sample

end Vivac
