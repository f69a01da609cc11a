import Vivac.Crud.Spot

/-!
# Managed values of array columns

The deletion of `crud/spot_field_option.py`: the value goes from the list of values, and from
the column of every spot that has it.
-/

set_option autoImplicit false

namespace Vivac

open Lib App

namespace SpotOptionField

/-- The name of the column. -/
def value : SpotOptionField → String
  | .category => "category"
  | .amenities => "amenities"
  | .nearbyFacilities => "nearby_facilities"
  | .hasEquipmentRental => "has_equipment_rental"

/-- `getattr(Spot, field.value)`, of a row. -/
def column (field : SpotOptionField) (s : Spot) : Option (List String) :=
  match field with
  | .category => s.category
  | .amenities => s.amenities
  | .nearbyFacilities => s.nearbyFacilities
  | .hasEquipmentRental => s.hasEquipmentRental

/-- The row with another value of the column. -/
def setColumn (field : SpotOptionField) (v : Option (List String)) (s : Spot) : Spot :=
  match field with
  | .category => { s with category := v }
  | .amenities => { s with amenities := v }
  | .nearbyFacilities => { s with nearbyFacilities := v }
  | .hasEquipmentRental => { s with hasEquipmentRental := v }

/-- `array_remove(column, code)`. -/
def remove (field : SpotOptionField) (code : String) (s : Spot) : Spot :=
  field.setColumn ((field.column s).map fun codes => codes.filter fun c => c != code) s

theorem uid_remove (field : SpotOptionField) (code : String) (s : Spot) :
    (field.remove code s).uid = s.uid := by
  cases field <;> rfl

end SpotOptionField

/-- Take a value off its list. -/
def dropFieldOption (field : SpotOptionField) (code : String) (d : Db) : Db where
  __ := d
  fieldOptions := d.fieldOptions.delete fun o => o.field == field && o.code == code

/-- `DELETE FROM spot_field_options`; a missing row is no error. -/
def deleteFieldOptionRow (field : SpotOptionField) (code : String) : Statement Unit :=
  fun _ d =>
    if (d.fieldOptions.find? (field, code)).isSome then
      .ok ⟨(), dropFieldOption field code, [.fieldOption field code], [.fieldOption field code]⟩
    else .ok ⟨(), id, [], []⟩

/-- `UPDATE spots SET column = array_remove(column, code) WHERE code = ANY(column)`. -/
def removeFromSpots (be : Backend) (now : Timestamp) (field : SpotOptionField) (code : String) :
    Statement (List String) :=
  updateSpots be (fun s => (field.column s).any fun codes => codes.contains code)
    (.total (fun s => { field.remove code s with updatedAt := some now })
      fun s => field.uid_remove code s)
    [field.value]

/-- Delete a value everywhere; answers whether it was there. -/
def deleteFieldOption (be : Backend) (now : Timestamp) (field : SpotOptionField) (code : String) :
    App Bool := do
  match ← select fun d => d.fieldOptions.find? (field, code) with
  | none => return false
  | some _ => do
    let _ ← execute (removeFromSpots be now field code)
    execute (deleteFieldOptionRow field code)
    commit
    return true

end Vivac
