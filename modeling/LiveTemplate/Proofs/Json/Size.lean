import LiveTemplate.Json.Compact
import LiveTemplate.Proofs.Json.Fields
import Mathlib.Algebra.BigOperators.Group.List.Basic
import Mathlib.Algebra.GroupWithZero.Nat

/-!
# The length of JSON text

An object is as long as its fields with a sign after each, and one more for the signs at its ends
(`Json.size_object`). The order of the fields does not matter (`Json.size_ofFields_le`).
-/

namespace LiveTemplate

namespace Json

/-- The number of bytes of a field with the comma or brace after it. -/
def fieldSize (field : String × Json) : Nat :=
  (stringText field.1).utf8ByteSize + 1 + field.2.size + 1

theorem size_le_fieldSize (field : String × Json) : field.2.size ≤ fieldSize field := by
  rw [fieldSize]
  omega

/-- The number of bytes of fields with the signs after them. -/
def fieldsSize (fields : List (String × Json)) : Nat :=
  (fields.map fieldSize).sum

@[simp] theorem fieldsSize_nil : fieldsSize [] = 0 := rfl

@[simp] theorem fieldsSize_cons (field : String × Json) (fields : List (String × Json)) :
    fieldsSize (field :: fields) = fieldSize field + fieldsSize fields := List.sum_cons

@[simp] theorem fieldsSize_append (fields others : List (String × Json)) :
    fieldsSize (fields ++ others) = fieldsSize fields + fieldsSize others := by
  rw [fieldsSize, List.map_append, List.sum_append]
  rfl

theorem fieldsSize_perm {fields others : List (String × Json)} (h : fields.Perm others) :
    fieldsSize fields = fieldsSize others :=
  (h.map fieldSize).sum_eq

theorem intercalate_compactFields (field : String × Json) (fields : List (String × Json)) :
    (",".intercalate (compactFields (field :: fields))).utf8ByteSize + 1 =
      fieldsSize (field :: fields) := by
  induction fields generalizing field with
  | nil =>
    simp only [compactFields, String.intercalate_singleton, String.utf8ByteSize_append,
      fieldsSize_cons, fieldsSize_nil, fieldSize, size]
    rfl
  | cons next rest ih =>
    rw [fieldsSize_cons, ← ih next, compactFields, compactFields, String.intercalate_cons_cons]
    simp only [String.utf8ByteSize_append, fieldSize, size]
    have hcomma : ",".utf8ByteSize = 1 := rfl
    have hcolon : ":".utf8ByteSize = 1 := rfl
    omega

theorem size_object_nil : (object []).size = 2 := rfl

theorem size_object {fields : List (String × Json)} (h : fields ≠ []) :
    (object fields).size = fieldsSize fields + 1 := by
  cases fields with
  | nil => exact absurd rfl h
  | cons field rest =>
    rw [← intercalate_compactFields, size, compact, String.utf8ByteSize_append,
      String.utf8ByteSize_append]
    have hopen : "\x7b".utf8ByteSize = 1 := rfl
    have hclose : "\x7d".utf8ByteSize = 1 := rfl
    omega

theorem size_ofFields_le {fields : List (String × Json)} (h : (names fields).Nodup) :
    (ofFields fields).size ≤ fieldsSize fields + 2 := by
  rw [← fieldsSize_perm (sortFields_perm h), ofFields]
  by_cases hn : sortFields fields = []
  · rw [hn, size_object_nil]
    exact Nat.le_add_left _ _
  · rw [size_object hn]
    exact Nat.le_succ _

/-- A field makes an object longer than the fields beside it with both braces. -/
theorem le_size_ofFields {field : String × Json} {fields : List (String × Json)}
    (h : (names (field :: fields)).Nodup) :
    fieldsSize fields + 2 ≤ (ofFields (field :: fields)).size := by
  have hp := sortFields_perm h
  have hn : sortFields (field :: fields) ≠ [] := fun he => List.cons_ne_nil _ _
    (List.perm_nil.mp (he ▸ hp.symm))
  rw [ofFields, size_object hn, fieldsSize_perm hp, fieldsSize_cons, fieldSize]
  omega

end Json

end LiveTemplate
