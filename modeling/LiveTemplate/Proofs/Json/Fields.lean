import LiveTemplate.Json.Basic

/-!
# Sorted fields

`Json.sortFields` brings the fields of an object into the order of their keys. Where the keys
differ, it only reorders them (`sortFields_perm`), so that looking a key up gives the same before
and after (`lookup_sortFields`).
-/

namespace LiveTemplate

namespace Json

/-- The keys of fields, in order. -/
def names (fields : List (String × Json)) : List String :=
  fields.map Prod.fst

@[simp] theorem names_nil : names [] = [] := rfl

@[simp] theorem names_cons (key : String) (value : Json) (fields : List (String × Json)) :
    names ((key, value) :: fields) = key :: names fields := rfl

@[simp] theorem names_append (fields others : List (String × Json)) :
    names (fields ++ others) = names fields ++ names others := List.map_append

theorem lookup_cons (key name : String) (value : Json) (fields : List (String × Json)) :
    List.lookup name ((key, value) :: fields) =
      if name = key then some value else fields.lookup name := by
  by_cases h : name = key
  · rw [if_pos h, h, List.lookup_cons_self]
  · rw [if_neg h, List.lookup_cons, beq_false_of_ne h]

theorem lookup_eq_none {fields : List (String × Json)} {name : String} (h : name ∉ names fields) :
    fields.lookup name = none := by
  induction fields with
  | nil => rfl
  | cons field rest ih =>
    rw [names_cons, List.mem_cons, not_or] at h
    rw [lookup_cons, if_neg h.1]
    exact ih h.2

theorem lookup_insertField (key name : String) (value : Json) (fields : List (String × Json)) :
    (insertField key value fields).lookup name =
      if name = key then some value else fields.lookup name := by
  induction fields with
  | nil => rw [insertField, lookup_cons]
  | cons field rest ih =>
    obtain ⟨k, v⟩ := field
    unfold insertField
    split
    · rw [lookup_cons]
    · split
      · rename_i hk
        rw [lookup_cons, lookup_cons, hk]
        split <;> rfl
      · rename_i hk
        rw [lookup_cons, lookup_cons, ih]
        by_cases h : name = k
        · rw [if_pos h, if_pos h, if_neg (fun e => hk (e.symm.trans h))]
        · rw [if_neg h, if_neg h]

theorem insertField_perm {key : String} {fields : List (String × Json)} (value : Json)
    (h : key ∉ names fields) : (insertField key value fields).Perm ((key, value) :: fields) := by
  induction fields with
  | nil => exact .refl _
  | cons field rest ih =>
    obtain ⟨k, v⟩ := field
    rw [names_cons, List.mem_cons, not_or] at h
    unfold insertField
    rw [if_neg h.1]
    split
    · exact .refl _
    · exact ((ih h.2).cons (k, v)).trans (.swap _ _ _)

/-- Sorting on top of fields that are sorted already: all fields remain. -/
private theorem foldl_insertField_perm (fields sorted : List (String × Json))
    (h : (names (fields ++ sorted)).Nodup) :
    (fields.foldl (fun sorted (key, value) => insertField key value sorted) sorted).Perm
      (fields ++ sorted) := by
  induction fields generalizing sorted with
  | nil => exact .refl _
  | cons field rest ih =>
    obtain ⟨key, value⟩ := field
    rw [List.cons_append, names_cons, List.nodup_cons] at h
    have hkey : key ∉ names sorted := fun hs => h.1 (by simp [hs])
    have hp := insertField_perm value hkey
    have hrest : (names (rest ++ insertField key value sorted)).Nodup := by
      have hq : (names (rest ++ insertField key value sorted)).Perm
          (key :: names (rest ++ sorted)) :=
        ((hp.append_left rest).trans List.perm_middle).map Prod.fst
      exact hq.symm.nodup (List.nodup_cons.mpr h)
    exact (ih _ hrest).trans ((hp.append_left rest).trans List.perm_middle)

theorem sortFields_perm {fields : List (String × Json)} (h : (names fields).Nodup) :
    (sortFields fields).Perm fields := by
  have := foldl_insertField_perm fields [] (by rwa [List.append_nil])
  rwa [List.append_nil] at this

private theorem lookup_foldl_insertField (name : String) (fields sorted : List (String × Json))
    (h : (names fields).Nodup) :
    (fields.foldl (fun sorted (key, value) => insertField key value sorted) sorted).lookup name =
      (fields.lookup name).or (sorted.lookup name) := by
  induction fields generalizing sorted with
  | nil => rfl
  | cons field rest ih =>
    obtain ⟨key, value⟩ := field
    rw [names_cons, List.nodup_cons] at h
    rw [List.foldl_cons, ih _ h.2, lookup_insertField, lookup_cons]
    by_cases hn : name = key
    · rw [if_pos hn, if_pos hn, hn, lookup_eq_none h.1]
      rfl
    · rw [if_neg hn, if_neg hn]

theorem lookup_sortFields {fields : List (String × Json)} (h : (names fields).Nodup)
    (name : String) : (sortFields fields).lookup name = fields.lookup name := by
  have := lookup_foldl_insertField name fields [] h
  rwa [List.lookup_nil, Option.or_none] at this

end Json

end LiveTemplate
