import LiveTemplate.Value.Basic
import Mathlib.Data.List.Forall2
import Mathlib.Data.List.Nodup

/-!
# Values with the entries of their maps in another order

`Value.Reordered`: two values that are equal but for the order in which entries were added to their
maps, at any depth. Nothing that is asked of a value tells the two apart:

* they are printed alike (`Reordered.display_eq`), since a map is printed by its keys;
* the entries of two maps in the order of their keys are the same one by one
  (`Reordered.sortEntries`), and so is what stands under a key (`Reordered.lookup`).
-/

namespace LiveTemplate

/-! ## Entries by key -/

section Entries

variable {α β : Type} {R : α → β → Prop}

/-- Two entries have the same key, and their values are related. -/
inductive SameKey (R : α → β → Prop) : String × α → String × β → Prop
  | intro {key : String} {value : α} {other : β} (related : R value other) :
      SameKey R (key, value) (key, other)

theorem SameKey.key_eq {entry : String × α} {other : String × β} (h : SameKey R entry other) :
    entry.1 = other.1 := by
  cases h
  rfl

/-- The order of entries does not matter for what stands under a key. -/
theorem lookup_eq_of_perm {entries others : List (String × α)} (h : entries.Perm others)
    (hn : (entries.map Prod.fst).Nodup) (key : String) :
    entries.lookup key = others.lookup key := by
  induction h with
  | nil => rfl
  | cons entry _ ih =>
    rw [List.lookup_cons, List.lookup_cons, ih (List.nodup_cons.mp hn).2]
  | swap entry other rest =>
    obtain ⟨name, value⟩ := entry
    obtain ⟨other, _⟩ := other
    have hne : other ≠ name := fun he => (List.nodup_cons.mp hn).1 (by simp [he])
    by_cases he : key = name
    · subst he
      simp [List.lookup_cons, beq_false_of_ne (Ne.symm hne)]
    · simp [List.lookup_cons, beq_false_of_ne he]
  | trans hfirst _ ih₁ ih₂ =>
    exact (ih₁ hn).trans (ih₂ ((hfirst.map Prod.fst).nodup hn))

theorem lookup_rel {entries : List (String × α)} {others : List (String × β)}
    (h : List.Forall₂ (SameKey R) entries others) (key : String) :
    Option.Rel R (entries.lookup key) (others.lookup key) := by
  induction h with
  | nil => exact .none
  | cons h _ ih =>
    cases h with
    | intro related =>
      rw [List.lookup_cons, List.lookup_cons]
      split
      · exact .some related
      · exact ih

namespace Value

theorem sortEntries_perm (entries : List (String × α)) : (sortEntries entries).Perm entries :=
  List.mergeSort_perm _ _

theorem pairwise_sortEntries (entries : List (String × α)) :
    (sortEntries entries).Pairwise fun x y => x.1 ≤ y.1 := by
  have h : (sortEntries entries).Pairwise fun x y => decide (x.1 ≤ y.1) = true :=
    List.pairwise_mergeSort
      (fun x y z hxy hyz => by
        simp only [decide_eq_true_eq] at hxy hyz ⊢
        exact String.le_trans hxy hyz)
      (fun x y => by
        simp only [Bool.or_eq_true, decide_eq_true_eq]
        exact String.le_total x.1 y.1)
      entries
  simpa using h

/-- Entries that differ in their order only are sorted into the same list: no two of them have one
key. -/
theorem sortEntries_eq_of_perm {entries others : List (String × α)} (h : entries.Perm others)
    (hn : (entries.map Prod.fst).Nodup) : sortEntries entries = sortEntries others := by
  have hperm : (sortEntries entries).Perm (sortEntries others) :=
    (sortEntries_perm entries).trans (h.trans (sortEntries_perm others).symm)
  refine hperm.eq_of_pairwise (fun x y hx hy hxy hyx => ?_) (pairwise_sortEntries entries)
    (pairwise_sortEntries others)
  have hy' := h.mem_iff.mpr ((sortEntries_perm others).mem_iff.mp hy)
  exact List.inj_on_of_nodup_map hn ((sortEntries_perm entries).mem_iff.mp hx) hy'
    (String.le_antisymm hxy hyx)

/-- Sorting looks at keys only. -/
theorem forall₂_sortEntries {entries : List (String × α)} {others : List (String × β)}
    (h : List.Forall₂ (SameKey R) entries others) :
    List.Forall₂ (SameKey R) (sortEntries entries) (sortEntries others) := by
  obtain ⟨hlength, hrel⟩ := List.forall₂_iff_zip.mp h
  -- Both lists are sorted at once, as pairs of entries under one key.
  let byKey := fun x y : (String × α) × (String × β) => decide (x.1.1 ≤ y.1.1)
  have hleft : ((entries.zip others).mergeSort byKey).map Prod.fst = sortEntries entries := by
    rw [sortEntries, List.map_mergeSort (s := fun x y : String × α => decide (x.1 ≤ y.1))
      fun x _ y _ => rfl, List.map_fst_zip (Nat.le_of_eq hlength)]
  have hright : ((entries.zip others).mergeSort byKey).map Prod.snd = sortEntries others := by
    rw [sortEntries, List.map_mergeSort (s := fun x y : String × β => decide (x.1 ≤ y.1))
      fun x hx y hy => by simp only [byKey, (hrel hx).key_eq, (hrel hy).key_eq],
      List.map_snd_zip (Nat.le_of_eq hlength.symm)]
  rw [← hleft, ← hright, List.forall₂_map_left_iff, List.forall₂_map_right_iff, List.forall₂_same]
  exact fun pair hm => hrel (List.mem_mergeSort.mp hm)

end Value

end Entries

namespace Value

/-! ## Reordered values -/

/-- Two values are equal but for the order in which the entries of their maps stand, at any depth.
No map among them has a key twice. -/
inductive Reordered : Value → Value → Prop
  | null : Reordered .null .null
  | bool (value : Bool) : Reordered (.bool value) (.bool value)
  | int (value : Int) : Reordered (.int value) (.int value)
  | float (value : Double) : Reordered (.float value) (.float value)
  | text (value : String) : Reordered (.text value) (.text value)
  | list {items others : List Value} (each : List.Forall₂ Reordered items others) :
      Reordered (.list items) (.list others)
  | map {entries order others : List (String × Value)} (unique : (entries.map Prod.fst).Nodup)
      (reorder : entries.Perm order) (each : List.Forall₂ (SameKey Reordered) order others) :
      Reordered (.map entries) (.map others)

namespace Reordered

variable {value other : Value} {entries others : List (String × Value)}

theorem length_eq (h : Reordered (.map entries) (.map others)) :
    entries.length = others.length := by
  cases h with
  | map unique reorder each => exact reorder.length_eq.trans each.length_eq

theorem lookup (h : Reordered (.map entries) (.map others)) (key : String) :
    Option.Rel Reordered (entries.lookup key) (others.lookup key) := by
  cases h with
  | map unique reorder each =>
    rw [lookup_eq_of_perm reorder unique]
    exact lookup_rel each key

theorem sortEntries (h : Reordered (.map entries) (.map others)) :
    List.Forall₂ (SameKey Reordered) (sortEntries entries) (Value.sortEntries others) := by
  cases h with
  | map unique reorder each =>
    rw [sortEntries_eq_of_perm reorder unique]
    exact forall₂_sortEntries each

theorem typeName_eq (h : Reordered value other) : value.typeName = other.typeName := by
  cases h <;> rfl

theorem truthy_eq (h : Reordered value other) : value.truthy = other.truthy := by
  cases h with
  | list each => cases each <;> rfl
  | @map entries _ others unique reorder each =>
    have hl := (map unique reorder each).length_eq
    cases entries with
    | nil => cases others with
      | nil => rfl
      | cons other others => cases hl
    | cons entry entries => cases others with
      | nil => cases hl
      | cons other others => rfl
  | _ => rfl

theorem bool?_eq (h : Reordered value other) : value.bool? = other.bool? := by
  cases h <;> rfl

theorem int?_eq (h : Reordered value other) : value.int? = other.int? := by
  cases h <;> rfl

theorem float?_eq (h : Reordered value other) : value.float? = other.float? := by
  cases h <;> rfl

theorem text?_eq (h : Reordered value other) : value.text? = other.text? := by
  cases h <;> rfl

end Reordered

/-! ## Printing -/

theorem displayEntries_eq_map (entries : List (String × Value)) :
    displayEntries entries =
      entries.map fun entry => (entry.1, entry.1 ++ ":" ++ entry.2.display) := by
  induction entries with
  | nil => rfl
  | cons entry rest ih => rw [displayEntries, ih, List.map_cons]

theorem map_fst_displayEntries (entries : List (String × Value)) :
    (displayEntries entries).map Prod.fst = entries.map Prod.fst := by
  rw [displayEntries_eq_map, List.map_map]
  rfl

/-- Entries are printed alike where their values are. -/
theorem displayEntries_eq {entries others : List (String × Value)}
    (h : List.Forall₂ (SameKey Reordered) entries others)
    (hd : ∀ entry ∈ entries, ∀ other, Reordered entry.2 other →
      entry.2.display = other.display) :
    displayEntries entries = displayEntries others := by
  induction h with
  | nil => rfl
  | cons first _ ih =>
    obtain ⟨hfirst, hrest⟩ := List.forall_mem_cons.mp hd
    cases first with
    | intro related => rw [displayEntries, displayEntries, hfirst _ related, ih hrest]

mutual

/-- A value is printed in the same way whatever the order of its entries. -/
theorem Reordered.display_eq {value other : Value} (h : Reordered value other) :
    value.display = other.display := by
  cases h with
  | list each => rw [display, display, displayItems_eq each]
  | @map entries order others unique reorder each =>
    have hperm : (displayEntries entries).Perm (displayEntries order) := by
      rw [displayEntries_eq_map, displayEntries_eq_map]
      exact reorder.map _
    have hsort := sortEntries_eq_of_perm hperm (by rwa [map_fst_displayEntries])
    have heach : displayEntries order = displayEntries others :=
      displayEntries_eq each fun entry hm _ hr =>
        display_eq_of_mem (reorder.mem_iff.mpr hm) hr
    rw [display, display, hsort, heach]
  | _ => rfl
termination_by structural value

theorem displayItems_eq {items others : List Value} (h : List.Forall₂ Reordered items others) :
    displayItems items = displayItems others := by
  cases h with
  | nil => rfl
  | cons first rest =>
    rw [displayItems, displayItems, first.display_eq, displayItems_eq rest]
termination_by structural items

/-- The values of entries are printed alike, one by one: entries that stand in another order are not
a part of the list that has them first. -/
theorem display_eq_of_mem {entries : List (String × Value)} {entry : String × Value}
    (hm : entry ∈ entries) {other : Value} (h : Reordered entry.2 other) :
    entry.2.display = other.display := by
  cases entries with
  | nil => cases hm
  | cons first rest =>
    obtain ⟨key, value⟩ := first
    rcases List.mem_cons.mp hm with rfl | hm
    · exact h.display_eq
    · exact display_eq_of_mem hm h
termination_by structural entries

end

end Value

end LiveTemplate
