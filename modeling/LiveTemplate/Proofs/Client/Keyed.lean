import LiveTemplate.Proofs.Client.Outcome
import LiveTemplate.Proofs.Render.Wire

/-!
# Keyed updates by a client

* `Slot.Nested` is what the nested part of an update does to a node, `Slot.Keyed` what the nested
  parts for several slots do to them.
* `applyKeyed_keyed`: a client that reads the parts as one object changes the slots of its tree in
  this way.
-/

namespace LiveTemplate

namespace Slot

/-- What the nested part of an update, if there is one, does to a node. -/
def Nested (nested : Option Json) (old new : Slot) : Prop :=
  match nested with
  | none => old = new
  | some json => ∀ id, applyKeyed id old json = (new, none)

/-- What nested parts under their keys do to slots, the first of which has the given key. The parts
stand in the order of the slots. -/
inductive Keyed : Nat → List (String × Json) → List Slot → List Slot → Prop
  | nil {key : Nat} : Keyed key [] [] []
  | cons {key : Nat} {nested : Option Json} {fields : List (String × Json)} {old new : Slot}
      {olds news : List Slot} (first : Nested nested old new)
      (rest : Keyed (key + 1) fields olds news) :
      Keyed key ((nested.map fun json => (toString key, json)).toList ++ fields) (old :: olds)
        (new :: news)

namespace Keyed

variable {key : Nat} {fields : List (String × Json)} {olds news : List Slot}

theorem eq_of_nil (h : Keyed key [] olds news) : olds = news := by
  generalize hf : ([] : List (String × Json)) = fields at h
  induction h with
  | nil => rfl
  | @cons key nested fields old new olds news first rest ih =>
    obtain ⟨hn, hr⟩ := List.append_eq_nil_iff.mp hf.symm
    cases nested with
    | none => rw [show old = new from first, ih hr.symm]
    | some json => cases hn

theorem mem_names (h : Keyed key fields olds news) {name : String} (hm : name ∈ Json.names fields) :
    ∃ i, name = toString (key + i) := by
  induction h with
  | nil => cases hm
  | @cons key nested fields old new olds news first rest ih =>
    rw [Json.names_append, List.mem_append] at hm
    rcases hm with hm | hm
    · cases nested with
      | none => cases hm
      | some json => exact ⟨0, List.mem_singleton.mp hm⟩
    · obtain ⟨i, hi⟩ := ih hm
      exact ⟨i + 1, by rw [hi]; congr 1; omega⟩

theorem nodup (h : Keyed key fields olds news) : (Json.names fields).Nodup := by
  induction h with
  | nil => exact List.nodup_nil
  | @cons key nested fields old new olds news first rest ih =>
    cases nested with
    | none => exact ih
    | some json =>
      refine List.nodup_cons.mpr ⟨fun hm => ?_, ih⟩
      obtain ⟨i, hi⟩ := rest.mem_names hm
      have := KeyPath.toString_inj.mp hi
      omega

/-- The part of a key changes the slot of that key. -/
theorem change (h : Keyed key fields olds news) {field : String × Json} (hm : field ∈ fields) :
    ∃ i old new, field.1 = toString (key + i) ∧ olds[i]? = some old ∧ news[i]? = some new ∧
      ∀ id, applyKeyed id old field.2 = (new, none) := by
  induction h with
  | nil => cases hm
  | @cons key nested fields old new olds news first rest ih =>
    rw [List.mem_append] at hm
    rcases hm with hm | hm
    · cases nested with
      | none => cases hm
      | some json =>
        rw [List.mem_singleton.mp hm]
        exact ⟨0, old, new, rfl, rfl, rfl, first⟩
    · obtain ⟨i, old', new', hname, hold, hnew, happly⟩ := ih hm
      exact ⟨i + 1, old', new', by rw [hname]; congr 1; omega, hold, hnew, happly⟩

/-- A slot without a part stays as it is. -/
theorem keep (h : Keyed key fields olds news) {i : Nat}
    (hi : toString (key + i) ∉ Json.names fields) : news[i]? = olds[i]? := by
  induction h generalizing i with
  | nil => rfl
  | @cons key nested fields old new olds news first rest ih =>
    rw [Json.names_append, List.mem_append, not_or] at hi
    cases i with
    | zero =>
      cases nested with
      | none => rw [show old = new from first]; rfl
      | some json => exact absurd (List.mem_singleton.mpr rfl) hi.1
    | succ i =>
      have hname : toString (key + 1 + i) ∉ Json.names fields := by
        rw [show key + 1 + i = key + (i + 1) by omega]
        exact hi.2
      exact ih hname

end Keyed

/-! ## Slots of a tree -/

/-- Changes one slot of a tree by its key. -/
def applyField (id : String) (slots : List Slot) (field : String × Json) : Outcome (List Slot) :=
  match KeyPath.keyOfSegment? field.1.toList with
  | none => (slots, some (.missingSlot (id ++ "." ++ field.1)))
  | some key =>
    match slots[key]? with
    | none => (slots, some (.missingSlot (id ++ "." ++ field.1)))
    | some slot => Outcome.within (slots.set key) (applyKeyed id slot field.2)

theorem applyFields_eq_all (id : String) (slots : List Slot) (fields : List (String × Json)) :
    applyFields id slots fields = Outcome.all (applyField id) slots fields := by
  induction fields generalizing slots with
  | nil => rfl
  | cons field rest ih =>
    obtain ⟨name, value⟩ := field
    rw [applyFields, Outcome.all, applyField]
    cases hkey : KeyPath.keyOfSegment? name.toList with
    | none => rfl
    | some key =>
      cases hslot : slots[key]? with
      | none => simp only [hslot]
      | some slot =>
        simp only [hslot]
        rcases applyKeyed id slot value with ⟨after, _ | e⟩
        · exact ih _
        · rfl

theorem applyField_key {id : String} {slots : List Slot} {key : Nat} {old new : Slot} {json : Json}
    (hk : key < KeyPath.keyLimit) (hs : slots[key]? = some old)
    (ha : applyKeyed id old json = (new, none)) :
    applyField id slots (toString key, json) = (slots.set key new, none) := by
  have hkey : KeyPath.keyOfSegment? (toString key).toList = some key :=
    KeyPath.keyOfSegment?_segment hk
  simp only [applyField, hkey, hs, ha]
  rfl

/-- The parts are found whatever their order. -/
theorem Keyed.sets {fields : List (String × Json)} {olds news : List Slot}
    (h : Keyed 0 fields olds news) (hl : olds.length ≤ KeyPath.keyLimit) (id : String) :
    Outcome.Sets (applyField id) fields olds news where
  nodup := h.nodup
  step := by
    rintro ⟨name, json⟩ hm
    obtain ⟨i, old, new, hname, hold, hnew, happly⟩ := h.change hm
    rw [Nat.zero_add] at hname
    have hi := (List.getElem?_eq_some_iff.mp hold).1
    refine ⟨i, new, hname, hi, hnew, fun others _ hg => ?_⟩
    rw [show name = toString i from hname]
    exact applyField_key (Nat.lt_of_lt_of_le hi hl) (hg.trans hold) (happly id)
  rest := fun key hk => h.keep (by rwa [Nat.zero_add])

theorem applyKeyed_keyed {fields : List (String × Json)} {olds news : List Slot}
    (h : Keyed 0 fields olds news) (hl : olds.length ≤ KeyPath.keyLimit) (statics : List String)
    (id : String) :
    applyKeyed id (tree statics olds) (Json.ofFields fields) = (tree statics news, none) := by
  have hlookup {name : String} (hn : ∀ key : Nat, toString key ≠ name) :
      (Json.sortFields fields).lookup name = none := by
    rw [Json.lookup_sortFields h.nodup]
    refine Json.lookup_eq_none fun hm => ?_
    obtain ⟨i, hi⟩ := h.mem_names hm
    exact hn _ hi.symm
  rw [Json.ofFields, applyKeyed, hlookup KeyPath.toString_ne_staticsKey,
    hlookup KeyPath.toString_ne_itemsKey, applyFields_eq_all,
    ((h.sets hl id).perm (Json.sortFields_perm h.nodup)).all]
  rfl

end Slot

end LiveTemplate
