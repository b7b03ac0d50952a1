import LiveTemplate.Proofs.Client.Keyed
import LiveTemplate.Proofs.Update.ListEdit
import LiveTemplate.Update.Compare
import Mathlib.Data.List.Nodup

/-!
# Updates of lists

Both ways to send a list other than as a whole bring a client to the new list: new items by index
(`applyKeyed_itemsPayload`) and list edits (`applyPayload_edits`).
-/

namespace LiveTemplate

namespace Json

variable {α β : Type}

theorem mapM_map_some {write : α → Json} {read : Json → Option β} {f : α → β} {items : List α}
    (h : ∀ item ∈ items, read (write item) = some (f item)) :
    (items.map write).mapM read = some (items.map f) := by
  induction items with
  | nil => rfl
  | cons item rest ih =>
    rw [List.map_cons, List.mapM_cons, h item List.mem_cons_self,
      ih fun item hm => h item (List.mem_cons_of_mem _ hm)]
    rfl

theorem natBelow?_ofNat {limit n : Nat} (h : n < limit) :
    natBelow? limit (.integer (n : Int)) = some n :=
  if_pos h

end Json

namespace Slot

/-- An item of a sound list is read back from its wire form. -/
theorem itemOfJson_of_fit {statics : List String} {items : List (List Slot)}
    (hf : itemsFit statics items = true) (hs : soundItems items = true) {item : List Slot}
    (hm : item ∈ items) : itemOfJson (statics.length - 1) (itemToJson item) = .ok item :=
  itemOfJson_itemToJson (soundItems_iff.mp hs item hm) ((itemsFit_iff.mp hf).2 item hm)

end Slot

namespace Update

open Slot

/-! ## New items by index -/

/-- The items that have changed, by index. -/
theorem mem_changedItems {start index : Nat} {item : List Slot} {olds news : List (List Slot)} :
    (index, item) ∈ changedItems start olds news ↔
      ∃ i old, index = start + i ∧ olds[i]? = some old ∧ news[i]? = some item ∧ old ≠ item := by
  induction olds generalizing start news with
  | nil => simp [changedItems]
  | cons old olds ih =>
    cases news with
    | nil => simp [changedItems]
    | cons new news =>
      have hrest : (index, item) ∈ changedItems (start + 1) olds news ↔
          ∃ i other, index = start + (i + 1) ∧ (old :: olds)[i + 1]? = some other ∧
            (new :: news)[i + 1]? = some item ∧ other ≠ item := by
        simp only [ih, List.getElem?_cons_succ, Nat.add_assoc, Nat.add_comm 1]
      rw [changedItems]
      constructor
      · intro h
        split at h
        · obtain ⟨i, other, hi⟩ := hrest.mp h
          exact ⟨i + 1, other, hi⟩
        · rename_i hne
          rcases List.mem_cons.mp h with h | h
          · cases h
            exact ⟨0, old, rfl, rfl, rfl, hne⟩
          · obtain ⟨i, other, hi⟩ := hrest.mp h
            exact ⟨i + 1, other, hi⟩
      · rintro ⟨i, other, hi, ho, hn, hne⟩
        cases i with
        | zero =>
          cases ho
          cases hn
          rw [if_neg hne]
          exact hi ▸ List.mem_cons_self
        | succ i =>
          have hm := hrest.mpr ⟨i, other, hi, ho, hn, hne⟩
          split
          · exact hm
          · exact List.mem_cons_of_mem _ hm

theorem changedItems_nodup (start : Nat) (olds news : List (List Slot)) :
    ((changedItems start olds news).map Prod.fst).Nodup := by
  induction olds generalizing start news with
  | nil => exact List.nodup_nil
  | cons old olds ih =>
    cases news with
    | nil => exact List.nodup_nil
    | cons new news =>
      rw [changedItems]
      split
      · exact ih _ _
      · refine List.nodup_cons.mpr ⟨fun hm => ?_, ih _ _⟩
        obtain ⟨⟨index, item⟩, hm, he⟩ := List.mem_map.mp hm
        obtain ⟨i, _, hi, -⟩ := mem_changedItems.mp hm
        rw [show index = start from he] at hi
        omega

theorem changedItems_keep (start : Nat) {i : Nat} {olds news : List (List Slot)}
    (hl : olds.length = news.length)
    (h : start + i ∉ (changedItems start olds news).map Prod.fst) : news[i]? = olds[i]? := by
  by_cases hi : i < olds.length
  · have ho := List.getElem?_eq_getElem hi
    have hn := List.getElem?_eq_getElem (hl ▸ hi)
    by_contra hne
    have hm : (start + i, _) ∈ changedItems start olds news :=
      mem_changedItems.mpr ⟨i, _, rfl, ho, hn, fun he => hne (by rw [hn, ho, he])⟩
    exact h (List.mem_map_of_mem hm)
  · rw [List.getElem?_eq_none (Nat.le_of_not_lt hi),
      List.getElem?_eq_none (hl ▸ Nat.le_of_not_lt hi)]

theorem names_itemFields (changes : List (Nat × List Slot)) :
    Json.names (changes.map fun (index, item) => (toString index, itemToJson item)) =
      (changes.map Prod.fst).map toString := by
  rw [Json.names, List.map_map, List.map_map]
  rfl

theorem nodup_names_itemFields (start : Nat) (olds news : List (List Slot)) :
    (Json.names ((changedItems start olds news).map fun (index, item) =>
      (toString index, itemToJson item))).Nodup := by
  rw [names_itemFields]
  exact (changedItems_nodup start olds news).map fun _ _ => KeyPath.toString_inj.mp

/-- The fields of the items that differ. -/
theorem itemFields_sets {statics : List String} {olds news : List (List Slot)}
    (hl : olds.length = news.length) (hk : olds.length ≤ KeyPath.keyLimit)
    (hf : itemsFit statics news = true) (hs : soundItems news = true) (id : String) :
    Outcome.Sets
      (fun items field => .ofExcept items (setItem id (statics.length - 1) items field))
      ((changedItems 0 olds news).map fun (index, item) => (toString index, itemToJson item))
      olds news where
  nodup := nodup_names_itemFields 0 olds news
  step := by
    intro step hm
    obtain ⟨⟨index, item⟩, hchanged, rfl⟩ := List.mem_map.mp hm
    obtain ⟨i, old, hi, hold, hnew, -⟩ := mem_changedItems.mp hchanged
    have hlt := (List.getElem?_eq_some_iff.mp hold).1
    rw [Nat.zero_add] at hi
    subst hi
    refine ⟨index, item, rfl, hlt, hnew, fun others ho _ => ?_⟩
    have hkey : KeyPath.keyOfSegment? (toString index).toList = some index :=
      KeyPath.keyOfSegment?_segment (Nat.lt_of_lt_of_le hlt hk)
    have hread := itemOfJson_of_fit hf hs (List.mem_of_getElem? hnew)
    simp only [setItem, hkey, Option.filter_some, ho, hlt, decide_true, if_true, hread]
    rfl
  rest := by
    intro key hn
    refine changedItems_keep 0 hl fun hm => hn ?_
    rw [Nat.zero_add] at hm
    rw [names_itemFields]
    exact List.mem_map_of_mem hm

theorem applyKeyed_itemsPayload {statics : List String} {olds news : List (List Slot)}
    (hl : olds.length = news.length) (hk : olds.length ≤ KeyPath.keyLimit)
    (hf : itemsFit statics news = true) (hs : soundItems news = true) (id : String) :
    applyKeyed id (list statics olds) (itemsPayload (changedItems 0 olds news)) =
      (list statics news, none) := by
  have hsets := itemFields_sets hl hk hf hs id
  have hne : Wire.staticsKey ≠ Wire.itemsKey := by decide
  simp only [itemsPayload, applyKeyed, Json.lookup_cons, if_neg hne, List.lookup_nil,
    Option.isSome_none, Bool.false_eq_true, if_false, if_true, Json.ofFields, applyItems]
  rw [(hsets.perm (Json.sortFields_perm hsets.nodup)).all]
  rfl

/-! ## List edits -/

/-- An edit with its item in wire form. -/
def wireEdit : ListEdit (List Slot) → ListEdit Json
  | .insert index item => .insert index (itemToJson item)
  | .remove index => .remove index
  | .move source target => .move source target

theorem editToJson_eq (edit : ListEdit (List Slot)) : editToJson edit = (wireEdit edit).toJson := by
  cases edit <;> rfl

theorem inBounds_wireEdit (length : Nat) (edit : ListEdit (List Slot)) :
    (wireEdit edit).inBounds length = edit.inBounds length := by
  cases edit <;> rfl

/-- The reader looks the fields of an edit up, so that their order does not matter. -/
theorem ofJson?_ofFields {fields : List (String × Json)} (h : (Json.names fields).Nodup) :
    ListEdit.ofJson? (Json.ofFields fields) = ListEdit.ofJson? (.object fields) := by
  simp [ListEdit.ofJson?, ListEdit.position?, Json.ofFields, Json.tagged?, Json.recordOf?,
    Json.lookup_sortFields h, Option.bind_assoc]

/-- An edit is read back from its JSON form. -/
theorem ofJson?_editToJson {limit : Nat} {items : List (List Slot)} {edit : ListEdit (List Slot)}
    (h : edit.drawn limit items) (hl : limit ≤ Json.limit32) :
    ListEdit.ofJson? (editToJson edit) = some (wireEdit edit) := by
  have hpos {n : Nat} (hn : n < limit) :
      Json.natBelow? Json.limit32 (.integer (n : Int)) = some n :=
    Json.natBelow?_ofNat (Nat.lt_of_lt_of_le hn hl)
  rw [editToJson_eq]
  cases edit with
  | insert index item =>
    rw [wireEdit, ListEdit.toJson, ofJson?_ofFields (by simp)]
    simp [ListEdit.ofJson?, ListEdit.position?, Json.tagged?, Json.recordOf?, Json.lookup_cons,
      Json.text?, hpos h.1]
  | remove index =>
    rw [wireEdit, ListEdit.toJson, ofJson?_ofFields (by simp)]
    simp [ListEdit.ofJson?, ListEdit.position?, Json.tagged?, Json.recordOf?, Json.lookup_cons,
      Json.text?, hpos h]
  | move source target =>
    rw [wireEdit, ListEdit.toJson, ofJson?_ofFields (by simp)]
    simp [ListEdit.ofJson?, ListEdit.position?, Json.tagged?, Json.recordOf?, Json.lookup_cons,
      Json.text?, hpos h.1, hpos h.2]

theorem editItems_wireEdit {limit width : Nat} {items news : List (List Slot)}
    {edit : ListEdit (List Slot)} (h : edit.drawn limit news)
    (hb : edit.inBounds items.length = true)
    (hread : ∀ item ∈ news, itemOfJson width (itemToJson item) = .ok item) (id : String) :
    editItems id width items (wireEdit edit) = .ok (ListEdit.apply items edit) := by
  rw [editItems, inBounds_wireEdit, if_pos hb]
  cases edit with
  | insert index item =>
    rw [wireEdit, ListEdit.mapItem, hread item h.2]
    rfl
  | remove index => rfl
  | move source target => rfl

theorem editItems_all {limit width : Nat} {olds news items : List (List Slot)}
    {edits : List (ListEdit (List Slot))} (h : ListEdit.applyAll? olds edits = some items)
    (hd : ∀ edit ∈ edits, edit.drawn limit news)
    (hread : ∀ item ∈ news, itemOfJson width (itemToJson item) = .ok item) (id : String) :
    Outcome.all (fun items edit => .ofExcept items (editItems id width items edit)) olds
      (edits.map wireEdit) = (items, none) := by
  induction edits generalizing olds with
  | nil =>
    cases h
    rfl
  | cons edit edits ih =>
    rw [ListEdit.applyAll?] at h
    split at h
    · rename_i hb
      have hstep := editItems_wireEdit (hd edit List.mem_cons_self) hb hread id
      simp only [List.map_cons, Outcome.all, hstep, Outcome.ofExcept]
      exact ih h fun edit hm => hd edit (List.mem_cons_of_mem _ hm)
    · cases h

theorem applyPayload_edits {statics : List String} {olds news : List (List Slot)}
    {edits : List (ListEdit (List Slot))} (he : ListEdit.between? olds news = some edits)
    (ho : olds.length < Json.limit32) (hn : news.length < Json.limit32)
    (hf : itemsFit statics news = true) (hs : soundItems news = true) (id : String) :
    applyPayload (.of id .edits (editsPayload edits)) (list statics olds) =
      (list statics news, none) := by
  obtain ⟨found, hbetween, happly, hdrawn⟩ := ListEdit.between?_applyAll? olds news
  cases he.symm.trans hbetween
  have hread : (editsPayload edits).listOf? ListEdit.ofJson? = some (edits.map wireEdit) :=
    Json.mapM_map_some fun edit hm => ofJson?_editToJson (hdrawn edit hm) (by omega)
  have hall := editItems_all happly hdrawn (fun item hm => itemOfJson_of_fit hf hs hm) id
  simp only [applyPayload, Fragment.of, hread, applyEdits]
  rw [hall]
  rfl

end Update

end LiveTemplate
