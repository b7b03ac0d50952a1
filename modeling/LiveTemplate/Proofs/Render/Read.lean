import LiveTemplate.Proofs.Render.Shape
import LiveTemplate.Proofs.Success

/-!
# What is read is sound

A reader takes one slot less than it found texts, and refuses an object without texts. So whatever
it accepts is sound: a node (`Slot.sound_of_ofJson`) and an item of a list
(`Slot.soundItem_of_itemOfJson`).
-/

namespace LiveTemplate

namespace Slot

/-- An item with so many slots, all of them sound. -/
def SoundItem (width : Nat) (item : List Slot) : Prop :=
  item.length = width ∧ soundSlots item = true

theorem soundSlots_iff {slots : List Slot} :
    soundSlots slots = true ↔ ∀ slot ∈ slots, slot.sound = true := by
  induction slots with
  | nil => simp [soundSlots]
  | cons slot rest ih => simp [soundSlots, ih]

theorem sound_list_iff {statics : List String} {items : List (List Slot)} :
    (list statics items).sound = true ↔
      statics ≠ [] ∧ ∀ item ∈ items, SoundItem (statics.length - 1) item := by
  rw [sound_list, itemsFit_iff, soundItems_iff, and_assoc]
  exact and_congr_right fun _ => ⟨fun h item hm => ⟨h.1 item hm, h.2 item hm⟩,
    fun h => ⟨fun item hm => (h item hm).1, fun item hm => (h item hm).2⟩⟩

theorem ne_nil_of_readStatics {fields : List (String × Json)} {statics : List String}
    (h : Wire.readStatics fields = .ok statics) : statics ≠ [] := by
  rw [Wire.readStatics] at h
  split at h
  · obtain ⟨texts, -, h⟩ := bind_eq_ok.mp h
    split at h
    · cases h
    · rename_i hne
      cases h
      exact fun he => hne (by rw [he]; rfl)
  · cases h

/-- Slots that are read one by one, as many as asked for. -/
theorem soundItem_of_mapM {width : Nat} {fields : List (String × Json)} {slots : List Slot}
    (hfields : ∀ name slot, slotOfFields? name fields = some (.ok slot) → slot.sound = true)
    (h : ((List.range width).mapM fun key =>
      (slotOfFields? (toString key) fields).getD (.error (.missingSlot key))) = .ok slots) :
    SoundItem width slots := by
  obtain ⟨hl, hread⟩ := of_mapM_eq_ok h
  refine ⟨hl.trans List.length_range, soundSlots_iff.mpr fun slot hm => ?_⟩
  obtain ⟨key, -, hk⟩ := hread slot hm
  cases hs : slotOfFields? (toString key) fields with
  | none =>
    rw [hs] at hk
    cases hk
  | some found =>
    rw [hs] at hk
    exact hfields (toString key) slot (hs.trans (congrArg some hk))

mutual

theorem sound_of_ofJson {json : Json} {slot : Slot} (h : ofJson json = .ok slot) :
    slot.sound = true := by
  cases json with
  | null =>
    cases h
    rfl
  | text content =>
    cases h
    rfl
  | object fields =>
    rw [ofJson] at h
    obtain ⟨statics, hstatics, h⟩ := bind_eq_ok.mp h
    have hne := ne_nil_of_readStatics hstatics
    dsimp only at h
    split at h
    · rename_i items hitems
      obtain ⟨found, rfl, rfl⟩ := map_eq_ok.mp h
      exact sound_list_iff.mpr ⟨hne, soundItem_of_itemsOfFields? hitems⟩
    · obtain ⟨slots, hslots, rfl⟩ := map_eq_ok.mp h
      obtain ⟨hl, hs⟩ := soundItem_of_mapM (fun _ _ hf => sound_of_slotOfFields? hf) hslots
      have hpos := List.length_pos_iff.mpr hne
      exact sound_tree.mpr ⟨slotsFit_iff.mpr (by omega), hs⟩
  | _ => cases h
termination_by structural json

theorem sound_of_slotOfFields? {name : String} {fields : List (String × Json)} {slot : Slot}
    (h : slotOfFields? name fields = some (.ok slot)) : slot.sound = true := by
  cases fields with
  | nil => cases h
  | cons field rest =>
    obtain ⟨key, value⟩ := field
    rw [slotOfFields?] at h
    split at h
    · exact sound_of_ofJson (Option.some.inj h)
    · exact sound_of_slotOfFields? h
termination_by structural fields

theorem soundItem_of_itemsOfFields? {width : Nat} {fields : List (String × Json)}
    {items : List (List Slot)} (h : itemsOfFields? width fields = some (.ok items)) :
    ∀ item ∈ items, SoundItem width item := by
  cases fields with
  | nil => cases h
  | cons field rest =>
    obtain ⟨key, value⟩ := field
    unfold itemsOfFields? at h
    split at h
    · cases value with
      | array values => exact soundItem_of_itemsOfJson (Option.some.inj h)
      | _ => cases h
    · exact soundItem_of_itemsOfFields? h
termination_by structural fields

theorem soundItem_of_itemsOfJson {width : Nat} {values : List Json} {items : List (List Slot)}
    (h : itemsOfJson width values = .ok items) : ∀ item ∈ items, SoundItem width item := by
  cases values with
  | nil =>
    cases h
    exact List.forall_mem_nil _
  | cons value rest =>
    rw [itemsOfJson] at h
    obtain ⟨first, hfirst, h⟩ := bind_eq_ok.mp h
    obtain ⟨others, hothers, h⟩ := bind_eq_ok.mp h
    cases h
    exact List.forall_mem_cons.mpr
      ⟨soundItem_of_itemOfJson hfirst, soundItem_of_itemsOfJson hothers⟩
termination_by structural values

theorem soundItem_of_itemOfJson {width : Nat} {value : Json} {item : List Slot}
    (h : itemOfJson width value = .ok item) : SoundItem width item := by
  cases value with
  | object fields =>
    rw [itemOfJson] at h
    exact soundItem_of_mapM (fun _ _ hf => sound_of_slotOfFields? hf) h
  | _ => cases h
termination_by structural value

end

end Slot

end LiveTemplate
