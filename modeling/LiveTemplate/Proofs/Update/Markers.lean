import LiveTemplate.Proofs.Update.Lists

/-!
# Updates by markers

* `Slot.Retexted`: markers that turn some texts into others where the texts stand at a position of a
  longer list. They compose as the texts do (`Retexted.append`), so that those between two slots
  turn the texts of the first one into those of the second (`textMarkers?_retexted`).
* `withTexts_of_textMarkers?`: slots that markers can tell apart differ in their texts only.
* `applyPayload_markers`: a client that sets the texts has the new slot.
-/

namespace LiveTemplate

namespace Slot

/-- One marker after the other. -/
def setTexts (id : String) (contents : List String) (markers : List Marker) :
    Outcome (List String) :=
  Outcome.all (fun contents marker => .ofExcept contents (setText id contents marker)) contents
    markers

/-- Markers that turn the texts from a position on into others, and the position after them. -/
structure Retexted (position next : Nat) (olds news : List String) (markers : List Marker) :
    Prop where
  next_eq : next = position + olds.length
  length_eq : news.length = olds.length
  positions : ∀ marker ∈ markers, marker.position < next
  run : ∀ (id : String) (before after : List String), before.length = position →
    setTexts id (before ++ (olds ++ after)) markers = (before ++ (news ++ after), none)

namespace Retexted

variable {position middle next : Nat} {olds news olds' news' : List String}
  {markers markers' : List Marker}

theorem nil : Retexted position position [] [] [] where
  next_eq := rfl
  length_eq := rfl
  positions := fun _ hm => nomatch hm
  run := fun _ _ _ _ => rfl

theorem single (old new : String) :
    Retexted position (position + 1) [old] [new]
      (if old = new then [] else [⟨position, new⟩]) where
  next_eq := rfl
  length_eq := rfl
  positions := by
    intro marker hm
    split at hm
    · cases hm
    · rw [List.mem_singleton.mp hm]
      exact Nat.lt_succ_self position
  run := by
    intro id before after hb
    subst hb
    split
    · rename_i he
      rw [he]
      rfl
    · have hlt : before.length < (before ++ ([old] ++ after)).length := by simp
      have hset : (before ++ ([old] ++ after)).set before.length new =
          before ++ ([new] ++ after) := by
        rw [List.set_append_right _ _ (Nat.le_refl _), Nat.sub_self]
        rfl
      have hstep : setText id (before ++ ([old] ++ after)) ⟨before.length, new⟩ =
          .ok (before ++ ([new] ++ after)) := by
        rw [setText, if_pos hlt, hset]
      simp only [setTexts, Outcome.all, hstep, Outcome.ofExcept]

theorem append (h : Retexted position middle olds news markers)
    (h' : Retexted middle next olds' news' markers') :
    Retexted position next (olds ++ olds') (news ++ news') (markers ++ markers') where
  next_eq := by rw [h'.next_eq, h.next_eq, List.length_append, Nat.add_assoc]
  length_eq := by rw [List.length_append, List.length_append, h.length_eq, h'.length_eq]
  positions := by
    intro marker hm
    rcases List.mem_append.mp hm with hm | hm
    · exact Nat.lt_of_lt_of_le (h.positions marker hm) (h'.next_eq ▸ Nat.le_add_right _ _)
    · exact h'.positions marker hm
  run := by
    intro id before after hb
    have hfirst := h.run id before (olds' ++ after) hb
    have hsecond := h'.run id (before ++ news) after (by
      rw [List.length_append, hb, h.length_eq, h.next_eq])
    rw [List.append_assoc, List.append_assoc] at hsecond
    rw [List.append_assoc, List.append_assoc, setTexts, Outcome.all_append hfirst]
    exact hsecond

end Retexted

/-! ## Markers between slots -/

mutual

theorem textMarkers?_retexted {position next : Nat} {markers : List Marker} (old new : Slot)
    (h : textMarkers? position old new = some (next, markers)) :
    Retexted position next old.texts new.texts markers := by
  cases old <;> cases new <;> rw [textMarkers?] at h <;> try cases h
  case empty.empty.refl => exact .nil
  case text.text.refl old new => exact .single old new
  case tree.tree =>
    split at h
    · exact slotMarkers?_retexted _ _ h
    · cases h
termination_by structural old

theorem slotMarkers?_retexted {position next : Nat} {markers : List Marker} (olds news : List Slot)
    (h : slotMarkers? position olds news = some (next, markers)) :
    Retexted position next (textsOfSlots olds) (textsOfSlots news) markers := by
  cases olds with
  | nil =>
    cases news with
    | nil =>
      cases h
      exact .nil
    | cons new news => cases h
  | cons old olds =>
    cases news with
    | nil => cases h
    | cons new news =>
      simp only [slotMarkers?, bind, Option.bind_eq_some_iff] at h
      obtain ⟨⟨middle, first⟩, hfirst, ⟨last, others⟩, hothers, he⟩ := h
      cases he
      exact (textMarkers?_retexted old new hfirst).append (slotMarkers?_retexted olds news hothers)
termination_by structural olds

end

/-! ## Setting texts -/

mutual

/-- A slot of the same shape takes up the texts of a slot and leaves the ones after them. -/
theorem withTexts_of_textMarkers? {position next : Nat} {markers : List Marker} (old new : Slot)
    (h : textMarkers? position old new = some (next, markers)) (more : List String) :
    withTexts (new.texts ++ more) old = (new, more) := by
  cases old <;> cases new <;> rw [textMarkers?] at h <;> try cases h
  case empty.empty.refl => rfl
  case text.text.refl => rfl
  case tree.tree =>
    split at h
    · rename_i hstatics
      rw [withTexts, texts, slotsWithTexts_of_slotMarkers? _ _ h more, hstatics]
    · cases h
termination_by structural old

theorem slotsWithTexts_of_slotMarkers? {position next : Nat} {markers : List Marker}
    (olds news : List Slot) (h : slotMarkers? position olds news = some (next, markers))
    (more : List String) : slotsWithTexts (textsOfSlots news ++ more) olds = (news, more) := by
  cases olds with
  | nil =>
    cases news with
    | nil => rfl
    | cons new news => cases h
  | cons old olds =>
    cases news with
    | nil => cases h
    | cons new news =>
      simp only [slotMarkers?, bind, Option.bind_eq_some_iff] at h
      obtain ⟨⟨middle, first⟩, hfirst, ⟨last, others⟩, hothers, -⟩ := h
      rw [textsOfSlots, List.append_assoc, slotsWithTexts,
        withTexts_of_textMarkers? old new hfirst _]
      simp only [slotsWithTexts_of_slotMarkers? olds news hothers more]
termination_by structural olds

end

/-! ## The fragment -/

theorem ofJson?_markerToJson {marker : Marker} (h : marker.position < Json.limit32) :
    Marker.ofJson? marker.toJson = some marker := by
  rw [Marker.toJson, Marker.ofJson?, Json.natBelow?_ofNat h]
  rfl

theorem applyMarkers_eq {old new : Slot} {next : Nat} {markers : List Marker}
    (h : textMarkers? 0 old new = some (next, markers)) (id : String) :
    applyMarkers id old markers = (new, none) := by
  have hrun := (textMarkers?_retexted old new h).run id [] [] rfl
  have hnew := withTexts_of_textMarkers? old new h []
  rw [List.nil_append, List.nil_append, List.append_nil, List.append_nil, setTexts] at hrun
  rw [List.append_nil] at hnew
  rw [applyMarkers, hrun]
  simp only [Outcome.within, hnew]

theorem applyPayload_markers {old new : Slot} {next : Nat} {markers : List Marker}
    (h : textMarkers? 0 old new = some (next, markers)) (hl : old.texts.length ≤ Json.limit32)
    (id : String) :
    applyPayload (.of id .markers (Update.markersPayload markers)) old = (new, none) := by
  have hr := textMarkers?_retexted old new h
  have hread : (Update.markersPayload markers).listOf? Marker.ofJson? = some markers := by
    have hmap : (markers.map Marker.toJson).mapM Marker.ofJson? =
        some (markers.map fun marker => marker) :=
      Json.mapM_map_some fun marker hm => ofJson?_markerToJson (by
        have := hr.positions marker hm
        have := hr.next_eq
        omega)
    rwa [List.map_id'] at hmap
  simp only [applyPayload, Fragment.of, hread]
  exact applyMarkers_eq h id

end Slot

end LiveTemplate
