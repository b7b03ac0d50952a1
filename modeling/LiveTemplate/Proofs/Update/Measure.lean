import LiveTemplate.Proofs.Update.Cost

/-!
# The size by which updates are compared

The size of an update is the number of bytes of the fragments that are sent for it, with one
exception (`Update.size_eq_iff`): a keyed update of which nothing is nested is sent without a
fragment of its own, and counts as an empty object nevertheless. So markers may be sent where a
keyed update would take no more bytes (`RenderTree.markers_for_unnested`).
-/

namespace LiveTemplate

namespace Update

mutual

/-- The fragments beside the nested part of an update are not keyed. -/
theorem strategy_of_mem_inline {path : KeyPath} {update : Update} {fragment : Fragment}
    (h : fragment ∈ (update.inline path).2) : fragment.strategy ≠ .keyed := by
  cases update with
  | text | items => cases h
  | markers | edits | replace =>
    rw [List.mem_singleton.mp h]
    exact nofun
  | keyed changes => exact strategy_of_mem_inlineFields h
termination_by structural update

theorem strategy_of_mem_inlineFields {path : KeyPath} {changes : List (Nat × Update)}
    {fragment : Fragment} (h : fragment ∈ (inlineFields path changes).2) :
    fragment.strategy ≠ .keyed := by
  match changes with
  | [] => cases h
  | (key, update) :: rest =>
    rcases List.mem_append.mp h with h | h
    · exact strategy_of_mem_inline h
    · exact strategy_of_mem_inlineFields h
termination_by structural changes

end

/-- A keyed fragment is sent for an update if and only if something of it is nested. -/
theorem exists_keyed_iff (update : Update) (key : Nat) :
    (∃ fragment ∈ update.fragments key, fragment.strategy = .keyed) ↔
      (update.inline [key]).1.isSome = true := by
  constructor
  · rintro ⟨fragment, hf, hs⟩
    rcases mem_fragments.mp hf with ⟨json, hj, -⟩ | hf
    · rw [hj]
      rfl
    · exact absurd hs (strategy_of_mem_inline hf)
  · intro h
    obtain ⟨json, hj⟩ := Option.isSome_iff_exists.mp h
    exact ⟨_, mem_fragments.mpr (.inl ⟨json, hj, rfl⟩), rfl⟩

/-- The size of an update is that of its fragments, and of an empty object if it is keyed and
nothing of it is nested. -/
theorem size_eq_add (update : Update) (key : Nat) :
    update.size = payloadSize (update.fragments key) +
      if update.strategy = .keyed ∧ (update.inline [key]).1 = none then 2 else 0 := by
  obtain ⟨hnested, hsize⟩ := inline_path [key] [] update
  rw [payloadSize_fragments, sentSize, hnested, hsize]
  by_cases hs : update.strategy = .keyed
  · rw [size_of_keyed hs]
    cases (update.inline []).1 with
    | none =>
      simp [hs, Json.size_object_nil]
      omega
    | some json => simp
  · rw [if_neg fun h => hs h.1]
    cases update with
    | text | items | keyed => exact absurd rfl hs
    | markers | edits | replace => exact (Nat.zero_add _).symm

/-- The size by which an update is compared is the number of bytes that are sent for it as the
update of a top-level slot, if and only if it is not a keyed update for which no keyed fragment is
sent. The size of such an update is two more. -/
theorem size_eq_iff (update : Update) (key : Nat) :
    (update.size = payloadSize (update.fragments key) ↔
      (update.strategy = .keyed → ∃ fragment ∈ update.fragments key, fragment.strategy = .keyed)) ∧
    (update.size = payloadSize (update.fragments key) ∨
      update.size = payloadSize (update.fragments key) + 2) := by
  have hsize := size_eq_add update key
  rw [exists_keyed_iff, Option.isSome_iff_ne_none]
  by_cases h : update.strategy = .keyed ∧ (update.inline [key]).1 = none
  · rw [if_pos h] at hsize
    refine ⟨iff_of_false (by omega) fun himp => himp h.1 h.2, .inr hsize⟩
  · rw [if_neg h, Nat.add_zero] at hsize
    exact ⟨iff_of_true hsize fun hs hn => h ⟨hs, hn⟩, .inl hsize⟩

end Update

/-- Of two top-level slots, the first one has three trees within one another, the innermost with one
text, and the second one has a tree with one slot. When the text changes, the tree in the middle is
updated by markers, and the keyed update of the outer tree, which nests nothing then, takes as many
bytes as markers for the outer tree. It counts two more, so that the outer tree gets the markers.
When the slot of the second tree is emptied, the size of its update is two more than what is
sent. -/
theorem RenderTree.markers_for_unnested :
    let outer : String → Slot := fun content =>
      .tree ["", ""] [.tree ["", ""] [.tree ["", ""] [.text content]]]
    let prev : RenderTree := ⟨["", "", ""], [outer "x", .tree ["", ""] [.text "a"]]⟩
    let next : RenderTree := ⟨["", "", ""], [outer "y", .tree ["", ""] [.empty]]⟩
    let emptied : Update := .keyed [(0, .replace .empty)]
    let within : Update := .keyed [(0, .markers [⟨0, "y"⟩])]
    prev.sound = true ∧ next.sound = true ∧
      Slot.compare {} (.tree ["", ""] [.text "a"]) (.tree ["", ""] [.empty]) = some emptied ∧
      emptied.size = 6 ∧ Update.payloadSize (emptied.fragments 1) = 4 ∧
      Slot.compareSlots {} 0 [.tree ["", ""] [.tree ["", ""] [.text "x"]]]
        [.tree ["", ""] [.tree ["", ""] [.text "y"]]] = [(0, .markers [⟨0, "y"⟩])] ∧
      within.size = 11 ∧ Update.payloadSize (within.fragments 0) = 9 ∧
      (Update.markers [⟨0, "y"⟩]).size = 9 ∧
      prev.fragments {} next =
        [.of "0" .markers (.array [.array [.integer 0, .text "y"]]),
          .of "1.0" .replacement .null] := by
  intro outer prev next emptied within
  exact ⟨rfl, rfl, rfl, rfl, rfl, rfl, rfl, rfl, rfl, rfl⟩

end LiveTemplate
