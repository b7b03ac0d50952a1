import LiveTemplate.Proofs.Update.Chosen
import Mathlib.Data.List.Sort

/-!
# How the update of a list is chosen

A list can be updated by new items under their indices, by list edits, or as a whole. `Candidate`
says when each of these is open, without regard to the order in which they are tried.

* `Update.Candidate.eq_of_cost_eq`: no two candidates have the same cost.
* `Slot.compare_list_least`: the comparison of two lists gives the candidate of least cost.
-/

namespace LiveTemplate

namespace Update

/-- The updates among which that of a list is chosen. New items are sent under their indices if the
lists are of one length, and list edits if they are enabled and not too many. -/
inductive Candidate (options : UpdateOptions) (statics : List String) (old new : List (List Slot)) :
    Update → Prop
  | items {changes : List (Nat × List Slot)} (length : old.length = new.length)
      (changed : ∀ index item,
        (index, item) ∈ changes ↔ new[index]? = some item ∧ old[index]? ≠ some item)
      (ordered : changes.Pairwise fun first second => first.1 < second.1) :
      Candidate options statics old new (.items changes)
  | edits {found : List (ListEdit (List Slot))} (enabled : options.edits = true)
      (between : ListEdit.between? old new = some found)
      (allowed : options.budget.allows found.length old.length new.length = true) :
      Candidate options statics old new (.edits found)
  | whole : Candidate options statics old new (.replace (.list statics new))

variable {options : UpdateOptions} {statics : List String} {old new : List (List Slot)}

theorem pairwise_changedItems (start : Nat) (olds news : List (List Slot)) :
    (changedItems start olds news).Pairwise fun first second => first.1 < second.1 := by
  induction olds generalizing start news with
  | nil => exact List.Pairwise.nil
  | cons old olds ih =>
    cases news with
    | nil => exact List.Pairwise.nil
    | cons new news =>
      rw [changedItems]
      split
      · exact ih _ _
      · refine List.pairwise_cons.mpr ⟨fun change hm => ?_, ih _ _⟩
        obtain ⟨i, _, hi, -⟩ := mem_changedItems.mp hm
        omega

theorem mem_changedItems_iff {index : Nat} {item : List Slot} (hl : old.length = new.length) :
    (index, item) ∈ changedItems 0 old new ↔ new[index]? = some item ∧ old[index]? ≠ some item := by
  rw [mem_changedItems]
  constructor
  · rintro ⟨i, other, hi, ho, hn, hne⟩
    rw [Nat.zero_add] at hi
    subst hi
    exact ⟨hn, fun he => hne (Option.some.inj (ho.symm.trans he))⟩
  · rintro ⟨hn, hne⟩
    have hb : index < old.length := hl ▸ (List.getElem?_eq_some_iff.mp hn).1
    have ho := List.getElem?_eq_getElem hb
    exact ⟨index, _, (Nat.zero_add index).symm, ho, hn, fun he => hne (by rw [ho, he])⟩

/-- There is one way to send new items under their indices. -/
theorem Candidate.eq_changedItems {changes : List (Nat × List Slot)}
    (h : Candidate options statics old new (.items changes)) :
    changes = changedItems 0 old new := by
  cases h with
  | items length changed ordered =>
    have : Std.Irrefl fun first second : Nat × List Slot => first.1 < second.1 :=
      ⟨fun change => Nat.lt_irrefl change.1⟩
    have : Std.Antisymm fun first second : Nat × List Slot => first.1 < second.1 :=
      ⟨fun _ _ h h' => absurd h' (Nat.lt_asymm h)⟩
    exact ordered.eq_of_mem_iff (pairwise_changedItems 0 old new) fun change =>
      (changed change.1 change.2).trans (mem_changedItems_iff length).symm

/-- The candidates are those that are compared. -/
theorem candidate_iff {update : Update} :
    Candidate options statics old new update ↔
      update ∈ .replace (.list statics new) :: listCandidates options old new := by
  rw [List.mem_cons, mem_listCandidates]
  constructor
  · intro h
    have hc := h
    cases h with
    | items length => exact .inr (.inl ⟨by rw [hc.eq_changedItems], length⟩)
    | edits enabled between allowed => exact .inr (.inr ⟨_, rfl, enabled, between, allowed⟩)
    | whole => exact .inl rfl
  · rintro (rfl | ⟨rfl, length⟩ | ⟨found, rfl, enabled, between, allowed⟩)
    · exact .whole
    · exact .items length (fun _ _ => mem_changedItems_iff length) (pairwise_changedItems 0 old new)
    · exact .edits enabled between allowed

/-- Candidates of one cost are the same, since each strategy has one candidate at most. -/
theorem Candidate.eq_of_cost_eq {first second : Update}
    (h : Candidate options statics old new first) (h' : Candidate options statics old new second)
    (hc : first.cost = second.cost) : first = second := by
  have hrank : first.strategy.rank = second.strategy.rank :=
    congrArg (fun pair => (ofLex pair).2) hc
  have hf := h
  have hs := h'
  cases h <;> cases h' <;> try cases hrank
  case items.items => rw [hf.eq_changedItems, hs.eq_changedItems]
  case edits.edits between _ _ _ between' _ => rw [Option.some.inj (between.symm.trans between')]
  case whole.whole => rfl

end Update

namespace Slot

open Update

/-- The update between two different lists with the same texts, both well formed, is the candidate
of least cost. So edits are sent only where they are enabled and within the budget. The edits
between the lists are always found and turn the old items into the new ones. -/
theorem compare_list_least (options : UpdateOptions) {statics : List String}
    {old new : List (List Slot)} (hne : old ≠ new) (hs : statics ≠ [])
    (ho : ∀ item ∈ old, item.length = statics.length - 1)
    (hn : ∀ item ∈ new, item.length = statics.length - 1) :
    ∃ chosen, compare options (.list statics old) (.list statics new) = some chosen ∧
      Candidate options statics old new chosen ∧
      (∀ other, Candidate options statics old new other → other ≠ chosen →
        chosen.cost < other.cost) ∧
      (∀ found, chosen = .edits found → options.edits = true ∧
        (options.budget = .half → found.length ≤ max old.length new.length / 2 + 1) ∧
        ∀ limit, options.budget = .fixed limit → found.length ≤ limit) ∧
      ∃ found, ListEdit.between? old new = some found ∧
        ListEdit.applyAll? old found = some new := by
  have hcompare : compare options (.list statics old) (.list statics new) =
      some (best (.replace (.list statics new)) (listCandidates options old new)) := by
    have hfits : itemsFit statics old = true := itemsFit_iff.mpr ⟨hs, ho⟩
    have hfits' : itemsFit statics new = true := itemsFit_iff.mpr ⟨hs, hn⟩
    unfold compare
    rw [if_neg fun he => hne (Slot.list.inj he).2]
    simp [ofList, hfits, hfits']
  have hmem := best_mem (.replace (.list statics new)) (listCandidates options old new)
  have hleast := cost_best_le (.replace (.list statics new)) (listCandidates options old new)
  generalize best _ _ = chosen at hcompare hmem hleast
  have hcandidate : Candidate options statics old new chosen := candidate_iff.mpr hmem
  refine ⟨chosen, hcompare, hcandidate, fun other h hother => ?_, fun found hfound => ?_, ?_⟩
  · refine lt_of_le_of_ne (hleast other (candidate_iff.mp h)) fun hc => hother ?_
    exact h.eq_of_cost_eq hcandidate hc.symm
  · subst hfound
    cases hcandidate with
    | edits enabled between allowed =>
      refine ⟨enabled, fun hb => ?_, fun limit hb => ?_⟩
      · rw [hb] at allowed
        exact of_decide_eq_true allowed
      · rw [hb] at allowed
        exact of_decide_eq_true allowed
  · obtain ⟨found, hfound, happly, -⟩ := ListEdit.between?_applyAll? old new
    exact ⟨found, hfound, happly⟩

/-- The last of three items moves to the front. All three candidates are open: as many items as
before, one edit within the budget, and the whole list. The edit is sent. -/
theorem compare_list_least_rotation :
    let options : UpdateOptions := {}
    let statics := ["<li>", "</li>"]
    let old : List (List Slot) := [[.text "a"], [.text "b"], [.list ["", ""] [[.empty]]]]
    let new : List (List Slot) := [[.list ["", ""] [[.empty]]], [.text "a"], [.text "b"]]
    old ≠ new ∧ statics ≠ [] ∧ (∀ item ∈ old, item.length = statics.length - 1) ∧
      (∀ item ∈ new, item.length = statics.length - 1) ∧
      compare options (.list statics old) (.list statics new) = some (.edits [.move 2 0]) ∧
      ∃ chosen, compare options (.list statics old) (.list statics new) = some chosen ∧
        Candidate options statics old new chosen ∧
        (∀ other, Candidate options statics old new other → other ≠ chosen →
          chosen.cost < other.cost) ∧
        (∀ found, chosen = .edits found → options.edits = true ∧
          (options.budget = .half → found.length ≤ max old.length new.length / 2 + 1) ∧
          ∀ limit, options.budget = .fixed limit → found.length ≤ limit) ∧
        ∃ found, ListEdit.between? old new = some found ∧
          ListEdit.applyAll? old found = some new := by
  refine ⟨by decide, by decide, by decide, by decide, rfl, ?_⟩
  exact compare_list_least {} (by decide) (by decide) (by decide) (by decide)

end Slot

end LiveTemplate
