import LiveTemplate.Update.Compare
import Mathlib.Data.Prod.Lex

/-!
# The best of several updates

Updates are compared by their `Update.cost`: their size, and the rank of their strategy if they are
of one size. The best one of several is one of them (`best_mem`), and none of them is better
(`cost_best_le`).

For a list, these are the whole list and what `mem_listCandidates` says. The update of a list is
always one of them (`ofList_mem`) and never larger than the whole list (`size_ofList_le`).
-/

namespace LiveTemplate

namespace Update

/-! ## Cost -/

/-- What updates are compared by: the number of bytes that are sent, then the rank of the
strategy. -/
def cost (update : Update) : Nat ×ₗ Nat :=
  toLex (update.size, update.strategy.rank)

theorem preferred_iff {first second : Update} :
    first.preferred second = true ↔ first.cost < second.cost := by
  simp [preferred, cost, Prod.Lex.toLex_lt_toLex]

theorem size_le_of_cost_le {first second : Update} (h : first.cost ≤ second.cost) :
    first.size ≤ second.size := by
  simp only [cost, Prod.Lex.toLex_le_toLex] at h
  omega

/-- The better of two updates. -/
theorem cost_ite_preferred (chosen update : Update) :
    (if update.preferred chosen then update else chosen).cost = min chosen.cost update.cost := by
  by_cases h : update.preferred chosen
  · rw [if_pos h, min_eq_right (preferred_iff.mp h).le]
  · rw [if_neg h, min_eq_left (not_lt.mp (mt preferred_iff.mpr h))]

/-! ## The best update -/

theorem best_mem (first : Update) (others : List Update) : best first others ∈ first :: others := by
  unfold best
  induction others generalizing first with
  | nil => exact List.mem_singleton.mpr rfl
  | cons update rest ih =>
    rw [List.foldl_cons]
    split
    · exact List.mem_cons_of_mem _ (ih update)
    · rcases List.mem_cons.mp (ih first) with h | h
      · rw [h]
        exact List.mem_cons_self
      · exact List.mem_cons_of_mem _ (List.mem_cons_of_mem _ h)

/-- None of some updates is better than the best one. -/
theorem cost_best_le (first : Update) (others : List Update) :
    ∀ update ∈ first :: others, (best first others).cost ≤ update.cost := by
  unfold best
  induction others generalizing first with
  | nil => simp
  | cons second rest ih =>
    rw [List.foldl_cons]
    have hbetter := ih (if second.preferred first then second else first)
    have hmin := hbetter _ List.mem_cons_self
    rw [cost_ite_preferred] at hmin
    intro update hm
    rcases List.mem_cons.mp hm with rfl | hm
    · exact hmin.trans (min_le_left _ _)
    · rcases List.mem_cons.mp hm with rfl | hm
      · exact hmin.trans (min_le_right _ _)
      · exact hbetter update (List.mem_cons_of_mem _ hm)

/-! ## Lists -/

variable {options : UpdateOptions} {old new : List (List Slot)}

/-- Besides the whole list, new items can be sent if there are as many as before, and list edits if
they are enabled and within the budget. -/
theorem mem_listCandidates {update : Update} :
    update ∈ listCandidates options old new ↔
      (update = .items (changedItems 0 old new) ∧ old.length = new.length) ∨
        ∃ found, update = .edits found ∧ options.edits = true ∧
          ListEdit.between? old new = some found ∧
            options.budget.allows found.length old.length new.length = true := by
  rw [listCandidates, List.mem_append]
  refine or_congr ?_ ?_
  · by_cases hl : old.length = new.length <;> simp [hl]
  · by_cases he : options.edits = true
    · cases ListEdit.between? old new with
      | none => simp
      | some found =>
        by_cases ha : options.budget.allows found.length old.length new.length = true <;> grind
    · simp [he]

/-- The update of a list is the whole list or one of the candidates. -/
theorem ofList_mem (options : UpdateOptions) (statics : List String) (old new : List (List Slot)) :
    ofList options statics old new ∈
      .replace (.list statics new) :: listCandidates options old new := by
  rw [ofList]
  split
  · exact List.mem_cons_self
  · exact best_mem _ _

theorem size_ofList_le (options : UpdateOptions) (statics : List String)
    (old new : List (List Slot)) :
    (ofList options statics old new).size ≤ (replace (.list statics new)).size := by
  rw [ofList]
  split
  · exact Nat.le_refl _
  · exact size_le_of_cost_le (cost_best_le _ _ _ List.mem_cons_self)

end Update

end LiveTemplate
