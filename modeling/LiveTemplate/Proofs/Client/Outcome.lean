import LiveTemplate.Client.Apply
import LiveTemplate.Proofs.Json.Fields
import LiveTemplate.Proofs.Key.Text

/-!
# Changes in order

* `Outcome.all_append`: changes that all happen go on with the ones after them.
* `Outcome.Sets`: each change replaces one item of a list, and no two of them the same one. Their
  result does not depend on their order (`Sets.all`, `Sets.perm`), so that the fields of an object
  may be sorted.
-/

namespace LiveTemplate

namespace Outcome

variable {α β : Type}

theorem all_cons {change : α → β → Outcome α} {state next : α} {step : β}
    (h : change state step = (next, none)) (rest : List β) :
    all change state (step :: rest) = all change next rest := by
  rw [all, h]

theorem all_append {change : α → β → Outcome α} {state next : α} {first : List β}
    (h : all change state first = (next, none)) (second : List β) :
    all change state (first ++ second) = all change next second := by
  induction first generalizing state with
  | nil =>
    cases h
    rfl
  | cons step rest ih =>
    rw [all] at h
    rw [List.cons_append, all]
    split at h
    · exact ih h
    · cases h

/-! ## Changes of different items -/

/-- Each step replaces one item of a list, named by its key, and no two steps the same item. -/
structure Sets (change : List α → String × Json → Outcome (List α))
    (steps : List (String × Json)) (items news : List α) : Prop where
  nodup : (Json.names steps).Nodup
  step : ∀ step ∈ steps, ∃ key item, step.1 = toString key ∧ key < items.length ∧
    news[key]? = some item ∧
      ∀ others : List α, others.length = items.length → others[key]? = items[key]? →
        change others step = (others.set key item, none)
  rest : ∀ key : Nat, toString key ∉ Json.names steps → news[key]? = items[key]?

namespace Sets

variable {change : List α → String × Json → Outcome (List α)}
  {steps steps' : List (String × Json)} {items news : List α}

theorem perm (h : Sets change steps items news) (hp : steps'.Perm steps) :
    Sets change steps' items news where
  nodup := (hp.map Prod.fst).nodup_iff.mpr h.nodup
  step := fun step hm => h.step step (hp.mem_iff.mp hm)
  rest := fun key hk => h.rest key fun hm => hk ((hp.map Prod.fst).mem_iff.mpr hm)

theorem all (h : Sets change steps items news) : Outcome.all change items steps = (news, none) := by
  induction steps generalizing items with
  | nil =>
    have : items = news := List.ext_getElem? fun key => (h.rest key List.not_mem_nil).symm
    rw [this]
    rfl
  | cons step steps ih =>
    obtain ⟨key, item, hname, hkey, hnew, hstep⟩ := h.step step List.mem_cons_self
    rw [all_cons (hstep items rfl rfl)]
    have hn := List.nodup_cons.mp h.nodup
    refine ih ⟨hn.2, ?_, ?_⟩
    · intro other hm
      obtain ⟨key', item', hname', hkey', hnew', hother⟩ := h.step other (List.mem_cons_of_mem _ hm)
      have hne : key ≠ key' := by
        rintro rfl
        exact hn.1 (hname ▸ hname' ▸ List.mem_map_of_mem hm)
      refine ⟨key', item', hname', by rwa [List.length_set], hnew', fun others hl hg => ?_⟩
      rw [List.length_set] at hl
      rw [List.getElem?_set_ne hne] at hg
      exact hother others hl hg
    · intro key' hk
      by_cases he : key = key'
      · rw [← he, hnew, List.getElem?_set_self hkey]
      · rw [List.getElem?_set_ne he]
        refine h.rest key' fun hm => ?_
        rcases List.mem_cons.mp hm with hm | hm
        · exact he (KeyPath.toString_inj.mp (hname.symm.trans hm.symm))
        · exact hk hm

end Sets

end Outcome

end LiveTemplate
