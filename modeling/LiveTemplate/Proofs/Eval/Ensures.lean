import LiveTemplate.Eval.Evaluating

/-!
# What holds of every result

`Ensures post computation` says that a computation gives no result but those of which `post` holds,
whatever variables it starts with. One rule for each way in which computations are put together.
-/

namespace LiveTemplate

namespace Evaluating

variable {α β : Type}

/-- Every result of a computation has a property. One that fails ensures anything. -/
def Ensures (post : α → Prop) (computation : Evaluating α) : Prop :=
  ∀ (vars : Variables) (value : α) (after : Variables),
    StateT.run computation vars = .ok (value, after) → post value

namespace Ensures

variable {post : α → Prop} {computation : Evaluating α}

theorem any (computation : Evaluating α) : Ensures (fun _ => True) computation :=
  fun _ _ _ _ => trivial

theorem pure {value : α} (h : post value) : Ensures post (Pure.pure value) := by
  intro vars result after hr
  cases hr
  exact h

theorem bind {mid : β → Prop} {first : Evaluating β} {next : β → Evaluating α}
    (hf : Ensures mid first) (hn : ∀ value, mid value → Ensures post (next value)) :
    Ensures post (first >>= next) := by
  intro vars result after hr
  rw [StateT.run_bind] at hr
  cases hm : StateT.run first vars with
  | error e =>
    rw [hm] at hr
    cases hr
  | ok middle =>
    obtain ⟨value, vars'⟩ := middle
    rw [hm] at hr
    exact hn value (hf vars value vars' hm) vars' result after hr

/-- After a step of which nothing is asked. -/
theorem after {first : Evaluating β} {next : β → Evaluating α}
    (h : ∀ value, Ensures post (next value)) : Ensures post (first >>= next) :=
  (any first).bind fun value _ => h value

theorem inScope (h : Ensures post computation) : Ensures post (Evaluating.inScope computation) :=
  after fun _ => h.bind fun _ hv => after fun _ => pure hv

theorem isolated (h : Ensures post computation) : Ensures post (Evaluating.isolated computation) :=
  after fun _ => after fun _ => h.bind fun _ hv => after fun _ => pure hv

theorem mapM {round : β → Evaluating α} (h : ∀ entry, Ensures post (round entry))
    (entries : List β) : Ensures (fun values => ∀ value ∈ values, post value)
      (entries.mapM round) := by
  induction entries with
  | nil => exact pure fun _ hm => nomatch hm
  | cons entry rest ih =>
    rw [List.mapM_cons]
    refine (h entry).bind fun value hv => ih.bind fun values hvs => pure ?_
    intro other hm
    rcases List.mem_cons.mp hm with rfl | hm
    · exact hv
    · exact hvs other hm

theorem rounds {round : Value → Evaluating α} (h : ∀ item, Ensures post (round item))
    (binding : Option Binding) (entries : List (Value × Value)) :
    Ensures (fun values => ∀ value ∈ values, post value)
      (Evaluating.rounds binding entries round) := by
  refine mapM (fun entry => ?_) entries
  obtain ⟨key, item⟩ := entry
  exact inScope (after fun _ => h item)

theorem result {value : α} (h : Ensures post computation)
    (hr : computation.result = .ok value) : post value := by
  rw [Evaluating.result, StateT.run'_eq] at hr
  cases hm : StateT.run computation [] with
  | error e =>
    rw [hm] at hr
    cases hr
  | ok middle =>
    obtain ⟨found, vars⟩ := middle
    rw [hm] at hr
    cases hr
    exact h [] _ vars hm

end Ensures

end Evaluating

end LiveTemplate
