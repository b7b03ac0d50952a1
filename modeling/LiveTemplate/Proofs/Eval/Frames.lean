import LiveTemplate.Proofs.Eval.Tracks
import Mathlib.Data.List.Forall2
import Mathlib.Order.Defs.Unbundled

/-!
# What computations leave of the variables

`Variables.Kept names` relates variables to the same ones, of which only those of some names may
have other values; `Variables.Grown names` allows variables that were declared since, too. A
computation `Keeps` such a relation if the variables that it is started with are so related to those
that it leaves. There is one rule for each way in which computations are put together:

* a pipeline leaves grown variables, in which the names that it assigns to may have other values;
* a scope makes kept variables of grown ones (`Keeps.inScope`);
* a computation on its own leaves all variables alone (`Keeps.isolated`).
-/

namespace LiveTemplate

/-! ## Variables -/

namespace Variables

/-- The same variables in the same order, of which those of some names may have other values. -/
def Kept (names : List String) (before after : Variables) : Prop :=
  List.Forall₂ (fun old new => new.1 = old.1 ∧ (new.2 ≠ old.2 → old.1 ∈ names)) before after

/-- Kept variables, further out than any that were declared since. -/
def Grown (names : List String) (before after : Variables) : Prop :=
  ∃ kept, kept <:+ after ∧ Kept names before kept

variable {names more : List String} {before middle after : Variables}

namespace Kept

theorem refl (vars : Variables) : Kept names vars vars :=
  List.forall₂_same.mpr fun _ _ => ⟨rfl, fun h => absurd rfl h⟩

theorem trans (h : Kept names before middle) (h' : Kept names middle after) :
    Kept names before after := by
  induction h generalizing after with
  | nil => exact h'
  | @cons old mid _ _ first _ ih =>
    obtain ⟨new, rest, hnew, hrest, rfl⟩ := List.forall₂_cons_left_iff.mp h'
    refine .cons ⟨hnew.1.trans first.1, fun hne => ?_⟩ (ih hrest)
    by_cases hmid : mid.2 = old.2
    · exact first.1 ▸ hnew.2 (hmid ▸ hne)
    · exact first.2 hmid

theorem mono (h : Kept names before after) (hn : names ⊆ more) : Kept more before after :=
  h.imp fun _ _ hvar => ⟨hvar.1, fun hne => hn (hvar.2 hne)⟩

theorem length_eq (h : Kept names before after) : after.length = before.length :=
  (List.Forall₂.length_eq h).symm

theorem names_eq (h : Kept names before after) : after.names = before.names := by
  induction h with
  | nil => rfl
  | cons first _ ih => exact congrArg₂ List.cons first.1 ih

/-- A variable that has another value is one of those that may. -/
theorem mem_of_ne (h : Kept names before after) {position : Nat} {name : String} {old new : Value}
    (hold : before[position]? = some (name, old)) (hnew : after[position]? = some (name, new))
    (hne : new ≠ old) : name ∈ names := by
  induction h generalizing position with
  | nil => cases hold
  | cons first _ ih =>
    cases position with
    | zero =>
      cases hold
      cases hnew
      exact first.2 hne
    | succ position => exact ih hold hnew

/-- Assigning to a name keeps all variables but for one of that name. -/
theorem of_assign {name : String} {value : Value} (h : before.assign? name value = some after) :
    Kept [name] before after := by
  induction before generalizing after with
  | nil => cases h
  | cons first rest ih =>
    obtain ⟨declared, old⟩ := first
    rw [assign?] at h
    split at h
    · rename_i hdeclared
      cases h
      exact .cons ⟨rfl, fun _ => List.mem_singleton.mpr hdeclared⟩ (refl rest)
    · obtain ⟨others, hothers, rfl⟩ := Option.map_eq_some_iff.mp h
      exact .cons ⟨rfl, fun hne => absurd rfl hne⟩ (ih hothers)

end Kept

theorem Kept.grown (h : Kept names before after) : Grown names before after :=
  ⟨after, List.suffix_refl after, h⟩

namespace Grown

theorem trans (h : Grown names before middle) (h' : Grown names middle after) :
    Grown names before after := by
  obtain ⟨kept, hsuffix, hkept⟩ := h
  obtain ⟨kept', hsuffix', hkept'⟩ := h'
  have hdrop := List.forall₂_drop (middle.length - kept.length) hkept'
  rw [← List.suffix_iff_eq_drop.mp hsuffix] at hdrop
  exact ⟨_, (List.drop_suffix _ _).trans hsuffix', hkept.trans hdrop⟩

theorem mono (h : Grown names before after) (hn : names ⊆ more) : Grown more before after := by
  obtain ⟨kept, hsuffix, hkept⟩ := h
  exact ⟨kept, hsuffix, hkept.mono hn⟩

theorem declare (name : String) (value : Value) (vars : Variables) :
    Grown names vars (vars.declare name value) :=
  ⟨vars, List.suffix_cons _ _, .refl vars⟩

/-- What is left of grown variables without those that were declared since. -/
theorem keepOuter (h : Grown names before after) :
    Kept names before (after.keepOuter before.length) := by
  obtain ⟨kept, hsuffix, hkept⟩ := h
  rw [Variables.keepOuter, ← hkept.length_eq, ← List.suffix_iff_eq_drop.mp hsuffix]
  exact hkept

theorem bindRound (binding : Option Binding) (key item : Value) (vars : Variables) :
    Grown names vars (bindRound binding key item vars) := by
  unfold LiveTemplate.bindRound
  split
  · exact .declare _ _ _
  · exact (declare _ _ _).trans (.declare _ _ _)
  · exact (Kept.refl vars).grown

end Grown

instance : IsPreorder Variables (Kept names) where
  refl := .refl
  trans _ _ _ := .trans

instance : IsPreorder Variables (Grown names) where
  refl vars := (Kept.refl vars).grown
  trans _ _ _ := .trans

end Variables

/-! ## Pipelines -/

namespace Pipeline

/-- The names of the variables that a pipeline assigns its value to. -/
def assigned (pipeline : Pipeline) : List String :=
  match pipeline.binding with
  | some ⟨.assign, names⟩ => names
  | _ => []

theorem grown_of_bind {kind : BindingKind} {value : Value} {vars after : Variables} {name : String}
    {names : List String} (hn : kind = .assign → name ∈ names)
    (h : Pipeline.bind kind value vars name = .ok after) : vars.Grown names after := by
  unfold Pipeline.bind at h
  split at h
  · cases h
    exact .declare _ _ _
  · split at h
    · rename_i hassign
      cases h
      exact (Variables.Kept.of_assign hassign).grown.mono (by simpa using hn rfl)
    · cases h

theorem grown_of_bindAll {pipeline : Pipeline} {value : Value} {vars after : Variables}
    (h : bindAll pipeline.binding value vars = .ok after) :
    vars.Grown pipeline.assigned after := by
  obtain ⟨binding, commands⟩ := pipeline
  cases binding with
  | none =>
    cases h
    exact (Variables.Kept.refl vars).grown
  | some binding =>
    obtain ⟨kind, bound⟩ := binding
    have hnames (name : String) (hm : name ∈ bound) (hk : kind = .assign) :
        name ∈ Pipeline.assigned ⟨some ⟨kind, bound⟩, commands⟩ := by
      subst hk
      exact hm
    -- The names may be bound one after the other, all of them from the list of the pipeline.
    generalize Pipeline.assigned _ = names at hnames
    change bound.foldlM (Pipeline.bind kind value) vars = .ok after at h
    induction bound generalizing vars with
    | nil =>
      cases h
      exact (Variables.Kept.refl _).grown
    | cons name rest ih =>
      obtain ⟨hname, hrest⟩ := List.forall_mem_cons.mp hnames
      rw [List.foldlM_cons] at h
      obtain ⟨middle, hfirst, h⟩ := bind_eq_ok.mp h
      exact (grown_of_bind hname hfirst).trans (ih hrest h)

theorem grown_of_run {pipeline : Pipeline} {env : Environment} {value : Value}
    {vars after : Variables} (h : pipeline.run env vars = .ok (value, after)) :
    vars.Grown pipeline.assigned after := by
  obtain ⟨found, -, h⟩ := bind_eq_ok.mp h
  obtain ⟨last, hbind, h⟩ := bind_eq_ok.mp h
  cases h
  exact grown_of_bindAll hbind

end Pipeline

/-! ## Computations -/

namespace Evaluating

/-- The variables that a computation is started with are related to those that it leaves, if it does
not fail. -/
def Keeps {α : Type} (R : Variables → Variables → Prop) (computation : Evaluating α) : Prop :=
  ∀ (vars : Variables) (value : α) (after : Variables),
    StateT.run computation vars = .ok (value, after) → R vars after

namespace Keeps

variable {α β : Type} {R : Variables → Variables → Prop} [IsPreorder Variables R]
  {computation : Evaluating α} {env : Environment} {span : Span} {names more : List String}

theorem pure (value : α) : Keeps R (Pure.pure value : Evaluating α) := by
  intro vars found after h
  cases h
  exact refl_of R vars

theorem bind {next : α → Evaluating β} (h : Keeps R computation)
    (hn : ∀ value, Keeps R (next value)) :
    Keeps R (computation >>= next) := by
  intro vars value after hrun
  obtain ⟨found, middle, hfirst, hnext⟩ := run_bind_eq_ok.mp hrun
  exact trans_of R (h vars found middle hfirst) (hn found middle value after hnext)

theorem map (f : α → β) (h : Keeps R computation) : Keeps R (f <$> computation) := by
  rw [← bind_pure_comp]
  exact h.bind fun value => pure (f value)

theorem mapM {round : β → Evaluating α} (h : ∀ entry, Keeps R (round entry)) (entries : List β) :
    Keeps R (entries.mapM round) := by
  induction entries with
  | nil => exact pure []
  | cons entry rest ih =>
    rw [List.mapM_cons]
    exact (h entry).bind fun _ => ih.bind fun _ => pure _

/-- The head of a loop binds nothing. -/
theorem entries (head : Pipeline) : Keeps R (Evaluating.entries env head span) := by
  intro vars value after h
  obtain ⟨-, rfl⟩ := run_entries_eq_ok.mp h
  exact refl_of R _

theorem isolated (computation : Evaluating α) : Keeps R (Evaluating.isolated computation) := by
  intro vars value after h
  obtain ⟨-, rfl⟩ := run_isolated_eq_ok.mp h
  exact refl_of R _

omit [IsPreorder Variables R] in
theorem changes {change : Variables → Variables} (h : ∀ vars, R vars (change vars)) :
    Keeps R (modify change : Evaluating Unit) := by
  intro vars value after hrun
  rw [run_modify_eq_ok.mp hrun]
  exact h vars

theorem grown (h : Keeps (Variables.Kept names) computation) :
    Keeps (Variables.Grown names) computation :=
  fun vars value after hrun => (h vars value after hrun).grown

theorem mono (h : Keeps (Variables.Grown names) computation) (hn : names ⊆ more) :
    Keeps (Variables.Grown more) computation :=
  fun vars value after hrun => (h vars value after hrun).mono hn

theorem inScope (h : Keeps (Variables.Grown names) computation) :
    Keeps (Variables.Kept names) (Evaluating.inScope computation) := by
  intro vars value after hrun
  obtain ⟨last, hlast, rfl⟩ := run_inScope_eq_ok.mp hrun
  exact (h vars value last hlast).keepOuter

theorem run (pipeline : Pipeline) :
    Keeps (Variables.Grown pipeline.assigned) (Evaluating.run env pipeline span) :=
  fun _ _ _ h => Pipeline.grown_of_run (run_run_eq_ok.mp h)

theorem argument (pipeline : Option Pipeline) :
    Keeps (Variables.Grown ((pipeline.map Pipeline.assigned).getD []))
      (Evaluating.argument env pipeline span) := by
  cases pipeline with
  | none => exact pure _
  | some pipeline => exact run pipeline

/-- A loop declares its names anew in every round, whatever their mark. -/
theorem rounds {round : Value → Evaluating α}
    (h : ∀ item, Keeps (Variables.Grown names) (round item)) (binding : Option Binding)
    (entries : List (Value × Value)) :
    Keeps (Variables.Kept names) (Evaluating.rounds binding entries round) := by
  refine mapM (fun entry => ?_) entries
  obtain ⟨key, item⟩ := entry
  have hbind : Keeps (Variables.Grown names) (modify (bindRound binding key item)) :=
    changes (.bindRound binding key item)
  exact inScope (hbind.bind fun _ => h item)

end Keeps

end Evaluating

end LiveTemplate
