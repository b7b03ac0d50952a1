import LiveTemplate.Proofs.Eval.Scopes
import LiveTemplate.Render.Text

/-!
# A render shows what is written

The two interpreters of a template are equal as computations: rendering a part and showing its slot
is writing the part (`display_renderPart`), with all variables and errors. For a block, the texts of
its layout go between the slots (`shown_parts`).

* `Template.map_text_render`: the text of a render is the text that is written.
* `Template.render_execute`: the same for results and errors one by one.
-/

namespace LiveTemplate

/-- Rendering a block and showing its slots between the texts of its layout is writing the block,
wherever the block is cut in two: `pending` is the text since the last slot. -/
def Shown (env : Environment) (parts : List Part) : Prop :=
  ∀ (pending : String) (next : Nat),
    (fun slots => interleave (Block.layoutFrom pending next parts).statics
        (Slot.displaySlots slots)) <$> renderParts env parts =
      (pending ++ ·) <$> writeParts env parts

namespace Shown

variable {env : Environment} {rest : List Part}

theorem nil : Shown env [] := fun pending _ => by
  rw [renderParts, writeParts, map_pure, map_pure]
  rfl

theorem literal (h : Shown env rest) (text : String) : Shown env (.literal text :: rest) := by
  intro pending next
  have hrest := h (pending ++ text) next
  rw [renderParts, writeParts, renderPart, writePart]
  simp only [pure_bind, bind_pure_comp, Functor.map_map, Option.toList_none, List.nil_append,
    Block.layoutFrom]
  rw [hrest]
  simp only [String.append_assoc]

theorem bind (h : Shown env rest) (pipeline : Pipeline) (span : Span) :
    Shown env (.bind pipeline span :: rest) := by
  intro pending next
  rw [renderParts, writeParts, renderPart, writePart]
  simp only [map_bind, bind_pure_comp, bind_map_left, Functor.map_map, Option.toList_none,
    List.nil_append, Block.layoutFrom, String.empty_append, h pending next]

theorem layoutFrom_slot {part : Part} (h : part.hasSlot = true) (pending : String) (next : Nat) :
    (Block.layoutFrom pending next (part :: rest)).statics =
      pending :: (Block.layoutFrom "" (toWord (next + 1)) rest).statics := by
  cases part with
  | literal text => cases h
  | bind pipeline span => cases h
  | _ => rfl

/-- A part with a slot that shows what is written for it. -/
theorem slot (h : Shown env rest) {part : Part} (hs : part.hasSlot = true)
    (hpart : Option.map Slot.display <$> renderPart env part = some <$> writePart env part) :
    Shown env (part :: rest) := by
  intro pending next
  -- What is shown depends on the slot only through what the slot shows.
  have hshow (slot : Option Slot) (slots : List Slot) :
      Slot.displaySlots (slot.toList ++ slots) =
        (slot.map Slot.display).toList ++ Slot.displaySlots slots := by
    cases slot <;> rfl
  have hrest := h "" (toWord (next + 1))
  simp only [String.empty_append, id_map'] at hrest
  calc
    _ = (Option.map Slot.display <$> renderPart env part) >>= fun shown =>
          (fun slots => interleave
            (pending :: (Block.layoutFrom "" (toWord (next + 1)) rest).statics)
            (shown.toList ++ Slot.displaySlots slots)) <$> renderParts env rest := by
      rw [renderParts, layoutFrom_slot hs]
      simp only [map_bind, bind_map_left, bind_pure_comp, Functor.map_map, hshow]
    _ = writePart env part >>= fun text =>
          (fun slots => pending ++ (text ++ interleave
            (Block.layoutFrom "" (toWord (next + 1)) rest).statics (Slot.displaySlots slots))) <$>
              renderParts env rest := by
      rw [hpart, bind_map_left]
      rfl
    _ = (pending ++ ·) <$> writeParts env (part :: rest) := by
      rw [writeParts, ← hrest]
      simp only [map_bind, bind_pure_comp, Functor.map_map]

/-- A whole block between the texts around its slots. -/
theorem statics (h : Shown env rest) :
    (fun slots => interleave (Block.statics rest) (Slot.displaySlots slots)) <$>
      renderParts env rest = writeParts env rest := by
  have hrest := h "" 0
  simp only [String.empty_append, id_map'] at hrest
  exact hrest

end Shown

/-! ## Parts with slots -/

section Parts

variable {env : Environment} {body : List Part} {otherwise : Option (List Part)}

/-- What the second body of a branch shows. -/
def ShownElse (env : Environment) (otherwise : Option (List Part)) : Prop :=
  Slot.display <$> renderElse env otherwise = writeElse env otherwise

theorem ShownElse.none : ShownElse env none := rfl

theorem ShownElse.some (h : Shown env body) : ShownElse env (some body) := by
  rw [ShownElse, renderElse, writeElse, ← h.statics, ← Evaluating.map_inScope]
  simp only [bind_pure_comp, Functor.map_map, Slot.display]

/-- The items of a list show one after the other what is written for them. -/
theorem join_displayItems (statics : List String) (items : List (List Slot)) :
    (Slot.list statics items).display =
      String.join (items.map fun item => interleave statics (Slot.displaySlots item)) := by
  rw [Slot.display]
  congr 1
  induction items with
  | nil => rfl
  | cons item rest ih => rw [Slot.displayItems, ih, List.map_cons]

theorem display_rounds (h : ∀ env, Shown env body) (binding : Option Binding)
    (entries : List (Value × Value)) :
    (fun items => (Slot.list (Block.statics body) items).display) <$>
        Evaluating.rounds binding entries
          (fun item => renderParts { env with dot := item } body) =
      String.join <$> Evaluating.rounds binding entries
        (fun item => Evaluating.inScope (writeParts { env with dot := item } body)) := by
  simp only [Evaluating.rounds_inScope, join_displayItems, ← (h _).statics]
  rw [← Evaluating.map_rounds, Functor.map_map]

/-- Showing the second body of a branch in a slot. -/
theorem ShownElse.map_some (h : ShownElse env otherwise) :
    Option.map Slot.display <$> Option.some <$> renderElse env otherwise =
      Option.some <$> writeElse env otherwise := by
  rw [← show Slot.display <$> renderElse env otherwise = writeElse env otherwise from h]
  simp only [Functor.map_map, Option.map_some]

theorem display_loop (h : ∀ env, Shown env body) (helse : ShownElse env otherwise)
    (head : Pipeline) (span : Span) :
    Option.map Slot.display <$> renderPart env (.branch .loop head body otherwise span) =
      some <$> writePart env (.branch .loop head body otherwise span) := by
  rw [renderPart, writePart, map_bind, map_bind]
  congr 1
  funext entries
  cases entries with
  | nil =>
    cases otherwise with
    | some parts => exact helse.map_some
    | none => rfl
  | cons entry entries =>
    have hitems := congrArg (some <$> ·) (@display_rounds env body h head.binding
      (entry :: entries))
    simp only [List.isEmpty_cons, Bool.false_and, Bool.false_eq_true, if_false, bind_pure_comp,
      Functor.map_map, Option.map_some] at hitems ⊢
    exact hitems

theorem display_branch (h : ∀ env, Shown env body) (helse : ShownElse env otherwise)
    {kind : BranchKind} (hk : kind ≠ .loop) (head : Pipeline) (span : Span) :
    Option.map Slot.display <$> renderPart env (.branch kind head body otherwise span) =
      some <$> writePart env (.branch kind head body otherwise span) := by
  rw [renderPart.eq_def, writePart.eq_def]
  cases kind with
  | loop => exact absurd rfl hk
  | _ =>
    dsimp only
    rw [Evaluating.map_inScope, Evaluating.map_inScope, map_bind, map_bind]
    congr 2
    funext value
    split
    · rw [← (h _).statics, ← Evaluating.map_inScope]
      simp only [bind_pure_comp, Functor.map_map, Option.map_some, Slot.display]
    · exact helse.map_some

theorem display_include (h : ∀ env, Shown env body) (name : String) (argument : Option Pipeline)
    (span : Span) :
    Option.map Slot.display <$> renderPart env (.include name argument body span) =
      some <$> writePart env (.include name argument body span) := by
  rw [renderPart, writePart, map_bind, map_bind]
  congr 1
  funext value
  rw [← (h _).statics, ← Evaluating.map_inScope, ← Evaluating.map_isolated]
  simp only [bind_pure_comp, Functor.map_map, Option.map_some, Slot.display]

end Parts

/-! ## Templates -/

mutual

/-- The slot of a part shows what is written for the part. -/
theorem display_renderPart (env : Environment) (part : Part) (hs : part.hasSlot = true) :
    Option.map Slot.display <$> renderPart env part = some <$> writePart env part := by
  cases part with
  | literal text => cases hs
  | bind pipeline span => cases hs
  | print pipeline span =>
    rw [renderPart, writePart]
    simp only [bind_pure_comp, Functor.map_map, Option.map_some, Slot.display]
  | branch kind head body otherwise span =>
    have hbody (env : Environment) := shown_parts env body
    have helse := shownElse_parts env otherwise
    by_cases hk : kind = .loop
    · subst hk
      exact display_loop hbody helse head span
    · exact display_branch hbody helse hk head span
  | «include» name argument body span =>
    exact display_include (fun env => shown_parts env body) name argument span
termination_by structural part

theorem shown_parts (env : Environment) (parts : List Part) : Shown env parts := by
  cases parts with
  | nil => exact .nil
  | cons part rest =>
    have hrest := shown_parts env rest
    by_cases hs : part.hasSlot = true
    · exact hrest.slot hs (display_renderPart env part hs)
    · cases part with
      | literal text => exact hrest.literal text
      | bind pipeline span => exact hrest.bind pipeline span
      | _ => exact absurd rfl hs
termination_by structural parts

theorem shownElse_parts (env : Environment) (otherwise : Option (List Part)) :
    ShownElse env otherwise := by
  cases otherwise with
  | none => exact .none
  | some parts => exact .some (shown_parts env parts)
termination_by structural otherwise

end

namespace Template

variable (template : Template) (data : Value)

/-- The text of a render is the text that is written, and the errors are the same. -/
theorem map_text_render : (template.render data).map RenderTree.text = template.execute data := by
  have h := (shown_parts (template.environment data) template.root).statics
  rw [execute, ← h, ← Evaluating.map_inScope, Evaluating.map_result, render]
  rcases (Evaluating.inScope
    (renderParts (template.environment data) template.root)).result with e | slots
  · rfl
  · rfl

/-- Rendering and writing succeed for the same data. The render then shows the text that is written,
and otherwise both fail with the same problem in the same node. -/
theorem render_execute :
    ((∃ tree, template.render data = .ok tree) ↔ ∃ text, template.execute data = .ok text) ∧
      (∀ tree, template.render data = .ok tree → template.execute data = .ok tree.text) ∧
        ∀ error, template.render data = .error error ↔ template.execute data = .error error := by
  rw [← map_text_render]
  cases template.render data with
  | error problem =>
    refine ⟨?_, ?_, ?_⟩
    · constructor
      · rintro ⟨tree, h⟩
        cases h
      · rintro ⟨text, h⟩
        cases h
    · intro tree h
      cases h
    · intro error
      constructor
      · rintro ⟨⟩
        rfl
      · rintro ⟨⟩
        rfl
  | ok tree =>
    refine ⟨?_, ?_, ?_⟩
    · exact ⟨fun _ => ⟨tree.text, rfl⟩, fun _ => ⟨tree, rfl⟩⟩
    · rintro _ ⟨⟩
      rfl
    · intro error
      constructor
      · intro h
        cases h
      · intro h
        cases h

end Template

end LiveTemplate
