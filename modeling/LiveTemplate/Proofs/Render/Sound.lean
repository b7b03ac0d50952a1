import LiveTemplate.Proofs.Eval.Ensures
import LiveTemplate.Proofs.Render.Shape
import LiveTemplate.Proofs.Template.Layout
import LiveTemplate.Render.Tree

/-!
# Renders are sound

The slots that the parts of a block fill are as many as its layout has keys for
(`renderParts_sound`), so that in every render of a template texts and slots fit together
(`Template.render_sound`).
-/

namespace LiveTemplate

/-- What a part gives: a slot if it has one, and then a sound one. -/
def Given (part : Part) (slot : Option Slot) : Prop :=
  slot.isSome = part.hasSlot ∧ ∀ content ∈ slot, content.sound = true

theorem Given.none {part : Part} (h : part.hasSlot = false) : Given part none :=
  ⟨h.symm, fun _ hm => nomatch hm⟩

theorem Given.some {part : Part} {content : Slot} (h : part.hasSlot = true)
    (hc : content.sound = true) : Given part (some content) := by
  refine ⟨h.symm, ?_⟩
  rintro _ ⟨⟩
  exact hc

/-- As many slots as parts of a block have them, and all of them sound. -/
def Filled (parts : List Part) (slots : List Slot) : Prop :=
  slots.length = parts.countP Part.hasSlot ∧ Slot.soundSlots slots = true

namespace Filled

variable {parts : List Part} {slots : List Slot}

theorem tree (h : Filled parts slots) : (Slot.tree (Block.statics parts) slots).sound = true := by
  refine Slot.sound_tree.mpr ⟨Slot.slotsFit_iff.mpr ?_, h.2⟩
  rw [Block.length_statics, h.1]

theorem list {items : List (List Slot)} (h : ∀ item ∈ items, Filled parts item) :
    (Slot.list (Block.statics parts) items).sound = true := by
  have hlen := Block.length_statics parts
  refine Slot.sound_list.mpr ⟨Slot.itemsFit_iff.mpr ⟨?_, ?_⟩, Slot.soundItems_iff.mpr ?_⟩
  · intro hn
    rw [hn] at hlen
    cases hlen
  · intro item hm
    rw [hlen, (h item hm).1]
    rfl
  · exact fun item hm => (h item hm).2

theorem cons {part : Part} {slot : Option Slot} (hg : Given part slot) (h : Filled parts slots) :
    Filled (part :: parts) (slot.toList ++ slots) := by
  obtain ⟨hs, hv⟩ := hg
  cases slot with
  | none =>
    refine ⟨?_, h.2⟩
    rw [List.countP_cons_of_neg (by rw [← hs]; decide)]
    exact h.1
  | some content =>
    refine ⟨?_, Slot.soundSlots_cons.mpr ⟨hv content rfl, h.2⟩⟩
    rw [List.countP_cons_of_pos (by rw [← hs]; rfl)]
    exact congrArg (· + 1) h.1

end Filled

open Evaluating

mutual

theorem renderPart_sound (env : Environment) (part : Part) :
    Ensures (Given part) (renderPart env part) := by
  cases part with
  | literal text =>
    rw [renderPart]
    exact .pure (.none rfl)
  | bind pipeline span =>
    rw [renderPart]
    exact .after fun _ => .pure (.none rfl)
  | print pipeline span =>
    rw [renderPart]
    exact .after fun _ => .pure (.some rfl rfl)
  | branch kind head body otherwise span =>
    have hbody (env : Environment) := renderParts_sound env body
    have helse : Ensures (Given (.branch kind head body otherwise span))
        (some <$> renderElse env otherwise) := by
      rw [← bind_pure_comp]
      exact (renderElse_sound env otherwise).bind fun slot hs => .pure (.some rfl hs)
    rw [renderPart.eq_def]
    cases kind with
    | loop =>
      refine .after fun entries => ?_
      split
      · exact helse
      · refine (Ensures.rounds (fun item => hbody _) head.binding entries).bind fun items hi => ?_
        exact .pure (.some rfl (Filled.list hi))
    | _ =>
      refine .inScope (.after fun value => ?_)
      split
      · exact (hbody _).inScope.bind fun slots hs => .pure (.some rfl hs.tree)
      · exact helse
  | «include» name argument body span =>
    rw [renderPart]
    refine .after fun value => ?_
    exact (renderParts_sound _ body).inScope.isolated.bind fun slots hs =>
      .pure (.some rfl hs.tree)
termination_by structural part

theorem renderParts_sound (env : Environment) (parts : List Part) :
    Ensures (Filled parts) (renderParts env parts) := by
  cases parts with
  | nil =>
    rw [renderParts]
    exact .pure ⟨rfl, rfl⟩
  | cons part rest =>
    rw [renderParts]
    refine (renderPart_sound env part).bind fun slot hs => ?_
    refine (renderParts_sound env rest).bind fun slots hr => ?_
    exact .pure (.cons hs hr)
termination_by structural parts

theorem renderElse_sound (env : Environment) (otherwise : Option (List Part)) :
    Ensures (fun slot => slot.sound = true) (renderElse env otherwise) := by
  cases otherwise with
  | none =>
    rw [renderElse]
    exact .pure rfl
  | some parts =>
    rw [renderElse]
    exact (renderParts_sound env parts).inScope.bind fun slots hs => .pure hs.tree
termination_by structural otherwise

end

theorem Template.render_sound {template : Template} {data : Value} {tree : RenderTree}
    (h : template.render data = .ok tree) : tree.sound = true := by
  rw [render] at h
  cases hr : (inScope (renderParts (template.environment data) template.root)).result with
  | error e =>
    rw [hr] at h
    cases h
  | ok slots =>
    rw [hr] at h
    cases h
    exact ((renderParts_sound _ _).inScope.result hr).tree

end LiveTemplate
