import LiveTemplate.Page.Basic
import LiveTemplate.Proofs.Render.Sound
import LiveTemplate.Proofs.Success
import LiveTemplate.Proofs.Update.RoundTrip

/-!
# One operation on a page

What `create`, `prepare`, `update` and `commit` do when they succeed (`create_eq_ok`,
`prepare_eq_ok`, `update_eq_ok`, `commit_eq_ok`), when they fail, and what they keep: the render of
a page is that of its data (`Page.Consistent`). A change of a consistent page leads its client along
(`Consistent.applyAll_fragments`).
-/

namespace LiveTemplate

namespace Page

variable {page next : Page} {data : Value} {pending : PendingUpdate} {fragments : List Fragment}

/-- The render of a page is that of its data. -/
def Consistent (page : Page) : Prop :=
  page.template.render page.data = .ok page.tree

@[simp] theorem advance_version (page : Page) (tree : RenderTree) (data : Value) :
    (page.advance tree data).version = page.version + 1 := rfl

/-! ## Success -/

theorem create_eq_ok {template : Template} {options : UpdateOptions} :
    create template data options = .ok page ↔
      ∃ tree, template.render data = .ok tree ∧ page = ⟨template, options, tree, data, 0⟩ := by
  rw [create, bind_eq_ok]
  simp only [Except.ok.injEq, eq_comm]

theorem prepare_eq_ok :
    page.prepare data = .ok pending ↔
      ∃ tree, page.template.render data = .ok tree ∧
        pending = ⟨page.version, tree, data, page.tree.fragments page.options tree⟩ := by
  rw [prepare, bind_eq_ok]
  simp only [Except.ok.injEq, eq_comm]

theorem update_eq_ok :
    page.update data = .ok (next, fragments) ↔
      ∃ tree, page.template.render data = .ok tree ∧ next = page.advance tree data ∧
        fragments = page.tree.fragments page.options tree := by
  rw [update, bind_eq_ok]
  constructor
  · rintro ⟨pending, hp, ⟨⟩⟩
    obtain ⟨tree, hr, rfl⟩ := prepare_eq_ok.mp hp
    exact ⟨tree, hr, rfl, rfl⟩
  · rintro ⟨tree, hr, rfl, rfl⟩
    exact ⟨_, prepare_eq_ok.mpr ⟨tree, hr, rfl⟩, rfl⟩

theorem prepare_of_render_error {error : EvaluationError}
    (h : page.template.render data = .error error) : page.prepare data = .error error := by
  rw [prepare, h]
  rfl

theorem update_of_render_error {error : EvaluationError}
    (h : page.template.render data = .error error) : page.update data = .error error := by
  rw [update, prepare_of_render_error h]
  rfl

theorem commit_eq_ok :
    page.commit pending = .ok (next, fragments) ↔
      page.version = pending.baseVersion ∧ next = page.advance pending.tree pending.data ∧
        fragments = pending.fragments := by
  rw [commit]
  split
  · rename_i hv
    constructor
    · rintro ⟨⟩
      exact ⟨hv, rfl, rfl⟩
    · rintro ⟨-, rfl, rfl⟩
      rfl
  · rename_i hv
    constructor
    · intro h
      cases h
    · intro h
      exact absurd h.1 hv

/-! ## Consistency -/

theorem Consistent.advance {tree : RenderTree} (h : page.template.render data = .ok tree) :
    (page.advance tree data).Consistent :=
  h

theorem Consistent.create {template : Template} {options : UpdateOptions}
    (h : Page.create template data options = .ok page) : page.Consistent := by
  obtain ⟨tree, hr, rfl⟩ := create_eq_ok.mp h
  exact hr

theorem Consistent.sound (h : page.Consistent) : page.tree.sound = true :=
  Template.render_sound h

/-- The fragments to another render of the template of a page lead a client of the page there. -/
theorem Consistent.applyAll_fragments (h : page.Consistent) {tree : RenderTree}
    (hr : page.template.render data = .ok tree) (ap : page.tree.addressable = true)
    (an : tree.addressable = true) :
    Client.applyAll ⟨page.tree.toSlot⟩ (page.tree.fragments page.options tree) =
      (⟨tree.toSlot⟩, none) :=
  RenderTree.applyAll_fragments page.options h.sound (Template.render_sound hr) ap an

end Page

/-- A template that prints its data. -/
def echo : Template :=
  ⟨[.print ⟨none, [.operand .dot]⟩ ⟨0, 5⟩], [], .empty⟩

end LiveTemplate
