import LiveTemplate.Proofs.Eval.Runs
import LiveTemplate.Proofs.Render.Sound

/-!
# Renders conform to their template

`SlotConforms` says what the slot of a part holds, `SlotsConform` what the slots of a block hold:
as many contents as the layout of the block has keys for, the content at each key being that of the
part to which the layout gives the key. A branch depends on the value of its head, and this on the
variables that were given values before, so that the relations follow the variables from part to
part. Keys are words, so that a key stands for one part where there are words for all parts, that is
in an addressable template.

* `renderParts_conform`: what is rendered for a block conforms to the block.
* `SlotConforms.empty_iff`, `SlotConforms.tree_iff`: which branches leave a slot empty, and which
  loops fill it with their second body.
* `SlotsConform.exists_slot`: what stands at the key of a part, whatever the data.
* `Template.render_conforms`: the whole render of a template.
-/

namespace LiveTemplate

/-! ## Conforming to a template -/

/-- What a part without a slot does to the variables. -/
inductive Silent (env : Environment) (vars : Variables) : Part → Variables → Prop
  | literal {text} : Silent env vars (.literal text) vars
  | bind {pipeline span value after} (h : Pipeline.run pipeline env vars = .ok (value, after)) :
      Silent env vars (.bind pipeline span) after

mutual

/-- What the slot of a part holds when the part is reached with some variables, and the variables
after it. -/
inductive SlotConforms : Environment → Variables → Part → Slot → Variables → Prop
  | print {env vars pipeline span value after}
      (hrun : Pipeline.run pipeline env vars = .ok (value, after)) :
      SlotConforms env vars (.print pipeline span) (.text value.display) after
  | body {env vars kind head body otherwise span value inside slots last} (hk : kind ≠ .loop)
      (hrun : Pipeline.run head env vars = .ok (value, inside)) (ht : value.truthy = true)
      (hbody : SlotsConform (env.enter kind value) inside body slots last) :
      SlotConforms env vars (.branch kind head body otherwise span)
        (.tree (Block.statics body) slots)
        ((last.keepOuter inside.length).keepOuter vars.length)
  | otherwise {env vars kind head body parts span value inside slots last} (hk : kind ≠ .loop)
      (hrun : Pipeline.run head env vars = .ok (value, inside)) (ht : value.truthy = false)
      (helse : SlotsConform env inside parts slots last) :
      SlotConforms env vars (.branch kind head body (some parts) span)
        (.tree (Block.statics parts) slots)
        ((last.keepOuter inside.length).keepOuter vars.length)
  | empty {env vars kind head body span value inside} (hk : kind ≠ .loop)
      (hrun : Pipeline.run head env vars = .ok (value, inside)) (ht : value.truthy = false) :
      SlotConforms env vars (.branch kind head body none span) .empty
        (inside.keepOuter vars.length)
  | items {env vars head body otherwise span value entries items after}
      (hv : Pipeline.value head env vars = .ok value) (he : loopEntries value = .ok entries)
      (hne : entries ≠ [] ∨ otherwise = none)
      (hitems : ItemsConform env vars head.binding body entries items after) :
      SlotConforms env vars (.branch .loop head body otherwise span)
        (.list (Block.statics body) items) after
  | noItems {env vars head body parts span value slots last}
      (hv : Pipeline.value head env vars = .ok value) (he : loopEntries value = .ok [])
      (helse : SlotsConform env vars parts slots last) :
      SlotConforms env vars (.branch .loop head body (some parts) span)
        (.tree (Block.statics parts) slots) (last.keepOuter vars.length)
  | include {env vars name argument body span value after slots last}
      (hv : env.argument argument vars = .ok (value, after))
      (hbody : SlotsConform { env with dot := value } [] body slots last) :
      SlotConforms env vars (.include name argument body span)
        (.tree (Block.statics body) slots) after

/-- What the items of a loop hold: one item for each entry, each of which conforms to the body. -/
inductive ItemsConform : Environment → Variables → Option Binding → List Part →
    List (Value × Value) → List (List Slot) → Variables → Prop
  | nil {env vars binding body} : ItemsConform env vars binding body [] [] vars
  | cons {env vars binding body key item rest slots last items after}
      (hitem : SlotsConform { env with dot := item } (bindRound binding key item vars) body slots
        last)
      (hrest : ItemsConform env (last.keepOuter vars.length) binding body rest items after) :
      ItemsConform env vars binding body ((key, item) :: rest) (slots :: items) after

/-- What the slots of a block hold. `states` are the variables before each of its parts and at its
end. The keys are those of the layout, in which the data has no part. -/
inductive SlotsConform : Environment → Variables → List Part → List Slot → Variables → Prop
  | intro {env vars parts slots after} (states : Nat → Variables) (hstart : states 0 = vars)
      (hend : states parts.length = after)
      (hcount : slots.length = (Block.layout parts).slotCount)
      (hslot : ∀ index part key slot, parts[index]? = some part →
        (Block.layout parts).keys[index]? = some (some key) → slots[key]? = some slot →
          SlotConforms env (states index) part slot (states (index + 1)))
      (hsilent : ∀ index part, parts[index]? = some part →
        (Block.layout parts).keys[index]? = some none →
          Silent env (states index) part (states (index + 1))) :
      SlotsConform env vars parts slots after

end

/-! ## Blocks -/

section Parts

variable {env : Environment} {vars mid after : Variables} {part : Part} {rest : List Part}
  {content : Slot} {slots : List Slot}

theorem Silent.hasSlot (h : Silent env vars part after) : part.hasSlot = false := by
  cases h <;> rfl

theorem SlotConforms.hasSlot (h : SlotConforms env vars part content after) :
    part.hasSlot = true := by
  cases h <;> rfl

/-- The variables before the parts of a block to which a part is added in front. -/
def statesFrom (vars : Variables) (states : Nat → Variables) : Nat → Variables
  | 0 => vars
  | index + 1 => states index

namespace SlotsConform

theorem nil : SlotsConform env vars [] [] vars :=
  .intro (fun _ => vars) rfl rfl rfl (fun _ _ _ _ hp => nomatch hp) fun _ _ hp => nomatch hp

theorem silent (hp : Silent env vars part mid) (h : SlotsConform env mid rest slots after) :
    SlotsConform env vars (part :: rest) slots after := by
  obtain ⟨states, rfl, hend, hcount, hslot, hsilent⟩ := h
  have hkeys := Block.keys_cons_silent hp.hasSlot rest
  refine .intro (statesFrom vars states) rfl hend ?_ ?_ ?_
  · rw [hcount, Block.slotCount_layout, Block.slotCount_layout,
      List.countP_cons_of_neg (by rw [hp.hasSlot]; decide)]
  · intro index other key slot hother hk hs
    rw [hkeys] at hk
    cases index with
    | zero => cases hk
    | succ index => exact hslot index other key slot hother hk hs
  · intro index other hother hk
    rw [hkeys] at hk
    cases index with
    | zero =>
      cases hother
      exact hp
    | succ index => exact hsilent index other hother hk

theorem slot (hp : SlotConforms env vars part content mid)
    (h : SlotsConform env mid rest slots after) (hw : rest.length + 1 < wordLimit) :
    SlotsConform env vars (part :: rest) (content :: slots) after := by
  obtain ⟨states, rfl, hend, hcount, hslot, hsilent⟩ := h
  have hle : rest.countP Part.hasSlot ≤ rest.length := List.countP_le_length
  have hwords : rest.countP Part.hasSlot + 1 < wordLimit := by omega
  have hkeys := Block.keys_cons_slot_of_lt hp.hasSlot hwords
  refine .intro (statesFrom vars states) rfl hend ?_ ?_ ?_
  · rw [List.length_cons, hcount, Block.slotCount_layout, Block.slotCount_layout,
      List.countP_cons_of_pos hp.hasSlot]
  · intro index other key found hother hk hs
    rw [hkeys] at hk
    cases index with
    | zero =>
      cases hother
      cases hk
      cases hs
      exact hp
    | succ index =>
      -- The keys behind the first slot are one more than in the rest of the block.
      rw [List.getElem?_cons_succ, List.getElem?_map, Option.map_eq_some_iff] at hk
      obtain ⟨_, hk, he⟩ := hk
      obtain ⟨key, rfl, rfl⟩ := Option.map_eq_some_iff.mp he
      exact hslot index other key found hother hk hs
  · intro index other hother hk
    rw [hkeys] at hk
    cases index with
    | zero => cases hk
    | succ index =>
      rw [List.getElem?_cons_succ, List.getElem?_map, Option.map_eq_some_iff] at hk
      obtain ⟨_, hk, he⟩ := hk
      rw [Option.map_eq_none_iff] at he
      exact hsilent index other hother (he ▸ hk)

/-- The content at the key of a part conforms to the part. -/
theorem exists_slot {parts : List Part} (h : SlotsConform env vars parts slots after)
    {index key : Nat} (hp : parts[index]? = some part)
    (hk : (Block.layout parts).keys[index]? = some (some key)) :
    ∃ content before next, slots[key]? = some content ∧
      SlotConforms env before part content next := by
  obtain ⟨states, -, -, hcount, hslot, -⟩ := h
  have hlt : key < slots.length :=
    hcount ▸ Block.lt_slotCount_of_mem_keys (List.mem_of_getElem? hk)
  have hs := List.getElem?_eq_getElem hlt
  exact ⟨_, _, _, hs, hslot index part key _ hp hk hs⟩

end SlotsConform

/-! ## Branches -/

namespace SlotConforms

variable {head : Pipeline} {body : List Part} {otherwise : Option (List Part)} {span : Span}

/-- A test or a scope leaves its slot empty if its head is false and it has no second body, and in
no other case. -/
theorem empty_iff {kind : BranchKind} {value : Value} {inside : Variables}
    (h : SlotConforms env vars (.branch kind head body otherwise span) content after)
    (hk : kind ≠ .loop) (hrun : head.run env vars = .ok (value, inside)) :
    content = .empty ↔ value.truthy = false ∧ otherwise = none := by
  cases h with
  | body _ hrun' ht _ =>
    cases hrun.symm.trans hrun'
    simp [ht]
  | otherwise _ _ _ _ => simp
  | empty _ hrun' ht =>
    cases hrun.symm.trans hrun'
    simp [ht]
  | items | noItems => exact absurd rfl hk

/-- A loop fills its slot with a tree if it has no entries but a second body, and in no other case.
Otherwise it gives one item for each entry. -/
theorem tree_iff {value : Value} {entries : List (Value × Value)}
    (h : SlotConforms env vars (.branch .loop head body otherwise span) content after)
    (hv : head.value env vars = .ok value) (he : loopEntries value = .ok entries) :
    content.isTree = true ↔ entries = [] ∧ otherwise.isSome = true := by
  cases h with
  | body hk | otherwise hk | empty hk => exact absurd rfl hk
  | items hv' he' hne _ =>
    cases hv.symm.trans hv'
    cases he.symm.trans he'
    rcases hne with hne | rfl
    · simp [Slot.isTree, hne]
    · simp [Slot.isTree]
  | noItems hv' he' _ =>
    cases hv.symm.trans hv'
    cases he.symm.trans he'
    simp [Slot.isTree]

end SlotConforms

end Parts

/-! ## Rendering -/

section Rendering

variable {env : Environment} {vars after : Variables} {body : List Part}
  {otherwise : Option (List Part)}

/-- What rendering a part gives conforms to the part, if it has a slot. -/
def PartConforms (env : Environment) (vars : Variables) (part : Part) (slot : Option Slot)
    (after : Variables) : Prop :=
  match slot with
  | some content => SlotConforms env vars part content after
  | none => Silent env vars part after

/-- Whatever is rendered for a block conforms to the block. -/
def RendersConforming (parts : List Part) : Prop :=
  ∀ env vars slots after, StateT.run (renderParts env parts) vars = .ok (slots, after) →
    SlotsConform env vars parts slots after

theorem renderElse_eq_ok {slot : Slot} (h : ∀ parts ∈ otherwise, RendersConforming parts)
    (hr : StateT.run (renderElse env otherwise) vars = .ok (slot, after)) :
    (otherwise = none ∧ slot = .empty ∧ after = vars) ∨
      ∃ parts slots last, otherwise = some parts ∧ slot = .tree (Block.statics parts) slots ∧
        SlotsConform env vars parts slots last ∧ after = last.keepOuter vars.length := by
  cases otherwise with
  | none =>
    rw [renderElse, run_pure_eq_ok] at hr
    cases hr
    exact .inl ⟨rfl, rfl, rfl⟩
  | some parts =>
    rw [renderElse, bind_pure_comp, run_map_eq_ok] at hr
    obtain ⟨slots, _, hscope, ⟨⟩⟩ := hr
    obtain ⟨last, hs, rfl⟩ := Evaluating.run_inScope_eq_ok.mp hscope
    exact .inr ⟨parts, slots, last, rfl, rfl, h parts rfl _ _ _ _ hs, rfl⟩

theorem rounds_conform (h : RendersConforming body) {binding : Option Binding}
    {entries : List (Value × Value)} {items : List (List Slot)}
    (hr : StateT.run (Evaluating.rounds binding entries fun item =>
      renderParts { env with dot := item } body) vars = .ok (items, after)) :
    ItemsConform env vars binding body entries items after := by
  induction entries generalizing vars items with
  | nil =>
    obtain ⟨rfl, rfl⟩ := Evaluating.run_rounds_nil.mp hr
    exact .nil
  | cons entry rest ih =>
    obtain ⟨key, item⟩ := entry
    obtain ⟨slots, others, last, hs, ho, rfl⟩ := Evaluating.run_rounds_cons.mp hr
    exact .cons (h _ _ _ _ hs) (ih ho)

theorem loop_conforms (h : RendersConforming body)
    (helse : ∀ parts ∈ otherwise, RendersConforming parts) {head : Pipeline} {span : Span}
    {slot : Option Slot}
    (hr : StateT.run (renderPart env (.branch .loop head body otherwise span)) vars =
      .ok (slot, after)) :
    PartConforms env vars (.branch .loop head body otherwise span) slot after := by
  rw [renderPart, run_bind_eq_ok] at hr
  obtain ⟨entries, _, hentries, hr⟩ := hr
  obtain ⟨⟨value, hv, he⟩, rfl⟩ := Evaluating.run_entries_eq_ok.mp hentries
  split at hr
  · rename_i hempty
    rw [Bool.and_eq_true, List.isEmpty_iff] at hempty
    obtain ⟨rfl, hsome⟩ := hempty
    obtain ⟨content, _, hcontent, ⟨⟩⟩ := run_map_eq_ok.mp hr
    rcases renderElse_eq_ok helse hcontent with
      ⟨rfl, -, -⟩ | ⟨parts, slots, last, rfl, rfl, hs, rfl⟩
    · cases hsome
    · exact .noItems hv he hs
  · rename_i hnonempty
    rw [bind_pure_comp, run_map_eq_ok] at hr
    obtain ⟨items, _, hitems, ⟨⟩⟩ := hr
    refine .items hv he ?_ (rounds_conform h hitems)
    cases entries with
    | nil => exact .inr (by simpa using hnonempty)
    | cons entry rest => exact .inl (List.cons_ne_nil _ _)

theorem branch_conforms (h : RendersConforming body)
    (helse : ∀ parts ∈ otherwise, RendersConforming parts) {kind : BranchKind} (hk : kind ≠ .loop)
    {head : Pipeline} {span : Span} {slot : Option Slot}
    (hr : StateT.run (renderPart env (.branch kind head body otherwise span)) vars =
      .ok (slot, after)) :
    PartConforms env vars (.branch kind head body otherwise span) slot after := by
  rw [renderPart] at hr
  · obtain ⟨inner, hinner, rfl⟩ := Evaluating.run_inScope_eq_ok.mp hr
    obtain ⟨value, inside, hrun, hr⟩ := run_bind_eq_ok.mp hinner
    rw [Evaluating.run_run_eq_ok] at hrun
    split at hr
    · rename_i ht
      rw [bind_pure_comp, run_map_eq_ok] at hr
      obtain ⟨slots, _, hscope, ⟨⟩⟩ := hr
      obtain ⟨last, hs, rfl⟩ := Evaluating.run_inScope_eq_ok.mp hscope
      exact .body hk hrun ht (h _ _ _ _ hs)
    · rename_i ht
      rw [Bool.not_eq_true] at ht
      obtain ⟨content, _, hcontent, ⟨⟩⟩ := run_map_eq_ok.mp hr
      rcases renderElse_eq_ok helse hcontent with
        ⟨rfl, rfl, rfl⟩ | ⟨parts, slots, last, rfl, rfl, hs, rfl⟩
      · exact .empty hk hrun ht
      · exact .otherwise hk hrun ht hs
  · exact hk

end Rendering

mutual

theorem renderPart_conforms (env : Environment) (part : Part) (ha : part.addressable = true)
    {vars after : Variables} {slot : Option Slot}
    (h : StateT.run (renderPart env part) vars = .ok (slot, after)) :
    PartConforms env vars part slot after := by
  cases part with
  | literal text =>
    rw [renderPart, run_pure_eq_ok] at h
    cases h
    exact .literal
  | bind pipeline span =>
    rw [renderPart, bind_pure_comp, run_map_eq_ok] at h
    obtain ⟨value, _, h, ⟨⟩⟩ := h
    exact .bind (Evaluating.run_run_eq_ok.mp h)
  | print pipeline span =>
    rw [renderPart, bind_pure_comp, run_map_eq_ok] at h
    obtain ⟨value, _, h, ⟨⟩⟩ := h
    exact .print (Evaluating.run_run_eq_ok.mp h)
  | branch kind head body otherwise span =>
    obtain ⟨habody, haelse⟩ := Part.addressable_branch.mp ha
    have hbody := renderParts_conform body habody
    have helse := renderElse_conforms otherwise haelse
    by_cases hk : kind = .loop
    · subst hk
      exact loop_conforms hbody helse h
    · exact branch_conforms hbody helse hk h
  | «include» name argument body span =>
    rw [renderPart, run_bind_eq_ok] at h
    obtain ⟨value, mid, hv, h⟩ := h
    rw [bind_pure_comp, run_map_eq_ok] at h
    obtain ⟨slots, _, hisolated, ⟨⟩⟩ := h
    obtain ⟨⟨_, hscope⟩, rfl⟩ := Evaluating.run_isolated_eq_ok.mp hisolated
    obtain ⟨last, hs, -⟩ := Evaluating.run_inScope_eq_ok.mp hscope
    exact .include (Evaluating.run_argument_eq_ok.mp hv)
      (renderParts_conform body ha _ _ _ _ hs)
termination_by structural part

theorem renderParts_conform (parts : List Part) (ha : Block.addressable parts = true) :
    RendersConforming parts := by
  intro env vars slots after h
  cases parts with
  | nil =>
    rw [renderParts, run_pure_eq_ok] at h
    cases h
    exact .nil
  | cons part rest =>
    obtain ⟨hapart, harest⟩ := Block.addressable_of_cons ha
    rw [renderParts, run_bind_eq_ok] at h
    obtain ⟨slot, mid, hp, h⟩ := h
    rw [bind_pure_comp, run_map_eq_ok] at h
    obtain ⟨others, _, hr, ⟨⟩⟩ := h
    have hrest := renderParts_conform rest harest _ _ _ _ hr
    have hpart := renderPart_conforms env part hapart hp
    cases slot with
    | none => exact hrest.silent hpart
    | some content => exact hrest.slot hpart (Block.addressable_iff.mp ha).1
termination_by structural parts

theorem renderElse_conforms (otherwise : Option (List Part))
    (ha : ∀ parts ∈ otherwise, Block.addressable parts = true) :
    ∀ parts ∈ otherwise, RendersConforming parts := by
  cases otherwise with
  | none => exact fun _ h => nomatch h
  | some parts =>
    rintro _ ⟨⟩
    exact renderParts_conform parts (ha parts rfl)
termination_by structural otherwise

end

namespace Template

theorem statics_of_render {template : Template} {data : Value} {tree : RenderTree}
    (h : template.render data = .ok tree) : tree.statics = Block.statics template.root := by
  rw [render, bind_eq_ok] at h
  obtain ⟨slots, -, ⟨⟩⟩ := h
  rfl

theorem slotsConform_of_render {template : Template} (ha : template.root.addressable = true)
    {data : Value} {tree : RenderTree} (h : template.render data = .ok tree) :
    ∃ after, SlotsConform (template.environment data) [] template.root tree.slots after := by
  rw [render, bind_eq_ok] at h
  obtain ⟨slots, hr, ⟨⟩⟩ := h
  obtain ⟨_, hscope⟩ := Evaluating.result_eq_ok.mp hr
  obtain ⟨after, hs, -⟩ := Evaluating.run_inScope_eq_ok.mp hscope
  exact ⟨after, renderParts_conform _ ha _ _ _ _ hs⟩

/-- Every render of a template is valid, and its texts are those of the layout of the root block. If
there are words for the parts of the template, the render conforms to it at every level: its slots
hold at the key of each part what the part asks for. -/
theorem render_conforms {template : Template} {data : Value} {tree : RenderTree}
    (h : template.render data = .ok tree) :
    tree.statics = Block.statics template.root ∧
      (template.root.addressable = true →
        ∃ after, SlotsConform (template.environment data) [] template.root tree.slots after) ∧
      tree.validate = .ok () :=
  ⟨statics_of_render h, fun ha => slotsConform_of_render ha h,
    Slot.validate_of_sound (render_sound h) []⟩

/-- A list of two numbers in a loop with a second body, and a test without one that fails. -/
theorem render_conforms_numbers :
    let dot : Pipeline := ⟨none, [.operand .dot]⟩
    let template : Template := ⟨[.literal "<ul>",
      .branch .loop dot [.literal "<li>", .print dot ⟨18, 23⟩] (some [.literal "none"]) ⟨4, 43⟩,
      .branch .test ⟨none, [.operand (.literal .nil)]⟩ [] none ⟨43, 60⟩], [], .empty⟩
    ∃ tree, template.render (.list [.int 1, .int 2]) = .ok tree ∧
      tree.statics = Block.statics template.root ∧
      (∃ after, SlotsConform (template.environment (.list [.int 1, .int 2])) [] template.root
        tree.slots after) ∧
      tree.validate = .ok () := by
  intro dot template
  have hr : template.render (.list [.int 1, .int 2]) =
      .ok ⟨["<ul>", "", ""], [.list ["<li>", ""] [[.text "1"], [.text "2"]], .empty]⟩ := rfl
  have ha : template.root.addressable = true := rfl
  obtain ⟨hstatics, hslots, hvalid⟩ := render_conforms hr
  exact ⟨_, hr, hstatics, hslots ha, hvalid⟩

end Template

end LiveTemplate
