import LiveTemplate.Eval.Evaluating
import LiveTemplate.Render.Slot
import LiveTemplate.Template.Compile

/-!
# Rendering to a tree

`Template.render` fills the layout of each block: every part with a slot gives the content of that
slot. A branch that is not taken leaves its slot empty, so that the slots of a block do not depend
on the data.
-/

namespace LiveTemplate

/-- The environment in the body of a branch whose head has the given value. Only the body of a scope
has other current data. -/
def Environment.enter (env : Environment) (kind : BranchKind) (value : Value) : Environment :=
  if kind = .scope then { env with dot := value } else env

mutual

/-- The content of the slot of a part, none if it has no slot. -/
def renderPart (env : Environment) : Part → Evaluating (Option Slot)
  | .literal _ => pure none
  | .bind pipeline span => do
    let _ ← Evaluating.run env pipeline span
    pure none
  | .print pipeline span => do
    let value ← Evaluating.run env pipeline span
    pure (some (.text value.display))
  | .branch .loop head body otherwise span => do
    let entries ← Evaluating.entries env head span
    if entries.isEmpty && otherwise.isSome then some <$> renderElse env otherwise
    else
      let items ← Evaluating.rounds head.binding entries fun item =>
        renderParts { env with dot := item } body
      pure (some (.list (Block.statics body) items))
  | .branch kind head body otherwise span => Evaluating.inScope do
    let value ← Evaluating.run env head span
    if value.truthy then
      let slots ← Evaluating.inScope (renderParts (env.enter kind value) body)
      pure (some (.tree (Block.statics body) slots))
    else some <$> renderElse env otherwise
  | .include _ argument body span => do
    let value ← Evaluating.argument env argument span
    let slots ← Evaluating.isolated
      (Evaluating.inScope (renderParts { env with dot := value } body))
    pure (some (.tree (Block.statics body) slots))
termination_by structural part => part

/-- The contents of the slots of a block. -/
def renderParts (env : Environment) : List Part → Evaluating (List Slot)
  | [] => pure []
  | part :: rest => do
    let slot ← renderPart env part
    let slots ← renderParts env rest
    pure (slot.toList ++ slots)
termination_by structural parts => parts

/-- The content of the slot of a branch whose second body is taken, if it has one. -/
def renderElse (env : Environment) : Option (List Part) → Evaluating Slot
  | none => pure .empty
  | some parts => do
    let slots ← Evaluating.inScope (renderParts env parts)
    pure (.tree (Block.statics parts) slots)
termination_by structural parts => parts

end

/-- The environment at the root of a template. -/
def Template.environment (template : Template) (data : Value) : Environment :=
  ⟨data, data, template.functions⟩

/-- Applies a template to data. -/
def Template.render (template : Template) (data : Value) : Except EvaluationError RenderTree := do
  let slots ← (Evaluating.inScope (renderParts (template.environment data) template.root)).result
  .ok ⟨Block.statics template.root, slots⟩

end LiveTemplate
