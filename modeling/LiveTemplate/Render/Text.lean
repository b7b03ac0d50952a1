import LiveTemplate.Render.Tree

/-!
# Rendering to text

`Template.execute` writes what a template shows for some data from left to right, without a tree.
-/

namespace LiveTemplate

mutual

/-- The text of a part. -/
def writePart (env : Environment) : Part → Evaluating String
  | .literal text => pure text
  | .bind pipeline span => do
    let _ ← Evaluating.run env pipeline span
    pure ""
  | .print pipeline span => do
    let value ← Evaluating.run env pipeline span
    pure value.display
  | .branch .loop head body otherwise span => do
    let entries ← Evaluating.entries env head span
    if entries.isEmpty then writeElse env otherwise
    else
      let texts ← Evaluating.rounds head.binding entries fun item =>
        Evaluating.inScope (writeParts { env with dot := item } body)
      pure (String.join texts)
  | .branch kind head body otherwise span => Evaluating.inScope do
    let value ← Evaluating.run env head span
    if value.truthy then Evaluating.inScope (writeParts (env.enter kind value) body)
    else writeElse env otherwise
  | .include _ argument body span => do
    let value ← Evaluating.argument env argument span
    Evaluating.isolated (Evaluating.inScope (writeParts { env with dot := value } body))
termination_by structural part => part

/-- The text of the parts of a block. -/
def writeParts (env : Environment) : List Part → Evaluating String
  | [] => pure ""
  | part :: rest => do
    let text ← writePart env part
    let texts ← writeParts env rest
    pure (text ++ texts)
termination_by structural parts => parts

/-- The text of a branch whose second body is taken, if it has one. -/
def writeElse (env : Environment) : Option (List Part) → Evaluating String
  | none => pure ""
  | some parts => Evaluating.inScope (writeParts env parts)
termination_by structural parts => parts

end

/-- The text of a template applied to data. -/
def Template.execute (template : Template) (data : Value) : Except EvaluationError String :=
  (Evaluating.inScope (writeParts (template.environment data) template.root)).result

end LiveTemplate
