import LiveTemplate.Eval.Function
import LiveTemplate.Template.Resolve
import LiveTemplate.Template.Tree

/-!
# Compiled templates

A `Template` is all that is needed to apply a source to data: the block of its root, the blocks of
its definitions, and the functions it calls.
-/

namespace LiveTemplate

/-- How a source is compiled: the greatest number of definitions on a chain of inclusions. -/
structure CompileOptions where
  maxIncludeDepth : Nat := 32
  deriving DecidableEq, Repr

/-- A template that can be applied to data. -/
structure Template where
  root : Block
  definitions : List (String × Block)
  functions : FunctionTable

/-- Compiles a source that may call the given functions. -/
def Template.compile (source : String) (options : CompileOptions) (functions : FunctionTable) :
    Except Rejection Template := do
  let nodes ← parse source
  let resolution ←
    (resolve ⟨functions.contains, options.maxIncludeDepth⟩ nodes).mapError .known
  .ok ⟨resolution.root, resolution.definitions, functions⟩

end LiveTemplate
