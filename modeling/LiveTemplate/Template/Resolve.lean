import LiveTemplate.Template.Block
import LiveTemplate.Template.Scope

/-!
# Resolving invocations

`resolve` turns the tree of a source into blocks.

* Every definition has its own name, wherever it stands.
* Each definition is resolved once, with no variables in scope, when it is first invoked; those that
  nothing invokes come last.
* A definition that is being resolved cannot be invoked again, and a chain of inclusions has at most
  as many definitions as the limit allows.

The length of chains is counted from below: a resolved body has a height. This stands for a counter
of the deepest inclusion, which begins at the depth of a definition, is raised to the depth of each
inclusion in its body, and is handed to the body around it as the larger of the two. Behind a body
the counter is the depth of its definition and the height, so that a definition that is resolved
already reaches as deep as its own depth and its height from wherever it is included.
-/

namespace LiveTemplate

/-! ## Definitions -/

/-- A named body, and the span of the construct that it stands in. -/
structure Definition where
  name : String
  body : List Node
  span : Span

mutual

/-- The definitions in a node in the order of their openers. -/
def Node.definitions : Node → List Definition
  | .define name body span => ⟨name, body, span⟩ :: definitionsIn body
  | .branch _ _ body otherwise _ => definitionsIn body ++ definitionsInElse otherwise
  | .literal _ => []
  | .print _ _ => []
  | .invoke _ _ _ => []
termination_by structural node => node

/-- The definitions in a body in the order of their openers. -/
def definitionsIn : List Node → List Definition
  | [] => []
  | node :: rest => node.definitions ++ definitionsIn rest
termination_by structural nodes => nodes

/-- The definitions in the second body of a branch, if it has one. -/
def definitionsInElse : Option (List Node) → List Definition
  | none => []
  | some nodes => definitionsIn nodes
termination_by structural nodes => nodes

end

/-- No name is defined twice, `seen` being the names defined before. -/
def checkDistinct (seen : List String) : List Definition → Except ParseError Unit
  | [] => .ok ()
  | definition :: rest =>
    if definition.name ∈ seen then
      .error ⟨.duplicateDefinition definition.name, definition.span⟩
    else checkDistinct (definition.name :: seen) rest

/-! ## Bodies -/

/-- A block and the number of definitions on the longest chain of inclusions from it. -/
structure Resolved where
  block : Block
  height : Nat

/-- Resolving keeps the definitions that are finished. -/
abbrev Resolving := StateT (List (String × Resolved)) (Except ParseError)

/-- A check of the part of a source that a span covers. -/
def Resolving.check {α : Type} (span : Span) (result : Except ParseProblem α) : Resolving α :=
  match result with
  | .ok value => pure value
  | .error problem => throw ⟨problem, span⟩

/-- What resolving a node gives: the scope after it, its part if it has one, and its height. -/
structure ResolvedNode where
  scope : Scope
  part : Option Part
  height : Nat

mutual

/-- Resolves a node; `visit` resolves a definition that an invocation names. -/
def resolveNode (visit : String → Span → Resolving Resolved) (scope : Scope) :
    Node → Resolving ResolvedNode
  | .literal slice => pure ⟨scope, some (.literal (String.ofList slice.text)), 0⟩
  | .print pipeline span => do
    let after ← .check span (scope.afterPipeline pipeline)
    let part := if pipeline.binding.isSome then .bind pipeline span else .print pipeline span
    pure ⟨after, some part, 0⟩
  | .branch kind head body otherwise span => do
    let inside ← .check span
      (if kind = .loop then scope.inLoop head else scope.afterPipeline head)
    let body ← resolveNodes visit inside body
    let (otherwise, height) ←
      resolveElse visit (if kind = .loop then scope else inside) otherwise
    pure ⟨scope, some (.branch kind head body.block otherwise span), max body.height height⟩
  | .define _ _ _ => pure ⟨scope, none, 0⟩
  | .invoke name argument span => do
    let after ← .check span (argument.elim (.ok scope) scope.afterPipeline)
    let resolved ← visit name span
    pure ⟨after, some (.include name argument resolved.block span), resolved.height + 1⟩
termination_by structural node => node

/-- Resolves a body. -/
def resolveNodes (visit : String → Span → Resolving Resolved) (scope : Scope) :
    List Node → Resolving Resolved
  | [] => pure ⟨[], 0⟩
  | node :: rest => do
    let first ← resolveNode visit scope node
    let others ← resolveNodes visit first.scope rest
    pure ⟨first.part.toList ++ others.block, max first.height others.height⟩
termination_by structural nodes => nodes

/-- Resolves the second body of a branch, if it has one. -/
def resolveElse (visit : String → Span → Resolving Resolved) (scope : Scope) :
    Option (List Node) → Resolving (Option Block × Nat)
  | none => pure (none, 0)
  | some nodes => do
    let resolved ← resolveNodes visit scope nodes
    pure (some resolved.block, resolved.height)
termination_by structural nodes => nodes

end

/-! ## Inclusions -/

/-- What stays the same while a source is resolved. -/
structure ResolveContext where
  hasFunction : String → Bool
  limit : Nat

namespace ResolveContext

/-- The scope at the start of the template and of each definition. -/
def scope (context : ResolveContext) : Scope :=
  ⟨context.hasFunction, []⟩

/-- A chain of inclusions is not longer than the limit. -/
def checkDepth (context : ResolveContext) (depth : Nat) (span : Span) : Resolving Unit :=
  if context.limit < depth then throw ⟨.depthExceeded context.limit, span⟩ else pure ()

/-- The names from a definition that is being resolved to itself. The definitions in progress are
given with the innermost first. -/
def cycle (progress : List String) (name : String) : List String :=
  name :: (progress.takeWhile (· != name)).reverse ++ [name]

theorem length_filter_lt_of_find? {definitions : List Definition} {name : String}
    {found : Definition} (h : definitions.find? (·.name == name) = some found) :
    (definitions.filter (·.name != name)).length < definitions.length := by
  have hname := List.find?_some h
  exact List.length_filter_lt_length_iff_exists.mpr
    ⟨found, List.mem_of_find?_eq_some h, by simpa using hname⟩

/-- Resolves the definition of a name. The definitions not yet in progress are given with those that
are. -/
def definition (context : ResolveContext) (progress : List String) (others : List Definition)
    (name : String) (span : Span) : Resolving Resolved := do
  match (← get).lookup name with
  | some resolved =>
    context.checkDepth (progress.length + 1 + resolved.height) span
    pure resolved
  | none =>
    if name ∈ progress then throw ⟨.cyclicTemplate (cycle progress name), span⟩
    else
      context.checkDepth (progress.length + 1) span
      match hfind : others.find? (·.name == name) with
      | none => throw ⟨.unknownTemplate name, span⟩
      | some found =>
        let rest := others.filter (·.name != name)
        have : rest.length < others.length := length_filter_lt_of_find? hfind
        let resolved ←
          resolveNodes (context.definition (name :: progress) rest) context.scope found.body
        modify ((name, resolved) :: ·)
        pure resolved
termination_by others.length
decreasing_by exact this

end ResolveContext

/-- The blocks of a template: its root, and its definitions in the order of their openers. -/
structure Resolution where
  root : Block
  definitions : List (String × Block)

/-- Resolves the root of a tree, then all definitions. -/
def ResolveContext.template (context : ResolveContext) (nodes : List Node)
    (definitions : List Definition) : Resolving Resolution := do
  let root ← resolveNodes (context.definition [] definitions) context.scope nodes
  let blocks ← definitions.mapM fun found => do
    let resolved ← context.definition [] definitions found.name found.span
    pure (found.name, resolved.block)
  pure ⟨root.block, blocks⟩

/-- Resolves the tree of a source. -/
def resolve (context : ResolveContext) (nodes : List Node) : Except ParseError Resolution := do
  let definitions := definitionsIn nodes
  checkDistinct [] definitions
  let (resolution, _) ← (context.template nodes definitions).run []
  .ok resolution

end LiveTemplate
