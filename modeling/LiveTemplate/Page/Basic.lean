import LiveTemplate.Render.Tree
import LiveTemplate.Update.Compare

/-!
# Pages

A `Page` is what one connected client is known to show: a render, the data behind it, and a version
that counts the changes. An update can be prepared first and committed later; it is committed only
if the page still has the version for which it was prepared.
-/

namespace LiveTemplate

/-- A render that a client shows, its data, and the number of changes so far. -/
structure Page where
  template : Template
  options : UpdateOptions
  tree : RenderTree
  data : Value
  version : Nat

/-- An update of a page that has a certain version. -/
structure PendingUpdate where
  baseVersion : Nat
  tree : RenderTree
  data : Value
  fragments : List Fragment

/-- The page has another version than the one for which an update was prepared. -/
structure StaleUpdate where
  expected : Nat
  found : Nat
  deriving DecidableEq, Repr

/-- The wording of a stale update. -/
def StaleUpdate.message (stale : StaleUpdate) : String :=
  "page state moved from version " ++ toString stale.expected ++ " to " ++ toString stale.found ++
    " before the update was committed"

namespace Page

/-- A page that shows a template applied to data. -/
def create (template : Template) (data : Value) (options : UpdateOptions) :
    Except EvaluationError Page := do
  let tree ← template.render data
  .ok ⟨template, options, tree, data, 0⟩

/-- The page after a change. -/
def advance (page : Page) (tree : RenderTree) (data : Value) : Page :=
  { page with tree := tree, data := data, version := page.version + 1 }

/-- The update of a page to other data. The page stays as it is. -/
def prepare (page : Page) (data : Value) : Except EvaluationError PendingUpdate := do
  let tree ← page.template.render data
  .ok ⟨page.version, tree, data, page.tree.fragments page.options tree⟩

/-- The page with other data, and the fragments for its client. -/
def update (page : Page) (data : Value) : Except EvaluationError (Page × List Fragment) := do
  let pending ← page.prepare data
  .ok (page.advance pending.tree pending.data, pending.fragments)

/-- The page after a prepared update, and the fragments for its client. -/
def commit (page : Page) (pending : PendingUpdate) : Except StaleUpdate (Page × List Fragment) :=
  if page.version = pending.baseVersion then
    .ok (page.advance pending.tree pending.data, pending.fragments)
  else .error ⟨pending.baseVersion, page.version⟩

end Page

/-- A template with the data from which each new page starts. -/
structure Application where
  template : Template
  initial : Value
  options : UpdateOptions

/-- A new page of an application. -/
def Application.newPage (application : Application) : Except EvaluationError Page :=
  Page.create application.template application.initial application.options

end LiveTemplate
