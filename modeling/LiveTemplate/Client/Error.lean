import LiveTemplate.Render.Wire
import LiveTemplate.Update.Fragment

/-!
# Why a client rejects a fragment

An `ApplyError` names the fragment and what is wrong with it; `ApplyError.message?` is its wording.
-/

namespace LiveTemplate

/-- Why a payload does not fit the node that it is for. -/
inductive Misfit where
  | itemsForOther
  | itemsNotKeyed
  | slotsForOther
  | payload (json : Json)
  | noText (position : Nat)
  | editsForOther
  | rootNotTree

/-- The wording of a misfit. -/
def Misfit.message : Misfit → String
  | .itemsForOther => "item update for a node that is not a comprehension"
  | .itemsNotKeyed => "item update must be keyed by index"
  | .slotsForOther => "keyed update for a node that is not a tree"
  | .payload json => "unexpected payload " ++ json.compact
  | .noText position => "no text slot at position " ++ toString position
  | .editsForOther => "list operations for a node that is not a comprehension"
  | .rootNotTree => "root replacement must be a tree"

/-- Why a fragment cannot be applied. An unreadable payload has no wording of its own, and neither
has an edit out of bounds. -/
inductive ApplyError where
  | malformed (problem : WireProblem)
  | invalidId (id : String)
  | missingSlot (id : String)
  | mismatch (id : String) (reason : Misfit)
  | outOfBounds (id : String) (edit : ListEdit Json)
  | unreadable (id : String)

/-- The wording of an error. -/
def ApplyError.message? : ApplyError → Option String
  | .malformed problem => some ("malformed wire tree: " ++ problem.message)
  | .invalidId id => some ("invalid fragment id `" ++ id ++ "`")
  | .missingSlot id => some ("fragment `" ++ id ++ "` addresses a slot that does not exist")
  | .mismatch id reason =>
    some ("fragment `" ++ id ++ "` does not fit the cached node: " ++ reason.message)
  | .outOfBounds _ _ => none
  | .unreadable _ => none

end LiveTemplate
