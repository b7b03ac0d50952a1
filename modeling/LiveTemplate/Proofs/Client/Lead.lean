import LiveTemplate.Client.Apply
import LiveTemplate.Proofs.Key.Text

/-!
# Fragments that lead from one node to another

`Slot.Lead path fragments old new` says that fragments for nodes below a path turn the node at that
path into another one. What leads from slot to slot also leads from tree to tree (`Lead.inSlot`),
and what leads from root to root is applied without an error (`Lead.applyAll`).
-/

namespace LiveTemplate

namespace Slot

/-- Fragments lead from a node at a path to another one: each of them has the id of a node below the
path and is applied there without an error. -/
inductive Lead (path : KeyPath) : List Fragment → Slot → Slot → Prop
  | nil (slot : Slot) : Lead path [] slot slot
  | cons {fragment : Fragment} {fragments : List Fragment} {old middle new : Slot}
      (below : KeyPath) (address : fragment.id = (path ++ below).text)
      (first : applyAt fragment.id (applyPayload fragment) (below.map KeyPath.segment) old =
        (middle, none))
      (rest : Lead path fragments middle new) : Lead path (fragment :: fragments) old new

namespace Lead

variable {path : KeyPath} {fragments others : List Fragment} {old middle new : Slot}

theorem append (h : Lead path fragments old middle) (h' : Lead path others middle new) :
    Lead path (fragments ++ others) old new := by
  induction h with
  | nil => exact h'
  | cons below address first _ ih => exact .cons below address first (ih h')

/-- A fragment for the node at the path itself. -/
theorem single {strategy : Strategy} {payload : Json}
    (h : applyPayload (.of path.text strategy payload) old = (new, none)) :
    Lead path [.of path.text strategy payload] old new :=
  .cons [] (by rw [List.append_nil]; rfl) h (.nil new)

end Lead

/-- Changing a node below a slot of a tree changes that slot. -/
theorem applyAt_slot {id : String} {change : Slot → Outcome Slot} {below : List (List Char)}
    {slots : List Slot} {key : Nat} {old new : Slot} (statics : List String)
    (hk : key < KeyPath.keyLimit) (hs : slots[key]? = some old)
    (h : applyAt id change below old = (new, none)) :
    applyAt id change (KeyPath.segment key :: below) (.tree statics slots) =
      (.tree statics (slots.set key new), none) := by
  rw [applyAt, KeyPath.keyOfSegment?_segment hk]
  simp only [hs, h, Outcome.within]

theorem applyAt_segment {id : String} {change : Slot → Outcome Slot} {below : List (List Char)}
    {before : List Slot} {old new : Slot} (statics : List String) (after : List Slot)
    (hk : before.length < KeyPath.keyLimit) (h : applyAt id change below old = (new, none)) :
    applyAt id change (KeyPath.segment before.length :: below)
        (tree statics (before ++ old :: after)) =
      (tree statics (before ++ new :: after), none) := by
  have hget : (before ++ old :: after)[before.length]? = some old := by simp
  have hset : (before ++ old :: after).set before.length new = before ++ new :: after := by
    rw [List.set_append_right _ _ (Nat.le_refl _), Nat.sub_self, List.set_cons_zero]
  rw [applyAt_slot statics hk hget h, hset]

theorem Lead.inSlot {path : KeyPath} {fragments : List Fragment} {old new : Slot}
    {before : List Slot} (h : Lead (path.child before.length) fragments old new)
    (statics : List String) (after : List Slot) (hk : before.length < KeyPath.keyLimit) :
    Lead path fragments (tree statics (before ++ old :: after))
      (tree statics (before ++ new :: after)) := by
  induction h with
  | nil => exact .nil _
  | cons below address first _ ih =>
    refine .cons (before.length :: below) ?_ (applyAt_segment statics after hk first) ih
    rw [address, KeyPath.child, List.append_assoc, List.singleton_append]

/-- A client applies fragments that lead from its root, all of them. -/
theorem Lead.applyAll {fragments : List Fragment} {old new : Slot}
    (h : Lead [] fragments old new) : Client.applyAll ⟨old⟩ fragments = (⟨new⟩, none) := by
  induction h with
  | nil => rfl
  | @cons fragment fragments old middle new below address first rest ih =>
    have happly : Client.apply ⟨old⟩ fragment = (⟨middle⟩, none) := by
      rw [Client.apply]
      rw [List.nil_append] at address
      rw [show KeyPath.segments fragment.id = below.map KeyPath.segment by
        rw [address, KeyPath.segments_text], first]
      rfl
    rw [Client.applyAll, Outcome.all, happly]
    exact ih

end Slot

end LiveTemplate
