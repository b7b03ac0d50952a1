import LiveTemplate.Proofs.Client.Sound
import LiveTemplate.Proofs.Key.Text

/-!
# The root of a client

A client starts with a tree as its root, and a replacement of the root by anything else is rejected.
A keyed update of the root is not checked in this way: if its payload is the wire form of an empty
slot, of a text or of a list, the root becomes that node (`Client.root_lost`).

* `Fragment.Unroots` says which fragments these are.
* `Client.isTree_after_iff`: the root of a client is a tree after every one of some fragments if and
  only if none of them is of that kind.
-/

namespace LiveTemplate

/-- A keyed update of the root whose payload is the wire form of a node other than a tree. -/
def Fragment.Unroots (fragment : Fragment) : Prop :=
  fragment.id = "" ∧ fragment.strategy = .keyed ∧
    ∃ slot, Slot.ofJson fragment.payload = .ok slot ∧ slot.isTree = false

namespace Slot

/-- A node without texts is not read. -/
theorem ofJson_object_ne_ok {fields : List (String × Json)} {slot : Slot}
    (h : fields.lookup Wire.staticsKey = none) : ofJson (.object fields) ≠ .ok slot := by
  intro hread
  rw [ofJson] at hread
  obtain ⟨statics, hstatics, -⟩ := bind_eq_ok.mp hread
  rw [Wire.readStatics, h] at hstatics
  cases hstatics

/-- A keyed update leaves a tree a tree, unless it is a new content of another kind. -/
theorem isTree_applyKeyed (id : String) {node : Slot} (h : node.isTree = true) (json : Json) :
    (applyKeyed id node json).1.isTree = true ↔
      ¬∃ slot, ofJson json = .ok slot ∧ slot.isTree = false := by
  cases json with
  | null => exact iff_of_false Bool.false_ne_true fun hn => hn ⟨.empty, rfl, rfl⟩
  | text content => exact iff_of_false Bool.false_ne_true fun hn => hn ⟨.text content, rfl, rfl⟩
  | object fields =>
    unfold applyKeyed
    split
    · cases hread : ofJson (.object fields) with
      | ok after =>
        show after.isTree = true ↔ _
        simp only [Except.ok.injEq, exists_eq_left', Bool.not_eq_false]
      | error problem =>
        refine iff_of_true h ?_
        rintro ⟨slot, ⟨⟩, -⟩
    · rename_i hstatics
      refine iff_of_true ?_ ?_
      · cases node with
        | tree statics slots =>
          split
          · rfl
          · rfl
        | _ => cases h
      · rintro ⟨slot, hread, -⟩
        exact ofJson_object_ne_ok (Option.not_isSome_iff_eq_none.mp hstatics) hread
  | _ =>
    refine iff_of_true h ?_
    rintro ⟨slot, ⟨⟩, -⟩

theorem isTree_applyReplacement {payload : Json} {slot : Slot}
    (h : applyReplacement "" payload = .ok slot) : slot.isTree = true := by
  obtain ⟨found, -, h⟩ := bind_eq_ok.mp h
  split at h
  · cases h
  · rename_i hn
    cases h
    exact Bool.not_eq_false _ ▸ fun hf => hn ⟨rfl, hf⟩

theorem isTree_applyPayload {fragment : Fragment} (hid : fragment.id = "") {node : Slot}
    (h : node.isTree = true) :
    (applyPayload fragment node).1.isTree = true ↔ ¬fragment.Unroots := by
  have hother (hs : fragment.strategy ≠ .keyed) : ¬fragment.Unroots := fun hu => hs hu.2.1
  rw [applyPayload]
  cases hs : fragment.strategy with
  | keyed =>
    rw [isTree_applyKeyed _ h]
    exact not_congr ⟨fun hread => ⟨hid, hs, hread⟩, fun hu => hu.2.2⟩
  | markers =>
    refine iff_of_true ?_ (hother (by rw [hs]; decide))
    cases node with
    | tree statics slots => dsimp only; split <;> rfl
    | _ => cases h
  | edits =>
    refine iff_of_true ?_ (hother (by rw [hs]; decide))
    cases node with
    | tree statics slots => dsimp only; split <;> rfl
    | _ => cases h
  | replacement =>
    refine iff_of_true ?_ (hother (by rw [hs]; decide))
    rw [hid]
    exact Outcome.ofExcept_keeps (P := (isTree · = true)) h fun _ => isTree_applyReplacement

/-- A change further down leaves a tree a tree. -/
theorem isTree_applyAt (id : String) (change : Slot → Outcome Slot) {segments : List (List Char)}
    (hs : segments ≠ []) {node : Slot} (h : node.isTree = true) :
    (applyAt id change segments node).1.isTree = true := by
  cases segments with
  | nil => exact absurd rfl hs
  | cons segment rest =>
    rw [applyAt]
    split
    · exact h
    · split
      · split <;> rfl
      · exact h

end Slot

namespace Client

/-- A fragment leaves the root a tree, unless it is one of those that do not. -/
theorem isTree_apply {client : Client} (h : client.root.isTree = true) (fragment : Fragment) :
    (client.apply fragment).1.root.isTree = true ↔ ¬fragment.Unroots := by
  by_cases hid : fragment.id = ""
  · rw [apply, KeyPath.segments_eq_nil.mpr hid]
    exact Slot.isTree_applyPayload hid h
  · exact iff_of_true
      (Slot.isTree_applyAt _ _ (fun hn => hid (KeyPath.segments_eq_nil.mp hn)) h)
      fun hu => hid hu.1

theorem isTree_after {client : Client} (h : client.root.isTree = true)
    (fragments : List Fragment) :
    (∀ count, (client.after (fragments.take count)).root.isTree = true) ↔
      ∀ fragment ∈ fragments, ¬fragment.Unroots := by
  induction fragments generalizing client with
  | nil =>
    simp only [List.take_nil]
    exact iff_of_true (fun _ => h) (List.forall_mem_nil _)
  | cons fragment rest ih =>
    rw [List.forall_mem_cons]
    constructor
    · intro hall
      have hfirst : (client.apply fragment).1.root.isTree = true := hall 1
      exact ⟨(isTree_apply h fragment).mp hfirst, (ih hfirst).mp fun count => hall (count + 1)⟩
    · rintro ⟨hfirst, hrest⟩ count
      cases count with
      | zero => exact h
      | succ count => exact (ih ((isTree_apply h fragment).mpr hfirst)).mpr hrest count

theorem isTree_of_ofJson {json : Json} {client : Client} (h : ofJson json = .ok client) :
    client.root.isTree = true := by
  obtain ⟨slot, -, h⟩ := bind_eq_ok.mp h
  split at h
  · rename_i htree
    cases h
    exact htree
  · cases h

/-- A client that was given any tree that it could read has a tree as its root after each of some
fragments, applied or rejected, if and only if none of them is a keyed update of the root to an
empty slot, a text or a list. -/
theorem isTree_after_iff {json : Json} {client : Client} (h : ofJson json = .ok client)
    (fragments : List Fragment) :
    (∀ count, (client.after (fragments.take count)).root.isTree = true) ↔
      ∀ fragment ∈ fragments, ¬fragment.Unroots :=
  isTree_after (isTree_of_ofJson h) fragments

/-- A text for the slot of the root, and a text in place of the root that is rejected. -/
theorem isTree_after_iff_text :
    let json : Json := .object [("0", .text "a"), ("s", .array [.text "", .text ""])]
    let fragments : List Fragment := [.of "0" .keyed (.text "b"), .of "" .replacement (.text "c")]
    ∃ client, ofJson json = .ok client ∧
      ((∀ count, (client.after (fragments.take count)).root.isTree = true) ↔
        ∀ fragment ∈ fragments, ¬fragment.Unroots) := by
  intro json fragments
  have hread : ofJson json = .ok ⟨.tree ["", ""] [.text "a"]⟩ := rfl
  exact ⟨_, hread, isTree_after_iff hread fragments⟩

/-- A client accepts a text as a keyed update of its root and has no tree any more. -/
theorem root_lost :
    ∃ client, ofJson (.object [("0", .text "a"), ("s", .array [.text "", .text ""])]) = .ok client ∧
      (client.apply (.of "" .keyed (.text "x"))).2.isNone ∧
      (client.after [.of "" .keyed (.text "x")]).root = .text "x" ∧
      (client.after [.of "" .keyed (.text "x")]).root.isTree = false :=
  ⟨⟨.tree ["", ""] [.text "a"]⟩, rfl, rfl, rfl, rfl⟩

end Client

end LiveTemplate
