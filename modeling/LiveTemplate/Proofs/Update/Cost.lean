import LiveTemplate.Proofs.Json.Size
import LiveTemplate.Proofs.Update.Chosen

/-!
# The length of updates

What is sent for an update is never longer than the new content in wire form. Every kind of update
is compared with another one by its size, and a keyed update has parts of the fields that the new
content has.

* `Update.sentSize_le_size`: an update is at most as long as the size by which it is chosen.
* `Slot.Chosen.size_le`: this size is at most that of the new content.
* `RenderTree.payloadSize_fragments_le`: the fragments between two renders are together at most as
  long as the second render, those for one top-level slot at most as long as its new content.
-/

namespace LiveTemplate

namespace Update

@[simp] theorem payloadSize_nil : payloadSize [] = 0 := rfl

@[simp] theorem payloadSize_cons (fragment : Fragment) (fragments : List Fragment) :
    payloadSize (fragment :: fragments) = fragment.payload.size + payloadSize fragments := rfl

@[simp] theorem payloadSize_append (fragments others : List Fragment) :
    payloadSize (fragments ++ others) = payloadSize fragments + payloadSize others := by
  induction fragments with
  | nil => exact (Nat.zero_add _).symm
  | cons fragment rest ih =>
    rw [List.cons_append, payloadSize_cons, payloadSize_cons, ih, Nat.add_assoc]

/-! ## What is sent -/

/-- The number of bytes that are sent for an update at a path: its nested part, if there is one, and
the payloads of its fragments. -/
def sentSize (path : KeyPath) (update : Update) : Nat :=
  (update.inline path).1.elim 0 Json.size + payloadSize (update.inline path).2

mutual

/-- The path of a node stands in the ids of fragments only. -/
theorem inline_path (path other : KeyPath) (update : Update) :
    (update.inline path).1 = (update.inline other).1 ∧
      payloadSize (update.inline path).2 = payloadSize (update.inline other).2 := by
  cases update with
  | keyed changes =>
    obtain ⟨hfields, hsize⟩ := inlineFields_path path other changes
    refine ⟨?_, hsize⟩
    show (if (inlineFields path changes).1.isEmpty then none
      else some (Json.ofFields (inlineFields path changes).1)) = _
    rw [hfields]
    rfl
  | text | items => exact ⟨rfl, rfl⟩
  | markers | edits | replace => exact ⟨rfl, rfl⟩
termination_by structural update

theorem inlineFields_path (path other : KeyPath) (changes : List (Nat × Update)) :
    (inlineFields path changes).1 = (inlineFields other changes).1 ∧
      payloadSize (inlineFields path changes).2 = payloadSize (inlineFields other changes).2 := by
  match changes with
  | [] => exact ⟨rfl, rfl⟩
  | (key, update) :: rest =>
    obtain ⟨hnested, hsize⟩ := inline_path (path.child key) (other.child key) update
    obtain ⟨hfields, hsizes⟩ := inlineFields_path path other rest
    simp only [inlineFields, hnested, hfields, payloadSize_append, hsize, hsizes, and_self]
termination_by structural changes

end

theorem size_of_keyed {update : Update} (h : update.strategy = .keyed) :
    update.size = ((update.inline []).1.getD (.object [])).size +
      payloadSize (update.inline []).2 := by
  rw [size, h]

theorem size_text (content : String) : (text content).size = (Json.text content).size :=
  Nat.add_zero _

theorem size_replace (slot : Slot) : (replace slot).size = slot.toJson.size := Nat.add_zero _

/-- An update is sent in at most as many bytes as its size says: a keyed update of which nothing is
nested counts as an empty object. -/
theorem sentSize_le_size (path : KeyPath) (update : Update) :
    update.sentSize path ≤ update.size := by
  obtain ⟨hnested, hsize⟩ := inline_path path [] update
  rw [sentSize, hnested, hsize]
  cases update with
  | text | items | keyed =>
    rw [size_of_keyed rfl]
    refine Nat.add_le_add_right ?_ _
    cases (inline [] _).1 with
    | none => exact Nat.zero_le _
    | some json => exact Nat.le_refl _
  | markers | edits | replace => exact Nat.le_of_eq (Nat.zero_add _)

theorem payloadSize_fragments (key : Nat) (update : Update) :
    payloadSize (update.fragments key) = update.sentSize [key] := by
  rw [fragments_eq, payloadSize_append, sentSize]
  cases (update.inline [key]).1 <;> rfl

/-- What is sent for several slots, the nested parts as fields. -/
def sentFieldSize (path : KeyPath) (change : Nat × Update) : Nat :=
  ((change.2.inline (path.child change.1)).1.elim 0
    fun json => Json.fieldSize (toString change.1, json)) +
      payloadSize (change.2.inline (path.child change.1)).2

theorem size_inlineFields (path : KeyPath) (changes : List (Nat × Update)) :
    Json.fieldsSize (inlineFields path changes).1 + payloadSize (inlineFields path changes).2 =
      (changes.map (sentFieldSize path)).sum := by
  induction changes with
  | nil => rfl
  | cons change rest ih =>
    obtain ⟨key, update⟩ := change
    rw [List.map_cons, List.sum_cons, ← ih, inlineFields, sentFieldSize]
    simp only [Json.fieldsSize_append, payloadSize_append]
    cases (inline (path.child key) update).1 with
    | none =>
      simp only [Option.map_none, Option.toList_none, Json.fieldsSize_nil, Option.elim_none]
      omega
    | some json =>
      simp only [Option.map_some, Option.toList_some, Json.fieldsSize_cons, Json.fieldsSize_nil,
        Option.elim_some]
      omega

/-- A slot takes up no more room among the parts of an update than its new content does among the
fields of a tree. -/
theorem sentFieldSize_le {path : KeyPath} {key : Nat} {update : Update} {json : Json}
    (h : update.sentSize (path.child key) ≤ json.size) :
    sentFieldSize path (key, update) ≤ Json.fieldSize (toString key, json) := by
  rw [sentSize] at h
  rw [sentFieldSize, Json.fieldSize]
  cases hi : (update.inline (path.child key)).1 with
  | none =>
    rw [hi] at h
    simp only [Option.elim_none] at h ⊢
    omega
  | some nested =>
    rw [hi] at h
    simp only [Option.elim_some, Json.fieldSize] at h ⊢
    omega

end Update

/-! ## What is chosen -/

namespace Slot

variable {options : UpdateOptions}

/-- What costs no more than its slot in a tree, for each slot that changes, costs no more than all
slots. -/
theorem sum_compareSlots_le {cost : Nat × Update → Nat} (start : Nat) {olds news : List Slot}
    (h : ∀ (i : Nat) (old new : Slot) (update : Update), olds[i]? = some old →
      news[i]? = some new → compare options old new = some update →
        cost (start + i, update) ≤ Json.fieldSize (toString (start + i), new.toJson)) :
    ((compareSlots options start olds news).map cost).sum ≤
      Json.fieldsSize (slotFields start news) := by
  induction olds generalizing start news with
  | nil =>
    rw [compareSlots_nil_left]
    exact Nat.zero_le _
  | cons old olds ih =>
    cases news with
    | nil =>
      rw [compareSlots_nil_right]
      exact Nat.zero_le _
    | cons new news =>
      have hrest := ih (start + 1) fun i a b update ha hb hc => by
        rw [show start + 1 + i = start + (i + 1) by omega]
        exact h (i + 1) a b update ha hb hc
      rw [compareSlots, slotFields, Json.fieldsSize_cons, List.map_append, List.sum_append]
      refine Nat.add_le_add ?_ hrest
      cases hc : compare options old new with
      | none => exact Nat.zero_le _
      | some update => exact h 0 old new update rfl rfl hc

/-- The fields of a tree are shorter than the tree by the room of an empty object at least. -/
theorem fieldsSize_add_two_le (statics : List String) (slots : List Slot) :
    Json.fieldsSize (slotFields 0 slots) + 2 ≤ (Slot.tree statics slots).toJson.size := by
  refine Json.le_size_ofFields ?_
  rw [Json.names_cons]
  exact List.nodup_cons.mpr ⟨staticsKey_not_mem_slotFields 0 slots, nodup_names_slotFields 0 slots⟩

/-- The size by which an update is chosen is at most that of the new content. -/
theorem Chosen.size_le {old new : Slot} {update : Update} (h : Chosen options old new update) :
    update.size ≤ new.toJson.size := by
  induction h with
  | text => exact Nat.le_of_eq (Update.size_text _)
  | replace => exact Nat.le_of_eq (Update.size_replace _)
  | items _ _ shorter | edits _ shorter => exact shorter
  | markers _ _ shorter ih => exact Nat.le_trans (Nat.le_of_lt shorter) ih
  | @keyed statics olds news _ _ _ _ ih =>
    have hparts := Update.size_inlineFields [] (compareSlots options 0 olds news)
    have hsum : ((compareSlots options 0 olds news).map (Update.sentFieldSize [])).sum ≤
        Json.fieldsSize (slotFields 0 news) :=
      sum_compareSlots_le 0 fun i a b update ha hb hc => by
        rw [Nat.zero_add]
        exact Update.sentFieldSize_le
          (Nat.le_trans (update.sentSize_le_size _) (ih i a b update ha hb hc))
    have hfields := Json.size_ofFields_le (nodup_names_inlineFields options [] 0 olds news)
    have htree := fieldsSize_add_two_le statics news
    rw [Update.size_of_keyed rfl]
    change _ + Update.payloadSize (Update.inlineFields [] _).2 ≤ _
    cases hi : ((Update.keyed (compareSlots options 0 olds news)).inline []).1 with
    | none =>
      rw [Option.getD_none, Json.size_object_nil]
      omega
    | some json =>
      obtain ⟨-, rfl⟩ := Update.inline_keyed_eq_some.mp hi
      rw [Option.getD_some]
      omega

end Slot

/-! ## Renders -/

namespace RenderTree

open Slot

variable {options : UpdateOptions} {prev next : RenderTree}

/-- The fragments for one slot are at most as long as its new content. -/
theorem payloadSize_change_le {old new : Slot} {update : Update}
    (hc : Slot.compare options old new = some update) (key : Nat) :
    Update.payloadSize (update.fragments key) ≤ new.toJson.size := by
  rw [Update.payloadSize_fragments]
  exact Nat.le_trans (update.sentSize_le_size _) (chosen old new hc).size_le

theorem payloadSize_slots (changes : List (Nat × Update)) :
    Update.payloadSize (RootUpdate.slots changes).fragments =
      (changes.map fun change => Update.payloadSize (change.2.fragments change.1)).sum := by
  rw [RootUpdate.fragments]
  induction changes with
  | nil => rfl
  | cons change rest ih =>
    rw [List.flatMap_cons, Update.payloadSize_append, ih, List.map_cons, List.sum_cons]

/-- An update never costs more than sending everything again. The fragments between two renders are
together at most as long as the second one in wire form, and those whose ids begin with the key of a
top-level slot are together at most as long as its new content. -/
theorem payloadSize_fragments_le (options : UpdateOptions) (prev next : RenderTree) :
    Update.payloadSize (prev.fragments options next) ≤ next.toJson.size ∧
      ∀ key slot, next.slots[key]? = some slot →
        Update.payloadSize ((prev.fragments options next).filter (·.hasKeyAt 0 key)) ≤
          slot.toJson.size := by
  by_cases h : SameRoot prev next
  · constructor
    · rw [fragments_of_sameRoot h, payloadSize_slots]
      have hsum : ((Slot.compareSlots options 0 prev.slots next.slots).map fun change =>
          Update.payloadSize (change.2.fragments change.1)).sum ≤
            Json.fieldsSize (slotFields 0 next.slots) :=
        sum_compareSlots_le 0 fun i _ new _ _ _ hc => Nat.le_trans (payloadSize_change_le hc _)
          (Json.size_le_fieldSize (toString (0 + i), new.toJson))
      have htree := fieldsSize_add_two_le next.statics next.slots
      exact Nat.le_trans hsum (Nat.le_trans (Nat.le_add_right _ 2) htree)
    · intro key slot hn
      have hk : key < prev.slots.length := h.length_eq ▸ (List.getElem?_eq_some_iff.mp hn).1
      rw [filter_fragments h (List.getElem?_eq_getElem hk) hn]
      cases hc : Slot.compare options prev.slots[key] slot with
      | none => exact Nat.zero_le _
      | some update => exact payloadSize_change_le hc key
  · rw [fragments_of_not_sameRoot h]
    refine ⟨Nat.le_refl _, fun key slot _ => ?_⟩
    have hnone : ([Fragment.of "" .replacement next.toJson]).filter (·.hasKeyAt 0 key) = [] := rfl
    rw [hnone]
    exact Nat.zero_le _

/-- A greeting and one item of a list change. The update of the list stays within the list's length
in wire form, and both updates within that of the whole page. -/
theorem payloadSize_fragments_le_list :
    let prev : RenderTree := ⟨["<p>", "</p><ul>", "</ul>"],
      [.text "hi", .list ["<li>", "</li>"] [[.text "a"], [.text "b"]]]⟩
    let next : RenderTree := ⟨["<p>", "</p><ul>", "</ul>"],
      [.text "bye", .list ["<li>", "</li>"] [[.text "a"], [.text "c"]]]⟩
    Update.payloadSize (prev.fragments {} next) ≤ next.toJson.size ∧
      Update.payloadSize ((prev.fragments {} next).filter (·.hasKeyAt 0 1)) ≤
        (Slot.list ["<li>", "</li>"] [[.text "a"], [.text "c"]]).toJson.size := by
  intro prev next
  obtain ⟨whole, parts⟩ := payloadSize_fragments_le {} prev next
  exact ⟨whole, parts 1 _ rfl⟩

end RenderTree

end LiveTemplate
