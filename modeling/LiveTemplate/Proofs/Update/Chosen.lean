import LiveTemplate.Proofs.Update.Levels

/-!
# What is chosen, and where it is sent

`Slot.Chosen` says which updates a comparison can choose between two nodes and what is known of the
nodes then. The comparison chooses nothing else (`Slot.chosen`), so that what holds of every update
is shown by induction on it.

* `Slot.Chosen.beside`: every fragment of an update is for two nodes that are compared and differ.
* `Slot.routed_compareSlots`: of the fragments for the slots of a node, those whose ids pass through
  a slot are those for the change of this slot.
* `RenderTree.fragments_beside`, `RenderTree.filter_fragments`: the same of the fragments between
  two renders.
-/

namespace LiveTemplate

/-! ## The choice -/

namespace Slot

/-- The updates that can be chosen between two nodes that differ. -/
inductive Chosen (options : UpdateOptions) : Slot → Slot → Update → Prop
  | text {old new : String} (differ : old ≠ new) :
      Chosen options (.text old) (.text new) (.text new)
  | replace {old new : Slot} (differ : old ≠ new) : Chosen options old new (.replace new)
  | keyed {statics : List String} {olds news : List Slot} (differ : olds ≠ news)
      (oldFits : slotsFit statics olds = true) (newFits : slotsFit statics news = true)
      (inner : ∀ (key : Nat) (old new : Slot) (update : Update), olds[key]? = some old →
        news[key]? = some new → compare options old new = some update →
          Chosen options old new update) :
      Chosen options (.tree statics olds) (.tree statics news)
        (.keyed (compareSlots options 0 olds news))
  | markers {statics : List String} {olds news : List Slot} {count : Nat} {found : List Marker}
      (instead : Chosen options (.tree statics olds) (.tree statics news)
        (.keyed (compareSlots options 0 olds news)))
      (marks : slotMarkers? 0 olds news = some (count, found))
      (shorter : (Update.markers found).size <
        (Update.keyed (compareSlots options 0 olds news)).size) :
      Chosen options (.tree statics olds) (.tree statics news) (.markers found)
  | items {statics : List String} {olds news : List (List Slot)} (differ : olds ≠ news)
      (length : olds.length = news.length)
      (shorter : (Update.items (Update.changedItems 0 olds news)).size ≤
        (Update.replace (.list statics news)).size) :
      Chosen options (.list statics olds) (.list statics news)
        (.items (Update.changedItems 0 olds news))
  | edits {statics : List String} {olds news : List (List Slot)}
      {found : List (ListEdit (List Slot))} (differ : olds ≠ news)
      (shorter : (Update.edits found).size ≤ (Update.replace (.list statics news)).size) :
      Chosen options (.list statics olds) (.list statics news) (.edits found)

variable {options : UpdateOptions}

theorem chosen_ofTree {statics : List String} {olds news : List Slot} (differ : olds ≠ news)
    (inner : ∀ (key : Nat) (old new : Slot) (update : Update), olds[key]? = some old →
      news[key]? = some new → compare options old new = some update →
        Chosen options old new update) :
    Chosen options (.tree statics olds) (.tree statics news)
      (.ofTree options statics olds news (compareSlots options 0 olds news)) := by
  by_cases hfit : slotsFit statics olds = true ∧ slotsFit statics news = true
  · have hkeyed : Chosen options (.tree statics olds) (.tree statics news)
        (.keyed (compareSlots options 0 olds news)) := .keyed differ hfit.1 hfit.2 inner
    rw [Update.ofTree, if_neg (by simp [hfit.1, hfit.2])]
    split
    · exact hkeyed
    · split
      · exact hkeyed
      · rename_i count found hfound
        split
        · rename_i hsize
          exact .markers hkeyed hfound hsize
        · exact hkeyed
  · rw [Update.ofTree_of_not_fit hfit]
    exact .replace fun he => differ (Slot.tree.inj he).2

theorem chosen_ofList {statics : List String} {olds news : List (List Slot)}
    (differ : olds ≠ news) :
    Chosen options (.list statics olds) (.list statics news)
      (.ofList options statics olds news) := by
  have hwhole : Chosen options (.list statics olds) (.list statics news)
      (.replace (.list statics news)) := .replace fun he => differ (Slot.list.inj he).2
  have hsize := Update.size_ofList_le options statics olds news
  have hmem := Update.ofList_mem options statics olds news
  generalize Update.ofList options statics olds news = update at hsize hmem ⊢
  rw [List.mem_cons, Update.mem_listCandidates] at hmem
  rcases hmem with rfl | ⟨rfl, hl⟩ | ⟨found, rfl, -⟩
  · exact hwhole
  · exact .items differ hl hsize
  · exact .edits differ hsize

mutual

/-- Whatever a comparison gives is one of the updates that can be chosen. -/
theorem chosen {update : Update} (old new : Slot) (h : compare options old new = some update) :
    Chosen options old new update := by
  have hne : old ≠ new := by
    rintro rfl
    unfold compare at h
    rw [if_pos rfl] at h
    cases h
  cases old with
  | tree statics olds =>
    cases compared h with
    | tree differ =>
      exact chosen_ofTree differ fun key old new update ho hn hc =>
        chosenSlots olds key old new update ho hc
    | replace => exact .replace hne
  | list statics olds =>
    cases compared h with
    | list => exact chosen_ofList fun he => hne (he ▸ rfl)
    | replace => exact .replace hne
  | text content =>
    cases compared h with
    | text => exact .text fun he => hne (he ▸ rfl)
    | replace => exact .replace hne
  | empty =>
    cases compared h with
    | replace => exact .replace hne
termination_by structural old

theorem chosenSlots (olds : List Slot) (key : Nat) (old new : Slot) (update : Update)
    (ho : olds[key]? = some old) (h : compare options old new = some update) :
    Chosen options old new update := by
  cases olds with
  | nil => cases ho
  | cons first rest =>
    cases key with
    | zero =>
      obtain rfl := Option.some.inj ho
      exact chosen first new h
    | succ key => exact chosenSlots rest key old new update ho h
termination_by structural olds

end

end Slot

/-! ## The slots that change -/

namespace Slot

variable {options : UpdateOptions}

/-- The keys of the slots that change are in order. -/
theorem keys_compareSlots (options : UpdateOptions) (start : Nat) (olds news : List Slot) :
    ((compareSlots options start olds news).map Prod.fst).Sublist
      (List.range' start olds.length) := by
  induction olds generalizing start news with
  | nil =>
    rw [compareSlots_nil_left]
    exact List.Sublist.refl _
  | cons old olds ih =>
    cases news with
    | nil =>
      rw [compareSlots_nil_right]
      exact List.nil_sublist _
    | cons new news =>
      rw [compareSlots, List.map_append, List.length_cons, List.range'_succ]
      cases compare options old new with
      | none => exact (ih (start + 1) news).cons start
      | some update => exact (ih (start + 1) news).cons_cons start

theorem nodup_keys_compareSlots (start : Nat) (olds news : List Slot) :
    ((compareSlots options start olds news).map Prod.fst).Nodup :=
  (keys_compareSlots options start olds news).nodup List.nodup_range'

theorem lookup_compareSlots (options : UpdateOptions) (start : Nat) {key : Nat} {old new : Slot}
    {olds news : List Slot} (ho : olds[key]? = some old) (hn : news[key]? = some new) :
    (compareSlots options start olds news).lookup (start + key) = compare options old new := by
  induction olds generalizing start key news with
  | nil => cases ho
  | cons first olds ih =>
    cases news with
    | nil => cases hn
    | cons second news =>
      rw [compareSlots]
      cases key with
      | zero =>
        obtain rfl := Option.some.inj ho
        obtain rfl := Option.some.inj hn
        cases compare options first second with
        | none =>
          refine List.lookup_eq_none_iff.mpr fun change hm => ?_
          have hkey := (keys_compareSlots options (start + 1) olds news).subset
            (List.mem_map_of_mem hm)
          rw [List.mem_range'_1] at hkey
          exact bne_iff_ne.mpr (by omega)
        | some update => exact List.lookup_cons_self
      | succ key =>
        have hrest : (compareSlots options (start + 1) olds news).lookup (start + 1 + key) =
            compare options old new := ih (start + 1) ho hn
        rw [Nat.add_right_comm] at hrest
        cases compare options first second with
        | none => exact hrest
        | some update =>
          have hne : (start + (key + 1) == start) = false := beq_false_of_ne (by omega)
          show List.lookup (start + (key + 1)) ((start, update) :: _) = _
          rw [List.lookup_cons, hne]
          exact hrest

end Slot

/-! ## Where fragments go -/

/-- Whether the id of a fragment has a key at a depth. -/
def Fragment.hasKeyAt (fragment : Fragment) (depth key : Nat) : Bool :=
  (KeyPath.segments fragment.id)[depth]? == some (KeyPath.segment key)

theorem Fragment.hasKeyAt_iff {fragment : Fragment} {path below : KeyPath} {key other : Nat}
    (h : fragment.id = (path ++ key :: below).text) :
    fragment.hasKeyAt path.length other = true ↔ key = other := by
  have hget : (KeyPath.segments fragment.id)[path.length]? = some (KeyPath.segment key) := by
    rw [h, KeyPath.segments_text, List.map_append, List.getElem?_append_right (by simp)]
    simp
  rw [hasKeyAt, hget, beq_iff_eq, Option.some.injEq, KeyPath.segment_inj]

namespace Update

theorem inlineFields_fst (path : KeyPath) (changes : List (Nat × Update)) :
    (inlineFields path changes).1 = changes.flatMap fun (key, update) =>
      ((inline (path.child key) update).1.map fun json => (toString key, json)).toList := by
  induction changes with
  | nil => rfl
  | cons change rest ih =>
    rw [inlineFields, List.flatMap_cons, ← ih]

theorem inlineFields_snd (path : KeyPath) (changes : List (Nat × Update)) :
    (inlineFields path changes).2 = changes.flatMap fun (key, update) =>
      (inline (path.child key) update).2 := by
  induction changes with
  | nil => rfl
  | cons change rest ih =>
    rw [inlineFields, List.flatMap_cons, ← ih]

theorem inline_keyed_eq_none {path : KeyPath} {changes : List (Nat × Update)} :
    ((Update.keyed changes).inline path).1 = none ↔ (inlineFields path changes).1 = [] := by
  show (if (inlineFields path changes).1.isEmpty then none else some _) = none ↔ _
  rw [ite_eq_left_iff, ← List.isEmpty_iff]
  simp

theorem inline_keyed_eq_some {path : KeyPath} {changes : List (Nat × Update)} {json : Json} :
    ((Update.keyed changes).inline path).1 = some json ↔
      (inlineFields path changes).1 ≠ [] ∧
        json = Json.ofFields (inlineFields path changes).1 := by
  show (if (inlineFields path changes).1.isEmpty then none else some _) = some json ↔ _
  rw [ne_eq, ← List.isEmpty_iff]
  split
  · rename_i he
    exact iff_of_false nofun fun h => h.1 he
  · rename_i he
    rw [Option.some.injEq, eq_comm]
    exact (and_iff_right he).symm

theorem mem_inlineFields_fst {path : KeyPath} {changes : List (Nat × Update)} {name : String}
    {json : Json} :
    (name, json) ∈ (inlineFields path changes).1 ↔
      ∃ key update, (key, update) ∈ changes ∧ (inline (path.child key) update).1 = some json ∧
        name = toString key := by
  rw [inlineFields_fst, List.mem_flatMap]
  constructor
  · rintro ⟨⟨key, update⟩, hm, hf⟩
    obtain ⟨nested, hn, he⟩ := Option.map_eq_some_iff.mp (Option.mem_toList.mp hf)
    cases he
    exact ⟨key, update, hm, hn, rfl⟩
  · rintro ⟨key, update, hm, hn, rfl⟩
    exact ⟨(key, update), hm, Option.mem_toList.mpr (by rw [hn]; rfl)⟩

/-- The nested parts for several slots stand under the keys of these slots. -/
theorem names_inlineFields (path : KeyPath) (changes : List (Nat × Update)) :
    (Json.names (inlineFields path changes).1).Sublist
      ((changes.map Prod.fst).map toString) := by
  induction changes with
  | nil => exact List.Sublist.refl _
  | cons change rest ih =>
    obtain ⟨key, update⟩ := change
    rw [inlineFields, Json.names_append, List.map_cons, List.map_cons]
    cases (inline (path.child key) update).1 with
    | none => exact ih.cons _
    | some json => exact ih.cons_cons _

/-- Every slot has its own fragments: their ids lead through it. -/
structure Routed (path : KeyPath) (changes : List (Nat × Update))
    (sent : Nat × Update → List Fragment) : Prop where
  nodup : (changes.map Prod.fst).Nodup
  below : ∀ change ∈ changes, ∀ fragment ∈ sent change,
    ∃ below : KeyPath, fragment.id = (path ++ change.1 :: below).text

namespace Routed

variable {path : KeyPath} {changes : List (Nat × Update)}
  {sent : Nat × Update → List Fragment}

theorem filter (h : Routed path changes sent) (key : Nat) :
    (changes.flatMap sent).filter (·.hasKeyAt path.length key) =
      (changes.lookup key).elim [] fun update => sent (key, update) := by
  induction changes with
  | nil => rfl
  | cons change rest ih =>
    obtain ⟨first, update⟩ := change
    have hn := List.nodup_cons.mp h.nodup
    have hrest := ih ⟨hn.2, fun change hm => h.below change (List.mem_cons_of_mem _ hm)⟩
    have hown (fragment : Fragment) (hm : fragment ∈ sent (first, update)) :
        fragment.hasKeyAt path.length key = true ↔ first = key := by
      obtain ⟨below, hid⟩ := h.below _ List.mem_cons_self fragment hm
      exact Fragment.hasKeyAt_iff hid
    rw [List.flatMap_cons, List.filter_append, hrest, List.lookup_cons]
    by_cases he : first = key
    · subst he
      have hnone : rest.lookup first = none :=
        List.lookup_eq_none_iff.mpr fun change hm => bne_iff_ne.mpr fun he =>
          hn.1 (List.mem_map.mpr ⟨change, hm, he.symm⟩)
      rw [List.filter_eq_self.mpr fun fragment hm => (hown fragment hm).mpr rfl, hnone,
        beq_self_eq_true]
      exact List.append_nil _
    · rw [List.filter_eq_nil_iff.mpr fun fragment hm hk => he ((hown fragment hm).mp hk),
        beq_false_of_ne (Ne.symm he)]
      rfl

theorem nodup_ids (h : Routed path changes sent)
    (hown : ∀ change ∈ changes, ((sent change).map Fragment.id).Nodup) :
    ((changes.flatMap sent).map Fragment.id).Nodup := by
  rw [List.map_flatMap, List.nodup_flatMap]
  refine ⟨hown, ?_⟩
  refine (List.pairwise_map.mp h.nodup).imp_of_mem fun {first second} hf hs hne => ?_
  intro id hfirst hsecond
  obtain ⟨fragment, hm, rfl⟩ := List.mem_map.mp hfirst
  obtain ⟨other, hm', he⟩ := List.mem_map.mp hsecond
  obtain ⟨below, hid⟩ := h.below first hf fragment hm
  obtain ⟨below', hid'⟩ := h.below second hs other hm'
  rw [← he, hid', KeyPath.text_inj, List.append_cancel_left_eq, List.cons.injEq] at hid
  exact hne hid.1.symm

end Routed

end Update

namespace Slot

variable {options : UpdateOptions} {old new : Slot} {update : Update}

/-- A fragment for a node itself is for two nodes that are compared. -/
theorem beside_self {path : KeyPath} {strategy : Strategy} {payload : Json} {fragment : Fragment}
    (hne : old ≠ new) (hf : fragment ∈ [Fragment.of path.text strategy payload]) :
    ∃ below left right, fragment.id = (path ++ below).text ∧ Beside below old new left right ∧
      left ≠ right := by
  rw [List.mem_singleton.mp hf]
  exact ⟨[], old, new, by rw [List.append_nil]; rfl, .here, hne⟩

/-- Every fragment of an update is for two nodes that are compared and differ. -/
theorem Chosen.beside (h : Chosen options old new update) (path : KeyPath) {fragment : Fragment}
    (hf : fragment ∈ (update.inline path).2) :
    ∃ below left right, fragment.id = (path ++ below).text ∧ Beside below old new left right ∧
      left ≠ right := by
  induction h generalizing path with
  | text => cases hf
  | replace differ => exact beside_self differ hf
  | @keyed statics olds news _ fo fn _ ih =>
    obtain ⟨key, update, hm, hf⟩ := Update.mem_inlineFields.mp hf
    obtain ⟨i, old, new, hk, ho, hn, hc⟩ := mem_compareSlots.mp hm
    rw [Nat.zero_add] at hk
    subst hk
    obtain ⟨below, left, right, hid, hb, hne⟩ := ih key old new update ho hn hc (path.child key) hf
    rw [KeyPath.child, List.append_assoc] at hid
    exact ⟨key :: below, left, right, hid, .step fo fn ho hn hb, hne⟩
  | markers instead =>
    cases instead with
    | keyed differ => exact beside_self (fun he => differ (Slot.tree.inj he).2) hf
  | items => cases hf
  | edits differ => exact beside_self (fun he => differ (Slot.list.inj he).2) hf

/-- The fragments beside a nested part are for nodes further down. -/
theorem Chosen.deeper (h : Chosen options old new update) (path : KeyPath)
    (hn : (update.inline path).1.isSome = true) {fragment : Fragment}
    (hf : fragment ∈ (update.inline path).2) :
    ∃ key below, fragment.id = (path ++ key :: below).text := by
  cases h with
  | text | items => cases hf
  | replace | markers | edits => cases hn
  | @keyed statics olds news _ _ _ inner =>
    obtain ⟨key, update, hm, hf⟩ := Update.mem_inlineFields.mp hf
    obtain ⟨i, old, new, -, ho, hnew, hc⟩ := mem_compareSlots.mp hm
    obtain ⟨below, _, _, hid, -⟩ := (inner i old new update ho hnew hc).beside _ hf
    rw [KeyPath.child, List.append_assoc] at hid
    exact ⟨key, below, hid⟩

/-- The fragments for the slots of two nodes. -/
theorem routed_compareSlots (options : UpdateOptions) (path : KeyPath) (olds news : List Slot) :
    Update.Routed path (compareSlots options 0 olds news) fun change =>
      (change.2.inline (path.child change.1)).2 where
  nodup := nodup_keys_compareSlots 0 olds news
  below := by
    rintro ⟨key, update⟩ hm fragment hf
    obtain ⟨i, old, new, -, ho, hn, hc⟩ := mem_compareSlots.mp hm
    obtain ⟨below, _, _, hid, -⟩ := (chosen old new hc).beside (path.child key) hf
    rw [KeyPath.child, List.append_assoc] at hid
    exact ⟨below, hid⟩

theorem nodup_names_inlineFields (options : UpdateOptions) (path : KeyPath) (start : Nat)
    (olds news : List Slot) :
    (Json.names (Update.inlineFields path (compareSlots options start olds news)).1).Nodup :=
  (Update.names_inlineFields path _).nodup
    ((nodup_keys_compareSlots start olds news).map fun _ _ => KeyPath.toString_inj.mp)

/-- No two fragments of an update have the same id. -/
theorem Chosen.nodup_ids (h : Chosen options old new update) (path : KeyPath) :
    ((update.inline path).2.map Fragment.id).Nodup := by
  induction h generalizing path with
  | text | items => exact List.nodup_nil
  | replace | markers | edits => exact List.nodup_singleton _
  | @keyed statics olds news _ _ _ _ ih =>
    show ((Update.inlineFields path _).2.map Fragment.id).Nodup
    rw [Update.inlineFields_snd]
    refine (routed_compareSlots options path olds news).nodup_ids fun change hm => ?_
    obtain ⟨i, old, new, -, ho, hn, hc⟩ := mem_compareSlots.mp hm
    exact ih i old new change.2 ho hn hc (path.child change.1)

/-- Only the nested part of an update is sent as a keyed fragment. -/
theorem Chosen.strategy_ne_keyed (h : Chosen options old new update) (path : KeyPath)
    {fragment : Fragment} (hf : fragment ∈ (update.inline path).2) :
    fragment.strategy ≠ .keyed := by
  induction h generalizing path with
  | text | items => cases hf
  | replace | markers | edits =>
    rw [List.mem_singleton.mp hf]
    exact nofun
  | keyed _ _ _ _ ih =>
    obtain ⟨key, update, hm, hf⟩ := Update.mem_inlineFields.mp hf
    obtain ⟨i, old, new, -, ho, hn, hc⟩ := mem_compareSlots.mp hm
    exact ih i old new update ho hn hc _ hf

theorem Chosen.ne (h : Chosen options old new update) : old ≠ new := by
  cases h with
  | text differ => exact fun he => differ (Slot.text.inj he)
  | replace differ => exact differ
  | keyed differ => exact fun he => differ (Slot.tree.inj he).2
  | markers instead =>
    cases instead with
    | keyed differ => exact fun he => differ (Slot.tree.inj he).2
  | items differ | edits differ => exact fun he => differ (Slot.list.inj he).2

end Slot

/-! ## Top-level slots -/

theorem Update.fragments_eq (update : Update) (key : Nat) :
    update.fragments key =
      ((update.inline [key]).1.map fun json => .of (KeyPath.text [key]) .keyed json).toList ++
        (update.inline [key]).2 :=
  rfl

theorem Update.mem_fragments {update : Update} {key : Nat} {fragment : Fragment} :
    fragment ∈ update.fragments key ↔
      (∃ json, (update.inline [key]).1 = some json ∧
        fragment = .of (KeyPath.text [key]) .keyed json) ∨
      fragment ∈ (update.inline [key]).2 := by
  rw [fragments_eq, List.mem_append, Option.mem_toList, Option.map_eq_some_iff]
  simp only [eq_comm (b := fragment)]

namespace Slot

variable {options : UpdateOptions} {old new : Slot} {update : Update}

/-- Every fragment for a top-level slot is for two nodes that are compared and differ. -/
theorem Chosen.fragments_beside (h : Chosen options old new update) (key : Nat)
    {fragment : Fragment} (hf : fragment ∈ update.fragments key) :
    ∃ below left right, fragment.id = KeyPath.text (key :: below) ∧
      Beside below old new left right ∧ left ≠ right := by
  rcases Update.mem_fragments.mp hf with ⟨json, -, rfl⟩ | hf
  · exact ⟨[], old, new, rfl, .here, h.ne⟩
  · exact h.beside [key] hf

theorem Chosen.nodup_ids_fragments (h : Chosen options old new update) (key : Nat) :
    ((update.fragments key).map Fragment.id).Nodup := by
  have hothers := h.nodup_ids [key]
  rw [Update.fragments_eq]
  cases hi : (update.inline [key]).1 with
  | none => exact hothers
  | some json =>
    refine List.nodup_cons.mpr ⟨fun hm => ?_, hothers⟩
    obtain ⟨fragment, hf, he⟩ := List.mem_map.mp hm
    obtain ⟨next, below, hid⟩ := h.deeper [key] (by rw [hi]; rfl) hf
    have htext : KeyPath.text ([key] ++ next :: below) = KeyPath.text [key] := hid.symm.trans he
    rw [KeyPath.text_inj] at htext
    cases htext

end Slot

namespace RenderTree

open Slot

variable {options : UpdateOptions} {prev next : RenderTree} {fragment : Fragment}

theorem mem_fragments (h : SameRoot prev next) :
    fragment ∈ prev.fragments options next ↔
      ∃ key old new update, prev.slots[key]? = some old ∧ next.slots[key]? = some new ∧
        Slot.compare options old new = some update ∧ fragment ∈ update.fragments key := by
  rw [fragments_of_sameRoot h, RootUpdate.fragments, List.mem_flatMap]
  constructor
  · rintro ⟨⟨key, update⟩, hm, hf⟩
    obtain ⟨i, old, new, hk, ho, hn, hc⟩ := mem_compareSlots.mp hm
    rw [Nat.zero_add] at hk
    subst hk
    exact ⟨key, old, new, update, ho, hn, hc, hf⟩
  · rintro ⟨key, old, new, update, ho, hn, hc, hf⟩
    exact ⟨(key, update),
      mem_compareSlots.mpr ⟨key, old, new, (Nat.zero_add key).symm, ho, hn, hc⟩, hf⟩

theorem routed_fragments (options : UpdateOptions) (olds news : List Slot) :
    Update.Routed [] (compareSlots options 0 olds news) fun change =>
      change.2.fragments change.1 where
  nodup := nodup_keys_compareSlots 0 olds news
  below := by
    rintro ⟨key, update⟩ hm fragment hf
    obtain ⟨i, old, new, -, -, -, hc⟩ := mem_compareSlots.mp hm
    obtain ⟨below, _, _, hid, -⟩ := (chosen old new hc).fragments_beside key hf
    exact ⟨below, hid⟩

/-- The fragments whose ids begin with the key of a top-level slot are those for this slot. -/
theorem filter_fragments (h : SameRoot prev next) {key : Nat} {old new : Slot}
    (ho : prev.slots[key]? = some old) (hn : next.slots[key]? = some new) :
    (prev.fragments options next).filter (·.hasKeyAt 0 key) =
      (Slot.compare options old new).elim [] fun update => update.fragments key := by
  have hroute := (routed_fragments options prev.slots next.slots).filter key
  have hlookup := lookup_compareSlots options 0 ho hn
  rw [Nat.zero_add] at hlookup
  rw [hlookup] at hroute
  rw [fragments_of_sameRoot h]
  exact hroute

/-- Every fragment between two renders with the same top level is for two nodes below it that are
compared and differ. -/
theorem fragments_beside (h : SameRoot prev next) (hf : fragment ∈ prev.fragments options next) :
    ∃ path left right, path ≠ [] ∧ fragment.id = KeyPath.text path ∧
      Beside path prev.toSlot next.toSlot left right ∧ left ≠ right := by
  obtain ⟨key, old, new, update, ho, hn, hc, hf⟩ := (mem_fragments h).mp hf
  obtain ⟨below, left, right, hid, hb, hne⟩ := (chosen old new hc).fragments_beside key hf
  obtain ⟨fp, fn, he⟩ := h
  refine ⟨key :: below, left, right, List.cons_ne_nil _ _, hid, ?_, hne⟩
  rw [toSlot, toSlot, ← he]
  exact .step fp (he ▸ fn) ho hn hb

/-- No two fragments between two renders have the same id. -/
theorem nodup_ids_fragments (options : UpdateOptions) (prev next : RenderTree) :
    ((prev.fragments options next).map Fragment.id).Nodup := by
  by_cases h : SameRoot prev next
  · rw [fragments_of_sameRoot h]
    refine (routed_fragments options prev.slots next.slots).nodup_ids fun change hm => ?_
    obtain ⟨i, old, new, -, -, -, hc⟩ := mem_compareSlots.mp hm
    exact (chosen old new hc).nodup_ids_fragments change.1
  · rw [fragments_of_not_sameRoot h]
    exact List.nodup_singleton _

/-- A keyed fragment between two renders has the key of a top-level slot as its id. -/
theorem id_of_keyed (hf : fragment ∈ prev.fragments options next)
    (hs : fragment.strategy = .keyed) :
    ∃ key < next.slots.length, fragment.id = KeyPath.text [key] := by
  by_cases h : SameRoot prev next
  · obtain ⟨key, old, new, update, ho, hn, hc, hf⟩ := (mem_fragments h).mp hf
    refine ⟨key, (List.getElem?_eq_some_iff.mp hn).1, ?_⟩
    rcases Update.mem_fragments.mp hf with ⟨json, -, rfl⟩ | hf
    · rfl
    · exact absurd hs ((chosen old new hc).strategy_ne_keyed _ hf)
  · rw [fragments_of_not_sameRoot h] at hf
    rw [List.mem_singleton.mp hf] at hs
    cases hs

end RenderTree

end LiveTemplate
