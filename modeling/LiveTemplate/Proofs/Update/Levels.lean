import LiveTemplate.Proofs.Update.RoundTrip

/-!
# Levels that do not fit together

Two renders are compared whether or not texts and slots fit together in them. A node in which they
do not is replaced where the comparison meets it (`Slot.reaches_of_breaks`). Markers count the texts
of a node through everything below it, without a look at the levels there, so that they may be
counted across such a node (`RenderTree.markers_across_break`).

* `Slot.Beside`: how far two nodes are compared slot by slot.
* `Slot.Marked`: when the slots of two trees are sent as markers. Every fragment with markers is for
  such a pair (`Slot.compare_markers`).
* `RenderTree.markers_sound_iff`: the fragments between two renders keep markers away from what does
  not fit together, and replace it, if and only if no such pair has anything of the kind further
  down.
-/

namespace LiveTemplate

namespace Slot

/-! ## Nodes below a node -/

/-- The node that a path leads to. Only trees are passed on the way: the slots of an item have no
path, since an item is sent as a whole. -/
def nodeAt? : KeyPath → Slot → Option Slot
  | [], slot => some slot
  | key :: rest, .tree _ slots => slots[key]?.bind (nodeAt? rest)
  | _ :: _, _ => none

theorem sound_of_getElem? {slots : List Slot} {key : Nat} {slot : Slot}
    (h : soundSlots slots = true) (hs : slots[key]? = some slot) : slot.sound = true := by
  induction slots generalizing key with
  | nil => cases hs
  | cons first rest ih =>
    obtain ⟨hfirst, hrest⟩ := soundSlots_cons.mp h
    cases key with
    | zero => exact Option.some.inj hs ▸ hfirst
    | succ key => exact ih hrest hs

/-- What is below a sound node is sound. -/
theorem sound_of_nodeAt? {path : KeyPath} {slot node : Slot} (h : slot.sound = true)
    (hn : nodeAt? path slot = some node) : node.sound = true := by
  induction path generalizing slot with
  | nil => exact Option.some.inj hn ▸ h
  | cons key rest ih =>
    cases slot with
    | tree statics slots =>
      obtain ⟨child, hchild, hnode⟩ := Option.bind_eq_some_iff.mp hn
      exact ih (sound_of_getElem? (sound_tree.mp h).2 hchild) hnode
    | _ => cases hn

theorem nodeAt?_append (above rest : KeyPath) (slot : Slot) :
    nodeAt? (above ++ rest) slot = (nodeAt? above slot).bind (nodeAt? rest) := by
  induction above generalizing slot with
  | nil => rfl
  | cons key above ih =>
    cases slot with
    | tree statics slots =>
      show slots[key]?.bind (nodeAt? (above ++ rest)) =
        (slots[key]?.bind (nodeAt? above)).bind (nodeAt? rest)
      rw [Option.bind_assoc]
      exact congrArg _ (funext ih)
    | _ => rfl

/-! ## Nodes that are compared -/

/-- A path leads to a node in each of two nodes, through trees with the same texts in which texts
and slots fit together on both sides. -/
inductive Beside : KeyPath → Slot → Slot → Slot → Slot → Prop
  | here {old new : Slot} : Beside [] old new old new
  | step {statics : List String} {olds news : List Slot} {key : Nat} {rest : KeyPath}
      {old new left right : Slot} (oldFits : slotsFit statics olds = true)
      (newFits : slotsFit statics news = true) (oldSlot : olds[key]? = some old)
      (newSlot : news[key]? = some new) (next : Beside rest old new left right) :
      Beside (key :: rest) (.tree statics olds) (.tree statics news) left right

namespace Beside

variable {path : KeyPath} {old new left right : Slot}

theorem nodeAt?_old (h : Beside path old new left right) : nodeAt? path old = some left := by
  induction h with
  | here => rfl
  | step _ _ oldSlot _ _ ih => rw [nodeAt?, oldSlot, Option.bind_some, ih]

theorem nodeAt?_new (h : Beside path old new left right) : nodeAt? path new = some right := by
  induction h with
  | here => rfl
  | step _ _ _ newSlot _ ih => rw [nodeAt?, newSlot, Option.bind_some, ih]

/-- Nodes that differ below differ themselves. -/
theorem ne (h : Beside path old new left right) (hne : left ≠ right) : old ≠ new := by
  rintro rfl
  exact hne (Option.some.inj (h.nodeAt?_old.symm.trans h.nodeAt?_new))

end Beside

/-! ## Markers -/

mutual

/-- Slots that markers can tell apart have the same shape, without lists. -/
theorem alike_of_textMarkers? {position next : Nat} {markers : List Marker} (old new : Slot)
    (h : textMarkers? position old new = some (next, markers)) :
    old.sound = new.sound ∧ old.hasList = false ∧ new.hasList = false := by
  cases old <;> cases new <;> rw [textMarkers?] at h <;> try cases h
  case empty.empty.refl => exact ⟨rfl, rfl, rfl⟩
  case text.text.refl => exact ⟨rfl, rfl, rfl⟩
  case tree.tree =>
    split at h
    · rename_i hstatics
      obtain ⟨hl, hsound, hlists⟩ := alike_of_slotMarkers? _ _ h
      refine ⟨?_, hlists⟩
      rw [sound, sound, hsound, slotsFit, slotsFit, hl, hstatics]
    · cases h
termination_by structural old

theorem alike_of_slotMarkers? {position next : Nat} {markers : List Marker} (olds news : List Slot)
    (h : slotMarkers? position olds news = some (next, markers)) :
    olds.length = news.length ∧ soundSlots olds = soundSlots news ∧
      anyList olds = false ∧ anyList news = false := by
  cases olds with
  | nil =>
    cases news with
    | nil => exact ⟨rfl, rfl, rfl, rfl⟩
    | cons new news => cases h
  | cons old olds =>
    cases news with
    | nil => cases h
    | cons new news =>
      simp only [slotMarkers?, bind, Option.bind_eq_some_iff] at h
      obtain ⟨⟨middle, first⟩, hfirst, ⟨last, others⟩, hothers, -⟩ := h
      obtain ⟨hsound, hold, hnew⟩ := alike_of_textMarkers? old new hfirst
      obtain ⟨hl, hsounds, holds, hnews⟩ := alike_of_slotMarkers? olds news hothers
      refine ⟨congrArg Nat.succ hl, ?_, ?_, ?_⟩
      · rw [soundSlots, soundSlots, hsound, hsounds]
      · rw [anyList, hold, holds, Bool.or_self]
      · rw [anyList, hnew, hnews, Bool.or_self]
termination_by structural olds

end

/-- The slots of two trees with the same texts, in both of which texts and slots fit together, are
sent as markers: they differ in texts only, and markers are shorter than the changes by key. -/
structure Marked (options : UpdateOptions) (statics : List String) (olds news : List Slot) :
    Prop where
  differ : olds ≠ news
  enabled : options.markers = true
  old_fits : slotsFit statics olds = true
  new_fits : slotsFit statics news = true
  shorter : ∃ count found, slotMarkers? 0 olds news = some (count, found) ∧
    (Update.markers found).size < (Update.keyed (compareSlots options 0 olds news)).size

theorem Marked.soundSlots_eq {options : UpdateOptions} {statics : List String}
    {olds news : List Slot} (h : Marked options statics olds news) :
    soundSlots olds = soundSlots news := by
  obtain ⟨count, found, hfound, -⟩ := h.shorter
  exact (alike_of_slotMarkers? olds news hfound).2.1

end Slot

/-! ## What the comparison chooses -/

namespace Update

open Slot

variable {options : UpdateOptions} {statics : List String} {olds news : List Slot}

theorem ofTree_of_marked (h : Marked options statics olds news) :
    ∃ found, ofTree options statics olds news (compareSlots options 0 olds news) =
      .markers found := by
  obtain ⟨count, found, hfound, hsize⟩ := h.shorter
  obtain ⟨-, -, hold, hnew⟩ := alike_of_slotMarkers? olds news hfound
  refine ⟨found, ?_⟩
  simp [ofTree, h.old_fits, h.new_fits, h.enabled, hold, hnew, hfound, hsize]

/-- The slots of trees that fit together are changed by key or by markers. -/
theorem ofTree_of_fit (options : UpdateOptions) (hne : olds ≠ news)
    (fo : slotsFit statics olds = true) (fn : slotsFit statics news = true) :
    ofTree options statics olds news (compareSlots options 0 olds news) =
        .keyed (compareSlots options 0 olds news) ∨
      Marked options statics olds news ∧ ∃ found,
        ofTree options statics olds news (compareSlots options 0 olds news) = .markers found := by
  simp only [ofTree, fo, fn, Bool.not_true, Bool.or_self, Bool.false_eq_true, if_false]
  split
  · exact .inl rfl
  · rename_i hother
    simp only [Bool.or_eq_true, Bool.not_eq_true', not_or, Bool.not_eq_false] at hother
    split
    · exact .inl rfl
    · rename_i count found hfound
      split
      · rename_i hsize
        exact .inr ⟨⟨hne, hother.1.1, fo, fn, count, found, hfound, hsize⟩, found, rfl⟩
      · exact .inl rfl

theorem ofTree_of_not_fit (h : ¬(slotsFit statics olds = true ∧ slotsFit statics news = true))
    (changes : List (Nat × Update)) :
    ofTree options statics olds news changes = .replace (.tree statics news) := by
  rw [ofTree, if_pos]
  rwa [Bool.or_eq_true, Bool.not_eq_true', Bool.not_eq_true', ← Bool.not_eq_true,
    ← Bool.not_eq_true, ← not_and_or]

/-- A list is sent as a whole, as new items or as list edits. -/
theorem ofList_cases (options : UpdateOptions) (statics : List String)
    (olds news : List (List Slot)) :
    ofList options statics olds news = .replace (.list statics news) ∨
      (∃ changes, ofList options statics olds news = .items changes) ∨
        ∃ changes, ofList options statics olds news = .edits changes := by
  rcases List.mem_cons.mp (ofList_mem options statics olds news) with h | h
  · exact .inl h
  · rcases mem_listCandidates.mp h with ⟨hitems, -⟩ | ⟨found, hedits, -⟩
    · exact .inr (.inl ⟨_, hitems⟩)
    · exact .inr (.inr ⟨found, hedits⟩)

theorem ofList_of_not_fit {olds news : List (List Slot)}
    (h : ¬(itemsFit statics olds = true ∧ itemsFit statics news = true)) :
    ofList options statics olds news = .replace (.list statics news) := by
  rw [ofList, if_pos]
  rwa [Bool.or_eq_true, Bool.not_eq_true', Bool.not_eq_true', ← Bool.not_eq_true,
    ← Bool.not_eq_true, ← not_and_or]

end Update

namespace Slot

/-- The updates that may be chosen between two nodes. -/
inductive Compared (options : UpdateOptions) : Slot → Slot → Update → Prop
  | text {old new : String} : Compared options (.text old) (.text new) (.text new)
  | tree {statics : List String} {olds news : List Slot} (differ : olds ≠ news) :
      Compared options (.tree statics olds) (.tree statics news)
        (.ofTree options statics olds news (compareSlots options 0 olds news))
  | list {statics : List String} {olds news : List (List Slot)} :
      Compared options (.list statics olds) (.list statics news)
        (.ofList options statics olds news)
  | replace {old new : Slot} : Compared options old new (.replace new)

theorem compared {options : UpdateOptions} {old new : Slot} {update : Update}
    (h : compare options old new = some update) : Compared options old new update := by
  unfold compare at h
  split at h
  · cases h
  · rename_i hne
    split at h
    · cases h
      exact .text
    · split at h
      · rename_i hs
        cases h
        subst hs
        exact .tree fun he => hne (he ▸ rfl)
      · cases h
        exact .replace
    · split at h
      · rename_i hs
        cases h
        subst hs
        exact .list
      · cases h
        exact .replace
    · cases h
      exact .replace

theorem compare_tree (options : UpdateOptions) (statics : List String) {olds news : List Slot}
    (h : olds ≠ news) :
    compare options (.tree statics olds) (.tree statics news) =
      some (.ofTree options statics olds news (compareSlots options 0 olds news)) := by
  unfold compare
  rw [if_neg fun he => h (by cases he; rfl)]
  exact if_pos rfl

@[simp] theorem compareSlots_nil_left (options : UpdateOptions) (key : Nat) (news : List Slot) :
    compareSlots options key [] news = [] := by
  cases news <;> rfl

@[simp] theorem compareSlots_nil_right (options : UpdateOptions) (key : Nat) (olds : List Slot) :
    compareSlots options key olds [] = [] := by
  cases olds <;> rfl

theorem mem_compareSlots {options : UpdateOptions} {start key : Nat} {update : Update}
    {olds news : List Slot} :
    (key, update) ∈ compareSlots options start olds news ↔
      ∃ i old new, key = start + i ∧ olds[i]? = some old ∧ news[i]? = some new ∧
        compare options old new = some update := by
  induction olds generalizing start news with
  | nil => simp
  | cons first olds ih =>
    cases news with
    | nil => simp
    | cons second news =>
      rw [compareSlots, List.mem_append, Option.mem_toList, ih, Option.map_eq_some_iff]
      constructor
      · rintro (⟨found, hfound, he⟩ | ⟨i, old, new, hk, hold, hnew, hc⟩)
        · cases he
          exact ⟨0, first, second, rfl, rfl, rfl, hfound⟩
        · exact ⟨i + 1, old, new, by omega, hold, hnew, hc⟩
      · rintro ⟨i, old, new, hk, hold, hnew, hc⟩
        cases i with
        | zero =>
          cases hold
          cases hnew
          exact .inl ⟨update, hc, by rw [hk]; rfl⟩
        | succ i => exact .inr ⟨i, old, new, by omega, hold, hnew, hc⟩

end Slot

/-! ## Fragments -/

theorem Update.mem_inlineFields {path : KeyPath} {fragment : Fragment}
    {changes : List (Nat × Update)} :
    fragment ∈ (inlineFields path changes).2 ↔
      ∃ key update, (key, update) ∈ changes ∧ fragment ∈ (inline (path.child key) update).2 := by
  induction changes with
  | nil =>
    refine iff_of_false (fun h => ?_) ?_
    · rw [inlineFields] at h
      cases h
    · rintro ⟨key, update, h, -⟩
      cases h
  | cons change rest ih =>
    obtain ⟨key, update⟩ := change
    rw [inlineFields]
    simp only [List.mem_append, ih, List.mem_cons, Prod.mk.injEq]
    constructor
    · rintro (h | ⟨key', update', hm, h⟩)
      · exact ⟨key, update, .inl ⟨rfl, rfl⟩, h⟩
      · exact ⟨key', update', .inr hm, h⟩
    · rintro ⟨key', update', ⟨rfl, rfl⟩ | hm, h⟩
      · exact .inl h
      · exact .inr ⟨key', update', hm, h⟩

/-- A fragment of a strategy is for a node on the way to the end of a path that is continued below a
node. -/
def Reaches (strategy : Strategy) (fragments : List Fragment) (path below : KeyPath) : Prop :=
  ∃ fragment ∈ fragments, fragment.strategy = strategy ∧
    ∃ above, above <+: below ∧ fragment.id = (path ++ above).text

theorem Reaches.self {strategy : Strategy} {payload : Json} {path : KeyPath} (below : KeyPath) :
    Reaches strategy [.of path.text strategy payload] path below :=
  ⟨_, List.mem_singleton_self _, rfl, [], List.nil_prefix, by rw [List.append_nil]; rfl⟩

/-- What reaches a node below a slot reaches it from the tree with that slot. -/
theorem Reaches.child {strategy : Strategy} {path rest : KeyPath} {key : Nat} {update : Update}
    {changes : List (Nat × Update)} (hm : (key, update) ∈ changes)
    (h : Reaches strategy (update.inline (path.child key)).2 (path.child key) rest) :
    Reaches strategy (Update.inlineFields path changes).2 path (key :: rest) := by
  obtain ⟨fragment, hf, hs, above, hpre, hid⟩ := h
  refine ⟨fragment, Update.mem_inlineFields.mpr ⟨key, update, hm, hf⟩, hs, key :: above,
    List.cons_prefix_cons.mpr ⟨rfl, hpre⟩, ?_⟩
  rw [hid, KeyPath.child, List.append_assoc, List.singleton_append]

namespace Slot

variable {options : UpdateOptions}

mutual

/-- Every fragment with markers is for two trees whose slots are sent as markers. -/
theorem compare_markers {fragment : Fragment} {update : Update} (path : KeyPath) (old new : Slot)
    (h : compare options old new = some update) (hf : fragment ∈ (update.inline path).2)
    (hs : fragment.strategy = .markers) :
    ∃ below statics olds news, fragment.id = (path ++ below).text ∧
      Beside below old new (.tree statics olds) (.tree statics news) ∧
        Marked options statics olds news := by
  have hreplace {slot : Slot} (hm : fragment ∈ ((Update.replace slot).inline path).2) : False := by
    rw [List.mem_singleton.mp hm] at hs
    cases hs
  cases old with
  | tree statics olds =>
    cases compared h with
    | @tree _ _ news differ =>
      by_cases hfit : slotsFit statics olds = true ∧ slotsFit statics news = true
      · rcases Update.ofTree_of_fit options differ hfit.1 hfit.2 with he | ⟨hm, found, he⟩
        · rw [he] at hf
          obtain ⟨i, a, b, below, inner, os, ns, ha, hb, hid, hbeside, hm⟩ :=
            compareSlots_markers path 0 olds news hf hs
          exact ⟨i :: below, inner, os, ns, by rw [hid, Nat.zero_add],
            .step hfit.1 hfit.2 ha hb hbeside, hm⟩
        · rw [he] at hf
          rw [List.mem_singleton.mp hf]
          exact ⟨[], statics, olds, news, by rw [List.append_nil]; rfl, .here, hm⟩
      · rw [Update.ofTree_of_not_fit hfit] at hf
        exact (hreplace hf).elim
    | replace => exact (hreplace hf).elim
  | list statics olds =>
    cases compared h with
    | @list _ _ news =>
      rcases Update.ofList_cases options statics olds news with he | ⟨changes, he⟩ | ⟨changes, he⟩
      · rw [he] at hf
        exact (hreplace hf).elim
      · rw [he] at hf
        cases hf
      · rw [he] at hf
        rw [List.mem_singleton.mp hf] at hs
        cases hs
    | replace => exact (hreplace hf).elim
  | text content =>
    cases compared h with
    | text => cases hf
    | replace => exact (hreplace hf).elim
  | empty =>
    cases compared h with
    | replace => exact (hreplace hf).elim
termination_by structural old

theorem compareSlots_markers {fragment : Fragment} (path : KeyPath) (start : Nat)
    (olds news : List Slot)
    (hf : fragment ∈ (Update.inlineFields path (compareSlots options start olds news)).2)
    (hs : fragment.strategy = .markers) :
    ∃ i old new below statics os ns, olds[i]? = some old ∧ news[i]? = some new ∧
      fragment.id = (path ++ (start + i) :: below).text ∧
        Beside below old new (.tree statics os) (.tree statics ns) ∧
          Marked options statics os ns := by
  cases olds with
  | nil =>
    rw [compareSlots_nil_left] at hf
    cases hf
  | cons first olds =>
    cases news with
    | nil =>
      rw [compareSlots_nil_right] at hf
      cases hf
    | cons second news =>
      obtain ⟨key, update, hm, hf⟩ := Update.mem_inlineFields.mp hf
      rw [compareSlots, List.mem_append, Option.mem_toList, Option.map_eq_some_iff] at hm
      rcases hm with ⟨found, hc, he⟩ | hm
      · cases he
        obtain ⟨below, statics, os, ns, hid, hrest⟩ :=
          compare_markers (path.child start) first second hc hf hs
        rw [KeyPath.child, List.append_assoc] at hid
        exact ⟨0, first, second, below, statics, os, ns, rfl, rfl, hid, hrest⟩
      · obtain ⟨i, old, new, below, statics, os, ns, hold, hnew, hid, hrest⟩ :=
          compareSlots_markers path (start + 1) olds news
            (Update.mem_inlineFields.mpr ⟨key, update, hm, hf⟩) hs
        rw [Nat.add_right_comm] at hid
        exact ⟨i + 1, old, new, below, statics, os, ns, hold, hnew, hid, hrest⟩
termination_by structural olds

end

theorem exists_compare {old new : Slot} (h : old ≠ new) :
    ∃ update, compare options old new = some update := by
  cases hc : compare options old new with
  | none => exact absurd (eq_of_compare_none hc) h
  | some update => exact ⟨update, rfl⟩

/-- A change below a slot of two trees that are compared is a change of that slot. -/
theorem exists_change (options : UpdateOptions) {olds news : List Slot} {key : Nat} {old new : Slot}
    (ho : olds[key]? = some old) (hn : news[key]? = some new) (hne : old ≠ new) :
    ∃ update, (key, update) ∈ compareSlots options 0 olds news ∧
      compare options old new = some update := by
  obtain ⟨update, hc⟩ := exists_compare hne
  exact ⟨update, mem_compareSlots.mpr ⟨key, old, new, (Nat.zero_add key).symm, ho, hn, hc⟩, hc⟩

/-- A change below two trees with as many slots is a change below one of their slots. -/
theorem exists_change_below (options : UpdateOptions) {statics statics' : List String}
    {olds news : List Slot} {key : Nat} {rest : KeyPath} {slot : Slot}
    (hl : olds.length = news.length)
    (hs : nodeAt? (key :: rest) (.tree statics olds) = some slot ∨
      nodeAt? (key :: rest) (.tree statics' news) = some slot)
    (hne : nodeAt? (key :: rest) (.tree statics olds) ≠
      nodeAt? (key :: rest) (.tree statics' news)) :
    ∃ old new update, (key, update) ∈ compareSlots options 0 olds news ∧
      compare options old new = some update ∧
        (nodeAt? rest old = some slot ∨ nodeAt? rest new = some slot) ∧
          nodeAt? rest old ≠ nodeAt? rest new := by
  have hk : key < olds.length := by
    rcases hs with hs | hs
    · obtain ⟨old, ho, -⟩ := Option.bind_eq_some_iff.mp hs
      exact (List.getElem?_eq_some_iff.mp ho).1
    · obtain ⟨new, hn, -⟩ := Option.bind_eq_some_iff.mp hs
      exact hl ▸ (List.getElem?_eq_some_iff.mp hn).1
  have ho := List.getElem?_eq_getElem hk
  have hn := List.getElem?_eq_getElem (hl ▸ hk)
  rw [nodeAt?, nodeAt?, ho, hn, Option.bind_some, Option.bind_some] at hs hne
  obtain ⟨update, hmem, hc⟩ := exists_change options ho hn
    fun he => hne (congrArg _ he)
  exact ⟨_, _, update, hmem, hc, hs, hne⟩

/-- Where two trees would be sent as markers, markers are sent for them or for a node above. -/
theorem reaches_of_marked {statics : List String} {olds news : List Slot} {below : KeyPath}
    {old new : Slot} {update : Update} (path : KeyPath)
    (hb : Beside below old new (.tree statics olds) (.tree statics news))
    (hm : Marked options statics olds news) (h : compare options old new = some update) :
    Reaches .markers (update.inline path).2 path below := by
  induction below generalizing old new update path with
  | nil =>
    cases hb
    obtain ⟨found, he⟩ := Update.ofTree_of_marked hm
    rw [compare_tree options statics hm.differ, he] at h
    cases h
    exact .self []
  | cons key rest ih =>
    cases hb with
    | @step shared os ns _ _ a b _ _ fo fn ho hn next =>
      have hne : a ≠ b := next.ne fun he => hm.differ (Slot.tree.inj he).2
      have hslots : os ≠ ns := by
        rintro rfl
        exact hne (Option.some.inj (ho.symm.trans hn))
      rw [compare_tree options shared hslots] at h
      cases h
      rcases Update.ofTree_of_fit options hslots fo fn with he | ⟨-, found, he⟩
      · rw [he]
        obtain ⟨update, hmem, hc⟩ := exists_change options ho hn hne
        exact (ih (path.child key) next hc).child hmem
      · rw [he]
        exact .self _

/-- A node that differs and does not fit together is reached by a replacement of it or of a node
above, unless markers are sent for a node above. -/
theorem reaches_of_breaks {below : KeyPath} {old new slot : Slot} {update : Update}
    (path : KeyPath) (hs : nodeAt? below old = some slot ∨ nodeAt? below new = some slot)
    (hbreak : slot.levelFits = false) (hne : nodeAt? below old ≠ nodeAt? below new)
    (h : compare options old new = some update) :
    Reaches .replacement (update.inline path).2 path below ∨
      Reaches .markers (update.inline path).2 path below := by
  induction below generalizing old new update path with
  | nil =>
    have hlevel : ¬(old.levelFits = true ∧ new.levelFits = true) := by
      rintro ⟨ho, hn⟩
      rcases hs with hs | hs
      · cases hs
        rw [ho] at hbreak
        cases hbreak
      · cases hs
        rw [hn] at hbreak
        cases hbreak
    cases compared h with
    | text => exact absurd ⟨rfl, rfl⟩ hlevel
    | tree =>
      rw [Update.ofTree_of_not_fit hlevel]
      exact .inl (.self [])
    | list =>
      rw [Update.ofList_of_not_fit hlevel]
      exact .inl (.self [])
    | replace => exact .inl (.self [])
  | cons key rest ih =>
    cases compared h with
    | text => rcases hs with hs | hs <;> cases hs
    | list => rcases hs with hs | hs <;> cases hs
    | replace => exact .inl (.self _)
    | @tree statics os ns differ =>
      by_cases hfit : slotsFit statics os = true ∧ slotsFit statics ns = true
      · rcases Update.ofTree_of_fit options differ hfit.1 hfit.2 with
          he | ⟨-, found, he⟩
        · rw [he]
          have hl := length_eq_of_slotsFit hfit.1 hfit.2
          obtain ⟨a, b, update, hmem, hc, hs, hne⟩ :=
            exists_change_below options hl hs hne
          exact (ih (path.child key) hs hne hc).imp (·.child hmem) (·.child hmem)
        · rw [he]
          exact .inr (.self _)
      · rw [Update.ofTree_of_not_fit hfit]
        exact .inl (.self _)

end Slot

/-! ## Renders -/

theorem RootUpdate.mem_fragments_slots {changes : List (Nat × Update)} {fragment : Fragment}
    (hs : fragment.strategy ≠ .keyed) :
    fragment ∈ (RootUpdate.slots changes).fragments ↔
      fragment ∈ (Update.inlineFields [] changes).2 := by
  rw [fragments, List.mem_flatMap, Update.mem_inlineFields]
  constructor
  · rintro ⟨⟨key, update⟩, hm, hf⟩
    rcases List.mem_append.mp hf with hf | hf
    · obtain ⟨json, -, rfl⟩ := Option.map_eq_some_iff.mp (Option.mem_toList.mp hf)
      exact absurd rfl hs
    · exact ⟨key, update, hm, hf⟩
  · rintro ⟨key, update, hm, hf⟩
    exact ⟨(key, update), hm, List.mem_append_right _ hf⟩

namespace RenderTree

open Slot

variable {options : UpdateOptions} {prev next : RenderTree}

/-- The top levels of two renders have the same texts, and texts and slots fit together. -/
def SameRoot (prev next : RenderTree) : Prop :=
  slotsFit prev.statics prev.slots = true ∧ slotsFit next.statics next.slots = true ∧
    prev.statics = next.statics

theorem SameRoot.length_eq (h : SameRoot prev next) : prev.slots.length = next.slots.length :=
  length_eq_of_slotsFit h.1 (h.2.2 ▸ h.2.1)

theorem sameRoot_of_sound (hp : prev.sound = true) (hn : next.sound = true)
    (hs : prev.statics = next.statics) : SameRoot prev next :=
  ⟨(sound_tree.mp hp).1, (sound_tree.mp hn).1, hs⟩

theorem fragments_of_sameRoot (h : SameRoot prev next) :
    prev.fragments options next =
      (RootUpdate.slots (compareSlots options 0 prev.slots next.slots)).fragments := by
  obtain ⟨fp, fn, hs⟩ := h
  have hp : prev.wellFormed = true := fp
  have hn : next.wellFormed = true := fn
  rw [fragments, compare, if_neg]
  rw [hp, hn, hs, bne_self_eq_false]
  exact Bool.false_ne_true

theorem fragments_of_not_sameRoot (h : ¬SameRoot prev next) :
    prev.fragments options next = [.of "" .replacement next.toJson] := by
  rw [fragments, compare, if_pos]
  · rfl
  · by_contra hn
    simp only [wellFormed, Bool.or_eq_true, Bool.not_eq_true', bne_iff_ne, ne_eq, not_or,
      Bool.not_eq_false, Decidable.not_not] at hn
    exact h ⟨hn.1.1, hn.1.2, hn.2⟩

theorem reaches_slots {strategy : Strategy} (hs : strategy ≠ .keyed) (h : SameRoot prev next)
    {path : KeyPath}
    (hr : Reaches strategy
      (Update.inlineFields [] (compareSlots options 0 prev.slots next.slots)).2 [] path) :
    Reaches strategy (prev.fragments options next) [] path := by
  obtain ⟨fragment, hf, hstrategy, habove⟩ := hr
  refine ⟨fragment, ?_, hstrategy, habove⟩
  rw [fragments_of_sameRoot h]
  exact (RootUpdate.mem_fragments_slots (hstrategy ▸ hs)).mpr hf

/-- Every fragment with markers between two renders is for two trees whose slots are sent as
markers, and not for the root. -/
theorem fragments_markers {fragment : Fragment} (hf : fragment ∈ prev.fragments options next)
    (hs : fragment.strategy = .markers) :
    ∃ (path : KeyPath) (statics : List String) (olds news : List Slot), path ≠ [] ∧
      fragment.id = path.text ∧
        Beside path prev.toSlot next.toSlot (.tree statics olds) (.tree statics news) ∧
          Marked options statics olds news := by
  by_cases h : SameRoot prev next
  · rw [fragments_of_sameRoot h, RootUpdate.mem_fragments_slots (by rw [hs]; decide)] at hf
    obtain ⟨i, a, b, below, statics, olds, news, ha, hb, hid, hbeside, hm⟩ :=
      compareSlots_markers [] 0 prev.slots next.slots hf hs
    rw [List.nil_append, Nat.zero_add] at hid
    have hroot : Beside (i :: below) prev.toSlot next.toSlot (.tree statics olds)
        (.tree statics news) := by
      obtain ⟨fp, fn, he⟩ := h
      rw [toSlot, toSlot, ← he]
      exact .step fp (he ▸ fn) ha hb hbeside
    exact ⟨i :: below, statics, olds, news, List.cons_ne_nil _ _, hid, hroot, hm⟩
  · rw [fragments_of_not_sameRoot h] at hf
    rw [List.mem_singleton.mp hf] at hs
    cases hs

/-- Where two trees below the root would be sent as markers, markers are sent for them or for a node
above. -/
theorem reaches_of_marked {path : KeyPath} {statics : List String} {olds news : List Slot}
    (hp : path ≠ [])
    (hb : Beside path prev.toSlot next.toSlot (.tree statics olds) (.tree statics news))
    (hm : Marked options statics olds news) :
    Reaches .markers (prev.fragments options next) [] path := by
  cases path with
  | nil => exact absurd rfl hp
  | cons key rest =>
    rw [toSlot, toSlot] at hb
    generalize hs : next.statics = shared at hb
    cases hb with
    | @step _ _ _ _ _ a b _ _ fp fn ho hn inner =>
      have hroot : SameRoot prev next := ⟨fp, hs ▸ fn, hs.symm⟩
      obtain ⟨update, hmem, hc⟩ := exists_change options ho hn
        (inner.ne fun he => hm.differ (Slot.tree.inj he).2)
      have hreach := Slot.reaches_of_marked (KeyPath.child [] key) inner hm hc
      have hother : Strategy.markers ≠ .keyed := by decide
      exact reaches_slots hother hroot (hreach.child hmem)

/-- A node of a render that differs and does not fit together is reached by a replacement of it or
of a node above, unless markers are sent for a node above. -/
theorem reaches_of_breaks {path : KeyPath} {slot : Slot}
    (hs : nodeAt? path prev.toSlot = some slot ∨ nodeAt? path next.toSlot = some slot)
    (hbreak : slot.levelFits = false)
    (hne : nodeAt? path prev.toSlot ≠ nodeAt? path next.toSlot) :
    Reaches .replacement (prev.fragments options next) [] path ∨
      Reaches .markers (prev.fragments options next) [] path := by
  by_cases hroot : SameRoot prev next
  · obtain ⟨fp, fn, he⟩ := hroot
    cases path with
    | nil =>
      -- The root fits together on both sides.
      rcases hs with hs | hs
      · cases hs
        rw [show prev.toSlot.levelFits = true from fp] at hbreak
        cases hbreak
      · cases hs
        rw [show next.toSlot.levelFits = true from fn] at hbreak
        cases hbreak
    | cons key rest =>
      have hl := length_eq_of_slotsFit fp (he ▸ fn)
      obtain ⟨old, new, update, hmem, hc, hs, hne⟩ :=
        exists_change_below options hl hs hne
      have hreach := Slot.reaches_of_breaks (KeyPath.child [] key) hs hbreak hne hc
      have hreplace : Strategy.replacement ≠ .keyed := by decide
      have hmarkers : Strategy.markers ≠ .keyed := by decide
      exact hreach.imp (fun h => reaches_slots hreplace ⟨fp, fn, he⟩ (h.child hmem))
        fun h => reaches_slots hmarkers ⟨fp, fn, he⟩ (h.child hmem)
  · rw [fragments_of_not_sameRoot hroot]
    have hself : Reaches .replacement [.of (KeyPath.text []) .replacement next.toJson] [] path :=
      .self path
    exact .inl hself

/-! ## When markers stay within what fits together -/

/-- Every fragment with markers is for a node that is sound in both renders. -/
def MarkersSound (options : UpdateOptions) (prev next : RenderTree) : Prop :=
  ∀ fragment ∈ prev.fragments options next, fragment.strategy = .markers →
    ∃ (path : KeyPath) (old new : Slot), fragment.id = path.text ∧
      nodeAt? path prev.toSlot = some old ∧ nodeAt? path next.toSlot = some new ∧
        old.sound = true ∧ new.sound = true

/-- Every node of one of the renders in which texts and slots do not fit together, and which is not
the same in both, is replaced, or a node above it is. -/
def BreaksReplaced (options : UpdateOptions) (prev next : RenderTree) : Prop :=
  ∀ (path : KeyPath) (slot : Slot),
    nodeAt? path prev.toSlot = some slot ∨ nodeAt? path next.toSlot = some slot →
      slot.levelFits = false → nodeAt? path prev.toSlot ≠ nodeAt? path next.toSlot →
        Reaches .replacement (prev.fragments options next) [] path

/-- Below a node with markers everything is sound. -/
theorem MarkersSound.below (h : MarkersSound options prev next) {path : KeyPath}
    (hr : Reaches .markers (prev.fragments options next) [] path) {slot : Slot}
    (hs : nodeAt? path prev.toSlot = some slot ∨ nodeAt? path next.toSlot = some slot) :
    slot.sound = true := by
  obtain ⟨fragment, hf, hstrategy, above, ⟨rest, rfl⟩, hid⟩ := hr
  obtain ⟨found, old, new, hfound, hold, hnew, hsound⟩ := h fragment hf hstrategy
  rw [List.nil_append, hfound, KeyPath.text_inj] at hid
  subst hid
  rw [nodeAt?_append, nodeAt?_append, hold, hnew] at hs
  exact hs.elim (sound_of_nodeAt? hsound.1) (sound_of_nodeAt? hsound.2)

/-- Markers are sent for sound nodes only, and what does not fit together is replaced, if and only
if there are no two trees at one path below the root whose slots are sent as markers and hold
something that is not sound. -/
theorem markers_sound_iff (options : UpdateOptions) (prev next : RenderTree) :
    MarkersSound options prev next ∧ BreaksReplaced options prev next ↔
      ¬∃ (path : KeyPath) (statics : List String) (olds news : List Slot), path ≠ [] ∧
        Beside path prev.toSlot next.toSlot (.tree statics olds) (.tree statics news) ∧
          Marked options statics olds news ∧ soundSlots news = false := by
  constructor
  · rintro ⟨hmarkers, -⟩ ⟨path, statics, olds, news, hp, hb, hm, hbroken⟩
    have hsound := hmarkers.below (reaches_of_marked hp hb hm) (.inr hb.nodeAt?_new)
    rw [(sound_tree.mp hsound).2] at hbroken
    cases hbroken
  · intro hnone
    have hmarkers : MarkersSound options prev next := by
      intro fragment hf hs
      obtain ⟨path, statics, olds, news, hp, hid, hb, hm⟩ := fragments_markers hf hs
      have hslots : soundSlots news = true := by
        by_contra hn
        exact hnone ⟨path, statics, olds, news, hp, hb, hm, Bool.not_eq_true _ ▸ hn⟩
      exact ⟨path, _, _, hid, hb.nodeAt?_old, hb.nodeAt?_new,
        sound_tree.mpr ⟨hm.old_fits, hm.soundSlots_eq.trans hslots⟩,
        sound_tree.mpr ⟨hm.new_fits, hslots⟩⟩
    refine ⟨hmarkers, fun path slot hs hbreak hne => ?_⟩
    rcases reaches_of_breaks hs hbreak hne with hr | hr
    · exact hr
    · rw [levelFits_of_sound (hmarkers.below hr hs)] at hbreak
      cases hbreak

/-- Two renders have, inside a tree, a tree with one text and one slot. The text in that slot
changes and is sent as the first text of the outer tree. A client does not have this text, since it
has read no slot for a tree with one text, and rejects the fragment. -/
theorem markers_across_break :
    let prev : RenderTree := ⟨["", ""], [.tree ["", ""] [.tree ["a"] [.text "x"]]]⟩
    let next : RenderTree := ⟨["", ""], [.tree ["", ""] [.tree ["a"] [.text "y"]]]⟩
    prev.fragments {} next = [.of "0" .markers (.array [.array [.integer 0, .text "y"]])] ∧
      nodeAt? [0] prev.toSlot = some (.tree ["", ""] [.tree ["a"] [.text "x"]]) ∧
      nodeAt? [0, 0] prev.toSlot = some (.tree ["a"] [.text "x"]) ∧
      (Slot.tree ["a"] [.text "x"]).levelFits = false ∧
      ¬MarkersSound {} prev next ∧
      ∃ client, Client.ofJson prev.toJson = .ok client ∧
        (client.applyAll (prev.fragments {} next)).2.isSome := by
  intro prev next
  have hsent : prev.fragments {} next =
      [.of "0" .markers (.array [.array [.integer 0, .text "y"]])] := by
    rfl
  refine ⟨hsent, rfl, rfl, rfl, fun hsound => ?_,
    ⟨.tree ["", ""] [.tree ["", ""] [.tree ["a"] []]]⟩, rfl, rfl⟩
  obtain ⟨path, old, new, hid, hold, -, hs, -⟩ :=
    hsound _ (hsent ▸ List.mem_singleton_self _) rfl
  have hzero : KeyPath.text [0] = path.text := hid
  rw [KeyPath.text_inj] at hzero
  subst hzero
  cases hold
  cases hs

end RenderTree

end LiveTemplate
