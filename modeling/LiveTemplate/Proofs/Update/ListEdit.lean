import LiveTemplate.Update.ListEdit
import Mathlib.Data.List.InsertIdx
import Mathlib.Data.List.Perm.Subperm

/-!
# Edits that turn one list into another

`ListEdit.applyAll?` makes edits in order, each one within the bounds of the list as it stands. The
edits between two lists always exist and turn the first one into the second (`between?_applyAll?`).

* `removals_applyAll?`: the removals leave the old items that have a partner.
* `between?_eq_placements`: the working list holds the positions below the index that is reached,
  and behind them those that are still to come. What it gives is `placements`, a recursion on the
  latter.
* `placements_applyAll?`: while the new list is built, the items that are in place come first, and
  after them stand the kept items that are not in place yet, in the order of `pending`.
-/

namespace LiveTemplate

namespace ListEdit

variable {α : Type}

/-- The list after edits in order, none if a position of one of them does not exist. -/
def applyAll? (items : List α) : List (ListEdit α) → Option (List α)
  | [] => some items
  | edit :: rest =>
    if edit.inBounds items.length then applyAll? (apply items edit) rest else none

/-- Whether the positions of an edit lie below a limit and its item is one of those given. -/
def drawn (limit : Nat) (items : List α) : ListEdit α → Prop
  | .insert index item => index < limit ∧ item ∈ items
  | .remove index => index < limit
  | .move source target => source < limit ∧ target < limit

theorem drawn.mono {limit limit' : Nat} {items : List α} {edit : ListEdit α}
    (h : edit.drawn limit items) (hle : limit ≤ limit') : edit.drawn limit' items := by
  cases edit with
  | insert index item => exact ⟨Nat.lt_of_lt_of_le h.1 hle, h.2⟩
  | remove index => exact Nat.lt_of_lt_of_le h hle
  | move source target => exact ⟨Nat.lt_of_lt_of_le h.1 hle, Nat.lt_of_lt_of_le h.2 hle⟩

theorem applyAll?_cons (items : List α) (edit : ListEdit α) (rest : List (ListEdit α)) :
    applyAll? items (edit :: rest) =
      (applyOne? items edit).bind fun items => applyAll? items rest := by
  rw [applyAll?, applyOne?]
  split <;> rfl

theorem applyAll?_append (items : List α) (first second : List (ListEdit α)) :
    applyAll? items (first ++ second) =
      (applyAll? items first).bind fun items => applyAll? items second := by
  induction first generalizing items with
  | nil => rfl
  | cons edit rest ih =>
    rw [List.cons_append, applyAll?_cons, applyAll?_cons, Option.bind_assoc]
    exact congrArg _ (funext ih)

/-! ## One edit behind a known piece of the list -/

theorem apply_insert_at (before after : List α) (item : α) :
    apply (before ++ after) (.insert before.length item) = before ++ item :: after := by
  induction before with
  | nil => rfl
  | cons first rest ih =>
    rw [apply] at ih ⊢
    rw [List.cons_append, List.length_cons, List.insertIdx_succ_cons, ih, List.cons_append]

theorem applyOne?_insert_at (before after : List α) (item : α) :
    applyOne? (before ++ after) (.insert before.length item) = some (before ++ item :: after) := by
  have hb : inBounds (before ++ after).length (insert before.length item) = true := by
    simp [inBounds]
  rw [applyOne?, if_pos hb, apply_insert_at]

theorem apply_remove_at (before after : List α) (item : α) :
    apply (before ++ item :: after) (.remove before.length) = before ++ after := by
  rw [apply, List.eraseIdx_append_of_length_le (Nat.le_refl _), Nat.sub_self]
  rfl

theorem applyOne?_remove_at (before after : List α) (item : α) :
    applyOne? (before ++ item :: after) (.remove before.length) = some (before ++ after) := by
  have hb : inBounds (before ++ item :: after).length
      (remove before.length : ListEdit α) = true := by
    simp [inBounds]
  rw [applyOne?, if_pos hb, apply_remove_at]

theorem apply_move_to (before after : List α) {offset : Nat} {item : α}
    (h : after[offset]? = some item) :
    apply (before ++ after) (.move (before.length + offset) before.length) =
      before ++ item :: after.eraseIdx offset := by
  have hget : (before ++ after)[before.length + offset]? = some item := by
    rw [List.getElem?_append_right (by omega), Nat.add_sub_cancel_left, h]
  have hins := apply_insert_at before (after.eraseIdx offset) item
  simp only [apply, hget]
  rw [List.eraseIdx_append_of_length_le (by omega), Nat.add_sub_cancel_left]
  exact hins

theorem applyOne?_move_to (before after : List α) {offset : Nat} {item : α}
    (h : after[offset]? = some item) :
    applyOne? (before ++ after) (.move (before.length + offset) before.length) =
      some (before ++ item :: after.eraseIdx offset) := by
  have hlt := (List.getElem?_eq_some_iff.mp h).1
  have hb : inBounds (before ++ after).length
      (move (before.length + offset) before.length : ListEdit α) = true := by
    simp [inBounds]
    omega
  rw [applyOne?, if_pos hb, apply_move_to before after h]

/-! ## Partners -/

/-- The items that have a new position. -/
def keptItems : List α → List (Option Nat) → List α
  | item :: rest, some _ :: targets => item :: keptItems rest targets
  | _ :: rest, none :: targets => keptItems rest targets
  | _, _ => []

section Matching

variable [DecidableEq α]

theorem length_matchItems (free : List (α × Nat)) (old : List α) :
    (matchItems free old).length = old.length := by
  induction old generalizing free with
  | nil => rfl
  | cons item rest ih =>
    unfold matchItems
    split <;> rw [List.length_cons, List.length_cons, ih]

theorem mem_of_mem_matchItems {free : List (α × Nat)} {old : List α} {index : Nat}
    (h : index ∈ (matchItems free old).filterMap id) : index ∈ free.map Prod.snd := by
  induction old generalizing free with
  | nil => cases h
  | cons item rest ih =>
    unfold matchItems at h
    split at h
    · rename_i found target hfind
      simp only [List.filterMap_cons, id_eq, List.mem_cons] at h
      rcases h with rfl | h
      · exact List.mem_map_of_mem (List.mem_of_find?_eq_some hfind)
      · exact List.map_subset _ List.eraseP_subset (ih h)
    · exact ih h

/-- Taking the first pair that fits leaves no other pair of the same position. -/
theorem not_mem_eraseP {free : List (α × Nat)} {item : α} {pair : α × Nat}
    (hn : (free.map Prod.snd).Nodup) (h : free.find? (·.1 == item) = some pair) :
    pair.2 ∉ (free.eraseP (·.1 == item)).map Prod.snd := by
  induction free with
  | nil => cases h
  | cons first rest ih =>
    rw [List.map_cons, List.nodup_cons] at hn
    by_cases hf : (first.1 == item) = true
    · simp only [List.find?_cons, hf] at h
      simp only [List.eraseP_cons, hf, cond_true]
      cases h
      exact hn.1
    · rw [Bool.not_eq_true] at hf
      simp only [List.find?_cons, hf] at h
      simp only [List.eraseP_cons, hf, cond_false, List.map_cons, List.mem_cons, not_or]
      refine ⟨fun he => hn.1 ?_, ih hn.2 h⟩
      rw [← he]
      exact List.mem_map_of_mem (List.mem_of_find?_eq_some h)

/-- No new item is taken twice. -/
theorem nodup_matchItems {free : List (α × Nat)} (old : List α)
    (hn : (free.map Prod.snd).Nodup) : ((matchItems free old).filterMap id).Nodup := by
  induction old generalizing free with
  | nil => exact List.nodup_nil
  | cons item rest ih =>
    unfold matchItems
    split
    · rename_i found target hfind
      simp only [List.filterMap_cons, id_eq, List.nodup_cons]
      exact ⟨fun h => not_mem_eraseP hn hfind (mem_of_mem_matchItems h),
        ih (hn.sublist (List.eraseP_sublist.map _))⟩
    · exact ih hn

/-- An item with a partner equals it. -/
theorem matchItems_getElem? {free : List (α × Nat)} {new : List α} (old : List α)
    (h : ∀ pair ∈ free, new[pair.2]? = some pair.1) :
    ((matchItems free old).filterMap id).map (new[·]?) =
      (keptItems old (matchItems free old)).map some := by
  induction old generalizing free with
  | nil => rfl
  | cons item rest ih =>
    unfold matchItems
    split
    · rename_i found target hfind
      have hitem : found = item := eq_of_beq (List.find?_some hfind :)
      have hnew := h _ (List.mem_of_find?_eq_some hfind)
      simp only [List.filterMap_cons, id_eq, keptItems, List.map_cons, hnew, hitem]
      exact congrArg _ (ih fun pair hp => h pair (List.eraseP_subset hp))
    · exact ih h

end Matching

/-! ## Removals -/

theorem removals_applyAll? (before old : List α) (targets : List (Option Nat))
    (h : targets.length = old.length) :
    applyAll? (before ++ old) (removals before.length targets) =
      some (before ++ keptItems old targets) := by
  induction targets generalizing before old with
  | nil =>
    rw [List.eq_nil_of_length_eq_zero h.symm]
    rfl
  | cons target targets ih =>
    cases old with
    | nil => cases h
    | cons item rest =>
      -- The later items go first, so that the position of this one still holds.
      have hrest := ih (before ++ [item]) rest (Nat.succ.inj h)
      rw [List.length_append, List.length_singleton, List.append_assoc, List.append_assoc] at hrest
      rw [removals, applyAll?_append]
      simp only [List.singleton_append] at hrest
      rw [hrest]
      cases target with
      | some index => rfl
      | none =>
        simp only [Option.isNone_none, if_true, Option.bind_some, applyAll?_cons,
          applyOne?_remove_at]
        rfl

theorem removals_drawn {index limit : Nat} {targets : List (Option Nat)} (items : List α)
    (h : index + targets.length ≤ limit) :
    ∀ edit ∈ removals index targets, edit.drawn limit items := by
  induction targets generalizing index with
  | nil => intro edit he; cases he
  | cons target targets ih =>
    intro edit he
    rw [List.length_cons] at h
    rw [removals, List.mem_append] at he
    rcases he with he | he
    · exact ih (by omega) edit he
    · split at he
      · rw [List.mem_singleton.mp he]
        show index < limit
        omega
      · cases he

/-! ## Placements -/

/-- The moves and insertions that build the new items from an index on. `kept` are the new positions
of all items that are kept, `pending` of those that are not in place yet, in the order in which they
stand after the items in place. -/
def placements (kept : List Nat) (index : Nat) (pending : List Nat) :
    List α → Option (List (ListEdit α))
  | [] => if pending.isEmpty then some [] else none
  | item :: rest =>
    if index ∈ kept then do
      let offset ← pending.idxOf? index
      let edits ← placements kept (index + 1) (pending.eraseIdx offset) rest
      some (if offset = 0 then edits else .move (index + offset) index :: edits)
    else do
      let edits ← placements kept (index + 1) pending rest
      some (.insert index item :: edits)

theorem settled_range_append (index : Nat) (pending : List Nat) :
    settled index (List.range index ++ pending) = pending.isEmpty := by
  cases pending with
  | nil =>
    have hplaces : ∀ entry ∈ (List.range index).zipIdx, entry.2 = entry.1 := by
      rintro ⟨target, position⟩ hm
      obtain ⟨-, -, ht⟩ := List.mem_zipIdx hm
      simpa using ht.symm
    simpa [settled] using fun target position hm => hplaces (target, position) hm
  | cons next rest => simp [settled]

/-- What is not in front is found behind. -/
theorem idxOf?_append_of_notMem {before : List Nat} {index : Nat} (h : index ∉ before)
    (after : List Nat) :
    (before ++ after).idxOf? index = (after.idxOf? index).map (before.length + ·) := by
  induction before with
  | nil => simp
  | cons first rest ih =>
    rw [List.mem_cons, not_or] at h
    obtain ⟨hne, hrest⟩ := h
    have hfirst : (first == index) = false := beq_false_of_ne (Ne.symm hne)
    rw [List.cons_append, List.idxOf?_cons, hfirst, ih hrest, List.length_cons]
    simp [Function.comp_def, Nat.add_right_comm]

/-- One round brings the next item into place: the working list begins with the positions below its
index, and those of the kept items to come stand behind them. -/
theorem place_eq (kept pending : List Nat) (item : α) (index : Nat) (edits : List (ListEdit α)) :
    place kept (List.range index ++ pending, edits) (item, index) =
      if index ∈ kept then
        (pending.idxOf? index).map fun offset =>
          (List.range (index + 1) ++ pending.eraseIdx offset,
            edits ++ if offset = 0 then [] else [.move (index + offset) index])
      else some (List.range (index + 1) ++ pending, edits ++ [.insert index item]) := by
  have hlength : (List.range index).length = index := List.length_range
  have hnext (others : List Nat) : List.range index ++ index :: others =
      List.range (index + 1) ++ others := by
    rw [List.range_succ, List.append_assoc]
    rfl
  rw [place]
  by_cases hk : index ∈ kept
  · rw [if_pos hk, if_pos hk, idxOf?_append_of_notMem (by simp), hlength]
    cases ho : pending.idxOf? index with
    | none => rfl
    | some offset =>
      obtain ⟨hb, he, -⟩ := List.idxOf?_eq_some_iff.mp ho
      have hfound : pending[offset]? = some index := by rw [List.getElem?_eq_getElem hb, he]
      rw [Option.map_some, Option.map_some]
      by_cases h0 : offset = 0
      · -- The item is in place already.
        subst h0
        cases pending with
        | nil => cases hfound
        | cons first rest =>
          cases hfound
          simp [hnext]
      · have hmove := applyOne?_move_to (List.range index) pending hfound
        rw [hlength, hnext] at hmove
        simp [h0, hmove]
  · have hinsert := applyOne?_insert_at (List.range index) pending index
    rw [hlength, hnext] at hinsert
    simp [hk, hinsert]

/-- The rounds from an index on give the placements of what is still to come. -/
theorem foldlM_place (kept : List Nat) (index : Nat) (pending : List Nat)
    (edits : List (ListEdit α)) (items : List α) :
    ((items.zipIdx index).foldlM (place kept) (List.range index ++ pending, edits) >>=
        fun state =>
          if settled (index + items.length) state.1 then some state.2 else none) =
      (placements kept index pending items).map (edits ++ ·) := by
  induction items generalizing index pending edits with
  | nil =>
    rw [List.zipIdx_nil, List.foldlM_nil, pure_bind, List.length_nil, Nat.add_zero,
      settled_range_append, placements]
    split <;> simp
  | cons item rest ih =>
    have hlength : index + (item :: rest).length = index + 1 + rest.length := by
      rw [List.length_cons]
      omega
    rw [List.zipIdx_cons, List.foldlM_cons, hlength, place_eq, placements, bind_assoc]
    by_cases hk : index ∈ kept
    · rw [if_pos hk, if_pos hk]
      cases pending.idxOf? index with
      | none => rfl
      | some offset =>
        refine (ih (index + 1) (pending.eraseIdx offset) _).trans ?_
        cases hp : placements kept (index + 1) (pending.eraseIdx offset) rest with
        | none => simp [hp]
        | some others =>
          simp only [Option.bind_eq_bind, Option.bind_some, Option.map_some, hp]
          split <;> simp
    · rw [if_neg hk, if_neg hk]
      refine (ih (index + 1) pending _).trans ?_
      cases placements kept (index + 1) pending rest with
      | none => rfl
      | some others => simp

/-- The edits between two lists are the removals and then the placements. -/
theorem between?_eq_placements [DecidableEq α] (old new : List α) :
    between? old new =
      (placements ((matchItems new.zipIdx old).filterMap id) 0
        ((matchItems new.zipIdx old).filterMap id) new).map
          (removals 0 (matchItems new.zipIdx old) ++ ·) := by
  have h := foldlM_place ((matchItems new.zipIdx old).filterMap id) 0
    ((matchItems new.zipIdx old).filterMap id) (removals 0 (matchItems new.zipIdx old)) new
  rw [Nat.zero_add] at h
  exact h

/-- What stands after the items in place: the kept items that are still to come. -/
structure Pending (new : List α) (kept : List Nat) (index : Nat) (pending : List Nat)
    (waiting : List α) : Prop where
  items : pending.map (new[·]?) = waiting.map some
  nodup : pending.Nodup
  mem : ∀ j, j ∈ pending ↔ j ∈ kept ∧ index ≤ j

namespace Pending

variable {new : List α} {kept pending : List Nat} {index : Nat} {waiting : List α}

theorem length_eq (h : Pending new kept index pending waiting) :
    pending.length = waiting.length := by
  have := congrArg List.length h.items
  rwa [List.length_map, List.length_map] at this

theorem lt_length (h : Pending new kept index pending waiting) {j : Nat} (hj : j ∈ pending) :
    j < new.length := by
  have hm : new[j]? ∈ waiting.map some := h.items ▸ List.mem_map_of_mem hj
  obtain ⟨item, -, hi⟩ := List.mem_map.mp hm
  exact (List.getElem?_eq_some_iff.mp hi.symm).1

/-- There are no more items to come than places. -/
theorem length_le (h : Pending new kept index pending waiting) (hi : index ≤ new.length) :
    index + waiting.length ≤ new.length := by
  have hsub : pending ⊆ List.range' index (new.length - index) := fun j hj => by
    have := h.lt_length hj
    have := ((h.mem j).mp hj).2
    rw [List.mem_range'_1]
    omega
  have := (List.subperm_of_subset h.nodup hsub).length_le
  rw [List.length_range', h.length_eq] at this
  omega

/-- The item of the next place is at the position of its index. -/
theorem getElem? (h : Pending new kept index pending waiting) {offset : Nat} {item : α}
    (ho : pending[offset]? = some index) (hn : new[index]? = some item) :
    waiting[offset]? = some item := by
  have := congrArg (·[offset]?) h.items
  simp only [List.getElem?_map, ho, Option.map_some, hn] at this
  cases hw : waiting[offset]? with
  | none => rw [hw] at this; cases this
  | some found => rw [hw] at this; cases this; rfl

theorem place (h : Pending new kept index pending waiting) {offset : Nat}
    (ho : pending[offset]? = some index) :
    Pending new kept (index + 1) (pending.eraseIdx offset) (waiting.eraseIdx offset) where
  items := by rw [← List.eraseIdx_map, h.items, List.eraseIdx_map]
  nodup := h.nodup.eraseIdx offset
  mem j := by
    rw [List.mem_eraseIdx_iff_getElem?]
    constructor
    · rintro ⟨i, hne, hi⟩
      have hj := (h.mem j).mp (List.mem_of_getElem? hi)
      refine ⟨hj.1, Nat.lt_of_le_of_ne hj.2 fun he => hne ?_⟩
      subst he
      exact (List.getElem?_inj (List.getElem?_eq_some_iff.mp hi).1 h.nodup).mp (hi.trans ho.symm)
    · rintro ⟨hk, hj⟩
      obtain ⟨i, hi⟩ := List.getElem?_of_mem ((h.mem j).mpr ⟨hk, by omega⟩)
      refine ⟨i, fun he => ?_, hi⟩
      rw [he, ho] at hi
      cases hi
      omega

theorem skip (h : Pending new kept index pending waiting) (hk : index ∉ kept) :
    Pending new kept (index + 1) pending waiting where
  items := h.items
  nodup := h.nodup
  mem j := by
    rw [h.mem]
    constructor
    · rintro ⟨hj, hle⟩
      exact ⟨hj, Nat.lt_of_le_of_ne hle fun he => hk (he ▸ hj)⟩
    · rintro ⟨hj, hle⟩
      exact ⟨hj, by omega⟩

end Pending

theorem placements_applyAll? (new : List α) (kept : List Nat) (placed rest waiting : List α)
    (pending : List Nat) (hnew : new = placed ++ rest)
    (h : Pending new kept placed.length pending waiting) :
    ∃ edits, placements kept placed.length pending rest = some edits ∧
      applyAll? (placed ++ waiting) edits = some new ∧
        ∀ edit ∈ edits, edit.drawn new.length new := by
  induction rest generalizing placed waiting pending with
  | nil =>
    rw [List.append_nil] at hnew
    have hle := h.length_le (hnew ▸ Nat.le_refl _)
    have hw : waiting = [] := List.eq_nil_of_length_eq_zero (by rw [hnew] at hle; omega)
    have hp : pending = [] := List.eq_nil_of_length_eq_zero (by rw [h.length_eq, hw]; rfl)
    exact ⟨[], by rw [placements, hp]; rfl, by rw [hw, List.append_nil, hnew]; rfl,
      fun edit he => nomatch he⟩
  | cons item rest ih =>
    have hsucc : (placed ++ [item]).length = placed.length + 1 := by simp
    have hget : new[placed.length]? = some item := by rw [hnew]; simp
    have hlt : placed.length < new.length := (List.getElem?_eq_some_iff.mp hget).1
    have hnew' : new = (placed ++ [item]) ++ rest := by rw [hnew]; simp
    have hle := h.length_le (Nat.le_of_lt hlt)
    by_cases hk : placed.length ∈ kept
    · obtain ⟨offset, hfind⟩ : ∃ offset, pending.idxOf? placed.length = some offset :=
        Option.isSome_iff_exists.mp
          (List.isSome_idxOf?.mpr ((h.mem _).mpr ⟨hk, Nat.le_refl _⟩))
      have ho : pending[offset]? = some placed.length := by
        obtain ⟨hb, he, -⟩ := List.idxOf?_eq_some_iff.mp hfind
        rw [List.getElem?_eq_getElem hb, he]
      have hitem := h.getElem? ho hget
      have hoff := (List.getElem?_eq_some_iff.mp hitem).1
      obtain ⟨edits, hplace, happly, hdrawn⟩ := ih (placed ++ [item]) (waiting.eraseIdx offset)
        (pending.eraseIdx offset) hnew' (hsucc ▸ h.place ho)
      rw [hsucc] at hplace
      rw [List.append_assoc, List.singleton_append] at happly
      rw [placements, if_pos hk, hfind]
      simp only [bind, Option.bind, hplace]
      by_cases h0 : offset = 0
      · -- The item is in place already.
        subst h0
        refine ⟨edits, by rw [if_pos rfl], ?_, hdrawn⟩
        cases waiting with
        | nil => cases hitem
        | cons first others => cases hitem; exact happly
      · refine ⟨_, by rw [if_neg h0], ?_, ?_⟩
        · rw [applyAll?_cons, applyOne?_move_to placed waiting hitem]
          exact happly
        · intro edit he
          rcases List.mem_cons.mp he with rfl | he
          · exact ⟨by omega, hlt⟩
          · exact hdrawn edit he
    · obtain ⟨edits, hplace, happly, hdrawn⟩ := ih (placed ++ [item]) waiting pending hnew'
        (hsucc ▸ h.skip hk)
      rw [hsucc] at hplace
      rw [List.append_assoc, List.singleton_append] at happly
      rw [placements, if_neg hk]
      simp only [bind, Option.bind, hplace]
      refine ⟨_, rfl, ?_, ?_⟩
      · rw [applyAll?_cons, applyOne?_insert_at]
        exact happly
      · intro edit he
        rcases List.mem_cons.mp he with rfl | he
        · exact ⟨hlt, hnew ▸ by simp⟩
        · exact hdrawn edit he

/-! ## Both phases -/

variable [DecidableEq α]

/-- The edits between two lists exist and turn the first list into the second one. Their positions
stay below the longer length, and they insert new items only. -/
theorem between?_applyAll? (old new : List α) :
    ∃ edits, between? old new = some edits ∧ applyAll? old edits = some new ∧
      ∀ edit ∈ edits, edit.drawn (max old.length new.length) new := by
  have hn : (new.zipIdx.map Prod.snd).Nodup := by
    rw [List.zipIdx_map_snd]
    exact List.nodup_range'
  have hfree : ∀ pair ∈ new.zipIdx, new[pair.2]? = some pair.1 := fun pair hp =>
    List.mem_zipIdx_iff_getElem?.mp hp
  have hlen := length_matchItems new.zipIdx old
  have hremove := removals_applyAll? [] old (matchItems new.zipIdx old) hlen
  obtain ⟨placed, hplace, happly, hdrawn⟩ := placements_applyAll? new
    ((matchItems new.zipIdx old).filterMap id) [] new
    (keptItems old (matchItems new.zipIdx old)) ((matchItems new.zipIdx old).filterMap id) rfl
    ⟨matchItems_getElem? old hfree, nodup_matchItems old hn,
      fun j => ⟨fun h => ⟨h, Nat.zero_le j⟩, And.left⟩⟩
  refine ⟨removals 0 (matchItems new.zipIdx old) ++ placed, ?_, ?_, ?_⟩
  · rw [List.length_nil] at hplace
    rw [between?_eq_placements, hplace]
    rfl
  · rw [List.length_nil, List.nil_append] at hremove
    rw [applyAll?_append, hremove]
    exact happly
  · intro edit he
    rcases List.mem_append.mp he with he | he
    · exact removals_drawn new (by omega) edit he
    · exact (hdrawn edit he).mono (Nat.le_max_right _ _)

end ListEdit

end LiveTemplate
