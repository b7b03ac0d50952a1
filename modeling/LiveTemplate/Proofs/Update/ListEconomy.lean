import LiveTemplate.Proofs.Update.ListEdit
import Mathlib.Data.Multiset.UnionInter

/-!
# How few edits turn one list into another

The edits between two lists leave alone what both lists share. Every item that is shared is kept,
every other old item is removed, every other new item is inserted, and a kept item is moved at most
once (`ListEdit.between_economical`).

* `keptItems_matchItems`: the old items with a partner are those that both lists share, each as
  often as in the list that has it less often.
* `Placed`: the ways in which the new items get their places, one constructor for each of them. What
  holds of all placements is an induction on it.
* `moved`: what edits move. Items that look the same are told apart by labels, which go through the
  edits in place of the items (`movedFrom`).
-/

namespace LiveTemplate

namespace ListEdit

variable {α β : Type}

/-! ## Kinds of edits -/

/-- Whether an edit removes an item. -/
def isRemoval : ListEdit α → Bool
  | .remove _ => true
  | _ => false

/-- Whether an edit moves an item. -/
def isMove : ListEdit α → Bool
  | .move _ _ => true
  | _ => false

/-- The item that an edit inserts, if it inserts one. -/
def inserted? : ListEdit α → Option α
  | .insert _ item => some item
  | _ => none

/-- The same edit of a list of other items, with the item that is inserted given. -/
def withItem (item : β) : ListEdit α → ListEdit β
  | .insert index _ => .insert index item
  | .remove index => .remove index
  | .move source target => .move source target

/-- What edits in order move: for each move the item at its source when it is made. -/
def moved (items : List α) : List (ListEdit α) → List α
  | [] => []
  | .move source target :: rest =>
    items[source]?.toList ++ moved (apply items (.move source target)) rest
  | edit :: rest => moved (apply items edit) rest

/-- What edits of a list of so many items move: an old item by its index in the old list, and none
for an item that was inserted. -/
def movedFrom (count : Nat) (edits : List (ListEdit α)) : List (Option Nat) :=
  moved ((List.range count).map some) (edits.map (withItem none))

theorem moved_append {items after : List α} {first : List (ListEdit α)}
    (h : applyAll? items first = some after) (second : List (ListEdit α)) :
    moved items (first ++ second) = moved items first ++ moved after second := by
  induction first generalizing items with
  | nil =>
    cases h
    rfl
  | cons edit rest ih =>
    rw [applyAll?] at h
    split at h
    · have hrest := ih h
      cases edit <;> simp [moved, hrest]
    · cases h

/-! ## Removals -/

theorem isRemoval_of_mem_removals {index : Nat} {targets : List (Option Nat)} {edit : ListEdit α}
    (h : edit ∈ removals index targets) : edit.isRemoval = true := by
  induction targets generalizing index with
  | nil => cases h
  | cons target rest ih =>
    rw [removals, List.mem_append] at h
    rcases h with h | h
    · exact ih h
    · split at h
      · rw [List.mem_singleton.mp h]
        rfl
      · cases h

theorem moved_removals (items : List α) {edits : List (ListEdit α)}
    (h : ∀ edit ∈ edits, edit.isRemoval = true) : moved items edits = [] := by
  induction edits generalizing items with
  | nil => rfl
  | cons edit rest ih =>
    obtain ⟨hedit, hrest⟩ := List.forall_mem_cons.mp h
    cases edit with
    | remove index => exact ih (apply items (.remove index)) hrest
    | insert index item => cases hedit
    | move source target => cases hedit

theorem map_withItem_removals (item : β) (index : Nat) (targets : List (Option Nat)) :
    (removals index targets : List (ListEdit α)).map (withItem item) = removals index targets := by
  induction targets generalizing index with
  | nil => rfl
  | cons target rest ih =>
    rw [removals, removals, List.map_append, ih]
    split <;> rfl

/-- Every old item is removed or kept. -/
theorem length_removals (index : Nat) (targets : List (Option Nat)) :
    (removals index targets : List (ListEdit α)).length + (targets.filterMap id).length =
      targets.length := by
  induction targets generalizing index with
  | nil => rfl
  | cons target rest ih =>
    have hrest := ih (index + 1)
    cases target with
    | none =>
      rw [removals, Option.isNone_none, if_pos rfl, List.length_append, List.length_singleton]
      change _ + 1 + (rest.filterMap id).length = rest.length + 1
      omega
    | some index =>
      rw [removals, Option.isNone_some, if_neg Bool.false_ne_true, List.append_nil]
      change _ + ((rest.filterMap id).length + 1) = rest.length + 1
      omega

theorem length_keptItems {old : List α} {targets : List (Option Nat)}
    (h : targets.length = old.length) :
    (keptItems old targets).length = (targets.filterMap id).length := by
  induction targets generalizing old with
  | nil =>
    rw [List.eq_nil_of_length_eq_zero h.symm]
    rfl
  | cons target rest ih =>
    cases old with
    | nil => cases h
    | cons item old =>
      have hrest := ih (Nat.succ.inj h)
      cases target <;> simp [keptItems, hrest]

theorem keptItems_sublist (old : List α) (targets : List (Option Nat)) :
    (keptItems old targets).Sublist old := by
  induction old generalizing targets with
  | nil => cases targets <;> exact List.Sublist.slnil
  | cons item rest ih =>
    match targets with
    | [] => exact List.nil_sublist _
    | none :: targets => exact (ih targets).cons item
    | some _ :: targets => exact (ih targets).cons_cons item

/-! ## Items that both lists share -/

section Shared

variable [DecidableEq α]

theorem map_fst_eraseP (free : List (α × Nat)) (item : α) :
    (free.eraseP (·.1 == item)).map Prod.fst = (free.map Prod.fst).erase item := by
  rw [List.erase_eq_eraseP', List.eraseP_map]
  rfl

/-- The old items with a partner are those that the old items share with the free ones. -/
theorem coe_keptItems_matchItems (free : List (α × Nat)) (old : List α) :
    (keptItems old (matchItems free old) : Multiset α) =
      (old : Multiset α) ∩ (free.map Prod.fst : List α) := by
  induction old generalizing free with
  | nil => simp [keptItems]
  | cons item rest ih =>
    unfold matchItems
    split
    · rename_i found target hfind
      have hitem : found = item := eq_of_beq (List.find?_some hfind :)
      have hm : item ∈ free.map Prod.fst :=
        hitem ▸ List.mem_map_of_mem (List.mem_of_find?_eq_some hfind)
      rw [keptItems, ← Multiset.cons_coe, ← Multiset.cons_coe, ih,
        Multiset.cons_inter_of_pos _ (Multiset.mem_coe.mpr hm), map_fst_eraseP,
        Multiset.coe_erase]
    · rename_i hfind
      have hm : item ∉ free.map Prod.fst := by
        intro hm
        obtain ⟨pair, hp, rfl⟩ := List.mem_map.mp hm
        simpa using List.find?_eq_none.mp hfind pair hp
      rw [keptItems, ← Multiset.cons_coe, ih,
        Multiset.cons_inter_of_neg _ (mt Multiset.mem_coe.mp hm)]

theorem keptItems_matchItems (old new : List α) :
    (keptItems old (matchItems new.zipIdx old) : Multiset α) = (old : Multiset α) ∩ new := by
  rw [coe_keptItems_matchItems, List.zipIdx_map_fst]

end Shared

/-! ## Placements -/

/-- How the new items from an index on get their places. The next item stands in its place already,
is moved there from further behind, or is inserted. -/
inductive Placed (kept : List Nat) : Nat → List Nat → List α → List (ListEdit α) → Prop
  | done {index : Nat} : Placed kept index [] [] []
  | stay {index : Nat} {pending : List Nat} {item : α} {rest : List α}
      {edits : List (ListEdit α)} (next : Placed kept (index + 1) pending rest edits) :
      Placed kept index (index :: pending) (item :: rest) edits
  | move {index offset : Nat} {pending : List Nat} {item : α} {rest : List α}
      {edits : List (ListEdit α)} (behind : 0 < offset) (found : pending[offset]? = some index)
      (next : Placed kept (index + 1) (pending.eraseIdx offset) rest edits) :
      Placed kept index pending (item :: rest) (.move (index + offset) index :: edits)
  | insert {index : Nat} {pending : List Nat} {item : α} {rest : List α}
      {edits : List (ListEdit α)} (fresh : index ∉ kept)
      (next : Placed kept (index + 1) pending rest edits) :
      Placed kept index pending (item :: rest) (.insert index item :: edits)

theorem placed_of_placements {kept pending : List Nat} {index : Nat} {items : List α}
    {edits : List (ListEdit α)} (h : placements kept index pending items = some edits) :
    Placed kept index pending items edits := by
  induction items generalizing index pending edits with
  | nil =>
    rw [placements] at h
    split at h
    · rename_i hp
      rw [List.isEmpty_iff.mp hp]
      cases h
      exact .done
    · cases h
  | cons item rest ih =>
    rw [placements] at h
    split at h
    · simp only [bind, Option.bind_eq_some_iff] at h
      obtain ⟨offset, hfind, others, hothers, he⟩ := h
      cases he
      obtain ⟨hb, hget, -⟩ := List.idxOf?_eq_some_iff.mp hfind
      have hfound : pending[offset]? = some index := by rw [List.getElem?_eq_getElem hb, hget]
      split
      · rename_i h0
        subst h0
        cases pending with
        | nil => cases hfound
        | cons first pending =>
          cases hfound
          exact .stay (ih hothers)
      · exact .move (by omega) hfound (ih hothers)
    · rename_i hk
      simp only [bind, Option.bind_eq_some_iff] at h
      obtain ⟨others, hothers, he⟩ := h
      cases he
      exact .insert hk (ih hothers)

namespace Placed

variable {kept pending : List Nat} {index : Nat} {items : List α} {edits : List (ListEdit α)}

theorem isRemoval_eq_false (h : Placed kept index pending items edits) :
    ∀ edit ∈ edits, edit.isRemoval = false := by
  induction h with
  | done => exact List.forall_mem_nil _
  | stay _ ih => exact ih
  | move _ _ _ ih => exact List.forall_mem_cons.mpr ⟨rfl, ih⟩
  | insert _ _ ih => exact List.forall_mem_cons.mpr ⟨rfl, ih⟩

/-- The last item that is pending is never moved, since nothing stands before it any more. -/
theorem countP_isMove_le (h : Placed kept index pending items edits) :
    edits.countP isMove ≤ pending.length - 1 := by
  induction h with
  | done => exact Nat.zero_le _
  | stay _ ih =>
    rw [List.length_cons]
    omega
  | @move _ offset pending _ _ _ behind found _ ih =>
    have hb := (List.getElem?_eq_some_iff.mp found).1
    rw [List.length_eraseIdx_of_lt hb] at ih
    rw [List.countP_cons_of_pos rfl]
    omega
  | insert _ _ ih =>
    rw [List.countP_cons_of_neg Bool.false_ne_true]
    exact ih

/-- The items that are inserted are the new ones but for those that are waiting. -/
theorem inserted_perm {new waiting : List α} (h : Placed kept index pending items edits)
    (placed : List α) (hnew : new = placed ++ items) (hi : placed.length = index)
    (hp : Pending new kept index pending waiting) :
    (edits.filterMap inserted? ++ waiting).Perm items := by
  induction h generalizing placed waiting with
  | done =>
    rw [List.eq_nil_of_length_eq_zero hp.length_eq.symm]
    exact List.Perm.refl _
  | @stay index pending item rest edits _ ih =>
    have hitem : waiting[0]? = some item := hp.getElem? rfl (by rw [hnew, ← hi]; simp)
    have hrest := ih (placed ++ [item]) (by simp [hnew]) (by simp [hi])
      (hp.place List.getElem?_cons_zero)
    cases waiting with
    | nil => cases hitem
    | cons first waiting =>
      cases hitem
      exact List.perm_middle.trans (hrest.cons item)
  | @move index offset pending item rest edits _ found _ ih =>
    have hitem : waiting[offset]? = some item := hp.getElem? found (by rw [hnew, ← hi]; simp)
    have hrest := ih (placed ++ [item]) (by simp [hnew]) (by simp [hi]) (hp.place found)
    obtain ⟨hb, rfl⟩ := List.getElem?_eq_some_iff.mp hitem
    have hsplit : waiting.Perm (waiting[offset] :: waiting.eraseIdx offset) :=
      (List.getElem_cons_eraseIdx_perm hb).symm
    exact (hsplit.append_left _).trans (List.perm_middle.trans (hrest.cons _))
  | @insert index pending item rest edits fresh _ ih =>
    exact (ih (placed ++ [item]) (by simp [hnew]) (by simp [hi]) (hp.skip fresh)).cons item

/-- Whatever stands in the list, only what is waiting is moved, and each of it once: after a move it
stands in its place, before everything that is waiting. -/
theorem moved_subperm (h : Placed kept index pending items edits) (placed waiting : List β)
    (hi : placed.length = index) (hw : waiting.length = pending.length) (fresh : β) :
    (moved (placed ++ waiting) (edits.map (withItem fresh))).Subperm waiting := by
  induction h generalizing placed waiting with
  | done => exact List.nil_subperm
  | @stay index pending item rest edits _ ih =>
    cases waiting with
    | nil => cases hw
    | cons first waiting =>
      have hrest := ih (placed ++ [first]) waiting (by simp [hi]) (Nat.succ.inj hw)
      rw [List.append_assoc, List.singleton_append] at hrest
      exact hrest.trans (List.sublist_cons_self first waiting).subperm
  | @move index offset pending item rest edits _ found _ ih =>
    have hb : offset < waiting.length := hw ▸ (List.getElem?_eq_some_iff.mp found).1
    have hget := List.getElem?_eq_getElem hb
    have hrest := ih (placed ++ [waiting[offset]]) (waiting.eraseIdx offset) (by simp [hi])
      (by rw [List.length_eraseIdx, List.length_eraseIdx, hw])
    have happly := apply_move_to placed waiting hget
    have hsource : (placed ++ waiting)[placed.length + offset]? = some waiting[offset] := by
      rw [List.getElem?_append_right (by omega), Nat.add_sub_cancel_left, hget]
    rw [hi] at happly hsource
    rw [List.append_assoc, List.singleton_append] at hrest
    rw [List.map_cons, withItem, moved, hsource, happly]
    exact ((List.subperm_cons _).mpr hrest).trans (List.getElem_cons_eraseIdx_perm hb).subperm
  | @insert index pending item rest edits _ _ ih =>
    have hrest := ih (placed ++ [fresh]) waiting (by simp [hi]) hw
    have happly := apply_insert_at placed waiting fresh
    rw [hi] at happly
    rw [List.append_assoc, List.singleton_append] at hrest
    rw [List.map_cons, withItem, moved, happly]
    · exact hrest
    · exact nofun

end Placed

theorem placements_self {kept : List Nat} (index : Nat) (items : List α)
    (h : ∀ j, index ≤ j → j < index + items.length → j ∈ kept) :
    placements kept index (List.range' index items.length) items = some [] := by
  induction items generalizing index with
  | nil => rfl
  | cons item rest ih =>
    rw [List.length_cons] at h ⊢
    have hk : index ∈ kept := h index (Nat.le_refl _) (by omega)
    have hrest := ih (index + 1) fun j _ _ => h j (by omega) (by omega)
    rw [placements, if_pos hk, List.range'_succ]
    simp [List.idxOf?_cons, hrest]

theorem removals_map_some (start : Nat) (targets : List Nat) :
    (removals start (targets.map some) : List (ListEdit α)) = [] := by
  induction targets generalizing start with
  | nil => rfl
  | cons target rest ih =>
    rw [List.map_cons, removals, ih]
    rfl

/-- Only old items that are kept are moved, and none of them twice. -/
theorem movedFrom_of_placed {count : Nat} {targets : List (Option Nat)} {new : List α}
    {edits : List (ListEdit α)} (hl : targets.length = count)
    (h : Placed (targets.filterMap id) 0 (targets.filterMap id) new edits) :
    (movedFrom count (removals 0 targets ++ edits)).Nodup ∧
      none ∉ movedFrom count (removals 0 targets ++ edits) := by
  have hlabels : targets.length = ((List.range count).map some).length := by simp [hl]
  have hremove : applyAll? ((List.range count).map some) (removals 0 targets) =
      some (keptItems ((List.range count).map some) targets) :=
    removals_applyAll? [] _ targets hlabels
  have hmoved := h.moved_subperm [] _ rfl (length_keptItems hlabels) none
  have hkept := (hmoved.trans (keptItems_sublist _ targets).subperm)
  have heq : movedFrom count (removals 0 targets ++ edits) =
      moved (keptItems ((List.range count).map some) targets) (edits.map (withItem none)) := by
    rw [movedFrom, List.map_append, map_withItem_removals, moved_append hremove,
      moved_removals _ fun _ => isRemoval_of_mem_removals]
    rfl
  rw [heq]
  constructor
  · obtain ⟨labels, hp, hs⟩ := hkept
    have hn : ((List.range count).map some).Nodup :=
      List.nodup_range.map (Option.some_injective _)
    exact hp.nodup (hn.sublist hs)
  · intro hm
    obtain ⟨_, -, he⟩ := List.mem_map.mp (hkept.subset hm)
    cases he

/-! ## Both phases -/

section Between

variable [DecidableEq α]

/-- A list is matched with itself item by item. -/
theorem matchItems_self (start : Nat) (items : List α) :
    matchItems (items.zipIdx start) items = (List.range' start items.length).map some := by
  induction items generalizing start with
  | nil => rfl
  | cons item rest ih =>
    rw [List.zipIdx_cons, matchItems]
    simp [ih, List.range'_succ]

theorem between?_self (items : List α) : between? items items = some [] := by
  have htargets := matchItems_self 0 items
  have hplaced : placements (List.range' 0 items.length) 0 (List.range' 0 items.length) items =
      some [] := placements_self 0 items fun j _ hj => by simpa using hj
  have hkept : ((List.range' 0 items.length).map some).filterMap id =
      List.range' 0 items.length := by
    rw [List.filterMap_map]
    exact List.filterMap_some
  rw [between?_eq_placements, htargets, hkept, hplaced, removals_map_some]
  rfl

theorem exists_placed (old new : List α) :
    ∃ edits, between? old new = some (removals 0 (matchItems new.zipIdx old) ++ edits) ∧
      applyAll? old (removals 0 (matchItems new.zipIdx old) ++ edits) = some new ∧
        Placed ((matchItems new.zipIdx old).filterMap id) 0
          ((matchItems new.zipIdx old).filterMap id) new edits := by
  obtain ⟨edits, hedits, happly, -⟩ := between?_applyAll? old new
  have hbetween := hedits
  rw [between?_eq_placements, Option.map_eq_some_iff] at hedits
  obtain ⟨placed, hplaced, rfl⟩ := hedits
  exact ⟨placed, hbetween, happly, placed_of_placements hplaced⟩

/-- The kept items wait in the order of the old list. -/
theorem pending_matchItems (old new : List α) :
    Pending new ((matchItems new.zipIdx old).filterMap id) 0
      ((matchItems new.zipIdx old).filterMap id) (keptItems old (matchItems new.zipIdx old)) where
  items := matchItems_getElem? old fun _ hp => List.mem_zipIdx_iff_getElem?.mp hp
  nodup := nodup_matchItems old (by
    rw [List.zipIdx_map_snd]
    exact List.nodup_range')
  mem j := by simp

/-- The edits between two lists exist, each one within the bounds of the list as it stands, and turn
the first list into the second one. First come the removals. The items that the lists share, each as
often as both have it, are kept: all others are removed or inserted. All kept items but one are
moved at most, none of them twice, and no item that was inserted. A list stays as it is. -/
theorem between_economical (old new : List α) :
    (∃ first second : List (ListEdit α), between? old new = some (first ++ second) ∧
      applyAll? old (first ++ second) = some new ∧
      (∀ edit ∈ first, edit.isRemoval = true) ∧ (∀ edit ∈ second, edit.isRemoval = false) ∧
      first.length + ((old : Multiset α) ∩ new).card = old.length ∧
      (second.filterMap inserted?).length + ((old : Multiset α) ∩ new).card = new.length ∧
      (second.filterMap inserted? : Multiset α) = (new : Multiset α) - old ∧
      second.countP isMove ≤ ((old : Multiset α) ∩ new).card - 1 ∧
      (movedFrom old.length (first ++ second)).Nodup ∧
      none ∉ movedFrom old.length (first ++ second)) ∧
    between? old old = some [] := by
  refine ⟨?_, between?_self old⟩
  obtain ⟨edits, hbetween, happly, hplaced⟩ := exists_placed old new
  have hpending := pending_matchItems old new
  have hshared := keptItems_matchItems old new
  have hcard : ((old : Multiset α) ∩ new).card =
      ((matchItems new.zipIdx old).filterMap id).length := by
    rw [← hshared, Multiset.coe_card, hpending.length_eq]
  have hremoved := length_removals (α := α) 0 (matchItems new.zipIdx old)
  have hperm := hplaced.inserted_perm [] rfl rfl hpending
  have hlength := hperm.length_eq
  rw [List.length_append, ← hpending.length_eq] at hlength
  refine ⟨_, edits, hbetween, happly, fun _ => isRemoval_of_mem_removals,
    hplaced.isRemoval_eq_false, ?_, ?_, ?_, ?_, ?_⟩
  · rw [hcard, hremoved, length_matchItems]
  · rw [hcard, hlength]
  · -- What is inserted and what is kept make up the new list.
    have hsum : (edits.filterMap inserted? : Multiset α) + ((new : Multiset α) ∩ old) = new := by
      rw [Multiset.inter_comm, ← hshared, Multiset.coe_add]
      exact Multiset.coe_eq_coe.mpr hperm
    have hsub := Multiset.sub_add_inter (new : Multiset α) old
    exact Multiset.add_left_inj.mp (hsum.trans hsub.symm)
  · rw [hcard]
    exact hplaced.countP_isMove_le
  · exact movedFrom_of_placed (length_matchItems new.zipIdx old) hplaced

end Between

end ListEdit

end LiveTemplate
