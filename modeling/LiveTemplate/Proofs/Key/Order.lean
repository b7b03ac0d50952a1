import LiveTemplate.Proofs.Key.Position
import Mathlib.Data.List.Sort

/-!
# Keys in document order

The keys of a template are kept in a map that is sorted by position (`Block.keyMap`). Positions are
compared step by step, and one that leads into a part comes after the part itself, so that the order
of the map is that of the document: a part, then what its body holds, then what its second body
holds, then the parts after it (`slotsFrom`). Indexes and keys are words, so that all of this is
about addressable templates: a wider block has parts at one position, and keys that collide.

* `pairwise_slotsFrom`: in document order each position comes before the next.
* `map_fst_blockKeys`: keys are assigned in this order, so that a map of them lists them as they
  were assigned (`KeyList.Ordered.toList_ofList`).
* `Block.keyMap_eq_ok` puts together what the map holds: the key of each part with a slot, and these
  are 0, 1, 2, … in each block.
-/

namespace LiveTemplate

/-! ## The order of positions -/

/-- Parts come in the order of their indexes, and the body of a part before its second body. -/
instance : Ord PositionStep where
  compare
    | .part index, .part other => compare index other
    | .part _, _ => .lt
    | _, .part _ => .gt
    | .body, .body => .eq
    | .body, .otherwise => .lt
    | .otherwise, .body => .gt
    | .otherwise, .otherwise => .eq

instance : Std.TransOrd PositionStep where
  eq_swap {left right} := by
    cases left <;> cases right
    case part.part index other => exact Std.OrientedOrd.eq_swap (a := index) (b := other)
    all_goals rfl
  isLE_trans {first second third} hf hs := by
    cases first <;> cases second <;> cases third
    case part.part.part i j k =>
      exact Std.TransOrd.isLE_trans (a := i) (b := j) (c := k) hf hs
    all_goals
      first
      | rfl
      | exact absurd hf Bool.false_ne_true
      | exact absurd hs Bool.false_ne_true

instance : Std.LawfulEqOrd PositionStep where
  compare_self {step} := by
    cases step
    case part index => exact Std.ReflOrd.compare_self (a := index)
    all_goals rfl
  eq_of_compare {left right} h := by
    cases left <;> cases right
    case part.part index other =>
      exact congrArg PositionStep.part (Std.LawfulEqOrd.eq_of_compare (a := index) (b := other) h)
    all_goals
      first
      | rfl
      | exact nomatch h

/-- One position comes before another. -/
def Position.Before (left right : Position) : Prop :=
  compare left right = .lt

namespace Position

variable {step other : PositionStep} {left right : Position}

theorem not_before_self (position : Position) : ¬ Before position position := fun h =>
  nomatch h.symm.trans Std.ReflCmp.compare_self

theorem Before.asymm (h : Before left right) : ¬ Before right left := fun hr =>
  nomatch hr.symm.trans (Std.OrientedCmp.gt_of_lt h)

theorem before_nil_cons : Before [] (step :: right) :=
  List.compare_nil_cons

theorem before_cons_iff : Before (step :: left) (step :: right) ↔ Before left right := by
  have hself : compare step step = .eq := Std.ReflCmp.compare_self
  rw [Before, Before, List.compare_cons_cons, hself]
  rfl

theorem before_of_step (h : compare step other = .lt) : Before (step :: left) (other :: right) := by
  rw [Before, List.compare_cons_cons, h]
  rfl

/-- Indexes are compared as numbers, not as they are written. -/
example : Before [.part 2, .otherwise, .part 0] [.part 10] := rfl

theorem pairwise_map_cons {positions : List Position} (h : positions.Pairwise Before)
    (step : PositionStep) : (positions.map (step :: ·)).Pairwise Before :=
  List.pairwise_map.mpr (h.imp fun hb => before_cons_iff.mpr hb)

end Position

/-! ## Document order -/

mutual

/-- The positions of the parts with slots inside a part, from it on: those in its body, then those
in its second body. -/
def Part.slotsInside : Part → List Position
  | .branch _ _ body otherwise _ =>
    (slotsFrom 0 body).map (.body :: ·) ++ (slotsInElse otherwise).map (.otherwise :: ·)
  | .include _ _ body _ => (slotsFrom 0 body).map (.body :: ·)
  | .literal _ => []
  | .print _ _ => []
  | .bind _ _ => []
termination_by structural part => part

/-- The positions of the parts with slots in a block from an index on, in document order: a part,
then what is inside it, then the parts after it. -/
def slotsFrom (index : Nat) : List Part → List Position
  | [] => []
  | part :: rest =>
    (if part.hasSlot then [[.part index]] else []) ++
      part.slotsInside.map (.part index :: ·) ++ slotsFrom (index + 1) rest
termination_by structural parts => parts

/-- The positions of the parts with slots in the second body of a branch. -/
def slotsInElse : Option (List Part) → List Position
  | none => []
  | some parts => slotsFrom 0 parts
termination_by structural otherwise => otherwise

end

/-- The positions from an index on begin with a part at this index or behind it. -/
theorem exists_part_of_mem_slotsFrom {index : Nat} {parts : List Part} {position : Position}
    (h : position ∈ slotsFrom index parts) :
    ∃ i tail, index ≤ i ∧ position = .part i :: tail := by
  induction parts generalizing index with
  | nil => cases h
  | cons part rest ih =>
    rw [slotsFrom, List.mem_append, List.mem_append] at h
    rcases h with (h | h) | h
    · split at h
      · exact ⟨index, [], Nat.le_refl _, List.mem_singleton.mp h⟩
      · cases h
    · obtain ⟨tail, -, rfl⟩ := List.mem_map.mp h
      exact ⟨index, tail, Nat.le_refl _, rfl⟩
    · obtain ⟨i, tail, hi, rfl⟩ := ih h
      exact ⟨i, tail, Nat.le_of_succ_le hi, rfl⟩

/-- The positions inside a part are not its own. -/
theorem Part.ne_nil_of_mem_slotsInside {part : Part} {position : Position}
    (h : position ∈ part.slotsInside) : position ≠ [] := by
  rintro rfl
  cases part <;> simp [slotsInside] at h

mutual

theorem Part.pairwise_slotsInside (part : Part) : part.slotsInside.Pairwise Position.Before := by
  match part with
  | .literal text => exact .nil
  | .print pipeline span => exact .nil
  | .bind pipeline span => exact .nil
  | .branch kind head body otherwise span =>
    rw [Part.slotsInside]
    refine List.pairwise_append.mpr ⟨Position.pairwise_map_cons (pairwise_slotsFrom 0 body) _,
      Position.pairwise_map_cons (pairwise_slotsInElse otherwise) _, fun left hl right hr => ?_⟩
    obtain ⟨_, -, rfl⟩ := List.mem_map.mp hl
    obtain ⟨_, -, rfl⟩ := List.mem_map.mp hr
    exact Position.before_of_step rfl
  | .include name argument body span =>
    exact Position.pairwise_map_cons (pairwise_slotsFrom 0 body) _
termination_by structural part

/-- In document order each position comes before the next. -/
theorem pairwise_slotsFrom (index : Nat) (parts : List Part) :
    (slotsFrom index parts).Pairwise Position.Before := by
  match parts with
  | [] => exact .nil
  | part :: rest =>
    rw [slotsFrom]
    refine List.pairwise_append.mpr ⟨List.pairwise_append.mpr ⟨?_,
      Position.pairwise_map_cons part.pairwise_slotsInside _, fun left hl right hr => ?_⟩,
      pairwise_slotsFrom (index + 1) rest, fun left hl right hr => ?_⟩
    · split
      · exact List.pairwise_singleton _ _
      · exact .nil
    · -- A part comes before what is inside it.
      obtain ⟨tail, htail, rfl⟩ := List.mem_map.mp hr
      split at hl
      · obtain rfl := List.mem_singleton.mp hl
        obtain ⟨step, steps, rfl⟩ := List.exists_cons_of_ne_nil
          (Part.ne_nil_of_mem_slotsInside htail)
        exact Position.before_cons_iff.mpr Position.before_nil_cons
      · cases hl
    · -- The part and what is inside it come before the parts behind it.
      have hhead : ∃ tail, left = .part index :: tail := by
        rcases List.mem_append.mp hl with hl | hl
        · split at hl
          · exact ⟨[], List.mem_singleton.mp hl⟩
          · cases hl
        · obtain ⟨tail, -, rfl⟩ := List.mem_map.mp hl
          exact ⟨tail, rfl⟩
      obtain ⟨_, rfl⟩ := hhead
      obtain ⟨i, _, hi, rfl⟩ := exists_part_of_mem_slotsFrom hr
      exact Position.before_of_step (Nat.compare_eq_lt.mpr hi)
termination_by structural parts

theorem pairwise_slotsInElse (otherwise : Option (List Part)) :
    (slotsInElse otherwise).Pairwise Position.Before := by
  match otherwise with
  | none => exact .nil
  | some parts => exact pairwise_slotsFrom 0 parts
termination_by structural otherwise

end

/-- A loop that includes a definition, with a second body, and a part behind it. -/
example :
    let value : Pipeline := ⟨none, [.operand .dot]⟩
    let print : Part := .print value ⟨0, 0⟩
    slotsFrom 0 [.literal "a",
      .branch .loop value [.include "row" none [print] ⟨0, 0⟩] (some [print]) ⟨0, 0⟩, print] =
        [[.part 1], [.part 1, .body, .part 0], [.part 1, .body, .part 0, .body, .part 0],
          [.part 1, .otherwise, .part 0], [.part 2]] :=
  rfl

/-! ## Keys are assigned in document order -/

/-- The keys of a block: that of the first part, those inside it, and those behind it. -/
theorem exists_of_blockKeys_cons {position : Position} {index : Nat} {seen : List Nat}
    {own : Option Nat} {keys : List (Option Nat)} {part : Part} {rest : List Part} {list : KeyList}
    (h : blockKeys position index seen (own :: keys) (part :: rest) = .ok list) :
    ∃ inner others, part.innerKeys (position ++ [.toPart index]) = .ok inner ∧
      blockKeys position (index + 1) (own.toList ++ seen) keys rest = .ok others ∧
      list = (own.map fun key => (position ++ [.toPart index], key)).toList ++ inner ++ others := by
  cases own with
  | none =>
    simp only [blockKeys, List.head?_cons, List.tail_cons, Option.join_some] at h
    obtain ⟨own, ⟨⟩, h⟩ := bind_eq_ok.mp h
    obtain ⟨inner, hinner, h⟩ := bind_eq_ok.mp h
    obtain ⟨others, hothers, h⟩ := bind_eq_ok.mp h
    cases h
    exact ⟨inner, others, hinner, hothers, rfl⟩
  | some key =>
    simp only [blockKeys, List.head?_cons, List.tail_cons, Option.join_some] at h
    split at h
    · cases h
    · obtain ⟨own, ⟨⟩, h⟩ := bind_eq_ok.mp h
      obtain ⟨inner, hinner, h⟩ := bind_eq_ok.mp h
      obtain ⟨others, hothers, h⟩ := bind_eq_ok.mp h
      cases h
      exact ⟨inner, others, hinner, hothers, rfl⟩

mutual

theorem Part.map_fst_innerKeys (part : Part) (ha : part.addressable = true) (position : Position)
    {list : KeyList} (h : part.innerKeys position = .ok list) :
    list.map Prod.fst = part.slotsInside.map (position ++ ·) := by
  match part with
  | .literal text => cases h; rfl
  | .print pipeline span => cases h; rfl
  | .bind pipeline span => cases h; rfl
  | .branch kind head body otherwise span =>
    obtain ⟨habody, haelse⟩ := Part.addressable_branch.mp ha
    obtain ⟨hwords, haparts⟩ := Block.addressable_iff.mp habody
    rw [Part.innerKeys] at h
    obtain ⟨inBody, hbody, h⟩ := bind_eq_ok.mp h
    obtain ⟨inElse, helse, h⟩ := bind_eq_ok.mp h
    cases h
    rw [Part.slotsInside, List.map_append, List.map_append,
      map_fst_blockKeys body haparts _ (by omega) (Block.isSome_keys body) hbody,
      map_fst_elseKeys otherwise haelse _ helse]
    simp [Function.comp_def]
  | .include name argument body span =>
    obtain ⟨hwords, haparts⟩ := Block.addressable_iff.mp ha
    rw [Part.innerKeys] at h
    rw [Part.slotsInside,
      map_fst_blockKeys body haparts _ (by omega) (Block.isSome_keys body) h]
    simp [Function.comp_def]
termination_by structural part

/-- The keys of a block are assigned in document order. -/
theorem map_fst_blockKeys (parts : List Part) (ha : addressableParts parts = true)
    (position : Position) {index : Nat} {seen : List Nat} {keys : List (Option Nat)}
    {list : KeyList} (hw : index + parts.length ≤ wordLimit)
    (hk : keys.map Option.isSome = parts.map Part.hasSlot)
    (h : blockKeys position index seen keys parts = .ok list) :
    list.map Prod.fst = (slotsFrom index parts).map (position ++ ·) := by
  match parts with
  | [] => cases h; rfl
  | part :: rest =>
    obtain ⟨hapart, harest⟩ := Bool.and_eq_true_iff.mp ha
    rw [List.length_cons] at hw
    obtain ⟨own, keys, rfl, hown, hkeys⟩ := List.map_eq_cons_iff.mp hk
    obtain ⟨inner, others, hinner, hothers, rfl⟩ := exists_of_blockKeys_cons h
    rw [PositionStep.toPart_of_lt (by omega)] at hinner ⊢
    have hhere : ((own.map fun key => (position ++ [.part index], key)).toList).map Prod.fst =
        (if part.hasSlot then [[.part index]] else []).map (position ++ ·) := by
      rw [← hown]
      cases own <;> rfl
    rw [slotsFrom, List.map_append, List.map_append, List.map_append, List.map_append, hhere,
      part.map_fst_innerKeys hapart _ hinner,
      map_fst_blockKeys rest harest position (by omega) hkeys hothers]
    simp [Function.comp_def]
termination_by structural parts

theorem map_fst_elseKeys (otherwise : Option (List Part))
    (ha : ∀ parts ∈ otherwise, Block.addressable parts = true) (position : Position)
    {list : KeyList} (h : elseKeys position otherwise = .ok list) :
    list.map Prod.fst = (slotsInElse otherwise).map (position ++ ·) := by
  match otherwise with
  | none => cases h; rfl
  | some parts =>
    obtain ⟨hwords, haparts⟩ := Block.addressable_iff.mp (ha parts rfl)
    exact map_fst_blockKeys parts haparts position (by omega) (Block.isSome_keys parts) h
termination_by structural otherwise

end

/-! ## The map of keys -/

/-- The slot keys of a template, sorted by position. -/
abbrev KeyMap := Std.TreeMap Position Nat

/-- The slot keys of all parts of a template: they are put into the map as they are assigned. -/
def Block.keyMap (root : Block) : Except KeyCollision KeyMap :=
  (fun keys => Std.TreeMap.ofList keys) <$> root.assignKeys

namespace KeyList

/-- The entries come in the order of their positions. -/
def Ordered (keys : KeyList) : Prop :=
  keys.Pairwise fun left right => Position.Before left.1 right.1

variable {keys : KeyList}

theorem Ordered.nodup (h : Ordered keys) : keys.Nodup := by
  refine List.Pairwise.imp ?_ h
  intro left right hb he
  exact Position.not_before_self _ (he ▸ hb)

/-- The map of a list has its entries, if no position has two. -/
theorem Ordered.mem_toList_ofList (h : Ordered keys) (entry : Position × Nat) :
    entry ∈ (Std.TreeMap.ofList keys : KeyMap).toList ↔ entry ∈ keys := by
  have hdistinct : keys.Pairwise fun left right => ¬ compare left.1 right.1 = .eq :=
    List.Pairwise.imp (fun hb he => nomatch Eq.trans (Eq.symm hb) he) h
  have hfound {position : Position} {key : Nat} (hm : (position, key) ∈ keys) :
      (Std.TreeMap.ofList keys : KeyMap)[position]? = some key :=
    Std.TreeMap.getElem?_ofList_of_mem Std.ReflCmp.compare_self hdistinct hm
  obtain ⟨position, key⟩ := entry
  rw [Std.TreeMap.mem_toList_iff_getElem?_eq_some]
  refine ⟨fun hg => ?_, hfound⟩
  -- What is found at a position is the one entry that the list has for it.
  have hin : position ∈ (Std.TreeMap.ofList keys : KeyMap) := by
    rw [Std.TreeMap.mem_iff_isSome_getElem?, hg]
    rfl
  obtain ⟨⟨_, other⟩, ho, rfl⟩ :=
    List.mem_map.mp (List.contains_iff_mem.mp (Std.TreeMap.mem_ofList.mp hin))
  obtain rfl := Option.some.inj (hg.symm.trans (hfound ho))
  exact ho

/-- The map of a list in the order of the positions lists its entries as they were. -/
theorem Ordered.toList_ofList (h : Ordered keys) :
    (Std.TreeMap.ofList keys : KeyMap).toList = keys := by
  have hsorted : Ordered (Std.TreeMap.ofList keys : KeyMap).toList :=
    Std.TreeMap.ordered_keys_toList
  have hperm := (List.perm_ext_iff_of_nodup hsorted.nodup h.nodup).mpr h.mem_toList_ofList
  exact hperm.eq_of_pairwise (fun _ _ _ _ hl hr => (hl.asymm hr).elim) hsorted h

end KeyList

/-! ## Parts and blocks at positions -/

namespace Block

/-- The block that a position leads to, from the bodies of parts into those of the parts in them. -/
def blockAt? : Position → Block → Option Block
  | [], block => some block
  | .part index :: step :: rest, block =>
    block[index]?.bind fun part => (part.bodyAt? step).bind (blockAt? rest)
  | _, _ => none

/-- The part at a position. -/
def partAt? : Position → Block → Option Part
  | [.part index], block => block[index]?
  | .part index :: step :: rest, block =>
    block[index]?.bind fun part => (part.bodyAt? step).bind (partAt? rest)
  | _, _ => none

/-- The part at an index has a key if it has a slot. -/
theorem isSome_keys_getElem? (block : Block) (index : Nat) :
    (layout block).keys[index]?.join.isSome ↔
      ∃ part, block[index]? = some part ∧ part.hasSlot = true := by
  have hkeys := congrArg (·[index]?) (isSome_keys block)
  simp only [List.getElem?_map] at hkeys
  cases hp : block[index]? with
  | none =>
    rw [hp, Option.map_none, Option.map_eq_none_iff] at hkeys
    simp [hkeys]
  | some part =>
    rw [hp, Option.map_some, Option.map_eq_some_iff] at hkeys
    obtain ⟨key, hk, hs⟩ := hkeys
    rw [hk, Option.join_some, hs]
    simp

/-- The parts that have keys are those with slots, wherever they stand. -/
theorem isSome_keyAt?_iff (position : Position) (block : Block) :
    (block.keyAt? position).isSome ↔
      ∃ part, block.partAt? position = some part ∧ part.hasSlot = true := by
  match position with
  | [.part index] => exact isSome_keys_getElem? block index
  | .part index :: step :: rest =>
    rw [keyAt?, partAt?]
    cases hp : block[index]? with
    | none => simp
    | some part =>
      rw [Option.bind_some, Option.bind_some]
      cases hb : part.bodyAt? step with
      | none => simp
      | some body => exact isSome_keyAt?_iff rest body
  | [] | .body :: _ | .otherwise :: _ => simp [keyAt?, partAt?]
termination_by structural position

/-- The blocks inside an addressable one are addressable, wherever they stand. -/
theorem addressable_of_blockAt? (above : Position) {root block : Block}
    (h : root.blockAt? above = some block) (ha : root.addressable = true) :
    block.addressable = true := by
  match above with
  | [] => exact Option.some.inj h ▸ ha
  | .part outer :: step :: rest =>
    obtain ⟨part, hp, h⟩ := Option.bind_eq_some_iff.mp h
    obtain ⟨body, hb, h⟩ := Option.bind_eq_some_iff.mp h
    exact addressable_of_blockAt? rest h
      (Part.addressable_of_bodyAt? (addressable_of_mem ha (List.mem_of_getElem? hp)) hb)
  | [.part _] | .body :: _ | .otherwise :: _ => cases h
termination_by structural above

/-- The key of a part of a block, found from far outside. -/
theorem keyAt?_append (above : Position) {root block : Block}
    (h : root.blockAt? above = some block) (index : Nat) :
    root.keyAt? (above ++ [.part index]) = (layout block).keys[index]?.join := by
  match above with
  | [] =>
    obtain rfl := Option.some.inj h
    rfl
  | .part outer :: step :: rest =>
    obtain ⟨part, hp, h⟩ := Option.bind_eq_some_iff.mp h
    obtain ⟨body, hb, h⟩ := Option.bind_eq_some_iff.mp h
    rw [List.cons_append, List.cons_append, keyAt?, hp, Option.bind_some, hb, Option.bind_some]
    exact keyAt?_append rest h index
  | [.part _] | .body :: _ | .otherwise :: _ => cases h
termination_by structural above

/-! ## The map of a template -/

/-- The keys of a block, read off one part after the other. -/
theorem filterMap_range_join (keys : List (Option Nat)) :
    (List.range keys.length).filterMap (fun index => keys[index]?.join) = keys.filterMap id := by
  have hmap : (List.range keys.length).map (fun index => keys[index]?.join) = keys :=
    List.ext_getElem (by simp) fun index hi hk => by simp [hk]
  exact List.filterMap_map.symm.trans (congrArg (List.filterMap id) hmap)

/-- The keys of a template are assigned in document order. -/
theorem map_fst_assignKeys {root : Block} (ha : root.addressable = true) {keys : KeyList}
    (h : root.assignKeys = .ok keys) : keys.map Prod.fst = slotsFrom 0 root := by
  obtain ⟨hwords, haparts⟩ := addressable_iff.mp ha
  have hkeys := map_fst_blockKeys root haparts [] (by omega) (isSome_keys root) h
  rwa [funext List.nil_append, List.map_id'] at hkeys

/-- The keys of a template are assigned without a collision, and the map of them lists them as they
were assigned. -/
theorem exists_keyMap {root : Block} (ha : root.addressable = true) :
    ∃ map, root.keyMap = .ok map ∧ root.assignKeys = .ok map.toList ∧
      map.keys = slotsFrom 0 root ∧
      ∀ position : Position, map[position]? = root.keyAt? position := by
  obtain ⟨keys, hkeys, hlist⟩ := assigns_of_addressable ha
  have hfst := map_fst_assignKeys ha hkeys
  have hordered : keys.Ordered := List.pairwise_map.mp (hfst ▸ pairwise_slotsFrom 0 root)
  have htoList := hordered.toList_ofList
  refine ⟨Std.TreeMap.ofList keys, ?_, ?_, ?_, fun position => Option.ext fun key => ?_⟩
  · rw [keyMap, hkeys]
    rfl
  · rw [htoList]
    exact hkeys
  · rw [← Std.TreeMap.map_fst_toList_eq_keys, htoList, hfst]
  · rw [← Std.TreeMap.mem_toList_iff_getElem?_eq_some, htoList, hlist]
    exact ⟨fun ⟨_, he, hk⟩ => he ▸ hk, fun hk => ⟨position, rfl, hk⟩⟩

/-- The keys of a template that has words for its parts are assigned without a collision, into a map
with one entry for each part that has a slot, the parts of included definitions among them, and with
no others. In each block the keys are 0, 1, 2, … in order, one for each slot of its layout. The map
lists the entries as they were assigned, in document order. -/
theorem keyMap_eq_ok {root : Block} (ha : root.addressable = true) :
    ∃ map, root.keyMap = .ok map ∧
      (∀ position : Position, position ∈ map ↔
        ∃ part, root.partAt? position = some part ∧ part.hasSlot = true) ∧
      (∀ above block, root.blockAt? above = some block →
        ((List.range block.length).filterMap fun index => map[above ++ [.part index]]?) =
          List.range (layout block).slotCount) ∧
      map.keys = slotsFrom 0 root ∧ root.assignKeys = .ok map.toList := by
  obtain ⟨map, hmap, hlist, hkeys, hget⟩ := exists_keyMap ha
  refine ⟨map, hmap, fun position => ?_, fun above block hblock => ?_, hkeys, hlist⟩
  · rw [Std.TreeMap.mem_iff_isSome_getElem?, hget]
    exact isSome_keyAt?_iff position root
  · have hwords := countP_lt_of_addressable (addressable_of_blockAt? above hblock ha)
    simp only [hget, keyAt?_append above hblock]
    rw [← length_keys, filterMap_range_join, filterMap_keys_of_lt hwords]

/-- A loop over an included definition, with a second body, and a part behind it. -/
theorem keyMap_eq_ok_loop :
    let dot : Pipeline := ⟨none, [.operand .dot]⟩
    let row : Block := [.literal "<li>", .print dot ⟨20, 25⟩]
    let root : Block := [.literal "<ul>",
      .branch .loop dot [.include "row" (some dot) row ⟨60, 80⟩] (some [.print dot ⟨90, 95⟩])
        ⟨50, 110⟩, .print dot ⟨110, 115⟩]
    root.addressable = true ∧ ∃ map, root.keyMap = .ok map ∧
      (∀ position : Position, position ∈ map ↔
        ∃ part, root.partAt? position = some part ∧ part.hasSlot = true) ∧
      (∀ above block, root.blockAt? above = some block →
        ((List.range block.length).filterMap fun index => map[above ++ [.part index]]?) =
          List.range (layout block).slotCount) ∧
      map.keys = [[.part 1], [.part 1, .body, .part 0], [.part 1, .body, .part 0, .body, .part 1],
        [.part 1, .otherwise, .part 0], [.part 2]] ∧
      root.assignKeys = .ok map.toList :=
  ⟨rfl, keyMap_eq_ok rfl⟩

end Block

end LiveTemplate
