import LiveTemplate.Template.Block

/-!
# The keys of a layout

A layout has a text more than the block has parts with slots (`Block.length_statics`). The first
part of a block with a slot has the key 0, and the keys behind it are those of the rest, raised by
one (`Block.keys_cons_slot`), so that the keys are the words 0, 1, 2, … in order
(`Block.filterMap_keys`). They are different numbers in a block of fewer slots than there are words.

* `Block.addressable`: no count in a block, or in a block inside it, goes beyond the words.
-/

namespace LiveTemplate

theorem toWord_of_lt {n : Nat} (h : n < wordLimit) : toWord n = n :=
  Nat.mod_eq_of_lt h

theorem toWord_toWord_add (m n : Nat) : toWord (toWord m + n) = toWord (m + n) :=
  Nat.mod_add_mod ..

theorem toWord_le (n : Nat) : toWord n ≤ n :=
  Nat.mod_le ..

namespace Block

/-! ## Numbers of texts -/

/-- A layout has a text more than the block has parts with slots. -/
theorem length_layoutFrom (pending : String) (next : Nat) (parts : Block) :
    (layoutFrom pending next parts).statics.length = parts.countP Part.hasSlot + 1 := by
  induction parts generalizing pending next with
  | nil => rfl
  | cons part rest ih =>
    cases part with
    | literal text => exact ih _ _
    | bind pipeline span => exact ih _ _
    | _ =>
      rw [List.countP_cons_of_pos rfl]
      exact congrArg (· + 1) (ih _ _)

theorem length_statics (block : Block) :
    (statics block).length = block.countP Part.hasSlot + 1 :=
  length_layoutFrom "" 0 block

theorem slotCount_layout (block : Block) :
    (layout block).slotCount = block.countP Part.hasSlot := by
  rw [Layout.slotCount, layout, length_layoutFrom]
  rfl

/-! ## Keys -/

/-- The text before a block does not count for its keys. -/
theorem keys_layoutFrom_pending (pending other : String) (next : Nat) (parts : Block) :
    (layoutFrom pending next parts).keys = (layoutFrom other next parts).keys := by
  induction parts generalizing pending other with
  | nil => rfl
  | cons part rest ih =>
    cases part with
    | literal text => exact congrArg (none :: ·) (ih _ _)
    | bind pipeline span => exact congrArg (none :: ·) (ih _ _)
    | _ => rfl

/-- Slots before a block raise each of its keys by their number. -/
theorem keys_layoutFrom (pending : String) (next count : Nat) (parts : Block) :
    (layoutFrom pending (toWord (next + count)) parts).keys =
      (layoutFrom pending next parts).keys.map (Option.map fun key => toWord (key + count)) := by
  induction parts generalizing pending next with
  | nil => rfl
  | cons part rest ih =>
    cases part with
    | literal text => exact congrArg (none :: ·) (ih _ _)
    | bind pipeline span => exact congrArg (none :: ·) (ih _ _)
    | _ =>
      have hrest := ih "" (toWord (next + 1))
      rw [toWord_toWord_add, Nat.add_right_comm, ← toWord_toWord_add] at hrest
      exact congrArg (some (toWord (next + count)) :: ·) hrest

theorem keys_cons_silent {part : Part} (h : part.hasSlot = false) (rest : Block) :
    (layout (part :: rest)).keys = none :: (layout rest).keys := by
  cases part with
  | literal text => exact congrArg (none :: ·) (keys_layoutFrom_pending _ _ _ _)
  | bind pipeline span => exact congrArg (none :: ·) (keys_layoutFrom_pending _ _ _ _)
  | _ => cases h

theorem keys_cons_slot {part : Part} (h : part.hasSlot = true) (rest : Block) :
    (layout (part :: rest)).keys =
      some 0 :: (layout rest).keys.map (Option.map fun key => toWord (key + 1)) := by
  cases part with
  | literal text => cases h
  | bind pipeline span => cases h
  | _ => exact congrArg (some 0 :: ·) (keys_layoutFrom "" 0 1 rest)

theorem length_keys (block : Block) : (layout block).keys.length = block.length := by
  induction block with
  | nil => rfl
  | cons part rest ih =>
    by_cases hs : part.hasSlot = true
    · rw [keys_cons_slot hs, List.length_cons, List.length_map, ih, List.length_cons]
    · rw [Bool.not_eq_true] at hs
      rw [keys_cons_silent hs, List.length_cons, ih, List.length_cons]

/-- The parts with keys are those with slots. -/
theorem isSome_keys (block : Block) :
    (layout block).keys.map Option.isSome = block.map Part.hasSlot := by
  induction block with
  | nil => rfl
  | cons part rest ih =>
    by_cases hs : part.hasSlot = true
    · rw [keys_cons_slot hs, List.map_cons, List.map_map, List.map_cons, hs, ← ih]
      simp
    · rw [Bool.not_eq_true] at hs
      rw [keys_cons_silent hs, List.map_cons, List.map_cons, hs, ih]
      rfl

/-- The parts with slots have the words 0, 1, 2, … in order as their keys. -/
theorem filterMap_keys (block : Block) :
    (layout block).keys.filterMap id = (List.range (layout block).slotCount).map toWord := by
  rw [slotCount_layout]
  induction block with
  | nil => rfl
  | cons part rest ih =>
    by_cases hs : part.hasSlot = true
    · rw [keys_cons_slot hs, List.countP_cons_of_pos hs, List.range_succ_eq_map, List.map_cons,
        List.map_map]
      refine congrArg (0 :: ·) ?_
      calc
        _ = ((layout rest).keys.filterMap id).map fun key => toWord (key + 1) := by
          rw [List.filterMap_map, List.map_filterMap]
          rfl
        _ = _ := by
          rw [ih, List.map_map]
          exact List.map_congr_left fun key _ => toWord_toWord_add key 1
    · rw [Bool.not_eq_true] at hs
      rw [keys_cons_silent hs, List.countP_cons_of_neg (by rw [hs]; decide), ← ih,
        List.filterMap_cons_none rfl]

theorem lt_slotCount_of_mem_keys {key : Nat} {block : Block}
    (h : some key ∈ (layout block).keys) : key < (layout block).slotCount := by
  have hm : key ∈ (layout block).keys.filterMap id := List.mem_filterMap.mpr ⟨some key, h, rfl⟩
  rw [filterMap_keys] at hm
  obtain ⟨n, hn, rfl⟩ := List.mem_map.mp hm
  exact Nat.lt_of_le_of_lt (toWord_le n) (List.mem_range.mp hn)

/-! ## Keys of blocks that have words for all their slots -/

section Words

variable {block : Block}

/-- The parts with slots have the keys 0, 1, 2, … in order. -/
theorem filterMap_keys_of_lt (h : block.countP Part.hasSlot < wordLimit) :
    (layout block).keys.filterMap id = List.range (layout block).slotCount := by
  rw [filterMap_keys]
  refine (List.map_congr_left fun n hn => ?_).trans (List.map_id _)
  rw [List.mem_range, slotCount_layout] at hn
  exact toWord_of_lt (Nat.lt_trans hn h)

/-- The keys are the numbers below that of the slots. -/
theorem mem_keys {key : Nat} (h : block.countP Part.hasSlot < wordLimit) :
    some key ∈ (layout block).keys ↔ key < (layout block).slotCount := by
  rw [← List.mem_range, ← filterMap_keys_of_lt h, List.mem_filterMap]
  constructor
  · exact fun h => ⟨some key, h, rfl⟩
  · rintro ⟨_, h, rfl⟩
    exact h

theorem keys_cons_slot_of_lt {part : Part} (hs : part.hasSlot = true) {rest : Block}
    (h : rest.countP Part.hasSlot + 1 < wordLimit) :
    (layout (part :: rest)).keys = some 0 :: (layout rest).keys.map (Option.map (· + 1)) := by
  rw [keys_cons_slot hs]
  refine congrArg (some 0 :: ·) (List.map_congr_left fun own hm => ?_)
  cases own with
  | none => rfl
  | some key =>
    have hk := lt_slotCount_of_mem_keys hm
    rw [slotCount_layout] at hk
    exact congrArg some (toWord_of_lt (by omega))

end Words

end Block

/-! ## Addressability -/

mutual

/-- Whether there is a word for each part of each block inside a part. -/
def Part.addressable : Part → Bool
  | .branch _ _ body otherwise _ =>
    body.length < wordLimit && addressableParts body && addressableElse otherwise
  | .include _ _ body _ => body.length < wordLimit && addressableParts body
  | .literal _ => true
  | .print _ _ => true
  | .bind _ _ => true
termination_by structural part => part

/-- Whether all of several parts are addressable. -/
def addressableParts : List Part → Bool
  | [] => true
  | part :: rest => part.addressable && addressableParts rest
termination_by structural parts => parts

/-- Whether the second body of a branch is addressable, if there is one. -/
def addressableElse : Option (List Part) → Bool
  | none => true
  | some parts => parts.length < wordLimit && addressableParts parts
termination_by structural otherwise => otherwise

end

/-- Whether there is a word for each part of a block, and of each block inside it. -/
def Block.addressable (block : Block) : Bool :=
  block.length < wordLimit && addressableParts block

namespace Block

variable {block rest : Block} {part : Part}

theorem addressable_iff :
    block.addressable = true ↔ block.length < wordLimit ∧ addressableParts block = true := by
  simp [addressable]

theorem addressable_of_cons (h : addressable (part :: rest) = true) :
    part.addressable = true ∧ rest.addressable = true := by
  obtain ⟨hl, hparts⟩ := addressable_iff.mp h
  obtain ⟨hpart, hrest⟩ := Bool.and_eq_true_iff.mp hparts
  exact ⟨hpart, addressable_iff.mpr ⟨Nat.lt_of_succ_lt hl, hrest⟩⟩

theorem addressable_of_mem (h : block.addressable = true) (hm : part ∈ block) :
    part.addressable = true := by
  induction block with
  | nil => cases hm
  | cons first rest ih =>
    obtain ⟨hfirst, hrest⟩ := addressable_of_cons h
    rcases List.mem_cons.mp hm with rfl | hm
    · exact hfirst
    · exact ih hrest hm

theorem countP_lt_of_addressable (h : block.addressable = true) :
    block.countP Part.hasSlot < wordLimit :=
  Nat.lt_of_le_of_lt List.countP_le_length (addressable_iff.mp h).1

end Block

theorem Part.addressable_branch {kind : BranchKind} {head : Pipeline} {body : List Part}
    {otherwise : Option (List Part)} {span : Span} :
    (Part.branch kind head body otherwise span).addressable = true ↔
      Block.addressable body = true ∧ ∀ parts ∈ otherwise, Block.addressable parts = true := by
  cases otherwise <;> simp [addressable, addressableElse, Block.addressable]

end LiveTemplate
