import LiveTemplate.Key.Position
import LiveTemplate.Key.Path
import LiveTemplate.Proofs.Success
import LiveTemplate.Proofs.Template.Layout

/-!
# The keys of positions

A key is found at a position by walking there: `Block.keyAt?` reads it off the layout of the block
that the position ends in.

* `Block.assignKeys_eq_ok`: the keys of a template are assigned without a collision if it has words
  for its parts, and looking a position up in them gives its key.
* `Block.Spells.slotKeys`: the keys on the way to a position are found at the positions of the parts
  that enclose it.
-/

namespace LiveTemplate

/-! ## Walking to a position -/

/-- The body of a part to which a step leads. -/
def Part.bodyAt? : PositionStep → Part → Option Block
  | .body, .branch _ _ body _ _ => some body
  | .otherwise, .branch _ _ _ otherwise _ => otherwise
  | .body, .include _ _ body _ => some body
  | _, _ => none

theorem Part.addressable_of_bodyAt? {part : Part} (h : part.addressable = true)
    {step : PositionStep} {body : Block} (hb : part.bodyAt? step = some body) :
    body.addressable = true := by
  cases part with
  | branch kind head inner otherwise span =>
    obtain ⟨hinner, helse⟩ := Part.addressable_branch.mp h
    cases step with
    | body => exact Option.some.inj hb ▸ hinner
    | otherwise => exact helse body hb
    | part => cases hb
  | «include» name argument inner span =>
    cases step with
    | body => exact Option.some.inj hb ▸ h
    | part | otherwise => cases hb
  | literal | print | bind => cases step <;> cases hb

/-- The slot key of the part at a position. -/
def Block.keyAt? : Position → Block → Option Nat
  | [.part index], block => (layout block).keys[index]?.join
  | .part index :: step :: rest, block =>
    block[index]?.bind fun part => (part.bodyAt? step).bind (keyAt? rest)
  | _, _ => none

/-- The key that stands behind a part, at some steps from it. -/
def Part.keyAt? : Position → Part → Option Nat
  | step :: rest, part => (part.bodyAt? step).bind (Block.keyAt? rest)
  | [], _ => none

/-! ## Lists of keys -/

namespace KeyList

/-- A list of keys has exactly the entries that are asked for, all of them behind one position. -/
def Lists (keys : KeyList) (above : Position) (entry : Position → Nat → Prop) : Prop :=
  ∀ position key, (position, key) ∈ keys ↔ ∃ rest, position = above ++ rest ∧ entry rest key

variable {keys others : KeyList} {above : Position} {entry other : Position → Nat → Prop}

theorem Lists.nil (h : ∀ rest key, ¬ entry rest key) : Lists [] above entry := fun _ _ =>
  iff_of_false List.not_mem_nil fun ⟨_, _, he⟩ => h _ _ he

theorem Lists.append (h : Lists keys above entry) (ho : Lists others above other) :
    Lists (keys ++ others) above fun rest key => entry rest key ∨ other rest key := by
  intro position key
  rw [List.mem_append, h, ho]
  simp only [and_or_left, exists_or]

theorem Lists.congr (h : Lists keys above entry)
    (he : ∀ rest key, entry rest key ↔ other rest key) : Lists keys above other := by
  intro position key
  rw [h]
  simp only [he]

/-- The entries behind a step, seen from before it. -/
theorem Lists.step {step : PositionStep} (h : Lists keys (above ++ [step]) entry) :
    Lists keys above fun rest key => ∃ tail, rest = step :: tail ∧ entry tail key := by
  intro position key
  rw [h]
  constructor
  · rintro ⟨tail, rfl, he⟩
    exact ⟨step :: tail, List.append_assoc _ _ _, tail, rfl, he⟩
  · rintro ⟨_, rfl, tail, rfl, he⟩
    exact ⟨tail, (List.append_assoc above [step] tail).symm, he⟩

/-- Looking up finds what is listed, where there is one key at most for each position. -/
theorem Lists.lookup {find : Position → Option Nat}
    (h : Lists keys [] fun rest key => find rest = some key) (position : Position) :
    keys.lookup position = find position := by
  have hmem (key : Nat) : (position, key) ∈ keys ↔ find position = some key := by
    rw [h]
    exact ⟨fun ⟨_, he, hf⟩ => he ▸ hf, fun hf => ⟨position, rfl, hf⟩⟩
  cases hl : keys.lookup position with
  | none =>
    rw [List.lookup_eq_none_iff] at hl
    cases hf : find position with
    | none => rfl
    | some key => simpa using hl _ ((hmem key).mpr hf)
  | some key =>
    obtain ⟨_, _, rfl, -⟩ := List.lookup_eq_some_iff.mp hl
    exact ((hmem key).mp (by simp)).symm

end KeyList

/-! ## Assigning keys -/

open KeyList

/-- The key at a position in the parts of a block from an index on. -/
def KeyFrom (index : Nat) (keys : List (Option Nat)) (parts : List Part) (position : Position)
    (key : Nat) : Prop :=
  ∃ i tail, position = .part (index + i) :: tail ∧
    (tail = [] ∧ keys[i]? = some (some key) ∨ (parts[i]?.bind (Part.keyAt? tail)) = some key)

theorem keyFrom_cons {index : Nat} {own : Option Nat} {keys : List (Option Nat)} {part : Part}
    {parts : List Part} {position : Position} {key : Nat} :
    KeyFrom index (own :: keys) (part :: parts) position key ↔
      ((position = [.part index] ∧ own = some key) ∨
        ∃ tail, position = .part index :: tail ∧ part.keyAt? tail = some key) ∨
      KeyFrom (index + 1) keys parts position key := by
  constructor
  · rintro ⟨_ | i, tail, rfl, h⟩
    · rcases h with ⟨rfl, h⟩ | h
      · exact .inl (.inl ⟨rfl, Option.some.inj h⟩)
      · exact .inl (.inr ⟨tail, rfl, h⟩)
    · exact .inr ⟨i, tail, by rw [Nat.add_right_comm]; rfl, h⟩
  · rintro ((⟨rfl, rfl⟩ | ⟨tail, rfl, h⟩) | ⟨i, tail, rfl, h⟩)
    · exact ⟨0, [], rfl, .inl ⟨rfl, rfl⟩⟩
    · exact ⟨0, tail, rfl, .inr h⟩
    · exact ⟨i + 1, tail, by rw [Nat.add_right_comm]; rfl, h⟩

theorem keyFrom_layout {block : Block} {position : Position} {key : Nat} :
    KeyFrom 0 (Block.layout block).keys block position key ↔ block.keyAt? position = some key := by
  constructor
  · rintro ⟨i, tail, rfl, h⟩
    rw [Nat.zero_add]
    rcases h with ⟨rfl, h⟩ | h
    · exact Option.join_eq_some_iff.mpr h
    · cases tail with
      | nil =>
        obtain ⟨part, -, ⟨⟩⟩ := Option.bind_eq_some_iff.mp h
      | cons step rest => exact h
  · intro h
    match position with
    | [.part i] => exact ⟨i, [], by rw [Nat.zero_add], .inl ⟨rfl, Option.join_eq_some_iff.mp h⟩⟩
    | .part i :: step :: rest => exact ⟨i, step :: rest, by rw [Nat.zero_add], .inr h⟩
    | [] | .body :: _ | .otherwise :: _ => cases h

theorem PositionStep.toPart_of_lt {index : Nat} (h : index < wordLimit) :
    toPart index = .part index :=
  congrArg part (toWord_of_lt h)

/-- The keys in the parts of a block are assigned, whatever stands before them, if there are words
for the parts and no key is given twice. -/
def AssignsKeys (parts : List Part) : Prop :=
  ∀ (position : Position) (index : Nat) (seen : List Nat) (keys : List (Option Nat)),
    index + parts.length ≤ wordLimit → keys.length = parts.length → (keys.filterMap id).Nodup →
      (∀ key ∈ seen, some key ∉ keys) →
        ∃ list, blockKeys position index seen keys parts = .ok list ∧
          Lists list position (KeyFrom index keys parts)

theorem AssignsKeys.layout {block : Block} (h : AssignsKeys block) (ha : block.addressable = true)
    (position : Position) :
    ∃ list, blockKeys position 0 [] (Block.layout block).keys block = .ok list ∧
      Lists list position fun rest key => block.keyAt? rest = some key := by
  have hwords : 0 + block.length ≤ wordLimit := by
    rw [Nat.zero_add]
    exact Nat.le_of_lt (Block.addressable_iff.mp ha).1
  have hn : ((Block.layout block).keys.filterMap id).Nodup := by
    rw [Block.filterMap_keys_of_lt (Block.countP_lt_of_addressable ha)]
    exact List.nodup_range
  obtain ⟨list, he, hl⟩ :=
    h position 0 [] _ hwords (Block.length_keys block) hn (List.forall_mem_nil _)
  exact ⟨list, he, hl.congr fun _ _ => keyFrom_layout⟩

/-- Only the bodies of a part have keys inside it. -/
theorem Part.keyAt?_eq_some {part : Part} {position : Position} {key : Nat} :
    part.keyAt? position = some key ↔
      (∃ tail, position = .body :: tail ∧
        (part.bodyAt? .body).bind (Block.keyAt? tail) = some key) ∨
      ∃ tail, position = .otherwise :: tail ∧
        (part.bodyAt? .otherwise).bind (Block.keyAt? tail) = some key := by
  match position with
  | [] => simp [Part.keyAt?]
  | .part index :: tail => cases part <;> simp [Part.keyAt?, Part.bodyAt?]
  | .body :: tail => simp [Part.keyAt?]
  | .otherwise :: tail => simp [Part.keyAt?]

theorem AssignsKeys.nil : AssignsKeys [] := by
  rintro position index seen keys - hl - -
  cases List.length_eq_zero_iff.mp hl
  refine ⟨[], rfl, .nil ?_⟩
  rintro _ _ ⟨i, tail, -, h⟩
  simp at h

theorem lists_own (position : Position) (index : Nat) (own : Option Nat) :
    Lists (own.map fun key => (position ++ [.part index], key)).toList position
      fun rest key => rest = [.part index] ∧ own = some key := by
  intro found key
  rw [Option.mem_toList, Option.map_eq_some_iff]
  constructor
  · rintro ⟨_, rfl, ⟨⟩⟩
    exact ⟨_, rfl, rfl, rfl⟩
  · rintro ⟨_, rfl, rfl, rfl⟩
    exact ⟨key, rfl, rfl⟩

theorem AssignsKeys.cons {part : Part} {rest : List Part}
    (hp : ∀ position, ∃ keys, part.innerKeys position = .ok keys ∧
      Lists keys position fun rest key => part.keyAt? rest = some key)
    (hr : AssignsKeys rest) : AssignsKeys (part :: rest) := by
  intro position index seen keys hw hl hn hseen
  rw [List.length_cons] at hw
  have hhere := PositionStep.toPart_of_lt (show index < wordLimit by omega)
  obtain ⟨own, keys, rfl⟩ := List.exists_cons_of_length_eq_add_one hl
  obtain ⟨inner, hinner, hin⟩ := hp (position ++ [.part index])
  have hfree : ∀ key ∈ own.toList ++ seen, some key ∉ keys := by
    intro key hm hk
    rcases List.mem_append.mp hm with hm | hm
    · obtain rfl := Option.mem_toList.mp hm
      exact (List.nodup_cons.mp hn).1 (List.mem_filterMap.mpr ⟨_, hk, rfl⟩)
    · exact hseen key hm (List.mem_cons_of_mem _ hk)
  obtain ⟨others, hothers, ho⟩ := hr position (index + 1) (own.toList ++ seen) keys
    (by omega) (Nat.succ.inj hl) (hn.sublist ((List.sublist_cons_self own keys).filterMap id)) hfree
  refine ⟨_, ?_, (((lists_own position index own).append hin.step).append ho).congr
    fun _ _ => keyFrom_cons.symm⟩
  cases own with
  | none =>
    simp only [blockKeys, hhere, List.head?_cons, List.tail_cons, Option.join_some]
    exact bind_eq_ok.mpr
      ⟨[], rfl, bind_eq_ok.mpr ⟨inner, hinner, bind_eq_ok.mpr ⟨others, hothers, rfl⟩⟩⟩
  | some key =>
    have hnot : key ∉ seen := fun hm => hseen key hm List.mem_cons_self
    simp only [blockKeys, hhere, List.head?_cons, List.tail_cons, Option.join_some, if_neg hnot]
    exact bind_eq_ok.mpr
      ⟨[_], rfl, bind_eq_ok.mpr ⟨inner, hinner, bind_eq_ok.mpr ⟨others, hothers, rfl⟩⟩⟩

mutual

/-- The keys inside a part are assigned, and they are those that stand behind it. -/
theorem innerKeys_eq_ok (part : Part) (ha : part.addressable = true) (position : Position) :
    ∃ keys, part.innerKeys position = .ok keys ∧
      Lists keys position fun rest key => part.keyAt? rest = some key := by
  cases part with
  | literal | print | bind =>
    refine ⟨[], rfl, .nil fun rest key h => ?_⟩
    simp [Part.keyAt?_eq_some, Part.bodyAt?] at h
  | branch kind head body otherwise span =>
    obtain ⟨habody, haelse⟩ := Part.addressable_branch.mp ha
    obtain ⟨inBody, hbody, hb⟩ :=
      (assignsKeys body (Block.addressable_iff.mp habody).2).layout habody (position ++ [.body])
    obtain ⟨inElse, helse, he⟩ := elseKeys_eq_ok otherwise haelse (position ++ [.otherwise])
    refine ⟨inBody ++ inElse, ?_, (hb.step.append he.step).congr fun rest key => ?_⟩
    · rw [Part.innerKeys, hbody, helse]
      rfl
    · rw [Part.keyAt?_eq_some]
      rfl
  | «include» name argument body span =>
    obtain ⟨inBody, hbody, hb⟩ :=
      (assignsKeys body (Block.addressable_iff.mp ha).2).layout ha (position ++ [.body])
    refine ⟨inBody, ?_, hb.step.congr fun rest key => ?_⟩
    · rw [Part.innerKeys, hbody]
    · rw [Part.keyAt?_eq_some]
      simp [Part.bodyAt?]
termination_by structural part

theorem assignsKeys (parts : List Part) (ha : addressableParts parts = true) :
    AssignsKeys parts := by
  cases parts with
  | nil => exact .nil
  | cons part rest =>
    obtain ⟨hpart, hrest⟩ := Bool.and_eq_true_iff.mp ha
    exact .cons (innerKeys_eq_ok part hpart) (assignsKeys rest hrest)
termination_by structural parts

theorem elseKeys_eq_ok (otherwise : Option (List Part))
    (ha : ∀ parts ∈ otherwise, Block.addressable parts = true) (position : Position) :
    ∃ keys, elseKeys position otherwise = .ok keys ∧
      Lists keys position fun rest key => otherwise.bind (Block.keyAt? rest) = some key := by
  cases otherwise with
  | none => exact ⟨[], rfl, .nil fun _ _ h => nomatch h⟩
  | some parts =>
    have haparts := ha parts rfl
    exact (assignsKeys parts (Block.addressable_iff.mp haparts).2).layout haparts position
termination_by structural otherwise

end

namespace Block

/-- The keys of an addressable block and of the blocks inside it. -/
theorem assigns_of_addressable {root : Block} (ha : root.addressable = true) :
    ∃ keys, root.assignKeys = .ok keys ∧
      Lists keys [] fun position key => root.keyAt? position = some key :=
  (assignsKeys root (addressable_iff.mp ha).2).layout ha []

/-- The keys of a template are assigned without a collision, and each position has the key there
that the layout around it gives it. -/
theorem assignKeys_eq_ok {root : Block} (ha : root.addressable = true) :
    ∃ keys, root.assignKeys = .ok keys ∧
      ∀ position, keys.lookup position = root.keyAt? position := by
  obtain ⟨keys, he, hl⟩ := assigns_of_addressable ha
  exact ⟨keys, he, hl.lookup⟩

end Block

/-! ## Enclosing parts -/

namespace Position

/-- The positions of the parts on the way to a position, the outermost first and its own last. -/
def enclosing : Position → List Position
  | [] => []
  | .part index :: rest => [.part index] :: (enclosing rest).map (.part index :: ·)
  | step :: rest => (enclosing rest).map (step :: ·)

/-- The slot keys of the parts on the way to a position, as a list of keys gives them. -/
def slotKeys (keys : KeyList) (position : Position) : Option KeyPath :=
  position.enclosing.mapM fun above => keys.lookup above

end Position

/-- The position of a part with a slot, and the keys on the way to it. -/
inductive Block.Spells : Block → Position → KeyPath → Prop
  | here {block index key} (hk : (layout block).keys[index]? = some (some key)) :
      Spells block [.part index] [key]
  | inside {block index part key step body position path}
      (hk : (layout block).keys[index]? = some (some key)) (hp : block[index]? = some part)
      (hb : part.bodyAt? step = some body) (h : Spells body position path) :
      Spells block (.part index :: step :: position) (key :: path)

namespace Block.Spells

variable {block : Block} {position : Position} {path : KeyPath}

theorem isSome_keyAt? (h : Spells block position path) : (block.keyAt? position).isSome := by
  induction h with
  | here hk => rw [keyAt?, hk]; rfl
  | inside _ hp hb _ ih => rw [keyAt?, hp, Option.bind_some, hb]; exact ih

/-- The keys on the way to a position are those of the parts that enclose it. -/
theorem mapM_enclosing (h : Spells block position path) :
    position.enclosing.mapM (block.keyAt? ·) = some path := by
  induction h with
  | here hk => simp [Position.enclosing, keyAt?, hk]
  | @inside block index part key step body position path hk hp hb h ih =>
    have hbelow (above : Position) :
        block.keyAt? (.part index :: step :: above) = body.keyAt? above := by
      rw [keyAt?, hp, Option.bind_some, hb, Option.bind_some]
    -- A step into a body adds no position of its own.
    have henclosing : Position.enclosing (.part index :: step :: position) =
        [.part index] :: position.enclosing.map fun above => .part index :: step :: above := by
      cases step with
      | part => cases part <;> cases hb
      | body | otherwise =>
        rw [Position.enclosing, Position.enclosing, List.map_map]
        · rfl
        · exact fun _ h => nomatch h
    have hown : block.keyAt? [.part index] = some key := by
      rw [keyAt?, hk, Option.join_some]
    rw [henclosing, List.mapM_cons, List.mapM_map, Function.comp_def, funext hbelow, ih, hown]
    rfl

/-- The keys on the way to a position, as a list gives them that has the keys of the layouts. -/
theorem slotKeys (h : Spells block position path) {keys : KeyList}
    (hk : ∀ position, keys.lookup position = block.keyAt? position) :
    position.slotKeys keys = some path := by
  rw [Position.slotKeys, funext hk]
  exact h.mapM_enclosing

end Block.Spells

end LiveTemplate
