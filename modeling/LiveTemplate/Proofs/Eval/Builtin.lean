import LiveTemplate.Eval.Builtin
import LiveTemplate.Proofs.Eval.Reordered

/-!
# Builtin functions and the order of entries

No builtin function tells in which order the entries of maps stand (`builtins_insensitive`). A
length counts entries, an index looks up a key, collections are not compared, and what is printed is
sorted.
-/

namespace LiveTemplate

open Value

/-! ## Arguments -/

section Arguments

variable {arguments others : List Value}

theorem getD_reordered {value other : Option Value} (h : Option.Rel Reordered value other) :
    (value.getD .null).Reordered (other.getD .null) := by
  cases h with
  | none => exact .null
  | some related => exact related

theorem head?_rel (h : List.Forall₂ Reordered arguments others) :
    Option.Rel Reordered arguments.head? others.head? := by
  cases h with
  | nil => exact .none
  | cons first _ => exact .some first

theorem forall₂_tail (h : List.Forall₂ Reordered arguments others) :
    List.Forall₂ Reordered arguments.tail others.tail := by
  cases h with
  | nil => exact .nil
  | cons _ rest => exact rest

theorem getLast?_rel (h : List.Forall₂ Reordered arguments others) :
    Option.Rel Reordered arguments.getLast? others.getLast? := by
  rw [← List.head?_reverse, ← List.head?_reverse]
  exact head?_rel (List.rel_reverse h)

theorem getElem?_rel (h : List.Forall₂ Reordered arguments others) (position : Nat) :
    Option.Rel Reordered arguments[position]? others[position]? := by
  rw [← List.head?_drop, ← List.head?_drop]
  exact head?_rel (List.forall₂_drop position h)

theorem find?_truthy_rel (h : List.Forall₂ Reordered arguments others) (decisive : Bool) :
    Option.Rel Reordered (arguments.find? (·.truthy == decisive))
      (others.find? (·.truthy == decisive)) := by
  induction h with
  | nil => exact .none
  | cons first _ ih =>
    rw [List.find?_cons, List.find?_cons, first.truthy_eq]
    split
    · exact .some first
    · exact ih

theorem map_display_eq (h : List.Forall₂ Reordered arguments others) :
    arguments.map Value.display = others.map Value.display := by
  induction h with
  | nil => rfl
  | cons first _ ih => rw [List.map_cons, List.map_cons, first.display_eq, ih]

end Arguments

/-! ## Formats -/

namespace Format

theorem write_eq {value other : Value} (h : value.Reordered other) (verb : Char)
    (precision : Option Nat) : write verb precision value = write verb precision other := by
  unfold write
  rw [h.typeName_eq, h.display_eq, h.int?_eq, h.float?_eq, h.bool?_eq]

theorem fill_eq {values others : List Value} (h : List.Forall₂ Reordered values others)
    (problem : Option FormatProblem) (pieces : List Piece) :
    fill problem pieces values = fill problem pieces others := by
  induction pieces generalizing values others with
  | nil => cases h <;> rfl
  | cons piece rest ih =>
    cases piece with
    | character c => rw [fill, fill, ih h]
    | verb verb precision =>
      cases h with
      | nil => rfl
      | cons first later => rw [fill, fill, write_eq first, ih later]

end Format

namespace Builtin

/-! ## Arity -/

section Functions

variable {arguments others : List Value} {left left' right right' : Value}

theorem exactly_agree (h : List.Forall₂ Reordered arguments others) (count : Nat) :
    Agree Eq (exactly count arguments) (exactly count others) := by
  rw [exactly, exactly, h.length_eq]
  exact .refl _

theorem atLeast_agree (h : List.Forall₂ Reordered arguments others) (count : Nat) :
    Agree Eq (atLeast count arguments) (atLeast count others) := by
  rw [atLeast, atLeast, h.length_eq]
  exact .refl _

/-! ## Logic -/

theorem firstDeciding_insensitive (decisive : Bool) :
    Function.Insensitive (firstDeciding decisive) := by
  intro arguments others h
  refine (atLeast_agree h 1).bind fun _ _ _ => .ok (getD_reordered ?_)
  have hfirst := find?_truthy_rel h decisive
  generalize arguments.find? _ = found, others.find? _ = found' at hfirst
  cases hfirst with
  | none => exact getLast?_rel h
  | some related => exact .some related

theorem not_insensitive : Function.Insensitive Builtin.not := by
  intro arguments others h
  refine (exactly_agree h 1).bind fun _ _ _ => ?_
  rw [(getD_reordered (head?_rel h)).truthy_eq]
  exact .ok (.bool _)

/-! ## Collections -/

theorem lengthOf_agree {value other : Value} (h : value.Reordered other) :
    Agree Eq (lengthOf value) (lengthOf other) := by
  cases h with
  | text s => exact .refl _
  | list each => exact .ok each.length_eq
  | map unique reorder each => exact .ok (Reordered.map unique reorder each).length_eq
  | _ => exact .error _

theorem len_insensitive : Function.Insensitive len := by
  intro arguments others h
  refine (exactly_agree h 1).bind fun _ _ _ => ?_
  refine (lengthOf_agree (getD_reordered (head?_rel h))).bind fun n _ hn => ?_
  rw [hn]
  exact .ok (.int _)

theorem item_agree {collection collection' key key' : Value}
    (hc : collection.Reordered collection') (hk : key.Reordered key') :
    Agree Reordered (item collection key) (item collection' key') := by
  cases hc with
  | @list items items' each =>
    cases hk with
    | int position =>
      cases position with
      | ofNat position =>
        have hitem := getElem?_rel each position
        rw [item, item]
        generalize items[position]? = found, items'[position]? = found' at hitem
        cases hitem with
        | none => exact .error _
        | some related => exact .ok related
      | negSucc n => exact .error _
    | _ => exact .error _
  | map unique reorder each =>
    cases hk with
    | text key => exact .ok (getD_reordered ((Reordered.map unique reorder each).lookup key))
    | _ => exact .error _
  | null => exact .error _
  | _ => cases hk <;> exact .error _

theorem index_insensitive : Function.Insensitive index := by
  intro arguments others h
  refine (atLeast_agree h 1).bind fun _ _ _ => ?_
  refine Agree.foldlM ?_ (forall₂_tail h) (getD_reordered (head?_rel h))
  exact item_agree

/-! ## Comparison -/

theorem compareValues_eq (hl : left.Reordered left') (hr : right.Reordered right') :
    compareValues left right = compareValues left' right' := by
  cases hl <;> cases hr <;> rfl

theorem equalValues_eq (hl : left.Reordered left') (hr : right.Reordered right') :
    equalValues left right = equalValues left' right' := by
  cases hl <;> cases hr <;> rfl

theorem equalsAny_eq (hl : left.Reordered left') (h : List.Forall₂ Reordered arguments others) :
    equalsAny left arguments = equalsAny left' others := by
  induction h with
  | nil => rfl
  | cons first _ ih => rw [equalsAny, equalsAny, equalValues_eq hl first, ih]

theorem bool_agree (result : Except FunctionError Bool) :
    Agree Reordered (result >>= fun found => .ok (.bool found))
      (result >>= fun found => .ok (.bool found)) :=
  (Agree.refl result).bind fun found _ hfound => hfound ▸ .ok (.bool found)

theorem eq_insensitive : Function.Insensitive Builtin.eq := by
  intro arguments others h
  refine (atLeast_agree h 2).bind fun _ _ _ => ?_
  rw [equalsAny_eq (getD_reordered (head?_rel h)) (forall₂_tail h)]
  exact bool_agree _

theorem binary_insensitive {f : Value → Value → Except FunctionError Bool}
    (hf : ∀ {left left' right right' : Value}, left.Reordered left' → right.Reordered right' →
      f left right = f left' right') : Function.Insensitive (binary f) := by
  intro arguments others h
  refine (exactly_agree h 2).bind fun _ _ _ => ?_
  match h with
  | .nil => exact .ok .null
  | .cons _ .nil => exact .ok .null
  | .cons hl (.cons hr .nil) =>
    simp only [hf hl hr]
    exact bool_agree _
  | .cons _ (.cons _ (.cons _ _)) => exact .ok .null

theorem ne_insensitive : Function.Insensitive ne :=
  binary_insensitive fun hl hr => by rw [equalValues_eq hl hr]

theorem ordered_insensitive (accept : Ordering → Bool) :
    Function.Insensitive (ordered accept) :=
  binary_insensitive fun hl hr => by rw [compareValues_eq hl hr]

/-! ## Printing -/

theorem isText_eq {value other : Value} (h : value.Reordered other) :
    isText value = isText other := by
  rw [isText, isText, h.text?_eq]

theorem printed_eq (h : List.Forall₂ Reordered arguments others) :
    printed arguments = printed others := by
  induction h with
  | nil => rfl
  | cons first later ih =>
    cases later with
    | nil => exact first.display_eq
    | cons next _ =>
      rw [printed, printed, ih, first.display_eq, isText_eq first, isText_eq next]

/-- A function is insensitive that writes a text which is the same for any order of entries. -/
theorem text_insensitive {write : List Value → String}
    (hw : ∀ {arguments others : List Value}, List.Forall₂ Reordered arguments others →
      write arguments = write others) :
    Function.Insensitive fun arguments => .ok (.text (write arguments)) := by
  intro arguments others h
  show Agree Reordered (.ok (.text (write arguments))) (.ok (.text (write others)))
  rw [hw h]
  exact .ok (.text _)

theorem print_insensitive : Function.Insensitive print :=
  text_insensitive printed_eq

theorem println_insensitive : Function.Insensitive println :=
  text_insensitive fun h => by rw [map_display_eq h]

theorem html_insensitive : Function.Insensitive html :=
  text_insensitive fun h => by rw [printed_eq h]

theorem urlquery_insensitive : Function.Insensitive urlquery :=
  text_insensitive fun h => by rw [printed_eq h]

theorem printf_insensitive : Function.Insensitive printf := by
  intro arguments others h
  refine (atLeast_agree h 1).bind fun _ _ _ => ?_
  cases h with
  | nil => exact .error _
  | cons first later =>
    cases first with
    | text format =>
      simp only [Format.apply, Format.fill_eq later]
      split
      · exact .ok (.text _)
      · exact .error _
    | _ => exact .error _

end Functions

end Builtin

/-! ## The table -/

namespace FunctionTable

theorem mem_entries_registerAll {functions : List (String × Function)} {table : FunctionTable}
    {entry : String × Function} (h : entry ∈ (table.registerAll functions).entries) :
    entry ∈ table.entries ∨ entry ∈ functions := by
  induction functions generalizing table with
  | nil => exact .inl h
  | cons first rest ih =>
    rcases ih h with h | h
    · rcases List.mem_cons.mp h with rfl | h
      · exact .inr List.mem_cons_self
      · exact .inl (List.mem_filter.mp h).1
    · exact .inr (List.mem_cons_of_mem _ h)

theorem insensitive_registerAll {functions : List (String × Function)}
    (h : ∀ entry ∈ functions, Function.Insensitive entry.2) :
    (empty.registerAll functions).Insensitive := by
  intro name function hget
  obtain ⟨_, _, hentries, -⟩ := List.lookup_eq_some_iff.mp hget
  have hm : (name, function) ∈ (empty.registerAll functions).entries := by
    rw [hentries]
    simp
  exact h _ ((mem_entries_registerAll hm).resolve_left nofun)

open Builtin

theorem builtins_insensitive : builtins.Insensitive := by
  refine insensitive_registerAll ?_
  simp only [List.forall_mem_cons]
  exact ⟨firstDeciding_insensitive false, firstDeciding_insensitive true, not_insensitive,
    len_insensitive, index_insensitive, eq_insensitive, ne_insensitive, ordered_insensitive _,
    ordered_insensitive _, ordered_insensitive _, ordered_insensitive _, print_insensitive,
    println_insensitive, printf_insensitive, html_insensitive, urlquery_insensitive, nofun⟩

end FunctionTable

end LiveTemplate
