import LiveTemplate.Key.Segment
import LiveTemplate.Render.Wire

/-!
# Keys as text

A key is written in decimal digits (`segment`), a path of keys with dots between them. Reading gives
back what was written: a key below the limit (`keyOfSegment?_segment`) and the segments of a path
(`segments_text`). No key is written like the field of the texts or of the items of a node.
-/

namespace LiveTemplate

namespace KeyPath

/-- A key as a piece of an id. -/
def segment (key : Nat) : List Char :=
  (toString key).toList

theorem segment_eq (key : Nat) : segment key = Nat.toDigits 10 key := by
  rw [segment, Nat.toString_eq_repr, Nat.toList_repr]

theorem isDigit_of_mem_segment {key : Nat} {c : Char} (h : c ∈ segment key) : c.isDigit = true :=
  Nat.isDigit_of_mem_toDigits (by decide) (by decide) (segment_eq key ▸ h)

theorem segment_ne_nil (key : Nat) : segment key ≠ [] := by
  rw [segment_eq]
  exact Nat.toDigits_ne_nil

theorem digitsValue_segment (key : Nat) : Double.digitsValue (segment key) = key := by
  rw [segment_eq]
  exact Nat.ofDigitChars_eq_foldl.symm.trans Nat.ofDigitChars_ten_toDigits

theorem keyOfSegment?_segment {key : Nat} (h : key < keyLimit) :
    keyOfSegment? (segment key) = some key := by
  have hall : (segment key).all Char.isDigit = true :=
    List.all_eq_true.mpr fun c hc => isDigit_of_mem_segment hc
  simp [keyOfSegment?, segment_ne_nil, hall, digitsValue_segment, h]

theorem toString_inj {a b : Nat} : toString a = toString b ↔ a = b := by
  constructor
  · intro h
    rw [← digitsValue_segment a, ← digitsValue_segment b, segment, segment, h]
  · exact congrArg _

/-- A name with a character that is no digit is not that of a key. -/
theorem toString_ne {key : Nat} {name : String} {c : Char} (hc : c ∈ name.toList)
    (hd : c.isDigit = false) : toString key ≠ name := by
  intro h
  have hm : c ∈ segment key := by
    rw [segment, h]
    exact hc
  rw [isDigit_of_mem_segment hm] at hd
  cases hd

theorem toString_ne_staticsKey (key : Nat) : toString key ≠ Wire.staticsKey :=
  toString_ne (c := 's') (by decide) (by decide)

theorem toString_ne_itemsKey (key : Nat) : toString key ≠ Wire.itemsKey :=
  toString_ne (c := 'd') (by decide) (by decide)

/-! ## Paths -/

theorem splitDots_of_no_dot {piece : List Char} (h : '.' ∉ piece) : splitDots piece = [piece] := by
  induction piece with
  | nil => rfl
  | cons c rest ih =>
    rw [List.mem_cons, not_or] at h
    rw [splitDots, if_neg (Ne.symm h.1), ih h.2]

theorem splitDots_append {piece : List Char} (rest : List Char) (h : '.' ∉ piece) :
    splitDots (piece ++ '.' :: rest) = piece :: splitDots rest := by
  induction piece with
  | nil => rfl
  | cons c piece ih =>
    rw [List.mem_cons, not_or] at h
    rw [List.cons_append, splitDots, if_neg (Ne.symm h.1), ih h.2]

theorem dot_not_mem_segment (key : Nat) : '.' ∉ segment key := by
  intro h
  have := isDigit_of_mem_segment h
  cases this

theorem text_cons_cons (key next : Nat) (path : KeyPath) :
    text (key :: next :: path) = toString key ++ "." ++ text (next :: path) := by
  rw [text, List.map_cons, List.map_cons, String.intercalate_cons_cons]
  rfl

theorem text_ne_empty {path : KeyPath} (h : path ≠ []) : text path ≠ "" := by
  intro he
  have hl := congrArg String.toList he
  match path with
  | [key] =>
    rw [text, List.map_singleton, String.intercalate_singleton] at hl
    exact segment_ne_nil key hl
  | key :: next :: path =>
    rw [text_cons_cons] at hl
    simp at hl

theorem splitDots_text {path : KeyPath} (h : path ≠ []) :
    splitDots (text path).toList = path.map segment := by
  induction path with
  | nil => exact absurd rfl h
  | cons key path ih =>
    cases path with
    | nil =>
      rw [text, List.map_singleton, String.intercalate_singleton]
      exact splitDots_of_no_dot (dot_not_mem_segment key)
    | cons next path =>
      rw [text_cons_cons]
      have := splitDots_append (text (next :: path)).toList (dot_not_mem_segment key)
      rw [ih (List.cons_ne_nil _ _)] at this
      simpa [segment] using this

theorem splitDots_ne_nil (cs : List Char) : splitDots cs ≠ [] := by
  cases cs with
  | nil => exact List.cons_ne_nil _ _
  | cons c rest =>
    rw [splitDots]
    split
    · exact List.cons_ne_nil _ _
    · split <;> exact List.cons_ne_nil _ _

theorem segments_eq_nil {id : String} : segments id = [] ↔ id = "" := by
  rw [segments]
  split
  · rename_i h
    exact iff_of_true rfl h
  · rename_i h
    exact iff_of_false (splitDots_ne_nil _) h

/-- An id that was written for a path is read as that path. -/
theorem segments_text (path : KeyPath) : segments (text path) = path.map segment := by
  by_cases h : path = []
  · rw [h]
    rfl
  · rw [segments, if_neg (text_ne_empty h), splitDots_text h]

theorem segment_inj {a b : Nat} : segment a = segment b ↔ a = b := by
  constructor
  · intro h
    rw [← digitsValue_segment a, h, digitsValue_segment]
  · exact congrArg _

/-- Different paths are written as different ids. -/
theorem text_inj {path other : KeyPath} : text path = text other ↔ path = other := by
  constructor
  · intro h
    have hs := segments_text path
    rw [h, segments_text] at hs
    exact (List.map_inj_right fun _ _ => segment_inj.mp).mp hs.symm
  · exact congrArg _

end KeyPath

end LiveTemplate
