/-!
# Readers with ordered choice

A `Reader` takes what it can from the front of a list: it gives a value and what is left, or it
fails and takes nothing. Of two readers in `r <|> s` the second one is tried only where the first
one fails, on the same list. `many r` goes on as long as `r` succeeds and never takes less.
-/

namespace LiveTemplate

/-- Reads a value from the front of a list. -/
abbrev Reader (τ : Type) :=
  StateT (List τ) Option

namespace Reader

variable {τ α β : Type} {r : Reader τ α} {xs rest left : List τ} {a : α} {as : List α}

/-! ## Sequence and choice -/

theorem run_bind_eq_some_iff {f : α → Reader τ β} {b : β} :
    (r >>= f).run xs = some (b, left) ↔
      ∃ a rest, r.run xs = some (a, rest) ∧ (f a).run rest = some (b, left) := by
  rw [StateT.run_bind]
  exact Option.bind_eq_some_iff.trans Prod.exists

theorem run_bind_of_none {f : α → Reader τ β} (h : r.run xs = none) :
    (r >>= f).run xs = none := by
  rw [StateT.run_bind, h]
  rfl

theorem run_map_eq_some_iff {f : α → β} {b : β} :
    (f <$> r).run xs = some (b, rest) ↔ ∃ a, r.run xs = some (a, rest) ∧ f a = b := by
  rw [StateT.run_map, Option.map_eq_map, Option.map_eq_some_iff]
  constructor
  · rintro ⟨⟨a, _⟩, h, ⟨⟩⟩
    exact ⟨a, h, rfl⟩
  · rintro ⟨a, h, rfl⟩
    exact ⟨(a, rest), h, rfl⟩

@[simp]
theorem run_orElse (r s : Reader τ α) (xs : List τ) :
    (r <|> s).run xs = (r.run xs).or (s.run xs) := by
  change (r.run xs <|> s.run xs) = _
  exact Option.orElse_eq_or

theorem run_orElse_eq_some {s : Reader τ α} (h : (r <|> s).run xs = some (a, rest)) :
    r.run xs = some (a, rest) ∨ r.run xs = none ∧ s.run xs = some (a, rest) := by
  rwa [run_orElse, Option.or_eq_some_iff] at h

/-! ## One item -/

/-- Reads one item that has a value. -/
def item (value? : τ → Option α) : Reader τ α
  | [] => none
  | x :: rest => (value? x).map (·, rest)

/-- Reads one item that is `expected`. -/
def just [DecidableEq τ] (expected : τ) : Reader τ Unit :=
  item fun x => if x = expected then some () else none

@[simp]
theorem run_item_nil (value? : τ → Option α) : (item value?).run [] = none :=
  rfl

@[simp]
theorem run_item_cons (value? : τ → Option α) (x : τ) (rest : List τ) :
    (item value?).run (x :: rest) = (value? x).map (·, rest) :=
  rfl

theorem run_item_eq_some_iff {value? : τ → Option α} :
    (item value?).run xs = some (a, rest) ↔ ∃ x, xs = x :: rest ∧ value? x = some a := by
  cases xs with
  | nil => exact ⟨nofun, nofun⟩
  | cons x xs =>
    rw [run_item_cons, Option.map_eq_some_iff]
    constructor
    · rintro ⟨_, h, ⟨⟩⟩
      exact ⟨x, rfl, h⟩
    · rintro ⟨_, ⟨⟩, h⟩
      exact ⟨a, h, rfl⟩

@[simp]
theorem run_just_nil [DecidableEq τ] (expected : τ) : (just expected).run [] = none :=
  rfl

@[simp]
theorem run_just_cons [DecidableEq τ] (expected x : τ) (rest : List τ) :
    (just expected).run (x :: rest) = if x = expected then some ((), rest) else none := by
  rw [just, run_item_cons, apply_ite (Option.map _)]
  rfl

theorem run_just_eq_some_iff [DecidableEq τ] {expected : τ} {u : Unit} :
    (just expected).run xs = some (u, rest) ↔ xs = expected :: rest := by
  rw [just, run_item_eq_some_iff]
  constructor
  · rintro ⟨x, rfl, h⟩
    split at h
    · rename_i hx
      rw [hx]
    · cases h
  · rintro rfl
    exact ⟨expected, rfl, if_pos rfl⟩

/-! ## An optional part -/

/-- Reads with `r`, or takes nothing. -/
def maybe (r : Reader τ α) : Reader τ (Option α) :=
  some <$> r <|> pure none

theorem run_maybe_of_some (h : r.run xs = some (a, rest)) :
    (maybe r).run xs = some (some a, rest) := by
  simp [maybe, h]

theorem run_maybe_of_none (h : r.run xs = none) : (maybe r).run xs = some (none, xs) := by
  simp [maybe, h]

theorem run_maybe_eq_some {value : Option α} (h : (maybe r).run xs = some (value, rest)) :
    (value = none ∧ rest = xs) ∨ ∃ a, value = some a ∧ r.run xs = some (a, rest) := by
  cases hr : r.run xs with
  | none =>
    cases (run_maybe_of_none hr).symm.trans h
    exact .inl ⟨rfl, rfl⟩
  | some result =>
    cases (run_maybe_of_some hr).symm.trans h
    exact .inr ⟨_, rfl, rfl⟩

/-! ## Repetition -/

/-- What is read with `r` as often as it succeeds. If it takes nothing, it is not tried again. -/
def repeated (r : Reader τ α) (xs : List τ) : List α × List τ :=
  match r.run xs with
  | none => ([], xs)
  | some (a, rest) =>
    if _h : rest.length < xs.length then
      let (as, left) := repeated r rest
      (a :: as, left)
    else ([a], rest)
termination_by xs.length

/-- Reads with `r` as often as it succeeds. -/
def many (r : Reader τ α) : Reader τ (List α) :=
  fun xs => some (repeated r xs)

theorem run_many_of_none (h : r.run xs = none) : (many r).run xs = some ([], xs) := by
  change some (repeated r xs) = _
  rw [repeated, h]

theorem run_many_of_some (h : r.run xs = some (a, rest)) (hlt : rest.length < xs.length)
    (more : (many r).run rest = some (as, left)) : (many r).run xs = some (a :: as, left) := by
  have hrepeated : repeated r rest = (as, left) := Option.some.inj more
  change some (repeated r xs) = _
  rw [repeated, h]
  simp only [dif_pos hlt, hrepeated]

/-- A repetition never fails. -/
theorem exists_run_many (r : Reader τ α) (xs : List τ) :
    ∃ as left, (many r).run xs = some (as, left) :=
  ⟨_, _, rfl⟩

/-- Several values are read with `r`, one behind the other. -/
inductive Repeats (r : Reader τ α) : List τ → List α → List τ → Prop
  | nil {xs : List τ} : Repeats r xs [] xs
  | cons {xs rest left : List τ} {a : α} {as : List α} (first : r.run xs = some (a, rest))
      (more : Repeats r rest as left) : Repeats r xs (a :: as) left

theorem repeats_repeated (r : Reader τ α) (xs : List τ) :
    Repeats r xs (repeated r xs).1 (repeated r xs).2 := by
  fun_induction repeated r xs with
  | case1 => exact .nil
  | case2 xs a rest hr hlt as left hmore ih =>
    rw [hmore] at ih
    exact .cons hr ih
  | case3 xs a rest hr => exact .cons hr .nil

theorem repeats_of_many (h : (many r).run xs = some (as, left)) : Repeats r xs as left := by
  have hrepeated : repeated r xs = (as, left) := Option.some.inj h
  have hrepeats := repeats_repeated r xs
  rwa [hrepeated] at hrepeats

/-! ## Everything -/

/-- Reads a whole list. -/
def readAll? (r : Reader τ α) (xs : List τ) : Option α :=
  match r.run xs with
  | some (a, []) => some a
  | _ => none

theorem readAll?_eq_some_iff : readAll? r xs = some a ↔ r.run xs = some (a, []) := by
  unfold readAll?
  split
  · rename_i h
    rw [h, Option.some.injEq, Option.some.injEq, Prod.mk.injEq, and_iff_left rfl]
  · rename_i hne
    exact ⟨nofun, fun h => absurd h (hne a)⟩

end Reader

end LiveTemplate
