/-!
# Computations of several steps

A computation of several steps gives a result if and only if each of its steps does: `bind_eq_ok`
for steps that may fail, `run_bind_eq_ok` for steps that also change a state. It fails if and only
if one of its steps does after those before it succeeded: `bind_eq_error` and `run_bind_eq_error`.
-/

namespace LiveTemplate

theorem bind_eq_ok {ε α β : Type} {first : Except ε α} {next : α → Except ε β} {result : β} :
    first >>= next = .ok result ↔ ∃ value, first = .ok value ∧ next value = .ok result := by
  cases first with
  | error e =>
    constructor
    · intro h
      cases h
    · rintro ⟨value, h, -⟩
      cases h
  | ok value =>
    constructor
    · exact fun h => ⟨value, rfl, h⟩
    · rintro ⟨_, ⟨⟩, h⟩
      exact h

theorem bind_eq_error {ε α β : Type} {first : Except ε α} {next : α → Except ε β} {error : ε} :
    first >>= next = .error error ↔
      first = .error error ∨ ∃ value, first = .ok value ∧ next value = .error error := by
  cases first with
  | error e =>
    constructor
    · rintro ⟨⟩
      exact .inl rfl
    · rintro (h | ⟨value, ⟨⟩, -⟩)
      cases h
      rfl
  | ok value =>
    constructor
    · exact fun h => .inr ⟨value, rfl, h⟩
    · rintro (⟨⟨⟩⟩ | ⟨_, ⟨⟩, h⟩)
      exact h

/-- After a check without a result. -/
theorem check_bind_eq_ok {ε β : Type} {check : Except ε Unit} {next : Unit → Except ε β}
    {result : β} :
    check >>= next = .ok result ↔ check = .ok () ∧ next () = .ok result := by
  rw [bind_eq_ok]
  exact ⟨fun ⟨_, h⟩ => h, fun h => ⟨(), h⟩⟩

theorem map_eq_ok {ε α β : Type} {computation : Except ε α} {f : α → β} {result : β} :
    f <$> computation = .ok result ↔ ∃ value, computation = .ok value ∧ result = f value := by
  cases computation with
  | error e =>
    constructor
    · rintro ⟨⟩
    · rintro ⟨value, ⟨⟩, -⟩
  | ok value =>
    constructor
    · rintro ⟨⟩
      exact ⟨value, rfl, rfl⟩
    · rintro ⟨_, ⟨⟩, rfl⟩
      rfl

theorem map_eq_error {ε α β : Type} {computation : Except ε α} {f : α → β} {error : ε} :
    f <$> computation = .error error ↔ computation = .error error := by
  cases computation with
  | error e =>
    constructor
    · rintro ⟨⟩
      rfl
    · rintro ⟨⟩
      rfl
  | ok value =>
    constructor
    · rintro ⟨⟩
    · rintro ⟨⟩

theorem mapError_eq_ok {ε δ α : Type} {computation : Except ε α} {f : ε → δ} {result : α} :
    computation.mapError f = .ok result ↔ computation = .ok result := by
  cases computation with
  | error e =>
    constructor
    · rintro ⟨⟩
    · rintro ⟨⟩
  | ok value =>
    constructor
    · rintro ⟨⟩
      rfl
    · rintro ⟨⟩
      rfl

theorem mapError_eq_error {ε δ α : Type} {computation : Except ε α} {f : ε → δ} {error : δ} :
    computation.mapError f = .error error ↔
      ∃ cause, computation = .error cause ∧ error = f cause := by
  cases computation with
  | error e =>
    constructor
    · rintro ⟨⟩
      exact ⟨e, rfl, rfl⟩
    · rintro ⟨_, ⟨⟩, rfl⟩
      rfl
  | ok value =>
    constructor
    · rintro ⟨⟩
    · rintro ⟨_, ⟨⟩, -⟩

/-- The results of a computation that is made for each of several inputs. -/
theorem of_mapM_eq_ok {ε α β : Type} {f : α → Except ε β} {inputs : List α} {results : List β}
    (h : inputs.mapM f = .ok results) :
    results.length = inputs.length ∧
      ∀ result ∈ results, ∃ input ∈ inputs, f input = .ok result := by
  induction inputs generalizing results with
  | nil =>
    cases h
    exact ⟨rfl, List.forall_mem_nil _⟩
  | cons input rest ih =>
    rw [List.mapM_cons] at h
    obtain ⟨first, hfirst, h⟩ := bind_eq_ok.mp h
    obtain ⟨others, hothers, h⟩ := bind_eq_ok.mp h
    cases h
    obtain ⟨hl, hrest⟩ := ih hothers
    refine ⟨congrArg Nat.succ hl, List.forall_mem_cons.mpr
      ⟨⟨input, List.mem_cons_self, hfirst⟩, fun result hm => ?_⟩⟩
    obtain ⟨found, hf, hr⟩ := hrest result hm
    exact ⟨found, List.mem_cons_of_mem _ hf, hr⟩

/-- A computation that is made for each of several inputs succeeds for every one of them. -/
theorem exists_of_mapM_eq_ok {ε α β : Type} {f : α → Except ε β} {inputs : List α}
    {results : List β} (h : inputs.mapM f = .ok results) {input : α} (hm : input ∈ inputs) :
    ∃ result, f input = .ok result := by
  induction inputs generalizing results with
  | nil => cases hm
  | cons first rest ih =>
    rw [List.mapM_cons] at h
    obtain ⟨found, hfound, h⟩ := bind_eq_ok.mp h
    obtain ⟨others, hothers, -⟩ := bind_eq_ok.mp h
    rcases List.mem_cons.mp hm with rfl | hm
    · exact ⟨found, hfound⟩
    · exact ih hothers hm

section State

variable {σ ε α β : Type} {state : σ}

theorem run_bind_eq_ok {first : StateT σ (Except ε) α} {next : α → StateT σ (Except ε) β}
    {result : β × σ} :
    StateT.run (first >>= next) state = .ok result ↔
      ∃ value middle, StateT.run first state = .ok (value, middle) ∧
        StateT.run (next value) middle = .ok result := by
  rw [StateT.run_bind, bind_eq_ok, Prod.exists]

theorem run_bind_eq_error {first : StateT σ (Except ε) α} {next : α → StateT σ (Except ε) β}
    {error : ε} :
    StateT.run (first >>= next) state = .error error ↔
      StateT.run first state = .error error ∨
        ∃ value middle, StateT.run first state = .ok (value, middle) ∧
          StateT.run (next value) middle = .error error := by
  rw [StateT.run_bind, bind_eq_error, Prod.exists]

theorem run_pure_eq_ok {value : α} {result : α × σ} :
    StateT.run (pure value : StateT σ (Except ε) α) state = .ok result ↔
      result = (value, state) := by
  constructor
  · rintro ⟨⟩
    rfl
  · rintro rfl
    rfl

theorem run_get_bind_eq_ok {next : σ → StateT σ (Except ε) α} {result : α × σ} :
    StateT.run (get >>= next) state = .ok result ↔ StateT.run (next state) state = .ok result :=
  Iff.rfl

theorem run_modify_eq_ok {after : σ} {f : σ → σ} {done : Unit} :
    StateT.run (modify f : StateT σ (Except ε) PUnit) state = .ok (done, after) ↔
      after = f state := by
  constructor
  · rintro ⟨⟩
    rfl
  · rintro rfl
    rfl

theorem run_map_eq_ok {computation : StateT σ (Except ε) α} {f : α → β} {result : β × σ} :
    StateT.run (f <$> computation) state = .ok result ↔
      ∃ value after, StateT.run computation state = .ok (value, after) ∧
        result = (f value, after) := by
  rw [← bind_pure_comp, run_bind_eq_ok]
  simp only [run_pure_eq_ok]

theorem run_mapM_nil {f : β → StateT σ (Except ε) α} {values : List α} {after : σ} :
    StateT.run (([] : List β).mapM f) state = .ok (values, after) ↔
      values = [] ∧ after = state := by
  rw [List.mapM_nil, run_pure_eq_ok, Prod.mk.injEq]

theorem run_mapM_cons {f : β → StateT σ (Except ε) α} {first : β} {rest : List β}
    {values : List α} {after : σ} :
    StateT.run ((first :: rest).mapM f) state = .ok (values, after) ↔
      ∃ value middle others, StateT.run (f first) state = .ok (value, middle) ∧
        StateT.run (rest.mapM f) middle = .ok (others, after) ∧ values = value :: others := by
  simp only [List.mapM_cons, run_bind_eq_ok, run_pure_eq_ok, Prod.mk.injEq]
  constructor
  · rintro ⟨value, middle, hfirst, others, _, hrest, rfl, rfl⟩
    exact ⟨value, middle, others, hfirst, hrest, rfl⟩
  · rintro ⟨value, middle, others, hfirst, hrest, rfl⟩
    exact ⟨value, middle, hfirst, others, _, hrest, rfl, rfl⟩

end State

end LiveTemplate
