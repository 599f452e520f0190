/-!
# Taking results apart

A sequence of steps gives a value if every step does, and fails with the first failure.
-/

namespace Except

variable {ε ε' α β : Type}

theorem bind_eq_ok_iff {x : Except ε α} {f : α → Except ε β} {b : β} :
    (x >>= f) = .ok b ↔ ∃ a, x = .ok a ∧ f a = .ok b := by
  cases x <;> simp [bind, Except.bind]

theorem bind_eq_error_iff {x : Except ε α} {f : α → Except ε β} {e : ε} :
    (x >>= f) = .error e ↔ x = .error e ∨ ∃ a, x = .ok a ∧ f a = .error e := by
  cases x <;> simp [bind, Except.bind]

theorem mapError_eq_error_iff {x : Except ε α} {f : ε → ε'} {e : ε'} :
    x.mapError f = .error e ↔ ∃ d, x = .error d ∧ f d = e := by
  cases x with
  | error d =>
    show Except.error (f d) = .error e ↔ _
    simp
  | ok a =>
    show Except.ok a = .error e ↔ _
    simp

@[simp] theorem pure_ne_error {a : α} {e : ε} : (pure a : Except ε α) ≠ .error e := by
  simp [pure, Except.pure]

theorem map_eq_ok_iff {x : Except ε α} {f : α → β} {b : β} :
    f <$> x = .ok b ↔ ∃ a, x = .ok a ∧ f a = b := by
  cases x <;> simp [Functor.map, Except.map]

theorem map_eq_error_iff {x : Except ε α} {f : α → β} {e : ε} :
    f <$> x = .error e ↔ x = .error e := by
  cases x <;> simp [Functor.map, Except.map]

theorem toOption_eq_some_iff {x : Except ε α} {a : α} : x.toOption = some a ↔ x = .ok a := by
  cases x <;> simp [Except.toOption]

/-- What steps over a list give, each step has given for one of the items. -/
theorem exists_of_mem_mapM {f : α → Except ε β} {items : List α} {out : List β}
    (h : items.mapM f = .ok out) : ∀ b ∈ out, ∃ a ∈ items, f a = .ok b := by
  induction items generalizing out with
  | nil =>
    cases h
    simp
  | cons a rest ih =>
    rw [List.mapM_cons] at h
    obtain ⟨b, hb, h⟩ := bind_eq_ok_iff.1 h
    obtain ⟨bs, hbs, h⟩ := bind_eq_ok_iff.1 h
    cases h
    intro c hc
    rcases List.mem_cons.1 hc with rfl | hc
    · exact ⟨a, List.mem_cons_self, hb⟩
    · obtain ⟨a', ha', hf⟩ := ih hbs c hc
      exact ⟨a', List.mem_cons_of_mem _ ha', hf⟩

/-- What a step gives for an item is among what the steps over the list give. -/
theorem exists_mem_of_mapM {f : α → Except ε β} {items : List α} {out : List β}
    (h : items.mapM f = .ok out) : ∀ a ∈ items, ∃ b ∈ out, f a = .ok b := by
  induction items generalizing out with
  | nil => simp
  | cons a rest ih =>
    rw [List.mapM_cons] at h
    obtain ⟨b, hb, h⟩ := bind_eq_ok_iff.1 h
    obtain ⟨bs, hbs, h⟩ := bind_eq_ok_iff.1 h
    cases h
    refine List.forall_mem_cons.2 ⟨⟨b, List.mem_cons_self, hb⟩, fun c hc => ?_⟩
    obtain ⟨b', hb', hf⟩ := ih hbs c hc
    exact ⟨b', List.mem_cons_of_mem _ hb', hf⟩

/-- Steps over a list give something if each of them does. -/
theorem mapM_returns_iff {f : α → Except ε β} {items : List α} :
    (∃ out, items.mapM f = .ok out) ↔ ∀ a ∈ items, ∃ b, f a = .ok b := by
  induction items with
  | nil => simp [pure, Except.pure]
  | cons a rest ih =>
    rw [List.forall_mem_cons, ← ih, List.mapM_cons]
    constructor
    · rintro ⟨out, h⟩
      obtain ⟨b, hb, h⟩ := bind_eq_ok_iff.1 h
      obtain ⟨bs, hbs, -⟩ := bind_eq_ok_iff.1 h
      exact ⟨⟨b, hb⟩, ⟨bs, hbs⟩⟩
    · rintro ⟨⟨b, hb⟩, ⟨bs, hbs⟩⟩
      exact ⟨b :: bs, bind_eq_ok_iff.2 ⟨b, hb, bind_eq_ok_iff.2 ⟨bs, hbs, rfl⟩⟩⟩

/-- Steps over a list that may leave out items have all given something, and what they give, each
has given for one of the items. -/
theorem filterMapM_ok {f : α → Except ε (Option β)} {items : List α} {out : List β}
    (h : items.filterMapM f = .ok out) :
    (∀ a ∈ items, ∃ b, f a = .ok b) ∧ ∀ b ∈ out, ∃ a ∈ items, f a = .ok (some b) := by
  induction items generalizing out with
  | nil =>
    cases h
    simp
  | cons a rest ih =>
    rw [List.filterMapM_cons] at h
    obtain ⟨b, hb, h⟩ := bind_eq_ok_iff.1 h
    have kept : ∃ bs, rest.filterMapM f = .ok bs ∧ out = b.toList ++ bs := by
      cases b with
      | none => exact ⟨out, h, rfl⟩
      | some b =>
        obtain ⟨bs, hbs, h⟩ := bind_eq_ok_iff.1 h
        cases h
        exact ⟨bs, hbs, rfl⟩
    obtain ⟨bs, hbs, rfl⟩ := kept
    obtain ⟨given, origin⟩ := ih hbs
    refine ⟨List.forall_mem_cons.2 ⟨⟨b, hb⟩, given⟩, fun c hc => ?_⟩
    rcases List.mem_append.1 hc with hc | hc
    · exact ⟨a, List.mem_cons_self, by rw [hb, Option.mem_toList.1 hc]⟩
    · obtain ⟨a', ha', hf⟩ := origin c hc
      exact ⟨a', List.mem_cons_of_mem _ ha', hf⟩

/-- What a step gives for an item is among what the steps over the list give. -/
theorem mem_of_filterMapM {f : α → Except ε (Option β)} {items : List α} {out : List β}
    (h : items.filterMapM f = .ok out) {a : α} {b : β} (ha : a ∈ items) (hb : f a = .ok (some b)) :
    b ∈ out := by
  induction items generalizing out with
  | nil => cases ha
  | cons first rest ih =>
    rw [List.filterMapM_cons] at h
    obtain ⟨c, hc, h⟩ := bind_eq_ok_iff.1 h
    rcases List.mem_cons.1 ha with rfl | ha
    · cases hb.symm.trans hc
      obtain ⟨bs, -, h⟩ := bind_eq_ok_iff.1 h
      cases h
      exact List.mem_cons_self
    · cases c with
      | none => exact ih h ha
      | some c =>
        obtain ⟨bs, hbs, h⟩ := bind_eq_ok_iff.1 h
        cases h
        exact List.mem_cons_of_mem _ (ih hbs ha)

/-- Steps over a list that may leave out items fail as one of them does. -/
theorem filterMapM_error {f : α → Except ε (Option β)} {items : List α} {e : ε}
    (h : items.filterMapM f = .error e) : ∃ a ∈ items, f a = .error e := by
  induction items with
  | nil => cases h
  | cons a rest ih =>
    rw [List.filterMapM_cons] at h
    rcases bind_eq_error_iff.1 h with h | ⟨b, -, h⟩
    · exact ⟨a, List.mem_cons_self, h⟩
    · have failed : rest.filterMapM f = .error e := by
        cases b with
        | none => exact h
        | some b => exact (bind_eq_error_iff.1 h).resolve_right (by simp)
      obtain ⟨a', ha', hf⟩ := ih failed
      exact ⟨a', List.mem_cons_of_mem _ ha', hf⟩

/-! ## Changing results -/

section Change

variable {α' β' : Type}

/-- A result with what it gives, or its error, changed. -/
def bimap (f : α → α') (g : ε → ε') : Except ε α → Except ε' α'
  | .ok a => .ok (f a)
  | .error e => .error (g e)

variable {f : α → α'} {g : ε → ε'}

@[simp] theorem bimap_ok {a : α} : bimap f g (.ok a : Except ε α) = .ok (f a) := rfl

@[simp] theorem bimap_error {e : ε} : bimap f g (.error e : Except ε α) = .error (g e) := rfl

/-- Steps that change alike do so one after the other. -/
theorem bimap_bind {h : β → β'} {x : Except ε α} {k : α → Except ε β} {x' : Except ε' α'}
    {k' : α' → Except ε' β'} (hx : x' = bimap f g x) (hk : ∀ a, k' (f a) = bimap h g (k a)) :
    (x' >>= k') = bimap h g (x >>= k) := by
  subst hx
  cases x with
  | error e => rfl
  | ok a => exact hk a

end Change

end Except

/-! ## Steps that keep what they changed -/

namespace ExceptT

variable {ε σ α β : Type}

/-- What steps give from a state, and the state that they leave. -/
def on (x : ExceptT ε (StateM σ) α) (s : σ) : Except ε α × σ := x.run.run s

variable {x : ExceptT ε (StateM σ) α} {f : α → ExceptT ε (StateM σ) β} {s s' : σ}

theorem bind_on_of_ok {a : α} (h : x.on s = (.ok a, s')) : (x >>= f).on s = (f a).on s' := by
  show (x >>= f).run.run s = _
  rw [run_bind, StateT.run_bind, show x.run.run s = (.ok a, s') from h]
  rfl

theorem bind_on_of_error {e : ε} (h : x.on s = (.error e, s')) :
    (x >>= f).on s = (.error e, s') := by
  show (x >>= f).run.run s = _
  rw [run_bind, StateT.run_bind, show x.run.run s = (.error e, s') from h]
  rfl

theorem bind_on_ok_iff {b : β} : (x >>= f).on s = (.ok b, s') ↔
    ∃ a s₁, x.on s = (.ok a, s₁) ∧ (f a).on s₁ = (.ok b, s') := by
  constructor
  · intro h
    rcases hx : x.on s with ⟨_ | a, s₁⟩
    · simp [bind_on_of_error hx] at h
    · exact ⟨a, s₁, rfl, bind_on_of_ok (f := f) hx ▸ h⟩
  · rintro ⟨a, s₁, hx, h⟩
    rw [bind_on_of_ok hx, h]

theorem bind_on_error_iff {e : ε} : (x >>= f).on s = (.error e, s') ↔
    x.on s = (.error e, s') ∨
      ∃ a s₁, x.on s = (.ok a, s₁) ∧ (f a).on s₁ = (.error e, s') := by
  constructor
  · intro h
    rcases hx : x.on s with ⟨_ | a, s₁⟩
    · rw [bind_on_of_error hx] at h
      exact .inl (by simpa using h)
    · exact .inr ⟨a, s₁, rfl, bind_on_of_ok (f := f) hx ▸ h⟩
  · rintro (hx | ⟨a, s₁, hx, h⟩)
    · exact bind_on_of_error hx
    · rw [bind_on_of_ok hx, h]

theorem tryCatch_on_of_ok {handle : ε → ExceptT ε (StateM σ) α} {a : α}
    (h : x.on s = (.ok a, s')) : (tryCatch x handle).on s = (.ok a, s') := by
  show (tryCatch x handle).run.run s = _
  rw [run_tryCatch, StateT.run_bind, show x.run.run s = (.ok a, s') from h]
  rfl

theorem tryCatch_on_of_error {handle : ε → ExceptT ε (StateM σ) α} {e : ε}
    (h : x.on s = (.error e, s')) : (tryCatch x handle).on s = (handle e).on s' := by
  show (tryCatch x handle).run.run s = _
  rw [run_tryCatch, StateT.run_bind, show x.run.run s = (.error e, s') from h]
  rfl

end ExceptT
