import ModelTypes.Proofs.Compile.Run
import ModelTypes.Proofs.Result
/-!
# How a rendering fails

Every failure comes from a field that cannot be described or written, or from a child that the
renderer was not let into. `renderWith_error` finds the call below a schema that failed.
-/

namespace ModelTypes.Compile

/-! ## Fields -/

/-- The error is about a field. -/
def OfField (e : CompileError) : Prop := (∃ f, e = .field f) ∨ ∃ r, e = .render r

section Fields

variable {s : Store} {p : Projection} {e : CompileError}

theorem ofField_of_fieldType? {key : String} {raw : Value}
    (h : fieldType? s p key raw = .error e) : OfField e := by
  unfold fieldType? at h
  rcases Except.bind_eq_error_iff.1 h with h | ⟨f, -, h⟩
  · obtain ⟨f, -, rfl⟩ := Except.mapError_eq_error_iff.1 h
    exact .inl ⟨f, rfl⟩
  · cases f with
    | none => simp at h
    | some f =>
      obtain ⟨r, -, rfl⟩ := Except.mapError_eq_error_iff.1 h
      exact .inr ⟨r, rfl⟩

theorem ofField_of_fieldLine {key : String} {raw : Value}
    (h : fieldLine s p key raw = .error e) : OfField e := by
  unfold fieldLine at h
  rcases Except.bind_eq_error_iff.1 h with h | ⟨f, -, h⟩
  · obtain ⟨f, -, rfl⟩ := Except.mapError_eq_error_iff.1 h
    exact .inl ⟨f, rfl⟩
  · cases f with
    | none => simp at h
    | some f =>
      obtain ⟨r, -, rfl⟩ := Except.mapError_eq_error_iff.1 h
      exact .inr ⟨r, rfl⟩

theorem ofField_of_mapM {tree : Entries}
    (h : tree.mapM (fun f => fieldLine s p f.1 f.2) = .error e) : OfField e := by
  induction tree with
  | nil => simp at h
  | cons f rest ih =>
    rw [List.mapM_cons] at h
    rcases Except.bind_eq_error_iff.1 h with h | ⟨line, -, h⟩
    · exact ofField_of_fieldLine h
    · rcases Except.bind_eq_error_iff.1 h with h | ⟨lines, -, h⟩
      · exact ih h
      · simp at h

theorem ofField_of_bodyText {tree : Entries} (h : bodyText s p tree = .error e) : OfField e := by
  unfold bodyText at h
  rcases Except.bind_eq_error_iff.1 h with h | ⟨lines, -, h⟩
  · exact ofField_of_mapM h
  · simp at h

theorem ofField_of_idType {raw : Option Value} (h : idType s p raw = .error e) : OfField e := by
  cases raw with
  | none => simp [idType] at h
  | some raw =>
    rcases Except.bind_eq_error_iff.1 h with h | ⟨t, -, h⟩
    · exact ofField_of_fieldType? h
    · simp at h

theorem ofField_of_documentBase {ws : Workspace} {id : SchemaId} {model : String}
    (h : documentBase ws id model p = .error e) : OfField e := by
  rcases Except.bind_eq_error_iff.1 h with h | ⟨t, -, h⟩
  · exact ofField_of_idType h
  · simp at h

theorem ofField_of_childHeader {ws : Workspace} {parent name : String} {b : ChildBinding}
    (h : childHeader ws parent b name p = .error e) : OfField e := by
  unfold childHeader at h
  split at h
  · simp at h
  · split at h
    · simp at h
    · rcases Except.bind_eq_error_iff.1 h with h | ⟨t, -, h⟩
      · exact ofField_of_idType h
      · simp at h

end Fields

/-! ## Children -/

/-- The renderer failed on a child: it was not let in, or the child's own rendering failed. -/
def FailsIn (enter : SchemaId → Option Renderer) (ws : Workspace) (e : CompileError)
    (b : ChildBinding) : Prop :=
  ∃ ws₀, SameButTrees ws ws₀ ∧ ((enter b.schema = none ∧ ∃ place, e = .circular place) ∨
    ∃ render name p header ws', enter b.schema = some render ∧
      (render name p header).on ws₀ = (.error e, ws'))

variable {enter : SchemaId → Option Renderer} {id : SchemaId} {model : String} {p : Projection}
  {ws ws' : Workspace} {e : CompileError}

theorem hoist_error {flat : Entries} {blocks : List Block} {b : ChildBinding}
    (h : (hoist enter model p flat blocks b).on ws = (.error e, ws')) :
    OfField e ∨ FailsIn enter ws e b := by
  unfold hoist at h
  cases he : enter b.schema with
  | none =>
    simp only [he, throw_on, Prod.mk.injEq, Except.error.injEq] at h
    exact .inr ⟨ws, .refl ws, .inl ⟨he, _, h.1.symm⟩⟩
  | some render =>
    simp only [he, bind_error_iff, get_on, lift_on, pure_on, Prod.mk.injEq, Except.ok.injEq,
      reduceCtorEq, false_and, false_or, and_false, exists_false, or_false] at h
    obtain ⟨_, _, ⟨rfl, rfl⟩, ⟨hh, -⟩ | ⟨header, _, ⟨-, rfl⟩, hr⟩⟩ := h
    · exact .inl (ofField_of_childHeader hh)
    · exact .inr ⟨ws, .refl ws, .inr ⟨render, _, _, _, _, he, hr⟩⟩

theorem hoistAll_error (sound : Sound enter) {cs : List ChildBinding} {flat : Entries}
    {blocks : List Block} (h : (hoistAll enter model p flat blocks cs).on ws = (.error e, ws')) :
    OfField e ∨ ∃ b ∈ cs, FailsIn enter ws e b := by
  induction cs generalizing ws flat blocks with
  | nil => simp [hoistAll] at h
  | cons b rest ih =>
    simp only [hoistAll] at h
    rcases bind_error_iff.1 h with h | ⟨r, ws₁, hb, h⟩
    · exact (hoist_error h).imp_right fun hf => ⟨b, List.mem_cons_self, hf⟩
    · obtain ⟨render, header, run, hr, -, hrun, rfl⟩ := hoist_ok_iff.1 hb
      have hsame := (sound _ _ hr _ _ _ _ _ _ hrun).sameButTrees
      rcases ih h with hf | ⟨c, hc, ws₀, hws, hf⟩
      · exact .inl hf
      · exact .inr ⟨c, List.mem_cons_of_mem _ hc, ws₀, hsame.trans hws, hf⟩

theorem expandWith_error (sound : Sound enter)
    (h : (expandWith enter id model p).on ws = (.error e, ws')) :
    OfField e ∨ ∃ b ∈ (ws.schema id).children, FailsIn enter ws e b := by
  unfold expandWith at h
  simp only [bind_error_iff, get_on, modify_on, pure_on, Prod.mk.injEq, Except.ok.injEq,
    reduceCtorEq, false_and, false_or, and_false, exists_false, or_false] at h
  obtain ⟨_, _, ⟨rfl, rfl⟩, h⟩ := h
  exact hoistAll_error sound h

theorem renderWith_error (sound : Sound enter) {header footer : String}
    (h : (renderWith enter id model p header footer).on ws = (.error e, ws')) :
    OfField e ∨ ∃ b ∈ (ws.schema id).children, FailsIn enter ws e b := by
  unfold renderWith at h
  simp only [bind_error_iff, get_on, Prod.mk.injEq, Except.ok.injEq, reduceCtorEq, false_and,
    false_or] at h
  obtain ⟨_, _, ⟨rfl, rfl⟩, h⟩ := h
  split at h
  all_goals
    simp only [bind_error_iff, get_on, lift_on, pure_on, Prod.mk.injEq, Except.ok.injEq,
      reduceCtorEq, false_and, false_or, and_false, exists_false, or_false] at h
  · rcases h with h | ⟨_, _, -, _, _, -, h, -⟩
    · exact expandWith_error sound h
    · exact .inl (ofField_of_bodyText h)
  · obtain ⟨_, _, -, _, _, -, h, -⟩ := h
    exact .inl (ofField_of_bodyText h)

/-- No child is paired with another before all blocks are there. -/
theorem renderWithin_error {outside : List SchemaId} {header footer : String}
    (h : (renderWithin outside id model p header footer).on ws = (.error e, ws')) :
    OfField e ∨ ∃ place, e = .circular place := by
  induction hn : outside.length using Nat.strongRecOn
    generalizing outside id model p header footer ws ws' with
  | ind n ih =>
    rw [renderWithin_eq] at h
    rcases renderWith_error (sound_entering outside) h with h | ⟨b, -, ws₀, -, ⟨-, h⟩ | h⟩
    · exact .inl h
    · exact .inr h
    · obtain ⟨render, name, q, header', ws₁, hr, h⟩ := h
      obtain ⟨hc, rfl⟩ := entering_eq_some hr
      exact ih _ (by rw [← hn]; exact length_erase_lt hc) h rfl

end ModelTypes.Compile
