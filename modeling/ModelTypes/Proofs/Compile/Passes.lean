import ModelTypes.Proofs.Compile.Errors
import ModelTypes.Proofs.Compile.Unfolding
/-!
# The passes of a compilation

A compilation renders the root once or twice and pairs the blocks of the two passes. Both passes
list the same sites, so pairing succeeds whenever both passes do.
-/

namespace ModelTypes.Compile

/-! ## Pairing -/

mutual

/-- The names of blocks depend on the graph and the root's name only. -/
theorem Renders.names_eq {ws ws' ws₁ ws₁' : Workspace} {id : SchemaId} {model : String}
    {p q : Projection} {header footer header' footer' : String} {blocks blocks' : List Block}
    (same : SameButTrees ws ws₁) : Renders ws id model p header footer blocks ws' →
      Renders ws₁ id model q header' footer' blocks' ws₁' →
        blocks.map (·.name) = blocks'.map (·.name)
  | .alone _ _, .alone _ _ => by simp
  | .alone hc _, .parent hc' hm _ _ => by
    rw [same.children] at hc'
    simp [hm, hc'] at hc
  | .parent hc hm _ _, .alone hc' _ => by
    rw [same.children] at hc'
    simp [hm, hc] at hc'
  | .parent _ _ hs _, .parent _ _ hs' _ => by
    rw [same.children] at hs'
    simp [hs.names_eq same hs']

theorem Hoists.names_eq {ws ws' ws₁ ws₁' : Workspace} {cs : List ChildBinding} {model : String}
    {p q : Projection} {flat flat' flat₁ flat₁' : Entries} {blocks blocks' : List Block}
    (same : SameButTrees ws ws₁) : Hoists ws cs model p flat flat' blocks ws' →
      Hoists ws₁ cs model q flat₁ flat₁' blocks' ws₁' →
        blocks.map (·.name) = blocks'.map (·.name)
  | .nil, .nil => rfl
  | .cons _ hr hs, .cons _ hr' hs' => by
    have first := hr.names_eq same hr'
    have others := hs.names_eq
      ⟨by rw [hr'.sameButTrees.store, same.store, hr.sameButTrees.store],
       by rw [hr'.sameButTrees.length, same.length, hr.sameButTrees.length],
       fun id => by rw [hr'.sameButTrees.schema, same.schema, hr.sameButTrees.schema id]⟩ hs'
    simp [first, others]

end

/-- A block of the lean pass with the text of its document block. -/
def pair (lean document : Block) : PairedBlock := ⟨lean.name, lean.text, some document.text⟩

/-- A block of the lean pass alone. -/
def unpaired (lean : Block) : PairedBlock := ⟨lean.name, lean.text, none⟩

/-- Blocks of the same names are paired one by one. -/
theorem pairBlocks_eq_ok {leans documents : List Block}
    (h : leans.map (·.name) = documents.map (·.name)) :
    pairBlocks leans documents
      = .ok (leans.zipWith pair documents) := by
  induction leans generalizing documents with
  | nil =>
    cases documents with
    | nil => rfl
    | cons d ds => simp at h
  | cons l ls ih =>
    cases documents with
    | nil => simp at h
    | cons d ds =>
      simp only [List.map_cons, List.cons.injEq] at h
      simp [pairBlocks, pair, h.1, ih h.2, bind, Except.bind, pure, Except.pure]

theorem map_name_zipWith_pair {leans documents : List Block}
    (h : leans.map (·.name) = documents.map (·.name)) :
    (leans.zipWith pair documents).map (·.name) = leans.map (·.name) := by
  induction leans generalizing documents with
  | nil => rfl
  | cons l ls ih =>
    cases documents with
    | nil => simp at h
    | cons d ds =>
      simp only [List.map_cons, List.cons.injEq] at h
      simp [pair, ih h.2]

/-! ## Compilations -/

variable {ws ws' : Workspace} {id : SchemaId} {model : String}

/-- The blocks of a compilation after its lean pass. -/
inductive Completes (ws ws' : Workspace) (id : SchemaId) (model : String) (p : Projection)
    (leans : List Block) : Bool → List PairedBlock → Prop
  | plain (done : ws' = ws) :
      Completes ws ws' id model p leans true (leans.map unpaired)
  | paired {base documents} (opening : documentBase ws id model p = .ok base)
      (pass : Renders ws id model p (documentOpening model base) Comment.blockFooter documents
        ws') :
      Completes ws ws' id model p leans false (leans.zipWith pair documents)

theorem compile_ok {plainIds : Bool} {paired : List PairedBlock}
    (h : (compile id model plainIds).on ws = (.ok paired, ws')) :
    ∃ leans ws₁, Renders ws id model (leanPass ws id plainIds) (leanOpening model)
        Comment.blockFooter leans ws₁ ∧
      Completes ws₁ ws' id model (documentPass ws id) leans plainIds paired := by
  unfold compile compileBy at h
  simp only [bind_ok_iff, get_on, Prod.mk.injEq, Except.ok.injEq] at h
  obtain ⟨_, _, ⟨rfl, rfl⟩, leans, ws₁, hl, h⟩ := h
  have lean := renderBlocks_ok hl
  refine ⟨leans, ws₁, lean, ?_⟩
  cases plainIds with
  | true =>
    simp only [if_true, pure_on, Prod.mk.injEq, Except.ok.injEq] at h
    obtain ⟨rfl, rfl⟩ := h
    exact .plain rfl
  | false =>
    simp only [Bool.false_eq_true, if_false, bind_ok_iff, get_on, lift_on, Prod.mk.injEq,
      Except.ok.injEq] at h
    obtain ⟨_, _, ⟨rfl, rfl⟩, base, _, ⟨hb, rfl⟩, documents, ws₂, hd, hp, rfl⟩ := h
    have document := renderBlocks_ok hd
    -- The names depend on the graph alone, and the lean pass has left that as it was.
    rw [pairBlocks_eq_ok (lean.names_eq lean.sameButTrees document), Except.ok.injEq] at hp
    exact hp ▸ .paired hb document

/-- A compilation has the names of its lean pass. -/
theorem Completes.names {p : Projection} {ws₁ : Workspace} {leans : List Block} {plainIds : Bool}
    {paired : List PairedBlock} (lean : Renders ws id model (leanPass ws id plainIds)
      (leanOpening model) Comment.blockFooter leans ws₁) :
    Completes ws₁ ws' id model p leans plainIds paired →
      paired.map (·.name) = leans.map (·.name)
  | .plain _ => by simp [unpaired]
  | .paired _ pass => map_name_zipWith_pair (lean.names_eq lean.sameButTrees pass)

/-- A compilation fails in one of its passes or on the root's identifier. -/
theorem compile_error {plainIds : Bool} {e : CompileError}
    (h : (compile id model plainIds).on ws = (.error e, ws')) :
    OfField e ∨ ∃ ws₁ p header ws₂, SameButTrees ws ws₁ ∧
      (renderBlocks id model p header Comment.blockFooter).on ws₁ = (.error e, ws₂) := by
  unfold compile compileBy at h
  simp only [bind_error_iff, get_on, Prod.mk.injEq, Except.ok.injEq, reduceCtorEq, false_and,
    false_or] at h
  obtain ⟨_, _, ⟨rfl, rfl⟩, h | ⟨leans, ws₁, hl, h⟩⟩ := h
  · exact .inr ⟨ws, _, _, _, .refl ws, h⟩
  have lean := renderBlocks_ok hl
  cases plainIds with
  | true => simp at h
  | false =>
    simp only [Bool.false_eq_true, if_false, bind_error_iff, get_on, lift_on, Prod.mk.injEq,
      Except.ok.injEq, reduceCtorEq, false_and, false_or] at h
    obtain ⟨_, _, ⟨rfl, rfl⟩, ⟨hb, -⟩ | ⟨base, _, ⟨-, rfl⟩, h | ⟨documents, ws₂, hd, hp, rfl⟩⟩⟩ := h
    · exact .inl (ofField_of_documentBase hb)
    · exact .inr ⟨ws₁, _, _, _, lean.sameButTrees, h⟩
    · rw [pairBlocks_eq_ok (lean.names_eq lean.sameButTrees (renderBlocks_ok hd))] at hp
      simp at hp

end ModelTypes.Compile
