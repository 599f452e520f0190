import ModelTypes.Proofs.Compile.Run
import ModelTypes.Proofs.Field.Rename
import ModelTypes.Proofs.Tree.Rename
/-!
# Compiling does not depend on which schema is which

Two workspaces that hold the same schemas under other identities (`Renamed`) compile them to the
same declarations, or fail alike. A schema's identity shows only where the renderer asks whether a
child is among the schemas that enclose it, and a renaming keeps apart what it renames.
-/

namespace ModelTypes

def CompileError.rename (σ : SchemaId → SchemaId) : CompileError → CompileError
  | .field e => .field (e.rename σ)
  | .render e => .render (e.rename σ)
  | e => e

namespace Compile

variable {σ : SchemaId → SchemaId} {K : SchemaId → Prop} {ws ws' : Workspace} {i : SchemaId}

/-! ## Lines of a block -/

/-- What is written for a renamed value. -/
abbrev renamed {α β : Type} (σ : SchemaId → SchemaId) (f : α → β) :
    Except CompileError α → Except CompileError β :=
  Except.bimap f (CompileError.rename σ)

section Causes

variable {α β : Type} {f : α → β}

theorem mapError_field (x : Except FieldError α) :
    (x.bimap f (FieldError.rename σ)).mapError .field = renamed σ f (x.mapError .field) := by
  cases x <;> rfl

theorem mapError_render (x : Except RenderError α) :
    (x.bimap f (RenderError.rename σ)).mapError .render = renamed σ f (x.mapError .render) := by
  cases x <;> rfl

end Causes

section Lines

variable {s : Store} {p : Projection} (hs : s.Fixed σ)

include hs

theorem fieldType?_rename (key : String) (v : Value) :
    fieldType? s p key (v.rename σ) = renamed σ id (fieldType? s p key v) := by
  unfold fieldType?
  rw [Field.describe_rename hs, mapError_field]
  refine Except.bimap_bind rfl fun field => ?_
  cases field with
  | none => rfl
  | some field =>
    show (Render.type? s p (field.rename σ)).mapError .render = renamed σ id _
    rw [Render.type?_rename hs, mapError_render]

theorem fieldLine_rename (key : String) (v : Value) :
    fieldLine s p key (v.rename σ) = renamed σ id (fieldLine s p key v) := by
  unfold fieldLine
  rw [Field.describe_rename hs, mapError_field]
  refine Except.bimap_bind rfl fun field => ?_
  cases field with
  | none => rfl
  | some field =>
    show (Render.line s p (field.rename σ)).mapError .render = renamed σ id _
    rw [Render.line_rename hs, mapError_render]

theorem bodyText_rename (tree : Entries) :
    bodyText s p (renameUnder σ tree) = renamed σ id (bodyText s p tree) := by
  have lines : (renameUnder σ tree).mapM (fun e => fieldLine s p e.1 e.2)
      = renamed σ id (tree.mapM fun e => fieldLine s p e.1 e.2) := by
    induction tree with
    | nil => rfl
    | cons e rest ih =>
      obtain ⟨key, v⟩ := e
      rw [renameUnder_cons, List.mapM_cons, List.mapM_cons]
      exact Except.bimap_bind (fieldLine_rename hs key v) fun _ =>
        Except.bimap_bind ih fun _ => rfl
  exact Except.bimap_bind lines fun _ => rfl

theorem idType_rename (raw : Option Value) :
    idType s p (raw.map (·.rename σ)) = renamed σ id (idType s p raw) := by
  cases raw with
  | none => rfl
  | some v => exact Except.bimap_bind (fieldType?_rename hs "_id" v) fun _ => rfl

end Lines

/-! ## Renamed workspaces -/

/-- The schemas of `K`, which embed each other only, stand in the second workspace renamed. -/
structure Renamed (σ : SchemaId → SchemaId) (K : SchemaId → Prop) (ws ws' : Workspace) : Prop where
  store : ws'.store = ws.store
  fixed : ws.store.Fixed σ
  injective : ∀ i j, K i → K j → σ i = σ j → i = j
  child : ∀ i, K i → ∀ b ∈ (ws.schema i).children, K b.schema
  made : ∀ i, K i → i < ws.schemas.length
  schemas : ∀ i, K i → ws'.schemas[σ i]? = ws.schemas[i]?.map (Schema.rename σ)

namespace Renamed

variable (h : Renamed σ K ws ws')

include h

theorem schema (hi : K i) : ws'.schema (σ i) = (ws.schema i).rename σ := by
  unfold Workspace.schema
  rw [h.schemas i hi]
  cases ws.schemas[i]? <;> rfl

theorem leanVirtuals (hi : K i) : (ws'.schema (σ i)).leanVirtuals = (ws.schema i).leanVirtuals := by
  rw [h.schema hi]
  rfl

/-- What a field of a schema declares. -/
theorem declared (hi : K i) (key : String) : Keyed.get? (ws'.schema (σ i)).tree key
    = (Keyed.get? (ws.schema i).tree key).map (·.rename σ) := by
  rw [h.schema hi]
  exact get?_renameUnder

theorem made' (hi : K i) : σ i < ws'.schemas.length := by
  have hlt := h.made i hi
  have hs := h.schemas i hi
  rw [List.getElem?_eq_getElem hlt] at hs
  exact (List.getElem?_eq_some_iff.1 hs).1

/-- The tree of a schema may change, and that of its counterpart alike. -/
theorem update (hi : K i) {f f' : Schema → Schema} (hf : ∀ s, f' (s.rename σ) = (f s).rename σ)
    (same : ∀ s, (f s).children = s.children) :
    Renamed σ K (ws.update i f) (ws'.update (σ i) f') where
  store := h.store
  fixed := h.fixed
  injective := h.injective
  child j hj := by
    rw [schema_update]
    split
    · rename_i hc
      rw [same, ← hc.1]
      exact h.child j hj
    · exact h.child j hj
  made j hj := by
    rw [show (ws.update i f).schemas.length = ws.schemas.length by simp [Workspace.update]]
    exact h.made j hj
  schemas j hj := by
    have own := h.schemas j hj
    unfold Workspace.update
    simp only [List.getElem?_modify, own]
    by_cases hc : i = j
    · subst hc
      cases ws.schemas[i]? with
      | none => rfl
      | some schema => simp [hf]
    · have apart : σ i ≠ σ j := fun heq => hc (h.injective i j hi hj heq)
      simp [hc, apart]

end Renamed

/-! ## Work on renamed workspaces -/

section Parallel

variable {α α' β β' : Type}

/-- From two workspaces, work gives the same up to the renaming, or fails with the same error, and
leaves renamed workspaces. -/
def Parallel (σ : SchemaId → SchemaId) (K : SchemaId → Prop) (f : α → α') (x : CompileM α)
    (x' : CompileM α') (ws ws' : Workspace) : Prop :=
  (x'.on ws').1 = renamed σ f (x.on ws).1 ∧ Renamed σ K (x.on ws).2 (x'.on ws').2

namespace Parallel

variable {f : α → α'} {g : β → β'} {x : CompileM α} {x' : CompileM α'} {k : α → CompileM β}
  {k' : α' → CompileM β'}

theorem bind (hx : Parallel σ K f x x' ws ws')
    (hk : ∀ a ws₁ ws₁', Renamed σ K ws₁ ws₁' → Parallel σ K g (k a) (k' (f a)) ws₁ ws₁') :
    Parallel σ K g (x >>= k) (x' >>= k') ws ws' := by
  obtain ⟨result, left⟩ := hx
  unfold Parallel
  rw [bind_on, bind_on]
  rcases hr : x.on ws with ⟨e | a, ws₁⟩ <;> rcases hr' : x'.on ws' with ⟨r', ws₁'⟩ <;>
    rw [hr, hr'] at result left <;> dsimp only at result left <;> subst result
  · exact ⟨rfl, left⟩
  · exact hk a ws₁ ws₁' left

theorem get_bind {k : Workspace → CompileM β} {k' : Workspace → CompileM β'}
    (h : Parallel σ K g (k ws) (k' ws') ws ws') :
    Parallel σ K g (MonadState.get >>= k) (MonadState.get >>= k') ws ws' := by
  unfold Parallel
  rw [bind_on, bind_on]
  exact h

theorem lift {r : Except CompileError α} {r' : Except CompileError α'} (h : Renamed σ K ws ws')
    (hr : r' = renamed σ f r) : Parallel σ K f (liftM r) (liftM r') ws ws' := by
  unfold Parallel
  rw [lift_on, lift_on]
  exact ⟨hr, h⟩

theorem pure {a : α} (h : Renamed σ K ws ws') :
    Parallel σ K f (pure a) (pure (f a)) ws ws' := ⟨rfl, h⟩

end Parallel

end Parallel

/-- Renderers of counterparts give the same blocks. -/
def EntersParallel (σ : SchemaId → SchemaId) (K : SchemaId → Prop)
    (enter enter' : SchemaId → Option Renderer) : Prop :=
  ∀ child, K child → (enter child = none ∧ enter' (σ child) = none) ∨
    ∃ render render', enter child = some render ∧ enter' (σ child) = some render' ∧
      ∀ name p header ws ws', Renamed σ K ws ws' →
        Parallel σ K id (render name p header) (render' name p header) ws ws'

/-! ## Hoisting -/

section Hoisting

variable {enter enter' : SchemaId → Option Renderer} {model : String} {p : Projection}
  {flat : Entries} {b : ChildBinding}

theorem saysTrue_rename {s : Store} (hs : s.Fixed σ) (v : Option Value) :
    saysTrue s (v.map (·.rename σ)) = saysTrue s v := by
  unfold saysTrue
  cases v with
  | none => rfl
  | some v =>
    show ((s.first? (v.rename σ)).map _).getD false = ((s.first? v).map _).getD false
    rw [Store.first?_rename hs]
    cases s.first? v <;> simp

theorem embeddingOf_rename {s : Store} (hs : s.Fixed σ) (name : String) :
    embeddingOf s (renameUnder σ flat) name (b.rename σ) = embeddingOf s flat name b := by
  unfold embeddingOf ChildBinding.rename
  dsimp only
  rw [get?_renameUnder, saysTrue_rename hs, get?_renameUnder]
  cases Keyed.get? flat (Path.child b.path "default") <;> simp

theorem childValue_rename (e : Embedding) :
    childValue e (b.rename σ) = (childValue e b).rename σ := by
  unfold childValue
  cases hb : b.isArray <;> simp [ChildBinding.rename, hb, Value.rename]

theorem childHeader_rename (h : Renamed σ K ws ws') (hb : K b.schema) (parent name : String) :
    childHeader ws' parent (b.rename σ) name p = renamed σ id (childHeader ws parent b name p) := by
  unfold childHeader ChildBinding.rename
  split
  · rfl
  split
  · rfl
  dsimp only
  rw [h.declared hb, h.store]
  have header (raw : Option Value) : (do
      let type ← idType ws.store p (raw.map (·.rename σ))
      return Comment.documentHeader (Comment.document parent) name
        ("mongoose.Document<" ++ type ++ ">")) = renamed σ id (do
      let type ← idType ws.store p raw
      return Comment.documentHeader (Comment.document parent) name
        ("mongoose.Document<" ++ type ++ ">")) :=
    Except.bimap_bind (idType_rename h.fixed raw) fun _ => rfl
  rcases Keyed.get? (ws.schema b.schema).tree "_id" with _ | v
  · exact header none
  · cases v with
    | null => exact header none
    | _ => exact header (some _)

theorem parallel_hoist (h : Renamed σ K ws ws') (he : EntersParallel σ K enter enter')
    (hb : K b.schema) (blocks : List Block) :
    Parallel σ K (fun r => (renameUnder σ r.1, r.2)) (hoist enter model p flat blocks b)
      (hoist enter' model p (renameUnder σ flat) blocks (b.rename σ)) ws ws' := by
  unfold hoist
  rcases he b.schema hb with ⟨hn, hn'⟩ | ⟨render, render', hr, hr', alike⟩
  · rw [hn, show enter' (b.rename σ).schema = none from hn']
    exact ⟨rfl, h⟩
  · rw [hr, show enter' (b.rename σ).schema = some render' from hr']
    refine .get_bind ?_
    have same : (ws'.schema (b.rename σ).schema).leanVirtuals = (ws.schema b.schema).leanVirtuals :=
      h.leanVirtuals hb
    dsimp only
    rw [same]
    refine .bind (.lift h (childHeader_rename h hb _ _)) fun header ws₁ ws₁' h₁ => ?_
    refine .bind (alike _ _ _ _ _ h₁) fun run ws₂ ws₂' h₂ => ?_
    have ref : childValue (embeddingOf ws'.store (renameUnder σ flat)
        (Naming.subdocumentName (b.rename σ).path model) (b.rename σ)) (b.rename σ)
        = (childValue (embeddingOf ws.store flat (Naming.subdocumentName b.path model) b) b).rename
          σ := by
      rw [childValue_rename, h.store, embeddingOf_rename h.fixed]
      rfl
    rw [ref]
    show Parallel σ K _ _ (pure (replacePath (renameUnder σ flat) b.path _, _)) ws₂ ws₂'
    rw [replacePath_rename]
    exact .pure h₂

theorem parallel_hoistAll (he : EntersParallel σ K enter enter') {cs : List ChildBinding}
    (hcs : ∀ b ∈ cs, K b.schema) (h : Renamed σ K ws ws') (blocks : List Block) :
    Parallel σ K (fun r => (renameUnder σ r.1, r.2)) (hoistAll enter model p flat blocks cs)
      (hoistAll enter' model p (renameUnder σ flat) blocks (cs.map (·.rename σ))) ws ws' := by
  induction cs generalizing ws ws' flat blocks with
  | nil => exact .pure h
  | cons b rest ih =>
    refine .bind (parallel_hoist h he (hcs b List.mem_cons_self) blocks) fun r ws₁ ws₁' h₁ => ?_
    exact ih (fun c hc => hcs c (List.mem_cons_of_mem _ hc)) h₁ _

theorem parallel_expandWith (he : EntersParallel σ K enter enter') (h : Renamed σ K ws ws')
    (hi : K i) :
    Parallel σ K (fun r => (r.1, renameUnder σ r.2)) (expandWith enter i model p)
      (expandWith enter' (σ i) model p) ws ws' := by
  refine .get_bind ?_
  dsimp only
  rw [h.schema hi]
  show Parallel σ K _ _ (hoistAll enter' model p (flatten (renameUnder σ (ws.schema i).tree)) []
    ((ws.schema i).children.map (·.rename σ)) >>= _) ws ws'
  rw [flatten_rename]
  refine .bind (parallel_hoistAll he (h.child i hi) h []) fun r ws₁ ws₁' h₁ => ?_
  refine .bind (f := id) ⟨rfl, h₁.update hi (fun schema => ?_) fun _ => rfl⟩ fun _ ws₂ ws₂' h₂ => ?_
  · simp [Schema.rename, fillFrom_rename]
  · show Parallel σ K _ _ (pure (_, unflatten (renameUnder σ r.1))) ws₂ ws₂'
    rw [unflatten_rename]
    exact .pure h₂

theorem parallel_renderWith (he : EntersParallel σ K enter enter') (h : Renamed σ K ws ws')
    (hi : K i) (header footer : String) :
    Parallel σ K id (renderWith enter i model p header footer)
      (renderWith enter' (σ i) model p header footer) ws ws' := by
  refine .get_bind ?_
  dsimp only
  have empty : (ws'.schema (σ i)).children.isEmpty = (ws.schema i).children.isEmpty := by
    rw [h.schema hi]
    exact List.isEmpty_map
  rw [empty]
  have whole (r : List Block × Entries) (ws₁ ws₁' : Workspace) (h₁ : Renamed σ K ws₁ ws₁') :
      Parallel σ K id (do
          let body ← liftM (bodyText (← get).store p r.2)
          return r.1 ++ [⟨model, header ++ body ++ footer⟩] : CompileM (List Block)) (do
          let body ← liftM (bodyText (← get).store p (renameUnder σ r.2))
          return r.1 ++ [⟨model, header ++ body ++ footer⟩]) ws₁ ws₁' := by
    refine .get_bind ?_
    refine .bind (.lift (f := id) h₁ ?_) fun body ws₂ ws₂' h₂ => .pure h₂
    rw [h₁.store, bodyText_rename h₁.fixed]
  split
  · exact .bind (parallel_expandWith he h hi) fun r ws₁ ws₁' h₁ => whole r _ _ h₁
  · rw [h.schema hi]
    have own : Parallel σ K (fun r => (r.1, renameUnder σ r.2))
        (pure ([], (ws.schema i).tree) : CompileM (List Block × Entries))
        (pure ([], renameUnder σ (ws.schema i).tree)) ws ws' := .pure h
    exact own.bind fun r ws₁ ws₁' h₁ => whole r _ _ h₁

end Hoisting

/-! ## Blocks -/

section Blocks

variable {outside outside' : List SchemaId} {model header footer : String} {p : Projection}

/-- Lists of the schemas that may still be entered: each holds the counterparts of the other. -/
structure SameOutside (σ : SchemaId → SchemaId) (K : SchemaId → Prop)
    (outside outside' : List SchemaId) : Prop where
  nodup : outside.Nodup
  nodup' : outside'.Nodup
  mem_iff : ∀ i, K i → (i ∈ outside ↔ σ i ∈ outside')

theorem SameOutside.erase (h : SameOutside σ K outside outside')
    (injective : ∀ i j, K i → K j → σ i = σ j → i = j) (hi : K i) :
    SameOutside σ K (outside.erase i) (outside'.erase (σ i)) where
  nodup := h.nodup.erase i
  nodup' := h.nodup'.erase (σ i)
  mem_iff j hj := by
    rw [h.nodup.mem_erase_iff, h.nodup'.mem_erase_iff, h.mem_iff j hj]
    have apart : j ≠ i ↔ σ j ≠ σ i := not_congr ⟨congrArg σ, injective j i hj hi⟩
    rw [apart]

theorem sameOutside_outsideOf (h : Renamed σ K ws ws') (hi : K i) :
    SameOutside σ K (outsideOf ws [i]) (outsideOf ws' [σ i]) where
  nodup := List.nodup_range.filter _
  nodup' := List.nodup_range.filter _
  mem_iff j hj := by
    have apart : j = i ↔ σ j = σ i := ⟨congrArg σ, h.injective j i hj hi⟩
    simp [outsideOf, Workspace.ids, h.made j hj, h.made' hj, apart]

theorem parallel_renderWithin (h : Renamed σ K ws ws') (hi : K i)
    (same : SameOutside σ K outside outside') :
    Parallel σ K id (renderWithin outside i model p header footer)
      (renderWithin outside' (σ i) model p header footer) ws ws' := by
  induction hn : outside.length using Nat.strongRecOn
    generalizing outside outside' i model p header footer ws ws' with
  | ind n ih =>
    rw [renderWithin_eq, renderWithin_eq]
    refine parallel_renderWith (fun child hc => ?_) h hi header footer
    have mem := same.mem_iff child hc
    unfold entering
    by_cases hm : child ∈ outside
    · rw [if_pos hm, if_pos (mem.1 hm)]
      refine .inr ⟨_, _, rfl, rfl, fun name q opening ws₁ ws₁' h₁ => ?_⟩
      exact ih _ (hn ▸ length_erase_lt hm) h₁ hc (same.erase h.injective hc) rfl
    · rw [if_neg hm, if_neg fun hm' => hm (mem.2 hm')]
      exact .inl ⟨rfl, rfl⟩

theorem parallel_renderBlocks (h : Renamed σ K ws ws') (hi : K i) :
    Parallel σ K id (renderBlocks i model p header footer)
      (renderBlocks (σ i) model p header footer) ws ws' := by
  unfold Parallel
  rw [renderBlocks_on, renderBlocks_on]
  exact parallel_renderWithin h hi (sameOutside_outsideOf h hi)

theorem documentBase_rename (h : Renamed σ K ws ws') (hi : K i) :
    documentBase ws' (σ i) model p = renamed σ id (documentBase ws i model p) := by
  unfold documentBase
  rw [h.declared hi, h.store]
  exact Except.bimap_bind (idType_rename h.fixed _) fun _ => rfl

/-- Blocks hold no schemas, nor does the error of two that cannot be paired. -/
theorem pairBlocks_rename (leans documents : List Block) :
    pairBlocks leans documents = renamed σ id (pairBlocks leans documents) := by
  induction leans generalizing documents with
  | nil => rfl
  | cons lean leans ih =>
    cases documents with
    | nil => rfl
    | cons document documents =>
      rw [pairBlocks]
      split
      · exact Except.bimap_bind (ih documents) fun _ => rfl
      · rfl

/-- Schemas that are the same but for their identities have the same declarations. -/
theorem parallel_compile (h : Renamed σ K ws ws') (hi : K i) (plainIds : Bool) :
    Parallel σ K id (compile i model plainIds) (compile (σ i) model plainIds) ws ws' := by
  unfold compile compileBy
  refine .get_bind ?_
  have lean : leanPass ws' (σ i) plainIds = leanPass ws i plainIds := by
    unfold leanPass
    rw [h.leanVirtuals hi]
  have document : documentPass ws' (σ i) = documentPass ws i := by
    unfold documentPass
    rw [h.leanVirtuals hi]
  dsimp only
  rw [lean, document]
  refine .bind (parallel_renderBlocks h hi) fun leans ws₁ ws₁' h₁ => ?_
  split
  · exact .pure h₁
  refine .get_bind (.bind (.lift (f := id) h₁ ?_) fun base ws₂ ws₂' h₂ => ?_)
  · exact documentBase_rename h₁ hi
  · refine .bind (parallel_renderBlocks h₂ hi) fun documents ws₃ ws₃' h₃ => .lift h₃ ?_
    exact pairBlocks_rename leans documents

end Blocks

end Compile
end ModelTypes
