import ModelTypes.Compile.Model
import ModelTypes.Proofs.Result
/-!
# Running the renderer

Work on a workspace is taken apart by `bind_ok_iff` and `bind_error_iff`. A rendering that succeeds
is a derivation of `Renders`, in which the schemas that enclose the rendered one no longer occur:
the lineage decides whether blocks are rendered, never what they are. Later modules go by induction
over that derivation and do not open the renderer again.
-/

namespace ModelTypes.Compile

/-! ## Sequences of work -/

section Sequences

variable {α β : Type} {ws ws' : Workspace}

theorem bind_on (x : CompileM α) (f : α → CompileM β) (ws : Workspace) :
    (x >>= f).on ws = match x.on ws with
      | (.ok a, ws₁) => (f a).on ws₁
      | (.error e, ws₁) => (.error e, ws₁) := by
  rcases h : x.on ws with ⟨_ | a, ws₁⟩
  · exact ExceptT.bind_on_of_error h
  · exact ExceptT.bind_on_of_ok h

theorem bind_ok_iff {x : CompileM α} {f : α → CompileM β} {b : β} :
    (x >>= f).on ws = (.ok b, ws') ↔
      ∃ a ws₁, x.on ws = (.ok a, ws₁) ∧ (f a).on ws₁ = (.ok b, ws') :=
  ExceptT.bind_on_ok_iff

theorem bind_error_iff {x : CompileM α} {f : α → CompileM β} {e : CompileError} :
    (x >>= f).on ws = (.error e, ws') ↔ x.on ws = (.error e, ws') ∨
      ∃ a ws₁, x.on ws = (.ok a, ws₁) ∧ (f a).on ws₁ = (.error e, ws') :=
  ExceptT.bind_on_error_iff

/-- Work that is seen to return returns something. -/
theorem ok_of_isOk {work : CompileM α} (h : (work.on ws).1.isOk = true) :
    ∃ a ws', work.on ws = (.ok a, ws') := by
  rcases hr : work.on ws with ⟨_ | a, ws'⟩
  · rw [hr] at h
    cases h
  · exact ⟨a, ws', rfl⟩

/-- Work of which a result is seen in part returns one with that part. -/
theorem ok_of_map_eq {work : CompileM α} {f : α → β} {b : β}
    (h : (work.on ws).1.toOption.map f = some b) :
    ∃ a ws', work.on ws = (.ok a, ws') ∧ f a = b := by
  rcases hr : work.on ws with ⟨_ | a, ws'⟩ <;> rw [hr] at h
  · cases h
  · exact ⟨a, ws', rfl, Option.some.inj h⟩

@[simp] theorem pure_on (a : α) : (pure a : CompileM α).on ws = (.ok a, ws) := rfl

@[simp] theorem get_on : (get : CompileM Workspace).on ws = (.ok ws, ws) := rfl

@[simp] theorem modify_on (f : Workspace → Workspace) :
    (modify f : CompileM Unit).on ws = (.ok (), f ws) := rfl

@[simp] theorem throw_on (e : CompileError) : (throw e : CompileM α).on ws = (.error e, ws) := rfl

@[simp] theorem lift_on (r : Except CompileError α) : (liftM r : CompileM α).on ws = (r, ws) := by
  cases r <;> rfl

end Sequences

/-! ## Successful renderings -/

/-- The tree of a schema after its flat form was hoisted. -/
def refill (ws : Workspace) (id : SchemaId) (flat : Entries) : Workspace :=
  ws.update id fun schema => { schema with tree := fillFrom schema.tree flat }

/-- The projection in which a child is rendered. -/
def childProjection (ws : Workspace) (p : Projection) (b : ChildBinding) : Projection :=
  { p with leanVirtuals := (ws.schema b.schema).leanVirtuals }

/-- The flat form of a parent after one child was hoisted. -/
def hoisted (s : Store) (model : String) (flat : Entries) (b : ChildBinding) : Entries :=
  replacePath flat b.path
    (childValue (embeddingOf s flat (Naming.subdocumentName b.path model) b) b)

mutual

/-- A schema is rendered under a name and a header: the workspace before, the blocks, and the
workspace after. -/
inductive Renders : Workspace → SchemaId → String → Projection → String → String →
    List Block → Workspace → Prop
  | alone {ws id model p header footer body}
      (single : (ws.schema id).children = [] ∨ model = "")
      (text : bodyText ws.store p (ws.schema id).tree = .ok body) :
      Renders ws id model p header footer [⟨model, header ++ body ++ footer⟩] ws
  | parent {ws id model p header footer body flat blocks ws₁}
      (embeds : (ws.schema id).children ≠ []) (named : model ≠ "")
      (children : Hoists ws (ws.schema id).children model p (flatten (ws.schema id).tree) flat
        blocks ws₁)
      (text : bodyText ws₁.store p (unflatten flat) = .ok body) :
      Renders ws id model p header footer (blocks ++ [⟨model, header ++ body ++ footer⟩])
        (refill ws₁ id flat)

/-- Children are hoisted out of a flat form, one after the other. -/
inductive Hoists : Workspace → List ChildBinding → String → Projection → Entries → Entries →
    List Block → Workspace → Prop
  | nil {ws model p flat} : Hoists ws [] model p flat flat [] ws
  | cons {ws b rest model p flat flat' header run blocks ws₁ ws₂}
      (opening : childHeader ws model b (Naming.subdocumentName b.path model)
        (childProjection ws p b) = .ok header)
      (child : Renders ws b.schema (Naming.subdocumentName b.path model) (childProjection ws p b)
        header Comment.blockFooter run ws₁)
      (others : Hoists ws₁ rest model p (hoisted ws.store model flat b) flat' blocks ws₂) :
      Hoists ws (b :: rest) model p flat flat' (run ++ blocks) ws₂

end

/-- Whatever a renderer gives is derivable. -/
def Sound (enter : SchemaId → Option Renderer) : Prop :=
  ∀ child render, enter child = some render → ∀ name p header ws run ws',
    (render name p header).on ws = (.ok run, ws') →
      Renders ws child name p header Comment.blockFooter run ws'

theorem hoist_ok_iff {enter : SchemaId → Option Renderer} {model : String} {p : Projection}
    {flat : Entries} {blocks : List Block} {b : ChildBinding} {ws ws' : Workspace}
    {r : Entries × List Block} :
    (hoist enter model p flat blocks b).on ws = (.ok r, ws') ↔
      ∃ render header run, enter b.schema = some render ∧
        childHeader ws model b (Naming.subdocumentName b.path model) (childProjection ws p b)
          = .ok header ∧
        (render (Naming.subdocumentName b.path model) (childProjection ws p b) header).on ws
          = (.ok run, ws') ∧
        r = (hoisted ws.store model flat b, blocks ++ run) := by
  unfold hoist
  cases he : enter b.schema with
  | none => simp
  | some render =>
    simp only [bind_ok_iff, get_on, lift_on, pure_on, Prod.mk.injEq, Except.ok.injEq]
    constructor
    · rintro ⟨_, _, ⟨rfl, rfl⟩, header, _, ⟨hh, rfl⟩, run, _, hr, rfl, rfl⟩
      exact ⟨render, header, run, rfl, hh, hr, rfl⟩
    · rintro ⟨_, header, run, hren, hh, hr, rfl⟩
      cases hren
      exact ⟨ws, ws, ⟨rfl, rfl⟩, header, ws, ⟨hh, rfl⟩, run, ws', hr, rfl, rfl⟩

theorem hoistAll_ok {enter : SchemaId → Option Renderer} {model : String} {p : Projection}
    {cs : List ChildBinding} {ws ws' : Workspace} {flat flat' : Entries}
    {blocks blocks' : List Block} (sound : Sound enter)
    (h : (hoistAll enter model p flat blocks cs).on ws = (.ok (flat', blocks'), ws')) :
    ∃ runs, blocks' = blocks ++ runs ∧ Hoists ws cs model p flat flat' runs ws' := by
  induction cs generalizing ws flat blocks with
  | nil =>
    simp only [hoistAll, pure_on, Prod.mk.injEq, Except.ok.injEq] at h
    obtain ⟨⟨rfl, rfl⟩, rfl⟩ := h
    exact ⟨[], by simp, .nil⟩
  | cons b rest ih =>
    simp only [hoistAll, bind_ok_iff] at h
    obtain ⟨r, ws₁, hb, hrest⟩ := h
    obtain ⟨render, header, run, hr, hh, hrun, rfl⟩ := hoist_ok_iff.1 hb
    obtain ⟨runs, rfl, hs⟩ := ih hrest
    exact ⟨run ++ runs, by simp, .cons hh (sound _ _ hr _ _ _ _ _ _ hrun) hs⟩

theorem expandWith_ok_iff {enter : SchemaId → Option Renderer} {id : SchemaId} {model : String}
    {p : Projection} {ws ws' : Workspace} {blocks : List Block} {tree : Entries} :
    (expandWith enter id model p).on ws = (.ok (blocks, tree), ws') ↔ ∃ flat ws₁,
      (hoistAll enter model p (flatten (ws.schema id).tree) [] (ws.schema id).children).on ws
        = (.ok (flat, blocks), ws₁) ∧ tree = unflatten flat ∧ ws' = refill ws₁ id flat := by
  unfold expandWith
  simp only [bind_ok_iff, get_on, modify_on, pure_on, Prod.mk.injEq, Except.ok.injEq]
  constructor
  · rintro ⟨_, _, ⟨rfl, rfl⟩, ⟨flat, out⟩, ws₁, hall, _, _, ⟨-, rfl⟩, ⟨rfl, rfl⟩, rfl⟩
    exact ⟨flat, ws₁, hall, rfl, rfl⟩
  · rintro ⟨flat, ws₁, hall, rfl, rfl⟩
    exact ⟨ws, ws, ⟨rfl, rfl⟩, (flat, blocks), ws₁, hall, (), _, ⟨trivial, rfl⟩, ⟨rfl, rfl⟩, rfl⟩

theorem expandWith_ok {enter : SchemaId → Option Renderer} {id : SchemaId} {model : String}
    {p : Projection} {ws ws' : Workspace} {blocks : List Block} {tree : Entries}
    (sound : Sound enter)
    (h : (expandWith enter id model p).on ws = (.ok (blocks, tree), ws')) :
    ∃ flat ws₁, Hoists ws (ws.schema id).children model p (flatten (ws.schema id).tree) flat
      blocks ws₁ ∧ tree = unflatten flat ∧ ws' = refill ws₁ id flat := by
  obtain ⟨flat, ws₁, hall, rfl, rfl⟩ := expandWith_ok_iff.1 h
  obtain ⟨runs, rfl, hs⟩ := hoistAll_ok sound hall
  exact ⟨flat, ws₁, by simpa using hs, rfl, rfl⟩

/-- What a rendering writes: what hoisting gives if there are children to hoist, else the schema's
own tree. -/
theorem renderWith_ok_iff {enter : SchemaId → Option Renderer} {id : SchemaId} {model : String}
    {p : Projection} {header footer : String} {ws ws' : Workspace} {blocks : List Block} :
    (renderWith enter id model p header footer).on ws = (.ok blocks, ws') ↔
      ∃ run tree body,
        (if (ws.schema id).children ≠ [] ∧ model ≠ "" then
          (expandWith enter id model p).on ws = (.ok (run, tree), ws')
        else run = [] ∧ tree = (ws.schema id).tree ∧ ws' = ws) ∧
        bodyText ws'.store p tree = .ok body ∧
        blocks = run ++ [⟨model, header ++ body ++ footer⟩] := by
  have own (run : List Block) (tree : Entries) (ws₁ : Workspace) : (do
      let body ← liftM (bodyText (← get).store p tree)
      return run ++ [⟨model, header ++ body ++ footer⟩] : CompileM (List Block)).on ws₁
        = (.ok blocks, ws') ↔ ∃ body, bodyText ws₁.store p tree = .ok body ∧
          blocks = run ++ [⟨model, header ++ body ++ footer⟩] ∧ ws' = ws₁ := by
    simp only [bind_on, get_on, lift_on]
    cases bodyText ws₁.store p tree <;> simp [eq_comm]
  unfold renderWith
  rw [bind_on, get_on]
  by_cases hc : (ws.schema id).children ≠ [] ∧ model ≠ ""
  · have hb : (!(ws.schema id).children.isEmpty && model != "") = true := by simpa using hc
    simp only [hb, if_pos hc, if_true, bind_ok_iff (x := expandWith enter id model p), own]
    constructor
    · rintro ⟨⟨run, tree⟩, ws₁, hx, body, ht, rfl, rfl⟩
      exact ⟨run, tree, body, hx, ht, rfl⟩
    · rintro ⟨run, tree, body, hx, ht, rfl⟩
      exact ⟨(run, tree), ws', hx, body, ht, rfl, rfl⟩
  · have hb : ¬ (!(ws.schema id).children.isEmpty && model != "") = true := by simpa using hc
    simp only [hb, if_neg hc, if_false, Bool.false_eq_true,
      bind_ok_iff (x := (pure ([], (ws.schema id).tree) : CompileM (List Block × Entries))), pure_on,
      Prod.mk.injEq, Except.ok.injEq, own]
    constructor
    · rintro ⟨_, _, ⟨rfl, rfl⟩, body, ht, rfl, rfl⟩
      exact ⟨[], _, body, ⟨rfl, rfl, rfl⟩, ht, rfl⟩
    · rintro ⟨_, _, body, ⟨rfl, rfl, rfl⟩, ht, rfl⟩
      exact ⟨_, _, ⟨rfl, rfl⟩, body, ht, rfl, rfl⟩

theorem renderWith_ok {enter : SchemaId → Option Renderer} {id : SchemaId} {model : String}
    {p : Projection} {header footer : String} {ws ws' : Workspace} {blocks : List Block}
    (sound : Sound enter)
    (h : (renderWith enter id model p header footer).on ws = (.ok blocks, ws')) :
    Renders ws id model p header footer blocks ws' := by
  obtain ⟨run, tree, body, hx, hb, rfl⟩ := renderWith_ok_iff.1 h
  split at hx
  · rename_i hc
    obtain ⟨flat, ws₁, hs, rfl, rfl⟩ := expandWith_ok sound hx
    exact .parent hc.1 hc.2 hs hb
  · rename_i hc
    obtain ⟨rfl, rfl, rfl⟩ := hx
    refine .alone ?_ hb
    by_cases hm : model = ""
    · exact .inr hm
    · exact .inl (by simpa [hm] using hc)

theorem renderWithin_eq (outside : List SchemaId) :
    renderWithin outside = renderWith (entering outside) := by
  funext id model p header footer
  rw [renderWithin]
  rfl

theorem entering_eq_some {outside : List SchemaId} {child : SchemaId} {render : Renderer}
    (h : entering outside child = some render) :
    child ∈ outside ∧ render = fun name p header =>
      renderWithin (outside.erase child) child name p header Comment.blockFooter := by
  unfold entering at h
  split at h
  · exact ⟨‹_›, (Option.some.inj h).symm⟩
  · simp at h

theorem renderWithin_ok {outside : List SchemaId} {id : SchemaId} {model : String} {p : Projection}
    {header footer : String} {ws ws' : Workspace} {blocks : List Block}
    (h : (renderWithin outside id model p header footer).on ws = (.ok blocks, ws')) :
    Renders ws id model p header footer blocks ws' := by
  induction hn : outside.length using Nat.strongRecOn
    generalizing outside id model p header footer ws ws' blocks with
  | ind n ih =>
    rw [renderWithin_eq] at h
    -- A child is rendered with itself taken off the schemas outside, so these get fewer.
    refine renderWith_ok (fun child render hr name q header ws₀ run ws₁ hrun => ?_) h
    obtain ⟨hc, rfl⟩ := entering_eq_some hr
    exact ih _ (by rw [← hn]; exact length_erase_lt hc) hrun rfl

theorem sound_entering (outside : List SchemaId) : Sound (entering outside) := by
  intro child render hr name p header ws run ws' hrun
  obtain ⟨-, rfl⟩ := entering_eq_some hr
  exact renderWithin_ok hrun

theorem renderBlocks_on {id : SchemaId} {model : String} {p : Projection} {header footer : String}
    (ws : Workspace) : (renderBlocks id model p header footer).on ws
      = (renderWithin (outsideOf ws [id]) id model p header footer).on ws := by
  unfold renderBlocks
  rw [bind_on]
  rfl

theorem renderBlocks_ok {id : SchemaId} {model : String} {p : Projection} {header footer : String}
    {ws ws' : Workspace} {blocks : List Block}
    (h : (renderBlocks id model p header footer).on ws = (.ok blocks, ws')) :
    Renders ws id model p header footer blocks ws' := by
  rw [renderBlocks_on] at h
  exact renderWithin_ok h

/-! ## What rendering leaves alone -/

/-- Two workspaces that differ in the trees of their schemas at most. -/
structure SameButTrees (ws ws' : Workspace) : Prop where
  store : ws'.store = ws.store
  length : ws'.schemas.length = ws.schemas.length
  schema : ∀ id, ws'.schema id = { ws.schema id with tree := (ws'.schema id).tree }

namespace SameButTrees

variable {ws ws₁ ws₂ : Workspace}

theorem refl (ws : Workspace) : SameButTrees ws ws := ⟨rfl, rfl, fun _ => rfl⟩

theorem trans (h : SameButTrees ws ws₁) (h' : SameButTrees ws₁ ws₂) : SameButTrees ws ws₂ where
  store := h'.store.trans h.store
  length := h'.length.trans h.length
  schema id := by rw [h'.schema id, h.schema id]

theorem children (h : SameButTrees ws ws₁) (id : SchemaId) :
    (ws₁.schema id).children = (ws.schema id).children := by rw [h.schema id]

theorem leanVirtuals (h : SameButTrees ws ws₁) (id : SchemaId) :
    (ws₁.schema id).leanVirtuals = (ws.schema id).leanVirtuals := by
  rw [h.schema id]; rfl

theorem ids (h : SameButTrees ws ws₁) : ws₁.ids = ws.ids := by
  simp [Workspace.ids, h.length]

theorem childProjection (h : SameButTrees ws ws₁) (p : Projection) (b : ChildBinding) :
    Compile.childProjection ws₁ p b = Compile.childProjection ws p b := by
  simp [Compile.childProjection, h.leanVirtuals]

end SameButTrees

theorem schema_update (ws : Workspace) (id other : SchemaId) (f : Schema → Schema) :
    (ws.update id f).schema other =
      if other = id ∧ id < ws.schemas.length then f (ws.schema id) else ws.schema other := by
  unfold Workspace.update Workspace.schema
  simp only [List.getElem?_modify]
  by_cases h : id = other
  · subst h
    by_cases hlt : id < ws.schemas.length
    · simp [hlt]
    · simp [hlt]
  · simp [h, Ne.symm h]

theorem sameButTrees_refill (ws : Workspace) (id : SchemaId) (flat : Entries) :
    SameButTrees ws (refill ws id flat) where
  store := rfl
  length := by simp [refill, Workspace.update]
  schema other := by
    unfold refill
    rw [schema_update]
    split
    · rename_i h
      rw [h.1]
    · rfl

mutual

theorem Renders.sameButTrees {ws ws' : Workspace} {id : SchemaId} {model : String} {p : Projection}
    {header footer : String} {blocks : List Block} :
    Renders ws id model p header footer blocks ws' → SameButTrees ws ws'
  | .alone _ _ => .refl ws
  | .parent _ _ hs _ => hs.sameButTrees.trans (sameButTrees_refill _ _ _)

theorem Hoists.sameButTrees {ws ws' : Workspace} {cs : List ChildBinding} {model : String}
    {p : Projection} {flat flat' : Entries} {blocks : List Block} :
    Hoists ws cs model p flat flat' blocks ws' → SameButTrees ws ws'
  | .nil => .refl ws
  | .cons _ hr hs => hr.sameButTrees.trans hs.sameButTrees

end

end ModelTypes.Compile
