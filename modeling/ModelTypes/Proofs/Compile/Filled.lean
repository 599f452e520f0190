import ModelTypes.Proofs.Compile.Circular
import ModelTypes.Proofs.Compile.Tidy
/-!
# What renderings leave behind

However a rendering ends, all it has done to the workspace is to fill trees, one after the other:
each time the empty mappings of one schema's tree took what its own flat form has below them. Only
schemas at or below the rendered one are filled, and a tidy one stays as it is.
-/

namespace ModelTypes.Compile

variable {α β : Type} {ws ws' ws₁ ws₂ : Workspace} {id x : SchemaId} {model : String}
  {p : Projection} {places places' : SchemaId → Prop}

/-! ## Filled workspaces -/

/-- One of some schemas is filled. -/
inductive Fills (places : SchemaId → Prop) (ws : Workspace) : Workspace → Prop
  | intro {id : SchemaId} (place : places id) (model : String) :
      Fills places ws (refill ws id (hoistedForm ws id model))

/-- Some schemas are filled, one after the other. -/
def Filled (places : SchemaId → Prop) : Workspace → Workspace → Prop :=
  Relation.ReflTransGen (Fills places)

namespace Filled

theorem refl (ws : Workspace) : Filled places ws ws := Relation.ReflTransGen.refl

theorem trans (h : Filled places ws ws₁) (h' : Filled places ws₁ ws₂) : Filled places ws ws₂ :=
  Relation.ReflTransGen.trans h h'

theorem single (place : places id) (model : String) :
    Filled places ws (refill ws id (hoistedForm ws id model)) :=
  Relation.ReflTransGen.single (.intro place model)

theorem mono (sub : ∀ x, places x → places' x) (h : Filled places ws ws') :
    Filled places' ws ws' := by
  refine Relation.ReflTransGen.mono (fun ws ws' step => ?_) ws ws' h
  obtain ⟨place, model⟩ := step
  exact .intro (sub _ place) model

theorem sameButTrees (h : Filled places ws ws') : SameButTrees ws ws' := by
  induction h with
  | refl => exact .refl ws
  | tail _ step ih =>
    obtain ⟨-, model⟩ := step
    exact ih.trans (sameButTrees_refill _ _ _)

/-- Other schemas are left alone. -/
theorem schema_eq (h : Filled places ws ws') (other : ¬ places x) :
    ws'.schema x = ws.schema x := by
  induction h with
  | refl => rfl
  | tail _ step ih =>
    obtain ⟨place, model⟩ := step
    rw [schema_refill_of_ne (by rintro rfl; exact other place), ih]

/-- A tidy schema is left alone. -/
theorem schema_eq_of_tidy (h : Filled places ws ws') (tidy : (ws.schema x).Tidy) :
    ws'.schema x = ws.schema x := by
  induction h with
  | refl => rfl
  | @tail ws₁ _ _ step ih =>
    obtain ⟨-, model⟩ := step
    rename_i id
    by_cases hx : x = id
    · subst hx
      rw [refill_eq_self (ih ▸ tidy), ih]
    · rw [schema_refill_of_ne hx, ih]

/-- Filling tidy schemas changes nothing. -/
theorem eq_of_tidy (h : Filled places ws ws') (tidy : ∀ x, places x → (ws.schema x).Tidy) :
    ws' = ws := by
  induction h with
  | refl => rfl
  | tail _ step ih =>
    obtain ⟨place, model⟩ := step
    subst ih
    exact refill_eq_self (tidy _ place)

end Filled

/-! ## Work that fills trees -/

/-- However it ends, work leaves a workspace in which some schemas were filled. -/
def Leaves (places : SchemaId → Prop) (work : CompileM α) (ws : Workspace) : Prop :=
  Filled places ws (work.on ws).2

theorem Leaves.of_on {work : CompileM α} (h : Leaves places work ws)
    {r : Except CompileError α} (hr : work.on ws = (r, ws')) : Filled places ws ws' := by
  rw [Leaves, hr] at h
  exact h

theorem Leaves.bind {work : CompileM α} {f : α → CompileM β} (h : Leaves places work ws)
    (next : ∀ a ws₁, work.on ws = (.ok a, ws₁) → Leaves places (f a) ws₁) :
    Leaves places (work >>= f) ws := by
  unfold Leaves
  rw [bind_on]
  rcases hr : work.on ws with ⟨_ | a, ws₁⟩
  · exact h.of_on hr
  · exact (h.of_on hr).trans (next a ws₁ hr)

theorem Leaves.mono (sub : ∀ x, places x → places' x) {work : CompileM α}
    (h : Leaves places work ws) : Leaves places' work ws := Filled.mono sub h

theorem leaves_get : Leaves places (get : CompileM Workspace) ws := .refl ws

theorem leaves_pure {a : α} : Leaves places (pure a) ws := .refl ws

theorem leaves_lift {r : Except CompileError α} : Leaves places (liftM r) ws := by
  rw [Leaves, lift_on]
  exact .refl ws

/-! ## Renderings -/

section Renderers

variable {enter : SchemaId → Option Renderer}

/-- The renderer of a child fills some schemas, in all workspaces that differ from one in trees. -/
def LeavesOn (places : SchemaId → Prop) (enter : SchemaId → Option Renderer) (ws : Workspace)
    (cs : List ChildBinding) : Prop :=
  ∀ b ∈ cs, ∀ render, enter b.schema = some render → ∀ ws₁, SameButTrees ws ws₁ →
    ∀ name p header, Leaves places (render name p header) ws₁

theorem leaves_hoist {b : ChildBinding} {flat : Entries} {blocks : List Block}
    (child : ∀ render, enter b.schema = some render → ∀ name p header,
      Leaves places (render name p header) ws) :
    Leaves places (hoist enter model p flat blocks b) ws := by
  unfold hoist
  cases he : enter b.schema with
  | none => exact .refl ws
  | some render =>
    refine leaves_get.bind fun ws₀ _ h => ?_
    cases h
    refine leaves_lift.bind fun header ws₁ h => ?_
    obtain ⟨-, rfl⟩ := Prod.mk.inj (lift_on _ ▸ h)
    exact (child render he _ _ _).bind fun run _ _ => leaves_pure

theorem leaves_hoistAll {cs : List ChildBinding} {flat : Entries} {blocks : List Block}
    (children : LeavesOn places enter ws cs) :
    Leaves places (hoistAll enter model p flat blocks cs) ws := by
  induction cs generalizing ws flat blocks with
  | nil => exact leaves_pure
  | cons b rest ih =>
    have first : Leaves places (hoist enter model p flat blocks b) ws :=
      leaves_hoist fun render he => children b List.mem_cons_self render he ws (.refl ws)
    refine first.bind fun r ws₁ h => ih fun c hc render he ws₂ same => ?_
    exact children c (List.mem_cons_of_mem _ hc) render he ws₂
      ((first.of_on h).sameButTrees.trans same)

/-- Rendering the children of a schema does not fill the schema itself, so it is filled from the
tree that it had before. -/
theorem leaves_expandWith (sound : Sound enter) (sub : ∀ x, places x → places' x)
    (place : places' id) (apart : ¬ places id)
    (children : LeavesOn places enter ws (ws.schema id).children) :
    Leaves places' (expandWith enter id model p) ws := by
  unfold expandWith
  refine leaves_get.bind fun ws₀ _ h => ?_
  cases h
  have hoists : Leaves places (hoistAll enter model p (flatten (ws.schema id).tree) []
    (ws.schema id).children) ws := leaves_hoistAll children
  refine (hoists.mono sub).bind fun r ws₁ h => .bind ?_ fun _ _ _ => leaves_pure
  obtain ⟨flat, blocks⟩ := r
  obtain ⟨runs, -, hs⟩ := hoistAll_ok sound h
  have own : ws₁.schema id = ws.schema id := (hoists.of_on h).schema_eq apart
  have form : flat = hoistedForm ws₁ id model := by
    rw [hs.flat_eq, hoistedForm, own, hs.sameButTrees.store]
  rw [form]
  exact Filled.single place model

theorem leaves_renderWith {header footer : String} (sound : Sound enter)
    (sub : ∀ x, places x → places' x) (place : places' id) (apart : ¬ places id)
    (children : LeavesOn places enter ws (ws.schema id).children) :
    Leaves places' (renderWith enter id model p header footer) ws := by
  have own {ws : Workspace} {blocks : List Block} {tree : Entries} : Leaves places' (do
      let body ← liftM (bodyText (← get).store p tree)
      return blocks ++ [⟨model, header ++ body ++ footer⟩] : CompileM (List Block)) ws :=
    leaves_get.bind fun _ _ _ => leaves_lift.bind fun _ _ _ => leaves_pure
  unfold renderWith
  refine leaves_get.bind fun ws₀ _ h => ?_
  cases h
  dsimp only
  split
  · exact (leaves_expandWith sound sub place apart children).bind fun _ _ _ => own
  · exact leaves_pure.bind fun _ _ _ => own

end Renderers

/-- Schemas at or below a root, of which those below it are of the given ones. -/
def Entered (ws : Workspace) (root : SchemaId) (outside : List SchemaId) (x : SchemaId) : Prop :=
  Reaches ws root x ∧ (x = root ∨ x ∈ outside)

theorem entered_child {outside : List SchemaId} {b : ChildBinding} (same : SameButTrees ws ws₁)
    (hb : b ∈ (ws.schema id).children) (hc : b.schema ∈ outside) :
    ∀ x, Entered ws₁ b.schema (outside.erase b.schema) x →
      Reaches ws id x ∧ x ∈ outside := by
  rintro x ⟨reached, hx⟩
  rw [Reaches, same.embeds_eq] at reached
  exact ⟨.head ⟨b, hb, rfl⟩ reached, hx.elim (· ▸ hc) List.mem_of_mem_erase⟩

theorem leaves_entering {outside : List SchemaId}
    (rendered : ∀ child ∈ outside, ∀ ws name p header, Leaves
      (Entered ws child (outside.erase child))
      (renderWithin (outside.erase child) child name p header Comment.blockFooter) ws) :
    LeavesOn (fun x => Reaches ws id x ∧ x ∈ outside) (entering outside) ws
      (ws.schema id).children := by
  intro b hb render he ws₁ same name p header
  obtain ⟨hc, rfl⟩ := entering_eq_some he
  exact (rendered _ hc ws₁ name p header).mono (entered_child same hb hc)

theorem leaves_renderWithin {outside : List SchemaId} {header footer : String}
    (nodup : outside.Nodup) (apart : id ∉ outside) :
    Leaves (Entered ws id outside) (renderWithin outside id model p header footer) ws := by
  induction hn : outside.length using Nat.strongRecOn
    generalizing outside id model p header footer ws with
  | ind n ih =>
    rw [renderWithin_eq]
    refine leaves_renderWith (sound_entering outside) (fun x hx => ⟨hx.1, .inr hx.2⟩)
      ⟨.refl, .inl rfl⟩ (fun h => apart h.2) (leaves_entering fun child hc ws name p header => ?_)
    exact ih _ (by rw [← hn]; exact length_erase_lt hc) (nodup.erase child)
      nodup.not_mem_erase rfl

/-! ## Calls -/

theorem nodup_outsideOf (ws : Workspace) (lineage : List SchemaId) :
    (outsideOf ws lineage).Nodup := List.nodup_range.filter _

theorem leaves_renderBlocks {header footer : String} :
    Leaves (Reaches ws id) (renderBlocks id model p header footer) ws := by
  rw [Leaves, renderBlocks_on]
  exact (leaves_renderWithin (nodup_outsideOf ws [id])
    (by simp [mem_outsideOf])).mono fun _ h => h.1

theorem leaves_renderText {header footer : String} :
    Leaves (Reaches ws id) (renderText id model p header footer) ws :=
  leaves_renderBlocks.bind fun _ _ _ => leaves_pure

theorem leaves_expand {ancestry : List SchemaId} :
    Leaves (Reaches ws id) (expand id model p ancestry) ws := by
  unfold expand
  refine leaves_get.bind fun ws₀ _ h => ?_
  cases h
  have nodup := nodup_outsideOf ws (id :: ancestry)
  refine leaves_expandWith (sound_entering _) (fun x hx => hx.1) .refl
    (fun h => by simp [mem_outsideOf] at h)
    (leaves_entering fun child hc ws name p header => ?_)
  exact leaves_renderWithin (nodup.erase child) nodup.not_mem_erase

theorem leaves_compile {plainIds : Bool} :
    Leaves (Reaches ws id) (compile id model plainIds) ws := by
  unfold compile compileBy
  refine leaves_get.bind fun ws₀ _ h => ?_
  cases h
  refine leaves_renderBlocks.bind fun leans ws₁ h => ?_
  have same := (leaves_renderBlocks.of_on h).sameButTrees
  split
  · exact leaves_pure
  · refine leaves_get.bind fun ws₂ _ h => ?_
    cases h
    refine leaves_lift.bind fun base ws₂ h => ?_
    obtain ⟨-, rfl⟩ := Prod.mk.inj (lift_on _ ▸ h)
    refine .bind ?_ fun _ _ _ => leaves_lift
    have document : Leaves (Reaches ws₁ id) (renderBlocks id model (documentPass ws id)
      (documentOpening model base) Comment.blockFooter) ws₁ := leaves_renderBlocks
    rwa [Reaches, same.embeds_eq] at document

end ModelTypes.Compile
