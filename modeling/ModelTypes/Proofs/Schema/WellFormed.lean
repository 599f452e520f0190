import ModelTypes.Proofs.Schema.Conversion
import ModelTypes.Proofs.Schema.Linked
import ModelTypes.Proofs.Schema.Mirror
import ModelTypes.Proofs.Value.Known
/-!
# Schemas mention only what exists

What a schema mentions is told by renamings: it mentions schemas of `P` only if whatever leaves
these alone leaves it alone (`Schema.Mentions`). Writing, making and extending schemas keep a
workspace well-formed: nothing in it mentions what is not in it.
-/

namespace ModelTypes

variable {σ : SchemaId → SchemaId} {P Q : SchemaId → Prop} {m n : Nat} {schema : Schema}

/-! ## What a schema mentions -/

theorem Schema.rename_eq_self_iff : schema.rename σ = schema ↔
    renameUnder σ schema.tree = schema.tree ∧
      schema.children.map (·.rename σ) = schema.children := by
  cases schema
  simp [Schema.rename]

/-- A schema mentions only schemas of `P`. -/
def Schema.Mentions (P : SchemaId → Prop) (schema : Schema) : Prop :=
  ∀ σ, (∀ i, P i → σ i = i) → schema.rename σ = schema

namespace Schema.Mentions

theorem mono (h : schema.Mentions P) (hle : ∀ i, P i → Q i) : schema.Mentions Q :=
  fun σ still => h σ fun i hi => still i (hle i hi)

theorem tree (h : schema.Mentions P) (still : ∀ i, P i → σ i = i) :
    renameUnder σ schema.tree = schema.tree :=
  (Schema.rename_eq_self_iff.1 (h σ still)).1

theorem children (h : schema.Mentions P) (still : ∀ i, P i → σ i = i) :
    schema.children.map (·.rename σ) = schema.children :=
  (Schema.rename_eq_self_iff.1 (h σ still)).2

theorem child (h : schema.Mentions P) {b : ChildBinding} (hb : b ∈ schema.children) :
    P b.schema := by
  by_contra excluded
  -- This renaming moves the child and nothing else.
  let moved (i : SchemaId) : SchemaId := if i = b.schema then i + 1 else i
  have own := h.children (σ := moved) fun i hi =>
    if_neg fun (heq : i = b.schema) => excluded (heq ▸ hi)
  have child : b.rename moved = b := List.map_inj_left.1 (own.trans (List.map_id _).symm) b hb
  have same : moved b.schema = b.schema := congrArg ChildBinding.schema child
  rw [show moved b.schema = b.schema + 1 from if_pos rfl] at same
  exact Nat.succ_ne_self _ same

end Schema.Mentions

/-- What a work makes mentions what the work was given and what is made along with it. -/
theorem Shifts.mentions {α : Type} {F : (SchemaId → SchemaId) → Prop}
    {ren : (SchemaId → SchemaId) → α → α} {x : StateM (List Schema) α} (h : Shifts F ren x x)
    {L N : List Schema} (made : (x.run L).2 = L ++ N) (new : ∀ j < N.length, P (L.length + j))
    (hF : ∀ σ, (∀ i, P i → σ i = i) → F σ) {schema : Schema} (hs : schema ∈ N) :
    schema.Mentions P := by
  intro σ still
  obtain ⟨N₁, N₂, h₁, h₂, -, alike⟩ := h L L
  obtain rfl := List.append_cancel_left (made.symm.trans h₁)
  obtain rfl := List.append_cancel_left (made.symm.trans h₂)
  obtain ⟨-, same⟩ := alike σ (hF σ still) fun j hj => still _ (new j hj)
  exact List.map_inj_left.1 (same.symm.trans (List.map_id _).symm) schema hs

/-- What a work gives mentions nothing else either. -/
theorem Shifts.fixed {α : Type} {F : (SchemaId → SchemaId) → Prop}
    {ren : (SchemaId → SchemaId) → α → α} {x : StateM (List Schema) α} (h : Shifts F ren x x)
    {L N : List Schema} (made : (x.run L).2 = L ++ N) (hσ : F σ)
    (still : ∀ j < N.length, σ (L.length + j) = L.length + j) :
    ren σ (x.run L).1 = (x.run L).1 := by
  obtain ⟨N₁, N₂, h₁, -, -, alike⟩ := h L L
  obtain rfl := List.append_cancel_left (made.symm.trans h₁)
  exact (alike σ hσ still).1.symm

/-! ## Copied fields -/

theorem Store.WellFormed.entries {s : Store} (hs : s.WellFormed n) {v : Value}
    (hv : v.Known s.nodes.length n) {fields : Entries} (h : s.entries? v = some fields) :
    KnownUnder s.nodes.length n fields := by
  unfold Store.entries? at h
  split at h
  · cases h
    exact hv
  · split at h
    · rename_i hnode
      cases h
      obtain ⟨a, -, hnode⟩ := Store.node?_eq_some_iff.1 hnode
      exact (hs.node hnode).2
    · cases h

/-- Copying known fields into a tree that a renaming leaves alone gives such a tree. -/
theorem copyFields_fixed {s : Store} (hs : s.WellFormed n) (still : ∀ i < n, σ i = i)
    {tree fields : Entries} (fixed : renameUnder σ tree = tree)
    (known : KnownUnder s.nodes.length n fields) :
    renameUnder σ (Workspace.copyFields s tree fields).1
      = (Workspace.copyFields s tree fields).1 := by
  induction fields generalizing tree with
  | nil => exact fixed
  | cons e rest ih =>
    obtain ⟨key, v⟩ := e
    rw [Workspace.copyFields]
    split
    · rename_i w copied
      have kept := ((Store.copy_ok_iff.1 copied).known hs known.1).rename still
      refine ih ?_ known.2
      rw [← put_renameUnder, fixed, kept]
    · exact fixed

namespace Workspace

/-! ## Well-formed workspaces -/

/-- Nothing in a workspace mentions what is not in it. -/
structure WellFormed (ws : Workspace) : Prop where
  store : ws.store.WellFormed ws.schemas.length
  schemas : ∀ schema ∈ ws.schemas, schema.Mentions (· < ws.schemas.length)

variable {ws : Workspace}

theorem WellFormed.empty : WellFormed {} where
  store := by simp [Store.WellFormed]
  schemas := by simp

theorem WellFormed.write (h : ws.WellFormed) {store : Store}
    (formed : store.WellFormed ws.schemas.length) : { ws with store }.WellFormed :=
  ⟨formed, h.schemas⟩

/-- What is made of known things leaves a well-formed workspace. -/
theorem WellFormed.make {α : Type} {F : (SchemaId → SchemaId) → Prop}
    {ren : (SchemaId → SchemaId) → α → α} {x : StateM (List Schema) α} (h : ws.WellFormed)
    (shifts : Shifts F ren x x) (hF : ∀ σ, (∀ i < ws.schemas.length, σ i = i) → F σ) :
    { ws with schemas := (x.run ws.schemas).2 }.WellFormed ∧
      ∀ σ, (∀ i < (x.run ws.schemas).2.length, σ i = i) →
        ren σ (x.run ws.schemas).1 = (x.run ws.schemas).1 := by
  obtain ⟨N, -, made, -, -⟩ := id shifts ws.schemas ws.schemas
  have below (i : Nat) (hi : i < ws.schemas.length) : i < (x.run ws.schemas).2.length := by
    rw [made, List.length_append]
    omega
  have new (j : Nat) (hj : j < N.length) :
      ws.schemas.length + j < (x.run ws.schemas).2.length := by
    rw [made, List.length_append]
    omega
  refine ⟨⟨h.store.mono ?_, fun schema hs => ?_⟩, fun σ still => ?_⟩
  · rw [made, List.length_append]
    exact Nat.le_add_right _ _
  · rcases List.mem_append.1 (made ▸ hs : schema ∈ ws.schemas ++ N) with hs | hs
    · exact (h.schemas schema hs).mono below
    · exact shifts.mentions made new (fun σ still => hF σ fun i hi => still i (below i hi)) hs
  · exact shifts.fixed made (hF σ fun i hi => still i (below i hi)) fun j hj => still _ (new j hj)

theorem WellFormed.create (h : ws.WellFormed) {definition options : Value} {functions : Functions}
    (known : definition.Known ws.store.nodes.length ws.schemas.length) :
    (ws.create definition options functions).2.WellFormed := by
  have given : (if ws.store.truthy definition then definition else .dict []).Known
      ws.store.nodes.length ws.schemas.length := by
    split
    · exact known
    · trivial
  unfold Workspace.create
  dsimp only
  split
  · exact h
  · split
    · exact h
    · split
      · exact h
      · rename_i options _ _ fields hfields
        have copied := fun σ still =>
          copyFields_fixed (σ := σ) h.store still renameUnder_nil (h.store.entries given hfields)
        split
        · exact h
        · rename_i tree hcopy
          rw [hcopy] at copied
          have shifts := (shifts_implicitFields tree).bind fun t t' =>
            (shifts_makeSchema options functions t t').mono fun _ h => h.2
          exact (h.make shifts copied).1

theorem WellFormed.update (h : ws.WellFormed) {id : SchemaId} {f : Schema → Schema}
    (hf : ∀ schema ∈ ws.schemas, (f schema).Mentions (· < ws.schemas.length)) :
    (ws.update id f).WellFormed where
  store := by
    rw [length_update]
    exact h.store
  schemas schema hs := by
    rw [length_update]
    obtain ⟨i, hi⟩ := List.mem_iff_getElem?.1 hs
    simp only [Workspace.update, List.getElem?_modify, Option.map_eq_map,
      Option.map_eq_some_iff] at hi
    obtain ⟨old, hold, rfl⟩ := hi
    have hm := List.mem_of_getElem? hold
    split
    · exact hf old hm
    · exact h.schemas old hm

theorem WellFormed.add (h : ws.WellFormed) {id : SchemaId} {definition : Value}
    (known : definition.Known ws.store.nodes.length ws.schemas.length) :
    (ws.add id definition).2.WellFormed := by
  unfold Workspace.add
  split
  · exact h
  · rename_i fields hfields
    have own : (ws.schema id).Mentions (· < ws.schemas.length) :=
      forall_schema h.schemas (fun σ _ => rfl) id
    have copied := fun σ still =>
      copyFields_fixed (σ := σ) h.store still (own.tree still) (h.store.entries known hfields)
    split
    · rename_i tree e hcopy
      rw [hcopy] at copied
      refine h.update fun schema hs σ still => Schema.rename_eq_self_iff.2 ⟨?_, ?_⟩
      · exact copied σ still
      · exact (h.schemas schema hs).children still
    · rename_i tree hcopy
      rw [hcopy] at copied
      obtain ⟨formed, fixed⟩ := h.make (shifts_implicitFields tree) copied
      refine formed.update fun schema hs σ still =>
        Schema.rename_eq_self_iff.2 ⟨fixed σ still, ?_⟩
      exact childrenOf_rename.symm.trans (congrArg childrenOf (fixed σ still))

theorem WellFormed.addVirtual (h : ws.WellFormed) {id : SchemaId} (hid : id < ws.schemas.length)
    (path : String) : (ws.addVirtual id path).WellFormed := by
  refine h.update fun schema hs => ?_
  split
  · exact h.schemas schema hs
  · intro σ still
    have virtual : (virtualValue id path).rename σ = virtualValue id path :=
      congrArg (Value.virtual path ∘ some) (still id hid)
    have placed : place path ((virtualValue id path).rename σ) (renameUnder σ schema.tree)
        = renameUnder σ (place path (virtualValue id path) schema.tree) := place_rename
    rw [(h.schemas schema hs).tree still, virtual] at placed
    exact Schema.rename_eq_self_iff.2 ⟨placed.symm, (h.schemas schema hs).children still⟩

/-! ## Any sequence of edits -/

/-- An edit mentions only what exists. -/
def Edit.Known (ws : Workspace) : Edit → Prop
  | .write store => store.WellFormed ws.schemas.length
  | .create definition _ _ => definition.Known ws.store.nodes.length ws.schemas.length
  | .add _ definition => definition.Known ws.store.nodes.length ws.schemas.length
  | .addVirtual id _ => id < ws.schemas.length

/-- Each edit mentions only what exists by then. -/
def EditsKnown : Workspace → List Edit → Prop
  | _, [] => True
  | ws, edit :: rest => edit.Known ws ∧ EditsKnown (edit.apply ws) rest

theorem WellFormed.apply (h : ws.WellFormed) {edit : Edit} (known : edit.Known ws) :
    (edit.apply ws).WellFormed := by
  cases edit with
  | write store => exact h.write known
  | create definition options functions => exact h.create known
  | add id definition => exact h.add known
  | addVirtual id path => exact h.addVirtual known path

theorem WellFormed.edited {edits : List Edit} (h : ws.WellFormed) (known : EditsKnown ws edits) :
    (Workspace.edited ws edits).WellFormed := by
  induction edits generalizing ws with
  | nil => exact h
  | cons edit rest ih => exact ih (h.apply known.1) known.2

end Workspace

end ModelTypes
