import ModelTypes.Proofs.Compile.Run
import ModelTypes.Proofs.Tree.Replace
/-!
# References to children

Hoisting the children of a schema puts one reference after the other into its flat form, and so
into its tree. A reference depends on the flat form by what is declared beside the child.
-/

namespace ModelTypes.Compile

variable {s : Store} {model : String} {flat : Entries} {cs : List ChildBinding}

/-- The reference that a child is hoisted to. -/
def referenceTo (s : Store) (model : String) (flat : Entries) (b : ChildBinding) : Value :=
  childValue (embeddingOf s flat (Naming.subdocumentName b.path model) b) b

/-- The references to children with their trails, each with what the flat form has become by
then. -/
def references (s : Store) (model : String) : Entries → List ChildBinding → List (Trail × Value)
  | _, [] => []
  | flat, b :: rest =>
    (Path.segments b.path, referenceTo s model flat b)
      :: references s model (hoisted s model flat b) rest

theorem hoisted_eq {b : ChildBinding} :
    hoisted s model flat b = replacePath flat b.path (referenceTo s model flat b) := rfl

theorem map_fst_references :
    (references s model flat cs).map (·.1) = cs.map fun b => Path.segments b.path := by
  induction cs generalizing flat with
  | nil => rfl
  | cons b rest ih => simp [references, ih]

theorem ordered_foldl_hoisted (h : Ordered (toTrails flat)) :
    Ordered (toTrails (cs.foldl (hoisted s model) flat)) := by
  induction cs generalizing flat with
  | nil => exact h
  | cons b rest ih => exact ih (ordered_replacePath h)

/-- Hoisting places the references in the tree. -/
theorem unflatten_foldl_hoisted (h : Ordered (toTrails flat)) :
    unflatten (cs.foldl (hoisted s model) flat)
      = build (references s model flat cs) (unflatten flat) := by
  induction cs generalizing flat with
  | nil => rfl
  | cons b rest ih =>
    have hb : Ordered (toTrails (hoisted s model flat b)) := ordered_replacePath h
    rw [List.foldl_cons, ih hb, hoisted_eq, unflatten_replacePath h]
    rfl

theorem Hoists.flat_eq {ws ws' : Workspace} {p : Projection} {flat' : Entries}
    {blocks : List Block} (h : Hoists ws cs model p flat flat' blocks ws') :
    flat' = cs.foldl (hoisted ws.store model) flat := by
  induction cs generalizing ws flat blocks with
  | nil => cases h; rfl
  | cons b rest ih =>
    cases h with
    | cons opening child others => rw [ih others, child.sameButTrees.store, List.foldl_cons]

/-! ## Children apart -/

/-- No child stands at or below another. -/
def Apart (cs : List ChildBinding) : Prop :=
  cs.Pairwise fun b b' => ¬ Path.segments b.path <+: Path.segments b'.path ∧
    ¬ Path.segments b'.path <+: Path.segments b.path

theorem get?_replacePath_child {v : Value} {path path' key : String} (hkey : Path.DotFree key)
    (h : ¬ Path.segments path <+: Path.segments path')
    (h' : ¬ Path.segments path' <+: Path.segments path) :
    Keyed.get? (replacePath flat path v) (Path.child path' key)
      = Keyed.get? flat (Path.child path' key) := by
  have hp : ¬ Path.segments path <+: Path.segments (Path.child path' key) := by
    unfold Path.child
    rw [Path.segments_append, Path.segments_of_dotFree hkey, List.prefix_concat_iff]
    rintro (he | hp)
    · exact h' (he ▸ List.prefix_append _ _)
    · exact h hp
  -- Neither at nor below the replaced path, though the texts may begin alike.
  rw [Path.segments_prefix_iff, not_or] at hp
  rw [get?_replacePath, if_neg hp.1, if_neg hp.2]

/-- What is declared beside one of two children apart is left alone by the other. -/
theorem referenceTo_hoisted {b b' : ChildBinding}
    (h : ¬ Path.segments b.path <+: Path.segments b'.path ∧
      ¬ Path.segments b'.path <+: Path.segments b.path) :
    referenceTo s model (hoisted s model flat b) b' = referenceTo s model flat b' := by
  unfold referenceTo embeddingOf hoisted
  rw [get?_replacePath_child (by decide) h.1 h.2, get?_replacePath_child (by decide) h.1 h.2]

theorem references_of_apart (h : Apart cs) :
    references s model flat cs
      = cs.map fun b => (Path.segments b.path, referenceTo s model flat b) := by
  induction cs generalizing flat with
  | nil => rfl
  | cons b rest ih =>
    obtain ⟨hb, hrest⟩ := List.pairwise_cons.1 h
    rw [references, ih hrest, List.map_cons]
    congr 1
    exact List.map_congr_left fun b' hb' => by rw [referenceTo_hoisted (hb b' hb')]

end ModelTypes.Compile
