import ModelTypes.Proofs.Compile.Drawing
/-!
# Tidy schemas

Rendering a schema with children fills the empty mappings of its tree with what stands below them.
In a tidy schema nothing does, so filling its tree changes nothing.
-/

namespace ModelTypes

def Value.isHollow : Value → Bool
  | .dict [] => true
  | _ => false

theorem Value.isHollow_iff {v : Value} : v.isHollow = true ↔ v = .dict [] := by
  constructor
  · intro h
    unfold Value.isHollow at h
    split at h <;> simp at h ⊢
  · rintro rfl
    rfl

section Filling

variable {path : String} {flat tree : Entries}

theorem filling_eq_nil (h : ∀ e ∈ flat, Path.isBelow path e.1 = false) :
    filling path flat = [] := by
  unfold filling
  rw [List.filterMap_eq_nil_iff.2]
  · rfl
  · intro e he
    simp [Path.below?, h e (List.takeWhile_subset _ he)]

/-- A flat form with nothing below its empty mappings fills none. -/
theorem fillings_eq_nil
    (h : ∀ e ∈ flat, e.2.isHollow = true → ∀ f ∈ flat, Path.isBelow e.1 f.1 = false) :
    fillings flat = [] := by
  induction flat with
  | nil => rfl
  | cons e rest ih =>
    obtain ⟨path, v⟩ := e
    have others : fillings rest = [] := ih fun e he hollow f hf =>
      h e (List.mem_cons_of_mem _ he) hollow f (List.mem_cons_of_mem _ hf)
    by_cases hv : v = .dict []
    · subst hv
      have none : filling path rest = [] := filling_eq_nil fun f hf =>
        h _ List.mem_cons_self rfl f (List.mem_cons_of_mem _ hf)
      rw [fillings_cons_of_filling_eq_nil none, others]
    · rw [fillings_cons_of_ne hv, others]

end Filling

/-- A schema in which no field and no child stands below an empty mapping. -/
def Schema.Tidy (schema : Schema) : Prop :=
  ∀ e ∈ leavesUnder "" schema.tree, e.2.isHollow = true →
    ∀ path ∈ Keyed.keys (leavesUnder "" schema.tree) ++ schema.children.map (·.path),
      Path.isBelow e.1 path = false

instance (schema : Schema) : Decidable schema.Tidy :=
  inferInstanceAs (Decidable (∀ e ∈ leavesUnder "" schema.tree, e.2.isHollow = true →
    ∀ path ∈ Keyed.keys (leavesUnder "" schema.tree) ++ schema.children.map (·.path),
      Path.isBelow e.1 path = false))

theorem Workspace.update_eq_self {ws : Workspace} {id : SchemaId} {f : Schema → Schema}
    (h : f (ws.schema id) = ws.schema id) : ws.update id f = ws := by
  suffices ws.schemas.modify id f = ws.schemas by rw [Workspace.update, this]
  refine List.ext_getElem? fun other => ?_
  rw [List.getElem?_modify]
  cases hs : ws.schemas[other]? with
  | none => rfl
  | some schema =>
    by_cases ho : id = other
    · subst ho
      simp only [Workspace.schema, hs, Option.getD_some] at h
      simp [h]
    · simp [ho]

namespace Compile

variable {ws : Workspace} {id : SchemaId} {model : String}

/-- The flat form of a schema's tree after its children were hoisted under a name. -/
def hoistedForm (ws : Workspace) (id : SchemaId) (model : String) : Entries :=
  (ws.schema id).children.foldl (hoisted ws.store model) (flatten (ws.schema id).tree)

/-- Hoisting the children of a tidy schema fills nothing in. -/
theorem refill_eq_self (tidy : (ws.schema id).Tidy) :
    refill ws id (hoistedForm ws id model) = ws := by
  apply Workspace.update_eq_self
  rw [fillFrom, fillings_eq_nil]
  intro e he hollow f hf
  -- References are no mappings, so an empty one has been in the tree all along.
  rcases mem_foldl_hoisted he with ⟨he, -⟩ | ⟨b, -, emb, -, rfl⟩
  · refine tidy e (mem_leavesUnder_of_mem_flatten he) hollow f.1 (List.mem_append.2 ?_)
    rcases mem_foldl_hoisted hf with ⟨hf, -⟩ | ⟨b, hb, -, -, rfl⟩
    · exact .inl (List.mem_map_of_mem (mem_leavesUnder_of_mem_flatten hf))
    · exact .inr (List.mem_map_of_mem hb)
  · exact absurd (Value.isHollow_iff.1 hollow) (childValue_ne_dict emb b [])

end Compile
end ModelTypes
