import ModelTypes.Proofs.Compile.References
import ModelTypes.Proofs.Tree.Refill
/-!
# What hoisting leaves behind

Hoisting the children of a plain tree fills its empty mappings above the paths of children. The
tree grows at most once, and expands to the same before and after, under any name.
-/

namespace ModelTypes.Compile

variable {s : Store} {model model' : String} {cs : List ChildBinding} {tree flat flat' : Entries}
  {b : ChildBinding} {q : String}

/-- A tree after its children were hoisted. -/
def grown (s : Store) (model : String) (cs : List ChildBinding) (tree : Entries) : Entries :=
  filledUnder (references s model (flatten tree) cs) tree

/-! ## The places of references -/

theorem childValue_ne_dict (e : Embedding) (b : ChildBinding) (entries : Entries) :
    childValue e b ≠ .dict entries := by
  unfold childValue
  split <;> simp

theorem mem_references {e : Trail × Value} (h : e ∈ references s model flat cs) :
    ∃ b ∈ cs, e.1 = Path.segments b.path ∧ ∃ emb, e.2 = childValue emb b := by
  induction cs generalizing flat with
  | nil => simp [references] at h
  | cons b rest ih =>
    rw [references] at h
    rcases List.mem_cons.1 h with rfl | h
    · exact ⟨b, List.mem_cons_self, rfl, _, rfl⟩
    · obtain ⟨c, hc, he⟩ := ih h
      exact ⟨c, List.mem_cons_of_mem _ hc, he⟩

theorem plainPlaces_references : PlainPlaces (references s model flat cs) := by
  intro e he
  obtain ⟨b, -, ht, emb, hv⟩ := mem_references he
  rw [ht, hv]
  exact ⟨fun key => Path.dotFree_of_mem_segments, fun entries h =>
    absurd h (childValue_ne_dict emb b entries)⟩

theorem forall_mem_references {motive : Trail → Prop} :
    (∀ e ∈ references s model flat cs, motive e.1) ↔ ∀ b ∈ cs, motive (Path.segments b.path) := by
  have h : (∀ trail ∈ (references s model flat cs).map (·.1), motive trail)
      ↔ ∀ trail ∈ cs.map fun b => Path.segments b.path, motive trail := by
    rw [map_fst_references]
  simpa using h

/-! ## One growth -/

/-- A child takes an empty mapping away if it stands at or above it. -/
theorem get?_foldl_hoisted_eq_dict_nil :
    Keyed.get? (cs.foldl (hoisted s model) flat) q = some (.dict []) ↔
      Keyed.get? flat q = some (.dict []) ∧
        ∀ b ∈ cs, ¬ Path.segments b.path <+: Path.segments q := by
  induction cs generalizing flat with
  | nil => simp
  | cons b rest ih =>
    rw [List.foldl_cons, ih, hoisted_eq, get?_replacePath, List.forall_mem_cons,
      Path.segments_prefix_iff, not_or]
    by_cases hq : q = b.path
    · simp [hq, referenceTo, childValue_ne_dict]
    · by_cases hb : Path.isBelow b.path q = true <;> simp [hq, hb]

theorem fillFrom_foldl_hoisted (plain : Plain tree) :
    fillFrom tree (cs.foldl (hoisted s model) (flatten tree)) = grown s model cs tree := by
  have ordered := ordered_flatten plain
  have mem_iff {flat : Entries} (h : Ordered (toTrails flat)) (q : String) :
      (q, Value.dict []) ∈ flat ↔ Keyed.get? flat q = some (.dict []) :=
    ⟨Keyed.get?_of_mem (nodup_keys_of_ordered h), Keyed.mem_of_get?⟩
  refine fillFrom_eq plain (ordered_foldl_hoisted ordered)
    (forall_mem_references (motive := (· ≠ [])).2 fun b _ => Path.segments_ne_nil b.path) ?_
    fun q => ?_
  · rw [unflatten_foldl_hoisted ordered, unflatten_flatten plain]
  · rw [mem_iff (ordered_foldl_hoisted ordered), mem_iff ordered, get?_foldl_hoisted_eq_dict_nil,
      forall_mem_references (motive := fun trail => ¬ trail <+: Path.segments q)]

theorem plain_grown (plain : Plain tree) : Plain (grown s model cs tree) :=
  plain.filledUnder plainPlaces_references

/-! ## The same references -/

/-- Two flat forms say the same about options. -/
def Alike (s : Store) (flat flat' : Entries) : Prop :=
  ∀ q, saysTrue s (Keyed.get? flat q) = saysTrue s (Keyed.get? flat' q) ∧
    ((Keyed.get? flat q).map (·.isNull)).getD false
      = ((Keyed.get? flat' q).map (·.isNull)).getD false

theorem Alike.replacePath (h : Alike s flat flat') (path : String) (v : Value) :
    Alike s (replacePath flat path v) (replacePath flat' path v) := by
  intro q
  rw [get?_replacePath, get?_replacePath]
  by_cases hq : q = path
  · simp [hq]
  · by_cases hb : Path.isBelow path q = true
    · simp [hq, hb]
    · simpa [hq, hb] using h q

theorem Alike.referenceTo (h : Alike s flat flat') :
    referenceTo s model flat b = referenceTo s model flat' b := by
  unfold Compile.referenceTo embeddingOf
  rw [(h _).1, (h _).2]

theorem Alike.references (h : Alike s flat flat') :
    references s model flat cs = references s model flat' cs := by
  induction cs generalizing flat flat' with
  | nil => rfl
  | cons b rest ih =>
    rw [Compile.references, Compile.references, h.referenceTo, hoisted_eq, hoisted_eq,
      h.referenceTo, ih (h.replacePath _ _)]

/-- A value that says neither `true` nor nothing. -/
def Silent (s : Store) (v : Option Value) : Prop :=
  saysTrue s v = false ∧ (v.map (·.isNull)).getD false = false

theorem silent_of_vacant {v : Option Value} (h : Vacant v) : Silent s v := by
  rcases h with rfl | rfl
  · exact ⟨rfl, rfl⟩
  · exact ⟨rfl, rfl⟩

theorem silent_childValue (e : Embedding) (b : ChildBinding) :
    Silent s (some (childValue e b)) := by
  unfold childValue
  split <;> exact ⟨rfl, rfl⟩

theorem alike_grown (plain : Plain tree) :
    Alike s (flatten (grown s model cs tree)) (flatten tree) := by
  intro q
  rw [get?_flatten plain, get?_flatten (plain_grown plain), grown]
  -- What has grown is references and mappings around them, none of which is an option that counts.
  rcases leafAt_filledUnder plainPlaces_references with h | ⟨hold, hnew⟩
  · rw [h]
    exact ⟨rfl, rfl⟩
  · have hold : Silent s (leafAt (Path.segments q) tree) := silent_of_vacant hold
    have hsilent : Silent s (leafAt (Path.segments q)
        (filledUnder (references s model (flatten tree) cs) tree)) := by
      rcases hnew with hnew | ⟨e, he, hnew⟩
      · exact silent_of_vacant hnew
      · obtain ⟨b, -, -, emb, hv⟩ := mem_references he
        rw [hnew, hv]
        exact silent_childValue emb b
    exact ⟨hsilent.1.trans hold.1.symm, hsilent.2.trans hold.2.symm⟩

theorem references_grown (plain : Plain tree) :
    references s model' (flatten (grown s model cs tree)) cs
      = references s model' (flatten tree) cs :=
  (alike_grown plain).references

/-- A tree grows at most once. -/
theorem grown_grown (plain : Plain tree) :
    grown s model' cs (grown s model cs tree) = grown s model cs tree := by
  rw [grown, references_grown plain]
  exact filledUnder_filledUnder (by rw [map_fst_references, map_fst_references])

/-- A tree expands to the same after it has grown. -/
theorem unflatten_foldl_hoisted_grown (plain : Plain tree) :
    unflatten (cs.foldl (hoisted s model') (flatten (grown s model cs tree)))
      = unflatten (cs.foldl (hoisted s model') (flatten tree)) := by
  rw [unflatten_foldl_hoisted (ordered_flatten (plain_grown plain)),
    unflatten_foldl_hoisted (ordered_flatten plain), unflatten_flatten plain,
    unflatten_flatten (plain_grown plain), references_grown plain]
  exact build_filledUnder plain (by rw [map_fst_references, map_fst_references])

end ModelTypes.Compile
