import ModelTypes.Proofs.Tree.Replace
/-!
# Where leaves come from

Making a tree of a flat form adds no leaves to it, whatever its keys are, and neither does filling
the empty mappings of a tree from it.
-/

namespace ModelTypes

variable {path : String} {trail : Trail} {v : Value} {tree flat : Entries}
  {places : List (Trail × Value)} {e : Trail × Value} {leaf : String × Value}

/-- A value that `flatten` does not open. -/
def Value.IsLeaf (v : Value) : Prop := ∀ entries, v = .dict entries → entries = []

theorem Value.IsLeaf.trails (h : v.IsLeaf) : v.trails = [([], v)] := by
  rcases v.trails_cases with ⟨first, others, rfl, -⟩ | ⟨-, ht⟩
  · exact absurd (h _ rfl) (by simp)
  · exact ht

theorem isLeaf_of_mem_leavesOf (h : e ∈ leavesOf tree) : e.2.IsLeaf := by
  induction tree using tree_induction generalizing e with
  | nil => simp at h
  | cons key v rest below ih =>
    rw [leavesOf_cons] at h
    rcases List.mem_append.1 h with h | h
    · obtain ⟨f, hf, rfl⟩ := List.mem_map.1 h
      rcases v.trails_cases with ⟨first, others, rfl, ht⟩ | ⟨hv, ht⟩ <;> rw [ht] at hf
      · have inner := below _ rfl hf
        exact inner
      · rw [List.mem_singleton.1 hf]
        exact hv
    · exact ih h

/-! ## Building -/

theorem mem_leavesOf_put {key : String} (h : e ∈ leavesOf (Keyed.put tree key v)) :
    e ∈ leavesOf tree ∨ ∃ f ∈ v.trails, e = (key :: f.1, f.2) := by
  induction tree with
  | nil =>
    rw [Keyed.put_nil, leavesOf_cons, leavesOf_nil, List.append_nil] at h
    obtain ⟨f, hf, rfl⟩ := List.mem_map.1 h
    exact .inr ⟨f, hf, rfl⟩
  | cons g rest ih =>
    obtain ⟨k, w⟩ := g
    rw [Keyed.put] at h
    split at h <;> rw [leavesOf_cons] at h ⊢ <;> rcases List.mem_append.1 h with h | h
    · obtain ⟨f, hf, rfl⟩ := List.mem_map.1 h
      exact .inr ⟨f, hf, rfl⟩
    · exact .inl (List.mem_append_right _ h)
    · exact .inl (List.mem_append_left _ h)
    · exact (ih h).imp_left (List.mem_append_right _)

theorem mem_leavesOf_of_entriesAt {key : String} (h : e ∈ leavesOf (entriesAt tree key)) :
    (key :: e.1, e.2) ∈ leavesOf tree := by
  induction tree with
  | nil => simp [entriesAt] at h
  | cons g rest ih =>
    obtain ⟨k, w⟩ := g
    rw [entriesAt_eq, Keyed.get?_cons] at h
    rw [leavesOf_cons, List.mem_append]
    by_cases hk : key = k
    · rw [if_pos hk] at h
      refine .inl (List.mem_map.2 ⟨e, ?_, by rw [hk]⟩)
      cases w with
      | dict entries =>
        cases entries with
        | nil => simp at h
        | cons first others => simpa [Value.trails] using h
      | _ => simp [entriesIn] at h
    · rw [if_neg hk, ← entriesAt_eq] at h
      exact .inr (ih h)

theorem mem_leavesOf_placeAt (hv : v.IsLeaf) (h : e ∈ leavesOf (placeAt trail v tree)) :
    e ∈ leavesOf tree ∨ e = (trail, v) := by
  induction trail generalizing tree e with
  | nil => exact .inl h
  | cons key rest ih =>
    rw [placeAt_cons] at h
    rcases mem_leavesOf_put h with h | ⟨f, hf, rfl⟩
    · exact .inl h
    · by_cases hr : rest = []
      · rw [hr, within, hv.trails, List.mem_singleton] at hf
        rw [hf, hr]
        exact .inr rfl
      · rw [within_of_ne_nil hr, Value.trails_dict (placeAt_ne_nil hr), ← entriesAt_eq] at hf
        -- The mapping below holds old leaves and the new one; a leaf in the way is gone.
        rcases ih hf with hf | rfl
        · exact .inl (mem_leavesOf_of_entriesAt hf)
        · exact .inr rfl

theorem mem_leavesOf_build (hv : ∀ f ∈ places, f.2.IsLeaf) (h : e ∈ leavesOf (build places tree)) :
    e ∈ leavesOf tree ∨ e ∈ places := by
  induction places generalizing tree with
  | nil => exact .inl h
  | cons f places ih =>
    rcases ih (fun g hg => hv g (List.mem_cons_of_mem _ hg)) h with h | h
    · rcases mem_leavesOf_placeAt (hv f List.mem_cons_self) h with h | rfl
      · exact .inl h
      · exact .inr List.mem_cons_self
    · exact .inr (List.mem_cons_of_mem _ h)

/-- The leaves of a flat form made a tree are entries of the flat form. -/
theorem mem_of_mem_unflatten (hv : ∀ f ∈ flat, f.2.IsLeaf)
    (h : leaf ∈ leavesUnder "" (unflatten flat)) : leaf ∈ flat := by
  rw [leavesUnder_eq] at h
  obtain ⟨e, he, rfl⟩ := List.mem_map.1 h
  rw [unflatten_eq] at he
  have hplaces : ∀ f ∈ toTrails flat, f.2.IsLeaf := by
    intro f hf
    obtain ⟨g, hg, rfl⟩ := List.mem_map.1 hf
    exact hv g hg
  rcases mem_leavesOf_build hplaces he with he | he
  · simp at he
  · obtain ⟨g, hg, rfl⟩ := List.mem_map.1 he
    simpa [Path.dotted_segments] using hg

theorem isLeaf_of_mem_leavesUnder {lead : String} (h : leaf ∈ leavesUnder lead tree) :
    leaf.2.IsLeaf := by
  rw [leavesUnder_eq] at h
  obtain ⟨e, he, rfl⟩ := List.mem_map.1 h
  exact isLeaf_of_mem_leavesOf he

theorem mem_put {key : String} (h : leaf ∈ Keyed.put tree key v) :
    leaf ∈ tree ∨ leaf = (key, v) := by
  induction tree with
  | nil => exact .inr (List.mem_singleton.1 h)
  | cons e rest ih =>
    rw [Keyed.put] at h
    split at h <;> rcases List.mem_cons.1 h with rfl | h
    · exact .inr rfl
    · exact .inl (List.mem_cons_of_mem _ h)
    · exact .inl List.mem_cons_self
    · exact (ih h).imp_left (List.mem_cons_of_mem _)

theorem mem_leavesUnder_of_mem_flatten (h : leaf ∈ flatten tree) : leaf ∈ leavesUnder "" tree := by
  suffices ∀ pairs before : Entries, leaf ∈ pairs.foldl (fun m e => Keyed.put m e.1 e.2) before →
      leaf ∈ before ∨ leaf ∈ pairs from (this _ [] h).resolve_left List.not_mem_nil
  intro pairs
  induction pairs with
  | nil => exact fun before h => .inl h
  | cons e pairs ih =>
    intro before h
    rcases ih _ h with h | h
    · rcases mem_put h with h | rfl
      · exact .inl h
      · exact .inr List.mem_cons_self
    · exact .inr (List.mem_cons_of_mem _ h)

theorem mem_replacePath (h : leaf ∈ replacePath flat path v) :
    leaf = (path, v) ∨ (leaf ∈ flat ∧ leaf.1 ≠ path) := by
  obtain ⟨before, after, hr, hk⟩ := replacePath_cases flat path v
  rw [hr] at h
  by_cases he : leaf = (path, v)
  · exact .inl he
  · have hm : leaf ∈ before ++ after := by simpa [he] using h
    rw [hk, List.mem_filter] at hm
    refine .inr ⟨hm.1, fun hc => ?_⟩
    simp [hc] at hm

/-! ## Filling -/

theorem leavesUnder_lead (lead : String) :
    leavesUnder lead tree = (leavesUnder "" tree).map fun e => (lead ++ e.1, e.2) := by
  rw [leavesUnder_eq, leavesUnder_eq, List.map_map]
  simp

theorem mem_of_mem_filling (hv : ∀ f ∈ flat, f.2.IsLeaf)
    (h : leaf ∈ leavesUnder (path ++ ".") (filling path flat)) : leaf ∈ flat := by
  rw [leavesUnder_lead] at h
  obtain ⟨e, he, rfl⟩ := List.mem_map.1 h
  unfold filling at he
  have hm := mem_of_mem_unflatten ?_ he
  · obtain ⟨g, hg, heq⟩ := List.mem_filterMap.1 hm
    obtain ⟨rest, hb, rfl⟩ := Option.map_eq_some_iff.1 heq
    rw [Path.below?_eq_some_iff] at hb
    have := List.takeWhile_subset _ hg
    rw [← hb]
    exact this
  · intro f hf
    obtain ⟨g, hg, heq⟩ := List.mem_filterMap.1 hf
    obtain ⟨rest, -, rfl⟩ := Option.map_eq_some_iff.1 heq
    exact hv g (List.takeWhile_subset _ hg)

/-- What is filled in comes from the flat form. -/
def FillsFrom (fills : List (String × Entries)) (flat : Entries) : Prop :=
  ∀ fill ∈ fills, ∀ leaf ∈ leavesUnder (fill.1 ++ ".") fill.2, leaf ∈ flat

theorem fillings_cons_of_ne (h : v ≠ .dict []) : fillings ((path, v) :: flat) = fillings flat := by
  cases v with
  | dict entries =>
    cases entries with
    | nil => exact absurd rfl h
    | cons first others => simp [fillings]
  | _ => simp [fillings]

theorem fillings_cons_of_filling_eq_nil (h : filling path flat = []) :
    fillings ((path, .dict []) :: flat) = fillings flat := by
  simp [fillings, h]

theorem fillings_cons_of_filling_ne_nil (h : filling path flat ≠ []) :
    fillings ((path, .dict []) :: flat) = (path, filling path flat) :: fillings flat := by
  rw [fillings]
  split
  · exact absurd ‹_› h
  · rfl

theorem fillsFrom_fillings (hv : ∀ f ∈ flat, f.2.IsLeaf) : FillsFrom (fillings flat) flat := by
  induction flat with
  | nil => simp [FillsFrom, fillings]
  | cons e rest ih =>
    obtain ⟨path, v⟩ := e
    have hrest : ∀ f ∈ rest, f.2.IsLeaf := fun f hf => hv f (List.mem_cons_of_mem _ hf)
    have others : FillsFrom (fillings rest) ((path, v) :: rest) := fun fill hm leaf hl =>
      List.mem_cons_of_mem _ (ih hrest fill hm leaf hl)
    by_cases hd : v = .dict []
    · subst hd
      by_cases hf : filling path rest = []
      · rw [fillings_cons_of_filling_eq_nil hf]
        exact others
      · rw [fillings_cons_of_filling_ne_nil hf]
        intro fill hm leaf hl
        rcases List.mem_cons.1 hm with rfl | hm
        · exact List.mem_cons_of_mem _ (mem_of_mem_filling hrest hl)
        · exact others fill hm leaf hl
    · rw [fillings_cons_of_ne hd]
      exact others

theorem fillAt_dict_cons {fills : List (String × Entries)} {first : String × Value}
    {others : Entries} : (Value.dict (first :: others)).fillAt path fills
      = (.dict (fillUnder (path ++ ".") fills (first :: others)).1,
         (fillUnder (path ++ ".") fills (first :: others)).2) := by
  simp [Value.fillAt]

/-- The ways in which a value is filled. -/
theorem fillAt_cases (path : String) (fills : List (String × Entries)) (v : Value) :
    v.fillAt path fills = (v, fills) ∨
    (∃ entries, v = .dict [] ∧ fills.lookup path = some entries ∧
      v.fillAt path fills = (.dict entries, fills.filter (·.1 != path))) ∨
    ∃ first others, v = .dict (first :: others) ∧ v.fillAt path fills
      = (.dict (fillUnder (path ++ ".") fills (first :: others)).1,
         (fillUnder (path ++ ".") fills (first :: others)).2) := by
  cases v with
  | dict entries =>
    cases entries with
    | nil =>
      cases h : fills.lookup path with
      | none => exact .inl (by simp [Value.fillAt, h])
      | some entries => exact .inr (.inl ⟨entries, rfl, rfl, by simp [Value.fillAt, h]⟩)
    | cons first others => exact .inr (.inr ⟨first, others, rfl, fillAt_dict_cons⟩)
  | _ => exact .inl (by simp [Value.fillAt])

theorem fillUnder_cons {lead key : String} {fills : List (String × Entries)} :
    fillUnder lead fills ((key, v) :: tree)
      = ((key, (v.fillAt (lead ++ key) (fillUnder lead fills tree).2).1)
          :: (fillUnder lead fills tree).1,
         (v.fillAt (lead ++ key) (fillUnder lead fills tree).2).2) := by
  simp [fillUnder]

/-- Filling a tree from a flat form adds no leaves but entries of the flat form. -/
theorem mem_of_mem_fillUnder {lead : String} {fills : List (String × Entries)}
    (hf : FillsFrom fills flat) :
    (∀ leaf ∈ leavesUnder lead (fillUnder lead fills tree).1,
      leaf ∈ leavesUnder lead tree ∨ leaf ∈ flat) ∧
    FillsFrom (fillUnder lead fills tree).2 flat := by
  induction tree using tree_induction generalizing lead fills with
  | nil => simpa [fillUnder, leavesUnder] using hf
  | cons key v rest below ih =>
    obtain ⟨hrest, hleft⟩ : (∀ leaf ∈ leavesUnder lead (fillUnder lead fills rest).1,
        leaf ∈ leavesUnder lead rest ∨ leaf ∈ flat) ∧
        FillsFrom (fillUnder lead fills rest).2 flat :=
      ih hf
    -- The value gets what the entries after it have left.
    suffices (∀ leaf ∈
          (v.fillAt (lead ++ key) (fillUnder lead fills rest).2).1.leavesAt (lead ++ key),
        leaf ∈ v.leavesAt (lead ++ key) ∨ leaf ∈ flat) ∧
        FillsFrom (v.fillAt (lead ++ key) (fillUnder lead fills rest).2).2 flat by
      rw [fillUnder_cons]
      refine ⟨fun leaf hl => ?_, this.2⟩
      rw [leavesUnder, List.mem_append] at hl ⊢
      rcases hl with hl | hl
      · exact (this.1 leaf hl).imp_left .inl
      · exact (hrest leaf hl).imp_left .inr
    rcases fillAt_cases (lead ++ key) (fillUnder lead fills rest).2 v with
      hv | ⟨entries, rfl, hlook, hv⟩ | ⟨⟨k, w⟩, others, rfl, hv⟩ <;> rw [hv]
    · exact ⟨fun leaf hl => .inl hl, hleft⟩
    · refine ⟨fun leaf hl => ?_, fun fill hm => hleft fill (List.mem_filter.1 hm).1⟩
      cases entries with
      | nil => exact .inl hl
      | cons first others =>
        rw [Value.leavesAt] at hl
        exact .inr (hleft _ (Keyed.mem_of_get? hlook) leaf hl)
    · obtain ⟨hsub, hleft'⟩ := below _ rfl hleft
      refine ⟨fun leaf hl => ?_, hleft'⟩
      cases hd : (fillUnder (lead ++ key ++ ".") (fillUnder lead fills rest).2
          ((k, w) :: others)).1 with
      | nil => simp [fillUnder_cons] at hd
      | cons first' others' =>
        rw [hd, Value.leavesAt, ← hd] at hl
        rw [Value.leavesAt]
        exact hsub leaf hl

theorem mem_of_mem_fillFrom (hv : ∀ f ∈ flat, f.2.IsLeaf)
    (h : leaf ∈ leavesUnder "" (fillFrom tree flat)) :
    leaf ∈ leavesUnder "" tree ∨ leaf ∈ flat := by
  unfold fillFrom at h
  split at h
  · exact .inl h
  · exact (mem_of_mem_fillUnder (fillsFrom_fillings hv)).1 leaf h

end ModelTypes
