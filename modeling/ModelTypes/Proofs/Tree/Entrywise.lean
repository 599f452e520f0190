import ModelTypes.Proofs.Tree.Origin
/-!
# Properties that go entry by entry

A mapping has such a property if all its keys have names of some sort and all its values have the
property. Flat forms, the trees that are made of them, and trees that are filled from them then
have it as well: their keys are the segments of paths that were joined of keys.
-/

namespace ModelTypes

/-- A mapping is good if its keys are named so and its values are good. -/
structure Entrywise (named : String → Prop) (good : Value → Prop) : Prop where
  dict_iff : ∀ {entries : Entries},
    good (.dict entries) ↔ ∀ e ∈ entries, named e.1 ∧ good e.2

namespace Entrywise

variable {named : String → Prop} {good : Value → Prop} {key path : String} {trail : Trail}
  {v : Value} {tree flat : Entries} {places : List (Trail × Value)}

theorem nil (hg : Entrywise named good) : good (.dict []) := hg.dict_iff.2 (by simp)

/-! ## Placing -/

theorem put (hg : Entrywise named good) (h : good (.dict tree)) (hk : named key) (hv : good v) :
    good (.dict (Keyed.put tree key v)) := by
  refine hg.dict_iff.2 fun e he => ?_
  rcases mem_put he with he | rfl
  · exact hg.dict_iff.1 h e he
  · exact ⟨hk, hv⟩

theorem entriesAt (hg : Entrywise named good) (h : good (.dict tree)) :
    good (.dict (entriesAt tree key)) := by
  unfold ModelTypes.entriesAt
  split
  case h_1 entries hk => exact (hg.dict_iff.1 h _ (Keyed.mem_of_get? hk)).2
  case h_2 => exact hg.nil

theorem placeAt (hg : Entrywise named good) (ht : ∀ key ∈ trail, named key) (hv : good v)
    (h : good (.dict tree)) : good (.dict (placeAt trail v tree)) := by
  induction trail generalizing tree with
  | nil => exact h
  | cons key rest ih =>
    obtain ⟨hk, hr⟩ := List.forall_mem_cons.1 ht
    cases rest with
    | nil => exact hg.put h hk hv
    | cons next rest => exact hg.put h hk (ih hr (hg.entriesAt h))

/-- An entry of a flat form has good segments and a good value. -/
def Fits (named : String → Prop) (good : Value → Prop) (e : String × Value) : Prop :=
  (∀ key ∈ Path.segments e.1, named key) ∧ good e.2

theorem unflatten (hg : Entrywise named good) (h : ∀ e ∈ flat, Fits named good e) :
    good (.dict (unflatten flat)) := by
  suffices ∀ tree, good (.dict tree) →
      good (.dict (flat.foldl (fun tree e => place e.1 e.2 tree) tree)) from this [] hg.nil
  induction flat with
  | nil => exact fun _ h => h
  | cons e rest ih =>
    intro tree ht
    obtain ⟨own, others⟩ := List.forall_mem_cons.1 h
    exact ih others _ (hg.placeAt own.1 own.2 ht)

/-! ## Flattening -/

theorem leavesOf (hg : Entrywise named good) (h : good (.dict tree)) :
    ∀ e ∈ leavesOf tree, (∀ key ∈ e.1, named key) ∧ good e.2 := by
  induction tree using tree_induction with
  | nil => simp
  | cons key v rest below ih =>
    obtain ⟨⟨hk, hv⟩, others⟩ := List.forall_mem_cons.1 (hg.dict_iff.1 h)
    intro e he
    rw [leavesOf_cons] at he
    rcases List.mem_append.1 he with he | he
    · obtain ⟨f, hf, rfl⟩ := List.mem_map.1 he
      rcases v.trails_cases with ⟨first, rest, rfl, ht⟩ | ⟨-, ht⟩ <;> rw [ht] at hf
      · have inner := below _ rfl hv f hf
        exact ⟨List.forall_mem_cons.2 ⟨hk, inner.1⟩, inner.2⟩
      · rw [List.mem_singleton.1 hf]
        exact ⟨by simpa using hk, hv⟩
    · exact ih (hg.dict_iff.2 others) e he

/-- The segments of joined keys are segments of the keys. -/
theorem named_segments_dotted (parts : ∀ key, named key → ∀ part ∈ Path.segments key, named part)
    (filled : trail ≠ []) (h : ∀ key ∈ trail, named key) :
    ∀ part ∈ Path.segments (Path.dotted trail), named part := by
  induction trail with
  | nil => exact absurd rfl filled
  | cons key rest ih =>
    obtain ⟨hk, hr⟩ := List.forall_mem_cons.1 h
    by_cases hn : rest = []
    · subst hn
      exact parts key hk
    · rw [Path.dotted_cons hn, Path.segments_append]
      exact List.forall_mem_append.2 ⟨parts key hk, ih hn hr⟩

theorem flatten (hg : Entrywise named good)
    (parts : ∀ key, named key → ∀ part ∈ Path.segments key, named part) (h : good (.dict tree)) :
    ∀ e ∈ flatten tree, Fits named good e := by
  intro e he
  have he := mem_leavesUnder_of_mem_flatten he
  rw [leavesUnder_eq] at he
  obtain ⟨f, hf, rfl⟩ := List.mem_map.1 he
  obtain ⟨trail, value⟩ := hg.leavesOf h f hf
  refine ⟨?_, value⟩
  simpa using named_segments_dotted parts (ne_nil_of_mem_leavesOf hf) trail

/-! ## Filling -/

theorem filling (hg : Entrywise named good) (h : ∀ e ∈ flat, Fits named good e) :
    good (.dict (filling path flat)) := by
  refine hg.unflatten fun e he => ?_
  obtain ⟨f, hf, he⟩ := List.mem_filterMap.1 he
  obtain ⟨rest, hb, rfl⟩ := Option.map_eq_some_iff.1 he
  obtain ⟨keys, value⟩ := h f ((List.takeWhile_sublist _).subset hf)
  rw [Path.below?_eq_some_iff.1 hb, Path.segments_append] at keys
  exact ⟨(List.forall_mem_append.1 keys).2, value⟩

theorem fillings (hg : Entrywise named good) (h : ∀ e ∈ flat, Fits named good e) :
    ∀ fill ∈ fillings flat, good (.dict fill.2) := by
  induction flat with
  | nil => simp [ModelTypes.fillings]
  | cons e rest ih =>
    obtain ⟨path, v⟩ := e
    obtain ⟨-, others⟩ := List.forall_mem_cons.1 h
    by_cases hd : v = .dict []
    · subst hd
      by_cases hf : ModelTypes.filling path rest = []
      · rw [fillings_cons_of_filling_eq_nil hf]
        exact ih others
      · rw [fillings_cons_of_filling_ne_nil hf]
        exact List.forall_mem_cons.2 ⟨hg.filling others, ih others⟩
    · rw [fillings_cons_of_ne hd]
      exact ih others

theorem fillUnder (hg : Entrywise named good) (lead : String) {fills : List (String × Entries)}
    (hf : ∀ fill ∈ fills, good (.dict fill.2)) (h : good (.dict tree)) :
    good (.dict (fillUnder lead fills tree).1) ∧
      ∀ fill ∈ (fillUnder lead fills tree).2, good (.dict fill.2) := by
  induction tree using tree_induction generalizing lead fills with
  | nil => exact ⟨h, hf⟩
  | cons key v rest below ih =>
    obtain ⟨⟨hk, hv⟩, others⟩ := List.forall_mem_cons.1 (hg.dict_iff.1 h)
    obtain ⟨filled, left⟩ := ih lead hf (hg.dict_iff.2 others)
    -- The value gets what the entries after it have left.
    suffices good (v.fillAt (lead ++ key) (ModelTypes.fillUnder lead fills rest).2).1 ∧
        ∀ fill ∈ (v.fillAt (lead ++ key) (ModelTypes.fillUnder lead fills rest).2).2,
          good (.dict fill.2) by
      rw [fillUnder_cons]
      exact ⟨hg.dict_iff.2 (List.forall_mem_cons.2 ⟨⟨hk, this.1⟩, hg.dict_iff.1 filled⟩), this.2⟩
    rcases fillAt_cases (lead ++ key) (ModelTypes.fillUnder lead fills rest).2 v with
      hw | ⟨entries, rfl, hlook, hw⟩ | ⟨first, others, rfl, hw⟩ <;> rw [hw]
    · exact ⟨hv, left⟩
    · exact ⟨left _ (Keyed.mem_of_get? hlook), fun fill hm => left fill (List.mem_filter.1 hm).1⟩
    · exact below _ rfl _ left hv

theorem fillFrom (hg : Entrywise named good) (h : good (.dict tree))
    (hf : ∀ e ∈ flat, Fits named good e) : good (.dict (fillFrom tree flat)) := by
  unfold ModelTypes.fillFrom
  split
  · exact h
  · exact (hg.fillUnder _ (hg.fillings hf) h).1

end Entrywise
end ModelTypes
