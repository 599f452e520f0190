import ModelTypes.Proofs.Tree.Leaves
/-!
# Replacing in the flat form

In an ordered flat form, replacing all that stands at or below a path puts one value at the path of
the tree (`unflatten_replacePath`). Paths that only start with the same text are left alone, since a
path lies below another by its segments.
-/

namespace ModelTypes

variable {p : Trail} {v : Value} {tree flat : Entries} {path q : String}
  {places : List (Trail × Value)}

/-! ## Replacing by trails -/

/-- `replacePath` by trails. -/
def replaceTrail (places : List (Trail × Value)) (p : Trail) (v : Value) : List (Trail × Value) :=
  let before := places.takeWhile fun e => !p.isPrefixOf e.1
  let after := (places.dropWhile fun e => !p.isPrefixOf e.1).filter fun e => !p.isPrefixOf e.1
  before ++ (p, v) :: after

/-- Cuts a list at the first place at or below a trail. -/
theorem replaceTrail_cases (places : List (Trail × Value)) (p : Trail) (v : Value) :
    ((∀ e ∈ places, ¬ p <+: e.1) ∧ replaceTrail places p v = places ++ [(p, v)]) ∨
    ∃ before first after, places = before ++ first :: after ∧ (∀ e ∈ before, ¬ p <+: e.1) ∧
      p <+: first.1 ∧ replaceTrail places p v
        = before ++ (p, v) :: after.filter fun e => !p.isPrefixOf e.1 := by
  unfold replaceTrail
  induction places with
  | nil => exact .inl ⟨by simp, rfl⟩
  | cons e places ih =>
    by_cases he : p <+: e.1
    · exact .inr ⟨[], e, places, rfl, by simp, he, by simp [List.isPrefixOf_iff_prefix.2 he]⟩
    · have hb : p.isPrefixOf e.1 = false := by
        rw [Bool.eq_false_iff, ne_eq, List.isPrefixOf_iff_prefix]; exact he
      rcases ih with ⟨hn, hr⟩ | ⟨before, first, after, rfl, hn, hf, hr⟩
      · refine .inl ⟨by simpa [he] using hn, ?_⟩
        simpa [hb] using hr
      · refine .inr ⟨e :: before, first, after, rfl, by simpa [he] using hn, hf, ?_⟩
        simpa [hb] using hr

theorem isPrefixOf_segments {top path : String} :
    (Path.segments top).isPrefixOf (Path.segments path)
      = (path == top || Path.isBelow top path) := by
  rw [Bool.eq_iff_iff, List.isPrefixOf_iff_prefix, Path.segments_prefix_iff]
  simp

theorem toTrails_replacePath :
    toTrails (replacePath flat path v) = replaceTrail (toTrails flat) (Path.segments path) v := by
  simp only [replacePath, replaceTrail, toTrails, List.map_append, List.map_cons,
    List.takeWhile_map, List.dropWhile_map, List.filter_map, Function.comp_def, isPrefixOf_segments]

theorem ordered_replaceTrail (h : Ordered places) (p : Trail) (v : Value) :
    Ordered (replaceTrail places p v) := by
  rcases replaceTrail_cases places p v with ⟨hn, hr⟩ | ⟨before, first, after, rfl, hn, hf, hr⟩ <;>
    rw [hr]
  · exact List.pairwise_append.2 ⟨h, by simp, fun e he f hf => by
      rw [List.mem_singleton.1 hf]; exact hn e he⟩
  · obtain ⟨hbefore, hafter, hcross⟩ := List.pairwise_append.1 h
    obtain ⟨hfirst, hafter⟩ := List.pairwise_cons.1 hafter
    refine List.pairwise_append.2 ⟨hbefore, List.pairwise_cons.2 ⟨?_, hafter.filter _⟩, ?_⟩
    · intro e he hp
      exact hfirst e (List.mem_filter.1 he).1 (hp.trans hf)
    · intro e he f hfm
      rcases List.mem_cons.1 hfm with rfl | hfm
      · exact hn e he
      · exact hcross e he f (List.mem_cons_of_mem _ (List.mem_filter.1 hfm).1)

/-- Once something stands at a trail, placements after it can be made before, those at or below
the trail not at all. -/
theorem placeAt_build {first : Trail} (hp : p ≠ []) (hf : p <+: first)
    (hn : ∀ e ∈ places, ¬ e.1 <+: first) (ho : Occupied p tree) :
    placeAt p v (build places tree)
      = build (places.filter fun e => !p.isPrefixOf e.1) (placeAt p v tree) := by
  induction places generalizing tree with
  | nil => rfl
  | cons e places ih =>
    -- No later place lies above the trail, or it would lie above `first` too.
    have he : ¬ e.1 <+: p := fun hc => hn e List.mem_cons_self (hc.trans hf)
    rw [build_cons, ih (fun f hm => hn f (List.mem_cons_of_mem _ hm)) (ho.placeAt he)]
    by_cases hpe : p <+: e.1
    · obtain ⟨rest, hrest⟩ := hpe
      rw [← hrest, placeAt_placeAt_append hp, List.filter_cons_of_neg]
      simp [List.isPrefixOf_iff_prefix, ← hrest]
    · rw [placeAt_comm ho hpe he, List.filter_cons_of_pos, build_cons]
      rw [Bool.not_eq_true', Bool.eq_false_iff, ne_eq, List.isPrefixOf_iff_prefix]
      exact hpe

theorem build_replaceTrail (h : Ordered places) (hp : p ≠ []) :
    build (replaceTrail places p v) tree = placeAt p v (build places tree) := by
  rcases replaceTrail_cases places p v with ⟨-, hr⟩ | ⟨before, first, after, rfl, -, hf, hr⟩ <;>
    rw [hr]
  · simp
  · have hn := (List.pairwise_cons.1 (List.pairwise_append.1 h).2.1).1
    rw [build_append, build_append, build_cons, build_cons,
      placeAt_build hp hf hn (occupied_placeAt hf)]
    obtain ⟨rest, hrest⟩ := hf
    rw [← hrest, placeAt_placeAt_append hp]

/-! ## Replacing by paths -/

/-- A replacement in the flat form is a placement in the tree. -/
theorem unflatten_replacePath (h : Ordered (toTrails flat)) :
    unflatten (replacePath flat path v) = place path v (unflatten flat) := by
  rw [unflatten_eq, toTrails_replacePath, build_replaceTrail h (Path.segments_ne_nil path),
    ← unflatten_eq]
  rfl

theorem ordered_replacePath (h : Ordered (toTrails flat)) :
    Ordered (toTrails (replacePath flat path v)) := by
  rw [toTrails_replacePath]
  exact ordered_replaceTrail h _ _

theorem takeWhile_append_filter {α : Type} (keep : α → Bool) (l : List α) :
    l.takeWhile keep ++ (l.dropWhile keep).filter keep = l.filter keep := by
  induction l with
  | nil => rfl
  | cons a l ih => by_cases h : keep a = true <;> simp [h, ih]

/-- A replacement keeps what stands neither at nor below its path. -/
theorem replacePath_cases (flat : Entries) (path : String) (v : Value) :
    ∃ before after, replacePath flat path v = before ++ (path, v) :: after ∧
      before ++ after = flat.filter fun e => !(e.1 == path || Path.isBelow path e.1) :=
  ⟨_, _, rfl, takeWhile_append_filter _ _⟩

/-- What stands at a path after a replacement. -/
theorem get?_replacePath : Keyed.get? (replacePath flat path v) q
    = if q = path then some v else if Path.isBelow path q then none else Keyed.get? flat q := by
  obtain ⟨before, after, hr, hk⟩ := replacePath_cases flat path v
  rw [hr]
  by_cases hq : q = path
  · subst hq
    have hn : q ∉ Keyed.keys before := fun hm => by
      obtain ⟨e, he, heq⟩ := List.mem_map.1 hm
      have hf : e ∈ before ++ after := List.mem_append_left _ he
      rw [hk] at hf
      simp [heq] at hf
    rw [Keyed.get?_append_of_notMem hn, Keyed.get?_cons]
    simp
  · rw [Keyed.get?_append_cons_of_ne hq, hk,
      Keyed.get?_filter fun key => !(key == path || Path.isBelow path key)]
    by_cases hb : Path.isBelow path q = true <;> simp [hq, hb]

end ModelTypes
