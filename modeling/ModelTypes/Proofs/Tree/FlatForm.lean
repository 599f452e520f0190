import ModelTypes.Proofs.Tree.Origin
/-!
# Flat forms

A flat form holds leaves under distinct paths of which none lies below another. A leaf that is
placed where its trail parts from the trails of all leaves there adds itself and changes no other
(`perm_leavesOf_placeAt`). So the leaves of the tree that a flat form is made into are its entries,
in an order in which those below one key stand together.
-/

namespace ModelTypes

/-- Neither of two trails leads through the end of the other. -/
def Parted (p q : Trail) : Prop := ¬ p <+: q ∧ ¬ q <+: p

/-- What a tree can be flattened to, in any order. -/
structure FlatForm (flat : Entries) : Prop where
  distinct : (Keyed.keys flat).Nodup
  parted : ∀ top ∈ Keyed.keys flat, ∀ path ∈ Keyed.keys flat, Path.isBelow top path = false
  leaves : ∀ e ∈ flat, e.2.IsLeaf

variable {key : String} {trail : Trail} {v w : Value} {old : Option Value} {tree flat : Entries}
  {places added : List (Trail × Value)}

theorem not_parted_nil : ¬ Parted trail [] := fun h => h.2 List.nil_prefix

theorem parted_cons {p q : Trail} : Parted (key :: p) (key :: q) ↔ Parted p q := by
  simp [Parted]

/-! ## Adding a leaf -/

/-- The leaves of what stands at a place, with their trails from there. -/
def leavesIn (old : Option Value) : List (Trail × Value) := old.elim [] Value.trails

theorem perm_leavesOf_put (h : w.trails.Perm (leavesIn (Keyed.get? tree key) ++ added)) :
    (leavesOf (Keyed.put tree key w)).Perm
      (leavesOf tree ++ added.map fun e => (key :: e.1, e.2)) := by
  induction tree with
  | nil => simpa [leavesIn] using h.map fun e : Trail × Value => (key :: e.1, e.2)
  | cons e rest ih =>
    obtain ⟨k, u⟩ := e
    rw [Keyed.get?_cons] at h
    rw [Keyed.put]
    by_cases hk : k = key
    · subst hk
      rw [if_pos rfl] at h ⊢
      rw [leavesOf_cons, leavesOf_cons, List.append_assoc]
      refine ((h.map _).append_right _).trans ?_
      rw [leavesIn, Option.elim_some, List.map_append, List.append_assoc]
      exact List.perm_append_comm.append_left _
    · rw [if_neg hk, leavesOf_cons, leavesOf_cons, List.append_assoc]
      rw [if_neg (Ne.symm hk)] at h
      exact (ih h).append_left _

theorem leavesOf_eq_flatMap :
    leavesOf tree = tree.flatMap fun f => f.2.trails.map fun e => (f.1 :: e.1, e.2) := by
  induction tree with
  | nil => simp
  | cons f rest ih =>
    obtain ⟨key, v⟩ := f
    rw [leavesOf_cons, List.flatMap_cons, ih]

theorem mem_leavesOf_of_get? {e : Trail × Value} (h : e ∈ leavesIn (Keyed.get? tree key)) :
    (key :: e.1, e.2) ∈ leavesOf tree := by
  rcases hg : Keyed.get? tree key with _ | v <;> rw [hg] at h
  · simp [leavesIn] at h
  · rw [leavesOf_eq_flatMap]
    exact List.mem_flatMap.2 ⟨_, Keyed.mem_of_get? hg, List.mem_map_of_mem h⟩

/-- What stands at a place holds a mapping, if none of its leaves is at the place itself. -/
theorem leavesOf_entriesIn (h : ∀ e ∈ leavesIn old, e.1 ≠ []) :
    leavesOf (entriesIn old) = leavesIn old := by
  cases old with
  | none => rfl
  | some v =>
    rcases v.trails_cases with ⟨first, others, rfl, ht⟩ | ⟨-, ht⟩
    · exact ht.symm
    · exact absurd rfl (h ([], v) (by simp [leavesIn, ht]))

theorem perm_trails_within (hv : v.IsLeaf) (parted : ∀ e ∈ leavesIn old, Parted e.1 trail) :
    (within trail v old).trails.Perm (leavesIn old ++ [(trail, v)]) := by
  induction trail generalizing old with
  | nil =>
    -- Whatever stands at the place has a leaf, and its trail would lead through the place.
    have nothing : leavesIn old = [] :=
      List.eq_nil_iff_forall_not_mem.2 fun e he => not_parted_nil (parted e he)
    rw [nothing, within, hv.trails, List.nil_append]
  | cons key rest ih =>
    have opened : leavesOf (entriesIn old) = leavesIn old :=
      leavesOf_entriesIn fun e he hn => (parted e he).1 (hn ▸ List.nil_prefix)
    rw [within, Value.trails_dict (placeAt_ne_nil (by simp)), placeAt_cons, ← opened]
    refine perm_leavesOf_put (ih fun e he => ?_)
    have below := parted (key :: e.1, e.2) (opened ▸ mem_leavesOf_of_get? he)
    exact parted_cons.1 below

/-- A leaf that is placed where its trail parts from those of all leaves is added to them. -/
theorem perm_leavesOf_placeAt (hne : trail ≠ []) (hv : v.IsLeaf)
    (parted : ∀ e ∈ leavesOf tree, Parted e.1 trail) :
    (leavesOf (placeAt trail v tree)).Perm (leavesOf tree ++ [(trail, v)]) := by
  cases trail with
  | nil => exact absurd rfl hne
  | cons key rest =>
    rw [placeAt_cons]
    refine perm_leavesOf_put (perm_trails_within hv fun e he => ?_)
    have below := parted _ (mem_leavesOf_of_get? he)
    exact parted_cons.1 below

/-- Leaves that are placed at trails apart from each other and from those there are added. -/
theorem perm_leavesOf_build (hne : ∀ f ∈ places, f.1 ≠ []) (hv : ∀ f ∈ places, f.2.IsLeaf)
    (apart : places.Pairwise fun e f => Parted e.1 f.1)
    (parted : ∀ e ∈ leavesOf tree, ∀ f ∈ places, Parted e.1 f.1) :
    (leavesOf (build places tree)).Perm (leavesOf tree ++ places) := by
  induction places generalizing tree with
  | nil => simp
  | cons f places ih =>
    obtain ⟨fresh, apart⟩ := List.pairwise_cons.1 apart
    have placed : (leavesOf (placeAt f.1 f.2 tree)).Perm (leavesOf tree ++ [f]) :=
      perm_leavesOf_placeAt (hne f List.mem_cons_self) (hv f List.mem_cons_self)
        fun e he => parted e he f List.mem_cons_self
    have later : (leavesOf (build places (placeAt f.1 f.2 tree))).Perm
        (leavesOf (placeAt f.1 f.2 tree) ++ places) := by
      refine ih (fun g hg => hne g (List.mem_cons_of_mem _ hg))
        (fun g hg => hv g (List.mem_cons_of_mem _ hg)) apart fun e he g hg => ?_
      rcases List.mem_append.1 (placed.subset he) with he | he
      · exact parted e he g (List.mem_cons_of_mem _ hg)
      · rw [List.mem_singleton.1 he]
        exact fresh g hg
    rw [build_cons]
    refine later.trans ((placed.append_right _).trans ?_)
    rw [List.append_assoc, List.singleton_append]

/-! ## The tree of a flat form -/

theorem FlatForm.pairwise_toTrails (h : FlatForm flat) :
    (toTrails flat).Pairwise fun e f => Parted e.1 f.1 := by
  have distinct : flat.Pairwise fun e f => e.1 ≠ f.1 := by
    simpa [Keyed.keys, List.Nodup, List.pairwise_map] using h.distinct
  have apart {top path : String} (ht : top ∈ Keyed.keys flat) (hp : path ∈ Keyed.keys flat)
      (hne : path ≠ top) : ¬ Path.segments top <+: Path.segments path := by
    rw [Path.segments_prefix_iff, h.parted top ht path hp]
    simp [hne]
  rw [toTrails, List.pairwise_map]
  refine distinct.imp_of_mem fun {e f} he hf hne => ?_
  have he := List.mem_map_of_mem (f := (·.1)) he
  have hf := List.mem_map_of_mem (f := (·.1)) hf
  exact ⟨apart he hf (Ne.symm hne), apart hf he hne⟩

theorem FlatForm.perm_leavesUnder (h : FlatForm flat) :
    (leavesUnder "" (unflatten flat)).Perm flat := by
  have leaves : (leavesOf (unflatten flat)).Perm (toTrails flat) := by
    rw [unflatten_eq]
    refine (perm_leavesOf_build (fun f hf => ?_) (fun f hf => ?_) h.pairwise_toTrails
      (by simp)).trans (by simp)
    all_goals obtain ⟨e, he, rfl⟩ := List.mem_map.1 hf
    · exact Path.segments_ne_nil e.1
    · exact h.leaves e he
  have paths : (toTrails flat).map (fun e => ("" ++ Path.dotted e.1, e.2)) = flat := by
    simp [toTrails, Function.comp_def, Path.dotted_segments]
  rw [leavesUnder_eq]
  exact (leaves.map _).trans (by rw [paths])

/-- Flattening takes back the making of a tree, but for the order of paths that is lost where paths
below one key stand apart. -/
theorem FlatForm.flatten_unflatten (h : FlatForm flat) : (flatten (unflatten flat)).Perm flat := by
  have distinct : (Keyed.keys (leavesUnder "" (unflatten flat))).Nodup :=
    (h.perm_leavesUnder.map _).nodup_iff.2 h.distinct
  rw [flatten, ofPairs_eq_self distinct]
  exact h.perm_leavesUnder

/-- Flattening and making a tree again are inverse to each other: on plain trees with the order of
all keys, on flat forms up to the order of paths. -/
theorem flatten_unflatten_inverse :
    (∀ tree, Plain tree → unflatten (flatten tree) = tree) ∧
      ∀ flat, FlatForm flat → (flatten (unflatten flat)).Perm flat :=
  ⟨fun _ => unflatten_flatten, fun _ => FlatForm.flatten_unflatten⟩

theorem flatten_unflatten_inverse_interleaved :
    let tree : Entries := [("", .dict [("z", .dict []), ("", .list [.int 1])]), ("a", .schema 0)]
    let flat : Entries := [("b.z", .dict []), ("a", .int 1), ("b.c", .list []), ("b..d", .null)]
    Plain tree ∧ unflatten (flatten tree) = tree ∧
      FlatForm flat ∧ (flatten (unflatten flat)).Perm flat := by
  intro tree flat
  have plain : Plain tree := by decide
  have form : FlatForm flat :=
    ⟨by decide, by decide, by simp [flat, Value.IsLeaf]⟩
  exact ⟨plain, flatten_unflatten_inverse.1 tree plain, form, flatten_unflatten_inverse.2 flat form⟩

end ModelTypes
