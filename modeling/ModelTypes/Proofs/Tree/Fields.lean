import Mathlib.Data.List.Nodup
import ModelTypes.Proofs.Tree.Replace
/-!
# Some fields of a tree

A path belongs to the field that its first key names. Building a tree, replacing at a path and
flattening act field by field, so what they give for some fields they make of those fields alone.
Flattening tells a field apart from the others if no other key begins like its key (`Intact`).
-/

namespace ModelTypes

namespace Keyed

theorem filter_put {α : Type} {m : Keyed α} {key : String} {v : α} (keep : String → Bool) :
    (put m key v).filter (fun e => keep e.1) =
      if keep key then put (m.filter fun e => keep e.1) key v else m.filter fun e => keep e.1 := by
  induction m with
  | nil => cases hk : keep key <;> simp [hk]
  | cons e m ih =>
    by_cases he : e.1 = key
    · cases hk : keep key <;> simp [put, he, hk]
    · rw [put, if_neg he, List.filter_cons, ih, List.filter_cons]
      cases keep key <;> cases keep e.1 <;> simp [put, he]

theorem filter_foldl_put {α : Type} {m : Keyed α} {pairs : List (String × α)}
    (keep : String → Bool) :
    (pairs.foldl (fun m e => put m e.1 e.2) m).filter (fun e => keep e.1)
      = (pairs.filter fun e => keep e.1).foldl (fun m e => put m e.1 e.2)
          (m.filter fun e => keep e.1) := by
  induction pairs generalizing m with
  | nil => rfl
  | cons e pairs ih =>
    rw [List.foldl_cons, ih, filter_put]
    cases hk : keep e.1 <;> simp [hk]

theorem filter_ofPairs {α : Type} {pairs : List (String × α)} (keep : String → Bool) :
    (ofPairs pairs).filter (fun e => keep e.1) = ofPairs (pairs.filter fun e => keep e.1) :=
  filter_foldl_put keep

end Keyed

/-- Whether a trail goes through one of some keys first. -/
def through (keep : String → Bool) (trail : Trail) : Bool := trail.head?.any keep

variable {keep : String → Bool} {key path : String} {v : Value} {tree flat : Entries}
  {places : List (Trail × Value)}

theorem filter_build : (build places tree).filter (fun e => keep e.1)
    = build (places.filter fun e => through keep e.1) (tree.filter fun e => keep e.1) := by
  induction places generalizing tree with
  | nil => rfl
  | cons e places ih =>
    obtain ⟨trail, v⟩ := e
    rw [build_cons, ih]
    cases trail with
    | nil => rfl
    | cons key rest =>
      rw [placeAt_cons, Keyed.filter_put]
      cases hk : keep key <;> simp [through, hk, placeAt_cons, Keyed.get?_filter]

theorem filter_unflatten : (unflatten flat).filter (fun e => keep e.1)
    = unflatten (flat.filter fun e => through keep (Path.segments e.1)) := by
  rw [unflatten_eq, unflatten_eq, filter_build, toTrails, toTrails, List.filter_map]
  rfl

theorem through_eq_of_prefixed {trail trail' : Trail} (h : trail <+: trail') (hne : trail ≠ []) :
    through keep trail' = through keep trail := by
  obtain ⟨rest, rfl⟩ := h
  rw [through, through, List.head?_append_of_ne_nil _ hne]

/-- A replacement leaves the fields alone that its path does not belong to. -/
theorem filter_replacePath (h : through keep (Path.segments path) = false) :
    (replacePath flat path v).filter (fun e => through keep (Path.segments e.1))
      = flat.filter fun e => through keep (Path.segments e.1) := by
  obtain ⟨before, after, hr, hk⟩ := replacePath_cases flat path v
  rw [hr, List.filter_append, List.filter_cons_of_neg (by simp [h]), ← List.filter_append, hk,
    List.filter_filter]
  refine List.filter_congr fun e _ => ?_
  by_cases he : Path.segments path <+: Path.segments e.1
  · rw [through_eq_of_prefixed he (Path.segments_ne_nil path), h, Bool.false_and]
  · rw [Path.segments_prefix_iff, not_or] at he
    simp [he.1, he.2]

theorem segments_prefix_of_mem_leavesAt {leaf : String × Value} (h : leaf ∈ v.leavesAt path) :
    Path.segments path <+: Path.segments leaf.1 := by
  rw [Path.segments_prefix_iff]
  rcases v.trails_cases with ⟨first, others, rfl, -⟩ | ⟨hv, -⟩
  · rw [Value.leavesAt, leavesUnder_eq] at h
    obtain ⟨e, -, rfl⟩ := List.mem_map.1 h
    exact .inr (Path.isBelow_iff.2 ⟨_, rfl⟩)
  · have alone : v.leavesAt path = [(path, v)] := by
      cases v with
      | dict entries => cases hv entries rfl; simp [Value.leavesAt]
      | _ => simp [Value.leavesAt]
    rw [alone, List.mem_singleton] at h
    exact .inl (by rw [h])

theorem filter_leavesUnder
    (h : ∀ key ∈ Keyed.keys tree, through keep (Path.segments key) = keep key) :
    (leavesUnder "" tree).filter (fun e => through keep (Path.segments e.1))
      = leavesUnder "" (tree.filter fun e => keep e.1) := by
  induction tree with
  | nil => simp [leavesUnder]
  | cons e rest ih =>
    obtain ⟨key, v⟩ := e
    -- All leaves of a field belong to the field.
    have own : ∀ leaf ∈ v.leavesAt ("" ++ key),
        through keep (Path.segments leaf.1) = keep key := fun leaf hl => by
      rw [through_eq_of_prefixed (segments_prefix_of_mem_leavesAt hl) (Path.segments_ne_nil _),
        String.empty_append, h key List.mem_cons_self]
    rw [leavesUnder, List.filter_append, ih fun k hk => h k (List.mem_cons_of_mem _ hk)]
    cases hk : keep key
    · rw [List.filter_cons_of_neg (by simp [hk]), List.filter_eq_nil_iff.2, List.nil_append]
      exact fun leaf hl => by simp [own leaf hl, hk]
    · rw [List.filter_cons_of_pos (by simpa using hk), List.filter_eq_self.2, leavesUnder]
      exact fun leaf hl => by simp [own leaf hl, hk]

theorem filter_flatten (h : ∀ key ∈ Keyed.keys tree, through keep (Path.segments key) = keep key) :
    (flatten tree).filter (fun e => through keep (Path.segments e.1))
      = flatten (tree.filter fun e => keep e.1) := by
  rw [flatten, Keyed.filter_ofPairs fun path => through keep (Path.segments path),
    filter_leavesUnder h, flatten]

/-! ## Fields that flattening tells apart -/

/-- A field whose own keys have no dots, and with whose key and a dot no other key begins. -/
structure Intact (tree : Entries) (key : String) : Prop where
  plain : Plain (tree.filter fun e => e.1 == key)
  alone : ∀ other ∈ Keyed.keys tree, Path.isBelow key other = false

instance (tree : Entries) (key : String) : Decidable (Intact tree key) :=
  decidable_of_iff (Plain (tree.filter fun e => e.1 == key) ∧
    ∀ other ∈ Keyed.keys tree, Path.isBelow key other = false)
    ⟨fun h => ⟨h.1, h.2⟩, fun h => ⟨h.plain, h.alone⟩⟩

theorem Intact.dotFree (h : Intact tree key) (hk : key ∈ Keyed.keys tree) : Path.DotFree key := by
  obtain ⟨e, he, rfl⟩ := List.mem_map.1 hk
  exact h.plain.keys.2 e.1 (List.mem_map_of_mem (List.mem_filter.2 ⟨he, by simp⟩))

/-- Intact fields make up a plain tree. -/
theorem plain_filter (h : ∀ key, keep key = true → Intact tree key) :
    Plain (tree.filter fun e => keep e.1) := by
  have own {e : String × Value} (he : e ∈ tree.filter fun e => keep e.1) :
      Intact tree e.1 ∧ e ∈ tree.filter fun f => f.1 == e.1 := by
    obtain ⟨hm, hk⟩ := List.mem_filter.1 he
    exact ⟨h e.1 hk, List.mem_filter.2 ⟨hm, by simp⟩⟩
  have once (key : String) :
      (Keyed.keys (tree.filter fun e => keep e.1)).count key ≤ 1 := by
    by_cases hk : key ∈ Keyed.keys (tree.filter fun e => keep e.1)
    · -- It occurs no more often than among the entries under it.
      obtain ⟨e, he, rfl⟩ := List.mem_map.1 hk
      refine Nat.le_trans ?_ (List.nodup_iff_count_le_one.1 (own he).1.plain.keys.1 e.1)
      simp only [Keyed.keys, List.count_eq_countP, List.countP_map, List.countP_filter]
      exact List.countP_mono_left fun f _ hf => by simp_all
    · simp [List.count_eq_zero_of_not_mem hk]
  refine plain_iff.2 ⟨⟨List.nodup_iff_count_le_one.2 once, fun key hk => ?_⟩,
    plainUnder_iff.2 fun e he => (own he).1.plain.of_mem (own he).2⟩
  obtain ⟨e, he, rfl⟩ := List.mem_map.1 hk
  exact (own he).1.dotFree (List.mem_map_of_mem (List.mem_filter.1 he).1)

/-- A key of the tree belongs to intact fields only if it is the key of one. -/
theorem through_segments (h : ∀ key, keep key = true → Intact tree key)
    (hk : key ∈ Keyed.keys tree) : through keep (Path.segments key) = keep key := by
  by_cases hd : Path.DotFree key
  · simp [through, Path.segments_of_dotFree hd]
  · have kept : keep key = false := by
      rw [Bool.eq_false_iff]
      exact fun hc => hd ((h key hc).dotFree hk)
    obtain ⟨first, rest, hs⟩ := List.exists_cons_of_ne_nil (Path.segments_ne_nil key)
    have hm : first ∈ Path.segments key := by simp [hs]
    have hfirst : Path.DotFree first := Path.dotFree_of_mem_segments hm
    have hp : Path.segments first <+: Path.segments key := by
      rw [Path.segments_of_dotFree hfirst, hs]
      exact List.prefix_append [first] rest
    rcases Path.segments_prefix_iff.1 hp with rfl | hb
    · exact absurd hfirst hd
    · rw [kept, hs, through, List.head?_cons, Option.any_some, Bool.eq_false_iff]
      intro hc
      rw [(h first hc).alone key hk] at hb
      cases hb

end ModelTypes
