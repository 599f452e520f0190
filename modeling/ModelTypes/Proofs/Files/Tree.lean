import Mathlib.Data.List.Nodup
import ModelTypes.Files.Tree
import ModelTypes.Proofs.Files.Location
import ModelTypes.Proofs.Occurrences
import ModelTypes.Proofs.Result
/-!
# A tree inside another

A tree that stands at a place of another has its files and directories there. Names that lead to a
place of the inner tree lead to the same place below it in the outer one, and the same names lie
below both.
-/

namespace ModelTypes

namespace FileTree

open Location (walk depth?)

variable {t u : FileTree} {root : Location} {place here names : List String}

/-! ## Places -/

theorem mem_places_iff : names ∈ t.places ↔ names ≠ [] ∧ t.contains names = true := by
  have prefixes : names ∈ t.places ↔
      names ≠ [] ∧ ∃ p ∈ t.files.map (·.1) ++ t.directories, names <+: p := by
    simp only [places, List.mem_eraseDups, List.mem_flatMap, List.mem_map, List.mem_range]
    constructor
    · rintro ⟨p, hp, n, hn, rfl⟩
      refine ⟨fun empty => ?_, p, hp, List.take_prefix _ _⟩
      have length := congrArg List.length empty
      rw [List.length_take, List.length_nil] at length
      omega
    · rintro ⟨filled, p, hp, before⟩
      have short := before.length_le
      have positive := List.length_pos_of_ne_nil filled
      exact ⟨p, hp, names.length - 1, by omega, by
        rw [Nat.sub_add_cancel positive, ← List.prefix_iff_eq_take.1 before]⟩
  rw [prefixes]
  refine and_congr_right fun filled => ?_
  have own : names.isEmpty = false := by simpa using filled
  simp only [contains, isFile, isDirectory, own, Bool.false_or, Bool.or_eq_true, List.any_eq_true,
    beq_iff_eq, List.isPrefixOf_iff_prefix, Bool.and_eq_true, bne_iff_ne, List.mem_append,
    List.mem_map]
  constructor
  · rintro ⟨p, ⟨f, hf, rfl⟩ | hp, before⟩
    · by_cases same : names = f.1
      · exact .inl ⟨f, hf, same.symm⟩
      · exact .inr (.inr ⟨f, hf, before, same⟩)
    · exact .inr (.inl ⟨p, hp, before⟩)
  · rintro (⟨f, hf, rfl⟩ | ⟨p, hp, before⟩ | ⟨f, hf, before, -⟩)
    · exact ⟨f.1, .inl ⟨f, hf, rfl⟩, List.prefix_rfl⟩
    · exact ⟨p, .inr hp, before⟩
    · exact ⟨f.1, .inl ⟨f, hf, rfl⟩, before⟩

theorem mem_below_iff :
    names ∈ t.below here ↔ names ≠ [] ∧ t.contains (here ++ names) = true := by
  simp only [below, List.mem_filterMap, mem_places_iff, Bool.and_eq_true,
    List.isPrefixOf_iff_prefix, bne_iff_ne, Option.ite_none_right_eq_some, Option.some.injEq]
  constructor
  · rintro ⟨p, ⟨-, there⟩, ⟨⟨rest, rfl⟩, strict⟩, rfl⟩
    rw [List.drop_left]
    exact ⟨fun empty => strict (by simp [empty]), there⟩
  · rintro ⟨filled, there⟩
    exact ⟨here ++ names, ⟨by simp [filled], there⟩,
      ⟨List.prefix_append _ _, by simpa using filled⟩, List.drop_left⟩

theorem nodup_below (t : FileTree) (here : List String) : (t.below here).Nodup := by
  refine List.Nodup.filterMap (fun p p' names hp hp' => ?_) (List.nodup_eraseDups _)
  simp only [Option.mem_def, Option.ite_none_right_eq_some, Option.some.injEq, Bool.and_eq_true,
    List.isPrefixOf_iff_prefix] at hp hp'
  obtain ⟨⟨⟨_, rfl⟩, -⟩, rfl⟩ := hp
  obtain ⟨⟨⟨_, rfl⟩, -⟩, same⟩ := hp'
  rw [List.drop_left, List.drop_left] at same
  rw [same]

/-! ## Following names -/

theorem follow_append {rest : List String} : t.follow here (names ++ rest)
    = t.follow here names >>= fun next => t.follow next rest := by
  induction names generalizing here with
  | nil => rfl
  | cons name names ih =>
    simp only [List.cons_append, follow]
    split
    · exact ih
    · rfl

/-- Names lead where they say, if they lead anywhere. -/
theorem eq_walk_of_follow (h : t.follow here names = .ok place) : place = walk here names := by
  induction names generalizing here with
  | nil =>
    cases h
    rfl
  | cons name names ih =>
    rw [follow] at h
    split at h
    · exact ih h
    · cases h

theorem eq_collapse_of_locate? {l : Location} (h : t.locate? l = some place) :
    place = Location.collapse l.names := by
  rw [locate?, Except.toOption_eq_some_iff] at h
  exact eq_walk_of_follow h

/-! ## Trees at a place -/

/-- A tree stands at the place that a directory's names lead to. -/
structure StandsAt (u t : FileTree) (root : Location) (place : List String) : Prop where
  anchored : root.IsAnchored
  located : t.locate? root = some place
  isFile : ∀ names, t.isFile (place ++ names) = u.isFile names
  isDirectory : ∀ names, t.isDirectory (place ++ names) = u.isDirectory names

namespace StandsAt

theorem contains (h : u.StandsAt t root place) (names : List String) :
    t.contains (place ++ names) = u.contains names := by
  rw [FileTree.contains, h.isFile, h.isDirectory, FileTree.contains]

/-- The same names lie below both. -/
theorem mem_below (h : u.StandsAt t root place) :
    names ∈ t.below (place ++ here) ↔ names ∈ u.below here := by
  rw [mem_below_iff, mem_below_iff, List.append_assoc, h.contains]

/-- Names that do not lead out of a tree lead to one place in both. -/
theorem follow (h : u.StandsAt t root place) {end' : Nat}
    (inside : depth? here.length names = some end') :
    (t.follow (place ++ here) names).toOption = (u.follow here names).toOption.map (place ++ ·) := by
  induction names generalizing here with
  | nil => rfl
  | cons name names ih =>
    obtain ⟨left, inside⟩ := Location.step_append place inside
    rw [FileTree.follow, FileTree.follow, h.isDirectory, left]
    split
    · exact ih inside
    · rfl

theorem locate? (h : u.StandsAt t root place) {end' : Nat} (inside : depth? 0 names = some end') :
    t.locate? (root.under names)
      = (u.locate? (Location.top.under names)).map (place ++ ·) := by
  have located := Except.toOption_eq_some_iff.1 h.located
  have below : (t.follow (place ++ []) names).toOption
      = (u.follow [] names).toOption.map (place ++ ·) := h.follow inside
  rw [List.append_nil] at below
  rw [FileTree.locate?, Location.under, follow_append, located]
  exact below

end StandsAt

/-! ## A tree put at a place -/

/-- The tree that has another at a place, and nothing else. -/
def placedAt (u : FileTree) (place : List String) : FileTree where
  files := u.files.map fun f => (place ++ f.1, f.2)
  directories := place :: u.directories.map (place ++ ·)

theorem isDirectory_placedAt (before : here <+: place) :
    (u.placedAt place).isDirectory here = true := by
  simp [isDirectory, placedAt, List.isPrefixOf_iff_prefix.2 before]

/-- The names of the place lead to it. -/
theorem follow_placedAt (direct : ".." ∉ names) (place_eq : here ++ names = place) :
    (u.placedAt place).follow here names = .ok place := by
  induction names generalizing here with
  | nil => simpa [FileTree.follow] using place_eq
  | cons name names ih =>
    rw [List.mem_cons, not_or] at direct
    rw [FileTree.follow, if_pos (isDirectory_placedAt (place_eq ▸ List.prefix_append _ _)),
      if_neg (by simpa using Ne.symm direct.1)]
    exact ih direct.2 (by simpa using place_eq)

theorem standsAt_placedAt (u : FileTree) (place : List String) (direct : ".." ∉ place) :
    u.StandsAt (u.placedAt place) ⟨"/", place⟩ place := by
  have same (names names' : List String) :
      (place ++ names == place ++ names') = (names == names') := by
    rw [Bool.eq_iff_iff]
    simp
  have before (names names' : List String) :
      (place ++ names).isPrefixOf (place ++ names') = names.isPrefixOf names' := by
    rw [Bool.eq_iff_iff]
    simp [List.isPrefixOf_iff_prefix, List.prefix_append_right_inj]
  refine ⟨.inl rfl, Except.toOption_eq_some_iff.2 (follow_placedAt direct rfl), fun names => ?_,
    fun names => ?_⟩
  · simp [FileTree.isFile, placedAt, Function.comp_def, same]
  · by_cases empty : names = []
    · subst empty
      rw [List.append_nil, isDirectory_placedAt List.prefix_rfl]
      rfl
    · have below : (place ++ names).isPrefixOf place = false := by
        rw [Bool.eq_false_iff, Ne, List.isPrefixOf_iff_prefix]
        intro shorter
        have length := shorter.length_le
        rw [List.length_append] at length
        exact empty (List.length_eq_zero_iff.1 (by omega))
      have filled : (place ++ names).isEmpty = false ∧ names.isEmpty = false := by simp [empty]
      simp [FileTree.isDirectory, placedAt, filled, below, before, bne, same, Function.comp_def]

end FileTree
end ModelTypes
