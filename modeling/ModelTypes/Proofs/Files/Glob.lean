import Mathlib.Data.List.Perm.Basic
import Mathlib.Data.List.TakeWhile
import ModelTypes.Files.Glob
import ModelTypes.Proofs.Files.Tree
/-!
# Searches below a directory

A search follows the names of a pattern one by one, and never leaves the tree that it starts in if
the pattern cannot lead out of it. So it finds the same names in a tree wherever that stands, as long
as no wildcard stands in the names that lead there (`search_perm`).
-/

namespace ModelTypes

/-- A tree has names that a file system can have. -/
def FileTree.IsProper (t : FileTree) : Prop :=
  ∀ names, t.contains names = true → ∀ name ∈ names, name ≠ "" ∧ name ≠ ".." ∧ '/' ∉ name.toList

theorem FileTree.isProper_iff {t : FileTree} : t.IsProper ↔
    ∀ names ∈ t.places, ∀ name ∈ names, name ≠ "" ∧ name ≠ ".." ∧ '/' ∉ name.toList := by
  refine forall_congr' fun names => ⟨fun h hn => h (mem_places_iff.1 hn).2, fun h there => ?_⟩
  by_cases empty : names = []
  · simp [empty]
  · exact h (mem_places_iff.2 ⟨empty, there⟩)

instance (t : FileTree) : Decidable t.IsProper := decidable_of_iff _ FileTree.isProper_iff.symm

namespace Glob

open Location (top depth? AreWritten)
open Wildcard (isWild)

variable {t u : FileTree} {root l : Location} {place names plain rest : List String}
  {name : String} {last : Bool} {depth : Nat}

/-! ## Patterns that do not lead out -/

/-- The least depth after a name. Two stars may stand for no name at all. -/
def lowest (depth : Nat) (name : String) : Nat :=
  if name = ".." then depth - 1 else if isDeep name then depth else depth + 1

/-- Names of a pattern that never lead above the directory that the depth is counted from. -/
def staysWithin : Nat → List String → Bool
  | _, [] => true
  | depth, name :: rest => (name != ".." || depth != 0) && staysWithin (lowest depth name) rest

theorem isDeep_eq_false (literal : isWild name = false) : isDeep name = false := by
  rw [isDeep, beq_eq_false_iff_ne]
  rintro rfl
  exact absurd literal (by decide)

theorem depth?_singleton (stays : name ≠ ".." ∨ depth ≠ 0) (literal : isWild name = false) :
    depth? depth [name] = some (lowest depth name) := by
  simp only [depth?, lowest, isDeep_eq_false literal]
  grind

/-- Names without wildcards lead to a certain depth. -/
theorem exists_depth?_of_staysWithin (literal : ∀ name ∈ plain, isWild name = false)
    (stays : staysWithin depth (plain ++ rest) = true) :
    ∃ end', depth? depth plain = some end' ∧ staysWithin end' rest = true := by
  induction plain generalizing depth with
  | nil => exact ⟨depth, rfl, stays⟩
  | cons name plain ih =>
    rw [List.forall_mem_cons] at literal
    simp only [List.cons_append, staysWithin, Bool.and_eq_true, Bool.or_eq_true,
      bne_iff_ne] at stays
    obtain ⟨end', leads, below⟩ := ih literal.2 stays.2
    refine ⟨end', ?_, below⟩
    rw [← List.singleton_append, Location.depth?_append, depth?_singleton stays.1 literal.1]
    exact leads

/-! ## What a search finds -/

/-- A location in a tree, at some depth or deeper. -/
structure Inside (depth : Nat) (l : Location) : Prop where
  eq_under : l = top.under l.names
  written : AreWritten l.names
  depth : ∃ end', depth? 0 l.names = some end' ∧ depth ≤ end'

/-- What a name of a pattern leads on by: itself, or names of the tree. -/
inductive Leads (u : FileTree) (last : Bool) (name : String) : List String → Prop
  | literal (plain : isWild name = false) : Leads u last name [name]
  | one {here below} (wild : isWild name = true) (mem : [below] ∈ u.below here) :
      Leads u last name [below]
  | deep {here below} (deep : isDeep name = true) (mem : below ∈ u.below here) :
      Leads u last name below
  | stay (deep : isDeep name = true) (more : last = false) : Leads u last name []

theorem exists_of_mem_step {l' : Location} (h : l' ∈ step u last name l) :
    ∃ more, Leads u last name more ∧ l' = { l with names := l.names ++ more } := by
  unfold step at h
  split at h
  · rename_i wild
    split at h
    · cases h
    · rename_i here _
      have mem {below : List String} {p q : List String → Bool}
          (h : below ∈ ((u.below here).filter p).filter q) : below ∈ u.below here :=
        (List.mem_filter.1 (List.mem_filter.1 h).1).1
      split at h
      · rename_i deep
        split at h
        · obtain ⟨below, hb, rfl⟩ := List.mem_map.1 h
          exact ⟨below, .deep deep (mem hb), rfl⟩
        · rename_i more
          split at h
          · rcases List.mem_cons.1 h with rfl | h
            · exact ⟨[], .stay deep (by simpa using more), by rw [List.append_nil]⟩
            · obtain ⟨below, hb, rfl⟩ := List.mem_map.1 h
              exact ⟨below, .deep deep (mem hb), rfl⟩
          · cases h
      · obtain ⟨below, hb, rfl⟩ := List.mem_map.1 h
        obtain ⟨name', rfl⟩ : ∃ name', below = [name'] := by
          have single := (List.mem_filter.1 hb).2
          rw [Bool.and_eq_true, beq_iff_eq] at single
          exact List.length_eq_one_iff.1 single.1
        exact ⟨_, .one wild (mem hb), rfl⟩
  · rename_i plain
    dsimp only at h
    split at h
    · rw [List.mem_singleton.1 h]
      exact ⟨_, .literal (by simpa using plain), rfl⟩
    · cases h

/-- A proper tree has written names, and none of them leads up. -/
theorem names_of_mem_below (proper : u.IsProper) {here below : List String}
    (h : below ∈ u.below here) : below ≠ [] ∧ AreWritten below ∧ ".." ∉ below := by
  obtain ⟨filled, there⟩ := FileTree.mem_below_iff.1 h
  have names (name : String) (hn : name ∈ below) :=
    proper _ there name (List.mem_append_right _ hn)
  exact ⟨filled, fun name hn => ⟨(names name hn).1, (names name hn).2.2⟩,
    fun up => (names _ up).2.1 rfl⟩

theorem ne_of_isWild (wild : isWild name = true) : name ≠ ".." := by
  rintro rfl
  exact absurd wild (by decide)

theorem isWild_of_isDeep (deep : isDeep name = true) : isWild name = true := by
  obtain rfl := beq_iff_eq.1 deep
  decide

/-- A step stays inside a proper tree, as deep as its name leads at least. -/
theorem Inside.step (h : Inside depth l) (proper : u.IsProper) (stays : name ≠ ".." ∨ depth ≠ 0)
    (written : AreWritten [name]) {l' : Location} (mem : l' ∈ step u last name l) :
    Inside (lowest depth name) l' ∧ (last = true → l'.names ≠ []) := by
  obtain ⟨more, leads, rfl⟩ := exists_of_mem_step mem
  obtain ⟨end', reached, deeper⟩ := h.depth
  have anchor : l.anchor = "/" := congrArg Location.anchor h.eq_under
  have inside (writes : AreWritten more)
      (below : ∃ end'', depth? end' more = some end'' ∧ lowest depth name ≤ end'') :
      Inside (lowest depth name) ⟨l.anchor, l.names ++ more⟩ := by
    refine ⟨by simp [anchor, Location.under, top], ?_, ?_⟩
    · exact fun name hn => (List.mem_append.1 hn).elim (h.written name) (writes name)
    · rwa [Location.depth?_append, reached]
  cases leads with
  | literal plain =>
    have stays' : name ≠ ".." ∨ end' ≠ 0 := stays.imp_right fun _ => by omega
    refine ⟨inside written ⟨_, depth?_singleton stays' plain, ?_⟩, fun _ => by simp⟩
    unfold lowest
    split_ifs <;> omega
  | one wild below =>
    obtain ⟨-, writes, free⟩ := names_of_mem_below proper below
    refine ⟨inside writes ⟨_, Location.depth?_of_notMem free, ?_⟩, fun _ => by simp⟩
    rw [lowest, if_neg (ne_of_isWild wild), List.length_singleton]
    split_ifs <;> omega
  | deep deep below =>
    obtain ⟨filled, writes, free⟩ := names_of_mem_below proper below
    refine ⟨inside writes ⟨_, Location.depth?_of_notMem free, ?_⟩, fun _ => by simp [filled]⟩
    rw [lowest, if_neg (ne_of_isWild (isWild_of_isDeep deep)), if_pos deep]
    omega
  | stay deep more =>
    refine ⟨inside (by simp [AreWritten]) ⟨end', rfl, ?_⟩, fun last => by simp [last] at more⟩
    rw [lowest, if_neg (ne_of_isWild (isWild_of_isDeep deep)), if_pos deep]
    exact deeper

theorem inside_steps (proper : u.IsProper) (written : AreWritten names)
    (stays : staysWithin depth names = true) {found : List Location}
    (h : ∀ l ∈ found, Inside depth l) :
    ∀ l ∈ steps u names found, (∃ depth, Inside depth l) ∧ (names ≠ [] → l.names ≠ []) := by
  induction names generalizing depth found with
  | nil => exact fun l hl => ⟨⟨depth, h l hl⟩, fun filled => absurd rfl filled⟩
  | cons name rest ih =>
    simp only [staysWithin, Bool.and_eq_true, Bool.or_eq_true, bne_iff_ne] at stays
    have stepped (l : Location)
        (hl : l ∈ found.flatMap (Glob.step u rest.isEmpty name)) :
        Inside (lowest depth name) l ∧ (rest.isEmpty = true → l.names ≠ []) := by
      obtain ⟨l₀, h₀, hl⟩ := List.mem_flatMap.1 hl
      exact (h l₀ h₀).step proper stays.1
        (by simpa [AreWritten] using written name List.mem_cons_self) hl
    intro l hl
    obtain ⟨inside, filled⟩ := ih (fun name hn => written name (List.mem_cons_of_mem _ hn)) stays.2
      (fun l hl => (stepped l hl).1) l hl
    refine ⟨inside, fun _ => ?_⟩
    by_cases more : rest = []
    · subst more
      exact (stepped l hl).2 rfl
    · exact filled more

/-! ## One tree at two places -/

/-- The same names lie below a place, and those that count are directories. -/
theorem below_perm (h : u.StandsAt t root place) (last : Bool) (here : List String) :
    ((t.below (place ++ here)).filter fun names => last || t.isDirectory (place ++ here ++ names)).Perm
      ((u.below here).filter fun names => last || u.isDirectory (here ++ names)) := by
  have directories (names : List String) :
      t.isDirectory (place ++ here ++ names) = u.isDirectory (here ++ names) := by
    rw [List.append_assoc, h.isDirectory]
  simp only [directories]
  refine List.Perm.filter _ ((List.perm_ext_iff_of_nodup (t.nodup_below _) (u.nodup_below _)).2 ?_)
  exact fun names => h.mem_below

theorem step_perm (h : u.StandsAt t root place) (inside : Inside depth l)
    (stays : name ≠ ".." ∨ depth ≠ 0) : (step t last name (root.under l.names)).Perm
      ((step u last name l).map fun l => root.under l.names) := by
  obtain ⟨end', reached, deeper⟩ := inside.depth
  have located := h.locate? reached
  rw [← inside.eq_under] at located
  have extended (names : List String) :
      (⟨(root.under l.names).anchor, (root.under l.names).names ++ names⟩ : Location)
        = root.under (l.names ++ names) := by simp [Location.under]
  unfold step
  simp only [extended]
  by_cases wild : isWild name = true
  · rw [if_pos wild, if_pos wild, located]
    cases u.locate? l with
    | none => rfl
    | some here =>
      have below := below_perm h last here
      have here' : t.isDirectory (place ++ here) = u.isDirectory here := h.isDirectory here
      simp only [Option.map_some, here']
      split_ifs
      · simpa [Function.comp_def] using (below.filter _).map fun names =>
          root.under (l.names ++ names)
      · simpa [Function.comp_def] using (below.filter _).map fun names =>
          root.under (l.names ++ names)
      · rfl
      · simpa [Function.comp_def] using (below.filter _).map fun names =>
          root.under (l.names ++ names)
  · rw [if_neg wild, if_neg wild]
    have stays' : name ≠ ".." ∨ end' ≠ 0 := stays.imp_right fun _ => by omega
    have next : depth? 0 (l.names ++ [name]) = some (lowest end' name) := by
      rw [Location.depth?_append, reached]
      exact depth?_singleton stays' (by simpa using wild)
    have located := h.locate? next
    have next' : top.under (l.names ++ [name]) = { l with names := l.names ++ [name] } := by
      rw [inside.eq_under]
      simp [Location.under, top]
    rw [located, next', Option.any_map]
    simp only [h.contains]
    split_ifs <;> rfl

theorem steps_perm (h : u.StandsAt t root place) (proper : u.IsProper) (written : AreWritten names)
    (stays : staysWithin depth names = true) {found found' : List Location}
    (inside : ∀ l ∈ found, Inside depth l)
    (same : found'.Perm (found.map fun l => root.under l.names)) :
    (steps t names found').Perm ((steps u names found).map fun l => root.under l.names) := by
  induction names generalizing depth found found' with
  | nil => exact same
  | cons name rest ih =>
    simp only [staysWithin, Bool.and_eq_true, Bool.or_eq_true, bne_iff_ne] at stays
    rw [AreWritten, List.forall_mem_cons] at written
    refine ih written.2 stays.2 (fun l hl => ?_) ?_
    · obtain ⟨l₀, h₀, hl⟩ := List.mem_flatMap.1 hl
      exact ((inside l₀ h₀).step proper stays.1 (by simpa [AreWritten] using written.1) hl).1
    · refine (same.flatMap_right _).trans ?_
      rw [List.map_flatMap, List.flatMap_map]
      exact List.Perm.flatMap_left _ fun l hl => step_perm h (inside l hl) stays.1

/-- A search follows the names from the first wildcard on. -/
theorem search_under (plain : ∀ name ∈ root.names, isWild name = false) :
    search t (root.under names) = steps t (names.dropWhile (!isWild ·))
      [root.under (names.takeWhile (!isWild ·))] := by
  have taken : (root.under names).names.takeWhile (!isWild ·)
      = root.names ++ names.takeWhile (!isWild ·) :=
    List.takeWhile_append_of_pos fun name hn => by simp [plain name hn]
  have parts : (root.under names).names
      = (root.names ++ names.takeWhile (!isWild ·)) ++ names.dropWhile (!isWild ·) := by
    rw [List.append_assoc, List.takeWhile_append_dropWhile]
    rfl
  unfold search
  dsimp only
  rw [taken, parts, List.drop_left]
  rfl

theorem literal_of_mem_takeWhile {name : String} (h : name ∈ names.takeWhile (!isWild ·)) :
    isWild name = false := by
  simpa using List.mem_takeWhile_imp h

theorem areWritten_dropWhile (written : AreWritten names) :
    AreWritten (names.dropWhile (!isWild ·)) := fun name hn =>
  written name ((List.dropWhile_sublist _).mem hn)

section Search

variable (written : AreWritten names) (stays : staysWithin 0 names = true)

include written stays

/-- The search in the tree alone starts inside it. -/
theorem inside_start : ∃ depth, staysWithin depth (names.dropWhile (!isWild ·)) = true ∧
    Inside depth (top.under (names.takeWhile (!isWild ·))) := by
  rw [← List.takeWhile_append_dropWhile (p := (!isWild ·)) (l := names)] at stays
  obtain ⟨depth, leads, stays⟩ :=
    exists_depth?_of_staysWithin (fun _ hn => literal_of_mem_takeWhile hn) stays
  exact ⟨depth, stays, rfl, fun name hn => written name ((List.takeWhile_sublist _).mem hn),
    depth, leads, le_rfl⟩

/-- What is found lies inside the tree, and a wildcard leads to some name. -/
theorem inside_search (proper : u.IsProper) (wild : ∃ name ∈ names, isWild name = true) :
    ∀ l ∈ search u (top.under names), (∃ depth, Inside depth l) ∧ l.names ≠ [] := by
  obtain ⟨depth, stays, inside⟩ := inside_start written stays
  have more : names.dropWhile (!isWild ·) ≠ [] := by
    obtain ⟨name, hn, wild⟩ := wild
    rw [Ne, List.dropWhile_eq_nil_iff]
    exact fun all => by simpa [wild] using all name hn
  intro l hl
  rw [search_under (by simp [top])] at hl
  obtain ⟨inside, filled⟩ := inside_steps proper (areWritten_dropWhile written) stays
    (List.forall_mem_singleton.2 inside) l hl
  exact ⟨inside, filled more⟩

/-- A search finds in a tree the same, wherever the tree stands. -/
theorem search_perm (h : u.StandsAt t root place) (proper : u.IsProper)
    (plain : ∀ name ∈ root.names, isWild name = false) :
    (search t (root.under names)).Perm
      ((search u (top.under names)).map fun l => root.under l.names) := by
  obtain ⟨depth, stays, inside⟩ := inside_start written stays
  rw [search_under plain, search_under (by simp [top])]
  exact steps_perm h proper (areWritten_dropWhile written) stays
    (List.forall_mem_singleton.2 inside) (.refl _)

end Search

end Glob
end ModelTypes
