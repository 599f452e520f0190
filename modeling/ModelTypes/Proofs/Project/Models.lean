import ModelTypes.Project.Models
import ModelTypes.Proofs.Files.Glob
/-!
# Paths of modules

Patterns that do not lead out of the root give the same names below it wherever the root lies, if
its own names hold no wildcards or no pattern does. The paths stand in the order in which they come
first.
-/

namespace ModelTypes.ModulePaths

open Location (top AreWritten collapse)
open Wildcard (isWild)

variable {t u : FileTree} {root : Location} {place : List String} {pattern : String}
  {patterns : List String}

/-- A pattern that is read from the root and does not lead out of it. -/
def StaysBelow (pattern : String) : Prop :=
  (Location.ofText pattern).isAbsolute = false ∧
    Glob.staysWithin 0 (Location.ofText pattern).names = true

instance (pattern : String) : Decidable (StaysBelow pattern) :=
  inferInstanceAs (Decidable (_ ∧ _))

/-- A pattern has a wildcard if one of its names does. -/
theorem isWild_iff : isWild pattern = true ↔
    ∃ name ∈ (Location.ofText pattern).names, isWild name = true := by
  simp only [isWild, List.any_eq_true]
  constructor
  · rintro ⟨c, hc, special⟩
    have other : c ≠ '/' ∧ c ≠ '.' := by
      constructor <;> rintro rfl <;> exact absurd special (by decide)
    obtain ⟨name, hn, mem⟩ := Location.exists_name_of_mem hc other.1 other.2
    exact ⟨name, hn, c, mem, special⟩
  · rintro ⟨name, hn, c, hc, special⟩
    obtain ⟨word, hw, rfl⟩ := List.mem_map.1 (List.mem_filter.1 hn).1
    exact ⟨c, (infix_of_mem_splitChars hw).mem (by simpa using hc), special⟩

/-! ## Sorted locations -/

theorem not_lt_iff {a b : String} : (!decide (b < a)) = true ↔ a ≤ b := by
  rw [Bool.not_eq_true', decide_eq_false_iff_not, String.not_lt]

theorem pairwise_sorted (ls : List Location) :
    (sorted ls).Pairwise fun a b => a.text ≤ b.text := by
  have trans (a b c : Location) (hab : (!decide (b.text < a.text)) = true)
      (hbc : (!decide (c.text < b.text)) = true) : (!decide (c.text < a.text)) = true :=
    not_lt_iff.2 (String.le_trans (not_lt_iff.1 hab) (not_lt_iff.1 hbc))
  have total (a b : Location) :
      (!decide (b.text < a.text) || !decide (a.text < b.text)) = true := by
    rw [Bool.or_eq_true, not_lt_iff, not_lt_iff]
    exact String.le_total _ _
  exact (List.pairwise_mergeSort trans total ls).imp not_lt_iff.1

/-- Below any directory, locations are sorted alike. -/
theorem sorted_of_perm (anchored : root.IsAnchored) {found found' : List Location}
    (inside : ∀ l ∈ found, (∃ depth, Glob.Inside depth l) ∧ l.names ≠ [])
    (same : found'.Perm (found.map fun l => root.under l.names)) :
    sorted found' = (sorted found).map fun l => root.under l.names := by
  have alike : ∀ a ∈ found, ∀ b ∈ found, (!decide (b.text < a.text))
      = !decide ((root.under b.names).text < (root.under a.names).text) := by
    intro a ha b hb
    obtain ⟨⟨_, ia⟩, fa⟩ := inside a ha
    obtain ⟨⟨_, ib⟩, fb⟩ := inside b hb
    have texts : b.text < a.text ↔ (root.under b.names).text < (root.under a.names).text := by
      rw [Location.text_under_lt_iff anchored fb fa,
        ← Location.text_under_lt_iff Location.isAnchored_top fb fa, ← ia.eq_under, ← ib.eq_under]
    rw [decide_eq_decide.2 texts]
  have mapped : (sorted found).map (fun l => root.under l.names)
      = sorted (found.map fun l => root.under l.names) := List.map_mergeSort alike
  rw [mapped]
  have below {l : Location} (hl : l ∈ found.map fun l => root.under l.names) :
      ∃ names, l = root.under names ∧ AreWritten names ∧ names ≠ [] := by
    obtain ⟨l₀, h₀, rfl⟩ := List.mem_map.1 hl
    obtain ⟨⟨_, own⟩, filled⟩ := inside l₀ h₀
    exact ⟨l₀.names, rfl, own.written, filled⟩
  -- Two texts that are not apart are one, so they name one location.
  have one (a b : Location) (ha : a ∈ sorted found')
      (hb : b ∈ sorted (found.map fun l => root.under l.names)) (hab : a.text ≤ b.text)
      (hba : b.text ≤ a.text) : a = b := by
    obtain ⟨names, rfl, written, filled⟩ :=
      below (same.mem_iff.1 ((List.mergeSort_perm _ _).mem_iff.1 ha))
    obtain ⟨names', rfl, written', filled'⟩ := below ((List.mergeSort_perm _ _).mem_iff.1 hb)
    rw [Location.text_under_injective anchored written written' filled filled'
      (String.le_antisymm hab hba)]
  exact List.Perm.eq_of_pairwise one (pairwise_sorted _) (pairwise_sorted _)
    (((List.mergeSort_perm _ _).trans same).trans (List.mergeSort_perm _ _).symm)

/-! ## Patterns -/

/-- A pattern stands for the same names below any root. -/
theorem ofPattern_resolved (h : u.StandsAt t root place) (proper : u.IsProper)
    (below : StaysBelow pattern)
    (plain : (∀ name ∈ root.names, isWild name = false) ∨ isWild pattern = false) :
    (ofPattern t root pattern).map root.resolve
      = ((ofPattern u top pattern).map fun l => collapse l.names).map
          fun names => ⟨"/", place ++ names⟩ := by
  have resolved {names : List String} {depth : Nat} (leads : Location.depth? 0 names = some depth) :
      root.resolve (root.under names) = ⟨"/", place ++ collapse names⟩ := by
    rw [FileTree.eq_collapse_of_locate? h.located]
    exact Location.resolve_under h.anchored.isAbsolute leads
  have written := Location.areWritten_ofText pattern
  unfold ofPattern
  simp only [Location.join_of_not_isAbsolute below.1]
  by_cases wild : isWild pattern = true
  · have plain' := plain.resolve_right (by simp [wild])
    have inside := Glob.inside_search written below.2 proper (isWild_iff.1 wild)
    have inside' : ∀ l ∈ sorted (Glob.search u (top.under (Location.ofText pattern).names)),
        (∃ depth, Glob.Inside depth l) ∧ l.names ≠ [] := fun l hl =>
      inside l ((List.mergeSort_perm _ _).mem_iff.1 hl)
    rw [if_pos wild, if_pos wild,
      sorted_of_perm h.anchored inside (Glob.search_perm written below.2 h proper plain'),
      List.filter_map, List.map_map, List.map_map]
    have suffixes : ∀ l ∈ sorted (Glob.search u (top.under (Location.ofText pattern).names)),
        ((·.hasSuffix moduleSuffix) ∘ fun l : Location => root.under l.names) l
          = l.hasSuffix moduleSuffix := by
      intro l hl
      obtain ⟨⟨_, own⟩, filled⟩ := inside' l hl
      have free : '/' ∉ moduleSuffix.toList := by decide
      rw [Function.comp_apply, Location.hasSuffix_under h.anchored free filled,
        ← Location.hasSuffix_under Location.isAnchored_top free filled, ← own.eq_under]
    rw [List.filter_congr suffixes]
    refine List.map_congr_left fun l hl => ?_
    obtain ⟨⟨_, own⟩, -⟩ := inside' l (List.mem_filter.1 hl).1
    obtain ⟨_, leads, -⟩ := own.depth
    exact resolved leads
  · have literal (name : String) (hn : name ∈ (Location.ofText pattern).names) :
        isWild name = false :=
      Bool.eq_false_iff.2 fun special => wild (isWild_iff.2 ⟨name, hn, special⟩)
    have stays : Glob.staysWithin 0 ((Location.ofText pattern).names ++ []) = true := by
      simpa using below.2
    obtain ⟨_, leads, -⟩ := Glob.exists_depth?_of_staysWithin literal stays
    rw [if_neg wild, if_neg wild, List.map_singleton, List.map_singleton, List.map_singleton,
      resolved leads]
    rfl

/-- Every location that patterns stand for, pattern by pattern. -/
def candidates (t : FileTree) (root : Location) (patterns : List String) : List Location :=
  (patterns.flatMap (ofPattern t root)).map root.resolve

/-- A tree has its modules at the same names below every root, if no pattern leads out of the root
and wildcards stand in the names of the root or in patterns but not in both. Every location comes
once, in the order in which it first comes up among those of the patterns: the location that a
pattern names is always one of them, those that fit one are the found modules sorted by their texts. -/
theorem ofPatterns_relocates (patterns : List String) :
    (∀ u : FileTree, u.IsProper →
      (∀ pattern ∈ patterns, StaysBelow pattern) →
        ∃ found : List (List String), ∀ (t : FileTree) (root : Location) (place : List String),
          u.StandsAt t root place →
          ((∀ name ∈ root.names, isWild name = false) ∨
            ∀ pattern ∈ patterns, isWild pattern = false) →
          ofPatterns t root patterns = found.map fun names => ⟨"/", place ++ names⟩) ∧
    ∀ (t : FileTree) (root : Location),
      (ofPatterns t root patterns).Nodup ∧
      ((ofPatterns t root patterns).Pairwise fun l l' =>
        (candidates t root patterns).idxOf l < (candidates t root patterns).idxOf l') ∧
      (∀ l, l ∈ ofPatterns t root patterns ↔ l ∈ candidates t root patterns) ∧
      ∀ pattern ∈ patterns,
        (isWild pattern = false →
          root.resolve (root.join (.ofText pattern)) ∈ ofPatterns t root patterns) ∧
        (isWild pattern = true →
          ((ofPattern t root pattern).Pairwise fun l l' => l.text ≤ l'.text) ∧
          ∀ l, l ∈ ofPattern t root pattern ↔
            l ∈ Glob.search t (root.join (.ofText pattern)) ∧ l.hasSuffix moduleSuffix = true) := by
  refine ⟨fun u proper below => ?_, fun t root => ?_⟩
  · refine ⟨(patterns.flatMap fun pattern =>
      (ofPattern u top pattern).map fun l => collapse l.names).eraseDups,
      fun t root place h plain => ?_⟩
    have injective : Function.Injective fun names => (⟨"/", place ++ names⟩ : Location) :=
      fun _ _ same => List.append_cancel_left (congrArg Location.names same)
    have located (pattern : String) (hp : pattern ∈ patterns) :=
      ofPattern_resolved h proper (below pattern hp) (plain.imp_right (· pattern hp))
    rw [ofPatterns, ← List.eraseDups_map injective, List.map_flatMap, List.map_flatMap,
      List.flatMap_congr located]
  · refine ⟨List.nodup_eraseDups _, List.pairwise_idxOf_eraseDups _, fun l => List.mem_eraseDups,
      fun pattern hp => ⟨fun literal => ?_, fun wild => ?_⟩⟩
    · refine List.mem_eraseDups.2 (List.mem_map_of_mem (List.mem_flatMap.2 ⟨pattern, hp, ?_⟩))
      simp [ofPattern, literal]
    · rw [ofPattern, if_pos wild]
      refine ⟨(pairwise_sorted _).filter _, fun l => ?_⟩
      rw [List.mem_filter, sorted, (List.mergeSort_perm _ _).mem_iff]

/-- A tree with one module. -/
def moduleTree : FileTree := { files := [(["models", "user.py"], .bytes [])] }

theorem ofPatterns_relocates_moduleTree :
    moduleTree.IsProper ∧ (∀ pattern ∈ ["models/*.py", "missing.py"], StaysBelow pattern) ∧
      moduleTree.StandsAt (moduleTree.placedAt ["home", "app"]) ⟨"/", ["home", "app"]⟩
        ["home", "app"] ∧
      (∀ name ∈ ["home", "app"], isWild name = false) ∧
      ∃ found : List (List String),
        ofPatterns (moduleTree.placedAt ["home", "app"]) ⟨"/", ["home", "app"]⟩
            ["models/*.py", "missing.py"]
          = found.map fun names => ⟨"/", ["home", "app"] ++ names⟩ := by
  have proper : moduleTree.IsProper := by decide +kernel
  have below : ∀ pattern ∈ ["models/*.py", "missing.py"], StaysBelow pattern := by decide +kernel
  have stands := moduleTree.standsAt_placedAt ["home", "app"] (by decide)
  have plain : ∀ name ∈ ["home", "app"], isWild name = false := by decide
  obtain ⟨found, same⟩ := (ofPatterns_relocates _).1 _ proper below
  exact ⟨proper, below, stands, plain, found, same _ _ _ stands (.inl plain)⟩

/-- Below a directory with a bracket in its name, a wildcard finds nothing. -/
theorem ofPatterns_depends_on_root : ¬ ∀ (u : FileTree) (patterns : List String), u.IsProper →
    (∀ pattern ∈ patterns, StaysBelow pattern) →
      ∃ found : List (List String), ∀ (t : FileTree) (root : Location) (place : List String),
        u.StandsAt t root place →
          ofPatterns t root patterns = found.map fun names => ⟨"/", place ++ names⟩ := by
  intro relocates
  obtain ⟨found, same⟩ := relocates moduleTree ["models/*.py"] (by decide +kernel)
    (by decide +kernel)
  have plain := same _ _ _ (moduleTree.standsAt_placedAt ["p"] (by decide))
  have bracket := same _ _ _ (moduleTree.standsAt_placedAt ["p[1]"] (by decide))
  have some : ofPatterns (moduleTree.placedAt ["p"]) ⟨"/", ["p"]⟩ ["models/*.py"] ≠ [] := by
    decide +kernel
  have none : ofPatterns (moduleTree.placedAt ["p[1]"]) ⟨"/", ["p[1]"]⟩ ["models/*.py"] = [] := by
    decide +kernel
  rw [none] at bracket
  rw [List.map_eq_nil_iff.1 bracket.symm] at plain
  exact some plain

end ModelTypes.ModulePaths
