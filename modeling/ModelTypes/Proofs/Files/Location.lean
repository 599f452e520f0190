import Mathlib.Data.List.Infix
import Mathlib.Data.List.Lex
import Mathlib.Data.String.Basic
import ModelTypes.Files.Location
import ModelTypes.Proofs.Path
/-!
# Locations below a directory

A location below a directory is the directory and the names that lead on from it. What its text is
compared by lies in those names alone, and while they do not lead out again, taking away the dots in
them leaves the directory as it was.
-/

namespace ModelTypes

namespace Location

/-- The location that names lead to from a directory. -/
def under (root : Location) (names : List String) : Location := ⟨root.anchor, root.names ++ names⟩

/-- The directory that holds all others. -/
def top : Location := ⟨"/", []⟩

variable {root l : Location} {names names' : List String} {base done place : List String}
  {depth end' : Nat}

/-! ## Names that do not lead out -/

/-- The names left of some that lead on from others. -/
def walk (done names : List String) : List String :=
  names.foldl (fun done name => if name == ".." then done.dropLast else done ++ [name]) done

theorem walk_cons {name : String} : walk done (name :: names)
    = walk (if name == ".." then done.dropLast else done ++ [name]) names := rfl

/-- How deep names lead that start at a depth and never go above the directory it is counted from. -/
def depth? : Nat → List String → Option Nat
  | depth, [] => some depth
  | depth, name :: rest =>
    if name = ".." then if depth = 0 then none else depth? (depth - 1) rest
    else depth? (depth + 1) rest

theorem depth?_append (names names' : List String) :
    depth? depth (names ++ names') = (depth? depth names).bind (depth? · names') := by
  induction names generalizing depth with
  | nil => rfl
  | cons name rest ih =>
    simp only [List.cons_append, depth?]
    split_ifs <;> first | rfl | exact ih

/-- Without dots, every name leads one level down. -/
theorem depth?_of_notMem (h : ".." ∉ names) : depth? depth names = some (depth + names.length) := by
  induction names generalizing depth with
  | nil => rfl
  | cons name rest ih =>
    rw [List.mem_cons, not_or] at h
    rw [depth?, if_neg (Ne.symm h.1), ih h.2, List.length_cons]
    congr 1
    omega

/-- A name that does not lead out of a directory leaves what leads there, and so do the names after
it. -/
theorem step_append {name : String} (base : List String)
    (h : depth? done.length (name :: names) = some end') :
    (if name == ".." then (base ++ done).dropLast else base ++ done ++ [name])
      = base ++ (if name == ".." then done.dropLast else done ++ [name]) ∧
    depth? (if name == ".." then done.dropLast else done ++ [name]).length names = some end' := by
  rw [depth?] at h
  by_cases up : name = ".."
  · have filled : done ≠ [] := fun hn => by simp [up, hn] at h
    rw [if_pos up, if_neg (by simpa using filled)] at h
    rw [if_pos (beq_iff_eq.2 up), if_pos (beq_iff_eq.2 up), List.dropLast_append_of_ne_nil filled,
      List.length_dropLast]
    exact ⟨rfl, h⟩
  · rw [if_neg up] at h
    rw [if_neg (mt beq_iff_eq.1 up), if_neg (mt beq_iff_eq.1 up), List.append_assoc]
    exact ⟨rfl, by simpa using h⟩

/-- Names that do not lead out of a directory leave what leads there. -/
theorem walk_append (h : depth? done.length names = some end') :
    walk (base ++ done) names = base ++ walk done names := by
  induction names generalizing done with
  | nil => rfl
  | cons name rest ih =>
    obtain ⟨left, inside⟩ := step_append base h
    rw [walk_cons, walk_cons, left]
    exact ih inside

theorem collapse_eq_walk (names : List String) : collapse names = walk [] names := rfl

theorem collapse_append (h : depth? 0 names = some end') :
    collapse (root.names ++ names) = collapse root.names ++ collapse names := by
  have walked : walk (collapse root.names ++ []) names = collapse root.names ++ walk [] names :=
    walk_append h
  rw [List.append_nil] at walked
  rw [collapse_eq_walk names, ← walked]
  exact List.foldl_append

theorem resolve_under (absolute : root.isAbsolute = true) (h : depth? 0 names = some end') :
    root.resolve (root.under names) = ⟨"/", collapse root.names ++ collapse names⟩ := by
  have same : root.join (root.under names) = root.under names := if_pos absolute
  rw [resolve, same]
  exact congrArg (Location.mk "/") (collapse_append h)

theorem join_of_not_isAbsolute (relative : l.isAbsolute = false) :
    root.join l = root.under l.names := by
  simp [join, relative, under]

/-! ## Texts -/

/-- A directory is named from the root of the file system. -/
def IsAnchored (root : Location) : Prop := root.anchor = "/" ∨ root.anchor = "//"

instance (root : Location) : Decidable root.IsAnchored := inferInstanceAs (Decidable (_ ∨ _))

theorem isAnchored_top : top.IsAnchored := .inl rfl

theorem IsAnchored.isAbsolute (h : root.IsAnchored) : root.isAbsolute = true := by
  rcases h with h | h <;> simp [Location.isAbsolute, h]

theorem intercalate_append {sep : List Char} {words words' : List (List Char)} (h : words ≠ [])
    (h' : words' ≠ []) :
    sep.intercalate (words ++ words') = sep.intercalate words ++ sep ++ sep.intercalate words' := by
  induction words with
  | nil => exact absurd rfl h
  | cons word rest ih =>
    cases rest with
    | nil =>
      obtain ⟨next, others, rfl⟩ := List.exists_cons_of_ne_nil h'
      simp [List.intercalate_cons_cons]
    | cons next others =>
      rw [List.cons_append, List.cons_append, List.intercalate_cons_cons, ← List.cons_append,
        ih (List.cons_ne_nil _ _), List.intercalate_cons_cons]
      simp

/-- The characters of names with separators between them. -/
def chars (names : List String) : List Char := ['/'].intercalate (names.map String.toList)

/-- All texts of locations below a directory start with the same characters. -/
theorem exists_text_under (anchored : root.IsAnchored) : ∃ stem : List Char,
    ∀ names, names ≠ [] → (root.under names).text.toList = stem ++ '/' :: chars names := by
  have written (anchor : String) (names : List String) (filled : names ≠ []) :
      (Location.text ⟨anchor, names⟩).toList = anchor.toList ++ chars names := by
    have text : (if (anchor == "" && names.isEmpty) = true then "."
        else anchor ++ "/".intercalate names) = anchor ++ "/".intercalate names :=
      if_neg (by simp [filled])
    rw [Location.text, text, String.toList_append, String.toList_intercalate]
    rfl
  obtain ⟨stem, hs⟩ : ∃ stem, root.anchor.toList = stem ++ ['/'] := by
    rcases anchored with h | h
    · exact ⟨[], by rw [h]; rfl⟩
    · exact ⟨['/'], by rw [h]; rfl⟩
  by_cases empty : root.names = []
  · refine ⟨stem, fun names filled => ?_⟩
    rw [under, empty, List.nil_append, written _ _ filled, hs]
    simp
  · refine ⟨root.anchor.toList ++ chars root.names, fun names filled => ?_⟩
    rw [under, written _ _ (by simp [filled]), chars, List.map_append,
      intercalate_append (by simpa using empty) (by simpa using filled)]
    simp [chars]

/-- Names that stand between separators. -/
def AreWritten (names : List String) : Prop := ∀ name ∈ names, name ≠ "" ∧ '/' ∉ name.toList

theorem chars_injective (h : AreWritten names) (h' : AreWritten names') (filled : names ≠ [])
    (filled' : names' ≠ []) (same : chars names = chars names') : names = names' := by
  have split {names : List String} (h : AreWritten names) (filled : names ≠ []) :
      (chars names).splitOn '/' = names.map String.toList := by
    refine List.splitOn_intercalate '/' (fun word hw => ?_) (by simpa using filled)
    obtain ⟨name, hn, rfl⟩ := List.mem_map.1 hw
    exact (h name hn).2
  refine List.map_injective_iff.2 (fun _ _ => String.toList_inj.1) ?_
  rw [← split h filled, same, split h' filled']

theorem append_lt_append_iff {stem cs cs' : List Char} : stem ++ cs < stem ++ cs' ↔ cs < cs' := by
  induction stem with
  | nil => rfl
  | cons c stem ih => simpa using ih

theorem text_under_lt_iff (anchored : root.IsAnchored) (filled : names ≠ [])
    (filled' : names' ≠ []) :
    (root.under names).text < (root.under names').text ↔ chars names < chars names' := by
  obtain ⟨stem, hs⟩ := exists_text_under anchored
  rw [String.lt_iff_toList_lt, hs names filled, hs names' filled']
  rw [append_lt_append_iff]
  simp

theorem text_under_injective (anchored : root.IsAnchored) (h : AreWritten names)
    (h' : AreWritten names') (filled : names ≠ []) (filled' : names' ≠ [])
    (same : (root.under names).text = (root.under names').text) : names = names' := by
  obtain ⟨stem, hs⟩ := exists_text_under anchored
  have texts := congrArg String.toList same
  rw [hs names filled, hs names' filled'] at texts
  exact chars_injective h h' filled filled' (List.cons.inj (List.append_cancel_left texts)).2

/-- A text without separators ends another if it ends what follows its last separator. -/
theorem suffix_append_cons_iff {cs stem rest : List Char} (h : '/' ∉ cs) :
    cs <:+ stem ++ '/' :: rest ↔ cs <:+ rest := by
  constructor
  · intro suffix
    by_cases short : cs.length ≤ rest.length
    · exact List.suffix_of_suffix_length_le suffix
        ((List.suffix_cons _ _).trans (List.suffix_append _ _)) short
    · have longer : '/' :: rest <:+ cs :=
        List.suffix_of_suffix_length_le (List.suffix_append _ _) suffix (by simp; omega)
      exact absurd (longer.mem List.mem_cons_self) h
  · intro suffix
    exact suffix.trans ((List.suffix_cons _ _).trans (List.suffix_append _ _))

theorem hasSuffix_under (anchored : root.IsAnchored) {suffix : String}
    (h : '/' ∉ suffix.toList) (filled : names ≠ []) :
    (root.under names).hasSuffix suffix = suffix.toList.isSuffixOf (chars names) := by
  obtain ⟨stem, hs⟩ := exists_text_under anchored
  rw [hasSuffix, hs names filled, Bool.eq_iff_iff, List.isSuffixOf_iff_suffix,
    List.isSuffixOf_iff_suffix]
  exact suffix_append_cons_iff h

/-- A character that separates nothing stands in one of the names. -/
theorem exists_name_of_mem {c : Char} {text : String} (mem : c ∈ text.toList) (inside : c ≠ '/')
    (other : c ≠ '.') : ∃ name ∈ (ofText text).names, c ∈ name.toList := by
  obtain ⟨word, hw, hc⟩ := exists_mem_of_mem_splitChars mem inside
  refine ⟨String.ofList word, List.mem_filter.2 ⟨List.mem_map_of_mem hw, ?_⟩, by simpa using hc⟩
  have held {name : String} (h : String.ofList word = name) : c ∈ name.toList := by
    simpa [← h] using hc
  have filled : String.ofList word ≠ "" := fun h => by simpa using held h
  have noDot : String.ofList word ≠ "." := fun h => by simpa [other] using held h
  simp [filled, noDot]

/-- A text is read as names that can be written. -/
theorem areWritten_ofText (text : String) : AreWritten (ofText text).names := by
  intro name hn
  obtain ⟨split, kept⟩ := List.mem_filter.1 hn
  obtain ⟨word, hw, rfl⟩ := List.mem_map.1 split
  rw [splitChars_eq] at hw
  refine ⟨fun empty => by simp [empty] at kept, ?_⟩
  simpa using notMem_of_mem_splitOn hw

end Location
end ModelTypes
