import Mathlib.Data.List.Basic
import ModelTypes.Path
/-!
# Dotted paths

A path is its segments: they determine it, joining two paths by a dot joins their segments, and a
path lies below another if its segments go on where the other's end.
-/

namespace ModelTypes

theorem notMem_of_mem_splitOn {sep : Char} {cs word : List Char} (h : word ∈ cs.splitOn sep) :
    sep ∉ word := by
  induction cs generalizing word with
  | nil => simp_all
  | cons c cs ih =>
    rw [List.splitOn_cons_eq_if_modifyHead] at h
    obtain ⟨first, words, hw⟩ := List.exists_cons_of_ne_nil (List.splitOn_ne_nil sep cs)
    rw [hw] at h ih
    -- A separator starts a new word, any other character joins the first one.
    by_cases hc : c = sep
    · rcases List.mem_cons.1 (show word ∈ [] :: first :: words by simpa [hc] using h) with rfl | h
      · simp
      · exact ih h
    · rcases List.mem_cons.1 (by simpa [hc] using h) with rfl | h
      · simpa [Ne.symm hc] using ih List.mem_cons_self
      · exact ih (List.mem_cons_of_mem _ h)

theorem splitChars_eq (sep : Char) (cs : List Char) : splitChars sep cs = cs.splitOn sep := by
  induction cs with
  | nil => simp [splitChars]
  | cons c cs ih =>
    obtain ⟨word, words, hw⟩ := List.exists_cons_of_ne_nil (List.splitOn_ne_nil sep cs)
    rw [List.splitOn_cons_eq_if_modifyHead, splitChars, ih, hw]
    by_cases h : c = sep <;> simp [h]

theorem infix_intercalate {sep word : List Char} {words : List (List Char)} (h : word ∈ words) :
    word <:+: sep.intercalate words := by
  induction words with
  | nil => cases h
  | cons first rest ih =>
    cases rest with
    | nil => simp [List.mem_singleton.1 h]
    | cons next others =>
      rw [List.intercalate_cons_cons]
      rcases List.mem_cons.1 h with rfl | h
      · exact ⟨[], sep ++ sep.intercalate (next :: others), by simp⟩
      · exact (ih h).trans (List.suffix_append _ _).isInfix

/-- What stands between separators stands in the text. -/
theorem infix_of_mem_splitChars {sep : Char} {cs word : List Char} (h : word ∈ splitChars sep cs) :
    word <:+: cs := by
  have parts : word <:+: [sep].intercalate (splitChars sep cs) := infix_intercalate h
  rwa [splitChars_eq, List.intercalate_splitOn] at parts

/-- A character that separates nothing stands in one of the stretches. -/
theorem exists_mem_of_mem_splitChars {sep c : Char} {cs : List Char} (h : c ∈ cs) (other : c ≠ sep) :
    ∃ word ∈ splitChars sep cs, c ∈ word := by
  induction cs with
  | nil => cases h
  | cons d cs ih =>
    obtain ⟨first, words, hw⟩ : ∃ first words, splitChars sep cs = first :: words := by
      rw [splitChars_eq]
      exact List.exists_cons_of_ne_nil (List.splitOn_ne_nil sep cs)
    rw [hw] at ih
    simp only [splitChars, hw]
    rcases List.mem_cons.1 h with rfl | h
    · exact ⟨c :: first, by simp [other], List.mem_cons_self⟩
    · obtain ⟨word, mem, hc⟩ := ih h
      split
      · exact ⟨word, List.mem_cons_of_mem _ mem, hc⟩
      · rcases List.mem_cons.1 mem with rfl | mem
        · exact ⟨d :: word, List.mem_cons_self, List.mem_cons_of_mem _ hc⟩
        · exact ⟨word, List.mem_cons_of_mem _ mem, hc⟩

namespace Path

/-- A key without a dot is one segment. -/
def DotFree (key : String) : Prop := '.' ∉ key.toList

instance (key : String) : Decidable (DotFree key) := inferInstanceAs (Decidable (_ ∉ _))

theorem segments_ne_nil (path : String) : segments path ≠ [] := by
  simp [segments, splitText, splitChars_eq]

theorem segments_of_dotFree {key : String} (h : DotFree key) : segments key = [key] := by
  simp [segments, splitText, splitChars_eq, List.splitOn_eq_singleton h]

theorem segments_append (path rest : String) :
    segments (path ++ "." ++ rest) = segments path ++ segments rest := by
  have h : (path ++ "." ++ rest).toList = path.toList ++ '.' :: rest.toList := by simp
  simp only [segments, splitText, splitChars_eq, h, List.splitOn_append_cons_self, List.map_append]

theorem segments_injective {path path' : String} (h : segments path = segments path') :
    path = path' := by
  simp only [segments, splitText, splitChars_eq] at h
  have hs := List.map_injective_iff.2 (fun _ _ he => String.ofList_injective he) h
  have := congrArg (List.intercalate ['.']) hs
  rw [List.intercalate_splitOn, List.intercalate_splitOn] at this
  exact String.toList_inj.1 this

theorem segments_inj {path path' : String} : segments path = segments path' ↔ path = path' :=
  ⟨segments_injective, fun h => h ▸ rfl⟩

/-- The path with given segments. -/
def dotted : List String → String
  | [] => ""
  | [key] => key
  | key :: rest => key ++ "." ++ dotted rest

theorem dotted_cons {key : String} {keys : List String} (h : keys ≠ []) :
    dotted (key :: keys) = key ++ "." ++ dotted keys := by
  cases keys with
  | nil => exact absurd rfl h
  | cons next rest => rfl

/-- Any keys without dots are the segments of a path. -/
theorem segments_dotted {keys : List String} (hne : keys ≠ []) (h : ∀ key ∈ keys, DotFree key) :
    segments (dotted keys) = keys := by
  induction keys with
  | nil => exact absurd rfl hne
  | cons key keys ih =>
    have hkey := segments_of_dotFree (h key List.mem_cons_self)
    by_cases hn : keys = []
    · rw [hn]; exact hkey
    · rw [dotted_cons hn, segments_append, hkey, List.singleton_append,
        ih hn fun k hk => h k (List.mem_cons_of_mem _ hk)]

theorem dotFree_of_mem_segments {path key : String} (h : key ∈ segments path) : DotFree key := by
  simp only [segments, splitText, splitChars_eq, List.mem_map] at h
  obtain ⟨word, hw, rfl⟩ := h
  simpa [DotFree] using notMem_of_mem_splitOn hw

theorem dotted_segments (path : String) : dotted (segments path) = path :=
  segments_injective (segments_dotted (segments_ne_nil path) fun _ => dotFree_of_mem_segments)

theorem isBelow_iff {top path : String} :
    isBelow top path = true ↔ ∃ rest, path = top ++ "." ++ rest := by
  unfold isBelow
  rw [List.isPrefixOf_iff_prefix]
  constructor
  · rintro ⟨rest, h⟩
    refine ⟨String.ofList rest, String.toList_inj.1 ?_⟩
    simp [← h]
  · rintro ⟨rest, rfl⟩
    exact ⟨rest.toList, by simp⟩

theorem below?_append (top rest : String) : below? top (top ++ "." ++ rest) = some rest := by
  have h : (top ++ "." ++ rest).toList = (top.toList ++ ['.']) ++ rest.toList := by simp
  unfold below?
  rw [if_pos (isBelow_iff.2 ⟨rest, rfl⟩), h, List.drop_left' (by simp [String.length_toList]),
    String.ofList_toList]

theorem below?_eq_some_iff {top path rest : String} :
    below? top path = some rest ↔ path = top ++ "." ++ rest := by
  constructor
  · intro h
    by_cases hb : isBelow top path = true
    · obtain ⟨r, rfl⟩ := isBelow_iff.1 hb
      rw [below?_append] at h
      rw [Option.some.inj h]
    · simp [below?, hb] at h
  · rintro rfl
    exact below?_append top rest

/-- A path is at or below another if its segments start with the other's. -/
theorem segments_prefix_iff {top path : String} :
    segments top <+: segments path ↔ path = top ∨ isBelow top path = true := by
  constructor
  · rintro ⟨keys, h⟩
    -- The segments that go on are a path themselves, since they hold no dots.
    by_cases hk : keys = []
    · subst hk
      exact .inl (segments_injective (by simpa using h.symm))
    · have hm : ∀ key ∈ keys, key ∈ segments path := fun key hm => by
        rw [← h]; exact List.mem_append_right _ hm
      have hr := segments_dotted hk fun key hk => dotFree_of_mem_segments (hm key hk)
      refine .inr (isBelow_iff.2 ⟨dotted keys, segments_injective ?_⟩)
      rw [segments_append, hr, h]
  · rintro (rfl | h)
    · exact List.prefix_rfl
    · obtain ⟨rest, rfl⟩ := isBelow_iff.1 h
      exact ⟨segments rest, (segments_append _ _).symm⟩

end Path
end ModelTypes
