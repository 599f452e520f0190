import Mathlib
import ModelTypes.Proofs.Naming
import ModelTypes.Proofs.Path
/-!
# What a path adds to a name

The name of a subdocument is its parent's name with the path written after it, segment by segment
in title case and without a plural ending. The ending is the path's own: a title-cased segment does
not begin with a lower case letter, so no plural ending reaches back into the parent's name.
-/

namespace ModelTypes.Text

/-! ## Upper case forms -/

theorem isLower_eq_false_iff {c : Char} : c.isLower = false ↔ c.toNat < 97 ∨ 122 < c.toNat := by
  show (decide (97 ≤ c.toNat) && decide (c.toNat ≤ 122)) = false ↔ _
  simp only [Bool.and_eq_false_iff, decide_eq_false_iff_not]
  omega

theorem isLower_ofNat {n : Nat} (h : n < 97 ∨ 122 < n) : (Char.ofNat n).isLower = false := by
  rw [isLower_eq_false_iff, Char.toNat_ofNat]
  split
  · exact h
  · decide

theorem filled_upperExpansions : ∀ e ∈ upperExpansions, e.2 ≠ [] := by decide +kernel

theorem outside_upperExpansions : ∀ e ∈ upperExpansions, ∀ n ∈ e.2, n < 97 ∨ 122 < n := by
  decide +kernel

theorem shift_upperRuns : ∀ r ∈ upperRuns, r.last + r.shift < 97 ∨ 122 < r.first + r.shift := by
  decide +kernel

theorem mem_of_lookup {expansions : List (Nat × List Nat)} {n : Nat} {form : List Nat}
    (h : expansions.lookup n = some form) : (n, form) ∈ expansions := by
  obtain ⟨before, after, split, -⟩ := List.lookup_eq_some_iff.1 h
  rw [split]
  simp

/-- Where the characters of a case form come from. -/
theorem mem_caseForm {runs : List CaseRun} {expansions : List (Nat × List Nat)} {c d : Char}
    (h : d ∈ caseForm runs expansions c) :
    (∃ e ∈ expansions, ∃ n ∈ e.2, d = Char.ofNat n) ∨
    (∃ r ∈ runs, r.first ≤ c.toNat ∧ c.toNat ≤ r.last ∧
      d = Char.ofNat (c.toNat + r.shift).toNat) ∨ d = c := by
  unfold caseForm at h
  split at h
  · rename_i form hform
    obtain ⟨n, hn, rfl⟩ := List.mem_map.1 h
    exact .inl ⟨_, mem_of_lookup hform, n, hn, rfl⟩
  · split at h
    · rename_i r hr
      have holds := List.find?_some hr
      simp only [CaseRun.holds, Bool.and_eq_true, decide_eq_true_eq] at holds
      exact .inr (.inl ⟨r, List.mem_of_find?_eq_some hr, holds.1.1, holds.1.2,
        List.mem_singleton.1 h⟩)
    · exact .inr (.inr (List.mem_singleton.1 h))

/-- No upper case form holds a lower case letter of ASCII. -/
theorem isLower_of_mem_upper {c d : Char} (h : d ∈ upper c) : d.isLower = false := by
  unfold upper at h
  split at h
  · rw [List.mem_singleton.1 h]
    exact Char.isLower_toUpper_eq_false c
  rename_i hc
  rcases mem_caseForm h with ⟨e, he, n, hn, rfl⟩ | ⟨r, hr, first, last, rfl⟩ | rfl
  · exact isLower_ofNat (outside_upperExpansions e he n hn)
  · have shift := shift_upperRuns r hr
    exact isLower_ofNat (by omega)
  · exact isLower_eq_false_iff.2 (by omega)

theorem upper_ne_nil (c : Char) : upper c ≠ [] := by
  unfold upper caseForm
  split
  · simp
  · split
    · rename_i form hform
      simpa using filled_upperExpansions _ (mem_of_lookup hform)
    · split <;> simp

/-- No upper case form begins with a lower case letter of ASCII. -/
theorem head_upper (c : Char) : ∃ first rest, upper c = first :: rest ∧ first.isLower = false := by
  obtain ⟨first, rest, h⟩ := List.exists_cons_of_ne_nil (upper_ne_nil c)
  exact ⟨first, rest, h, isLower_of_mem_upper (h ▸ List.mem_cons_self)⟩

end ModelTypes.Text

namespace ModelTypes.Naming

/-! ## The spelling of a path -/

/-- A path with a segment that is not empty. -/
def Worded (path : String) : Prop := ∃ c ∈ path.toList, c ≠ '.'

instance (path : String) : Decidable (Worded path) :=
  decidable_of_iff (path.toList.any (· ≠ '.') = true) (by simp [Worded])

/-- The segments of a path in title case, without a plural ending. -/
def spelling (path : String) : List Char :=
  singularChars ((splitChars '.' path.toList).flatMap titleCase)

/-- A word in title case, or several of them, begins with no lower case letter. -/
def Capital (word : List Char) : Prop := ∃ first rest, word = first :: rest ∧ first.isLower = false

theorem capital_flatMap_titleCase {words : List (List Char)} (h : ∃ word ∈ words, word ≠ []) :
    Capital (words.flatMap titleCase) := by
  induction words with
  | nil => simp at h
  | cons word words ih =>
    cases word with
    | nil =>
      have h : ∃ word ∈ words, word ≠ [] := by simpa using h
      simpa [titleCase] using ih h
    | cons c cs =>
      obtain ⟨first, rest, hu, hl⟩ := Text.head_upper c
      exact ⟨first, rest ++ cs ++ words.flatMap titleCase, by simp [titleCase, hu], hl⟩

theorem exists_word_ne_nil {sep c : Char} {cs : List Char} (hc : c ∈ cs) (hne : c ≠ sep) :
    ∃ word ∈ splitChars sep cs, word ≠ [] := by
  induction cs with
  | nil => simp at hc
  | cons d cs ih =>
    rw [splitChars]
    split
    · exact ⟨[d], by simp, by simp⟩
    · rename_i word words hs
      by_cases hd : d = sep
      · have hc : c ∈ cs := (List.mem_cons.1 hc).resolve_left fun he => hne (he.trans hd)
        obtain ⟨w, hw, hn⟩ := ih hc
        rw [if_pos hd]
        exact ⟨w, List.mem_cons_of_mem _ (hs ▸ hw), hn⟩
      · rw [if_neg hd]
        exact ⟨d :: word, List.mem_cons_self, by simp⟩

/-! ## Plural endings -/

/-- A suffix of lower case letters reaches back to a capital at most. -/
theorem suffix_append_iff {ending before word : List Char} (hw : Capital word)
    (he : ∀ c ∈ ending, c.isLower = true) : ending <:+ before ++ word ↔ ending <:+ word := by
  constructor
  · intro h
    rcases List.suffix_or_suffix_of_suffix h (List.suffix_append before word) with h | h
    · exact h
    · obtain ⟨first, rest, rfl, hl⟩ := hw
      have := he first (h.subset List.mem_cons_self)
      simp [hl] at this
  · exact fun h => h.trans (List.suffix_append _ _)

theorem isSuffixOf_append {ending before word : List Char} (hw : Capital word)
    (he : ending.all Char.isLower = true) :
    ending.isSuffixOf (before ++ word) = ending.isSuffixOf word := by
  rw [Bool.eq_iff_iff, List.isSuffixOf_iff_suffix, List.isSuffixOf_iff_suffix,
    suffix_append_iff hw (List.all_eq_true.1 he)]

theorem dropLast_append {n : Nat} {before word : List Char} (h : n ≤ word.length) :
    dropLast n (before ++ word) = before ++ dropLast n word := by
  rw [dropLast, dropLast, List.length_append, Nat.add_sub_assoc h, List.take_length_add_append]

/-- A capital keeps its plural ending to itself. -/
theorem singularChars_append {before word : List Char} (h : Capital word) :
    singularChars (before ++ word) = before ++ singularChars word := by
  have length_le {ending : List Char} (he : ending.isSuffixOf word = true) :
      ending.length ≤ word.length := (List.isSuffixOf_iff_suffix.1 he).length_le
  unfold singularChars
  rw [isSuffixOf_append h (by decide), isSuffixOf_append h (by decide),
    isSuffixOf_append h (by decide)]
  split
  · rename_i hs
    exact dropLast_append (Nat.le_trans (by decide : 2 ≤ "sses".toList.length) (length_le hs))
  · split
    · rename_i hs
      exact dropLast_append (length_le (Bool.and_eq_true_iff.1 hs).1)
    · rfl

theorem capital_words {path : String} (h : Worded path) :
    Capital ((splitChars '.' path.toList).flatMap titleCase) := by
  obtain ⟨c, hc, hne⟩ := h
  exact capital_flatMap_titleCase (exists_word_ne_nil hc hne)

/-- The name of a subdocument is its parent's name and the spelling of its path. -/
theorem toList_subdocumentName {path : String} (h : Worded path) (model : String) :
    (subdocumentName path model).toList = model.toList ++ spelling path := by
  rw [subdocumentName, String.toList_ofList, singularChars_append (capital_words h), spelling]

theorem spelling_ne_nil {path : String} (h : Worded path) : spelling path ≠ [] := by
  intro hn
  obtain ⟨first, rest, hw, hl⟩ := capital_words h
  rcases eq_of_singularChars_eq_nil hn with he | he <;> rw [hw] at he
  · cases he
  · obtain ⟨rfl, -⟩ := List.cons.inj he
    exact absurd hl (by decide)

theorem subdocumentName_ne_empty {path : String} (h : Worded path) (model : String) :
    subdocumentName path model ≠ "" := by
  intro he
  have := toList_subdocumentName h model
  rw [he] at this
  exact spelling_ne_nil h (List.append_eq_nil_iff.1 this.symm).2

end ModelTypes.Naming
