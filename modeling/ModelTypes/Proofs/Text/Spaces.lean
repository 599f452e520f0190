import ModelTypes.Field.Describe
import ModelTypes.Proofs.Spelling
import ModelTypes.Proofs.Text.Exports
/-!
# Names without white space

Names of blocks and of referenced models are put together from names that are given, with a change
of letter case at most. No other case of a character is white space, so of words they are words.
-/

namespace ModelTypes.Text

variable {c d : Char} {runs : List CaseRun} {expansions : List (Nat × List Nat)} {a b name : String}

/-! ## Letter case -/

theorem isWhitespace_of_lt (h : 32 < c.toNat) : c.isWhitespace = false := by
  have apart (space : Char) (low : space.toNat ≤ 32) : decide (c = space) = false :=
    decide_eq_false (by rintro rfl; omega)
  simp only [Char.isWhitespace, Bool.or_eq_false_iff]
  exact ⟨⟨⟨apart ' ' (by decide), apart '\t' (by decide)⟩, apart '\r' (by decide)⟩,
    apart '\n' (by decide)⟩

theorem isWhitespace_ofNat {n : Nat} (h : 32 < n) : (Char.ofNat n).isWhitespace = false := by
  by_cases valid : n.isValidChar
  · exact isWhitespace_of_lt (by rwa [Char.toNat_ofNat, if_pos valid])
  · rw [Char.ofNat, dif_neg valid]
    decide

/-- No other case of a character is white space, if it is not in ASCII and no other form is so
low. -/
theorem isWhitespace_of_mem_case {ascii : Char → Char}
    (plain : ∀ n < 128, (Char.ofNat n).isWhitespace = false →
      (ascii (Char.ofNat n)).isWhitespace = false)
    (high : ∀ e ∈ expansions, ∀ n ∈ e.2, 32 < n) (shift : ∀ r ∈ runs, 32 < r.first + r.shift)
    (hc : c.isWhitespace = false)
    (h : d ∈ if c.toNat < 128 then [ascii c] else caseForm runs expansions c) :
    d.isWhitespace = false := by
  split at h
  · rw [List.mem_singleton.1 h]
    simpa using plain c.toNat ‹_› (by simpa using hc)
  · rcases mem_caseForm h with ⟨e, he, n, hn, rfl⟩ | ⟨r, hr, first, -, rfl⟩ | rfl
    · exact isWhitespace_ofNat (high e he n hn)
    · have shift := shift r hr
      exact isWhitespace_ofNat (by omega)
    · exact hc

theorem isWhitespace_of_mem_upper (hc : c.isWhitespace = false) (h : d ∈ upper c) :
    d.isWhitespace = false :=
  isWhitespace_of_mem_case (by decide) (by decide +kernel) (by decide +kernel) hc h

theorem isWhitespace_of_mem_lower (hc : c.isWhitespace = false) (h : d ∈ lower c) :
    d.isWhitespace = false :=
  isWhitespace_of_mem_case (by decide) (by decide +kernel) (by decide +kernel) hc h

/-! ## Words -/

theorem isOneWord_append : IsOneWord (a ++ b) ↔ IsOneWord a ∧ IsOneWord b := by
  simp only [IsOneWord, String.toList_append, List.mem_append, or_imp, forall_and]

theorem isOneWord_lowerFirst (h : IsOneWord name) : IsOneWord (Naming.lowerFirst name) := by
  intro c hc
  unfold Naming.lowerFirst at hc
  split at hc
  · cases hc
  · rename_i first rest letters
    rw [IsOneWord, letters, List.forall_mem_cons] at h
    rw [String.toList_ofList, List.mem_append] at hc
    exact hc.elim (isWhitespace_of_mem_lower h.1) (h.2 c)

theorem isOneWord_subdocumentName {path model : String} (h : IsOneWord model)
    (words : ∀ key ∈ Path.segments path, IsOneWord key) :
    IsOneWord (Naming.subdocumentName path model) := by
  intro c hc
  rw [Naming.subdocumentName, String.toList_ofList] at hc
  have part := (Naming.isPrefix_singularChars _).subset hc
  rcases List.mem_append.1 part with own | added
  · exact h c own
  · obtain ⟨word, hw, hc⟩ := List.mem_flatMap.1 added
    have spaceless : ∀ c ∈ word, c.isWhitespace = false := by
      simpa [IsOneWord] using words _ (List.mem_map_of_mem hw)
    cases word with
    | nil => cases hc
    | cons first rest =>
      rw [List.forall_mem_cons] at spaceless
      exact (List.mem_append.1 hc).elim (isWhitespace_of_mem_upper spaceless.1) (spaceless.2 c)

/-- A path of words is a word. -/
theorem isOneWord_path {path : String} (words : ∀ key ∈ Path.segments path, IsOneWord key) :
    IsOneWord path := by
  intro c hc
  by_cases dot : c = '.'
  · rw [dot]
    decide
  · obtain ⟨word, hw, inside⟩ := exists_mem_of_mem_splitChars hc dot
    exact words _ (List.mem_map_of_mem hw) c (by simpa using inside)

end ModelTypes.Text

namespace ModelTypes.Field

open Text (IsOneWord)

variable {s : Store} {key model : String} {ref : Value}

/-- The name that a reference is read as has no white space if the name that it gives has none. -/
theorem isOneWord_referenceName
    (words : ∀ name, ((s.attribute? ref "model_name").getD ref).text? = some name → IsOneWord name)
    (h : referenceName s key ref = .ok model) : IsOneWord model := by
  unfold referenceName at h
  split at h
  · cases h
  rename_i name text
  have whole : IsOneWord name := words name text
  dsimp only at h
  cases h
  have own : ∀ c ∈ name.toList.takeWhile (· != '\'')
      ++ (name.toList.dropWhile (· != '\'')).drop 1, c.isWhitespace = false := by
    intro c hc
    exact (List.mem_append.1 hc).elim
      (fun hc => whole c ((List.takeWhile_sublist _).subset hc))
      fun hc => whole c ((List.dropWhile_sublist _).subset (List.mem_of_mem_drop hc))
  generalize name.toList.takeWhile (· != '\'')
    ++ (name.toList.dropWhile (· != '\'')).drop 1 = plain at own ⊢
  split
  · refine Text.isOneWord_subdocumentName (by simp [IsOneWord]) fun key hk c hc => ?_
    obtain ⟨word, hw, rfl⟩ := List.mem_map.1 hk
    rw [String.toList_ofList] at hw hc
    exact own c ((infix_of_mem_splitChars hw).subset hc)
  · simpa [IsOneWord] using own

end ModelTypes.Field
