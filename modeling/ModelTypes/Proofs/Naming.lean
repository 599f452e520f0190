import ModelTypes.Naming
/-!
# Names of blocks

Taking the plural ending off a word leaves nothing only of the words `""` and `"s"`, and never
leaves `"s"`. So a model with any other name gives names to all blocks below it that are not empty
either.
-/

namespace ModelTypes.Naming

/-- The three ways a word loses its plural ending. -/
theorem singularChars_cases (word : List Char) :
    (∃ stem, word = stem ++ ['s', 's', 'e', 's'] ∧ singularChars word = stem ++ ['s', 's']) ∨
    (∃ stem, word = stem ++ ['s'] ∧ ¬ ['s'] <:+ stem ∧ singularChars word = stem) ∨
    ((['s', 's'] <:+ word ∨ ¬ ['s'] <:+ word) ∧ singularChars word = word) := by
  unfold singularChars
  by_cases h1 : "sses".toList.isSuffixOf word = true
  · rw [if_pos h1]
    obtain ⟨stem, rfl⟩ := List.isSuffixOf_iff_suffix.1 h1
    refine .inl ⟨stem, rfl, ?_⟩
    rw [show stem ++ "sses".toList = (stem ++ ['s', 's']) ++ ['e', 's'] by simp, dropLast]
    exact List.take_left' (by simp)
  · rw [if_neg h1]
    by_cases h2 : (['s'].isSuffixOf word && !(['s', 's'].isSuffixOf word)) = true
    · rw [if_pos h2]
      simp only [Bool.and_eq_true, Bool.not_eq_true', Bool.eq_false_iff, ne_eq,
        List.isSuffixOf_iff_suffix] at h2
      obtain ⟨⟨stem, rfl⟩, hss⟩ := h2
      refine .inr (.inl ⟨stem, rfl, ?_, by simp [dropLast]⟩)
      rintro ⟨t, rfl⟩
      exact hss ⟨t, by simp⟩
    · rw [if_neg h2]
      simp only [Bool.and_eq_true, Bool.not_eq_true', Bool.eq_false_iff, ne_eq,
        List.isSuffixOf_iff_suffix, not_and, Decidable.not_not] at h2
      refine .inr (.inr ⟨?_, rfl⟩)
      by_cases hs : ['s'] <:+ word
      · exact .inl (h2 hs)
      · exact .inr hs

theorem isPrefix_singularChars (word : List Char) : singularChars word <+: word := by
  rcases singularChars_cases word with ⟨stem, rfl, hw⟩ | ⟨stem, rfl, -, hw⟩ | ⟨-, hw⟩
  · exact ⟨['e', 's'], by simp [hw]⟩
  · exact ⟨['s'], by rw [hw]⟩
  · exact ⟨[], by rw [hw, List.append_nil]⟩

theorem singularChars_ne_s (word : List Char) : singularChars word ≠ ['s'] := by
  intro h
  rcases singularChars_cases word with ⟨stem, -, hw⟩ | ⟨stem, -, hs, hw⟩ | ⟨hs, hw⟩ <;> rw [hw] at h
  · have := congrArg List.length h
    simp at this
  · exact hs (by simp [h])
  · subst h
    rcases hs with hs | hs
    · have := hs.length_le
      simp at this
    · simp at hs

theorem eq_of_singularChars_eq_nil {word : List Char} (h : singularChars word = []) :
    word = [] ∨ word = ['s'] := by
  rcases singularChars_cases word with ⟨stem, -, hw⟩ | ⟨stem, rfl, -, hw⟩ | ⟨-, hw⟩ <;> rw [hw] at h
  · simp at h
  · simp [h]
  · exact .inl h

/-- A name under which children are hoisted at every depth. -/
def Proper (model : String) : Prop := model ≠ "" ∧ model ≠ "s"

theorem proper_subdocumentName {model : String} (h : Proper model) (path : String) :
    Proper (subdocumentName path model) := by
  unfold subdocumentName
  refine ⟨fun he => ?_, fun he => singularChars_ne_s _ (String.ofList_injective he)⟩
  obtain ⟨c, cs, hc⟩ : ∃ c cs, model.toList = c :: cs :=
    List.exists_cons_of_ne_nil fun hn => h.1 (String.toList_eq_nil_iff.1 hn)
  rcases eq_of_singularChars_eq_nil (String.ofList_injective he) with hw | hw <;>
    rw [hc, List.cons_append] at hw
  · simp at hw
  · simp only [List.cons.injEq, List.append_eq_nil_iff] at hw
    obtain ⟨rfl, rfl, -⟩ := hw
    exact h.2 (String.toList_inj.1 hc)

end ModelTypes.Naming
