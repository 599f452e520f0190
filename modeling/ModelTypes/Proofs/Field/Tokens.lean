import ModelTypes.Line
import ModelTypes.Proofs.Text.Unquote
/-!
# The words and marks of type texts

`lex` cuts a text into words, string literals and single marks; blanks only keep words apart. A
text in front of another keeps its tokens, unless it ends in a word and the other goes on with it
(`lex_word`).
-/

namespace ModelTypes

/-- A run of word characters, a string literal by its text, or any other character. -/
inductive Token where
  | word (w : String)
  | text (t : String)
  | mark (c : Char)
deriving DecidableEq, Repr

open Line (isWordChar)

/-- The tokens of a text. A quote without an end is a mark. -/
def lex : List Char → List Token
  | [] => []
  | c :: cs =>
    if c.isWhitespace then lex cs
    else if isWordChar c then
      .word (String.ofList (c :: cs.takeWhile isWordChar)) :: lex (cs.dropWhile isWordChar)
    else if c = '"' then
      match _h : Text.readString cs with
      | some (text, rest) => .text (String.ofList text) :: lex rest
      | none => .mark c :: lex cs
    else .mark c :: lex cs
termination_by cs => cs.length
decreasing_by
  · simp
  · exact Nat.lt_succ_of_le (List.dropWhile_sublist _).length_le
  · exact Nat.lt_succ_of_lt (Text.length_of_readString ‹_›)
  · simp
  · simp

/-- No word goes on here. -/
def Apart (rest : List Char) : Prop := ∀ c ∈ rest.head?, isWordChar c = false

/-- A text with at least one character, all of them word characters. -/
def IsWord (w : String) : Prop := w ≠ "" ∧ Line.isBareKey w = true

instance (w : String) : Decidable (IsWord w) := inferInstanceAs (Decidable (_ ∧ _))

variable {c : Char} {w : String} {cs rest : List Char}

theorem apart_nil : Apart [] := by simp [Apart]

theorem apart_cons : Apart (c :: rest) ↔ isWordChar c = false := by simp [Apart]

theorem lex_blank (h : c.isWhitespace = true) : lex (c :: cs) = lex cs := by
  rw [lex, if_pos h]

theorem lex_mark (h : c.isWhitespace = false ∧ isWordChar c = false ∧ c ≠ '"') :
    lex (c :: cs) = .mark c :: lex cs := by
  rw [lex]
  simp [h]

theorem isWordChar_of_isDigit (h : c.isDigit = true) : isWordChar c = true := by
  simp [isWordChar, Char.isAlphanum, h]

theorem isWhitespace_of_isWordChar (h : isWordChar c = true) : c.isWhitespace = false := by
  rw [Bool.eq_false_iff]
  intro blank
  simp only [Char.isWhitespace, Bool.or_eq_true, decide_eq_true_eq] at blank
  rcases blank with ((rfl | rfl) | rfl) | rfl
  all_goals exact absurd h (by decide)

theorem span_apart (hw : cs.all isWordChar = true) (h : Apart rest) :
    (cs ++ rest).takeWhile isWordChar = cs ∧ (cs ++ rest).dropWhile isWordChar = rest := by
  rw [List.takeWhile_append_of_pos (List.all_eq_true.1 hw),
    List.dropWhile_append_of_pos (List.all_eq_true.1 hw)]
  cases rest with
  | nil => simp
  | cons c rest =>
    have hc := apart_cons.1 h
    simp [hc]

theorem lex_word (hw : IsWord w) (h : Apart rest) :
    lex (w.toList ++ rest) = .word w :: lex rest := by
  obtain ⟨c, cs, hcs⟩ : ∃ c cs, w.toList = c :: cs :=
    List.exists_cons_of_ne_nil fun hn => hw.1 (String.toList_eq_nil_iff.1 hn)
  have all := hw.2
  rw [Line.isBareKey, hcs, List.all_cons, Bool.and_eq_true] at all
  obtain ⟨run, after⟩ := span_apart all.2 h
  rw [hcs, List.cons_append, lex, if_neg (by simp [isWhitespace_of_isWordChar all.1]),
    if_pos all.1, run, after, ← hcs, String.ofList_toList]

theorem lex_quote (t : String) (rest : List Char) :
    lex ((Text.quote t).toList ++ rest) = .text t :: lex rest := by
  have literal : (Text.quote t).toList ++ rest
      = '"' :: (t.toList.flatMap Text.escapeChar ++ '"' :: rest) := by
    simp [Text.quote, Text.quoteChars]
  rw [literal, lex, if_neg (by decide), if_neg (by decide), if_pos rfl]
  split
  · rename_i text tail read
    rw [Text.readString_quoted] at read
    cases read
    rw [String.ofList_toList]
  · rename_i fails
    rw [Text.readString_quoted] at fails
    cases fails

end ModelTypes
