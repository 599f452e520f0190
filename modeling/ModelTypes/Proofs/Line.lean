import ModelTypes.Line
import ModelTypes.Proofs.Result
import ModelTypes.Proofs.Text.Unquote
/-!
# The names of properties

A property is named by an identifier, by a number in decimal or by a literal of its name. A key is
written in one of these ways (`isPropertyName_keyText`) unless it is misread: word characters need
no quotes, so a key that a digit starts stands bare even where it is no number.
-/

namespace ModelTypes.Line

/-- The ways to write the name of a property. -/
inductive IsPropertyName (key : String) : String → Prop where
  | identifier {c : Char} {cs : List Char} (chars : key.toList = c :: cs)
      (first : c.isAlpha = true ∨ c = '_') (rest : ∀ d ∈ cs, isWordChar d = true) :
      IsPropertyName key key
  | number (n : Nat) (decimal : key = toString n) : IsPropertyName key key
  | literal {text : String} {cs : List Char} (opens : text.toList = '"' :: cs)
      (reads : Text.readString cs = some (key.toList, [])) : IsPropertyName key text

/-- A bare key that a digit starts and that is no number in decimal. -/
structure IsMisread (key : String) : Prop where
  bare : isBareKey key = true
  digit : key.toList.head?.any Char.isDigit = true
  noNumber : ∀ n : Nat, key ≠ toString n

variable {key type : String} {optional newline : Bool}

theorem isDigit_of_mem_toString {n : Nat} {c : Char} (h : c ∈ (toString n).toList) :
    c.isDigit = true := by
  rw [show toString n = n.repr from rfl, Nat.toList_repr] at h
  exact Nat.isDigit_of_mem_toDigits (by decide) (by decide) h

theorem isPropertyName_quote (key : String) : IsPropertyName key (Text.quote key) := by
  refine .literal ?_ (Text.readString_quoted key.toList [])
  simp [Text.quote, Text.quoteChars]

/-- A bare key is an identifier or a number, or it is misread. -/
theorem isPropertyName_of_isBareKey (filled : key ≠ "") (bare : isBareKey key = true) :
    IsPropertyName key key ∨ IsMisread key := by
  obtain ⟨c, cs, chars⟩ : ∃ c cs, key.toList = c :: cs :=
    List.exists_cons_of_ne_nil fun hn => filled (String.toList_eq_nil_iff.1 hn)
  have words := bare
  rw [isBareKey, chars, List.all_cons, Bool.and_eq_true, List.all_eq_true] at words
  by_cases digit : c.isDigit = true
  · by_cases decimal : ∃ n : Nat, key = toString n
    · obtain ⟨n, decimal⟩ := decimal
      exact .inl (.number n decimal)
    · exact .inr ⟨bare, by simpa [chars] using digit, not_exists.1 decimal⟩
  · have first : c.isAlpha = true ∨ c = '_' := by
      simpa [isWordChar, Char.isAlphanum, digit] using words.1
    exact .inl (.identifier chars first words.2)

/-- A key is written as a name of the property, or stands as it is and is misread. -/
theorem isPropertyName_keyText (filled : key ≠ "") :
    IsPropertyName key (keyText key) ∨ IsMisread key ∧ keyText key = key := by
  unfold keyText
  split
  · rename_i bare
    exact (isPropertyName_of_isBareKey filled bare).imp_right (⟨·, rfl⟩)
  · exact .inl (isPropertyName_quote key)

/-- An identifier does not start with a digit. -/
theorem isDigit_eq_false_of_first {c : Char} (first : c.isAlpha = true ∨ c = '_') :
    c.isDigit = false := by
  rcases first with letter | rfl
  · have letter : (decide (65 ≤ c.toNat ∧ c.toNat ≤ 90)
        || (decide (97 ≤ c.toNat) && decide (c.toNat ≤ 122))) = true := letter
    show (decide (48 ≤ c.toNat) && decide (c.toNat ≤ 57)) = false
    simp only [Bool.or_eq_true, Bool.and_eq_true, Bool.and_eq_false_iff, decide_eq_true_eq,
      decide_eq_false_iff_not] at letter ⊢
    omega
  · decide

theorem IsMisread.not_isPropertyName (h : IsMisread key) : ¬ IsPropertyName key key := by
  have digit := h.digit
  rintro (⟨chars, first, -⟩ | ⟨n, decimal⟩ | ⟨opens, -⟩)
  · rw [chars, List.head?_cons, Option.any_some, isDigit_eq_false_of_first first] at digit
    cases digit
  · exact h.noNumber n decimal
  · rw [opens] at digit
    cases digit

/-- A bare key that a digit starts is misread if it has other characters than digits. -/
theorem isMisread_of_mem (bare : isBareKey key = true)
    (digit : key.toList.head?.any Char.isDigit = true) {c : Char} (mem : c ∈ key.toList)
    (other : c.isDigit = false) : IsMisread key := by
  refine ⟨bare, digit, fun n decimal => ?_⟩
  rw [isDigit_of_mem_toString (decimal ▸ mem)] at other
  cases other

/-! ## Declaration lines -/

/-- A line that gives a key its type. It starts with a name of the property, or with the key if that
is misread; without a key the type stands alone. -/
inductive IsLine (key type : String) (optional newline : Bool) : String → Prop where
  | named {name : String} (filled : key ≠ "")
      (starts : IsPropertyName key name ∨ IsMisread key ∧ name = key) :
      IsLine key type optional newline
        (name ++ (if optional then "?" else "") ++ ": " ++ type ++ ";"
          ++ (if newline then "\n" else ""))
  | unnamed (empty : key = "") :
      IsLine key type optional newline (type ++ ";" ++ (if newline then "\n" else ""))

theorem isLine_entry : IsLine key type optional newline (entry key type optional newline) := by
  unfold entry
  by_cases empty : key = ""
  · subst empty
    exact .unnamed rfl
  · rw [if_neg (by simpa using empty)]
    exact .named empty (isPropertyName_keyText empty)

/-! ## Unions -/

/-- A union joins the literals of its values, of which there is one for every value but `null`, and
one for all of that. -/
theorem exists_of_enumUnion {s : Store} {values : List Value} {text : String}
    (h : enumUnion s values = .ok text) : ∃ texts, text = " | ".intercalate texts ∧
      (values ≠ [] → texts ≠ []) ∧
      ∀ t ∈ texts, t = "null" ∨ ∃ v ∈ values, s.literal (enumValue s v) = .ok t := by
  obtain ⟨literals, hl, h⟩ := Except.bind_eq_ok_iff.1 h
  cases h
  refine ⟨_, rfl, fun filled => ?_, fun t ht => ?_⟩
  · obtain ⟨v, hv⟩ := List.exists_mem_of_ne_nil values filled
    have hv := List.mem_map_of_mem (f := enumValue s) hv
    cases hn : (enumValue s v).isNull with
    | true =>
      rw [if_pos (List.any_eq_true.2 ⟨_, hv, hn⟩)]
      simp
    | false =>
      obtain ⟨literal, mem, -⟩ := Except.exists_mem_of_mapM hl _
        (List.mem_filter.2 ⟨hv, by rw [hn]; rfl⟩)
      exact List.append_ne_nil_of_left_ne_nil (List.ne_nil_of_mem mem) _
  · rcases List.mem_append.1 ht with ht | ht
    · obtain ⟨w, hw, literal⟩ := Except.exists_of_mem_mapM hl _ ht
      obtain ⟨v, hv, rfl⟩ := List.mem_map.1 (List.mem_filter.1 hw).1
      exact .inr ⟨v, hv, literal⟩
    · split at ht
      · exact .inl (List.mem_singleton.1 ht)
      · cases ht

end ModelTypes.Line
