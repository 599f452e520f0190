import Mathlib.Data.List.Basic
import Mathlib.Data.String.Basic
import ModelTypes.Decimal.Double
/-!
# Texts of numbers

A number is written in digits, signs, the point and the letter of its exponent, and begins with a
digit or with its sign.
-/

namespace ModelTypes.Text

/-- The characters of numbers. -/
def IsNumeric (c : Char) : Prop := c.isDigit = true ∨ c ∈ ['.', 'e', '+', '-']

instance (c : Char) : Decidable (IsNumeric c) :=
  inferInstanceAs (Decidable (c.isDigit = true ∨ c ∈ ['.', 'e', '+', '-']))

variable {c : Char}

theorem isNumeric_of_mem_toDigits {n : Nat} (h : c ∈ Nat.toDigits 10 n) : IsNumeric c :=
  .inl (Nat.isDigit_of_mem_toDigits (by decide) (by decide) h)

theorem toList_toString (n : Nat) : (toString n).toList = Nat.toDigits 10 n := by
  show (Nat.repr n).toList = _
  rw [Nat.repr, String.toList_ofList]

theorem isNumeric_int {n : Int} (h : c ∈ (toString n).toList) : IsNumeric c := by
  cases n with
  | ofNat n => exact isNumeric_of_mem_toDigits (toList_toString n ▸ h)
  | negSucc n =>
    rw [show toString (Int.negSucc n) = "-" ++ toString (n + 1) from rfl, String.toList_append,
      List.mem_append] at h
    rcases h with h | h
    · obtain rfl : c = '-' := by simpa using h
      decide
    · exact isNumeric_of_mem_toDigits (toList_toString _ ▸ h)

theorem isNumeric_exponentText {e : Int} (h : c ∈ (Double.exponentText e).toList) :
    IsNumeric c := by
  have digits : c ∈ (toString e.natAbs).toList → IsNumeric c := fun h =>
    isNumeric_of_mem_toDigits (toList_toString _ ▸ h)
  have fixed {text : List Char} (all : (text.all fun c => decide (IsNumeric c)) = true) :
      c ∈ text → IsNumeric c := fun h => of_decide_eq_true (List.all_eq_true.1 all c h)
  unfold Double.exponentText at h
  dsimp only at h
  rw [String.toList_append, List.mem_append] at h
  rcases h with h | h
  · split at h <;> exact fixed (by decide) h
  · split at h
    · rw [String.toList_append, List.mem_append] at h
      exact h.elim (fixed (by decide)) digits
    · exact digits h

theorem isNumeric_magnitudeText {d : Decimal} (h : c ∈ (Double.magnitudeText d).toList) :
    IsNumeric c := by
  have digits : c ∈ Nat.toDigits 10 d.digits → IsNumeric c := isNumeric_of_mem_toDigits
  have before {n : Nat} (h : c ∈ (Nat.toDigits 10 d.digits).take n) : IsNumeric c :=
    digits (List.mem_of_mem_take h)
  have after {n : Nat} (h : c ∈ (Nat.toDigits 10 d.digits).drop n) : IsNumeric c :=
    digits (List.mem_of_mem_drop h)
  have point : c = '.' → IsNumeric c := by rintro rfl; decide
  have zero : c = '0' → IsNumeric c := by rintro rfl; decide
  unfold Double.magnitudeText at h
  dsimp only at h
  split at h
  · rw [String.toList_append, String.toList_ofList, List.mem_append, List.mem_append] at h
    rcases h with (h | h) | h
    · exact before h
    · split at h
      · cases h
      · exact (List.mem_cons.1 h).elim point after
    · exact isNumeric_exponentText h
  · split at h
    · simp only [String.toList_append, String.toList_ofList, List.mem_append,
        List.mem_replicate] at h
      rcases h with (h | h) | h
      · exact digits h
      · exact zero h.2
      · exact (by simpa using h : c = '.' ∨ c = '0').elim point zero
    · split at h
      · simp only [String.toList_append, String.toList_ofList, List.mem_append,
          List.mem_replicate] at h
        rcases h with h | h | h
        · exact (by simpa using h : c = '0' ∨ c = '.').elim zero point
        · exact zero h.2
        · exact digits h
      · simp only [String.toList_ofList, List.mem_append, List.mem_cons] at h
        rcases h with h | h | h
        · exact before h
        · exact point h
        · exact after h

/-- A double is one of two words, or it is written as a number. -/
theorem double_cases (spelling : Double.Spelling) (d : Double) :
    d.text spelling = spelling.nan ∨ d.text spelling = spelling.infinity ∨
      d.text spelling = "-" ++ spelling.infinity ∨
      d.text spelling = Double.magnitudeText d.toDecimal ∨
      d.text spelling = "-" ++ Double.magnitudeText d.toDecimal := by
  unfold Double.text
  split
  · simp
  · split <;> split <;> simp

/-! ## First characters -/

/-- A text begins with a digit or a minus sign. -/
def Signed (cs : List Char) : Prop := ∃ c rest, cs = c :: rest ∧ (c.isDigit = true ∨ c = '-')

theorem signed_toDigits (n : Nat) (more : List Char) : Signed (Nat.toDigits 10 n ++ more) := by
  obtain ⟨c, rest, hc⟩ := List.exists_cons_of_ne_nil (Nat.toDigits_ne_nil (n := n) (b := 10))
  have digit : c.isDigit = true :=
    Nat.isDigit_of_mem_toDigits (by decide) (by decide) (hc ▸ List.mem_cons_self)
  exact ⟨c, rest ++ more, by rw [hc]; rfl, .inl digit⟩

theorem signed_take {n : Nat} {k : Nat} (filled : k ≠ 0) (more : List Char) :
    Signed ((Nat.toDigits 10 n).take k ++ more) := by
  obtain ⟨c, rest, hc, first⟩ := signed_toDigits n []
  rw [List.append_nil] at hc
  obtain ⟨k, rfl⟩ := Nat.exists_eq_succ_of_ne_zero filled
  exact ⟨c, rest.take k ++ more, by rw [hc]; rfl, first⟩

theorem signed_int (n : Int) : Signed (toString n).toList := by
  cases n with
  | ofNat n =>
    have digits := signed_toDigits n []
    rwa [List.append_nil, ← toList_toString] at digits
  | negSucc n =>
    rw [show toString (Int.negSucc n) = "-" ++ toString (n + 1) from rfl, String.toList_append]
    exact ⟨'-', _, rfl, .inr rfl⟩

theorem signed_magnitudeText (d : Decimal) : Signed (Double.magnitudeText d).toList := by
  unfold Double.magnitudeText
  dsimp only
  split
  · rw [String.toList_append, String.toList_ofList, List.append_assoc]
    exact signed_take one_ne_zero _
  · rename_i near
    split
    · rw [String.toList_append, String.toList_ofList, List.append_assoc]
      exact signed_toDigits _ _
    · split
      · rw [String.toList_append]
        exact ⟨'0', _, rfl, .inl rfl⟩
      · rw [String.toList_ofList]
        exact signed_take (by omega) _

end ModelTypes.Text
