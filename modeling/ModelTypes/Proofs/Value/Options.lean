import ModelTypes.Value.Basic
/-!
# What options say

Flags are read off options in two ways: some say `true`, alone or before a message, and some are
there and undefined.
-/

namespace ModelTypes.Store

variable {s : Store} {v : Option Value}

/-- An option says `true` itself, or a list or tuple that it holds begins with `true`. -/
def SaysTrue (s : Store) (v : Option Value) : Prop :=
  v = some (.bool true) ∨ ∃ w items, v = some w ∧ s.sequence? w = some (.bool true :: items)

theorem saysTrue_iff : ((v.bind s.first?).map (·.isTrue)).getD false = true ↔ s.SaysTrue v := by
  have isTrue_iff (w : Value) : w.isTrue = true ↔ w = .bool true := by
    cases w <;> simp [Value.isTrue]
  unfold SaysTrue
  cases v with
  | none => simp
  | some w =>
    unfold first?
    rw [Option.bind_some]
    cases hs : s.sequence? w with
    | none =>
      simp only [Option.map_some, Option.getD_some, isTrue_iff, Option.some.injEq]
      constructor
      · exact .inl
      · rintro (h | ⟨_, items, rfl, hi⟩)
        · exact h
        · simp [hs] at hi
    | some items =>
      have hw : w ≠ .bool true := by
        rintro rfl
        simp [sequence?, items?, tuple?, node?] at hs
      cases items with
      | nil => simp [hw, hs]
      | cons first items => simp [isTrue_iff, hw, hs]

instance : Decidable (s.SaysTrue v) := decidable_of_iff _ saysTrue_iff

/-- An option is there and undefined. -/
def SaysNull (v : Option Value) : Prop := v = some .null

theorem saysNull_iff : (v.map (·.isNull)).getD false = true ↔ SaysNull v := by
  unfold SaysNull
  cases v with
  | none => simp
  | some w => cases w <;> simp [Value.isNull]

instance : Decidable (SaysNull v) := decidable_of_iff _ saysNull_iff

end ModelTypes.Store
