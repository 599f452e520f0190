import ModelTypes.Proofs.Compile.Projections
import ModelTypes.Proofs.Line
/-!
# No field has the empty type

A header says `never` where there is no field to take a type from. No field's type has that text:
whatever a field is, its type has a character that `never` has not (`marked_type`).
-/

namespace ModelTypes

/-! ## Texts that are not `never` -/

/-- A text with a character that is not in `never`. -/
def Marked (text : String) : Prop := ∃ c ∈ text.toList, c ∉ "never".toList

instance (text : String) : Decidable (Marked text) :=
  decidable_of_iff (text.toList.any fun c => !"never".toList.contains c) (by simp [Marked])

variable {s : Store} {p : Projection} {text before after type : String} {c : Char} {v : Value}

theorem Marked.ne_never (h : Marked text) : text ≠ "never" := by
  rintro rfl
  obtain ⟨c, hc, other⟩ := h
  exact other hc

theorem marked_of_mem (h : c ∈ text.toList) (other : c ∉ "never".toList) : Marked text :=
  ⟨c, h, other⟩

theorem marked_append : Marked (before ++ after) ↔ Marked before ∨ Marked after := by
  simp only [Marked, String.toList_append, List.mem_append, or_and_right, exists_or]

theorem Marked.append_left (h : Marked after) : Marked (before ++ after) :=
  marked_append.2 (.inr h)

theorem Marked.append_right (h : Marked before) : Marked (before ++ after) :=
  marked_append.2 (.inl h)

theorem marked_intercalate {sep : String} {texts : List String} (h : text ∈ texts)
    (marked : Marked text) : Marked (sep.intercalate texts) := by
  induction texts with
  | nil => cases h
  | cons first rest ih =>
    cases rest with
    | nil =>
      rw [String.intercalate_singleton]
      exact List.mem_singleton.1 h ▸ marked
    | cons second rest =>
      rw [String.intercalate_cons_cons]
      rcases List.mem_cons.1 h with rfl | h
      · exact marked.append_right.append_right
      · exact (ih h).append_left

/-! ## Literals -/

theorem marked_quote (t : String) : Marked (Text.quote t) :=
  marked_of_mem (c := '"') (by simp [Text.quote, Text.quoteChars]) (by decide)

theorem marked_natText (n : Nat) : Marked (toString n) := by
  show Marked (Nat.repr n)
  obtain ⟨c, hc⟩ := List.exists_mem_of_ne_nil (Nat.toDigits 10 n) (by simp)
  have digit : c.isDigit = true := Nat.isDigit_of_mem_toDigits (by decide) (by decide) hc
  refine marked_of_mem (c := c) (by rwa [Nat.repr, String.toList_ofList]) fun letter => ?_
  have none : "never".toList.any (·.isDigit) = false := by decide
  exact List.any_eq_false.1 none c letter digit

theorem marked_intText (n : Int) : Marked (toString n) := by
  cases n with
  | ofNat n => exact marked_natText n
  | negSucc n =>
    rw [show toString (Int.negSucc n) = "-" ++ toString (n + 1) from rfl]
    exact (marked_natText _).append_left

theorem marked_magnitudeText (d : Decimal) : Marked (Double.magnitudeText d) := by
  unfold Double.magnitudeText
  dsimp only
  split
  · refine Marked.append_left ?_
    unfold Double.exponentText
    dsimp only
    split
    · exact (by decide : Marked "e-").append_right
    · exact (by decide : Marked "e+").append_right
  split
  · exact (by decide : Marked ".0").append_left
  split
  · exact (by decide : Marked "0.").append_right
  · exact marked_of_mem (c := '.') (by simp) (by decide)

theorem marked_doubleText (d : Double) : Marked (d.text literalNumbers) := by
  unfold Double.text
  split
  · decide
  · refine Marked.append_left ?_
    split
    · decide
    · exact marked_magnitudeText _

theorem marked_leafLiteral (h : v.leafLiteral = .ok text) : Marked text := by
  cases v with
  | null =>
    cases h
    decide
  | bool b =>
    cases h
    cases b <;> decide
  | int n =>
    cases h
    exact marked_intText n
  | float d =>
    cases h
    exact marked_doubleText d
  | str t =>
    cases h
    exact marked_quote t
  | kind k =>
    cases h
    exact marked_quote _
  | _ => cases h

theorem marked_literal {o : Outline} (h : o.literal = .ok text) : Marked text := by
  have list {items : List String} : Marked (listLiteral items) :=
    marked_of_mem (c := '[') (by simp [listLiteral]) (by decide)
  cases o with
  | leaf v => exact marked_leafLiteral h
  | list items | tuple items =>
    obtain ⟨texts, -, rfl⟩ := Except.map_eq_ok_iff.1 h
    exact list
  | dict entries =>
    obtain ⟨texts, -, h⟩ := Except.bind_eq_ok_iff.1 h
    cases h
    exact marked_of_mem (c := '\x7b') (by simp) (by decide)
  | again e => cases e <;> cases h
  | _ => cases h

/-- A union of values has a literal, be it `null` alone. -/
theorem marked_enumUnion {values : List Value} (some : values ≠ [])
    (h : Line.enumUnion s values = .ok text) : Marked text := by
  obtain ⟨texts, rfl, filled, members⟩ := Line.exists_of_enumUnion h
  obtain ⟨t, ht⟩ := List.exists_mem_of_ne_nil texts (filled some)
  refine marked_intercalate ht ?_
  rcases members t ht with rfl | ⟨v, -, literal⟩
  · decide
  · exact marked_literal literal

/-! ## Types -/

theorem FieldOf.marked_wrap {σ : Type} (field : FieldOf σ) {document : Bool} (h : Marked type) :
    Marked (field.wrap document type) := by
  have map {type : String} (h : Marked type) : Marked (Line.wrapMap type document) := by
    unfold Line.wrapMap
    split <;> exact h.append_left.append_right
  have array {type : String} (h : Marked type) :
      Marked (Line.wrapArray type document field.isSubdocumentArray) := by
    unfold Line.wrapArray
    split
    · exact h.append_left.append_right
    split
    · exact h.append_left.append_right
    · exact h.append_right
  have either {c : Bool} {a b : String} (ha : Marked a) (hb : Marked b) :
      Marked (if c then a else b) := by
    cases c
    · exact hb
    · exact ha
  have inner := either (c := field.isMap && !field.mapOfArray) (map h) h
  have arrayed := either (c := field.isArray) (array inner) inner
  exact either (c := field.isMap && field.mapOfArray) (map arrayed) arrayed

namespace Render

theorem marked_primitive (kind : PrimitiveKind) : Marked (primitive p kind) := by
  cases kind <;> unfold primitive <;> dsimp only
  case buffer | decimal128 | objectId => split <;> decide
  all_goals decide

theorem marked_scalar {kind : PrimitiveKind} {enum : Option (List Value)}
    (h : scalar s p kind enum = .ok type) : Marked type := by
  unfold scalar at h
  split at h
  case h_1 | h_2 => exact marked_enumUnion (by simp) (Compile.mapError_eq_ok_iff.1 h)
  case h_3 =>
    cases h
    exact marked_primitive kind

/-- Lean types name a hoisted child as its block is named, whatever that is. -/
theorem marked_shape (document : p.document = true) {sh : Shape} (h : shape s p sh = .ok type) :
    Marked type := by
  cases sh with
  | scalar kind enum => exact marked_scalar h
  | nested fields =>
    obtain ⟨body, -, h⟩ := Except.bind_eq_ok_iff.1 h
    cases h
    exact marked_of_mem (c := '\x7b') (by simp) (by decide)
  | reference model idKind =>
    cases h
    unfold reference
    rw [if_pos document]
    exact marked_of_mem (c := '[') (by simp) (by decide)
  | embedded name isArray =>
    cases h
    rw [if_pos document]
    exact (by decide : Marked "Document").append_left
  | virtual =>
    cases h
    decide
  | unknown value => cases h

/-- Every field has a type in a document, and it is not `never`. -/
theorem type?_document (document : p.document = true) {field : Field} {type? : Option String}
    (h : Render.type? s p field = .ok type?) : ∃ type, type? = some type ∧ type ≠ "never" := by
  obtain ⟨key, sh, o, a, m, ma, sa⟩ := field
  by_cases hv : sh = .virtual
  · subst hv
    rw [Render.type?, document] at h
    cases h
    exact ⟨_, rfl, (FieldOf.marked_wrap _ (by decide)).ne_never⟩
  · rw [type?_eq hv] at h
    obtain ⟨type, ht, rfl⟩ := Except.map_eq_ok_iff.1 h
    exact ⟨_, rfl, (FieldOf.marked_wrap _ (marked_shape document ht)).ne_never⟩

end Render
end ModelTypes
