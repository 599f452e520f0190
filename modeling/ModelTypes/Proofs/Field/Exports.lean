import ModelTypes.Field.Render
import ModelTypes.Proofs.Field.Origins
import ModelTypes.Proofs.Line
import ModelTypes.Proofs.Text.Numbers
import ModelTypes.Proofs.Text.Spaces
/-!
# Fields export nothing

Keys and texts of enumerations are quoted where they could break a line or begin one as an export
does. Names of models and of children stand as they are. So if these are words, the lines of a field
export nothing, and neither do those of the objects in its type (`exports_lines`).
-/

namespace ModelTypes

open Text (IsOneWord Inline Aside Exports)

variable {s : Store} {p : Projection} {key type text a b : String} {v : Value}

/-! ## Literals -/

theorem Text.unbroken_append : '\n' ∉ (a ++ b).toList ↔ '\n' ∉ a.toList ∧ '\n' ∉ b.toList := by
  rw [String.toList_append, List.mem_append, not_or]

theorem Text.unbroken_quote (t : String) : '\n' ∉ (Text.quote t).toList := by
  have escaped (c : Char) : '\n' ∉ Text.escapeChar c := by
    intro inside
    rcases Text.escapeChar_cases c with ⟨e, -, named, h⟩ | ⟨small, h⟩ | ⟨-, -, large, h⟩ <;>
      rw [h] at inside
    · obtain rfl : '\n' = e := by simpa using inside
      cases named
    · have units : ∀ n < 32, '\n' ∉ Text.escapeUnit n := by decide
      exact units _ small inside
    · obtain rfl : '\n' = c := by simpa using inside
      exact large (by decide)
  simp [Text.quote, Text.quoteChars, escaped]

theorem Text.aside_quote (t : String) : Aside (Text.quote t).toList := by
  rw [Text.quote, String.toList_ofList]
  exact Text.aside_cons (by decide)

theorem Text.Signed.aside {cs : List Char} (h : Text.Signed cs) : Aside cs := by
  obtain ⟨c, rest, rfl, first⟩ := h
  refine Text.aside_cons ?_
  rintro rfl
  exact absurd first (by decide)

theorem unbroken_leafLiteral (h : v.leafLiteral = .ok text) : '\n' ∉ text.toList := by
  have number {t : List Char} (numeric : ∀ c ∈ t, Text.IsNumeric c) : '\n' ∉ t := fun inside =>
    absurd (numeric _ inside) (by decide)
  cases v with
  | null =>
    cases h
    decide
  | bool b =>
    cases h
    cases b <;> decide
  | int n =>
    cases h
    exact number fun _ => Text.isNumeric_int
  | float d =>
    cases h
    have magnitude := number (t := (Double.magnitudeText d.toDecimal).toList) fun _ =>
      Text.isNumeric_magnitudeText
    rcases Text.double_cases literalNumbers d with h | h | h | h | h <;> rw [h]
    · decide
    · decide
    · decide
    · exact magnitude
    · simp [magnitude]
  | str t | kind k =>
    cases h
    exact Text.unbroken_quote _
  | _ => cases h

theorem aside_leafLiteral (h : v.leafLiteral = .ok text) : Aside text.toList := by
  cases v with
  | null =>
    cases h
    exact Text.aside_cons (by decide)
  | bool b =>
    cases h
    cases b <;> exact Text.aside_cons (by decide)
  | int n =>
    cases h
    exact (Text.signed_int n).aside
  | float d =>
    cases h
    have magnitude := (Text.signed_magnitudeText d.toDecimal).aside
    rcases Text.double_cases literalNumbers d with h | h | h | h | h <;> rw [h]
    · exact Text.aside_cons (by decide)
    · exact Text.aside_cons (by decide)
    · exact Text.aside_cons (by decide)
    · exact magnitude
    · rw [String.toList_append]
      exact Text.aside_cons (by decide)
  | str t | kind k =>
    cases h
    exact Text.aside_quote _
  | _ => cases h

theorem unbroken_intercalate {sep : String} {texts : List String} (hs : '\n' ∉ sep.toList)
    (h : ∀ t ∈ texts, '\n' ∉ t.toList) : '\n' ∉ (sep.intercalate texts).toList := by
  induction texts with
  | nil => simp
  | cons first rest ih =>
    obtain ⟨own, others⟩ := List.forall_mem_cons.1 h
    cases rest with
    | nil => simpa using own
    | cons next more =>
      rw [String.intercalate_cons_cons, Text.unbroken_append, Text.unbroken_append]
      exact ⟨⟨own, hs⟩, ih others⟩

theorem unbroken_between {opening closing : String} (h : '\n' ∉ text.toList)
    (ho : '\n' ∉ opening.toList := by decide) (hc : '\n' ∉ closing.toList := by decide) :
    '\n' ∉ (opening ++ text ++ closing).toList := by
  rw [Text.unbroken_append, Text.unbroken_append]
  exact ⟨⟨ho, h⟩, hc⟩

mutual

theorem unbroken_literal : ∀ (o : Outline) {text : String}, o.literal = .ok text →
    '\n' ∉ text.toList
  | .leaf v, _, h => unbroken_leafLiteral h
  | .list items, _, h | .tuple items, _, h => by
    obtain ⟨texts, ht, rfl⟩ := Except.map_eq_ok_iff.1 h
    exact unbroken_between (unbroken_intercalate (by decide) (unbroken_itemLiterals items ht))
  | .dict entries, _, h => by
    obtain ⟨texts, ht, h⟩ := Except.bind_eq_ok_iff.1 h
    cases h
    exact unbroken_between (unbroken_intercalate (by decide) (unbroken_entryLiterals entries ht))
  | .object _, _, h | .model _ _, _, h | .embedded _ _, _, h | .enumeration _, _, h
  | .member _ _ _, _, h => by cases h
  | .again e, _, h => by cases e <;> cases h

theorem unbroken_itemLiterals : ∀ (items : List Outline) {texts : List String},
    itemLiterals items = .ok texts → ∀ t ∈ texts, '\n' ∉ t.toList
  | [], _, h => by
    cases h
    simp
  | item :: rest, _, h => by
    obtain ⟨first, hf, h⟩ := Except.bind_eq_ok_iff.1 h
    obtain ⟨others, ho, h⟩ := Except.bind_eq_ok_iff.1 h
    cases h
    exact List.forall_mem_cons.2 ⟨unbroken_literal item hf, unbroken_itemLiterals rest ho⟩

theorem unbroken_entryLiterals : ∀ (entries : List (String × Outline)) {texts : List String},
    entryLiterals entries = .ok texts → ∀ t ∈ texts, '\n' ∉ t.toList
  | [], _, h => by
    cases h
    simp
  | (k, v) :: rest, _, h => by
    obtain ⟨first, hf, h⟩ := Except.bind_eq_ok_iff.1 h
    obtain ⟨others, ho, h⟩ := Except.bind_eq_ok_iff.1 h
    cases h
    refine List.forall_mem_cons.2 ⟨?_, unbroken_entryLiterals rest ho⟩
    rw [Text.unbroken_append, Text.unbroken_append]
    exact ⟨⟨Text.unbroken_quote k, by decide⟩, unbroken_literal v hf⟩

end

theorem aside_literal {o : Outline} (h : o.literal = .ok text) : Aside text.toList := by
  cases o with
  | leaf v => exact aside_leafLiteral h
  | list items | tuple items =>
    obtain ⟨texts, -, rfl⟩ := Except.map_eq_ok_iff.1 h
    rw [listLiteral, String.toList_append, String.toList_append]
    exact Text.aside_cons (by decide)
  | dict entries =>
    obtain ⟨texts, -, h⟩ := Except.bind_eq_ok_iff.1 h
    cases h
    rw [String.toList_append, String.toList_append]
    exact Text.aside_cons (by decide)
  | again e => cases e <;> cases h
  | _ => cases h

/-! ## The pieces of a line -/

namespace Line

theorem aside_intercalate {sep : String} {texts : List String} (filled : texts ≠ [])
    (h : ∀ t ∈ texts, Aside t.toList) : Aside (sep.intercalate texts).toList := by
  obtain ⟨first, rest, rfl⟩ := List.exists_cons_of_ne_nil filled
  have start := h first List.mem_cons_self
  cases rest with
  | nil => simpa using start
  | cons next more =>
    rw [String.intercalate_cons_cons, String.toList_append, String.toList_append,
      List.append_assoc]
    exact start.append _

/-- A union of literals is one line, and begins with the first of them. -/
theorem inline_enumUnion {values : List Value} (filled : values ≠ [])
    (union : enumUnion s values = .ok text) : Inline text.toList := by
  obtain ⟨texts, rfl, some, members⟩ := exists_of_enumUnion union
  have members : ∀ t ∈ texts, '\n' ∉ t.toList ∧ Aside t.toList := fun t ht => by
    rcases members t ht with rfl | ⟨v, -, literal⟩
    · exact ⟨by decide, Text.aside_cons (by decide)⟩
    · exact ⟨unbroken_literal _ literal, aside_literal literal⟩
  exact .of_aside (unbroken_intercalate (by decide) fun t ht => (members t ht).1)
    (aside_intercalate (some filled) fun t ht => (members t ht).2)

/-- A key does not begin its line as an export does. -/
theorem leads_key (key : String) (optional : Bool) :
    Text.Leads (keyText key ++ (if optional then "?" else "") ++ ": ").toList none := by
  have mark : '\n' ∉ ((if optional then "?" else "") ++ ": ").toList ∧
      ∃ c rest, ((if optional then "?" else "") ++ ": ").toList = c :: rest ∧
        c ∉ Text.exportMark := by
    cases optional
    · exact ⟨by decide, ':', [' '], rfl, by decide⟩
    · exact ⟨by decide, '?', [':', ' '], rfl, by decide⟩
  obtain ⟨unbroken, c, rest, start, other⟩ := mark
  rw [String.append_assoc]
  unfold keyText
  split
  · rename_i bare
    have chars : ∀ c ∈ key.toList, isWordChar c = true := List.all_eq_true.1 bare
    have unspaced {c : Char} (space : isWordChar c = false) : c ∉ key.toList := fun inside => by
      rw [chars c inside] at space
      cases space
    refine Text.Aside.leads ?_ (Text.unbroken_append.2 ⟨unspaced (by decide), unbroken⟩)
    rw [String.toList_append, start]
    exact Text.aside_of_notMem (unspaced (by decide)) other
  · refine Text.Aside.leads ?_ (Text.unbroken_append.2 ⟨Text.unbroken_quote key, unbroken⟩)
    rw [String.toList_append]
    exact (Text.aside_quote key).append _

/-- The line of a key exports nothing; without a key it is the type alone. -/
theorem exports_entry {optional : Bool} (h : Inline type.toList) :
    Exports (entry key type optional).toList [] := by
  unfold entry
  split
  · have alone := h.silent (t := [';']) (by decide) (by decide)
    simpa using alone
  · have line := h.exports (leads_key key optional) (t := [';']) (by decide)
    simpa [String.append_assoc] using line

theorem inline_wrapMap (document : Bool) (h : Inline type.toList) :
    Inline (wrapMap type document).toList := by
  unfold wrapMap
  split <;> rw [String.toList_append, String.toList_append] <;>
    exact h.between (by decide) (by decide) (.inl (Text.aside_cons (by decide)))

theorem inline_wrapArray (document subdocument : Bool) (h : Inline type.toList) :
    Inline (wrapArray type document subdocument).toList := by
  unfold wrapArray
  split
  · rw [String.toList_append, String.toList_append]
    refine h.between ?_ (by decide) (.inl ?_)
    · cases subdocument <;> decide
    · cases subdocument <;> exact Text.aside_cons (by decide)
  · split
    · rw [String.toList_append, String.toList_append]
      exact h.between (by decide) (by decide) (.inl (Text.aside_cons (by decide)))
    · rw [String.toList_append]
      exact h.between (l := []) (by decide) (by decide) (.inr ⟨rfl, by decide⟩)

end Line

theorem FieldOf.inline_wrap {σ : Type} (field : FieldOf σ) (document : Bool)
    (h : Inline type.toList) : Inline (field.wrap document type).toList := by
  have mapped {text : String} (wrap : Bool) (h : Inline text.toList) :
      Inline (if wrap then Line.wrapMap text document else text).toList := by
    split
    · exact Line.inline_wrapMap document h
    · exact h
  have listed {text : String} (h : Inline text.toList) : Inline (if field.isArray then
      Line.wrapArray text document field.isSubdocumentArray else text).toList := by
    split
    · exact Line.inline_wrapArray document field.isSubdocumentArray h
    · exact h
  exact mapped _ (listed (mapped _ h))

/-! ## Lines of fields -/

/-- Fields refer to types by words. -/
def wordSorts : TellSorts where
  model := IsOneWord
  child := IsOneWord

namespace Render

theorem unbroken_primitive (p : Projection) (kind : PrimitiveKind) :
    '\n' ∉ (primitive p kind).toList := by
  unfold primitive
  repeat' split
  all_goals decide

theorem aside_primitive (p : Projection) (kind : PrimitiveKind) :
    Aside (primitive p kind).toList := by
  unfold primitive
  repeat' split
  all_goals exact Text.aside_cons (by decide)

theorem inline_scalar {kind : PrimitiveKind} {enum : Option (List Value)}
    (h : scalar s p kind enum = .ok text) : Inline text.toList := by
  unfold scalar at h
  split at h
  case h_1 v vs | h_2 v vs =>
    cases union : Line.enumUnion s (v :: vs) <;> rw [union] at h <;> cases h
    exact Line.inline_enumUnion (by simp) union
  case h_3 =>
    cases h
    exact .of_aside (unbroken_primitive p kind) (aside_primitive p kind)

theorem inline_reference {model : String} (h : IsOneWord model) (idKind : Option PrimitiveKind) :
    Inline (reference p model idKind).toList := by
  have idOf {target : String} (h : IsOneWord target) :
      Inline (target ++ "[\"_id\"] | " ++ target).toList := by
    refine .of_aside ?_ ?_
    · rw [Text.unbroken_append, Text.unbroken_append]
      exact ⟨⟨h.unbroken, by decide⟩, h.unbroken⟩
    · rw [String.toList_append, String.toList_append, List.append_assoc]
      exact Text.aside_of_notMem h.spaceless (by decide)
  unfold reference
  split
  · exact idOf (Text.isOneWord_append.2 ⟨h, by simp [IsOneWord]⟩)
  · split
    · refine .of_aside ?_ ?_
      · rw [Text.unbroken_append, Text.unbroken_append]
        exact ⟨⟨unbroken_primitive p _, by decide⟩, h.unbroken⟩
      · rw [String.toList_append, String.toList_append]
        exact ((aside_primitive p _).append _).append _
    · exact idOf h

mutual

theorem inline_shape : ∀ (sh : Shape) {key o a m ma sa text},
    FieldOf.Tells s wordSorts ⟨key, sh, o, a, m, ma, sa⟩ → shape s p sh = .ok text →
      Inline text.toList
  | .scalar kind enum, _, _, _, _, _, _, _, _, h => inline_scalar h
  | .nested fields, _, _, _, _, _, _, _, .nested _ below, h => by
    obtain ⟨body, hb, h⟩ := Except.bind_eq_ok_iff.1 h
    cases h
    have lines := Inline.lines (a := ['\x7b']) (c := ['\x7d']) (by decide)
      (Text.aside_cons (by decide)) (exports_lines fields below hb) (by decide)
      (Text.aside_cons (by decide))
    simpa using lines
  | .reference model idKind, _, _, _, _, _, _, _, .reference _ named, h => by
    cases h
    exact inline_reference named idKind
  | .embedded name _, _, _, _, _, _, _, _, .embedded _ named, h => by
    have word : IsOneWord (name ++ if p.document then "Document" else "") :=
      Text.isOneWord_append.2 ⟨named, by split <;> simp [IsOneWord]⟩
    cases h
    exact .of_word word
  | .virtual, _, _, _, _, _, _, _, _, h => by
    cases h
    exact .of_aside (by decide) (Text.aside_cons (by decide))
  | .unknown _, _, _, _, _, _, _, _, _, h => by cases h

theorem inline_type : ∀ (field : FieldOf Shape) {text}, field.Tells s wordSorts →
    type? s p field = .ok (some text) → Inline text.toList
  | ⟨key, sh, o, a, m, ma, sa⟩, text, tells, h => by
    by_cases hv : sh = .virtual
    · subst hv
      rw [type?] at h
      split at h <;> cases h
      exact FieldOf.inline_wrap _ _ (.of_aside (by decide) (Text.aside_cons (by decide)))
    · rw [type?_eq hv] at h
      obtain ⟨type, ht, h⟩ := Except.map_eq_ok_iff.1 h
      cases h
      exact FieldOf.inline_wrap _ _ (inline_shape sh tells ht)

theorem exports_lines : ∀ (fields : List (FieldOf Shape)) {text},
    (∀ field ∈ fields, field.Tells s wordSorts) → lines s p fields = .ok text →
      Exports text.toList []
  | [], _, _, h => by
    cases h
    exact .nil
  | field :: rest, _, tells, h => by
    obtain ⟨own, others⟩ := List.forall_mem_cons.1 tells
    obtain ⟨type, ht, h⟩ := Except.bind_eq_ok_iff.1 h
    obtain ⟨more, hm, h⟩ := Except.bind_eq_ok_iff.1 h
    cases h
    rw [String.toList_append]
    refine Exports.after ?_ (exports_lines rest others hm)
    cases type with
    | none => exact .nil
    | some type => exact Line.exports_entry (inline_type field own ht)

end

end Render
end ModelTypes
