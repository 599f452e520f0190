import ModelTypes.Proofs.Field.Optionality
import ModelTypes.Proofs.Field.Within
/-!
# Identifiers that may be absent

An identifier is there whatever its definition says, but for three kinds of definitions of which the
fields are made without a look at the key: references, hoisted children and arrays of no known type.
-/

namespace ModelTypes

/-- The fields of the type are declared elsewhere: in the model that is referred to, or in the block
of a child. -/
def Shape.isElsewhere : Shape → Bool
  | .reference _ _ | .embedded _ _ => true
  | _ => false

theorem Shape.isElsewhere_withoutVirtuals (sh : Shape) :
    sh.withoutVirtuals.isElsewhere = sh.isElsewhere := by
  cases sh <;> rfl

namespace Field

/-! ## What a definition says -/

section Declared

variable (s : Store)

/-- The marker of arrays, alone or as a type. -/
def isArrayType (v : Value) : Bool := v.kind? == some (.container .array) || isArrayMarker s v

/-- Whether a definition is an array and does not say of what. -/
def isUntypedArray (raw : Value) : Bool :=
  match s.items? raw, typeItems? s raw with
  | some items, _ => items.head?.all (isArrayType s)
  | none, some items => items.head?.all fun inner =>
      ((s.get? inner "type").getD inner).kind? == some (.container .array)
  | none, none => isArrayType s raw

/-- Whether a definition says that its field may be absent: an array says so if nothing fills it in,
anything else if it is not required. -/
def saysAbsent (raw : Value) : Bool :=
  if isListed s raw || isArrayType s raw then isUnfilledArray s raw else !isRequired s raw

end Declared

variable {s : Store} {raw : Value} {field : Field} {el : Element}

theorem isArrayMarker_elementType : isArrayMarker s (elementType el) = isArrayType s el.value := by
  unfold elementType isArrayType
  cases hk : el.value.kind? with
  | none => simp
  | some kind =>
    have bare : isArrayMarker s el.value = false := by
      rw [isArrayMarker, typeKind?, Store.get?, entries?_of_kind (by simp [hk])]
      rfl
    rw [bare, Bool.or_false, ← hk, if_pos (by simp [hk])]
    rfl

theorem not_isArrayType_of_isVirtual (h : isVirtual s raw = true) : isArrayType s raw = false := by
  have untyped : isArrayMarker s raw = false := by
    rw [Bool.eq_false_iff]
    intro marker
    obtain ⟨type, ht, -⟩ := Option.bind_eq_some_iff.1 (beq_iff_eq.1 marker)
    rw [isVirtual_of_type ht] at h
    cases h
  have bare : raw.kind? = none := by
    cases raw with
    | str _ | kind _ | marker _ => cases h
    | _ => rfl
  rw [isArrayType, untyped, bare]
  rfl

/-- A virtual is no array. -/
theorem isUntypedArray_of_isVirtual (h : isVirtual s raw = true) : isUntypedArray s raw = false := by
  have plain : isListed s raw = false := by
    rw [Bool.eq_false_iff]
    intro listed
    rcases Bool.or_eq_true_iff.1 listed with items | items <;>
      obtain ⟨items, hi⟩ := Option.isSome_iff_exists.1 items
    · rw [isVirtual_of_items hi] at h
      cases h
    · obtain ⟨type, ht, -⟩ := Option.bind_eq_some_iff.1 hi
      rw [isVirtual_of_type ht] at h
      cases h
  obtain ⟨hi, ht⟩ : s.items? raw = none ∧ typeItems? s raw = none := by simpa [isListed] using plain
  rw [isUntypedArray, hi, ht]
  exact not_isArrayType_of_isVirtual h

/-! ## What is left without the outer array -/

/-- What is read of a definition without its outer array says the same of being absent, and is an
array of no known type just if the definition is one. -/
theorem element_says (s : Store) (raw : Value) :
    match element s raw with
    | .error optional => isUntypedArray s raw = true ∧ saysAbsent s raw = optional
    | .ok el => isUntypedArray s raw = isArrayType s el.value ∧ saysAbsent s raw =
        if isArrayType s el.value && !el.isArray then isDefaultUndefined s (elementType el)
        else el.optional := by
  unfold isUntypedArray saysAbsent isUnfilledArray
  have taken := encoded s raw
  generalize element s raw = read at taken ⊢
  cases taken with
  | emptyList hl =>
    simp [isListed, hl]
  | list hl =>
    simp [isListed, hl]
  | emptyType he ht =>
    simp [isListed, items?_of_entries he, ht]
  | @typeList entries inner rest he ht =>
    have typed : isArrayType s (.dict (itemEntries s entries inner))
        = (((s.get? inner "type").getD inner).kind? == some (.container .array)) := by
      show (none == _ || (Keyed.get? (itemEntries s entries inner) "type").bind (·.kind?) == _) = _
      rw [get?_itemEntries_type]
      rfl
    simp [isListed, items?_of_entries he, ht, typed]
  | single hl =>
    obtain ⟨hi, ht⟩ : s.items? raw = none ∧ typeItems? s raw = none := by simpa [isListed] using hl
    refine ⟨by rw [hi, ht], ?_⟩
    rw [hl, hi, ht]
    cases array : isArrayType s raw with
    | false => rfl
    | true =>
      show (isArrayMarker s raw && isDefaultUndefined s raw)
        = isDefaultUndefined s (elementType ⟨raw, false, !isRequired s raw⟩)
      unfold elementType
      cases hk : raw.kind? with
      | none =>
        rw [isArrayType, hk] at array
        rw [show isArrayMarker s raw = true from array]
        rfl
      | some kind =>
        rw [isArrayMarker, typeKind?, Store.get?, entries?_of_kind (by simp [hk])]
        rfl

/-! ## Identifiers -/

theorem optional_id_of_describeElement {nested : Reader}
    (h : describeElement s nested "_id" raw el = .ok field) :
    (field.optional = true ↔
      (if isArrayType s el.value && !el.isArray then isDefaultUndefined s (elementType el)
        else el.optional) = true ∧
      (isArrayType s el.value = true ∨ field.shape.isElsewhere = true)) := by
  rw [describeElement_of_not_isListed (isListed_of_describeElement h),
    isArrayMarker_elementType] at h
  cases array : isArrayType s el.value with
  | true =>
    rw [array, if_pos rfl] at h
    cases h
    cases el.isArray <;> simp
  | false =>
    rw [array, if_neg Bool.false_ne_true] at h
    obtain ⟨r, -, typed⟩ := Except.bind_eq_ok_iff.1 h
    cases describeTyped_ok_iff.1 typed with
    | embedded _ => simp [Shape.isElsewhere]
    | reference _ _ _ => simp [Shape.isElsewhere]
    | shaped _ _ shape =>
      -- The key is looked at here, and the shape is a scalar or an object.
      rcases shapeOf_cases shape with ⟨_, _, -, -, rfl⟩ | ⟨_, _, rfl, -⟩ <;>
        simp [Shape.isElsewhere]

/-- An identifier may be absent just if its definition says so and is a reference, a hoisted child
or an array of no known type. -/
theorem ReadFrom.optional_id_iff (h : ReadFrom s ("_id", raw) field) :
    field.optional = true ↔ saysAbsent s raw = true ∧
      (isUntypedArray s raw = true ∨ field.shape.isElsewhere = true) := by
  obtain ⟨_ | room, h⟩ := h
  · cases h
  replace h : describeWithin s (room + 1) "_id" raw = .ok (some field) := h
  rw [describeWithin_succ, describeOnce, if_neg (by decide)] at h
  split at h
  case isTrue computed =>
    rw [if_neg (by decide)] at h
    cases h
    simp [isUntypedArray_of_isVirtual computed, Shape.isElsewhere]
  case isFalse =>
    have told := element_says s raw
    split at h <;> rename_i taken <;> rw [taken] at told
    · cases h
      simp [told.1, told.2]
    · obtain ⟨_, h, same⟩ := Except.map_eq_ok_iff.1 h
      cases same
      rw [told.1, told.2]
      exact optional_id_of_describeElement h

end Field
end ModelTypes
