import ModelTypes.Proofs.Field.Elements
/-!
# What a map holds

The values of a map are read from what the map is of. An array is taken off there by `mapItems`,
and not by `element`; the two leave definitions that read the same (`Agrees`), but for items that
declare their own type and for references that have no type of their own.
-/

namespace ModelTypes

/-- Whether a shape is that of a hoisted child. -/
def Shape.isEmbedded : Shape → Bool
  | .embedded _ _ => true
  | _ => false

namespace Field

section Conditions

variable (s : Store)

/-- Whether a definition is an array by its type, and the items declare a type of their own. -/
def declaresItems (v : Value) : Bool :=
  ((typeItems? s v).bind List.head?).any fun inner => (s.get? inner "type").isSome

/-- Whether the element of a definition refers to a model without a type of its own: it has none,
or nothing but an array or a map. -/
def refersUntyped (v : Value) : Bool :=
  match element s v with
  | .error _ => refers s v
  | .ok el => refers s el.value &&
      ((s.get? el.value "type").isNone || isArrayMarker s el.value || isMapMarker s el.value)

/-- What a mapping that is read in place of a definition has in common with it. -/
structure Agrees (v : Value) (value : Entries) : Prop where
  array : isArrayMarker s (.dict value) = isArrayMarker s v
  map : isMapMarker s (.dict value) = isMapMarker s v
  refers : refers s (.dict value) = refers s v
  reference : Field.refers s v →
    Keyed.get? value "ref" = s.get? v "ref" ∧ idKind? s (.dict value) = idKind? s v
  shape : Field.refers s v = false → ∀ nested key,
    shapeOf s nested key (.dict value) = shapeOf s nested key v

/-- A definition is a map of another, and has no options that its values would have from it. -/
structure IsMapOf (raw v : Value) : Prop where
  marker : typeKind? s raw = some (.container .map)
  of : s.get? raw "of" = some v
  enum : s.get? raw "enum" = none
  ref : s.get? raw "ref" = none

end Conditions

variable {s : Store} {key : String} {raw v w : Value} {items : List Value}
  {entries value : Entries} {el el' : Element} {field : Field}
  {nested : Entries → Except FieldError (List Field)}

/-! ## Definitions that read the same -/

theorem agrees_self : Agrees s (.dict value) value :=
  ⟨rfl, rfl, rfl, fun _ => ⟨rfl, rfl⟩, fun _ _ _ => rfl⟩

/-- Two mappings of one type read the same if they declare the same values and, should they refer
to a model, the same one. -/
theorem agrees_of_type {type : Value} (he : s.entries? v = some entries)
    (ht : Keyed.get? entries "type" = some type) (ht' : Keyed.get? value "type" = some type)
    (enum : Keyed.get? value "enum" = Keyed.get? entries "enum")
    (same : refers s (.dict value) = refers s v)
    (ref : refers s v → Keyed.get? value "ref" = s.get? v "ref") : Agrees s v value := by
  have kind : typeKind? s (.dict value) = typeKind? s v := by
    have get : s.get? v "type" = some type := by
      rw [Store.get?, he]
      exact ht
    have get' : s.get? (.dict value) "type" = some type := ht'
    rw [typeKind?, typeKind?, get, get']
  have nonempty {m : Entries} (h : Keyed.get? m "type" = some type) : m ≠ [] := by
    rintro rfl
    cases h
  refine ⟨by rw [isArrayMarker, isArrayMarker, kind], by rw [isMapMarker, isMapMarker, kind], same,
    fun refers => ⟨ref refers, by rw [idKind?, idKind?, kind]⟩, fun _ nested key => ?_⟩
  rw [shapeOf_of_entries he (nonempty ht),
    shapeOf_of_entries (v := .dict value) rfl (nonempty ht'), ht, ht', enum]

theorem agrees_of_get? {type : Value} (he : s.entries? v = some entries)
    (typed : Keyed.get? entries "type" = some type)
    (same : ∀ name ∈ ["type", "ref", "enum"], Keyed.get? value name = Keyed.get? entries name) :
    Agrees s v value := by
  have ref : s.get? (.dict value) "ref" = s.get? v "ref" := by
    rw [Store.get?, Store.get?, he]
    exact same "ref" (by simp)
  exact agrees_of_type he typed ((same "type" (by simp)).trans typed) (same "enum" (by simp))
    (by rw [refers, refers, ref]) fun _ => ref

/-- A mapping without a type is one with a type that it is itself. -/
theorem agrees_of_untyped {e : String × Value} {rest : Entries}
    (he : s.entries? v = some (e :: rest)) (untyped : Keyed.get? (e :: rest) "type" = none)
    (plain : refers s v = false) : Agrees s v [("type", v)] := by
  have kind : typeKind? s (.dict [("type", v)]) = typeKind? s v := by
    have none : s.get? v "type" = none := by
      rw [Store.get?, he]
      exact untyped
    rw [typeKind?, typeKind?, none]
    exact kind?_of_entries he
  refine ⟨by rw [isArrayMarker, isArrayMarker, kind], by rw [isMapMarker, isMapMarker, kind],
    plain.symm, fun refers => ?_, fun _ nested key => ?_⟩
  · rw [plain] at refers
    cases refers
  · have itself : Keyed.get? [("type", v)] "type" = some v := rfl
    rw [shapeOf_of_entries he (by simp), untyped,
      shapeOf_of_entries (v := .dict [("type", v)]) rfl (by simp), itself]
    dsimp only
    rw [he]

theorem agrees_of_empty (he : s.entries? v = some []) : Agrees s v [("type", mixedType)] := by
  have get (name : String) : s.get? v name = none := by
    rw [Store.get?, he]
    rfl
  have plain : refers s v = false := by
    rw [refers, get]
    rfl
  refine ⟨?_, ?_, plain.symm, fun refers => ?_, fun _ nested key => ?_⟩
  · rw [isArrayMarker, isArrayMarker, typeKind?, typeKind?, get]
    rfl
  · rw [isMapMarker, isMapMarker, typeKind?, typeKind?, get]
    rfl
  · rw [plain] at refers
    cases refers
  · rw [shapeOf_of_marker (v := .dict [("type", mixedType)]) rfl rfl rfl, shapeOf, he]
    rfl

/-! ## What a map's values are read from -/

theorem elementType_of_entries (h : s.entries? el.value = some entries) :
    elementType el = el.value :=
  if_neg (by simp [kind?_of_entries h])

/-- Something that is there and has no array by a list is read in place of itself. -/
theorem agrees_of_mapEntries (there : el.value ≠ .null)
    (typed : refers s el.value → (s.get? el.value "type").isSome)
    (h : mapEntries s key el.value = .ok value) : Agrees s (elementType el) value := by
  rw [mapEntries_of_ne there] at h
  rcases he : s.entries? el.value with _ | _ | ⟨e, rest⟩ <;> rw [he] at h <;> dsimp only at h
  case none =>
    split at h
    case isTrue marker =>
      cases h
      rw [elementType, if_pos marker]
      exact agrees_self
    case isFalse => cases h
  case some.nil =>
    cases h
    rw [elementType_of_entries he]
    exact agrees_of_empty he
  case some.cons =>
    rw [elementType_of_entries he]
    split at h
    case isTrue has =>
      cases h
      obtain ⟨type, ht⟩ := Keyed.has_iff_get?.1 has
      exact agrees_of_get? he ht fun _ _ => rfl
    case isFalse has =>
      cases h
      have untyped := Keyed.has_eq_false_iff.1 (Bool.eq_false_iff.2 has)
      refine agrees_of_untyped he untyped (Bool.eq_false_iff.2 fun refers => ?_)
      have := typed refers
      rw [Store.get?, he, Option.bind_some, untyped] at this
      cases this

/-- A hoisted child is nothing that a map can hold. -/
theorem embedding?_of_mapEntries (there : w ≠ .null) (h : mapEntries s key w = .ok value) :
    s.embedding? w = none := by
  rcases he : s.embedding? w with _ | e
  · rfl
  · rw [mapEntries_of_ne there, entries?_of_embedding he, kind?_of_embedding he] at h
    cases h

theorem mapEntries_error {e : FieldError} (there : w ≠ .null) (h : mapEntries s key w = .error e) :
    e = .unsupported key w ∧ s.entries? w = none ∧ w.kind? = none := by
  rw [mapEntries_of_ne there] at h
  rcases he : s.entries? w with _ | _ | ⟨e, rest⟩ <;> rw [he] at h <;> dsimp only at h
  · split at h
    case isTrue => cases h
    case isFalse marker =>
      cases h
      exact ⟨rfl, rfl, by simpa using marker⟩
  · cases h
  · split at h <;> cases h

theorem mapItems_of_mapEntries {of : Value} {ofArray : Bool} (unlisted : isListed s w = false)
    (h : mapEntries s key w = .ok value) :
    mapItems s key of ofArray value = .ok (value, ofArray) := by
  obtain ⟨items, types⟩ : s.items? w = none ∧ typeItems? s w = none := by
    simpa [isListed] using unlisted
  have none : typeItems? s (.dict value) = none := by
    unfold mapEntries at h
    split at h
    case h_1 | h_2 =>
      cases h
      rfl
    case h_3 he =>
      split at h <;> cases h
      · rw [typeItems?, Store.get?, he] at types
        exact types
      · exact items
    case h_4 =>
      split at h <;> cases h
      exact items
  rw [mapItems, none]
  rfl

theorem mapValue_of_mapOf {ofArray : Bool} (of : mapOf s raw = (w, ofArray))
    (unlisted : isListed s w = false) : mapValue s key raw =
      mapEntries s key w >>= fun value => pure (mapped s raw value ofArray) := by
  rw [mapValue_eq, of]
  rcases h : mapEntries s key w with e | value
  · rfl
  · show (mapItems s key w ofArray value >>= _) = _
    rw [mapItems_of_mapEntries unlisted h]
    rfl

/-- An array by a type is taken off where the values of the map are read. -/
theorem mapValue_of_typeItems (key : String) (map : IsMapOf s raw v)
    (he : s.entries? v = some entries) (ht : typeItems? s v = some items) :
    mapValue s key raw =
      .ok (mapped s raw (Keyed.put entries "type" (items.head?.getD mixedType)) true) := by
  have of : mapOf s raw = (v, false) := by
    rw [mapOf, map.of, Option.getD_some, items?_of_entries he]
  rw [typeItems?, Store.get?, he, Option.bind_some] at ht
  obtain ⟨list, hlist, -⟩ := Option.bind_eq_some_iff.1 ht
  have read : mapEntries s key v = .ok entries := by
    have there : v ≠ .null := by
      rintro rfl
      cases he
    have has : Keyed.has entries "type" := Keyed.has_iff_get?.2 ⟨list, hlist⟩
    rw [mapEntries_of_ne there, he]
    cases entries with
    | nil => cases hlist
    | cons e rest => exact if_pos has
  have listed : typeItems? s (.dict entries) = some items := ht
  rw [mapValue_eq, of, read]
  show (mapItems s key v false entries >>= _) = _
  rw [mapItems, listed]
  rfl

/-- The values of a map are read from what agrees with the element of what the map is of, or the
element is nothing that a map can hold. -/
theorem mapValue_of_element (key : String) (map : IsMapOf s raw v) (outer : element s v = .ok el)
    (unlisted : isListed s el.value = false) (there : el.value ≠ .null)
    (plain : declaresItems s v = false)
    (typed : refers s el.value → (s.get? el.value "type").isSome) :
    (∃ value, Agrees s (elementType el) value ∧ s.embedding? el.value = none ∧
        mapValue s key raw = .ok (mapped s raw value el.isArray)) ∨
      mapValue s key raw = .error (.unsupported key el.value) ∧
        s.entries? el.value = none ∧ el.value.kind? = none := by
  have direct (of : mapOf s raw = (el.value, el.isArray)) :
      (∃ value, Agrees s (elementType el) value ∧ s.embedding? el.value = none ∧
          mapValue s key raw = .ok (mapped s raw value el.isArray)) ∨
        mapValue s key raw = .error (.unsupported key el.value) ∧
          s.entries? el.value = none ∧ el.value.kind? = none := by
    rw [mapValue_of_mapOf of unlisted]
    rcases h : mapEntries s key el.value with e | value
    · obtain ⟨rfl, no_entries, no_kind⟩ := mapEntries_error there h
      exact .inr ⟨rfl, no_entries, no_kind⟩
    · exact .inl ⟨value, agrees_of_mapEntries there typed h, embedding?_of_mapEntries there h, rfl⟩
  have taken := encoded s v
  rw [outer] at taken
  cases taken with
  | list hl =>
    refine direct ?_
    rw [mapOf, map.of, Option.getD_some, hl]
    rfl
  | single hl =>
    have none : s.items? v = none := by
      simp only [isListed, Bool.or_eq_false_iff] at hl
      simpa using hl.1
    refine direct ?_
    rw [mapOf, map.of, Option.getD_some, none]
  | @typeList entries inner rest he ht =>
    -- both put the item in the place of the list, `element` at the end of the options
    have own : s.get? inner "type" = none := by
      simpa [declaresItems, ht] using plain
    have options : itemEntries s entries inner
        = Keyed.put (Keyed.remove entries "type") "type" inner := by
      rw [itemEntries, own]
    have read := mapValue_of_typeItems key map he ht
    rw [List.head?_cons, Option.getD_some] at read
    refine .inl ⟨Keyed.put entries "type" inner, ?_, rfl, read⟩
    refine agrees_of_get? (show s.entries? (.dict (itemEntries s entries inner)) = _ from rfl)
      (options ▸ Keyed.get?_put_self) fun name _ => ?_
    rw [options]
    by_cases hn : name = "type"
    · rw [hn, Keyed.get?_put_self, Keyed.get?_put_self]
    · rw [Keyed.get?_put_of_ne hn, Keyed.get?_put_of_ne hn, get?_remove_of_ne hn]

theorem mapped_of_map (map : IsMapOf s raw v) {ofArray : Bool} : mapped s raw value ofArray =
    if isArrayMarker s (.dict value) then (.dict (Keyed.put value "type" mixedType), true)
    else (.dict value, ofArray) := by
  rw [mapped_eq]
  simp [inheritOption, map.enum, map.ref]

/-! ## The field of a map -/

/-- The field of a map of which `field` is the value. -/
def mapField (optional : Bool) (field : Field) : Field :=
  { field with optional, isMap := true, mapOfArray := field.isArray }

theorem isEmbedded_of_shapeOf {sh : Shape} (h : shapeOf s nested key v = .ok sh) :
    sh.isEmbedded = false := by
  rcases he : s.entries? v with _ | _ | ⟨e, rest⟩
  · rw [shapeOf, he] at h
    cases h
  · rw [shapeOf, he] at h
    cases h
    rfl
  rw [shapeOf_of_entries he (by simp)] at h
  rcases ht : Keyed.get? (e :: rest) "type" with _ | type <;> rw [ht] at h <;> dsimp only at h
  · obtain ⟨fields, -, h⟩ := Except.bind_eq_ok_iff.1 h
    cases h
    rfl
  rcases hi : s.entries? type with _ | _ | ⟨e', rest'⟩ <;> rw [hi] at h <;> dsimp only at h
  · obtain ⟨kind, enum, rfl⟩ : ∃ kind enum, sh = .scalar kind enum := scalar_of_markerShape h
    rfl
  · cases h
    rfl
  · obtain ⟨fields, -, h⟩ := Except.bind_eq_ok_iff.1 h
    cases h
    rfl

theorem Typed.isMap_eq {isMap mapOfArray : Bool}
    (h : Typed s nested key el isMap v mapOfArray field) : field.isMap = isMap := by
  cases h <;> rfl

/-- Values that agree with a definition have the field of the definition, in a map. -/
theorem Typed.in_map (agrees : Agrees s v value) (unembedded : s.embedding? v = none)
    (single : el'.isArray = false) (h : Typed s nested key el false v false field) :
    field.shape.isEmbedded = false ∧ ∃ optional,
      describeTyped s nested key el' true (.dict value) el.isArray
        = .ok (mapField optional field) := by
  cases h with
  | embedded he =>
    rw [unembedded] at he
    cases he
  | reference _ refers hm =>
    obtain ⟨ref, idKind⟩ := agrees.reference refers
    have get : s.get? (.dict value) "ref" = s.get? v "ref" := ref
    rw [← get] at hm
    refine ⟨rfl, el'.optional,
      (describeTyped_ok_iff.2 (.reference rfl (agrees.refers.trans refers) hm)).trans ?_⟩
    simp [mapField, single, idKind]
  | @shaped shape _ plain hs =>
    rw [← agrees.shape plain] at hs
    refine ⟨isEmbedded_of_shapeOf hs, el'.optional && !shape.isNested && key != "_id",
      (describeTyped_ok_iff.2 (.shaped rfl (agrees.refers.trans plain) hs)).trans ?_⟩
    simp [mapField, single]

/-- Values of which nothing is known are arrays of anything, where the map is of an untyped
array. -/
theorem describeTyped_mixed {o : Bool} (el' : Element)
    (untyped : Keyed.get? value "type" = some mixedType) (plain : refers s (.dict value) = false)
    (single : el'.isArray = false) : ∃ optional,
      describeTyped s nested key el' true (.dict value) true
        = .ok (mapField optional { key, shape := .mixed, optional := o, isArray := true }) := by
  have shape : shapeOf s nested key (.dict value) = .ok .mixed :=
    (shapeOf_of_marker rfl untyped rfl).trans rfl
  refine ⟨el'.optional && key != "_id",
    (describeTyped_ok_iff.2 (.shaped rfl plain shape)).trans ?_⟩
  simp [mapField, single, Shape.mixed, Shape.isNested]

/-- A map of maps is refused. -/
theorem describeTyped_nested_map {ofArray : Bool}
    (map : isMapMarker s (.dict value)) (plain : refers s (.dict value) = false) :
    ∃ w, describeTyped s nested key el' true (.dict value) ofArray
      = .error (.unsupported key w) := by
  obtain ⟨type, ht, hk⟩ := Option.bind_eq_some_iff.1 (beq_iff_eq.1 map)
  have no_entries : s.entries? type = none := entries?_of_kind (by simp [hk])
  refine ⟨type, ?_⟩
  unfold describeTyped
  show (if refers s (.dict value) then _ else _) = _
  rw [plain, if_neg (by simp), shapeOf_of_marker (v := .dict value) rfl ht no_entries, markerShape,
    hk]
  rfl

/-- What is neither a mapping nor a marker is read as a hoisted child or not at all. -/
theorem isEmbedded_of_describeElement (no_entries : s.entries? el.value = none)
    (no_kind : el.value.kind? = none) (h : describeElement s nested key raw el = .ok field) :
    field.shape.isEmbedded := by
  have get (name : String) : s.get? el.value name = none := by
    rw [Store.get?, no_entries]
    rfl
  have type : elementType el = el.value := if_neg (by simp [no_kind])
  have untyped : typeKind? s el.value = none := by
    rw [typeKind?, get]
    rfl
  have no_array : isArrayMarker s el.value = false := by simp [isArrayMarker, untyped]
  have no_map : isMapMarker s el.value = false := by simp [isMapMarker, untyped]
  rw [describeElement_of_not_isListed (isListed_of_describeElement h), type, no_array, no_map] at h
  have typed : Typed s nested key el false el.value false field := describeTyped_ok_iff.1 h
  cases typed with
  | embedded _ => rfl
  | reference _ refers _ =>
    rw [Field.refers, get] at refers
    cases refers
  | shaped _ _ hs =>
    rw [shapeOf, no_entries] at hs
    cases hs

theorem refers_of_get? (h : s.get? v "ref" = s.get? w "ref") : refers s v = refers s w := by
  rw [refers, refers, h]

theorem plain_of_marker (typed : refers s el.value →
      isArrayMarker s el.value = false ∧ isMapMarker s el.value = false)
    (marker : isArrayMarker s (elementType el) ∨ isMapMarker s (elementType el)) :
    refers s (elementType el) = false := by
  unfold elementType at marker ⊢
  split
  case isTrue => rfl
  case isFalse unmarked =>
    rw [if_neg unmarked] at marker
    refine Bool.eq_false_iff.2 fun refers => ?_
    obtain ⟨no_array, no_map⟩ := typed refers
    rw [no_array, no_map] at marker
    simp at marker

/-- The values of a map are read as the element of what the map is of, in a map, if that is no map
itself and no hoisted child. -/
theorem describeElement_map (el' : Element) (map : IsMapOf s raw v) (outer : element s v = .ok el)
    (plain : declaresItems s v = false)
    (typed : refers s el.value → (s.get? el.value "type").isSome ∧
      isArrayMarker s el.value = false ∧ isMapMarker s el.value = false)
    (single : el'.isArray = false) (h : describeElement s nested key v el = .ok field) :
    if field.isMap || field.shape.isEmbedded then
      ∃ w, (mapValue s key raw >>= fun r => describeTyped s nested key el' true r.1 r.2)
        = .error (.unsupported key w)
    else
      ∃ optional, (mapValue s key raw >>= fun r => describeTyped s nested key el' true r.1 r.2)
        = .ok (mapField optional field) := by
  have unlisted : isListed s el.value = false := isListed_of_describeElement h
  have there : el.value ≠ .null := by
    obtain ⟨value, isArray, optional⟩ := el
    rintro ⟨⟩
    cases h
  rcases mapValue_of_element key map outer unlisted there plain fun h => (typed h).1 with
    ⟨value, agrees, unembedded, read⟩ | ⟨read, no_entries, no_kind⟩
  case inr =>
    rw [isEmbedded_of_describeElement no_entries no_kind h, Bool.or_true, read]
    exact ⟨_, rfl⟩
  case inl =>
  have unmarked := plain_of_marker fun h => (typed h).2
  rw [describeElement_of_not_isListed unlisted] at h
  rw [read, mapped_of_map map, agrees.array]
  by_cases array : isArrayMarker s (elementType el)
  · rw [if_pos array] at h ⊢
    cases h
    refine describeTyped_mixed el' Keyed.get?_put_self ?_ single
    rw [← unmarked (.inl array), ← agrees.refers]
    exact refers_of_get? (Keyed.get?_put_of_ne (by decide))
  rw [if_neg array] at h ⊢
  by_cases nested_map : isMapMarker s (elementType el)
  · obtain ⟨r, -, h⟩ := Except.bind_eq_ok_iff.1 h
    rw [(describeTyped_ok_iff.1 h).isMap_eq, nested_map]
    exact describeTyped_nested_map (agrees.map.trans nested_map)
      (agrees.refers.trans (unmarked (.inr nested_map)))
  · rw [Bool.eq_false_iff.2 nested_map] at h
    have typed : Typed s nested key el false (elementType el) false field :=
      describeTyped_ok_iff.1 h
    obtain ⟨flat, composed⟩ := typed.in_map agrees (embedding?_elementType.trans unembedded) single
    rw [typed.isMap_eq, flat]
    exact composed

/-- A map of an array of nothing is a map of arrays of anything. -/
theorem mapValue_of_empty {o : Bool} (key : String) (map : IsMapOf s raw v)
    (outer : element s v = .error o) (plain : refers s v = false) :
    ∃ value, mapValue s key raw = .ok (.dict value, true) ∧
      Keyed.get? value "type" = some mixedType ∧ refers s (.dict value) = false := by
  have no_array {value : Entries} (untyped : Keyed.get? value "type" = some mixedType) :
      isArrayMarker s (.dict value) = false := by
    have get : s.get? (.dict value) "type" = some mixedType := untyped
    rw [isArrayMarker, typeKind?, get]
    rfl
  have taken := encoded s v
  rw [outer] at taken
  cases taken with
  | emptyList hl =>
    have of : mapOf s raw = (.null, true) := by
      rw [mapOf, map.of, Option.getD_some, hl]
      rfl
    refine ⟨[("type", mixedType)], ?_, rfl, rfl⟩
    rw [mapValue_of_mapOf of rfl]
    show Except.ok (mapped s raw [("type", mixedType)] true) = _
    rw [mapped_of_map map, no_array rfl]
    rfl
  | @emptyType entries he ht =>
    refine ⟨Keyed.put entries "type" mixedType, ?_, Keyed.get?_put_self, ?_⟩
    · rw [mapValue_of_typeItems key map he ht, List.head?_nil, Option.getD_none, mapped_of_map map,
        no_array Keyed.get?_put_self]
      rfl
    · rw [← plain]
      refine refers_of_get? ?_
      rw [Store.get?, Store.get?, he]
      exact Keyed.get?_put_of_ne (by decide)

/-! ## Reading a map -/

theorem isListed_of_typeKind (h : (typeKind? s v).isSome) : isListed s v = false := by
  obtain ⟨kind, hk⟩ := Option.isSome_iff_exists.1 h
  obtain ⟨type, ht, hk⟩ := Option.bind_eq_some_iff.1 hk
  obtain ⟨entries, he, -⟩ := Option.bind_eq_some_iff.1 ht
  have unlisted : s.items? type = none := by
    cases type with
    | str _ | kind _ | marker _ => rfl
    | _ => cases hk
  rw [isListed, items?_of_entries he, typeItems?, ht, Option.bind_some, unlisted]
  rfl

theorem describeWithin_map {room : Nat} (map : IsMapOf s raw v)
    (declared : internalKeys.contains key = false) : describeWithin s (room + 1) key raw =
      some <$> (mapValue s key raw >>= fun r => describeTyped s
        (fun fields => fields.filterMapM fun f => describeWithin s room f.1 f.2) key
        ⟨raw, false, !isRequired s raw⟩ true r.1 r.2) := by
  obtain ⟨type, ht, -⟩ := Option.bind_eq_some_iff.1 map.marker
  obtain ⟨entries, he, -⟩ := Option.bind_eq_some_iff.1 ht
  have unlisted := isListed_of_typeKind (s := s) (v := raw) (by simp [map.marker])
  have no_array : isArrayMarker s raw = false := by simp [isArrayMarker, map.marker]
  have is_map : isMapMarker s raw = true := by simp [isMapMarker, map.marker]
  rw [describeWithin_of_stored declared (isVirtual_of_type ht), element_of_not_isListed unlisted]
  dsimp only
  rw [describeElement_of_not_isListed unlisted, elementType_of_entries he, no_array, is_map]
  rfl

/-- A map of a definition is read as the map of what the definition declares. A map or a hoisted
child is refused in a map. -/
theorem describe_map {depth : Int} (map : IsMapOf s raw v) (plain : declaresItems s v = false)
    (typed : refersUntyped s v = false) (described : describe s key v depth = .ok (some field))
    (stored : field.shape ≠ .virtual) :
    if field.isMap || field.shape.isEmbedded then
      ∃ w, describe s key raw depth = .error (.unsupported key w)
    else ∃ optional, describe s key raw depth = .ok (some (mapField optional field)) := by
  unfold describe at described ⊢
  generalize (maxNestingDepth + 1 - depth).toNat = room at described ⊢
  cases room with
  | zero => cases described
  | succ room =>
    obtain ⟨declared, no_virtual⟩ := stored_of_describeWithin stored described
    rw [describeWithin_map map declared]
    rw [describeWithin_of_stored declared no_virtual] at described
    unfold refersUntyped at typed
    rcases outer : element s v with o | el <;> rw [outer] at described typed <;>
      dsimp only at described typed
    · cases described
      obtain ⟨value, read, untyped, refers⟩ := mapValue_of_empty key map outer typed
      obtain ⟨optional, h⟩ := describeTyped_mixed (o := o) ⟨raw, false, !isRequired s raw⟩
        untyped refers rfl
      exact ⟨optional, by rw [read]; exact congrArg (some <$> ·) h⟩
    · obtain ⟨_, h, h'⟩ := Except.map_eq_ok_iff.1 described
      cases h'
      have composed := describeElement_map ⟨raw, false, !isRequired s raw⟩ map outer plain
        (fun refers => by simpa [refers, and_assoc, Option.isSome_iff_ne_none] using typed) rfl h
      split
      case isTrue refused =>
        rw [if_pos refused] at composed
        exact composed.imp fun w h => by rw [h]; rfl
      case isFalse holds =>
        rw [if_neg holds] at composed
        exact composed.imp fun optional h => by rw [h]; rfl

theorem wrap_mapField {text : String} {optional document : Bool} (single : field.isMap = false) :
    (mapField optional field).wrap document text
      = Line.wrapMap (field.wrap document text) document := by
  obtain ⟨key, sh, o, a, m, ma, sa⟩ := field
  cases single
  cases a <;> simp [FieldOf.wrap, mapField]

end Field

/-! ## The type of a map -/

namespace Compile

open ModelTypes.Field

variable {s : Store} {p : Projection} {key : String} {raw v : Value} {field : Field} {type : String}

/-- The type of a map is the type of what it is of with a map around it, unless that is itself a map
or a hoisted child, which are refused. -/
theorem fieldType?_map (map : IsMapOf s raw v) (plain : declaresItems s v = false)
    (typed : refersUntyped s v = false)
    (described : Field.describe s key v = .ok (some field)) (stored : field.shape ≠ .virtual)
    (accepted : fieldType? s p key v = .ok (some type)) :
    if field.isMap || field.shape.isEmbedded then
      ∃ w, fieldType? s p key raw = .error (.field (.unsupported key w))
    else fieldType? s p key raw = .ok (some (Line.wrapMap type p.document)) := by
  have read := Field.describe_map map plain typed described stored
  split
  case isTrue refused =>
    rw [if_pos refused] at read
    exact read.imp fun w read => fieldType?_of_describe_error read
  case isFalse holds =>
    rw [if_neg holds] at read
    obtain ⟨optional, read⟩ := read
    obtain ⟨text, shaped, rfl⟩ := (fieldType?_eq_ok_iff described stored).1 accepted
    have single : field.isMap = false := by
      simp only [Bool.or_eq_true, not_or] at holds
      exact Bool.eq_false_iff.2 holds.1
    rw [← wrap_mapField single]
    exact (fieldType?_eq_ok_iff read stored).2 ⟨text, shaped, rfl⟩

theorem fieldType?_map_members :
    fieldType? {} { document := false, plainIds := true } "members" (.dict [("type", .str "Map"),
        ("of", .dict [("type", .list [.str "ObjectId"]), ("ref", .str "User")])])
      = .ok (some "Map<string, (string | User)[]>") := by
  have described : Field.describe {} "members"
      (.dict [("type", .list [.str "ObjectId"]), ("ref", .str "User")])
      = .ok (some { key := "members", shape := .reference "User" (some .objectId),
                    optional := false, isArray := true }) := rfl
  have accepted : fieldType? {} { document := false, plainIds := true } "members"
      (.dict [("type", .list [.str "ObjectId"]), ("ref", .str "User")])
      = .ok (some "(string | User)[]") := rfl
  exact fieldType?_map ⟨rfl, rfl, rfl, rfl⟩ rfl rfl described (by simp) accepted

/-- Items that declare their own type are read as objects in a map. -/
theorem fieldType?_map_items : ¬ ∀ (s : Store) (p : Projection) (key : String) (raw v : Value)
    (field : Field) (type : String), IsMapOf s raw v →
    Field.describe s key v = .ok (some field) → field.shape ≠ .virtual →
    fieldType? s p key v = .ok (some type) →
    (∃ e, fieldType? s p key raw = .error e) ∨
      fieldType? s p key raw = .ok (some (Line.wrapMap type p.document)) := by
  intro composes
  have tags := composes {} { document := false } "tags"
    (.dict [("type", .str "Map"),
      ("of", .dict [("type", .list [.dict [("type", .str "String")]])])])
    (.dict [("type", .list [.dict [("type", .str "String")]])])
    { key := "tags", shape := .scalar .string none, optional := false, isArray := true }
    "string[]" ⟨rfl, rfl, rfl, rfl⟩ rfl (by simp) rfl
  have declared : fieldType? {} { document := false } "tags" (.dict [("type", .str "Map"),
      ("of", .dict [("type", .list [.dict [("type", .str "String")]])])])
      = .ok (some "Map<string, (\x7b\ntype?: string;\n\x7d)[]>") := rfl
  rw [declared] at tags
  obtain ⟨e, h⟩ | h := tags
  · cases h
  · exact absurd (Option.some.inj (Except.ok.inj h)) (by decide)

end Compile
end ModelTypes
