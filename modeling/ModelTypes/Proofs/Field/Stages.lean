import ModelTypes.Field.Describe
import ModelTypes.Proofs.Result
/-!
# Reading a definition, stage by stage

Reading a map's values and an element are sequences of stages, of which each is a definition of its
own here (`mapValue_eq`, `describeElement_eq`). The last stage has three ways to a field (`Typed`).
-/

namespace ModelTypes.Field

variable {s : Store} {v : Value} {key : String}

/-! ## Maps, stage by stage -/

section Maps

variable (s)

/-- What a map's `of` names, and whether it names an array of that. -/
def mapOf (element : Value) : Value × Bool :=
  let of := (s.get? element "of").getD .null
  match s.items? of with
  | some items => (items.head?.getD .null, true)
  | none => (of, false)

/-- What `of` declares, as a mapping with a type. -/
def mapEntries (key : String) (of : Value) : Except FieldError Entries :=
  match of, s.entries? of with
  | .null, _ => pure [("type", mixedType)]
  | _, some [] => pure [("type", mixedType)]
  | _, some entries =>
    if Keyed.has entries "type" then pure entries else pure [("type", of)]
  | _, none => if of.kind?.isSome then pure [("type", of)] else throw (.unsupported key of)

/-- Takes an array off the type; there may be only one. -/
def mapItems (key : String) (of : Value) (ofArray : Bool) (value : Entries) :
    Except FieldError (Entries × Bool) :=
  match typeItems? s (.dict value) with
  | some items =>
    if ofArray then throw (.unsupported key of)
    else pure (Keyed.put value "type" (items.head?.getD mixedType), true)
  | none => pure (value, ofArray)

/-- An option that values have from their map unless they have their own. -/
def inheritOption (element : Value) (value : Entries) (option : String) : Entries :=
  match s.get? element option with
  | some v => if Keyed.has value option then value else Keyed.put value option v
  | none => value

/-- The definition of a map's values, once their type is known. -/
def mapped (element : Value) (value : Entries) (ofArray : Bool) : Value × Bool :=
  let (value, ofArray) :=
    if isArrayMarker s (.dict value) then (Keyed.put value "type" mixedType, true)
    else (value, ofArray)
  (.dict (inheritOption s element (inheritOption s element value "enum") "ref"), ofArray)

theorem mapped_eq (element : Value) (value : Entries) (ofArray : Bool) :
    mapped s element value ofArray =
      if isArrayMarker s (.dict value) then
        (.dict (inheritOption s element (inheritOption s element
          (Keyed.put value "type" mixedType) "enum") "ref"), true)
      else
        (.dict (inheritOption s element (inheritOption s element value "enum") "ref"),
          ofArray) := by
  unfold mapped
  cases isArrayMarker s (.dict value) <;> rfl

theorem mapValue_eq (key : String) (element : Value) :
    mapValue s key element = (do
      let value ← mapEntries s key (mapOf s element).1
      let r ← mapItems s key (mapOf s element).1 (mapOf s element).2 value
      return mapped s element r.1 r.2) := by
  have next (of : Value) (ofArray : Bool)
      (finish : Entries × Bool → Except FieldError (Value × Bool)) (value : Entries) :
      (match typeItems? s (.dict value) with
        | some items =>
          if ofArray then throw (FieldError.unsupported key of) >>= finish
          else pure (Keyed.put value "type" (items.head?.getD mixedType), true) >>= finish
        | none => pure (value, ofArray) >>= finish)
      = mapItems s key of ofArray value >>= finish := by
    unfold mapItems
    split
    · split <;> rfl
    · rfl
  have first (of : Value) (next : Entries → Except FieldError (Value × Bool)) :
      (match of, s.entries? of with
        | .null, _ => pure [("type", mixedType)] >>= next
        | _, some [] => pure [("type", mixedType)] >>= next
        | _, some entries =>
          if Keyed.has entries "type" then pure entries >>= next
          else pure [("type", of)] >>= next
        | _, none =>
          if of.kind?.isSome then pure [("type", of)] >>= next
          else throw (.unsupported key of) >>= next)
      = mapEntries s key of >>= next := by
    unfold mapEntries
    split
    · rfl
    · rfl
    · split <;> rfl
    · split <;> rfl
  unfold mapValue mapOf
  lift_lets
  intro of inherit finish
  rcases s.items? of with _ | items
  · refine (first of _).trans (congrArg _ (funext fun value => ?_))
    exact next of false finish value
  · refine (first _ _).trans (congrArg _ (funext fun value => ?_))
    exact next _ true finish value

end Maps

/-! ## Elements, stage by stage -/

section Elements

variable (s)

/-- An element that is a marker stands for a mapping of that type. -/
def elementType (el : Element) : Value :=
  if el.value.kind?.isSome then .dict [("type", el.value)] else el.value

/-- The field of an element whose type is known, whatever outer array and map it has. -/
def describeTyped (nested : Entries → Except FieldError (List Field)) (key : String)
    (el : Element) (isMap : Bool) (value : Value) (mapOfArray : Bool) : Except FieldError Field :=
  let isArray := el.isArray || mapOfArray
  match s.embedding? value with
  | some e =>
    return { key, shape := .embedded e.name e.isArray, optional := el.optional, isArray, isMap,
             mapOfArray, isSubdocumentArray := isArray && e.isArray }
  | none =>
    let ref := (s.get? value "ref").getD .null
    if s.truthy ref then do
      let model ← referenceName s key ref
      return { key, shape := .reference model (idKind? s value), optional := el.optional,
               isArray, isMap, mapOfArray }
    else do
      let shape ← shapeOf s nested key value
      return { key, shape, isArray, isMap, mapOfArray,
               optional := el.optional && !shape.isNested && key != "_id" }

theorem describeElement_eq (nested : Entries → Except FieldError (List Field)) (key : String)
    (raw : Value) (el : Element) : describeElement s nested key raw el =
      if (s.items? el.value).isSome || (typeItems? s el.value).isSome then
        throw (.unsupported key raw)
      else if isArrayMarker s (elementType el) then
        pure { key, shape := .mixed, isArray := true,
               optional := if el.isArray then el.optional
                 else isDefaultUndefined s (elementType el) }
      else
        (if isMapMarker s (elementType el) then mapValue s key (elementType el)
          else pure (elementType el, false)) >>= fun r =>
        describeTyped s nested key el (isMapMarker s (elementType el)) r.1 r.2 := by
  unfold describeElement
  lift_lets
  intro value isMap finish typed
  split
  · rfl
  · show (if isArrayMarker s (elementType el) then _ else _) = _
    split
    · rfl
    · show (if isMapMarker s (elementType el) then _ else _) = (if _ then _ else _) >>= _
      split <;> rfl

/-- Whether a definition refers to a model. -/
def refers (v : Value) : Bool := s.truthy ((s.get? v "ref").getD .null)

/-- The field of an element whose type is known is that of a hoisted child, of a reference or of a
shape. -/
inductive Typed (nested : Entries → Except FieldError (List Field)) (key : String) (el : Element)
    (isMap : Bool) (value : Value) (mapOfArray : Bool) : Field → Prop where
  | embedded {e : Embedding} : s.embedding? value = some e →
      Typed nested key el isMap value mapOfArray
        { key, shape := .embedded e.name e.isArray, optional := el.optional,
          isArray := el.isArray || mapOfArray, isMap, mapOfArray,
          isSubdocumentArray := (el.isArray || mapOfArray) && e.isArray }
  | reference {model : String} : s.embedding? value = none → refers s value →
      referenceName s key ((s.get? value "ref").getD .null) = .ok model →
      Typed nested key el isMap value mapOfArray
        { key, shape := .reference model (idKind? s value), optional := el.optional,
          isArray := el.isArray || mapOfArray, isMap, mapOfArray }
  | shaped {shape : Shape} : s.embedding? value = none → refers s value = false →
      shapeOf s nested key value = .ok shape →
      Typed nested key el isMap value mapOfArray
        { key, shape, optional := el.optional && !shape.isNested && key != "_id",
          isArray := el.isArray || mapOfArray, isMap, mapOfArray }

end Elements

theorem describeTyped_ok_iff {nested : Entries → Except FieldError (List Field)} {el : Element}
    {isMap mapOfArray : Bool} {field : Field} :
    describeTyped s nested key el isMap v mapOfArray = .ok field ↔
      Typed s nested key el isMap v mapOfArray field := by
  unfold describeTyped
  constructor
  · intro h
    rcases he : s.embedding? v with _ | e <;> rw [he] at h <;> dsimp only at h
    · split at h
      case isTrue refers =>
        obtain ⟨model, hm, h⟩ := Except.bind_eq_ok_iff.1 h
        cases h
        exact .reference he refers hm
      case isFalse plain =>
        obtain ⟨shape, hs, h⟩ := Except.bind_eq_ok_iff.1 h
        cases h
        exact .shaped he (Bool.eq_false_iff.2 plain) hs
    · cases h
      exact .embedded he
  · intro typed
    cases typed with
    | embedded he =>
      rw [he]
      rfl
    | reference he refers hm =>
      rw [he]
      refine (if_pos refers).trans ?_
      rw [hm]
      rfl
    | shaped he plain hs =>
      rw [he]
      refine (if_neg (Bool.eq_false_iff.1 plain)).trans ?_
      rw [hs]
      rfl

/-! ## What is declared of values that are there -/

theorem mapEntries_of_ne (h : v ≠ .null) : mapEntries s key v = match s.entries? v with
    | some [] => pure [("type", mixedType)]
    | some entries => if Keyed.has entries "type" then pure entries else pure [("type", v)]
    | none => if v.kind?.isSome then pure [("type", v)] else throw (.unsupported key v) := by
  unfold mapEntries
  split <;> simp_all

theorem enumValues_of_ne (h : v ≠ .null) : enumValues s key v =
    match s.enumeration? v, s.sequence? v, s.entries? v with
    | some (_, members), _, _ => .ok (some (Keyed.values members))
    | none, some items, _ => .ok (some items)
    | none, none, some entries =>
      .ok (some (((Keyed.get? entries "values").bind s.sequence?).getD (Keyed.values entries)))
    | none, none, none =>
      match (s.attribute? v "values").bind s.sequence? with
      | some items => .ok (some items)
      | none => .error (.unsupported key v) := by
  unfold enumValues
  split
  · exact absurd rfl h
  · rfl

theorem shapeOf_of_entries {nested : Entries → Except FieldError (List Field)} {entries : Entries}
    (h : s.entries? v = some entries) (hne : entries ≠ []) : shapeOf s nested key v =
      match Keyed.get? entries "type" with
      | none => do return .nested (← nested entries)
      | some type =>
        match s.entries? type with
        | some [] => return .mixed
        | some inner => do return .nested (← nested inner)
        | none =>
          match type.kind? with
          | none | some (.container .map) | some (.container .array) =>
            throw (.unsupported key type)
          | some (.container .object) => return .mixed
          | some (.primitive kind) =>
            if kind = .string || kind = .number then do
              return .scalar kind (← enumValues s key ((Keyed.get? entries "enum").getD .null))
            else return .scalar kind none := by
  unfold shapeOf
  rw [h]
  cases entries with
  | nil => exact absurd rfl hne
  | cons e rest => rfl

/-! ## Types that are markers -/

/-- The shape of a mapping whose type is no mapping. -/
def markerShape (s : Store) (key : String) (entries : Entries) (type : Value) :
    Except FieldError Shape :=
  match type.kind? with
  | none | some (.container .map) | some (.container .array) => throw (.unsupported key type)
  | some (.container .object) => return .mixed
  | some (.primitive kind) =>
    if kind = .string || kind = .number then do
      return .scalar kind (← enumValues s key ((Keyed.get? entries "enum").getD .null))
    else return .scalar kind none

theorem shapeOf_of_marker {nested : Entries → Except FieldError (List Field)} {entries : Entries}
    {type : Value} (h : s.entries? v = some entries) (ht : Keyed.get? entries "type" = some type)
    (hm : s.entries? type = none) : shapeOf s nested key v = markerShape s key entries type := by
  have hne : entries ≠ [] := by
    rintro rfl
    cases ht
  rw [shapeOf_of_entries h hne, ht]
  dsimp only
  rw [hm]
  rfl

theorem scalar_of_markerShape {entries : Entries} {type : Value} {sh : Shape}
    (h : markerShape s key entries type = .ok sh) : ∃ kind enum, sh = .scalar kind enum := by
  unfold markerShape at h
  split at h
  case h_1 | h_2 | h_3 => cases h
  case h_4 =>
    cases h
    exact ⟨_, _, rfl⟩
  case h_5 kind _ =>
    split at h
    · cases he : enumValues s key ((Keyed.get? entries "enum").getD .null) <;> rw [he] at h <;>
        cases h
      exact ⟨_, _, rfl⟩
    · cases h
      exact ⟨_, _, rfl⟩

end ModelTypes.Field
