import ModelTypes.Proofs.Compile.Projections
import ModelTypes.Proofs.Field.Stages
import ModelTypes.Proofs.Keyed
/-!
# Arrays of a definition

An array declares its element with one array around it. The two are read in the same way but for
the outer array, so their types differ by that array, unless the element is a map of arrays: a
field knows of one array only, and there it is the one in the map.
-/

namespace ModelTypes

namespace Field

variable {s : Store} {key : String} {raw v : Value} {items rest : List Value} {field : Field}

/-- Whether a definition is an array by a list, itself or as its type. -/
def isListed (s : Store) (v : Value) : Bool := (s.items? v).isSome || (typeItems? s v).isSome

/-! ## Taking the outer array off -/

theorem isVirtual_of_items (h : s.items? raw = some items) : isVirtual s raw = false := by
  cases raw with
  | list _ => rfl
  | shared a =>
    rcases hn : s.nodes[a]? with _ | node
    · simp [Store.items?, Store.node?, hn] at h
    · cases node <;> simp_all [isVirtual, Store.items?, Store.entries?, Store.node?,
        Store.attribute?]
  | _ => simp [Store.items?, Store.node?] at h

/-- What has a type is no virtual. -/
theorem isVirtual_of_type {type : Value} (h : s.get? v "type" = some type) :
    isVirtual s v = false := by
  obtain ⟨entries, he, ht⟩ := Option.bind_eq_some_iff.1 h
  simp [isVirtual, he, Keyed.has_iff_get?.2 ⟨type, ht⟩]

theorem isVirtual_of_element {el : Element} (h : element s raw = .ok el) (array : el.isArray) :
    isVirtual s raw = false := by
  rcases hl : s.items? raw with _ | items
  · rcases he : s.entries? raw with _ | entries <;> rcases ht : typeItems? s raw with _ | items
    case some.some =>
      obtain ⟨type, typed, -⟩ := Option.bind_eq_some_iff.1 ht
      exact isVirtual_of_type typed
    all_goals
      unfold element at h
      rw [hl, he, ht] at h
      cases h
      cases array
  · exact isVirtual_of_items hl

theorem element_of_items (h : s.items? raw = some (v :: rest)) :
    ∃ optional, element s raw = .ok ⟨v, true, optional⟩ := by
  unfold element
  rw [h]
  exact ⟨_, rfl⟩

theorem element_of_not_isListed (h : isListed s v = false) :
    element s v = .ok ⟨v, false, !isRequired s v⟩ := by
  obtain ⟨items, types⟩ : s.items? v = none ∧ typeItems? s v = none := by
    simpa [isListed] using h
  unfold element
  rw [items, types]
  cases s.entries? v <;> rfl

theorem describeElement_of_isListed {nested : Entries → Except FieldError (List Field)}
    {el : Element} (h : isListed s el.value) :
    describeElement s nested key raw el = .error (.unsupported key raw) := by
  unfold isListed at h
  rw [describeElement_eq, if_pos h]
  rfl

theorem describeElement_of_not_isListed {nested : Entries → Except FieldError (List Field)}
    {el : Element} (h : isListed s el.value = false) : describeElement s nested key raw el =
      if isArrayMarker s (elementType el) then
        pure { key, shape := .mixed, isArray := true,
               optional := if el.isArray then el.optional
                 else isDefaultUndefined s (elementType el) }
      else
        (if isMapMarker s (elementType el) then mapValue s key (elementType el)
          else pure (elementType el, false)) >>= fun r =>
        describeTyped s nested key el (isMapMarker s (elementType el)) r.1 r.2 := by
  unfold isListed at h
  rw [describeElement_eq, if_neg (by simp [h])]

theorem isListed_of_describeElement {nested : Entries → Except FieldError (List Field)}
    {el : Element} (h : describeElement s nested key raw el = .ok field) :
    isListed s el.value = false := by
  refine Bool.eq_false_iff.2 fun listed => ?_
  rw [describeElement_of_isListed listed] at h
  cases h

/-! ## Children and maps -/

theorem entries?_of_embedding {e : Embedding} (h : s.embedding? v = some e) :
    s.entries? v = none := by
  cases v with
  | embedded _ _ => rfl
  | shared a =>
    rcases hn : s.nodes[a]? with _ | node
    · simp [Store.embedding?, Store.node?, hn] at h
    · cases node <;> simp_all [Store.embedding?, Store.entries?, Store.node?]
  | _ => simp [Store.embedding?, Store.node?] at h

theorem kind?_of_embedding {e : Embedding} (h : s.embedding? v = some e) : v.kind? = none := by
  cases v with
  | embedded _ _ | shared _ => rfl
  | _ => simp [Store.embedding?, Store.node?] at h

theorem get?_of_embedding {e : Embedding} (h : s.embedding? v = some e) (name : String) :
    s.get? v name = none := by
  rw [Store.get?, entries?_of_embedding h]
  rfl

theorem embedding?_elementType {el : Element} :
    s.embedding? (elementType el) = s.embedding? el.value := by
  unfold elementType
  split
  case isFalse => rfl
  case isTrue marker =>
    rcases he : s.embedding? el.value with _ | e
    · rfl
    · rw [kind?_of_embedding he] at marker
      cases marker

/-- A hoisted child is no map. -/
theorem embedding?_of_isMapMarker {el : Element} (h : isMapMarker s (elementType el)) :
    s.embedding? el.value = none := by
  rw [← embedding?_elementType]
  rcases he : s.embedding? (elementType el) with _ | e
  · rfl
  · simp [isMapMarker, typeKind?, get?_of_embedding he] at h

theorem embedding?_of_mapValue {r : Value × Bool} (h : mapValue s key v = .ok r) :
    s.embedding? r.1 = none := by
  rw [mapValue_eq] at h
  obtain ⟨value, -, h⟩ := Except.bind_eq_ok_iff.1 h
  obtain ⟨typed, -, h⟩ := Except.bind_eq_ok_iff.1 h
  cases h
  rfl

/-! ## The field of an array -/

/-- What is known of a field that is read from an element without an outer array. -/
structure Single (s : Store) (v : Value) (field : Field) : Prop where
  isArray : field.isArray = field.mapOfArray
  isMap : field.mapOfArray → field.isMap ∧ s.embedding? v = none
  isSubdocumentArray : field.isSubdocumentArray = false

/-- The field of an array of which `field` is the element. -/
def arrayOf (s : Store) (v : Value) (optional : Bool) (field : Field) : Field :=
  { field with
    optional
    isArray := true
    isSubdocumentArray := (s.embedding? v).any (·.isArray) }

theorem describeTyped_array {nested : Entries → Except FieldError (List Field)} {isMap : Bool}
    {value : Value} {mapOfArray o o' : Bool} (embeds : s.embedding? value = s.embedding? v)
    (single : mapOfArray → isMap ∧ s.embedding? v = none)
    (h : describeTyped s nested key ⟨v, false, o⟩ isMap value mapOfArray = .ok field) :
    Single s v field ∧ ∃ optional, describeTyped s nested key ⟨v, true, o'⟩ isMap value mapOfArray
      = .ok (arrayOf s v optional field) := by
  cases describeTyped_ok_iff.1 h with
  | embedded he =>
    obtain rfl : mapOfArray = false := by
      refine Bool.eq_false_iff.2 fun hm => ?_
      rw [embeds, (single hm).2] at he
      cases he
    refine ⟨⟨rfl, by simp, rfl⟩, o', (describeTyped_ok_iff.2 (.embedded he)).trans ?_⟩
    simp [arrayOf, ← embeds, he]
  | reference he refers hm =>
    have none : s.embedding? v = none := embeds.symm.trans he
    refine ⟨⟨rfl, fun hm => ⟨(single hm).1, none⟩, rfl⟩, o',
      (describeTyped_ok_iff.2 (.reference he refers hm)).trans ?_⟩
    simp [arrayOf, none]
  | @shaped shape he plain hs =>
    have none : s.embedding? v = none := embeds.symm.trans he
    refine ⟨⟨rfl, fun hm => ⟨(single hm).1, none⟩, rfl⟩, o' && !shape.isNested && key != "_id",
      (describeTyped_ok_iff.2 (.shaped he plain hs)).trans ?_⟩
    simp [arrayOf, none]

theorem describeElement_array {nested : Entries → Except FieldError (List Field)} {o o' : Bool}
    (single : field.isArray = false ∨ field.isMap = true)
    (h : describeElement s nested key v ⟨v, false, o⟩ = .ok field) :
    Single s v field ∧ ∃ optional, describeElement s nested key raw ⟨v, true, o'⟩
      = .ok (arrayOf s v optional field) := by
  have unlisted : isListed s v = false := isListed_of_describeElement h
  rw [describeElement_of_not_isListed unlisted] at h ⊢
  have element (isArray optional : Bool) :
      elementType (⟨v, isArray, optional⟩ : Element) = elementType ⟨v, false, o⟩ := rfl
  simp only [element] at h ⊢
  split at h
  · cases h
    simp at single
  rw [if_neg ‹_›]
  obtain ⟨⟨value, mapOfArray⟩, hv, h⟩ := Except.bind_eq_ok_iff.1 h
  rw [hv]
  show _ ∧ ∃ optional, describeTyped s nested key ⟨v, true, o'⟩ _ value mapOfArray = _
  split at hv
  case isTrue hm =>
    have none := embedding?_of_isMapMarker hm
    exact describeTyped_array ((embedding?_of_mapValue hv).trans none.symm)
      (fun _ => ⟨hm, none⟩) h
  case isFalse =>
    cases hv
    exact describeTyped_array embedding?_elementType (by simp) h

/-- A declared key of something that is no virtual is read from the element. -/
theorem describeWithin_of_stored {room : Nat} (declared : internalKeys.contains key = false)
    (stored : isVirtual s v = false) : describeWithin s (room + 1) key v =
      match element s v with
      | .error optional => .ok (some { key, shape := .mixed, optional, isArray := true })
      | .ok el => some <$> describeElement s
          (fun fields => fields.filterMapM fun f => describeWithin s room f.1 f.2) key v el := by
  rw [describeWithin, declared, stored]
  rfl

theorem stored_of_describeWithin {room : Nat} (stored : field.shape ≠ .virtual)
    (h : describeWithin s (room + 1) key v = .ok (some field)) :
    internalKeys.contains key = false ∧ isVirtual s v = false := by
  rw [describeWithin] at h
  split at h
  case isTrue => cases h
  case isFalse declared =>
    refine ⟨Bool.eq_false_iff.2 declared, ?_⟩
    split at h
    case isFalse hv => exact Bool.eq_false_iff.2 hv
    case isTrue =>
      split at h
      · cases h
      · cases h
        exact absurd rfl stored

/-- An array of a definition with one array at most is read as the array of what the definition
declares, and refused if the definition is an array by a list. -/
theorem describe_array {depth : Int} {o : Bool} (outer : element s raw = .ok ⟨v, true, o⟩)
    (described : describe s key v depth = .ok (some field)) (stored : field.shape ≠ .virtual)
    (single : field.isArray = false ∨ field.isMap = true) :
    if isListed s v then describe s key raw depth = .error (.unsupported key raw)
    else Single s v field ∧
      ∃ optional, describe s key raw depth = .ok (some (arrayOf s v optional field)) := by
  unfold describe at described ⊢
  generalize (maxNestingDepth + 1 - depth).toNat = room at described ⊢
  cases room with
  | zero => cases described
  | succ room =>
    obtain ⟨declared, hv⟩ := stored_of_describeWithin stored described
    rw [describeWithin_of_stored declared hv] at described
    rw [describeWithin_of_stored declared (isVirtual_of_element outer rfl), outer]
    dsimp only
    rcases listed : isListed s v with _ | _
    · rw [if_neg (by simp)]
      rw [element_of_not_isListed listed] at described
      obtain ⟨_, h, h'⟩ := Except.map_eq_ok_iff.1 described
      cases h'
      obtain ⟨hs, optional, h⟩ : Single s v field ∧ ∃ optional,
          describeElement s _ key raw ⟨v, true, o⟩ = .ok (arrayOf s v optional field) :=
        describeElement_array single h
      rw [h]
      exact ⟨hs, optional, rfl⟩
    · rw [if_pos rfl, describeElement_of_isListed listed]
      rfl

end Field

/-! ## The type of an array -/

namespace Compile

open ModelTypes.Field

variable {s : Store} {p : Projection} {key : String} {raw v : Value} {rest : List Value}
  {field : Field} {type : String}

theorem type?_eq_ok_iff (stored : field.shape ≠ .virtual) :
    Render.type? s p field = .ok (some type) ↔
      ∃ text, Render.shape s p field.shape = .ok text ∧ field.wrap p.document text = type := by
  obtain ⟨key, sh, o, a, m, ma, sa⟩ := field
  rw [Render.type?_eq stored]
  refine Except.map_eq_ok_iff.trans ?_
  simp only [Option.some.injEq]
  rfl

theorem fieldType?_of_describe (read : Field.describe s key raw = .ok (some field)) :
    fieldType? s p key raw = (Render.type? s p field).mapError .render := by
  unfold fieldType?
  rw [read]
  rfl

theorem fieldType?_of_describe_error {e : FieldError} (read : Field.describe s key raw = .error e) :
    fieldType? s p key raw = .error (.field e) := by
  unfold fieldType?
  rw [read]
  rfl

/-- The type of a field is the type of its shape, wrapped. -/
theorem fieldType?_eq_ok_iff (read : Field.describe s key raw = .ok (some field))
    (stored : field.shape ≠ .virtual) : fieldType? s p key raw = .ok (some type) ↔
      ∃ text, Render.shape s p field.shape = .ok text ∧ field.wrap p.document text = type := by
  rw [fieldType?_of_describe read, mapError_eq_ok_iff, type?_eq_ok_iff stored]

theorem wrap_arrayOf {text : String} {optional document : Bool} (h : Single s v field) :
    (arrayOf s v optional field).wrap document text =
      if field.mapOfArray then field.wrap document text
      else Line.wrapArray (field.wrap document text) document
        ((s.embedding? v).any (·.isArray)) := by
  obtain ⟨key, sh, o, a, m, ma, sa⟩ := field
  obtain ⟨ha, hm, hs⟩ := h
  dsimp only at ha hm hs
  subst ha hs
  cases a with
  | false => simp [FieldOf.wrap, arrayOf]
  | true =>
    obtain ⟨rfl, he⟩ := hm rfl
    simp [FieldOf.wrap, arrayOf, he]

/-- The type of an array, by a list or by a list as its type, is the type of its element with an
array around it; arrays by lists in arrays are refused. Of a map of arrays, what an array around it
adds is lost. -/
theorem fieldType?_array {o : Bool} (outer : Field.element s raw = .ok ⟨v, true, o⟩)
    (described : Field.describe s key v = .ok (some field)) (stored : field.shape ≠ .virtual)
    (single : field.isArray = false ∨ field.isMap = true)
    (accepted : fieldType? s p key v = .ok (some type)) :
    fieldType? s p key raw =
      if isListed s v then .error (.field (.unsupported key raw))
      else if field.mapOfArray then .ok (some type)
      else .ok (some (Line.wrapArray type p.document ((s.embedding? v).any (·.isArray)))) := by
  have read := Field.describe_array outer described stored single
  split
  case isTrue listed =>
    rw [if_pos listed] at read
    exact fieldType?_of_describe_error read
  case isFalse listed =>
    rw [if_neg listed] at read
    obtain ⟨single, optional, read⟩ := read
    obtain ⟨text, shaped, rfl⟩ := (fieldType?_eq_ok_iff described stored).1 accepted
    have typed := (fieldType?_eq_ok_iff (p := p) read stored).2 ⟨text, shaped, rfl⟩
    rw [typed, wrap_arrayOf single]
    split <;> rfl

/-- The type of `[v]` is the type of `v` with an array around it, unless `v` is itself an array by
a list, which is refused, or a map of arrays, to which the list adds nothing. -/
theorem fieldType?_list (list : s.items? raw = some (v :: rest))
    (described : Field.describe s key v = .ok (some field)) (stored : field.shape ≠ .virtual)
    (single : field.isArray = false ∨ field.isMap = true)
    (accepted : fieldType? s p key v = .ok (some type)) :
    fieldType? s p key raw =
      if isListed s v then .error (.field (.unsupported key raw))
      else if field.mapOfArray then .ok (some type)
      else .ok (some (Line.wrapArray type p.document ((s.embedding? v).any (·.isArray)))) :=
  (element_of_items list).elim fun _ outer =>
    fieldType?_array outer described stored single accepted

theorem fieldType?_list_scores :
    fieldType? {} { document := false } "scores"
        (.list [.dict [("type", .str "Map"), ("of", .str "Number")]])
      = .ok (some "(Map<string, number>)[]") := by
  have described : Field.describe {} "scores" (.dict [("type", .str "Map"), ("of", .str "Number")])
      = .ok (some { key := "scores", shape := .scalar .number none, isMap := true }) := rfl
  have accepted : fieldType? {} { document := false } "scores"
      (.dict [("type", .str "Map"), ("of", .str "Number")])
      = .ok (some "Map<string, number>") := rfl
  exact fieldType?_list rfl described (by simp) (.inr rfl) accepted

/-- An array of maps of arrays comes out as a map of arrays. -/
theorem fieldType?_list_loses_array : ¬ ∀ (s : Store) (p : Projection) (key : String)
    (raw v : Value) (field : Field) (type : String), s.items? raw = some [v] →
    Field.describe s key v = .ok (some field) → field.shape ≠ .virtual →
    field.isArray = false ∨ field.isMap = true → fieldType? s p key v = .ok (some type) →
    (∃ key' v', fieldType? s p key raw = .error (.field (.unsupported key' v'))) ∨
      fieldType? s p key raw =
        .ok (some (Line.wrapArray type p.document ((s.embedding? v).any (·.isArray)))) := by
  intro composes
  have lists := composes {} { document := false } "grid"
    (.list [.dict [("type", .str "Map"), ("of", .list [.str "Number"])]])
    (.dict [("type", .str "Map"), ("of", .list [.str "Number"])])
    { key := "grid", shape := .scalar .number none, isArray := true, isMap := true,
      mapOfArray := true }
    "Map<string, number[]>" rfl rfl (by simp) (.inr rfl) rfl
  have declared : fieldType? {} { document := false } "grid"
      (.list [.dict [("type", .str "Map"), ("of", .list [.str "Number"])]])
      = .ok (some "Map<string, number[]>") := rfl
  rw [declared] at lists
  obtain ⟨key', v', h⟩ | h := lists
  · cases h
  · exact absurd (Option.some.inj (Except.ok.inj h)) (by decide)

end Compile
end ModelTypes
