import ModelTypes.Proofs.Field.Maps
/-!
# A list, and a list as a type

An array is declared by a list of its element, or by that list as its type. The element of the
first is what stands in the list; that of the second is a mapping put together anew. The two read
the same (`Agrees`) if what stands in the list says no more than the new mapping keeps (`Uniform`).
-/

namespace ModelTypes.Field

/-- What says no more of an array's element than is kept of it in a list as a type: a type marker,
an object, or a mapping with a type that is no list, which says nothing of a map's values or of
enumerated ones. -/
inductive Uniform (s : Store) (x : Value) : Prop where
  | marker : x.kind?.isSome → Uniform s x
  | object {entries : Entries} : s.entries? x = some entries → Keyed.get? entries "type" = none →
      Keyed.get? entries "ref" = none → Uniform s x
  | typed {entries : Entries} {type : Value} : s.entries? x = some entries →
      Keyed.get? entries "type" = some type → s.items? type = none →
      Keyed.get? entries "of" = none → Keyed.get? entries "enum" = none → Uniform s x

variable {s : Store} {key : String} {raw raw' x v t : Value} {rest rest' : List Value}
  {entries value : Entries} {el el' : Element}
  {nested : Entries → Except FieldError (List Field)}

theorem get?_of_entries (he : s.entries? v = some entries) (name : String) :
    s.get? v name = Keyed.get? entries name := by
  rw [Store.get?, he]
  rfl

theorem get?_of_kind (h : v.kind?.isSome) (name : String) : s.get? v name = none := by
  rw [Store.get?, entries?_of_kind h]
  rfl

/-! ## What is neither a list nor a child -/

theorem items?_of_kind (h : v.kind?.isSome) : s.items? v = none := by
  cases v with
  | str _ | kind _ | marker _ => rfl
  | _ => simp [Value.kind?] at h

theorem isListed_of_uniform (h : Uniform s x) : isListed s x = false := by
  cases h with
  | marker hk => simp [isListed, items?_of_kind hk, typeItems?, get?_of_kind hk]
  | object he ht => simp [isListed, items?_of_entries he, typeItems?, get?_of_entries he, ht]
  | typed he ht hl => simp [isListed, items?_of_entries he, typeItems?, get?_of_entries he, ht, hl]

theorem embedding?_of_entries (h : s.entries? v = some entries) : s.embedding? v = none := by
  rcases he : s.embedding? v with _ | e
  · rfl
  · rw [entries?_of_embedding he] at h
    cases h

theorem embedding?_of_uniform (h : Uniform s x) : s.embedding? x = none := by
  cases h with
  | marker hk =>
    rcases he : s.embedding? x with _ | e
    · rfl
    · simp [kind?_of_embedding he] at hk
  | object h | typed h => exact embedding?_of_entries h

/-! ## The element of either encoding -/

theorem element_of_list (h : s.items? raw = some (x :: rest)) (plain : s.embedding? x = none) :
    element s raw = .ok ⟨x, true, false⟩ := by
  have taken := encoded s raw
  generalize element s raw = result at taken
  cases taken with
  | list hl =>
    rw [h] at hl
    cases hl
    rw [plain]
    rfl
  | emptyList hl =>
    rw [h] at hl
    cases hl
  | emptyType he | typeList he =>
    rw [items?_of_entries he] at h
    cases h
  | single hl => simp [isListed, h] at hl

theorem element_of_typeItems (he : s.entries? raw = some entries)
    (items : typeItems? s raw = some (x :: rest)) :
    element s raw = .ok ⟨.dict (itemEntries s entries x), true, itemsOptional s raw x⟩ := by
  have taken := encoded s raw
  generalize element s raw = result at taken
  cases taken with
  | typeList he' items' =>
    rw [he] at he'
    rw [items] at items'
    cases he'
    cases items'
    rfl
  | emptyType _ items' =>
    rw [items] at items'
    cases items'
  | list hl | emptyList hl =>
    rw [items?_of_entries he] at hl
    cases hl
  | single hl => simp [isListed, items] at hl

theorem element_of_typeList (he : s.entries? raw = some [("type", t)])
    (h : s.items? t = some (x :: rest)) :
    element s raw = .ok ⟨.dict (itemEntries s [("type", t)] x), true, false⟩ := by
  have items : typeItems? s raw = some (x :: rest) := by
    rw [typeItems?, get?_of_entries he]
    exact h
  have optional : itemsOptional s raw x = false := by
    simp [itemsOptional, isDefaultUndefined, embedding?_of_entries he, get?_of_entries he,
      Keyed.get?_cons]
  rw [element_of_typeItems he items, optional]

theorem isListed_itemEntries (h : Uniform s x) :
    isListed s (.dict (itemEntries s [("type", t)] x)) = false := by
  have type : s.get? (.dict (itemEntries s [("type", t)] x)) "type"
      = some ((s.get? x "type").getD x) := get?_itemEntries_type
  have items : s.items? ((s.get? x "type").getD x) = none := by
    cases h with
    | marker hk =>
      rw [get?_of_kind hk]
      exact items?_of_kind hk
    | object he ht =>
      rw [get?_of_entries he, ht]
      exact items?_of_entries he
    | typed he ht hl =>
      rw [get?_of_entries he, ht]
      exact hl
  rw [isListed, typeItems?, type, Option.bind_some, items]
  rfl

/-! ## The two elements read the same -/

/-- An object reads as a mapping of which it is the type, also when it is empty. -/
theorem agrees_of_object (he : s.entries? v = some entries)
    (untyped : Keyed.get? entries "type" = none) (plain : Keyed.get? entries "ref" = none) :
    Agrees s v [("type", v)] := by
  have unreferring : refers s v = false := by
    rw [refers, get?_of_entries he, plain]
    rfl
  cases entries with
  | cons e rest => exact agrees_of_untyped he untyped unreferring
  | nil =>
    have kind : typeKind? s v = none := by
      rw [typeKind?, get?_of_entries he]
      rfl
    have kind' : typeKind? s (.dict [("type", v)]) = none := kind?_of_entries he
    refine ⟨by rw [isArrayMarker, isArrayMarker, kind, kind'],
      by rw [isMapMarker, isMapMarker, kind, kind'], unreferring.symm, fun refers => ?_,
      fun _ nested key => ?_⟩
    · rw [unreferring] at refers
      cases refers
    · have itself : Keyed.get? [("type", v)] "type" = some v := rfl
      rw [shapeOf_of_entries (v := .dict [("type", v)]) rfl (by simp), itself, shapeOf]
      dsimp only
      rw [he]

theorem agrees_itemEntries {optional : Bool} (h : Uniform s x) :
    Agrees s (elementType ⟨x, true, optional⟩) (itemEntries s [("type", t)] x) := by
  have untyped (none : s.get? x "type" = none) : itemEntries s [("type", t)] x = [("type", x)] := by
    rw [itemEntries, none]
    rfl
  cases h with
  | marker hk =>
    rw [elementType, if_pos hk, untyped (get?_of_kind hk "type")]
    exact agrees_self
  | object he ht hr =>
    rw [elementType_of_entries he, untyped ((get?_of_entries he "type").trans ht)]
    exact agrees_of_object he ht hr
  | typed he ht _ _ hn =>
    have own := (get?_of_entries he "type").trans ht
    have ref : Keyed.get? (itemEntries s [("type", t)] x) "ref"
        = if refers s x then s.get? x "ref" else none := by
      rw [get?_itemEntries_ref, own]
      rfl
    have type : Keyed.get? (itemEntries s [("type", t)] x) "type" = some _ := get?_itemEntries_type
    rw [own] at type
    rw [elementType_of_entries he]
    refine agrees_of_type he ht type ?_ ?_ fun refers => ?_
    · rw [hn, get?_itemEntries (by decide) (by decide)]
      rfl
    · have get : s.get? (.dict (itemEntries s [("type", t)] x)) "ref" = _ := ref
      rw [refers, get]
      split
      case isTrue => rfl
      case isFalse no_ref => exact (Bool.eq_false_iff.2 no_ref).symm
    · rw [ref, if_pos refers]

/-! ## Maps of anything -/

/-- Without further options a map holds anything, or references. -/
theorem mapValue_of_bare (of : s.get? v "of" = none) (enum : s.get? v "enum" = none) :
    mapValue s key v = .ok (.dict (inheritOption s v [("type", mixedType)] "ref"), false) := by
  have no_of : mapOf s v = (.null, false) := by
    rw [mapOf, of]
    rfl
  have no_enum : inheritOption s v [("type", mixedType)] "enum" = [("type", mixedType)] := by
    rw [inheritOption, enum]
  rw [mapValue_of_mapOf no_of rfl]
  show Except.ok (mapped s v [("type", mixedType)] false) = _
  rw [mapped_eq, if_neg (show ¬ isArrayMarker s (.dict [("type", mixedType)]) = true from
    Bool.false_ne_true), no_enum]

theorem get?_inheritOption_self {option : String} (h : Keyed.get? value option = none) :
    Keyed.get? (inheritOption s v value option) option = s.get? v option := by
  unfold inheritOption
  rw [Keyed.has_eq_false_iff.2 h]
  rcases s.get? v option with _ | w
  · exact h
  · exact Keyed.get?_put_self

theorem agrees_inheritOption (agrees : Agrees s v value) :
    Agrees s (.dict (inheritOption s v [("type", mixedType)] "ref"))
      (inheritOption s (.dict value) [("type", mixedType)] "ref") := by
  have ref (w : Value) : s.get? (.dict (inheritOption s w [("type", mixedType)] "ref")) "ref"
      = s.get? w "ref" := get?_inheritOption_self rfl
  refine agrees_of_type rfl (get?_inheritOption (by decide)) (get?_inheritOption (by decide)) ?_ ?_
    fun refers => ?_
  · rw [get?_inheritOption (by decide), get?_inheritOption (by decide)]
  · rw [refers_of_get? (ref _), refers_of_get? (ref _)]
    exact agrees.refers
  · rw [refers_of_get? (ref v)] at refers
    exact (ref (.dict value)).trans ((agrees.reference refers).1.trans (ref v).symm)

/-! ## One field -/

theorem describeTyped_of_agrees {isMap mapOfArray : Bool} (agrees : Agrees s v value)
    (unembedded : s.embedding? v = none) (array : el.isArray = el'.isArray)
    (optional : el.optional = el'.optional) :
    describeTyped s nested key el isMap v mapOfArray
      = describeTyped s nested key el' isMap (.dict value) mapOfArray := by
  have no_child : s.embedding? (.dict value) = none := rfl
  unfold describeTyped
  rw [unembedded, no_child, array, optional]
  show (if refers s v then _ else _) = (if refers s (.dict value) then _ else _)
  rw [agrees.refers]
  split
  case isTrue refers =>
    obtain ⟨ref, idKind⟩ := agrees.reference refers
    have get : s.get? (.dict value) "ref" = s.get? v "ref" := ref
    rw [get, idKind]
  case isFalse plain => rw [agrees.shape (Bool.eq_false_iff.2 plain)]

/-- What is said of a map's values is said in the list of both encodings or in none. -/
theorem bare_of_uniform {optional : Bool} (h : Uniform s x)
    (map : isMapMarker s (elementType ⟨x, true, optional⟩)) :
    s.get? (elementType ⟨x, true, optional⟩) "of" = none ∧
      s.get? (elementType ⟨x, true, optional⟩) "enum" = none := by
  cases h with
  | marker hk =>
    rw [elementType, if_pos hk]
    exact ⟨rfl, rfl⟩
  | object he ht =>
    rw [elementType_of_entries he, isMapMarker, typeKind?, get?_of_entries he, ht] at map
    cases map
  | typed he _ _ hof hn =>
    rw [elementType_of_entries he, get?_of_entries he, get?_of_entries he]
    exact ⟨hof, hn⟩

theorem describeElement_of_uniform (h : Uniform s x) :
    describeElement s nested key raw ⟨x, true, false⟩
      = describeElement s nested key raw'
        ⟨.dict (itemEntries s [("type", t)] x), true, false⟩ := by
  have agrees : Agrees s (elementType ⟨x, true, false⟩) (itemEntries s [("type", t)] x) :=
    agrees_itemEntries h
  have built : elementType ⟨.dict (itemEntries s [("type", t)] x), true, false⟩
      = .dict (itemEntries s [("type", t)] x) := elementType_of_entries (s := s) rfl
  rw [describeElement_of_not_isListed (isListed_of_uniform h),
    describeElement_of_not_isListed (isListed_itemEntries h), built, agrees.array, agrees.map]
  split
  case isTrue => rfl
  case isFalse =>
  have child : s.embedding? (elementType ⟨x, true, false⟩) = none :=
    embedding?_elementType.trans (embedding?_of_uniform h)
  rcases map : isMapMarker s (elementType ⟨x, true, false⟩) with _ | _
  · exact describeTyped_of_agrees agrees child rfl rfl
  · obtain ⟨of, enum⟩ := bare_of_uniform h map
    have kept (name : String) (type : name ≠ "type") (ref : name ≠ "ref") :
        s.get? (.dict (itemEntries s [("type", t)] x)) name = none := by
      refine (get?_itemEntries type ref).trans ?_
      rw [Keyed.get?_cons, if_neg type]
      rfl
    rw [if_pos rfl, if_pos rfl, mapValue_of_bare of enum,
      mapValue_of_bare (kept "of" (by decide) (by decide)) (kept "enum" (by decide) (by decide))]
    exact describeTyped_of_agrees (agrees_inheritOption agrees) rfl rfl rfl

/-- A list, and a mapping with nothing but that list as its type, are read alike: they give the same
field, or none, or the same error. -/
theorem describe_list_eq_typed {depth : Int} (uniform : Uniform s x)
    (list : s.items? raw = some (x :: rest)) (mapping : s.entries? raw' = some [("type", t)])
    (items : s.items? t = some (x :: rest')) :
    describe s key raw depth = describe s key raw' depth := by
  unfold describe
  cases (maxNestingDepth + 1 - depth).toNat with
  | zero => rfl
  | succ room =>
    rcases declared : internalKeys.contains key with _ | _
    · have typed : s.get? raw' "type" = some t := get?_of_entries mapping "type"
      rw [describeWithin_of_stored declared (isVirtual_of_items list),
        describeWithin_of_stored declared (isVirtual_of_type typed),
        element_of_list list (embedding?_of_uniform uniform), element_of_typeList mapping items]
      dsimp only
      rw [describeElement_of_uniform uniform]
    · rw [describeWithin, describeWithin, declared]
      rfl

/-- A map of references, by a list and by a list as a type. -/
theorem describe_list_eq_typed_members :
    describe {} "members" (.list [.dict [("type", .str "Map"), ("ref", .str "User")]])
      = describe {} "members"
        (.dict [("type", .list [.dict [("type", .str "Map"), ("ref", .str "User")]])]) :=
  describe_list_eq_typed (.typed rfl rfl rfl rfl rfl) rfl rfl rfl

example : (describe {} "members"
    (.list [.dict [("type", .str "Map"), ("ref", .str "User")]])).toOption
      = some (some { key := "members", shape := .reference "User" (some .mixed), optional := false,
                     isArray := true, isMap := true }) := rfl

end ModelTypes.Field
