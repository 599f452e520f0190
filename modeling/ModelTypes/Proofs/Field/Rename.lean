import ModelTypes.Proofs.Compile.Projections
import ModelTypes.Proofs.Field.Stages
import ModelTypes.Proofs.Result
import ModelTypes.Proofs.Value.Rename
/-!
# Renaming the schemas in fields

Reading a definition and writing its field take no notice of which schemas a value mentions: from a
renamed definition the same field is read, with the values in it renamed, or the same error, and the
same type text is written.
-/

namespace ModelTypes

/-! ## Fields with their schemas renamed -/

mutual

def Shape.rename (σ : SchemaId → SchemaId) : Shape → Shape
  | .scalar kind enum => .scalar kind (enum.map (renameAll σ))
  | .nested fields => .nested (renameFields σ fields)
  | .unknown v => .unknown (v.rename σ)
  | sh => sh

def FieldOf.rename (σ : SchemaId → SchemaId) : FieldOf Shape → FieldOf Shape
  | ⟨key, sh, o, a, m, ma, sa⟩ => ⟨key, sh.rename σ, o, a, m, ma, sa⟩

def renameFields (σ : SchemaId → SchemaId) : List (FieldOf Shape) → List (FieldOf Shape)
  | [] => []
  | field :: rest => field.rename σ :: renameFields σ rest

end

def FieldError.rename (σ : SchemaId → SchemaId) : FieldError → FieldError
  | .unsupported key v => .unsupported key (v.rename σ)
  | .tooDeep key => .tooDeep key

def RenderError.rename (σ : SchemaId → SchemaId) : RenderError → RenderError
  | .unknownShape v => .unknownShape (v.rename σ)
  | .literal e => .literal e

def Field.Element.rename (σ : SchemaId → SchemaId) (el : Field.Element) : Field.Element :=
  { el with value := el.value.rename σ }

variable {σ : SchemaId → SchemaId} {s : Store} {v : Value} {key : String}

@[simp] theorem FieldOf.key_rename (field : Field) : (field.rename σ).key = field.key := by
  cases field
  rfl

@[simp] theorem FieldOf.optional_rename (field : Field) :
    (field.rename σ).optional = field.optional := by
  cases field
  rfl

@[simp] theorem Shape.isNested_rename (sh : Shape) : (sh.rename σ).isNested = sh.isNested := by
  cases sh <;> rfl

/-! ## Reading definitions -/

namespace Field

/-- What a step of the reading gives for a renamed definition. -/
abbrev renamed {α β : Type} (σ : SchemaId → SchemaId) (f : α → β) :
    Except FieldError α → Except FieldError β :=
  Except.bimap f (FieldError.rename σ)

section Reading

variable (hs : s.Fixed σ)

include hs

theorem isRequired_rename : isRequired s (v.rename σ) = isRequired s v := by
  unfold isRequired
  rw [Store.embedding?_rename]
  cases s.embedding? v with
  | some e => rfl
  | none =>
    rw [Store.get?_rename hs]
    cases s.get? v "required" with
    | none => rfl
    | some required =>
      show ((s.first? (required.rename σ)).map _).getD false = ((s.first? required).map _).getD false
      rw [Store.first?_rename hs]
      cases s.first? required <;> simp

theorem isDefaultUndefined_rename : isDefaultUndefined s (v.rename σ) = isDefaultUndefined s v := by
  unfold isDefaultUndefined
  rw [Store.embedding?_rename, Store.get?_rename hs]
  cases s.get? v "default" <;> simp

theorem isVirtual_rename : isVirtual s (v.rename σ) = isVirtual s v := by
  unfold isVirtual
  rw [Store.entries?_rename hs]
  cases s.entries? v with
  | some entries => simp
  | none => simp [Store.attribute?_rename hs]

theorem typeItems?_rename : typeItems? s (v.rename σ) = (typeItems? s v).map (renameAll σ) := by
  unfold typeItems?
  rw [Store.get?_rename hs]
  cases s.get? v "type" with
  | none => rfl
  | some type => exact Store.items?_rename hs

theorem typeKind?_rename : typeKind? s (v.rename σ) = typeKind? s v := by
  unfold typeKind?
  rw [Store.get?_rename hs]
  cases s.get? v "type" <;> simp

theorem isArrayMarker_rename : isArrayMarker s (v.rename σ) = isArrayMarker s v := by
  rw [isArrayMarker, typeKind?_rename hs, isArrayMarker]

theorem isMapMarker_rename : isMapMarker s (v.rename σ) = isMapMarker s v := by
  rw [isMapMarker, typeKind?_rename hs, isMapMarker]

theorem idKind?_rename : idKind? s (v.rename σ) = idKind? s v := by
  rw [idKind?, typeKind?_rename hs, idKind?]

theorem element_rename : element s (v.rename σ) = (element s v).bimap (·.rename σ) id := by
  unfold element
  rw [Store.items?_rename hs]
  rcases s.items? v with _ | _ | ⟨first, rest⟩
  · rw [Option.map_none, Store.entries?_rename hs, typeItems?_rename hs, isRequired_rename hs,
      isDefaultUndefined_rename hs, Store.get?_rename hs]
    rcases s.entries? v with _ | entries
    · rfl
    rcases typeItems? s v with _ | _ | ⟨inner, others⟩
    · rfl
    · rfl
    simp only [Option.map_some, renameAll_cons, Store.get?_rename hs, remove_renameUnder]
    cases s.get? inner "type" with
    | some type =>
      cases s.get? inner "ref" with
      | none => simp [Element.rename, Value.rename]
      | some ref =>
        simp only [Option.map_some, Store.truthy_rename, put_renameUnder]
        split <;> simp [Element.rename, Value.rename]
    | none =>
      cases s.get? v "index" <;> simp [Element.rename, Value.rename]
  · rfl
  · simp [Element.rename]

theorem mapOf_rename :
    mapOf s (v.rename σ) = ((mapOf s v).1.rename σ, (mapOf s v).2) := by
  have of : (s.get? (v.rename σ) "of").getD .null
      = ((s.get? v "of").getD .null).rename σ := by
    rw [Store.get?_rename hs]
    exact getD_rename _ .null
  unfold mapOf
  dsimp only
  rw [of, Store.items?_rename hs]
  cases s.items? ((s.get? v "of").getD .null) with
  | none => rfl
  | some items =>
    rw [Option.map_some]
    dsimp only
    rw [head?_renameAll]
    exact congrArg (·, true) (getD_rename _ .null)

theorem mapEntries_rename :
    mapEntries s key (v.rename σ) = renamed σ (renameUnder σ) (mapEntries s key v) := by
  by_cases h : v = .null
  · subst h
    rfl
  · have h' : v.rename σ ≠ .null := by cases v <;> simp_all [Value.rename]
    rw [mapEntries_of_ne h, mapEntries_of_ne h', Store.entries?_rename hs, kind?_rename]
    rcases s.entries? v with _ | _ | ⟨e, rest⟩
    · cases v.kind? <;> rfl
    · rfl
    · show (if Keyed.has (renameUnder σ (e :: rest)) "type" then _ else _) = _
      rw [has_renameUnder]
      dsimp only
      split <;> rfl

theorem mapItems_rename (of : Value) (ofArray : Bool) (value : Entries) :
    mapItems s key (of.rename σ) ofArray (renameUnder σ value)
      = renamed σ (fun r => (renameUnder σ r.1, r.2)) (mapItems s key of ofArray value) := by
  unfold mapItems
  rw [show Value.dict (renameUnder σ value) = (Value.dict value).rename σ from rfl,
    typeItems?_rename hs]
  cases typeItems? s (.dict value) with
  | none => rfl
  | some items =>
    rw [Option.map_some]
    dsimp only
    split
    · rfl
    · have head : (renameAll σ items).head?.getD mixedType
          = (items.head?.getD mixedType).rename σ := by
        rw [head?_renameAll]
        exact getD_rename _ mixedType
      rw [head, put_renameUnder]
      rfl

theorem inheritOption_rename (value : Entries) (option : String) :
    inheritOption s (v.rename σ) (renameUnder σ value) option
      = renameUnder σ (inheritOption s v value option) := by
  unfold inheritOption
  rw [Store.get?_rename hs]
  cases s.get? v option with
  | none => rfl
  | some w =>
    simp only [Option.map_some, has_renameUnder, put_renameUnder]
    split <;> rfl

theorem mapped_rename (value : Entries) (ofArray : Bool) :
    mapped s (v.rename σ) (renameUnder σ value) ofArray
      = ((mapped s v value ofArray).1.rename σ, (mapped s v value ofArray).2) := by
  unfold mapped
  rw [show Value.dict (renameUnder σ value) = (Value.dict value).rename σ from rfl,
    isArrayMarker_rename hs]
  have mixed : Keyed.put (renameUnder σ value) "type" mixedType
      = renameUnder σ (Keyed.put value "type" mixedType) := put_renameUnder (v := mixedType)
  rw [mixed]
  cases isArrayMarker s (.dict value) <;> simp [inheritOption_rename hs, Value.rename]

theorem mapValue_rename : mapValue s key (v.rename σ)
    = renamed σ (fun r => (r.1.rename σ, r.2)) (mapValue s key v) := by
  rw [mapValue_eq, mapValue_eq, mapOf_rename hs]
  refine Except.bimap_bind (mapEntries_rename hs) fun value => ?_
  refine Except.bimap_bind (mapItems_rename hs _ _ _) fun r => ?_
  rw [mapped_rename hs]
  rfl

theorem referenceName_rename (ref : Value) : referenceName s key (ref.rename σ)
    = renamed σ id (referenceName s key ref) := by
  unfold referenceName
  have name : ((s.attribute? (ref.rename σ) "model_name").getD (ref.rename σ)).text?
      = ((s.attribute? ref "model_name").getD ref).text? := by
    rw [Store.attribute?_rename hs]
    cases s.attribute? ref "model_name" <;> simp
  rw [name]
  split <;> rfl

theorem enumValues_rename : enumValues s key (v.rename σ)
    = renamed σ (Option.map (renameAll σ)) (enumValues s key v) := by
  by_cases h : v = .null
  · subst h
    rfl
  have h' : v.rename σ ≠ .null := by cases v <;> simp_all [Value.rename]
  have listed (w : Option Value) :
      (w.map (·.rename σ)).bind s.sequence? = (w.bind s.sequence?).map (renameAll σ) := by
    cases w with
    | none => rfl
    | some w => exact Store.sequence?_rename hs
  rw [enumValues_of_ne h, enumValues_of_ne h', Store.enumeration?_rename, Store.sequence?_rename hs,
    Store.entries?_rename hs, Store.attribute?_rename hs, listed]
  rcases he : s.enumeration? v with _ | ⟨name, members⟩
  · rcases s.sequence? v with _ | items
    · rcases s.entries? v with _ | entries
      · cases (s.attribute? v "values").bind s.sequence? <;> rfl
      · simp only [Option.map_none, Option.map_some, get?_renameUnder, listed]
        cases (Keyed.get? entries "values").bind s.sequence? <;> simp
    · rfl
  · have fixed := Store.rename_enumeration? hs he
    have values : renameAll σ (Keyed.values members) = Keyed.values members := by
      rw [← values_renameUnder, fixed]
    simp [values]

variable {nested : Entries → Except FieldError (List Field)}
  (hn : ∀ fields, nested (renameUnder σ fields) = renamed σ (renameFields σ) (nested fields))

include hn in
theorem shapeOf_rename :
    shapeOf s nested key (v.rename σ) = renamed σ (Shape.rename σ) (shapeOf s nested key v) := by
  have below (fields : Entries) : (do return Shape.nested (← nested (renameUnder σ fields)))
      = renamed σ (Shape.rename σ) (do return .nested (← nested fields)) :=
    Except.bimap_bind (hn fields) fun _ => rfl
  rcases he : s.entries? v with _ | entries
  · unfold shapeOf
    rw [Store.entries?_rename hs, he]
    rfl
  by_cases hne : entries = []
  · unfold shapeOf
    rw [Store.entries?_rename hs, he, hne]
    rfl
  have he' : s.entries? (v.rename σ) = some (renameUnder σ entries) := by
    rw [Store.entries?_rename hs, he]
    rfl
  have hne' : renameUnder σ entries ≠ [] := by simpa [renameUnder_eq_map] using hne
  rw [shapeOf_of_entries he hne, shapeOf_of_entries he' hne', get?_renameUnder]
  rcases Keyed.get? entries "type" with _ | type
  · exact below entries
  rw [Option.map_some]
  dsimp only
  rw [Store.entries?_rename hs, kind?_rename]
  rcases s.entries? type with _ | _ | ⟨e, rest⟩
  · rcases type.kind? with _ | kind | _ | _ | _
    · rfl
    · have enum : (Option.map (·.rename σ) (Keyed.get? entries "enum")).getD .null
          = ((Keyed.get? entries "enum").getD .null).rename σ :=
        getD_rename _ .null
      simp only [Option.map_none, get?_renameUnder, enum]
      split
      · exact Except.bimap_bind (enumValues_rename hs) fun _ => rfl
      · rfl
    all_goals rfl
  · rfl
  · exact below (e :: rest)

omit hs in
theorem elementType_rename (el : Element) :
    elementType (el.rename σ) = (elementType el).rename σ := by
  show (if (el.value.rename σ).kind?.isSome then Value.dict [("type", el.value.rename σ)]
    else el.value.rename σ) = _
  rw [kind?_rename]
  unfold elementType
  split <;> rfl

include hn in
theorem describeTyped_rename (el : Element) (isMap mapOfArray : Bool) :
    describeTyped s nested key (el.rename σ) isMap (v.rename σ) mapOfArray
      = renamed σ (FieldOf.rename σ) (describeTyped s nested key el isMap v mapOfArray) := by
  unfold describeTyped
  dsimp only
  rw [Store.embedding?_rename]
  cases s.embedding? v with
  | some e => rfl
  | none =>
    have ref : (s.get? (v.rename σ) "ref").getD .null = ((s.get? v "ref").getD .null).rename σ := by
      rw [Store.get?_rename hs]
      exact getD_rename _ .null
    dsimp only
    rw [ref, Store.truthy_rename, idKind?_rename hs]
    split
    · exact Except.bimap_bind (referenceName_rename hs _) fun _ => rfl
    · refine Except.bimap_bind (shapeOf_rename hs hn) fun sh => ?_
      rw [Shape.isNested_rename]
      rfl

include hn in
theorem describeElement_rename (el : Element) :
    describeElement s nested key (v.rename σ) (el.rename σ)
      = renamed σ (FieldOf.rename σ) (describeElement s nested key v el) := by
  have items : (s.items? (el.rename σ).value).isSome = (s.items? el.value).isSome := by
    show (s.items? (el.value.rename σ)).isSome = _
    rw [Store.items?_rename hs, Option.isSome_map]
  have typeItems : (typeItems? s (el.rename σ).value).isSome = (typeItems? s el.value).isSome := by
    show (typeItems? s (el.value.rename σ)).isSome = _
    rw [typeItems?_rename hs, Option.isSome_map]
  rw [describeElement_eq, describeElement_eq, items, typeItems, elementType_rename,
    isArrayMarker_rename hs, isMapMarker_rename hs, isDefaultUndefined_rename hs]
  split
  · rfl
  split
  · rfl
  refine Except.bimap_bind (f := fun r => (r.1.rename σ, r.2)) ?_ fun r =>
    describeTyped_rename hs hn el _ _
  split
  · exact mapValue_rename hs
  · rfl

omit hs in
theorem filterMapM_rename {f : String × Value → Except FieldError (Option Field)}
    (hf : ∀ key v, f (key, v.rename σ) = renamed σ (Option.map (FieldOf.rename σ)) (f (key, v)))
    (fields : Entries) :
    (renameUnder σ fields).filterMapM f = renamed σ (renameFields σ) (fields.filterMapM f) := by
  induction fields with
  | nil => rfl
  | cons e rest ih =>
    obtain ⟨key, v⟩ := e
    rw [renameUnder_cons, List.filterMapM_cons, List.filterMapM_cons]
    refine Except.bimap_bind (hf key v) fun field => ?_
    cases field with
    | none => exact ih
    | some field => exact Except.bimap_bind ih fun _ => rfl

theorem describeWithin_rename (room : Nat) (key : String) (v : Value) :
    describeWithin s room key (v.rename σ)
      = renamed σ (Option.map (FieldOf.rename σ)) (describeWithin s room key v) := by
  induction room generalizing key v with
  | zero => rfl
  | succ room ih =>
    unfold describeWithin
    split
    · rfl
    rw [isVirtual_rename hs]
    split
    · split <;> rfl
    rw [element_rename hs]
    cases element s v with
    | error optional => rfl
    | ok el =>
      have nested := filterMapM_rename (f := fun e => describeWithin s room e.1 e.2) ih
      show some <$> describeElement s _ key (v.rename σ) (el.rename σ) = renamed σ _ (some <$> _)
      rw [describeElement_rename hs nested]
      cases describeElement s _ key v el <;> rfl

theorem describe_rename (key : String) (v : Value) (depth : Int) :
    describe s key (v.rename σ) depth
      = renamed σ (Option.map (FieldOf.rename σ)) (describe s key v depth) :=
  describeWithin_rename hs _ key v

end Reading

end Field

/-! ## Writing fields -/

section Writing

variable {p : Projection} (hs : s.Fixed σ)

include hs

theorem Line.enumValue_rename : Line.enumValue s (v.rename σ) = (Line.enumValue s v).rename σ := by
  unfold Line.enumValue
  rw [Store.member?_rename]
  rcases hm : s.member? v with _ | ⟨enumeration, name, value⟩
  · rfl
  · exact (Store.rename_member? hs hm).symm

theorem Line.enumUnion_rename (values : List Value) :
    Line.enumUnion s (renameAll σ values) = Line.enumUnion s values := by
  have counted : (renameAll σ values).map (Line.enumValue s)
      = (values.map (Line.enumValue s)).map (·.rename σ) := by
    simp [renameAll_eq_map, Line.enumValue_rename hs]
  unfold Line.enumUnion
  rw [counted]
  simp [List.filter_map, Function.comp_def, Store.literal_rename]

namespace Render

theorem scalar_rename (kind : PrimitiveKind) (enum : Option (List Value)) :
    scalar s p kind (enum.map (renameAll σ)) = scalar s p kind enum := by
  rcases enum with _ | _ | ⟨v, rest⟩
  · rfl
  · rfl
  · have union := Line.enumUnion_rename hs (v :: rest)
    cases kind
    case string | number => exact congrArg (Except.mapError RenderError.literal) union
    all_goals rfl

omit hs in
theorem scalar_error {kind : PrimitiveKind} {enum : Option (List Value)} {e : RenderError}
    (h : scalar s p kind enum = .error e) : ∃ l, e = .literal l := by
  unfold scalar at h
  split at h
  · obtain ⟨l, -, rfl⟩ := Except.mapError_eq_error_iff.1 h
    exact ⟨l, rfl⟩
  · obtain ⟨l, -, rfl⟩ := Except.mapError_eq_error_iff.1 h
    exact ⟨l, rfl⟩
  · cases h

omit hs

mutual

theorem shape_rename (hs : s.Fixed σ) : ∀ sh : Shape,
    shape s p (sh.rename σ) = (shape s p sh).bimap id (RenderError.rename σ)
  | .scalar kind enum => by
    rw [Shape.rename, shape, shape, scalar_rename hs]
    rcases h : scalar s p kind enum with e | type
    · obtain ⟨e, rfl⟩ := scalar_error h
      rfl
    · rfl
  | .nested fields => by
    have body := lines_rename hs fields
    rw [Shape.rename, shape, shape, body]
    cases lines s p fields <;> rfl
  | .reference _ _ | .embedded _ _ | .virtual | .unknown _ => rfl

theorem type?_rename (hs : s.Fixed σ) : ∀ field : FieldOf Shape,
    type? s p (field.rename σ) = (type? s p field).bimap id (RenderError.rename σ)
  | ⟨key, sh, o, a, m, ma, sa⟩ => by
    by_cases hv : sh = .virtual
    · subst hv
      rfl
    · have hv' : sh.rename σ ≠ .virtual := by cases sh <;> simp_all [Shape.rename]
      have own := shape_rename hs sh
      rw [FieldOf.rename, type?_eq hv, type?_eq hv', own]
      cases shape s p sh <;> rfl

theorem lines_rename (hs : s.Fixed σ) : ∀ fields : List (FieldOf Shape),
    lines s p (renameFields σ fields) = (lines s p fields).bimap id (RenderError.rename σ)
  | [] => rfl
  | field :: rest => by
    have own := type?_rename hs field
    have others := lines_rename hs rest
    rw [renameFields, lines, lines]
    refine Except.bimap_bind own fun type => Except.bimap_bind others fun body => ?_
    rw [FieldOf.key_rename, FieldOf.optional_rename]
    rfl

end

theorem line_rename (hs : s.Fixed σ) (field : Field) :
    line s p (field.rename σ) = (line s p field).bimap id (RenderError.rename σ) := by
  unfold line
  refine Except.bimap_bind (type?_rename hs field) fun type => ?_
  rw [FieldOf.key_rename, FieldOf.optional_rename]
  cases type <;> rfl

end Render

end Writing

end ModelTypes
