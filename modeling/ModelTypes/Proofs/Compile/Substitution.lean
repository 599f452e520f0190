import ModelTypes.Proofs.Compile.Expansion
import ModelTypes.Proofs.Field.Depth
import ModelTypes.Proofs.Field.Encodings
/-!
# Reading past children

A definition can be read as it was written, with its children in it, or with references in their
places. A child that is read has no type of its own, so where both can be read no child was, and
both readings are the same (`describe_substitute`). A child that is declared beside a reference to a
model is the exception: as it was written it reads as that reference.
-/

namespace ModelTypes

/-! ## Children beside references -/

mutual

/-- A child is declared beside a reference to a model. -/
def Value.refersBeside (s : Store) : Value → Bool
  | .dict entries =>
    match Keyed.get? entries "type" with
    | some type => (childAt? "" type).isSome && s.truthy ((Keyed.get? entries "ref").getD .null)
    | none => refersBesideUnder s entries
  | _ => false

def refersBesideUnder (s : Store) : List (String × Value) → Bool
  | [] => false
  | (_, v) :: rest => v.refersBeside s || refersBesideUnder s rest

end

/-- A value declares a child itself, as a list of it, or by its type. -/
inductive DeclaresChild : Value → Prop where
  | schema (id : SchemaId) : DeclaresChild (.schema id)
  | list (id : SchemaId) : DeclaresChild (.list [.schema id])
  | type {entries : Entries} {id : SchemaId} : Keyed.get? entries "type" = some (.schema id) →
      DeclaresChild (.dict entries)
  | listType {entries : Entries} {id : SchemaId} :
      Keyed.get? entries "type" = some (.list [.schema id]) → DeclaresChild (.dict entries)

variable {s : Store} {model path key : String} {v : Value} {entries : Entries}

theorem childAt?_cases {b : ChildBinding} (h : childAt? path v = some b) :
    v = .schema b.schema ∨ v = .list [.schema b.schema] := by
  unfold childAt? at h
  split at h <;> cases h
  · exact .inl rfl
  · exact .inr rfl

namespace Compile

/-- What becomes of a value: it stays, or it declares a child and a reference takes its place, or it
is a mapping that is looked through. -/
theorem substitute_cases (s : Store) (model path : String) (v : Value) :
    substitute s model path v = v ∨
    (DeclaresChild v ∧ ∃ e b, substitute s model path v = childValue e b) ∨
    ∃ entries, v = .dict entries ∧ Keyed.get? entries "type" = none ∧
      substitute s model path v = .dict (substituteUnder s model (path ++ ".") entries) := by
  cases v with
  | dict entries =>
    cases ht : Keyed.get? entries "type" with
    | none => exact .inr (.inr ⟨entries, rfl, ht, by simp [substitute, ht]⟩)
    | some type =>
      have own : substitute s model path (.dict entries)
          = substituted s model path type entries (.dict entries) := by simp [substitute, ht]
      rw [own, substituted]
      cases hc : childAt? path type with
      | none => exact .inl rfl
      | some b =>
        refine .inr (.inl ⟨?_, _, b, reference_eq⟩)
        rcases childAt?_cases hc with rfl | rfl
        · exact .type ht
        · exact .listType ht
  | schema id =>
    have own : substitute s model path (.schema id) = reference s model [] ⟨path, id, false⟩ := by
      rw [substitute]
      · rfl
      · simp
    exact .inr (.inl ⟨.schema id, _, _, own.trans reference_eq⟩)
  | list items =>
    have own : substitute s model path (.list items)
        = substituted s model path (.list items) [] (.list items) := by rw [substitute]; simp
    rw [own, substituted]
    cases hc : childAt? path (.list items) with
    | none => exact .inl rfl
    | some b =>
      rcases childAt?_cases hc with h | h <;> cases h
      exact .inr (.inl ⟨.list _, _, b, reference_eq⟩)
  | _ =>
    refine .inl ?_
    rw [substitute]
    · rfl
    · simp

/-! ## What substitution keeps -/

theorem truthy_of_declaresChild (h : DeclaresChild v) : s.truthy v = true := by
  cases h with
  | schema id => rfl
  | list id => rfl
  | type ht | listType ht =>
    rename_i entries _
    cases entries with
    | nil => cases ht
    | cons e rest => rfl

theorem truthy_childValue (e : Embedding) (b : ChildBinding) :
    s.truthy (childValue e b) = true := by
  unfold childValue
  split <;> rfl

theorem truthy_substitute : s.truthy (substitute s model path v) = s.truthy v := by
  rcases substitute_cases s model path v with h | ⟨child, e, b, h⟩ | ⟨entries, rfl, -, h⟩ <;> rw [h]
  · rw [truthy_of_declaresChild child, truthy_childValue]
  · cases entries with
    | nil => rw [substituteUnder_nil]
    | cons e rest =>
      obtain ⟨key, w⟩ := e
      rw [substituteUnder_cons]
      rfl

/-- Only what is `true`, or begins with it, says so, and that is nothing to substitute in. -/
theorem saysTrue_substitute :
    saysTrue s (some (substitute s model path v)) = saysTrue s (some v) := by
  rcases substitute_cases s model path v with h | ⟨child, e, b, h⟩ | ⟨entries, rfl, -, h⟩ <;> rw [h]
  · have reference : saysTrue s (some (childValue e b)) = false := by
      unfold childValue
      split <;> rfl
    rw [reference]
    cases child <;> rfl
  · rfl

/-- What names a model has no children in it. -/
theorem substitute_of_referenceName {name : String} (h : Field.referenceName s key v = .ok name) :
    substitute s model path v = v := by
  rcases substitute_cases s model path v with same | ⟨child, -⟩ | ⟨entries, rfl, -⟩
  · exact same
  · cases child <;> cases h
  · cases h

/-! ## Reading what was substituted -/

end Compile

namespace Field

open Compile

variable {nested : Entries → Except FieldError (List Field)} {read : Option Field} {id : SchemaId}

theorem isListed_of_schemaType {id : SchemaId}
    (ht : Keyed.get? entries "type" = some (.schema id)) : isListed s (.dict entries) = false := by
  show ((Keyed.get? entries "type").bind s.items?).isSome = false
  rw [ht]
  rfl

/-- Nothing is read off an element whose type is a child. -/
theorem describeElement_schemaType {raw : Value} {id : SchemaId} {array optional : Bool}
    (ht : Keyed.get? entries "type" = some (.schema id))
    (unreferred : s.truthy ((Keyed.get? entries "ref").getD .null) = false) :
    describeElement s nested key raw ⟨.dict entries, array, optional⟩
      = .error (.unsupported key (.schema id)) := by
  have kind : typeKind? s (.dict entries) = none := by
    show (Keyed.get? entries "type").bind (·.kind?) = none
    rw [ht]
    rfl
  have typed : elementType ⟨.dict entries, array, optional⟩ = .dict entries := rfl
  rw [describeElement_of_not_isListed (isListed_of_schemaType ht), typed, isArrayMarker,
    isMapMarker, kind]
  show describeTyped s nested key _ false (.dict entries) false = _
  unfold describeTyped
  show (if s.truthy ((Keyed.get? entries "ref").getD .null) then _ else _) = _
  rw [if_neg (Bool.eq_false_iff.1 unreferred), shapeOf_of_marker rfl ht rfl]
  rfl

theorem unreferred_of_type {type : Value} {b : ChildBinding}
    (ht : Keyed.get? entries "type" = some type) (hc : childAt? "" type = some b)
    (apart : (Value.dict entries).refersBeside s = false) :
    s.truthy ((Keyed.get? entries "ref").getD .null) = false := by
  rw [Value.refersBeside, ht] at apart
  dsimp only at apart
  rwa [hc, Option.isSome_some, Bool.true_and] at apart

/-- No field is read off a child, unless its key is one of those that are left out. -/
theorem internal_of_declaresChild (child : DeclaresChild v) (apart : v.refersBeside s = false)
    (h : describeOnce s nested key v = .ok read) : internalKeys.contains key = true := by
  by_contra declared
  rw [describeOnce, if_neg declared] at h
  cases child with
  | schema id =>
    rw [show element s (.schema id) = .ok ⟨.schema id, false, true⟩ from rfl] at h
    cases h
  | list id => cases h
  | @type entries id ht =>
    have unreferred := unreferred_of_type ht (b := ⟨"", id, false⟩) rfl apart
    rw [if_neg (Bool.eq_false_iff.1 (isVirtual_of_type (v := .dict entries) ht)),
      element_of_not_isListed (isListed_of_schemaType ht)] at h
    dsimp only at h
    rw [describeElement_schemaType ht unreferred] at h
    cases h
  | @listType entries id ht =>
    have unreferred := unreferred_of_type ht (b := ⟨"", id, true⟩) rfl apart
    have items : typeItems? s (.dict entries) = some [.schema id] := by
      show (Keyed.get? entries "type").bind s.items? = _
      rw [ht]
      rfl
    have type : Keyed.get? (itemEntries s entries (.schema id)) "type" = some (.schema id) :=
      get?_itemEntries_type
    have ref : Keyed.get? (itemEntries s entries (.schema id)) "ref" = Keyed.get? entries "ref" :=
      get?_itemEntries_ref
    rw [if_neg (Bool.eq_false_iff.1 (isVirtual_of_type (v := .dict entries) ht)),
      element_of_typeItems rfl items] at h
    dsimp only at h
    rw [describeElement_schemaType type (ref ▸ unreferred)] at h
    cases h

theorem isListed_of_untyped (untyped : Keyed.get? entries "type" = none) :
    isListed s (.dict entries) = false := by
  show ((Keyed.get? entries "type").bind s.items?).isSome = false
  rw [untyped]
  rfl

/-- A mapping without a type is read as one element, its entries being its fields. -/
theorem describeOnce_of_untyped (untyped : Keyed.get? entries "type" = none)
    (declared : ¬ internalKeys.contains key = true)
    (stored : ¬ isVirtual s (.dict entries) = true) :
    describeOnce s nested key (.dict entries) = some <$> describeTyped s nested key
      ⟨.dict entries, false, !isRequired s (.dict entries)⟩ false (.dict entries) false := by
  have kind : typeKind? s (.dict entries) = none := by
    show (Keyed.get? entries "type").bind (·.kind?) = none
    rw [untyped]
    rfl
  have listed := isListed_of_untyped (s := s) untyped
  have typed {optional : Bool} : elementType ⟨.dict entries, false, optional⟩ = .dict entries := rfl
  rw [describeOnce, if_neg declared, if_neg stored, element_of_not_isListed listed]
  dsimp only
  rw [describeElement_of_not_isListed listed, typed, isArrayMarker, isMapMarker, kind]
  rfl

section Mappings

variable {lead : String} {o : Option Value}

theorem untyped_substituteUnder (untyped : Keyed.get? entries "type" = none) :
    Keyed.get? (substituteUnder s model lead entries) "type" = none := by
  rw [get?_substituteUnder, untyped]
  rfl

theorem isVirtual_substituteUnder :
    isVirtual s (.dict (substituteUnder s model lead entries)) = isVirtual s (.dict entries) := by
  have has : Keyed.has (substituteUnder s model lead entries) = Keyed.has entries :=
    funext fun k => Keyed.has_congr keys_substituteUnder
  simp only [isVirtual, Store.entries?, has]

theorem isRequired_substituteUnder :
    isRequired s (.dict (substituteUnder s model lead entries)) = isRequired s (.dict entries) := by
  show saysTrue s (Keyed.get? (substituteUnder s model lead entries) "required")
    = saysTrue s (Keyed.get? entries "required")
  rw [get?_substituteUnder]
  cases Keyed.get? entries "required" with
  | none => rfl
  | some v => exact saysTrue_substitute

theorem refers_substituteUnder :
    refers s (.dict (substituteUnder s model lead entries)) = refers s (.dict entries) := by
  show s.truthy ((Keyed.get? (substituteUnder s model lead entries) "ref").getD .null)
    = s.truthy ((Keyed.get? entries "ref").getD .null)
  rw [get?_substituteUnder]
  cases Keyed.get? entries "ref" with
  | none => rfl
  | some v => exact truthy_substitute

theorem referenceName_substituteUnder {name : String}
    (h : referenceName s key ((s.get? (.dict entries) "ref").getD .null) = .ok name) :
    referenceName s key ((s.get? (.dict (substituteUnder s model lead entries)) "ref").getD .null)
      = .ok name := by
  have get : s.get? (.dict (substituteUnder s model lead entries)) "ref"
      = (s.get? (.dict entries) "ref").map (substitute s model (lead ++ "ref")) :=
    get?_substituteUnder
  rw [get]
  cases hr : s.get? (.dict entries) "ref" with
  | none =>
    rw [hr] at h
    exact h
  | some ref =>
    rw [hr, Option.getD_some] at h
    rw [Option.map_some, Option.getD_some, substitute_of_referenceName h]
    exact h

/-- Whatever its fields read as, a mapping reads the same with its children substituted. -/
theorem describeTyped_substituteUnder {field : Field} {v' : Value} {array optional : Bool}
    (untyped : Keyed.get? entries "type" = none)
    (below : ∀ fields, nested entries = .ok fields →
      nested (substituteUnder s model lead entries) = .ok fields)
    (h : describeTyped s nested key ⟨v, array, optional⟩ false (.dict entries) false = .ok field) :
    describeTyped s nested key ⟨v', array, optional⟩ false
      (.dict (substituteUnder s model lead entries)) false = .ok field := by
  have idKind : idKind? s (.dict (substituteUnder s model lead entries))
      = idKind? s (.dict entries) := by
    have kind {entries : Entries} (h : Keyed.get? entries "type" = none) :
        idKind? s (.dict entries) = none := by
      simp [idKind?, typeKind?, Store.get?, Store.entries?, h]
    rw [kind untyped, kind (untyped_substituteUnder untyped)]
  -- A reference is read off `ref`, in which nothing was substituted; a shape off the fields.
  refine describeTyped_ok_iff.2 ?_
  cases describeTyped_ok_iff.1 h with
  | embedded he => cases he
  | reference _ refers name =>
    rw [← idKind]
    exact .reference rfl (refers_substituteUnder.trans refers) (referenceName_substituteUnder name)
  | shaped _ unreferred shape =>
    refine .shaped rfl (refers_substituteUnder.trans unreferred) ?_
    cases entries with
    | nil =>
      rw [substituteUnder_nil]
      exact shape
    | cons e rest =>
      rw [shapeOf_of_entries rfl (List.cons_ne_nil _ _), untyped] at shape
      obtain ⟨fields, read, shape⟩ := Except.bind_eq_ok_iff.1 shape
      rw [shapeOf_of_entries rfl (by obtain ⟨k, w⟩ := e; simp), untyped_substituteUnder untyped]
      exact Except.bind_eq_ok_iff.2 ⟨fields, below fields read, shape⟩

end Mappings

theorem filterMapM_substituteUnder {lead : String} {room : Nat} {fields : List Field}
    (apart : refersBesideUnder s entries = false)
    (each : ∀ {path key v read}, describeWithin s room key v = .ok read →
      v.refersBeside s = false → describeWithin s room key (substitute s model path v) = .ok read)
    (h : (entries.filterMapM fun e => describeWithin s room e.1 e.2) = .ok fields) :
    ((substituteUnder s model lead entries).filterMapM fun e => describeWithin s room e.1 e.2)
      = .ok fields := by
  induction entries generalizing fields with
  | nil =>
    rw [substituteUnder_nil]
    exact h
  | cons e rest ih =>
    obtain ⟨key, v⟩ := e
    rw [refersBesideUnder, Bool.or_eq_false_iff] at apart
    rw [List.filterMapM_cons] at h
    obtain ⟨f, hf, h⟩ := Except.bind_eq_ok_iff.1 h
    rw [substituteUnder_cons, List.filterMapM_cons]
    refine Except.bind_eq_ok_iff.2 ⟨f, each hf apart.1, ?_⟩
    cases f with
    | none => exact ih apart.2 h
    | some f =>
      obtain ⟨others, ho, h⟩ := Except.bind_eq_ok_iff.1 h
      exact Except.bind_eq_ok_iff.2 ⟨others, ih apart.2 ho, h⟩

/-- What can be read as it was written reads the same with references in the places of its children,
if none of these is declared beside a reference to a model. -/
theorem describeWithin_substitute {room : Nat} (h : describeWithin s room key v = .ok read)
    (apart : v.refersBeside s = false) :
    describeWithin s room key (substitute s model path v) = .ok read := by
  induction room generalizing key path v read with
  | zero => cases h
  | succ room ih =>
    rw [describeWithin_succ] at h ⊢
    rcases substitute_cases s model path v with same | ⟨child, -⟩ | ⟨entries, rfl, untyped, looked⟩
    · rwa [same]
    · -- A child is read under no key but those that nothing is read off.
      have internal := internal_of_declaresChild child apart h
      rw [describeOnce, if_pos internal] at h ⊢
      exact h
    · rw [looked]
      rw [Value.refersBeside, untyped] at apart
      have untyped' :
          Keyed.get? (substituteUnder s model (path ++ ".") entries) "type" = none :=
        untyped_substituteUnder untyped
      by_cases internal : internalKeys.contains key = true
      · rw [describeOnce, if_pos internal] at h ⊢
        exact h
      by_cases computed : isVirtual s (.dict entries) = true
      · rw [describeOnce, if_neg internal, if_pos computed] at h
        rw [describeOnce, if_neg internal, isVirtual_substituteUnder, if_pos computed]
        exact h
      rw [describeOnce_of_untyped untyped internal computed] at h
      obtain ⟨field, read, rfl⟩ := Except.map_eq_ok_iff.1 h
      rw [describeOnce_of_untyped untyped' internal (by rwa [isVirtual_substituteUnder]),
        isRequired_substituteUnder]
      refine Except.map_eq_ok_iff.2 ⟨field, ?_, rfl⟩
      exact describeTyped_substituteUnder untyped
        (fun fields => filterMapM_substituteUnder apart ih) read

theorem describe_substitute {depth : Int} (h : describe s key v depth = .ok read)
    (apart : v.refersBeside s = false) :
    describe s key (substitute s model path v) depth = .ok read :=
  describeWithin_substitute h apart

end Field
end ModelTypes
