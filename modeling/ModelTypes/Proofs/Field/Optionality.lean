import ModelTypes.Proofs.Field.Encodings
import ModelTypes.Proofs.Value.Options
/-!
# Which fields may be absent

What is required is there, but for arrays: of an array `describe` asks whether anything fills it in,
and not whether it is required.
-/

namespace ModelTypes.Field

/-! ## What a definition says of being absent -/

section Declared

variable (s : Store)

/-- A definition is required: its option says so, or it is a required child, alone or in a list. -/
inductive DeclaresRequired (raw : Value) : Prop where
  | option : s.SaysTrue (s.get? raw "required") → DeclaresRequired raw
  | child {e : Embedding} : s.embedding? raw = some e → e.required = true → DeclaresRequired raw
  | listed {v : Value} {rest : List Value} {e : Embedding} : s.items? raw = some (v :: rest) →
      s.embedding? v = some e → e.required = true → DeclaresRequired raw

/-- A definition is an array that nothing fills in: a list of a child with an undefined default, or
a mapping whose type is a list or the marker of arrays and which has an undefined default or is an
index of positions. If the items of the list have a type of their own, the array is there. -/
inductive IsUnfilledArray (raw : Value) : Prop where
  | listed {v : Value} {rest : List Value} {e : Embedding} : s.items? raw = some (v :: rest) →
      s.embedding? v = some e → e.defaultUndefined = true → IsUnfilledArray raw
  | items {type inner : Value} {rest : List Value} : s.get? raw "type" = some type →
      s.items? type = some (inner :: rest) → s.get? inner "type" = none →
      (s.get? raw "index" = some (.str "2dsphere") ∨ Store.SaysNull (s.get? raw "default")) →
      IsUnfilledArray raw
  | empty {type : Value} : s.get? raw "type" = some type → s.items? type = some [] →
      Store.SaysNull (s.get? raw "default") → IsUnfilledArray raw
  | marker {type : Value} : s.get? raw "type" = some type →
      type.kind? = some (.container .array) → Store.SaysNull (s.get? raw "default") →
      IsUnfilledArray raw

/-- `DeclaresRequired`, decided. -/
def declaresRequired (raw : Value) : Bool :=
  match s.items? raw with
  | some items => (items.head?.bind s.embedding?).any (·.required)
  | none => isRequired s raw

/-- `IsUnfilledArray`, decided by the encoding of the array. -/
def isUnfilledArray (raw : Value) : Bool :=
  match s.items? raw, typeItems? s raw with
  | some items, _ => (items.head?.bind s.embedding?).any (·.defaultUndefined)
  | none, some (inner :: _) => itemsOptional s raw inner
  | none, some [] => isDefaultUndefined s raw
  | none, none => isArrayMarker s raw && isDefaultUndefined s raw

end Declared

variable {s : Store} {key : String} {raw v : Value} {field : Field} {optional : Bool}

/-- Only mappings have options. -/
theorem items?_of_get? {name : String} (h : s.get? raw name = some v) : s.items? raw = none := by
  obtain ⟨entries, he, -⟩ := Option.bind_eq_some_iff.1 h
  exact items?_of_entries he

theorem embedding?_of_get? {name : String} (h : s.get? raw name = some v) :
    s.embedding? raw = none := by
  obtain ⟨entries, he, -⟩ := Option.bind_eq_some_iff.1 h
  exact embedding?_of_entries he

theorem items?_of_embedding {e : Embedding} (h : s.embedding? raw = some e) :
    s.items? raw = none := by
  cases raw with
  | embedded _ _ => rfl
  | shared a =>
    rcases hn : s.nodes[a]? with _ | node
    · simp [Store.embedding?, Store.node?, hn] at h
    · cases node <;> simp_all [Store.embedding?, Store.items?, Store.node?]
  | _ => simp [Store.embedding?, Store.node?] at h

theorem declaresRequired_iff : declaresRequired s raw = true ↔ DeclaresRequired s raw := by
  unfold declaresRequired
  constructor
  · intro h
    split at h
    case h_1 hi =>
      obtain ⟨e, he, required⟩ := (Option.any_eq_true _ _).1 h
      obtain ⟨v, hv, he⟩ := Option.bind_eq_some_iff.1 he
      obtain ⟨rest, rfl⟩ := List.head?_eq_some_iff.1 hv
      exact .listed hi he required
    case h_2 =>
      unfold isRequired at h
      split at h
      · exact .child ‹_› h
      · exact .option (Store.saysTrue_iff.1 h)
  · rintro (own | ⟨he, required⟩ | ⟨hl, he, required⟩)
    · obtain ⟨v, hv⟩ : ∃ v, s.get? raw "required" = some v := by
        rcases own with h | ⟨w, -, h, -⟩ <;> exact ⟨_, h⟩
      rw [items?_of_get? hv]
      dsimp only
      rw [isRequired, embedding?_of_get? hv]
      exact Store.saysTrue_iff.2 own
    · rw [items?_of_embedding he]
      dsimp only
      rw [isRequired, he]
      exact required
    · simp [hl, he, required]

/-- What has a type is no child, so its default is an option. -/
theorem isDefaultUndefined_iff {type : Value} (typed : s.get? raw "type" = some type) :
    isDefaultUndefined s raw = true ↔ Store.SaysNull (s.get? raw "default") := by
  rw [isDefaultUndefined, embedding?_of_get? typed]
  exact Store.saysNull_iff

theorem text?_eq_2dsphere_iff : v.text? = some "2dsphere" ↔ v = .str "2dsphere" := by
  cases v with
  | kind k =>
    have other : k.name ≠ "2dsphere" := by
      rcases k with k | k <;> cases k <;> decide
    simp [Value.text?, other]
  | _ => simp [Value.text?]

theorem itemsOptional_iff {type inner : Value} (typed : s.get? raw "type" = some type) :
    itemsOptional s raw inner = true ↔ s.get? inner "type" = none ∧
      (s.get? raw "index" = some (.str "2dsphere") ∨
        Store.SaysNull (s.get? raw "default")) := by
  have index : (s.get? raw "index").any (·.text? == some "2dsphere") = true ↔
      s.get? raw "index" = some (.str "2dsphere") := by
    rw [Option.any_eq_true]
    constructor
    · rintro ⟨v, hv, text⟩
      rw [hv, text?_eq_2dsphere_iff.1 (beq_iff_eq.1 text)]
    · intro h
      exact ⟨_, h, rfl⟩
  rw [itemsOptional, Bool.and_eq_true, Bool.or_eq_true, Option.isNone_iff_eq_none, index,
    isDefaultUndefined_iff typed]

theorem isUnfilledArray_iff : isUnfilledArray s raw = true ↔ IsUnfilledArray s raw := by
  unfold isUnfilledArray
  constructor
  · intro h
    split at h
    case h_1 hi =>
      obtain ⟨e, he, undefined⟩ := (Option.any_eq_true _ _).1 h
      obtain ⟨v, hv, he⟩ := Option.bind_eq_some_iff.1 he
      obtain ⟨rest, rfl⟩ := List.head?_eq_some_iff.1 hv
      exact .listed hi he undefined
    case h_2 ht =>
      obtain ⟨type, typed, items⟩ := Option.bind_eq_some_iff.1 ht
      obtain ⟨own, index⟩ := (itemsOptional_iff typed).1 h
      exact .items typed items own index
    case h_3 ht =>
      obtain ⟨type, typed, items⟩ := Option.bind_eq_some_iff.1 ht
      exact .empty typed items ((isDefaultUndefined_iff typed).1 h)
    case h_4 =>
      obtain ⟨marker, undefined⟩ := Bool.and_eq_true_iff.1 h
      obtain ⟨type, typed, kind⟩ := Option.bind_eq_some_iff.1 (beq_iff_eq.1 marker)
      exact .marker typed kind ((isDefaultUndefined_iff typed).1 undefined)
  · rintro (⟨hl, he, undefined⟩ | ⟨typed, items, own, index⟩ | ⟨typed, items, null⟩ |
      ⟨typed, kind, null⟩)
    · simp [hl, he, undefined]
    · rw [items?_of_get? typed, typeItems?, typed, Option.bind_some, items]
      exact (itemsOptional_iff typed).2 ⟨own, index⟩
    · rw [items?_of_get? typed, typeItems?, typed, Option.bind_some, items]
      exact (isDefaultUndefined_iff typed).2 null
    · rw [items?_of_get? typed, typeItems?, typed, Option.bind_some,
        items?_of_kind (by rw [kind]; rfl)]
      have marker : isArrayMarker s raw = true := by simp [isArrayMarker, typeKind?, typed, kind]
      exact Bool.and_eq_true_iff.2 ⟨marker, (isDefaultUndefined_iff typed).2 null⟩

theorem isRequired_of_kind (h : v.kind?.isSome) : isRequired s v = false := by
  cases v with
  | str _ | kind _ | marker _ => rfl
  | _ => simp [Value.kind?] at h

/-- Arrays are no virtuals. -/
theorem isVirtual_of_isUnfilledArray (h : isUnfilledArray s raw) : isVirtual s raw = false := by
  unfold isUnfilledArray at h
  split at h
  case h_1 hl => exact isVirtual_of_items hl
  case h_2 ht | h_3 ht =>
    obtain ⟨type, ht, -⟩ := Option.bind_eq_some_iff.1 ht
    exact isVirtual_of_type ht
  case h_4 =>
    have marker := (Bool.and_eq_true_iff.1 h).1
    obtain ⟨type, ht, -⟩ := Option.bind_eq_some_iff.1 (beq_iff_eq.1 marker)
    exact isVirtual_of_type ht

/-! ## What a field has of it -/

/-- A field may be absent just if its definition says so, unless it is an object or the
identifier. -/
structure Keeps (key : String) (optional : Bool) (field : Field) : Prop where
  present : optional = false → field.optional = false
  absent : optional = true → key ≠ "_id" → field.shape.isNested = false → field.optional = true

theorem keeps_of_eq (h : field.optional = optional) : Keeps key optional field :=
  ⟨fun ho => h.trans ho, fun ho _ _ => h.trans ho⟩

theorem keeps_of_typed {nested : Entries → Except FieldError (List Field)} {el : Element}
    {isMap mapOfArray : Bool} (h : Typed s nested key el isMap v mapOfArray field) :
    Keeps key el.optional field := by
  cases h with
  | embedded _ => exact keeps_of_eq rfl
  | reference _ _ _ => exact keeps_of_eq rfl
  | shaped _ _ _ => exact ⟨fun ho => by simp [ho], fun ho hk hn => by simp_all⟩

theorem keeps_describeElement {nested : Entries → Except FieldError (List Field)} {el : Element}
    (h : describeElement s nested key raw el = .ok field) :
    Keeps key (if isArrayMarker s (elementType el) && !el.isArray then
      isDefaultUndefined s (elementType el) else el.optional) field := by
  rw [describeElement_of_not_isListed (isListed_of_describeElement h)] at h
  split at h
  case isTrue array =>
    cases h
    refine keeps_of_eq ?_
    rw [array]
    cases el.isArray <;> rfl
  case isFalse single =>
    rw [Bool.eq_false_iff.2 single]
    obtain ⟨r, -, h⟩ := Except.bind_eq_ok_iff.1 h
    exact keeps_of_typed (describeTyped_ok_iff.1 h)

/-- What is left of a required definition without its outer array says that it may be absent just if
it is an array that nothing fills in. -/
theorem element_required (required : declaresRequired s raw) :
    match element s raw with
    | .error optional => optional = isUnfilledArray s raw
    | .ok el => (if isArrayMarker s (elementType el) && !el.isArray then
        isDefaultUndefined s (elementType el) else el.optional) = isUnfilledArray s raw := by
  unfold declaresRequired at required
  unfold isUnfilledArray
  have taken := encoded s raw
  generalize element s raw = read at taken ⊢
  cases taken with
  | emptyList hl =>
    rw [hl] at required
    cases required
  | list hl =>
    rw [hl]
    simp
  | emptyType he ht =>
    rw [items?_of_entries he, ht]
  | typeList he ht =>
    rw [items?_of_entries he, ht]
    simp
  | single hl =>
    obtain ⟨hi, ht⟩ : s.items? raw = none ∧ typeItems? s raw = none := by
      simpa [isListed] using hl
    rw [hi] at required ⊢
    rw [ht]
    have typed : elementType ⟨raw, false, !isRequired s raw⟩ = raw := by
      refine if_neg fun marker => ?_
      rw [isRequired_of_kind marker] at required
      cases required
    simp only [typed]
    cases isArrayMarker s raw <;> simp_all

/-- A field of a required definition may be absent just if the definition is an array that nothing
fills in, and is neither an object nor the identifier. -/
theorem describe_required {depth : Int} (required : DeclaresRequired s raw)
    (described : describe s key raw depth = .ok (some field)) :
    (¬ IsUnfilledArray s raw → field.optional = false) ∧
      (IsUnfilledArray s raw → key ≠ "_id" → field.shape.isNested = false →
        field.optional = true) := by
  rw [← isUnfilledArray_iff, Bool.not_eq_true]
  unfold describe at described
  generalize (maxNestingDepth + 1 - depth).toNat = room at described
  cases room with
  | zero => cases described
  | succ room =>
    rw [describeWithin] at described
    split at described
    · cases described
    split at described
    case isTrue computed =>
      refine ⟨fun _ => ?_, fun unfilled => ?_⟩
      · split at described <;> cases described
        rfl
      · rw [isVirtual_of_isUnfilledArray unfilled] at computed
        cases computed
    case isFalse =>
      have left := element_required (declaresRequired_iff.2 required)
      have keeps : Keeps key (isUnfilledArray s raw) field := by
        split at described <;> rename_i taken <;> rw [taken] at left
        · cases described
          exact keeps_of_eq left
        · obtain ⟨_, h, h'⟩ := Except.map_eq_ok_iff.1 described
          cases h'
          exact left ▸ keeps_describeElement h
      exact ⟨keeps.present, keeps.absent⟩

theorem describe_required_tags :
    (∃ field, describe {} "tags" (.dict [("type", .list [.str "String"]), ("required", .bool true)])
      = .ok (some field) ∧ field.optional = false) ∧
    ∃ field, describe {} "places" (.dict [("type", .list [.str "Number"]), ("required", .bool true),
      ("index", .str "2dsphere")]) = .ok (some field) ∧ field.optional = true := by
  have tags : describe {} "tags" (.dict [("type", .list [.str "String"]), ("required", .bool true)])
      = .ok (some { key := "tags", shape := .scalar .string none, optional := false,
                    isArray := true }) := rfl
  have places : describe {} "places" (.dict [("type", .list [.str "Number"]),
      ("required", .bool true), ("index", .str "2dsphere")])
      = .ok (some { key := "places", shape := .scalar .number none, isArray := true }) := rfl
  have filled : ¬ IsUnfilledArray {}
      (.dict [("type", .list [.str "String"]), ("required", .bool true)]) :=
    mt isUnfilledArray_iff.2 (by decide)
  exact ⟨⟨_, tags, (describe_required (.option (.inl rfl)) tags).1 filled⟩,
    _, places, (describe_required (.option (.inl rfl)) places).2
      (.items rfl rfl rfl (.inl rfl)) (by decide) rfl⟩

/-- A required array with an undefined default may be absent. -/
theorem describe_required_undefined : ¬ ∀ (s : Store) (key : String) (raw : Value) (field : Field),
    DeclaresRequired s raw → describe s key raw = .ok (some field) → field.optional = false := by
  intro present
  have tags := present {} "tags"
    (.dict [("type", .list [.str "String"]), ("required", .bool true), ("default", .null)])
    { key := "tags", shape := .scalar .string none, isArray := true } (.option (.inl rfl)) rfl
  cases tags

end ModelTypes.Field
