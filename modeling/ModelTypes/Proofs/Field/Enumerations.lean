import ModelTypes.Proofs.Field.Encodings
import ModelTypes.Proofs.Value.Copy
/-!
# Enumerated values

The values of a text or a number are enumerated in any of several encodings (`Declares`). A field
that enumerates its values is read from the values alone, so its type is the union of their literals
in all encodings.
-/

namespace ModelTypes

namespace Field

section Encodings

variable (s : Store)

/-- The encodings of enumerated values: a list or tuple, one of them as the `values` of a mapping or
of an object, a mapping to the values, and an enumeration whose members are no aliases. -/
inductive Declares (values : List Value) (d : Value) : Prop where
  | list : s.items? d = some values → Declares values d
  | tuple : s.tuple? d = some values → Declares values d
  | values {entries : Entries} {w : Value} : s.entries? d = some entries →
      Keyed.get? entries "values" = some w → s.sequence? w = some values → Declares values d
  | object {attributes : Entries} {w : Value} : s.node? d = some (.object attributes) →
      Keyed.get? attributes "values" = some w → s.sequence? w = some values → Declares values d
  | mapping {entries : Entries} : s.entries? d = some entries → "values" ∉ Keyed.keys entries →
      Keyed.values entries = values → Declares values d
  | enumeration {name : String} {members : Entries} :
      s.node? d = some (.enumeration name members) → Keyed.values members = values →
      values.Pairwise (fun a b => s.equal a b = false) → Declares values d

/-- A definition of one value of a kind, of which `d` enumerates the values. -/
structure Narrowed (kind : PrimitiveKind) (d v : Value) : Prop where
  kind : typeKind? s v = some (.primitive kind)
  enum : s.get? v "enum" = some d
  plain : refers s v = false

/-- A field of which `d` enumerates the values: one value, or an array by a list or by a list as its
type. `optional` is what the definition says of being absent. -/
inductive Enumerated (kind : PrimitiveKind) (d : Value) :
    (isArray optional : Bool) → Value → Prop where
  | single {raw : Value} : Narrowed s kind d raw →
      Enumerated kind d false (!isRequired s raw) raw
  | list {raw v : Value} {rest : List Value} : s.items? raw = some (v :: rest) →
      Narrowed s kind d v → Enumerated kind d true false raw
  | typeList {raw inner : Value} {rest : List Value} : typeItems? s raw = some (inner :: rest) →
      ((s.get? inner "type").getD inner).kind? = some (.primitive kind) →
      s.get? raw "enum" = some d → refers s raw = false → refers s inner = false →
      Enumerated kind d true (itemsOptional s raw inner) raw

end Encodings

variable {s : Store} {key : String} {raw d v inner : Value} {values : List Value}
  {members entries : Entries} {kind : PrimitiveKind} {el : Element}
  {nested : Entries → Except FieldError (List Field)}

/-! ## The values declared -/

theorem enumeration?_of_items (h : s.items? v = some values) : s.enumeration? v = none := by
  cases v with
  | shared a =>
    rcases hn : s.nodes[a]? with _ | node
    · simp [Store.enumeration?, Store.node?, hn]
    · cases node <;> simp_all [Store.items?, Store.enumeration?, Store.node?]
  | _ => rfl

theorem enumeration?_of_entries (h : s.entries? v = some entries) : s.enumeration? v = none := by
  cases v with
  | shared a =>
    rcases hn : s.nodes[a]? with _ | node
    · simp [Store.enumeration?, Store.node?, hn]
    · cases node <;> simp_all [Store.entries?, Store.enumeration?, Store.node?]
  | _ => rfl

theorem tuple?_of_entries (h : s.entries? v = some entries) : s.tuple? v = none := by
  cases v with
  | shared a =>
    rcases hn : s.nodes[a]? with _ | node
    · simp [Store.tuple?, Store.node?, hn]
    · cases node <;> simp_all [Store.entries?, Store.tuple?, Store.node?]
  | _ => rfl

theorem enumValues_of_sequence (there : d ≠ .null) (no_enum : s.enumeration? d = none)
    (h : s.sequence? d = some values) : enumValues s key d = .ok (some values) := by
  rw [enumValues_of_ne there, no_enum, h]

theorem enumValues_of_entries (h : s.entries? d = some entries) : enumValues s key d =
    .ok (some (((Keyed.get? entries "values").bind s.sequence?).getD (Keyed.values entries))) := by
  have there : d ≠ .null := by
    rintro rfl
    cases h
  rw [enumValues_of_ne there, enumeration?_of_entries h, Store.sequence?, items?_of_entries h,
    tuple?_of_entries h, h]
  rfl

/-- Members of which no two are equal are all kept. -/
theorem distinctMembers_of_pairwise {same : Value → Value → Bool}
    (h : (Keyed.values members).Pairwise fun a b => same a b = false) :
    Store.distinctMembers same members = members := by
  have kept (done rest : Entries)
      (h : (Keyed.values (done ++ rest)).Pairwise fun a b => same a b = false) :
      rest.foldl (fun kept m => if kept.any (fun k => same k.2 m.2) then kept else kept ++ [m]) done
        = done ++ rest := by
    induction rest generalizing done with
    | nil => simp
    | cons m rest ih =>
      have fresh : (done.any fun k => same k.2 m.2) = false := by
        simp only [Keyed.values, List.map_append, List.map_cons, List.pairwise_append] at h
        refine List.any_eq_false.2 fun k hk => Bool.eq_false_iff.1 (h.2.2 k.2 ?_ m.2 ?_)
        · exact List.mem_map.2 ⟨k, hk, rfl⟩
        · exact List.mem_cons_self
      rw [List.foldl_cons, fresh, if_neg (by simp), ih (done ++ [m]) (by simpa using h),
        List.append_assoc, List.singleton_append]
  exact kept [] members h

/-- All encodings declare their values. -/
theorem enumValues_of_declares (h : Declares s values d) :
    enumValues s key d = .ok (some values) := by
  cases h with
  | list h =>
    refine enumValues_of_sequence ?_ (enumeration?_of_items h) (by rw [Store.sequence?, h]; rfl)
    rintro rfl
    cases h
  | tuple h =>
    obtain ⟨a, rfl, ha⟩ : ∃ a, d = .shared a ∧ s.nodes[a]? = some (.tuple values) := by
      unfold Store.tuple? at h
      split at h
      case h_1 hn =>
        cases h
        exact Store.node?_eq_some_iff.1 hn
      case h_2 => cases h
    exact enumValues_of_sequence nofun (by simp [Store.enumeration?, Store.node?, ha])
      (by simp [Store.sequence?, Store.items?, Store.tuple?, Store.node?, ha])
  | values h hw hs => rw [enumValues_of_entries h, hw, Option.bind_some, hs, Option.getD_some]
  | mapping h no_values hv =>
    rw [enumValues_of_entries h, Keyed.get?_eq_none_iff.2 no_values, ← hv]
    rfl
  | object hn hw hs =>
    obtain ⟨a, rfl, ha⟩ := Store.node?_eq_some_iff.1 hn
    have read : (s.attribute? (.shared a) "values").bind s.sequence? = some values := by
      rw [Store.attribute?, hn]
      dsimp only
      rw [hw, Option.bind_some, hs]
    have no_enum : s.enumeration? (.shared a) = none := by simp [Store.enumeration?, hn]
    have no_sequence : s.sequence? (.shared a) = none := by
      simp [Store.sequence?, Store.items?, Store.tuple?, hn]
    have no_entries : s.entries? (.shared a) = none := by simp [Store.entries?, hn]
    rw [enumValues_of_ne (v := .shared a) nofun, no_enum, no_sequence, no_entries]
    dsimp only
    rw [read]
  | @enumeration name members hn hv distinct =>
    rw [← hv] at distinct
    have enumerates : s.enumeration? d = some (name, members) := by
      rw [Store.enumeration?, hn]
      dsimp only
      rw [distinctMembers_of_pairwise distinct]
    have there : d ≠ .null := by
      rintro rfl
      cases hn
    rw [enumValues_of_ne there, enumerates, ← hv]

/-! ## The field -/

theorem describeElement_of_narrowed (narrows : kind = .string ∨ kind = .number)
    (h : Narrowed s kind d el.value) (declares : Declares s values d) :
    describeElement s nested key raw el = .ok
      { key, shape := .scalar kind (some values), optional := el.optional && key != "_id",
        isArray := el.isArray } := by
  obtain ⟨type, ht, hk⟩ := Option.bind_eq_some_iff.1 h.kind
  obtain ⟨entries, he, ht⟩ := Option.bind_eq_some_iff.1 ht
  have enum := h.enum
  rw [get?_of_entries he] at enum
  have no_array : isArrayMarker s el.value = false := by simp [isArrayMarker, h.kind]
  have no_map : isMapMarker s el.value = false := by simp [isMapMarker, h.kind]
  have shape : shapeOf s nested key el.value = .ok (.scalar kind (some values)) := by
    rw [shapeOf_of_marker he ht (entries?_of_kind (by simp [hk])), markerShape, hk, enum]
    dsimp only [Option.getD_some]
    rw [enumValues_of_declares declares, if_pos (by simpa using narrows)]
    rfl
  rw [describeElement_of_not_isListed (isListed_of_typeKind (by simp [h.kind])),
    elementType_of_entries he, no_array, no_map, if_neg (by simp), if_neg (by simp)]
  refine (describeTyped_ok_iff.2 (.shaped (embedding?_of_entries he) h.plain shape)).trans ?_
  simp [Shape.isNested]

theorem narrowed_itemEntries (he : s.entries? raw = some entries)
    (type : ((s.get? inner "type").getD inner).kind? = some (.primitive kind))
    (enum : s.get? raw "enum" = some d) (plain : refers s raw = false)
    (plain' : refers s inner = false) :
    Narrowed s kind d (.dict (itemEntries s entries inner)) := by
  have get (name : String) : s.get? (.dict (itemEntries s entries inner)) name
      = Keyed.get? (itemEntries s entries inner) name := rfl
  refine ⟨?_, ?_, ?_⟩
  · rw [typeKind?, get, get?_itemEntries_type, Option.bind_some, type]
  · rw [get, get?_itemEntries (by decide) (by decide), ← get?_of_entries he, enum]
  · rw [← plain]
    refine refers_of_get? ?_
    rw [get, get?_itemEntries_ref, get?_of_entries he, plain', Bool.and_false]
    rfl

theorem describeWithin_enumerated {room : Nat} {isArray optional : Bool}
    (narrows : kind = .string ∨ kind = .number) (field : Enumerated s kind d isArray optional raw)
    (declares : Declares s values d) (declared : internalKeys.contains key = false) :
    describeWithin s (room + 1) key raw = .ok (some
      { key, shape := .scalar kind (some values), optional := optional && key != "_id",
        isArray }) := by
  cases field with
  | single h =>
    obtain ⟨type, ht, -⟩ := Option.bind_eq_some_iff.1 h.kind
    rw [describeWithin_of_stored declared (isVirtual_of_type ht),
      element_of_not_isListed (isListed_of_typeKind (by simp [h.kind]))]
    dsimp only
    rw [describeElement_of_narrowed narrows h declares]
    rfl
  | list hl h =>
    obtain ⟨entries, he, -⟩ := Option.bind_eq_some_iff.1 h.enum
    rw [describeWithin_of_stored declared (isVirtual_of_items hl),
      element_of_list hl (embedding?_of_entries he)]
    dsimp only
    rw [describeElement_of_narrowed narrows h declares]
    rfl
  | typeList ht type enum plain plain' =>
    obtain ⟨list, hlist, -⟩ := Option.bind_eq_some_iff.1 ht
    obtain ⟨entries, he⟩ := entries?_of_typeItems ht
    rw [describeWithin_of_stored declared (isVirtual_of_type hlist), element_of_typeItems he ht]
    dsimp only
    rw [describeElement_of_narrowed narrows (narrowed_itemEntries he type enum plain plain')
      declares]
    rfl

end Field

/-! ## The union of literals -/

namespace Line

variable {s : Store} {v : Value} {values : List Value} {literal : Value → String} {text : String}

/-- The literals of values but for `null`, which stands last and once. -/
def unionOf (literal : Value → String) (values : List Value) : String :=
  " | ".intercalate
    ((values.filter (!·.isNull)).map literal ++ if values.any (·.isNull) then ["null"] else [])

/-- Members of enumerations have no literal of their own. -/
theorem enumValue_of_literal (h : s.literal v = .ok text) : enumValue s v = v := by
  unfold enumValue
  rcases hm : s.member? v with _ | ⟨enumeration, name, value⟩
  · rfl
  · cases v with
    | member a n =>
      unfold Store.literal Store.outline Store.outlineShared at h
      rw [hm] at h
      dsimp only at h
      split at h <;> cases h
    | _ => cases hm

theorem mapM_literal (h : ∀ v ∈ values, s.literal v = .ok (literal v)) :
    values.mapM s.literal = .ok (values.map literal) := by
  induction values with
  | nil => rfl
  | cons v values ih =>
    rw [List.mapM_cons, h v List.mem_cons_self, ih fun w hw => h w (List.mem_cons_of_mem _ hw)]
    rfl

theorem enumUnion_of_literals (h : ∀ v ∈ values, s.literal v = .ok (literal v)) :
    enumUnion s values = .ok (unionOf literal values) := by
  have own : values.map (enumValue s) = values :=
    (List.map_congr_left fun v hv => enumValue_of_literal (h v hv)).trans values.map_id
  have written : (values.filter (!·.isNull)).mapM s.literal
      = .ok ((values.filter (!·.isNull)).map literal) :=
    mapM_literal fun v hv => h v (List.mem_of_mem_filter hv)
  unfold enumUnion unionOf
  rw [own]
  show ((values.filter (!·.isNull)).mapM s.literal >>= _) = _
  rw [written]
  rfl

end Line

/-! ## The type -/

namespace Compile

open ModelTypes.Field

variable {s : Store} {p : Projection} {key : String} {raw d : Value} {kind : PrimitiveKind}
  {values : List Value} {literal : Value → String} {isArray optional : Bool}

/-- The type of enumerated values: the union of their literals, or the type of their kind if there
are none. -/
def enumeratedType (p : Projection) (kind : PrimitiveKind) (literal : Value → String)
    (values : List Value) : String :=
  if values.isEmpty then Render.primitive p kind else Line.unionOf literal values

theorem scalar_of_literals (narrows : kind = .string ∨ kind = .number)
    (literals : ∀ v ∈ values, s.literal v = .ok (literal v)) :
    Render.scalar s p kind (some values) = .ok (enumeratedType p kind literal values) := by
  cases values with
  | nil => rcases narrows with rfl | rfl <;> rfl
  | cons v values =>
    have union := Line.enumUnion_of_literals literals
    rcases narrows with rfl | rfl <;>
    · show (Line.enumUnion s (v :: values)).mapError _ = _
      rw [union]
      rfl

/-- Whatever the encoding in which its values are enumerated, a text or a number, or an array of
them, has the union of their literals as its type, `null` last and once. -/
theorem fieldType?_enumerated (narrows : kind = .string ∨ kind = .number)
    (field : Enumerated s kind d isArray optional raw) (declares : Declares s values d)
    (literals : ∀ v ∈ values, s.literal v = .ok (literal v)) :
    let type := if isArray then Line.wrapArray (enumeratedType p kind literal values) p.document
      else enumeratedType p kind literal values
    fieldType? s p key raw = .ok (if internalKeys.contains key then none else some type) ∧
      fieldLine s p key raw = .ok (if internalKeys.contains key then ""
        else Line.entry key type (optional && key != "_id")) := by
  intro type
  have read : describe s key raw 0 = .ok (if internalKeys.contains key then none else some
      { key, shape := .scalar kind (some values), optional := optional && key != "_id",
        isArray }) := by
    rcases declared : internalKeys.contains key with _ | _
    · exact describeWithin_enumerated narrows field declares declared
    · show describeWithin s (maxNestingDepth + 1) key raw = _
      rw [describeWithin, declared]
      rfl
  unfold fieldType? fieldLine
  rw [read]
  split
  · exact ⟨rfl, rfl⟩
  · have typed : Render.type? s p ⟨key, .scalar kind (some values), optional && key != "_id",
        isArray, false, false, false⟩ = .ok (some type) := by
      rw [Render.type?_eq (by simp), Render.shape, scalar_of_literals narrows literals]
      cases isArray <;> rfl
    constructor
    · show (Render.type? s p _).mapError _ = _
      rw [typed]
      rfl
    · show (Render.line s p _).mapError _ = _
      rw [Render.line, typed]
      rfl

/-- An enumeration with nothing among its values, of an array. -/
theorem fieldType?_enumerated_sizes :
    let store : Store :=
      ⟨[.enumeration "Size" [("SMALL", .str "s"), ("UNKNOWN", .null), ("LARGE", .str "l")]]⟩
    let raw : Value := .dict [("type", .list [.str "String"]), ("enum", .shared 0)]
    fieldType? store { document := false } "sizes" raw
        = .ok (some "(\"s\" | \"l\" | null)[]") ∧
      fieldLine store { document := false } "sizes" raw
        = .ok "sizes: (\"s\" | \"l\" | null)[];\n" := by
  intro store raw
  have listed : typeItems? store raw = some [.str "String"] := rfl
  have field : Enumerated store .string (.shared 0) true false raw :=
    .typeList listed rfl rfl rfl rfl
  have declares : Declares store [.str "s", .null, .str "l"] (.shared 0) :=
    .enumeration rfl rfl (by decide)
  have literals : ∀ v ∈ [Value.str "s", .null, .str "l"], store.literal v
      = .ok (if v.isNull then "null" else Text.quote (v.text?.getD "")) := by
    simp [Store.literal, Store.outline, Store.outlineShared, Outline.literal, Value.leafLiteral,
      Value.isNull, Value.text?]
  exact fieldType?_enumerated (.inl rfl) field declares literals

end Compile
end ModelTypes
