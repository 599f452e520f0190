import ModelTypes.Proofs.Field.Depth
/-!
# Where the parts of a field come from

Reading a definition moves its options about: an array hands them to its element, and a map to its
values. Wherever an option is read in the end, it stands in a mapping of the definition (`Offers`).
So everything that a field says comes from its definition or from the fields of its object
(`origin_of_describeOnce`), and a field tells only what is of the sorts of names, keys and texts
that definitions give (`tells_of_describeWithin`).
-/

namespace ModelTypes.Field

variable {s : Store} {key option : String} {raw v w : Value} {entries : Entries} {el : Element}
  {nested : Reader}

section Origins

variable (s)

/-- A definition has an option: in itself, in an item, in its type or in what it is a map of. -/
def Offers (raw : Value) (option : String) (w : Value) : Prop :=
  ∃ options, Holds s raw options ∧ Keyed.get? options option = some w

/-- What a shape was made from. -/
inductive Origin (nested : Reader) (key : String) (raw : Value) : Shape → Prop where
  | scalar {kind : PrimitiveKind} {enum : Option (List Value)} :
      (∀ values ∈ enum, ∃ declared, Offers s raw "enum" declared ∧
        enumValues s key declared = .ok (some values)) → Origin nested key raw (.scalar kind enum)
  | nested {below : Entries} {fields : List Field} : object? s key raw = some below →
      nested below = .ok fields → Origin nested key raw (.nested fields)
  | reference {ref : Value} {model : String} {idKind : Option PrimitiveKind} :
      Offers s raw "ref" ref → s.truthy ref → referenceName s key ref = .ok model →
      Origin nested key raw (.reference model idKind)
  | embedded {w : Value} {e : Embedding} : (w = raw ∨ ∃ rest, s.items? raw = some (w :: rest)) →
      s.embedding? w = some e → Origin nested key raw (.embedded e.name e.isArray)
  | virtual : Origin nested key raw .virtual

end Origins

/-! ## Options -/

theorem offers_of_get? (h : s.get? v option = some w) : Offers s v option w := by
  obtain ⟨entries, he, h⟩ := Option.bind_eq_some_iff.1 h
  exact ⟨entries, .own he, h⟩

theorem Offers.of_holds {u : Value} (h : Offers s u option w)
    (holds : ∀ options, Holds s u options → Holds s v options) : Offers s v option w :=
  h.imp fun options ⟨inside, get⟩ => ⟨holds options inside, get⟩

/-- An element's options are those of the definition, or of the item for whose type it stands. -/
theorem offers_element (h : element s raw = .ok el) (other : option ≠ "type")
    (offers : Offers s el.value option w) : Offers s raw option w := by
  have taken := encoded s raw
  rw [h] at taken
  cases taken with
  | list hl => exact offers.of_holds fun _ => .item hl List.mem_cons_self
  | single _ => exact offers
  | @typeList entries inner rest hr ht =>
    obtain ⟨options, inside, get⟩ := offers
    cases inside with
    | item hi _ _ => cases hi
    | type hv inside =>
      exact ⟨options, holds_of_itemEntries hr ht (by simp) hv inside, get⟩
    | value hv inside =>
      exact ⟨options, holds_of_itemEntries hr ht (by simp) hv inside, get⟩
    | own he =>
      cases he
      have own (h : Keyed.get? entries option = some w) : Offers s raw option w :=
        ⟨entries, .own hr, h⟩
      by_cases ref : option = "ref"
      · subst ref
        rw [get?_itemEntries_ref] at get
        split at get
        · obtain ⟨list, hlist, hitems⟩ := Option.bind_eq_some_iff.1 ht
          exact (offers_of_get? get).of_holds fun _ inside =>
            .type hlist (.item hitems List.mem_cons_self inside)
        · exact own get
      · rw [get?_itemEntries other ref] at get
        exact own get

theorem offers_elementType (other : option ≠ "type") (offers : Offers s (elementType el) option w) :
    Offers s el.value option w := by
  unfold elementType at offers
  split at offers
  case isFalse => exact offers
  case isTrue marker =>
    obtain ⟨options, inside, get⟩ := offers
    cases inside with
    | own he =>
      cases he
      rw [Keyed.get?_cons, if_neg other] at get
      cases get
    | item hi _ _ => cases hi
    | type hv inside =>
      cases hv
      have no_items : s.items? el.value = none := by
        cases hv : el.value <;> rw [hv] at marker <;> first | rfl | cases marker
      exact absurd inside (not_holds (entries?_of_kind marker) no_items)
    | value hv _ => cases hv

/-! ## Maps -/

theorem get?_inheritOption_cases {value : Entries} {name : String}
    (h : Keyed.get? (inheritOption s v value option) name = some w) :
    Keyed.get? value name = some w ∨ s.get? v name = some w := by
  by_cases same : name = option
  · subst same
    unfold inheritOption at h
    split at h
    · split at h
      · exact .inl h
      · rw [Keyed.get?_put_self] at h
        cases h
        exact .inr ‹_›
    · exact .inl h
  · rw [get?_inheritOption same] at h
    exact .inl h

theorem offers_of_mapOf (offers : Offers s (mapOf s v).1 option w) : Offers s v option w := by
  obtain ⟨options, inside, get⟩ := offers
  obtain ⟨of, hof, inside⟩ := mapOf_holds inside
  exact ⟨options, .value hof inside, get⟩

theorem offers_of_mapEntries (h : mapEntries s key v = .ok entries) (other : option ≠ "type")
    (get : Keyed.get? entries option = some w) : Offers s v option w := by
  have untyped (type : Value) : Keyed.get? [("type", type)] option ≠ some w := by
    rw [Keyed.get?_cons, if_neg other]
    simp
  by_cases hv : v = .null
  · subst hv
    cases h
    exact absurd get (untyped _)
  rw [mapEntries_of_ne hv] at h
  split at h
  · cases h
    exact absurd get (untyped _)
  · rename_i he
    split at h <;> cases h
    · exact ⟨_, .own he, get⟩
    · exact absurd get (untyped _)
  · split at h <;> cases h
    exact absurd get (untyped _)

/-- The options of a map's values are their own or the map's. -/
theorem offers_of_mapValue {r : Value × Bool} (h : mapValue s key v = .ok r)
    (other : option ≠ "type") (get : s.get? r.1 option = some w) : Offers s v option w := by
  rw [mapValue_eq] at h
  obtain ⟨value, hv, h⟩ := Except.bind_eq_ok_iff.1 h
  obtain ⟨items, hi, h⟩ := Except.bind_eq_ok_iff.1 h
  cases h
  have own (h : Keyed.get? items.1 option = some w) : Offers s v option w := by
    refine offers_of_mapOf (offers_of_mapEntries hv other ?_)
    unfold mapItems at hi
    split at hi
    · split at hi <;> cases hi
      rwa [Keyed.get?_put_of_ne other] at h
    · cases hi
      exact h
  have inherited (value : Entries)
      (declared : Keyed.get? value option = some w → Offers s v option w)
      (get : Keyed.get? (inheritOption s v (inheritOption s v value "enum") "ref") option
        = some w) : Offers s v option w := by
    rcases get?_inheritOption_cases get with get | get
    · rcases get?_inheritOption_cases get with get | get
      · exact declared get
      · exact offers_of_get? get
    · exact offers_of_get? get
  rw [mapped_eq] at get
  split at get
  · exact inherited _ (fun h => own (by rwa [Keyed.get?_put_of_ne other] at h)) get
  · exact inherited _ own get

/-! ## Shapes -/

theorem shapeOf_cases {shape : Shape} (h : shapeOf s nested key v = .ok shape) :
    (∃ below fields, fieldsOf? s v = some below ∧ nested below = .ok fields ∧
      shape = .nested fields) ∨
    ∃ kind enum, shape = .scalar kind enum ∧ ∀ values ∈ enum, ∃ declared,
      s.get? v "enum" = some declared ∧ enumValues s key declared = .ok (some values) := by
  have mixed : ∀ values ∈ (none : Option (List Value)), ∃ declared,
      s.get? v "enum" = some declared ∧ enumValues s key declared = .ok (some values) := by simp
  unfold fieldsOf?
  rcases he : s.entries? v with _ | _ | ⟨e, rest⟩
  case none =>
    rw [shapeOf, he] at h
    cases h
  case some.nil =>
    rw [shapeOf, he] at h
    cases h
    exact .inr ⟨_, _, rfl, mixed⟩
  have get (name : String) : s.get? v name = Keyed.get? (e :: rest) name := by
    rw [Store.get?, he]
    rfl
  rcases ht : Keyed.get? (e :: rest) "type" with _ | type
  case none =>
    rw [shapeOf_of_entries he (by simp), ht] at h
    obtain ⟨fields, hf, h⟩ := Except.bind_eq_ok_iff.1 h
    cases h
    exact .inl ⟨_, fields, by simp [ht], hf, rfl⟩
  rcases hi : s.entries? type with _ | _ | ⟨e', rest'⟩
  case some.nil =>
    rw [shapeOf_of_entries he (by simp), ht] at h
    dsimp only at h
    rw [hi] at h
    cases h
    exact .inr ⟨_, _, rfl, mixed⟩
  case some.cons =>
    rw [shapeOf_of_entries he (by simp), ht] at h
    dsimp only at h
    rw [hi] at h
    obtain ⟨fields, hf, h⟩ := Except.bind_eq_ok_iff.1 h
    cases h
    exact .inl ⟨_, fields, by simp [ht, hi], hf, rfl⟩
  case none =>
    rw [shapeOf_of_marker he ht hi] at h
    refine .inr ?_
    unfold markerShape at h
    split at h
    case h_1 | h_2 | h_3 => cases h
    case h_4 =>
      cases h
      exact ⟨_, _, rfl, mixed⟩
    case h_5 kind _ =>
      split at h
      · obtain ⟨enum, hn, h⟩ := Except.bind_eq_ok_iff.1 h
        cases h
        refine ⟨kind, enum, rfl, fun values hv => ?_⟩
        subst hv
        rw [get]
        cases hd : Keyed.get? (e :: rest) "enum" with
        | none =>
          rw [hd] at hn
          cases hn
        | some declared =>
          rw [hd] at hn
          exact ⟨declared, rfl, hn⟩
      · cases h
        exact ⟨_, _, rfl, mixed⟩

/-! ## Fields -/

/-- An element is an untyped array, or its field is made of a value of known type, which has its
options from the element and the element's object. -/
theorem describeElement_cases {field : Field}
    (h : describeElement s nested key raw el = .ok field) :
    (field.key = key ∧ field.shape = .mixed) ∨
    ∃ value isMap mapOfArray, Typed s nested key el isMap value mapOfArray field ∧
      elementObject? s key el = typedObject? s value ∧
      (∀ e, s.embedding? value = some e → s.embedding? el.value = some e) ∧
      ∀ option w, option ≠ "type" → s.get? value option = some w → Offers s el.value option w := by
  rw [describeElement_eq] at h
  split at h
  · cases h
  rename_i plain
  split at h
  · cases h
    exact .inl ⟨rfl, rfl⟩
  rename_i stored
  obtain ⟨r, hr, typed⟩ := Except.bind_eq_ok_iff.1 h
  refine .inr ⟨r.1, _, r.2, describeTyped_ok_iff.1 typed, ?_⟩
  unfold elementObject?
  rw [if_neg (by simpa [isListed, stored] using plain)]
  split at hr
  · rename_i map
    refine ⟨by rw [if_pos map, hr]; rfl, fun e he => ?_, fun option w other get => ?_⟩
    · rw [embedding?_of_mapValue hr] at he
      cases he
    · exact offers_elementType other (offers_of_mapValue hr other get)
  · rename_i map
    cases hr
    refine ⟨by rw [if_neg map], fun e he => ?_, fun option w other get => ?_⟩
    · rwa [embedding?_elementType] at he
    · exact offers_elementType other (offers_of_get? get)

/-- A field has the key under which it was read, and a shape made of its definition. -/
theorem origin_of_describeOnce {field : Field}
    (h : describeOnce s nested key raw = .ok (some field)) :
    field.key = key ∧ Origin s nested key raw field.shape := by
  have mixed : Origin s nested key raw .mixed := .scalar (by simp)
  unfold describeOnce at h
  split at h
  · cases h
  rename_i declared
  split at h
  · split at h <;> cases h
    exact ⟨rfl, .virtual⟩
  rename_i stored
  rcases he : element s raw with optional | el <;> rw [he] at h
  · cases h
    exact ⟨rfl, mixed⟩
  obtain ⟨field', h, same⟩ := Except.map_eq_ok_iff.1 h
  cases same
  have object : object? s key raw = elementObject? s key el := by
    unfold object?
    rw [Bool.eq_false_iff.2 declared, Bool.eq_false_iff.2 stored, he]
    rfl
  rcases describeElement_cases h with ⟨hk, hs⟩ | ⟨value, isMap, mapOfArray, typed, same, child, own⟩
  · exact ⟨hk, hs ▸ mixed⟩
  have offers {option : String} {w : Value} (other : option ≠ "type")
      (get : s.get? value option = some w) : Offers s raw option w :=
    offers_element he other (own option w other get)
  cases typed with
  | embedded hc =>
    refine ⟨rfl, ?_⟩
    have taken := encoded s raw
    rw [he] at taken
    have hc := child _ hc
    cases taken with
    | list hl => exact .embedded (.inr ⟨_, hl⟩) hc
    | typeList _ _ => cases hc
    | single _ => exact .embedded (.inl rfl) hc
  | reference _ refers hm =>
    refine ⟨rfl, ?_⟩
    rcases hr : s.get? value "ref" with _ | ref
    · rw [Field.refers, hr] at refers
      cases refers
    · rw [Field.refers, hr] at refers
      rw [hr] at hm
      exact .reference (offers (by decide) hr) refers hm
  | shaped hc plain hs =>
    refine ⟨rfl, ?_⟩
    rcases shapeOf_cases hs with ⟨below, fields, hb, hf, rfl⟩ | ⟨kind, enum, rfl, values⟩
    · have declared : object? s key raw = some below := by
        rw [object, same, typedObject?, hc, plain]
        exact hb
      exact .nested declared hf
    · refine .scalar fun vs hv => ?_
      obtain ⟨declared, hd, hn⟩ := values vs hv
      exact ⟨declared, offers (by decide) hd, hn⟩

end ModelTypes.Field

namespace ModelTypes

/-! ## What fields tell -/

/-- A text stands in an outlined value, alone, as a key, or in what it holds. -/
inductive Outline.HasText : Outline → String → Prop where
  | text (t : String) : HasText (.leaf (.str t)) t
  | item {items : List Outline} {o : Outline} {t : String} : o ∈ items → HasText o t →
      HasText (.list items) t
  | component {items : List Outline} {o : Outline} {t : String} : o ∈ items → HasText o t →
      HasText (.tuple items) t
  | key {entries : List (String × Outline)} {e : String × Outline} : e ∈ entries →
      HasText (.dict entries) e.1
  | value {entries : List (String × Outline)} {e : String × Outline} {t : String} : e ∈ entries →
      HasText e.2 t → HasText (.dict entries) t

/-- Sorts of what fields tell: keys, names of models and of children, enumerated texts. -/
structure TellSorts where
  key : String → Prop := fun _ => True
  model : String → Prop
  child : String → Prop
  text : String → Prop := fun _ => True

/-- What a field says of itself and of what stands below it is of the sorts. -/
inductive FieldOf.Tells (s : Store) (sorts : TellSorts) : FieldOf Shape → Prop where
  | scalar {key kind enum o a m ma sa} : sorts.key key →
      (∀ values ∈ enum, ∀ v ∈ values, ∀ t, (s.outline (Line.enumValue s v)).HasText t →
        sorts.text t) → Tells s sorts ⟨key, .scalar kind enum, o, a, m, ma, sa⟩
  | nested {key fields o a m ma sa} : sorts.key key → (∀ field ∈ fields, Tells s sorts field) →
      Tells s sorts ⟨key, .nested fields, o, a, m, ma, sa⟩
  | reference {key model idKind o a m ma sa} : sorts.key key → sorts.model model →
      Tells s sorts ⟨key, .reference model idKind, o, a, m, ma, sa⟩
  | embedded {key name array o a m ma sa} : sorts.key key → sorts.child name →
      Tells s sorts ⟨key, .embedded name array, o, a, m, ma, sa⟩
  | virtual {key o a m ma sa} : sorts.key key → Tells s sorts ⟨key, .virtual, o, a, m, ma, sa⟩

namespace Field

open Relation

section Definitions

variable (s : Store)

/-- A definition refers to a model by a name. -/
def RefersTo (raw : Value) (name : String) : Prop :=
  ∃ ref, Offers s raw "ref" ref ∧ s.truthy ref ∧
    ((s.attribute? ref "model_name").getD ref).text? = some name

/-- A text stands in a value that a definition enumerates. -/
def Enumerates (raw : Value) (text : String) : Prop :=
  ∃ declared key values, Offers s raw "enum" declared ∧
    enumValues s key declared = .ok (some values) ∧
    ∃ v ∈ values, (s.outline (Line.enumValue s v)).HasText text

/-- What a definition says of its own field is of the sorts. -/
structure Defines (sorts : TellSorts) (f : String × Value) : Prop where
  key : sorts.key f.1
  child : ∀ w e, (w = f.2 ∨ ∃ rest, s.items? f.2 = some (w :: rest)) → s.embedding? w = some e →
    sorts.child e.name
  reference : ∀ ref model, Offers s f.2 "ref" ref → s.truthy ref →
    referenceName s f.1 ref = .ok model → sorts.model model
  enumerated : ∀ text, Enumerates s f.2 text → sorts.text text

end Definitions

/-- A field tells no more than the definitions of it and of the fields below it. -/
theorem tells_of_describeWithin {s : Store} {sorts : TellSorts} {room : Nat} {f : String × Value}
    {field : Field} (h : describeWithin s room f.1 f.2 = .ok (some field))
    (defines : ∀ g, ReflTransGen (Encloses s) f g → Defines s sorts g) : field.Tells s sorts := by
  induction room generalizing f field with
  | zero => cases h
  | succ room ih =>
    rw [describeWithin_succ] at h
    have own := defines f .refl
    obtain ⟨named, origin⟩ := origin_of_describeOnce h
    obtain ⟨key, shape, o, a, m, ma, sa⟩ := field
    subst named
    cases origin with
    | scalar values =>
      refine .scalar own.key fun vs hv v hm t ht => ?_
      obtain ⟨declared, offers, hn⟩ := values vs hv
      exact own.enumerated t ⟨declared, _, vs, offers, hn, v, hm, ht⟩
    | nested declared read =>
      refine .nested own.key fun field hf => ?_
      obtain ⟨inner, mem, hd⟩ := (Except.filterMapM_ok read).2 field hf
      exact ih hd fun g hg => defines g (.head ⟨_, declared, mem⟩ hg)
    | reference offers truthy hm => exact .reference own.key (own.reference _ _ offers truthy hm)
    | embedded stands hc => exact .embedded own.key (own.child _ _ stands hc)
    | virtual => exact .virtual own.key

end Field
end ModelTypes
