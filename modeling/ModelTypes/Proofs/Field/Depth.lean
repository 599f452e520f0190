import Mathlib.Logic.Relation
import ModelTypes.Proofs.Field.Elements
/-!
# How deep a definition is read

A definition declares an object if it leads to a mapping of fields: by itself, as its type, as the
element of its array or as what its map holds. Reading a definition reads the fields of its object,
one level deeper, and is the same at every depth otherwise (`opens_describeOnce`). So objects nest
in one another as deep as the levels left, or reading fails.
-/

namespace ModelTypes

mutual

/-- How many objects nest in one another in a shape. -/
def Shape.levels : Shape → Nat
  | .nested fields => levelsOf fields + 1
  | _ => 0

def FieldOf.levels : FieldOf Shape → Nat
  | ⟨_, sh, _, _, _, _, _⟩ => sh.levels

def levelsOf : List (FieldOf Shape) → Nat
  | [] => 0
  | field :: rest => max field.levels (levelsOf rest)

end

namespace Field

/-! ## Objects of definitions -/

section Objects

variable (s : Store)

/-- The fields of a mapping that is no array and no map: its entries, or those of its type. -/
def fieldsOf? (v : Value) : Option Entries :=
  match s.entries? v with
  | none | some [] => none
  | some entries =>
    match Keyed.get? entries "type" with
    | none => some entries
    | some type =>
      match s.entries? type with
      | none | some [] => none
      | some inner => some inner

/-- The fields of the object that a definition of known type declares. A hoisted child has its
fields elsewhere, and so has what a reference names. -/
def typedObject? (v : Value) : Option Entries :=
  if (s.embedding? v).isSome || refers s v then none
  else fieldsOf? s v

/-- The fields of the object that an element declares, with the map around it taken off. -/
def elementObject? (key : String) (el : Element) : Option Entries :=
  if isListed s el.value || isArrayMarker s (elementType el) then none
  else if isMapMarker s (elementType el) then
    (mapValue s key (elementType el)).toOption.bind fun r => typedObject? s r.1
  else typedObject? s (elementType el)

/-- The fields of the object that a definition declares, with arrays and maps around it taken
off. -/
def object? (key : String) (raw : Value) : Option Entries :=
  if internalKeys.contains key || isVirtual s raw then none
  else (element s raw).toOption.bind (elementObject? s key)

/-- Where an object may stand in a definition: there itself, or in an item, in the type or in what a
map holds. -/
inductive Holds : Value → Entries → Prop where
  | own {v : Value} {fields : Entries} : s.entries? v = some fields → Holds v fields
  | item {v w : Value} {items : List Value} {fields : Entries} : s.items? v = some items →
      w ∈ items → Holds w fields → Holds v fields
  | type {v w : Value} {fields : Entries} : s.get? v "type" = some w → Holds w fields →
      Holds v fields
  | value {v w : Value} {fields : Entries} : s.get? v "of" = some w → Holds w fields →
      Holds v fields

/-- A field, by its key and definition, is one of the object that another declares. -/
def Encloses (outer inner : String × Value) : Prop :=
  ∃ fields, object? s outer.1 outer.2 = some fields ∧ inner ∈ fields

/-- A field is one of an object that stands in the definition of another. -/
def Contains (outer inner : String × Value) : Prop :=
  ∃ fields, Holds s outer.2 fields ∧ inner ∈ fields

end Objects

/-- So many steps lead on from somewhere. -/
inductive Descends {α : Type} (step : α → α → Prop) : Nat → α → Prop where
  | here (a : α) : Descends step 0 a
  | onward {n : Nat} {a b : α} : step a b → Descends step n b → Descends step (n + 1) a

variable {s : Store} {key name : String} {raw v : Value} {fields entries : Entries}

/-! ## Where objects stand -/

theorem fieldsOf?_cases (h : fieldsOf? s v = some fields) :
    (s.entries? v = some fields ∧ s.get? v "type" = none) ∨
      ∃ type, s.get? v "type" = some type ∧ s.entries? type = some fields := by
  unfold fieldsOf? at h
  unfold Store.get?
  rcases he : s.entries? v with _ | _ | ⟨e, rest⟩ <;> rw [he] at h
  · cases h
  · cases h
  rw [Option.bind_some]
  dsimp only at h
  rcases ht : Keyed.get? (e :: rest) "type" with _ | type <;> rw [ht] at h
  · exact .inl ⟨h, rfl⟩
  dsimp only at h
  rcases hi : s.entries? type with _ | _ | ⟨e', rest'⟩ <;> rw [hi] at h
  · cases h
  · cases h
  · exact .inr ⟨type, rfl, hi.trans h⟩

theorem fieldsOf?_of_typedObject? (h : typedObject? s v = some fields) :
    fieldsOf? s v = some fields := by
  unfold typedObject? at h
  split at h
  · cases h
  · exact h

/-- Only mappings and lists hold something. -/
theorem not_holds (no_entries : s.entries? v = none) (no_items : s.items? v = none) :
    ¬ Holds s v fields := by
  have get (name : String) : s.get? v name = none := by
    rw [Store.get?, no_entries]
    rfl
  intro h
  cases h with
  | own he => simp [no_entries] at he
  | item hi _ _ => simp [no_items] at hi
  | type ht _ => simp [get] at ht
  | value ho _ => simp [get] at ho

theorem mapEntries_holds (h : mapEntries s key v = .ok entries) :
    ∃ type, Keyed.get? entries "type" = some type ∧
      ∀ fields, Holds s type fields → Holds s v fields := by
  by_cases hv : v = .null
  · subst hv
    cases h
    exact ⟨mixedType, rfl, fun _ hf => absurd hf (not_holds rfl rfl)⟩
  rw [mapEntries_of_ne hv] at h
  rcases he : s.entries? v with _ | _ | ⟨e, rest⟩ <;> rw [he] at h <;> dsimp only at h
  · split at h <;> cases h
    exact ⟨v, rfl, fun _ hf => hf⟩
  · cases h
    exact ⟨mixedType, rfl, fun _ hf => absurd hf (not_holds rfl rfl)⟩
  · split at h <;> cases h
    · obtain ⟨type, ht⟩ := Keyed.has_iff_get?.1 ‹_›
      exact ⟨type, ht, fun _ => .type (by rw [Store.get?, he]; exact ht)⟩
    · exact ⟨v, rfl, fun _ hf => hf⟩

theorem mapItems_holds {of type : Value} {ofArray : Bool} {r : Entries × Bool}
    (h : mapItems s key of ofArray entries = .ok r) (ht : Keyed.get? entries "type" = some type) :
    ∃ type', Keyed.get? r.1 "type" = some type' ∧
      ∀ fields, Holds s type' fields → Holds s type fields := by
  unfold mapItems at h
  split at h
  · rename_i items hi
    split at h <;> cases h
    refine ⟨_, Keyed.get?_put_self, fun _ hf => ?_⟩
    have listed : s.items? type = some items := by
      simpa [typeItems?, Store.get?, Store.entries?, ht] using hi
    cases items with
    | nil => exact absurd hf (not_holds rfl rfl)
    | cons first rest => exact .item listed List.mem_cons_self hf
  · cases h
    exact ⟨type, ht, fun _ hf => hf⟩

theorem mapped_holds {type : Value} (ofArray : Bool) (ht : Keyed.get? entries "type" = some type) :
    ∃ value type', (mapped s v entries ofArray).1 = .dict value ∧
      Keyed.get? value "type" = some type' ∧
      ∀ fields, Holds s type' fields → Holds s type fields := by
  have inherited (value : Entries) :
      Keyed.get? (inheritOption s v (inheritOption s v value "enum") "ref") "type"
        = Keyed.get? value "type" := by
    rw [get?_inheritOption (by decide), get?_inheritOption (by decide)]
  rw [mapped_eq]
  split
  · exact ⟨_, mixedType, rfl, (inherited _).trans Keyed.get?_put_self,
      fun _ hf => absurd hf (not_holds rfl rfl)⟩
  · exact ⟨_, type, rfl, (inherited _).trans ht, fun _ hf => hf⟩

theorem mapOf_holds (h : Holds s (mapOf s v).1 fields) :
    ∃ of, s.get? v "of" = some of ∧ Holds s of fields := by
  unfold mapOf at h
  rcases ho : s.get? v "of" with _ | of <;> rw [ho] at h
  · exact absurd h (not_holds rfl rfl)
  refine ⟨of, rfl, ?_⟩
  dsimp only [Option.getD_some] at h
  split at h
  · rename_i items hi
    cases items with
    | nil => exact absurd h (not_holds rfl rfl)
    | cons first rest => exact .item hi List.mem_cons_self h
  · exact h

/-- An object that a map's values declare stands in what the map is of. -/
theorem mapValue_holds {r : Value × Bool} (h : mapValue s key v = .ok r)
    (hf : fieldsOf? s r.1 = some fields) : ∃ of, s.get? v "of" = some of ∧ Holds s of fields := by
  rw [mapValue_eq] at h
  obtain ⟨value, hv, h⟩ := Except.bind_eq_ok_iff.1 h
  obtain ⟨items, hi, h⟩ := Except.bind_eq_ok_iff.1 h
  cases h
  obtain ⟨declared, hd, in_of⟩ := mapEntries_holds hv
  obtain ⟨item, ht, in_declared⟩ := mapItems_holds hi hd
  obtain ⟨entries, type, hm, hg, in_item⟩ := mapped_holds (v := v) items.2 ht
  rw [hm] at hf
  rcases fieldsOf?_cases hf with ⟨-, hn⟩ | ⟨type', ht', he⟩
  · exact absurd (hg.symm.trans hn) (by simp)
  · obtain rfl : type = type' := Option.some.inj (hg.symm.trans ht')
    exact mapOf_holds (in_of _ (in_declared _ (in_item _ (.own he))))

/-- An object that an element declares is the element, or stands in its type or in what it is a map
of. -/
theorem elementObject?_cases {el : Element} (h : elementObject? s key el = some fields) :
    (s.entries? el.value = some fields ∧ s.get? el.value "type" = none) ∨
      ∃ option ∈ ["type", "of"], ∃ v, s.get? el.value option = some v ∧ Holds s v fields := by
  have declared : (fieldsOf? s (elementType el) = some fields) ∨
      ∃ of, s.get? (elementType el) "of" = some of ∧ Holds s of fields := by
    unfold elementObject? at h
    split at h
    · cases h
    split at h
    · obtain ⟨r, hr, ho⟩ := Option.bind_eq_some_iff.1 h
      exact .inr (mapValue_holds (Except.toOption_eq_some_iff.1 hr) (fieldsOf?_of_typedObject? ho))
    · exact .inl (fieldsOf?_of_typedObject? h)
  unfold elementType at declared
  split at declared
  case isTrue marker =>
    rcases declared with own | ⟨of, ho, -⟩
    · rcases fieldsOf?_cases own with ⟨-, hn⟩ | ⟨type, ht, he⟩
      · cases hn
      · cases ht
        rw [entries?_of_kind marker] at he
        cases he
    · cases ho
  case isFalse =>
    rcases declared with own | ⟨of, ho, hf⟩
    · rcases fieldsOf?_cases own with own | ⟨type, ht, he⟩
      · exact .inl own
      · exact .inr ⟨"type", by simp, type, ht, .own he⟩
    · exact .inr ⟨"of", by simp, of, ho, hf⟩

theorem holds_of_elementObject? {el : Element} (h : elementObject? s key el = some fields) :
    Holds s el.value fields := by
  rcases elementObject?_cases h with ⟨own, -⟩ | ⟨option, ho, v, hv, hf⟩
  · exact .own own
  · simp only [List.mem_cons, List.not_mem_nil, or_false] at ho
    rcases ho with rfl | rfl
    · exact .type hv hf
    · exact .value hv hf

/-- What an array hands to its elements stands in the array's definition. -/
theorem holds_of_itemEntries {inner w : Value} {rest : List Value} {option : String}
    (hr : s.entries? raw = some entries) (ht : typeItems? s raw = some (inner :: rest))
    (ho : option ∈ ["type", "of"]) (hw : Keyed.get? (itemEntries s entries inner) option = some w)
    (hf : Holds s w fields) : Holds s raw fields := by
  obtain ⟨list, hlist, hitems⟩ := Option.bind_eq_some_iff.1 ht
  simp only [List.mem_cons, List.not_mem_nil, or_false] at ho
  rcases ho with rfl | rfl
  · obtain rfl := Option.some.inj (get?_itemEntries_type.symm.trans hw)
    refine .type hlist (.item hitems List.mem_cons_self ?_)
    rcases hi : s.get? inner "type" with _ | type <;> rw [hi] at hf
    · exact hf
    · exact .type hi hf
  · refine .value (w := w) ?_ hf
    rw [Store.get?, hr]
    exact (get?_itemEntries (by decide) (by decide)).symm.trans hw

/-- The object that a definition declares stands in the definition. -/
theorem holds_of_object? (h : object? s key raw = some fields) : Holds s raw fields := by
  unfold object? at h
  split at h
  · cases h
  obtain ⟨el, he, h⟩ := Option.bind_eq_some_iff.1 h
  have taken := encoded s raw
  rw [Except.toOption_eq_some_iff.1 he] at taken
  cases taken with
  | list hl => exact .item hl List.mem_cons_self (holds_of_elementObject? h)
  | single _ => exact holds_of_elementObject? h
  | typeList hr ht =>
    rcases elementObject?_cases h with ⟨-, hn⟩ | ⟨option, ho, v, hv, hf⟩
    · exact absurd (get?_itemEntries_type.symm.trans hn) (by simp)
    · exact holds_of_itemEntries hr ht ho hv hf

theorem Encloses.contains {outer inner : String × Value} (h : Encloses s outer inner) :
    Contains s outer inner :=
  h.imp fun _ ⟨declared, mem⟩ => ⟨holds_of_object? declared, mem⟩

theorem fieldsOf?_ne_nil (h : fieldsOf? s v = some fields) : fields ≠ [] := by
  unfold fieldsOf? at h
  split at h
  case h_1 | h_2 => cases h
  case h_3 some_entry _ =>
    split at h
    · cases h
      exact some_entry
    · split at h
      case h_1 | h_2 => cases h
      case h_3 some_entry _ =>
        cases h
        exact some_entry

theorem typedObject?_ne_nil (h : typedObject? s v = some fields) : fields ≠ [] :=
  fieldsOf?_ne_nil (fieldsOf?_of_typedObject? h)

theorem object?_ne_nil (h : object? s key raw = some fields) : fields ≠ [] := by
  unfold object? at h
  split at h
  · cases h
  obtain ⟨el, -, h⟩ := Option.bind_eq_some_iff.1 h
  unfold elementObject? at h
  split at h
  · cases h
  split at h
  · obtain ⟨r, -, h⟩ := Option.bind_eq_some_iff.1 h
    exact typedObject?_ne_nil h
  · exact typedObject?_ne_nil h

/-! ## What can fail for its depth -/

section Shallow

variable {α β : Type}

/-- Whatever goes wrong, it is not the depth. -/
def Shallow (x : Except FieldError α) : Prop := ∀ name, x ≠ .error (.tooDeep name)

theorem shallow_ok {a : α} : Shallow (.ok a) := fun _ h => by cases h

theorem shallow_unsupported : Shallow (.error (.unsupported key v) : Except FieldError α) :=
  fun _ h => by cases h

theorem Shallow.bind {x : Except FieldError α} {f : α → Except FieldError β} (h : Shallow x)
    (hf : ∀ a, Shallow (f a)) : Shallow (x >>= f) := by
  intro name failed
  rcases Except.bind_eq_error_iff.1 failed with failed | ⟨a, -, failed⟩
  · exact h name failed
  · exact hf a name failed

theorem Shallow.map {x : Except FieldError α} {f : α → β} (h : Shallow x) : Shallow (f <$> x) := by
  rw [map_eq_pure_bind]
  exact h.bind fun _ => shallow_ok

theorem shallow_enumValues : Shallow (enumValues s key v) := by
  unfold enumValues
  split
  · exact shallow_ok
  · split <;> try exact shallow_ok
    split
    · exact shallow_ok
    · exact shallow_unsupported

theorem shallow_markerShape : Shallow (markerShape s key entries v) := by
  unfold markerShape
  split
  · exact shallow_unsupported
  · exact shallow_unsupported
  · exact shallow_unsupported
  · exact shallow_ok
  · split
    · exact shallow_enumValues.bind fun _ => shallow_ok
    · exact shallow_ok

theorem shallow_referenceName : Shallow (referenceName s key v) := by
  unfold referenceName
  split
  · exact shallow_unsupported
  · exact shallow_ok

theorem shallow_mapEntries : Shallow (mapEntries s key v) := by
  unfold mapEntries
  split <;> try exact shallow_ok
  · split <;> exact shallow_ok
  · split
    · exact shallow_ok
    · exact shallow_unsupported

theorem shallow_mapItems {ofArray : Bool} : Shallow (mapItems s key v ofArray entries) := by
  unfold mapItems
  split
  · split
    · exact shallow_unsupported
    · exact shallow_ok
  · exact shallow_ok

theorem shallow_mapValue : Shallow (mapValue s key v) := by
  rw [mapValue_eq]
  exact shallow_mapEntries.bind fun _ => shallow_mapItems.bind fun _ => shallow_ok

end Shallow

/-! ## Reading a definition once -/

/-- What reads the fields of an object. -/
abbrev Reader := Entries → Except FieldError (List Field)

/-- Reading opens an object, and gives what its fields are read as, or it opens none; then it does
not depend on how fields are read. -/
inductive Opens {α : Type} (shape? : α → Option Shape) (read : Reader → Except FieldError α) :
    Option Entries → Prop where
  | object {fields : Entries} (make : List Field → α) :
      (∀ nested, read nested = make <$> nested fields) →
      (∀ fields, shape? (make fields) = some (.nested fields)) → Opens shape? read (some fields)
  | nothing (result : Except FieldError α) : (∀ nested, read nested = result) → Shallow result →
      (∀ a, result = .ok a → ∀ sh ∈ shape? a, sh.isNested = false) → Opens shape? read none

theorem Opens.map {α β : Type} {shape? : α → Option Shape} {shape?' : β → Option Shape}
    {read : Reader → Except FieldError α} {object? : Option Entries} (h : Opens shape? read object?)
    (f : α → β) (same : ∀ a, shape?' (f a) = shape? a) :
    Opens shape?' (fun nested => f <$> read nested) object? := by
  cases h with
  | object make reads shapes =>
    refine .object (fun fields => f (make fields)) (fun nested => ?_)
      fun fields => (same _).trans (shapes fields)
    rw [reads]
    exact (comp_map _ _ _).symm
  | nothing result reads shallow flat =>
    refine .nothing (f <$> result) (fun nested => by rw [reads]) shallow.map fun b hb sh hsh => ?_
    obtain ⟨a, ha, rfl⟩ := Except.map_eq_ok_iff.1 hb
    exact flat a ha sh (same a ▸ hsh)

theorem opens_shapeOf : Opens some (fun nested => shapeOf s nested key v) (fieldsOf? s v) := by
  unfold fieldsOf?
  rcases he : s.entries? v with _ | _ | ⟨e, rest⟩
  case none =>
    exact .nothing (.error (.unsupported key v)) (fun nested => by rw [shapeOf, he]; rfl)
      shallow_unsupported (by simp)
  case some.nil =>
    exact .nothing (.ok .mixed) (fun nested => by rw [shapeOf, he]; rfl) shallow_ok
      (by rintro _ ⟨⟩ sh ⟨⟩; rfl)
  have reads (nested : Reader) : shapeOf s nested key v = _ := shapeOf_of_entries he (by simp)
  dsimp only
  rcases ht : Keyed.get? (e :: rest) "type" with _ | type
  case none =>
    refine .object .nested (fun nested => ?_) fun _ => rfl
    rw [reads, ht, map_eq_pure_bind]
  dsimp only
  rcases hi : s.entries? type with _ | _ | ⟨e', rest'⟩
  case some.nil =>
    refine .nothing (.ok .mixed) (fun nested => ?_) shallow_ok (by rintro _ ⟨⟩ sh ⟨⟩; rfl)
    rw [reads, ht]
    dsimp only
    rw [hi]
    rfl
  case some.cons =>
    refine .object .nested (fun nested => ?_) fun _ => rfl
    rw [reads, ht, map_eq_pure_bind]
    dsimp only
    rw [hi]
  case none =>
    exact .nothing _ (fun _ => shapeOf_of_marker he ht hi) shallow_markerShape
      (by rintro sh h _ ⟨⟩; obtain ⟨kind, enum, rfl⟩ := scalar_of_markerShape h; rfl)

theorem opens_describeTyped {el : Element} {isMap mapOfArray : Bool} :
    Opens (fun field : Field => some field.shape)
      (fun nested => describeTyped s nested key el isMap v mapOfArray) (typedObject? s v) := by
  unfold typedObject? describeTyped
  rcases s.embedding? v with _ | e <;> dsimp only
  · by_cases refer : refers s v
    · have refer' : s.truthy ((s.get? v "ref").getD .null) = true := refer
      simp only [refer, refer', Option.isSome_none, Bool.false_or, if_true]
      refine .nothing _ (fun _ => rfl) (shallow_referenceName.bind fun _ => shallow_ok) ?_
      intro field h sh hsh
      obtain ⟨model, -, h⟩ := Except.bind_eq_ok_iff.1 h
      cases h
      cases hsh
      rfl
    · have plain : ¬ s.truthy ((s.get? v "ref").getD .null) = true := refer
      simp only [refer, plain, Option.isSome_none, Bool.false_or, bind_pure_comp]
      exact opens_shapeOf.map _ fun _ => rfl
  · exact .nothing _ (fun _ => rfl) shallow_ok (by rintro _ ⟨⟩ sh ⟨⟩; rfl)

theorem opens_describeElement {el : Element} : Opens (fun field : Field => some field.shape)
    (fun nested => describeElement s nested key raw el) (elementObject? s key el) := by
  unfold elementObject?
  by_cases listed : isListed s el.value
  · simp only [describeElement_of_isListed listed, listed, Bool.true_or, if_true]
    exact .nothing _ (fun _ => rfl) shallow_unsupported (by simp)
  simp only [describeElement_of_not_isListed (Bool.eq_false_iff.2 listed)]
  by_cases array : isArrayMarker s (elementType el)
  · simp only [array, Bool.or_true, if_true]
    exact .nothing _ (fun _ => rfl) shallow_ok (by rintro _ ⟨⟩ sh ⟨⟩; rfl)
  by_cases map : isMapMarker s (elementType el)
  · simp only [listed, array, map, Bool.or_self, if_true]
    have shallow : Shallow (mapValue s key (elementType el)) := shallow_mapValue
    generalize mapValue s key (elementType el) = read at shallow ⊢
    cases read with
    | error e =>
      exact .nothing (.error e) (fun _ => rfl) (fun name h => shallow name (by cases h; rfl))
        (by simp)
    | ok r => exact opens_describeTyped
  · simp only [listed, array, map, Bool.or_self]
    exact opens_describeTyped

section Once

variable (s)

/-- Reading a definition where `nested` reads the fields of its object. -/
def describeOnce (nested : Reader) (key : String) (raw : Value) :
    Except FieldError (Option Field) :=
  if internalKeys.contains key then .ok none
  else if isVirtual s raw then
    .ok (if key = "id" then none else some { key, shape := .virtual, optional := false })
  else
    match element s raw with
    | .error optional => .ok (some { key, shape := .mixed, optional, isArray := true })
    | .ok el => some <$> describeElement s nested key raw el

end Once

theorem describeWithin_succ {room : Nat} : describeWithin s (room + 1) key raw =
    describeOnce s
      (fun fields => fields.filterMapM fun f => describeWithin s room f.1 f.2) key raw :=
  rfl

theorem opens_describeOnce (s : Store) (key : String) (raw : Value) :
    Opens (Option.map FieldOf.shape) (fun nested => describeOnce s nested key raw)
      (object? s key raw) := by
  unfold describeOnce object?
  by_cases internal : internalKeys.contains key
  · simp only [internal, if_true, Bool.true_or]
    exact .nothing _ (fun _ => rfl) shallow_ok (by rintro _ ⟨⟩ sh ⟨⟩)
  by_cases computed : isVirtual s raw
  · simp only [internal, computed, if_true, Bool.or_true]
    refine .nothing _ (fun _ => rfl) shallow_ok ?_
    rintro field ⟨⟩ sh hsh
    split at hsh
    · cases hsh
    · cases hsh
      rfl
  simp only [internal, computed, Bool.or_self]
  rcases element s raw with optional | el
  · exact .nothing _ (fun _ => rfl) shallow_ok (by rintro _ ⟨⟩ sh ⟨⟩; rfl)
  · exact opens_describeElement.map some fun _ => rfl

/-! ## Reading to the end -/

theorem levels_eq {field : Field} : field.levels = field.shape.levels := by
  cases field
  rw [FieldOf.levels]

theorem levelsOf_lt {n : Nat} {read : List Field} (h : 0 < n)
    (below : ∀ field ∈ read, field.shape.levels < n) : levelsOf read < n := by
  induction read with
  | nil => exact h
  | cons field rest ih =>
    rw [levelsOf, levels_eq]
    exact Nat.max_lt.2 ⟨below field List.mem_cons_self,
      ih fun f hf => below f (List.mem_cons_of_mem _ hf)⟩

theorem levels_of_not_nested {sh : Shape} (h : sh.isNested = false) : sh.levels = 0 := by
  cases sh with
  | nested _ => cases h
  | _ => rfl

/-- Reading runs out of levels only as deep below a field as there is room. -/
theorem descends_of_tooDeep {room : Nat}
    (h : describeWithin s room key raw = .error (.tooDeep name)) :
    Descends (Encloses s) room (key, raw) := by
  induction room generalizing key raw with
  | zero => exact .here _
  | succ room ih =>
    have opens := opens_describeOnce s key raw
    rw [describeWithin_succ] at h
    generalize declared : object? s key raw = object at opens
    cases opens with
    | object make reads shapes =>
      rw [reads, Except.map_eq_error_iff] at h
      obtain ⟨inner, mem, h⟩ := Except.filterMapM_error h
      exact .onward ⟨_, declared, mem⟩ (ih h)
    | nothing result reads shallow flat =>
      rw [reads] at h
      exact absurd h (shallow name)

/-- What is read has room for all that is below it, and comes out no deeper. -/
theorem within_room {room : Nat} {read : Option Field}
    (h : describeWithin s room key raw = .ok read) :
    (∀ n, Descends (Encloses s) n (key, raw) → n < room) ∧
      ∀ field ∈ read, field.shape.levels < room := by
  -- the fields of the object are read in the room less one, and there is no other way down
  induction room generalizing key raw read with
  | zero => cases h
  | succ room ih =>
    have opens := opens_describeOnce s key raw
    rw [describeWithin_succ] at h
    generalize declared : object? s key raw = object at opens
    cases opens with
    | object make reads shapes =>
      rw [reads] at h
      obtain ⟨fields, entered, rfl⟩ := Except.map_eq_ok_iff.1 h
      obtain ⟨given, origin⟩ := Except.filterMapM_ok entered
      refine ⟨fun n descends => ?_, fun field hf => ?_⟩
      · cases descends with
        | here => exact Nat.zero_lt_succ _
        | onward encloses descends =>
          obtain ⟨fields', declared', mem⟩ := encloses
          obtain rfl := Option.some.inj (declared.symm.trans declared')
          obtain ⟨b, hb⟩ := given _ mem
          exact Nat.succ_lt_succ ((ih hb).1 _ descends)
      -- the object has a field, which was read, so there is room below for the fields that are kept
      · have shape := shapes fields
        rw [Option.mem_def.1 hf] at shape
        rw [Option.some.inj shape, Shape.levels]
        obtain ⟨inner, mem⟩ := List.exists_mem_of_ne_nil _ (object?_ne_nil declared)
        obtain ⟨b, hb⟩ := given _ mem
        refine Nat.succ_lt_succ (levelsOf_lt ((ih hb).1 0 (.here _)) fun f hf => ?_)
        obtain ⟨a, -, ha⟩ := origin f hf
        exact (ih ha).2 f rfl
    | nothing result reads shallow flat =>
      rw [reads] at h
      refine ⟨fun n descends => ?_, fun field hf => ?_⟩
      · cases descends with
        | here => exact Nat.zero_lt_succ _
        | onward encloses =>
          obtain ⟨fields, declared', -⟩ := encloses
          rw [declared] at declared'
          cases declared'
      · subst h
        rw [levels_of_not_nested (flat _ rfl _ (by rw [Option.mem_def.1 hf]; rfl))]
        exact Nat.zero_lt_succ _

/-! ## Ways without an end -/

section Ways

variable {α : Type} {step step' : α → α → Prop} {n : Nat} {a b : α}

theorem Descends.mono (imp : ∀ a b, step a b → step' a b) (h : Descends step n a) :
    Descends step' n a := by
  induction h with
  | here a => exact .here a
  | onward first _ ih => exact .onward (imp _ _ first) ih

theorem Descends.le {m : Nat} (h : Descends step n a) (le : m ≤ n) : Descends step m a := by
  induction h generalizing m with
  | here a =>
    obtain rfl := Nat.le_zero.1 le
    exact .here a
  | onward first _ ih =>
    cases m with
    | zero => exact .here _
    | succ m => exact .onward first (ih (Nat.le_of_succ_le_succ le))

theorem Descends.of_reaches (h : Relation.ReflTransGen step a b) (hb : Descends step n b) :
    Descends step n a := by
  induction h using Relation.ReflTransGen.head_induction_on with
  | refl => exact hb
  | head first _ ih => exact (Descends.onward first ih).le (Nat.le_succ n)

/-- There is no end to the steps from what leads back to itself. -/
theorem Descends.of_cycle (h : Relation.TransGen step a a) : Descends step n a := by
  induction n with
  | zero => exact .here a
  | succ n ih =>
    obtain ⟨b, first, rest⟩ := Relation.TransGen.head'_iff.1 h
    exact .onward first (.of_reaches rest ih)

end Ways

/-! ## The limit -/

theorem room_of_depth {depth : Int} (h : depth ≤ maxNestingDepth) :
    (maxNestingDepth + 1 - depth).toNat = (maxNestingDepth + 1 - (depth + 1)).toNat + 1 := by
  omega

/-- Reading goes one level deeper with each object. -/
theorem describe_eq (s : Store) (key : String) (raw : Value) (depth : Int) :
    describe s key raw depth =
      if maxNestingDepth < depth then .error (.tooDeep key)
      else describeOnce s
        (fun fields => fields.filterMapM fun f => describe s f.1 f.2 (depth + 1)) key raw := by
  unfold describe
  split
  case isTrue deep =>
    have no_room : (maxNestingDepth + 1 - depth).toNat = 0 := by omega
    rw [no_room]
    rfl
  case isFalse shallow =>
    rw [room_of_depth (by omega), describeWithin_succ]

/-- Reading fails for its depth only on objects that nest deeper than the levels left from where it
starts, and what it gives is no deeper than those, nor is anything below the definition. So nothing
is read from which objects lead back to themselves. -/
theorem describe_depth (s : Store) (key : String) (raw : Value) (depth : Int) :
    (describe s key raw depth =
      if maxNestingDepth < depth then .error (.tooDeep key)
      else describeOnce s
        (fun fields => fields.filterMapM fun f => describe s f.1 f.2 (depth + 1)) key raw) ∧
    (∀ name, describe s key raw depth = .error (.tooDeep name) →
      ∃ n : Nat, maxNestingDepth - depth < n ∧
        Descends (Encloses s) n (key, raw) ∧ Descends (Contains s) n (key, raw)) ∧
    (∀ read, describe s key raw depth = .ok read →
      (∀ n : Nat, Descends (Encloses s) n (key, raw) → n ≤ maxNestingDepth - depth) ∧
        ∀ field ∈ read, field.shape.levels ≤ maxNestingDepth - depth) ∧
    ((∃ f, Relation.ReflTransGen (Encloses s) (key, raw) f ∧ Relation.TransGen (Encloses s) f f) →
      ∀ read, describe s key raw depth ≠ .ok read) := by
  have bound (read : Option Field) (h : describe s key raw depth = .ok read) :
      (∀ n : Nat, Descends (Encloses s) n (key, raw) → n ≤ maxNestingDepth - depth) ∧
        ∀ field ∈ read, field.shape.levels ≤ maxNestingDepth - depth := by
    obtain ⟨descent, levels⟩ := within_room h
    refine ⟨fun n descends => ?_, fun field hf => ?_⟩
    · have := descent n descends
      omega
    · have := levels field hf
      omega
  refine ⟨describe_eq s key raw depth, fun name h => ?_, bound, ?_⟩
  · have descends := descends_of_tooDeep h
    exact ⟨_, by omega, descends, descends.mono fun _ _ => Encloses.contains⟩
  · rintro ⟨f, reached, cycle⟩ read h
    have endless := Descends.of_reaches reached
      (Descends.of_cycle cycle (n := (maxNestingDepth + 1 - depth).toNat))
    exact Nat.lt_irrefl _ ((within_room h).1 _ endless)

theorem describe_depth_looped :
    (∃ n : Nat, maxNestingDepth - 63 < (n : Int) ∧
      Descends (Contains ⟨[.dict [("child", .shared 0)]]⟩) n ("node", .shared 0)) ∧
    (∀ read, describe ⟨[.dict [("child", .shared 0)]]⟩ "node" (.shared 0) ≠ .ok read) ∧
    ∃ field, describe {} "place" (.dict [("city", .dict [("name", .str "String")])]) 62
      = .ok (some field) ∧ field.shape.levels ≤ (maxNestingDepth - 62 : Int) := by
  refine ⟨?_, ?_, ?_⟩
  · obtain ⟨n, deep, -, contains⟩ := (describe_depth ⟨[.dict [("child", .shared 0)]]⟩ "node"
      (.shared 0) 63).2.1 "child" rfl
    exact ⟨n, deep, contains⟩
  · have again (key : String) (declared : internalKeys.contains key = false) :
        Encloses ⟨[.dict [("child", .shared 0)]]⟩ (key, .shared 0) ("child", .shared 0) :=
      ⟨[("child", .shared 0)], by rw [object?, declared]; rfl, List.mem_cons_self⟩
    exact (describe_depth _ _ _ _).2.2.2
      ⟨_, .single (again "node" rfl), .single (again "child" rfl)⟩
  · have read : describe {} "place" (.dict [("city", .dict [("name", .str "String")])]) 62
        = .ok (some { key := "place", optional := false, shape := .nested [{
          key := "city", optional := false, shape := .nested [{
            key := "name", shape := .scalar .string none }] }] }) := rfl
    exact ⟨_, read, ((describe_depth _ _ _ _).2.2.1 _ read).2 _ rfl⟩

end Field
end ModelTypes
