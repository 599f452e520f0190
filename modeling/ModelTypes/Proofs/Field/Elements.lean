import ModelTypes.Proofs.Field.Arrays
/-!
# The encodings of an array

A definition is an array by a list, itself or as its type, or none. `Encoded` says what `element`
makes of each encoding, so that later proofs go through the encodings and not through `element`.
-/

namespace ModelTypes.Field

variable {s : Store} {raw inner v : Value} {entries : Entries} {items : List Value}
  {name option : String}

section Encodings

variable (s)

/-- What is left of a mapping whose type is a list: the type is the list's item, or the item's own
type, and then the item's reference goes before the mapping's. -/
def itemEntries (entries : Entries) (inner : Value) : Entries :=
  let options := Keyed.remove entries "type"
  match s.get? inner "type" with
  | some type =>
    let typed := Keyed.put options "type" type
    match s.get? inner "ref" with
    | some ref => if s.truthy ref then Keyed.put typed "ref" ref else typed
    | none => typed
  | none => Keyed.put options "type" inner

/-- Whether a mapping whose type is a list may be absent: its items declare no type of their own,
and it is an index of positions or has an undefined default. -/
def itemsOptional (raw inner : Value) : Bool :=
  (s.get? inner "type").isNone &&
    ((s.get? raw "index").any (·.text? == some "2dsphere") || isDefaultUndefined s raw)

/-- What taking off the outer array leaves, for each encoding of an array. -/
inductive Encoded (raw : Value) : Except Bool Element → Prop where
  | emptyList : s.items? raw = some [] → Encoded raw (.error false)
  | list {v : Value} {rest : List Value} : s.items? raw = some (v :: rest) →
      Encoded raw (.ok ⟨v, true, (s.embedding? v).any (·.defaultUndefined)⟩)
  | emptyType {entries : Entries} : s.entries? raw = some entries → typeItems? s raw = some [] →
      Encoded raw (.error (isDefaultUndefined s raw))
  | typeList {entries : Entries} {inner : Value} {rest : List Value} :
      s.entries? raw = some entries → typeItems? s raw = some (inner :: rest) →
      Encoded raw (.ok ⟨.dict (itemEntries s entries inner), true, itemsOptional s raw inner⟩)
  | single : isListed s raw = false → Encoded raw (.ok ⟨raw, false, !isRequired s raw⟩)

end Encodings

theorem items?_of_entries (h : s.entries? v = some entries) : s.items? v = none := by
  cases v with
  | shared a =>
    rcases hn : s.nodes[a]? with _ | node
    · simp [Store.entries?, Store.node?, hn] at h
    · cases node <;> simp_all [Store.entries?, Store.items?, Store.node?]
  | list _ => simp [Store.entries?, Store.node?] at h
  | _ => rfl

theorem entries?_of_kind (h : v.kind?.isSome) : s.entries? v = none := by
  cases v with
  | str _ | kind _ | marker _ => rfl
  | _ => simp [Value.kind?] at h

theorem kind?_of_entries (h : s.entries? v = some entries) : v.kind? = none := by
  rcases hk : v.kind? with _ | k
  · rfl
  · rw [entries?_of_kind (by simp [hk])] at h
    cases h

theorem entries?_of_typeItems (h : typeItems? s v = some items) :
    ∃ entries, s.entries? v = some entries := by
  obtain ⟨type, ht, -⟩ := Option.bind_eq_some_iff.1 h
  obtain ⟨entries, he, -⟩ := Option.bind_eq_some_iff.1 ht
  exact ⟨entries, he⟩

theorem encoded (s : Store) (raw : Value) : Encoded s raw (element s raw) := by
  rcases hl : s.items? raw with _ | _ | ⟨v, rest⟩
  case some.nil =>
    have : element s raw = .error false := by
      unfold element
      rw [hl]
    rw [this]
    exact .emptyList hl
  case some.cons =>
    have : element s raw = .ok ⟨v, true, (s.embedding? v).any (·.defaultUndefined)⟩ := by
      unfold element
      rw [hl]
      dsimp only
      cases s.embedding? v <;> rfl
    rw [this]
    exact .list hl
  rcases ht : typeItems? s raw with _ | items
  · have single : isListed s raw = false := by simp [isListed, hl, ht]
    rw [element_of_not_isListed single]
    exact .single single
  obtain ⟨entries, he⟩ := entries?_of_typeItems ht
  cases items with
  | nil =>
    have : element s raw = .error (isDefaultUndefined s raw) := by
      unfold element
      rw [hl, he, ht]
    rw [this]
    exact .emptyType he ht
  | cons inner rest =>
    have : element s raw
        = .ok ⟨.dict (itemEntries s entries inner), true, itemsOptional s raw inner⟩ := by
      unfold element itemEntries itemsOptional
      rw [hl, he, ht]
      dsimp only
      rcases s.get? inner "type" with _ | type
      · dsimp only
        cases s.get? raw "index" <;> rfl
      · rfl
    rw [this]
    exact .typeList he ht

/-! ## The options of an array's element -/

theorem get?_remove_of_ne (h : name ≠ option) :
    Keyed.get? (Keyed.remove entries option) name = Keyed.get? entries name := by
  have kept := Keyed.get?_filter (m := entries) (k := name) fun key => key != option
  rw [if_pos (by simpa using h)] at kept
  exact kept

theorem get?_inheritOption {source : Value} (h : name ≠ option) :
    Keyed.get? (inheritOption s source entries option) name = Keyed.get? entries name := by
  unfold inheritOption
  split
  · split
    · rfl
    · exact Keyed.get?_put_of_ne h
  · rfl

theorem get?_itemEntries_type : Keyed.get? (itemEntries s entries inner) "type"
    = some ((s.get? inner "type").getD inner) := by
  unfold itemEntries
  rcases s.get? inner "type" with _ | type <;> dsimp only
  · exact Keyed.get?_put_self
  · split
    · split
      · rw [Keyed.get?_put_of_ne (by decide)]
        exact Keyed.get?_put_self
      · exact Keyed.get?_put_self
    · exact Keyed.get?_put_self

theorem get?_itemEntries (type : name ≠ "type") (ref : name ≠ "ref") :
    Keyed.get? (itemEntries s entries inner) name = Keyed.get? entries name := by
  have kept (value : Value) : Keyed.get? (Keyed.put (Keyed.remove entries "type") "type" value) name
      = Keyed.get? entries name := by
    rw [Keyed.get?_put_of_ne type, get?_remove_of_ne type]
  unfold itemEntries
  rcases s.get? inner "type" with _ | type <;> dsimp only
  · exact kept _
  · split
    · split
      · rw [Keyed.get?_put_of_ne ref, kept]
      · exact kept _
    · exact kept _

/-- A reference that the item declares beside its type goes before the mapping's. -/
theorem get?_itemEntries_ref : Keyed.get? (itemEntries s entries inner) "ref" =
    if (s.get? inner "type").isSome && refers s inner then s.get? inner "ref"
    else Keyed.get? entries "ref" := by
  have kept (type : Value) :
      Keyed.get? (Keyed.put (Keyed.remove entries "type") "type" type) "ref"
        = Keyed.get? entries "ref" := by
    rw [Keyed.get?_put_of_ne (by decide), get?_remove_of_ne (by decide)]
  unfold itemEntries refers
  rcases s.get? inner "type" with _ | type <;> rcases s.get? inner "ref" with _ | ref
  case some.some =>
    simp only [Option.getD_some, Option.isSome_some, Bool.true_and]
    by_cases truthy : s.truthy ref = true
    · rw [if_pos truthy, if_pos truthy]
      exact Keyed.get?_put_self
    · rw [if_neg truthy, if_neg truthy]
      exact kept type
  all_goals exact kept _

end ModelTypes.Field
