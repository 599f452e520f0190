import ModelTypes.Proofs.Schema.Explicit
import ModelTypes.Proofs.Value.Known
/-!
# Definitions written with schemas for arrays of plain objects

One definition may declare arrays of plain objects, and another, written later, arrays of the
schemas that were made of these objects (`FieldsWith`). Their copies are trees that differ in these
arrays only, and if one of them has no copy, or one of the objects has none, neither has the first.
-/

namespace ModelTypes

/-- Makes schemas of definitions, one after the other, up to the first that cannot be made. -/
def Workspace.createAll (ws : Workspace) :
    List Value → Except SchemaError (List SchemaId) × Workspace
  | [] => (.ok [], ws)
  | definition :: rest =>
    match ws.create definition .null with
    | (.error e, ws) => (.error e, ws)
    | (.ok id, ws) =>
      match ws.createAll rest with
      | (.error e, ws) => (.error e, ws)
      | (.ok ids, ws) => (.ok (id :: ids), ws)

/-- A container holds a plain object: entries that declare several fields. -/
def Store.IsObject (s : Store) (v : Value) : Prop :=
  ∃ entries, s.node? v = some (.dict entries) ∧ isPlainObject entries = true

/-- The same keys, with values that have the same copies. -/
def SameFields (s : Store) : List (String × Value) → List (String × Value) → Prop :=
  List.Forall₂ fun e e' => e.1 = e'.1 ∧ s.copy e'.2 = s.copy e.2

mutual

/-- A field's value and another with schemas in place of some arrays' plain objects. The arrays
stand alone, as the type of a field, or below mappings without a type; all else has the same copy.
`objects` are what stands in these arrays, and `ids` the schemas that stand there instead. -/
inductive FieldWith (s : Store) : Value → Value → List Value → List SchemaId → Prop
  | same {v v'} (copy : s.copy v' = s.copy v) : FieldWith s v v' [] []
  | array {a a' object id} (plain : s.IsObject object) (node : s.nodes[a]? = some (.list [object]))
      (node' : s.nodes[a']? = some (.list [.schema id])) :
      FieldWith s (.shared a) (.shared a') [object] [id]
  | typed {a a' before before' after after' type type' object id} (plain : s.IsObject object)
      (first : "type" ∉ Keyed.keys before) (options : SameFields s before before')
      (options' : SameFields s after after')
      (node : s.nodes[a]? = some (.dict (before ++ ("type", .shared type) :: after)))
      (node' : s.nodes[a']? = some (.dict (before' ++ ("type", .shared type') :: after')))
      (list : s.nodes[type]? = some (.list [object]))
      (list' : s.nodes[type']? = some (.list [.schema id])) :
      FieldWith s (.shared a) (.shared a') [object] [id]
  | nested {a a' entries entries' objects ids} (untyped : Keyed.has entries "type" = false)
      (node : s.nodes[a]? = some (.dict entries)) (node' : s.nodes[a']? = some (.dict entries'))
      (below : FieldsWith s entries entries' objects ids) :
      FieldWith s (.shared a) (.shared a') objects ids

inductive FieldsWith (s : Store) : List (String × Value) → List (String × Value) →
    List Value → List SchemaId → Prop
  | nil : FieldsWith s [] [] [] []
  | cons {key v v' rest rest' objects objects' ids ids'} (own : FieldWith s v v' objects ids)
      (others : FieldsWith s rest rest' objects' ids') :
      FieldsWith s ((key, v) :: rest) ((key, v') :: rest') (objects ++ objects') (ids ++ ids')

end

variable {s : Store} {m n : Nat} {object v v' w : Value} {id : SchemaId}

/-! ## Copies of what the definitions share -/

theorem copies_congr (h : s.copy v' = s.copy v) : s.Copies v' w ↔ s.Copies v w := by
  rw [← Store.copy_ok_iff, ← Store.copy_ok_iff, h]

theorem SameFields.copies_iff {fields fields' copies : List (String × Value)}
    (h : SameFields s fields fields') :
    s.CopiesUnder fields' copies ↔ s.CopiesUnder fields copies := by
  induction h generalizing copies with
  | nil => rfl
  | @cons e e' rest rest' own others ih =>
    obtain ⟨key, v⟩ := e
    obtain ⟨key', v'⟩ := e'
    obtain ⟨rfl, copy⟩ : key = key' ∧ s.copy v' = s.copy v := own
    simp only [Store.copiesUnder_cons_iff, copies_congr copy, ih]

/-! ## Copies of the objects and of their arrays -/

/-- The copies of plain objects. -/
def CopiesObjects (s : Store) : List Value → List Entries → Prop :=
  List.Forall₂ fun object p => s.Copies object (.dict p)

namespace CopiesObjects

variable {s' : Store} {objects : List Value} {ps ps' : List Entries}

theorem unique (h : CopiesObjects s objects ps) (h' : CopiesObjects s objects ps') : ps = ps' :=
  List.right_unique_forall₂' (fun _ _ _ copied copied' => Value.dict.inj (copied.unique copied'))
    h h'

theorem copied (h : CopiesObjects s objects ps) (ho : object ∈ objects) :
    ∃ w, s.Copies object w := by
  induction h with
  | nil => cases ho
  | cons own _ ih =>
    rcases List.mem_cons.1 ho with rfl | ho
    · exact ⟨_, own⟩
    · exact ih ho

theorem agree (agree : Store.Agree m n s s') (known : ∀ object ∈ objects, object.Known m n)
    (h : CopiesObjects s objects ps) : CopiesObjects s' objects ps := by
  induction h with
  | nil => exact .nil
  | cons own _ ih =>
    exact .cons (own.agree agree (known _ List.mem_cons_self))
      (ih fun object h => known object (List.mem_cons_of_mem _ h))

end CopiesObjects

theorem Store.IsObject.copy (h : s.IsObject object) (copied : s.Copies object w) :
    ∃ p, w = .dict p ∧ isPlainObject p = true := by
  obtain ⟨entries, node, plain⟩ := h
  cases object with
  | shared a =>
    obtain ⟨p, rfl, each⟩ := (Store.copies_dict_iff node).1 copied
    refine ⟨p, rfl, ?_⟩
    have empty : p.isEmpty = entries.isEmpty := by
      cases each <;> rfl
    rwa [isPlainObject, empty, Keyed.has_congr each.keys]
  | _ => cases node

theorem copies_array_iff {a : Addr} (plain : s.IsObject object)
    (node : s.nodes[a]? = some (.list [object])) : s.Copies (.shared a) w ↔
      ∃ p, w = .list [.dict p] ∧ isPlainObject p = true ∧ s.Copies object (.dict p) := by
  rw [Store.copies_list_iff node]
  refine ⟨?_, ?_⟩
  · rintro ⟨copies, rfl, each⟩
    obtain ⟨c, rfl, own⟩ := Store.copiesAll_singleton_iff.1 each
    obtain ⟨p, rfl, plain⟩ := plain.copy own
    exact ⟨p, rfl, plain, own⟩
  · rintro ⟨p, rfl, -, own⟩
    exact ⟨_, rfl, .cons own .nil⟩

theorem copies_schema {a : Addr} (node : s.nodes[a]? = some (.list [.schema id])) :
    s.Copies (.shared a) (.list [.schema id]) :=
  .list node (.cons (.kept fun _ h => by cases h) .nil)

/-! ## Copies of both definitions -/

mutual

/-- If the first has a copy, so has the second, and the copies differ in the arrays only. -/
theorem FieldWith.copies {v v' w : Value} {objects : List Value} {ids : List SchemaId} :
    FieldWith s v v' objects ids → s.Copies v w → ∃ w' ps, s.Copies v' w' ∧ ValueWith w w' ps ids ∧
      CopiesObjects s objects ps
  | .same copy, copied => ⟨w, [], (copies_congr copy).2 copied, .same, .nil⟩
  | .array plain node node', copied => by
    obtain ⟨p, rfl, plain, own⟩ := (copies_array_iff plain node).1 copied
    exact ⟨_, [p], copies_schema node', .array plain, .cons own .nil⟩
  | .typed plain first options options' node node' list list', copied => by
    obtain ⟨copies, rfl, each⟩ := (Store.copies_dict_iff node).1 copied
    obtain ⟨before, middle, rfl, hbefore, hmiddle⟩ := Store.copiesUnder_append_iff.1 each
    obtain ⟨type, after, rfl, htype, hafter⟩ := Store.copiesUnder_cons_iff.1 hmiddle
    obtain ⟨p, rfl, plain, own⟩ := (copies_array_iff plain list).1 htype
    refine ⟨_, [p], .dict node' (Store.copiesUnder_append_iff.2 ⟨_, _, rfl, ?_, .cons ?_ ?_⟩),
      .typed ?_ plain, .cons own .nil⟩
    · exact options.copies_iff.2 hbefore
    · exact copies_schema list'
    · exact options'.copies_iff.2 hafter
    · rwa [hbefore.keys]
  | .nested untyped node node' below, copied => by
    obtain ⟨copies, rfl, each⟩ := (Store.copies_dict_iff node).1 copied
    obtain ⟨copies', ps, each', with', own⟩ := below.copies each
    exact ⟨_, ps, .dict node' each', .nested ((Keyed.has_congr each.keys).trans untyped) with', own⟩

theorem FieldsWith.copies {fields fields' copies : List (String × Value)} {objects : List Value}
    {ids : List SchemaId} : FieldsWith s fields fields' objects ids → s.CopiesUnder fields copies →
      ∃ copies' ps, s.CopiesUnder fields' copies' ∧ TreeWith copies copies' ps ids ∧
        CopiesObjects s objects ps
  | .nil, .nil => ⟨[], [], .nil, .nil, .nil⟩
  | .cons own others, .cons copied copiedRest => by
    obtain ⟨w', ps, copied', with', each⟩ := own.copies copied
    obtain ⟨rest', ps', copiedRest', withRest, eachRest⟩ := others.copies copiedRest
    exact ⟨_, _, .cons copied' copiedRest', .cons with' withRest, List.rel_append each eachRest⟩

end

mutual

/-- If the second has a copy and so have the objects, the first has a copy. -/
theorem FieldWith.copies_of {v v' w' : Value} {objects : List Value} {ids : List SchemaId} :
    FieldWith s v v' objects ids → s.Copies v' w' →
      (∀ object ∈ objects, ∃ u, s.Copies object u) → ∃ w, s.Copies v w
  | .same copy, copied, _ => ⟨w', (copies_congr copy).1 copied⟩
  | .array plain node node', _, each => by
    obtain ⟨u, own⟩ := each _ List.mem_cons_self
    exact ⟨_, .list node (.cons own .nil)⟩
  | .typed plain first options options' node node' list list', copied, each => by
    obtain ⟨u, own⟩ := each _ List.mem_cons_self
    obtain ⟨copies', rfl, each'⟩ := (Store.copies_dict_iff node').1 copied
    obtain ⟨before, middle, rfl, hbefore, hmiddle⟩ := Store.copiesUnder_append_iff.1 each'
    obtain ⟨type, after, rfl, htype, hafter⟩ := Store.copiesUnder_cons_iff.1 hmiddle
    refine ⟨.dict (before ++ ("type", .list [u]) :: after),
      .dict node (Store.copiesUnder_append_iff.2 ⟨_, _, rfl, ?_, .cons ?_ ?_⟩)⟩
    · exact options.copies_iff.1 hbefore
    · exact .list list (.cons own .nil)
    · exact options'.copies_iff.1 hafter
  | .nested untyped node node' below, copied, each => by
    obtain ⟨copies', rfl, each'⟩ := (Store.copies_dict_iff node').1 copied
    obtain ⟨copies, copied⟩ := below.copies_of each' each
    exact ⟨_, .dict node copied⟩

theorem FieldsWith.copies_of {fields fields' copies' : List (String × Value)}
    {objects : List Value} {ids : List SchemaId} : FieldsWith s fields fields' objects ids →
      s.CopiesUnder fields' copies' → (∀ object ∈ objects, ∃ u, s.Copies object u) →
        ∃ copies, s.CopiesUnder fields copies
  | .nil, _, _ => ⟨[], .nil⟩
  | .cons own others, .cons copied copiedRest, each => by
    obtain ⟨w, hw⟩ := own.copies_of copied fun object h => each object (List.mem_append_left _ h)
    obtain ⟨rest, hrest⟩ := others.copies_of copiedRest fun object h =>
      each object (List.mem_append_right _ h)
    exact ⟨_, .cons hw hrest⟩

end

/-! ## The objects are known -/

mutual

theorem FieldWith.isObject {v v' : Value} {objects : List Value} {ids : List SchemaId} :
    FieldWith s v v' objects ids → ∀ object ∈ objects, s.IsObject object
  | .same _ => by simp
  | .array plain _ _ | .typed plain _ _ _ _ _ _ _ => by simpa using plain
  | .nested _ _ _ below => below.isObject

theorem FieldsWith.isObject {fields fields' : List (String × Value)} {objects : List Value}
    {ids : List SchemaId} :
    FieldsWith s fields fields' objects ids → ∀ object ∈ objects, s.IsObject object
  | .nil => by simp
  | .cons own others => fun object h =>
    (List.mem_append.1 h).elim (own.isObject object) (others.isObject object)

end

mutual

/-- The objects are no newer than the definition that holds them. -/
theorem FieldWith.known {s₀ : Store} (agree : Store.Agree m n s₀ s) {v v' : Value}
    {objects : List Value} {ids : List SchemaId} : FieldWith s v v' objects ids → v.Known m n →
      ∀ object ∈ objects, object.Known m n
  | .same _, _ => by simp
  | .array _ node _, ha => by
    rw [agree.node ha] at node
    simpa using (agree.known ha node).1
  | .typed _ _ _ _ node _ list _, ha => by
    rw [agree.node ha] at node
    have type := knownUnder_iff.1 (agree.known ha node).2 _
      (List.mem_append_right _ List.mem_cons_self)
    rw [agree.node type] at list
    simpa using (agree.known type list).1
  | .nested _ node _ below, ha => by
    rw [agree.node ha] at node
    exact below.known agree (agree.known ha node).2

theorem FieldsWith.known {s₀ : Store} (agree : Store.Agree m n s₀ s)
    {fields fields' : List (String × Value)} {objects : List Value} {ids : List SchemaId} :
    FieldsWith s fields fields' objects ids → KnownUnder m n fields →
      ∀ object ∈ objects, object.Known m n
  | .nil, _ => by simp
  | .cons own others, known => fun object h =>
    (List.mem_append.1 h).elim (own.known agree known.1 object) (others.known agree known.2 object)

end

namespace Workspace

variable {ws : Workspace} {d : Value} {fields copies : List (String × Value)}
  {objects : List Value}

/-! ## Making a schema without options -/

theorem create_eq (node : ws.store.node? d = some (.dict fields)) : ws.create d .null =
    match copyFields ws.store [] fields with
    | (_, some e) => (.error e, ws)
    | (tree, none) => (.ok ((makeExplicit tree).run ws.schemas).1,
      { ws with schemas := ((makeExplicit tree).run ws.schemas).2 }) := by
  obtain ⟨a, rfl, written⟩ := Store.node?_eq_some_iff.1 node
  have own : ws.store.entries? (.shared a) = some fields := by
    simp [Store.entries?, Store.node?, written]
  have truthy : ws.store.truthy (.shared a) = !fields.isEmpty := by
    simp [Store.truthy, Store.sequence?, Store.items?, Store.tuple?, Store.node?, written, own]
  have given : ws.store.entries? (if ws.store.truthy (.shared a) then .shared a else .dict [])
      = some fields := by
    cases fields with
    | nil => simp [truthy, Store.entries?]
    | cons e rest => simpa [truthy] using own
  unfold create
  simp only [given]
  rfl

theorem create_of_copies (node : ws.store.node? d = some (.dict fields))
    (distinct : (Keyed.keys fields).Nodup) (each : ws.store.CopiesUnder fields copies) :
    ws.create d .null = (.ok ((makeExplicit copies).run ws.schemas).1,
      { ws with schemas := ((makeExplicit copies).run ws.schemas).2 }) := by
  rw [create_eq node, copyFields_nil each distinct]

theorem create_error (node : ws.store.node? d = some (.dict fields))
    (none : ¬ ∃ copies, ws.store.CopiesUnder fields copies) :
    ws.create d .null = (.error .containsItself, ws) := by
  have error : (copyFields ws.store [] fields).2 = some .containsItself := copyFields_error none
  rw [create_eq node]
  rcases hcopy : copyFields ws.store [] fields with ⟨tree, _ | e⟩ <;> rw [hcopy] at error
  · cases error
  · cases error
    rfl

/-- All objects are made into schemas if they all have copies; else the first that has none is
reported. -/
theorem createAll_cases {n : Nat} (known : ws.store.WellFormed n)
    (plain : ∀ object ∈ objects, ws.store.IsObject object) :
    (∃ ps ids made, CopiesObjects ws.store objects ps ∧
      MakesAll ws.schemas ps ids made ∧
        ws.createAll objects = (.ok ids, { ws with schemas := made })) ∨
    (∃ object ∈ objects, ¬ ∃ w, ws.store.Copies object w) ∧
      (ws.createAll objects).1 = .error .containsItself := by
  induction objects generalizing ws with
  | nil => exact .inl ⟨[], [], ws.schemas, .nil, .nil, rfl⟩
  | cons object rest ih =>
    obtain ⟨fields, node, -⟩ := plain object List.mem_cons_self
    obtain ⟨a, rfl, node'⟩ := Store.node?_eq_some_iff.1 node
    by_cases copied : ∃ p, ws.store.CopiesUnder fields p
    · obtain ⟨p, each⟩ := copied
      have own := create_of_copies node (known.node node').1 each
      let next : Workspace := { ws with schemas := ((makeExplicit p).run ws.schemas).2 }
      have others := @ih next known fun object h => plain object (List.mem_cons_of_mem _ h)
      rcases others with ⟨ps, ids, made, copies, makes, hrest⟩ | ⟨⟨other, hother, none⟩, hrest⟩
      · refine .inl ⟨p :: ps, _ :: ids, made, .cons (.dict node' each) copies, .cons rfl makes, ?_⟩
        rw [createAll, own]
        dsimp only
        rw [hrest]
        rfl
      · refine .inr ⟨⟨other, List.mem_cons_of_mem _ hother, none⟩, ?_⟩
        rw [createAll, own]
        dsimp only
        split <;> rename_i hcreate <;> rw [hcreate] at hrest
        · exact hrest
        · cases hrest
    · refine .inr ⟨⟨_, List.mem_cons_self, fun ⟨w, hw⟩ => ?_⟩, ?_⟩
      · obtain ⟨p, -, each⟩ := (Store.copies_dict_iff node').1 hw
        exact copied ⟨p, each⟩
      · rw [createAll, create_error node copied]

end Workspace

end ModelTypes
