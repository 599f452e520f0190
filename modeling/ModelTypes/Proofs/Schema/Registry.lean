import ModelTypes.Proofs.Schema.Fresh
import ModelTypes.Proofs.Tree.Frame
/-!
# Registered virtuals

A schema knows its virtuals by a registry beside its tree. A virtual that is registered for the
first time is placed in the tree, and one that is there already is left alone, whatever has become
of its place in the meantime. So a registration takes effect unless the place of a virtual was
written over since it was registered, and changes nothing else but what stands on its way
(`addVirtual_frame`).
-/

namespace ModelTypes

variable {id : SchemaId} {path q : String} {schema : Schema} {tree : Entries}

/-- The virtual of a path stands in the tree of its schema. -/
def Schema.Holds (id : SchemaId) (path : String) (schema : Schema) : Prop :=
  leafAt (Path.segments path) schema.tree = some (virtualValue id path)

/-- A schema is made with the identifier's virtual, or none, and that stands in its tree. -/
theorem Schema.Fresh.holds (h : schema.Fresh id)
    (registered : Keyed.has schema.virtuals path = true) : schema.Holds id path := by
  have leaf (tree : Entries) (h : Keyed.get? tree "id" = some (virtualValue id "id")) :
      leafAt (Path.segments "id") tree = some (virtualValue id "id") := by
    rw [Path.segments_of_dotFree (by decide), leafAt, h]
    rfl
  cases h with
  | @intro options functions tree settled =>
    unfold Schema.madeOf Schema.withAutomaticPaths at registered ⊢
    unfold Schema.Holds
    dsimp only at registered ⊢
    generalize (if options.objectId && !Keyed.has tree "_id" then _ else tree : Entries) = tree
      at registered ⊢
    cases adds : options.id && !Keyed.has tree "id" with
    | false =>
      rw [adds] at registered
      cases registered
    | true =>
      simp only [adds, if_true, Keyed.put_nil, Keyed.has_iff_mem, Keyed.keys_cons, Keyed.keys_nil,
        List.mem_singleton] at registered ⊢
      subst registered
      refine leaf _ ?_
      have stands : Keyed.get? (Keyed.put tree "id" (virtualValue id "id")) "id"
          = some (virtualValue id "id") := Keyed.get?_put_self
      split
      · rename_i key _
        split
        · rename_i free
          have ne : "id" ≠ key := by
            rintro rfl
            rw [Keyed.has_iff_get?.2 ⟨_, stands⟩] at free
            cases free
          rw [Keyed.get?_put_of_ne ne, stands]
        · exact stands
      · exact stands

namespace Workspace

variable {ws : Workspace}

/-! ## Registering a virtual -/

theorem schema_addVirtual (hid : id < ws.schemas.length)
    (missing : Keyed.has (ws.schema id).virtuals path = false) :
    (ws.addVirtual id path).schema id = { ws.schema id with
      virtuals := Keyed.put (ws.schema id).virtuals path {}
      tree := place path (virtualValue id path) (ws.schema id).tree } := by
  unfold addVirtual
  rw [Compile.schema_update, if_pos ⟨rfl, hid⟩, missing]
  rfl

theorem schema_addVirtual_of_has (there : Keyed.has (ws.schema id).virtuals path = true) :
    (ws.addVirtual id path).schema id = ws.schema id := by
  unfold addVirtual
  rw [Compile.schema_update, there, if_pos rfl, ite_self]

theorem isLeaf_virtualValue : (virtualValue id path).IsLeaf := by
  rintro entries ⟨⟩

/-- After its registration a virtual stands in the tree, unless it was registered before and did not
stand there. -/
theorem holds_addVirtual_iff (hid : id < ws.schemas.length) :
    ((ws.addVirtual id path).schema id).Holds id path ↔
      (Keyed.has (ws.schema id).virtuals path = true → (ws.schema id).Holds id path) := by
  cases there : Keyed.has (ws.schema id).virtuals path with
  | true => simp [schema_addVirtual_of_has there]
  | false =>
    rw [schema_addVirtual hid there]
    have stands : leafAt (Path.segments path)
        (place path (virtualValue id path) (ws.schema id).tree) = some (virtualValue id path) :=
      leafAt_placeAt_self (Path.segments_ne_nil path) isLeaf_virtualValue
    exact ⟨fun _ => by rintro ⟨⟩, fun _ => stands⟩

/-- A registration changes nothing in the flat form of the tree but at its path, below it, and where
something stands on the way to its path. -/
theorem get?_flatten_addVirtual (apart : Path.Apart path q)
    (way : Keyed.has (ws.schema id).virtuals path = false → Path.isBelow q path = true →
      leafAt (Path.segments q) (ws.schema id).tree = none) :
    Keyed.get? (flatten ((ws.addVirtual id path).schema id).tree) q
      = Keyed.get? (flatten (ws.schema id).tree) q := by
  cases there : Keyed.has (ws.schema id).virtuals path with
  | true => rw [schema_addVirtual_of_has there]
  | false =>
    by_cases hid : id < ws.schemas.length
    · rw [schema_addVirtual hid there]
      exact get?_flatten_place apart (way there)
    · unfold addVirtual
      rw [Compile.schema_update, if_neg fun h => hid h.2]

/-- What stands on the way of a new virtual gives way to a mapping. -/
theorem leafAt_addVirtual_of_isBelow (hid : id < ws.schemas.length)
    (missing : Keyed.has (ws.schema id).virtuals path = false)
    (above : Path.isBelow q path = true) :
    leafAt (Path.segments q) ((ws.addVirtual id path).schema id).tree = none := by
  rw [schema_addVirtual hid missing]
  refine leafAt_placeAt_of_prefix (Path.segments_prefix_iff.2 (.inr above)) fun same => ?_
  obtain ⟨rest, rfl⟩ := Path.isBelow_iff.1 above
  rw [Path.segments_append] at same
  exact Path.segments_ne_nil rest (by simpa using same)

/-! ## Any sequence of edits -/

/-- The edit may write over the place of a schema's virtual: it adds a field under the first key of
the virtual's path, or registers a virtual above it or below it. So may all that is added where
there is no schema yet. -/
def Edit.overwrites (ws : Workspace) (id : SchemaId) (path : String) : Edit → Bool
  | add target definition =>
    target == id && (decide (ws.schemas.length ≤ id) ||
      (ws.store.entries? definition).any fun fields =>
        (Path.segments path).head?.any (Keyed.has fields))
  | addVirtual target other =>
    target == id && !Keyed.has (ws.schema id).virtuals other &&
      (Path.isBelow other path || Path.isBelow path other)
  | _ => false

/-- A schema's virtual is registered, and it was lost before, or one of the edits since has written
over its place. -/
def overwritten (id : SchemaId) (path : String) : Workspace → Bool → List Edit → Bool
  | ws, lost, [] => Keyed.has (ws.schema id).virtuals path && lost
  | ws, lost, edit :: rest =>
    overwritten id path (edit.apply ws)
      (edit.overwrites ws id path || Keyed.has (ws.schema id).virtuals path && lost) rest

/-- A schema's virtual stands in its tree if it is registered. -/
def Registered (ws : Workspace) (id : SchemaId) (path : String) : Prop :=
  Keyed.has (ws.schema id).virtuals path = true → (ws.schema id).Holds id path

/-- Schemas that are made hold their virtuals, and the others are not touched. -/
theorem Registered.append {made : List Schema} (h : ws.Registered id path)
    (fresh : FreshFrom ws.schemas.length made) :
    ({ ws with schemas := ws.schemas ++ made } : Workspace).Registered id path := by
  intro registered
  by_cases hid : id < ws.schemas.length
  · rw [schema_append hid] at registered ⊢
    exact h registered
  · rcases fresh_append fresh (Nat.le_of_not_lt hid) with none | own
    · rw [none] at registered
      cases registered
    · exact own.holds registered

theorem Registered.update_of_ne {target : SchemaId} {f : Schema → Schema}
    (h : ws.Registered id path) (ne : id ≠ target) : (ws.update target f).Registered id path := by
  unfold Registered
  rw [schema_update_of_ne ne]
  exact h

/-- A tree in which the same stands under the first key of a path has the same leaf there. -/
theorem leafAt_of_head {tree' : Entries} {v : Value}
    (h : leafAt (Path.segments path) tree = some v)
    (same : ∀ key ∈ (Path.segments path).head?, Keyed.get? tree' key = Keyed.get? tree key) :
    leafAt (Path.segments path) tree' = some v := by
  obtain ⟨key, rest, hs⟩ := List.exists_cons_of_ne_nil (Path.segments_ne_nil path)
  rw [hs] at h same ⊢
  rw [leafAt_congr (same key rfl), h]

/-- An addition under other keys leaves a virtual where it is, however it ends. -/
theorem Registered.add {definition : Value} {target : SchemaId} (h : ws.Registered id path)
    (calm : (Edit.add target definition).overwrites ws id path = false) :
    (ws.add target definition).2.Registered id path := by
  have heads (ht : target = id) (fields : Entries)
      (hf : ws.store.entries? definition = some fields) :
      id < ws.schemas.length ∧ ∀ key ∈ (Path.segments path).head?, key ∉ Keyed.keys fields := by
    simp only [Edit.overwrites, ht, hf, beq_self_eq_true, Bool.true_and, Bool.or_eq_false_iff,
      decide_eq_false_iff_not, Nat.not_le, Option.any_some] at calm
    refine ⟨calm.1, fun key hk hm => ?_⟩
    rw [hk, Option.any_some, Keyed.has_iff_mem.2 hm] at calm
    cases calm.2
  cases hok : (ws.add target definition).1.isOk with
  | true =>
    obtain ⟨fields, copies, tree, made, hf, each, converts, -, fresh, hadd⟩ := add_ok hok
    rw [hadd]
    have others := h.append fresh
    by_cases ht : target = id
    · obtain ⟨hid, apart⟩ := heads ht fields hf
      subst ht
      intro registered
      have length : target < (ws.schemas ++ made).length := by
        rw [List.length_append]
        exact Nat.lt_add_right _ hid
      rw [Compile.schema_update, if_pos ⟨rfl, length⟩] at registered ⊢
      rw [schema_append hid] at registered ⊢
      refine converts.leafAt (leafAt_of_head (h registered) fun key hk => ?_) (by rintro _ ⟨⟩)
      exact Keyed.get?_foldl_put (each.keys ▸ apart key hk)
    · exact others.update_of_ne (Ne.symm ht)
  | false =>
    -- The fields before the one that failed have been put in.
    rcases add_error hok with hadd | ⟨fields, hf, hadd⟩
    · rwa [hadd]
    · rw [hadd]
      by_cases ht : target = id
      · obtain ⟨hid, apart⟩ := heads ht fields hf
        subst ht
        intro registered
        rw [Compile.schema_update, if_pos ⟨rfl, hid⟩] at registered ⊢
        exact leafAt_of_head (h registered) fun key hk => get?_copyFields (apart key hk)
      · exact h.update_of_ne (Ne.symm ht)

/-- A registration above or below other virtuals alone takes them away. -/
theorem Registered.addVirtual {other : String} {target : SchemaId} (h : ws.Registered id path)
    (calm : (Edit.addVirtual target other).overwrites ws id path = false) :
    (ws.addVirtual target other).Registered id path := by
  by_cases ht : target = id
  · subst ht
    cases there : Keyed.has (ws.schema target).virtuals other with
    | true =>
      unfold Registered
      rw [schema_addVirtual_of_has there]
      exact h
    | false =>
      by_cases hid : target < ws.schemas.length
      · by_cases hp : path = other
        · subst hp
          exact fun _ => (holds_addVirtual_iff hid).2 h
        · simp only [Edit.overwrites, there, beq_self_eq_true, Bool.not_false, Bool.true_and,
            Bool.or_eq_false_iff] at calm
          intro registered
          rw [schema_addVirtual hid there] at registered ⊢
          have before : Keyed.has (ws.schema target).virtuals path = true := by
            rw [Keyed.has_iff_get?] at registered ⊢
            rwa [Keyed.get?_put_of_ne hp] at registered
          show leafAt _ (placeAt _ _ _) = _
          rw [leafAt_placeAt_of_apart (Path.apart_iff.1 ⟨hp, calm.1⟩)
            (Path.apart_iff.1 ⟨Ne.symm hp, calm.2⟩)]
          exact h before
      · unfold Registered Workspace.addVirtual
        rw [Compile.schema_update, if_neg fun h => hid h.2]
        exact h
  · exact h.update_of_ne (Ne.symm ht)

/-- An edit that does not write over the place of a virtual leaves it there. -/
theorem Registered.apply (edit : Edit) (h : ws.Registered id path)
    (calm : edit.overwrites ws id path = false) : (edit.apply ws).Registered id path := by
  cases edit with
  | write store => exact h
  | create definition options functions =>
    obtain ⟨made, fresh, applied⟩ := apply_create ws definition options functions
    rw [applied]
    exact h.append fresh
  | add target definition => exact h.add calm
  | addVirtual target other => exact h.addVirtual calm

/-- However a schema came about, a registered virtual stands in its tree unless its place was
written over since. -/
theorem registered_edited (edits : List Edit) (calm : overwritten id path {} false edits = false) :
    (edited {} edits).Registered id path := by
  -- From any state: a virtual that was not lost stands in the tree.
  suffices general : ∀ ws lost,
      (Keyed.has (ws.schema id).virtuals path = true → lost = false →
        (ws.schema id).Holds id path) →
      overwritten id path ws lost edits = false → (edited ws edits).Registered id path from
    general {} false (by rintro ⟨⟩) calm
  clear calm
  induction edits with
  | nil =>
    intro ws lost h calm registered
    rw [overwritten, Bool.and_eq_false_iff] at calm
    exact h registered (calm.resolve_left fun missing => by
      rw [edited, List.foldl_nil, missing] at registered
      cases registered)
  | cons edit rest ih =>
    intro ws lost h calm
    refine ih _ _ (fun registered kept => ?_) calm
    rw [Bool.or_eq_false_iff, Bool.and_eq_false_iff] at kept
    refine Registered.apply edit (fun before => h before ?_) kept.1 registered
    exact kept.2.resolve_left (by simp [before])

/-- However a schema came about, registering a virtual takes effect unless the virtual was
registered before and its place written over since: then, and only then, it does not stand in the
tree. In the flat form of the tree nothing else changes but for what stands on the way of a new
virtual, which gives way to it. -/
theorem addVirtual_frame (edits : List Edit) (id : SchemaId) (path : String)
    (made : id < (edited {} edits).schemas.length) :
    let before := (edited {} edits).schema id
    let after := ((edited {} edits).addVirtual id path).schema id
    (overwritten id path {} false edits = false → after.Holds id path) ∧
      (after.Holds id path ↔
        (Keyed.has before.virtuals path = true → before.Holds id path)) ∧
      (∀ q, Path.Apart path q →
        (Keyed.has before.virtuals path = false → Path.isBelow q path = true →
          leafAt (Path.segments q) before.tree = none) →
        Keyed.get? (flatten after.tree) q = Keyed.get? (flatten before.tree) q) ∧
      ∀ q, Path.isBelow q path = true → Keyed.has before.virtuals path = false →
        leafAt (Path.segments q) after.tree = none :=
  ⟨fun calm => (holds_addVirtual_iff made).2 (registered_edited edits calm),
    holds_addVirtual_iff made, fun _ apart way => get?_flatten_addVirtual apart way,
    fun _ above missing => leafAt_addVirtual_of_isBelow made missing above⟩

/-- A schema with a nested object that gets a virtual in it, and one more field later. -/
def profiled : List Edit :=
  [.create (.dict [("profile", .dict [("name", .str "String")])]) .null {},
   .addVirtual 0 "profile.display",
   .add 0 (.dict [("age", .str "Number")])]

/-- Registered again, the virtual still stands beside the object's other field. A virtual that is
new stands in the object too, and leaves that field and the first virtual. -/
theorem addVirtual_frame_profiled :
    let before := (edited {} profiled).schema 0
    let again := ((edited {} profiled).addVirtual 0 "profile.display").schema 0
    let new := ((edited {} profiled).addVirtual 0 "profile.initials").schema 0
    0 < (edited {} profiled).schemas.length ∧
      (overwritten 0 "profile.display" {} false profiled = false ∧
        again.Holds 0 "profile.display" ∧
        Keyed.get? (flatten again.tree) "profile.name"
          = Keyed.get? (flatten before.tree) "profile.name") ∧
      overwritten 0 "profile.initials" {} false profiled = false ∧
        Keyed.has before.virtuals "profile.initials" = false ∧
        leafAt (Path.segments "profile.initials") before.tree = none ∧
        new.Holds 0 "profile.initials" ∧
        (Keyed.get? (flatten new.tree) "profile.name"
          = Keyed.get? (flatten before.tree) "profile.name") ∧
        Keyed.get? (flatten new.tree) "profile.display"
          = Keyed.get? (flatten before.tree) "profile.display" := by
  have made : 0 < (edited {} profiled).schemas.length := by decide +kernel
  have calm : overwritten 0 "profile.display" {} false profiled = false := by decide +kernel
  have there : Keyed.has ((edited {} profiled).schema 0).virtuals "profile.display" = true := by
    decide +kernel
  have calm' : overwritten 0 "profile.initials" {} false profiled = false := by decide +kernel
  obtain ⟨takes, -, frame, -⟩ := addVirtual_frame profiled 0 "profile.display" made
  obtain ⟨takes', -, frame', -⟩ := addVirtual_frame profiled 0 "profile.initials" made
  refine ⟨made, ⟨calm, takes calm, frame _ (by decide +kernel) fun missing => by simp_all⟩, calm',
    by decide +kernel, ?_, takes' calm', frame' _ (by decide +kernel) fun _ below => ?_,
    frame' _ (by decide +kernel) fun _ below => ?_⟩
  · have none : (leafAt (Path.segments "profile.initials")
        ((edited {} profiled).schema 0).tree).isNone = true := by decide +kernel
    exact Option.isNone_iff_eq_none.1 none
  · exact absurd below (by decide +kernel)
  · exact absurd below (by decide +kernel)

/-- A field in the place of a virtual stays there when the virtual is registered again. -/
theorem addVirtual_frame_fails : ¬ ∀ (edits : List Edit) (id : SchemaId) (path : String),
    id < (edited {} edits).schemas.length →
      let before := (edited {} edits).schema id
      let after := ((edited {} edits).addVirtual id path).schema id
      after.Holds id path ∧ ∀ q, Path.Apart path q →
        (Path.isBelow q path = true → Keyed.get? (flatten before.tree) q ≠ some (.dict [])) →
          Keyed.get? (flatten after.tree) q = Keyed.get? (flatten before.tree) q := by
  intro keeps
  let edits : List Edit := [.create .null .null {}, .addVirtual 0 "label",
    .add 0 (.dict [("label", .str "String")])]
  obtain ⟨stands, -⟩ := keeps edits 0 "label" (by decide +kernel)
  have field : (leafAt (Path.segments "label")
      (((edited {} edits).addVirtual 0 "label").schema 0).tree).bind Value.text?
        = some "String" := by
    decide +kernel
  rw [show leafAt _ _ = _ from stands] at field
  cases field

end Workspace
end ModelTypes
