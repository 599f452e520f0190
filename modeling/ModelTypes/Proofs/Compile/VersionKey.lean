import ModelTypes.Proofs.Compile.Untouched
import ModelTypes.Proofs.Compile.Virtuals
import ModelTypes.Proofs.Field.Origins
import ModelTypes.Proofs.Schema.Fresh
/-!
# The version key in declarations

A schema keeps its version under the key that its options name, while a fixed set of keys is left
out of declarations. So what becomes of the automatic version key depends on its name alone: under
one of the fixed keys no block shows it, in either projection and mode, and under any other every
block of its schema declares it (`compile_versionKey`).
-/

namespace ModelTypes

/-! ## Automatic version keys -/

/-- What the automatic version key holds: a number. -/
def versionType : Value := .marker (.declared (.primitive .number))

/-- A schema has the version key that its options name, as it is added to what they declare. -/
structure Schema.HasVersionKey (schema : Schema) (key : String) : Prop where
  option : schema.options.versionKey = .named key
  automatic : Keyed.get? schema.tree key = some versionType

variable {key : String} {v : Value} {tree flat : Entries}

theorem get?_putIf {c : Bool} {name : String} (h : c = true → key ≠ name) :
    Keyed.get? (if c && !Keyed.has tree name then Keyed.put tree name v else tree) key
      = Keyed.get? tree key := by
  split
  · rename_i hc
    rw [Bool.and_eq_true] at hc
    exact Keyed.get?_put_of_ne (h hc.1)
  · rfl

/-- A version key that is not declared is added, unless it has the name of the identifier or of the
identifier's virtual and that is added before. -/
theorem Schema.hasVersionKey_withAutomaticPaths {schema : Schema} (id : SchemaId)
    (option : schema.options.versionKey = .named key) (named : key ≠ "")
    (undeclared : Keyed.get? schema.tree key = none)
    (identifier : schema.options.objectId = true → key ≠ "_id")
    (virtual : schema.options.id = true → key ≠ "id") :
    (schema.withAutomaticPaths id).HasVersionKey key := by
  refine ⟨option, ?_⟩
  unfold Schema.withAutomaticPaths
  dsimp only
  rw [option]
  dsimp only
  rw [if_pos, Keyed.get?_put_self]
  · rfl
  · rw [Bool.and_eq_true, Bool.not_eq_true', Keyed.has_eq_false_iff, get?_putIf virtual,
      get?_putIf identifier]
    exact ⟨bne_iff_ne.2 named, undeclared⟩

namespace Workspace

variable {ws ws' : Workspace} {id : SchemaId} {definition options : Value} {functions : Functions}

/-- A version key that a definition does not declare is there as soon as the schema is made. -/
theorem hasVersionKey_create (h : ws.create definition options functions = (.ok id, ws'))
    (option : (ws'.schema id).options.versionKey = .named key) (named : key ≠ "")
    (undeclared : key ∉ Keyed.keys ((ws.store.entries? definition).getD []))
    (identifier : (ws'.schema id).options.objectId = true → key ≠ "_id")
    (virtual : (ws'.schema id).options.id = true → key ≠ "id") :
    (ws'.schema id).HasVersionKey key := by
  rcases create_cases ws definition options functions with
    ⟨_, failed⟩ | ⟨copies, options', tree, made, each, converts, -, -, created⟩
  · rw [failed] at h
    cases h
  rw [created] at h
  cases h
  have own : (({ ws with schemas := ws.schemas ++ (made ++ [.madeOf options' functions tree
      (ws.schemas ++ made).length]) } : Workspace).schema (ws.schemas ++ made).length)
      = .madeOf options' functions tree (ws.schemas ++ made).length := by
    simp [Workspace.schema, ← List.append_assoc]
  rw [own] at option identifier virtual ⊢
  refine Schema.hasVersionKey_withAutomaticPaths _ option named ?_ identifier virtual
  rw [Keyed.get?_eq_none_iff, converts.keys, Keyed.mem_keys_foldl_put, each.keys]
  simpa using undeclared

end Workspace

/-! ## Filling trees -/

theorem keys_fillFrom : Keyed.keys (fillFrom tree flat) = Keyed.keys tree := by
  have under (lead : String) (fills : List (String × Entries)) :
      Keyed.keys (fillUnder lead fills tree).1 = Keyed.keys tree := by
    induction tree with
    | nil => simp [fillUnder]
    | cons e rest ih => rw [fillUnder_cons, Keyed.keys_cons, Keyed.keys_cons, ih]
  unfold fillFrom
  split
  · rfl
  · exact under _ _

theorem filter_fillFrom (keep : String → Bool)
    (h : ∀ e ∈ tree, keep e.1 = true → ∀ entries, e.2 ≠ .dict entries) :
    (fillFrom tree flat).filter (fun e => keep e.1) = tree.filter fun e => keep e.1 := by
  have under (lead : String) (fills : List (String × Entries)) :
      (fillUnder lead fills tree).1.filter (fun e => keep e.1)
        = tree.filter fun e => keep e.1 := by
    induction tree with
    | nil => simp [fillUnder]
    | cons e rest ih =>
      obtain ⟨key, v⟩ := e
      rw [List.forall_mem_cons] at h
      rw [fillUnder_cons, List.filter_cons, List.filter_cons, ih h.2]
      cases hk : keep key with
      | false => rfl
      | true =>
        have still : (v.fillAt (lead ++ key) (fillUnder lead fills rest).2).1 = v := by
          cases v with
          | dict entries => exact absurd rfl (h.1 hk entries)
          | _ => simp [Value.fillAt]
        rw [still]
  unfold fillFrom
  split
  · rfl
  · exact under _ _

namespace Compile

variable {ws ws' ws₁ : Workspace} {id x : SchemaId} {model : String} {places : SchemaId → Prop}

/-- A version key that stands by itself: no child is at it, and no other key begins with it and a
dot. -/
structure StandsAlone (schema : Schema) (key : String) : Prop where
  spared : spared schema.children schema.tree key = true
  automatic : Keyed.get? schema.tree key = some versionType

theorem StandsAlone.intact {schema : Schema} (h : StandsAlone schema key) :
    Intact schema.tree key := by
  have := h.spared
  simp only [Compile.spared, Bool.and_eq_true, decide_eq_true_eq] at this
  exact this.2

theorem StandsAlone.value {schema : Schema} (h : StandsAlone schema key) {e : String × Value}
    (he : e ∈ schema.tree) (hk : e.1 = key) : e.2 = versionType := by
  have keys := h.intact.plain.keys.1
  have own := Keyed.get?_of_mem keys (v := e.2) (k := key)
    (List.mem_filter.2 ⟨hk ▸ he, by simp⟩)
  rw [Keyed.get?_filter fun k => k == key, if_pos (by simp), h.automatic] at own
  exact (Option.some.inj own).symm

theorem StandsAlone.refill {schema : Schema} (h : StandsAlone schema key) (flat : Entries) :
    StandsAlone { schema with tree := fillFrom schema.tree flat } key := by
  have own : (fillFrom schema.tree flat).filter (fun e => e.1 == key)
      = schema.tree.filter fun e => e.1 == key := by
    refine filter_fillFrom (· == key) fun e he hk entries hd => ?_
    rw [h.value he (beq_iff_eq.1 hk)] at hd
    cases hd
  have keys : Keyed.keys (fillFrom schema.tree flat) = Keyed.keys schema.tree := keys_fillFrom
  have intact : Intact (fillFrom schema.tree flat) key :=
    ⟨own ▸ h.intact.plain, keys ▸ h.intact.alone⟩
  have apart := h.spared
  simp only [Compile.spared, Bool.and_eq_true] at apart
  refine ⟨by simp [Compile.spared, apart.1, intact], ?_⟩
  have get (tree : Entries) : Keyed.get? (tree.filter fun e => e.1 == key) key
      = Keyed.get? tree key := by
    rw [Keyed.get?_filter fun k => k == key, if_pos (by simp)]
  rw [← get, own, get, h.automatic]

theorem StandsAlone.filled (h : StandsAlone (ws.schema x) key) (filled : Filled places ws ws₁) :
    StandsAlone (ws₁.schema x) key := by
  induction filled with
  | refl => exact h
  | @tail ws₁ _ _ step ih =>
    obtain ⟨-, model⟩ := step
    unfold Compile.refill
    rw [schema_update]
    split
    · rename_i hid
      exact hid.1 ▸ ih.refill _
    · exact ih

/-- Hoisting children leaves a version key that stands by itself in the tree. -/
theorem StandsAlone.mem_declaredTree (h : StandsAlone (ws.schema x) key) (name : String) :
    (key, versionType) ∈ declaredTree ws (x, name) := by
  have own : (key, versionType) ∈ (ws.schema x).tree := Keyed.mem_of_get? h.automatic
  unfold declaredTree blockTree
  split
  · exact own
  · dsimp only
    split
    · exact own
    · have kept : (key, versionType) ∈ (ws.schema x).tree.filter fun e =>
          Compile.spared (ws.schema x).children (ws.schema x).tree e.1 :=
        List.mem_filter.2 ⟨own, h.spared⟩
      -- What hoisting spares is in the declared tree as it was in the schema's.
      rw [← filter_spared ws.store name] at kept
      exact (List.mem_filter.1 kept).1

/-! ## The fields of a block -/

/-- How a version key is declared that is not left out; only the identifier is required. -/
def versionField (key : String) : Field :=
  { key, shape := .scalar .number none, optional := key != "_id" }

theorem describe_versionType (s : Store) (h : key ∉ Field.internalKeys) :
    Field.describe s key versionType = .ok (some (versionField key)) := by
  have declared : Field.internalKeys.contains key = false := by simpa using h
  show Field.describeWithin s (64 + 1) key versionType = _
  rw [Field.describeWithin_succ, Field.describeOnce, declared]
  rfl

/-- A field is declared under a key that is not left out. -/
theorem key_of_mem_described {s : Store} {fields : List Field} (h : described s tree = .ok fields) :
    ∀ field ∈ fields, field.key ∉ Field.internalKeys := by
  intro field hf internal
  obtain ⟨e, -, he⟩ := (Except.filterMapM_ok h).2 field hf
  rw [Field.describe_eq, if_neg (by decide)] at he
  have own : field.key = e.1 := (Field.origin_of_describeOnce he).1
  rw [Field.describeOnce, if_pos (by simpa [← own] using internal)] at he
  cases he

/-- No projection shows a field under another key than its own. -/
theorem key_of_mem_shownFields {p : Projection} {fields : List Field} {field : Field}
    (h : field ∈ shownFields p fields) : ∃ f ∈ fields, field.key = f.key := by
  unfold shownFields at h
  split at h
  · exact ⟨field, h, rfl⟩
  · obtain ⟨f, hf, shown⟩ := mem_withoutVirtuals_iff.1 h
    exact ⟨f, hf, by rw [eq_of_withoutVirtuals? shown]⟩

/-- A version key is no virtual, so every projection shows it. -/
theorem versionField_mem_shownFields {p : Projection} {fields : List Field}
    (h : versionField key ∈ fields) : versionField key ∈ shownFields p fields := by
  unfold shownFields
  split
  · exact h
  · exact mem_withoutVirtuals_iff.2 ⟨_, h, rfl⟩

/-! ## Compilations -/

namespace Draft

variable {document : Bool} {d : Draft}

/-- No field of a draft has one of the keys that are left out. -/
theorem Of.key_shown (h : d.Of places ws document) (v : Workspace) (q : Projection) :
    ∀ field ∈ d.shown v q, field.key ∉ Field.internalKeys := by
  intro field hf
  obtain ⟨f, mem, same⟩ := key_of_mem_shownFields hf
  obtain ⟨ws₁, -, fields⟩ := h.fields
  exact same ▸ key_of_mem_described fields f mem

/-- A draft has the version key of its schema. -/
theorem Of.versionField_shown (h : d.Of places ws document)
    (alone : StandsAlone (ws.schema d.site.1) key) (declared : key ∉ Field.internalKeys)
    (v : Workspace) (q : Projection) : versionField key ∈ d.shown v q := by
  obtain ⟨ws₁, filled, fields⟩ := h.fields
  have mem := (alone.filled filled).mem_declaredTree d.site.2
  exact versionField_mem_shownFields
    (Except.mem_of_filterMapM fields mem (describe_versionType ws.store declared))

end Draft

/-- The fields that the parts of a block show. -/
def Plan.bodies (v : Workspace) (plainIds : Bool) (plan : Plan) : List (List Field) :=
  plan.lean.shown v { document := false, plainIds } ::
    (plan.document.map (·.shown v { document := true })).toList

/-- What every draft shows, all parts of a block do. -/
theorem Plan.Of.forall_bodies {plainIds : Bool} {plan : Plan} (h : plan.Of places ws plainIds)
    {P : List Field → Prop} (shows : ∀ document (d : Draft), d.Of places ws document →
      d.site = plan.site → ∀ q, P (d.shown ws q)) :
    ∀ fields ∈ plan.bodies ws plainIds, P fields := by
  intro fields hf
  rcases List.mem_cons.1 hf with rfl | hf
  · exact shows false _ h.lean rfl _
  · obtain ⟨d, hd, rfl⟩ := Option.map_eq_some_iff.1 (Option.mem_toList.1 hf)
    exact shows true d (h.document d hd).2 (h.document d hd).1 _

/-- The lines of every block are those of the fields that its parts show, and none of them has one
of the keys that are left out: a version key of such a name, the default one among them, is in no
block, of whatever schema, projection and mode. An automatic version key of another name, if it
stands alone in its schema, is declared by all parts of every block of the schema. -/
theorem compile_versionKey {plainIds : Bool} {paired : List PairedBlock}
    (h : (compile id model plainIds).on ws = (.ok paired, ws')) :
    ∃ plans : List Plan, Stands ws id model (plans.map (·.site)) ∧
      (∀ plan ∈ plans, plan.Of (Reaches ws id) ws plainIds) ∧
      List.Forall₂ (Plan.Writes ws plainIds) plans paired ∧
      ∀ plan ∈ plans, ∀ key, (ws.schema plan.site.1).HasVersionKey key →
        (key ∈ Field.internalKeys →
          ∀ fields ∈ plan.bodies ws plainIds, ∀ field ∈ fields, field.key ≠ key) ∧
        (key ∉ Field.internalKeys → StandsAlone (ws.schema plan.site.1) key →
          ∀ fields ∈ plan.bodies ws plainIds, versionField key ∈ fields) := by
  obtain ⟨plans, stands, of, writes⟩ := planned_compile h
  obtain ⟨paired', v', h', wrote⟩ := writes ws (.refl ws)
  obtain rfl : paired = paired' := by
    rw [h] at h'
    cases h'
    rfl
  refine ⟨plans, stands, of, wrote, fun plan hp key _ =>
    ⟨fun internal => ?_, fun declared alone => ?_⟩⟩
  · refine (of plan hp).forall_bodies fun _ d hd _ q field hf same => ?_
    exact hd.key_shown ws q field hf (same ▸ internal)
  · refine (of plan hp).forall_bodies fun _ d hd site q => ?_
    exact hd.versionField_shown (site ▸ alone) declared ws q

/-! ## Two schemas -/

/-- A schema whose version key has a name of its own, and which embeds one with the default. -/
def versioned : List Workspace.Edit :=
  let plain : Entries := [("_id", .bool false), ("id", .bool false)]
  [.create (.dict [("name", .str "String")]) (.dict plain) {},
   .create (.dict [("friend", .schema 0)]) (.dict (plain ++ [("version_key", .str "version")])) {}]

theorem hasVersionKey_versioned :
    ((Workspace.edited {} versioned).schema 0).HasVersionKey "__v" ∧
    ((Workspace.edited {} versioned).schema 1).HasVersionKey "version" :=
  ⟨⟨by decide +kernel, by with_unfolding_all rfl⟩,
   ⟨by decide +kernel, by with_unfolding_all rfl⟩⟩

theorem standsAlone_versioned :
    StandsAlone ((Workspace.edited {} versioned).schema 1) "version" :=
  ⟨by decide +kernel, hasVersionKey_versioned.2.automatic⟩

theorem stands_versioned :
    Stands (Workspace.edited {} versioned) 1 "User" [(0, "UserFriend"), (1, "User")] := by
  have child : ((Workspace.edited {} versioned).schema 1).children = [⟨"friend", 0, false⟩] := by
    decide +kernel
  have name : Naming.subdocumentName "friend" "User" = "UserFriend" := by decide +kernel
  have friend : Stands (Workspace.edited {} versioned) 0 "UserFriend" [(0, "UserFriend")] :=
    .alone (.inl (by decide +kernel))
  have below : StandAll (Workspace.edited {} versioned) "User"
      ((Workspace.edited {} versioned).schema 1).children ([(0, "UserFriend")] ++ []) := by
    rw [child]
    exact .cons (name.symm ▸ friend) .nil
  exact .parent (by simp [child]) (by decide) below

/-- The embedded schema's key is left out, the other's is declared. -/
theorem compile_versionKey_versioned : ∃ paired ws' plans,
    (compile 1 "User").on (Workspace.edited {} versioned) = (.ok paired, ws') ∧
      List.Forall₂ (Plan.Writes (Workspace.edited {} versioned) false) plans paired ∧
      plans.map (·.site) = [(0, "UserFriend"), (1, "User")] ∧
      ∀ plan ∈ plans, ∀ fields ∈ plan.bodies (Workspace.edited {} versioned) false,
        (plan.site.1 = 0 → ∀ field ∈ fields, field.key ≠ "__v") ∧
        (plan.site.1 = 1 → versionField "version" ∈ fields) := by
  have returns : ((compile 1 "User").on (Workspace.edited {} versioned)).1.isOk = true := by
    decide +kernel
  obtain ⟨paired, ws', h⟩ := ok_of_isOk returns
  obtain ⟨plans, stands, -, wrote, keys⟩ := compile_versionKey h
  refine ⟨paired, ws', plans, h, wrote, stands.unique stands_versioned,
    fun plan hp fields hf => ⟨fun site => ?_, fun site => ?_⟩⟩
  · exact (keys plan hp "__v" (site ▸ hasVersionKey_versioned.1)).1 (by decide) fields hf
  · exact (keys plan hp "version" (site ▸ hasVersionKey_versioned.2)).2 (by decide)
      (site ▸ standsAlone_versioned) fields hf

/-- An automatic version key may be declared. -/
theorem compile_declares_versionKey : ¬ ∀ (edits : List Workspace.Edit) (ws' : Workspace)
    (id : SchemaId) (model : String) (plainIds : Bool) (paired : List PairedBlock),
    (compile id model plainIds).on (Workspace.edited {} edits) = (.ok paired, ws') →
      ∃ plans : List Plan, Stands (Workspace.edited {} edits) id model (plans.map (·.site)) ∧
        (∀ plan ∈ plans, plan.Of (Reaches (Workspace.edited {} edits) id)
          (Workspace.edited {} edits) plainIds) ∧
        List.Forall₂ (Plan.Writes (Workspace.edited {} edits) plainIds) plans paired ∧
        ∀ plan ∈ plans, ∀ key,
          ((Workspace.edited {} edits).schema plan.site.1).HasVersionKey key →
            ∀ fields ∈ plan.bodies (Workspace.edited {} edits) plainIds,
              ∀ field ∈ fields, field.key ≠ key := by
  intro omits
  have returns : ((compile 1 "User" true).on (Workspace.edited {} versioned)).1.isOk = true := by
    decide +kernel
  obtain ⟨paired, ws', h⟩ := ok_of_isOk returns
  obtain ⟨plans, stands, of, -, omitted⟩ := omits versioned ws' 1 "User" true paired h
  have own : (1, "User") ∈ plans.map (·.site) := by
    rw [stands.unique stands_versioned]
    simp
  obtain ⟨plan, hp, site⟩ := List.mem_map.1 own
  have site : plan.lean.site.1 = 1 := congrArg Prod.fst site
  have alone : StandsAlone ((Workspace.edited {} versioned).schema plan.lean.site.1) "version" :=
    site ▸ standsAlone_versioned
  have shown := (of plan hp).lean.versionField_shown alone (by decide)
    (Workspace.edited {} versioned) { document := false, plainIds := true }
  exact omitted plan hp "version" (site ▸ hasVersionKey_versioned.2) _ List.mem_cons_self _ shown
    rfl

end Compile
end ModelTypes
