import ModelTypes.Proofs.Compile.VersionKey
import ModelTypes.Proofs.Field.Absence
/-!
# Identifiers in blocks

Every line of a block, in an object of any depth too, is that of a field that was read from a
definition in the block's tree. So a line marks an identifier as one that may be absent just if its
definition is of the three kinds that do.
-/

namespace ModelTypes.Compile

open Relation

/-- A definition of an identifier in the block at a site, on top or in an object there. Before the
block is written, some trees may have been filled. -/
def DefinesId (ws : Workspace) (id : SchemaId) (site : Site) (raw : Value) : Prop :=
  ∃ w, Filled (Reaches ws id) ws w ∧
    ∃ top ∈ declaredTree w site, ReflTransGen (Field.Encloses ws.store) top ("_id", raw)

variable {ws : Workspace} {id : SchemaId} {document : Bool} {d : Draft}

/-- An identifier that a draft shows, at any depth, was read from a definition in its tree. -/
theorem Draft.Of.definesId_of_within (h : d.Of (Reaches ws id) ws document) {v : Workspace}
    {q : Projection} {field : Field} (within : field.Within (d.shown v q))
    (named : field.key = "_id") : ∃ raw, DefinesId ws id d.site raw ∧
      (field.optional = true ↔ Field.saysAbsent ws.store raw = true ∧
        (Field.isUntypedArray ws.store raw = true ∨ field.shape.isElsewhere = true)) := by
  obtain ⟨w, filled, fields⟩ := h.fields
  obtain ⟨f, within, shown⟩ := exists_of_within_shownFields within
  obtain ⟨⟨key, raw⟩, ⟨top, mem, below⟩, read⟩ := described_of_within fields within
  have same : field.key = f.key ∧ field.optional = f.optional ∧
      field.shape.isElsewhere = f.shape.isElsewhere := by
    rcases shown with rfl | shown
    · exact ⟨rfl, rfl, rfl⟩
    · rw [eq_of_withoutVirtuals? shown]
      exact ⟨rfl, rfl, f.shape.isElsewhere_withoutVirtuals⟩
  obtain rfl : key = "_id" := read.key.symm.trans (same.1.symm.trans named)
  refine ⟨raw, ⟨w, filled, top, mem, below⟩, ?_⟩
  rw [same.2.1, same.2.2]
  exact read.optional_id_iff

/-- Whatever an identifier is defined as, it may be absent just if its definition says so and is a
reference, a hoisted child or an array of no known type. The lines of every block of a compilation
are those of the fields that its parts show, and at every depth they mark only such identifiers. -/
theorem compile_id_present (ws : Workspace) :
    (∀ (raw : Value) (depth : Int) (field : Field),
      Field.describe ws.store "_id" raw depth = .ok (some field) →
        (field.optional = true ↔ Field.saysAbsent ws.store raw = true ∧
          (Field.isUntypedArray ws.store raw = true ∨ field.shape.isElsewhere = true))) ∧
    ∀ (id : SchemaId) (model : String) (plainIds : Bool) (paired : List PairedBlock)
      (ws' : Workspace), (compile id model plainIds).on ws = (.ok paired, ws') →
      ∃ plans : List Plan, Stands ws id model (plans.map (·.site)) ∧
        (∀ plan ∈ plans, plan.Of (Reaches ws id) ws plainIds) ∧
        List.Forall₂ (Plan.Writes ws plainIds) plans paired ∧
        ∀ plan ∈ plans, ∀ fields ∈ plan.bodies ws plainIds, ∀ field : Field,
          field.Within fields → field.key = "_id" →
            ∃ raw, DefinesId ws id plan.site raw ∧
              (field.optional = true ↔ Field.saysAbsent ws.store raw = true ∧
                (Field.isUntypedArray ws.store raw = true ∨ field.shape.isElsewhere = true)) := by
  refine ⟨fun raw depth field h => ?_, fun id model plainIds paired ws' h => ?_⟩
  · have read : Field.ReadFrom ws.store ("_id", raw) field := Field.readFrom_iff.2 ⟨depth, h⟩
    exact read.optional_id_iff
  · obtain ⟨plans, stands, of, wrote⟩ := written_compile h
    refine ⟨plans, stands, of, wrote, fun plan hp => (of plan hp).forall_bodies ?_⟩
    intro document d hd site q field within named
    exact site ▸ hd.definesId_of_within within named

/-- A schema that has an identifier of its own, and one in an object. -/
def addressed : Workspace :=
  (Workspace.create {} (.dict [("address", .dict [("_id", .str "String")])])
    (.dict [("id", .bool false)])).2

theorem compile_id_present_addressed :
    (∃ field, Field.describe {} "_id" (.str "String") = .ok (some field) ∧
      (field.optional = true ↔ Field.saysAbsent {} (.str "String") = true ∧
        (Field.isUntypedArray {} (.str "String") = true ∨ field.shape.isElsewhere = true))) ∧
    ∃ paired ws' plans, (compile 0 "User").on addressed = (.ok paired, ws') ∧
      List.Forall₂ (Plan.Writes addressed false) plans paired ∧
      plans.map (fun plan => (plan.site, (plan.lean.shown addressed { document := false }).map
        fun f => (f.key, f.optional))) = [((0, "User"), [("address", false), ("_id", false)])] ∧
      ∀ plan ∈ plans, ∀ fields ∈ plan.bodies addressed false, ∀ field : Field,
        field.Within fields → field.key = "_id" →
          ∃ raw, DefinesId addressed 0 plan.site raw ∧
            (field.optional = true ↔ Field.saysAbsent addressed.store raw = true ∧
              (Field.isUntypedArray addressed.store raw = true ∨
                field.shape.isElsewhere = true)) := by
  have bare : Field.describe {} "_id" (.str "String")
      = .ok (some { key := "_id", shape := .scalar .string none, optional := false }) := rfl
  have returns : ((compile 0 "User").on addressed).1.isOk = true := by decide +kernel
  obtain ⟨paired, ws', h⟩ := ok_of_isOk returns
  obtain ⟨plans, stands, of, wrote, present⟩ := (compile_id_present addressed).2 _ _ _ _ _ h
  have own : Stands addressed 0 "User" [(0, "User")] := .alone (.inl (by decide +kernel))
  have tidy (x : SchemaId) (_ : Reaches addressed 0 x) : (addressed.schema x).Tidy :=
    Workspace.forall_schema (P := Schema.Tidy) (by decide +kernel) (by decide) x
  obtain ⟨user, _, rfl, site, rest⟩ := List.map_eq_cons_iff.1 (stands.unique own)
  obtain rfl := List.map_eq_nil_iff.1 rest
  have fields : described addressed.store (declaredTree addressed user.site)
      = .ok user.lean.fields := (of user (by simp)).lean.fields_of_tidy tidy
  have computed : (described addressed.store (declaredTree addressed (0, "User"))).toOption.map
      (fun fields => (shownFields (projectionAt addressed { document := false } 0) fields).map
        fun f => (f.key, f.optional)) = some [("address", false), ("_id", false)] := by
    decide +kernel
  rw [← site, fields] at computed
  have shown : (user.lean.shown addressed { document := false }).map (fun f => (f.key, f.optional))
      = [("address", false), ("_id", false)] := by
    rw [Draft.shown, show user.lean.site.1 = 0 from congrArg Prod.fst site]
    exact Option.some.inj computed
  exact ⟨⟨_, bare, (compile_id_present {}).1 _ _ _ bare⟩, paired, ws', _, h, wrote,
    by simp [site, shown], present⟩

/-- An identifier that is a reference may be absent. -/
theorem describe_id_absent : ¬ ∀ (s : Store) (raw : Value) (depth : Int) (field : Field),
    Field.describe s "_id" raw depth = .ok (some field) → field.optional = false := by
  intro present
  have reference := present {} (.dict [("type", .str "ObjectId"), ("ref", .str "User")]) 0
    { key := "_id", shape := .reference "User" (some .objectId) } rfl
  cases reference

end ModelTypes.Compile
