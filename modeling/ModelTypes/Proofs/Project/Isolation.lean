import Mathlib.Data.List.Forall2
import ModelTypes.Proofs.Compile.Filled
import ModelTypes.Proofs.Project.Run
import ModelTypes.Proofs.Schema.Linked
/-!
# Models that fail

A run compiles its models one after the other. As long as every cause of failure has a wording, it
lists the models that fail with their causes and makes a file of the others. If the schemas are
tidy, no compilation changes anything for the next one, and the others make up the file that they
make up alone. A value without a literal is a cause without a wording, and ends the run.
-/

namespace ModelTypes.Run

variable {P P' : Project} {ws : Workspace} {plainIds : Bool} {models : Models} {s : Settings}
  {m : String × SchemaId} {root : Location} {as : List Attempt}

/-! ## What a run reports -/

/-- An attempt that gave blocks. -/
def Attempt.succeeds (a : Attempt) : Bool := a.result.isOk

theorem Attempt.succeeds_of_ok {a : Attempt} {blocks : List PairedBlock}
    (h : a.result = .ok blocks) : a.succeeds = true := by
  rw [succeeds, h]
  rfl

theorem Attempt.fails_of_error {a : Attempt} {e : CompileError} (h : a.result = .error e) :
    a.succeeds = false := by
  rw [succeeds, h]
  rfl

/-- What a run over models reports: the failing ones with their causes and the others with the names
of their blocks, in the order of the models, and a file of the others. -/
structure Reports (root : Location) (models : Models) (s : Settings) (ws : Workspace)
    (as : List Attempt) (r : Report) : Prop where
  failed : List.Forall₂ (fun a error => error.1 = a.model.1 ∧
      ∃ e, a.result = .error e ∧ e.message? a.after = some error.2)
    (as.filter (!·.succeeds)) r.errors
  compiled : List.Forall₂ (fun a model => model.1 = a.model.1 ∧
      ∃ blocks, a.result = .ok blocks ∧ model.2 = blocks.map (·.name))
    (as.filter (·.succeeds)) r.models
  file : r.file = Declaration.file (as.filterMap Attempt.compiled?)
    (functionsIn (lastOf ws as) models) (root.join (.ofText s.output)).text s.noMongoose
  written : r.written = (!s.dryRun && as.any (·.succeeds))

theorem errors_batchOf (explained : ∀ a ∈ as, a.Explained) :
    List.Forall₂ (fun a error => error.1 = a.model.1 ∧
        ∃ e, a.result = .error e ∧ e.message? a.after = some error.2)
      (as.filter (!·.succeeds)) (batchOf as).errors := by
  induction as with
  | nil => exact .nil
  | cons a rest ih =>
    have others := ih fun b hb => explained b (List.mem_cons_of_mem _ hb)
    cases hr : a.result with
    | ok blocks =>
      rw [List.filter_cons_of_neg (by simp [Attempt.succeeds_of_ok hr]), batchOf_cons_of_ok hr]
      exact others
    | error e =>
      obtain ⟨message, hm⟩ := (explained a List.mem_cons_self).message hr
      rw [List.filter_cons_of_pos (by simp [Attempt.fails_of_error hr]),
        batchOf_cons_of_error hr hm]
      exact .cons ⟨rfl, e, hr, hm⟩ others

theorem compiled_cons_of_error {a : Attempt} {e : CompileError} (h : a.result = .error e) :
    (batchOf (a :: as)).compiled = (batchOf as).compiled := by
  simp [batchOf, Attempt.compiled?, h]

theorem models_batchOf : List.Forall₂ (fun a model => model.1 = a.model.1 ∧
      ∃ blocks, a.result = .ok blocks ∧ model.2 = blocks.map (·.name))
    (as.filter (·.succeeds)) ((batchOf as).compiled.map fun m => (m.1, m.2.map (·.name))) := by
  induction as with
  | nil => exact .nil
  | cons a rest ih =>
    cases hr : a.result with
    | ok blocks =>
      rw [List.filter_cons_of_pos (by simpa using Attempt.succeeds_of_ok hr), batchOf_cons_of_ok hr]
      exact .cons ⟨rfl, blocks, hr, rfl⟩ ih
    | error e =>
      rw [List.filter_cons_of_neg (by simp [Attempt.fails_of_error hr]), compiled_cons_of_error hr]
      exact ih

theorem compiled_isEmpty : (batchOf as).compiled.isEmpty = !as.any (·.succeeds) := by
  induction as with
  | nil => rfl
  | cons a rest ih =>
    cases hr : a.result with
    | ok blocks => simp [batchOf_cons_of_ok hr, Attempt.succeeds_of_ok hr]
    | error e =>
      rw [compiled_cons_of_error hr, ih, List.any_cons, Attempt.fails_of_error hr, Bool.false_or]

theorem reports_reportOf (explained : ∀ a ∈ as, a.Explained) :
    Reports root models s ws as (reportOf root models s (lastOf ws as) (batchOf as)) where
  failed := errors_batchOf explained
  compiled := models_batchOf
  file := rfl
  written := by simp [reportOf, compiled_isEmpty]

/-! ## Runs over models -/

theorem generateFrom_explained (root : Location)
    (explained : ∀ a ∈ attempts s.noMongoose P.workspace models, a.Explained) :
    ∃ log, (generateFrom root models s).on P =
      ending { P with
          workspace := lastOf P.workspace (attempts s.noMongoose P.workspace models), log }
        (reportOf root models s (lastOf P.workspace (attempts s.noMongoose P.workspace models))
          (batchOf (attempts s.noMongoose P.workspace models))) := by
  rw [generateFrom_on, compileModels_on explained]
  exact ⟨_, rfl⟩

/-- A run over models that fail for causes with a wording reports them, unless its file cannot be
written. -/
theorem generateFrom_cases (root : Location)
    (explained : ∀ a ∈ attempts s.noMongoose P.workspace models, a.Explained) :
    ∃ r, Reports root models s P.workspace (attempts s.noMongoose P.workspace models) r ∧
      ((∃ P', (generateFrom root models s).on P = (.ok r, P') ∧
          if r.written then written P r.file = .ok P'.files else P'.files = P.files) ∨
        ∃ w P', (generateFrom root models s).on P = (.error (.write w), P') ∧
          r.written = true ∧ written P r.file = .error w) := by
  obtain ⟨log, run⟩ := generateFrom_explained root explained
  refine ⟨_, reports_reportOf explained, ?_⟩
  rw [run]
  rcases ending_cases _ _ with ⟨P', ends, disk⟩ | ⟨due, w, fails, ends⟩
  · exact .inl ⟨P', ends, disk⟩
  · exact .inr ⟨w, _, ends, due, fails⟩

/-- Only a value without a literal, and a file that cannot be written, end a run over models. -/
theorem generateFrom_error {e : Failure} (h : (generateFrom root models s).on P = (.error e, P')) :
    (∃ cause, e = .compile (.render (.literal cause))) ∨ ∃ w, e = .write w := by
  rw [generateFrom_on] at h
  rcases hc : (compileModels s.noMongoose models).on P with ⟨_ | b, P₁⟩ <;> rw [hc] at h
  · cases h
    exact .inl (compileModels_error hc)
  · rcases ending_cases P₁ (reportOf root models s P₁.workspace b) with
      ⟨_, hend, -⟩ | ⟨-, w, -, hend⟩
    · cases h.symm.trans hend
    · cases h.symm.trans hend
      exact .inr ⟨w, rfl⟩

/-! ## Tidy models -/

/-- All schemas of a model are tidy. -/
def TidyModel (ws : Workspace) (m : String × SchemaId) : Prop :=
  Compile.Throughout ws m.2 fun x => (ws.schema x).Tidy

theorem after_of_tidy (tidy : TidyModel ws m) : (attempt ws plainIds m).after = ws :=
  Compile.Filled.eq_of_tidy Compile.leaves_compile tidy

/-- Tidy models compile as each does by itself. -/
theorem attempts_of_tidy (tidy : ∀ m ∈ models, TidyModel ws m) :
    attempts plainIds ws models = models.map (attempt ws plainIds) := by
  induction models with
  | nil => rfl
  | cons m rest ih =>
    rw [attempts, after_of_tidy (tidy m List.mem_cons_self),
      ih fun n hn => tidy n (List.mem_cons_of_mem _ hn), List.map_cons]

theorem lastOf_of_tidy (tidy : ∀ m ∈ models, TidyModel ws m) :
    lastOf ws (models.map (attempt ws plainIds)) = ws := by
  induction models with
  | nil => rfl
  | cons m rest ih =>
    rw [List.map_cons, lastOf, after_of_tidy (tidy m List.mem_cons_self)]
    exact ih fun n hn => tidy n (List.mem_cons_of_mem _ hn)

/-- The models that compile in a workspace. -/
def compiling (ws : Workspace) (plainIds : Bool) (models : Models) : Models :=
  models.filter fun m => (attempt ws plainIds m).succeeds

/-- Two models that share a schema, of which the first fails. A path of the shared one leads through
an empty mapping that stands as its identifier. -/
def mates : Workspace :=
  let plain : Value := .dict [("_id", .bool false), ("id", .bool false)]
  let inner := (Workspace.create {} (.dict [("a", .str "String")]) plain).2
  let shared := (inner.create (.dict [("_id", .dict []), ("_id.x", .schema 0)]) plain).2
  let bad := (shared.create
    (.dict [("c", .schema 1), ("size", .dict [("type", .str "NotAType")])]) plain).2
  (bad.create (.dict [("c", .schema 1)]) plain).2

theorem built_mates : mates.Built := by
  refine .create (.create (.create (.create .empty ⟨trivial, trivial⟩) ⟨trivial, ?_, trivial⟩)
    ⟨?_, ⟨trivial, trivial⟩, trivial⟩) ⟨?_, trivial⟩
  all_goals
    show _ < _
    decide +kernel

/-- Without tidiness a model that fails can leave the names of its blocks in those of another. -/
theorem attempts_leak : ¬ ∀ (ws : Workspace) (plainIds : Bool) (models : Models), ws.Built →
    (∀ a ∈ attempts plainIds ws models, a.Explained) →
    (batchOf (attempts plainIds ws (compiling ws plainIds models))).compiled
      = (batchOf (attempts plainIds ws models)).compiled := by
  intro same
  let models : Models := [("Bad", 2), ("User", 3)]
  let sizes (compiled : Keyed (List PairedBlock)) : List Nat :=
    (compiled.flatMap (·.2)).map fun block => (block.document.getD "").utf8ByteSize
  have differ : sizes (batchOf (attempts false mates (compiling mates false models))).compiled
      ≠ sizes (batchOf (attempts false mates models)).compiled := by decide +kernel
  have explained : ∀ a ∈ attempts false mates models, a.Explained := by decide +kernel
  exact differ (congrArg sizes (same mates false models built_mates explained))

/-! ## The models that compile, alone -/

/-- A report that lists no failures. -/
def withoutErrors (r : Report) : Report := { r with errors := [] }

def withoutFailures : Outcome → Outcome
  | .report r => .report (withoutErrors r)
  | .refused message => .refused message

theorem batchOf_filter : batchOf (as.filter (·.succeeds)) = { batchOf as with errors := [] } := by
  induction as with
  | nil => rfl
  | cons a rest ih =>
    cases hr : a.result with
    | ok blocks =>
      rw [List.filter_cons_of_pos (by simpa using Attempt.succeeds_of_ok hr), batchOf_cons_of_ok hr,
        batchOf_cons_of_ok hr, ih]
    | error e =>
      rw [List.filter_cons_of_neg (by simp [Attempt.fails_of_error hr]), ih]
      simp [batchOf, Attempt.compiled?, hr]

theorem mem_compiled {b : String × List PairedBlock}
    (h : b ∈ (batchOf (models.map (attempt ws plainIds))).compiled) :
    ∃ id, (b.1, id) ∈ compiling ws plainIds models := by
  obtain ⟨a, ha, hb⟩ := List.mem_filterMap.1 h
  obtain ⟨⟨name, id⟩, hm, rfl⟩ := List.mem_map.1 ha
  unfold Attempt.compiled? at hb
  split at hb
  · rename_i blocks hr
    cases hb
    exact ⟨id, List.mem_filter.2 ⟨hm, Attempt.succeeds_of_ok hr⟩⟩
  · cases hb

/-- The models that compile are reported as they are alone. -/
theorem reportOf_compiling (distinct : (Keyed.keys models).Nodup) :
    reportOf root (compiling ws plainIds models) s ws
        (batchOf ((compiling ws plainIds models).map (attempt ws plainIds)))
      = withoutErrors (reportOf root models s ws (batchOf (models.map (attempt ws plainIds)))) := by
  have batch : batchOf ((compiling ws plainIds models).map (attempt ws plainIds))
      = { batchOf (models.map (attempt ws plainIds)) with errors := [] } := by
    rw [← batchOf_filter, List.filter_map]
    rfl
  have functions {b : String × List PairedBlock}
      (hb : b ∈ (batchOf (models.map (attempt ws plainIds))).compiled) :
      functionsIn ws (compiling ws plainIds models) b.1 = functionsIn ws models b.1 := by
    obtain ⟨id, hm⟩ := mem_compiled hb
    have sub : (Keyed.keys (compiling ws plainIds models)).Nodup :=
      distinct.sublist (List.filter_sublist.map _)
    rw [functionsIn, functionsIn, Keyed.get?_of_mem sub hm,
      Keyed.get?_of_mem distinct (List.mem_filter.1 hm).1]
  have sections : (batchOf (models.map (attempt ws plainIds))).compiled.map (fun b =>
        Declaration.modelSections s.noMongoose (functionsIn ws (compiling ws plainIds models) b.1)
          b.1 b.2)
      = (batchOf (models.map (attempt ws plainIds))).compiled.map (fun b =>
        Declaration.modelSections s.noMongoose (functionsIn ws models b.1) b.1 b.2) :=
    List.map_congr_left fun b hb => by rw [functions hb]
  rw [batch]
  simp only [withoutErrors, reportOf, Declaration.file, Declaration.content, sections]

/-- Two runs over one model list end alike, one of which reports no failures. -/
theorem ending_withoutErrors {P₁ P₂ : Project} {r : Report} (files : P₂.files = P₁.files)
    (directory : P₂.directory = P₁.directory) :
    (ending P₂ (withoutErrors r)).1 = (ending P₁ r).1.map withoutErrors ∧
      (ending P₂ (withoutErrors r)).2.files = (ending P₁ r).2.files := by
  have same : written P₂ (withoutErrors r).file = written P₁ r.file := by
    rw [written, written, files, directory]
    rfl
  unfold ending
  rw [same, show (withoutErrors r).written = r.written from rfl]
  split
  · cases written P₁ r.file with
    | error e => exact ⟨rfl, files⟩
    | ok files => exact ⟨rfl, rfl⟩
  · exact ⟨rfl, files⟩

/-- Tidy models that compile give alone what they give among models that fail. -/
theorem generateFrom_alone (root : Location) (distinct : (Keyed.keys models).Nodup)
    (tidy : ∀ m ∈ models, TidyModel P.workspace m)
    (explained : ∀ a ∈ attempts s.noMongoose P.workspace models, a.Explained) :
    ((generateFrom root (compiling P.workspace s.noMongoose models) s).on P).1
        = ((generateFrom root models s).on P).1.map withoutErrors ∧
      ((generateFrom root (compiling P.workspace s.noMongoose models) s).on P).2.files
        = ((generateFrom root models s).on P).2.files := by
  have tidy' : ∀ m ∈ compiling P.workspace s.noMongoose models, TidyModel P.workspace m :=
    fun m hm => tidy m (List.mem_filter.1 hm).1
  have explained' : ∀ a ∈ attempts s.noMongoose P.workspace
      (compiling P.workspace s.noMongoose models), a.Explained := by
    rw [attempts_of_tidy tidy']
    rw [attempts_of_tidy tidy] at explained
    intro a ha
    obtain ⟨m, hm, rfl⟩ := List.mem_map.1 ha
    exact explained _ (List.mem_map_of_mem (List.mem_filter.1 hm).1)
  obtain ⟨log, run⟩ := generateFrom_explained root explained
  obtain ⟨log', alone⟩ := generateFrom_explained root explained'
  rw [run, alone, attempts_of_tidy tidy, attempts_of_tidy tidy', lastOf_of_tidy tidy,
    lastOf_of_tidy tidy', reportOf_compiling distinct]
  exact ending_withoutErrors rfl rfl

/-- A run that has found its models ends with an error only at a value without a literal or because
its file cannot be written. If no model fails at such a value, the run reports the models that fail
and makes a file of the others. If the schemas are tidy too, it gives what it gives over the others
alone, but for the list of failures. -/
theorem generate_isolates (root : Location) (s : Settings) {P P₁ : Project} {models : Models}
    (found : (findModels root s.modelPaths).on P = (.ok (.ok models), P₁)) :
    (Keyed.keys models).Nodup ∧
    (∀ e P', (generate root s).on P = (.error e, P') →
      (∃ cause, e = .compile (.render (.literal cause))) ∨ ∃ w, e = .write w) ∧
    ((∀ a ∈ attempts s.noMongoose P₁.workspace models, a.Explained) →
      (∃ r, Reports root models s P₁.workspace (attempts s.noMongoose P₁.workspace models) r ∧
        ((∃ P', (generate root s).on P = (.ok (.report r), P') ∧
            if r.written then written P₁ r.file = .ok P'.files else P'.files = P₁.files) ∨
          ∃ w P', (generate root s).on P = (.error (.write w), P') ∧
            r.written = true ∧ written P₁ r.file = .error w)) ∧
      ((∀ m ∈ models, TidyModel P₁.workspace m) →
        let alone := (generateFrom root (compiling P₁.workspace s.noMongoose models) s).on P₁
        alone.1.map Outcome.report = ((generate root s).on P).1.map withoutFailures ∧
          alone.2.files = ((generate root s).on P).2.files)) := by
  have distinct := (findModels_ok found).2
  rw [generate_on found]
  refine ⟨distinct, fun e P' h => ?_, fun explained => ⟨?_, fun tidy => ?_⟩⟩
  · rcases hg : (generateFrom root models s).on P₁ with ⟨d | r, P₂⟩ <;> rw [hg] at h
    · cases h
      exact generateFrom_error hg
    · cases h
  · obtain ⟨r, reports, ⟨P', run, disk⟩ | ⟨w, P', run, fails⟩⟩ :=
      generateFrom_cases root explained
    · exact ⟨r, reports, .inl ⟨P', by rw [run]; rfl, disk⟩⟩
    · exact ⟨r, reports, .inr ⟨w, P', by rw [run]; rfl, fails⟩⟩
  · obtain ⟨result, files⟩ := generateFrom_alone root distinct tidy explained
    refine ⟨?_, files⟩
    rw [result]
    cases ((generateFrom root models s).on P₁).1 <;> rfl

/-- A project of two modules with a model each. -/
def crew (workspace : Workspace) (bad user : SchemaId) : Project :=
  let exports (model : String) (id : SchemaId) : Content :=
    .module [("model_name", .str model), ("schema", .schema id)]
  { files := { files := [(["bad.py"], exports "Bad" bad), (["user.py"], exports "User" user)] }
    directory := ⟨"/", []⟩
    workspace }

def crewSettings : Settings := { modelPaths := ["bad.py", "user.py"], output := "out.ts" }

/-- What a run over such a project finds. -/
def crewFound (P : Project) : Except Failure (Except String Models) × Project :=
  (findModels ⟨"/", []⟩ crewSettings.modelPaths).on P

theorem crewFound_eq {P : Project} {models : Models}
    (h : (crewFound P).1.toOption.bind (·.toOption) = some models) :
    crewFound P = (.ok (.ok models), (crewFound P).2) := by
  rcases hf : crewFound P with ⟨_ | _ | found, P₁⟩ <;> rw [hf] at h <;> cases h
  rfl

/-- Two schemas, of which the first has a field that is given. -/
def sized (size : Value) : Workspace :=
  let one := (Workspace.create {} (.dict [("size", size)]) .null).2
  (one.create (.dict [("name", .str "String")]) .null).2

/-- The names that the report of a run lists, if there is one. -/
def listed : Except Failure Outcome → List String × List String
  | .ok (.report r) => (r.errors.map (·.1), r.models.map (·.1))
  | _ => ([], [])

theorem generate_isolates_crew : ∃ r P', let P := crew (sized (.str "NotAType")) 0 1
    let models : Models := [("Bad", 0), ("User", 1)]
    crewFound P = (.ok (.ok models), (crewFound P).2) ∧
    (generate ⟨"/", []⟩ crewSettings).on P = (.ok (.report r), P') ∧
    Reports ⟨"/", []⟩ models crewSettings (crewFound P).2.workspace
      (attempts false (crewFound P).2.workspace models) r ∧
    ((generateFrom ⟨"/", []⟩ (compiling (crewFound P).2.workspace false models) crewSettings).on
      (crewFound P).2).1.map Outcome.report = .ok (.report (withoutErrors r)) ∧
    r.errors.map (·.1) = ["Bad"] ∧ r.models.map (·.1) = ["User"] := by
  let P := crew (sized (.str "NotAType")) 0 1
  let models : Models := [("Bad", 0), ("User", 1)]
  have found : crewFound P = (.ok (.ok models), (crewFound P).2) := crewFound_eq (by decide +kernel)
  have tidy : ∀ m ∈ models, TidyModel (crewFound P).2.workspace m :=
    fun m _ x _ => Workspace.forall_schema (P := Schema.Tidy) (by decide +kernel) (by decide) x
  have explained : ∀ a ∈ attempts false (crewFound P).2.workspace models, a.Explained := by
    decide +kernel
  have shown : listed ((generate ⟨"/", []⟩ crewSettings).on P).1 = (["Bad"], ["User"]) := by
    decide +kernel
  obtain ⟨⟨r, reports, ends⟩, alone⟩ :=
    (generate_isolates ⟨"/", []⟩ crewSettings found).2.2 explained
  have same := (alone tidy).1
  rcases ends with ⟨P', run, -⟩ | ⟨w, P', run, -⟩ <;> rw [run] at shown same
  · obtain ⟨herrors, hmodels⟩ := Prod.mk.inj shown
    exact ⟨r, P', found, run, reports, same, herrors, hmodels⟩
  · simp [listed] at shown

/-- A value without a literal in one model ends the run for all. -/
theorem generate_stops : ¬ ∀ (root : Location) (s : Settings) (P P₁ : Project) (models : Models),
    P.workspace.Built → (findModels root s.modelPaths).on P = (.ok (.ok models), P₁) →
    ∀ e P', (generate root s).on P = (.error e, P') → ∃ w, e = .write w := by
  intro keeps
  let P := crew (sized (.dict [("type", .str "Number"), ("enum", .list [.bytes [0]])])) 0 1
  have built : P.workspace.Built :=
    .create (.create .empty ⟨⟨trivial, ⟨trivial, trivial⟩, trivial⟩, trivial⟩) ⟨trivial, trivial⟩
  have found : crewFound P = (.ok (.ok [("Bad", 0), ("User", 1)]), (crewFound P).2) :=
    crewFound_eq (by decide +kernel)
  have stops : (match ((generate ⟨"/", []⟩ crewSettings).on P).1 with
      | .error (.compile _) => true
      | _ => false) = true := by decide +kernel
  rcases h : (generate ⟨"/", []⟩ crewSettings).on P with ⟨e | outcome, P'⟩ <;>
    rw [h] at stops
  · obtain ⟨w, rfl⟩ := keeps _ crewSettings _ _ _ built found e P' h
    cases stops
  · cases stops

end ModelTypes.Run
