import ModelTypes.Project.Generation
import ModelTypes.Proofs.Keyed
import ModelTypes.Proofs.Result
/-!
# Runs, step by step

What a run does to a project: it loads models under distinct names, compiles one after the other
and reports what came of it. Each step has one lemma that says all it can do.
-/

namespace ModelTypes

/-- What work gives, and the project it leaves. -/
def RunM.on {α : Type} (work : RunM α) (P : Project) : Except Failure α × Project := work.run.run P

namespace Run

/-! ## Sequences of work -/

section Sequences

variable {α β : Type} {P P' : Project}

theorem bind_on (x : RunM α) (f : α → RunM β) (P : Project) :
    (x >>= f).on P = match x.on P with
      | (.ok a, P₁) => (f a).on P₁
      | (.error e, P₁) => (.error e, P₁) := by
  rcases h : x.on P with ⟨_ | a, P₁⟩
  · exact ExceptT.bind_on_of_error h
  · exact ExceptT.bind_on_of_ok h

theorem bind_ok_iff {x : RunM α} {f : α → RunM β} {b : β} :
    (x >>= f).on P = (.ok b, P') ↔ ∃ a P₁, x.on P = (.ok a, P₁) ∧ (f a).on P₁ = (.ok b, P') :=
  ExceptT.bind_on_ok_iff

theorem tryCatch_on (x : RunM α) (handle : Failure → RunM α) (P : Project) :
    (tryCatch x handle).on P = match x.on P with
      | (.ok a, P₁) => (.ok a, P₁)
      | (.error e, P₁) => (handle e).on P₁ := by
  rcases h : x.on P with ⟨_ | a, P₁⟩
  · exact ExceptT.tryCatch_on_of_error h
  · exact ExceptT.tryCatch_on_of_ok h

theorem map_on (f : α → β) (x : RunM α) (P : Project) :
    (f <$> x).on P = ((x.on P).1.map f, (x.on P).2) := by
  rw [← bind_pure_comp, bind_on]
  rcases x.on P with ⟨_ | a, P₁⟩ <;> rfl

@[simp] theorem pure_on (a : α) : (pure a : RunM α).on P = (.ok a, P) := rfl

@[simp] theorem get_on : (get : RunM Project).on P = (.ok P, P) := rfl

@[simp] theorem set_on (P' : Project) : (set P' : RunM Unit).on P = (.ok (), P') := rfl

@[simp] theorem throw_on (e : Failure) : (throw e : RunM α).on P = (.error e, P) := rfl

/-- A record at the end of the log. -/
def noted (P : Project) (record : LogRecord) : Project := { P with log := P.log ++ [record] }

@[simp] theorem note_on (level : LogLevel) (logger message : String) :
    (note level logger message).on P = (.ok (), noted P ⟨level, logger, message⟩) := rfl

end Sequences

/-! ## Loading models -/

section Loading

variable {models more : Models} {P P' : Project}

theorem nodup_keys_register {name schema : Option Value} (h : (Keyed.keys models).Nodup) :
    (Keyed.keys (Models.register models name schema)).Nodup := by
  unfold Models.register
  split
  · split
    · exact h
    · exact Keyed.nodup_keys_put h
  · exact h

theorem nodup_keys_addModule {s : Store} {exports : Entries} (h : (Keyed.keys models).Nodup) :
    (Keyed.keys (models.addModule s exports)).Nodup := by
  have all (es : Entries) : ∀ {models : Models}, (Keyed.keys models).Nodup →
      (Keyed.keys (es.foldl (fun models e => Models.register models (s.attribute? e.2 "model_name")
        (s.attribute? e.2 "schema")) models)).Nodup := by
    induction es with
    | nil => exact fun h => h
    | cons e rest ih => exact fun h => ih (nodup_keys_register h)
  exact all _ (nodup_keys_register h)

/-- Modules are loaded into one map, so no two models have one name. -/
theorem nodup_keys_loadModels {paths : List Location} (h : (Keyed.keys models).Nodup)
    (loads : (loadModels models paths).on P = (.ok more, P')) : (Keyed.keys more).Nodup := by
  induction paths generalizing models P with
  | nil =>
    cases loads
    exact h
  | cons path rest ih =>
    rw [loadModels, bind_on] at loads
    rcases hm : (moduleExports path).on P with ⟨_ | exports, P₁⟩ <;> rw [hm] at loads
    · cases loads
    · dsimp only at loads
      rw [bind_on, get_on] at loads
      dsimp only at loads
      split at loads <;> rw [bind_on, note_on] at loads <;> exact ih (nodup_keys_addModule h) loads

/-- Models that were found are some, under distinct names. -/
theorem findModels_ok {root : Location} {patterns : List String}
    (h : (findModels root patterns).on P = (.ok (.ok models), P')) :
    models ≠ [] ∧ (Keyed.keys models).Nodup := by
  unfold findModels at h
  obtain ⟨paths, P₁, -, h⟩ := bind_ok_iff.1 h
  split at h
  · cases h
  · obtain ⟨found, P₂, hf, h⟩ := bind_ok_iff.1 h
    -- What was found is what was loaded: a missing module is no list of models.
    have loaded {ms : Models} (he : found = .ok ms) : (Keyed.keys ms).Nodup := by
      subst he
      change RunM.on (tryCatch _ _) P₁ = _ at hf
      rw [tryCatch_on, map_on] at hf
      rcases hl : (loadModels [] paths).on P₁ with ⟨e | more, P₃⟩ <;> rw [hl] at hf
      · cases e <;> cases hf
      · cases hf
        exact nodup_keys_loadModels (by simp) hl
    split at h
    · cases h
    · rename_i hne
      cases h
      exact ⟨fun hc => hne (by rw [hc]), loaded rfl⟩

end Loading

/-! ## Compiling the models -/

/-- A model that was compiled: what that gave, and the workspace after it. -/
structure Attempt where
  model : String × SchemaId
  result : Except CompileError (List PairedBlock)
  after : Workspace

namespace Attempt

/-- What a batch says of a model that compiles. -/
def compiled? (a : Attempt) : Option (String × List PairedBlock) :=
  match a.result with
  | .ok blocks => some (a.model.1, blocks)
  | .error _ => none

/-- What a batch says of a model that fails for a cause with a wording. -/
def error? (a : Attempt) : Option (String × String) :=
  match a.result with
  | .ok _ => none
  | .error e => (e.message? a.after).map (a.model.1, ·)

/-- A model that does not fail at a value without a literal. -/
def Explained (a : Attempt) : Prop := ∀ cause, a.result ≠ .error (.render (.literal cause))

instance (a : Attempt) : Decidable a.Explained :=
  match h : a.result with
  | .error (.render (.literal cause)) => .isFalse fun explained => explained cause h
  | .ok _ | .error (.field _) | .error (.render (.unknownShape _)) | .error (.circular _)
  | .error (.unpairedBlock _ _) => .isTrue fun cause hc => by simp [h] at hc

def record (a : Attempt) : LogRecord :=
  match a.result with
  | .ok blocks => ⟨.debug, compilerLogger,
      "Compiled " ++ a.model.1 ++ " into " ++ toString blocks.length ++ " block(s)"⟩
  | .error e => ⟨.error, generationLogger,
      "Failed to generate types for " ++ a.model.1 ++ ": " ++ (e.message? a.after).getD ""⟩

end Attempt

/-- Compiles a model in a workspace. -/
def attempt (ws : Workspace) (plainIds : Bool) (m : String × SchemaId) : Attempt :=
  let run := (Compile.compile m.2 m.1 plainIds).on ws
  ⟨m, run.1, run.2⟩

/-- Compiles models one after the other, each in the workspace that the one before it leaves. -/
def attempts (plainIds : Bool) : Workspace → Models → List Attempt
  | _, [] => []
  | ws, m :: rest =>
    attempt ws plainIds m :: attempts plainIds (attempt ws plainIds m).after rest

/-- The workspace after several models. -/
def lastOf : Workspace → List Attempt → Workspace
  | ws, [] => ws
  | _, a :: as => lastOf a.after as

def batchOf (as : List Attempt) : Batch where
  compiled := as.filterMap Attempt.compiled?
  errors := as.filterMap Attempt.error?

variable {P P' : Project} {ws : Workspace} {plainIds : Bool} {models rest : Models} {s : Settings}
  {m : String × SchemaId} {a : Attempt} {as : List Attempt}

theorem message?_eq_none {e : CompileError} (h : e.message? ws = none) :
    ∃ cause, e = .render (.literal cause) := by
  unfold CompileError.message? at h
  split at h <;> simp at h
  exact ⟨_, rfl⟩

theorem Attempt.Explained.message (h : a.Explained) {e : CompileError}
    (he : a.result = .error e) : ∃ message, e.message? a.after = some message := by
  cases hm : e.message? a.after with
  | none =>
    obtain ⟨cause, rfl⟩ := message?_eq_none hm
    exact absurd he (h cause)
  | some message => exact ⟨message, rfl⟩

/-- The project after a model was compiled. -/
def compiledOnce (P : Project) (a : Attempt) : Project :=
  noted { P with workspace := a.after } a.record

/-- A model is compiled or listed with its cause, and the others after it, unless the cause has no
wording. -/
theorem compileModels_cons_on (a : Attempt) (ha : attempt P.workspace plainIds m = a) :
    (compileModels plainIds (m :: rest)).on P =
    match a.result with
    | .ok blocks => ((fun b : Batch => { b with compiled := (m.1, blocks) :: b.compiled }) <$>
        compileModels plainIds rest).on (compiledOnce P a)
    | .error e =>
      match e.message? a.after with
      | none => (.error (.compile e), { P with workspace := a.after })
      | some message => ((fun b : Batch => { b with errors := (m.1, message) :: b.errors }) <$>
          compileModels plainIds rest).on (compiledOnce P a) := by
  obtain ⟨model, id⟩ := m
  have first : (compileModel plainIds model id).on P
      = (.ok a.result, { P with workspace := a.after }) := by
    subst ha
    rfl
  have named : a.model = (model, id) := by rw [← ha]; rfl
  rw [compileModels, bind_on, first]
  unfold compiledOnce Attempt.record
  cases a.result with
  | ok blocks => rw [named]; rfl
  | error e =>
    simp only [bind_on, get_on]
    cases e.message? a.after <;> rw [named] <;> rfl

theorem batchOf_cons_of_ok {blocks : List PairedBlock} (h : a.result = .ok blocks) :
    batchOf (a :: as)
      = { batchOf as with compiled := (a.model.1, blocks) :: (batchOf as).compiled } := by
  simp [batchOf, Attempt.compiled?, Attempt.error?, h]

theorem batchOf_cons_of_error {e : CompileError} {message : String}
    (h : a.result = .error e) (hm : e.message? a.after = some message) :
    batchOf (a :: as)
      = { batchOf as with errors := (a.model.1, message) :: (batchOf as).errors } := by
  simp [batchOf, Attempt.compiled?, Attempt.error?, h, hm]

/-- Unless a value without a literal ends it, a run compiles all its models. -/
theorem compileModels_on (explained : ∀ a ∈ attempts plainIds P.workspace models, a.Explained) :
    (compileModels plainIds models).on P = (.ok (batchOf (attempts plainIds P.workspace models)),
      { P with
        workspace := lastOf P.workspace (attempts plainIds P.workspace models)
        log := P.log ++ (attempts plainIds P.workspace models).map (·.record) }) := by
  induction models generalizing P with
  | nil => simp [compileModels, attempts, batchOf, lastOf]
  | cons m rest ih =>
    rw [attempts] at explained ⊢
    generalize ha : attempt P.workspace plainIds m = a at explained ⊢
    have others := ih (P := compiledOnce P a) fun b hb => explained b (List.mem_cons_of_mem _ hb)
    have named : a.model = m := by rw [← ha]; rfl
    rw [compileModels_cons_on a ha]
    cases hr : a.result with
    | ok blocks =>
      simp only [map_on, others, batchOf_cons_of_ok hr, named]
      simp [compiledOnce, noted, lastOf, Except.map]
    | error e =>
      obtain ⟨message, hm⟩ := (explained a List.mem_cons_self).message hr
      simp only [hm, map_on, others, batchOf_cons_of_error hr hm, named]
      simp [compiledOnce, noted, lastOf, Except.map]

/-- Only a value without a literal ends the compilation of the models. -/
theorem compileModels_error {e : Failure}
    (h : (compileModels plainIds models).on P = (.error e, P')) :
    ∃ cause, e = .compile (.render (.literal cause)) := by
  induction models generalizing P with
  | nil => simp [compileModels] at h
  | cons m rest ih =>
    have others {f : Batch → Batch} {P₁ : Project}
        (h : (f <$> compileModels plainIds rest).on P₁ = (.error e, P')) :
        ∃ cause, e = .compile (.render (.literal cause)) := by
      rw [map_on] at h
      rcases hr : (compileModels plainIds rest).on P₁ with ⟨_ | batch, P₂⟩ <;> rw [hr] at h
      · cases h
        exact ih hr
      · cases h
    rw [compileModels_cons_on _ rfl] at h
    split at h
    · exact others h
    · split at h
      · rename_i hm
        cases h
        obtain ⟨cause, rfl⟩ := message?_eq_none hm
        exact ⟨cause, rfl⟩
      · exact others h

/-! ## Reporting -/

/-- The functions of a model by its name. -/
def functionsIn (ws : Workspace) (models : Models) (model : String) : Functions :=
  ((Keyed.get? models model).map fun id => (ws.schema id).functions).getD {}

/-- What is reported about compiled models. -/
def reportOf (root : Location) (models : Models) (s : Settings) (ws : Workspace) (b : Batch) :
    Report where
  file := Declaration.file b.compiled (functionsIn ws models) (root.join (.ofText s.output)).text
    s.noMongoose
  written := !s.dryRun && !b.compiled.isEmpty
  errors := b.errors
  models := b.compiled.map fun m => (m.1, m.2.map (·.name))

/-- The files after a file was written where its path leads from the working directory. -/
def written (P : Project) (file : GeneratedFile) : Except WriteError FileTree :=
  P.files.write (P.directory.join (.ofText file.path)) (textBytes file.content)

/-- A run that has compiled its models ends with a report, unless its file cannot be written. -/
def ending (P : Project) (r : Report) : Except Failure Report × Project :=
  if r.written then
    match written P r.file with
    | .error e => (.error (.write e), P)
    | .ok files =>
      (.ok r, noted { P with files } ⟨.info, generationLogger, "Wrote " ++ r.file.path⟩)
  else (.ok r, P)

variable {root : Location}

theorem writeFile_on {file : GeneratedFile} : (writeFile file).on P =
    match written P file with
    | .error e => (.error (.write e), P)
    | .ok files =>
      (.ok (), noted { P with files } ⟨.info, generationLogger, "Wrote " ++ file.path⟩) := by
  unfold writeFile
  rw [bind_on, get_on]
  dsimp only
  unfold written
  cases P.files.write (P.directory.join (.ofText file.path)) (textBytes file.content) <;> rfl

theorem ending_on {r : Report} : (do
    if r.written then writeFile r.file
    return r : RunM Report).on P = ending P r := by
  unfold ending
  split
  · rw [bind_on, writeFile_on]
    cases written P r.file <;> rfl
  · rfl

theorem ending_cases (P : Project) (r : Report) :
    (∃ P', ending P r = (.ok r, P') ∧
      if r.written then written P r.file = .ok P'.files else P'.files = P.files) ∨
    (r.written = true ∧ ∃ e, written P r.file = .error e ∧
      ending P r = (.error (.write e), P)) := by
  unfold ending
  by_cases hw : r.written = true
  · simp only [if_pos hw]
    cases hf : written P r.file with
    | error e => exact .inr ⟨hw, e, rfl, rfl⟩
    | ok files => exact .inl ⟨_, rfl, rfl⟩
  · simp only [if_neg hw]
    exact .inl ⟨P, rfl, rfl⟩

theorem generateFrom_on : (generateFrom root models s).on P =
    match (compileModels s.noMongoose models).on P with
    | (.ok b, P₁) => ending P₁ (reportOf root models s P₁.workspace b)
    | (.error e, P₁) => (.error e, P₁) := by
  unfold generateFrom
  rw [bind_on]
  rcases (compileModels s.noMongoose models).on P with ⟨_ | b, P₁⟩
  · rfl
  · dsimp only
    rw [bind_on, get_on]
    exact ending_on (r := reportOf root models s P₁.workspace b)

/-- Generating goes on from the models that were found. -/
theorem generate_on {P₁ : Project}
    (found : (findModels root s.modelPaths).on P = (.ok (.ok models), P₁)) :
    (generate root s).on P = (((generateFrom root models s).on P₁).1.map .report,
      ((generateFrom root models s).on P₁).2) := by
  unfold generate
  rw [bind_on, found]
  exact map_on _ _ _

end Run
end ModelTypes
