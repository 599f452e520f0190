import ModelTypes.CommandLine.Command
import ModelTypes.Proofs.Project.Run
/-!
# Faults in settings

A configuration file either gives settings or is refused with a fault in them that the program can
tell, if its bytes are a text and YAML has no worse to say of the text than that it is malformed.
Bytes that are no text end a run without a word.
-/

namespace ModelTypes

namespace Settings

variable {path : String} {data : List UInt8} {text : String} {e : SettingsError}

/-! ## Bytes -/

/-- Bytes write a text. -/
def Encodes (data : List UInt8) (text : String) : Prop := text.toUTF8 = ⟨data.toArray⟩

/-- Read as YAML, a text gives data or is malformed. -/
def Readable (text : String) : Prop :=
  ∀ e, Yaml.Document.read (String.ofList (plainLines text.toList)) = .error e → e = .malformed

/-- A fault in settings that has a wording. -/
def IsTold (e : SettingsError) : Prop := ∃ message, e.message? = some message

theorem fromUTF8?_eq_some_iff : String.fromUTF8? ⟨data.toArray⟩ = some text ↔ Encodes data text := by
  unfold String.fromUTF8? Encodes
  split
  · rw [Option.some.injEq, ← String.toByteArray_inj]
    exact eq_comm
  · rename_i invalid
    refine ⟨nofun, fun same => absurd ?_ invalid⟩
    rw [← same]
    exact text.isValidUTF8

theorem fromUTF8?_eq_none_iff :
    String.fromUTF8? ⟨data.toArray⟩ = none ↔ ∀ text, ¬ Encodes data text := by
  simp only [Option.eq_none_iff_forall_ne_some, ne_eq, fromUTF8?_eq_some_iff]

theorem isTold_of_sectionOf {doc : Yaml.Document} (h : sectionOf doc path = .error e) : IsTold e := by
  unfold sectionOf at h
  split at h
  · cases h
  · split at h
    · cases h
    · split at h
      · cases h
      · split at h <;> cases h
        exact ⟨_, rfl⟩
  · cases h
    exact ⟨_, rfl⟩

/-- Bytes of no text are no settings, and that cannot be told. -/
theorem ofBytes_of_not_encodes (h : ∀ text, ¬ Encodes data text) :
    ofBytes path data = .error .notText := by
  rw [ofBytes, fromUTF8?_eq_none_iff.2 h]

/-- A readable text gives settings, or a fault in them. -/
theorem ofBytes_of_readable (path : String) (encodes : Encodes data text) (readable : Readable text) :
    (∃ settings, ofBytes path data = .ok settings) ∨
      ∃ e, ofBytes path data = .error e ∧ IsTold e := by
  rw [ofBytes, fromUTF8?_eq_some_iff.2 encodes]
  dsimp only
  rcases read : Yaml.Document.read (String.ofList (plainLines text.toList)) with e | doc
  · rw [readable e read]
    exact .inr ⟨_, rfl, _, rfl⟩
  · dsimp only
    rcases section' : sectionOf doc path with e | entries
    · exact .inr ⟨e, rfl, isTold_of_sectionOf section'⟩
    · dsimp only
      rcases ofEntries? doc entries with _ | settings
      · exact .inr ⟨.invalid, rfl, _, rfl⟩
      · exact .inl ⟨settings, rfl⟩

end Settings

namespace Run

open Settings (Encodes Readable IsTold)

variable {P P' : Project} {file : Location} {data : List UInt8}

/-! ## Files -/

/-- The file that settings are read from: a given one, or one that is found. -/
def settingsFile? (P : Project) (given : Option Location) : Option Location :=
  given.or (Settings.locate? P.files P.directory)

/-- What stands in a file. Modules are not told apart by their text. -/
def dataOf : Content → List UInt8
  | .bytes data => data
  | _ => []

/-- Settings from a file have its directory as their root. -/
theorem readSettings_cases (file : Location) (P : Project) :
    ∃ result P', (readSettings file).on P = (result, P') ∧ P'.files = P.files ∧
      match P.files.fileAt? (P.directory.join file) with
      | none => result = .error (.settings (.missing file.text))
      | some content =>
        match Settings.ofBytes file.text (dataOf content) with
        | .ok settings => result = .ok (settings, P.directory.resolve file.parent)
        | .error e => result = .error (.settings e) := by
  unfold readSettings
  rw [bind_on, get_on]
  dsimp only
  cases P.files.fileAt? (P.directory.join file) with
  | none => exact ⟨_, _, rfl, rfl, rfl⟩
  | some content =>
    dsimp only
    rw [bind_on, note_on]
    cases content
    all_goals
      dsimp only [dataOf]
      cases Settings.ofBytes file.text _ <;> exact ⟨_, _, rfl, rfl, rfl⟩

/-! ## Settings of a run -/

/-- What stands in the file that settings are read from, if there is one. -/
def settingsContent? (P : Project) (given : Option Location) : Option Content :=
  (settingsFile? P given).bind fun file => P.files.fileAt? (P.directory.join file)

/-- The directory that settings are for. -/
def settingsRoot (P : Project) (given : Option Location) : Location :=
  ((settingsFile? P given).map fun file => P.directory.resolve file.parent).getD P.directory

/-- The bytes of the configuration file write no text. -/
def HasNoText (P : Project) (given : Option Location) : Prop :=
  ∃ content, settingsContent? P given = some content ∧ ∀ text, ¬ Encodes (dataOf content) text

/-- A text in the configuration file is readable. -/
def HasReadableText (P : Project) (given : Option Location) : Prop :=
  ∀ content text, settingsContent? P given = some content → Encodes (dataOf content) text →
    Readable text

/-- Settings are read from their file, or are the usual ones. -/
theorem settings_on (P : Project) (given : Option Location) :
    (settings given).on P = match settingsFile? P given with
      | some file => (readSettings file).on P
      | none => (.ok ({}, P.directory),
        noted P ⟨.debug, settingsLogger, "No " ++ Settings.fileName ++ " found, using defaults"⟩) := by
  unfold settings settingsFile?
  rw [bind_on, get_on]
  dsimp only
  cases given.or (Settings.locate? P.files P.directory) <;> rfl

/-- What stands in the file is read. -/
theorem settings_of_content {given : Option Location} {content : Content}
    (h : settingsContent? P given = some content) :
    ∃ path result P', (settings given).on P = (result, P') ∧ P'.files = P.files ∧
      match Settings.ofBytes path (dataOf content) with
      | .ok settings => result = .ok (settings, settingsRoot P given)
      | .error e => result = .error (.settings e) := by
  obtain ⟨file, hf, hc⟩ := Option.bind_eq_some_iff.1 h
  obtain ⟨result, P', reads, files, gives⟩ := readSettings_cases file P
  rw [hc] at gives
  refine ⟨file.text, result, P', ?_, files, ?_⟩
  · rw [settings_on, hf]
    exact reads
  · simpa only [settingsRoot, hf, Option.map_some, Option.getD_some] using gives

/-- Without a file settings are the usual ones, or the file is missing. -/
theorem settings_of_no_content {given : Option Location} (h : settingsContent? P given = none) :
    ∃ result P', (settings given).on P = (result, P') ∧ P'.files = P.files ∧
      (result = .ok ({}, settingsRoot P given) ∨
        ∃ path, result = .error (.settings (.missing path))) := by
  rw [settings_on]
  cases hf : settingsFile? P given with
  | none => exact ⟨_, _, rfl, rfl, .inl (by simp [settingsRoot, hf])⟩
  | some file =>
    obtain ⟨result, P', reads, files, gives⟩ := readSettings_cases file P
    rw [settingsContent?, hf] at h
    rw [show P.files.fileAt? (P.directory.join file) = none from h] at gives
    exact ⟨result, P', reads, files, .inr ⟨_, gives⟩⟩

/-- Only a fault in them keeps settings from being read. -/
theorem settings_error {given : Option Location} {f : Failure}
    (h : (settings given).on P = (.error f, P')) : ∃ e, f = .settings e := by
  cases hc : settingsContent? P given with
  | none =>
    obtain ⟨_, _, reads, -, gives⟩ := settings_of_no_content hc
    rw [reads] at h
    rcases gives with rfl | ⟨path, rfl⟩ <;> cases h
    exact ⟨_, rfl⟩
  | some content =>
    obtain ⟨path, _, _, reads, -, gives⟩ := settings_of_content hc
    rw [reads] at h
    split at gives <;> subst gives <;> cases h
    exact ⟨_, rfl⟩

theorem settings_of_hasNoText {given : Option Location} (h : HasNoText P given) :
    ∃ P', (settings given).on P = (.error (.settings .notText), P') ∧ P'.files = P.files := by
  obtain ⟨content, stands, none⟩ := h
  obtain ⟨path, result, P', reads, files, gives⟩ := settings_of_content stands
  rw [Settings.ofBytes_of_not_encodes none] at gives
  exact ⟨P', gives ▸ reads, files⟩

/-- A configuration gives settings with its directory as root, or tells its fault, or has no
text. -/
theorem settings_cases {given : Option Location} (readable : HasReadableText P given) :
    ∃ result P', (settings given).on P = (result, P') ∧ P'.files = P.files ∧
      ((∃ s, result = .ok (s, settingsRoot P given)) ∨
        (∃ e, result = .error (.settings e) ∧ IsTold e) ∨
        result = .error (.settings .notText) ∧ HasNoText P given) := by
  cases hc : settingsContent? P given with
  | none =>
    obtain ⟨result, P', reads, files, gives⟩ := settings_of_no_content hc
    refine ⟨result, P', reads, files, ?_⟩
    rcases gives with usual | ⟨path, missing⟩
    · exact .inl ⟨_, usual⟩
    · exact .inr (.inl ⟨_, missing, _, rfl⟩)
  | some content =>
    by_cases text : ∃ text, Encodes (dataOf content) text
    · obtain ⟨text, encodes⟩ := text
      obtain ⟨path, result, P', reads, files, gives⟩ := settings_of_content hc
      refine ⟨result, P', reads, files, ?_⟩
      rcases Settings.ofBytes_of_readable path encodes
        (readable content text hc encodes) with ⟨s, hs⟩ | ⟨e, he, told⟩
      · rw [hs] at gives
        exact .inl ⟨s, gives⟩
      · rw [he] at gives
        exact .inr (.inl ⟨e, gives, told⟩)
    · have none : HasNoText P given := ⟨content, hc, not_exists.1 text⟩
      obtain ⟨P', reads, files⟩ := settings_of_hasNoText none
      exact ⟨_, P', reads, files, .inr (.inr ⟨rfl, none⟩)⟩

/-! ## Runs after the settings -/

/-- Work that no fault in settings stops. -/
def SettingsFree {α : Type} (x : RunM α) : Prop := ∀ P P' e, x.on P ≠ (.error (.settings e), P')

namespace SettingsFree

variable {α β : Type} {x : RunM α}

theorem pure (a : α) : SettingsFree (pure a) := nofun

theorem throw {f : Failure} (h : ∀ e, f ≠ .settings e) : SettingsFree (throw f : RunM α) := by
  intro P P' e same
  cases f <;> cases same
  exact h e rfl

theorem bind (h : SettingsFree x) {f : α → RunM β} (hf : ∀ a, SettingsFree (f a)) :
    SettingsFree (x >>= f) := by
  intro P P' e same
  rw [bind_on] at same
  rcases hx : x.on P with ⟨_ | a, P₁⟩ <;> rw [hx] at same
  · cases same
    exact h _ _ _ hx
  · exact hf a _ _ _ same

theorem get : SettingsFree (get : RunM Project) := nofun

theorem note {level : LogLevel} {logger message : String} :
    SettingsFree (note level logger message) := nofun

theorem tryCatch (h : SettingsFree x) {handle : Failure → RunM α}
    (hh : ∀ f, (∀ e, f ≠ .settings e) → SettingsFree (handle f)) :
    SettingsFree (tryCatch x handle) := by
  intro P P' e same
  rw [tryCatch_on] at same
  rcases hx : x.on P with ⟨f | a, P₁⟩ <;> rw [hx] at same
  · exact hh f (fun e' hf => h _ _ e' (hf ▸ hx)) _ _ _ same
  · cases same

theorem forIn {f : β → α → RunM (ForInStep α)} (h : ∀ b a, SettingsFree (f b a)) :
    ∀ (bs : List β) (a : α), SettingsFree (forIn bs a f)
  | [], a => pure a
  | b :: bs, a => by
    rw [List.forIn_cons]
    refine (h b a).bind fun step => ?_
    cases step with
    | done a => exact pure a
    | yield a => exact forIn h bs a

end SettingsFree

theorem settingsFree_moduleExports (path : Location) : SettingsFree (moduleExports path) := by
  refine .bind .get fun P => ?_
  split
  · exact .throw nofun
  · split
    · refine .bind .note fun _ => ?_
      split
      · exact .pure _
      · exact .throw nofun
      · exact .pure _
    · split <;> exact .throw nofun

theorem settingsFree_loadModels (paths : List Location) (models : Models) :
    SettingsFree (loadModels models paths) := by
  induction paths generalizing models with
  | nil => exact .pure _
  | cons path rest ih =>
    refine .bind (settingsFree_moduleExports path) fun exports => .bind .get fun P => ?_
    dsimp only
    split <;> exact .bind .note fun _ => ih _

theorem settingsFree_findModels (root : Location) (patterns : List String) :
    SettingsFree (findModels root patterns) := by
  have paths : SettingsFree (modulePaths root patterns) :=
    .bind .get fun P => .bind (.forIn (fun _ _ => .bind .note fun _ => .pure _) _ _) fun _ => .pure _
  refine paths.bind fun found => ?_
  split
  · exact .pure _
  · refine .bind (.tryCatch ?_ fun f hf => ?_) fun models => ?_
    · rw [← bind_pure_comp]
      exact (settingsFree_loadModels found []).bind fun models => .pure _
    · split
      · exact .pure _
      · exact .throw hf
    · split <;> exact .pure _

theorem settingsFree_generateFrom (root : Location) (models : Models) (s : Settings) :
    SettingsFree (generateFrom root models s) := by
  intro P P' e same
  rw [generateFrom_on] at same
  rcases hc : (compileModels s.noMongoose models).on P with ⟨f | batch, P₁⟩ <;> rw [hc] at same
  · cases same
    obtain ⟨_, h⟩ := compileModels_error hc
    cases h
  · dsimp only at same
    rcases ending_cases P₁ (reportOf root models s P₁.workspace batch) with
      ⟨_, ends, -⟩ | ⟨-, _, -, ends⟩ <;> rw [ends] at same <;> cases same

/-- Once there are settings, no fault in them stops a run. -/
theorem settingsFree_generate (root : Location) (s : Settings) : SettingsFree (generate root s) := by
  refine .bind (settingsFree_findModels root s.modelPaths) fun models => ?_
  split
  · exact .pure _
  · rw [← bind_pure_comp]
    exact .bind (settingsFree_generateFrom root _ s) fun report => .pure _

end Run

namespace CommandLine

open Run (settings bind_on tryCatch_on map_on get_on SettingsFree)
open Settings (IsTold)

variable {P P' : Project} {common a : Arguments} {e : SettingsError}

/-! ## The command -/

/-- The configuration file that options name. -/
def given (common : Arguments) : Option Location := (given? common "config").map .ofText

/-- What the command goes on with: settings, or the message of a fault in them. -/
def configured (common : Arguments) : RunM (Except String (Settings × Location)) :=
  try Except.ok <$> settings (given common) catch
    | .settings e =>
      match e.message? with
      | some message => pure (.error message)
      | none => throw (.settings e)
    | e => throw e

/-- What it then does. -/
def proceed (common a : Arguments) : Except String (Settings × Location) → RunM Response
  | .error message => return { exitCode := 1, errors := failureLine message }
  | .ok (configured, root) => do
    let s := combine (← get) configured a
    let outcome ← Run.generate root s
    return outcomeResponse outcome (a.has "json") s.dryRun (common.has "quiet")

theorem generate_eq : generate common a = configured common >>= proceed common a := by
  unfold generate
  refine congrArg (configured common >>= ·) (funext fun found => ?_)
  rcases found with _ | _ <;> rfl

theorem configured_of_fault (h : (settings (given common)).on P = (.error (.settings e), P')) :
    (configured common).on P = match e.message? with
      | some message => (.ok (.error message), P')
      | none => (.error (.settings e), P') := by
  change RunM.on (tryCatch _ _) P = _
  rw [tryCatch_on, map_on, h]
  dsimp only [Except.map]
  cases e.message? <;> rfl

theorem configured_of_settings {s : Settings × Location}
    (h : (settings (given common)).on P = (.ok s, P')) :
    (configured common).on P = (.ok (.ok s), P') := by
  change RunM.on (tryCatch _ _) P = _
  rw [tryCatch_on, map_on, h]
  rfl

/-- A fault that can be told ends the command with its message. -/
theorem generate_of_told {message : String}
    (h : (settings (given common)).on P = (.error (.settings e), P'))
    (told : e.message? = some message) :
    (generate common a).on P
      = (.ok { exitCode := 1, errors := failureLine message }, P') := by
  rw [generate_eq, bind_on, configured_of_fault h, told]
  rfl

/-- Only a fault that cannot be told stops the command. -/
theorem generate_stopped (h : (generate common a).on P = (.error (.settings e), P')) :
    ¬ IsTold e ∧ (settings (given common)).on P = (.error (.settings e), P') := by
  rw [generate_eq, bind_on] at h
  rcases hs : (settings (given common)).on P with ⟨f | s, P₁⟩
  · obtain ⟨fault, rfl⟩ := Run.settings_error hs
    rw [configured_of_fault hs] at h
    cases told : fault.message? with
    | none =>
      rw [told] at h
      cases h
      exact ⟨fun ⟨message, h⟩ => by simp [told] at h, rfl⟩
    | some message =>
      rw [told] at h
      cases h
  · have free : SettingsFree (proceed common a (.ok s)) :=
      .bind .get fun _ => .bind (Run.settingsFree_generate _ _) fun _ => .pure _
    rw [configured_of_settings hs] at h
    exact absurd h (free _ _ _)

theorem failure_outcomeResponse (o : Outcome) (json dryRun quiet : Bool) :
    (outcomeResponse o json dryRun quiet).failure = none := by
  unfold outcomeResponse
  cases json <;> cases o <;> rfl

/-- A command that comes to its end has not failed. -/
theorem failure_of_generate {response : Response}
    (h : (generate common a).on P = (.ok response, P')) : response.failure = none := by
  rw [generate_eq] at h
  obtain ⟨found, P₁, -, h⟩ := Run.bind_ok_iff.1 h
  cases found with
  | error message =>
    cases h
    rfl
  | ok found =>
    obtain ⟨P₂, P₃, -, h⟩ := Run.bind_ok_iff.1 h
    obtain ⟨outcome, P₄, -, h⟩ := Run.bind_ok_iff.1 h
    cases h
    exact failure_outcomeResponse ..

section Stopped

variable {environment : List (String × String)} {clock : Clock} {arguments : List String}

theorem runCommand_stopped
    (h : (runCommand environment clock common arguments P).1.failure = some (.settings e)) :
    ∃ P₁ a P₂, appendLog P (logFile? environment) "" = .ok P₁ ∧
      (generate common a).on P₁ = (.error (.settings e), P₂) := by
  unfold runCommand at h
  dsimp only at h
  split at h
  · cases h
  · rename_i P₁ opened
    split at h
    · cases h
    · rename_i a _
      split at h
      · cases h
      · refine ⟨P₁, a, ?_⟩
        rcases hg : (generate common a).on P₁ with ⟨f | response, P₂⟩
        · have runs : (generate common a).run.run P₁ = (.error f, P₂) := hg
          rw [runs] at h
          cases h
          exact ⟨P₂, opened, rfl⟩
        · have runs : (generate common a).run.run P₁ = (.ok response, P₂) := hg
          rw [runs] at h
          exact absurd ((failure_of_generate hg).symm.trans h) nofun

/-- The program is stopped by a fault in settings just where its command is. -/
theorem run_stopped (h : (run environment clock arguments P).1.failure = some (.settings e)) :
    ¬ IsTold e ∧ ∃ P₁ common P₂, appendLog P (logFile? environment) "" = .ok P₁ ∧
      (settings (given common)).on P₁ = (.error (.settings e), P₂) := by
  unfold run at h
  split at h
  · cases h
  · rename_i common _
    split at h
    · cases h
    · cases h
    · split at h
      · obtain ⟨P₁, a, P₂, opened, stopped⟩ := runCommand_stopped h
        obtain ⟨untold, reads⟩ := generate_stopped stopped
        exact ⟨untold, P₁, common, P₂, opened, reads⟩
      · cases h

end Stopped

end CommandLine

/-! ## Faults in settings -/

namespace Run

open CommandLine (Arguments)
open Settings (Encodes IsTold)

/-- A project with nothing but a configuration file. -/
def configuredBy (data : List UInt8) : Project where
  files := { files := [([Settings.fileName], .bytes data)] }
  directory := ⟨"/", []⟩

theorem settingsContent?_configuredBy (data : List UInt8) :
    settingsContent? (configuredBy data) none = some (.bytes data) := by
  rfl

/-- A text as the bytes that write it. -/
def bytesOf (text : String) : List UInt8 := text.toUTF8.data.toList

theorem hasReadableText_configuredBy {text : String} (readable : Settings.Readable text) :
    HasReadableText (configuredBy (bytesOf text)) none := by
  intro content written stands encodes
  cases (settingsContent?_configuredBy (bytesOf text)).symm.trans stands
  have same : Encodes (bytesOf text) text := rfl
  obtain rfl := Option.some.inj ((Settings.fromUTF8?_eq_some_iff.2 encodes).symm.trans
    (Settings.fromUTF8?_eq_some_iff.2 same))
  exact readable

/-- A configuration with settings of its own. -/
def ownSettings : String := "output: models.ts\nno_mongoose: yes\n"

theorem readable_ownSettings : Settings.Readable ownSettings := by
  have reads : (Yaml.Document.read
      (String.ofList (Settings.plainLines ownSettings.toList))).isOk = true := by decide +kernel
  intro e h
  rw [h] at reads
  cases reads

/-- No text has a byte of eight ones. -/
theorem hasNoText_configuredBy : HasNoText (configuredBy [0xff]) none := by
  have none : (String.fromUTF8? ⟨#[0xff]⟩).isNone = true := by decide +kernel
  exact ⟨_, settingsContent?_configuredBy _, Settings.fromUTF8?_eq_none_iff.1
    (Option.isNone_iff_eq_none.1 none)⟩

end Run
end ModelTypes
