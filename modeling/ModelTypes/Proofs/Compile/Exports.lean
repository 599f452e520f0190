import ModelTypes.Proofs.Compile.Given
import ModelTypes.Proofs.Compile.Modes
import ModelTypes.Proofs.Field.Exports
/-!
# Blocks are exports

A block is the export of an object type under its name: a comment, what a document extends, and a
member for each field that is shown (`Export.OfBlock`). If the names that types are given are words,
no other line of it exports anything (`Export.IsPlain.exports`).
-/

namespace ModelTypes

open Text (IsOneWord Inline Aside Exports)

/-! ## Exported types -/

/-- A property of an object type. -/
structure Member where
  key : String
  type : String
  optional : Bool := false

def Member.text (m : Member) : String := Line.entry m.key m.type m.optional

/-- What a type is: a type expression, or an object on top of a base. -/
inductive Definition
  | type (text : String)
  | object (base : String) (members : List Member)

def Definition.text : Definition → String
  | .type text => text ++ "\n\n"
  | .object base members =>
    base ++ "\x7b\n" ++ String.join (members.map Member.text) ++ "\x7d\n\n"

/-- An exported type, with the lines of the comment above it. -/
structure Export where
  comment : Option (List String) := none
  name : String
  definition : Definition

/-- What stands above an export. -/
def Export.heading (e : Export) : String :=
  match e.comment with
  | some lines => Comment.ofLines lines ++ "\n"
  | none => ""

def Export.text (e : Export) : String :=
  e.heading ++ "export type " ++ e.name ++ " = " ++ e.definition.text

/-! ## The lines of an export -/

/-- A definition stands on one line but for its objects. -/
def Definition.IsPlain : Definition → Prop
  | .type text => '\n' ∉ text.toList
  | .object base members => Inline base.toList ∧ ∀ m ∈ members, Inline m.type.toList

/-- No part of an export breaks a line. -/
structure Export.IsPlain (e : Export) : Prop where
  comment : ∀ lines ∈ e.comment, ∀ line ∈ lines, '\n' ∉ line.toList
  name : IsOneWord e.name
  definition : e.definition.IsPlain

theorem Comment.exports_textLine {line : String} (h : '\n' ∉ line.toList) :
    Exports (Comment.textLine line).toList [] := by
  have row {t : List Char} (unbroken : '\n' ∉ t) : Exports (' ' :: t ++ ['\n']) [] := by
    have aside : Aside (' ' :: t) := Text.aside_cons (by decide)
    have leads := aside.leads (by simpa using unbroken)
    simpa using leads.line (t := []) (by simp)
  unfold Comment.textLine
  split
  · exact row (t := ['*']) (by decide)
  · simpa using row (t := '*' :: ' ' :: line.toList) (by simpa using h)

theorem Comment.unbroken_modelExample {model : String} (h : '\n' ∉ model.toList) :
    '\n' ∉ (Comment.modelExample model).toList := by
  unfold Comment.modelExample
  simp only [Text.unbroken_append]
  refine ⟨⟨⟨⟨⟨⟨⟨⟨⟨⟨?_, h⟩, ?_⟩, h⟩, ?_⟩, h⟩, ?_⟩, h⟩, ?_⟩, h⟩, ?_⟩
  all_goals exact Text.unbroken_ofList (by decide)

/-- The lines of a comment export nothing. -/
theorem Comment.exports_ofLines {lines : List String} (h : ∀ line ∈ lines, '\n' ∉ line.toList) :
    Exports (Comment.ofLines lines ++ "\n").toList [] := by
  have start : Exports "/**\n".toList [] := .of_literal rfl rfl
  have body : Exports ((lines.map Comment.textLine).flatMap String.toList) [] := by
    rw [List.flatMap_map]
    exact .silent fun line hl => Comment.exports_textLine (h line hl)
  have stop : Exports " */\n".toList [] := .of_literal rfl rfl
  have whole := (start.append body).append stop
  simpa [Comment.ofLines, String.toList_join] using whole

/-- What is exported is told before the definition. -/
theorem Definition.IsPlain.exports {d : Definition} (h : d.IsPlain) {lead : List Char}
    {n : Option String} (leads : Text.Leads lead n) :
    Exports (lead ++ d.text.toList) n.toList := by
  cases d with
  | type text =>
    have unbroken : '\n' ∉ text.toList := h
    have blank : Exports ['\n'] [] := .of_ended rfl rfl
    have line := (leads.line unbroken).append blank
    simpa [Definition.text] using line
  | object base members =>
    obtain ⟨inline, types⟩ : Inline base.toList ∧ ∀ m ∈ members, Inline m.type.toList := h
    have opening := inline.exports leads (t := ['\x7b']) (by decide)
    have body : Exports ((members.map Member.text).flatMap String.toList) [] := by
      rw [List.flatMap_map]
      exact .silent fun m hm => Line.exports_entry (types m hm)
    have close : Exports "\x7d\n\n".toList [] := .of_literal rfl rfl
    have whole := (opening.append body).append close
    simpa [Definition.text, String.toList_join] using whole

/-- An export exports its name and nothing else. -/
theorem Export.IsPlain.exports {e : Export} (h : e.IsPlain) : Exports e.text.toList [e.name] := by
  have above : Exports e.heading.toList [] := by
    unfold Export.heading
    split
    · exact Comment.exports_ofLines (h.comment _ ‹_›)
    · exact .nil
  have all := above.append (h.definition.exports h.name.leads)
  simp only [Export.text, String.toList_append, List.append_assoc, List.nil_append,
    Option.toList_some] at all ⊢
  exact all

/-! ## Members -/

namespace Render

variable {s : Store} {p : Projection} {fields : List Field} {members : List Member}

/-- The members of an object: one for each field that is shown, in order. -/
inductive Members (s : Store) (p : Projection) : List Field → List Member → Prop
  | nil : Members s p [] []
  | shown {field rest type members} : type? s p field = .ok (some type) →
      Members s p rest members →
      Members s p (field :: rest) (⟨field.key, type, field.optional⟩ :: members)
  | hidden {field rest members} : type? s p field = .ok none → Members s p rest members →
      Members s p (field :: rest) members

theorem exists_members_of_lines {text : String} (h : lines s p fields = .ok text) :
    ∃ members, Members s p fields members ∧ text = String.join (members.map Member.text) := by
  induction fields generalizing text with
  | nil =>
    cases h
    exact ⟨[], .nil, rfl⟩
  | cons field rest ih =>
    obtain ⟨type, ht, h⟩ := Except.bind_eq_ok_iff.1 h
    obtain ⟨others, ho, h⟩ := Except.bind_eq_ok_iff.1 h
    cases h
    obtain ⟨members, below, rfl⟩ := ih ho
    cases type with
    | none => exact ⟨members, .hidden ht below, by simp⟩
    | some type => exact ⟨_, .shown ht below, by simp [Member.text, String.join_cons]⟩

theorem Members.inline (h : Members s p fields members)
    (tells : ∀ field ∈ fields, field.Tells s wordSorts) :
    ∀ m ∈ members, Inline m.type.toList := by
  induction h with
  | nil => simp
  | shown ht _ ih =>
    obtain ⟨own, others⟩ := List.forall_mem_cons.1 tells
    exact List.forall_mem_cons.2 ⟨inline_type _ own ht, ih others⟩
  | hidden _ _ ih => exact ih (List.forall_mem_cons.1 tells).2

end Render

/-- The name that a block of a pass exports. -/
def exportedName (document : Bool) (name : String) : String :=
  if document then name ++ "Document" else name

/-- The export that a block is: an object type under a comment, with the members of fields that are
shown. Only documents extend something. -/
inductive Export.OfBlock (document : Bool) (block : Block) : Export → Prop
  | mk {lines base s p fields members} (shown : Render.Members s p fields members)
      (mode : p.document = document) (alone : document = false → base = "")
      (text : block.text = Export.text ⟨some lines, exportedName document block.name,
        .object base members⟩) :
      OfBlock document block
        ⟨some lines, exportedName document block.name, .object base members⟩

theorem Export.OfBlock.text_eq {document : Bool} {block : Block} {e : Export}
    (h : e.OfBlock document block) : e.text = block.text := by
  cases h
  exact Eq.symm ‹_›

namespace Compile

/-! ## Names that types are given -/

/-- Names that blocks and references to types have or are made of: those of the models, segments of
the paths of children, names of children whose references stand in a tree from the beginning, and
names of the models that are referred to. -/
inductive Titles (ws : Workspace) (models : Keyed SchemaId) : String → Prop where
  | model {m : String × SchemaId} : m ∈ models → Titles ws models m.1
  | step {x : SchemaId} {b : ChildBinding} {key : String} : Involved ws models x →
      b ∈ (ws.schema x).children → key ∈ Path.segments b.path → Titles ws models key
  | child {x : SchemaId} {name : String} : Involved ws models x →
      ws.store.HasChild (.dict (ws.schema x).tree) name → Titles ws models name
  | reference {name : String} : Refers ws models name → Titles ws models name

/-- All names that types are given are words. -/
def InWords (ws : Workspace) (models : Keyed SchemaId) : Prop :=
  ∀ name, Titles ws models name → IsOneWord name

variable {ws w w' : Workspace} {models : Keyed SchemaId} {x : SchemaId} {model name path : String}
  {p q : Projection} {words : Prop}

section Words

variable (given : words → InWords ws models)
include given

/-- Names of blocks are words, if names that types are given are. -/
theorem wordSorts_sorts :
    Sorts ws models (fun m => words → IsOneWord m) (fun m => words → IsOneWord m) where
  below _ involved _ hb _ _ own h :=
    Text.isOneWord_subdocumentName (own h) fun _ hk => given h _ (.step involved hb hk)
  stood _ involved _ there h := given h _ (.child involved there)
  hoisted _ own := own

variable (clean : Clean ws models (fun m => words → IsOneWord m) w)
  (involved : Involved ws models x) (own : words → IsOneWord model)
include clean involved own

theorem tells_of_declared {top : String × Value} {field : Field}
    (mem : top ∈ declaredTree w (x, model))
    (read : Field.describe ws.store top.1 top.2 = .ok (some field)) (h : words) :
    field.Tells ws.store wordSorts := by
  refine Field.tells_of_describeWithin read fun f below => ?_
  have declares : Declares ws models x f := ⟨w, model, top, clean.filled, mem, below⟩
  have child := (named_of_declared (wordSorts_sorts given) clean involved own mem below).2
  exact
    { key := trivial
      child := fun v e stands he => child v e stands he h
      reference := fun ref model offers truthy hm =>
        Field.isOneWord_referenceName (fun name text => given h _ (.reference
          ⟨x, f, involved, declares, ref, offers, truthy, text⟩)) hm
      enumerated := fun _ _ => trivial }

omit own

/-- The type of an identifier. -/
theorem inline_idType {raw : Option Value} {type : String}
    (stored : ∀ v ∈ raw, ("_id", v) ∈ (w.schema x).tree) (h : idType ws.store p raw = .ok type)
    (hw : words) : Inline type.toList := by
  have never : Inline "never".toList := .of_word (by simp [IsOneWord])
  cases raw with
  | none =>
    cases h
    exact never
  | some v =>
    obtain ⟨type?, ht, h⟩ := Except.bind_eq_ok_iff.1 h
    cases h
    obtain ⟨field?, hd, ht⟩ := Except.bind_eq_ok_iff.1 ht
    cases field? with
    | none =>
      cases ht
      exact never
    | some field =>
      have mem : ("_id", v) ∈ declaredTree w (x, "") := by
        simpa [declaredTree, blockTree] using stored v rfl
      have tells := tells_of_declared given clean involved (fun _ => by simp [IsOneWord]) mem
        (mapError_eq_ok_iff.1 hd) hw
      have typed := mapError_eq_ok_iff.1 ht
      cases type? with
      | none => exact never
      | some type => exact Render.inline_type field tells typed

end Words

/-- Tidy schemas refer to models only by a key that is written. -/
theorem written_of_refers (tidy : ∀ x, Involved ws models x → (ws.schema x).Tidy)
    (h : Refers ws models name) : ∃ x, Involved ws models x ∧ Written ws x "ref" := by
  obtain ⟨x, f, involved, ⟨w, model, top, filled, mem, below⟩, ref, ⟨options, inside, get⟩, -⟩ := h
  obtain rfl := filled.eq_of_tidy tidy
  have sorts : Sorts w models (fun _ => True) (fun _ => True) :=
    ⟨fun _ _ _ _ _ _ _ => trivial, fun _ _ _ _ => trivial, fun _ _ => trivial⟩
  obtain ⟨key, named⟩ :=
    (namedBy_declaredTree sorts sorts.clean involved trivial).entry rfl mem
  obtain ⟨-, named⟩ := namedBy_of_encloses below key named
  exact ⟨x, involved, ((namedBy_of_holds inside named).entry rfl (Keyed.mem_of_get? get)).1⟩

/-- Without references, types are named with words if models and children are. -/
theorem inWords_of_tidy (tidy : ∀ x, Involved ws models x → (ws.schema x).Tidy)
    (root : ∀ m ∈ models, IsOneWord m.1)
    (paths : ∀ x, Involved ws models x → ∀ b ∈ (ws.schema x).children,
      ∀ key ∈ Path.segments b.path, key ≠ "ref" ∧ IsOneWord key)
    (trees : ∀ x, Involved ws models x →
      ws.store.NamedBy (fun path => path ≠ "ref" ∧ "ref" ∉ Path.segments path) IsOneWord
        (.dict (ws.schema x).tree)) :
    InWords ws models := by
  rintro name (hm | ⟨involved, hb, hk⟩ | ⟨involved, there⟩ | refers)
  · exact root _ hm
  · exact (paths _ involved _ hb _ hk).2
  · exact (trees _ involved).children _ there
  · obtain ⟨x, involved, ⟨path, there, rfl | part⟩ | ⟨b, hb, part⟩⟩ := written_of_refers tidy refers
    · exact absurd rfl ((trees x involved).keys _ there).1
    · exact absurd part ((trees x involved).keys _ there).2
    · exact absurd rfl (paths x involved b hb _ part).1

/-! ## Openings -/

/-- A comment, whose lines stay whole if names are words. -/
def IsComment (words : Prop) (docs : String) : Prop :=
  ∃ lines, docs = Comment.ofLines lines ∧ (words → ∀ line ∈ lines, '\n' ∉ line.toList)

/-- A header that starts the export of a block. -/
def Starts (words : Prop) (document : Bool) (name header : String) : Prop :=
  ∃ lines base, header = Comment.ofLines lines ++ "\nexport type " ++ exportedName document name
      ++ " = " ++ base ++ "\x7b\n" ∧ (document = false → base = "") ∧
    (words → (∀ line ∈ lines, '\n' ∉ line.toList) ∧ Inline base.toList)

section Openings

variable (own : words → IsOneWord model)
include own

theorem isComment_lean (named : words → IsOneWord name) :
    IsComment words (Comment.lean model name) := by
  refine ⟨_, rfl, fun h => ?_⟩
  have whole := (own h).unbroken
  have lowered := (Text.isOneWord_lowerFirst (own h)).unbroken
  have called : '\n' ∉ (if name == "" then model else name).toList := by
    split
    · exact whole
    · exact (named h).unbroken
  simp only [List.forall_mem_cons, Text.unbroken_append]
  refine ⟨⟨⟨?_, called⟩, ?_⟩, ?_, ⟨⟨?_, whole⟩, ?_⟩, ?_,
    ⟨⟨⟨⟨?_, lowered⟩, ?_⟩, lowered⟩, ?_⟩, ?_, by simp⟩
  all_goals exact Text.unbroken_ofList (by decide)

theorem isComment_document : IsComment words (Comment.document model) := by
  refine ⟨_, rfl, fun h => ?_⟩
  simp only [List.forall_mem_cons]
  refine ⟨?_, ?_, ?_, ?_, Comment.unbroken_modelExample (own h).unbroken, ?_, by simp⟩
  all_goals exact Text.unbroken_ofList (by decide)

theorem isComment_subdocument (given : words → IsOneWord path) :
    IsComment words (Comment.subdocument model path) := by
  refine ⟨_, rfl, fun h => ?_⟩
  simp only [List.forall_mem_cons, Text.unbroken_append]
  refine ⟨?_, ?_, ⟨⟨⟨⟨?_, (own h).unbroken⟩, ?_⟩, (given h).unbroken⟩, ?_⟩, by simp⟩
  all_goals exact Text.unbroken_ofList (by decide)

end Openings

theorem starts_leanHeader {docs : String} (h : IsComment words docs) (name : String) :
    Starts words false name (Comment.leanHeader docs name) := by
  obtain ⟨lines, rfl, unbroken⟩ := h
  exact ⟨lines, "", by simp [Comment.leanHeader, exportedName, String.append_assoc], fun _ => rfl,
    fun h => ⟨unbroken h, .of_word (by simp [IsOneWord])⟩⟩

theorem starts_documentHeader {docs base : String} (h : IsComment words docs) (name : String)
    (inline : words → Inline (base ++ " & ").toList) :
    Starts words true name (Comment.documentHeader docs name base) := by
  obtain ⟨lines, rfl, unbroken⟩ := h
  exact ⟨lines, base ++ " & ", by simp [Comment.documentHeader, exportedName, String.append_assoc],
    by simp, fun h => ⟨unbroken h, inline h⟩⟩

/-- What a document extends names the type of its identifier. -/
theorem inline_base {type t : String} (h : Inline type.toList) (unbroken : '\n' ∉ t.toList) :
    Inline ("mongoose.Document<" ++ type ++ t).toList := by
  rw [String.toList_append, String.toList_append]
  exact h.between (by decide) unbroken (.inl (Text.aside_cons (by decide)))

section Headers

variable (given : words → InWords ws models)
  (clean : Clean ws models (fun m => words → IsOneWord m) w)
include given clean

theorem starts_childHeader {b : ChildBinding} {parent header : String}
    (involved : Involved ws models x) (hb : b ∈ (ws.schema x).children)
    (own : words → IsOneWord parent) (named : words → IsOneWord name)
    (h : childHeader w parent b name q = .ok header) : Starts words q.document name header := by
  unfold childHeader at h
  split at h
  case isTrue hd =>
    rw [show q.document = false by simpa using hd, ← Except.ok.inj h]
    exact starts_leanHeader (isComment_lean own named) _
  case isFalse hd =>
    rw [show q.document = true by simpa using hd]
    split at h
    case isTrue =>
      rw [← Except.ok.inj h]
      refine starts_documentHeader (isComment_subdocument own fun hw => ?_) _ fun _ => ?_
      · exact Text.isOneWord_path fun _ hk => given hw _ (.step involved hb hk)
      · exact .of_aside (by decide) (Text.aside_cons (by decide))
    case isFalse =>
      obtain ⟨id, hid, h⟩ := Except.bind_eq_ok_iff.1 h
      rw [← Except.ok.inj h]
      refine starts_documentHeader (isComment_document own) _ fun hw => ?_
      rw [clean.filled.sameButTrees.store] at hid
      have type : Inline id.toList :=
        inline_idType given clean (involved.below hb) (fun v hv => ?_) hid hw
      · simpa [String.append_assoc] using inline_base (t := "> & ") type (by decide)
      · split at hv
        · cases hv
        · exact Keyed.mem_of_get? hv

theorem starts_documentOpening {base : String} (involved : Involved ws models x)
    (own : words → IsOneWord model) (h : documentBase w x model p = .ok base) :
    Starts words true model (documentOpening model base) := by
  obtain ⟨id, hid, h⟩ := Except.bind_eq_ok_iff.1 h
  cases h
  refine starts_documentHeader (isComment_document own) _ fun hw => ?_
  rw [clean.filled.sameButTrees.store] at hid
  have type := inline_idType given clean involved (fun v hv => Keyed.mem_of_get? hv) hid hw
  have unbroken :
      '\n' ∉ (", " ++ model ++ "Queries> & " ++ model ++ "Methods" ++ " & ").toList := by
    simp [(own hw).unbroken]
  simpa [String.append_assoc] using inline_base type unbroken

end Headers

/-! ## Blocks -/

theorem isOneWord_exportedName {document : Bool} (h : IsOneWord name) :
    IsOneWord (exportedName document name) := by
  unfold exportedName
  split
  · exact Text.isOneWord_append.2 ⟨h, by simp [IsOneWord]⟩
  · exact h

/-- A block is an export, whose lines export its name only if names are words. -/
def IsExport (words : Prop) (document : Bool) (block : Block) : Prop :=
  ∃ e, Export.OfBlock document block e ∧ (words → e.IsPlain)

theorem isExport_of_lines {header body : String} {fields : List Field}
    (lines : Render.lines ws.store p fields = .ok body) (h : Starts words p.document name header)
    (named : words → IsOneWord name)
    (tells : words → ∀ field ∈ fields, field.Tells ws.store wordSorts) :
    IsExport words p.document ⟨name, header ++ body ++ Comment.blockFooter⟩ := by
  obtain ⟨comment, base, rfl, alone, inline⟩ := h
  obtain ⟨members, shown, rfl⟩ := Render.exists_members_of_lines lines
  refine ⟨⟨some comment, exportedName p.document name, .object base members⟩,
    .mk shown rfl alone ?_, fun hw => ⟨?_, ?_, ?_⟩⟩
  · have line : "\nexport type " = "\n" ++ "export type " := rfl
    simp [Export.text, Export.heading, Definition.text, Comment.blockFooter, line,
      String.append_assoc]
  · rintro _ ⟨⟩
    exact (inline hw).1
  · exact isOneWord_exportedName (named hw)
  · exact ⟨(inline hw).2, shown.inline (tells hw)⟩

theorem writesGood_isExport (given : words → InWords ws models) (q : Projection) :
    WritesGood ws models (fun m => words → IsOneWord m) (fun m => words → IsOneWord m) q
      (Starts words q.document) (IsExport words q.document) where
  opens clean involved hb named own opening := by
    have called := (wordSorts_sorts given).below _ involved _ hb _ named own
    have starts := starts_childHeader given clean involved hb own called opening
    exact starts
  writes clean involved own starts text := by
    obtain ⟨fields, declared, lines⟩ := bodyText_ok_iff.1 text
    have tells (hw : words) : ∀ field ∈ fields, field.Tells ws.store wordSorts := fun field hf => by
      obtain ⟨top, mem, read⟩ := (Except.filterMapM_ok declared).2 field hf
      exact tells_of_declared given clean involved own mem read hw
    have written := isExport_of_lines lines starts own tells
    exact written

/-- The parts of a block are exports. -/
structure PairedExport (words : Prop) (block : PairedBlock) : Prop where
  lean : IsExport words false ⟨block.name, block.lean⟩
  document : ∀ text ∈ block.document, IsExport words true ⟨block.name, text⟩

theorem pairedExport_zipWith {leans documents : List Block}
    (names : leans.map (·.name) = documents.map (·.name))
    (lean : ∀ block ∈ leans, IsExport words false block)
    (document : ∀ block ∈ documents, IsExport words true block) :
    ∀ block ∈ leans.zipWith pair documents, PairedExport words block := by
  intro block hb
  obtain ⟨i, hi⟩ := List.getElem?_of_mem hb
  obtain ⟨l, d, hl, hd, rfl⟩ := List.getElem?_zipWith_eq_some.1 hi
  have same : l.name = d.name := by
    have at_i := congrArg (·[i]?) names
    simpa [hl, hd] using at_i
  refine ⟨lean l (List.mem_of_getElem? hl), fun text ht => ?_⟩
  obtain rfl := Option.some.inj ht
  show IsExport words true ⟨l.name, d.text⟩
  rw [same]
  exact document d (List.mem_of_getElem? hd)

/-- All blocks of a compilation are exports. -/
theorem pairedExport_of_compile {id : SchemaId} {plainIds : Bool} {paired : List PairedBlock}
    (given : words → InWords ws [(model, id)])
    (h : (compile id model plainIds).on ws = (.ok paired, ws')) :
    ∀ block ∈ paired, PairedExport words block := by
  have own (hw : words) : IsOneWord model := given hw _ (.model List.mem_cons_self)
  have involved : Involved ws [(model, id)] id := ⟨_, List.mem_cons_self, .refl⟩
  have sorts := wordSorts_sorts given
  have opened : Starts words false model (leanOpening model) :=
    starts_leanHeader (isComment_lean own fun _ => by simp [IsOneWord]) model
  have leans := writesGood_isExport given { document := false, plainIds }
  cases plainIds with
  | true =>
    obtain ⟨blocks, hl, rfl⟩ := compile_plain_ok_iff.1 h
    obtain ⟨-, lean⟩ := leans.renderBlocks sorts involved sorts.clean own opened hl
    exact List.forall_mem_map.2 fun block hb => ⟨lean block hb, by simp [unpaired]⟩
  | false =>
    obtain ⟨blocks, ws₁, base, documents, hl, hb, hd, rfl⟩ := compile_paired_ok_iff.1 h
    obtain ⟨clean, lean⟩ := leans.renderBlocks sorts involved sorts.clean own opened hl
    have opened' := starts_documentOpening given clean involved own hb
    obtain ⟨-, document⟩ := (writesGood_isExport given { document := true }).renderBlocks sorts
      involved clean own opened' hd
    have first := renderBlocks_ok hl
    have names := first.names_eq first.sameButTrees (renderBlocks_ok hd)
    exact pairedExport_zipWith names lean document

end Compile
end ModelTypes
