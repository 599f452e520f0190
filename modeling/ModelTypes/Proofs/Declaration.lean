import Mathlib.Data.List.Nodup
import Mathlib.Data.List.Perm.Basic
import ModelTypes.Declaration
import ModelTypes.Proofs.Compile.Exports
import ModelTypes.Proofs.Compile.Uniqueness
/-!
# The types that a declaration file exports

A declaration file is a sequence of exported types. Blocks are exported under their own names, all
other types under the name of a model or a block with one of eight suffixes. None of the suffixes
ends in another, so these never meet each other; a block can have the name of one of them. If types
are named with words, a reader of the file's lines finds just these exports.
-/

namespace ModelTypes

namespace Compile

theorem Renders.own_mem {ws ws' : Workspace} {id : SchemaId} {model : String} {p : Projection}
    {header footer : String} {blocks : List Block}
    (h : Renders ws id model p header footer blocks ws') : model ∈ blocks.map (·.name) := by
  cases h <;> simp

end Compile

namespace Declaration

open Compile
open Text (IsOneWord Inline)

/-! ## Exports of a model -/

/-- The type of a model's own objects. -/
def objectType (model : String) : Export :=
  { name := model ++ "Object", definition := .type model }

/-- A type with a member for each function that is not automatic. -/
def functionsExport (comment : List String) (name : String) (functions : List String)
    (this result : String) : Export :=
  { comment := some comment
    name
    definition := .object "" <|
      (functions.filter (!automaticFunctions.contains ·)).map fun function =>
        { key := function, type := "(this: " ++ this ++ ", ...args: any[]) => " ++ result } }

/-- The types of a model's functions. -/
def functionTypes (model : String) (functions : Functions) : List Export :=
  let query := model ++ "Query"
  let queries := model ++ "Queries"
  let document := model ++ "Document"
  let modelType := model ++ "Model"
  [{ comment := some ["Mongoose Query type", "",
       "This type is returned from query functions. For most use cases, you should not need to use"
         ++ " this type explicitly."]
     name := query
     definition := .type
       ("mongoose.Query<any, " ++ document ++ ", " ++ queries ++ "> & " ++ queries) },
   functionsExport ["Mongoose Query functions", "",
       "Query functions attached to " ++ model ++ "Schema.query."]
     queries functions.query query query,
   functionsExport ["Mongoose Method functions", "",
       "Instance methods attached to " ++ model ++ "Schema.methods."]
     (model ++ "Methods") functions.methods document "any",
   functionsExport ["Mongoose Static functions", "",
       "Statics attached to " ++ model ++ "Schema.statics."]
     (model ++ "Statics") functions.statics modelType "any",
   { comment := some ["Mongoose Model type", "",
       "Pass this type to the Mongoose Model constructor:", "```", Comment.modelExample model,
       "```"]
     name := modelType
     definition := .type
       ("mongoose.Model<" ++ document ++ ", " ++ queries ++ "> & " ++ model ++ "Statics") },
   { comment := some ["Mongoose Schema type", "",
       "Assign this type to new Mongoose Schema instances."]
     name := model ++ "Schema"
     definition := .type ("mongoose.Schema<" ++ document ++ ", " ++ modelType ++ ", " ++ model
       ++ "Methods, " ++ queries ++ ">") }]

/-- The exports of a model: the lean types of its blocks, the type of its objects and, in a file
with document types, the types of its functions and the documents of its blocks. -/
inductive ModelExports (noMongoose : Bool) (functions : Functions) (model : String)
    (blocks : List PairedBlock) : List Export → Prop
  | mk {leans documents}
      (lean : List.Forall₂ (fun block => Export.OfBlock false ⟨block.name, block.lean⟩) blocks
        leans)
      (document : List.Forall₂
        (fun block => Export.OfBlock true ⟨block.name, block.document.getD ""⟩)
        (blocks.filter (·.document.isSome)) documents) :
      ModelExports noMongoose functions model blocks (leans ++ objectType model ::
        if noMongoose then [] else functionTypes model functions ++ documents)

/-- The suffixes of the types of a model's functions. -/
def functionSuffixes : List String := ["Query", "Queries", "Methods", "Statics", "Model", "Schema"]

/-- The types named after a model and its blocks, by the name they have it from and the suffix. -/
def derived (noMongoose : Bool) (model : String) (blocks : List PairedBlock) :
    List (String × String) :=
  (model, "Object") :: if noMongoose then [] else
    functionSuffixes.map (model, ·) ++
      (blocks.filter (·.document.isSome)).map (·.name, "Document")

def derivedNames (noMongoose : Bool) (model : String) (blocks : List PairedBlock) : List String :=
  (derived noMongoose model blocks).map fun d => d.1 ++ d.2

section Sections

variable {noMongoose : Bool} {functions : Functions} {model : String} {blocks : List PairedBlock}
  {exports : List Export} {words : Prop}

theorem names_of_ofBlock {document : Bool} {text : PairedBlock → String}
    (h : List.Forall₂ (fun block => Export.OfBlock document ⟨block.name, text block⟩) blocks
      exports) : exports.map (·.name) = blocks.map (exportedName document ·.name) := by
  induction h with
  | nil => rfl
  | cons own _ ih =>
    cases own
    rw [List.map_cons, List.map_cons, ih]

theorem texts_of_ofBlock {document : Bool} {text : PairedBlock → String}
    (h : List.Forall₂ (fun block => Export.OfBlock document ⟨block.name, text block⟩) blocks
      exports) : exports.map Export.text = blocks.map text := by
  induction h with
  | nil => rfl
  | cons own _ ih => rw [List.map_cons, List.map_cons, own.text_eq, ih]

theorem ModelExports.names (h : ModelExports noMongoose functions model blocks exports) :
    exports.map (·.name) = blocks.map (·.name) ++ derivedNames noMongoose model blocks := by
  obtain ⟨lean, document⟩ := h
  have leans := names_of_ofBlock lean
  have documents := names_of_ofBlock document
  simp only [exportedName, Bool.false_eq_true, if_false, if_true] at leans documents
  unfold derivedNames derived
  cases noMongoose with
  | true => simp [leans, objectType]
  | false =>
    simp [leans, documents, objectType, functionTypes, functionsExport, functionSuffixes]

/-! ## Sections -/

theorem text_functionsExport (comment : List String) (name : String) (functions : List String)
    (this result : String) : (functionsExport comment name functions this result).text
      = Comment.ofLines comment ++ "\n" ++ functionsType name functions this result := by
  unfold functionsType functionsExport
  apply String.toList_inj.1
  simp [Export.text, Export.heading, Definition.text, Member.text, Function.comp_def]

theorem text_type (comment : List String) (name text : String) :
    Export.text { comment := some comment, name, definition := .type text }
      = Comment.ofLines comment ++ ("\nexport type " ++ name ++ " = " ++ text ++ "\n\n") := by
  apply String.toList_inj.1
  simp [Export.text, Export.heading, Definition.text]

theorem functionSection_eq (model : String) (functions : Functions) :
    functionSection model functions
      = String.join ((functionTypes model functions).map Export.text) := by
  have query : " = mongoose.Query<any, " = " = " ++ "mongoose.Query<any, " := rfl
  have modelType : " = mongoose.Model<" = " = " ++ "mongoose.Model<" := rfl
  have statics : "Statics\n\n" = "Statics" ++ "\n\n" := rfl
  have schema : "Schema = mongoose.Schema<" = "Schema" ++ " = " ++ "mongoose.Schema<" := rfl
  have last : ">\n\n" = ">" ++ "\n\n" := rfl
  simp only [functionTypes, List.map_cons, List.map_nil, String.join_cons, String.join_nil,
    text_functionsExport, text_type]
  unfold functionSection
  simp only [query, modelType, statics, schema, last, String.append_assoc, String.append_empty]

theorem documentSection_eq (blocks : List PairedBlock) : documentSection blocks
    = String.join ((blocks.filter (·.document.isSome)).map (·.document.getD "")) := by
  unfold documentSection
  induction blocks with
  | nil => rfl
  | cons block rest ih =>
    rw [List.map_cons, String.join_cons, ih]
    rcases hd : block.document with _ | text <;> simp [hd, String.join_cons]

/-- The sections of a model are its exports. -/
theorem ModelExports.text (h : ModelExports noMongoose functions model blocks exports) :
    modelSections noMongoose functions model blocks = String.join (exports.map Export.text) := by
  obtain ⟨lean, document⟩ := h
  have object : (objectType model).text
      = "export type " ++ model ++ "Object = " ++ model ++ "\n\n" := by
    apply String.toList_inj.1
    simp [objectType, Export.text, Export.heading, Definition.text]
  have leans : leanSection model blocks
      = String.join (blocks.map (·.lean)) ++ (objectType model).text := by
    rw [object, leanSection]
    simp only [String.append_assoc]
  unfold modelSections
  cases noMongoose with
  | true => simp [leans, texts_of_ofBlock lean, String.join_append]
  | false =>
    simp [leans, functionSection_eq, documentSection_eq, texts_of_ofBlock lean,
      texts_of_ofBlock document, String.join_append, String.join_cons, String.append_assoc]

/-! ## Lines of sections -/

theorem isPlain_objectType (h : IsOneWord model) : (objectType model).IsPlain where
  comment := by simp [objectType]
  name := Text.isOneWord_append.2 ⟨h, by simp [IsOneWord]⟩
  definition := h.unbroken

theorem isPlain_functionsExport {comment : List String} {name this result : String}
    (lines : ∀ line ∈ comment, '\n' ∉ line.toList) (named : IsOneWord name)
    (functions : List String) (receiver : '\n' ∉ this.toList) (returned : '\n' ∉ result.toList) :
    (functionsExport comment name functions this result).IsPlain where
  comment := by
    rintro _ ⟨⟩
    exact lines
  name := named
  definition := by
    refine ⟨.of_word (by simp [IsOneWord]), List.forall_mem_map.2 fun function _ => ?_⟩
    have aside : Text.Aside ("(this: " ++ this ++ ", ...args: any[]) => " ++ result).toList := by
      simp only [String.toList_append, List.append_assoc]
      exact Text.aside_cons (by decide)
    exact .of_aside (by simp [receiver, returned]) aside

theorem isPlain_functionTypes (h : IsOneWord model) (functions : Functions) :
    ∀ e ∈ functionTypes model functions, e.IsPlain := by
  have unbroken := h.unbroken
  have named (suffix : String) (word : IsOneWord suffix) : IsOneWord (model ++ suffix) :=
    Text.isOneWord_append.2 ⟨h, word⟩
  have written {comment : List String} {name type : String}
      (lines : ∀ line ∈ comment, '\n' ∉ line.toList) (word : IsOneWord name)
      (line : '\n' ∉ type.toList) :
      Export.IsPlain { comment := some comment, name, definition := .type type } :=
    ⟨by rintro _ ⟨⟩; exact lines, word, line⟩
  simp only [functionTypes, List.forall_mem_cons]
  refine ⟨written ?_ (named _ ?_) ?_, isPlain_functionsExport ?_ (named _ ?_) _ ?_ ?_,
    isPlain_functionsExport ?_ (named _ ?_) _ ?_ ?_,
    isPlain_functionsExport ?_ (named _ ?_) _ ?_ ?_, written ?_ (named _ ?_) ?_,
    written ?_ (named _ ?_) ?_, by simp⟩
  all_goals simp [IsOneWord, Comment.unbroken_modelExample, unbroken]

/-! ## Exports of models -/

theorem exists_exports {document : Bool} {text : PairedBlock → String}
    (h : ∀ block ∈ blocks, IsExport words document ⟨block.name, text block⟩) : ∃ exports,
      List.Forall₂ (fun block => Export.OfBlock document ⟨block.name, text block⟩) blocks exports ∧
      (words → ∀ e ∈ exports, e.IsPlain) := by
  induction blocks with
  | nil => exact ⟨[], .nil, by simp⟩
  | cons a rest ih =>
    obtain ⟨⟨e, own, plain⟩, others⟩ := List.forall_mem_cons.1 h
    obtain ⟨exports, of, plains⟩ := ih others
    exact ⟨e :: exports, .cons own of, fun hw => List.forall_mem_cons.2 ⟨plain hw, plains hw⟩⟩

theorem exists_modelExports (noMongoose : Bool) (functions : Functions)
    (written : ∀ block ∈ blocks, PairedExport words block) (own : words → IsOneWord model) :
    ∃ exports, ModelExports noMongoose functions model blocks exports ∧
      (words → ∀ e ∈ exports, e.IsPlain) := by
  have document : ∀ block ∈ blocks.filter (·.document.isSome),
      IsExport words true ⟨block.name, block.document.getD ""⟩ := fun block hb => by
    obtain ⟨hb, some⟩ := List.mem_filter.1 hb
    obtain ⟨text, ht⟩ := Option.isSome_iff_exists.1 some
    rw [ht]
    exact (written block hb).document text ht
  obtain ⟨leans, lean, leanPlain⟩ := exists_exports fun block hb => (written block hb).lean
  obtain ⟨documents, of, plain⟩ := exists_exports document
  refine ⟨_, .mk lean of, fun hw => ?_⟩
  have object := isPlain_objectType (own hw)
  have functionsPlain := isPlain_functionTypes (own hw) functions
  cases noMongoose with
  | true => simpa [or_imp, forall_and, object] using leanPlain hw
  | false =>
    simp only [Bool.false_eq_true, if_false, List.forall_mem_append, List.forall_mem_cons]
    exact ⟨leanPlain hw, object, functionsPlain, plain hw⟩

end Sections

/-! ## Compiled models -/

/-- The blocks are those of a compilation under the name. -/
def Compiled (model : String) (blocks : List PairedBlock) : Prop :=
  ∃ ws ws' id plainIds, (compile id model plainIds).on ws = (.ok blocks, ws')

/-- The blocks are those of a compilation in which types are named with words. -/
def CompiledInWords (model : String) (blocks : List PairedBlock) : Prop :=
  ∃ ws ws' id plainIds, (compile id model plainIds).on ws = (.ok blocks, ws') ∧
    InWords ws [(model, id)]

theorem Compiled.own_mem {model : String} {blocks : List PairedBlock} (h : Compiled model blocks) :
    model ∈ blocks.map (·.name) := by
  obtain ⟨ws, ws', id, plainIds, h⟩ := h
  obtain ⟨leans, ws₁, lean, completes⟩ := compile_ok h
  rw [completes.names lean]
  exact lean.own_mem

theorem Compiled.exports {model : String} {blocks : List PairedBlock} (h : Compiled model blocks)
    (noMongoose : Bool) (functions : Functions) :
    ∃ exports, ModelExports noMongoose functions model blocks exports ∧
      (CompiledInWords model blocks → ∀ e ∈ exports, e.IsPlain) := by
  have made {words : Prop} {ws ws' : Workspace} {id : SchemaId} {plainIds : Bool}
      (h : (compile id model plainIds).on ws = (.ok blocks, ws'))
      (given : words → InWords ws [(model, id)]) :=
    exists_modelExports noMongoose functions (pairedExport_of_compile given h)
      fun hw => given hw _ (.model List.mem_cons_self)
  by_cases inWords : CompiledInWords model blocks
  · obtain ⟨ws, ws', id, plainIds, h, words⟩ := id inWords
    exact made h fun _ => words
  · obtain ⟨ws, ws', id, plainIds, h⟩ := h
    exact made h fun hw => absurd hw inWords

/-! ## The file -/

/-- What a file starts with. -/
def opening (noMongoose : Bool) : String :=
  if noMongoose then fileHeader
  else fileHeader ++ "import mongoose from \"mongoose\";\n\n"
    ++ "declare module \"mongoose\" \x7b\n\n"

def closing (noMongoose : Bool) : String := if noMongoose then "" else "\x7d\n"

def blockNames (compiled : Keyed (List PairedBlock)) : List String :=
  compiled.flatMap fun m => m.2.map (·.name)

section File

variable {noMongoose : Bool} {functionsOf : String → Functions}
  {compiled : Keyed (List PairedBlock)} {exports : List (List Export)}

theorem exists_fileExports (functionsOf : String → Functions) (noMongoose : Bool)
    (models : ∀ m ∈ compiled, Compiled m.1 m.2) : ∃ exports : List (List Export),
      List.Forall₂ (fun m => ModelExports noMongoose (functionsOf m.1) m.1 m.2) compiled exports ∧
      ((∀ m ∈ compiled, CompiledInWords m.1 m.2) → ∀ e ∈ exports.flatten, e.IsPlain) := by
  induction compiled with
  | nil => exact ⟨[], .nil, by simp⟩
  | cons m rest ih =>
    obtain ⟨own, others⟩ := List.forall_mem_cons.1 models
    obtain ⟨first, of, plain⟩ := own.exports noMongoose (functionsOf m.1)
    obtain ⟨exports, all, plains⟩ := ih others
    refine ⟨first :: exports, .cons of all, fun inWords => ?_⟩
    obtain ⟨word, words⟩ := List.forall_mem_cons.1 inWords
    exact List.forall_mem_append.2 ⟨plain word, plains words⟩

section Known

variable (h : List.Forall₂ (fun m => ModelExports noMongoose (functionsOf m.1) m.1 m.2) compiled
  exports)
include h

/-- The exported names, model by model. -/
theorem names_of_modelExports : exports.flatten.map (·.name)
    = compiled.flatMap fun m => m.2.map (·.name) ++ derivedNames noMongoose m.1 m.2 := by
  induction h with
  | nil => rfl
  | cons own _ ih =>
    rw [List.flatten_cons, List.map_append, own.names, ih, List.flatMap_cons]

/-- The file is the exports of its models, between its opening and its end. -/
theorem content_of_modelExports : content compiled functionsOf noMongoose = opening noMongoose
    ++ String.join (exports.flatten.map Export.text) ++ closing noMongoose := by
  have sections : String.join (compiled.map fun m =>
      modelSections noMongoose (functionsOf m.1) m.1 m.2)
        = String.join (exports.flatten.map Export.text) := by
    induction h with
    | nil => rfl
    | cons own _ ih =>
      rw [List.map_cons, String.join_cons, own.text, ih, List.flatten_cons, List.map_append,
        String.join_append]
  unfold content opening closing
  dsimp only
  rw [sections]
  cases noMongoose <;> simp [String.append_assoc]

end Known

theorem exports_fileHeader : Text.Exports fileHeader.toList [] := by
  have join (a b c d : List Char) (h : Text.Exports (a ++ b ++ c ++ d) []) : Text.Exports
      (String.ofList a ++ String.ofList b ++ String.ofList c ++ String.ofList d).toList [] := by
    simpa using h
  exact join _ _ _ _ (.of_ended rfl rfl)

theorem exports_opening (noMongoose : Bool) : Text.Exports (opening noMongoose).toList [] := by
  unfold opening
  cases noMongoose with
  | true => exact exports_fileHeader
  | false =>
    simp only [Bool.false_eq_true, if_false, String.toList_append]
    exact (exports_fileHeader.append (.of_literal rfl rfl)).append (.of_literal rfl rfl)

/-- A reader finds the exports of the file, and nothing else. -/
theorem exportedNames_content {exports : List Export} (plain : ∀ e ∈ exports, e.IsPlain) :
    Text.exportedNames (opening noMongoose ++ String.join (exports.map Export.text)
      ++ closing noMongoose) = exports.map (·.name) := by
  have body : Text.Exports ((exports.map Export.text).flatMap String.toList)
      (exports.map (·.name)) := by
    rw [List.flatMap_map, List.map_eq_flatMap]
    exact .flatMap fun e he => (plain e he).exports
  have stop : Text.Exports (closing noMongoose).toList [] := by
    cases noMongoose
    · exact .of_literal rfl rfl
    · exact .nil
  have whole := (((exports_opening noMongoose).append body).append stop) []
  simpa [Text.exportedNames, String.toList_join] using whole

end File

/-! ## Distinct names -/

def suffixes : List String := "Object" :: "Document" :: functionSuffixes

/-- A name with one of the suffixes tells what it was made of. -/
theorem eq_of_append_suffix {a b s t : String} (hs : s ∈ suffixes) (ht : t ∈ suffixes)
    (h : a ++ s = b ++ t) : a = b ∧ s = t := by
  have apart : ∀ s ∈ suffixes, ∀ t ∈ suffixes, s.toList <:+ t.toList → s = t := by decide
  have chars : a.toList ++ s.toList = b.toList ++ t.toList := by
    simpa using congrArg String.toList h
  obtain rfl : s = t := by
    rcases List.suffix_or_suffix_of_suffix (List.suffix_append a.toList s.toList)
      (chars ▸ List.suffix_append b.toList t.toList) with hst | hts
    · exact apart s hs t ht hst
    · exact (apart t ht s hs hts).symm
  exact ⟨String.toList_inj.1 (List.append_cancel_right chars), rfl⟩

section Distinct

variable {noMongoose : Bool} {model : String} {blocks : List PairedBlock}
  {compiled : Keyed (List PairedBlock)}

theorem mem_derived {d : String × String} (h : d ∈ derived noMongoose model blocks)
    (own : model ∈ blocks.map (·.name)) : d.1 ∈ blocks.map (·.name) ∧ d.2 ∈ suffixes := by
  unfold derived at h
  rcases List.mem_cons.1 h with rfl | h
  · exact ⟨own, List.mem_cons_self⟩
  · split at h
    · cases h
    · rcases List.mem_append.1 h with h | h
      · obtain ⟨suffix, hs, rfl⟩ := List.mem_map.1 h
        exact ⟨own, List.mem_cons_of_mem _ (List.mem_cons_of_mem _ hs)⟩
      · obtain ⟨block, hb, rfl⟩ := List.mem_map.1 h
        exact ⟨List.mem_map_of_mem (List.mem_filter.1 hb).1,
          List.mem_cons_of_mem _ List.mem_cons_self⟩

theorem nodup_derived (distinct : (blocks.map (·.name)).Nodup) :
    (derived noMongoose model blocks).Nodup := by
  have documents : ((blocks.filter (·.document.isSome)).map
      fun block => (block.name, "Document")).Nodup := by
    have names : ((blocks.filter (·.document.isSome)).map (·.name)).Nodup :=
      distinct.sublist (List.filter_sublist.map _)
    have pairs := names.map (f := (·, "Document")) fun _ _ h => (Prod.mk.inj h).1
    rwa [List.map_map] at pairs
  have functions : (functionSuffixes.map (model, ·)).Nodup :=
    List.Nodup.map (fun _ _ h => (Prod.mk.inj h).2) (by decide)
  have apart : ∀ d ∈ functionSuffixes.map (model, ·), d.2 ≠ "Object" ∧ d.2 ≠ "Document" := by
    simp [functionSuffixes]
  unfold derived
  split
  · simp
  · refine List.nodup_cons.2 ⟨?_, List.nodup_append.2 ⟨functions, documents, ?_⟩⟩
    · rw [List.mem_append, not_or]
      refine ⟨fun h => (apart _ h).1 rfl, ?_⟩
      simp
    · rintro d hd _ hd' rfl
      obtain ⟨block, -, rfl⟩ := List.mem_map.1 hd'
      exact (apart _ hd).2 rfl

/-- The names that are made with suffixes are distinct. -/
theorem nodup_derivedNames (own : ∀ m ∈ compiled, m.1 ∈ m.2.map (·.name))
    (distinct : (blockNames compiled).Nodup) :
    (compiled.flatMap fun m => derivedNames noMongoose m.1 m.2).Nodup := by
  obtain ⟨within, across⟩ := List.nodup_flatMap.1 distinct
  have pairs : (compiled.flatMap fun m => derived noMongoose m.1 m.2).Nodup := by
    refine List.nodup_flatMap.2 ⟨fun m hm => nodup_derived (within m hm),
      across.imp_of_mem fun hm hm' apart d hd hd' => ?_⟩
    exact apart (mem_derived hd (own _ hm)).1 (mem_derived hd' (own _ hm')).1
  have named : (compiled.flatMap fun m => derivedNames noMongoose m.1 m.2)
      = (compiled.flatMap fun m => derived noMongoose m.1 m.2).map fun d => d.1 ++ d.2 := by
    rw [List.map_flatMap]
    rfl
  rw [named]
  refine pairs.map_on fun d hd d' hd' h => ?_
  obtain ⟨m, hm, hd⟩ := List.mem_flatMap.1 hd
  obtain ⟨m', hm', hd'⟩ := List.mem_flatMap.1 hd'
  obtain ⟨first, second⟩ := eq_of_append_suffix (mem_derived hd (own m hm)).2
    (mem_derived hd' (own m' hm')).2 h
  exact Prod.ext first second

end Distinct

/-- A file of compiled models is a sequence of exports. If the names of all blocks are distinct, the
exported names are distinct exactly if no block has the name of a type that is named after a model
or a block. If types are named with words, these names are what the lines of the file export. -/
theorem content_exports {compiled : Keyed (List PairedBlock)} (functionsOf : String → Functions)
    (noMongoose : Bool) (models : ∀ m ∈ compiled, Compiled m.1 m.2)
    (distinct : (blockNames compiled).Nodup) : ∃ exports : List (List Export),
      List.Forall₂ (fun m => ModelExports noMongoose (functionsOf m.1) m.1 m.2) compiled exports ∧
      content compiled functionsOf noMongoose = opening noMongoose
        ++ String.join (exports.flatten.map Export.text) ++ closing noMongoose ∧
      ((exports.flatten.map (·.name)).Nodup ↔
        ∀ name ∈ blockNames compiled, ∀ m ∈ compiled, name ∉ derivedNames noMongoose m.1 m.2) ∧
      ((∀ m ∈ compiled, CompiledInWords m.1 m.2) →
        Text.exportedNames (content compiled functionsOf noMongoose)
          = exports.flatten.map (·.name)) := by
  obtain ⟨exports, of, plain⟩ := exists_fileExports functionsOf noMongoose models
  have file := content_of_modelExports of
  refine ⟨exports, of, file, ?_, fun words => file ▸ exportedNames_content (plain words)⟩
  have derived : (compiled.flatMap fun m => derivedNames noMongoose m.1 m.2).Nodup :=
    nodup_derivedNames (fun m hm => (models m hm).own_mem) distinct
  have parts : (blockNames compiled ++ compiled.flatMap fun m =>
      derivedNames noMongoose m.1 m.2).Perm (exports.flatten.map (·.name)) := by
    rw [names_of_modelExports of]
    exact List.flatMap_append_perm compiled _ _
  rw [← parts.nodup_iff, List.nodup_append]
  constructor
  · rintro ⟨-, -, apart⟩ name hn m hm hd
    exact apart name hn name (List.mem_flatMap.2 ⟨m, hm, hd⟩) rfl
  · intro apart
    refine ⟨distinct, derived, ?_⟩
    rintro name hn _ hd rfl
    obtain ⟨m, hm, hd⟩ := List.mem_flatMap.1 hd
    exact apart name hn m hm hd

/-- A schema with a child at a path. -/
def around (path : String) : Workspace where
  schemas := [{ tree := [("name", .str "String")] },
    { tree := [(path, .schema 0)], children := [{ path, schema := 0 }] }]

theorem inWords_around {path : String} (tidy : ∀ x, ((around path).schema x).Tidy)
    (word : IsOneWord path) (dotFree : Path.DotFree path) (other : path ≠ "ref") :
    InWords (around path) [("User", 1)] := by
  have plain {key : String} (dotFree : Path.DotFree key) (other : key ≠ "ref") :
      key ≠ "ref" ∧ "ref" ∉ Path.segments key := by
    rw [Path.segments_of_dotFree dotFree]
    exact ⟨other, by simpa using other.symm⟩
  refine inWords_of_tidy (fun x _ => tidy x) (by simp [IsOneWord]) (fun x _ => ?_) fun x _ => ?_
  · refine Workspace.forall_schema (P := fun schema => ∀ b ∈ schema.children,
      ∀ key ∈ Path.segments b.path, key ≠ "ref" ∧ IsOneWord key) ?_ (by simp) x
    simp [around, Path.segments_of_dotFree dotFree, word, other]
  · refine Workspace.forall_schema (P := fun schema => (around path).store.NamedBy
      (fun path => path ≠ "ref" ∧ "ref" ∉ Path.segments path) IsOneWord (.dict schema.tree)) ?_
      Store.entrywise_namedBy.nil x
    simp only [around, List.forall_mem_cons, Store.entrywise_namedBy.dict_iff]
    exact ⟨⟨⟨plain (by decide) (by decide), Store.namedBy_leaf rfl rfl rfl⟩, by simp⟩,
      ⟨⟨plain dotFree other, Store.namedBy_leaf rfl rfl rfl⟩, by simp⟩, by simp⟩

theorem content_exports_around : ∃ paired ws', ∃ exports : List (List Export),
    (compile 1 "User").on (around "friend") = (.ok paired, ws') ∧
      List.Forall₂ (fun m => ModelExports false { methods := ["greet"] } m.1 m.2)
        [("User", paired)] exports ∧
      Text.exportedNames (content [("User", paired)] (fun _ => { methods := ["greet"] }) false)
        = ["UserFriend", "User", "UserObject", "UserQuery", "UserQueries", "UserMethods",
          "UserStatics", "UserModel", "UserSchema", "UserFriendDocument", "UserDocument"] ∧
      (exports.flatten.map (·.name)).Nodup := by
  have names : ((compile 1 "User").on (around "friend")).1.toOption.map
      (fun paired => (paired.map (·.name), derivedNames false "User" paired))
      = some (["UserFriend", "User"], ["UserObject", "UserQuery", "UserQueries", "UserMethods",
        "UserStatics", "UserModel", "UserSchema", "UserFriendDocument", "UserDocument"]) := by
    decide +kernel
  obtain ⟨paired, ws', h, names⟩ := ok_of_map_eq names
  obtain ⟨own, derived⟩ := Prod.mk.inj names
  have words : InWords (around "friend") [("User", 1)] :=
    inWords_around (Workspace.forall_schema (by decide +kernel) (by decide)) (by simp [IsOneWord])
      (by decide) (by decide)
  have models : ∀ m ∈ [("User", paired)], Compiled m.1 m.2 :=
    List.forall_mem_singleton.2 ⟨_, _, _, _, h⟩
  have blocks : blockNames [("User", paired)] = ["UserFriend", "User"] := by
    simp [blockNames, own]
  obtain ⟨exports, of, -, nodup, read⟩ :=
    content_exports (fun _ => { methods := ["greet"] }) false models (by simp [blocks])
  have all := @names_of_modelExports false (fun _ => { methods := ["greet"] }) _ exports of
  refine ⟨paired, ws', exports, h, of, ?_, nodup.2 (by simp [blocks, derived])⟩
  rw [read (List.forall_mem_singleton.2 ⟨_, _, _, _, h, words⟩), all]
  simp [own, derived]

/-- A child at the path `object` has the name of the type of its model's objects, with and without
document types, so the file exports this name twice. -/
theorem exists_collision (noMongoose : Bool) (functionsOf : String → Functions) :
    ∃ compiled : Keyed (List PairedBlock), (∀ m ∈ compiled, Compiled m.1 m.2) ∧
      (blockNames compiled).Nodup ∧
      ¬ (Text.exportedNames (content compiled functionsOf noMongoose)).Nodup := by
  have names : ((compile 1 "User" noMongoose).on (around "object")).1.toOption.map
      (·.map (·.name)) = some ["UserObject", "User"] := by
    cases noMongoose <;> decide +kernel
  obtain ⟨paired, ws', h, names⟩ := ok_of_map_eq names
  have words : InWords (around "object") [("User", 1)] :=
    inWords_around (Workspace.forall_schema (by decide +kernel) (by decide)) (by simp [IsOneWord])
      (by decide) (by decide)
  have models : ∀ m ∈ [("User", paired)], Compiled m.1 m.2 :=
    List.forall_mem_singleton.2 ⟨_, _, _, _, h⟩
  obtain ⟨exports, of, plain⟩ := exists_fileExports functionsOf noMongoose models
  have read : Text.exportedNames (content [("User", paired)] functionsOf noMongoose)
      = ["UserObject", "User"] ++ derivedNames noMongoose "User" paired := by
    rw [content_of_modelExports of, exportedNames_content
      (plain (List.forall_mem_singleton.2 ⟨_, _, _, _, h, words⟩)), names_of_modelExports of]
    simp [names]
  refine ⟨[("User", paired)], models, by simp [blockNames, names], fun nodup => ?_⟩
  rw [read] at nodup
  exact (List.nodup_append.1 nodup).2.2 "UserObject" (by simp) "UserObject"
    (by simp [derivedNames, derived]) rfl

theorem content_exports_collide : ¬ ∀ (noMongoose : Bool) (compiled : Keyed (List PairedBlock))
    (functionsOf : String → Functions), (∀ m ∈ compiled, Compiled m.1 m.2) →
      (blockNames compiled).Nodup →
        (Text.exportedNames (content compiled functionsOf noMongoose)).Nodup := by
  intro distinct
  obtain ⟨compiled, models, names, collides⟩ := exists_collision true fun _ => {}
  exact collides (distinct true compiled _ models names)

end Declaration
end ModelTypes
