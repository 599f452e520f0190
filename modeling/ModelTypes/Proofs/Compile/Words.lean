import ModelTypes.Declaration
import ModelTypes.Proofs.Compile.Given
import ModelTypes.Proofs.Field.Words
/-!
# Words in the declaration file

All words of a file without document types are fixed or come from names that the definitions of its
models give (`Gives`). The fixed ones do not hold the library's name, and no joint makes it. So if
the file holds it, a given name does, in some letter case.
-/

namespace ModelTypes.Compile

open Relation
open Naming (FreeName)
open Text (Free Sealed)

/-! ## Given names -/

section Given

variable (ws : Workspace) (models : Keyed SchemaId)

/-- Names that the definitions of models give: those of the models, keys of fields as they are
written and on the paths of children, names that references have, to models or to children whose
references stand in a tree from the beginning, and texts that are enumerated. -/
inductive Gives : String → Prop where
  | model {m : String × SchemaId} : m ∈ models → Gives m.1
  | key {x : SchemaId} {f : String × Value} {key : String} : Involved ws models x →
      Declares ws models x f → ws.store.HasKey (.dict (ws.schema x).tree) key →
      (f.1 = key ∨ f.1 ∈ Path.segments key) → Gives f.1
  | step {x : SchemaId} {b : ChildBinding} {key : String} : Involved ws models x →
      b ∈ (ws.schema x).children → key ∈ Path.segments b.path → Gives key
  | child {x : SchemaId} {name : String} : Involved ws models x →
      ws.store.HasChild (.dict (ws.schema x).tree) name → Gives name
  | reference {name : String} : Refers ws models name → Gives name
  | enumerated {x : SchemaId} {f : String × Value} {text : String} : Involved ws models x →
      Declares ws models x f → Field.Enumerates ws.store f.2 text → Gives text

/-- No given name holds the library's name in any letter case, and references hold no
apostrophe. -/
structure GivesFree : Prop where
  free : ∀ name, Gives ws models name → Free (Text.lowerString name).toList
  whole : ∀ name, Refers ws models name → '\'' ∉ name.toList

end Given

variable {ws w w' : Workspace} {models : Keyed SchemaId} {x : SchemaId} {model : String}
  {p : Projection}

namespace GivesFree

variable (given : GivesFree ws models)
include given

theorem name {name : String} (h : Gives ws models name) : Free name.toList :=
  Text.free_of_lower (by simpa [Text.lowerString] using given.free name h)

theorem freeName {m : String × SchemaId} (h : m ∈ models) : FreeName m.1 :=
  Naming.freeName_of_lower (given.free _ (.model h))

/-- Names of blocks are free in both letter cases of their first letter. -/
theorem sorts : Sorts ws models FreeName (Free ·.toList) where
  below _ involved _ hb _ named free := free.subdocument named fun word hw => by
    simpa using given.name (.step involved hb (List.mem_map_of_mem hw))
  stood _ involved _ h := given.name (.child involved h)
  hoisted _ free := free.free

end GivesFree

/-! ## Bodies -/

section Bodies

variable (given : GivesFree ws models) (clean : Clean ws models (Free ·.toList) w)
  (involved : Involved ws models x) (free : FreeName model)
include given clean involved free

theorem definesFree_of_declared {top f : String × Value} (mem : top ∈ declaredTree w (x, model))
    (below : ReflTransGen (Field.Encloses ws.store) top f) : Field.DefinesFree ws.store f := by
  have declares : Declares ws models x f := ⟨w, model, top, clean.filled, mem, below⟩
  obtain ⟨written, child⟩ := named_of_declared given.sorts clean involved free mem below
  refine
    { key := ?_
      child
      reference := fun name refers =>
        ⟨given.name (.reference ⟨x, f, involved, declares, refers⟩),
          given.whole name ⟨x, f, involved, declares, refers⟩⟩
      enumerated := fun text enumerates => given.name (.enumerated involved declares enumerates) }
  rcases written with ⟨path, written, part⟩ | ⟨b, hb, part⟩
  · exact given.name (.key involved declares written part)
  · exact given.name (.step involved hb part)

theorem sealed_bodyText (lean : p.document = false) (plain : p.plainIds = true) {body : String}
    (h : bodyText ws.store p (declaredTree w (x, model)) = .ok body) : Sealed body.toList := by
  obtain ⟨fields, declared, lines⟩ := bodyText_ok_iff.1 h
  refine Render.sealed_lines lean plain fields (fun field hf => ?_) lines
  obtain ⟨top, mem, read⟩ := (Except.filterMapM_ok declared).2 field hf
  exact Field.tells_of_describeWithin read fun f below =>
    (definesFree_of_declared given clean involved free mem below).defines

end Bodies

/-! ## Openings -/

theorem sealed_textLine {line : String} (h : Free line.toList) :
    Sealed (Comment.textLine line).toList := by
  rw [Comment.textLine, String.toList_append]
  refine Text.Free.seal ?_ (by decide)
  split
  · decide
  · rw [String.toList_append]
    exact Text.Sealed.add (by decide) h

theorem sealed_join {texts : List String} (h : ∀ text ∈ texts, Sealed text.toList) :
    Sealed (String.join texts).toList := by
  rw [String.toList_join]
  exact Text.sealed_flatMap h

theorem free_ofLines {lines : List String} (h : ∀ line ∈ lines, Free line.toList) :
    Free (Comment.ofLines lines).toList := by
  have body : Sealed (String.join (lines.map Comment.textLine)).toList :=
    sealed_join (List.forall_mem_map.2 fun line hl => sealed_textLine (h line hl))
  rw [Comment.ofLines, String.toList_append, String.toList_append]
  exact (Text.Sealed.append (by decide) body).add (by decide)

theorem free_leanComment {name : String} (free : FreeName model) (h : Free name.toList) :
    Free (Comment.lean model name).toList := by
  have own : Free (if name == "" then model else name).toList := by
    split
    · exact free.free
    · exact h
  have titled : Free ("Lean version of " ++ (if name == "" then model else name)
      ++ "Document").toList := by
    rw [String.toList_append, String.toList_append]
    exact ((Text.Sealed.add (by decide) own).seal (by decide)).free
  have returned : Free ("This has all ORM getters & functions removed. This type will be returned"
      ++ " from `" ++ model ++ "Document.toObject()`.").toList := by
    rw [String.toList_append, String.toList_append]
    exact ((Text.Sealed.add (by decide +kernel) free.free).seal (by decide)).free
  have converted : Free ("const " ++ Naming.lowerFirst model ++ "Object = "
      ++ Naming.lowerFirst model ++ ".toObject();").toList := by
    simp only [String.toList_append]
    have first := (Text.Sealed.add (a := "const ".toList) (by decide) free.lowered).seal
      (b := "Object = ".toList) (by decide)
    exact ((first.add free.lowered).seal (by decide)).free
  refine free_ofLines ?_
  simp only [List.forall_mem_cons]
  exact ⟨titled, Text.free_nil, returned, by decide, converted, by decide, by simp⟩

theorem sealed_leanHeader {docs name : String} (hd : Free docs.toList) (hn : Free name.toList) :
    Sealed (Comment.leanHeader docs name).toList := by
  simp only [Comment.leanHeader, String.toList_append]
  exact ((hd.seal (by decide)).add hn).seal (by decide)

/-! ## Blocks -/

/-- Without document types and with plain identifiers a block is free of the word, whatever stands
next to it. -/
theorem GivesFree.writesSealed (given : GivesFree ws models) :
    WritesGood ws models FreeName (Free ·.toList) { document := false, plainIds := true }
      (fun _ header => Sealed header.toList) (fun block => Sealed block.text.toList) where
  opens _ involved hb named free opening := by
    have name := given.sorts.below _ involved _ hb _ named free
    cases opening
    exact sealed_leanHeader (free_leanComment free name.free) name.free
  writes clean involved free opened text := by
    have written := sealed_bodyText given clean involved free rfl rfl text
    simp only [String.toList_append]
    exact (opened.append written).append (by decide)

/-! ## The file -/

theorem sealed_compile (given : GivesFree ws models) {m : String × SchemaId} (hm : m ∈ models)
    (clean : Clean ws models (Free ·.toList) w) {paired : List PairedBlock}
    (h : (compile m.2 m.1 true).on w = (.ok paired, w')) :
    Clean ws models (Free ·.toList) w' ∧ ∀ block ∈ paired, Sealed block.lean.toList := by
  obtain ⟨leans, hl, rfl⟩ := compile_plain_ok_iff.1 h
  have free := given.freeName hm
  have opened : Sealed (leanOpening m.1).toList :=
    sealed_leanHeader (free_leanComment free (by decide)) free.free
  obtain ⟨clean', written⟩ :=
    given.writesSealed.renderBlocks given.sorts ⟨m, hm, .refl⟩ clean free opened hl
  exact ⟨clean', List.forall_mem_map.2 written⟩

/-- Compiles models one after the other, without document types. -/
def compileAll (models : Keyed SchemaId) : CompileM (Keyed (List PairedBlock)) :=
  models.mapM fun m => do return (m.1, ← compile m.2 m.1 true)

theorem sealed_compileAll (given : GivesFree ws models) {chosen : Keyed SchemaId}
    (sub : ∀ m ∈ chosen, m ∈ models) (clean : Clean ws models (Free ·.toList) w)
    {compiled : Keyed (List PairedBlock)}
    (h : (compileAll chosen).on w = (.ok compiled, w')) :
    ∀ c ∈ compiled, Free c.1.toList ∧ ∀ block ∈ c.2, Sealed block.lean.toList := by
  unfold compileAll at h
  induction chosen generalizing w compiled with
  | nil =>
    simp only [List.mapM_nil, pure_on, Prod.mk.injEq, Except.ok.injEq] at h
    obtain ⟨rfl, rfl⟩ := h
    simp
  | cons m rest ih =>
    simp only [List.mapM_cons, bind_ok_iff, pure_on, Prod.mk.injEq, Except.ok.injEq] at h
    obtain ⟨_, w₁, ⟨paired, _, hc, rfl, rfl⟩, others, _, hrest, rfl, rfl⟩ := h
    obtain ⟨own, below⟩ := List.forall_mem_cons.1 sub
    obtain ⟨clean₁, written⟩ := sealed_compile given own clean hc
    exact List.forall_mem_cons.2 ⟨⟨(given.freeName own).free, written⟩, ih below clean₁ hrest⟩

end ModelTypes.Compile

namespace ModelTypes.Declaration

open Compile
open Text (Free Sealed)

variable {ws ws' : Workspace} {models : Keyed SchemaId} {compiled : Keyed (List PairedBlock)}

theorem sealed_leanSection {model : String} {blocks : List PairedBlock} (h : Free model.toList)
    (written : ∀ block ∈ blocks, Sealed block.lean.toList) :
    Sealed (leanSection model blocks).toList := by
  have own : Sealed (String.join (blocks.map (·.lean))).toList :=
    sealed_join (List.forall_mem_map.2 written)
  simp only [leanSection, String.toList_append]
  have exported := (own.append (b := "export type ".toList) (by decide)).add h
  exact ((exported.seal (b := "Object = ".toList) (by decide)).add h).seal (by decide)

theorem sealed_fileHeader : Sealed fileHeader.toList := by
  have join {a b : String} (ha : Sealed a.toList) (hb : Sealed b.toList) :
      Sealed (a ++ b).toList := by
    rw [String.toList_append]
    exact ha.append hb
  unfold fileHeader
  refine join (join (join ?_ ?_) ?_) ?_ <;> decide +kernel

theorem free_content (functionsOf : String → Functions)
    (h : ∀ c ∈ compiled, Free c.1.toList ∧ ∀ block ∈ c.2, Sealed block.lean.toList) :
    Free (content compiled functionsOf true).toList := by
  rw [content, if_pos rfl, String.toList_append]
  refine sealed_fileHeader.add (sealed_join (List.forall_mem_map.2 fun c hc => ?_)).free
  exact sealed_leanSection (h c hc).1 (h c hc).2

/-- The name of every model stands in the file. -/
theorem infix_content (functionsOf : String → Functions) {c : String × List PairedBlock}
    (h : c ∈ compiled) : c.1.toList <:+: (content compiled functionsOf true).toList := by
  have own : c.1.toList <:+: (leanSection c.1 c.2).toList := by
    rw [leanSection, String.toList_append, String.toList_append]
    exact (List.suffix_append _ _).isInfix.trans (List.prefix_append _ _).isInfix
  have section_of : leanSection c.1 c.2 ∈ compiled.map fun m => leanSection m.1 m.2 :=
    List.mem_map_of_mem h
  rw [content, if_pos rfl, String.toList_append, String.toList_join, List.flatMap_def]
  refine own.trans ((List.infix_of_mem_flatten (List.mem_map_of_mem section_of)).trans ?_)
  exact (List.suffix_append _ _).isInfix

/-- A file without document types holds the library's name only if a name that its models' own
definitions give holds it in some letter case. -/
theorem gives_of_library_in_content (functionsOf : String → Functions)
    (h : (compileAll models).on ws = (.ok compiled, ws'))
    (references : ∀ name, Refers ws models name → '\'' ∉ name.toList)
    (there : Text.library <:+: (content compiled functionsOf true).toList) :
    ∃ name, Gives ws models name ∧ Text.library <:+: (Text.lowerString name).toList := by
  by_contra absent
  have given : GivesFree ws models :=
    ⟨fun name gives inside => absent ⟨name, gives, inside⟩, references⟩
  exact free_content functionsOf (sealed_compileAll given (fun _ hm => hm) given.sorts.clean h)
    there

/-- A schema with a reference. -/
def owned : Workspace where
  schemas := [{ tree := [("owner", .dict [("type", .str "ObjectId"), ("ref", .str "User")])] }]

theorem gives_of_library_in_content_owned : let models := [("mongooseNote", 0)]
    ∃ compiled ws', (compileAll models).on owned = (.ok compiled, ws') ∧
      (∀ name, Refers owned models name → '\'' ∉ name.toList) ∧
      Text.library <:+: (content compiled (fun _ => {}) true).toList ∧
      ∃ name, Gives owned models name ∧ Text.library <:+: (Text.lowerString name).toList := by
  intro models
  have names : ((compileAll models).on owned).1.toOption.map (·.map (·.1))
      = some ["mongooseNote"] := by decide +kernel
  obtain ⟨compiled, ws', h, names⟩ := ok_of_map_eq names
  obtain ⟨c, hc, name⟩ : ∃ c ∈ compiled, c.1 = "mongooseNote" :=
    List.mem_map.1 (by rw [names]; simp)
  have there : Text.library <:+: (content compiled (fun _ => {}) true).toList := by
    have word : Text.library <:+: c.1.toList := by
      rw [name]
      decide
    exact word.trans (infix_content _ hc)
  have references : ∀ name, Refers owned models name → '\'' ∉ name.toList := by
    rintro name ⟨x, f, -, ⟨w, model, top, filled, mem, below⟩, ref, ⟨options, inside, get⟩, -, text⟩
    have tidy (x : SchemaId) : (owned.schema x).Tidy :=
      Workspace.forall_schema (by decide +kernel) (by decide) x
    obtain rfl := filled.eq_of_tidy fun x _ => tidy x
    have only : top = ("owner", .dict [("type", .str "ObjectId"), ("ref", .str "User")]) := by
      cases x with
      | zero => simpa [declaredTree, blockTree, owned, Workspace.schema] using mem
      | succ x => simp [declaredTree, blockTree, owned, Workspace.schema] at mem
    subst only
    rcases below.cases_head with rfl | ⟨_, ⟨_, declared, -⟩, -⟩
    · cases inside with
      | own he =>
        cases he
        cases get
        cases text
        decide
      | item hl => cases hl
      | type ht inside =>
        cases ht
        exact absurd inside (Field.not_holds rfl rfl)
      | value hv => cases hv
    · cases declared
  exact ⟨compiled, ws', h, references, there,
    gives_of_library_in_content _ h references there⟩

end ModelTypes.Declaration
