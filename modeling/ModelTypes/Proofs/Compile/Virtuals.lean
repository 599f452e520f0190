import ModelTypes.Proofs.Compile.Filled
import ModelTypes.Proofs.Compile.Modes
import ModelTypes.Proofs.Field.Virtuals
/-!
# Virtuals in blocks

A rendering fixes, before any option is read, what each block is written from: its site, its opening
and the fields that its schema declares at that moment. The options of schemas enter once, when the
lean body of a block is written: those of its own schema say whether virtuals are left out. So a
compilation under other options differs in the lean bodies of the schemas whose answer to that has
changed, and there in virtuals only.
-/

namespace ModelTypes.Compile

/-! ## Sites -/

mutual

/-- The sites of the blocks of a schema under a name, its own last. Under no name a schema stands
alone. -/
inductive Stands (ws : Workspace) : SchemaId → String → List Site → Prop
  | alone {id model} (single : (ws.schema id).children = [] ∨ model = "") :
      Stands ws id model [(id, model)]
  | parent {id model sites} (embeds : (ws.schema id).children ≠ []) (named : model ≠ "")
      (below : StandAll ws model (ws.schema id).children sites) :
      Stands ws id model (sites ++ [(id, model)])

/-- The sites of the children of a block, child by child. -/
inductive StandAll (ws : Workspace) : String → List ChildBinding → List Site → Prop
  | nil {model} : StandAll ws model [] []
  | cons {model b rest sites others}
      (child : Stands ws b.schema (Naming.subdocumentName b.path model) sites)
      (siblings : StandAll ws model rest others) :
      StandAll ws model (b :: rest) (sites ++ others)

end

variable {ws ws' ws₁ ws₂ v v' : Workspace} {id : SchemaId} {model : String} {p q : Projection}
  {places : SchemaId → Prop}

mutual

theorem Stands.of_sameButTrees {id : SchemaId} {model : String} {sites : List Site}
    (same : SameButTrees ws ws') : Stands ws' id model sites → Stands ws id model sites
  | .alone single => .alone (same.children _ ▸ single)
  | .parent embeds named below => by
    have below := below.of_sameButTrees same
    rw [same.children] at embeds below
    exact .parent embeds named below

theorem StandAll.of_sameButTrees {model : String} {cs : List ChildBinding} {sites : List Site}
    (same : SameButTrees ws ws') : StandAll ws' model cs sites → StandAll ws model cs sites
  | .nil => .nil
  | .cons child siblings => .cons (child.of_sameButTrees same) (siblings.of_sameButTrees same)

end

mutual

theorem Stands.unique {id : SchemaId} {model : String} {sites sites' : List Site} :
    Stands ws id model sites → Stands ws id model sites' → sites = sites'
  | .alone _, .alone _ => rfl
  | .alone single, .parent embeds named _ => (single.elim embeds named).elim
  | .parent embeds named _, .alone single => (single.elim embeds named).elim
  | .parent _ _ below, .parent _ _ below' => by rw [below.unique below']

theorem StandAll.unique {model : String} {cs : List ChildBinding} {sites sites' : List Site} :
    StandAll ws model cs sites → StandAll ws model cs sites' → sites = sites'
  | .nil, .nil => rfl
  | .cons child siblings, .cons child' siblings' => by
    rw [child.unique child', siblings.unique siblings']

end

/-- The tree that a block at a site declares. Under no name nothing is hoisted out of it. -/
def declaredTree (ws : Workspace) (site : Site) : Entries :=
  if site.2 = "" then (ws.schema site.1).tree else blockTree ws site

/-! ## Other options -/

/-- Two workspaces that differ in the options of schemas at most. -/
structure SameButOptions (ws v : Workspace) : Prop where
  store : v.store = ws.store
  length : v.schemas.length = ws.schemas.length
  schema : ∀ id, v.schema id = { ws.schema id with options := (v.schema id).options }

namespace SameButOptions

theorem refl (ws : Workspace) : SameButOptions ws ws := ⟨rfl, rfl, fun _ => rfl⟩

theorem children (h : SameButOptions ws v) (id : SchemaId) :
    (v.schema id).children = (ws.schema id).children := by rw [h.schema id]

theorem tree (h : SameButOptions ws v) (id : SchemaId) :
    (v.schema id).tree = (ws.schema id).tree := by rw [h.schema id]

theorem outsideOf (h : SameButOptions ws v) (lineage : List SchemaId) :
    outsideOf v lineage = Compile.outsideOf ws lineage := by
  simp [Compile.outsideOf, Workspace.ids, h.length]

theorem refill (h : SameButOptions ws v) (id : SchemaId) (flat : Entries) :
    SameButOptions (refill ws id flat) (Compile.refill v id flat) where
  store := h.store
  length := by simp [Compile.refill, Workspace.update, h.length]
  schema other := by
    unfold Compile.refill
    rw [schema_update, schema_update, h.length]
    split
    · rw [h.schema id]
    · exact h.schema other

theorem childHeader (h : SameButOptions ws v) (b : ChildBinding) (parent name : String) :
    childHeader v parent b name (projectionAt v q b.schema)
      = Compile.childHeader ws parent b name (projectionAt ws q b.schema) := by
  unfold Compile.childHeader
  show (if !q.document then _ else _) = (if !q.document then _ else _)
  cases document : q.document with
  | false => rfl
  | true =>
    unfold projectionAt
    simp only [idType_leanVirtuals document, h.tree, h.store]

theorem documentBase (h : SameButOptions ws v) (id : SchemaId) (model : String) :
    documentBase v id model (documentPass v id)
      = Compile.documentBase ws id model (documentPass ws id) := by
  have pass (ws : Workspace) : documentPass ws id
      = { ({ document := true } : Projection) with leanVirtuals := (ws.schema id).leanVirtuals } :=
    rfl
  unfold Compile.documentBase
  rw [pass v, pass ws, idType_leanVirtuals rfl, idType_leanVirtuals rfl, h.tree, h.store]

end SameButOptions

/-! ## Drafts -/

/-- What a block is written from: its site, its opening, and the fields of its schema. -/
structure Draft where
  site : Site
  header : String
  fields : List Field

namespace Draft

/-- A draft is made from the tree that its schema declares, after some trees were filled. -/
structure Of (places : SchemaId → Prop) (ws : Workspace) (document : Bool) (d : Draft) :
    Prop where
  opens : Opens document d.site.2 d.header
  fields : ∃ ws₁, Filled places ws ws₁ ∧ described ws.store (declaredTree ws₁ d.site) = .ok d.fields

theorem Of.before {document : Bool} {d : Draft} (h : d.Of places ws₁ document)
    (filled : Filled places ws ws₁) : d.Of places ws document := by
  obtain ⟨ws₂, filled', fields⟩ := h.fields
  exact ⟨h.opens, ws₂, filled.trans filled', filled.sameButTrees.store ▸ fields⟩

/-- Tidy schemas are drafted from the trees that they had in the beginning. -/
theorem Of.fields_of_tidy {document : Bool} {d : Draft} (h : d.Of places ws document)
    (tidy : ∀ x, places x → (ws.schema x).Tidy) :
    described ws.store (declaredTree ws d.site) = .ok d.fields := by
  obtain ⟨ws₁, filled, fields⟩ := h.fields
  rwa [filled.eq_of_tidy tidy] at fields

/-- The fields that the options of the schema show. -/
def shown (v : Workspace) (q : Projection) (d : Draft) : List Field :=
  shownFields (projectionAt v q d.site.1) d.fields

/-- A block is written from a draft: its body is what is written, with virtuals, of the fields that
the options of its schema show, which is the line of every one of them. -/
structure Writes (v : Workspace) (q : Projection) (d : Draft) (block : Block) : Prop where
  name : block.name = d.site.2
  text : ∃ body,
    Render.lines v.store { q with leanVirtuals := true } (d.shown v q) = .ok body ∧
    Render.everyLine v.store q (d.shown v q) = .ok body ∧
    block.text = d.header ++ body ++ Comment.blockFooter

theorem writes_of_lines {d : Draft} {block : Block} {body : String} (name : block.name = d.site.2)
    (lines : Render.lines v.store (projectionAt v q d.site.1) d.fields = .ok body)
    (text : block.text = d.header ++ body ++ Comment.blockFooter) : d.Writes v q block := by
  have every : Render.everyLine v.store q (d.shown v q) = .ok body := by
    rw [← lines, Render.lines_eq_everyLine]
    exact (Render.everyLine_leanVirtuals _ _).symm
  exact ⟨name, body, Render.lines_withVirtuals _ ▸ every, every, text⟩

theorem shown_before (d : Draft) (same : SameButTrees v v') : d.shown v' q = d.shown v q := by
  simp [shown, projectionAt, same.leanVirtuals]

theorem Writes.before {d : Draft} {block : Block} (h : d.Writes v' q block)
    (same : SameButTrees v v') : d.Writes v q block := by
  obtain ⟨name, text⟩ := h
  rw [d.shown_before same, same.store] at text
  exact ⟨name, text⟩

/-- Of the same shown fields the same block is written. -/
theorem Writes.eq {d : Draft} {block block' : Block} (h : d.Writes v q block)
    (h' : d.Writes v' q block') (store : v'.store = v.store)
    (shown : d.shown v' q = d.shown v q) : block' = block := by
  obtain ⟨name, body, -, lines, text⟩ := h
  obtain ⟨name', body', -, lines', text'⟩ := h'
  rw [store, shown] at lines'
  obtain rfl : body = body' := Except.ok.inj (lines.symm.trans lines')
  obtain ⟨_, _⟩ := block
  obtain ⟨_, _⟩ := block'
  subst name text name' text'
  rfl

/-- What one pass writes from a draft, any pass can write. -/
theorem exists_writes {tree : Entries} {body : String} {fields : List Field} {header : String}
    (text : bodyText v.store p tree = .ok body) (declared : described v.store tree = .ok fields) :
    ∃ body, bodyText v.store (projectionAt v q id) tree = .ok body ∧
      Writes v q ⟨(id, model), header, fields⟩
        ⟨model, header ++ body ++ Comment.blockFooter⟩ := by
  obtain ⟨body, text⟩ := bodyText_returns (q := projectionAt v q id) text
  obtain ⟨fields', declared', lines⟩ := bodyText_ok_iff.1 text
  obtain rfl : fields = fields' := Except.ok.inj (declared.symm.trans declared')
  exact ⟨body, text, writes_of_lines rfl lines rfl⟩

end Draft

/-- A run of a rendering is written from drafts, and so is its run under other options. -/
structure Drafted (places : SchemaId → Prop) (ws ws' : Workspace) (q : Projection)
    (stands : List Site → Prop) (run : Workspace → Except CompileError (List Block) × Workspace)
    (drafts : List Draft) : Prop where
  stands : stands (drafts.map (·.site))
  of : ∀ d ∈ drafts, d.Of places ws q.document
  writes : ∀ v, SameButOptions ws v → ∃ blocks v', run v = (.ok blocks, v') ∧
    SameButOptions ws' v' ∧ List.Forall₂ (Draft.Writes v q) drafts blocks

/-! ## Renderings -/

section Renderers

variable {enter : SchemaId → Option Renderer}

/-- A child that is rendered fills some trees and is written from drafts. -/
def DraftsChild (places : SchemaId → Prop) (enter : SchemaId → Option Renderer) (q : Projection)
    (base : Workspace) (b : ChildBinding) : Prop :=
  ∀ render, enter b.schema = some render → ∀ ws, SameButTrees base ws → ∀ name header run ws',
    Opens q.document name header →
    (render name (projectionAt ws q b.schema) header).on ws = (.ok run, ws') →
      Filled places ws ws' ∧ ∃ drafts, Drafted places ws ws' q (Stands ws b.schema name)
        (fun v => (render name (projectionAt v q b.schema) header).on v) drafts

theorem drafted_hoistAll (sound : Sound enter) {cs : List ChildBinding}
    (children : ∀ b ∈ cs, DraftsChild places enter q ws b) {flat flat' : Entries}
    {blocks out : List Block} {l : Bool}
    (h : (hoistAll enter model { q with leanVirtuals := l } flat blocks cs).on ws
      = (.ok (flat', out), ws')) :
    ∃ drafts : List Draft, StandAll ws model cs (drafts.map (·.site)) ∧
      (∀ d ∈ drafts, d.Of places ws q.document) ∧
      ∀ v, SameButOptions ws v → ∀ l blocks, ∃ runs v',
        (hoistAll enter model { q with leanVirtuals := l } flat blocks cs).on v
          = (.ok (flat', blocks ++ runs), v') ∧ SameButOptions ws' v' ∧
        List.Forall₂ (Draft.Writes v q) drafts runs := by
  induction cs generalizing ws flat blocks with
  | nil =>
    simp only [hoistAll, pure_on, Prod.mk.injEq, Except.ok.injEq] at h
    obtain ⟨⟨rfl, rfl⟩, rfl⟩ := h
    refine ⟨[], .nil, by simp, fun v hv l blocks => ⟨[], v, ?_, hv, .nil⟩⟩
    rw [hoistAll, pure_on, List.append_nil]
  | cons b rest ih =>
    simp only [hoistAll, bind_ok_iff] at h
    obtain ⟨r, ws₁, hb, hrest⟩ := h
    obtain ⟨render, header, run, he, hh, hr, rfl⟩ := hoist_ok_iff.1 hb
    have opens : Opens q.document _ header :=
      opens_childHeader (p := projectionAt ws q b.schema) hh
    obtain ⟨filled, drafts, drafted⟩ :=
      children b List.mem_cons_self render he ws (.refl ws) _ _ _ _ opens hr
    have same := filled.sameButTrees
    obtain ⟨others, stands, of, writes⟩ := ih (fun c hc render he ws₂ same' =>
      children c (List.mem_cons_of_mem _ hc) render he ws₂ (same.trans same')) hrest
    refine ⟨drafts ++ others, ?_, ?_, fun v hv l blocks => ?_⟩
    · rw [List.map_append]
      exact .cons drafted.stands (stands.of_sameButTrees same)
    · intro d hd
      exact (List.mem_append.1 hd).elim (drafted.of d) fun hd => (of d hd).before filled
    -- Both runs hoist the child to the same flat form, and stay alike but for options.
    · obtain ⟨run', v₁, hr', hv₁, wrote⟩ := drafted.writes v hv
      obtain ⟨runs, v', hrest', hv', wrote'⟩ := writes v₁ hv₁ l (blocks ++ run')
      have same' := (sound _ _ he _ _ _ _ _ _ hr').sameButTrees
      refine ⟨run' ++ runs, v', ?_, hv', List.rel_append wrote
        (wrote'.imp fun _ _ w => w.before same')⟩
      have opening := (hv.childHeader b model (Naming.subdocumentName b.path model)).trans hh
      rw [hoistAll, bind_ok_iff]
      refine ⟨_, v₁, hoist_ok_iff.2 ⟨render, header, run', he, opening, hr', rfl⟩, ?_⟩
      rw [hv.store, ← List.append_assoc]
      exact hrest'

theorem drafted_renderWith (sound : Sound enter)
    (children : ∀ b ∈ (ws.schema id).children, DraftsChild places enter q ws b) {header : String}
    (opens : Opens q.document model header) {blocks : List Block}
    (h : (renderWith enter id model (projectionAt ws q id) header Comment.blockFooter).on ws
      = (.ok blocks, ws')) :
    ∃ drafts, Drafted places ws ws' q (Stands ws id model) (fun v =>
      (renderWith enter id model (projectionAt v q id) header Comment.blockFooter).on v)
      drafts := by
  have same := (renderWith_ok sound h).sameButTrees
  obtain ⟨run, tree, body, hx, text, rfl⟩ := renderWith_ok_iff.1 h
  rw [same.store] at text
  obtain ⟨fields, declared, -⟩ := bodyText_ok_iff.1 text
  -- All but the body is made before the schema's options are read, so they decide its text alone.
  let own : Draft := ⟨(id, model), header, fields⟩
  have ofOwn (ht : declaredTree ws (id, model) = tree) : own.Of places ws q.document :=
    ⟨opens, ws, .refl ws, by rw [ht]; exact declared⟩
  have writesOwn {v : Workspace} (hv : SameButOptions ws v) : ∃ body,
      bodyText v.store (projectionAt v q id) tree = .ok body ∧
        own.Writes v q ⟨model, header ++ body ++ Comment.blockFooter⟩ :=
    Draft.exists_writes (hv.store.symm ▸ text) (hv.store.symm ▸ declared)
  by_cases hc : (ws.schema id).children ≠ [] ∧ model ≠ ""
  · rw [if_pos hc] at hx
    obtain ⟨flat, ws₁, hall, rfl, rfl⟩ := expandWith_ok_iff.1 hx
    obtain ⟨drafts, stands, of, writes⟩ := drafted_hoistAll sound children hall
    obtain ⟨_, -, hoists⟩ := hoistAll_ok sound hall
    refine ⟨drafts ++ [own], ?_, ?_, fun v hv => ?_⟩
    · rw [List.map_append]
      exact .parent hc.1 hc.2 stands
    · intro d hd
      rcases List.mem_append.1 hd with hd | hd
      · exact of d hd
      · rw [List.mem_singleton.1 hd]
        exact ofOwn (by simp [declaredTree, blockTree, hc, hoists.flat_eq])
    · obtain ⟨runs, v', hall', hv', wrote⟩ := writes v hv (v.schema id).leanVirtuals []
      obtain ⟨body', text', wroteOwn⟩ := writesOwn hv
      refine ⟨_, refill v' id flat, renderWith_ok_iff.2 ⟨runs, unflatten flat, body', ?_, ?_, rfl⟩,
        hv'.refill id flat, List.rel_append wrote (.cons wroteOwn .nil)⟩
      · rw [hv.children, if_pos hc]
        refine expandWith_ok_iff.2 ⟨flat, v', ?_, rfl, rfl⟩
        rw [hv.children, hv.tree]
        exact hall'
      · have stores : (refill v' id flat).store = v.store :=
          ((hv'.refill id flat).store.trans same.store).trans hv.store.symm
        rwa [stores]
  · rw [if_neg hc] at hx
    obtain ⟨rfl, rfl, rfl⟩ := hx
    refine ⟨[own], ?_, ?_, fun v hv => ?_⟩
    · exact .alone (by by_cases hm : model = "" <;> simp_all)
    · intro d hd
      rw [List.mem_singleton.1 hd]
      refine ofOwn ?_
      by_cases hm : model = ""
      · simp [declaredTree, hm]
      · simp_all [declaredTree, blockTree]
    · obtain ⟨body', text', wroteOwn⟩ := writesOwn hv
      refine ⟨_, v, renderWith_ok_iff.2 ⟨[], (ws'.schema id).tree, body', ?_, text', rfl⟩, hv,
        .cons wroteOwn .nil⟩
      rw [hv.children, if_neg hc, hv.tree]
      exact ⟨rfl, rfl, rfl⟩

end Renderers

theorem drafted_renderWithin {outside : List SchemaId} (nodup : outside.Nodup)
    (sub : ∀ x, Reaches ws id x → places x) {header : String}
    (opens : Opens q.document model header) {blocks : List Block}
    (h : (renderWithin outside id model (projectionAt ws q id) header Comment.blockFooter).on ws
      = (.ok blocks, ws')) :
    ∃ drafts, Drafted places ws ws' q (Stands ws id model) (fun v =>
      (renderWithin outside id model (projectionAt v q id) header Comment.blockFooter).on v)
      drafts := by
  induction hn : outside.length using Nat.strongRecOn
    generalizing outside id model header ws ws' blocks with
  | ind n ih =>
    rw [renderWithin_eq] at h ⊢
    refine drafted_renderWith (sound_entering outside)
      (fun b hb render he ws₁ same name header run ws₂ opens hr => ?_) opens h
    obtain ⟨hc, rfl⟩ := entering_eq_some he
    have below (x : SchemaId) (hx : Reaches ws₁ b.schema x) : places x := by
      rw [Reaches, same.embeds_eq] at hx
      exact sub x (.head ⟨b, hb, rfl⟩ hx)
    have nodup' := nodup.erase b.schema
    have filled := (leaves_renderWithin nodup' nodup.not_mem_erase).of_on hr
    exact ⟨filled.mono fun x hx => below x hx.1,
      ih _ (by rw [← hn]; exact length_erase_lt hc) nodup' below opens hr rfl⟩

/-! ## Passes -/

theorem drafted_renderBlocks {header : String} (opens : Opens q.document model header)
    {blocks : List Block}
    (h : (renderBlocks id model (projectionAt ws q id) header Comment.blockFooter).on ws
      = (.ok blocks, ws')) :
    ∃ drafts, Drafted (Reaches ws id) ws ws' q (Stands ws id model) (fun v =>
      (renderBlocks id model (projectionAt v q id) header Comment.blockFooter).on v) drafts := by
  rw [renderBlocks_on] at h
  obtain ⟨drafts, stands, of, writes⟩ := drafted_renderWithin (nodup_outsideOf ws [id])
    (fun _ hx => hx) opens h
  refine ⟨drafts, stands, of, fun v hv => ?_⟩
  rw [renderBlocks_on, hv.outsideOf]
  exact writes v hv

/-! ## Compilations -/

/-- What a paired block is written from. -/
structure Plan where
  lean : Draft
  document : Option Draft

namespace Plan

/-- The site of the block. -/
def site (plan : Plan) : Site := plan.lean.site

/-- Both parts are drafts for one site. -/
structure Of (places : SchemaId → Prop) (ws : Workspace) (plainIds : Bool) (plan : Plan) :
    Prop where
  lean : plan.lean.Of places ws false
  document : ∀ d ∈ plan.document, d.site = plan.site ∧ d.Of places ws true
  plain : plan.document.isNone = plainIds

/-- Both parts of a paired block are written from their drafts. -/
structure Writes (v : Workspace) (plainIds : Bool) (plan : Plan) (block : PairedBlock) : Prop where
  lean : plan.lean.Writes v { document := false, plainIds } ⟨block.name, block.lean⟩
  document : Option.Rel (fun d text => d.Writes v { document := true } ⟨block.name, text⟩)
    plan.document block.document

/-- Document types do not depend on options at all, lean types do not if there are no virtuals or
if the schema answers the same. -/
theorem Writes.unaffected {plainIds : Bool} {plan : Plan} {block block' : PairedBlock}
    (h : plan.Writes ws plainIds block) (h' : plan.Writes v plainIds block')
    (options : SameButOptions ws v) : block'.document = block.document ∧
      ((v.schema plan.site.1).leanVirtuals = (ws.schema plan.site.1).leanVirtuals ∨
        withoutVirtuals plan.lean.fields = plan.lean.fields → block' = block) := by
  obtain ⟨lean, document⟩ := h
  obtain ⟨lean', document'⟩ := h'
  have names : block'.name = block.name := lean'.name.trans lean.name.symm
  have documents : block'.document = block.document := by
    generalize plan.document = drafts, block.document = text, block'.document = text'
      at document document' ⊢
    cases document with
    | none => cases document'; rfl
    | some document =>
      cases document' with
      | some document' =>
        exact congrArg (some ∘ Block.text) (document.eq document' options.store rfl)
  refine ⟨documents, fun unaffected => ?_⟩
  have shown : plan.lean.shown v { document := false, plainIds }
      = plan.lean.shown ws { document := false, plainIds } := by
    unfold Draft.shown shownFields
    rcases unaffected with same | without
    · rw [projectionAt, show plan.lean.site = plan.site from rfl, same]
      rfl
    · rw [without, ite_self, ite_self]
  have leans := congrArg Block.text (lean.eq lean' options.store shown)
  obtain ⟨_, _, _⟩ := block
  obtain ⟨_, _, _⟩ := block'
  subst names documents leans
  rfl

/-- The plan of a compilation without document types. -/
def alone (lean : Draft) : Plan := ⟨lean, none⟩

/-- A plan of two drafts. -/
def both (lean document : Draft) : Plan := ⟨lean, some document⟩

theorem writes_unpaired {leans : List Draft} {blocks : List Block}
    (h : List.Forall₂ (Draft.Writes v { document := false, plainIds := true }) leans blocks) :
    List.Forall₂ (Plan.Writes v true) (leans.map alone) (blocks.map unpaired) := by
  rw [List.forall₂_map_left_iff, List.forall₂_map_right_iff]
  exact h.imp fun _ _ lean => ⟨lean, .none⟩

theorem writes_pair {leans documents : List Draft} {blocks blocks' : List Block}
    (sites : documents.map (·.site) = leans.map (·.site))
    (h : List.Forall₂ (Draft.Writes v { document := false }) leans blocks)
    (h' : List.Forall₂ (Draft.Writes v { document := true }) documents blocks') :
    List.Forall₂ (Plan.Writes v false) (leans.zipWith both documents)
      (blocks.zipWith pair blocks') := by
  induction h generalizing documents blocks' with
  | nil => exact .nil
  | cons lean _ ih =>
    cases h' with
    | nil => exact .nil
    | cons document rest =>
      obtain ⟨site, sites⟩ := List.cons.inj sites
      have name := lean.name.trans (congrArg Prod.snd site.symm)
      exact .cons ⟨lean, .some ⟨name, document.text⟩⟩ (ih sites rest)

theorem of_both {leans documents : List Draft}
    (sites : documents.map (·.site) = leans.map (·.site)) (h : ∀ d ∈ leans, d.Of places ws false)
    (h' : ∀ d ∈ documents, d.Of places ws true) :
    (leans.zipWith both documents).map site = leans.map (·.site) ∧
      ∀ plan ∈ leans.zipWith both documents, plan.Of places ws false := by
  induction leans generalizing documents with
  | nil => exact ⟨rfl, by simp⟩
  | cons lean leans ih =>
    cases documents with
    | nil => cases sites
    | cons document documents =>
      obtain ⟨site, sites⟩ := List.cons.inj sites
      rw [List.forall_mem_cons] at h h'
      obtain ⟨rest, of⟩ := ih sites h.2 h'.2
      refine ⟨congrArg (lean.site :: ·) rest, List.forall_mem_cons.2 ⟨⟨h.1, ?_, rfl⟩, of⟩⟩
      rintro d ⟨⟩
      exact ⟨site, h'.1⟩

end Plan

/-- A compilation is written from plans, under any options. -/
theorem planned_compile {plainIds : Bool} {paired : List PairedBlock}
    (h : (compile id model plainIds).on ws = (.ok paired, ws')) :
    ∃ plans : List Plan, Stands ws id model (plans.map (·.site)) ∧
      (∀ plan ∈ plans, plan.Of (Reaches ws id) ws plainIds) ∧
      ∀ v, SameButOptions ws v → ∃ paired v', (compile id model plainIds).on v = (.ok paired, v') ∧
        List.Forall₂ (Plan.Writes v plainIds) plans paired := by
  cases plainIds with
  | true =>
    obtain ⟨leans, hl, -⟩ := compile_plain_ok_iff.1 h
    obtain ⟨drafts, stands, of, writes⟩ := drafted_renderBlocks
      (q := { document := false, plainIds := true }) ⟨_, rfl⟩ hl
    refine ⟨drafts.map .alone, ?_, ?_, fun v hv => ?_⟩
    · rwa [List.map_map]
    · intro plan hp
      obtain ⟨d, hd, rfl⟩ := List.mem_map.1 hp
      exact ⟨of d hd, nofun, rfl⟩
    · obtain ⟨blocks, v', hb, -, wrote⟩ := writes v hv
      exact ⟨_, v', compile_plain_ok_iff.2 ⟨blocks, hb, rfl⟩, Plan.writes_unpaired wrote⟩
  | false =>
    obtain ⟨leans, ws₁, base, documents, hl, hb, hd, -⟩ := compile_paired_ok_iff.1 h
    have filled : Filled (Reaches ws id) ws ws₁ := leaves_renderBlocks.of_on hl
    have same := filled.sameButTrees
    have pass {v v₁ : Workspace} (same : SameButTrees v v₁) :
        documentPass v id = documentPass v₁ id := by
      simp [documentPass, same.leanVirtuals]
    obtain ⟨lean, stands, of, writes⟩ := drafted_renderBlocks (q := { document := false })
      ⟨_, rfl⟩ hl
    rw [pass same] at hb hd
    obtain ⟨document, stands', of', writes'⟩ := drafted_renderBlocks (q := { document := true })
      ⟨_, _, rfl⟩ hd
    rw [Reaches, same.embeds_eq] at of'
    have sites : document.map (·.site) = lean.map (·.site) :=
      (stands'.of_sameButTrees same).unique stands
    obtain ⟨plans, ofPlans⟩ := Plan.of_both sites of fun d hd => (of' d hd).before filled
    refine ⟨lean.zipWith .both document, plans ▸ stands, ofPlans, fun v hv => ?_⟩
    obtain ⟨blocks, v₁, hbs, hv₁, wrote⟩ := writes v hv
    obtain ⟨blocks', v', hbs', -, wrote'⟩ := writes' v₁ hv₁
    have same' := (renderBlocks_ok hbs).sameButTrees
    refine ⟨_, v', compile_paired_ok_iff.2 ⟨blocks, v₁, base, blocks', hbs, ?_, ?_, rfl⟩,
      Plan.writes_pair sites wrote (wrote'.imp fun _ _ w => w.before same')⟩
    · rw [pass same', hv₁.documentBase, hb]
    · rw [pass same']
      exact hbs'

/-- Under the options that it has run with, a compilation is written from its plans. -/
theorem written_compile {plainIds : Bool} {paired : List PairedBlock}
    (h : (compile id model plainIds).on ws = (.ok paired, ws')) :
    ∃ plans : List Plan, Stands ws id model (plans.map (·.site)) ∧
      (∀ plan ∈ plans, plan.Of (Reaches ws id) ws plainIds) ∧
      List.Forall₂ (Plan.Writes ws plainIds) plans paired := by
  obtain ⟨plans, stands, of, writes⟩ := planned_compile h
  obtain ⟨own, _, h', wrote⟩ := writes ws (.refl ws)
  rw [h] at h'
  cases h'
  exact ⟨plans, stands, of, wrote⟩

/-- Every block of a compilation, in lean and in document types, is written from the fields that its
schema declares: a document type has them all, a lean type has them all if the options of the schema
say so and else all but the virtuals, at any depth. Other options of any schemas change the lean
type of a block if its own schema now says otherwise and has virtuals, and nothing else. -/
theorem compile_virtuals {plainIds : Bool} {paired : List PairedBlock}
    (h : (compile id model plainIds).on ws = (.ok paired, ws')) :
    ∃ plans : List Plan, Stands ws id model (plans.map (·.site)) ∧
      (∀ plan ∈ plans, plan.Of (Reaches ws id) ws plainIds) ∧
      List.Forall₂ (Plan.Writes ws plainIds) plans paired ∧
      ∀ v, SameButOptions ws v → ∃ paired' v',
        (compile id model plainIds).on v = (.ok paired', v') ∧
        List.Forall₂ (Plan.Writes v plainIds) plans paired' ∧
        ∀ (i : Nat) (plan : Plan) (block block' : PairedBlock), plans[i]? = some plan →
          paired[i]? = some block → paired'[i]? = some block' →
            block'.document = block.document ∧
            ((v.schema plan.site.1).leanVirtuals = (ws.schema plan.site.1).leanVirtuals ∨
              withoutVirtuals plan.lean.fields = plan.lean.fields → block' = block) := by
  obtain ⟨plans, stands, of, writes⟩ := planned_compile h
  have wrote : List.Forall₂ (Plan.Writes ws plainIds) plans paired := by
    obtain ⟨own, _, h', wrote⟩ := writes ws (.refl ws)
    rw [h] at h'
    cases h'
    exact wrote
  refine ⟨plans, stands, of, wrote, fun v hv => ?_⟩
  obtain ⟨paired', v', h', wrote'⟩ := writes v hv
  refine ⟨paired', v', h', wrote', fun i plan block block' hp hb hb' => ?_⟩
  obtain ⟨plan₁, hp₁, w⟩ := exists_of_forall₂ wrote hb
  obtain ⟨plan₂, hp₂, w'⟩ := exists_of_forall₂ wrote' hb'
  obtain rfl : plan = plan₁ := Option.some.inj (hp.symm.trans hp₁)
  obtain rfl : plan = plan₂ := Option.some.inj (hp.symm.trans hp₂)
  exact w.unaffected w' hv

/-- Two schemas with a virtual each, of which only the embedded one shows it. -/
def greeted : Workspace :=
  let options := .dict [("to_object", .dict [("virtuals", .bool true)])]
  let friend := (Workspace.create {} (.dict [("name", .str "String")]) options).2
  let friend := friend.addVirtual 0 "hello"
  (friend.create (.dict [("friend", .schema 0)]) .null).2.addVirtual 1 "hello"

theorem compile_virtuals_greeted : ∃ paired ws' plans,
    (compile 1 "User").on greeted = (.ok paired, ws') ∧
      List.Forall₂ (Plan.Writes greeted false) plans paired ∧
      plans.map (fun plan =>
          (plan.site, (plan.lean.shown greeted { document := false }).map (·.key)))
        = [((0, "UserFriend"), ["name", "_id", "hello"]), ((1, "User"), ["friend", "_id"])] := by
  have returns : ((compile 1 "User").on greeted).1.isOk = true := by decide +kernel
  obtain ⟨paired, ws', h⟩ := ok_of_isOk returns
  obtain ⟨plans, stands, of, wrote, -⟩ := compile_virtuals h
  have child : (greeted.schema 1).children = [⟨"friend", 0, false⟩] := by decide +kernel
  have own : Stands greeted 1 "User" [(0, "UserFriend"), (1, "User")] := by
    have name : Naming.subdocumentName "friend" "User" = "UserFriend" := by decide +kernel
    have friend : Stands greeted 0 "UserFriend" [(0, "UserFriend")] :=
      .alone (.inl (by decide +kernel))
    have below : StandAll greeted "User" (greeted.schema 1).children
        ([(0, "UserFriend")] ++ []) := by
      rw [child]
      exact .cons (name.symm ▸ friend) .nil
    exact .parent (by simp [child]) (by decide) below
  have tidy (x : SchemaId) (_ : Reaches greeted 1 x) : (greeted.schema x).Tidy :=
    Workspace.forall_schema (P := Schema.Tidy) (by decide +kernel) (by decide) x
  -- The schemas are tidy, so the fields of each plan can be computed from its site.
  have keysAt {plan : Plan} (hp : plan ∈ plans) {keys : List String}
      (computed : (described greeted.store (declaredTree greeted plan.site)).toOption.map
        (fun fields => (shownFields (projectionAt greeted { document := false } plan.site.1)
          fields).map (·.key)) = some keys) :
      (plan.lean.shown greeted { document := false }).map (·.key) = keys := by
    have fields : described greeted.store (declaredTree greeted plan.site) = .ok plan.lean.fields :=
      (of plan hp).lean.fields_of_tidy tidy
    rw [fields] at computed
    exact Option.some.inj computed
  obtain ⟨friend, _, rfl, hf, rest⟩ := List.map_eq_cons_iff.1 (stands.unique own)
  obtain ⟨user, _, rfl, hu, rest⟩ := List.map_eq_cons_iff.1 rest
  obtain rfl := List.map_eq_nil_iff.1 rest
  have friendKeys : (friend.lean.shown greeted { document := false }).map (·.key)
      = ["name", "_id", "hello"] := keysAt (by simp) (by rw [hf]; decide +kernel)
  have userKeys : (user.lean.shown greeted { document := false }).map (·.key)
      = ["friend", "_id"] := keysAt (by simp) (by rw [hu]; decide +kernel)
  exact ⟨paired, ws', _, h, wrote, by simp [hf, hu, friendKeys, userKeys]⟩

end ModelTypes.Compile
