import ModelTypes.Proofs.Compile.Virtuals
import ModelTypes.Proofs.Field.Origins
import ModelTypes.Proofs.Value.Names
/-!
# Blocks of named definitions

Every name in a block comes from a name that the definitions of its model give: from the model, a
key, the path of a child, a child that stood in a tree before, or a reference. What holds of the
names that are given is kept by the trees that blocks declare (`namedBy_declaredTree`). So a
property of blocks needs to be known only of one block that is written from such a tree
(`WritesGood.renderBlocks`).
-/

namespace ModelTypes.Compile

open Relation

/-! ## Definitions of models -/

section Definitions

variable (ws : Workspace) (models : Keyed SchemaId)

/-- A schema of a model, or one below it. -/
def Involved (x : SchemaId) : Prop := ∃ m ∈ models, Reaches ws m.2 x

/-- A schema declares a field, in its block or in an object there. Before the block is written, some
trees may have been filled. -/
def Declares (x : SchemaId) (f : String × Value) : Prop :=
  ∃ w model top, Filled (Involved ws models) ws w ∧ top ∈ declaredTree w (x, model) ∧
    ReflTransGen (Field.Encloses ws.store) top f

/-- The definitions of the models refer to a model by a name. -/
def Refers (name : String) : Prop :=
  ∃ x f, Involved ws models x ∧ Declares ws models x f ∧ Field.RefersTo ws.store f.2 name

/-- A key is written in the tree of a schema, alone or as a segment, or in the path of a child. -/
def Written (x : SchemaId) (key : String) : Prop :=
  (∃ path, ws.store.HasKey (.dict (ws.schema x).tree) path ∧
    (key = path ∨ key ∈ Path.segments path)) ∨
  ∃ b ∈ (ws.schema x).children, key ∈ Path.segments b.path

/-- A sort of names of blocks that contains what is made of them and a path, and a sort of names of
children that contains those standing in a tree and those of hoisted blocks. -/
structure Sorts (block child : String → Prop) : Prop where
  below : ∀ x, Involved ws models x → ∀ b ∈ (ws.schema x).children, ∀ model, model ≠ "" →
    block model → block (Naming.subdocumentName b.path model)
  stood : ∀ x, Involved ws models x → ∀ name, ws.store.HasChild (.dict (ws.schema x).tree) name →
    child name
  hoisted : ∀ name, block name → child name

/-- Trees were filled, and brought in no keys but written ones and no children but those of a
sort. -/
structure Clean (child : String → Prop) (w : Workspace) : Prop where
  filled : Filled (Involved ws models) ws w
  named : ∀ x, Involved ws models x →
    ws.store.NamedBy (Written ws x) child (.dict (w.schema x).tree)

end Definitions

variable {ws w w' : Workspace} {models : Keyed SchemaId} {x id : SchemaId} {model : String}
  {q : Projection} {block child : String → Prop} {key path : String} {flat : Entries}
  {cs : List ChildBinding}

theorem Involved.below (h : Involved ws models x) {b : ChildBinding}
    (hb : b ∈ (ws.schema x).children) : Involved ws models b.schema :=
  h.imp fun _ hm => ⟨hm.1, hm.2.tail ⟨b, hb, rfl⟩⟩

theorem Written.segments (h : Written ws x path) :
    ∀ key ∈ Path.segments path, Written ws x key := by
  have own (dotFree : Path.DotFree path) : ∀ key ∈ Path.segments path, Written ws x key := by
    rw [Path.segments_of_dotFree dotFree]
    simpa using h
  rcases h with ⟨whole, given, rfl | part⟩ | ⟨b, hb, part⟩
  · exact fun key hk => .inl ⟨path, given, .inr hk⟩
  · exact own (Path.dotFree_of_mem_segments part)
  · exact own (Path.dotFree_of_mem_segments part)

/-- In the beginning a tree has the names that it gives. -/
theorem Sorts.clean (sorts : Sorts ws models block child) : Clean ws models child ws where
  filled := .refl ws
  named _ involved :=
    { keys := fun key h => .inl ⟨key, h, .inl rfl⟩
      children := fun name h => sorts.stood _ involved name h }

/-! ## Trees -/

section Trees

variable (sorts : Sorts ws models block child) (clean : Clean ws models child w)
  (involved : Involved ws models x) (own : block model)
include sorts clean involved own

/-- Hoisting writes paths of children and names of their blocks. -/
theorem fits_hoistedForm (named : model ≠ "") : ∀ e ∈ hoistedForm w x model,
    Entrywise.Fits (Written ws x) (ws.store.NamedBy (Written ws x) child) e := by
  have same := clean.filled.sameButTrees
  intro e he
  rw [hoistedForm, same.children] at he
  rcases mem_foldl_hoisted he with ⟨he, -⟩ | ⟨b, hb, emb, called, rfl⟩
  · exact Store.entrywise_namedBy.flatten (fun _ => Written.segments) (clean.named x involved) e he
  · refine ⟨fun key hk => .inr ⟨b, hb, hk⟩, ?_⟩
    have name : child emb.name :=
      called ▸ sorts.hoisted _ (sorts.below x involved b hb model named own)
    unfold childValue
    split
    · exact Store.namedBy_list (by simpa using Store.namedBy_embedded name)
    · exact Store.namedBy_embedded name

theorem namedBy_fillFrom (named : model ≠ "") (clean' : Clean ws models child w') :
    ws.store.NamedBy (Written ws x) child
      (.dict (fillFrom (w'.schema x).tree (hoistedForm w x model))) :=
  Store.entrywise_namedBy.fillFrom (clean'.named x involved)
    (fits_hoistedForm sorts clean involved own named)

theorem namedBy_declaredTree :
    ws.store.NamedBy (Written ws x) child (.dict (declaredTree w (x, model))) := by
  unfold declaredTree blockTree
  dsimp only
  split
  · exact clean.named x involved
  · split
    · exact clean.named x involved
    · exact Store.entrywise_namedBy.unflatten (fits_hoistedForm sorts clean involved own ‹_›)

end Trees

theorem namedBy_of_holds {s : Store} {keys children : String → Prop} {v : Value} {fields : Entries}
    (h : Field.Holds s v fields) (named : s.NamedBy keys children v) :
    s.NamedBy keys children (.dict fields) := by
  induction h with
  | own he => exact Store.entrywise_namedBy.dict_iff.2 fun _ mem => named.entry he mem
  | item hl mem _ ih => exact ih (named.part (.item hl mem))
  | type ht _ ih | value ht _ ih =>
    obtain ⟨_, he, ht⟩ := Option.bind_eq_some_iff.1 ht
    exact ih (named.entry he (Keyed.mem_of_get? ht)).2

/-- The fields of objects have names of the same sorts as the fields that the objects stand in. -/
theorem namedBy_of_encloses {s : Store} {keys children : String → Prop} {f g : String × Value}
    (h : ReflTransGen (Field.Encloses s) f g) (key : keys f.1)
    (named : s.NamedBy keys children f.2) :
    keys g.1 ∧ s.NamedBy keys children g.2 := by
  induction h with
  | refl => exact ⟨key, named⟩
  | tail _ step ih =>
    obtain ⟨fields, declared, mem⟩ := step
    exact (namedBy_of_holds (Field.holds_of_object? declared) ih.2).entry rfl mem

/-- The key of a declared field is written, and a child that stands in it has a name of its sort. -/
theorem named_of_declared (sorts : Sorts ws models block child) (clean : Clean ws models child w)
    (involved : Involved ws models x) (own : block model) {top f : String × Value}
    (mem : top ∈ declaredTree w (x, model))
    (below : ReflTransGen (Field.Encloses ws.store) top f) :
    Written ws x f.1 ∧ ∀ v e, (v = f.2 ∨ ∃ rest, ws.store.items? f.2 = some (v :: rest)) →
      ws.store.embedding? v = some e → child e.name := by
  obtain ⟨key, named⟩ := (namedBy_declaredTree sorts clean involved own).entry rfl mem
  obtain ⟨written, named⟩ := namedBy_of_encloses below key named
  refine ⟨written, fun v e stands he => ?_⟩
  rcases stands with rfl | ⟨rest, items⟩
  · exact named.embedding he
  · exact (named.part (.item items List.mem_cons_self)).embedding he

/-! ## Renderings -/

/-- What is good holds of every block that is written, after a header that is opened so, from the
tree of a schema in a clean workspace. -/
structure WritesGood (ws : Workspace) (models : Keyed SchemaId) (block child : String → Prop)
    (q : Projection) (opened : String → String → Prop) (good : Block → Prop) : Prop where
  opens : ∀ {w x b parent header l}, Clean ws models child w → Involved ws models x →
    b ∈ (ws.schema x).children → parent ≠ "" → block parent →
    childHeader w parent b (Naming.subdocumentName b.path parent) { q with leanVirtuals := l }
      = .ok header → opened (Naming.subdocumentName b.path parent) header
  writes : ∀ {w x name header body l}, Clean ws models child w → Involved ws models x →
    block name → opened name header →
    bodyText ws.store { q with leanVirtuals := l } (declaredTree w (x, name)) = .ok body →
    good ⟨name, header ++ body ++ Comment.blockFooter⟩

namespace WritesGood

variable {opened : String → String → Prop} {good : Block → Prop}
  {enter : SchemaId → Option Renderer} {header : String} {blocks : List Block} {l : Bool}

/-- The renderer of a child leaves a clean workspace and gives good blocks. -/
def Child (ws : Workspace) (models : Keyed SchemaId) (block child : String → Prop) (q : Projection)
    (opened : String → String → Prop) (good : Block → Prop) (enter : SchemaId → Option Renderer)
    (id : SchemaId) : Prop :=
  ∀ render, enter id = some render → ∀ w, Clean ws models child w → ∀ name l header run w',
    block name → opened name header →
    (render name { q with leanVirtuals := l } header).on w = (.ok run, w') →
      Clean ws models child w' ∧ ∀ block ∈ run, good block

variable (writes : WritesGood ws models block child q opened good)
  (sorts : Sorts ws models block child)
include writes sorts

theorem hoistAll (involved : Involved ws models x)
    (embeds : ∀ b ∈ cs, b ∈ (ws.schema x).children) (named : model ≠ "") (own : block model)
    (children : ∀ b ∈ cs, Child ws models block child q opened good enter b.schema)
    {flat' : Entries} {out : List Block} (clean : Clean ws models child w)
    (before : ∀ block ∈ blocks, good block)
    (h : (hoistAll enter model { q with leanVirtuals := l } flat blocks cs).on w
      = (.ok (flat', out), w')) :
    Clean ws models child w' ∧ ∀ block ∈ out, good block := by
  induction cs generalizing w flat blocks with
  | nil =>
    simp only [Compile.hoistAll, pure_on, Prod.mk.injEq, Except.ok.injEq] at h
    obtain ⟨⟨rfl, rfl⟩, rfl⟩ := h
    exact ⟨clean, before⟩
  | cons b rest ih =>
    simp only [Compile.hoistAll, bind_ok_iff] at h
    obtain ⟨r, w₁, hb, hrest⟩ := h
    obtain ⟨render, header, run, he, opening, hr, rfl⟩ := hoist_ok_iff.1 hb
    obtain ⟨inside, others⟩ := List.forall_mem_cons.1 embeds
    obtain ⟨first, siblings⟩ := List.forall_mem_cons.1 children
    have opens : opened (Naming.subdocumentName b.path model) header :=
      writes.opens clean involved inside named own opening
    obtain ⟨clean₁, run_good⟩ := first render he w clean _ _ header run w₁
      (sorts.below x involved b inside model named own) opens hr
    exact ih others siblings clean₁ (List.forall_mem_append.2 ⟨before, run_good⟩) hrest

theorem renderWith (sound : Sound enter) (involved : Involved ws models id)
    (clean : Clean ws models child w) (own : block model) (opens : opened model header)
    (children : ∀ b ∈ (ws.schema id).children,
      Child ws models block child q opened good enter b.schema)
    (h : (renderWith enter id model { q with leanVirtuals := l } header Comment.blockFooter).on w
      = (.ok blocks, w')) :
    (∀ x, Involved ws models x →
      ws.store.NamedBy (Written ws x) child (.dict (w'.schema x).tree)) ∧
      ∀ block ∈ blocks, good block := by
  have same := clean.filled.sameButTrees
  have store := (same.trans (renderWith_ok sound h).sameButTrees).store
  obtain ⟨run, tree, body, hx, text, rfl⟩ := renderWith_ok_iff.1 h
  rw [store] at text
  have last (declared : declaredTree w (id, model) = tree) :
      good ⟨model, header ++ body ++ Comment.blockFooter⟩ :=
    writes.writes clean involved own opens (declared ▸ text)
  by_cases hc : (w.schema id).children ≠ [] ∧ model ≠ ""
  · rw [if_pos hc] at hx
    obtain ⟨flat, w₁, hall, rfl, rfl⟩ := expandWith_ok_iff.1 hx
    obtain ⟨_, -, hoists⟩ := hoistAll_ok sound hall
    have form : flat = hoistedForm w id model := hoists.flat_eq
    rw [same.children] at hall
    obtain ⟨clean₁, below⟩ := writes.hoistAll sorts involved (fun _ hb => hb) hc.2 own children
      clean (by simp) hall
    refine ⟨fun x hx => ?_,
      List.forall_mem_append.2 ⟨below, List.forall_mem_singleton.2 (last ?_)⟩⟩
    · rw [refill, schema_update]
      split
      · rename_i at_id
        rw [at_id.1, form]
        exact namedBy_fillFrom sorts clean involved own hc.2 clean₁
      · exact clean₁.named x hx
    · simp [declaredTree, blockTree, hc, form, hoistedForm]
  · rw [if_neg hc] at hx
    obtain ⟨rfl, rfl, rfl⟩ := hx
    refine ⟨clean.named, List.forall_mem_singleton.2 (last ?_)⟩
    by_cases hm : model = ""
    · simp [declaredTree, hm]
    · simp_all [declaredTree, blockTree]

theorem renderWithin {outside : List SchemaId} (nodup : outside.Nodup) (apart : id ∉ outside)
    (involved : Involved ws models id) (clean : Clean ws models child w) (own : block model)
    (opens : opened model header)
    (h : (renderWithin outside id model { q with leanVirtuals := l } header
      Comment.blockFooter).on w = (.ok blocks, w')) :
    Clean ws models child w' ∧ ∀ block ∈ blocks, good block := by
  induction hn : outside.length using Nat.strongRecOn
    generalizing outside id model l header w w' blocks with
  | ind n ih =>
    have filled := (leaves_renderWithin nodup apart).of_on h
    rw [renderWithin_eq] at h
    obtain ⟨named, written⟩ := writes.renderWith sorts (sound_entering outside) involved clean own
      opens (fun b hb render he w clean name l header run w' own opens hr => by
        obtain ⟨hc, rfl⟩ := entering_eq_some he
        exact ih _ (by rw [← hn]; exact length_erase_lt hc) (nodup.erase b.schema)
          nodup.not_mem_erase (involved.below hb) clean own opens hr rfl) h
    refine ⟨⟨clean.filled.trans (filled.mono fun x hx => ?_), named⟩, written⟩
    obtain ⟨m, hm, reached⟩ := involved
    have reached' := hx.1
    rw [Reaches, clean.filled.sameButTrees.embeds_eq] at reached'
    exact ⟨m, hm, reached.trans reached'⟩

/-- All blocks of a rendering are good, and it leaves a clean workspace. -/
theorem renderBlocks (involved : Involved ws models id) (clean : Clean ws models child w)
    (own : block model) (opens : opened model header)
    (h : (renderBlocks id model { q with leanVirtuals := l } header Comment.blockFooter).on w
      = (.ok blocks, w')) :
    Clean ws models child w' ∧ ∀ block ∈ blocks, good block := by
  rw [renderBlocks_on] at h
  exact writes.renderWithin sorts (nodup_outsideOf w [id]) (by simp [mem_outsideOf]) involved clean
    own opens h

end WritesGood

end ModelTypes.Compile
