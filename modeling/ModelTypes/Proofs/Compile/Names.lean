import Mathlib.Data.List.Forall2
import ModelTypes.Proofs.Compile.Passes
import ModelTypes.Proofs.Compile.References
import ModelTypes.Proofs.Tree.Origin
/-!
# Names of blocks and of references

The blocks of a compilation stand at the sites of its unfolding, in both passes. A block declares
the tree of its schema, in which every child's path holds a reference under the name of the child's
block; since children come first, that block stands earlier in the list.
-/

namespace ModelTypes.Compile

/-! ## Leaves of expanded trees -/

section Leaves

variable {s : Store} {model : String} {flat : Entries} {cs : List ChildBinding}
  {leaf : String × Value}

theorem isLeaf_childValue (e : Embedding) (b : ChildBinding) : (childValue e b).IsLeaf := by
  unfold childValue
  intro entries h
  split at h <;> cases h

theorem mem_foldl_hoisted (h : leaf ∈ cs.foldl (hoisted s model) flat) :
    (leaf ∈ flat ∧ ∀ b ∈ cs, leaf.1 ≠ b.path) ∨
    ∃ b ∈ cs, ∃ e : Embedding, e.name = Naming.subdocumentName b.path model ∧
      leaf = (b.path, childValue e b) := by
  induction cs generalizing flat with
  | nil => exact .inl ⟨h, by simp⟩
  | cons b rest ih =>
    rcases ih h with ⟨hm, hrest⟩ | ⟨c, hc, e, he, hl⟩
    · rcases mem_replacePath hm with rfl | ⟨hm, hb⟩
      · exact .inr ⟨b, List.mem_cons_self, _, rfl, rfl⟩
      · exact .inl ⟨hm, List.forall_mem_cons.2 ⟨hb, hrest⟩⟩
    · exact .inr ⟨c, List.mem_cons_of_mem _ hc, e, he, hl⟩

theorem isLeaf_of_mem_foldl_hoisted (hv : ∀ f ∈ flat, f.2.IsLeaf) :
    ∀ f ∈ cs.foldl (hoisted s model) flat, f.2.IsLeaf := by
  intro f hf
  rcases mem_foldl_hoisted hf with ⟨hm, -⟩ | ⟨b, -, e, -, rfl⟩
  · exact hv f hm
  · exact isLeaf_childValue e b

theorem isLeaf_of_mem_flatten {tree : Entries} : ∀ f ∈ flatten tree, f.2.IsLeaf := fun _ hf =>
  isLeaf_of_mem_leavesUnder (mem_leavesUnder_of_mem_flatten hf)

end Leaves

/-- Whatever leaf a schema's tree has gained stands at the path of a child. -/
def GainsChildrenOnly (ws ws' : Workspace) : Prop :=
  ∀ id, ∀ leaf ∈ leavesUnder "" (ws'.schema id).tree, leaf ∈ leavesUnder "" (ws.schema id).tree ∨
    ∃ b ∈ (ws.schema id).children, leaf.1 = b.path

variable {ws ws' ws₀ ws₁ ws₂ : Workspace} {id : SchemaId} {model : String} {p q : Projection}

theorem GainsChildrenOnly.refl (ws : Workspace) : GainsChildrenOnly ws ws :=
  fun _ _ h => .inl h

theorem GainsChildrenOnly.trans (same : SameButTrees ws ws₁) (h : GainsChildrenOnly ws ws₁)
    (h' : GainsChildrenOnly ws₁ ws₂) : GainsChildrenOnly ws ws₂ := by
  intro id leaf hl
  rcases h' id leaf hl with hl | ⟨b, hb, hp⟩
  · exact h id leaf hl
  · exact .inr ⟨b, same.children id ▸ hb, hp⟩

theorem GainsChildrenOnly.refill {flat : Entries} (h : GainsChildrenOnly ws ws₁)
    (hv : ∀ f ∈ flat, f.2.IsLeaf) (hf : ∀ leaf ∈ flat, leaf ∈ leavesUnder "" (ws.schema id).tree ∨
      ∃ b ∈ (ws.schema id).children, leaf.1 = b.path) :
    GainsChildrenOnly ws (Compile.refill ws₁ id flat) := by
  intro other leaf hl
  unfold Compile.refill at hl
  rw [schema_update] at hl
  split at hl
  · rename_i hid
    rw [hid.1]
    rcases mem_of_mem_fillFrom hv hl with hl | hl
    · exact h id leaf hl
    · exact hf leaf hl
  · exact h other leaf hl

mutual

theorem Renders.gains {ws ws' : Workspace} {id : SchemaId} {model : String} {p : Projection}
    {header footer : String} {blocks : List Block} :
    Renders ws id model p header footer blocks ws' → GainsChildrenOnly ws ws'
  | .alone _ _ => .refl ws
  | .parent _ _ hs _ => by
    have hflat := hs.flat_eq
    refine hs.gains.refill (fun f hf => ?_) fun leaf hl => ?_
    · rw [hflat] at hf
      exact isLeaf_of_mem_foldl_hoisted isLeaf_of_mem_flatten f hf
    · rw [hflat] at hl
      rcases mem_foldl_hoisted hl with ⟨hm, -⟩ | ⟨b, hb, e, -, rfl⟩
      · exact .inl (mem_leavesUnder_of_mem_flatten hm)
      · exact .inr ⟨b, hb, rfl⟩

theorem Hoists.gains {ws ws' : Workspace} {cs : List ChildBinding} {model : String}
    {p : Projection} {flat flat' : Entries} {blocks : List Block} :
    Hoists ws cs model p flat flat' blocks ws' → GainsChildrenOnly ws ws'
  | .nil => .refl ws
  | .cons _ hr hs => hr.gains.trans hr.sameButTrees hs.gains

end

/-! ## What a block shows -/

/-- The projection of a pass at a schema. -/
def projectionAt (ws : Workspace) (p : Projection) (id : SchemaId) : Projection :=
  { p with leanVirtuals := (ws.schema id).leanVirtuals }

/-- The tree that a schema's block declares. -/
def blockTree (ws : Workspace) (site : Site) : Entries :=
  let schema := ws.schema site.1
  if schema.children.isEmpty then schema.tree
  else unflatten (schema.children.foldl (hoisted ws.store site.2) (flatten schema.tree))

/-- A header opens the block of a name. -/
def Opens (document : Bool) (name header : String) : Prop :=
  if document then ∃ docs base, header = Comment.documentHeader docs name base
  else ∃ docs, header = Comment.leanHeader docs name

/-- A leaf of a block's tree refers to a child by one of the given names, or the schema has it
itself, at no child's path. -/
def Declared (ws : Workspace) (site : Site) (names : List String) (leaf : String × Value) : Prop :=
  (∃ b ∈ (ws.schema site.1).children, ∃ e : Embedding,
    e.name = Naming.subdocumentName b.path site.2 ∧ e.name ∈ names ∧
      leaf = (b.path, childValue e b)) ∨
  (leaf ∈ leavesUnder "" (ws.schema site.1).tree ∧
    ∀ b ∈ (ws.schema site.1).children, leaf.1 ≠ b.path)

/-- The text of a block at a site: an opening, and the declaration of a tree whose references are
to the given names. -/
def Shows (ws : Workspace) (p : Projection) (site : Site) (names : List String) (text : String) :
    Prop :=
  ∃ ws₁ header body, SameButTrees ws ws₁ ∧ Opens p.document site.2 header ∧
    bodyText ws.store (projectionAt ws p site.1) (blockTree ws₁ site) = .ok body ∧
    text = header ++ body ++ Comment.blockFooter ∧
    ∀ leaf ∈ leavesUnder "" (blockTree ws₁ site), Declared ws site names leaf

theorem opens_childHeader {parent name header : String} {b : ChildBinding}
    (h : childHeader ws parent b name p = .ok header) : Opens p.document name header := by
  unfold childHeader at h
  unfold Opens
  split at h
  · rename_i hd
    rw [if_neg (by simpa using hd)]
    exact ⟨_, (Except.ok.inj h).symm⟩
  · rename_i hd
    rw [if_pos (by simpa using hd)]
    split at h
    · exact ⟨_, _, (Except.ok.inj h).symm⟩
    · obtain ⟨base, -, h⟩ := Except.bind_eq_ok_iff.1 h
      exact ⟨_, _, (Except.ok.inj h).symm⟩

theorem declared_of_mem_blockTree (same : SameButTrees ws ws₁) (gains : GainsChildrenOnly ws ws₁)
    {site : Site} {names : List String}
    (hn : ∀ b ∈ (ws.schema site.1).children, Naming.subdocumentName b.path site.2 ∈ names) :
    ∀ leaf ∈ leavesUnder "" (blockTree ws₁ site), Declared ws site names leaf := by
  intro leaf hl
  -- A leaf that the tree has gained stands at a child's path, where there is a reference now.
  have own (hm : leaf ∈ leavesUnder "" (ws₁.schema site.1).tree)
      (hb : ∀ b ∈ (ws.schema site.1).children, leaf.1 ≠ b.path) : Declared ws site names leaf := by
    rcases gains site.1 leaf hm with hm | ⟨b, hmem, hp⟩
    · exact .inr ⟨hm, hb⟩
    · exact absurd hp (hb b hmem)
  simp only [blockTree, same.children] at hl
  split at hl
  · rename_i hnil
    rw [List.isEmpty_iff] at hnil
    exact own hl (by simp [hnil])
  · have hm := mem_of_mem_unflatten (isLeaf_of_mem_foldl_hoisted isLeaf_of_mem_flatten) hl
    rcases mem_foldl_hoisted hm with ⟨hm, hb⟩ | ⟨b, hb, e, he, rfl⟩
    · exact own (mem_leavesUnder_of_mem_flatten hm) hb
    · exact .inl ⟨b, hb, e, he, he ▸ hn b hb, rfl⟩

/-- A block shows its site under any names that its children have. -/
def ShowsSite (ws : Workspace) (p : Projection) (site : Site) (block : Block) : Prop :=
  ∀ names : List String,
    (∀ b ∈ (ws.schema site.1).children, Naming.subdocumentName b.path site.2 ∈ names) →
    Shows ws p site names block.text

theorem showsSite_own (same : SameButTrees ws₀ ws) (gains : GainsChildrenOnly ws₀ ws)
    {header body : String} (opens : Opens p.document model header)
    (text : bodyText ws.store (projectionAt ws₀ p id) (blockTree ws (id, model)) = .ok body) :
    ShowsSite ws₀ p (id, model) ⟨model, header ++ body ++ Comment.blockFooter⟩ := fun _ hn =>
  ⟨ws, header, body, same, opens, same.store ▸ text, rfl,
    declared_of_mem_blockTree same gains hn⟩

theorem childProjection_projectionAt (same : SameButTrees ws₀ ws) (b : ChildBinding) :
    childProjection ws (projectionAt ws₀ p id) b = projectionAt ws₀ p b.schema := by
  simp [childProjection, projectionAt, same.leanVirtuals]

mutual

/-- A rendering shows the sites of its unfolding one by one. -/
theorem Renders.shows {ws₀ ws ws' : Workspace} {id : SchemaId} {model : String} {p q : Projection}
    {header footer : String} {blocks : List Block} {sites : List Site}
    (proper : Naming.Proper model) (same : SameButTrees ws₀ ws) (gains : GainsChildrenOnly ws₀ ws)
    (hq : q = projectionAt ws₀ p id) (hf : footer = Comment.blockFooter)
    (opens : Opens p.document model header) :
    Renders ws id model q header footer blocks ws' → Unfolds ws₀ id model sites →
      List.Forall₂ (ShowsSite ws₀ p) sites blocks
  | .alone hc ht, .intro below => by
    have hnil := hc.resolve_right proper.1
    rw [same.children] at hnil
    rw [hnil] at below
    cases below
    subst hq hf
    refine .cons (showsSite_own same gains opens ?_) .nil
    simpa [blockTree, same.children, hnil] using ht
  | .parent hc _ hs ht, .intro below => by
    have hflat := hs.flat_eq
    have hstore := hs.sameButTrees.store
    rw [same.children] at hs
    have children := hs.shows proper same gains hq below
    subst hq hf
    refine List.rel_append children (.cons (showsSite_own same gains opens ?_) .nil)
    rw [hstore] at ht
    simpa [blockTree, hc, ← hflat] using ht

theorem Hoists.shows {ws₀ ws ws' : Workspace} {cs : List ChildBinding} {id : SchemaId}
    {model : String} {p q : Projection} {flat flat' : Entries} {blocks : List Block}
    {sites : List Site} (proper : Naming.Proper model) (same : SameButTrees ws₀ ws)
    (gains : GainsChildrenOnly ws₀ ws) (hq : q = projectionAt ws₀ p id) :
    Hoists ws cs model q flat flat' blocks ws' → UnfoldsAll ws₀ model cs sites →
      List.Forall₂ (ShowsSite ws₀ p) sites blocks
  | .nil, .nil => .nil
  | .cons opening hr hs, .cons below siblings => by
    have hchild (b : ChildBinding) : childProjection ws q b = projectionAt ws₀ p b.schema := by
      rw [hq]
      exact childProjection_projectionAt same b
    have opens := opens_childHeader opening
    rw [hchild] at opens
    have run := hr.shows (Naming.proper_subdocumentName proper _) same gains (hchild _) rfl opens
      below
    have others := hs.shows proper (same.trans hr.sameButTrees) (gains.trans same hr.gains) hq
      siblings
    exact List.rel_append run others

end

/-! ## Compilations -/

theorem exists_of_forall₂ {α β : Type} {R : α → β → Prop} {as : List α} {bs : List β}
    (h : List.Forall₂ R as bs) {i : Nat} {b : β} (hb : bs[i]? = some b) :
    ∃ a, as[i]? = some a ∧ R a b := by
  induction h generalizing i with
  | nil => simp at hb
  | cons hr _ ih =>
    cases i with
    | zero => exact ⟨_, rfl, Option.some.inj hb ▸ hr⟩
    | succ i => exact ih hb

/-- The names of a site's children stand in front of it. -/
theorem ChildrenFirst.mem_take {sites : List Site} (h : ChildrenFirst ws sites) {i : Nat}
    {site : Site} (hi : sites[i]? = some site) : ∀ b ∈ (ws.schema site.1).children,
    Naming.subdocumentName b.path site.2 ∈ (sites.take i).map (·.2) := by
  intro b hb
  obtain ⟨hlt, rfl⟩ := List.getElem?_eq_some_iff.1 hi
  have split : sites = sites.take i ++ sites[i] :: sites.drop (i + 1) := by
    rw [← List.drop_eq_getElem_cons hlt, List.take_append_drop]
  exact List.mem_map_of_mem (h _ _ _ split b hb)

/-- The blocks of a compilation stand at the sites of the unfolding of its root, children first,
and what they refer to by a child's path is named by an earlier block. Pairing the two passes never
fails. -/
theorem compile_names (proper : Naming.Proper model) (ws : Workspace) (id : SchemaId)
    (plainIds : Bool) :
    (∀ e ws', (compile id model plainIds).on ws = (.error e, ws') →
      ∀ lean document, e ≠ .unpairedBlock lean document) ∧
    ∀ paired ws', (compile id model plainIds).on ws = (.ok paired, ws') →
      ∃ sites, Unfolds ws id model sites ∧ ChildrenFirst ws sites ∧
        paired.map (·.name) = sites.map (·.2) ∧
        ∀ i block, paired[i]? = some block → ∃ site, sites[i]? = some site ∧
          Shows ws (leanPass ws id plainIds) site ((paired.take i).map (·.name)) block.lean ∧
          block.document.isNone = plainIds ∧
          ∀ text ∈ block.document,
            Shows ws (documentPass ws id) site ((paired.take i).map (·.name)) text := by
  refine ⟨fun e ws' h lean document he => ?_, fun paired ws' h => ?_⟩
  · subst he
    rcases compile_error h with h | ⟨ws₁, p, header, ws₂, -, h⟩
    · rcases h with ⟨_, h⟩ | ⟨_, h⟩ <;> simp at h
    · rw [renderBlocks_on] at h
      rcases renderWithin_error h with (⟨_, h⟩ | ⟨_, h⟩) | ⟨_, h⟩ <;> simp at h
  · obtain ⟨leans, ws₁, lean, completes⟩ := compile_ok h
    obtain ⟨sites, unfolds, names⟩ := lean.unfolds proper
    have first := unfolds.childrenFirst
    have leanShows : List.Forall₂ (ShowsSite ws (leanPass ws id plainIds)) sites leans :=
      lean.shows proper (.refl ws) (.refl ws) rfl rfl ⟨_, rfl⟩ unfolds
    have earlier {site : Site} {i : Nat} {paired : List PairedBlock}
        (hp : paired.map (·.name) = sites.map (·.2)) (hi : sites[i]? = some site) :
        ∀ b ∈ (ws.schema site.1).children,
          Naming.subdocumentName b.path site.2 ∈ (paired.take i).map (·.name) := by
      rw [List.map_take, hp, ← List.map_take]
      exact first.mem_take hi
    cases completes with
    | plain done =>
      have hp : (leans.map unpaired).map (·.name) = sites.map (·.2) := by
        rw [List.map_map]
        exact names
      refine ⟨sites, unfolds, first, hp, fun i block hb => ?_⟩
      rw [List.getElem?_map, Option.map_eq_some_iff] at hb
      obtain ⟨b, hb, rfl⟩ := hb
      obtain ⟨site, hi, hs⟩ := exists_of_forall₂ leanShows hb
      exact ⟨site, hi, hs _ (earlier hp hi), rfl, by simp [unpaired]⟩
    | paired opening pass =>
      rename_i base documents
      have documentShows : List.Forall₂ (ShowsSite ws (documentPass ws id)) sites documents :=
        pass.shows proper lean.sameButTrees lean.gains rfl rfl ⟨_, _, rfl⟩ unfolds
      have hp : (leans.zipWith pair documents).map (·.name) = sites.map (·.2) := by
        rw [map_name_zipWith_pair (lean.names_eq lean.sameButTrees pass), names]
      refine ⟨sites, unfolds, first, hp, fun i block hb => ?_⟩
      obtain ⟨l, d, hl, hd, rfl⟩ := List.getElem?_zipWith_eq_some.1 hb
      obtain ⟨site, hi, hs⟩ := exists_of_forall₂ leanShows hl
      obtain ⟨site', hi', hs'⟩ := exists_of_forall₂ documentShows hd
      obtain rfl : site' = site := Option.some.inj (hi'.symm.trans hi)
      refine ⟨site', hi, hs _ (earlier hp hi), rfl, fun text ht => ?_⟩
      rw [← Option.some.inj ht]
      exact hs' _ (earlier hp hi)

/-- A schema with a child that has an array of another schema. -/
def nested : Workspace where
  schemas :=
    [{ tree := [("a", .schema 1)], children := [⟨"a", 1, false⟩] },
     { tree := [("c", .list [.schema 2])], children := [⟨"c", 2, true⟩] },
     {}]

theorem compile_names_nested : Naming.Proper "Ab" ∧
    ∃ paired ws', (compile 0 "Ab").on nested = (.ok paired, ws') ∧
      paired.map (·.name) = ["AbAC", "AbA", "Ab"] := by
  have proper : Naming.Proper "Ab" := by
    unfold Naming.Proper
    decide
  have returns : ((compile 0 "Ab").on nested).1.isOk = true := by decide +kernel
  have own : ∃ sites, Unfolds nested 0 "Ab" sites ∧ sites.map (·.2) = ["AbAC", "AbA", "Ab"] :=
    ⟨_, .intro (.cons (.intro (.cons (.intro .nil) .nil)) .nil), by decide +kernel⟩
  rcases h : (compile 0 "Ab").on nested with ⟨_ | paired, ws'⟩
  · rw [h] at returns
    cases returns
  · obtain ⟨sites, unfolds, -, names, -⟩ := (compile_names proper nested 0 false).2 paired ws' h
    obtain ⟨sites', unfolds', names'⟩ := own
    rw [unfolds.unique unfolds', names'] at names
    exact ⟨proper, paired, ws', rfl, names⟩

end ModelTypes.Compile
