import ModelTypes.Proofs.Compile.Growth
import ModelTypes.Proofs.Compile.Names
/-!
# Renderings do not depend on earlier ones

Renderings leave grown trees behind, and nothing else. `Draws` gives the blocks of a schema in one
workspace that stays as it is; a rendering in a workspace in which trees have grown since draws the
same blocks. Only the identifiers that document blocks show are read from trees as they are, so
there the trees must have grown already.
-/

namespace ModelTypes.Compile

/-! ## Grown workspaces -/

/-- A schema's tree in `ws` is its tree in `base`, grown. -/
def Done (base ws : Workspace) (id : SchemaId) : Prop :=
  ∃ model, (ws.schema id).tree
    = grown base.store model (base.schema id).children (base.schema id).tree

/-- Plain trees have grown since `base` at most. -/
def Grown (base ws : Workspace) : Prop :=
  ∀ id, Plain (base.schema id).tree →
    (ws.schema id).tree = (base.schema id).tree ∨ Done base ws id

/-- A schema's tree does not grow any more. -/
def Steady (ws : Workspace) (id : SchemaId) : Prop :=
  ∀ model, grown ws.store model (ws.schema id).children (ws.schema id).tree = (ws.schema id).tree

variable {base ws ws' ws₁ ws₂ : Workspace} {id x : SchemaId} {model : String} {p : Projection}

theorem Grown.refl (ws : Workspace) : Grown ws ws := fun _ _ => .inl rfl

theorem Done.congr (h : Done base ws x) (ht : (ws₁.schema x).tree = (ws.schema x).tree) :
    Done base ws₁ x := by
  obtain ⟨model, h⟩ := h
  exact ⟨model, ht.trans h⟩

theorem done_of_children_eq_nil (h : (base.schema id).children = [])
    (ht : (ws.schema id).tree = (base.schema id).tree) : Done base ws id :=
  ⟨"", by rw [ht, h, grown, references, filledUnder_no_places]⟩

/-- A tree that is done is steady. -/
theorem Done.steady (same : SameButTrees base ws) (plain : Plain (base.schema id).tree)
    (h : Done base ws id) : Steady ws id := by
  obtain ⟨model, h⟩ := h
  intro model'
  rw [h, same.store, same.children, grown_grown plain]

theorem Steady.tree_eq (h : Steady base id) (plain : Plain (base.schema id).tree)
    (grown : Grown base ws) : (ws.schema id).tree = (base.schema id).tree := by
  rcases grown id plain with ht | ⟨model, ht⟩
  · exact ht
  · exact ht.trans (h model)

/-- Growing goes on from where it stopped. -/
theorem Grown.trans (h : Grown base ws)
    (step : ∀ id, Plain (base.schema id).tree →
      (ws₁.schema id).tree = (ws.schema id).tree ∨ Done base ws₁ id) : Grown base ws₁ := by
  intro id plain
  rcases step id plain with ht | hd
  · exact (h id plain).imp ht.trans fun hd => hd.congr ht
  · exact .inr hd

/-- What hoisting makes of a tree that may have grown already. -/
theorem done_refill {flat : Entries} (same : SameButTrees base ws) (h : Grown base ws)
    (plain : Plain (base.schema id).tree) (hid : id < ws₁.schemas.length)
    (ht : (ws₁.schema id).tree = (ws.schema id).tree)
    (hflat : flat = (ws.schema id).children.foldl (hoisted ws.store model)
      (flatten (ws.schema id).tree)) : Done base (refill ws₁ id flat) id := by
  have htree : ((refill ws₁ id flat).schema id).tree = fillFrom (ws.schema id).tree flat := by
    rw [refill, schema_update, if_pos ⟨rfl, hid⟩, ← ht]
  rcases h id plain with hold | ⟨model', hold⟩
  · refine ⟨model, ?_⟩
    rw [htree, hflat, hold, fillFrom_foldl_hoisted plain, same.store, same.children]
  · refine ⟨model', ?_⟩
    rw [htree, hflat, hold, fillFrom_foldl_hoisted (plain_grown plain), same.store, same.children,
      grown_grown plain]

theorem schema_refill_of_ne {flat : Entries} (h : x ≠ id) :
    (refill ws id flat).schema x = ws.schema x := by
  rw [refill, schema_update, if_neg fun hc => h hc.1]

theorem lt_of_children_ne_nil (h : (ws.schema id).children ≠ []) : id < ws.schemas.length := by
  by_cases hlt : id < ws.schemas.length
  · exact hlt
  · exact absurd (by simp [Workspace.schema, List.getElem?_eq_none (Nat.le_of_not_lt hlt)]) h

/-! ## What a rendering reaches -/

/-- A schema stands at or below another. -/
abbrev Reaches (ws : Workspace) : SchemaId → SchemaId → Prop := Relation.ReflTransGen (Embeds ws)

theorem SameButTrees.embeds_eq (h : SameButTrees ws ws') : Embeds ws' = Embeds ws := by
  funext parent child
  simp only [Embeds, h.children]

/-- All schemas at or below a root have a property. -/
def Throughout (ws : Workspace) (root : SchemaId) (P : SchemaId → Prop) : Prop :=
  ∀ x, Reaches ws root x → P x

theorem Throughout.own {P : SchemaId → Prop} (h : Throughout ws id P) : P id := h id .refl

theorem Throughout.child {P : SchemaId → Prop} (h : Throughout ws id P) {b : ChildBinding}
    (hb : b ∈ (ws.schema id).children) : Throughout ws b.schema P :=
  fun x hx => h x (.head ⟨b, hb, rfl⟩ hx)

theorem throughout_iff {P : SchemaId → Prop} : Throughout ws id P ↔
    P id ∧ ∀ b ∈ (ws.schema id).children, Throughout ws b.schema P := by
  refine ⟨fun h => ⟨h.own, fun b hb => h.child hb⟩, fun ⟨own, below⟩ x hx => ?_⟩
  rcases hx.cases_head with rfl | ⟨_, ⟨b, hb, rfl⟩, hx⟩
  · exact own
  · exact below b hb x hx

mutual

/-- Only trees at or below the root change. -/
theorem Renders.frame {ws ws' : Workspace} {id x : SchemaId} {model : String} {p : Projection}
    {header footer : String} {blocks : List Block} :
    Renders ws id model p header footer blocks ws' → ¬ Reaches ws id x →
      ws'.schema x = ws.schema x
  | .alone _ _, _ => rfl
  | .parent _ _ hs _, hx => by
    have hne : x ≠ id := fun he => hx (he ▸ .refl)
    rw [schema_refill_of_ne hne]
    exact hs.frame fun b hb hc => hx (.head ⟨b, hb, rfl⟩ hc)

theorem Hoists.frame {ws ws' : Workspace} {cs : List ChildBinding} {x : SchemaId} {model : String}
    {p : Projection} {flat flat' : Entries} {blocks : List Block} :
    Hoists ws cs model p flat flat' blocks ws' → (∀ b ∈ cs, ¬ Reaches ws b.schema x) →
      ws'.schema x = ws.schema x
  | .nil, _ => rfl
  | .cons _ hr hs, hx => by
    have same := hr.sameButTrees
    have first := hr.frame (hx _ List.mem_cons_self)
    have others := hs.frame (x := x) fun b hb => by
      rw [Reaches, same.embeds_eq]
      exact hx b (List.mem_cons_of_mem _ hb)
    rw [others, first]

end

/-- Embedding ends below a schema. -/
abbrev Ends (ws : Workspace) : SchemaId → Prop := Acc fun child parent => Embeds ws parent child

theorem Ends.not_reaches (h : Ends ws id) {b : ChildBinding} (hb : b ∈ (ws.schema id).children) :
    ¬ Reaches ws b.schema id := fun hc =>
  not_transGen_self_of_acc h (.head' ⟨b, hb, rfl⟩ hc)

/-- Embedding ends below every child too, and no child encloses the parent. -/
theorem Ends.below (same : SameButTrees base ws) (h : Ends base id) :
    ∀ b ∈ (ws.schema id).children, Ends base b.schema ∧ ¬ Reaches ws b.schema id := by
  intro b hb
  rw [same.children] at hb
  rw [Reaches, same.embeds_eq]
  exact ⟨h.inv ⟨b, hb, rfl⟩, h.not_reaches hb⟩

/-! ## How renderings grow trees -/

mutual

/-- A rendering leaves a plain tree alone, or lets it grow. -/
theorem Renders.effect {base ws ws' : Workspace} {id : SchemaId} {model : String} {p : Projection}
    {header footer : String} {blocks : List Block} (same : SameButTrees base ws)
    (h : Grown base ws) (ends : Ends base id) : Renders ws id model p header footer blocks ws' →
      ∀ x, Plain (base.schema x).tree →
        (ws'.schema x).tree = (ws.schema x).tree ∨ Done base ws' x
  | .alone _ _ => fun _ _ => .inl rfl
  | .parent hc _ hs _ => by
    have hflat := hs.flat_eq
    have inner := hs.effect same h fun b hb => (ends.below same b hb).1
    -- The children leave the parent's tree alone, as none of them encloses it.
    have own := hs.frame fun b hb => (ends.below same b hb).2
    have hid := lt_of_children_ne_nil hc
    rw [← hs.sameButTrees.length] at hid
    intro x plain
    by_cases hx : x = id
    · subst hx
      exact .inr (done_refill same h plain hid (by rw [own]) hflat)
    · refine (inner x plain).imp (fun ht => ?_) fun hd => hd.congr ?_
      · rw [schema_refill_of_ne hx, ht]
      · rw [schema_refill_of_ne hx]

theorem Hoists.effect {base ws ws' : Workspace} {cs : List ChildBinding} {model : String}
    {p : Projection} {flat flat' : Entries} {blocks : List Block} (same : SameButTrees base ws)
    (h : Grown base ws) (ends : ∀ b ∈ cs, Ends base b.schema) :
    Hoists ws cs model p flat flat' blocks ws' → ∀ x, Plain (base.schema x).tree →
      (ws'.schema x).tree = (ws.schema x).tree ∨ Done base ws' x
  | .nil => fun _ _ => .inl rfl
  | .cons _ hr hs => by
    have first := hr.effect same h (ends _ List.mem_cons_self)
    have others := hs.effect (same.trans hr.sameButTrees) (h.trans first) fun b hb =>
      ends b (List.mem_cons_of_mem _ hb)
    intro x plain
    rcases others x plain with ht | hd
    · exact (first x plain).imp ht.trans fun hd => hd.congr ht
    · exact .inr hd

end

theorem Renders.grown {header footer : String} {blocks : List Block} (same : SameButTrees base ws)
    (h : Grown base ws) (ends : Ends base id)
    (hr : Renders ws id model p header footer blocks ws') : Grown base ws' :=
  h.trans (hr.effect same h ends)

theorem Hoists.grown {cs : List ChildBinding} {flat flat' : Entries} {blocks : List Block}
    (same : SameButTrees base ws) (h : Grown base ws) (ends : ∀ b ∈ cs, Ends base b.schema)
    (hs : Hoists ws cs model p flat flat' blocks ws') : Grown base ws' :=
  h.trans (hs.effect same h ends)

mutual

/-- After a rendering under a proper name all plain trees below the root are done. -/
theorem Renders.done {base ws ws' : Workspace} {id : SchemaId} {model : String} {p : Projection}
    {header footer : String} {blocks : List Block} (proper : Naming.Proper model)
    (same : SameButTrees base ws) (h : Grown base ws) (ends : Ends base id) :
    Renders ws id model p header footer blocks ws' →
      ∀ x, Reaches base id x → Plain (base.schema x).tree → Done base ws' x
  | .alone hc _ => by
    have hnil := hc.resolve_right proper.1
    rw [same.children] at hnil
    intro x hx plain
    rcases hx.cases_head with rfl | ⟨y, ⟨b, hb, -⟩, -⟩
    · rcases h _ plain with ht | hd
      · exact done_of_children_eq_nil hnil ht
      · exact hd
    · simp [hnil] at hb
  | .parent hc _ hs _ => by
    have hflat := hs.flat_eq
    have hid := lt_of_children_ne_nil hc
    rw [← hs.sameButTrees.length] at hid
    have own := hs.frame fun b hb => (ends.below same b hb).2
    have inner := hs.done proper same h fun b hb => (ends.below same b hb).1
    rw [same.children] at inner
    intro x hx plain
    rcases hx.cases_head with rfl | ⟨y, ⟨b, hb, rfl⟩, hx⟩
    · exact done_refill same h plain hid (by rw [own]) hflat
    · have hne : x ≠ id := fun he => ends.not_reaches hb (he ▸ hx)
      exact (inner b hb x hx plain).congr (by rw [schema_refill_of_ne hne])

theorem Hoists.done {base ws ws' : Workspace} {cs : List ChildBinding} {model : String}
    {p : Projection} {flat flat' : Entries} {blocks : List Block} (proper : Naming.Proper model)
    (same : SameButTrees base ws) (h : Grown base ws) (ends : ∀ b ∈ cs, Ends base b.schema) :
    Hoists ws cs model p flat flat' blocks ws' →
      ∀ b ∈ cs, ∀ x, Reaches base b.schema x → Plain (base.schema x).tree → Done base ws' x
  | .nil => by simp
  | .cons _ hr hs => by
    have hfirst := ends _ List.mem_cons_self
    have hrest := fun b hb => ends b (List.mem_cons_of_mem _ hb)
    -- What the first child has done stays done while the others are rendered.
    have first := hr.done (Naming.proper_subdocumentName proper _) same h hfirst
    have hgrown := hr.grown same h hfirst
    have hsame := same.trans hr.sameButTrees
    have others := hs.done proper hsame hgrown hrest
    have effect := hs.effect hsame hgrown hrest
    intro b hb x hx plain
    rcases List.mem_cons.1 hb with rfl | hb
    · rcases effect x plain with ht | hd
      · exact (first x hx plain).congr ht
      · exact hd
    · exact others b hb x hx plain

end

/-! ## Drawing -/

mutual

/-- The blocks of a schema in a workspace that stays as it is. -/
inductive Draws (ws : Workspace) : SchemaId → String → Projection → String → String →
    List Block → Prop
  | intro {id : SchemaId} {model : String} {p : Projection} {header footer body : String}
      {blocks : List Block}
      (below : DrawsAll ws (ws.schema id).children model p blocks)
      (text : bodyText ws.store p (blockTree ws (id, model)) = .ok body) :
      Draws ws id model p header footer (blocks ++ [⟨model, header ++ body ++ footer⟩])

/-- The blocks of children, child by child. -/
inductive DrawsAll (ws : Workspace) : List ChildBinding → String → Projection → List Block → Prop
  | nil {model : String} {p : Projection} : DrawsAll ws [] model p []
  | cons {b : ChildBinding} {rest : List ChildBinding} {model : String} {p : Projection}
      {header : String} {run blocks : List Block}
      (opening : childHeader ws model b (Naming.subdocumentName b.path model)
        (childProjection ws p b) = .ok header)
      (child : Draws ws b.schema (Naming.subdocumentName b.path model) (childProjection ws p b)
        header Comment.blockFooter run)
      (others : DrawsAll ws rest model p blocks) :
      DrawsAll ws (b :: rest) model p (run ++ blocks)

end

mutual

/-- Under two headers the same is drawn, up to the headers. -/
theorem Draws.unique {ws : Workspace} {id : SchemaId} {model : String} {p : Projection}
    {header header' footer : String} {blocks blocks' : List Block} :
    Draws ws id model p header footer blocks → Draws ws id model p header' footer blocks' →
      ∃ inner body, blocks = inner ++ [⟨model, header ++ body ++ footer⟩] ∧
        blocks' = inner ++ [⟨model, header' ++ body ++ footer⟩]
  | .intro below text, .intro below' text' => by
    rw [text] at text'
    cases text'
    exact ⟨_, _, rfl, by rw [below.unique below']⟩

theorem DrawsAll.unique {ws : Workspace} {cs : List ChildBinding} {model : String}
    {p : Projection} {blocks blocks' : List Block} :
    DrawsAll ws cs model p blocks → DrawsAll ws cs model p blocks' → blocks = blocks'
  | .nil, .nil => rfl
  | .cons opening child others, .cons opening' child' others' => by
    rw [opening] at opening'
    cases opening'
    obtain ⟨inner, body, rfl, rfl⟩ := child.unique child'
    rw [others.unique others']

end

/-- A block declares the same tree before and after the schema's tree has grown. -/
theorem blockTree_eq (same : SameButTrees base ws) (h : Grown base ws)
    (plain : Plain (base.schema id).tree) :
    blockTree ws (id, model) = blockTree base (id, model) := by
  simp only [blockTree, same.children, same.store]
  rcases h id plain with ht | ⟨model', ht⟩
  · rw [ht]
  · split
    · rename_i hnil
      rw [ht, List.isEmpty_iff.1 hnil, grown, references, filledUnder_no_places]
    · rw [ht, unflatten_foldl_hoisted_grown plain]

/-- The opening of a child's block reads the child's tree in document blocks only. -/
theorem childHeader_eq (same : SameButTrees base ws) {b : ChildBinding} {name : String}
    (ht : p.document = true → (ws.schema b.schema).tree = (base.schema b.schema).tree) :
    childHeader ws model b name p = childHeader base model b name p := by
  unfold childHeader
  by_cases hd : p.document = true
  · rw [ht hd, same.store]
  · simp [hd]

mutual

/-- What is rendered in a grown workspace is drawn in the workspace that it has grown from. -/
theorem Renders.draws {base ws ws' : Workspace} {id : SchemaId} {model : String} {p : Projection}
    {header footer : String} {blocks : List Block} (proper : Naming.Proper model)
    (same : SameButTrees base ws) (h : Grown base ws) (ends : Ends base id)
    (plain : ∀ x, Reaches base id x → Plain (base.schema x).tree)
    (steady : p.document = true → ∀ x, Reaches base id x → Steady base x) :
    Renders ws id model p header footer blocks ws' → Draws base id model p header footer blocks
  | .alone hc ht => by
    have hnil := hc.resolve_right proper.1
    have htree : blockTree ws (id, model) = (ws.schema id).tree := by simp [blockTree, hnil]
    rw [same.children] at hnil
    rw [← htree, blockTree_eq same h (plain id .refl), same.store] at ht
    have below : DrawsAll base (base.schema id).children model p [] := hnil ▸ .nil
    exact .intro below ht
  | .parent hc _ hs ht => by
    have hflat := hs.flat_eq
    have htree : blockTree ws (id, model) = unflatten ((ws.schema id).children.foldl
        (hoisted ws.store model) (flatten (ws.schema id).tree)) := by simp [blockTree, hc]
    have children := hs.draws proper same h (fun b hb => (ends.below same b hb).1)
      (fun b hb x hx => plain x (.head ⟨b, same.children id ▸ hb, rfl⟩ hx))
      fun hd b hb x hx => steady hd x (.head ⟨b, same.children id ▸ hb, rfl⟩ hx)
    rw [hflat, ← htree, blockTree_eq same h (plain id .refl), hs.sameButTrees.store,
      same.store] at ht
    exact .intro (same.children id ▸ children) ht

theorem Hoists.draws {base ws ws' : Workspace} {cs : List ChildBinding} {model : String}
    {p : Projection} {flat flat' : Entries} {blocks : List Block} (proper : Naming.Proper model)
    (same : SameButTrees base ws) (h : Grown base ws) (ends : ∀ b ∈ cs, Ends base b.schema)
    (plain : ∀ b ∈ cs, ∀ x, Reaches base b.schema x → Plain (base.schema x).tree)
    (steady : p.document = true → ∀ b ∈ cs, ∀ x, Reaches base b.schema x → Steady base x) :
    Hoists ws cs model p flat flat' blocks ws' → DrawsAll base cs model p blocks
  | .nil => .nil
  | @Hoists.cons _ b rest _ _ _ _ _ _ _ _ _ opening hr hs => by
    have hmem : b ∈ b :: rest := List.mem_cons_self
    have first (hd : (childProjection ws p b).document = true) := steady hd b hmem
    -- Only a document block shows the child's identifier, read from the tree as it is.
    have htree (hd : (childProjection ws p b).document = true) :
        (ws.schema b.schema).tree = (base.schema b.schema).tree :=
      (first hd b.schema .refl).tree_eq (plain b hmem b.schema .refl) h
    rw [childHeader_eq same htree, same.childProjection] at opening
    have run := hr.draws (Naming.proper_subdocumentName proper _) same h (ends b hmem)
      (plain b hmem) first
    have others := hs.draws proper (same.trans hr.sameButTrees) (hr.grown same h (ends b hmem))
      (fun c hc => ends c (List.mem_cons_of_mem _ hc))
      (fun c hc => plain c (List.mem_cons_of_mem _ hc))
      fun hd c hc => steady hd c (List.mem_cons_of_mem _ hc)
    rw [same.childProjection] at run
    exact .cons opening run others

end

end ModelTypes.Compile
