import ModelTypes.Proofs.Compile.Drawing
import ModelTypes.Proofs.Compile.Expansion
/-!
# A child's blocks in its parent's

The blocks that a compilation holds for one child of its root are those of the child's own
compilation, but for the opening of the last one. Nothing of the parent reaches the child: not its
name beyond the name of the child's block, not its options, and not its lineage.
-/

namespace ModelTypes.Compile

variable {base ws ws' ws₁ ws₂ : Workspace} {id root : SchemaId} {model : String} {p : Projection}
  {before after : List ChildBinding} {b : ChildBinding}

/-! ## Later workspaces -/

/-- A workspace that renderings have made of another one. -/
structure Later (base ws : Workspace) : Prop where
  same : SameButTrees base ws
  grown : Grown base ws

theorem Later.refl (ws : Workspace) : Later ws ws := ⟨.refl ws, .refl ws⟩

theorem Later.renders {header footer : String} {blocks : List Block} (h : Later base ws)
    (ends : Ends base id) (hr : Renders ws id model p header footer blocks ws') : Later base ws' :=
  ⟨h.same.trans hr.sameButTrees, hr.grown h.same h.grown ends⟩

theorem Later.completes {leans : List Block} {plainIds : Bool} {paired : List PairedBlock}
    (h : Later base ws) (ends : Ends base id)
    (hc : Completes ws ws' id model p leans plainIds paired) : Later base ws' := by
  cases hc with
  | plain done => exact done ▸ h
  | paired _ pass => exact h.renders ends pass

theorem Later.plain (h : Later base ws) (plain : Plain (base.schema id).tree) :
    Plain (ws.schema id).tree := by
  rcases h.grown id plain with ht | ⟨model, ht⟩ <;> rw [ht]
  · exact plain
  · exact plain_grown plain

/-- After a rendering of a root nothing below it grows any more. -/
theorem Later.steady {header footer : String} {blocks : List Block} (proper : Naming.Proper model)
    (h : Later base ws) (ends : Ends base id)
    (hr : Renders ws id model p header footer blocks ws') {x : SchemaId}
    (hx : Reaches base id x) (plain : Plain (base.schema x).tree) : Steady ws' x :=
  (hr.done proper h.same h.grown ends x hx plain).steady (h.same.trans hr.sameButTrees) plain

/-! ## One child of a rendering -/

theorem Hoists.append_inv {cs : List ChildBinding} {flat flat' : Entries} {blocks : List Block}
    (h : Hoists ws (before ++ cs) model p flat flat' blocks ws') :
    ∃ flat₁ ws₁ earlier later, Hoists ws before model p flat flat₁ earlier ws₁ ∧
      Hoists ws₁ cs model p flat₁ flat' later ws' ∧ blocks = earlier ++ later := by
  induction before generalizing ws flat blocks with
  | nil => exact ⟨flat, ws, [], blocks, .nil, h, rfl⟩
  | cons c rest ih =>
    cases h with
    | cons opening child others =>
      obtain ⟨flat₁, ws₁, earlier, later, hearlier, hlater, rfl⟩ := ih others
      exact ⟨flat₁, ws₁, _, later, .cons opening child hearlier, hlater, by simp⟩

/-- The names of the blocks of children and of all below them, child by child. -/
def NamesBelow (ws : Workspace) (model : String) (cs : List ChildBinding) (names : List String) :
    Prop :=
  ∃ sites, UnfoldsAll ws model cs sites ∧ sites.map (·.2) = names

theorem NamesBelow.unique {cs : List ChildBinding} {names names' : List String}
    (h : NamesBelow ws model cs names) (h' : NamesBelow ws model cs names') : names = names' := by
  obtain ⟨sites, hu, rfl⟩ := h
  obtain ⟨sites', hu', rfl⟩ := h'
  rw [hu.unique hu']

theorem NamesBelow.of_sameButTrees {cs : List ChildBinding} {names : List String}
    (same : SameButTrees ws ws') (h : NamesBelow ws' model cs names) :
    NamesBelow ws model cs names := by
  obtain ⟨sites, hu, hn⟩ := h
  exact ⟨sites, hu.of_sameButTrees same, hn⟩

theorem Hoists.namesBelow {cs : List ChildBinding} {flat flat' : Entries} {blocks : List Block}
    (proper : Naming.Proper model) (h : Hoists ws cs model p flat flat' blocks ws') :
    NamesBelow ws model cs (blocks.map (·.name)) := by
  obtain ⟨sites, hu, hn⟩ := h.unfolds proper
  exact ⟨sites, hu, hn.symm⟩

/-- The blocks of a pass around the run of one child, with the run's last block apart. -/
def PassHolds (ws : Workspace) (model : String) (before : List ChildBinding) (b : ChildBinding)
    (after : List ChildBinding) (Opening : String → Prop) (opening : String)
    (whole part : List Block) : Prop :=
  ∃ earlier inner header text later,
    whole = earlier ++ (inner ++ [⟨Naming.subdocumentName b.path model, header ++ text⟩]) ++ later ∧
    part = inner ++ [⟨Naming.subdocumentName b.path model, opening ++ text⟩] ∧ Opening header ∧
    NamesBelow ws model before (earlier.map (·.name)) ∧
    ∃ names, NamesBelow ws model after names ∧ later.map (·.name) = names ++ [model]

/-- Of two renderings in workspaces grown from one, that of a schema holds the blocks of that of
its child. -/
theorem passHolds (proper : Naming.Proper model)
    (embeds : (base.schema root).children = before ++ b :: after) (ends : Ends base root)
    (plain : ∀ x, Reaches base b.schema x → Plain (base.schema x).tree)
    (steady : p.document = true → ∀ x, Reaches base b.schema x → Steady base x)
    (later₁ : Later base ws₁) {header footer : String} {whole : List Block}
    (hwhole : Renders ws₁ root model p header footer whole ws)
    (later₂ : Later base ws₂) {opening : String} {part : List Block}
    (hpart : Renders ws₂ b.schema (Naming.subdocumentName b.path model) (childProjection base p b)
      opening Comment.blockFooter part ws') :
    PassHolds base model before b after (fun header => ∃ ws, SameButTrees base ws ∧
      childHeader ws model b (Naming.subdocumentName b.path model) (childProjection base p b)
        = .ok header) opening whole part := by
  have hb : b ∈ (base.schema root).children := by simp [embeds]
  have hbefore : ∀ c ∈ before, Ends base c.schema := fun c hc =>
    ends.inv ⟨c, by simp [embeds, hc], rfl⟩
  have hends : Ends base b.schema := ends.inv ⟨b, hb, rfl⟩
  have steady' (hd : (childProjection base p b).document = true) := steady hd
  rw [← later₁.same.children] at embeds
  cases hwhole with
  | alone hc _ => simp [embeds, proper.1] at hc
  | @parent _ _ _ _ _ _ own flat blocks ws₄ _ _ hs _ =>
    rw [embeds] at hs
    obtain ⟨flat₁, ws₃, earlier, others, hearlier, hothers, rfl⟩ := hs.append_inv
    have same₃ := later₁.same.trans hearlier.sameButTrees
    have grown₃ := hearlier.grown later₁.same later₁.grown hbefore
    cases hothers with
    | @cons _ _ _ _ _ _ _ _ _ later ws₅ _ hopen hrun hlater =>
      rw [same₃.childProjection] at hopen hrun
      have proper' := Naming.proper_subdocumentName proper b.path
      -- Both runs are the blocks that the child draws in `base`, under two headers.
      obtain ⟨inner, body, rfl, rfl⟩ := (hrun.draws proper' same₃ grown₃ hends plain steady').unique
        (hpart.draws proper' later₂.same later₂.grown hends plain steady')
      have names := (hearlier.namesBelow proper).of_sameButTrees later₁.same
      have names' := (hlater.namesBelow proper).of_sameButTrees (same₃.trans hrun.sameButTrees)
      refine ⟨earlier, inner, _, body ++ Comment.blockFooter,
        later ++ [⟨model, header ++ own ++ footer⟩], ?_, ?_, ⟨ws₃, same₃, hopen⟩, names,
        _, names', by simp⟩
      · simp [String.append_assoc]
      · simp [String.append_assoc]

/-! ## Compilations around a child -/

/-- The opening of a child's lean block in its parent's compilation. -/
def leanChildOpening (model name : String) : String :=
  Comment.leanHeader (Comment.lean model name) name

/-- The last block of a child's run and of its own compilation, with other openings. -/
def SameButOpening (model : String) (b : ChildBinding) (block own : PairedBlock) : Prop :=
  let name := Naming.subdocumentName b.path model
  block.name = name ∧ own.name = name ∧
  (∃ text, block.lean = leanChildOpening model name ++ text ∧
    own.lean = leanOpening name ++ text) ∧
  ((block.document = none ∧ own.document = none) ∨ ∃ header base text, Opens true name header ∧
    block.document = some (header ++ text) ∧
    own.document = some (documentOpening name base ++ text))

/-- Between the blocks of earlier children and those of later children and of the root itself,
`whole` holds the blocks `part` of a child, up to the opening of the last. -/
def HoldsRun (ws : Workspace) (model : String) (before : List ChildBinding) (b : ChildBinding)
    (after : List ChildBinding) (whole part : List PairedBlock) : Prop :=
  ∃ earlier inner last own later,
    whole = earlier ++ (inner ++ [last]) ++ later ∧ part = inner ++ [own] ∧
    SameButOpening model b last own ∧
    NamesBelow ws model before (earlier.map (·.name)) ∧
    ∃ names, NamesBelow ws model after names ∧ later.map (·.name) = names ++ [model]

theorem PassHolds.imp {Opening Opening' : String → Prop} {opening : String}
    {whole part : List Block} (h : PassHolds base model before b after Opening opening whole part)
    (himp : ∀ header, Opening header → Opening' header) (same : SameButTrees ws base) :
    PassHolds ws model before b after Opening' opening whole part := by
  obtain ⟨earlier, inner, header, text, later, hw, hp, ho, hn, names, hu, hn'⟩ := h
  exact ⟨earlier, inner, header, text, later, hw, hp, himp _ ho, hn.of_sameButTrees same,
    names, hu.of_sameButTrees same, hn'⟩

section Assembly

variable {whole part documents documents' : List Block} {documentBase : String}

/-- A lean pass alone is a compilation with plain identifiers. -/
theorem PassHolds.plain (h : PassHolds ws model before b after
      (· = leanChildOpening model (Naming.subdocumentName b.path model))
      (leanOpening (Naming.subdocumentName b.path model)) whole part) :
    HoldsRun ws model before b after (whole.map unpaired) (part.map unpaired) := by
  obtain ⟨earlier, inner, header, text, later, rfl, rfl, rfl, hn, names, hu, hn'⟩ := h
  refine ⟨earlier.map unpaired, inner.map unpaired, unpaired ⟨_, _⟩, unpaired ⟨_, _⟩,
    later.map unpaired, by simp; rfl, by simp; rfl, ⟨rfl, rfl, ⟨text, rfl, rfl⟩, .inl ⟨rfl, rfl⟩⟩,
    ?_, names, hu, ?_⟩
  · rw [List.map_map]
    exact hn
  · rw [List.map_map]
    exact hn'

/-- A lean and a document pass are a compilation with both sorts of blocks. -/
theorem PassHolds.paired (h : PassHolds ws model before b after
      (· = leanChildOpening model (Naming.subdocumentName b.path model))
      (leanOpening (Naming.subdocumentName b.path model)) whole part)
    (h' : PassHolds ws model before b after (Opens true (Naming.subdocumentName b.path model))
      (documentOpening (Naming.subdocumentName b.path model) documentBase) documents documents')
    (same : part.map (·.name) = documents'.map (·.name)) :
    HoldsRun ws model before b after (whole.zipWith pair documents)
      (part.zipWith pair documents') := by
  obtain ⟨earlier, inner, header, text, later, rfl, rfl, rfl, hn, names, hu, hn'⟩ := h
  obtain ⟨earlier₁, inner₁, header₁, text₁, later₁, rfl, rfl, ho, hn₁, names₁, hu₁, hn₁'⟩ := h'
  -- The cuts fall at the same indices of both passes, as the names tell.
  have hearlier : earlier.map (·.name) = earlier₁.map (·.name) := hn.unique hn₁
  have hlater : later.map (·.name) = later₁.map (·.name) := by
    rw [hn', hn₁', hu.unique hu₁]
  have hinner : inner.map (·.name) = inner₁.map (·.name) := by simpa using same
  have len {as bs : List Block} (h : as.map (·.name) = bs.map (·.name)) :
      as.length = bs.length := by
    simpa using congrArg List.length h
  let name := Naming.subdocumentName b.path model
  refine ⟨earlier.zipWith pair earlier₁, inner.zipWith pair inner₁,
    pair ⟨name, leanChildOpening model name ++ text⟩ ⟨name, header₁ ++ text₁⟩,
    pair ⟨name, leanOpening name ++ text⟩ ⟨name, documentOpening name documentBase ++ text₁⟩,
    later.zipWith pair later₁, ?_, ?_,
    ⟨rfl, rfl, ⟨text, rfl, rfl⟩, .inr ⟨header₁, documentBase, text₁, ho, rfl, rfl⟩⟩,
    ?_, names, hu, ?_⟩
  · rw [List.zipWith_append (by simp [len hearlier, len hinner]),
      List.zipWith_append (len hearlier), List.zipWith_append (len hinner)]
    rfl
  · rw [List.zipWith_append (len hinner)]
    rfl
  · rw [map_name_zipWith_pair hearlier]
    exact hn
  · rw [map_name_zipWith_pair hlater, hn']

end Assembly

/-! ## Children found in the tree -/

/-- The children found in a tree stand below none of its empty mappings. -/
theorem filledUnder_referencesUnder {s : Store} {lead : String} {tree : Entries}
    (plain : Plain tree) : filledUnder (referencesUnder s model lead tree) tree = tree := by
  induction tree using tree_induction generalizing lead with
  | nil => simp
  | cons key v rest below ih =>
    have others : tailsAt key (referencesUnder s model lead rest) = [] := by
      apply List.filterMap_eq_nil_iff.2
      intro e he
      obtain ⟨k, hk, more, hp⟩ := head_mem_of_mem_referencesUnder he
      have hne : k ≠ key := fun hc => plain.notMem (hc ▸ hk)
      simp [← hp, hne]
    have own : ∀ k ∈ Keyed.keys rest, tailsAt k (referencesUnder s model lead ((key, v) :: rest))
        = tailsAt k (referencesUnder s model lead rest) := by
      intro k hk
      have hne : key ≠ k := fun hc => plain.notMem (hc ▸ hk)
      rw [referencesUnder, tailsAt_append, tailsAt_map_cons, if_neg hne, List.nil_append]
    rw [filledUnder_cons, filledUnder_congr own, ih plain.tail, referencesUnder, tailsAt_append,
      tailsAt_map_cons, if_pos rfl, others, List.append_nil]
    congr 2
    rcases field_cases s model (lead ++ key) v with
      ⟨type, options, -, -, -, hr⟩ | ⟨entries, rfl, -, -, hr⟩ <;> rw [hr]
    · cases childAt? (lead ++ key) type with
      | none => exact filled_nil
      | some c => exact filled_of_mem (by simp)
    · by_cases he : entries = []
      · rw [he, referencesUnder, filled_nil]
      · rw [filled_dict nil_notMem_referencesUnder he, below _ rfl plain.head]

theorem steady_of_found (plain : Plain (ws.schema id).tree)
    (found : (ws.schema id).children = childrenOf (ws.schema id).tree) : Steady ws id := by
  intro model
  rw [grown, found, references_childrenOf plain, filledUnder_referencesUnder plain]

/-! ## Two compilations -/

/-- A compilation that has come to its end, with the workspace between its passes. -/
structure Compiled (ws mid ws' : Workspace) (id : SchemaId) (model : String) (plainIds : Bool)
    (leans : List Block) (paired : List PairedBlock) : Prop where
  lean : Renders ws id model (leanPass ws id plainIds) (leanOpening model) Comment.blockFooter
    leans mid
  completes : Completes mid ws' id model (documentPass ws id) leans plainIds paired

section Passes

variable {w₁ w₂ v₁ v₂ d : Workspace} {plainIds : Bool} {leans leans' : List Block}
  {whole part : List PairedBlock}

theorem Compiled.later (h : Compiled ws v₁ ws' id model plainIds leans whole)
    (later : Later base ws) (ends : Ends base id) : Later base v₁ ∧ Later base ws' := by
  have mid := later.renders ends h.lean
  exact ⟨mid, mid.completes ends h.completes⟩

theorem leanHolds (proper : Naming.Proper model)
    (embeds : (base.schema root).children = before ++ b :: after) (ends : Ends base root)
    (plain : ∀ x, Reaches base b.schema x → Plain (base.schema x).tree)
    (later₁ : Later base w₁) (later₂ : Later base w₂)
    (compiled₁ : Compiled w₁ v₁ ws root model plainIds leans whole)
    (compiled₂ : Compiled w₂ v₂ ws' b.schema (Naming.subdocumentName b.path model) plainIds leans'
      part) :
    PassHolds base model before b after
      (· = leanChildOpening model (Naming.subdocumentName b.path model))
      (leanOpening (Naming.subdocumentName b.path model)) leans leans' := by
  have projection : leanPass w₂ b.schema plainIds
      = childProjection base (leanPass w₁ root plainIds) b := by
    simp [leanPass, childProjection, later₂.same.leanVirtuals]
  have own := compiled₂.lean
  rw [projection] at own
  have holds := passHolds proper embeds ends plain (by simp [leanPass]) later₁ compiled₁.lean
    later₂ own
  refine holds.imp (fun header h => ?_) (.refl base)
  obtain ⟨_, -, h⟩ := h
  exact (Except.ok.inj h).symm

theorem documentHolds {p q : Projection} {documents documents' : List Block}
    {rootBase ownBase : String} (proper : Naming.Proper model)
    (embeds : (base.schema root).children = before ++ b :: after) (ends : Ends base root)
    (plain : ∀ x, Reaches base b.schema x → Plain (base.schema x).tree)
    (stage : Later base d) (steady : ∀ x, Reaches base b.schema x → Steady d x)
    (later₁ : Later d v₁) (later₂ : Later d v₂)
    (pass₁ : Renders v₁ root model p (documentOpening model rootBase) Comment.blockFooter
      documents ws)
    (pass₂ : Renders v₂ b.schema (Naming.subdocumentName b.path model) q
      (documentOpening (Naming.subdocumentName b.path model) ownBase) Comment.blockFooter
      documents' ws')
    (isDocument : p.document = true) (projection : q = childProjection base p b) :
    PassHolds base model before b after (Opens true (Naming.subdocumentName b.path model))
      (documentOpening (Naming.subdocumentName b.path model) ownBase) documents documents' := by
  have reaches : Reaches d = Reaches base := by
    funext x
    rw [Reaches, stage.same.embeds_eq]
  rw [projection, ← stage.same.childProjection] at pass₂
  have holds := passHolds proper (stage.same.children root ▸ embeds)
    (by rwa [Ends, stage.same.embeds_eq])
    (fun x hx => stage.plain (plain x (reaches ▸ hx)))
    (fun _ x hx => steady x (reaches ▸ hx)) later₁ pass₁ later₂ pass₂
  refine holds.imp (fun header h => ?_) stage.same
  obtain ⟨_, -, h⟩ := h
  have opens := opens_childHeader h
  rwa [show (childProjection d p b).document = true from isDocument] at opens

/-- A compilation of a root holds that of its child. Both document passes start when no tree below
the child grows any more. -/
theorem holdsRun (proper : Naming.Proper model)
    (embeds : (base.schema root).children = before ++ b :: after) (ends : Ends base root)
    (plain : ∀ x, Reaches base b.schema x → Plain (base.schema x).tree)
    (later₁ : Later base w₁) (later₂ : Later base w₂)
    (compiled₁ : Compiled w₁ v₁ ws root model plainIds leans whole)
    (compiled₂ : Compiled w₂ v₂ ws' b.schema (Naming.subdocumentName b.path model) plainIds leans'
      part)
    (stage : Later base d) (steady : ∀ x, Reaches base b.schema x → Steady d x)
    (mid₁ : Later d v₁) (mid₂ : Later d v₂) : HoldsRun base model before b after whole part := by
  have holds := leanHolds proper embeds ends plain later₁ later₂ compiled₁ compiled₂
  have completes₂ := compiled₂.completes
  cases compiled₁.completes with
  | plain _ =>
    cases completes₂ with
    | plain _ => exact holds.plain
  | paired _ pass₁ =>
    cases completes₂ with
    | paired _ pass₂ =>
      have projection : documentPass w₂ b.schema
          = childProjection base (documentPass w₁ root) b := by
        simp [documentPass, childProjection, later₂.same.leanVirtuals]
      exact holds.paired
        (documentHolds proper embeds ends plain stage steady mid₁ mid₂ pass₁ pass₂ rfl projection)
        (compiled₂.lean.names_eq compiled₂.lean.sameButTrees pass₂)

end Passes

theorem compiled_of_ok {plainIds : Bool} {paired : List PairedBlock}
    (h : (compile id model plainIds).on ws = (.ok paired, ws')) :
    ∃ leans mid, Compiled ws mid ws' id model plainIds leans paired := by
  obtain ⟨leans, mid, lean, completes⟩ := compile_ok h
  exact ⟨leans, mid, lean, completes⟩

theorem ends_of_ok {plainIds : Bool} {paired : List PairedBlock} (proper : Naming.Proper model)
    (h : (compile id model plainIds).on ws = (.ok paired, ws')) : Ends ws id := by
  obtain ⟨_, _, lean, -⟩ := compile_ok h
  obtain ⟨_, unfolds, -⟩ := lean.unfolds proper
  exact unfolds.acc

/-- A root and one of its children are compiled, the child under the name of its block: one after
the other, the second on what the first leaves, or side by side. Side by side no call sees what the
other leaves in trees they share, so there children must stand where their parent's tree has
them. -/
inductive BothCompile (ws : Workspace) (root : SchemaId) (model : String) (b : ChildBinding)
    (plainIds : Bool) (whole part : List PairedBlock) : Prop
  | rootFirst {ws₁ ws₂ : Workspace}
      (first : (compile root model plainIds).on ws = (.ok whole, ws₁))
      (second : (compile b.schema (Naming.subdocumentName b.path model) plainIds).on ws₁
        = (.ok part, ws₂))
  | childFirst {ws₁ ws₂ : Workspace}
      (first : (compile b.schema (Naming.subdocumentName b.path model) plainIds).on ws
        = (.ok part, ws₁))
      (second : (compile root model plainIds).on ws₁ = (.ok whole, ws₂))
  | apart {ws₁ ws₂ : Workspace}
      (found : ∀ x, Reaches ws b.schema x → (ws.schema x).children = childrenOf (ws.schema x).tree)
      (ofRoot : (compile root model plainIds).on ws = (.ok whole, ws₁))
      (ofChild : (compile b.schema (Naming.subdocumentName b.path model) plainIds).on ws
        = (.ok part, ws₂))

/-- The blocks that a compilation holds for a child, between those of the children before and
those of the children after it, are the blocks of the child's own compilation, name by name and
text by text, but for the opening of the last block. -/
theorem compile_child {plainIds : Bool} {whole part : List PairedBlock}
    (proper : Naming.Proper model) (embeds : (ws.schema root).children = before ++ b :: after)
    (plain : ∀ x, Reaches ws b.schema x → Plain (ws.schema x).tree)
    (h : BothCompile ws root model b plainIds whole part) :
    HoldsRun ws model before b after whole part := by
  have proper' := Naming.proper_subdocumentName proper b.path
  have below {ws₁ : Workspace} (same : SameButTrees ws ws₁) (h : Ends ws₁ root) :
      Ends ws root ∧ Ends ws b.schema := by
    rw [Ends, same.embeds_eq] at h
    exact ⟨h, h.inv ⟨b, by simp [embeds], rfl⟩⟩
  have toChild : Relation.ReflTransGen (Embeds ws) root b.schema :=
    .single ⟨b, by simp [embeds], rfl⟩
  cases h with
  -- The document pass of the first compilation and the whole second one come after its lean pass,
  -- which has let all trees below the child grow.
  | rootFirst first second =>
    obtain ⟨endsRoot, endsChild⟩ := below (.refl ws) (ends_of_ok proper first)
    obtain ⟨leans, mid, compiled⟩ := compiled_of_ok first
    obtain ⟨leans', mid', compiled'⟩ := compiled_of_ok second
    obtain ⟨later, later'⟩ := compiled.later (.refl ws) endsRoot
    have endsRoot' : Ends mid root := by rwa [Ends, later.same.embeds_eq]
    have endsChild' : Ends mid b.schema := by rwa [Ends, later.same.embeds_eq]
    have rest := (Later.refl mid).completes endsRoot' compiled.completes
    exact holdsRun proper embeds endsRoot plain (.refl ws) later' compiled compiled' later
      (fun x hx => (Later.refl ws).steady proper endsRoot compiled.lean (toChild.trans hx)
        (plain x hx))
      (.refl mid) (compiled'.later rest endsChild').1
  | childFirst first second =>
    obtain ⟨leans', mid', compiled'⟩ := compiled_of_ok first
    obtain ⟨leans, mid, compiled⟩ := compiled_of_ok second
    have endsChild := ends_of_ok proper' first
    obtain ⟨later, later'⟩ := compiled'.later (.refl ws) endsChild
    obtain ⟨endsRoot, -⟩ := below later'.same (ends_of_ok proper second)
    have endsRoot' : Ends mid' root := by rwa [Ends, later.same.embeds_eq]
    have endsChild' : Ends mid' b.schema := by rwa [Ends, later.same.embeds_eq]
    have rest := (Later.refl mid').completes endsChild' compiled'.completes
    exact holdsRun proper embeds endsRoot plain later' (.refl ws) compiled compiled' later
      (fun x hx => (Later.refl ws).steady proper' endsChild compiled'.lean hx (plain x hx))
      (compiled.later rest endsRoot').1 (.refl mid')
  | apart found ofRoot ofChild =>
    obtain ⟨endsRoot, endsChild⟩ := below (.refl ws) (ends_of_ok proper ofRoot)
    obtain ⟨leans, mid, compiled⟩ := compiled_of_ok ofRoot
    obtain ⟨leans', mid', compiled'⟩ := compiled_of_ok ofChild
    exact holdsRun proper embeds endsRoot plain (.refl ws) (.refl ws) compiled compiled' (.refl ws)
      (fun x hx => steady_of_found (plain x hx) (found x hx))
      (compiled.later (.refl ws) endsRoot).1 (compiled'.later (.refl ws) endsChild).1

theorem compile_child_nested : ∃ whole part,
    BothCompile nested 0 "Ab" ⟨"a", 1, false⟩ false whole part ∧
      HoldsRun nested "Ab" [] ⟨"a", 1, false⟩ [] whole part := by
  have proper : Naming.Proper "Ab" := by
    unfold Naming.Proper
    decide
  have plain (x : SchemaId) : Plain (nested.schema x).tree := by
    match x with
    | 0 | 1 =>
      simp [nested, Workspace.schema, Plain, Value.Plain, PlainUnder]
      decide
    | 2 | _ + 3 => exact plain_nil
  have returns : ((compile 0 "Ab").on nested).1.isOk = true := by decide +kernel
  have childReturns : ((compile 1 (Naming.subdocumentName "a" "Ab")).on
      ((compile 0 "Ab").on nested).2).1.isOk = true := by decide +kernel
  rcases h : (compile 0 "Ab").on nested with ⟨_ | whole, ws₁⟩
  · rw [h] at returns
    cases returns
  rw [h] at childReturns
  rcases h' : (compile 1 (Naming.subdocumentName "a" "Ab")).on ws₁ with ⟨_ | part, ws₂⟩
  · rw [h'] at childReturns
    cases childReturns
  have both : BothCompile nested 0 "Ab" ⟨"a", 1, false⟩ false whole part := .rootFirst h h'
  exact ⟨whole, part, both, compile_child proper rfl (fun x _ => plain x) both⟩

end ModelTypes.Compile
