import ModelTypes.Proofs.Compile.Filled
import ModelTypes.Proofs.Compile.Projections
import ModelTypes.Proofs.Compile.Uniqueness
import ModelTypes.Proofs.Compile.Untouched
/-!
# Compiling with and without document types

A rendering in one projection is followed step by step by one in another, over the same
workspaces, as long as the headers of children can be made there. Lean headers always can.
A document header names the type of the child's identifier, which it reads from the tree as it was
written; the lean pass has written that field already if no child stands at or below it.
-/

namespace ModelTypes.Compile

variable {ws ws' : Workspace} {id : SchemaId} {model : String} {p q : Projection}

/-! ## Following a rendering -/

section Following

variable {enter : SchemaId → Option Renderer} (inv : Workspace → Prop)

/-- Where a child has been rendered, its header can be made in projection `q` and it can be rendered
there, to the same workspace. -/
def Follows (enter : SchemaId → Option Renderer) (inv : Workspace → Prop) (model : String)
    (q : Projection) (b : ChildBinding) : Prop :=
  ∀ render, enter b.schema = some render → ∀ ws, inv ws → ∀ name p header run ws₁,
    (render name p header).on ws = (.ok run, ws₁) → inv ws₁ ∧
      ∃ opening run', childHeader ws model b name (childProjection ws q b) = .ok opening ∧
        (render name (childProjection ws q b) opening).on ws = (.ok run', ws₁)

theorem follows_hoistAll {cs : List ChildBinding} (follows : ∀ b ∈ cs, Follows enter inv model q b)
    (hinv : inv ws) {flat flat' : Entries} {blocks blocks' out : List Block}
    (h : (hoistAll enter model p flat blocks cs).on ws = (.ok (flat', out), ws')) :
    ∃ out', (hoistAll enter model q flat blocks' cs).on ws = (.ok (flat', out'), ws') := by
  induction cs generalizing ws flat blocks blocks' with
  | nil =>
    simp only [hoistAll, pure_on, Prod.mk.injEq, Except.ok.injEq] at h ⊢
    exact ⟨blocks', ⟨h.1.1, rfl⟩, h.2⟩
  | cons b rest ih =>
    simp only [hoistAll, bind_ok_iff] at h ⊢
    obtain ⟨r, ws₁, hb, hrest⟩ := h
    obtain ⟨render, header, run, he, -, hr, rfl⟩ := hoist_ok_iff.1 hb
    obtain ⟨hinv₁, opening, run', ho, hr'⟩ :=
      follows b List.mem_cons_self render he ws hinv _ _ _ _ _ hr
    obtain ⟨out', hout⟩ := ih (fun c hc => follows c (List.mem_cons_of_mem _ hc)) hinv₁ hrest
    exact ⟨out', _, ws₁, hoist_ok_iff.2 ⟨render, opening, run', he, ho, hr', rfl⟩, hout⟩

theorem follows_expandWith (follows : ∀ b ∈ (ws.schema id).children, Follows enter inv model q b)
    (hinv : inv ws) {blocks : List Block} {tree : Entries}
    (h : (expandWith enter id model p).on ws = (.ok (blocks, tree), ws')) :
    ∃ blocks', (expandWith enter id model q).on ws = (.ok (blocks', tree), ws') := by
  obtain ⟨flat, ws₁, hall, rfl, rfl⟩ := expandWith_ok_iff.1 h
  obtain ⟨out', hout⟩ := follows_hoistAll inv follows hinv hall
  exact ⟨out', expandWith_ok_iff.2 ⟨flat, ws₁, hout, rfl, rfl⟩⟩

/-- A schema's own body can be written in both projections or in neither. -/
theorem follows_renderWith (follows : ∀ b ∈ (ws.schema id).children, Follows enter inv model q b)
    (hinv : inv ws) {header footer : String} (header' footer' : String) {blocks : List Block}
    (h : (renderWith enter id model p header footer).on ws = (.ok blocks, ws')) :
    ∃ blocks', (renderWith enter id model q header' footer').on ws = (.ok blocks', ws') := by
  obtain ⟨run, tree, body, hx, hb, -⟩ := renderWith_ok_iff.1 h
  obtain ⟨body', hb'⟩ := bodyText_returns (q := q) hb
  split at hx
  · rename_i hc
    obtain ⟨run', hx'⟩ := follows_expandWith inv follows hinv hx
    exact ⟨_, renderWith_ok_iff.2 ⟨run', tree, body', by rwa [if_pos hc], hb', rfl⟩⟩
  · rename_i hc
    exact ⟨_, renderWith_ok_iff.2 ⟨run, tree, body', by rwa [if_neg hc], hb', rfl⟩⟩

end Following

/-- A condition on schemas that children inherit and renderings of children keep, and under which
the header of a rendered child can be made in projections with or without document types. -/
structure Headed (document : Bool) (Fit : Workspace → SchemaId → Prop) : Prop where
  child {ws : Workspace} {id : SchemaId} (fit : Fit ws id) {b : ChildBinding}
    (hb : b ∈ (ws.schema id).children) : Fit ws b.schema
  after {ws ws' : Workspace} {id : SchemaId} (fit : Fit ws id) {b : ChildBinding}
    (hb : b ∈ (ws.schema id).children) {outside : List SchemaId} (nodup : outside.Nodup)
    (apart : b.schema ∉ outside) {name header footer : String} {p : Projection} {run : List Block}
    (h : (renderWithin outside b.schema name p header footer).on ws = (.ok run, ws')) : Fit ws' id
  header {ws ws' : Workspace} {id : SchemaId} (fit : Fit ws id) {b : ChildBinding}
    (hb : b ∈ (ws.schema id).children) {outside : List SchemaId}
    {parent name header footer : String} {p q : Projection} {run : List Block}
    (h : (renderWithin outside b.schema name p header footer).on ws = (.ok run, ws'))
    (hq : q.document = document) : ∃ opening, childHeader ws parent b name q = .ok opening

theorem follows_renderWithin {Fit : Workspace → SchemaId → Prop} (headed : Headed q.document Fit)
    (fit : Fit ws id) {outside : List SchemaId} (nodup : outside.Nodup) {header footer : String}
    (header' footer' : String) {blocks : List Block}
    (h : (renderWithin outside id model p header footer).on ws = (.ok blocks, ws')) :
    ∃ blocks', (renderWithin outside id model q header' footer').on ws = (.ok blocks', ws') := by
  induction hn : outside.length using Nat.strongRecOn
    generalizing outside id model p q header footer header' footer' ws ws' blocks with
  | ind n ih =>
    rw [renderWithin_eq] at h ⊢
    -- All along, the schema stays fit and keeps its children.
    refine follows_renderWith (fun ws₁ => SameButTrees ws ws₁ ∧ Fit ws₁ id)
      (fun b hb render he ws₁ hinv name p' header₁ run ws₂ hr => ?_) ⟨.refl ws, fit⟩ header' footer'
      h
    obtain ⟨same, fit₁⟩ := hinv
    obtain ⟨hc, rfl⟩ := entering_eq_some he
    rw [← same.children] at hb
    obtain ⟨opening, ho⟩ : ∃ opening,
        childHeader ws₁ model b name (childProjection ws₁ q b) = .ok opening :=
      headed.header fit₁ hb hr rfl
    have nodup' := nodup.erase b.schema
    obtain ⟨run', hr'⟩ := ih _ (by rw [← hn]; exact length_erase_lt hc)
      (q := childProjection ws₁ q b) headed (headed.child fit₁ hb) nodup' opening
      Comment.blockFooter hr rfl
    have same' := same.trans (renderWithin_ok hr).sameButTrees
    exact ⟨⟨same', headed.after fit₁ hb nodup' nodup.not_mem_erase hr⟩, opening, run', ho, hr'⟩

/-- Lean headers can always be made. -/
theorem headed_lean : Headed false fun _ _ => True where
  child _ _ _ := trivial
  after := by
    intros
    trivial
  header := by
    intro _ _ _ _ _ _ _ _ _ _ _ _ q _ _ hq
    exact ⟨_, by rw [childHeader, hq]; rfl⟩

/-! ## Identifiers -/

/-- A schema whose identifier is an intact field without children. -/
def PlainId (schema : Schema) : Prop := spared schema.children schema.tree "_id" = true

instance (schema : Schema) : Decidable (PlainId schema) := inferInstanceAs (Decidable (_ = true))

/-- A tidy schema whose single children have plain identifiers. -/
structure PlainlyEmbeds (ws : Workspace) (schema : Schema) : Prop where
  tidy : schema.Tidy
  identifiers : ∀ b ∈ schema.children, b.isArray = false → PlainId (ws.schema b.schema)

instance (ws : Workspace) (schema : Schema) : Decidable (PlainlyEmbeds ws schema) :=
  decidable_of_iff (schema.Tidy ∧
    ∀ b ∈ schema.children, b.isArray = false → PlainId (ws.schema b.schema))
    ⟨fun h => ⟨h.1, h.2⟩, fun h => ⟨h.tidy, h.identifiers⟩⟩

theorem Throughout.tidy (h : Throughout ws id fun x => PlainlyEmbeds ws (ws.schema x)) :
    Throughout ws id fun x => (ws.schema x).Tidy := fun x hx => (h x hx).tidy

/-- A rendering writes the identifier as it stands in the schema's tree. -/
theorem Renders.identifier {header footer : String} {blocks : List Block} {raw : Value}
    (plain : PlainId (ws.schema id)) (h : Renders ws id model p header footer blocks ws')
    (hraw : Keyed.get? (ws.schema id).tree "_id" = some raw) : Writable ws.store q "_id" raw := by
  have hmem := Keyed.mem_of_get? hraw
  cases h with
  | alone _ text => exact (bodyText_returns_iff.1 ⟨_, text⟩ _ hmem).change
  | parent _ _ hs text =>
    have hf := filter_spared ws.store model (ws.schema id).children (ws.schema id).tree
    rw [← hs.flat_eq] at hf
    have hkept : ("_id", raw) ∈ (ws.schema id).tree.filter
        fun e => spared (ws.schema id).children (ws.schema id).tree e.1 :=
      List.mem_filter.2 ⟨hmem, plain⟩
    rw [← hf] at hkept
    rw [hs.sameButTrees.store] at text
    exact (bodyText_returns_iff.1 ⟨_, text⟩ _ (List.mem_filter.1 hkept).1).change

theorem documentBase_returns {header footer : String} {blocks : List Block}
    (plain : PlainId (ws.schema id)) (h : Renders ws id model p header footer blocks ws')
    (name : String) : ∃ base, documentBase ws id name q = .ok base := by
  obtain ⟨type, ht⟩ : ∃ type, idType ws.store q (Keyed.get? (ws.schema id).tree "_id") = .ok type :=
    idType_returns fun v hv => h.identifier plain hv
  exact ⟨_, Except.bind_eq_ok_iff.2 ⟨type, ht, rfl⟩⟩

/-- Document headers can be made over plain identifiers. -/
theorem headed_document :
    Headed true fun ws id => Throughout ws id fun x => PlainlyEmbeds ws (ws.schema x) where
  child fit _ hb := fit.child hb
  after := by
    intro ws ws' id fit b hb _ nodup apart _ _ _ _ _ h
    have filled := (leaves_renderWithin nodup apart).of_on h
    obtain rfl := filled.eq_of_tidy fun x hx => (fit.child hb).tidy x hx.1
    exact fit
  header := by
    intro ws ws' id fit b hb _ parent name _ _ _ q _ h hq
    rw [childHeader, hq]
    cases hArray : b.isArray with
    | true => exact ⟨_, rfl⟩
    | false =>
      have plain := fit.own.identifiers b hb hArray
      refine Exists.elim (idType_returns fun v hv => ?_) fun type ht =>
        ⟨_, Except.bind_eq_ok_iff.2 ⟨type, ht, rfl⟩⟩
      refine (renderWithin_ok h).identifier plain ?_
      split at hv
      · cases hv
      · exact hv

/-! ## Compilations -/

theorem follows_renderBlocks {Fit : Workspace → SchemaId → Prop} (headed : Headed q.document Fit)
    (fit : Fit ws id) {header footer : String} (header' footer' : String) {blocks : List Block}
    (h : (renderBlocks id model p header footer).on ws = (.ok blocks, ws')) :
    ∃ blocks', (renderBlocks id model q header' footer').on ws = (.ok blocks', ws') := by
  rw [renderBlocks_on] at h ⊢
  exact follows_renderWithin headed fit (nodup_outsideOf ws [id]) header' footer' h

theorem compile_plain_ok_iff {paired : List PairedBlock} :
    (compile id model true).on ws = (.ok paired, ws') ↔ ∃ leans,
      (renderBlocks id model (leanPass ws id true) (leanOpening model) Comment.blockFooter).on ws
        = (.ok leans, ws') ∧ paired = leans.map unpaired := by
  unfold compile compileBy
  simp only [bind_ok_iff, get_on, if_true, pure_on, Prod.mk.injEq, Except.ok.injEq]
  constructor
  · rintro ⟨_, _, ⟨rfl, rfl⟩, leans, ws₁, hl, rfl, rfl⟩
    exact ⟨leans, hl, rfl⟩
  · rintro ⟨leans, hl, rfl⟩
    exact ⟨ws, ws, ⟨rfl, rfl⟩, leans, ws', hl, rfl, rfl⟩

theorem compile_paired_ok_iff {paired : List PairedBlock} :
    (compile id model false).on ws = (.ok paired, ws') ↔ ∃ leans ws₁ base documents,
      (renderBlocks id model (leanPass ws id false) (leanOpening model) Comment.blockFooter).on ws
        = (.ok leans, ws₁) ∧
      documentBase ws₁ id model (documentPass ws id) = .ok base ∧
      (renderBlocks id model (documentPass ws id) (documentOpening model base)
        Comment.blockFooter).on ws₁ = (.ok documents, ws') ∧
      paired = leans.zipWith pair documents := by
  unfold compile compileBy
  simp only [bind_ok_iff, get_on, Bool.false_eq_true, if_false, lift_on, Prod.mk.injEq,
    Except.ok.injEq]
  -- Pairing gives something, since both passes have the same names.
  have pairs {leans documents : List Block} {ws₁ : Workspace} {base : String}
      (hl : (renderBlocks id model (leanPass ws id false) (leanOpening model)
        Comment.blockFooter).on ws = (.ok leans, ws₁))
      (hd : (renderBlocks id model (documentPass ws id) (documentOpening model base)
        Comment.blockFooter).on ws₁ = (.ok documents, ws')) :
      pairBlocks leans documents = .ok (leans.zipWith pair documents) := by
    have lean := renderBlocks_ok hl
    exact pairBlocks_eq_ok (lean.names_eq lean.sameButTrees (renderBlocks_ok hd))
  constructor
  · rintro ⟨_, _, ⟨rfl, rfl⟩, leans, ws₁, hl, _, _, ⟨rfl, rfl⟩, base, _, ⟨hb, rfl⟩, documents, _,
      hd, hp, rfl⟩
    rw [pairs hl hd] at hp
    exact ⟨leans, _, base, documents, hl, hb, hd, (Except.ok.inj hp).symm⟩
  · rintro ⟨leans, ws₁, base, documents, hl, hb, hd, rfl⟩
    exact ⟨ws, ws, ⟨rfl, rfl⟩, leans, ws₁, hl, ws₁, ws₁, ⟨rfl, rfl⟩, base, ws₁, ⟨hb, rfl⟩,
      documents, ws', hd, pairs hl hd, rfl⟩

/-- Two compilations of a model in one workspace have the same names. -/
theorem names_of_compile {plainIds plainIds' : Bool} {paired paired' : List PairedBlock}
    {ws₁ ws₂ : Workspace} (h : (compile id model plainIds).on ws = (.ok paired, ws₁))
    (h' : (compile id model plainIds').on ws = (.ok paired', ws₂)) :
    paired.map (·.name) = paired'.map (·.name) := by
  obtain ⟨leans, _, lean, completes⟩ := compile_ok h
  obtain ⟨leans', _, lean', completes'⟩ := compile_ok h'
  rw [completes.names lean, completes'.names lean', lean.names_eq (.refl ws) lean']

/-- A model that compiles with document types compiles without them. A model that compiles without
them compiles with them if the identifiers in its headers are plain fields. Both give blocks of the
same names. -/
theorem compile_modes (ws : Workspace) (id : SchemaId) (model : String) :
    (∀ paired ws', (compile id model false).on ws = (.ok paired, ws') →
      ∃ plain ws₁, (compile id model true).on ws = (.ok plain, ws₁) ∧
        plain.map (·.name) = paired.map (·.name)) ∧
    (PlainId (ws.schema id) → (Throughout ws id fun x => PlainlyEmbeds ws (ws.schema x)) →
      ∀ plain ws', (compile id model true).on ws = (.ok plain, ws') →
        ∃ paired ws₁, (compile id model false).on ws = (.ok paired, ws₁) ∧
          paired.map (·.name) = plain.map (·.name)) := by
  constructor
  · intro paired ws' h
    obtain ⟨leans, ws₁, -, -, hl, -⟩ := compile_paired_ok_iff.1 h
    obtain ⟨leans', hl'⟩ := follows_renderBlocks (q := leanPass ws id true) headed_lean trivial
      (leanOpening model) Comment.blockFooter hl
    have h' := compile_plain_ok_iff.2 ⟨leans', hl', rfl⟩
    exact ⟨_, ws₁, h', names_of_compile h' h⟩
  · intro own embeds plain ws' h
    obtain ⟨leans, hl, rfl⟩ := compile_plain_ok_iff.1 h
    obtain rfl := (leaves_renderBlocks.of_on hl).eq_of_tidy embeds.tidy
    obtain ⟨leans', hl'⟩ := follows_renderBlocks (q := leanPass ws' id false) headed_lean trivial
      (leanOpening model) Comment.blockFooter hl
    obtain ⟨base, hb⟩ := documentBase_returns (q := documentPass ws' id) own
      (renderBlocks_ok hl) model
    obtain ⟨documents, hd⟩ := follows_renderBlocks (q := documentPass ws' id) headed_document
      embeds (documentOpening model base) Comment.blockFooter hl
    have h' := compile_paired_ok_iff.2 ⟨leans', ws', base, documents, hl', hb, hd, rfl⟩
    exact ⟨_, ws', h', names_of_compile h' h⟩

theorem compile_modes_kin : ∃ paired ws',
    (compile 2 "User" false).on (kin "friend" "foes") = (.ok paired, ws') ∧
      paired.map (·.name) = ["UserFriend", "UserFoe", "User"] := by
  have own : PlainId ((kin "friend" "foes").schema 2) := by decide +kernel
  have embeds : Throughout (kin "friend" "foes") 2
      fun x => PlainlyEmbeds (kin "friend" "foes") ((kin "friend" "foes").schema x) := fun x _ =>
    Workspace.forall_schema (P := PlainlyEmbeds _) (by decide +kernel) (by decide) x
  have names : ((compile 2 "User" true).on (kin "friend" "foes")).1.toOption.map
      (·.map (·.name)) = some ["UserFriend", "UserFoe", "User"] := by decide +kernel
  obtain ⟨plain, ws₁, h, names⟩ := ok_of_map_eq names
  obtain ⟨paired, ws', h', same⟩ := (compile_modes _ _ _).2 own embeds plain ws₁ h
  exact ⟨paired, ws', h', same.trans names⟩

/-- A schema whose identifier is a child. -/
def keyed : Workspace :=
  let key := (Workspace.create {} (.dict [("a", .str "String")]) .null).2
  (key.create (.dict [("_id", .schema 0)]) .null).2

theorem built_keyed : keyed.Built := by
  refine .create (.create .empty ⟨trivial, trivial⟩) ⟨?key, trivial⟩
  case key =>
    show 0 < _
    decide +kernel

/-- A child as the identifier has a block, but no type where the header is made. -/
theorem compile_modes_differ : ¬ ∀ (ws : Workspace) (id : SchemaId) (model : String), ws.Built →
    (∃ plain ws', (compile id model true).on ws = (.ok plain, ws')) →
      ∃ paired ws', (compile id model false).on ws = (.ok paired, ws') := by
  intro agree
  have returns : ((compile 1 "User" true).on keyed).1.isOk = true := by decide +kernel
  have fails : ((compile 1 "User" false).on keyed).1.isOk = false := by decide +kernel
  obtain ⟨plain, ws₁, h⟩ := ok_of_isOk returns
  obtain ⟨paired, ws', h'⟩ := agree keyed 1 "User" built_keyed ⟨plain, ws₁, h⟩
  rw [h'] at fails
  cases fails

end ModelTypes.Compile
