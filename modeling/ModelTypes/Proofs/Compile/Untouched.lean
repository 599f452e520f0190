import ModelTypes.Proofs.Compile.References
import ModelTypes.Proofs.Schema.Linked
import ModelTypes.Proofs.Tree.Fields
/-!
# Fields without children

Hoisting the children of a schema leaves those top-level fields alone at or below which no child
stands: in the schema's own block they have the lines that they have by themselves, in the order of
the tree. A key with a dot is taken for two keys on the way, so this is so for intact fields only.
-/

namespace ModelTypes.Compile

variable {ws ws' : Workspace} {id : SchemaId} {model : String} {p : Projection}
  {cs : List ChildBinding} {tree flat : Entries}

/-- No child stands at a top-level key or below it. -/
def untouched (cs : List ChildBinding) (key : String) : Bool :=
  cs.all fun b => !(b.path == key || Path.isBelow key b.path)

/-- A child's path goes through a key at or below which it stands. -/
theorem untouched_head {b : ChildBinding} (hb : b ∈ cs) :
    ∀ key ∈ (Path.segments b.path).head?, untouched cs key = false := by
  intro key hk
  obtain ⟨rest, hs⟩ := List.head?_eq_some_iff.1 hk
  have hm : key ∈ Path.segments b.path := by simp [hs]
  have hkey : Path.DotFree key := Path.dotFree_of_mem_segments hm
  have hp : Path.segments key <+: Path.segments b.path := by
    rw [Path.segments_of_dotFree hkey, hs]
    exact List.prefix_append [key] rest
  rw [Path.segments_prefix_iff] at hp
  rw [untouched, List.all_eq_false]
  exact ⟨b, hb, by simpa [← or_iff_not_imp_left] using hp⟩

/-- An intact field without children. -/
def spared (cs : List ChildBinding) (tree : Entries) (key : String) : Bool :=
  untouched cs key && decide (Intact tree key)

/-- Hoisting children leaves the flat form of other fields as it is. -/
theorem filter_foldl_hoisted {keep : String → Bool} (s : Store) (model : String)
    (h : ∀ b ∈ cs, through keep (Path.segments b.path) = false) :
    (cs.foldl (hoisted s model) flat).filter (fun e => through keep (Path.segments e.1))
      = flat.filter fun e => through keep (Path.segments e.1) := by
  induction cs generalizing flat with
  | nil => rfl
  | cons b rest ih =>
    rw [List.foldl_cons, ih fun c hc => h c (List.mem_cons_of_mem _ hc), hoisted_eq,
      filter_replacePath (h b List.mem_cons_self)]

/-- Hoisting children leaves spared fields as they are. -/
theorem filter_spared (s : Store) (model : String) (cs : List ChildBinding) (tree : Entries) :
    (unflatten (cs.foldl (hoisted s model) (flatten tree))).filter (fun e => spared cs tree e.1)
      = tree.filter fun e => spared cs tree e.1 := by
  have intact : ∀ key, spared cs tree key = true → Intact tree key := fun key hk => by
    simp only [spared, Bool.and_eq_true, decide_eq_true_eq] at hk
    exact hk.2
  have apart : ∀ b ∈ cs, through (spared cs tree) (Path.segments b.path) = false := by
    intro b hb
    obtain ⟨key, rest, hs⟩ := List.exists_cons_of_ne_nil (Path.segments_ne_nil b.path)
    have touched := untouched_head hb key (by simp [hs])
    simp [hs, through, spared, touched]
  rw [filter_unflatten, filter_foldl_hoisted s model apart,
    filter_flatten fun key => through_segments intact, unflatten_flatten (plain_filter intact)]

/-- The last block declares what hoisting makes of the schema's tree, line by line, and some fields
are those of the tree. -/
def DeclaresFields (ws ws' : Workspace) (id : SchemaId) (model : String) (p : Projection)
    (header footer : String) (blocks : List Block) (keep : String → Bool) : Prop :=
  ∃ inner declared lines, (expand id model p).on ws = (.ok (inner, declared), ws') ∧
    declared.mapM (fun e => fieldLine ws.store p e.1 e.2) = .ok lines ∧
    blocks = inner ++ [⟨model, header ++ String.join lines ++ footer⟩] ∧
    declared.filter (fun e => keep e.1) = (ws.schema id).tree.filter fun e => keep e.1

/-- A rendering of a schema with children expands the schema and writes its fields. -/
theorem renderBlocks_expands {header footer : String} {blocks : List Block}
    (embeds : (ws.schema id).children ≠ []) (named : model ≠ "")
    (h : (renderBlocks id model p header footer).on ws = (.ok blocks, ws')) :
    ∃ inner declared lines, (expand id model p).on ws = (.ok (inner, declared), ws') ∧
      declared.mapM (fun e => fieldLine ws'.store p e.1 e.2) = .ok lines ∧
      blocks = inner ++ [⟨model, header ++ String.join lines ++ footer⟩] := by
  rw [renderBlocks_on, renderWithin_eq] at h
  obtain ⟨inner, declared, body, hx, hb, rfl⟩ := renderWith_ok_iff.1 h
  rw [if_pos ⟨embeds, named⟩] at hx
  obtain ⟨lines, hl, hb⟩ := Except.bind_eq_ok_iff.1 hb
  cases hb
  exact ⟨inner, declared, lines, hx, hl, rfl⟩

/-- Whenever a schema with children is rendered, its intact fields without children have the lines
that they have by themselves. -/
theorem renderBlocks_fields {header footer : String} {blocks : List Block}
    (embeds : (ws.schema id).children ≠ []) (named : model ≠ "")
    (h : (renderBlocks id model p header footer).on ws = (.ok blocks, ws')) :
    DeclaresFields ws ws' id model p header footer blocks
      (spared (ws.schema id).children (ws.schema id).tree) := by
  obtain ⟨inner, declared, lines, hx, hl, rfl⟩ := renderBlocks_expands embeds named h
  have hstore := (renderBlocks_ok h).sameButTrees.store
  refine ⟨inner, declared, lines, hx, hstore ▸ hl, rfl, ?_⟩
  unfold expand at hx
  obtain ⟨_, _, hget, hx⟩ := bind_ok_iff.1 hx
  simp only [get_on, Prod.mk.injEq, Except.ok.injEq] at hget
  obtain ⟨rfl, rfl⟩ := hget
  obtain ⟨flat, ws₁, hs, rfl, -⟩ := expandWith_ok (sound_entering _) hx
  rw [hs.flat_eq]
  exact filter_spared _ _ _ _

/-- A schema with a text that is one of the values of a mapping, beside a child. -/
def task (values : Entries) : Workspace :=
  let owner := (Workspace.create {} (.dict [("name", .str "String")]) .null).2
  (owner.create (.dict [("status", .dict [("type", .str "String"), ("enum", .dict values)]),
    ("owner", .schema 0)]) .null).2

theorem built_task {values : Entries} (h : WithinUnder 1 values) : (task values).Built := by
  refine .create (.create .empty ⟨trivial, trivial⟩) ⟨⟨trivial, ?values, trivial⟩, ?owner, trivial⟩
  case values => exact WithinUnder.mono (by decide +kernel) _ h
  case owner =>
    show 0 < _
    decide +kernel

theorem renderBlocks_fields_task :
    spared ((task [("open", .str "new")]).schema 1).children
      ((task [("open", .str "new")]).schema 1).tree "status" = true ∧ ∃ blocks ws',
    (renderBlocks 1 "Task" { document := false }).on (task [("open", .str "new")])
      = (.ok blocks, ws') ∧
    DeclaresFields (task [("open", .str "new")]) ws' 1 "Task" { document := false } "" "" blocks
      (spared ((task [("open", .str "new")]).schema 1).children
        ((task [("open", .str "new")]).schema 1).tree) := by
  have embeds : ((task [("open", .str "new")]).schema 1).children ≠ [] := by decide +kernel
  have returns : ((renderBlocks 1 "Task" { document := false }).on
      (task [("open", .str "new")])).1.isOk = true := by decide +kernel
  obtain ⟨blocks, ws', h⟩ := ok_of_isOk returns
  exact ⟨by decide +kernel, blocks, ws', h, renderBlocks_fields embeds (by decide) h⟩

/-- A dot in a key of the mapping changes the line of the text, which is not its own any more. -/
theorem renderBlocks_splits_keys :
    let ws := task [("in.progress", .str "started"), ("done", .str "finished")]
    let p : Projection := { document := false }
    ws.Built ∧ (ws.schema 1).children ≠ [] ∧ untouched (ws.schema 1).children "status" = true ∧
    ∃ status inner ws', Keyed.get? (ws.schema 1).tree "status" = some status ∧
      fieldLine ws.store p "status" status = .ok "status?: \"started\" | \"finished\";\n" ∧
      (renderBlocks 1 "Task" p).on ws = (.ok (inner ++ [⟨"Task",
        "status?: \x7b\"progress\": \"started\"\x7d | \"finished\";\nowner?: TaskOwner;\n"
          ++ "_id: mongoose.Types.ObjectId;\n"⟩]), ws') := by
  intro ws p
  have own : ((Keyed.get? (ws.schema 1).tree "status").bind fun status =>
      (fieldLine ws.store p "status" status).toOption)
        = some "status?: \"started\" | \"finished\";\n" := by decide +kernel
  have shown : ((renderBlocks 1 "Task" p).on ws).1.toOption.map (·.getLast?)
      = some (some ⟨"Task",
        "status?: \x7b\"progress\": \"started\"\x7d | \"finished\";\nowner?: TaskOwner;\n"
          ++ "_id: mongoose.Types.ObjectId;\n"⟩) := by decide +kernel
  obtain ⟨status, stored, line⟩ := Option.bind_eq_some_iff.1 own
  obtain ⟨blocks, ws', h, last⟩ := ok_of_map_eq shown
  obtain ⟨inner, rfl⟩ := List.getLast?_eq_some_iff.1 last
  exact ⟨built_task ⟨trivial, trivial, trivial⟩, by decide +kernel, by decide +kernel, status,
    inner, ws', stored, Except.toOption_eq_some_iff.1 line, h⟩

end ModelTypes.Compile
