import ModelTypes.Proofs.Tree.Origin
import ModelTypes.Proofs.Value.Rename
import ModelTypes.Schema.Children
/-!
# Renaming the schemas in trees

Flattening a tree, placing into it, replacing and filling in its flat form, and finding the children
in it all look at keys and at the shape of values only, so they commute with a renaming.
-/

namespace ModelTypes

variable {σ : SchemaId → SchemaId} {v : Value} {tree flat : Entries} {path key : String}

@[simp] theorem renameUnder_append {tree' : Entries} :
    renameUnder σ (tree ++ tree') = renameUnder σ tree ++ renameUnder σ tree' := by
  simp [renameUnder_eq_map]

/-! ## Flattening -/

mutual

theorem leavesAt_rename (path : String) : ∀ v : Value,
    (v.rename σ).leavesAt path = renameUnder σ (v.leavesAt path)
  | .dict [] => rfl
  | .dict ((key, v) :: rest) => leavesUnder_rename (path ++ ".") ((key, v) :: rest)
  | .null | .bool _ | .int _ | .float _ | .str _ | .kind _ | .bytes _ | .marker _ | .function
  | .member _ _ | .virtual _ _ | .schema _ | .shared _ | .list _ | .embedded _ _ => rfl

theorem leavesUnder_rename (lead : String) : ∀ tree : List (String × Value),
    leavesUnder lead (renameUnder σ tree) = renameUnder σ (leavesUnder lead tree)
  | [] => rfl
  | (key, v) :: rest => by
    have own := leavesAt_rename (lead ++ key) v
    have others := leavesUnder_rename lead rest
    rw [renameUnder, leavesUnder, leavesUnder, own, others, renameUnder_append]

end

theorem ofPairs_renameUnder (pairs : Entries) :
    Keyed.ofPairs (renameUnder σ pairs) = renameUnder σ (Keyed.ofPairs pairs) := by
  have step (pairs m : Entries) :
      (renameUnder σ pairs).foldl (fun m p => Keyed.put m p.1 p.2) (renameUnder σ m)
        = renameUnder σ (pairs.foldl (fun m p => Keyed.put m p.1 p.2) m) := by
    induction pairs generalizing m with
    | nil => rfl
    | cons e rest ih =>
      obtain ⟨key, v⟩ := e
      rw [renameUnder_cons, List.foldl_cons, List.foldl_cons, ← ih, put_renameUnder]
  exact step pairs []

theorem flatten_rename : flatten (renameUnder σ tree) = renameUnder σ (flatten tree) := by
  rw [flatten, leavesUnder_rename, ofPairs_renameUnder, flatten]

/-! ## Placing -/

theorem entriesAt_rename :
    entriesAt (renameUnder σ tree) key = renameUnder σ (entriesAt tree key) := by
  unfold entriesAt
  rw [get?_renameUnder]
  rcases Keyed.get? tree key with _ | v
  · rfl
  · cases v <;> rfl

theorem placeAt_rename (trail : List String) (tree : Entries) :
    placeAt trail (v.rename σ) (renameUnder σ tree) = renameUnder σ (placeAt trail v tree) := by
  induction trail generalizing tree with
  | nil => rfl
  | cons key rest ih =>
    cases rest with
    | nil => exact put_renameUnder
    | cons next rest =>
      show Keyed.put (renameUnder σ tree) key
        (.dict (placeAt (next :: rest) (v.rename σ) (entriesAt (renameUnder σ tree) key))) = _
      rw [entriesAt_rename, ih]
      exact put_renameUnder (v := .dict _)

theorem place_rename :
    place path (v.rename σ) (renameUnder σ tree) = renameUnder σ (place path v tree) :=
  placeAt_rename _ tree

theorem unflatten_rename : unflatten (renameUnder σ flat) = renameUnder σ (unflatten flat) := by
  have step (flat tree : Entries) :
      (renameUnder σ flat).foldl (fun tree e => place e.1 e.2 tree) (renameUnder σ tree)
        = renameUnder σ (flat.foldl (fun tree e => place e.1 e.2 tree) tree) := by
    induction flat generalizing tree with
    | nil => rfl
    | cons e rest ih =>
      obtain ⟨path, v⟩ := e
      rw [renameUnder_cons, List.foldl_cons, List.foldl_cons, ← ih, place_rename]
  exact step flat []

theorem replacePath_rename :
    replacePath (renameUnder σ flat) path (v.rename σ)
      = renameUnder σ (replacePath flat path v) := by
  unfold replacePath
  simp [renameUnder_eq_map, List.takeWhile_map, List.dropWhile_map, List.filter_map,
    Function.comp_def]

/-! ## Filling -/

theorem filling_rename : filling path (renameUnder σ flat) = renameUnder σ (filling path flat) := by
  unfold filling
  rw [← unflatten_rename]
  congr 1
  simp [renameUnder_eq_map, List.takeWhile_map, Function.comp_def, List.filterMap_map,
    List.map_filterMap]

/-- Fillings with their schemas renamed. -/
def renameFills (σ : SchemaId → SchemaId) (fills : List (String × Entries)) :
    List (String × Entries) :=
  fills.map fun f => (f.1, renameUnder σ f.2)

theorem lookup_renameFills {fills : List (String × Entries)} :
    (renameFills σ fills).lookup path = (fills.lookup path).map (renameUnder σ) := by
  induction fills with
  | nil => rfl
  | cons f rest ih =>
    rw [renameFills, List.map_cons, List.lookup_cons, List.lookup_cons, ← renameFills, ih]
    split <;> rfl

theorem fillings_rename (flat : Entries) :
    fillings (renameUnder σ flat) = renameFills σ (fillings flat) := by
  induction flat with
  | nil => rfl
  | cons e rest ih =>
    obtain ⟨path, v⟩ := e
    rw [renameUnder_cons]
    by_cases h : v = .dict []
    · subst h
      show fillings ((path, .dict []) :: renameUnder σ rest) = _
      by_cases hf : filling path rest = []
      · have hf' : filling path (renameUnder σ rest) = [] := by rw [filling_rename, hf]; rfl
        rw [fillings_cons_of_filling_eq_nil hf, fillings_cons_of_filling_eq_nil hf', ih]
      · have hf' : filling path (renameUnder σ rest) ≠ [] := by simpa [filling_rename] using hf
        rw [fillings_cons_of_filling_ne_nil hf, fillings_cons_of_filling_ne_nil hf', ih,
          filling_rename]
        rfl
    · have h' : v.rename σ ≠ .dict [] := by
        cases v <;> simp_all [Value.rename, renameUnder_eq_map]
      rw [fillings_cons_of_ne h, fillings_cons_of_ne h', ih]

mutual

theorem fillAt_rename (path : String) (fills : List (String × Entries)) : ∀ v : Value,
    (v.rename σ).fillAt path (renameFills σ fills)
      = ((v.fillAt path fills).1.rename σ, renameFills σ (v.fillAt path fills).2)
  | .dict [] => by
    show Value.fillAt path (renameFills σ fills) (.dict []) = _
    rw [Value.fillAt, Value.fillAt, lookup_renameFills]
    cases fills.lookup path with
    | none => rfl
    | some entries => simp [Value.rename, renameFills, List.filter_map, Function.comp_def]
  | .dict ((key, v) :: rest) => by
    have below := fillUnder_rename (path ++ ".") fills ((key, v) :: rest)
    rw [renameUnder_cons] at below
    rw [Value.rename, renameUnder_cons, Value.fillAt, Value.fillAt, below]
    rfl
  | .null | .bool _ | .int _ | .float _ | .str _ | .kind _ | .bytes _ | .marker _ | .function
  | .member _ _ | .virtual _ _ | .schema _ | .shared _ | .list _ | .embedded _ _ => rfl

theorem fillUnder_rename (lead : String) (fills : List (String × Entries)) :
    ∀ tree : List (String × Value), fillUnder lead (renameFills σ fills) (renameUnder σ tree)
      = (renameUnder σ (fillUnder lead fills tree).1, renameFills σ (fillUnder lead fills tree).2)
  | [] => rfl
  | (key, v) :: rest => by
    have others := fillUnder_rename lead fills rest
    have own := fillAt_rename (lead ++ key) (fillUnder lead fills rest).2 v
    rw [renameUnder, fillUnder, fillUnder]
    simp only [others, own]
    rfl

end

theorem fillFrom_rename :
    fillFrom (renameUnder σ tree) (renameUnder σ flat) = renameUnder σ (fillFrom tree flat) := by
  unfold fillFrom
  rw [fillings_rename]
  cases fillings flat with
  | nil => rfl
  | cons f rest =>
    show (fillUnder "" (renameFills σ (f :: rest)) (renameUnder σ tree)).1 = _
    rw [fillUnder_rename]

/-! ## Children and automatic paths -/

def ChildBinding.rename (σ : SchemaId → SchemaId) (b : ChildBinding) : ChildBinding :=
  { b with schema := σ b.schema }

/-- A schema with the schemas that it mentions renamed. -/
def Schema.rename (σ : SchemaId → SchemaId) (schema : Schema) : Schema :=
  { schema with
    tree := renameUnder σ schema.tree
    children := schema.children.map (·.rename σ) }

theorem childAt?_rename : ∀ v : Value,
    childAt? path (v.rename σ) = (childAt? path v).map (·.rename σ)
  | .list [] => rfl
  | .list [v] | .list (v :: _ :: _) => by cases v <;> rfl
  | .null | .bool _ | .int _ | .float _ | .str _ | .kind _ | .bytes _ | .marker _ | .function
  | .member _ _ | .virtual _ _ | .schema _ | .shared _ | .dict _ | .embedded _ _ => rfl

theorem toList_childAt?_rename (v : Value) : (childAt? path (v.rename σ)).toList
    = (childAt? path v).toList.map (·.rename σ) := by
  rw [childAt?_rename]
  cases childAt? path v <;> rfl

mutual

theorem childrenAt_rename (path : String) : ∀ v : Value,
    (v.rename σ).childrenAt path = (v.childrenAt path).map (·.rename σ)
  | .dict entries => by
    have below := childrenUnder_rename (path ++ ".") entries
    rw [Value.rename, Value.childrenAt, Value.childrenAt, get?_renameUnder]
    cases Keyed.get? entries "type" with
    | none => exact below
    | some type => exact toList_childAt?_rename type
  | .list items => toList_childAt?_rename (.list items)
  | .null | .bool _ | .int _ | .float _ | .str _ | .kind _ | .bytes _ | .marker _ | .function
  | .member _ _ | .virtual _ _ | .schema _ | .shared _ | .embedded _ _ => rfl

theorem childrenUnder_rename (lead : String) : ∀ tree : List (String × Value),
    childrenUnder lead (renameUnder σ tree) = (childrenUnder lead tree).map (·.rename σ)
  | [] => rfl
  | (key, v) :: rest => by
    have own := childrenAt_rename (lead ++ key) v
    have others := childrenUnder_rename lead rest
    rw [renameUnder, childrenUnder, childrenUnder, own, others, List.map_append]

end

theorem childrenOf_rename :
    childrenOf (renameUnder σ tree) = (childrenOf tree).map (·.rename σ) :=
  childrenUnder_rename "" tree

/-- Putting what is missing commutes with a renaming. -/
theorem putIf_rename (c : Bool) (key : String) (v : Value) (tree : Entries) :
    (if c && !Keyed.has (renameUnder σ tree) key then
        Keyed.put (renameUnder σ tree) key (v.rename σ)
      else renameUnder σ tree)
      = renameUnder σ (if c && !Keyed.has tree key then Keyed.put tree key v else tree) := by
  rw [has_renameUnder, put_renameUnder, apply_ite (renameUnder σ)]

theorem withAutomaticPaths_rename (id : SchemaId) (schema : Schema) :
    (schema.rename σ).withAutomaticPaths (σ id) = (schema.withAutomaticPaths id).rename σ := by
  let identifier : Value :=
    .dict [("type", .marker (.declared (.primitive .objectId))), ("auto", .bool true)]
  let first : Entries :=
    if schema.options.objectId && !Keyed.has schema.tree "_id" then
      Keyed.put schema.tree "_id" identifier
    else schema.tree
  let second : Entries :=
    if schema.options.id && !Keyed.has first "id" then Keyed.put first "id" (virtualValue id "id")
    else first
  have hfirst : (if schema.options.objectId && !Keyed.has (renameUnder σ schema.tree) "_id" then
      Keyed.put (renameUnder σ schema.tree) "_id" identifier else renameUnder σ schema.tree)
      = renameUnder σ first := putIf_rename _ "_id" identifier schema.tree
  have hsecond : (if schema.options.id && !Keyed.has (renameUnder σ first) "id" then
      Keyed.put (renameUnder σ first) "id" (virtualValue (σ id) "id") else renameUnder σ first)
      = renameUnder σ second := putIf_rename _ "id" (virtualValue id "id") first
  unfold Schema.withAutomaticPaths Schema.rename
  dsimp only
  rw [hfirst, hsecond]
  simp only [has_renameUnder]
  cases schema.options.versionKey with
  | enabled _ => rfl
  | named key =>
    have hthird := putIf_rename (σ := σ) (key != "") key (.marker (.declared (.primitive .number)))
      second
    rw [has_renameUnder] at hthird
    congr 1

end ModelTypes
