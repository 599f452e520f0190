import ModelTypes.Proofs.Keyed
import ModelTypes.Value.Literal
/-!
# Renaming the schemas in values

`v.rename σ` is `v` with every schema `id` in it replaced by `σ id`. In a store whose nodes mention
no schema that is renamed (`Store.Fixed`), a renamed value is read as the value is: what is found in
it is renamed, and it is of the same kind, as true, and written as the same literal.
-/

namespace ModelTypes

mutual

/-- A value with its schemas renamed. -/
def Value.rename (σ : SchemaId → SchemaId) : Value → Value
  | .virtual path owner => .virtual path (owner.map σ)
  | .schema id => .schema (σ id)
  | .list items => .list (renameAll σ items)
  | .dict entries => .dict (renameUnder σ entries)
  | .embedded e id => .embedded e (σ id)
  | v => v

def renameAll (σ : SchemaId → SchemaId) : List Value → List Value
  | [] => []
  | v :: rest => v.rename σ :: renameAll σ rest

def renameUnder (σ : SchemaId → SchemaId) : List (String × Value) → List (String × Value)
  | [] => []
  | (key, v) :: rest => (key, v.rename σ) :: renameUnder σ rest

end

variable {σ : SchemaId → SchemaId} {v w : Value} {tree : Entries} {items : List Value}
  {key : String}

theorem renameAll_eq_map : renameAll σ items = items.map (·.rename σ) := by
  induction items with
  | nil => rfl
  | cons v rest ih => rw [renameAll, ih, List.map_cons]

theorem renameUnder_eq_map : renameUnder σ tree = tree.map fun e => (e.1, e.2.rename σ) := by
  induction tree with
  | nil => rfl
  | cons e rest ih =>
    obtain ⟨key, v⟩ := e
    rw [renameUnder, ih, List.map_cons]

theorem renameUnder_eq_self_iff : renameUnder σ tree = tree ↔ ∀ e ∈ tree, e.2.rename σ = e.2 := by
  induction tree with
  | nil => simp [renameUnder]
  | cons e rest ih =>
    obtain ⟨key, v⟩ := e
    simp [renameUnder, ih]

@[simp] theorem renameAll_nil : renameAll σ [] = [] := rfl

@[simp] theorem renameAll_cons : renameAll σ (v :: items) = v.rename σ :: renameAll σ items := rfl

@[simp] theorem renameUnder_nil : renameUnder σ [] = [] := rfl

@[simp] theorem renameUnder_cons :
    renameUnder σ ((key, v) :: tree) = (key, v.rename σ) :: renameUnder σ tree := rfl

/-! ## Entries -/

@[simp] theorem keys_renameUnder : Keyed.keys (renameUnder σ tree) = Keyed.keys tree := by
  simp [renameUnder_eq_map, Keyed.keys]

@[simp] theorem values_renameUnder :
    Keyed.values (renameUnder σ tree) = renameAll σ (Keyed.values tree) := by
  simp [renameUnder_eq_map, renameAll_eq_map, Keyed.values]

@[simp] theorem get?_renameUnder :
    Keyed.get? (renameUnder σ tree) key = (Keyed.get? tree key).map (·.rename σ) := by
  induction tree with
  | nil => rfl
  | cons e rest ih =>
    obtain ⟨k, v⟩ := e
    rw [renameUnder_cons, Keyed.get?_cons, Keyed.get?_cons, ih]
    split <;> rfl

@[simp] theorem has_renameUnder : Keyed.has (renameUnder σ tree) key = Keyed.has tree key := by
  simp [renameUnder_eq_map, Keyed.has, List.any_map, Function.comp_def]

@[simp] theorem put_renameUnder :
    Keyed.put (renameUnder σ tree) key (v.rename σ) = renameUnder σ (Keyed.put tree key v) := by
  induction tree with
  | nil => rfl
  | cons e rest ih =>
    obtain ⟨k, w⟩ := e
    rw [renameUnder_cons, Keyed.put, Keyed.put, ih]
    split <;> rfl

@[simp] theorem remove_renameUnder :
    Keyed.remove (renameUnder σ tree) key = renameUnder σ (Keyed.remove tree key) := by
  simp [renameUnder_eq_map, Keyed.remove, List.filter_map, Function.comp_def]

@[simp] theorem renameUnder_eq_nil_iff : renameUnder σ tree = [] ↔ tree = [] := by
  cases tree <;> simp [renameUnder_eq_map]

@[simp] theorem isEmpty_renameUnder : (renameUnder σ tree).isEmpty = tree.isEmpty := by
  cases tree <;> rfl

@[simp] theorem isEmpty_renameAll : (renameAll σ items).isEmpty = items.isEmpty := by
  cases items <;> rfl

@[simp] theorem head?_renameAll : (renameAll σ items).head? = items.head?.map (·.rename σ) := by
  cases items <;> rfl

/-! ## Values without parts -/

theorem getD_rename (w : Option Value) (v : Value) :
    (w.map (·.rename σ)).getD (v.rename σ) = (w.getD v).rename σ :=
  Option.getD_map (·.rename σ) v w

@[simp] theorem text?_rename : (v.rename σ).text? = v.text? := by cases v <;> rfl

@[simp] theorem isNull_rename : (v.rename σ).isNull = v.isNull := by cases v <;> rfl

@[simp] theorem isTrue_rename : (v.rename σ).isTrue = v.isTrue := by cases v <;> rfl

@[simp] theorem kind?_rename : (v.rename σ).kind? = v.kind? := by cases v <;> rfl

/-! ## Containers -/

/-- No schema that a node mentions is renamed. -/
def Node.Fixed (σ : SchemaId → SchemaId) : Node → Prop
  | .list items | .tuple items => renameAll σ items = items
  | .dict entries | .object entries | .enumeration _ entries => renameUnder σ entries = entries
  | .model name schema => name.rename σ = name ∧ schema.rename σ = schema
  | .embedded _ schema => schema.rename σ = schema

/-- No schema that is mentioned in a store is renamed. -/
def Store.Fixed (σ : SchemaId → SchemaId) (s : Store) : Prop := ∀ node ∈ s.nodes, node.Fixed σ

namespace Store

variable {s : Store}

theorem node?_rename : s.node? (v.rename σ) = s.node? v := by cases v <;> rfl

theorem Fixed.node (hs : s.Fixed σ) {node : Node} (h : s.node? v = some node) : node.Fixed σ := by
  unfold node? at h
  split at h
  · exact hs _ (List.mem_of_getElem? h)
  · cases h

variable (hs : s.Fixed σ)

include hs

theorem items?_rename : s.items? (v.rename σ) = (s.items? v).map (renameAll σ) := by
  cases v with
  | shared a =>
    unfold items? Value.rename
    dsimp only
    split
    · rename_i items h
      exact congrArg some (hs.node h).symm
    · rfl
  | _ => rfl

theorem entries?_rename : s.entries? (v.rename σ) = (s.entries? v).map (renameUnder σ) := by
  cases v with
  | shared a =>
    unfold entries? Value.rename
    dsimp only
    split
    · rename_i entries h
      exact congrArg some (hs.node h).symm
    · rfl
  | _ => rfl

theorem tuple?_rename : s.tuple? (v.rename σ) = (s.tuple? v).map (renameAll σ) := by
  unfold tuple?
  rw [node?_rename]
  split
  · rename_i items h
    exact congrArg some (hs.node h).symm
  · rfl

theorem sequence?_rename : s.sequence? (v.rename σ) = (s.sequence? v).map (renameAll σ) := by
  unfold sequence?
  rw [items?_rename hs, tuple?_rename hs]
  cases s.items? v <;> rfl

omit hs in
@[simp] theorem embedding?_rename : s.embedding? (v.rename σ) = s.embedding? v := by
  cases v <;> rfl

theorem get?_rename : s.get? (v.rename σ) key = (s.get? v key).map (·.rename σ) := by
  unfold get?
  rw [entries?_rename hs]
  cases s.entries? v with
  | none => rfl
  | some entries => exact get?_renameUnder

theorem first?_rename : s.first? (v.rename σ) = (s.first? v).map (·.rename σ) := by
  unfold first?
  rw [sequence?_rename hs]
  cases s.sequence? v with
  | none => rfl
  | some items => exact head?_renameAll

omit hs in
theorem truthy_rename : s.truthy (v.rename σ) = s.truthy v := by
  cases v with
  | list items => exact congrArg not isEmpty_renameAll
  | dict entries => exact congrArg not isEmpty_renameUnder
  | _ => rfl

/-! ## Enumerations and attributes -/

omit hs in
theorem enumeration?_rename : s.enumeration? (v.rename σ) = s.enumeration? v := by
  unfold enumeration?
  rw [node?_rename]

omit hs in
theorem member?_rename : s.member? (v.rename σ) = s.member? v := by cases v <;> rfl

omit hs in
theorem mem_of_mem_distinctMembers {same : Value → Value → Bool} {members : Entries}
    {m : String × Value} (h : m ∈ distinctMembers same members) : m ∈ members := by
  have kept (members seen : Entries) (hm : m ∈ members.foldl
      (fun kept m => if kept.any (fun k => same k.2 m.2) then kept else kept ++ [m]) seen) :
      m ∈ seen ∨ m ∈ members := by
    induction members generalizing seen with
    | nil => exact .inl hm
    | cons first rest ih =>
      rw [List.foldl_cons] at hm
      rcases ih _ hm with hm | hm
      · split at hm
        · exact .inl hm
        · rcases List.mem_append.1 hm with hm | hm
          · exact .inl hm
          · exact .inr (List.mem_singleton.1 hm ▸ List.mem_cons_self)
      · exact .inr (List.mem_cons_of_mem _ hm)
  simpa using kept members [] h

theorem rename_enumeration? {name : String} {members : Entries}
    (h : s.enumeration? v = some (name, members)) : renameUnder σ members = members := by
  unfold enumeration? at h
  split at h
  · rename_i all hnode
    cases h
    have fixed := renameUnder_eq_self_iff.1 (hs.node hnode)
    exact renameUnder_eq_self_iff.2 fun m hm => fixed m (mem_of_mem_distinctMembers hm)
  · cases h

theorem rename_member? {enumeration name : String} (h : s.member? v = some (enumeration, name, w)) :
    w.rename σ = w := by
  unfold member? at h
  split at h
  · split at h
    · rename_i members hnode
      obtain ⟨m, hm, heq⟩ := Option.map_eq_some_iff.1 h
      cases heq
      obtain ⟨value, -, hfind⟩ := Option.bind_eq_some_iff.1 hm
      exact renameUnder_eq_self_iff.1 (hs.node hnode) m
        (mem_of_mem_distinctMembers (List.mem_of_find?_eq_some hfind))
    · cases h
  · cases h

theorem attribute?_rename (name : String) :
    s.attribute? (v.rename σ) name = (s.attribute? v name).map (·.rename σ) := by
  cases v with
  | virtual path owner =>
    show Keyed.get? (virtualAttributes path) name
      = (Keyed.get? (virtualAttributes path) name).map _
    rw [← get?_renameUnder]
    rfl
  | member a own =>
    show s.attribute? (.member a own) name = _
    unfold attribute?
    dsimp only
    split
    · rename_i hm
      have fixed := rename_member? hs hm
      simp only [apply_ite (Option.map _), Option.map_some, Option.map_none, Value.rename, fixed]
    · rfl
  | shared a =>
    show s.attribute? (.shared a) name = _
    unfold attribute?
    dsimp only
    split
    · rename_i attributes hnode
      rw [← get?_renameUnder, show renameUnder σ attributes = attributes from hs.node hnode]
    · rename_i modelName schema hnode
      have fixed : modelName.rename σ = modelName ∧ schema.rename σ = schema := hs.node hnode
      simp only [apply_ite (Option.map _), Option.map_some, Option.map_none, fixed]
    · rename_i e schema hnode
      have fixed : schema.rename σ = schema := hs.node hnode
      simp only [apply_ite (Option.map _), Option.map_some, Option.map_none, Value.rename, fixed]
    · split <;> rfl
    · rfl
  | _ => rfl

end Store

/-! ## Literals -/

section Literals

variable (s : Store)

mutual

theorem literal_outline_rename : ∀ v : Value,
    (s.outline (v.rename σ)).literal = (s.outline v).literal
  | .list items => by
    have same := itemLiterals_outlineItems_rename items
    rw [Value.rename, Store.outline, Store.outline, Outline.literal, Outline.literal, same]
  | .dict entries => by
    have same := entryLiterals_outlineEntries_rename entries
    rw [Value.rename, Store.outline, Store.outline, Outline.literal, Outline.literal, same]
  | .embedded e id => by
    rw [Value.rename, Store.outline, Store.outline, Outline.literal, Outline.literal]
    all_goals simp
  | .schema _ | .virtual _ _ => by
    simp [Value.rename, Store.outline, Store.outlineShared, Outline.literal, Value.leafLiteral]
  | .null | .bool _ | .int _ | .float _ | .str _ | .kind _ | .bytes _ | .marker _ | .function
  | .member _ _ | .shared _ => rfl

theorem itemLiterals_outlineItems_rename : ∀ items : List Value,
    itemLiterals (s.outlineItems (renameAll σ items)) = itemLiterals (s.outlineItems items)
  | [] => rfl
  | v :: rest => by
    have own := literal_outline_rename v
    have others := itemLiterals_outlineItems_rename rest
    rw [renameAll, Store.outlineItems, Store.outlineItems, itemLiterals, itemLiterals, own, others]

theorem entryLiterals_outlineEntries_rename : ∀ entries : List (String × Value),
    entryLiterals (s.outlineEntries (renameUnder σ entries))
      = entryLiterals (s.outlineEntries entries)
  | [] => rfl
  | (key, v) :: rest => by
    have own := literal_outline_rename v
    have others := entryLiterals_outlineEntries_rename rest
    rw [renameUnder, Store.outlineEntries, Store.outlineEntries, entryLiterals, entryLiterals, own,
      others]

end

/-- The literal of a value does not mention the schemas in it. -/
theorem Store.literal_rename (v : Value) : s.literal (v.rename σ) = s.literal v :=
  literal_outline_rename s v

end Literals

end ModelTypes
