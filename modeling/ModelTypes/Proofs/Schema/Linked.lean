import ModelTypes.Proofs.Schema.Within
/-!
# Children are schemas of the workspace

A schema is known by its place in the workspace, so a value could name a place where no schema
stands. None does in a workspace that came about by writing containers and by making and extending
schemas (`Built.linked`).
-/

namespace ModelTypes

variable {n : Nat} {v : Value} {tree : Entries}

/-! ## Schemas made from a tree -/

/-- Schemas that declare each other only. -/
def Closed (schemas : List Schema) : Prop :=
  ∀ schema ∈ schemas, WithinUnder schemas.length schema.tree ∧
    ∀ b ∈ schema.children, b.schema < schemas.length

/-- Work that adds schemas keeps them closed, and what it gives is right for the schemas it
leaves. -/
def KeepsClosed {α : Type} (n : Nat) (Right : Nat → α → Prop) (work : StateM (List Schema) α) :
    Prop :=
  ∀ schemas, n ≤ schemas.length → Closed schemas →
    schemas.length ≤ (work.run schemas).2.length ∧ Closed (work.run schemas).2 ∧
      Right (work.run schemas).2.length (work.run schemas).1

namespace KeepsClosed

variable {α β : Type} {P : Nat → α → Prop} {Q : Nat → β → Prop}

theorem pure {a : α} (h : ∀ m, n ≤ m → P m a) : KeepsClosed n P (pure a) :=
  fun _ hn closed => ⟨Nat.le_refl _, closed, h _ hn⟩

theorem bind {x : StateM (List Schema) α} {f : α → StateM (List Schema) β} (hx : KeepsClosed n P x)
    (hf : ∀ m a, n ≤ m → P m a → KeepsClosed m Q (f a)) : KeepsClosed n Q (x >>= f) := by
  intro schemas hn closed
  obtain ⟨hle, closed', ha⟩ := hx schemas hn closed
  obtain ⟨hle', closed'', hb⟩ := hf _ _ (Nat.le_trans hn hle) ha _ (Nat.le_refl _) closed'
  exact ⟨Nat.le_trans hle hle', closed'', hb⟩

end KeepsClosed

theorem WithinUnder.putIf {c : Prop} [Decidable c] {key : String} (h : WithinUnder n tree)
    (hv : v.Within n) : WithinUnder n (if c then Keyed.put tree key v else tree) := by
  split
  · exact h.put hv
  · exact h

theorem WithinUnder.withAutomaticPaths {schema : Schema} (id : SchemaId)
    (h : WithinUnder n schema.tree) : WithinUnder n (schema.withAutomaticPaths id).tree := by
  have identifier : Value.Within n
      (.dict [("type", .marker (.declared (.primitive .objectId))), ("auto", .bool true)]) :=
    ⟨trivial, trivial, trivial⟩
  have virtual : (virtualValue id "id").Within n := trivial
  have version : Value.Within n (.marker (.declared (.primitive .number))) := trivial
  unfold Schema.withAutomaticPaths
  dsimp only
  cases schema.options.versionKey with
  | named key => exact ((h.putIf identifier).putIf virtual).putIf version
  | enabled _ => exact (h.putIf identifier).putIf virtual

theorem Closed.append {schemas : List Schema} {schema : Schema} (closed : Closed schemas)
    (tree : WithinUnder (schemas.length + 1) schema.tree)
    (children : ∀ b ∈ schema.children, b.schema < schemas.length + 1) :
    Closed (schemas ++ [schema]) := by
  intro other ho
  rw [List.length_append, List.length_singleton]
  rcases List.mem_append.1 ho with ho | ho
  · obtain ⟨htree, hchildren⟩ := closed other ho
    exact ⟨htree.mono (Nat.le_succ _), fun b hb => Nat.lt_succ_of_lt (hchildren b hb)⟩
  · rw [List.mem_singleton.1 ho]
    exact ⟨tree, children⟩

theorem keepsClosed_makeSchema (options : Options) (functions : Functions)
    (h : WithinUnder n tree) :
    KeepsClosed n (fun m id => id < m) (makeSchema options functions tree) := by
  intro schemas hn closed
  have within : WithinUnder (schemas.length + 1) tree := h.mono (by omega)
  let made : Schema := { options, functions, tree, children := childrenOf tree }
  have paths : WithinUnder (schemas.length + 1) (made.withAutomaticPaths schemas.length).tree :=
    WithinUnder.withAutomaticPaths _ within
  refine ⟨?_, closed.append paths (within_childrenUnder "" tree within), ?_⟩
  · show schemas.length ≤ (schemas ++ [_]).length
    simp
  · show schemas.length < (schemas ++ [_]).length
    simp

mutual

theorem keepsClosed_implicitFields {n : Nat} : ∀ tree, WithinUnder n tree →
    KeepsClosed n WithinUnder (implicitFields tree)
  | [], _ => by
    rw [implicitFields]
    exact .pure fun _ _ => trivial
  | (key, v) :: rest, h => by
    rw [implicitFields]
    refine .bind (keepsClosed_implicitField v h.1) fun m w hle hw => ?_
    refine .bind (keepsClosed_implicitFields rest (h.2.mono hle)) fun m' rest' hle' hrest => ?_
    exact .pure fun k hk => ⟨Value.Within.mono (Nat.le_trans hle' hk) w hw, hrest.mono hk⟩

theorem keepsClosed_implicitField {n : Nat} (v : Value) (h : v.Within n) :
    KeepsClosed n (fun m v => v.Within m) (implicitField v) := by
  cases v with
  | list items =>
    rw [implicitField]
    refine .bind (keepsClosed_implicitItems items h) fun m items' _ hitems => ?_
    exact .pure fun k hk => hitems.mono hk
  | dict entries =>
    have ofType := keepsClosed_implicitType entries h
    have ofFields := keepsClosed_implicitFields entries h
    rw [implicitField]
    split
    · exact ofType.bind fun m entries' _ he => .pure fun k hk => he.mono hk
    · exact ofFields.bind fun m entries' _ he => .pure fun k hk => he.mono hk
  | _ =>
    rw [implicitField]
    · exact .pure fun k hk => Value.Within.mono hk _ h
    all_goals simp

theorem keepsClosed_implicitItems {n : Nat} : ∀ items, WithinAll n items →
    KeepsClosed n WithinAll (implicitItems items)
  | [item], h => by
    rw [implicitItems]
    refine .bind (keepsClosed_implicitItem item h.1) fun m item' _ hitem => ?_
    exact .pure fun k hk => ⟨Value.Within.mono hk item' hitem, trivial⟩
  | [], h | first :: second :: rest, h => by
    rw [implicitItems]
    · exact .pure fun k hk => h.mono hk
    all_goals simp

theorem keepsClosed_implicitItem {n : Nat} (v : Value) (h : v.Within n) :
    KeepsClosed n (fun m v => v.Within m) (implicitItem v) := by
  cases v with
  | dict entries =>
    have ofFields := keepsClosed_implicitFields entries h
    rw [implicitItem]
    split
    · refine ofFields.bind fun m tree _ htree => ?_
      exact (keepsClosed_makeSchema {} {} htree).bind fun m' id _ hid =>
        .pure fun k hk => Nat.lt_of_lt_of_le hid hk
    · exact .pure fun k hk => Value.Within.mono hk _ h
  | _ =>
    rw [implicitItem]
    · exact .pure fun k hk => Value.Within.mono hk _ h
    all_goals simp

theorem keepsClosed_implicitType {n : Nat} : ∀ tree, WithinUnder n tree →
    KeepsClosed n WithinUnder (implicitType tree)
  | [], _ => by
    rw [implicitType]
    exact .pure fun _ _ => trivial
  | (key, v) :: rest, h => by
    have ofArray := keepsClosed_implicitArray v h.1
    have ofRest := keepsClosed_implicitType rest h.2
    rw [implicitType]
    split
    · refine ofArray.bind fun m w hle hw => .pure fun k hk => ?_
      exact ⟨Value.Within.mono hk w hw, h.2.mono (Nat.le_trans hle hk)⟩
    · refine ofRest.bind fun m rest' hle hrest => .pure fun k hk => ?_
      exact ⟨Value.Within.mono (Nat.le_trans hle hk) v h.1, hrest.mono hk⟩

theorem keepsClosed_implicitArray {n : Nat} (v : Value) (h : v.Within n) :
    KeepsClosed n (fun m v => v.Within m) (implicitArray v) := by
  cases v with
  | list items =>
    rw [implicitArray]
    refine .bind (keepsClosed_implicitItems items h) fun m items' _ hitems => ?_
    exact .pure fun k hk => hitems.mono hk
  | _ =>
    rw [implicitArray]
    · exact .pure fun k hk => Value.Within.mono hk _ h
    all_goals simp

end

/-! ## Workspaces -/

namespace Workspace

/-- Every child that a schema declares is a schema of the workspace. -/
def Linked (ws : Workspace) : Prop :=
  ∀ schema ∈ ws.schemas, ∀ b ∈ schema.children, b.schema < ws.schemas.length

theorem Linked.child_lt {ws : Workspace} (h : ws.Linked) {id : SchemaId} {b : ChildBinding}
    (hb : b ∈ (ws.schema id).children) : b.schema < ws.schemas.length := by
  unfold Workspace.schema at hb
  cases hs : ws.schemas[id]? with
  | none => simp [hs] at hb
  | some schema => exact h schema (List.mem_of_getElem? hs) b (by simpa [hs] using hb)

/-- Nothing in a workspace declares a schema that is not in it. -/
structure Whole (ws : Workspace) : Prop where
  store : ws.store.Within ws.schemas.length
  closed : Closed ws.schemas

variable {ws : Workspace}

/-- What holds of every schema that was made and of the empty one holds of all schemas. -/
theorem forall_schema {P : Schema → Prop} (made : ∀ schema ∈ ws.schemas, P schema) (empty : P {})
    (id : SchemaId) : P (ws.schema id) := by
  unfold Workspace.schema
  cases hs : ws.schemas[id]? with
  | none => exact empty
  | some schema => exact made schema (List.mem_of_getElem? hs)

theorem Whole.linked (h : ws.Whole) : ws.Linked := fun schema hs => (h.closed schema hs).2

theorem Whole.within_tree (h : ws.Whole) (id : SchemaId) :
    WithinUnder ws.schemas.length (ws.schema id).tree := by
  unfold Workspace.schema
  cases hs : ws.schemas[id]? with
  | none => trivial
  | some schema => exact (h.closed schema (List.mem_of_getElem? hs)).1

theorem length_update (id : SchemaId) (f : Schema → Schema) :
    (ws.update id f).schemas.length = ws.schemas.length := by
  simp [update]

theorem Whole.update (h : ws.Whole) {id : SchemaId} {f : Schema → Schema}
    (hf : ∀ schema ∈ ws.schemas, WithinUnder ws.schemas.length (f schema).tree ∧
      ∀ b ∈ (f schema).children, b.schema < ws.schemas.length) : (ws.update id f).Whole where
  store := by
    rw [length_update]
    exact h.store
  closed := by
    intro schema hs
    rw [length_update]
    obtain ⟨i, hi⟩ := List.mem_iff_getElem?.1 hs
    simp only [Workspace.update, List.getElem?_modify, Option.map_eq_map,
      Option.map_eq_some_iff] at hi
    obtain ⟨old, hold, rfl⟩ := hi
    have hm := List.mem_of_getElem? hold
    split
    · exact hf old hm
    · exact h.closed old hm

theorem Whole.create (h : ws.Whole) {definition options : Value} {functions : Functions}
    (hd : definition.Within ws.schemas.length) :
    (ws.create definition options functions).2.Whole := by
  have given (v : Value) (hv : v.Within ws.schemas.length) :
      (if ws.store.truthy v then v else .dict []).Within ws.schemas.length := by
    split
    · exact hv
    · trivial
  unfold Workspace.create
  dsimp only
  split
  · exact h
  · split
    · exact h
    · split
      · exact h
      · rename_i options _ _ fields hfields
        have within := h.store.entries (given definition hd) hfields
        have none : WithinUnder ws.schemas.length [] := trivial
        have copied := none.copyFields h.store within
        split
        · exact h
        · rename_i tree hcopy
          rw [hcopy] at copied
          have made : KeepsClosed ws.schemas.length (fun m id => id < m) _ :=
            (keepsClosed_implicitFields tree copied).bind fun m tree' _ htree =>
              keepsClosed_makeSchema options functions htree
          obtain ⟨hle, closed, -⟩ := made ws.schemas (Nat.le_refl _) h.closed
          exact ⟨fun node hnode => Node.Within.mono hle (h.store node hnode), closed⟩

theorem Whole.add (h : ws.Whole) {id : SchemaId} {definition : Value}
    (hd : definition.Within ws.schemas.length) : (ws.add id definition).2.Whole := by
  unfold Workspace.add
  split
  · exact h
  · rename_i fields hfields
    have copied := (h.within_tree id).copyFields h.store (h.store.entries hd hfields)
    split
    · rename_i tree e hcopy
      rw [hcopy] at copied
      exact h.update fun schema hs => ⟨copied, (h.closed schema hs).2⟩
    · rename_i tree hcopy
      rw [hcopy] at copied
      obtain ⟨hle, closed, htree⟩ :=
        keepsClosed_implicitFields tree copied ws.schemas (Nat.le_refl _) h.closed
      have grown : Whole { ws with schemas := ((implicitFields tree).run ws.schemas).2 } :=
        ⟨fun node hnode => Node.Within.mono hle (h.store node hnode), closed⟩
      exact grown.update fun schema _ => ⟨htree, within_childrenUnder "" _ htree⟩

/-- Workspaces that come about by writing containers, and by making and extending schemas with
them. -/
inductive Built : Workspace → Prop
  | empty : Built {}
  | write {ws : Workspace} {store : Store} (before : Built ws)
      (within : store.Within ws.schemas.length) : Built { ws with store }
  | create {ws : Workspace} {definition options : Value} {functions : Functions}
      (before : Built ws) (within : definition.Within ws.schemas.length) :
      Built (ws.create definition options functions).2
  | add {ws : Workspace} {id : SchemaId} {definition : Value} (before : Built ws)
      (within : definition.Within ws.schemas.length) : Built (ws.add id definition).2

theorem Built.whole (h : Built ws) : ws.Whole := by
  induction h with
  | empty => exact ⟨by simp [Store.Within], by simp [Closed]⟩
  | write _ within ih => exact ⟨within, ih.closed⟩
  | create _ within ih => exact ih.create within
  | add _ within ih => exact ih.add within

theorem Built.linked (h : Built ws) : ws.Linked := h.whole.linked

end Workspace
end ModelTypes
