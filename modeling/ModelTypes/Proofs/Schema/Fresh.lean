import ModelTypes.Proofs.Schema.Explicit
import ModelTypes.Proofs.Schema.Mirror
import ModelTypes.Proofs.Value.Copy
/-!
# Schemas as they are made

Making a schema and adding to one leave behind a tree in which arrays of plain objects have become
arrays of schemas, and nothing else has changed (`TreeWith`), and schemas that are as they are made:
fresh. A tree without such arrays is left as it is.
-/

namespace ModelTypes

variable {tree tree' : Entries} {v v' : Value} {ps : List Entries} {ids : List SchemaId}
  {n : Nat} {made made' : List Schema} {trail : Trail}

/-! ## Fresh schemas -/

/-- A schema as it is made of a tree. -/
def Schema.madeOf (options : Options) (functions : Functions) (tree : Entries) (id : SchemaId) :
    Schema :=
  ({ options, functions, tree, children := childrenOf tree } : Schema).withAutomaticPaths id

/-- A schema that was made, with nothing in it left to convert. -/
inductive Schema.Fresh (id : SchemaId) : Schema → Prop
  | intro (options : Options) (functions : Functions) {tree : Entries}
      (settled : settledUnder tree = true) : Fresh id (madeOf options functions tree id)

theorem Schema.Fresh.mirrors {id : SchemaId} {schema : Schema} (h : schema.Fresh id) :
    schema.Mirrors := by
  cases h with
  | intro options functions settled => exact Schema.Mirrors.withAutomaticPaths id ⟨rfl, settled⟩

/-- Schemas that were made one after the other, the first under an identity. -/
def FreshFrom (n : Nat) (made : List Schema) : Prop :=
  ∀ (i : Nat) (schema : Schema), made[i]? = some schema → schema.Fresh (n + i)

theorem freshFrom_nil : FreshFrom n [] := by
  intro i schema h
  simp at h

theorem freshFrom_singleton {schema : Schema} (h : schema.Fresh n) : FreshFrom n [schema] := by
  intro i schema' hi
  cases i with
  | zero => exact Option.some.inj hi ▸ h
  | succ i => simp at hi

theorem FreshFrom.append (h : FreshFrom n made) (h' : FreshFrom (n + made.length) made') :
    FreshFrom n (made ++ made') := by
  intro i schema hi
  rw [List.getElem?_append] at hi
  split at hi
  · exact h i schema hi
  · have fresh := h' (i - made.length) schema hi
    rwa [show n + made.length + (i - made.length) = n + i by omega] at fresh

/-! ## Converting trees -/

/-- Work that adds schemas adds fresh ones, and what it gives is right. -/
def MakesFresh {α : Type} (Right : α → Prop) (work : StateM (List Schema) α) : Prop :=
  ∀ schemas, Right (work.run schemas).1 ∧
    ∃ made, (work.run schemas).2 = schemas ++ made ∧ FreshFrom schemas.length made

namespace MakesFresh

variable {α β : Type} {P : α → Prop} {Q : β → Prop}

theorem pure {a : α} (h : P a) : MakesFresh P (pure a) :=
  fun schemas => ⟨h, [], (List.append_nil schemas).symm, freshFrom_nil⟩

theorem bind {x : StateM (List Schema) α} {f : α → StateM (List Schema) β} (hx : MakesFresh P x)
    (hf : ∀ a, P a → MakesFresh Q (f a)) : MakesFresh Q (x >>= f) := by
  intro schemas
  obtain ⟨ha, made, hmade, fresh⟩ := hx schemas
  obtain ⟨hb, made', hmade', fresh'⟩ := hf _ ha (x.run schemas).2
  refine ⟨hb, made ++ made', ?_, fresh.append ?_⟩
  · show ((f (x.run schemas).1).run (x.run schemas).2).2 = _
    rw [hmade', hmade, List.append_assoc]
  · rwa [hmade, List.length_append] at fresh'

theorem and_mirrors {P' : α → Prop} {x : StateM (List Schema) α} (h : MakesFresh P x)
    (h' : MakesMirrors P' x) : MakesFresh (fun a => P a ∧ P' a) x :=
  fun schemas => ⟨⟨(h schemas).1, (h' schemas).1⟩, (h schemas).2⟩

end MakesFresh

theorem makesFresh_makeSchema (options : Options) (functions : Functions)
    (settled : settledUnder tree = true) :
    MakesFresh (fun _ => True) (makeSchema options functions tree) :=
  fun _ => ⟨trivial, _, rfl, freshFrom_singleton (.intro options functions settled)⟩

/-- A value, with schemas for arrays of plain objects in the second. -/
def Value.Converts (v v' : Value) : Prop := ∃ ps ids, ValueWith v v' ps ids

/-- Two trees, with schemas for arrays of plain objects in the second. -/
def Converts (tree tree' : Entries) : Prop := ∃ ps ids, TreeWith tree tree' ps ids

/-- An array of a plain object, with a schema in its place. -/
inductive ArrayConverts : Value → Value → Prop
  | same {v : Value} : ArrayConverts v v
  | array {p : Entries} {id : SchemaId} (plain : isPlainObject p = true) :
      ArrayConverts (.list [.dict p]) (.list [.schema id])

/-- The entries of a field with a type, of which only the first type is converted. -/
inductive TypeConverts : Entries → Entries → Prop
  | same {entries : Entries} : TypeConverts entries entries
  | typed {before after : Entries} {p : Entries} {id : SchemaId}
      (first : "type" ∉ Keyed.keys before) (plain : isPlainObject p = true) :
      TypeConverts (before ++ ("type", .list [.dict p]) :: after)
        (before ++ ("type", .list [.schema id]) :: after)

mutual

/-- Converting the fields of a tree puts schemas in the places of plain objects in arrays. -/
theorem makesFresh_implicitFields : ∀ tree,
    MakesFresh (Converts tree) (implicitFields tree)
  | [] => by
    rw [implicitFields]
    exact .pure ⟨_, _, .nil⟩
  | (key, v) :: rest => by
    rw [implicitFields]
    refine .bind (makesFresh_implicitField v) fun w ⟨_, _, own⟩ => ?_
    refine .bind (makesFresh_implicitFields rest) fun rest' ⟨_, _, others⟩ => ?_
    exact .pure ⟨_, _, .cons own others⟩

theorem makesFresh_implicitField : ∀ v, MakesFresh v.Converts (implicitField v)
  | .list items => by
    rw [implicitField]
    refine .bind (makesFresh_implicitItems items) fun items' h => .pure ?_
    cases h with
    | same => exact ⟨_, _, .same⟩
    | array plain => exact ⟨_, _, .array plain⟩
  | .dict entries => by
    have ofType := makesFresh_implicitType entries
    have ofFields := makesFresh_implicitFields entries
    rw [implicitField]
    split
    · refine ofType.bind fun entries' h => .pure ?_
      cases h with
      | same => exact ⟨_, _, .same⟩
      | typed first plain => exact ⟨_, _, .typed first plain⟩
    · rename_i untyped
      refine ofFields.bind fun entries' ⟨_, _, below⟩ => .pure ⟨_, _, .nested ?_ below⟩
      simpa using untyped
  | .null | .bool _ | .int _ | .float _ | .str _ | .kind _ | .bytes _ | .marker _ | .function
  | .member _ _ | .virtual _ _ | .schema _ | .shared _ | .embedded _ _ => by
    rw [implicitField]
    · exact .pure ⟨_, _, .same⟩
    all_goals simp

theorem makesFresh_implicitItems : ∀ items,
    MakesFresh (fun items' => ArrayConverts (.list items) (.list items')) (implicitItems items)
  | [item] => by
    rw [implicitItems]
    exact .bind (makesFresh_implicitItem item) fun item' h => .pure h
  | [] | _ :: _ :: _ => by
    rw [implicitItems]
    · exact .pure .same
    all_goals simp

theorem makesFresh_implicitItem : ∀ v,
    MakesFresh (fun v' => ArrayConverts (.list [v]) (.list [v'])) (implicitItem v)
  | .dict entries => by
    have ofFields := (makesFresh_implicitFields entries).and_mirrors
      (makesMirrors_implicitFields entries)
    rw [implicitItem]
    split
    · rename_i plain
      refine ofFields.bind fun tree ⟨_, _, settled⟩ => ?_
      exact (makesFresh_makeSchema {} {} settled).bind fun id _ => .pure (.array plain)
    · exact .pure .same
  | .null | .bool _ | .int _ | .float _ | .str _ | .kind _ | .bytes _ | .marker _ | .function
  | .member _ _ | .virtual _ _ | .schema _ | .shared _ | .list _ | .embedded _ _ => by
    rw [implicitItem]
    · exact .pure .same
    all_goals simp

theorem makesFresh_implicitType : ∀ tree,
    MakesFresh (TypeConverts tree) (implicitType tree)
  | [] => by
    rw [implicitType]
    exact .pure .same
  | (key, v) :: rest => by
    have ofArray := makesFresh_implicitArray v
    have ofRest := makesFresh_implicitType rest
    rw [implicitType]
    split
    · rename_i hk
      refine ofArray.bind fun w h => .pure ?_
      cases h with
      | same => exact .same
      | array plain =>
        have first : "type" ∉ Keyed.keys ([] : Entries) := by simp
        exact hk ▸ .typed first plain
    · rename_i hk
      refine ofRest.bind fun rest' h => .pure ?_
      cases h with
      | same => exact .same
      | @typed before after p id first plain =>
        have first' : "type" ∉ Keyed.keys ((key, v) :: before) := by
          simpa [Ne.symm hk] using first
        exact .typed first' plain

theorem makesFresh_implicitArray : ∀ v, MakesFresh (ArrayConverts v) (implicitArray v)
  | .list items => by
    rw [implicitArray]
    exact .bind (makesFresh_implicitItems items) fun items' h => .pure h
  | .null | .bool _ | .int _ | .float _ | .str _ | .kind _ | .bytes _ | .marker _ | .function
  | .member _ _ | .virtual _ _ | .schema _ | .shared _ | .dict _ | .embedded _ _ => by
    rw [implicitArray]
    · exact .pure .same
    all_goals simp

end

/-! ## What conversion leaves alone -/

theorem isImplicit_of_plain {p : Entries} (plain : isPlainObject p = true) :
    (Value.list [.dict p]).isImplicit = true := plain

mutual

theorem ValueWith.eq_of_settled {v v' : Value} {ps : List Entries} {ids : List SchemaId}
    (settled : v.settled = true) : ValueWith v v' ps ids → v' = v
  | .same => rfl
  | .array plain => by
    rw [Value.settled, isImplicit_of_plain plain] at settled
    · cases settled
    · simp
  | .typed first plain => by
    rw [Value.settled, Keyed.get?_append_of_notMem first, Keyed.get?_cons, if_pos rfl] at settled
    dsimp only at settled
    rw [isImplicit_of_plain plain] at settled
    cases settled
  | .nested untyped below => by
    rw [Value.settled, Keyed.has_eq_false_iff.1 untyped] at settled
    rw [below.eq_of_settled settled]

/-- A tree without arrays of plain objects is left as it is. -/
theorem TreeWith.eq_of_settled {tree tree' : List (String × Value)} {ps : List Entries}
    {ids : List SchemaId} (settled : settledUnder tree = true) :
    TreeWith tree tree' ps ids → tree' = tree
  | .nil => rfl
  | .cons own others => by
    rw [settledUnder, Bool.and_eq_true] at settled
    rw [own.eq_of_settled settled.1, others.eq_of_settled settled.2]

end

/-- Of fields that are settled, conversion changes none. -/
theorem Converts.filter_eq (keep : String → Bool) (h : Converts tree tree')
    (settled : settledUnder (tree.filter fun e => keep e.1) = true) :
    tree'.filter (fun e => keep e.1) = tree.filter fun e => keep e.1 := by
  obtain ⟨ps, ids, h⟩ := h
  induction tree generalizing tree' ps ids with
  | nil =>
    cases h
    rfl
  | cons e rest ih =>
    cases h with
    | @cons key v v' _ rest' _ _ _ _ own others =>
      cases hk : keep key with
      | false =>
        rw [List.filter_cons_of_neg (by simp [hk])] at settled ⊢
        rw [List.filter_cons_of_neg (by simp [hk])]
        exact ih settled _ _ others
      | true =>
        rw [List.filter_cons_of_pos (by simpa using hk), settledUnder, Bool.and_eq_true] at settled
        rw [List.filter_cons_of_pos (by simpa using hk),
          List.filter_cons_of_pos (by simpa using hk),
          own.eq_of_settled settled.1, ih settled.2 _ _ others]

theorem Converts.refl (tree : Entries) : Converts tree tree := by
  induction tree with
  | nil => exact ⟨_, _, .nil⟩
  | cons e rest ih =>
    obtain ⟨_, _, others⟩ := ih
    exact ⟨_, _, .cons .same others⟩

theorem Converts.append_cons {before after : Entries} {key : String} (h : v.Converts v') :
    Converts (before ++ (key, v) :: after) (before ++ (key, v') :: after) := by
  induction before with
  | nil =>
    obtain ⟨_, _, own⟩ := h
    obtain ⟨_, _, others⟩ := Converts.refl after
    exact ⟨_, _, .cons own others⟩
  | cons e rest ih =>
    obtain ⟨_, _, others⟩ := ih
    exact ⟨_, _, .cons .same others⟩

theorem Converts.keys (h : Converts tree tree') : Keyed.keys tree' = Keyed.keys tree := by
  obtain ⟨_, _, h⟩ := h
  exact h.keys

theorem Converts.get? (h : Converts tree tree') {key : String} (hv : Keyed.get? tree key = some v) :
    ∃ v', Keyed.get? tree' key = some v' ∧ v.Converts v' := by
  obtain ⟨ps, ids, h⟩ := h
  induction tree generalizing tree' ps ids with
  | nil => simp at hv
  | cons e rest ih =>
    cases h with
    | cons own others =>
      rw [Keyed.get?_cons] at hv ⊢
      split at hv
      · rename_i hk
        rw [if_pos hk]
        exact ⟨_, rfl, Option.some.inj hv ▸ ⟨_, _, own⟩⟩
      · rename_i hk
        rw [if_neg hk]
        exact ih hv _ _ others

/-- The ways in which a value is converted: not at all, as an array, or in its entries. -/
theorem Value.Converts.cases (h : v.Converts v') : v' = v ∨ (∃ items, v = .list items) ∨
    ∃ entries entries', v = .dict entries ∧ v' = .dict entries' ∧
      ModelTypes.Converts entries entries' := by
  obtain ⟨_, _, h⟩ := h
  cases h with
  | same => exact .inl rfl
  | array plain => exact .inr (.inl ⟨_, rfl⟩)
  | typed first plain => exact .inr (.inr ⟨_, _, rfl, rfl, .append_cons ⟨_, _, .array plain⟩⟩)
  | nested untyped below => exact .inr (.inr ⟨_, _, rfl, rfl, ⟨_, _, below⟩⟩)

/-- Conversion keeps every leaf but lists where it is. -/
theorem Converts.leafAt (h : Converts tree tree') (hv : ModelTypes.leafAt trail tree = some v)
    (other : ∀ items, v ≠ .list items) : ModelTypes.leafAt trail tree' = some v := by
  induction trail generalizing tree tree' with
  | nil => cases hv
  | cons key rest ih =>
    cases hg : Keyed.get? tree key with
    | none =>
      have fresh : Keyed.get? tree key = Keyed.get? [] key := hg
      rw [leafAt_congr fresh, leafAt_nil_right] at hv
      cases hv
    | some w =>
      obtain ⟨w', hg', converts⟩ := h.get? hg
      rcases converts.cases with rfl | ⟨items, rfl⟩ | ⟨entries, entries', rfl, rfl, below⟩
      · rwa [leafAt_congr (hg'.trans hg.symm)]
      -- Nothing but the list itself stands at a list.
      · cases rest with
        | nil =>
          simp only [ModelTypes.leafAt, hg] at hv
          exact absurd (Option.some.inj hv).symm (other items)
        | cons next rest =>
          rw [leafAt_cons_cons, entriesAt_eq, hg] at hv
          simp [entriesIn] at hv
      · cases rest with
        | nil =>
          cases entries with
          | nil =>
            obtain ⟨_, _, below⟩ := below
            cases below
            simp only [ModelTypes.leafAt, hg, hg'] at hv ⊢
            exact hv
          | cons e entries =>
            simp [ModelTypes.leafAt, hg] at hv
        | cons next rest =>
          rw [leafAt_cons_cons, entriesAt_eq, hg, entriesIn_dict] at hv
          rw [leafAt_cons_cons, entriesAt_eq, hg', entriesIn_dict]
          exact ih below hv

/-! ## Workspaces -/

namespace Workspace

variable {ws ws' : Workspace} {id x : SchemaId} {definition options : Value}
  {functions : Functions} {fields copies : Entries}

/-- A schema that is there stays as it is when others are made. -/
theorem schema_append (hx : x < ws.schemas.length) :
    ({ ws with schemas := ws.schemas ++ made } : Workspace).schema x = ws.schema x := by
  unfold Workspace.schema
  rw [List.getElem?_append_left hx]

/-- A schema that is made is a fresh one under its identity, or none. -/
theorem fresh_append (fresh : FreshFrom ws.schemas.length made) (hx : ws.schemas.length ≤ x) :
    ({ ws with schemas := ws.schemas ++ made } : Workspace).schema x = {} ∨
      (({ ws with schemas := ws.schemas ++ made } : Workspace).schema x).Fresh x := by
  unfold Workspace.schema
  rw [List.getElem?_append_right hx]
  cases hm : made[x - ws.schemas.length]? with
  | none => exact .inl rfl
  | some schema =>
    have own := fresh _ _ hm
    rw [Nat.add_sub_cancel' hx] at own
    exact .inr own

/-- A definition that counts as false is read as one without fields. -/
theorem entries?_given {s : Store}
    (h : s.entries? (if s.truthy v then v else .dict []) = some fields) :
    fields = (s.entries? v).getD [] := by
  split at h
  · rw [h]
    rfl
  · rename_i falsy
    cases h
    rcases he : s.entries? v with _ | entries
    · rfl
    · have counts : s.truthy v = !entries.isEmpty := by
        cases v with
        | dict entries => cases he; rfl
        | shared a =>
          have node : s.nodes[a]? = some (.dict entries) := by
            unfold Store.entries? Store.node? at he
            dsimp only at he
            split at he
            · cases he; assumption
            · cases he
          simp [Store.truthy, Store.sequence?, Store.items?, Store.tuple?, Store.node?, node, he]
        | _ => cases he
      rw [counts] at falsy
      simpa using falsy

/-- A schema is not made, and nothing has happened, or it is made of the copied and converted fields
of its definition, after the schemas that these need. -/
theorem create_cases (ws : Workspace) (definition options : Value) (functions : Functions) :
    (∃ e, ws.create definition options functions = (.error e, ws)) ∨
    ∃ copies options' tree made,
      ws.store.CopiesUnder ((ws.store.entries? definition).getD []) copies ∧
      Converts (copies.foldl (fun m e => Keyed.put m e.1 e.2) []) tree ∧
      settledUnder tree = true ∧ FreshFrom ws.schemas.length made ∧
      ws.create definition options functions = (.ok (ws.schemas ++ made).length,
        { ws with schemas := ws.schemas ++ (made ++
          [.madeOf options' functions tree (ws.schemas ++ made).length]) }) := by
  unfold create
  dsimp only
  split
  · exact .inl ⟨_, rfl⟩
  split
  · exact .inl ⟨_, rfl⟩
  split
  · exact .inl ⟨_, rfl⟩
  rename_i _ _ _ options' _ _ fields hfields
  split
  · exact .inl ⟨_, rfl⟩
  rename_i tree hcopy
  obtain ⟨copies, each, rfl⟩ := copyFields_ok hcopy
  have given := entries?_given hfields
  subst given
  obtain ⟨⟨converts, -, settled⟩, made, hmade, fresh⟩ := ((makesFresh_implicitFields _).and_mirrors
    (makesMirrors_implicitFields (copies.foldl (fun m e => Keyed.put m e.1 e.2) []))) ws.schemas
  refine .inr ⟨copies, options', _, made, each, converts, settled, fresh, ?_⟩
  rw [← List.append_assoc, ← hmade]
  rfl

/-- Making a schema, whether it succeeds or not, leaves the schemas there are and adds new ones. -/
theorem apply_create (ws : Workspace) (definition options : Value) (functions : Functions) :
    ∃ made, FreshFrom ws.schemas.length made ∧
      (Edit.create definition options functions).apply ws
        = { ws with schemas := ws.schemas ++ made } := by
  rcases create_cases ws definition options functions with
    ⟨_, failed⟩ | ⟨_, options', tree, made, -, -, settled, fresh, created⟩
  · exact ⟨[], freshFrom_nil, by rw [Edit.apply, failed, List.append_nil]⟩
  · refine ⟨_, fresh.append (freshFrom_singleton ?_), by rw [Edit.apply, created]⟩
    rw [← List.length_append]
    exact .intro options' functions settled

/-- An addition that succeeds puts in copies of all fields and converts the tree. -/
theorem add_ok (h : (ws.add id definition).1.isOk = true) :
    ∃ fields copies tree made, ws.store.entries? definition = some fields ∧
      ws.store.CopiesUnder fields copies ∧
      Converts (copies.foldl (fun m e => Keyed.put m e.1 e.2) (ws.schema id).tree) tree ∧
      settledUnder tree = true ∧ FreshFrom ws.schemas.length made ∧
      ws.add id definition = (.ok (), { ws with schemas := ws.schemas ++ made }.update id
        ({ · with tree, children := childrenOf tree })) := by
  unfold add at h ⊢
  cases hfields : ws.store.entries? definition with
  | none =>
    rw [hfields] at h
    cases h
  | some fields =>
    rw [hfields] at h
    dsimp only at h ⊢
    rcases hcopy : copyFields ws.store (ws.schema id).tree fields with ⟨tree, _ | e⟩
    · obtain ⟨copies, each, rfl⟩ := copyFields_ok hcopy
      obtain ⟨⟨converts, -, settled⟩, made, hmade, fresh⟩ :=
        ((makesFresh_implicitFields _).and_mirrors (makesMirrors_implicitFields
          (copies.foldl (fun m e => Keyed.put m e.1 e.2) (ws.schema id).tree))) ws.schemas
      refine ⟨fields, copies, _, made, rfl, each, converts, settled, fresh, ?_⟩
      rw [← hmade]
      rfl
    · rw [hcopy] at h
      cases h

/-- An addition that fails leaves the fields that it has copied before. -/
theorem add_error (h : (ws.add id definition).1.isOk = false) : (ws.add id definition).2 = ws ∨
    ∃ fields, ws.store.entries? definition = some fields ∧ (ws.add id definition).2
      = ws.update id ({ · with tree := (copyFields ws.store (ws.schema id).tree fields).1 }) := by
  rcases add_cases ws id definition with
    ⟨-, hadd⟩ | ⟨fields, tree, e, hfields, hcopy, hadd⟩ | ⟨_, _, -, -, hadd⟩
  · exact .inl (congrArg Prod.snd hadd)
  · exact .inr ⟨fields, hfields, by rw [hadd, hcopy]⟩
  · rw [hadd] at h
    cases h

/-- Copying fields changes nothing under other keys. -/
theorem get?_copyFields {s : Store} {key : String} (h : key ∉ Keyed.keys fields) :
    Keyed.get? (copyFields s tree fields).1 key = Keyed.get? tree key := by
  induction fields generalizing tree with
  | nil => rfl
  | cons e rest ih =>
    obtain ⟨first, v⟩ := e
    rw [Keyed.keys_cons, List.mem_cons, not_or] at h
    rw [copyFields]
    cases s.copy v with
    | error e => rfl
    | ok copied =>
      dsimp only
      rw [ih h.2, Keyed.get?_put_of_ne h.1]

end Workspace
end ModelTypes
