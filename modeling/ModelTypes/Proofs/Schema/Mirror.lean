import ModelTypes.Proofs.Compile.Run
import ModelTypes.Proofs.Schema.Settled
import ModelTypes.Schema.Build
/-!
# The children a schema lists and those in its tree

A schema that is made, and one that more fields were added to, lists the children of its tree, and
no array of a plain object is left there. Placing a virtual and an addition that fails write to the
tree only, so the list may be out of date until the next addition (`mirrors_edited`).
-/

namespace ModelTypes

/-- A schema's list of children is that of its tree. -/
def Schema.Mirrors (schema : Schema) : Prop := ModelTypes.Mirrors schema.children schema.tree

instance (schema : Schema) : Decidable schema.Mirrors := inferInstanceAs (Decidable (Mirrors _ _))

variable {key : String} {v : Value} {tree : Entries} {children : List ChildBinding}

/-! ## Copying fields -/

/-- Copying fields into a tree, as far as it gets, puts in nothing that is to be converted and
replaces children by the same children only. -/
def sparesFields (s : Store) (tree : Entries) : List (String × Value) → Bool
  | [] => true
  | (key, v) :: rest =>
    match s.copy v with
    | .ok copied =>
      copied.settled && copied.childrenAt key == childrenIn key (Keyed.get? tree key) &&
        sparesFields s (Keyed.put tree key copied) rest
    | .error _ => true

theorem Mirrors.copyFields {s : Store} {fields : List (String × Value)}
    (h : Mirrors children tree) (spared : sparesFields s tree fields = true) :
    Mirrors children (Workspace.copyFields s tree fields).1 := by
  induction fields generalizing tree with
  | nil => exact h
  | cons field rest ih =>
    obtain ⟨key, v⟩ := field
    rw [sparesFields] at spared
    rw [Workspace.copyFields]
    cases hc : s.copy v with
    | error e => exact h
    | ok copied =>
      simp only [hc, Bool.and_eq_true, beq_iff_eq] at spared
      obtain ⟨⟨settled, same⟩, after⟩ := spared
      exact ih (h.put settled same) after

/-! ## Schemas made from a tree -/

/-- Work that adds schemas adds such as mirror their trees, and what it gives is right. -/
def MakesMirrors {α : Type} (Right : α → Prop) (work : StateM (List Schema) α) : Prop :=
  ∀ schemas, Right (work.run schemas).1 ∧
    ∃ made, (work.run schemas).2 = schemas ++ made ∧ ∀ schema ∈ made, schema.Mirrors

namespace MakesMirrors

variable {α β : Type} {P : α → Prop} {Q : β → Prop}

theorem pure {a : α} (h : P a) : MakesMirrors P (pure a) :=
  fun schemas => ⟨h, [], (List.append_nil schemas).symm, by simp⟩

theorem bind {x : StateM (List Schema) α} {f : α → StateM (List Schema) β} (hx : MakesMirrors P x)
    (hf : ∀ a, P a → MakesMirrors Q (f a)) : MakesMirrors Q (x >>= f) := by
  intro schemas
  obtain ⟨ha, made, hmade, mirrors⟩ := hx schemas
  obtain ⟨hb, made', hmade', mirrors'⟩ := hf _ ha (x.run schemas).2
  refine ⟨hb, made ++ made', ?_, List.forall_mem_append.2 ⟨mirrors, mirrors'⟩⟩
  show ((f (x.run schemas).1).run (x.run schemas).2).2 = _
  rw [hmade', hmade, List.append_assoc]

end MakesMirrors

/-- A key that is missing may be filled by what has no children. -/
theorem Mirrors.putIf {c : Bool} (h : Mirrors children tree) (settled : v.settled = true)
    (childless : v.childrenAt key = []) :
    Mirrors children (if c && !Keyed.has tree key then Keyed.put tree key v else tree) := by
  split
  · rename_i hc
    simp only [Bool.and_eq_true, Bool.not_eq_true', Keyed.has_eq_false_iff] at hc
    exact h.put settled (by rw [hc.2, childless, childrenIn])
  · exact h

theorem Schema.Mirrors.withAutomaticPaths {schema : Schema} (id : SchemaId) (h : schema.Mirrors) :
    (schema.withAutomaticPaths id).Mirrors := by
  have identifier : ModelTypes.Mirrors schema.children
      (if schema.options.objectId && !Keyed.has schema.tree "_id" then
        Keyed.put schema.tree "_id"
          (.dict [("type", .marker (.declared (.primitive .objectId))), ("auto", .bool true)])
      else schema.tree) := ModelTypes.Mirrors.putIf h rfl rfl
  unfold Schema.Mirrors Schema.withAutomaticPaths
  dsimp only
  cases schema.options.versionKey with
  | named key => exact (identifier.putIf rfl rfl).putIf rfl rfl
  | enabled _ => exact identifier.putIf rfl rfl

theorem makesMirrors_makeSchema (options : Options) (functions : Functions)
    (h : settledUnder tree = true) :
    MakesMirrors (fun _ => True) (makeSchema options functions tree) := by
  intro schemas
  let schema : Schema := { options, functions, tree, children := childrenOf tree }
  have mirrors : schema.Mirrors := ⟨rfl, h⟩
  exact ⟨trivial, [schema.withAutomaticPaths schemas.length], rfl,
    by simpa using mirrors.withAutomaticPaths _⟩

mutual

/-- Converting the fields of a tree keeps their keys and leaves no array of a plain object. -/
theorem makesMirrors_implicitFields : ∀ tree,
    MakesMirrors (fun tree' => Keyed.keys tree' = Keyed.keys tree ∧ settledUnder tree' = true)
      (implicitFields tree)
  | [] => by
    rw [implicitFields]
    exact .pure ⟨rfl, rfl⟩
  | (key, v) :: rest => by
    rw [implicitFields]
    refine .bind (makesMirrors_implicitField v) fun w hw => ?_
    refine .bind (makesMirrors_implicitFields rest) fun rest' ⟨same, hrest⟩ => .pure ⟨?_, ?_⟩
    · rw [Keyed.keys_cons, Keyed.keys_cons, same]
    · rw [settledUnder, hw, hrest]
      rfl

theorem makesMirrors_implicitField (v : Value) :
    MakesMirrors (fun v => v.settled = true) (implicitField v) := by
  cases v with
  | list items =>
    rw [implicitField]
    refine .bind (makesMirrors_implicitItems items) fun items' hitems => .pure ?_
    rw [Value.settled, hitems]
    · rfl
    · simp
  | dict entries =>
    have ofType := makesMirrors_implicitType entries
    have ofFields := makesMirrors_implicitFields entries
    rw [implicitField]
    split
    · rename_i typed
      refine (ofType typed).bind fun entries' ⟨type, htype, settled⟩ => .pure ?_
      rw [Value.settled, htype]
      simp [settled]
    · rename_i untyped
      refine ofFields.bind fun entries' ⟨same, settled⟩ => .pure ?_
      have still : Keyed.get? entries' "type" = none := by
        rw [Keyed.get?_eq_none_iff, same, ← Keyed.get?_eq_none_iff]
        exact Keyed.has_eq_false_iff.1 (by simpa using untyped)
      rw [Value.settled, still]
      exact settled
  | _ =>
    rw [implicitField]
    · exact .pure rfl
    all_goals simp

theorem makesMirrors_implicitItems : ∀ items,
    MakesMirrors (fun items => (Value.list items).isImplicit = false) (implicitItems items)
  | [item] => by
    rw [implicitItems]
    exact .bind (makesMirrors_implicitItem item) fun item' hitem => .pure hitem
  | [] | first :: second :: rest => by
    rw [implicitItems]
    · exact .pure (by simp [Value.isImplicit])
    all_goals simp

theorem makesMirrors_implicitItem (v : Value) :
    MakesMirrors (fun v => (Value.list [v]).isImplicit = false) (implicitItem v) := by
  cases v with
  | dict entries =>
    have ofFields := makesMirrors_implicitFields entries
    rw [implicitItem]
    split
    · refine ofFields.bind fun tree ⟨_, settled⟩ => ?_
      exact (makesMirrors_makeSchema {} {} settled).bind fun id _ => .pure rfl
    · rename_i other
      exact .pure (by simpa [Value.isImplicit] using other)
  | _ =>
    rw [implicitItem]
    · exact .pure rfl
    all_goals simp

theorem makesMirrors_implicitType : ∀ tree, Keyed.has tree "type" = true →
    MakesMirrors (fun tree => ∃ type, Keyed.get? tree "type" = some type ∧ type.isImplicit = false)
      (implicitType tree)
  | [], typed => by simp [Keyed.has] at typed
  | (key, v) :: rest, typed => by
    have ofArray := makesMirrors_implicitArray v
    have ofRest := makesMirrors_implicitType rest
    rw [implicitType]
    split
    · rename_i hk
      refine ofArray.bind fun w hw => .pure ⟨w, ?_, hw⟩
      rw [Keyed.get?_cons, if_pos hk.symm]
    · rename_i hk
      have later : Keyed.has rest "type" = true := by simpa [Keyed.has, hk] using typed
      refine (ofRest later).bind fun rest' ⟨type, htype, settled⟩ => .pure ⟨type, ?_, settled⟩
      rw [Keyed.get?_cons, if_neg (Ne.symm hk), htype]

theorem makesMirrors_implicitArray (v : Value) :
    MakesMirrors (fun v => v.isImplicit = false) (implicitArray v) := by
  cases v with
  | list items =>
    rw [implicitArray]
    exact .bind (makesMirrors_implicitItems items) fun items' hitems => .pure hitems
  | _ =>
    rw [implicitArray]
    · exact .pure rfl
    all_goals simp

end

/-! ## Schemas of a workspace -/

namespace Workspace

variable {ws : Workspace} {id : SchemaId}

theorem mirrors_append {made : List Schema} (h : (ws.schema id).Mirrors)
    (mirrors : ∀ schema ∈ made, schema.Mirrors) :
    (({ ws with schemas := ws.schemas ++ made } : Workspace).schema id).Mirrors := by
  unfold Workspace.schema at h ⊢
  rw [List.getElem?_append]
  split
  · exact h
  · cases hm : made[id - ws.schemas.length]? with
    | none => exact ⟨rfl, rfl⟩
    | some schema => exact mirrors schema (List.mem_of_getElem? hm)

/-- A schema mirrors its tree as soon as it is made. -/
theorem mirrors_create (definition options : Value) (functions : Functions)
    (h : (ws.schema id).Mirrors) :
    ((ws.create definition options functions).2.schema id).Mirrors := by
  unfold Workspace.create
  dsimp only
  split
  · exact h
  · split
    · exact h
    · split
      · exact h
      · split
        · exact h
        · rename_i options _ _ _ _ _ tree _
          have makes : MakesMirrors (fun _ => True) _ :=
            (makesMirrors_implicitFields tree).bind fun tree' ⟨_, settled⟩ =>
              makesMirrors_makeSchema options functions settled
          obtain ⟨-, made, hmade, mirrors⟩ := makes ws.schemas
          have := mirrors_append h mirrors
          rwa [← hmade] at this

/-- A schema that gets a virtual goes on mirroring its tree exactly if the virtual was there already
or spares its children. -/
theorem mirrors_addVirtual_iff {path : String} (hid : id < ws.schemas.length)
    (h : (ws.schema id).Mirrors) : ((ws.addVirtual id path).schema id).Mirrors ↔
      Keyed.has (ws.schema id).virtuals path = true ∨
        spares (Path.segments path) (ws.schema id).tree = true := by
  unfold addVirtual
  rw [Compile.schema_update, if_pos ⟨rfl, hid⟩]
  split
  · rename_i there
    simp [h, there]
  · rename_i missing
    rw [or_iff_right missing]
    exact h.placeAt_iff

theorem mirrors_update_self {f : Schema → Schema} (h : (f (ws.schema id)).Mirrors) :
    ((ws.update id f).schema id).Mirrors := by
  rw [Compile.schema_update]
  split
  · exact h
  · rename_i missing
    have none : ws.schemas[id]? = none :=
      List.getElem?_eq_none (Nat.le_of_not_lt fun hlt => missing ⟨rfl, hlt⟩)
    rw [Workspace.schema, none]
    exact ⟨rfl, rfl⟩

theorem schema_update_of_ne {target : SchemaId} {f : Schema → Schema} (h : id ≠ target) :
    (ws.update target f).schema id = ws.schema id := by
  rw [Compile.schema_update, if_neg fun hid => h hid.1]

/-- An addition has no fields to add, stops at one of them, or converts the tree it leaves and finds
the children there. -/
theorem add_cases (ws : Workspace) (target : SchemaId) (definition : Value) :
    (ws.store.entries? definition = none ∧
      ws.add target definition = (.error .definitionNotMapping, ws)) ∨
    (∃ fields tree e, ws.store.entries? definition = some fields ∧
      copyFields ws.store (ws.schema target).tree fields = (tree, some e) ∧
      ws.add target definition = (.error e, ws.update target ({ · with tree }))) ∨
    (∃ tree made, settledUnder tree = true ∧ (∀ schema ∈ made, schema.Mirrors) ∧
      ws.add target definition = (.ok (), { ws with schemas := ws.schemas ++ made }.update target
        ({ · with tree, children := childrenOf tree }))) := by
  unfold add
  cases hfields : ws.store.entries? definition with
  | none => exact .inl ⟨rfl, rfl⟩
  | some fields =>
    dsimp only
    rcases hcopy : copyFields ws.store (ws.schema target).tree fields with ⟨tree, _ | e⟩
    · obtain ⟨⟨-, settled⟩, made, hmade, mirrors⟩ := makesMirrors_implicitFields tree ws.schemas
      refine .inr (.inr ⟨_, made, settled, mirrors, ?_⟩)
      rw [← hmade]
      rfl
    · exact .inr (.inl ⟨fields, tree, e, rfl, hcopy, rfl⟩)

/-- An addition that succeeds finds the children anew, however far the schema was from its tree. -/
theorem mirrors_add {definition : Value} (ok : (ws.add id definition).1.isOk = true) :
    ((ws.add id definition).2.schema id).Mirrors := by
  rcases add_cases ws id definition with ⟨-, h⟩ | ⟨_, _, _, -, -, h⟩ | ⟨tree, made, settled, -, h⟩
  · rw [h] at ok
    cases ok
  · rw [h] at ok
    cases ok
  · rw [h]
    exact mirrors_update_self ⟨rfl, settled⟩

/-- An addition keeps what other schemas mirror, and what its own does if it spares the children
there as far as it gets. -/
theorem mirrors_add_of_spares {target : SchemaId} {definition : Value}
    (h : (ws.schema id).Mirrors)
    (spared : id = target → ∀ fields, ws.store.entries? definition = some fields →
      sparesFields ws.store (ws.schema id).tree fields = true) :
    ((ws.add target definition).2.schema id).Mirrors := by
  by_cases hid : id = target
  · subst hid
    rcases add_cases ws id definition with
      ⟨-, hadd⟩ | ⟨fields, tree, e, hfields, hcopy, hadd⟩ | ⟨tree, made, settled, -, hadd⟩
    · rwa [hadd]
    · have copied := ModelTypes.Mirrors.copyFields h (spared rfl fields hfields)
      rw [hcopy] at copied
      rw [hadd]
      exact mirrors_update_self copied
    · rw [hadd]
      exact mirrors_update_self ⟨rfl, settled⟩
  · rcases add_cases ws target definition with
      ⟨-, hadd⟩ | ⟨_, _, _, -, -, hadd⟩ | ⟨_, made, -, mirrors, hadd⟩
    · rwa [hadd]
    · rwa [hadd, schema_update_of_ne hid]
    · rw [hadd, schema_update_of_ne hid]
      exact mirrors_append h mirrors

/-! ## Any sequence of edits -/

/-- What happens in a workspace: containers are written, schemas are made, and get more fields or a
virtual. -/
inductive Edit where
  | write (store : Store)
  | create (definition options : Value) (functions : Functions)
  | add (id : SchemaId) (definition : Value)
  | addVirtual (id : SchemaId) (path : String)

namespace Edit

def apply (ws : Workspace) : Edit → Workspace
  | write store => { ws with store }
  | create definition options functions => (ws.create definition options functions).2
  | add id definition => (ws.add id definition).2
  | addVirtual id path => ws.addVirtual id path

/-- The edit writes to a schema's tree what its list of children may not show. -/
def disturbs (ws : Workspace) (id : SchemaId) : Edit → Bool
  | add target definition =>
    target == id && !(ws.store.entries? definition).all (sparesFields ws.store (ws.schema id).tree)
  | addVirtual target path =>
    target == id && !Keyed.has (ws.schema id).virtuals path &&
      !spares (Path.segments path) (ws.schema id).tree
  | _ => false

/-- The edit finds a schema's children anew. -/
def mends (ws : Workspace) (id : SchemaId) : Edit → Bool
  | add target definition => target == id && (ws.add id definition).1.isOk
  | _ => false

end Edit

/-- The workspace that edits leave. -/
def edited (ws : Workspace) (edits : List Edit) : Workspace := edits.foldl Edit.apply ws

/-- A schema was disturbed, then or by one of the edits, and not mended since. -/
def disturbed (id : SchemaId) : Workspace → Bool → List Edit → Bool
  | _, before, [] => before
  | ws, before, edit :: rest =>
    disturbed id (edit.apply ws) (!edit.mends ws id && (before || edit.disturbs ws id)) rest

/-- After an edit a schema mirrors its tree if the edit mends it, or if it did before and the edit
does not disturb it. -/
theorem mirrors_apply (edit : Edit)
    (h : edit.mends ws id = true ∨ (ws.schema id).Mirrors ∧ edit.disturbs ws id = false) :
    ((edit.apply ws).schema id).Mirrors := by
  cases edit with
  | write store =>
    obtain mends | ⟨before, -⟩ := h
    · cases mends
    · exact before
  | create definition options functions =>
    obtain mends | ⟨before, -⟩ := h
    · cases mends
    · exact mirrors_create definition options functions before
  | add target definition =>
    obtain mends | ⟨before, calm⟩ := h
    · simp only [Edit.mends, Bool.and_eq_true, beq_iff_eq] at mends
      obtain ⟨rfl, ok⟩ := mends
      exact mirrors_add ok
    · refine mirrors_add_of_spares before fun hid fields hfields => ?_
      simpa [Edit.disturbs, hid, hfields] using calm
  | addVirtual target path =>
    obtain mends | ⟨before, calm⟩ := h
    · cases mends
    · by_cases hid : id = target
      · subst hid
        by_cases hlt : id < ws.schemas.length
        · refine (mirrors_addVirtual_iff hlt before).2 ?_
          cases hv : Keyed.has (ws.schema id).virtuals path with
          | true => exact .inl rfl
          | false => exact .inr (by simpa [Edit.disturbs, hv] using calm)
        · rwa [Edit.apply, addVirtual, Compile.schema_update, if_neg fun h => hlt h.2]
      · rwa [Edit.apply, addVirtual, schema_update_of_ne hid]

/-- Whatever happens in a workspace, a schema mirrors its tree unless it was disturbed and not
mended since. -/
theorem mirrors_edited (edits : List Edit) (id : SchemaId)
    (calm : disturbed id {} false edits = false) : ((edited {} edits).schema id).Mirrors := by
  suffices general : ∀ ws before, (before = false → (ws.schema id).Mirrors) →
      disturbed id ws before edits = false → ((edited ws edits).schema id).Mirrors from
    general {} false (fun _ => ⟨rfl, rfl⟩) calm
  clear calm
  induction edits with
  | nil => exact fun ws before h calm => h calm
  | cons edit rest ih =>
    intro ws before h calm
    refine ih _ _ (fun undisturbed => mirrors_apply edit ?_) calm
    rw [Bool.and_eq_false_iff, Bool.not_eq_false', Bool.or_eq_false_iff] at undisturbed
    exact undisturbed.imp_right fun ⟨hb, hd⟩ => ⟨h hb, hd⟩

/-- Two schemas, of which the second embeds the first in its only field. -/
def hosting : List Edit :=
  [.create (.dict [("name", .str "String")]) .null {},
   .create (.dict [("friend", .schema 0)]) .null {}]

/-- A virtual takes the child away, and an addition brings another one. -/
theorem mirrors_edited_mended :
    let edits := hosting ++ [.addVirtual 1 "friend",
      .add 1 (.dict [("items", .list [.dict [("label", .str "String")]])]),
      .addVirtual 1 "full.name"]
    disturbed 1 {} false edits = false ∧ ((edited {} edits).schema 1).Mirrors ∧
      ((edited {} edits).schema 1).children = [⟨"items", 2, true⟩] :=
  have calm : disturbed 1 {} false (hosting ++ [.addVirtual 1 "friend",
      .add 1 (.dict [("items", .list [.dict [("label", .str "String")]])]),
      .addVirtual 1 "full.name"]) = false := by decide +kernel
  ⟨calm, mirrors_edited _ 1 calm, by decide +kernel⟩

/-- A virtual in the place of a child leaves the child in the list. -/
theorem mirrors_edited_fails : ¬ ∀ (edits : List Edit) (id : SchemaId),
    ((edited {} edits).schema id).Mirrors := by
  intro mirrors
  have stale : ¬ ((edited {} (hosting ++ [.addVirtual 1 "friend"])).schema 1).Mirrors := by
    decide +kernel
  exact stale (mirrors _ _)

end Workspace
end ModelTypes
