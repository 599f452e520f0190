import ModelTypes.Proofs.Schema.Linked
import ModelTypes.Proofs.Schema.Mirror
import ModelTypes.Proofs.Tree.Entrywise
import ModelTypes.Proofs.Value.Cycles
/-!
# Trees hold nothing written

The trees of a schema are made of copies, and of what the schema itself puts in. They hold no
written list or mapping, so nothing in them contains itself (`copy_detects_cycles`), whatever is
written later.
-/

namespace ModelTypes

open Relation

variable {s s' : Store} {v w : Value} {key : String} {tree : Entries} {items : List Value}

/-! ## What is owned -/

namespace Store

theorem owned_dict_iff : s.Owned (.dict tree) ↔ ∀ e ∈ tree, s.Owned e.2 := by
  constructor
  · intro h
    cases h with
    | dict each => exact each
    | leaf _ no_dict => exact absurd rfl (no_dict tree)
  · exact .dict

theorem owned_list_iff : s.Owned (.list items) ↔ ∀ v ∈ items, s.Owned v := by
  constructor
  · intro h
    cases h with
    | list each => exact each
    | leaf no_list => exact absurd rfl (no_list items)
  · exact .list

/-- Values that are neither containers nor written are owned. -/
theorem owned_of_atom (list : ∀ items, v ≠ .list items) (dict : ∀ entries, v ≠ .dict entries)
    (shared : ∀ a, v ≠ .shared a) : s.Owned v :=
  .leaf list dict fun a h => absurd h (shared a)

theorem owned_virtual {id : SchemaId} {path : String} : s.Owned (virtualValue id path) :=
  owned_of_atom nofun nofun nofun

theorem entrywise_owned : Entrywise (fun _ => True) s.Owned := ⟨by simp [owned_dict_iff]⟩

theorem owned_putIf {c : Prop} [Decidable c] (h : s.Owned (.dict tree)) (hv : s.Owned v) :
    s.Owned (.dict (if c then Keyed.put tree key v else tree)) := by
  split
  · exact entrywise_owned.put h trivial hv
  · exact h

/-! ## Copies -/

theorem GivenValue.entries (hs : s.Given) (hv : s.GivenValue v) (h : s.entries? v = some tree) :
    ∀ e ∈ tree, s.GivenValue e.2 := by
  rcases entries?_cases h with rfl | ⟨a, rfl, ha⟩
  · rcases hv with ⟨a, node, hv, -⟩ | owned
    · cases hv
    · exact fun e he => .inr (owned_dict_iff.1 owned e he)
  · exact hs.dict ha

theorem owned_copyFields (hs : s.Given) {fields : Entries} (h : s.Owned (.dict tree))
    (given : ∀ e ∈ fields, s.GivenValue e.2) :
    s.Owned (.dict (Workspace.copyFields s tree fields).1) := by
  induction fields generalizing tree with
  | nil => exact h
  | cons field rest ih =>
    obtain ⟨key, v⟩ := field
    rw [Workspace.copyFields]
    rcases hc : s.copy v with e | copied
    · exact h
    · have own := (copy_ok_iff.1 hc).owned hs (given _ List.mem_cons_self)
      exact ih (entrywise_owned.put h trivial own) fun e he => given e (List.mem_cons_of_mem _ he)

/-- Later, what was written is there: lists and mappings, whatever they hold by then, and other
containers. -/
def Follows (s s' : Store) : Prop :=
  ∀ (a : Addr) (node : Node), s.nodes[a]? = some node → node.isPlain = false →
    ∃ node' : Node, s'.nodes[a]? = some node' ∧ node'.isPlain = false

theorem Owned.follows (h : s.Owned v) (later : s.Follows s') : s'.Owned v := by
  unfold Owned at h
  induction h with
  | list _ ih => exact .list ih
  | dict _ ih => exact .dict ih
  | leaf list dict keeps =>
    refine .leaf list dict fun a ha => ?_
    obtain ⟨node, hn, other⟩ := keeps a ha
    exact later a node hn other

end Store

/-! ## Schemas made from a tree -/

/-- Work that adds schemas leaves schemas whose trees are owned, and what it gives is right. -/
def MakesOwned {α : Type} (s : Store) (Right : α → Prop) (work : StateM (List Schema) α) : Prop :=
  ∀ schemas, (∀ schema ∈ schemas, s.Owned (.dict schema.tree)) →
    Right (work.run schemas).1 ∧ ∀ schema ∈ (work.run schemas).2, s.Owned (.dict schema.tree)

namespace MakesOwned

variable {α β : Type} {P : α → Prop} {Q : β → Prop}

theorem pure {a : α} (h : P a) : MakesOwned s P (pure a) := fun _ owned => ⟨h, owned⟩

theorem bind {x : StateM (List Schema) α} {f : α → StateM (List Schema) β} (hx : MakesOwned s P x)
    (hf : ∀ a, P a → MakesOwned s Q (f a)) : MakesOwned s Q (x >>= f) := by
  intro schemas owned
  obtain ⟨ha, owned'⟩ := hx schemas owned
  exact hf _ ha _ owned'

end MakesOwned

theorem owned_withAutomaticPaths {schema : Schema} (id : SchemaId)
    (h : s.Owned (.dict schema.tree)) : s.Owned (.dict (schema.withAutomaticPaths id).tree) := by
  have marker (m : TypeMarker) : s.Owned (.marker m) := Store.owned_of_atom nofun nofun nofun
  have identifier : s.Owned
      (.dict [("type", .marker (.declared (.primitive .objectId))), ("auto", .bool true)]) := by
    refine Store.owned_dict_iff.2 ?_
    simpa using ⟨marker _, Store.owned_of_atom nofun nofun nofun⟩
  unfold Schema.withAutomaticPaths
  dsimp only
  cases schema.options.versionKey with
  | named key =>
    exact Store.owned_putIf
      (Store.owned_putIf (Store.owned_putIf h identifier) Store.owned_virtual) (marker _)
  | enabled _ => exact Store.owned_putIf (Store.owned_putIf h identifier) Store.owned_virtual

theorem makesOwned_makeSchema (options : Options) (functions : Functions)
    (h : s.Owned (.dict tree)) :
    MakesOwned s (fun _ => True) (makeSchema options functions tree) := by
  intro schemas owned
  refine ⟨trivial, fun schema hs => ?_⟩
  rcases List.mem_append.1 hs with hs | hs
  · exact owned schema hs
  · rw [List.mem_singleton.1 hs]
    exact owned_withAutomaticPaths _ h

mutual

theorem makesOwned_implicitFields : ∀ tree, s.Owned (.dict tree) →
    MakesOwned s (fun tree => s.Owned (.dict tree)) (implicitFields tree)
  | [], h => by
    rw [implicitFields]
    exact .pure h
  | (key, v) :: rest, h => by
    obtain ⟨own, others⟩ := List.forall_mem_cons.1 (Store.owned_dict_iff.1 h)
    rw [implicitFields]
    refine .bind (makesOwned_implicitField v own) fun w hw => ?_
    refine .bind (makesOwned_implicitFields rest (.dict others)) fun rest' hrest => .pure ?_
    exact .dict (List.forall_mem_cons.2 ⟨hw, Store.owned_dict_iff.1 hrest⟩)

theorem makesOwned_implicitField (v : Value) (h : s.Owned v) :
    MakesOwned s s.Owned (implicitField v) := by
  cases v with
  | list items =>
    rw [implicitField]
    exact .bind (makesOwned_implicitItems items h) fun items' hitems => .pure hitems
  | dict entries =>
    have ofType := makesOwned_implicitType entries h
    have ofFields := makesOwned_implicitFields entries h
    rw [implicitField]
    split
    · exact ofType.bind fun entries' he => .pure he
    · exact ofFields.bind fun entries' he => .pure he
  | _ =>
    rw [implicitField]
    · exact .pure h
    all_goals simp

theorem makesOwned_implicitItems : ∀ items, s.Owned (.list items) →
    MakesOwned s (fun items => s.Owned (.list items)) (implicitItems items)
  | [item], h => by
    rw [implicitItems]
    have own := Store.owned_list_iff.1 h item List.mem_cons_self
    refine .bind (makesOwned_implicitItem item own) fun item' hitem => .pure ?_
    exact .list (List.forall_mem_singleton.2 hitem)
  | [], h | first :: second :: rest, h => by
    rw [implicitItems]
    · exact .pure h
    all_goals simp

theorem makesOwned_implicitItem (v : Value) (h : s.Owned v) :
    MakesOwned s s.Owned (implicitItem v) := by
  cases v with
  | dict entries =>
    have ofFields := makesOwned_implicitFields entries h
    rw [implicitItem]
    split
    · refine ofFields.bind fun tree htree => ?_
      exact (makesOwned_makeSchema {} {} htree).bind fun id _ =>
        .pure (Store.owned_of_atom nofun nofun nofun)
    · exact .pure h
  | _ =>
    rw [implicitItem]
    · exact .pure h
    all_goals simp

theorem makesOwned_implicitType : ∀ tree, s.Owned (.dict tree) →
    MakesOwned s (fun tree => s.Owned (.dict tree)) (implicitType tree)
  | [], h => by
    rw [implicitType]
    exact .pure h
  | (key, v) :: rest, h => by
    obtain ⟨own, others⟩ := List.forall_mem_cons.1 (Store.owned_dict_iff.1 h)
    have ofArray := makesOwned_implicitArray v own
    have ofRest := makesOwned_implicitType rest (.dict others)
    rw [implicitType]
    split
    · refine ofArray.bind fun w hw => .pure ?_
      exact .dict (List.forall_mem_cons.2 ⟨hw, others⟩)
    · refine ofRest.bind fun rest' hrest => .pure ?_
      exact .dict (List.forall_mem_cons.2 ⟨own, Store.owned_dict_iff.1 hrest⟩)

theorem makesOwned_implicitArray (v : Value) (h : s.Owned v) :
    MakesOwned s s.Owned (implicitArray v) := by
  cases v with
  | list items =>
    rw [implicitArray]
    exact .bind (makesOwned_implicitItems items h) fun items' hitems => .pure hitems
  | _ =>
    rw [implicitArray]
    · exact .pure h
    all_goals simp

end

/-! ## Workspaces -/

namespace Workspace

variable {ws : Workspace} {id : SchemaId}

/-- What is written is as it may be given, and schemas own their trees. -/
structure OwnsTrees (ws : Workspace) : Prop where
  store : ws.store.Given
  trees : ∀ schema ∈ ws.schemas, ws.store.Owned (.dict schema.tree)

theorem OwnsTrees.update (h : ws.OwnsTrees) {f : Schema → Schema}
    (hf : ∀ schema ∈ ws.schemas, ws.store.Owned (.dict (f schema).tree)) :
    (ws.update id f).OwnsTrees where
  store := h.store
  trees schema hs := by
    obtain ⟨i, hi⟩ := List.mem_iff_getElem?.1 hs
    simp only [Workspace.update, List.getElem?_modify, Option.map_eq_map,
      Option.map_eq_some_iff] at hi
    obtain ⟨old, hold, rfl⟩ := hi
    have hm := List.mem_of_getElem? hold
    split
    · exact hf old hm
    · exact h.trees old hm

theorem OwnsTrees.create (h : ws.OwnsTrees) {definition options : Value} {functions : Functions}
    (given : ws.store.GivenValue definition) :
    (ws.create definition options functions).2.OwnsTrees := by
  have read : ws.store.GivenValue (if ws.store.truthy definition then definition else .dict []) := by
    split
    · exact given
    · exact .inr Store.entrywise_owned.nil
  unfold Workspace.create
  dsimp only
  split
  · exact h
  · split
    · exact h
    · split
      · exact h
      · rename_i options _ _ fields hfields
        have copied := Store.owned_copyFields h.store Store.entrywise_owned.nil
          (read.entries h.store hfields)
        split
        · exact h
        · rename_i tree hcopy
          rw [hcopy] at copied
          have made : MakesOwned ws.store (fun _ => True) _ :=
            (makesOwned_implicitFields tree copied).bind fun tree' htree =>
              makesOwned_makeSchema options functions htree
          exact ⟨h.store, (made ws.schemas h.trees).2⟩

theorem OwnsTrees.add (h : ws.OwnsTrees) {definition : Value}
    (given : ws.store.GivenValue definition) : (ws.add id definition).2.OwnsTrees := by
  unfold Workspace.add
  split
  · exact h
  · rename_i fields hfields
    have own : ws.store.Owned (.dict (ws.schema id).tree) :=
      forall_schema h.trees Store.entrywise_owned.nil id
    have copied := Store.owned_copyFields h.store own (given.entries h.store hfields)
    split
    · rename_i tree e hcopy
      rw [hcopy] at copied
      exact h.update fun _ _ => copied
    · rename_i tree hcopy
      rw [hcopy] at copied
      obtain ⟨converted, trees⟩ := makesOwned_implicitFields tree copied ws.schemas h.trees
      have made : OwnsTrees { ws with schemas := ((implicitFields tree).run ws.schemas).2 } :=
        ⟨h.store, trees⟩
      exact made.update fun _ _ => converted

theorem OwnsTrees.addVirtual (h : ws.OwnsTrees) (path : String) :
    (ws.addVirtual id path).OwnsTrees := by
  refine h.update fun schema hs => ?_
  split
  · exact h.trees schema hs
  · exact Store.entrywise_owned.placeAt (fun _ _ => trivial) Store.owned_virtual
      (h.trees schema hs)

/-! ## Any sequence of edits -/

/-- What an edit writes or copies is as it may be given. -/
def Edit.Given (ws : Workspace) : Edit → Prop
  | .write store => store.Given ∧ ws.store.Follows store
  | .create definition _ _ => ws.store.GivenValue definition
  | .add _ definition => ws.store.GivenValue definition
  | .addVirtual _ _ => True

/-- What each edit writes or copies is, by then, as it may be given. -/
def EditsGiven : Workspace → List Edit → Prop
  | _, [] => True
  | ws, edit :: rest => edit.Given ws ∧ EditsGiven (edit.apply ws) rest

theorem OwnsTrees.apply (h : ws.OwnsTrees) {edit : Edit} (given : edit.Given ws) :
    (edit.apply ws).OwnsTrees := by
  cases edit with
  | write store => exact ⟨given.1, fun schema hs => (h.trees schema hs).follows given.2⟩
  | create definition options functions => exact h.create given
  | add id definition => exact h.add given
  | addVirtual id path => exact h.addVirtual path

theorem OwnsTrees.edited {edits : List Edit} (h : ws.OwnsTrees) (given : EditsGiven ws edits) :
    (Workspace.edited ws edits).OwnsTrees := by
  induction edits generalizing ws with
  | nil => exact h
  | cons edit rest ih => exact ih (h.apply given.1) given.2

/-- Copying fails just where a list or mapping in the value contains itself, and else gives a value
of the same structure. So no schema that was made or extended, by whatever edits, has a tree in
which anything contains itself. -/
theorem copy_detects_cycles {edits : List Edit} (given : EditsGiven {} edits) (hs : s.Given)
    (hv : s.GivenValue v) :
    (s.copy v = .error .containsItself ↔ s.Cyclic v) ∧
      (¬ s.Cyclic v → ∃ w, s.copy v = .ok w ∧ s.Same v w) ∧
      ∀ schema ∈ (edited {} edits).schemas,
        ¬ (edited {} edits).store.Cyclic (.dict schema.tree) := by
  refine ⟨Store.copy_error_iff hs hv, fun acyclic => ?_, fun schema hm => ?_⟩
  · obtain ⟨w, copies⟩ := (Store.exists_copies_iff hs hv).2 acyclic
    exact ⟨w, Store.copy_ok_iff.2 copies, copies.same hs hv⟩
  · have empty : OwnsTrees {} := ⟨by simp [Store.Given], by simp⟩
    exact Store.not_cyclic_of_owned ((empty.edited given).trees schema hm)

/-- A list that stands at two places is accepted, and a mapping in itself is not. -/
theorem copy_detects_cycles_shared :
    let s : Store := ⟨[.dict [("a", .shared 1), ("b", .shared 1)], .list [.str "String"],
      .dict [("self", .shared 2)]]⟩
    let edits : List Edit := [.write s, .create (.shared 0) .null {}]
    s.Cyclic (.shared 2) ∧ ¬ s.Cyclic (.shared 0) ∧
      (∃ w, s.copy (.shared 0) = .ok w ∧ s.Same (.shared 0) w) ∧
      ∀ schema ∈ (edited {} edits).schemas,
        ¬ (edited {} edits).store.Cyclic (.dict schema.tree) := by
  intro s edits
  have written {a : Addr} {node : Node} (ha : s.nodes[a]? = some node) (plain : node.isPlain = true) :
      s.GivenValue (.shared a) := .inl ⟨a, node, rfl, ha, plain⟩
  have text : s.GivenValue (.str "String") :=
    .inr (Store.owned_of_atom (by simp) (by simp) (by simp))
  have hs : s.Given := by
    intro node hnode v hv
    simp only [s, List.mem_cons, List.not_mem_nil, or_false] at hnode
    rcases hnode with rfl | rfl | rfl <;>
      simp only [Node.parts, Keyed.values, List.map_cons, List.map_nil, List.mem_cons,
        List.not_mem_nil, or_false, or_self] at hv <;> subst hv
    · exact written (a := 1) rfl rfl
    · exact text
    · exact written (a := 2) rfl rfl
  have given : EditsGiven {} edits :=
    ⟨⟨hs, by simp [Store.Follows]⟩, written (a := 0) rfl rfl, trivial⟩
  have list : s.Copies (.shared 1) (.list [.str "String"]) :=
    .list rfl (.cons (.kept (by simp [Store.node?])) .nil)
  have shared : s.copy (.shared 0) = .ok _ :=
    Store.copy_ok_iff.2 (.dict rfl (.cons list (.cons list .nil)))
  have itself : s.copy (.shared 2) = .error .containsItself := by
    simp [s, Store.copy, Store.copyFrom, Store.addresses, List.range_succ]
  obtain ⟨detects, -⟩ := copy_detects_cycles given hs (written (a := 2) rfl rfl)
  obtain ⟨detects', same, trees⟩ := copy_detects_cycles given hs (written (a := 0) rfl rfl)
  have acyclic : ¬ s.Cyclic (.shared 0) := fun cyclic => by
    rw [detects'.2 cyclic] at shared
    cases shared
  exact ⟨detects.1 itself, acyclic, same acyclic, trees⟩

end Workspace
end ModelTypes
