import ModelTypes.Proofs.Result
import ModelTypes.Proofs.Tree.Leaves
import ModelTypes.Schema.Build
/-!
# What a copy is

A value and its copy are related by a derivation that follows the written lists and mappings
(`Store.Copies`). A value has a copy exactly if there is one (`copy_ok_iff`): a container inside
itself would have a copy that is larger than itself.
-/

namespace ModelTypes

/-- The nodes that are copied. -/
def Node.isPlain : Node → Bool
  | .list _ | .dict _ => true
  | _ => false

mutual

/-- A value and its copy: written lists and mappings become trees, all else is kept. -/
inductive Store.Copies (s : Store) : Value → Value → Prop
  | kept {v} (h : ∀ node, s.node? v = some node → node.isPlain = false) : Copies s v v
  | list {a items copies} (node : s.nodes[a]? = some (.list items))
      (each : CopiesAll s items copies) : Copies s (.shared a) (.list copies)
  | dict {a entries copies} (node : s.nodes[a]? = some (.dict entries))
      (each : CopiesUnder s entries copies) : Copies s (.shared a) (.dict copies)

inductive Store.CopiesAll (s : Store) : List Value → List Value → Prop
  | nil : CopiesAll s [] []
  | cons {v w items copies} (own : Copies s v w) (others : CopiesAll s items copies) :
      CopiesAll s (v :: items) (w :: copies)

inductive Store.CopiesUnder (s : Store) : List (String × Value) → List (String × Value) → Prop
  | nil : CopiesUnder s [] []
  | cons {key v w entries copies} (own : Copies s v w) (others : CopiesUnder s entries copies) :
      CopiesUnder s ((key, v) :: entries) ((key, w) :: copies)

end

namespace Store

variable {s : Store} {v w u : Value} {fresh : List Addr}

/-! ## Copies are unique -/

mutual

theorem Copies.unique {v w w' : Value} : s.Copies v w → s.Copies v w' → w = w'
  | .kept _, .kept _ => rfl
  | .list node each, .list node' each' => by
    cases node.symm.trans node'
    exact congrArg Value.list (each.unique each')
  | .dict node each, .dict node' each' => by
    cases node.symm.trans node'
    exact congrArg Value.dict (each.unique each')
  | .list node _, .dict node' _ | .dict node _, .list node' _ => by cases node.symm.trans node'
  | .kept h, .list node _ | .kept h, .dict node _ | .list node _, .kept h
  | .dict node _, .kept h => by cases h _ node

theorem CopiesAll.unique {items copies copies' : List Value} :
    s.CopiesAll items copies → s.CopiesAll items copies' → copies = copies'
  | .nil, .nil => rfl
  | .cons own others, .cons own' others' => by rw [own.unique own', others.unique others']

theorem CopiesUnder.unique {entries copies copies' : List (String × Value)} :
    s.CopiesUnder entries copies → s.CopiesUnder entries copies' → copies = copies'
  | .nil, .nil => rfl
  | .cons own others, .cons own' others' => by rw [own.unique own', others.unique others']

end

/-! ## Copies of containers -/

theorem node?_eq_some_iff {node : Node} :
    s.node? v = some node ↔ ∃ a, v = .shared a ∧ s.nodes[a]? = some node := by
  cases v <;> simp [node?]

theorem copies_list_iff {a : Addr} {items : List Value} (node : s.nodes[a]? = some (.list items)) :
    s.Copies (.shared a) w ↔ ∃ copies, w = .list copies ∧ s.CopiesAll items copies := by
  refine ⟨fun h => ?_, ?_⟩
  · cases h with
    | kept h => cases h _ node
    | list node' each =>
      cases node.symm.trans node'
      exact ⟨_, rfl, each⟩
    | dict node' _ => cases node.symm.trans node'
  · rintro ⟨copies, rfl, each⟩
    exact .list node each

theorem copies_dict_iff {a : Addr} {entries : List (String × Value)}
    (node : s.nodes[a]? = some (.dict entries)) :
    s.Copies (.shared a) w ↔ ∃ copies, w = .dict copies ∧ s.CopiesUnder entries copies := by
  refine ⟨fun h => ?_, ?_⟩
  · cases h with
    | kept h => cases h _ node
    | list node' _ => cases node.symm.trans node'
    | dict node' each =>
      cases node.symm.trans node'
      exact ⟨_, rfl, each⟩
  · rintro ⟨copies, rfl, each⟩
    exact .dict node each

theorem copiesAll_singleton_iff {items : List Value} :
    s.CopiesAll [v] items ↔ ∃ w, items = [w] ∧ s.Copies v w := by
  refine ⟨fun h => ?_, ?_⟩
  · cases h with
    | cons own others =>
      cases others
      exact ⟨_, rfl, own⟩
  · rintro ⟨w, rfl, own⟩
    exact .cons own .nil

theorem copiesUnder_cons_iff {key : String} {entries copies : List (String × Value)} :
    s.CopiesUnder ((key, v) :: entries) copies ↔
      ∃ w rest, copies = (key, w) :: rest ∧ s.Copies v w ∧ s.CopiesUnder entries rest := by
  refine ⟨fun h => ?_, ?_⟩
  · cases h with
    | cons own others => exact ⟨_, _, rfl, own, others⟩
  · rintro ⟨w, rest, rfl, own, others⟩
    exact .cons own others

theorem copiesUnder_append_iff {entries entries' copies : List (String × Value)} :
    s.CopiesUnder (entries ++ entries') copies ↔
      ∃ c c', copies = c ++ c' ∧ s.CopiesUnder entries c ∧ s.CopiesUnder entries' c' := by
  induction entries generalizing copies with
  | nil =>
    refine ⟨fun h => ⟨[], copies, rfl, .nil, h⟩, ?_⟩
    rintro ⟨c, c', rfl, h, h'⟩
    cases h
    exact h'
  | cons e rest ih =>
    obtain ⟨key, v⟩ := e
    rw [List.cons_append, copiesUnder_cons_iff]
    refine ⟨?_, ?_⟩
    · rintro ⟨w, tail, rfl, own, others⟩
      obtain ⟨c, c', rfl, h, h'⟩ := ih.1 others
      exact ⟨(key, w) :: c, c', rfl, .cons own h, h'⟩
    · rintro ⟨c, c', rfl, h, h'⟩
      obtain ⟨w, tail, rfl, own, others⟩ := copiesUnder_cons_iff.1 h
      exact ⟨w, tail ++ c', rfl, own, ih.2 ⟨tail, c', rfl, others, h'⟩⟩

theorem CopiesUnder.keys {entries copies : List (String × Value)}
    (h : s.CopiesUnder entries copies) : Keyed.keys copies = Keyed.keys entries := by
  induction entries generalizing copies with
  | nil =>
    cases h
    rfl
  | cons e rest ih =>
    cases h with
    | cons own others => rw [Keyed.keys_cons, Keyed.keys_cons, ih others]

/-! ## What copying gives is a copy -/

theorem copiesAll_of_mapM {f : Value → Except CopyError Value} {items copies : List Value}
    (h : items.mapM f = .ok copies) (hf : ∀ v ∈ items, ∀ w, f v = .ok w → s.Copies v w) :
    s.CopiesAll items copies := by
  induction items generalizing copies with
  | nil =>
    cases h
    exact .nil
  | cons v rest ih =>
    rw [List.mapM_cons] at h
    obtain ⟨w, hw, h⟩ := Except.bind_eq_ok_iff.1 h
    obtain ⟨ws, hws, h⟩ := Except.bind_eq_ok_iff.1 h
    cases h
    exact .cons (hf v List.mem_cons_self w hw)
      (ih hws fun v hv => hf v (List.mem_cons_of_mem _ hv))

theorem copiesUnder_of_mapM {f : Value → Except CopyError Value}
    {entries copies : List (String × Value)}
    (h : (entries.mapM fun e => (e.1, ·) <$> f e.2) = .ok copies)
    (hf : ∀ e ∈ entries, ∀ w, f e.2 = .ok w → s.Copies e.2 w) : s.CopiesUnder entries copies := by
  induction entries generalizing copies with
  | nil =>
    cases h
    exact .nil
  | cons e rest ih =>
    rw [List.mapM_cons] at h
    obtain ⟨_, he, h⟩ := Except.bind_eq_ok_iff.1 h
    obtain ⟨ws, hws, h⟩ := Except.bind_eq_ok_iff.1 h
    obtain ⟨w, hw, rfl⟩ := Except.map_eq_ok_iff.1 he
    cases h
    exact .cons (hf e List.mem_cons_self w hw)
      (ih hws fun e he => hf e (List.mem_cons_of_mem _ he))

theorem copyFrom_of_kept (h : ∀ node, s.node? v = some node → node.isPlain = false) :
    s.copyFrom fresh v = .ok v := by
  unfold copyFrom
  split
  · rename_i a
    split
    · rename_i items hnode
      cases h _ hnode
    · rename_i entries hnode
      cases h _ hnode
    · rfl
  · rfl

theorem copies_of_copyFrom (h : s.copyFrom fresh v = .ok w) : s.Copies v w := by
  induction hn : fresh.length using Nat.strongRecOn generalizing fresh v w with
  | ind size ih =>
    unfold copyFrom at h
    split at h
    · rename_i a
      split at h
      · rename_i items hnode
        split at h
        · rename_i ha
          obtain ⟨copies, hcopies, rfl⟩ := Except.map_eq_ok_iff.1 h
          exact .list hnode (copiesAll_of_mapM hcopies fun v _ w hw =>
            ih _ (hn ▸ length_erase_lt ha) hw rfl)
        · cases h
      · rename_i entries hnode
        split at h
        · rename_i ha
          obtain ⟨copies, hcopies, rfl⟩ := Except.map_eq_ok_iff.1 h
          exact .dict hnode (copiesUnder_of_mapM hcopies fun e _ w hw =>
            ih _ (hn ▸ length_erase_lt ha) hw rfl)
        · cases h
      · rename_i hl hd
        cases h
        refine .kept fun node hnode => ?_
        cases node with
        | list items => exact absurd hnode (hl items)
        | dict entries => exact absurd hnode (hd entries)
        | _ => rfl
    · rename_i hv
      cases h
      refine .kept fun node hnode => ?_
      cases v with
      | shared a => exact absurd rfl (hv a)
      | _ => cases hnode

/-! ## Copying gives every copy -/

/-- Whatever container is no longer fresh has a copy larger than `w`. -/
def Escapes (s : Store) (fresh : List Addr) (w : Value) : Prop :=
  ∀ a node u, s.nodes[a]? = some node → node.isPlain = true → a ∉ fresh →
    s.Copies (.shared a) u → sizeOf w < sizeOf u

/-- Entering a container leaves only larger copies behind. -/
theorem Escapes.enter {a : Addr} (h : s.Escapes fresh w) (hw : s.Copies (.shared a) w)
    (hlt : sizeOf u < sizeOf w) : s.Escapes (fresh.erase a) u := by
  intro b node x hn hp hb hx
  by_cases hba : b = a
  · subst hba
    exact hw.unique hx ▸ hlt
  · exact Nat.lt_trans hlt
      (h b node x hn hp (fun hm => hb ((List.mem_erase_of_ne hba).2 hm)) hx)

theorem Escapes.mem_fresh {a : Addr} {node : Node} (h : s.Escapes fresh w)
    (hn : s.nodes[a]? = some node) (hp : node.isPlain = true) (hw : s.Copies (.shared a) w) :
    a ∈ fresh :=
  Decidable.byContradiction fun ha => Nat.lt_irrefl _ (h a node w hn hp ha hw)

mutual

theorem Copies.copyFrom {v w : Value} : s.Copies v w → ∀ {fresh : List Addr}, s.Escapes fresh w →
    s.copyFrom fresh v = .ok w
  | .kept h, _, _ => copyFrom_of_kept h
  | @Copies.list _ a _ copies node each, fresh, escapes => by
    have own : s.Copies (.shared a) (.list copies) := .list node each
    have ha : a ∈ fresh := escapes.mem_fresh node rfl own
    have inner := each.mapM fun w hw => escapes.enter own (by
      have := List.sizeOf_lt_of_mem hw
      simp only [Value.list.sizeOf_spec]
      omega)
    unfold Store.copyFrom
    simp only [node, if_pos ha]
    rw [inner]
    rfl
  | @Copies.dict _ a _ copies node each, fresh, escapes => by
    have own : s.Copies (.shared a) (.dict copies) := .dict node each
    have ha : a ∈ fresh := escapes.mem_fresh node rfl own
    have inner := each.mapM fun e he => escapes.enter own (by
      have := List.sizeOf_lt_of_mem he
      obtain ⟨key, w⟩ := e
      simp only [Value.dict.sizeOf_spec, Prod.mk.sizeOf_spec] at this ⊢
      omega)
    unfold Store.copyFrom
    simp only [node, if_pos ha]
    rw [inner]
    rfl

theorem CopiesAll.mapM {items copies : List Value} : s.CopiesAll items copies →
    ∀ {fresh : List Addr}, (∀ w ∈ copies, s.Escapes fresh w) →
      items.mapM (s.copyFrom fresh) = .ok copies
  | .nil, _, _ => rfl
  | .cons own others, fresh, escapes => by
    have first := own.copyFrom (escapes _ List.mem_cons_self)
    have rest := others.mapM fun w hw => escapes w (List.mem_cons_of_mem _ hw)
    rw [List.mapM_cons, first, rest]
    rfl

theorem CopiesUnder.mapM {entries copies : List (String × Value)} : s.CopiesUnder entries copies →
    ∀ {fresh : List Addr}, (∀ e ∈ copies, s.Escapes fresh e.2) →
      (entries.mapM fun e => (e.1, ·) <$> s.copyFrom fresh e.2) = .ok copies
  | .nil, _, _ => rfl
  | .cons own others, fresh, escapes => by
    have first := own.copyFrom (escapes _ List.mem_cons_self)
    have rest := others.mapM fun w hw => escapes w (List.mem_cons_of_mem _ hw)
    rw [List.mapM_cons, first, rest]
    rfl

end

/-- Copying a value gives its copy, if it has one. -/
theorem copy_ok_iff : s.copy v = .ok w ↔ s.Copies v w := by
  refine ⟨copies_of_copyFrom, fun h => h.copyFrom fun a node u hn _ ha _ => ?_⟩
  -- Every container of the store is fresh at first.
  exact absurd (List.mem_range.2 (List.getElem?_eq_some_iff.1 hn).1) ha

end Store

/-! ## Copying fields -/

namespace Workspace

variable {s : Store} {tree : Entries} {fields copies : List (String × Value)}

theorem copyFields_of_copies (h : s.CopiesUnder fields copies) :
    copyFields s tree fields = (copies.foldl (fun m e => Keyed.put m e.1 e.2) tree, none) := by
  induction fields generalizing tree copies with
  | nil =>
    cases h
    rfl
  | cons e rest ih =>
    cases h with
    | cons own others =>
      rw [copyFields, Store.copy_ok_iff.2 own]
      exact ih others

/-- Fields that can be copied one by one are copied as they stand if no key occurs twice. -/
theorem copyFields_nil (h : s.CopiesUnder fields copies) (distinct : (Keyed.keys fields).Nodup) :
    copyFields s [] fields = (copies, none) := by
  rw [copyFields_of_copies h]
  exact congrArg (·, none) (ofPairs_eq_self (h.keys ▸ distinct))

theorem copyFields_error (h : ¬ ∃ copies, s.CopiesUnder fields copies) :
    (copyFields s tree fields).2 = some .containsItself := by
  induction fields generalizing tree with
  | nil => exact absurd ⟨[], .nil⟩ h
  | cons e rest ih =>
    obtain ⟨key, v⟩ := e
    rw [copyFields]
    rcases hc : s.copy v with _ | w
    · rfl
    · refine ih fun ⟨copies, others⟩ => h ⟨(key, w) :: copies, .cons ?_ others⟩
      exact Store.copy_ok_iff.1 hc

/-- What is copied without a failure are copies of all fields, put in one after the other. -/
theorem copyFields_ok {tree' : Entries}
    (h : copyFields s tree fields = (tree', none)) : ∃ copies, s.CopiesUnder fields copies ∧
      tree' = copies.foldl (fun m e => Keyed.put m e.1 e.2) tree := by
  by_cases each : ∃ copies, s.CopiesUnder fields copies
  · obtain ⟨copies, each⟩ := each
    rw [copyFields_of_copies each] at h
    exact ⟨copies, each, (congrArg Prod.fst h).symm⟩
  · have failed : (copyFields s tree fields).2 = some .containsItself := copyFields_error each
    rw [h] at failed
    cases failed

end Workspace

end ModelTypes
