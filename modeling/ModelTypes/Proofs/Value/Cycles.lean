import Mathlib.Data.List.Forall2
import ModelTypes.Proofs.Compile.Unfolding
import ModelTypes.Proofs.Value.Copy
/-!
# Values that contain themselves

Copying follows lists and mappings and never enters one that it is in already. So it fails if it is
led back (`cyclic_of_copyFrom`), and a value that has a copy leads nowhere back, as each of its parts
has a copy too (`acc_of_copies`). Trees that schemas own are finite and hold nothing written, which
is why `copy` may keep them (`Owned`).
-/

namespace ModelTypes

open Relation

/-- What a node that is copied holds. -/
def Node.parts : Node → List Value
  | .list items => items
  | .dict entries => Keyed.values entries
  | _ => []

/-- Every leaf of a tree, or what is no tree, is one of `P`. -/
inductive Value.EachLeaf (P : Value → Prop) : Value → Prop where
  | list {items : List Value} : (∀ v ∈ items, EachLeaf P v) → EachLeaf P (.list items)
  | dict {entries : List (String × Value)} : (∀ e ∈ entries, EachLeaf P e.2) →
      EachLeaf P (.dict entries)
  | leaf {v : Value} : (∀ items, v ≠ .list items) → (∀ entries, v ≠ .dict entries) → P v →
      EachLeaf P v

namespace Store

section Parts

variable (s : Store)

/-- What stands in a list or under a key of a mapping. -/
inductive Part (v : Value) : Value → Prop where
  | item {items : List Value} {w : Value} : s.items? v = some items → w ∈ items → Part v w
  | entry {entries : Entries} {e : String × Value} : s.entries? v = some entries → e ∈ entries →
      Part v e.2

/-- A value is or contains a list or mapping that contains itself. -/
def Cyclic (v : Value) : Prop := ∃ w, ReflTransGen s.Part v w ∧ TransGen s.Part w w

/-- Values of one structure: lists item by item, mappings key by key in order, all else as it
is. -/
inductive Same : Value → Value → Prop where
  | leaf {v : Value} : s.items? v = none → s.entries? v = none → Same v v
  | list {v w : Value} {xs ys : List Value} : s.items? v = some xs → s.items? w = some ys →
      List.Forall₂ Same xs ys → Same v w
  | dict {v w : Value} {xs ys : Entries} : s.entries? v = some xs → s.entries? w = some ys →
      Keyed.keys xs = Keyed.keys ys → List.Forall₂ Same (Keyed.values xs) (Keyed.values ys) →
      Same v w

/-- What is written, if anything, is there and is neither a list nor a mapping. -/
def Keeps (v : Value) : Prop :=
  ∀ a, v = .shared a → ∃ node, s.nodes[a]? = some node ∧ node.isPlain = false

/-- A value holds no written list or mapping. -/
def Owned (v : Value) : Prop := v.EachLeaf s.Keeps

/-- A value as it may be given: a written list or mapping, or what holds none. -/
def GivenValue (v : Value) : Prop :=
  (∃ a node, v = .shared a ∧ s.nodes[a]? = some node ∧ node.isPlain = true) ∨ s.Owned v

/-- Written lists and mappings hold values as they may be given. -/
def Given : Prop := ∀ node ∈ s.nodes, ∀ v ∈ node.parts, s.GivenValue v

end Parts

variable {s : Store} {v w : Value} {items : List Value} {entries : Entries} {fresh : List Addr}

/-! ## Parts -/

theorem items?_cases (h : s.items? v = some items) :
    v = .list items ∨ ∃ a, v = .shared a ∧ s.nodes[a]? = some (.list items) := by
  cases v with
  | list _ =>
    cases h
    exact .inl rfl
  | shared a =>
    rcases hn : s.nodes[a]? with _ | node
    · simp [items?, node?, hn] at h
    · cases node <;> simp_all [items?, node?]
  | _ => cases h

theorem entries?_cases (h : s.entries? v = some entries) :
    v = .dict entries ∨ ∃ a, v = .shared a ∧ s.nodes[a]? = some (.dict entries) := by
  cases v with
  | dict _ =>
    cases h
    exact .inl rfl
  | shared a =>
    rcases hn : s.nodes[a]? with _ | node
    · simp [entries?, node?, hn] at h
    · cases node <;> simp_all [entries?, node?]
  | _ => cases h

/-- A part stands in a tree or in a written container. -/
theorem Part.cases (h : s.Part v w) : (∃ items, v = .list items ∧ w ∈ items) ∨
    (∃ entries key, v = .dict entries ∧ (key, w) ∈ entries) ∨
    ∃ a node, v = .shared a ∧ s.nodes[a]? = some node ∧ node.isPlain = true ∧ w ∈ node.parts := by
  cases h with
  | item hl hw =>
    rcases items?_cases hl with rfl | ⟨a, rfl, ha⟩
    · exact .inl ⟨_, rfl, hw⟩
    · exact .inr (.inr ⟨a, _, rfl, ha, rfl, hw⟩)
  | entry he hw =>
    rcases entries?_cases he with rfl | ⟨a, rfl, ha⟩
    · exact .inr (.inl ⟨_, _, rfl, hw⟩)
    · exact .inr (.inr ⟨a, _, rfl, ha, rfl, List.mem_map.2 ⟨_, hw, rfl⟩⟩)

theorem part_shared_iff {a : Addr} {node : Node} (ha : s.nodes[a]? = some node)
    (plain : node.isPlain = true) : s.Part (.shared a) w ↔ w ∈ node.parts := by
  constructor
  · intro part
    rcases part.cases with ⟨_, h, -⟩ | ⟨_, _, h, -⟩ | ⟨b, node', h, hb, -, hw⟩
    · cases h
    · cases h
    · cases h
      rw [ha] at hb
      cases hb
      exact hw
  · intro hw
    cases node with
    | list items => exact .item (show s.items? _ = some items by simp [items?, node?, ha]) hw
    | dict entries =>
      obtain ⟨e, he, rfl⟩ := List.mem_map.1 hw
      exact .entry (by simp [entries?, node?, ha]) he
    | _ => cases plain

/-! ## Trees -/

theorem Keeps.isPlain_eq {a : Addr} {node : Node} (h : s.Keeps (.shared a))
    (ha : s.nodes[a]? = some node) : node.isPlain = false := by
  obtain ⟨node', ha', other⟩ := h a rfl
  rw [ha] at ha'
  cases ha'
  exact other

theorem owned_of_part (h : s.Owned v) (part : s.Part v w) : s.Owned w ∧ sizeOf w < sizeOf v := by
  rcases part.cases with ⟨items, rfl, hw⟩ | ⟨entries, key, rfl, hw⟩ | ⟨a, node, rfl, ha, plain, -⟩
  · cases h with
    | list each =>
      refine ⟨each w hw, ?_⟩
      have := List.sizeOf_lt_of_mem hw
      simp only [Value.list.sizeOf_spec]
      omega
    | leaf no_list => exact absurd rfl (no_list items)
  · cases h with
    | dict each =>
      refine ⟨each _ hw, ?_⟩
      have := List.sizeOf_lt_of_mem hw
      simp only [Prod.mk.sizeOf_spec] at this
      simp only [Value.dict.sizeOf_spec]
      omega
    | leaf _ no_dict => exact absurd rfl (no_dict entries)
  · cases h with
    | leaf _ _ keeps =>
      rw [keeps.isPlain_eq ha] at plain
      cases plain

theorem acc_of_owned (h : s.Owned v) : Acc (fun w v => s.Part v w) v := by
  induction hn : sizeOf v using Nat.strongRecOn generalizing v with
  | ind n ih =>
    refine Acc.intro _ fun w part => ?_
    obtain ⟨owned, smaller⟩ := owned_of_part h part
    exact ih _ (hn ▸ smaller) owned rfl

/-- No value below one that leads nowhere back contains itself. -/
theorem not_cyclic_of_acc (h : Acc (fun w v => s.Part v w) v) : ¬ s.Cyclic v := by
  rintro ⟨w, reaches, returns⟩
  refine Compile.not_transGen_self_of_acc ?_ returns
  clear returns
  induction reaches with
  | refl => exact h
  | tail _ part ih => exact ih.inv part

/-- A tree with nothing written in it has no cycles. -/
theorem not_cyclic_of_owned (h : s.Owned v) : ¬ s.Cyclic v := not_cyclic_of_acc (acc_of_owned h)

theorem same_refl (h : s.Owned v) : s.Same v v := by
  unfold Owned at h
  induction h with
  | list _ ih => exact .list rfl rfl (List.forall₂_same.2 ih)
  | dict _ ih =>
    refine .dict rfl rfl rfl (List.forall₂_same.2 fun v hv => ?_)
    obtain ⟨e, he, rfl⟩ := List.mem_map.1 hv
    exact ih e he
  | @leaf v no_list no_dict keeps =>
    refine .leaf ?_ ?_
    · rcases hl : s.items? v with _ | items
      · rfl
      · rcases items?_cases hl with rfl | ⟨a, rfl, ha⟩
        · exact absurd rfl (no_list items)
        · cases keeps.isPlain_eq ha
    · rcases he : s.entries? v with _ | entries
      · rfl
      · rcases entries?_cases he with rfl | ⟨a, rfl, ha⟩
        · exact absurd rfl (no_dict entries)
        · cases keeps.isPlain_eq ha

/-! ## What has a copy has no cycle, and the same structure -/

theorem Given.list (h : s.Given) {a : Addr} (node : s.nodes[a]? = some (.list items)) :
    ∀ v ∈ items, s.GivenValue v :=
  h _ (List.mem_of_getElem? node)

theorem Given.dict (h : s.Given) {a : Addr} (node : s.nodes[a]? = some (.dict entries)) :
    ∀ e ∈ entries, s.GivenValue e.2 :=
  fun e he => h _ (List.mem_of_getElem? node) e.2 (List.mem_map.2 ⟨e, he, rfl⟩)

/-- What is given and kept by copying holds nothing that is copied. -/
theorem GivenValue.owned (h : s.GivenValue v)
    (kept : ∀ node, s.node? v = some node → node.isPlain = false) : s.Owned v := by
  rcases h with ⟨a, node, rfl, ha, plain⟩ | owned
  · rw [kept node ha] at plain
    cases plain
  · exact owned

mutual

theorem acc_of_copies (hs : s.Given) {v w : Value} : s.Copies v w → s.GivenValue v →
    Acc (fun w v => s.Part v w) v
  | .kept kept, hv => acc_of_owned (hv.owned kept)
  | @Copies.list _ a items _ node each, _ => by
    have parts := acc_of_copiesAll hs each (hs.list node)
    exact Acc.intro _ fun w part => parts w ((part_shared_iff node rfl).1 part)
  | @Copies.dict _ a entries _ node each, _ => by
    have parts := acc_of_copiesUnder hs each (hs.dict node)
    refine Acc.intro _ fun w part => ?_
    obtain ⟨e, he, rfl⟩ := List.mem_map.1 ((part_shared_iff node rfl).1 part)
    exact parts e he

theorem acc_of_copiesAll (hs : s.Given) {items copies : List Value} : s.CopiesAll items copies →
    (∀ v ∈ items, s.GivenValue v) → ∀ v ∈ items, Acc (fun w v => s.Part v w) v
  | .nil, _ => by simp
  | .cons own others, h => by
    have first := acc_of_copies hs own (h _ List.mem_cons_self)
    have rest := acc_of_copiesAll hs others fun v hv => h v (List.mem_cons_of_mem _ hv)
    exact List.forall_mem_cons.2 ⟨first, rest⟩

theorem acc_of_copiesUnder (hs : s.Given) {entries copies : List (String × Value)} :
    s.CopiesUnder entries copies → (∀ e ∈ entries, s.GivenValue e.2) →
      ∀ e ∈ entries, Acc (fun w v => s.Part v w) e.2
  | .nil, _ => by simp
  | .cons own others, h => by
    have first := acc_of_copies hs own (h _ List.mem_cons_self)
    have rest := acc_of_copiesUnder hs others fun e he => h e (List.mem_cons_of_mem _ he)
    exact List.forall_mem_cons.2 ⟨first, rest⟩

end

mutual

theorem Copies.same (hs : s.Given) {v w : Value} : s.Copies v w → s.GivenValue v → s.Same v w
  | .kept kept, hv => same_refl (hv.owned kept)
  | @Copies.list _ a items _ node each, _ =>
    .list (by simp [items?, node?, node]) rfl (each.same hs (hs.list node))
  | @Copies.dict _ a entries _ node each, _ =>
    .dict (by simp [entries?, node?, node]) rfl each.keys.symm (each.same hs (hs.dict node))

theorem CopiesAll.same (hs : s.Given) {items copies : List Value} : s.CopiesAll items copies →
    (∀ v ∈ items, s.GivenValue v) → List.Forall₂ s.Same items copies
  | .nil, _ => .nil
  | .cons own others, h =>
    .cons (own.same hs (h _ List.mem_cons_self))
      (others.same hs fun v hv => h v (List.mem_cons_of_mem _ hv))

theorem CopiesUnder.same (hs : s.Given) {entries copies : List (String × Value)} :
    s.CopiesUnder entries copies → (∀ e ∈ entries, s.GivenValue e.2) →
      List.Forall₂ s.Same (Keyed.values entries) (Keyed.values copies)
  | .nil, _ => .nil
  | .cons own others, h =>
    .cons (own.same hs (h _ List.mem_cons_self))
      (others.same hs fun e he => h e (List.mem_cons_of_mem _ he))

end

/-! ## Copying fails on cycles only -/

/-- A part that cannot be copied leads out of what is fresh, back to its container or to another
cycle. -/
theorem cyclic_step {a : Addr} (part : s.Part (.shared a) w)
    (h : (∃ b node, s.nodes[b]? = some node ∧ b ∉ fresh.erase a ∧
        ReflTransGen s.Part w (.shared b)) ∨ s.Cyclic w) :
    (∃ b node, s.nodes[b]? = some node ∧ b ∉ fresh ∧ ReflTransGen s.Part (.shared a) (.shared b)) ∨
      s.Cyclic (.shared a) := by
  rcases h with ⟨b, node, hb, stale, reaches⟩ | ⟨u, reaches, returns⟩
  · by_cases hba : b = a
    · subst hba
      exact .inr ⟨.shared b, .refl, TransGen.head' part reaches⟩
    · exact .inl ⟨b, node, hb, fun hm => stale ((List.mem_erase_of_ne hba).2 hm), .head part reaches⟩
  · exact .inr ⟨u, .head part reaches, returns⟩

/-- Copying fails at a container that is not fresh, or on a cycle. -/
theorem cyclic_of_copyFrom (h : ¬ ∃ w, s.copyFrom fresh v = .ok w) :
    (∃ b node, s.nodes[b]? = some node ∧ b ∉ fresh ∧ ReflTransGen s.Part v (.shared b)) ∨
      s.Cyclic v := by
  induction hn : fresh.length using Nat.strongRecOn generalizing fresh v with
  | ind size ih =>
    unfold copyFrom at h
    split at h
    case h_2 => exact absurd ⟨_, rfl⟩ h
    case h_1 a =>
      split at h
      case h_1 items node =>
        split at h
        case isFalse stale => exact .inl ⟨a, _, node, stale, .refl⟩
        case isTrue ha =>
          have failed : ¬ ∃ out, items.mapM (s.copyFrom (fresh.erase a)) = .ok out := by
            rintro ⟨out, hout⟩
            exact h ⟨.list out, Except.map_eq_ok_iff.2 ⟨out, hout, rfl⟩⟩
          rw [Except.mapM_returns_iff] at failed
          push Not at failed
          obtain ⟨w, hw, fails⟩ := failed
          exact cyclic_step ((part_shared_iff node rfl).2 hw)
            (ih _ (hn ▸ length_erase_lt ha) (by simpa using fails) rfl)
      case h_2 entries node =>
        split at h
        case isFalse stale => exact .inl ⟨a, _, node, stale, .refl⟩
        case isTrue ha =>
          have failed : ¬ ∃ out, (entries.mapM fun e =>
              (e.1, ·) <$> s.copyFrom (fresh.erase a) e.2) = .ok out := by
            rintro ⟨out, hout⟩
            exact h ⟨.dict out, Except.map_eq_ok_iff.2 ⟨out, hout, rfl⟩⟩
          rw [Except.mapM_returns_iff] at failed
          push Not at failed
          obtain ⟨e, he, fails⟩ := failed
          have part := (part_shared_iff node rfl).2 (List.mem_map.2 ⟨e, he, rfl⟩)
          refine cyclic_step part (ih _ (hn ▸ length_erase_lt ha) ?_ rfl)
          rintro ⟨w, hw⟩
          exact fails (e.1, w) (Except.map_eq_ok_iff.2 ⟨w, hw, rfl⟩)
      case h_3 => exact absurd ⟨_, rfl⟩ h

/-- A value has a copy unless it has a cycle. -/
theorem exists_copies_iff (hs : s.Given) (hv : s.GivenValue v) :
    (∃ w, s.Copies v w) ↔ ¬ s.Cyclic v := by
  refine ⟨fun ⟨w, copies⟩ => not_cyclic_of_acc (acc_of_copies hs copies hv), fun acyclic => ?_⟩
  by_contra none
  have fails : ¬ ∃ w, s.copyFrom s.addresses v = .ok w :=
    fun ⟨w, hw⟩ => none ⟨w, copies_of_copyFrom hw⟩
  rcases cyclic_of_copyFrom fails with ⟨b, node, hb, stale, -⟩ | cyclic
  -- every container is fresh at first
  · exact stale (List.mem_range.2 (List.getElem?_eq_some_iff.1 hb).1)
  · exact acyclic cyclic

theorem copy_error_iff (hs : s.Given) (hv : s.GivenValue v) :
    s.copy v = .error .containsItself ↔ s.Cyclic v := by
  rw [← not_iff_not, ← exists_copies_iff hs hv]
  constructor
  · intro fine
    rcases hc : s.copy v with e | w
    · cases e
      exact absurd hc fine
    · exact ⟨w, copy_ok_iff.1 hc⟩
  · rintro ⟨w, copies⟩ failed
    rw [copy_ok_iff.2 copies] at failed
    cases failed

/-! ## Copies are owned -/

mutual

/-- Copies hold nothing written. -/
theorem Copies.owned (hs : s.Given) {v w : Value} : s.Copies v w → s.GivenValue v → s.Owned w
  | .kept kept, hv => hv.owned kept
  | .list node each, _ => .list (each.owned hs (hs.list node))
  | .dict node each, _ => .dict (each.owned hs (hs.dict node))

theorem CopiesAll.owned (hs : s.Given) {items copies : List Value} : s.CopiesAll items copies →
    (∀ v ∈ items, s.GivenValue v) → ∀ w ∈ copies, s.Owned w
  | .nil, _ => by simp
  | .cons own others, h => by
    have first := own.owned hs (h _ List.mem_cons_self)
    have rest := others.owned hs fun v hv => h v (List.mem_cons_of_mem _ hv)
    exact List.forall_mem_cons.2 ⟨first, rest⟩

theorem CopiesUnder.owned (hs : s.Given) {entries copies : List (String × Value)} :
    s.CopiesUnder entries copies → (∀ e ∈ entries, s.GivenValue e.2) →
      ∀ e ∈ copies, s.Owned e.2
  | .nil, _ => by simp
  | .cons own others, h => by
    have first := own.owned hs (h _ List.mem_cons_self)
    have rest := others.owned hs fun e he => h e (List.mem_cons_of_mem _ he)
    exact List.forall_mem_cons.2 ⟨first, rest⟩

end

end Store
end ModelTypes
