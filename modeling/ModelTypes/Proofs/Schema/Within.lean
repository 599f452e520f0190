import ModelTypes.Proofs.Keyed
import ModelTypes.Proofs.Result
import ModelTypes.Schema.Build
/-!
# The schemas that values declare

`Value.Within n` says that all schemas in a value are among the first `n`. Then so are the children
found in it, and copying it, from a store that holds such values only, adds no others.
-/

namespace ModelTypes

/-! ## Values within a workspace -/

mutual

/-- The schemas that a value declares are among the first `n`. -/
def Value.Within (n : Nat) : Value → Prop
  | .schema id => id < n
  | .list items => WithinAll n items
  | .dict entries => WithinUnder n entries
  | _ => True

def WithinAll (n : Nat) : List Value → Prop
  | [] => True
  | v :: rest => v.Within n ∧ WithinAll n rest

def WithinUnder (n : Nat) : List (String × Value) → Prop
  | [] => True
  | (_, v) :: rest => v.Within n ∧ WithinUnder n rest

end

variable {n m : Nat} {v w : Value} {tree : Entries} {items : List Value}

theorem withinAll_iff : WithinAll n items ↔ ∀ v ∈ items, v.Within n := by
  induction items with
  | nil => simp [WithinAll]
  | cons v rest ih => simp [WithinAll, ih]

theorem withinUnder_iff : WithinUnder n tree ↔ ∀ e ∈ tree, e.2.Within n := by
  induction tree with
  | nil => simp [WithinUnder]
  | cons e rest ih =>
    obtain ⟨key, v⟩ := e
    rw [WithinUnder, ih, List.forall_mem_cons]

mutual

theorem Value.Within.mono (hle : n ≤ m) : ∀ v : Value, v.Within n → v.Within m
  | .schema _, h => Nat.lt_of_lt_of_le h hle
  | .list items, h => WithinAll.mono hle items h
  | .dict entries, h => WithinUnder.mono hle entries h
  | .null, _ | .bool _, _ | .int _, _ | .float _, _ | .str _, _ | .kind _, _ | .bytes _, _
  | .marker _, _ | .function, _ | .member _ _, _ | .virtual _ _, _ | .shared _, _
  | .embedded _ _, _ => trivial

theorem WithinAll.mono (hle : n ≤ m) : ∀ items, WithinAll n items → WithinAll m items
  | [], _ => trivial
  | v :: rest, h => ⟨Value.Within.mono hle v h.1, WithinAll.mono hle rest h.2⟩

theorem WithinUnder.mono (hle : n ≤ m) : ∀ tree, WithinUnder n tree → WithinUnder m tree
  | [], _ => trivial
  | (_, v) :: rest, h => ⟨Value.Within.mono hle v h.1, WithinUnder.mono hle rest h.2⟩

end

theorem WithinUnder.put {key : String} (h : WithinUnder n tree) (hv : v.Within n) :
    WithinUnder n (Keyed.put tree key v) := by
  induction tree with
  | nil => exact ⟨hv, trivial⟩
  | cons e rest ih =>
    obtain ⟨k, w⟩ := e
    unfold Keyed.put
    split
    · exact ⟨hv, h.2⟩
    · exact ⟨h.1, ih h.2⟩

/-! ## Children -/

theorem within_of_childAt? {path : String} {b : ChildBinding} (h : v.Within n)
    (hb : childAt? path v = some b) : b.schema < n := by
  unfold childAt? at hb
  split at hb
  · rw [← Option.some.inj hb]
    exact h
  · rw [← Option.some.inj hb]
    exact h.1
  · simp at hb

mutual

theorem within_childrenAt (path : String) : ∀ v : Value, v.Within n →
    ∀ b ∈ v.childrenAt path, b.schema < n
  | .dict entries, h => by
    intro b hb
    have below := within_childrenUnder (path ++ ".") entries h
    rw [Value.childrenAt] at hb
    split at hb
    · rename_i type ht
      have own := withinUnder_iff.1 h _ (Keyed.mem_of_get? ht)
      exact within_of_childAt? own (Option.mem_toList.1 hb)
    · exact below b hb
  | .schema _, h | .list _, h => by
    intro b hb
    rw [Value.childrenAt] at hb
    exact within_of_childAt? h (Option.mem_toList.1 hb)
    all_goals simp
  | .null, _ | .bool _, _ | .int _, _ | .float _, _ | .str _, _ | .kind _, _ | .bytes _, _
  | .marker _, _ | .function, _ | .member _ _, _ | .virtual _ _, _ | .shared _, _
  | .embedded _ _, _ => by simp [Value.childrenAt, childAt?]

theorem within_childrenUnder (lead : String) : ∀ tree, WithinUnder n tree →
    ∀ b ∈ childrenUnder lead tree, b.schema < n
  | [], _ => by simp [childrenUnder]
  | (key, v) :: rest, h => by
    intro b hb
    have own := within_childrenAt (lead ++ key) v h.1
    have others := within_childrenUnder lead rest h.2
    rw [childrenUnder] at hb
    rcases List.mem_append.1 hb with hb | hb
    · exact own b hb
    · exact others b hb

end

/-! ## Copies -/

def Node.Within (n : Nat) : Node → Prop
  | .list items => WithinAll n items
  | .dict entries => WithinUnder n entries
  | _ => True

theorem Node.Within.mono (hle : n ≤ m) {node : Node} (h : node.Within n) : node.Within m := by
  cases node with
  | list items => exact WithinAll.mono hle items h
  | dict entries => exact WithinUnder.mono hle entries h
  | _ => trivial

/-- What is written in a store declares schemas among the first `n` only. -/
def Store.Within (n : Nat) (s : Store) : Prop := ∀ node ∈ s.nodes, node.Within n

variable {s : Store}

theorem Store.Within.entries (hs : s.Within n) (hv : v.Within n) (h : s.entries? v = some tree) :
    WithinUnder n tree := by
  unfold Store.entries? at h
  split at h
  · exact Option.some.inj h ▸ hv
  · split at h
    · rename_i hnode
      cases h
      unfold Store.node? at hnode
      split at hnode
      · exact hs _ (List.mem_of_getElem? hnode)
      · simp at hnode
    · simp at h

theorem Store.Within.copyFrom (hs : s.Within n) {fresh : List Addr} (hv : v.Within n)
    (h : s.copyFrom fresh v = .ok w) : w.Within n := by
  induction hn : fresh.length using Nat.strongRecOn generalizing fresh v w with
  | ind size ih =>
    unfold Store.copyFrom at h
    split at h
    · rename_i a
      split at h
      · rename_i items hnode
        split at h
        · rename_i ha
          obtain ⟨out, hout, rfl⟩ := Except.map_eq_ok_iff.1 h
          have within := withinAll_iff.1 (hs _ (List.mem_of_getElem? hnode))
          apply withinAll_iff.2
          intro w hw
          obtain ⟨item, hitem, hw⟩ := Except.exists_of_mem_mapM hout w hw
          exact ih _ (hn ▸ length_erase_lt ha) (within item hitem) hw rfl
        · simp at h
      · rename_i entries hnode
        split at h
        · rename_i ha
          obtain ⟨out, hout, rfl⟩ := Except.map_eq_ok_iff.1 h
          have within := withinUnder_iff.1 (hs _ (List.mem_of_getElem? hnode))
          apply withinUnder_iff.2
          intro e he
          obtain ⟨f, hf, he⟩ := Except.exists_of_mem_mapM hout e he
          obtain ⟨w, hw, rfl⟩ := Except.map_eq_ok_iff.1 he
          exact ih _ (hn ▸ length_erase_lt ha) (within f hf) hw rfl
        · simp at h
      · cases h
        exact hv
    · cases h
      exact hv

theorem WithinUnder.copyFields (hs : s.Within n) {fields : Entries} (h : WithinUnder n tree)
    (hf : WithinUnder n fields) : WithinUnder n (Workspace.copyFields s tree fields).1 := by
  induction fields generalizing tree with
  | nil => exact h
  | cons f rest ih =>
    obtain ⟨key, v⟩ := f
    unfold Workspace.copyFields
    split
    · rename_i copied hc
      exact ih (h.put (hs.copyFrom hf.1 hc)) hf.2
    · exact h

end ModelTypes
