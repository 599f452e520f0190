import ModelTypes.Proofs.Value.Copy
import ModelTypes.Proofs.Value.Rename
/-!
# What is written mentions only what exists

A value is known in a workspace of `m` containers and `n` schemas if it mentions no others. What
is known is left alone by renamings of later schemas, and is copied in the same way however the
store grows.
-/

namespace ModelTypes

mutual

/-- A value mentions only the first `m` containers and the first `n` schemas. -/
def Value.Known (m n : Nat) : Value → Prop
  | .member a _ | .shared a => a < m
  | .virtual _ (some id) | .schema id | .embedded _ id => id < n
  | .list items => KnownAll m n items
  | .dict entries => KnownUnder m n entries
  | _ => True

def KnownAll (m n : Nat) : List Value → Prop
  | [] => True
  | v :: rest => v.Known m n ∧ KnownAll m n rest

def KnownUnder (m n : Nat) : List (String × Value) → Prop
  | [] => True
  | (_, v) :: rest => v.Known m n ∧ KnownUnder m n rest

end

/-- A node mentions only what exists, and a mapping has no key twice. -/
def Node.WellFormed (m n : Nat) : Node → Prop
  | .list items | .tuple items => KnownAll m n items
  | .dict entries => (Keyed.keys entries).Nodup ∧ KnownUnder m n entries
  | .object entries | .enumeration _ entries => KnownUnder m n entries
  | .model name schema => name.Known m n ∧ schema.Known m n
  | .embedded _ schema => schema.Known m n

/-- What is written mentions only what is written and the first `n` schemas. -/
def Store.WellFormed (n : Nat) (s : Store) : Prop :=
  ∀ node ∈ s.nodes, node.WellFormed s.nodes.length n

variable {σ : SchemaId → SchemaId} {m n : Nat}

theorem knownUnder_iff {tree : List (String × Value)} :
    KnownUnder m n tree ↔ ∀ e ∈ tree, e.2.Known m n := by
  induction tree with
  | nil => simp [KnownUnder]
  | cons e rest ih =>
    obtain ⟨key, v⟩ := e
    rw [KnownUnder, ih, List.forall_mem_cons]

mutual

theorem Value.Known.mono {n' : Nat} (hle : n ≤ n') : ∀ {v : Value}, v.Known m n → v.Known m n'
  | .virtual _ (some _), hv | .schema _, hv | .embedded _ _, hv => Nat.lt_of_lt_of_le hv hle
  | .member _ _, hv | .shared _, hv => hv
  | .list _, hv => KnownAll.mono hle hv
  | .dict _, hv => KnownUnder.mono hle hv
  | .virtual _ none, _ | .null, _ | .bool _, _ | .int _, _ | .float _, _ | .str _, _ | .kind _, _
  | .bytes _, _ | .marker _, _ | .function, _ => trivial

theorem KnownAll.mono {n' : Nat} (hle : n ≤ n') :
    ∀ {items : List Value}, KnownAll m n items → KnownAll m n' items
  | [], _ => trivial
  | _ :: _, hv => ⟨Value.Known.mono hle hv.1, KnownAll.mono hle hv.2⟩

theorem KnownUnder.mono {n' : Nat} (hle : n ≤ n') :
    ∀ {tree : List (String × Value)}, KnownUnder m n tree → KnownUnder m n' tree
  | [], _ => trivial
  | _ :: _, hv => ⟨Value.Known.mono hle hv.1, KnownUnder.mono hle hv.2⟩

end

theorem Store.WellFormed.mono {n' : Nat} (hle : n ≤ n') {s : Store} (hs : s.WellFormed n) :
    s.WellFormed n' := by
  intro node hnode
  have known := hs node hnode
  cases node with
  | list items | tuple items => exact KnownAll.mono hle known
  | dict entries => exact ⟨known.1, KnownUnder.mono hle known.2⟩
  | object entries | enumeration _ entries => exact KnownUnder.mono hle known
  | model name schema => exact ⟨Value.Known.mono hle known.1, Value.Known.mono hle known.2⟩
  | embedded _ schema => exact Value.Known.mono hle known

/-! ## Renamings of what is not known -/

mutual

theorem Value.Known.rename (h : ∀ i < n, σ i = i) : ∀ {v : Value}, v.Known m n → v.rename σ = v
  | .virtual path (some id), hv => congrArg (Value.virtual path ∘ some) (h id hv)
  | .schema id, hv => congrArg Value.schema (h id hv)
  | .embedded e id, hv => congrArg (Value.embedded e) (h id hv)
  | .list _, hv => congrArg Value.list (KnownAll.rename h hv)
  | .dict _, hv => congrArg Value.dict (KnownUnder.rename h hv)
  | .virtual _ none, _ | .null, _ | .bool _, _ | .int _, _ | .float _, _ | .str _, _ | .kind _, _
  | .bytes _, _ | .marker _, _ | .function, _ | .member _ _, _ | .shared _, _ => rfl

theorem KnownAll.rename (h : ∀ i < n, σ i = i) :
    ∀ {items : List Value}, KnownAll m n items → renameAll σ items = items
  | [], _ => rfl
  | v :: rest, hv => by
    rw [renameAll, Value.Known.rename h hv.1, KnownAll.rename h hv.2]

theorem KnownUnder.rename (h : ∀ i < n, σ i = i) :
    ∀ {tree : List (String × Value)}, KnownUnder m n tree → renameUnder σ tree = tree
  | [], _ => rfl
  | (key, v) :: rest, hv => by
    rw [renameUnder, Value.Known.rename h hv.1, KnownUnder.rename h hv.2]

end

theorem Store.WellFormed.fixed {s : Store} (hs : s.WellFormed n) (h : ∀ i < n, σ i = i) :
    s.Fixed σ := by
  intro node hnode
  have known := hs node hnode
  cases node with
  | list items | tuple items => exact KnownAll.rename h known
  | dict entries => exact KnownUnder.rename h known.2
  | object entries | enumeration _ entries => exact KnownUnder.rename h known
  | model name schema => exact ⟨Value.Known.rename h known.1, Value.Known.rename h known.2⟩
  | embedded _ schema => exact Value.Known.rename h known

/-! ## Copies of what is known -/

theorem Store.WellFormed.node {s : Store} (hs : s.WellFormed n) {a : Addr} {node : Node}
    (h : s.nodes[a]? = some node) : node.WellFormed s.nodes.length n :=
  hs _ (List.mem_of_getElem? h)

mutual

theorem Store.Copies.known {s : Store} (hs : s.WellFormed n) {v w : Value} :
    s.Copies v w → v.Known s.nodes.length n → w.Known s.nodes.length n
  | .kept _, hv => hv
  | .list node each, _ => each.known hs (hs.node node)
  | .dict node each, _ => each.known hs (hs.node node).2

theorem Store.CopiesAll.known {s : Store} (hs : s.WellFormed n) {items copies : List Value} :
    s.CopiesAll items copies → KnownAll s.nodes.length n items → KnownAll s.nodes.length n copies
  | .nil, _ => trivial
  | .cons own others, h => ⟨own.known hs h.1, others.known hs h.2⟩

theorem Store.CopiesUnder.known {s : Store} (hs : s.WellFormed n)
    {entries copies : List (String × Value)} : s.CopiesUnder entries copies →
      KnownUnder s.nodes.length n entries → KnownUnder s.nodes.length n copies
  | .nil, _ => trivial
  | .cons own others, h => ⟨own.known hs h.1, others.known hs h.2⟩

end

/-! ## Copies in a store that has grown -/

/-- Two stores hold the same first `m` containers, which mention no others. -/
structure Store.Agree (m n : Nat) (s s' : Store) : Prop where
  node {a : Addr} (ha : a < m) : s'.nodes[a]? = s.nodes[a]?
  known {a : Addr} {node : Node} (ha : a < m) (h : s.nodes[a]? = some node) : node.WellFormed m n

namespace Store.Agree

variable {s s' : Store}

theorem symm (h : Store.Agree m n s s') : Store.Agree m n s' s where
  node ha := (h.node ha).symm
  known ha hnode := h.known ha ((h.node ha).symm.trans hnode)

theorem node? (h : Store.Agree m n s s') {v : Value} (hv : v.Known m n) :
    s'.node? v = s.node? v := by
  cases v with
  | shared a => exact h.node hv
  | _ => rfl

end Store.Agree

theorem Store.WellFormed.agree {s s' : Store} (hs : s.WellFormed n)
    (grown : s.nodes <+: s'.nodes) : Store.Agree s.nodes.length n s s' where
  node ha := by
    obtain ⟨extra, h⟩ := grown
    rw [← h, List.getElem?_append_left ha]
  known _ h := hs.node h

mutual

theorem Store.Copies.agree {s s' : Store} (h : Store.Agree m n s s') {v w : Value} :
    s.Copies v w → v.Known m n → s'.Copies v w
  | .kept kept, hv => .kept fun node hnode => kept node ((h.node? hv).symm.trans hnode)
  | .list node each, hv => .list ((h.node hv).trans node) (each.agree h (h.known hv node))
  | .dict node each, hv => .dict ((h.node hv).trans node) (each.agree h (h.known hv node).2)

theorem Store.CopiesAll.agree {s s' : Store} (h : Store.Agree m n s s')
    {items copies : List Value} : s.CopiesAll items copies → KnownAll m n items →
      s'.CopiesAll items copies
  | .nil, _ => .nil
  | .cons own others, hv => .cons (own.agree h hv.1) (others.agree h hv.2)

theorem Store.CopiesUnder.agree {s s' : Store} (h : Store.Agree m n s s')
    {entries copies : List (String × Value)} : s.CopiesUnder entries copies →
      KnownUnder m n entries → s'.CopiesUnder entries copies
  | .nil, _ => .nil
  | .cons own others, hv => .cons (own.agree h hv.1) (others.agree h hv.2)

end

theorem Store.Agree.copiesUnder_iff {s s' : Store} (h : Store.Agree m n s s')
    {entries copies : List (String × Value)} (known : KnownUnder m n entries) :
    s'.CopiesUnder entries copies ↔ s.CopiesUnder entries copies :=
  ⟨fun copied => copied.agree h.symm known, fun copied => copied.agree h known⟩

end ModelTypes
