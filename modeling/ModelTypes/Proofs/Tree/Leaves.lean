import ModelTypes.Proofs.Path
import ModelTypes.Proofs.Tree.Place
/-!
# Leaves by their trails

A leaf of a tree is known by the trail that leads to it; its path is the trail with dots
(`leavesUnder_eq`). In a plain tree, whose mappings hold no key twice and no key with a dot, the
trail can be read off the path again, so putting all leaves into an empty tree gives back the tree.
-/

namespace ModelTypes

/-- Trees are taken apart key by key. -/
theorem tree_induction {motive : Entries → Prop} (nil : motive [])
    (cons : ∀ key v rest, (∀ entries, v = .dict entries → motive entries) → motive rest →
      motive ((key, v) :: rest)) : ∀ tree, motive tree
  | [] => nil
  | (key, v) :: rest => by
    refine cons key v rest (fun entries he => ?_) (tree_induction nil cons rest)
    exact tree_induction nil cons entries
termination_by tree => sizeOf tree
decreasing_by
  · subst he
    simp only [List.cons.sizeOf_spec, Prod.mk.sizeOf_spec, Value.dict.sizeOf_spec]
    omega
  · simp only [List.cons.sizeOf_spec, Prod.mk.sizeOf_spec]
    omega

/-- Trees are taken apart into the mappings in them. -/
theorem nested_induction {motive : Entries → Prop} (step : ∀ tree, (∀ key entries,
    (key, Value.dict entries) ∈ tree → motive entries) → motive tree) (tree : Entries) :
    motive tree := by
  suffices motive tree ∧
      ∀ key entries, (key, Value.dict entries) ∈ tree → motive entries from this.1
  induction tree using tree_induction with
  | nil => exact ⟨step [] (by simp), by simp⟩
  | cons key v rest below ih =>
    have inner : ∀ k entries, (k, Value.dict entries) ∈ (key, v) :: rest → motive entries := by
      intro k entries hm
      rcases List.mem_cons.1 hm with he | hm
      · exact (below entries (Prod.mk.inj he).2.symm).1
      · exact ih.2 k entries hm
    exact ⟨step _ inner, inner⟩

mutual

/-- The leaves of a value with the trails from there. -/
def Value.trails : Value → List (Trail × Value)
  | .dict (first :: rest) => leavesOf (first :: rest)
  | v => [([], v)]

/-- The leaves of a tree with their trails, in order. -/
def leavesOf : List (String × Value) → List (Trail × Value)
  | [] => []
  | (key, v) :: rest => (v.trails.map fun e => (key :: e.1, e.2)) ++ leavesOf rest

end

/-- The flat form of a tree, with trails for paths. -/
def toTrails (flat : Entries) : List (Trail × Value) :=
  flat.map fun e => (Path.segments e.1, e.2)

/-- Keys that can be read off a path: distinct and without dots. -/
def PlainKeys (keys : List String) : Prop := keys.Nodup ∧ ∀ key ∈ keys, Path.DotFree key

instance (keys : List String) : Decidable (PlainKeys keys) :=
  inferInstanceAs (Decidable (_ ∧ _))

mutual

/-- All mappings in a value have plain keys. -/
def Value.Plain : Value → Prop
  | .dict entries => PlainKeys (Keyed.keys entries) ∧ PlainUnder entries
  | _ => True

def PlainUnder : List (String × Value) → Prop
  | [] => True
  | (_, v) :: rest => v.Plain ∧ PlainUnder rest

end

/-- All mappings in a tree, and the tree itself, have plain keys. -/
def Plain (tree : Entries) : Prop := (Value.dict tree).Plain

mutual

def Value.decidePlain : (v : Value) → Decidable v.Plain
  | .dict entries => @instDecidableAnd _ _ inferInstance (decidePlainUnder entries)
  | .null | .bool _ | .int _ | .float _ | .str _ | .kind _ | .bytes _ | .marker _ | .function
  | .member _ _ | .virtual _ _ | .schema _ | .shared _ | .list _ | .embedded _ _ => .isTrue trivial

def decidePlainUnder : (entries : List (String × Value)) → Decidable (PlainUnder entries)
  | [] => .isTrue trivial
  | (_, v) :: rest => @instDecidableAnd _ _ v.decidePlain (decidePlainUnder rest)

end

instance (tree : Entries) : Decidable (Plain tree) := (Value.dict tree).decidePlain

variable {key : String} {trail : Trail} {v w : Value} {tree rest flat : Entries}

@[simp] theorem toTrails_nil : toTrails [] = [] := rfl

@[simp] theorem toTrails_cons {e : String × Value} :
    toTrails (e :: flat) = (Path.segments e.1, e.2) :: toTrails flat := rfl

@[simp] theorem toTrails_append {flat' : Entries} :
    toTrails (flat ++ flat') = toTrails flat ++ toTrails flat' := by simp [toTrails]

theorem mem_toTrails {e : String × Value} (h : e ∈ flat) :
    (Path.segments e.1, e.2) ∈ toTrails flat := List.mem_map.2 ⟨e, h, rfl⟩

theorem plain_iff : Plain tree ↔ PlainKeys (Keyed.keys tree) ∧ PlainUnder tree := by
  simp [Plain, Value.Plain]

theorem Plain.keys (h : Plain tree) : PlainKeys (Keyed.keys tree) := (plain_iff.1 h).1

theorem Plain.tail (h : Plain ((key, v) :: rest)) : Plain rest := by
  obtain ⟨⟨hn, hd⟩, hu⟩ := plain_iff.1 h
  exact plain_iff.2 ⟨⟨(List.nodup_cons.1 hn).2, fun k hk => hd k (List.mem_cons_of_mem _ hk)⟩, hu.2⟩

theorem Plain.head {entries : Entries} (h : Plain ((key, .dict entries) :: rest)) :
    Plain entries := (plain_iff.1 h).2.1

theorem plainUnder_iff : PlainUnder tree ↔ ∀ e ∈ tree, e.2.Plain := by
  induction tree with
  | nil => simp [PlainUnder]
  | cons e rest ih => simp [PlainUnder, ih]

theorem Plain.of_mem (h : Plain tree) {e : String × Value} (he : e ∈ tree) : e.2.Plain :=
  plainUnder_iff.1 (plain_iff.1 h).2 e he

theorem Plain.notMem (h : Plain ((key, v) :: rest)) : key ∉ Keyed.keys rest :=
  (List.nodup_cons.1 h.keys.1).1

theorem Plain.dotFree (h : Plain ((key, v) :: rest)) : Path.DotFree key :=
  h.keys.2 key List.mem_cons_self

/-! ## Trails of leaves -/

theorem Value.trails_dict {entries : Entries} (h : entries ≠ []) :
    (Value.dict entries).trails = leavesOf entries := by
  cases entries with
  | nil => exact absurd rfl h
  | cons first others => simp [Value.trails]

/-- A value is a mapping with entries or its own only leaf. -/
theorem Value.trails_cases (v : Value) :
    (∃ first others, v = .dict (first :: others) ∧ v.trails = leavesOf (first :: others)) ∨
    ((∀ entries, v = .dict entries → entries = []) ∧ v.trails = [([], v)]) := by
  cases v with
  | dict entries =>
    cases entries with
    | nil => exact .inr ⟨fun _ h => by cases h; rfl, by simp [Value.trails]⟩
    | cons first others => exact .inl ⟨first, others, rfl, by simp [Value.trails]⟩
  | _ => exact .inr ⟨fun _ h => by simp at h, by simp [Value.trails]⟩

@[simp] theorem leavesOf_nil : leavesOf [] = [] := by simp [leavesOf]

@[simp] theorem leavesOf_cons : leavesOf ((key, v) :: rest)
    = (v.trails.map fun e => (key :: e.1, e.2)) ++ leavesOf rest := by simp [leavesOf]

theorem ne_nil_of_mem_leavesOf {e : Trail × Value} (h : e ∈ leavesOf tree) : e.1 ≠ [] := by
  induction tree with
  | nil => simp at h
  | cons f rest ih =>
    obtain ⟨key, v⟩ := f
    rw [leavesOf_cons] at h
    rcases List.mem_append.1 h with h | h
    · obtain ⟨_, _, rfl⟩ := List.mem_map.1 h; simp
    · exact ih h

theorem leavesOf_ne_nil (h : tree ≠ []) : leavesOf tree ≠ [] := by
  induction tree using tree_induction with
  | nil => exact absurd rfl h
  | cons key v rest below ih =>
    rcases v.trails_cases with ⟨first, others, hv, ht⟩ | ⟨-, ht⟩
    · simp [ht, below _ hv (by simp)]
    · simp [ht]

/-- The path of a leaf is its trail with dots. -/
theorem leavesUnder_eq {lead : String} :
    leavesUnder lead tree = (leavesOf tree).map fun e => (lead ++ Path.dotted e.1, e.2) := by
  induction tree using tree_induction generalizing lead with
  | nil => simp [leavesUnder]
  | cons key v rest below ih =>
    rw [leavesUnder, ih, leavesOf_cons, List.map_append, List.map_map]
    congr 1
    rcases v.trails_cases with ⟨first, others, rfl, ht⟩ | ⟨hv, ht⟩
    · rw [Value.leavesAt, below _ rfl, ht]
      apply List.map_congr_left
      intro e he
      simp [Path.dotted_cons (ne_nil_of_mem_leavesOf he), String.append_assoc]
    · rw [ht]
      cases v with
      | dict entries => cases hv entries rfl; simp [Value.leavesAt, Path.dotted]
      | _ => simp [Value.leavesAt, Path.dotted]

theorem dotFree_of_mem_leavesOf (h : Plain tree) {e : Trail × Value} (he : e ∈ leavesOf tree) :
    ∀ key ∈ e.1, Path.DotFree key := by
  induction tree using tree_induction generalizing e with
  | nil => simp at he
  | cons key v rest below ih =>
    rw [leavesOf_cons] at he
    rcases List.mem_append.1 he with he | he
    · obtain ⟨f, hf, rfl⟩ := List.mem_map.1 he
      rcases v.trails_cases with ⟨first, others, rfl, ht⟩ | ⟨-, ht⟩ <;> rw [ht] at hf
      · simpa using ⟨h.dotFree, below _ rfl h.head hf⟩
      · simp only [List.mem_singleton] at hf
        simpa [hf] using h.dotFree
    · exact ih h.tail he

theorem toTrails_leavesUnder (h : Plain tree) : toTrails (leavesUnder "" tree) = leavesOf tree := by
  rw [leavesUnder_eq, toTrails, List.map_map]
  conv => rhs; rw [← List.map_id (leavesOf tree)]
  apply List.map_congr_left
  intro e he
  simp [Path.segments_dotted (ne_nil_of_mem_leavesOf he) (dotFree_of_mem_leavesOf h he)]

/-! ## A tree and its flat form -/

/-- No place comes after one at or below it. -/
def Ordered (places : List (Trail × Value)) : Prop :=
  places.Pairwise fun e e' => ¬ e'.1 <+: e.1

theorem head_mem_of_mem_leavesOf {e : Trail × Value} (h : e ∈ leavesOf tree) :
    ∃ key ∈ Keyed.keys tree, [key] <+: e.1 := by
  induction tree with
  | nil => simp at h
  | cons f rest ih =>
    obtain ⟨key, v⟩ := f
    rw [leavesOf_cons] at h
    rcases List.mem_append.1 h with h | h
    · obtain ⟨_, _, rfl⟩ := List.mem_map.1 h
      exact ⟨key, by simp, by simp⟩
    · obtain ⟨k, hk, hp⟩ := ih h
      exact ⟨k, List.mem_cons_of_mem _ hk, hp⟩

theorem ordered_leavesOf (h : Plain tree) : Ordered (leavesOf tree) := by
  induction tree using tree_induction with
  | nil => simp [Ordered]
  | cons key v rest below ih =>
    rw [leavesOf_cons]
    refine List.pairwise_append.2 ⟨?_, ih h.tail, fun e he f hf => ?_⟩
    · rw [List.pairwise_map]
      rcases v.trails_cases with ⟨first, others, rfl, ht⟩ | ⟨-, ht⟩ <;> rw [ht]
      · simpa [Ordered] using below _ rfl h.head
      · simp
    -- Leaves under two keys of one mapping part at their first key.
    · obtain ⟨e, -, rfl⟩ := List.mem_map.1 he
      obtain ⟨k, hk, ⟨more, hf⟩⟩ := head_mem_of_mem_leavesOf hf
      rw [← hf, List.singleton_append, List.cons_prefix_cons]
      exact fun hc => h.notMem (hc.1 ▸ hk)

theorem build_leavesOf_append (h : Plain tree) (before : Entries)
    (hb : ∀ key ∈ Keyed.keys tree, key ∉ Keyed.keys before) :
    build (leavesOf tree) before = before ++ tree := by
  induction tree using tree_induction generalizing before with
  | nil => simp
  | cons key v rest below ih =>
    have hkey : key ∉ Keyed.keys before := hb key (by simp)
    have hold : Keyed.get? before key = none := Keyed.get?_eq_none_iff.2 hkey
    -- Nothing stands at the key yet, so the leaves below it settle to their own value.
    have hv : v.trails ≠ [] ∧ settle v.trails (Keyed.get? before key) = some v := by
      rcases v.trails_cases with ⟨first, others, rfl, ht⟩ | ⟨-, ht⟩ <;> rw [ht]
      · have hne : leavesOf (first :: others) ≠ [] := leavesOf_ne_nil (by simp)
        have hnil : [] ∉ (leavesOf (first :: others)).map (·.1) := fun hm => by
          obtain ⟨e, he, hn⟩ := List.mem_map.1 hm
          exact ne_nil_of_mem_leavesOf he hn
        rw [settle_eq_dict hne hnil, hold, entriesIn_none, below _ rfl h.head [] (by simp)]
        exact ⟨hne, by simp⟩
      · simp [within]
    rw [leavesOf_cons, build_append, build_map_cons hv.1 hv.2, Keyed.put_of_notMem hkey,
      ih h.tail _ fun k hk => ?_, List.append_assoc, List.singleton_append]
    rw [Keyed.keys_append, List.mem_append, not_or]
    exact ⟨hb k (List.mem_cons_of_mem _ hk), by
      simpa using fun he : k = key => h.notMem (he ▸ hk)⟩

theorem build_leavesOf (h : Plain tree) : build (leavesOf tree) [] = tree := by
  simpa using build_leavesOf_append h [] (by simp)

theorem unflatten_eq : unflatten flat = build (toTrails flat) [] := by
  simp [unflatten, build, toTrails, List.foldl_map, place]

theorem ofPairs_eq_self {pairs : Entries} (h : (Keyed.keys pairs).Nodup) :
    Keyed.ofPairs pairs = pairs := by
  suffices ∀ before, (Keyed.keys (before ++ pairs)).Nodup →
      pairs.foldl (fun m e => Keyed.put m e.1 e.2) before = before ++ pairs from this [] h
  induction pairs with
  | nil => simp
  | cons e pairs ih =>
    intro before hn
    have he : e.1 ∉ Keyed.keys before := by
      rw [Keyed.keys_append, List.nodup_append] at hn
      exact fun hm => hn.2.2 _ hm e.1 (by simp) rfl
    rw [List.foldl_cons, Keyed.put_of_notMem he, ih (List.nodup_cons.1 h).2 _ (by simpa using hn)]
    simp

theorem nodup_keys_of_ordered (h : Ordered (toTrails flat)) : (Keyed.keys flat).Nodup := by
  rw [Ordered, toTrails, List.pairwise_map] at h
  rw [Keyed.keys, List.nodup_iff_pairwise_ne, List.pairwise_map]
  refine h.imp fun {a b} hne (he : a.1 = b.1) => ?_
  exact hne (by simp [he])

theorem nodup_leavesUnder (h : Plain tree) : (Keyed.keys (leavesUnder "" tree)).Nodup :=
  nodup_keys_of_ordered (by rw [toTrails_leavesUnder h]; exact ordered_leavesOf h)

theorem flatten_eq (h : Plain tree) : flatten tree = leavesUnder "" tree :=
  ofPairs_eq_self (nodup_leavesUnder h)

theorem nodup_keys_flatten (h : Plain tree) : (Keyed.keys (flatten tree)).Nodup := by
  rw [flatten_eq h]
  exact nodup_leavesUnder h

theorem toTrails_flatten (h : Plain tree) : toTrails (flatten tree) = leavesOf tree := by
  rw [flatten_eq h, toTrails_leavesUnder h]

theorem ordered_flatten (h : Plain tree) : Ordered (toTrails (flatten tree)) := by
  rw [toTrails_flatten h]
  exact ordered_leavesOf h

/-- A plain tree is given back by its flat form. -/
theorem unflatten_flatten (h : Plain tree) : unflatten (flatten tree) = tree := by
  rw [unflatten_eq, toTrails_flatten h, build_leavesOf h]

/-! ## Looking up leaves -/

/-- The leaf at a trail. -/
def leafAt : Trail → Entries → Option Value
  | [], _ => none
  | [key], tree =>
    match Keyed.get? tree key with
    | some (.dict (_ :: _)) => none
    | found => found
  | key :: rest, tree => leafAt rest (entriesAt tree key)

theorem leafAt_cons_cons {next : String} : leafAt (key :: next :: trail) tree
    = leafAt (next :: trail) (entriesAt tree key) := rfl

@[simp] theorem leafAt_nil_right : leafAt trail [] = none := by
  induction trail with
  | nil => rfl
  | cons key trail ih =>
    cases trail with
    | nil => rfl
    | cons next rest => exact ih

/-- A lookup depends on what stands at its first key only. -/
theorem leafAt_congr {tree' : Entries} (h : Keyed.get? tree key = Keyed.get? tree' key) :
    leafAt (key :: trail) tree = leafAt (key :: trail) tree' := by
  cases trail with
  | nil => simp only [leafAt, h]
  | cons next rest => rw [leafAt_cons_cons, leafAt_cons_cons, entriesAt_eq, h, entriesAt_eq]

theorem mem_leavesOf_iff (h : Plain tree) :
    (trail, w) ∈ leavesOf tree ↔ leafAt trail tree = some w := by
  induction tree using tree_induction generalizing trail with
  | nil => simp
  | cons key v rest below ih =>
    rw [leavesOf_cons, List.mem_append, ih h.tail]
    cases trail with
    | nil => simp [leafAt]
    | cons k trail =>
      by_cases hk : k = key
      · subst hk
        -- Keys are distinct, so what comes after has nothing at this trail.
        have hrest : leafAt (k :: trail) rest = none := by
          have hg : Keyed.get? rest k = Keyed.get? [] k := Keyed.get?_eq_none_iff.2 h.notMem
          rw [leafAt_congr hg, leafAt_nil_right]
        have hmem : (k :: trail, w) ∈ v.trails.map (fun e => (k :: e.1, e.2))
            ↔ (trail, w) ∈ v.trails := by simp
        rw [hmem, hrest]
        rcases v.trails_cases with ⟨first, others, rfl, ht⟩ | ⟨hv, ht⟩ <;> rw [ht]
        · cases trail with
          | nil =>
            have : ([], w) ∉ leavesOf (first :: others) := fun hm => ne_nil_of_mem_leavesOf hm rfl
            simp [leafAt, Keyed.get?_cons, this]
          | cons next trail =>
            rw [below _ rfl h.head, leafAt_cons_cons, entriesAt_eq]
            simp [Keyed.get?_cons]
        · cases trail with
          | nil =>
            cases v with
            | dict entries => simp [leafAt, Keyed.get?_cons, hv entries rfl, eq_comm]
            | _ => simp [leafAt, Keyed.get?_cons, eq_comm]
          | cons next trail =>
            rw [leafAt_cons_cons, entriesAt_eq, Keyed.get?_cons]
            cases v with
            | dict entries => simp [hv entries rfl]
            | _ => simp [entriesIn]
      · have hne : (k :: trail, w) ∉ v.trails.map (fun e => (key :: e.1, e.2)) := by
          simp [Ne.symm hk]
        have hg : Keyed.get? ((key, v) :: rest) k = Keyed.get? rest k := by
          rw [Keyed.get?_cons, if_neg hk]
        simp [hne, leafAt_congr hg]

/-- The flat form of a plain tree holds its leaves under their paths. -/
theorem get?_flatten (h : Plain tree) (path : String) :
    Keyed.get? (flatten tree) path = leafAt (Path.segments path) tree := by
  refine Option.ext fun w => ?_
  rw [← mem_leavesOf_iff h, ← toTrails_flatten h, toTrails, List.mem_map]
  constructor
  · intro hg
    exact ⟨_, Keyed.mem_of_get? hg, rfl⟩
  · rintro ⟨e, he, heq⟩
    simp only [Prod.mk.injEq, Path.segments_inj] at heq
    obtain ⟨rfl, rfl⟩ := heq
    exact Keyed.get?_of_mem (nodup_keys_flatten h) he

end ModelTypes
