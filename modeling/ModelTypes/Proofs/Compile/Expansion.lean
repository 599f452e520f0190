import ModelTypes.Proofs.Compile.References
import ModelTypes.Proofs.Value.Options
import ModelTypes.Schema.Build
/-!
# The expanded tree

If a schema's children are those found in its tree and the tree is plain, then its expanded tree is
the tree with a reference in the place of every child and nothing else changed (`expand_tree`).
-/

namespace ModelTypes.Compile

/-! ## Substitution in a tree -/

/-- The reference to a child that is declared with options: in a list if the child is an array. It
is required if the option says so, and has an undefined default if it is an array of which the
options say so. -/
def reference (s : Store) (model : String) (options : Entries) (b : ChildBinding) : Value :=
  let child : Value := .embedded
    { name := Naming.subdocumentName b.path model
      isArray := b.isArray
      required := decide (s.SaysTrue (Keyed.get? options "required"))
      defaultUndefined :=
        decide (b.isArray = true ∧ Store.SaysNull (Keyed.get? options "default")) } b.schema
  if b.isArray then .list [child] else child

/-- What stands in a parent for a child is the reference to it. -/
theorem reference_eq {s : Store} {model : String} {options : Entries} {b : ChildBinding} :
    reference s model options b = childValue
      { name := Naming.subdocumentName b.path model
        isArray := b.isArray
        required := saysTrue s (Keyed.get? options "required")
        defaultUndefined :=
          b.isArray && ((Keyed.get? options "default").map (·.isNull)).getD false } b := by
  have required : decide (s.SaysTrue (Keyed.get? options "required"))
      = saysTrue s (Keyed.get? options "required") :=
    Bool.eq_iff_iff.2 (by rw [decide_eq_true_iff, saysTrue, Store.saysTrue_iff])
  have undefined : decide (b.isArray = true ∧ Store.SaysNull (Keyed.get? options "default"))
      = (b.isArray && ((Keyed.get? options "default").map (·.isNull)).getD false) :=
    Bool.eq_iff_iff.2 (by rw [decide_eq_true_iff, Bool.and_eq_true, Store.saysNull_iff])
  rw [reference, childValue, required, undefined]

/-- A field of a type at `path`: a reference if the type is a child, else as it was. -/
def substituted (s : Store) (model path : String) (type : Value) (options : Entries)
    (own : Value) : Value :=
  match childAt? path type with
  | some b => reference s model options b
  | none => own

mutual

/-- A value with references in the places of the children in it. -/
def substitute (s : Store) (model path : String) : Value → Value
  | .dict entries =>
    match Keyed.get? entries "type" with
    | some type => substituted s model path type entries (.dict entries)
    | none => .dict (substituteUnder s model (path ++ ".") entries)
  | v => substituted s model path v [] v

def substituteUnder (s : Store) (model lead : String) : List (String × Value) → Entries
  | [] => []
  | (key, v) :: rest =>
    (key, substitute s model (lead ++ key) v) :: substituteUnder s model lead rest

end

@[simp] theorem substituteUnder_nil {s : Store} {model lead : String} :
    substituteUnder s model lead [] = [] := by simp [substituteUnder]

@[simp] theorem substituteUnder_cons {s : Store} {model lead key : String} {v : Value}
    {rest : Entries} : substituteUnder s model lead ((key, v) :: rest)
      = (key, substitute s model (lead ++ key) v) :: substituteUnder s model lead rest := by
  simp [substituteUnder]

/-- Substitution leaves the keys of a mapping and their order alone. -/
theorem keys_substituteUnder {s : Store} {model lead : String} {tree : Entries} :
    Keyed.keys (substituteUnder s model lead tree) = Keyed.keys tree := by
  induction tree with
  | nil => simp
  | cons e rest ih =>
    obtain ⟨key, v⟩ := e
    simp [ih]

theorem get?_substituteUnder {s : Store} {model lead key : String} {tree : Entries} :
    Keyed.get? (substituteUnder s model lead tree) key
      = (Keyed.get? tree key).map (substitute s model (lead ++ key)) := by
  induction tree with
  | nil => simp
  | cons e rest ih =>
    obtain ⟨k, v⟩ := e
    rw [substituteUnder_cons, Keyed.get?_cons, Keyed.get?_cons, ih]
    split
    · rename_i same
      rw [same]
      rfl
    · rfl

/-! ## References by trails -/

mutual

/-- The references to the children in a value, with their trails from there. -/
def referencesIn (s : Store) (model path : String) : Value → List (Trail × Value)
  | .dict entries =>
    match Keyed.get? entries "type" with
    | some type => (childAt? path type).toList.map fun b => ([], reference s model entries b)
    | none => referencesUnder s model (path ++ ".") entries
  | v => (childAt? path v).toList.map fun b => ([], reference s model [] b)

def referencesUnder (s : Store) (model lead : String) : List (String × Value) → List (Trail × Value)
  | [] => []
  | (key, v) :: rest =>
    ((referencesIn s model (lead ++ key) v).map fun e => (key :: e.1, e.2))
      ++ referencesUnder s model lead rest

end

/-- How a value is looked through for children: it is one field, or a mapping of several. -/
theorem field_cases (s : Store) (model path : String) (v : Value) :
    (∃ type options, (∀ key, Keyed.get? options key = Keyed.get? (entriesIn (some v)) key) ∧
      v.childrenAt path = (childAt? path type).toList ∧
      substitute s model path v = substituted s model path type options v ∧
      referencesIn s model path v
        = (childAt? path type).toList.map fun b => ([], reference s model options b)) ∨
    ∃ entries, v = .dict entries ∧ v.childrenAt path = childrenUnder (path ++ ".") entries ∧
      substitute s model path v = .dict (substituteUnder s model (path ++ ".") entries) ∧
      referencesIn s model path v = referencesUnder s model (path ++ ".") entries := by
  cases v with
  | dict entries =>
    cases ht : Keyed.get? entries "type" with
    | some type =>
      exact .inl ⟨type, entries, fun _ => rfl, by simp [Value.childrenAt, ht],
        by simp [substitute, ht], by simp [referencesIn, ht]⟩
    | none =>
      exact .inr ⟨entries, rfl, by simp [Value.childrenAt, ht], by simp [substitute, ht],
        by simp [referencesIn, ht]⟩
  | _ =>
    exact .inl ⟨_, [], fun _ => rfl, by rw [Value.childrenAt]; simp,
      by rw [substitute]; simp, by rw [referencesIn]; simp⟩

theorem path_of_childAt? {path : String} {type : Value} {b : ChildBinding}
    (h : childAt? path type = some b) : b.path = path := by
  unfold childAt? at h
  split at h <;> simp at h <;> rw [← h]

section Trails

variable {s : Store} {model lead : String} {keys : Trail} {flat tree : Entries}

/-- An option that is a mapping with entries, and so no leaf, does not say `true`. -/
theorem saysTrue_leafAt (key : String) :
    saysTrue s (leafAt [key] tree) = saysTrue s (Keyed.get? tree key) := by
  unfold leafAt
  split
  · rename_i hg
    simp [hg, saysTrue, Store.first?, Store.sequence?, Store.items?, Store.tuple?, Store.node?,
      Value.isTrue]
  · rfl

theorem isNull_leafAt (key : String) : ((leafAt [key] tree).map (·.isNull)).getD false
    = ((Keyed.get? tree key).map (·.isNull)).getD false := by
  unfold leafAt
  split
  · rename_i hg
    simp [hg, Value.isNull]
  · rfl

/-- What a child's reference takes from the flat form is what its options say. -/
theorem referenceTo_eq {options : Entries} {b : ChildBinding} {trail : Trail}
    (hpath : Path.segments b.path = trail)
    (found : ∀ path key, Path.segments path = trail ++ [key] →
      Keyed.get? flat path = leafAt [key] options) :
    referenceTo s model flat b = reference s model options b := by
  have hfound (key : String) (hkey : Path.DotFree key) :
      Keyed.get? flat (Path.child b.path key) = leafAt [key] options := by
    refine found _ _ ?_
    rw [Path.child, Path.segments_append, Path.segments_of_dotFree hkey, hpath]
  unfold referenceTo embeddingOf
  rw [hfound "required" (by decide), hfound "default" (by decide), saysTrue_leafAt,
    isNull_leafAt, reference_eq]

/-- The children found in a tree are referred to by what stands in the tree. -/
theorem map_childrenUnder (s : Store) (model : String) (plain : Plain tree)
    (hlead : ∀ key, Path.DotFree key → Path.segments (lead ++ key) = keys ++ [key])
    (found : ∀ path, ∀ key ∈ Keyed.keys tree, ∀ rest, Path.segments path = keys ++ key :: rest →
      Keyed.get? flat path = leafAt (key :: rest) tree) :
    ((childrenUnder lead tree).map fun b => (Path.segments b.path, referenceTo s model flat b))
      = (referencesUnder s model lead tree).map fun e => (keys ++ e.1, e.2) := by
  induction tree using tree_induction generalizing lead keys with
  | nil => simp [childrenUnder, referencesUnder]
  | cons key v rest below ih =>
    have hkey := hlead key plain.dotFree
    -- Paths below this key look up this entry, all others one of the entries after it.
    have own (path : String) (trail : Trail) (hp : Path.segments path = keys ++ key :: trail) :
        Keyed.get? flat path = leafAt (key :: trail) ((key, v) :: rest) :=
      found path key (by simp) trail hp
    have others := ih plain.tail hlead fun path k hk trail hp => by
      have hne : k ≠ key := fun he => plain.notMem (he ▸ hk)
      rw [found path k (List.mem_cons_of_mem _ hk) trail hp]
      exact leafAt_congr (by rw [Keyed.get?_cons, if_neg hne])
    have first : ((v.childrenAt (lead ++ key)).map fun b =>
        (Path.segments b.path, referenceTo s model flat b))
          = (referencesIn s model (lead ++ key) v).map fun e => (keys ++ key :: e.1, e.2) := by
      rcases field_cases s model (lead ++ key) v with
        ⟨type, options, ho, hc, -, hr⟩ | ⟨entries, rfl, hc, -, hr⟩
      · rw [hc, hr, List.map_map]
        apply List.map_congr_left
        intro b hb
        have hb := path_of_childAt? (Option.mem_toList.1 hb)
        have hpath : Path.segments b.path = keys ++ [key] := by rw [hb, hkey]
        rw [hpath, referenceTo_eq hpath fun path k hp => ?_]
        · rfl
        · rw [own path [k] (by simpa using hp), leafAt_cons_cons, entriesAt_eq, Keyed.get?_cons]
          simp only [leafAt, ho, if_true]
      · rw [hc, hr]
        have hlead' (k : String) (hk : Path.DotFree k) :
            Path.segments (lead ++ key ++ "." ++ k) = keys ++ [key] ++ [k] := by
          rw [Path.segments_append, hkey, Path.segments_of_dotFree hk]
        have hsub := below _ rfl plain.head hlead' fun path k _ trail hp => by
          rw [own path (k :: trail) (by simpa using hp), leafAt_cons_cons, entriesAt_eq,
            Keyed.get?_cons]
          simp
        simpa using hsub
    rw [childrenUnder, referencesUnder, List.map_append, List.map_append, first, others,
      List.map_map]
    rfl

/-! ## References do not interfere -/

theorem head_mem_of_mem_referencesUnder {e : Trail × Value}
    (h : e ∈ referencesUnder s model lead tree) : ∃ key ∈ Keyed.keys tree, [key] <+: e.1 := by
  induction tree with
  | nil => simp [referencesUnder] at h
  | cons f rest ih =>
    obtain ⟨key, v⟩ := f
    rw [referencesUnder] at h
    rcases List.mem_append.1 h with h | h
    · obtain ⟨_, _, rfl⟩ := List.mem_map.1 h
      exact ⟨key, by simp, by simp⟩
    · obtain ⟨k, hk, hp⟩ := ih h
      exact ⟨k, List.mem_cons_of_mem _ hk, hp⟩

theorem nil_notMem_referencesUnder : [] ∉ (referencesUnder s model lead tree).map (·.1) := by
  intro hm
  obtain ⟨e, he, hn⟩ := List.mem_map.1 hm
  obtain ⟨_, _, hp⟩ := head_mem_of_mem_referencesUnder he
  rw [hn] at hp
  simp at hp

theorem pairwise_referencesUnder (plain : Plain tree) :
    (referencesUnder s model lead tree).Pairwise fun e e' => ¬ e.1 <+: e'.1 ∧ ¬ e'.1 <+: e.1 := by
  induction tree using tree_induction generalizing lead with
  | nil => simp [referencesUnder]
  | cons key v rest below ih =>
    rw [referencesUnder]
    refine List.pairwise_append.2 ⟨?_, ih plain.tail, fun e he f hf => ?_⟩
    · rw [List.pairwise_map]
      rcases field_cases s model (lead ++ key) v with
        ⟨type, options, -, -, -, hr⟩ | ⟨entries, rfl, -, -, hr⟩ <;> rw [hr]
      · cases childAt? (lead ++ key) type <;> simp
      · simpa using below _ rfl plain.head
    · obtain ⟨e, -, rfl⟩ := List.mem_map.1 he
      obtain ⟨k, hk, ⟨more, hf⟩⟩ := head_mem_of_mem_referencesUnder hf
      have hne : key ≠ k := fun hc => plain.notMem (hc ▸ hk)
      rw [← hf, List.singleton_append, List.cons_prefix_cons, List.cons_prefix_cons]
      exact ⟨fun hc => hne hc.1, fun hc => hne hc.1.symm⟩

/-- Placing the references of a tree in it substitutes them. -/
theorem build_referencesUnder (plain : Plain tree) (before : Entries)
    (hb : ∀ key ∈ Keyed.keys tree, key ∉ Keyed.keys before) :
    build (referencesUnder s model lead tree) (before ++ tree)
      = before ++ substituteUnder s model lead tree := by
  induction tree using tree_induction generalizing lead before with
  | nil => simp [referencesUnder]
  | cons key v rest below ih =>
    have hkey : key ∉ Keyed.keys before := hb key (by simp)
    have hold : Keyed.get? (before ++ (key, v) :: rest) key = some v := by
      rw [Keyed.get?_append_of_notMem hkey, Keyed.get?_cons]
      simp
    have inner (entries : Entries) (hv : v = .dict entries) :
        build (referencesUnder s model (lead ++ key ++ ".") entries) entries
          = substituteUnder s model (lead ++ key ++ ".") entries := by
      subst hv
      simpa using below _ rfl plain.head [] (by simp)
    -- The references below this key change its entry only, and leave it where it stands.
    have first : build ((referencesIn s model (lead ++ key) v).map fun e => (key :: e.1, e.2))
        (before ++ (key, v) :: rest)
          = before ++ (key, substitute s model (lead ++ key) v) :: rest := by
      by_cases hne : referencesIn s model (lead ++ key) v = []
      · have hv : substitute s model (lead ++ key) v = v := by
          rcases field_cases s model (lead ++ key) v with
            ⟨type, options, -, -, hs, hr⟩ | ⟨entries, rfl, -, hs, hr⟩ <;> rw [hr] at hne <;> rw [hs]
          · have hnone : childAt? (lead ++ key) type = none := by simpa using hne
            rw [substituted, hnone]
          · rw [← inner _ rfl, hne, build_nil]
        rw [hne, hv]
        rfl
      · have hsettle : settle (referencesIn s model (lead ++ key) v) (some v)
            = some (substitute s model (lead ++ key) v) := by
          rcases field_cases s model (lead ++ key) v with
            ⟨type, options, -, -, hs, hr⟩ | ⟨entries, rfl, -, hs, hr⟩ <;> rw [hr] at hne ⊢ <;>
            rw [hs]
          · cases hc : childAt? (lead ++ key) type with
            | none => simp [hc] at hne
            | some b => simp [substituted, hc, within]
          · rw [settle_eq_dict hne nil_notMem_referencesUnder, entriesIn_dict, inner _ rfl]
        rw [build_map_cons hne (by rw [hold]; exact hsettle), Keyed.put_append_cons hkey]
    have split : before ++ (key, substitute s model (lead ++ key) v) :: rest
        = (before ++ [(key, substitute s model (lead ++ key) v)]) ++ rest := by simp
    rw [referencesUnder, build_append, first, split, ih plain.tail _ fun k hk => ?_]
    · simp
    · rw [Keyed.keys_append, List.mem_append, not_or]
      exact ⟨hb k (List.mem_cons_of_mem _ hk), by
        simpa using fun he : k = key => plain.notMem (he ▸ hk)⟩

theorem map_childrenOf (s : Store) (model : String) (plain : Plain tree) :
    ((childrenOf tree).map fun b =>
      (Path.segments b.path, referenceTo s model (flatten tree) b))
        = referencesUnder s model "" tree := by
  have hlead (key : String) (hk : Path.DotFree key) : Path.segments ("" ++ key) = [] ++ [key] := by
    simpa using Path.segments_of_dotFree hk
  have trails := map_childrenUnder s model plain hlead fun path key _ rest hp => by
    rw [get?_flatten plain, hp]
    rfl
  simpa [childrenOf] using trails

/-- Children found in a plain tree are apart. -/
theorem apart_childrenOf (plain : Plain tree) : Apart (childrenOf tree) := by
  have h : (referencesUnder {} "" "" tree).Pairwise _ := pairwise_referencesUnder plain
  rw [← map_childrenOf {} "" plain, List.pairwise_map] at h
  exact h

theorem references_childrenOf (plain : Plain tree) :
    references s model (flatten tree) (childrenOf tree) = referencesUnder s model "" tree := by
  rw [references_of_apart (apart_childrenOf plain), map_childrenOf s model plain]

/-- Hoisting the children found in a plain tree substitutes them in it. -/
theorem unflatten_hoisted_childrenOf (plain : Plain tree) :
    unflatten ((childrenOf tree).foldl (hoisted s model) (flatten tree))
      = substituteUnder s model "" tree := by
  rw [unflatten_foldl_hoisted (ordered_flatten plain), references_childrenOf plain,
    unflatten_flatten plain]
  simpa using build_referencesUnder plain [] (by simp)

end Trails

/-! ## Expansion -/

/-- Whenever a schema is expanded, under any name, in any projection and lineage, its tree comes
out with the references in the places of its children and unchanged otherwise. -/
theorem expand_tree {ws ws' : Workspace} {id : SchemaId} {model : String} {p : Projection}
    {ancestry : List SchemaId} {blocks : List Block} {tree : Entries}
    (plain : Plain (ws.schema id).tree)
    (found : (ws.schema id).children = childrenOf (ws.schema id).tree)
    (h : (expand id model p ancestry).on ws = (.ok (blocks, tree), ws')) :
    tree = substituteUnder ws.store model "" (ws.schema id).tree := by
  unfold expand at h
  obtain ⟨_, _, hget, h⟩ := bind_ok_iff.1 h
  simp only [get_on, Prod.mk.injEq, Except.ok.injEq] at hget
  obtain ⟨rfl, rfl⟩ := hget
  obtain ⟨flat, ws₁, hs, rfl, -⟩ := expandWith_ok (sound_entering _) h
  rw [hs.flat_eq, found, unflatten_hoisted_childrenOf plain]

/-- A schema with a required array of another, and with one of it that is not required. -/
def requiredArray : Workspace where
  schemas :=
    [{ tree := [("a", .dict [("type", .list [.schema 1]), ("required", .bool true)]), ("b", .int 1),
         ("c", .dict [("type", .schema 1), ("required", .bool false)])]
       children := [⟨"a", 1, true⟩, ⟨"c", 1, false⟩] },
     {}]

theorem expand_tree_requiredArray : ∃ blocks ws',
    (expand 0 "Ab" { document := false }).on requiredArray = (.ok (blocks,
      [("a", .list [.embedded ⟨"AbA", true, true, false⟩ 1]), ("b", .int 1),
        ("c", .embedded ⟨"AbC", false, false, false⟩ 1)]), ws') := by
  have returns : ((expand 0 "Ab" { document := false }).on requiredArray).1.isOk = true := by
    decide +kernel
  rcases h : (expand 0 "Ab" { document := false }).on requiredArray with ⟨_ | ⟨blocks, tree⟩, ws'⟩
  · rw [h] at returns
    cases returns
  · have plain : Plain (requiredArray.schema 0).tree := by
      simp [requiredArray, Workspace.schema, Plain, Value.Plain, PlainUnder]
      decide
    rw [expand_tree plain (by rfl) h]
    exact ⟨blocks, ws', rfl⟩

end ModelTypes.Compile
