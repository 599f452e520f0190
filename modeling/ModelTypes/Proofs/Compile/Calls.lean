import ModelTypes.Proofs.Compile.Expansion
import ModelTypes.Proofs.Compile.Filled
import ModelTypes.Proofs.Compile.Uniqueness
import ModelTypes.Proofs.Schema.Mirror
import ModelTypes.Proofs.Tree.Fields
/-!
# Compiling between other operations

A call compiles, renders or expands a schema. Whatever it gives, it keeps everything but the trees
of schemas at or below that one, and of these trees the tidy ones. So calls on tidy schemas can be
put anywhere among other operations and change no answer. Schemas that mirror trees without dotted
keys are tidy; where a dotted key leads below an empty mapping, a call can change the next.
-/

namespace ModelTypes.Compile

/-! ## Tidy schemas -/

section Tidy

variable {v : Value} {tree : Entries} {lead path : String} {b : ChildBinding}

theorem leafAt_append {trail rest : Trail} (h : rest ≠ []) :
    leafAt (trail ++ rest) tree = leafAt rest (entriesBelow trail tree) := by
  induction trail generalizing tree with
  | nil => rfl
  | cons key trail ih =>
    obtain ⟨next, more, hn⟩ := List.exists_cons_of_ne_nil (l := trail ++ rest) (by simp [h])
    rw [List.cons_append, hn, leafAt_cons_cons, ← hn, ih]
    rfl

/-- In a plain tree no leaf stands below an empty mapping. -/
theorem not_isBelow_leaf (plain : Plain tree) {e f : String × Value}
    (he : e ∈ leavesUnder "" tree) (hollow : e.2 = .dict []) (hf : f ∈ leavesUnder "" tree) :
    ¬ Path.isBelow e.1 f.1 = true := by
  have leaf {e : String × Value} (he : e ∈ leavesUnder "" tree) :
      leafAt (Path.segments e.1) tree = some e.2 := by
    rw [← mem_leavesOf_iff plain, ← toTrails_leavesUnder plain]
    exact mem_toTrails he
  intro below
  obtain ⟨rest, hr⟩ := Path.isBelow_iff.1 below
  have found := leaf hf
  rw [hr, Path.segments_append, leafAt_append (Path.segments_ne_nil rest),
    entriesBelow_eq_nil (hollow ▸ leaf he), leafAt_nil_right] at found
  cases found

theorem exists_mem_leavesAt (v : Value) (path : String) : ∃ leaf, leaf ∈ v.leavesAt path := by
  cases v with
  | dict entries =>
    cases entries with
    | nil => exact ⟨_, List.mem_cons_self⟩
    | cons first others =>
      refine List.exists_mem_of_ne_nil _ ?_
      rw [Value.leavesAt, leavesUnder_eq]
      simp [leavesOf_ne_nil]
  | _ => exact ⟨_, List.mem_cons_self⟩

/-- Every child stands at a leaf or above one. -/
theorem exists_leaf_of_mem_childrenUnder (h : b ∈ childrenUnder lead tree) :
    ∃ leaf ∈ leavesUnder lead tree, Path.segments b.path <+: Path.segments leaf.1 := by
  induction tree using tree_induction generalizing lead with
  | nil => simp [childrenUnder] at h
  | cons key v rest below ih =>
    rw [childrenUnder, List.mem_append] at h
    simp only [leavesUnder, List.mem_append]
    obtain h | h := h
    · rcases field_cases {} "" (lead ++ key) v with ⟨type, _, -, hc, -⟩ | ⟨entries, rfl, hc, -⟩
      · rw [hc, Option.mem_toList] at h
        obtain ⟨leaf, hl⟩ := exists_mem_leavesAt v (lead ++ key)
        exact ⟨leaf, .inl hl, path_of_childAt? h ▸ segments_prefix_of_mem_leavesAt hl⟩
      · rw [hc] at h
        obtain ⟨leaf, hl, hp⟩ := below entries rfl h
        cases entries with
        | nil => simp [leavesUnder] at hl
        | cons first others => exact ⟨leaf, .inl hl, hp⟩
    · obtain ⟨leaf, hl, hp⟩ := ih h
      exact ⟨leaf, .inr hl, hp⟩

theorem isBelow_of_segments {top path path' : String} (h : Path.isBelow top path = true)
    (hp : Path.segments path <+: Path.segments path') : Path.isBelow top path' = true := by
  obtain ⟨rest, rfl⟩ := Path.isBelow_iff.1 h
  obtain rfl | below := Path.segments_prefix_iff.1 hp
  · exact h
  · obtain ⟨more, rfl⟩ := Path.isBelow_iff.1 below
    exact Path.isBelow_iff.2 ⟨rest ++ "." ++ more, by simp only [String.append_assoc]⟩

/-- A schema with the children of its plain tree is tidy. -/
theorem tidy_of_plain {schema : Schema} (plain : Plain schema.tree)
    (found : schema.children = childrenOf schema.tree) : schema.Tidy := by
  intro e he hollow path hpath
  obtain ⟨leaf, hl, hp⟩ : ∃ leaf ∈ leavesUnder "" schema.tree,
      Path.segments path <+: Path.segments leaf.1 := by
    rcases List.mem_append.1 hpath with hk | hc
    · obtain ⟨f, hf, rfl⟩ := List.mem_map.1 hk
      exact ⟨f, hf, List.prefix_rfl⟩
    · obtain ⟨b, hb, rfl⟩ := List.mem_map.1 hc
      rw [found] at hb
      exact exists_leaf_of_mem_childrenUnder hb
  refine Bool.eq_false_iff.2 fun below => ?_
  exact not_isBelow_leaf plain he (Value.isHollow_iff.1 hollow) hl (isBelow_of_segments below hp)

end Tidy

/-! ## Calls -/

/-- A call that reads a schema: it is compiled, its blocks or their text are rendered, or its
children are hoisted. -/
inductive Call where
  | compile (id : SchemaId) (model : String) (plainIds : Bool)
  | blocks (id : SchemaId) (model : String) (p : Projection) (header footer : String)
  | text (id : SchemaId) (model : String) (p : Projection) (header footer : String)
  | expand (id : SchemaId) (model : String) (p : Projection) (ancestry : List SchemaId)

/-- What an operation answers. -/
inductive Answer where
  | done
  | made (result : Except SchemaError SchemaId)
  | added (result : Except SchemaError Unit)
  | compiled (result : Except CompileError (List PairedBlock))
  | rendered (result : Except CompileError (List Block))
  | written (result : Except CompileError String)
  | expanded (result : Except CompileError (List Block × Entries))

namespace Call

def root : Call → SchemaId
  | compile id _ _ | blocks id _ _ _ _ | text id _ _ _ _ | expand id _ _ _ => id

/-- What a call answers, and the workspace it leaves. -/
def run (ws : Workspace) : Call → Answer × Workspace
  | compile id model plainIds =>
    ((Compile.compile id model plainIds).on ws).map .compiled fun ws => ws
  | blocks id model p header footer =>
    ((renderBlocks id model p header footer).on ws).map .rendered fun ws => ws
  | text id model p header footer =>
    ((renderText id model p header footer).on ws).map .written fun ws => ws
  | expand id model p ancestry =>
    ((Compile.expand id model p ancestry).on ws).map .expanded fun ws => ws

variable {ws : Workspace}

/-- A call fills trees of schemas at or below the one that it reads. -/
theorem filled (c : Call) (ws : Workspace) : Filled (Reaches ws c.root) ws (c.run ws).2 := by
  cases c with
  | compile => exact leaves_compile
  | blocks => exact leaves_renderBlocks
  | text => exact leaves_renderText
  | expand => exact leaves_expand

/-- All schemas that a call reaches are tidy. -/
def ReachesTidy (ws : Workspace) (c : Call) : Prop :=
  Throughout ws c.root fun x => (ws.schema x).Tidy

/-- Schemas that mirror plain trees are tidy. -/
theorem reachesTidy_of_plain {c : Call} (h : Throughout ws c.root fun x =>
    Plain (ws.schema x).tree ∧ (ws.schema x).Mirrors) : c.ReachesTidy ws :=
  fun x hx => tidy_of_plain (h x hx).1 (h x hx).2.children

theorem ReachesTidy.still {c : Call} (h : ReachesTidy ws c) : (c.run ws).2 = ws :=
  (c.filled ws).eq_of_tidy h

end Call

/-! ## Sequences of operations -/

/-- What can be done in a workspace. -/
inductive Operation where
  | edit (e : Workspace.Edit)
  | extendVirtual (id : SchemaId) (path : String) (getters setters : Nat)
  | call (c : Call)

namespace Operation

def run (ws : Workspace) : Operation → Answer × Workspace
  | edit (.create definition options functions) =>
    (ws.create definition options functions).map .made fun ws => ws
  | edit (.add id definition) => (ws.add id definition).map .added fun ws => ws
  | edit e => (.done, e.apply ws)
  | extendVirtual id path getters setters => (.done, ws.extendVirtual id path getters setters)
  | call c => c.run ws

/-- The answers of operations, one after the other, and the workspace that they leave. -/
def runAll (ws : Workspace) : List Operation → List Answer × Workspace
  | [] => ([], ws)
  | operation :: rest =>
    let (answer, ws) := operation.run ws
    let (answers, ws) := runAll ws rest
    (answer :: answers, ws)

/-- The same with calls put in between, of which the answers are left out. -/
def runBetween (ws : Workspace) : List (Operation ⊕ Call) → List Answer × Workspace
  | [] => ([], ws)
  | .inl operation :: rest =>
    let (answer, ws) := operation.run ws
    let (answers, ws) := runBetween ws rest
    (answer :: answers, ws)
  | .inr c :: rest => runBetween (c.run ws).2 rest

/-- Wherever a call is put in, it reaches tidy schemas only. -/
def CalmBetween (ws : Workspace) : List (Operation ⊕ Call) → Prop
  | [] => True
  | .inl operation :: rest => CalmBetween (operation.run ws).2 rest
  | .inr c :: rest => c.ReachesTidy ws ∧ CalmBetween (c.run ws).2 rest

/-- Calls on tidy schemas change no answer of the operations that they are put between. -/
theorem runBetween_eq {ws : Workspace} {items : List (Operation ⊕ Call)}
    (calm : CalmBetween ws items) :
    runBetween ws items = runAll ws (items.filterMap Sum.getLeft?) := by
  induction items generalizing ws with
  | nil => rfl
  | cons item rest ih =>
    cases item with
    | inl operation =>
      show ((operation.run ws).1 :: (runBetween (operation.run ws).2 rest).1,
        (runBetween (operation.run ws).2 rest).2) = _
      rw [ih calm]
      rfl
    | inr c =>
      obtain ⟨tidy, calm⟩ := calm
      rw [runBetween, ih calm, tidy.still]
      rfl

end Operation

/-- However it ends, all that a call does is to fill trees of schemas that it reaches. So it keeps
all but trees, and it keeps the trees that it does not reach and the tidy ones. If it reaches tidy
schemas only, it answers the same again, and put between other operations, with other such calls,
it changes no answer and nothing in the end. -/
theorem calls_keep_schemas (ws : Workspace) (c : Call) (items : List (Operation ⊕ Call)) :
    (Filled (Reaches ws c.root) ws (c.run ws).2 ∧ SameButTrees ws (c.run ws).2 ∧ ∀ x,
      ¬ Reaches ws c.root x ∨ (ws.schema x).Tidy → (c.run ws).2.schema x = ws.schema x) ∧
    (c.ReachesTidy ws → c.run (c.run ws).2 = c.run ws) ∧
    (Operation.CalmBetween ws items →
      Operation.runBetween ws items = Operation.runAll ws (items.filterMap Sum.getLeft?)) := by
  have filled := c.filled ws
  refine ⟨⟨filled, filled.sameButTrees, fun x hx => ?_⟩, fun tidy => ?_, Operation.runBetween_eq⟩
  · exact hx.elim filled.schema_eq filled.schema_eq_of_tidy
  · rw [tidy.still]

/-- Compiling a model and rendering it, before and after it gets a virtual. -/
theorem calls_keep_schemas_kin :
    let ws := kin "friend" "foes"
    let compiled : Call := .compile 2 "User" false
    let named : Operation := .edit (.addVirtual 2 "full.name")
    let items := [.inr compiled, .inl named, .inr compiled,
      .inr (.text 2 "User" { document := true } "" ""), .inl (.call compiled)]
    (compiled.ReachesTidy ws ∧ compiled.run (compiled.run ws).2 = compiled.run ws) ∧
      Operation.CalmBetween ws items ∧
      Operation.runBetween ws items = Operation.runAll ws [named, .call compiled] := by
  intro ws compiled named items
  have before (c : Call) : c.ReachesTidy ws := Call.reachesTidy_of_plain fun x _ =>
    Workspace.forall_schema (P := fun schema => Plain schema.tree ∧ schema.Mirrors)
      (by decide +kernel) (by decide) x
  have after (c : Call) : c.ReachesTidy (named.run ws).2 := fun x _ =>
    Workspace.forall_schema (P := Schema.Tidy) (by decide +kernel) (by decide) x
  have calm : Operation.CalmBetween ws items := by
    refine ⟨before compiled, ?_⟩
    rw [(before compiled).still]
    refine ⟨after compiled, ?_⟩
    rw [(after compiled).still]
    exact ⟨after _, trivial⟩
  obtain ⟨-, repeats, between⟩ := calls_keep_schemas ws compiled items
  exact ⟨⟨before compiled, repeats (before compiled)⟩, calm, between calm⟩

/-- A schema with an empty mapping, dotted keys that lead below it, and a child. -/
def overlapping : Workspace :=
  let friend := (Workspace.create {} (.dict [("name", .str "String")]) .null).2
  (friend.create (.dict [("a", .dict []), ("a.b", .str "String"), ("a.b.c", .str "Number"),
    ("friend", .schema 0)]) .null).2

theorem built_overlapping : overlapping.Built := by
  refine .create (.create .empty ⟨trivial, trivial⟩)
    ⟨trivial, trivial, trivial, ?friend, trivial⟩
  case friend =>
    show 0 < _
    decide +kernel

/-- The first compilation fills the mapping, so the second declares another field in it. -/
theorem calls_change_schemas : ¬ ∀ (ws ws₁ ws₂ : Workspace) (id : SchemaId) (model : String)
    (plainIds : Bool) (first second : List PairedBlock), ws.Built →
      (compile id model plainIds).on ws = (.ok first, ws₁) →
      (compile id model plainIds).on ws₁ = (.ok second, ws₂) → second = first := by
  intro repeats
  let again := ((compile 1 "User" true).on overlapping).2
  have returns : ((compile 1 "User" true).on overlapping).1.isOk = true := by decide +kernel
  have returns' : ((compile 1 "User" true).on again).1.isOk = true := by decide +kernel
  have differ : ((compile 1 "User" true).on again).1.toOption
      ≠ ((compile 1 "User" true).on overlapping).1.toOption := by decide +kernel
  obtain ⟨first, ws₁, h⟩ := ok_of_isOk returns
  obtain ⟨second, ws₂, h'⟩ := ok_of_isOk returns'
  have left : again = ws₁ := congrArg Prod.snd h
  have same := repeats _ _ _ _ _ _ _ _ built_overlapping h (left ▸ h')
  rw [h, h', same] at differ
  exact differ rfl

end ModelTypes.Compile
