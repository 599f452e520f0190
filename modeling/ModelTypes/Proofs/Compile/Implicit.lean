import Mathlib.Data.List.Nodup
import ModelTypes.Proofs.Compile.Rename
import ModelTypes.Proofs.Schema.Beforehand
import ModelTypes.Proofs.Schema.WellFormed
/-!
# Arrays of plain objects compile as arrays of schemas do

A definition that declares arrays of plain objects is compiled like the definition that declares, in
their places, arrays of the schemas made of these objects (`compile_implicit`).
-/

namespace ModelTypes

/-- An error without the value it shows. -/
def CompileError.bare : CompileError → CompileError
  | .field (.unsupported key _) => .field (.unsupported key .null)
  | .render (.unknownShape _) => .render (.unknownShape .null)
  | e => e

namespace Compile

/-- The declarations of a model, or the kind of the error, whatever value it shows. -/
def declarations (ws : Workspace) (id : SchemaId) (model : String) (plainIds : Bool) :
    Except CompileError (List PairedBlock) :=
  ((compile id model plainIds).on ws).1.mapError CompileError.bare

/-- The declarations of a model whose schema is made of a definition, or why there is no schema or
are no declarations. -/
def compileDefinition (ws : Workspace) (definition : Value) (model : String) (plainIds : Bool) :
    Except (SchemaError ⊕ CompileError) (List PairedBlock) :=
  match ws.create definition .null with
  | (.error e, _) => .error (.inl e)
  | (.ok id, ws) => (declarations ws id model plainIds).mapError .inr

variable {σ : SchemaId → SchemaId} {K : SchemaId → Prop} {ws ws' : Workspace}

theorem declarations_rename (h : Renamed σ K ws ws') {i : SchemaId} (hi : K i) (model : String)
    (plainIds : Bool) :
    declarations ws' (σ i) model plainIds = declarations ws i model plainIds := by
  have bare (e : CompileError) : (e.rename σ).bare = e.bare := by
    rcases e with (_ | _) | (_ | _) | _ | _ <;> rfl
  unfold declarations
  rw [(parallel_compile h hi plainIds).1]
  cases ((compile i model plainIds).on ws).1 with
  | error e => exact congrArg Except.error (bare e)
  | ok blocks => rfl

/-! ## The renaming -/

/-- Leaves what is below `n`, and leads from what follows to `M`. -/
def leading (n : Nat) (M : List SchemaId) (i : SchemaId) : SchemaId :=
  if i < n then i else M.getD (i - n) i

variable {n : Nat} {M : List SchemaId}

theorem leading_of_lt {i : SchemaId} (h : i < n) : leading n M i = i := if_pos h

theorem leading_add {j : Nat} (h : j < M.length) : leading n M (n + j) = M[j] := by
  rw [leading, if_neg (Nat.not_lt.2 (Nat.le_add_right n j)), Nat.add_sub_cancel_left]
  simp [List.getD_eq_getElem?_getD, h]

theorem map_leading : (List.range' n M.length).map (leading n M) = M := by
  refine List.ext_getElem (by simp) fun j hj _ => ?_
  simp only [List.length_map, List.length_range'] at hj
  simp [leading_add hj]

/-- A schema is among the first `e`, or among the `k` that follow the first `n`. -/
def Among (e n k : Nat) (i : SchemaId) : Prop := i < e ∨ ∃ j < k, i = n + j

/-- The renaming keeps apart what is older than all of `M` and what it leads to `M`. -/
theorem leading_injective {e i j : Nat} (nodup : M.Nodup) (above : ∀ k ∈ M, e ≤ k) (he : e ≤ n)
    (hi : Among e n M.length i) (hj : Among e n M.length j)
    (h : leading n M i = leading n M j) : i = j := by
  have low {k : Nat} (hk : k < e) : leading n M k = k := leading_of_lt (Nat.lt_of_lt_of_le hk he)
  have apart {k l : Nat} (hk : k < e) (hl : l < M.length) :
      leading n M k ≠ leading n M (n + l) := by
    rw [low hk, leading_add hl]
    exact Nat.ne_of_lt (Nat.lt_of_lt_of_le hk (above _ (List.getElem_mem hl)))
  rcases hi with hi | ⟨l, hl, rfl⟩ <;> rcases hj with hj | ⟨l', hl', rfl⟩
  · rwa [low hi, low hj] at h
  · exact absurd h (apart hi hl')
  · exact absurd h.symm (apart hj hl)
  · rw [leading_add hl, leading_add hl'] at h
    rw [nodup.getElem_inj_iff.1 h]

variable {m : Nat} {E L N N' : List Schema} {tree tree' : Entries} {ps : List Entries}
  {ids : List SchemaId} {s : Store}

theorem getElem?_older (isPrefix : E <+: L) {i : SchemaId} (hi : i < E.length) :
    (L ++ N)[i]? = E[i]? := by
  obtain ⟨others, rfl⟩ := isPrefix
  rw [List.append_assoc, List.getElem?_append_left hi]

theorem getElem?_newer (j : Nat) : (L ++ N)[L.length + j]? = N[j]? := by
  rw [List.getElem?_append_right (Nat.le_add_right _ _), Nat.add_sub_cancel_left]

/-- Two lists of schemas that go on differently are renamings of each other, as far as one of them
has counterparts in the other. -/
theorem renamed_leading (store : s.WellFormed L.length) (isPrefix : E <+: L)
    (older : ∀ schema ∈ E, schema.Mentions (· < E.length))
    (newer : ∀ schema ∈ N, schema.Mentions (Among E.length L.length N.length))
    (nodup : M.Nodup) (above : ∀ k ∈ M, E.length ≤ k)
    (each : Counterparts (leading L.length M) (L ++ N') N M) :
    Renamed (leading L.length M) (Among E.length L.length N.length) ⟨s, L ++ N⟩ ⟨s, L ++ N'⟩ := by
  have hlen := each.length_eq
  have hle := isPrefix.length_le
  refine ⟨rfl, store.fixed fun i hi => leading_of_lt hi, fun i j hi hj h => ?_, ?_, ?_, ?_⟩
  · rw [hlen] at hi hj
    exact leading_injective nodup above hle hi hj h
  · rintro i (hi | ⟨j, hj, rfl⟩) b hb
    · rw [Workspace.schema, getElem?_older isPrefix hi, List.getElem?_eq_getElem hi] at hb
      exact .inl ((older _ (List.getElem_mem hi)).child hb)
    · rw [Workspace.schema, getElem?_newer, List.getElem?_eq_getElem hj] at hb
      exact (newer _ (List.getElem_mem hj)).child hb
  · rintro i (hi | ⟨j, hj, rfl⟩)
    · exact Nat.lt_of_lt_of_le hi (by simp; omega)
    · simp [hj]
  · rintro i (hi | ⟨j, hj, rfl⟩)
    · have still : ∀ i < E.length, leading L.length M i = i := fun i hi =>
        leading_of_lt (Nat.lt_of_lt_of_le hi hle)
      rw [still i hi, getElem?_older isPrefix hi, getElem?_older isPrefix hi,
        List.getElem?_eq_getElem hi, Option.map_some, older _ (List.getElem_mem hi) _ still]
    · have hj' : j < M.length := hlen ▸ hj
      rw [leading_add hj', getElem?_newer, List.getElem?_eq_getElem hj, Option.map_some]
      exact each.get hj hj'

/-! ## Two schemas, one made of objects and one of schemas -/

theorem id_of_makeExplicit (made : ((makeExplicit tree).run L).2 = L ++ N) :
    Among E.length L.length N.length ((makeExplicit tree).run L).1 := by
  obtain ⟨N₁, -, h₁, -⟩ := shifts_implicitFields tree L L
  have before : ((makeExplicit tree).run L).1 = L.length + N₁.length := by
    show ((implicitFields tree).run L).2.length = _
    rw [h₁, List.length_append]
  have after : ((makeExplicit tree).run L).2 = (L ++ N₁) ++ [_] :=
    congrArg (· ++ [_]) h₁
  refine .inr ⟨N₁.length, ?_, before⟩
  rw [made, List.append_assoc, List.append_cancel_left_eq] at after
  simp [after]

/-- The schema made of the first tree, with what it embeds and all older schemas, stands again where
the schema is made of the second. -/
theorem renamed_of_treeWith (store : s.WellFormed L.length)
    (older : ∀ schema ∈ E, schema.Mentions (· < E.length))
    (makes : MakesAll E ps ids L) (known : KnownUnder m E.length tree)
    (with' : TreeWith tree tree' ps ids) :
    ∃ σ K, Renamed σ K ⟨s, ((makeExplicit tree).run L).2⟩ ⟨s, ((makeExplicit tree').run L).2⟩ ∧
      K ((makeExplicit tree).run L).1 ∧
        σ ((makeExplicit tree).run L).1 = ((makeExplicit tree').run L).1 := by
  obtain ⟨N, N', M, hN, hN', hlen, perm, alike⟩ := with'.meets_makeExplicit E L L L makes
  have hle : E.length ≤ L.length := makes.isPrefix.length_le
  have above (k : Nat) (hk : k ∈ M) : E.length ≤ k := by
    have := perm.mem_iff.1 hk
    simp only [List.mem_append, List.mem_range'_1] at this
    omega
  have nodup : M.Nodup := by
    rw [perm.nodup_iff, List.nodup_append']
    refine ⟨List.nodup_range', List.nodup_range', fun k hk hk' => ?_⟩
    rw [List.mem_range'_1] at hk hk'
    omega
  have newer (schema : Schema) (hs : schema ∈ N) :
      schema.Mentions (Among E.length L.length N.length) :=
    (shifts_makeExplicit tree).mentions hN (fun j hj => .inr ⟨j, hj, rfl⟩)
      (fun σ still => known.rename fun i hi => still i (.inl hi)) hs
  obtain ⟨result, counterparts⟩ := alike (leading L.length M)
    (known.rename fun i hi => leading_of_lt (Nat.lt_of_lt_of_le hi hle)) map_leading
  have each := counterparts (L ++ N') (List.prefix_append _ _) (List.prefix_refl _)
  have renamed := renamed_leading store makes.isPrefix older newer nodup above each
  rw [← hN, ← hN'] at renamed
  exact ⟨_, _, renamed, id_of_makeExplicit hN, result.symm⟩

theorem compileDefinition_of_copies {d : Value} {fields copies : List (String × Value)}
    (node : ws.store.node? d = some (.dict fields)) (distinct : (Keyed.keys fields).Nodup)
    (each : ws.store.CopiesUnder fields copies) (model : String) (plainIds : Bool) :
    compileDefinition ws d model plainIds =
      (declarations { ws with schemas := ((makeExplicit copies).run ws.schemas).2 }
        ((makeExplicit copies).run ws.schemas).1 model plainIds).mapError .inr := by
  rw [compileDefinition, Workspace.create_of_copies node distinct each]

theorem compileDefinition_error {d : Value} {fields : List (String × Value)}
    (node : ws.store.node? d = some (.dict fields))
    (none : ¬ ∃ copies, ws.store.CopiesUnder fields copies) (model : String) (plainIds : Bool) :
    compileDefinition ws d model plainIds = .error (.inl .containsItself) := by
  rw [compileDefinition, Workspace.create_error node none]

/-- A definition with arrays of plain objects, and one that is written with the schemas made of
these objects, have the same declarations, or fail alike; where one of the objects cannot be made
into a schema, neither can the definition. -/
theorem compile_implicit {s : Store} {d d' : Value} {fields fields' : List (String × Value)}
    {objects : List Value} (formed : ws.WellFormed)
    (written : ws.store.node? d = some (.dict fields)) (grown : ws.store.nodes <+: s.nodes)
    (written' : s.node? d' = some (.dict fields'))
    (replaced : FieldsWith s fields fields' objects ids) (model : String) (plainIds : Bool) :
    (∀ e, (ws.createAll objects).1 = .error e →
      compileDefinition ws d model plainIds = .error (.inl e)) ∧
    ∀ made, ws.createAll objects = (.ok ids, made) → s.WellFormed made.schemas.length →
      compileDefinition { made with store := s } d model plainIds
        = compileDefinition { made with store := s } d' model plainIds := by
  have agree := formed.store.agree grown
  obtain ⟨a, rfl, node⟩ := Store.node?_eq_some_iff.1 written
  obtain ⟨distinct, known⟩ := formed.store.node node
  have knownObjects := replaced.known agree known
  have plain : ∀ object ∈ objects, ws.store.IsObject object := fun object h => by
    obtain ⟨entries, hnode, several⟩ := replaced.isObject object h
    exact ⟨entries, (agree.node? (knownObjects object h)).symm.trans hnode, several⟩
  rcases Workspace.createAll_cases formed.store plain with
    ⟨ps, ids₁, L, own, makes, hcreate⟩ | ⟨⟨object, hobject, none⟩, hcreate⟩
  · refine ⟨fun e h => ?_, fun made h hs => ?_⟩ <;> rw [hcreate] at h <;> cases h
    replace own := own.agree agree knownObjects
    have stays : s.node? (.shared a) = some (.dict fields) :=
      (agree.node (List.getElem?_eq_some_iff.1 node).1).trans node
    by_cases copied : ∃ c, s.CopiesUnder fields c
    · obtain ⟨c, each⟩ := copied
      obtain ⟨c', ps', each', with', own'⟩ := replaced.copies each
      obtain rfl := own.unique own'
      have knownCopies := ((agree.copiesUnder_iff known).1 each).known formed.store known
      obtain ⟨σ, K, renamed, made, leads⟩ :=
        renamed_of_treeWith hs formed.schemas makes knownCopies with'
      obtain ⟨a', rfl, node'⟩ := Store.node?_eq_some_iff.1 written'
      rw [compileDefinition_of_copies stays distinct each,
        compileDefinition_of_copies written' (hs.node node').1 each']
      dsimp only
      rw [← leads, declarations_rename renamed made]
    · rw [compileDefinition_error stays copied]
      refine (compileDefinition_error written' (fun ⟨c', each'⟩ => copied ?_) model plainIds).symm
      exact replaced.copies_of each' fun object h => own.copied h
  · refine ⟨fun e h => ?_, fun made h => ?_⟩
    · rw [hcreate] at h
      cases h
      refine compileDefinition_error written (fun ⟨c, each⟩ => none ?_) model plainIds
      obtain ⟨_, ps, -, -, own⟩ := replaced.copies ((agree.copiesUnder_iff known).2 each)
      exact (own.agree agree.symm knownObjects).copied hobject
    · rw [h] at hcreate
      cases hcreate

/-- A definition with two arrays of plain objects: alone, and below another field with options. -/
def household : Workspace :=
  { store := { nodes := [
    .dict [("name", .str "String")],
    .list [.shared 0],
    .dict [("floor", .str "Number")],
    .list [.shared 2],
    .dict [("type", .shared 3), ("required", .bool true)],
    .dict [("rooms", .shared 4)],
    .dict [("lodgers", .shared 1), ("house", .shared 5)]] } }

/-- The same written with schemas. -/
def householdOfSchemas : Store :=
  { nodes := household.store.nodes ++ [
    .list [.schema 0],
    .list [.schema 1],
    .dict [("type", .shared 8), ("required", .bool true)],
    .dict [("rooms", .shared 9)],
    .dict [("lodgers", .shared 7), ("house", .shared 10)]] }

theorem formed_household : household.WellFormed := by
  refine .write .empty ?_
  simp [Store.WellFormed, Node.WellFormed, KnownAll, KnownUnder, Value.Known]

theorem fieldsWith_household : FieldsWith householdOfSchemas
    [("lodgers", .shared 1), ("house", .shared 5)] [("lodgers", .shared 7), ("house", .shared 10)]
    ([.shared 0] ++ (([.shared 2] ++ []) ++ [])) ([0] ++ (([1] ++ []) ++ [])) := by
  refine .cons (.array ⟨_, rfl, rfl⟩ rfl rfl) (.cons (.nested rfl rfl rfl (.cons ?_ .nil)) .nil)
  have type : "type" ∉ Keyed.keys ([] : Entries) := by simp
  exact .typed ⟨_, rfl, rfl⟩ type .nil (.cons ⟨rfl, rfl⟩ .nil) rfl rfl rfl rfl

theorem compile_implicit_household :
    ∃ made, household.createAll [.shared 0, .shared 2] = (.ok [0, 1], made) ∧
      (compileDefinition { made with store := householdOfSchemas } (.shared 6) "Home" false).isOk ∧
      ∀ model plainIds,
        compileDefinition { made with store := householdOfSchemas } (.shared 6) model plainIds
          = compileDefinition { made with store := householdOfSchemas } (.shared 11) model
            plainIds := by
  have ids : (household.createAll [.shared 0, .shared 2]).1.toOption = some [0, 1] := by
    decide +kernel
  have two : (household.createAll [.shared 0, .shared 2]).2.schemas.length = 2 := by
    decide +kernel
  have succeeds : (compileDefinition { (household.createAll [.shared 0, .shared 2]).2 with
      store := householdOfSchemas } (.shared 6) "Home" false).isOk := by
    decide +kernel
  rcases h : household.createAll [.shared 0, .shared 2] with ⟨_ | ids', made⟩ <;>
    rw [h] at ids two succeeds <;> cases ids
  refine ⟨made, rfl, succeeds, fun model plainIds => ?_⟩
  refine (compile_implicit formed_household rfl ⟨_, rfl⟩ rfl fieldsWith_household model
    plainIds).2 made h ?_
  rw [two]
  simp [household, Store.WellFormed, Node.WellFormed, KnownAll, KnownUnder, Value.Known]

end Compile
end ModelTypes
