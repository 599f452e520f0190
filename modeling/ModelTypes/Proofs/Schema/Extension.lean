import ModelTypes.Proofs.Schema.Fresh
import ModelTypes.Proofs.Tree.Frame
/-!
# Adding fields to a schema

An addition goes by the keys of its definition: what stands under each of them is replaced by what
the definition gives there, and every other field stays as it is, with its leaves and its children
(`add_frame`). So an object is replaced as a whole if one of its fields is added anew.
-/

namespace ModelTypes

variable {tree tree' : Entries} {v : Value} {lead path key : String} {b : ChildBinding}

/-! ## Fields under other keys -/

theorem settledUnder_filter (keep : String × Value → Bool) (h : settledUnder tree = true) :
    settledUnder (tree.filter keep) = true := by
  induction tree with
  | nil => rfl
  | cons e rest ih =>
    rw [settledUnder, Bool.and_eq_true] at h
    rw [List.filter_cons]
    split
    · rw [settledUnder, h.1, ih h.2]
      rfl
    · exact ih h.2

/-! ## Children under other keys -/

theorem mem_childrenUnder_iff :
    b ∈ childrenUnder lead tree ↔ ∃ e ∈ tree, b ∈ e.2.childrenAt (lead ++ e.1) := by
  induction tree with
  | nil => simp [childrenUnder]
  | cons e rest ih => simp [childrenUnder, ih]

theorem segments_prefix_of_mem_childAt? (h : b ∈ (childAt? path v).toList) :
    Path.segments path <+: Path.segments b.path := by
  have own : b.path = path := by
    unfold childAt? at h
    split at h <;> simp at h <;> rw [h]
  exact own ▸ List.prefix_rfl

mutual

/-- The children of a field stand at its key or below it. -/
theorem segments_prefix_of_mem_childrenAt {b : ChildBinding} (path : String) : ∀ v : Value,
    b ∈ v.childrenAt path → Path.segments path <+: Path.segments b.path
  | .dict entries, h => by
    have below := segments_prefix_of_mem_childrenUnder (b := b) path entries
    rw [Value.childrenAt] at h
    split at h
    · exact segments_prefix_of_mem_childAt? h
    · exact below h
  | .list items, h => segments_prefix_of_mem_childAt? (v := .list items) h
  | .schema id, h => segments_prefix_of_mem_childAt? (v := .schema id) h
  | .null, h | .bool _, h | .int _, h | .float _, h | .str _, h | .kind _, h | .bytes _, h
  | .marker _, h | .function, h | .member _ _, h | .virtual _ _, h | .shared _, h
  | .embedded _ _, h => by cases h

theorem segments_prefix_of_mem_childrenUnder {b : ChildBinding} (path : String) :
    ∀ tree : List (String × Value), b ∈ childrenUnder (path ++ ".") tree →
      Path.segments path <+: Path.segments b.path
  | [], h => by
    rw [childrenUnder] at h
    cases h
  | (key, v) :: rest, h => by
    rw [childrenUnder, List.mem_append] at h
    rcases h with h | h
    · have below := segments_prefix_of_mem_childrenAt (path ++ "." ++ key) v h
      rw [Path.segments_append] at below
      exact (List.prefix_append _ _).trans below
    · exact segments_prefix_of_mem_childrenUnder path rest h

end

/-- A child whose path is apart from some keys is one of the fields under the others. -/
theorem mem_childrenOf_filter_iff (keep : String → Bool)
    (h : ∀ key, keep key = false → Path.Apart key b.path) :
    b ∈ childrenOf (tree.filter fun e => keep e.1) ↔ b ∈ childrenOf tree := by
  unfold childrenOf
  rw [mem_childrenUnder_iff, mem_childrenUnder_iff]
  constructor
  · rintro ⟨e, he, hb⟩
    exact ⟨e, (List.mem_filter.1 he).1, hb⟩
  · rintro ⟨e, he, hb⟩
    refine ⟨e, List.mem_filter.2 ⟨he, ?_⟩, hb⟩
    by_contra other
    have below := segments_prefix_of_mem_childrenAt _ _ hb
    rw [String.empty_append] at below
    exact Path.apart_iff.1 (h e.1 (Bool.eq_false_iff.2 other)) below

namespace Workspace

variable {ws : Workspace} {id : SchemaId} {definition : Value} {fields : Entries}

/-! ## Settled schemas -/

/-- No schema has an array of a plain object left in its tree. -/
def Settled (ws : Workspace) : Prop := ∀ id, settledUnder (ws.schema id).tree = true

theorem Settled.append {made : List Schema} (h : ws.Settled)
    (fresh : FreshFrom ws.schemas.length made) :
    ({ ws with schemas := ws.schemas ++ made } : Workspace).Settled := by
  intro id
  by_cases hid : id < ws.schemas.length
  · rw [schema_append hid]
    exact h id
  · rcases fresh_append fresh (Nat.le_of_not_lt hid) with none | own
    · rw [none]
      rfl
    · exact own.mirrors.settled

theorem Settled.update {f : Schema → Schema} (h : ws.Settled)
    (own : settledUnder (f (ws.schema id)).tree = true) : (ws.update id f).Settled := by
  intro other
  rw [Compile.schema_update]
  split
  · exact own
  · exact h other

/-- The edit is no addition that fails. -/
def Edit.succeeds (ws : Workspace) : Edit → Bool
  | add id definition => (ws.add id definition).1.isOk
  | _ => true

/-- None of some edits is an addition that fails. -/
def allSucceed : Workspace → List Edit → Bool
  | _, [] => true
  | ws, edit :: rest => edit.succeeds ws && allSucceed (edit.apply ws) rest

theorem Settled.apply (edit : Edit) (h : ws.Settled) (ok : edit.succeeds ws = true) :
    (edit.apply ws).Settled := by
  cases edit with
  | write store => exact h
  | create definition options functions =>
    obtain ⟨made, fresh, applied⟩ := apply_create ws definition options functions
    rw [applied]
    exact h.append fresh
  | add target definition =>
    obtain ⟨_, _, tree, made, -, -, -, settled, fresh, hadd⟩ := add_ok ok
    rw [Edit.apply, hadd]
    exact (h.append fresh).update settled
  | addVirtual target path =>
    refine h.update ?_
    split
    · exact h target
    · exact settledUnder_placeAt _ (h target)

/-- As long as no addition fails, all arrays of plain objects are converted. -/
theorem settled_edited (edits : List Edit) (ok : allSucceed {} edits = true) :
    (edited {} edits).Settled := by
  suffices general : ∀ ws : Workspace, ws.Settled → allSucceed ws edits = true →
      (edited ws edits).Settled from general {} (fun _ => rfl) ok
  clear ok
  induction edits with
  | nil => exact fun ws h _ => h
  | cons edit rest ih =>
    intro ws h ok
    rw [allSucceed, Bool.and_eq_true] at ok
    exact ih _ (h.apply edit ok.1) ok.2

/-! ## Additions -/

/-- The fields of two trees that are not under some keys. -/
def SameBut (keys : List String) (tree tree' : Entries) : Prop :=
  tree'.filter (fun e => decide (e.1 ∉ keys)) = tree.filter fun e => decide (e.1 ∉ keys)

variable {keys : List String}

/-- Putting in fields changes those under their keys only. -/
theorem sameBut_foldl_put {copies : Entries} :
    SameBut (Keyed.keys copies) tree (copies.foldl (fun m e => Keyed.put m e.1 e.2) tree) := by
  have own (e) (he : e ∈ copies) : e.1 ∈ Keyed.keys copies := List.mem_map_of_mem he
  have none : copies.filter (fun e => decide (e.1 ∉ Keyed.keys copies)) = [] :=
    List.filter_eq_nil_iff.2 fun e he => by simpa using own e he
  refine (Keyed.filter_foldl_put fun key => decide (key ∉ Keyed.keys copies)).trans ?_
  rw [none, List.foldl_nil]

theorem SameBut.get?_flatten {q : String} (h : SameBut keys tree tree')
    (apart : ∀ key ∈ keys, Path.Apart key q) :
    Keyed.get? (flatten tree') q = Keyed.get? (flatten tree) q :=
  get?_flatten_of_filter_eq (fun key => decide (key ∉ keys)) h fun key hk =>
    apart key (by simpa using hk)

theorem SameBut.mem_childrenOf_iff (h : SameBut keys tree tree')
    (apart : ∀ key ∈ keys, Path.Apart key b.path) :
    b ∈ childrenOf tree' ↔ b ∈ childrenOf tree := by
  have others (entries : Entries) :
      b ∈ childrenOf (entries.filter fun e => decide (e.1 ∉ keys)) ↔ b ∈ childrenOf entries :=
    mem_childrenOf_filter_iff (fun key => decide (key ∉ keys)) fun key hk =>
      apart key (by simpa using hk)
  rw [← others tree', h, others]

/-- Additions to a schema without arrays of plain objects replace the fields under the keys of the
definition, and leave the others as they are. -/
theorem add_sameBut (made : id < ws.schemas.length)
    (settled : settledUnder (ws.schema id).tree = true)
    (ok : (ws.add id definition).1.isOk = true) :
    ∃ fields copies, ws.store.entries? definition = some fields ∧
      ws.store.CopiesUnder fields copies ∧
      SameBut (Keyed.keys fields) (ws.schema id).tree ((ws.add id definition).2.schema id).tree ∧
      (∀ key v, Keyed.get? (Keyed.ofPairs copies) key = some v → ∃ v',
        Keyed.get? ((ws.add id definition).2.schema id).tree key = some v' ∧ v.Converts v') ∧
      ((ws.add id definition).2.schema id).children
        = childrenOf ((ws.add id definition).2.schema id).tree := by
  obtain ⟨fields, copies, tree, schemas, hf, each, converts, -, fresh, hadd⟩ := add_ok ok
  have length : id < (ws.schemas ++ schemas).length := by
    rw [List.length_append]
    exact Nat.lt_add_right _ made
  rw [hadd]
  dsimp only
  rw [Compile.schema_update, if_pos ⟨rfl, length⟩]
  refine ⟨fields, copies, hf, each, ?_, fun key v hv => ?_, rfl⟩
  · have put : SameBut (Keyed.keys fields) (ws.schema id).tree
        (copies.foldl (fun m e => Keyed.put m e.1 e.2) (ws.schema id).tree) :=
      each.keys ▸ sameBut_foldl_put
    -- Conversion is of the whole tree, but the other fields have nothing left to convert.
    have rest := settledUnder_filter (fun e => decide (e.1 ∉ Keyed.keys fields)) settled
    rw [← put] at rest
    exact (converts.filter_eq (fun key => decide (key ∉ Keyed.keys fields)) rest).trans put
  · have mem : key ∈ Keyed.keys copies := by
      have mem := Keyed.get?_isSome_iff.1 (Option.isSome_iff_exists.2 ⟨v, hv⟩)
      simpa [Keyed.ofPairs] using (Keyed.mem_keys_foldl_put (m := [])).1 mem
    exact converts.get? ((Keyed.get?_foldl_put_of_mem mem).trans hv)

/-- Whatever came before, if no addition failed, an addition that succeeds puts under each key of
its definition what the definition gives there, and leaves every field under another key as it is,
and with these the flat form and the children of the tree wherever no key of the definition
leads. -/
theorem add_frame (edits : List Edit) (succeeded : allSucceed {} edits = true) (id : SchemaId)
    (made : id < (edited {} edits).schemas.length) (definition : Value)
    (ok : ((edited {} edits).add id definition).1.isOk = true) :
    let ws := edited {} edits
    let before := ws.schema id
    let after := (ws.add id definition).2.schema id
    ∃ fields copies, ws.store.entries? definition = some fields ∧
      ws.store.CopiesUnder fields copies ∧
      (∀ key v, Keyed.get? (Keyed.ofPairs copies) key = some v →
        ∃ v', Keyed.get? after.tree key = some v' ∧ v.Converts v') ∧
      SameBut (Keyed.keys fields) before.tree after.tree ∧
      (∀ q, (∀ key ∈ Keyed.keys fields, Path.Apart key q) →
        Keyed.get? (flatten after.tree) q = Keyed.get? (flatten before.tree) q) ∧
      ∀ b ∈ before.children, b ∈ childrenOf before.tree →
        (∀ key ∈ Keyed.keys fields, Path.Apart key b.path) → b ∈ after.children := by
  intro ws before after
  obtain ⟨fields, copies, hf, each, same, given, children⟩ :=
    add_sameBut made (settled_edited edits succeeded id) ok
  refine ⟨fields, copies, hf, each, given, same, fun q apart => same.get?_flatten apart,
    fun b _ hb apart => ?_⟩
  show b ∈ after.children
  rw [show after.children = childrenOf after.tree from children]
  exact (same.mem_childrenOf_iff apart).2 hb

/-- A schema with an object that has a virtual in it, and a child schema beside it. -/
def addressed : List Edit :=
  [.create (.dict [("city", .str "String")]) .null {},
   .create (.dict [("name", .dict [("first", .str "String")]), ("address", .schema 0)]) .null {},
   .addVirtual 1 "name.full"]

/-- One more field leaves the object with its virtual and the child alone. -/
theorem add_frame_addressed :
    let ws := edited {} addressed
    let after := (ws.add 1 (.dict [("age", .str "Number")])).2.schema 1
    allSucceed {} addressed = true ∧ 1 < ws.schemas.length ∧
      (ws.add 1 (.dict [("age", .str "Number")])).1.isOk = true ∧
      Keyed.get? (flatten after.tree) "name.first"
        = Keyed.get? (flatten (ws.schema 1).tree) "name.first" ∧
      ∀ b ∈ (ws.schema 1).children, b ∈ childrenOf (ws.schema 1).tree → b.path = "address" →
        b ∈ after.children := by
  have succeeded : allSucceed {} addressed = true := by decide +kernel
  have made : 1 < (edited {} addressed).schemas.length := by decide +kernel
  have ok : ((edited {} addressed).add 1 (.dict [("age", .str "Number")])).1.isOk = true := by
    decide +kernel
  obtain ⟨fields, -, hf, -, -, -, frame, kept⟩ :=
    add_frame addressed succeeded 1 made (.dict [("age", .str "Number")]) ok
  obtain rfl : [("age", Value.str "Number")] = fields := Option.some.inj hf
  refine ⟨succeeded, made, ok, frame _ (by decide +kernel), fun b hb there hp => ?_⟩
  exact kept b hb there (hp ▸ by decide +kernel)

/-- An object that gets one more field loses those it had. -/
theorem add_frame_fails : ¬ ∀ edits : List Edit, allSucceed {} edits = true →
    ∀ id < (edited {} edits).schemas.length, ∀ fields : Entries,
      ((edited {} edits).add id (.dict fields)).1.isOk = true →
        let before := (edited {} edits).schema id
        let after := ((edited {} edits).add id (.dict fields)).2.schema id
        ∀ q v, Keyed.get? (flatten before.tree) q = some v →
          (∀ f ∈ Keyed.keys (flatten fields), Path.Apart f q ∧ Path.Apart q f) →
            Keyed.get? (flatten after.tree) q = some v := by
  intro keeps
  let edits : List Edit :=
    [.create (.dict [("name", .dict [("first", .str "String")])]) .null {}]
  let fields : Entries := [("name", .dict [("last", .str "String")])]
  have before : ((Keyed.get? (flatten ((edited {} edits).schema 0).tree) "name.first").bind
      Value.text?) = some "String" := by decide +kernel
  have after : (Keyed.get? (flatten
      (((edited {} edits).add 0 (.dict fields)).2.schema 0).tree) "name.first").isNone = true := by
    decide +kernel
  obtain ⟨v, hv, -⟩ := Option.bind_eq_some_iff.1 before
  have kept := keeps edits (by decide +kernel) 0 (by decide +kernel) fields (by decide +kernel)
    "name.first" v hv (by decide +kernel)
  rw [kept] at after
  cases after

end Workspace
end ModelTypes
