import ModelTypes.Proofs.Tree.Place
import ModelTypes.Schema.Children
/-!
# The children of a tree that is written to

Writing one key keeps the children of a tree exactly if the value there has the children that stood
there (`childrenUnder_put_eq_iff`). So a virtual may be placed wherever it takes none away
(`Mirrors.placeAt_iff`).
-/

namespace ModelTypes

/-! ## What mirrors what -/

/-- An array of one plain object, which is to become an array of a schema. -/
def Value.isImplicit : Value → Bool
  | .list [.dict entries] => isPlainObject entries
  | _ => false

mutual

/-- No array of a plain object is left where children are looked for in a value. -/
def Value.settled : Value → Bool
  | .dict entries =>
    match Keyed.get? entries "type" with
    | some type => !type.isImplicit
    | none => settledUnder entries
  | v => !v.isImplicit

def settledUnder : List (String × Value) → Bool
  | [] => true
  | (_, v) :: rest => v.settled && settledUnder rest

end

/-- The children that a tree is said to have are those it has, and its arrays are converted. -/
structure Mirrors (children : List ChildBinding) (tree : Entries) : Prop where
  children : children = childrenOf tree
  settled : settledUnder tree = true

instance (children : List ChildBinding) (tree : Entries) : Decidable (Mirrors children tree) :=
  decidable_of_iff (children = childrenOf tree ∧ settledUnder tree = true)
    ⟨fun h => ⟨h.1, h.2⟩, fun h => ⟨h.1, h.2⟩⟩

/-- The children in what stands at a path, if anything does. -/
def childrenIn (path : String) : Option Value → List ChildBinding
  | none => []
  | some v => v.childrenAt path

/-- Nothing stands there, or nothing with a child. -/
def childless (old : Option Value) : Bool := (childrenIn "" old).isEmpty

/-- Placing a value without children at a trail takes no child away: it replaces nothing that has
one, and turns no mapping that has one into the type of a field. -/
def spares : Trail → Entries → Bool
  | [], _ => true
  | [key], tree => childless (Keyed.get? tree key)
  | key :: next :: rest, tree =>
    match Keyed.get? tree key with
    | some (.dict entries) =>
      if next = "type" then childless (some (.dict entries))
      else Keyed.has entries "type" || spares (next :: rest) entries
    | old => childless old

variable {lead path key : String} {v w : Value} {old : Option Value} {tree entries : Entries}
  {children : List ChildBinding} {trail : Trail}

/-! ## Writing one key -/

theorem childrenUnder_put_eq_iff :
    childrenUnder lead (Keyed.put tree key v) = childrenUnder lead tree ↔
      v.childrenAt (lead ++ key) = childrenIn (lead ++ key) (Keyed.get? tree key) := by
  induction tree with
  | nil => simp [childrenUnder, childrenIn]
  | cons e rest ih =>
    obtain ⟨first, w⟩ := e
    rw [Keyed.put, Keyed.get?_cons]
    by_cases hk : first = key
    · subst hk
      simp [childrenUnder, childrenIn]
    · rw [if_neg hk, if_neg (Ne.symm hk)]
      simp only [childrenUnder, List.append_cancel_left_eq]
      exact ih

theorem settledUnder_put (h : settledUnder tree = true) (hv : v.settled = true) :
    settledUnder (Keyed.put tree key v) = true := by
  induction tree with
  | nil => simp [settledUnder, hv]
  | cons e rest ih =>
    obtain ⟨first, w⟩ := e
    simp only [settledUnder, Bool.and_eq_true] at h
    rw [Keyed.put]
    split
    · simp [settledUnder, hv, h.2]
    · simp [settledUnder, h.1, ih h.2]

theorem settled_of_get? (h : settledUnder tree = true) (hv : Keyed.get? tree key = some v) :
    v.settled = true := by
  induction tree with
  | nil => simp at hv
  | cons e rest ih =>
    obtain ⟨first, w⟩ := e
    simp only [settledUnder, Bool.and_eq_true] at h
    rw [Keyed.get?_cons] at hv
    split at hv
    · exact Option.some.inj hv ▸ h.1
    · exact ih h.2 hv

theorem Mirrors.put (h : Mirrors children tree) (settled : v.settled = true)
    (same : v.childrenAt key = childrenIn key (Keyed.get? tree key)) :
    Mirrors children (Keyed.put tree key v) where
  children := h.children.trans (childrenUnder_put_eq_iff.2 (by simpa using same)).symm
  settled := settledUnder_put h.settled settled

/-! ## Whether there are children does not depend on the path -/

mutual

theorem length_childrenAt (path path' : String) : ∀ v : Value,
    (v.childrenAt path).length = (v.childrenAt path').length
  | .dict entries => by
    have below := length_childrenUnder (path ++ ".") (path' ++ ".") entries
    rw [Value.childrenAt, Value.childrenAt]
    split
    · exact length_toList_childAt? _ _ _
    · exact below
  | .list _ => length_toList_childAt? _ _ _
  | .null | .bool _ | .int _ | .float _ | .str _ | .kind _ | .bytes _ | .marker _ | .function
  | .member _ _ | .virtual _ _ | .schema _ | .shared _ | .embedded _ _ => rfl
where
  length_toList_childAt? (path path' : String) (v : Value) :
      (childAt? path v).toList.length = (childAt? path' v).toList.length := by
    unfold childAt?
    split <;> rfl

theorem length_childrenUnder (lead lead' : String) : ∀ tree : List (String × Value),
    (childrenUnder lead tree).length = (childrenUnder lead' tree).length
  | [] => rfl
  | (key, v) :: rest => by
    rw [childrenUnder, childrenUnder, List.length_append, List.length_append,
      length_childrenAt _ (lead' ++ key) v, length_childrenUnder lead lead' rest]

end

theorem childless_iff (path : String) : childless old = true ↔ childrenIn path old = [] := by
  unfold childless
  rw [List.isEmpty_iff, ← List.length_eq_zero_iff, ← List.length_eq_zero_iff]
  cases old with
  | none => rfl
  | some v =>
    show (v.childrenAt "").length = 0 ↔ (v.childrenAt path).length = 0
    rw [length_childrenAt "" path]

/-! ## Placing a virtual -/

variable {p : String} {owner : Option SchemaId}

/-- A virtual is no child, and neither is a mapping that holds it. -/
theorem childAt?_within_virtual (rest : Trail) (old : Option Value) (path : String) :
    childAt? path (within rest (.virtual p owner) old) = none := by
  cases rest <;> rfl

theorem isImplicit_within_virtual (rest : Trail) (old : Option Value) :
    (within rest (.virtual p owner) old).isImplicit = false := by
  cases rest <;> rfl

theorem childrenAt_dict_of_type (h : Keyed.get? entries "type" = some w) :
    (Value.dict entries).childrenAt path = (childAt? path w).toList := by
  rw [Value.childrenAt, h]

theorem childrenAt_dict (h : Keyed.get? entries "type" = none) :
    (Value.dict entries).childrenAt path = childrenUnder (path ++ ".") entries := by
  rw [Value.childrenAt, h]

theorem childrenAt_placeAt_type (rest : Trail) (entries : Entries) :
    (Value.dict (placeAt ("type" :: rest) (.virtual p owner) entries)).childrenAt path = [] := by
  rw [placeAt_cons, childrenAt_dict_of_type Keyed.get?_put_self, childAt?_within_virtual]
  rfl

/-- Mappings made for a virtual have no children. -/
theorem childrenAt_placeAt_nil (trail : Trail) (path : String) :
    (Value.dict (placeAt trail (.virtual p owner) [])).childrenAt path = [] := by
  induction trail generalizing path with
  | nil => rfl
  | cons key rest ih =>
    by_cases hk : key = "type"
    · rw [hk, childrenAt_placeAt_type]
    · rw [placeAt_cons, childrenAt_dict ((Keyed.get?_put_of_ne (Ne.symm hk)).trans rfl),
        Keyed.put_nil, childrenUnder, childrenUnder, List.append_nil]
      cases rest with
      | nil => rfl
      | cons next rest => exact ih _

/-- Placing a virtual keeps the children of a tree exactly if it spares them. -/
theorem childrenUnder_placeAt_eq_iff (trail : Trail) (tree : Entries) (lead : String) :
    childrenUnder lead (placeAt trail (.virtual p owner) tree) = childrenUnder lead tree ↔
      spares trail tree = true := by
  induction trail generalizing tree lead with
  | nil => simp [placeAt, spares]
  | cons key rest ih =>
    rw [placeAt_cons, childrenUnder_put_eq_iff]
    cases rest with
    | nil =>
      show [] = _ ↔ childless _ = true
      rw [childless_iff (lead ++ key), eq_comm]
    | cons next rest =>
      rw [within_of_ne_nil (by simp), spares]
      split
      case h_1 entries hold =>
        rw [hold, entriesIn_dict]
        by_cases hn : next = "type"
        · rw [hn, childrenAt_placeAt_type, if_pos rfl, childless_iff (lead ++ key), eq_comm]
        · have kept : Keyed.get? (placeAt (next :: rest) (.virtual p owner) entries) "type"
              = Keyed.get? entries "type" := by
            rw [placeAt_cons, Keyed.get?_put_of_ne (Ne.symm hn)]
          rw [if_neg hn, childrenIn]
          cases htype : Keyed.get? entries "type" with
          | some type =>
            rw [childrenAt_dict_of_type (kept.trans htype), childrenAt_dict_of_type htype,
              Keyed.has_iff_get?.2 ⟨type, htype⟩]
            simp
          | none =>
            rw [childrenAt_dict (kept.trans htype), childrenAt_dict htype,
              Keyed.has_eq_false_iff.2 htype, Bool.false_or]
            exact ih _ _
      case h_2 hold =>
        -- What is no mapping gives way to a mapping for the virtual alone.
        have fresh : entriesIn (Keyed.get? tree key) = [] := by
          unfold entriesIn
          split
          · exact absurd ‹_› (hold _)
          · rfl
        rw [fresh, childrenAt_placeAt_nil, childless_iff (lead ++ key), eq_comm]

theorem settled_entriesIn (h : ∀ v, old = some v → v.settled = true) :
    (Value.dict (entriesIn old)).settled = true := by
  unfold entriesIn
  split
  · exact h _ rfl
  · rfl

/-- Placing a virtual leaves no array of a plain object where none was. -/
theorem settledUnder_placeAt (trail : Trail) (h : settledUnder tree = true) :
    settledUnder (placeAt trail (.virtual p owner) tree) = true := by
  induction trail generalizing tree with
  | nil => exact h
  | cons key rest ih =>
    rw [placeAt_cons]
    refine settledUnder_put h ?_
    cases rest with
    | nil => rfl
    | cons next rest =>
      rw [within_of_ne_nil (by simp)]
      have before := settled_entriesIn fun v (hv : Keyed.get? tree key = some v) =>
        settled_of_get? h hv
      generalize entriesIn (Keyed.get? tree key) = entries at before ⊢
      by_cases hn : next = "type"
      · rw [hn, placeAt_cons, Value.settled, Keyed.get?_put_self]
        simp [isImplicit_within_virtual]
      · have kept : Keyed.get? (placeAt (next :: rest) (.virtual p owner) entries) "type"
            = Keyed.get? entries "type" := by
          rw [placeAt_cons, Keyed.get?_put_of_ne (Ne.symm hn)]
        rw [Value.settled] at before ⊢
        rw [kept]
        cases htype : Keyed.get? entries "type" with
        | some type => rwa [htype] at before
        | none =>
          rw [htype] at before
          exact ih before

theorem Mirrors.placeAt_iff (h : Mirrors children tree) :
    Mirrors children (placeAt trail (.virtual p owner) tree) ↔ spares trail tree = true := by
  constructor
  · intro after
    exact (childrenUnder_placeAt_eq_iff trail tree "").1 (after.children.symm.trans h.children)
  · intro spared
    have same : childrenOf (placeAt trail (.virtual p owner) tree) = childrenOf tree :=
      (childrenUnder_placeAt_eq_iff trail tree "").2 spared
    exact ⟨h.children.trans same.symm, settledUnder_placeAt trail h.settled⟩

end ModelTypes
