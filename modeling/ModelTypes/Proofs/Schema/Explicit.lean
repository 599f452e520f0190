import Mathlib.Data.List.Forall2
import ModelTypes.Proofs.Schema.Conversion
/-!
# Arrays of plain objects, converted or made beforehand

A tree with some of its arrays of plain objects (`TreeWith`) is compared with the tree that has
arrays of schemas in their places, made of the objects one after the other. Converting what is left
of the second tree makes the schemas that converting the first makes and that are not there yet.
-/

namespace ModelTypes

/-! ## Schemas made of plain objects -/

/-- Makes a schema without options of copied fields. -/
def makeExplicit (p : Entries) : StateM (List Schema) SchemaId := do
  makeSchema {} {} (← implicitFields p)

theorem shifts_makeExplicit (p : Entries) :
    Shifts (fun σ => renameUnder σ p = p) (fun σ id => σ id) (makeExplicit p) (makeExplicit p) :=
  (shifts_implicitFields p).bind fun tree tree' =>
    (shifts_makeSchema {} {} tree tree').mono fun _ h => h.2

/-- Objects are made into schemas one after the other: the schemas before, and those after. -/
inductive MakesAll : List Schema → List Entries → List SchemaId → List Schema → Prop
  | nil {L} : MakesAll L [] [] L
  | cons {L L₁ L₂ p ps id ids} (own : (makeExplicit p).run L = (id, L₁))
      (others : MakesAll L₁ ps ids L₂) : MakesAll L (p :: ps) (id :: ids) L₂

namespace MakesAll

variable {ps : List Entries} {ids : List SchemaId} {L L' : List Schema}

theorem isPrefix (h : MakesAll L ps ids L') : L <+: L' := by
  induction h with
  | nil => exact List.prefix_refl _
  | @cons L L₁ L₂ p ps id ids own others ih =>
    obtain ⟨N, -, hN, -⟩ := shifts_makeExplicit p L L
    rw [own] at hN
    exact List.IsPrefix.trans ⟨N, hN.symm⟩ ih

theorem split {ps' : List Entries} {ids' : List SchemaId} (hlen : ids.length = ps.length)
    (h : MakesAll L (ps ++ ps') (ids ++ ids') L') :
    ∃ L₁, MakesAll L ps ids L₁ ∧ MakesAll L₁ ps' ids' L' := by
  induction ps generalizing L ids with
  | nil =>
    obtain rfl := List.length_eq_zero_iff.1 hlen
    exact ⟨L, .nil, h⟩
  | cons p rest ih =>
    cases ids with
    | nil => cases hlen
    | cons id ids =>
      cases h with
      | cons own others =>
        obtain ⟨L₁, h₁, h₂⟩ := ih (Nat.succ.inj hlen) others
        exact ⟨L₁, .cons own h₁, h₂⟩

end MakesAll

/-! ## Trees with arrays of schemas for arrays of plain objects -/

mutual

/-- A value, and the same with schemas in place of some arrays' plain objects: the objects, and the
schemas that stand for them. -/
inductive ValueWith : Value → Value → List Entries → List SchemaId → Prop
  | same {v} : ValueWith v v [] []
  | array {p id} (plain : isPlainObject p = true) :
      ValueWith (.list [.dict p]) (.list [.schema id]) [p] [id]
  | typed {before after p id} (first : "type" ∉ Keyed.keys before)
      (plain : isPlainObject p = true) :
      ValueWith (.dict (before ++ ("type", .list [.dict p]) :: after))
        (.dict (before ++ ("type", .list [.schema id]) :: after)) [p] [id]
  | nested {entries entries' ps ids} (untyped : Keyed.has entries "type" = false)
      (below : TreeWith entries entries' ps ids) :
      ValueWith (.dict entries) (.dict entries') ps ids

inductive TreeWith : List (String × Value) → List (String × Value) → List Entries →
    List SchemaId → Prop
  | nil : TreeWith [] [] [] []
  | cons {key v v' rest rest' ps ps' ids ids'} (own : ValueWith v v' ps ids)
      (others : TreeWith rest rest' ps' ids') :
      TreeWith ((key, v) :: rest) ((key, v') :: rest') (ps ++ ps') (ids ++ ids')

end

mutual

theorem ValueWith.length {v v' : Value} {ps : List Entries} {ids : List SchemaId} :
    ValueWith v v' ps ids → ids.length = ps.length
  | .same | .array _ | .typed _ _ => rfl
  | .nested _ below => below.length

theorem TreeWith.length {tree tree' : Entries} {ps : List Entries} {ids : List SchemaId} :
    TreeWith tree tree' ps ids → ids.length = ps.length
  | .nil => rfl
  | .cons own others => by rw [List.length_append, List.length_append, own.length, others.length]

end

variable {p tree tree' : Entries} {ps : List Entries} {id : SchemaId} {ids : List SchemaId}

theorem TreeWith.keys (h : TreeWith tree tree' ps ids) :
    Keyed.keys tree' = Keyed.keys tree := by
  induction tree generalizing tree' ps ids with
  | nil =>
    cases h
    rfl
  | cons e rest ih =>
    cases h with
    | cons own others => rw [Keyed.keys_cons, Keyed.keys_cons, ih others]

/-! ## Converting both -/

/-- The schemas of `N` stand renamed in `made`, at the places that `M` lists. -/
def Counterparts (σ : SchemaId → SchemaId) (made : List Schema) :
    List Schema → List SchemaId → Prop :=
  List.Forall₂ fun schema id => made[id]? = some (schema.rename σ)

/-- The first work, from any list `L`, makes what the second makes from `L'` and what was made of
`ps` beforehand, from `E`. `M` lists the counterparts of what the first work makes, in its order:
each schema of the other two occurs once. Under a renaming that meets `F` and leads to `M`, the
works give the same. -/
def Meets {α : Type} (F : (SchemaId → SchemaId) → Prop) (ren : (SchemaId → SchemaId) → α → α)
    (ps : List Entries) (ids : List SchemaId) (x x' : StateM (List Schema) α) : Prop :=
  ∀ E E' L L', MakesAll E ps ids E' → ∃ N N' M, (x.run L).2 = L ++ N ∧ (x'.run L').2 = L' ++ N' ∧
    M.length = N.length ∧
    M.Perm (List.range' E.length (E'.length - E.length) ++ List.range' L'.length N'.length) ∧
      ∀ σ, F σ → (List.range' L.length M.length).map σ = M →
        (x'.run L').1 = ren σ (x.run L).1 ∧
          ∀ made : List Schema, E' <+: made → L' ++ N' <+: made →
            Counterparts σ made N M

theorem counterparts_of_prefix {σ : SchemaId → SchemaId} {L N made : List Schema}
    (h : L ++ N.map (Schema.rename σ) <+: made) :
    Counterparts σ made N (List.range' L.length N.length) := by
  induction N generalizing L with
  | nil => exact .nil
  | cons schema rest ih =>
    rw [List.map_cons, ← List.singleton_append, ← List.append_assoc] at h
    rw [List.length_cons, List.range'_succ]
    refine .cons ?_ ?_
    · obtain ⟨extra, rfl⟩ := h
      simp
    · have := ih h
      rwa [List.length_append] at this

theorem range'_split {a b c : Nat} (hab : a ≤ b) (hbc : b ≤ c) :
    List.range' a (c - a) = List.range' a (b - a) ++ List.range' b (c - b) := by
  have := List.range'_append_1 (s := a) (m := b - a) (n := c - b)
  rw [show a + (b - a) = b by omega, show b - a + (c - b) = c - a by omega] at this
  exact this.symm

theorem leads_of_map {σ : SchemaId → SchemaId} {a b n : Nat}
    (h : (List.range' a n).map σ = List.range' b n) : ∀ j < n, σ (a + j) = b + j := by
  intro j hj
  have := congrArg (·[j]?) h
  simpa [hj] using this

namespace Meets

variable {α β : Type} {F G : (SchemaId → SchemaId) → Prop} {ren : (SchemaId → SchemaId) → α → α}
  {ren' : (SchemaId → SchemaId) → β → β} {x x' : StateM (List Schema) α}

/-- Nothing was made beforehand, and the two works do the same. -/
theorem of_shifts (h : Shifts F ren x x') : Meets F ren [] [] x x' := by
  intro E E' L L' makes
  cases makes
  obtain ⟨N, N', hN, hN', hlen, alike⟩ := h L L'
  refine ⟨N, N', List.range' L'.length N'.length, hN, hN', by simp [hlen], by simp,
    fun σ hσ leads => ?_⟩
  rw [List.length_range', hlen] at leads
  obtain ⟨result, rfl⟩ := alike σ hσ (leads_of_map leads)
  refine ⟨result, fun made _ hmade => ?_⟩
  rw [hlen]
  exact counterparts_of_prefix hmade

/-- One schema was made beforehand, and the second work has nothing to do. -/
theorem of_made {wrap : SchemaId → α}
    (hF : ∀ σ, F σ → renameUnder σ p = p ∧ ∀ id, wrap (σ id) = ren σ (wrap id)) :
    Meets F ren [p] [id] (wrap <$> makeExplicit p) (pure (wrap id)) := by
  intro E E' L L' makes
  cases makes with
  | cons own others =>
    cases others
    obtain ⟨N, N', hN, hN', hlen, alike⟩ := shifts_makeExplicit p L E
    rw [own] at hN' alike
    dsimp only at hN'
    subst hN'
    refine ⟨N, [], List.range' E.length N'.length, hN, (List.append_nil L').symm,
      by simp [hlen], by simp, fun σ hσ leads => ?_⟩
    rw [List.length_range', hlen] at leads
    obtain ⟨result, rfl⟩ := alike σ (hF σ hσ).1 (leads_of_map leads)
    refine ⟨?_, fun made hmade _ => ?_⟩
    · dsimp only at result
      rw [result]
      exact (hF σ hσ).2 _
    · rw [hlen]
      exact counterparts_of_prefix hmade

theorem mono (h : Meets F ren ps ids x x') (hle : ∀ σ, G σ → F σ) : Meets G ren ps ids x x' := by
  intro E E' L L' makes
  obtain ⟨N, N', M, hN, hN', hlen, perm, alike⟩ := h E E' L L' makes
  exact ⟨N, N', M, hN, hN', hlen, perm, fun σ hσ => alike σ (hle σ hσ)⟩

theorem map {f f' : α → β} (h : Meets F ren ps ids x x')
    (hf : ∀ σ, F σ → ∀ a, f' (ren σ a) = ren' σ (f a)) :
    Meets F ren' ps ids (f <$> x) (f' <$> x') := by
  intro E E' L L' makes
  obtain ⟨N, N', M, hN, hN', hlen, perm, alike⟩ := h E E' L L' makes
  refine ⟨N, N', M, hN, hN', hlen, perm, fun σ hσ leads => ?_⟩
  obtain ⟨result, counterparts⟩ := alike σ hσ leads
  refine ⟨?_, counterparts⟩
  show f' (x'.run L').1 = _
  rw [result]
  exact hf σ hσ _

/-- One work after the other. What was made beforehand for the first is made before what was made
for the second, so it splits where the works do. -/
theorem bind {f f' : α → StateM (List Schema) β} {ps' : List Entries} {ids' : List SchemaId}
    (hids : ids.length = ps.length) (hx : Meets F ren ps ids x x')
    (hf : ∀ a a', Meets (fun σ => F σ ∧ a' = ren σ a) ren' ps' ids' (f a) (f' a')) :
    Meets F ren' (ps ++ ps') (ids ++ ids') (x >>= f) (x' >>= f') := by
  intro E E' L L' makes
  obtain ⟨E₁, makes₁, makes₂⟩ := makes.split hids
  obtain ⟨N₁, N₁', M₁, h₁, h₁', hlen₁, perm₁, alike₁⟩ := hx E E₁ L L' makes₁
  obtain ⟨N₂, N₂', M₂, h₂, h₂', hlen₂, perm₂, alike₂⟩ :=
    hf (x.run L).1 (x'.run L').1 E₁ E' (x.run L).2 (x'.run L').2 makes₂
  refine ⟨N₁ ++ N₂, N₁' ++ N₂', M₁ ++ M₂, ?_, ?_, ?_, ?_, fun σ hσ leads => ?_⟩
  · rw [← List.append_assoc, ← h₁]
    exact h₂
  · rw [← List.append_assoc, ← h₁']
    exact h₂'
  · rw [List.length_append, List.length_append, hlen₁, hlen₂]
  · rw [range'_split makes₁.isPrefix.length_le makes₂.isPrefix.length_le, List.length_append,
      ← List.range'_append_1, ← List.length_append, ← h₁', List.append_assoc]
    -- The counterparts come in four parts, of which the middle two change places.
    refine (perm₁.append perm₂).trans ?_
    rw [List.append_assoc]
    exact (List.perm_append_comm_assoc _ _ _).append_left _
  · rw [List.length_append, ← List.range'_append_1, List.map_append] at leads
    obtain ⟨leads₁, leads₂⟩ := List.append_inj leads (by simp)
    have start : (x.run L).2.length = L.length + M₁.length := by
      rw [h₁, List.length_append, hlen₁]
    rw [← start] at leads₂
    obtain ⟨result₁, counterparts₁⟩ := alike₁ σ hσ leads₁
    obtain ⟨result₂, counterparts₂⟩ := alike₂ σ ⟨hσ, result₁⟩ leads₂
    refine ⟨result₂, fun made hE hN => ?_⟩
    rw [← List.append_assoc, ← h₁'] at hN
    refine List.rel_append (counterparts₁ made ?_ ?_) (counterparts₂ made hE hN)
    · exact makes₂.isPrefix.trans hE
    · rw [← h₁']
      exact (List.prefix_append _ _).trans hN

end Meets

/-! ## Arrays of plain objects where they stand -/

theorem implicitItem_of_plain (plain : isPlainObject p = true) :
    implicitItem (.dict p) = Value.schema <$> makeExplicit p := by
  rw [implicitItem, if_pos plain]
  simp only [makeExplicit, map_bind, bind_pure_comp]

theorem implicitField_array (plain : isPlainObject p = true) :
    implicitField (.list [.dict p]) = (fun id => .list [.schema id]) <$> makeExplicit p := by
  rw [implicitField, implicitItems, implicitItem_of_plain plain]
  simp only [bind_pure_comp, Functor.map_map]

theorem implicitType_array (plain : isPlainObject p = true) {before after : Entries}
    (first : "type" ∉ Keyed.keys before) :
    implicitType (before ++ ("type", .list [.dict p]) :: after)
      = (fun id => before ++ ("type", .list [.schema id]) :: after) <$> makeExplicit p := by
  induction before with
  | nil =>
    simp only [List.nil_append, implicitType, implicitArray, implicitItems,
      implicitItem_of_plain plain, if_pos, bind_pure_comp, Functor.map_map]
  | cons e rest ih =>
    obtain ⟨key, v⟩ := e
    rw [Keyed.keys_cons, List.mem_cons, not_or] at first
    rw [List.cons_append, implicitType, if_neg (Ne.symm first.1), ih first.2]
    simp only [bind_pure_comp, Functor.map_map, List.cons_append]

theorem implicitType_schema {before after : Entries} (first : "type" ∉ Keyed.keys before) :
    implicitType (before ++ ("type", .list [.schema id]) :: after)
      = pure (before ++ ("type", .list [.schema id]) :: after) := by
  induction before with
  | nil => simp [implicitType, implicitArray, implicitItems, implicitItem]
  | cons e rest ih =>
    obtain ⟨key, v⟩ := e
    rw [Keyed.keys_cons, List.mem_cons, not_or] at first
    rw [List.cons_append, implicitType, if_neg (Ne.symm first.1), ih first.2, pure_bind]

@[simp] theorem implicitField_schema :
    implicitField (.list [.schema id]) = pure (.list [.schema id]) := by
  simp [implicitField, implicitItems, implicitItem]

theorem implicitField_typed (plain : isPlainObject p = true) {before after : Entries}
    (first : "type" ∉ Keyed.keys before) :
    implicitField (.dict (before ++ ("type", .list [.dict p]) :: after))
      = (fun id => .dict (before ++ ("type", .list [.schema id]) :: after))
        <$> makeExplicit p := by
  rw [implicitField, if_pos Keyed.has_append_cons, implicitType_array plain first]
  simp only [bind_pure_comp, Functor.map_map]

theorem implicitField_typed_schema {before after : Entries} (first : "type" ∉ Keyed.keys before) :
    implicitField (.dict (before ++ ("type", .list [.schema id]) :: after))
      = pure (.dict (before ++ ("type", .list [.schema id]) :: after)) := by
  rw [implicitField, if_pos Keyed.has_append_cons, implicitType_schema first, pure_bind]

mutual

theorem ValueWith.meets {v v' : Value} {ps : List Entries} {ids : List SchemaId} :
    ValueWith v v' ps ids → Meets (fun σ => v.rename σ = v) (fun σ v => v.rename σ) ps ids
      (implicitField v) (implicitField v')
  | .same => .of_shifts (shifts_implicitField v)
  | .array plain => by
    rw [implicitField_array plain, implicitField_schema]
    refine .of_made fun σ h => ⟨?_, fun id => rfl⟩
    exact Value.dict.inj (List.cons.inj (Value.list.inj h)).1
  | .typed first plain => by
    rw [implicitField_typed plain first, implicitField_typed_schema first]
    refine .of_made fun σ h => ?_
    have entries := Value.dict.inj h
    rw [renameUnder_append] at entries
    obtain ⟨before, middle⟩ := List.append_inj entries (by simp [renameUnder_eq_map])
    obtain ⟨type, after⟩ := List.cons.inj middle
    refine ⟨?_, fun id => ?_⟩
    · exact Value.dict.inj (List.cons.inj (Value.list.inj (Prod.mk.inj type).2)).1
    · rw [Value.rename, renameUnder_append, before, renameUnder, after]
      rfl
  | .nested untyped below => by
    have untyped' : Keyed.has _ "type" = false := (Keyed.has_congr below.keys).trans untyped
    rw [implicitField, implicitField, untyped, untyped']
    simp only [bind_pure_comp]
    refine (below.meets.mono fun σ h => Value.dict.inj h).map fun σ _ entries => rfl

theorem TreeWith.meets {tree tree' : List (String × Value)} {ps : List Entries}
    {ids : List SchemaId} :
    TreeWith tree tree' ps ids → Meets (fun σ => renameUnder σ tree = tree) renameUnder ps ids
      (implicitFields tree) (implicitFields tree')
  | .nil => by
    rw [implicitFields]
    exact .of_shifts (.pure fun _ _ => rfl)
  | .cons own others => by
    rw [implicitFields, implicitFields]
    refine Meets.bind own.length (own.meets.mono fun σ h => ?_) fun w w' =>
      .map (others.meets.mono fun σ h => ?_) fun σ h rest => ?_
    · exact (Prod.mk.inj (List.cons.inj h).1).2
    · exact (List.cons.inj h.1).2
    · rw [h.2]
      rfl

end

/-- A schema is made of either tree, and the two stand for each other. -/
theorem TreeWith.meets_makeExplicit (h : TreeWith tree tree' ps ids) :
    Meets (fun σ => renameUnder σ tree = tree) (fun σ id => σ id) ps ids (makeExplicit tree)
      (makeExplicit tree') := by
  have := h.meets.bind h.length fun t t' =>
    .of_shifts ((shifts_makeSchema {} {} t t').mono fun σ h => h.2)
  rwa [List.append_nil, List.append_nil] at this

end ModelTypes
