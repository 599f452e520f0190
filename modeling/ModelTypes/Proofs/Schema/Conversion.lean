import ModelTypes.Proofs.Tree.Rename
/-!
# Converting arrays of plain objects, from one list of schemas and from another

What is converted depends on the schemas that are there only through their number: from another list
the same schemas are made, in the same order, under other identities (`shifts_implicitFields`).
-/

namespace ModelTypes

variable {σ : SchemaId → SchemaId} {L L' : List Schema}

/-- From two lists, two works add equally many schemas. Under every renaming that meets `F` and
leads from the new identities of the first to those of the second, these schemas are the same, and
so is what the works give. -/
def Shifts {α : Type} (F : (SchemaId → SchemaId) → Prop) (ren : (SchemaId → SchemaId) → α → α)
    (x x' : StateM (List Schema) α) : Prop :=
  ∀ L L' : List Schema, ∃ N N', (x.run L).2 = L ++ N ∧ (x'.run L').2 = L' ++ N' ∧
    N'.length = N.length ∧
      ∀ σ, F σ → (∀ j < N.length, σ (L.length + j) = L'.length + j) →
        (x'.run L').1 = ren σ (x.run L).1 ∧ N' = N.map (Schema.rename σ)

namespace Shifts

variable {α β : Type} {F G : (SchemaId → SchemaId) → Prop} {ren : (SchemaId → SchemaId) → α → α}
  {ren' : (SchemaId → SchemaId) → β → β} {x x' : StateM (List Schema) α}

theorem pure {a a' : α} (h : ∀ σ, F σ → a' = ren σ a) : Shifts F ren (pure a) (pure a') :=
  fun L L' => ⟨[], [], (List.append_nil L).symm, (List.append_nil L').symm, rfl,
    fun σ hσ _ => ⟨h σ hσ, rfl⟩⟩

theorem mono (h : Shifts F ren x x') (hle : ∀ σ, G σ → F σ) : Shifts G ren x x' := by
  intro L L'
  obtain ⟨N, N', hN, hN', hlen, alike⟩ := h L L'
  exact ⟨N, N', hN, hN', hlen, fun σ hσ => alike σ (hle σ hσ)⟩

theorem bind {f f' : α → StateM (List Schema) β} (hx : Shifts F ren x x')
    (hf : ∀ a a', Shifts (fun σ => F σ ∧ a' = ren σ a) ren' (f a) (f' a')) :
    Shifts F ren' (x >>= f) (x' >>= f') := by
  intro L L'
  obtain ⟨N₁, N₁', h₁, h₁', hlen₁, alike₁⟩ := hx L L'
  obtain ⟨N₂, N₂', h₂, h₂', hlen₂, alike₂⟩ :=
    hf (x.run L).1 (x'.run L').1 (x.run L).2 (x'.run L').2
  refine ⟨N₁ ++ N₂, N₁' ++ N₂', ?_, ?_, ?_, fun σ hσ leads => ?_⟩
  · rw [← List.append_assoc, ← h₁]
    exact h₂
  · rw [← List.append_assoc, ← h₁']
    exact h₂'
  · rw [List.length_append, List.length_append, hlen₁, hlen₂]
  · obtain ⟨ha, hN₁⟩ := alike₁ σ hσ fun j hj => leads j (by rw [List.length_append]; omega)
    obtain ⟨hb, hN₂⟩ := alike₂ σ ⟨hσ, ha⟩ fun j hj => by
      rw [h₁, h₁', List.length_append, List.length_append, hlen₁, Nat.add_assoc, Nat.add_assoc]
      exact leads (N₁.length + j) (by rw [List.length_append]; omega)
    exact ⟨hb, by rw [hN₁, hN₂, List.map_append]⟩

end Shifts

theorem shifts_makeSchema (options : Options) (functions : Functions) (tree tree' : Entries) :
    Shifts (fun σ => tree' = renameUnder σ tree) (fun σ id => σ id)
      (makeSchema options functions tree) (makeSchema options functions tree') := by
  intro L L'
  refine ⟨[_], [_], rfl, rfl, rfl, fun σ same leads => ?_⟩
  have own : σ L.length = L'.length := leads 0 Nat.one_pos
  refine ⟨own.symm, ?_⟩
  subst same
  rw [List.map_singleton, ← withAutomaticPaths_rename, own, childrenOf_rename]
  rfl

mutual

theorem shifts_implicitFields : ∀ tree : List (String × Value),
    Shifts (fun σ => renameUnder σ tree = tree) renameUnder (implicitFields tree)
      (implicitFields tree)
  | [] => by
    rw [implicitFields]
    exact .pure fun _ _ => rfl
  | (key, v) :: rest => by
    rw [implicitFields]
    refine ((shifts_implicitField v).mono fun σ h => ?_).bind fun w w' => ?_
    · exact (Prod.mk.inj (List.cons.inj h).1).2
    refine ((shifts_implicitFields rest).mono fun σ h => (List.cons.inj h.1).2).bind
      fun others others' => .pure fun σ h => ?_
    rw [h.2, h.1.2, renameUnder]

theorem shifts_implicitField : ∀ v : Value,
    Shifts (fun σ => v.rename σ = v) (fun σ v => v.rename σ) (implicitField v) (implicitField v)
  | .list items => by
    rw [implicitField]
    refine ((shifts_implicitItems items).mono fun σ h => Value.list.inj h).bind
      fun items items' => .pure fun σ h => congrArg Value.list h.2
  | .dict entries => by
    have typed := (shifts_implicitType entries).mono
      (G := fun σ => (Value.dict entries).rename σ = .dict entries) fun σ h => Value.dict.inj h
    have fields := (shifts_implicitFields entries).mono
      (G := fun σ => (Value.dict entries).rename σ = .dict entries) fun σ h => Value.dict.inj h
    rw [implicitField]
    split
    · exact typed.bind fun e e' => .pure fun σ h => congrArg Value.dict h.2
    · exact fields.bind fun e e' => .pure fun σ h => congrArg Value.dict h.2
  | .null | .bool _ | .int _ | .float _ | .str _ | .kind _ | .bytes _ | .marker _ | .function
  | .member _ _ | .virtual _ _ | .schema _ | .shared _ | .embedded _ _ => by
    rw [implicitField]
    · exact .pure fun σ h => h.symm
    all_goals simp

theorem shifts_implicitItems : ∀ items : List Value,
    Shifts (fun σ => renameAll σ items = items) renameAll (implicitItems items)
      (implicitItems items)
  | [item] => by
    rw [implicitItems]
    refine ((shifts_implicitItem item).mono fun σ h => (List.cons.inj h).1).bind
      fun w w' => .pure fun σ h => congrArg (fun w => [w]) h.2
  | [] | _ :: _ :: _ => by
    rw [implicitItems]
    · exact .pure fun σ h => h.symm
    all_goals simp

theorem shifts_implicitItem : ∀ v : Value,
    Shifts (fun σ => v.rename σ = v) (fun σ v => v.rename σ) (implicitItem v) (implicitItem v)
  | .dict entries => by
    have fields := (shifts_implicitFields entries).mono
      (G := fun σ => (Value.dict entries).rename σ = .dict entries) fun σ h => Value.dict.inj h
    rw [implicitItem]
    split
    · refine fields.bind fun tree tree' => ?_
      refine ((shifts_makeSchema {} {} tree tree').mono fun σ h => h.2).bind
        fun id id' => .pure fun σ h => congrArg Value.schema h.2
    · exact .pure fun σ h => h.symm
  | .null | .bool _ | .int _ | .float _ | .str _ | .kind _ | .bytes _ | .marker _ | .function
  | .member _ _ | .virtual _ _ | .schema _ | .shared _ | .list _ | .embedded _ _ => by
    rw [implicitItem]
    · exact .pure fun σ h => h.symm
    all_goals simp

theorem shifts_implicitType : ∀ tree : List (String × Value),
    Shifts (fun σ => renameUnder σ tree = tree) renameUnder (implicitType tree)
      (implicitType tree)
  | [] => by
    rw [implicitType]
    exact .pure fun _ _ => rfl
  | (key, v) :: rest => by
    have own := (shifts_implicitArray v).mono
      (G := fun σ => renameUnder σ ((key, v) :: rest) = (key, v) :: rest) fun σ h =>
        (Prod.mk.inj (List.cons.inj h).1).2
    have others := (shifts_implicitType rest).mono
      (G := fun σ => renameUnder σ ((key, v) :: rest) = (key, v) :: rest) fun σ h =>
        (List.cons.inj h).2
    rw [implicitType]
    split
    · refine own.bind fun w w' => .pure fun σ h => ?_
      rw [renameUnder, h.2, (List.cons.inj h.1).2]
    · refine others.bind fun r r' => .pure fun σ h => ?_
      rw [renameUnder, h.2, (Prod.mk.inj (List.cons.inj h.1).1).2]

theorem shifts_implicitArray : ∀ v : Value,
    Shifts (fun σ => v.rename σ = v) (fun σ v => v.rename σ) (implicitArray v) (implicitArray v)
  | .list items => by
    rw [implicitArray]
    refine ((shifts_implicitItems items).mono fun σ h => Value.list.inj h).bind
      fun items items' => .pure fun σ h => congrArg Value.list h.2
  | .null | .bool _ | .int _ | .float _ | .str _ | .kind _ | .bytes _ | .marker _ | .function
  | .member _ _ | .virtual _ _ | .schema _ | .shared _ | .dict _ | .embedded _ _ => by
    rw [implicitArray]
    · exact .pure fun σ h => h.symm
    all_goals simp

end

end ModelTypes
