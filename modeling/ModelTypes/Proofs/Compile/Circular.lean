import Mathlib.Data.List.Nodup
import ModelTypes.Proofs.Compile.Passes
import ModelTypes.Proofs.Schema.Linked
/-!
# Schemas that enclose themselves

The renderer enters a child only if the child does not enclose the parent. Each call takes one
schema off the schemas outside the lineage, so calls nest no deeper than there are schemas; a child
that is refused is one of its own ancestors; and a root below which some schema is one has no
blocks.
-/

namespace ModelTypes.Compile

variable {ws ws' : Workspace}

/-! ## The lineage -/

theorem mem_outsideOf {lineage : List SchemaId} {id : SchemaId} :
    id ∈ outsideOf ws lineage ↔ id < ws.schemas.length ∧ id ∉ lineage := by
  simp [outsideOf, Workspace.ids]

/-- Entering a child adds it to the lineage. -/
theorem erase_outsideOf (lineage : List SchemaId) (child : SchemaId) :
    (outsideOf ws lineage).erase child = outsideOf ws (child :: lineage) := by
  unfold outsideOf Workspace.ids
  rw [((List.nodup_range).filter _).erase_eq_filter, List.filter_filter]
  apply List.filter_congr
  intro id _
  by_cases h : id = child <;> simp [h]

theorem entering_outsideOf_eq_none {lineage : List SchemaId} {child : SchemaId}
    (hlt : child < ws.schemas.length) (h : entering (outsideOf ws lineage) child = none) :
    child ∈ lineage := by
  unfold entering at h
  split at h
  · simp at h
  · rename_i hn
    by_contra hc
    exact hn (mem_outsideOf.2 ⟨hlt, hc⟩)

/-- A child is refused because it is one of its own ancestors. -/
theorem circular_of_renderWithin (linked : ws.Linked) {lineage : List SchemaId} {id : SchemaId}
    {model : String} {p : Projection} {header footer place : String} {ws₁ : Workspace}
    (same : SameButTrees ws ws₁)
    (encloses : ∀ ancestor ∈ lineage, Relation.ReflTransGen (Embeds ws) ancestor id)
    (h : (renderWithin (outsideOf ws lineage) id model p header footer).on ws₁
      = (.error (.circular place), ws')) : Circular ws id := by
  induction hn : (outsideOf ws lineage).length using Nat.strongRecOn
    generalizing lineage id model p header footer ws₁ ws' with
  | ind n ih =>
    rw [renderWithin_eq] at h
    rcases renderWith_error (sound_entering _) h with h | ⟨b, hb, ws₀, hws, h⟩
    · rcases h with ⟨_, h⟩ | ⟨_, h⟩ <;> simp at h
    rw [same.children] at hb
    have edge : Embeds ws id b.schema := ⟨b, hb, rfl⟩
    -- Refused, the child encloses its parent; entered, it is enclosed by one schema more.
    rcases h with ⟨hnone, -⟩ | ⟨render, name, q, header', ws₂, hr, h⟩
    · have hmem := entering_outsideOf_eq_none (linked.child_lt hb) hnone
      exact ⟨id, .refl, .head' edge (encloses _ hmem)⟩
    · obtain ⟨hc, rfl⟩ := entering_eq_some hr
      have hlen := length_erase_lt hc
      simp only [erase_outsideOf] at h hlen
      obtain ⟨x, hx, hcyc⟩ := ih _ (hn ▸ hlen) (same.trans hws) (fun a ha => by
        rcases List.mem_cons.1 ha with rfl | ha
        · exact .refl
        · exact (encloses a ha).tail edge) h rfl
      exact ⟨x, .head edge hx, hcyc⟩

/-! ## The depth of calls -/

/-- Renders a schema by calls that nest at most `depth` deep and carry the schemas that enclose
them. A call that would nest deeper is left to `beyond`. -/
def renderUpTo (beyond : SchemaId → Renderer) : Nat → List SchemaId → SchemaId → String →
    Projection → String → String → CompileM (List Block)
  | 0, _, id, model, p, header, _ => beyond id model p header
  | depth + 1, lineage, id, model, p, header, footer =>
    renderWith
      (fun child =>
        if child ∈ lineage then none
        else some fun name p header =>
          renderUpTo beyond depth (child :: lineage) child name p header Comment.blockFooter)
      id model p header footer

/-- Two renderers do the same for a child, in every workspace with the schemas of `ws`. -/
def AgreeOn (ws : Workspace) : Option Renderer → Option Renderer → Prop
  | none, none => True
  | some render, some render' => ∀ ws₁, SameButTrees ws ws₁ → ∀ name p header,
    (render name p header).on ws₁ = (render' name p header).on ws₁
  | _, _ => False

section Congruence

variable {enter enter' : SchemaId → Option Renderer} {model : String} {p : Projection}

theorem hoist_congr {ws₁ : Workspace} {b : ChildBinding} {flat : Entries} {blocks : List Block}
    (agree : AgreeOn ws (enter b.schema) (enter' b.schema)) (same : SameButTrees ws ws₁) :
    (hoist enter model p flat blocks b).on ws₁ = (hoist enter' model p flat blocks b).on ws₁ := by
  unfold hoist
  cases h : enter b.schema <;> cases h' : enter' b.schema <;> simp only [h, h', AgreeOn] at agree
  · rfl
  · simp only [bind_on, get_on, lift_on]
    cases hh : childHeader ws₁ model b (Naming.subdocumentName b.path model)
      { p with leanVirtuals := (ws₁.schema b.schema).leanVirtuals } with
    | error e => rfl
    | ok header => simp only [agree ws₁ same]

theorem hoistAll_congr (sound : Sound enter') {cs : List ChildBinding}
    (agree : ∀ b ∈ cs, AgreeOn ws (enter b.schema) (enter' b.schema)) {ws₁ : Workspace}
    (same : SameButTrees ws ws₁) {flat : Entries} {blocks : List Block} :
    (hoistAll enter model p flat blocks cs).on ws₁
      = (hoistAll enter' model p flat blocks cs).on ws₁ := by
  induction cs generalizing ws₁ flat blocks with
  | nil => rfl
  | cons b rest ih =>
    simp only [hoistAll, bind_on, hoist_congr (agree b List.mem_cons_self) same]
    rcases hb : (hoist enter' model p flat blocks b).on ws₁ with ⟨_ | r, ws₂⟩
    · rfl
    · obtain ⟨render, header, run, hr, -, hrun, rfl⟩ := hoist_ok_iff.1 hb
      have hws := (sound _ _ hr _ _ _ _ _ _ hrun).sameButTrees
      exact ih (fun c hc => agree c (List.mem_cons_of_mem _ hc)) (same.trans hws)

theorem renderWith_congr (sound : Sound enter') {id : SchemaId} {header footer : String}
    (agree : ∀ b ∈ (ws.schema id).children, AgreeOn ws (enter b.schema) (enter' b.schema))
    {ws₁ : Workspace} (same : SameButTrees ws ws₁) :
    (renderWith enter id model p header footer).on ws₁
      = (renderWith enter' id model p header footer).on ws₁ := by
  rw [← same.children] at agree
  unfold renderWith expandWith
  simp only [bind_on, get_on]
  split
  · simp only [bind_on, get_on, hoistAll_congr sound agree same]
  · rfl

end Congruence

/-- Calls nest no deeper than there are schemas outside the lineage. -/
theorem renderUpTo_eq (linked : ws.Linked) (beyond : SchemaId → Renderer) {depth : Nat}
    {lineage : List SchemaId} (hd : (outsideOf ws lineage).length < depth) {id : SchemaId}
    {model : String} {p : Projection} {header footer : String} {ws₁ : Workspace}
    (same : SameButTrees ws ws₁) :
    (renderUpTo beyond depth lineage id model p header footer).on ws₁
      = (renderWithin (outsideOf ws lineage) id model p header footer).on ws₁ := by
  induction depth generalizing lineage id model p header footer ws₁ with
  | zero => exact absurd hd (Nat.not_lt_zero _)
  | succ depth ih =>
    rw [renderWithin_eq]
    refine renderWith_congr (sound_entering _) (fun b hb => ?_) same
    by_cases hc : b.schema ∈ lineage
    · simp [AgreeOn, entering, mem_outsideOf, hc]
    · have hm : b.schema ∈ outsideOf ws lineage := mem_outsideOf.2 ⟨linked.child_lt hb, hc⟩
      have hlen := length_erase_lt hm
      simp only [AgreeOn, entering, hc, hm, if_true, if_false]
      rw [erase_outsideOf] at hlen ⊢
      exact fun ws₂ hws name q header => ih (by omega) hws

/-! ## Compilations -/

theorem compileBy_congr {render render' : Renderer} {id : SchemaId} {model : String}
    {plainIds : Bool}
    (agree : ∀ ws₁, SameButTrees ws ws₁ → ∀ name p header,
      (render name p header).on ws₁ = (render' name p header).on ws₁)
    (keeps : ∀ name p header ws₁ blocks, (render' name p header).on ws = (.ok blocks, ws₁) →
      SameButTrees ws ws₁) :
    (compileBy render id model plainIds).on ws = (compileBy render' id model plainIds).on ws := by
  unfold compileBy
  simp only [bind_on, get_on, agree ws (.refl ws)]
  rcases hl : (render' model (leanPass ws id plainIds) (leanOpening model)).on ws with
    ⟨_ | leans, ws₁⟩
  · rfl
  · have hsame := keeps _ _ _ _ _ hl
    cases plainIds
    · simp only [Bool.false_eq_true, if_false, bind_on, get_on, lift_on]
      cases documentBase ws₁ id model (documentPass ws id) with
      | error e => rfl
      | ok base => simp only [agree ws₁ hsame]
    · rfl

/-- Compiling ends, with calls nested no deeper than there are schemas; it reports a cycle only
if there is one below the root, and then it gives no blocks. -/
theorem compile_reports_cycles (linked : ws.Linked) (id : SchemaId) {model : String}
    (hne : model ≠ "") (hs : model ≠ "s") (plainIds : Bool) :
    (∀ beyond depth, ws.schemas.length < depth →
      (compileBy (fun name p header =>
          renderUpTo beyond depth [id] id name p header Comment.blockFooter) id model
          plainIds).on ws
        = (compile id model plainIds).on ws) ∧
    (∀ place ws', (compile id model plainIds).on ws = (.error (.circular place), ws') →
      Circular ws id) ∧
    (Circular ws id → ∀ paired ws', (compile id model plainIds).on ws ≠ (.ok paired, ws')) := by
  refine ⟨fun beyond depth hd => ?_, fun place ws' h => ?_, fun hc paired ws' h => ?_⟩
  · have hlen : (outsideOf ws [id]).length < depth :=
      Nat.lt_of_le_of_lt (List.length_filter_le _ _) (by simpa [Workspace.ids] using hd)
    refine compileBy_congr (fun ws₁ same name p header => ?_)
      fun name p header ws₁ blocks hr => (renderBlocks_ok hr).sameButTrees
    rw [renderUpTo_eq linked beyond hlen same, renderBlocks_on]
    simp [outsideOf, same.ids]
  · rcases compile_error h with h | ⟨ws₁, p, header, ws₂, same, h⟩
    · rcases h with ⟨_, h⟩ | ⟨_, h⟩ <;> simp at h
    · rw [renderBlocks_on] at h
      have hout : outsideOf ws₁ [id] = outsideOf ws [id] := by simp [outsideOf, same.ids]
      rw [hout] at h
      exact circular_of_renderWithin linked same (by simp [Relation.ReflTransGen.refl]) h
  · obtain ⟨leans, ws₁, hl, -⟩ := compile_ok h
    obtain ⟨sites, hu, -⟩ := hl.unfolds ⟨hne, hs⟩
    exact not_circular_of_acc hu.acc hc

/-- Two schemas that embed each other, one of them in an array. -/
def entangled : Workspace where
  schemas := [{ children := [⟨"a", 1, true⟩] }, { children := [⟨"b", 0, false⟩] }]

theorem compile_reports_cycles_entangled : entangled.Linked ∧ Circular entangled 0 ∧
    ∀ paired ws', (compile 0 "Ab").on entangled ≠ (.ok paired, ws') := by
  have linked : entangled.Linked := by
    unfold Workspace.Linked
    decide
  have cycle : Circular entangled 0 := by
    have there : Embeds entangled 0 1 := ⟨⟨"a", 1, true⟩, by decide, rfl⟩
    have back : Embeds entangled 1 0 := ⟨⟨"b", 0, false⟩, by decide, rfl⟩
    exact ⟨0, .refl, .head there (.single back)⟩
  exact ⟨linked, cycle,
    (compile_reports_cycles linked 0 (by decide) (by decide) false).2.2 cycle⟩

end ModelTypes.Compile
