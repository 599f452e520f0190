import Mathlib.Logic.Relation
import ModelTypes.Proofs.Compile.Run
import ModelTypes.Proofs.Naming
/-!
# The embedding graph, unfolded

`Embeds` is the graph of schemas. `Unfolds` lists the sites of the blocks below a root: one for
every path of child bindings, with the schema and the name of its block, children before their
parent. A root that reaches a cycle has no such list. A successful rendering has one block for
every site, under the name of the site.
-/

namespace ModelTypes.Compile

/-- One schema declares another as its child. -/
def Embeds (ws : Workspace) (parent child : SchemaId) : Prop :=
  ∃ b ∈ (ws.schema parent).children, b.schema = child

/-- Somewhere below a root, or at it, a schema is one of its own ancestors. -/
def Circular (ws : Workspace) (root : SchemaId) : Prop :=
  ∃ id, Relation.ReflTransGen (Embeds ws) root id ∧ Relation.TransGen (Embeds ws) id id

/-- The schema of a block and the block's name. -/
abbrev Site := SchemaId × String

mutual

/-- The sites of the blocks of a schema under a name, its own last. -/
inductive Unfolds (ws : Workspace) : SchemaId → String → List Site → Prop
  | intro {id model sites} (below : UnfoldsAll ws model (ws.schema id).children sites) :
      Unfolds ws id model (sites ++ [(id, model)])

/-- The sites of the children of a block, child by child. -/
inductive UnfoldsAll (ws : Workspace) : String → List ChildBinding → List Site → Prop
  | nil {model} : UnfoldsAll ws model [] []
  | cons {model b rest sites others}
      (child : Unfolds ws b.schema (Naming.subdocumentName b.path model) sites)
      (siblings : UnfoldsAll ws model rest others) :
      UnfoldsAll ws model (b :: rest) (sites ++ others)

end

variable {ws ws' : Workspace}

mutual

theorem Unfolds.unique {id : SchemaId} {model : String} {sites sites' : List Site} :
    Unfolds ws id model sites → Unfolds ws id model sites' → sites = sites'
  | .intro h, .intro h' => by rw [h.unique h']

theorem UnfoldsAll.unique {model : String} {cs : List ChildBinding} {sites sites' : List Site} :
    UnfoldsAll ws model cs sites → UnfoldsAll ws model cs sites' → sites = sites'
  | .nil, .nil => rfl
  | .cons h hs, .cons h' hs' => by rw [h.unique h', hs.unique hs']

end

mutual

theorem Unfolds.of_sameButTrees {id : SchemaId} {model : String} {sites : List Site}
    (h : SameButTrees ws ws') :
    Unfolds ws' id model sites → Unfolds ws id model sites
  | .intro hs => by
    have := hs.of_sameButTrees h
    rw [h.children] at this
    exact .intro this

theorem UnfoldsAll.of_sameButTrees {model : String} {cs : List ChildBinding} {sites : List Site}
    (h : SameButTrees ws ws') :
    UnfoldsAll ws' model cs sites → UnfoldsAll ws model cs sites
  | .nil => .nil
  | .cons hc hs => .cons (hc.of_sameButTrees h) (hs.of_sameButTrees h)

end

/-! ## Cycles -/

mutual

/-- Embedding ends below a schema that unfolds. -/
theorem Unfolds.acc {id : SchemaId} {model : String} {sites : List Site} :
    Unfolds ws id model sites → Acc (fun child parent => Embeds ws parent child) id
  | .intro hs => Acc.intro _ fun _ ⟨b, hb, hc⟩ => hc ▸ hs.acc b hb

theorem UnfoldsAll.acc {model : String} {cs : List ChildBinding} {sites : List Site} :
    UnfoldsAll ws model cs sites →
    ∀ b ∈ cs, Acc (fun child parent => Embeds ws parent child) b.schema
  | .nil => by simp
  | .cons hc hs => by
    have first := hc.acc
    have others := hs.acc
    intro b hb
    rcases List.mem_cons.1 hb with rfl | hb
    · exact first
    · exact others b hb

end

theorem not_transGen_self_of_acc {α : Type} {r : α → α → Prop} {a : α}
    (h : Acc (fun y x => r x y) a) : ¬ Relation.TransGen r a a := by
  intro hc
  have hacc : Acc (Relation.TransGen fun y x => r x y) a := h.transGen
  induction hacc with
  | intro x _ ih => exact ih x (Relation.transGen_swap.1 hc) h hc

theorem not_circular_of_acc {id : SchemaId}
    (h : Acc (fun child parent => Embeds ws parent child) id) :
    ¬ Circular ws id := by
  rintro ⟨x, hx, hc⟩
  refine not_transGen_self_of_acc ?_ hc
  clear hc
  induction hx with
  | refl => exact h
  | tail _ hbc ih => exact ih.inv hbc

/-! ## Children come first -/

/-- In front of every site stand the sites of all its children. -/
def ChildrenFirst (ws : Workspace) (sites : List Site) : Prop :=
  ∀ before site after, sites = before ++ site :: after → ∀ b ∈ (ws.schema site.1).children,
    (b.schema, Naming.subdocumentName b.path site.2) ∈ before

theorem ChildrenFirst.append {sites sites' : List Site} (h : ChildrenFirst ws sites)
    (h' : ChildrenFirst ws sites') : ChildrenFirst ws (sites ++ sites') := by
  intro before site after he b hb
  rcases List.append_eq_append_iff.1 he with ⟨mid, rfl, hr⟩ | ⟨mid, rfl, hr⟩
  · exact List.mem_append_right _ (h' mid site after hr b hb)
  · cases mid with
    | nil => exact absurd (h' [] site after hr.symm b hb) List.not_mem_nil
    | cons s mid =>
      obtain ⟨rfl, -⟩ := List.cons.inj hr
      exact h before site mid rfl b hb

theorem Unfolds.own_mem {id : SchemaId} {model : String} {sites : List Site} :
    Unfolds ws id model sites → (id, model) ∈ sites
  | .intro _ => by simp

mutual

theorem Unfolds.childrenFirst {id : SchemaId} {model : String} {sites : List Site} :
    Unfolds ws id model sites → ChildrenFirst ws sites
  | @Unfolds.intro _ _ _ inner hs => by
    intro before site after he b hb
    -- The site is the schema's own, which comes last, or one of those below it.
    rcases List.append_eq_append_iff.1 he with ⟨mid, rfl, hr⟩ | ⟨mid, hi, hr⟩
    · cases mid with
      | nil =>
        obtain ⟨rfl, -⟩ := List.cons.inj hr
        simpa using hs.own_mem b hb
      | cons s mid => simp at hr
    · cases mid with
      | nil =>
        obtain ⟨rfl, -⟩ := List.cons.inj hr
        rw [List.append_nil] at hi
        exact hi ▸ hs.own_mem b hb
      | cons s mid =>
        obtain ⟨rfl, -⟩ := List.cons.inj hr
        exact hs.childrenFirst before site mid hi b hb

theorem UnfoldsAll.childrenFirst {model : String} {cs : List ChildBinding} {sites : List Site} :
    UnfoldsAll ws model cs sites → ChildrenFirst ws sites
  | .nil => by
    intro before site after he
    simp at he
  | .cons hc hs => hc.childrenFirst.append hs.childrenFirst

theorem UnfoldsAll.own_mem {model : String} {cs : List ChildBinding} {sites : List Site} :
    UnfoldsAll ws model cs sites →
    ∀ b ∈ cs, (b.schema, Naming.subdocumentName b.path model) ∈ sites
  | .nil => by simp
  | .cons hc hs => by
    have others := hs.own_mem
    intro b hb
    rcases List.mem_cons.1 hb with rfl | hb
    · exact List.mem_append_left _ hc.own_mem
    · exact List.mem_append_right _ (others b hb)

end

/-! ## One block for every site -/

mutual

theorem Renders.unfolds {ws ws' : Workspace} {id : SchemaId} {model : String} {p : Projection}
    {header footer : String} {blocks : List Block} (hm : Naming.Proper model) :
    Renders ws id model p header footer blocks ws' →
      ∃ sites, Unfolds ws id model sites ∧ blocks.map (·.name) = sites.map (·.2)
  | .alone hc _ => by
    have hnil := hc.resolve_right hm.1
    refine ⟨[] ++ [(id, model)], .intro ?_, by simp⟩
    rw [hnil]
    exact .nil
  | .parent _ _ hs _ => by
    obtain ⟨sites, hu, hn⟩ := hs.unfolds hm
    exact ⟨_, .intro hu, by simp [hn]⟩

theorem Hoists.unfolds {ws ws' : Workspace} {cs : List ChildBinding} {model : String}
    {p : Projection} {flat flat' : Entries} {blocks : List Block} (hm : Naming.Proper model) :
    Hoists ws cs model p flat flat' blocks ws' →
      ∃ sites, UnfoldsAll ws model cs sites ∧ blocks.map (·.name) = sites.map (·.2)
  | .nil => ⟨[], .nil, rfl⟩
  | .cons _ hr hs => by
    obtain ⟨sites, hu, hn⟩ := hr.unfolds (Naming.proper_subdocumentName hm _)
    obtain ⟨others, hus, hns⟩ := hs.unfolds hm
    exact ⟨_, .cons hu (hus.of_sameButTrees hr.sameButTrees), by simp [hn, hns]⟩

end

end ModelTypes.Compile
