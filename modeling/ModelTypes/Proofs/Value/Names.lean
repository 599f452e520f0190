import ModelTypes.Proofs.Tree.Entrywise
import ModelTypes.Proofs.Value.Cycles
/-!
# Names in a value

The names in a value are the keys of its mappings and the names of the children that stand in it. A
tree has its names entry by entry, so flattening it, making it of its flat form and filling it bring
in no others (`entrywise_namedBy`).
-/

namespace ModelTypes.Store

open Relation

section Names

variable (s : Store)

/-- A mapping in a value has a key. -/
def HasKey (v : Value) (key : String) : Prop :=
  ∃ w entries, ReflTransGen s.Part v w ∧ s.entries? w = some entries ∧
    ∃ e ∈ entries, e.1 = key

/-- A child with a name stands in a value. -/
def HasChild (v : Value) (name : String) : Prop :=
  ∃ w e, ReflTransGen s.Part v w ∧ s.embedding? w = some e ∧ e.name = name

/-- All keys in a value are of one sort, and all names of children of another. -/
structure NamedBy (keys children : String → Prop) (v : Value) : Prop where
  keys : ∀ key, s.HasKey v key → keys key
  children : ∀ name, s.HasChild v name → children name

end Names

variable {s : Store} {keys children : String → Prop} {v w : Value} {items : List Value}
  {entries : Entries} {e : Embedding}

theorem NamedBy.part (h : s.NamedBy keys children v) (part : s.Part v w) :
    s.NamedBy keys children w where
  keys := fun key ⟨u, entries, below, he, mem⟩ => h.keys key ⟨u, entries, .head part below, he, mem⟩
  children := fun name ⟨u, e, below, he, named⟩ =>
    h.children name ⟨u, e, .head part below, he, named⟩

theorem NamedBy.entry (h : s.NamedBy keys children v) (he : s.entries? v = some entries)
    {f : String × Value} (mem : f ∈ entries) : keys f.1 ∧ s.NamedBy keys children f.2 :=
  ⟨h.keys _ ⟨v, entries, .refl, he, f, mem, rfl⟩, h.part (.entry he mem)⟩

theorem NamedBy.embedding (h : s.NamedBy keys children v) (he : s.embedding? v = some e) :
    children e.name := h.children _ ⟨v, e, .refl, he, rfl⟩

/-- The names in a value are its own and those of its parts. -/
theorem namedBy_of_parts (own : ∀ entries, s.entries? v = some entries → ∀ f ∈ entries, keys f.1)
    (child : ∀ e, s.embedding? v = some e → children e.name)
    (below : ∀ w, s.Part v w → s.NamedBy keys children w) : s.NamedBy keys children v where
  keys := by
    rintro key ⟨u, entries, reached, he, f, mem, rfl⟩
    rcases ReflTransGen.cases_head reached with rfl | ⟨w, part, reached⟩
    · exact own entries he f mem
    · exact (below w part).keys _ ⟨u, entries, reached, he, f, mem, rfl⟩
  children := by
    rintro name ⟨u, e, reached, he, rfl⟩
    rcases ReflTransGen.cases_head reached with rfl | ⟨w, part, reached⟩
    · exact child e he
    · exact (below w part).children _ ⟨u, e, reached, he, rfl⟩

/-- A value without parts that is no child has no names. -/
theorem namedBy_leaf (items : s.items? v = none) (entries : s.entries? v = none)
    (child : s.embedding? v = none) : s.NamedBy keys children v := by
  refine namedBy_of_parts (fun _ he => ?_) (fun _ he => ?_) fun w part => ?_
  · rw [entries] at he
    cases he
  · rw [child] at he
    cases he
  · cases part with
    | item hl _ =>
      rw [items] at hl
      cases hl
    | entry he _ =>
      rw [entries] at he
      cases he

theorem entrywise_namedBy : Entrywise keys (s.NamedBy keys children) where
  dict_iff := by
    intro entries
    refine ⟨fun h f mem => h.entry rfl mem, fun h => ?_⟩
    refine namedBy_of_parts (fun _ he f mem => ?_) (fun e he => by cases he) fun w part => ?_
    · cases he
      exact (h f mem).1
    · rcases part.cases with ⟨_, hl, -⟩ | ⟨_, key, he, mem⟩ | ⟨a, _, ha, -⟩
      · cases hl
      · cases he
        exact (h _ mem).2
      · cases ha

theorem namedBy_embedded {id : SchemaId} (h : children e.name) :
    s.NamedBy keys children (.embedded e id) := by
  refine namedBy_of_parts (fun _ he => by cases he) (fun _ he => ?_) fun w part => ?_
  · cases he
    exact h
  · cases part with
    | item hl _ => cases hl
    | entry he _ => cases he

theorem namedBy_list (h : ∀ w ∈ items, s.NamedBy keys children w) :
    s.NamedBy keys children (.list items) := by
  refine namedBy_of_parts (fun _ he => by cases he) (fun _ he => by cases he) fun w part => ?_
  cases part with
  | item hl mem =>
    cases hl
    exact h w mem
  | entry he _ => cases he

end ModelTypes.Store
