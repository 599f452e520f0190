import ModelTypes.Proofs.Field.Origins
import ModelTypes.Proofs.Field.Virtuals
/-!
# Fields at every depth

The objects of fields have fields of their own. Every field at any depth was read from a definition
that the definitions on top enclose (`described_of_within`), and leaving virtuals out leaves every
other field as it was, but for the virtuals in it (`exists_of_within_shownFields`).
-/

namespace ModelTypes

open Relation

/-- A field is one of several, or stands in the object of one of them, at any depth. -/
inductive FieldOf.Within : FieldOf Shape → List (FieldOf Shape) → Prop where
  | here {field : FieldOf Shape} {fields : List (FieldOf Shape)} : field ∈ fields →
      Within field fields
  | inside {field outer : FieldOf Shape} {inner fields : List (FieldOf Shape)} : outer ∈ fields →
      outer.shape = .nested inner → Within field inner → Within field fields

variable {s : Store} {p : Projection} {field : Field} {fields : List Field} {tree : Entries}

/-! ## Definitions -/

namespace Field

/-- A field was read from a definition, at some depth. -/
def ReadFrom (s : Store) (f : String × Value) (field : Field) : Prop :=
  ∃ room, describeWithin s room f.1 f.2 = .ok (some field)

theorem readFrom_iff {f : String × Value} :
    ReadFrom s f field ↔ ∃ depth, describe s f.1 f.2 depth = .ok (some field) := by
  constructor
  · rintro ⟨room, h⟩
    refine ⟨maxNestingDepth + 1 - room, ?_⟩
    rwa [describe, show ((maxNestingDepth : Int) + 1 - (maxNestingDepth + 1 - room)).toNat = room by
      omega]
  · rintro ⟨depth, h⟩
    exact ⟨_, h⟩

/-- A field is read under its own key. -/
theorem ReadFrom.key {f : String × Value} (h : ReadFrom s f field) : field.key = f.1 := by
  obtain ⟨_ | room, h⟩ := h
  · cases h
  · rw [describeWithin_succ] at h
    exact (origin_of_describeOnce h).1

/-- The fields of an object are read from definitions that the object's definition encloses. -/
theorem ReadFrom.nested {f : String × Value} {inner : List Field} (h : ReadFrom s f field)
    (object : field.shape = .nested inner) :
    ∀ below ∈ inner, ∃ g, Encloses s f g ∧ ReadFrom s g below := by
  obtain ⟨_ | room, h⟩ := h
  · cases h
  rw [describeWithin_succ] at h
  have origin := (origin_of_describeOnce h).2
  rw [object] at origin
  cases origin with
  | nested declared read =>
    intro below hb
    obtain ⟨g, mem, hg⟩ := (Except.filterMapM_ok read).2 below hb
    exact ⟨g, ⟨_, declared, mem⟩, room, hg⟩

/-- What holds of the definitions of fields, and of all that they enclose, holds of the definitions
of the fields at every depth. -/
theorem readFrom_of_within {P : String × Value → Prop}
    (closed : ∀ f g, P f → Encloses s f g → P g)
    (read : ∀ field ∈ fields, ∃ f, P f ∧ ReadFrom s f field) (h : field.Within fields) :
    ∃ f, P f ∧ ReadFrom s f field := by
  induction h with
  | here mem => exact read _ mem
  | inside mem object _ ih =>
    obtain ⟨f, hf, own⟩ := read _ mem
    refine ih fun below hb => ?_
    obtain ⟨g, encloses, hg⟩ := own.nested object below hb
    exact ⟨g, closed f g hf encloses, hg⟩

end Field

/-- A field at any depth of a tree was read from a definition that one on top encloses. -/
theorem described_of_within (h : Compile.described s tree = .ok fields)
    (within : field.Within fields) :
    ∃ f, (∃ top ∈ tree, ReflTransGen (Field.Encloses s) top f) ∧ Field.ReadFrom s f field := by
  refine Field.readFrom_of_within (fun f g ⟨top, mem, below⟩ step => ⟨top, mem, below.tail step⟩)
    (fun field hf => ?_) within
  obtain ⟨e, mem, he⟩ := (Except.filterMapM_ok h).2 field hf
  exact ⟨e, ⟨e, mem, .refl⟩, Field.readFrom_iff.2 ⟨0, he⟩⟩

/-! ## Fields that are shown -/

/-- Leaving virtuals out leaves the fields of an object that are none. -/
theorem exists_of_within_withoutVirtuals (h : field.Within (withoutVirtuals fields)) :
    ∃ f : Field, f.Within fields ∧ f.withoutVirtuals? = some field := by
  generalize shown : withoutVirtuals fields = left at h
  induction h generalizing fields with
  | here mem =>
    subst shown
    obtain ⟨f, hf, kept⟩ := mem_withoutVirtuals_iff.1 mem
    exact ⟨f, .here hf, kept⟩
  | inside mem object _ ih =>
    subst shown
    obtain ⟨f, hf, kept⟩ := mem_withoutVirtuals_iff.1 mem
    rw [eq_of_withoutVirtuals? kept] at object
    obtain ⟨below, hb⟩ : ∃ below, f.shape = .nested below := by
      cases hs : f.shape <;> rw [hs] at object <;> cases object
      exact ⟨_, rfl⟩
    rw [hb] at object
    obtain ⟨g, within, kept⟩ := ih (Shape.nested.inj object)
    exact ⟨g, .inside hf hb within, kept⟩

/-- A field that is shown, at any depth, is one of the fields, without the virtuals in it at
most. -/
theorem exists_of_within_shownFields (h : field.Within (shownFields p fields)) :
    ∃ f : Field, f.Within fields ∧ (field = f ∨ f.withoutVirtuals? = some field) := by
  unfold shownFields at h
  split at h
  · exact ⟨field, h, .inl rfl⟩
  · obtain ⟨f, within, kept⟩ := exists_of_within_withoutVirtuals h
    exact ⟨f, within, .inr kept⟩

end ModelTypes
