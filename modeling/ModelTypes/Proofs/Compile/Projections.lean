import ModelTypes.Compile.Blocks
import ModelTypes.Proofs.Result
/-!
# One field in two projections

Whether a field can be written does not depend on the projection: the projections differ in the
names of types only. So a body that can be written in one projection can be written in all.
-/

namespace ModelTypes

variable {s : Store} {p q : Projection}

namespace Render

theorem scalar_returns {kind : PrimitiveKind} {enum : Option (List Value)} {type : String}
    (h : scalar s p kind enum = .ok type) : ∃ type, scalar s q kind enum = .ok type := by
  unfold scalar at h ⊢
  split at h
  · exact ⟨_, h⟩
  · exact ⟨_, h⟩
  · exact ⟨_, rfl⟩

/-- A field that is no virtual has a type in every projection in which its shape has one. -/
theorem type?_eq {key : String} {sh : Shape} {o a m ma sa : Bool} (h : sh ≠ .virtual) :
    type? s p ⟨key, sh, o, a, m, ma, sa⟩
      = (shape s p sh).map fun type =>
          some (FieldOf.wrap ⟨key, (), o, a, m, ma, sa⟩ p.document type) := by
  cases sh <;> first | rfl | exact absurd rfl h

mutual

theorem shape_returns : ∀ (sh : Shape) {type : String}, shape s p sh = .ok type →
    ∃ type, shape s q sh = .ok type
  | .scalar kind enum, _, h => scalar_returns h
  | .nested fields, _, h => by
    rw [shape] at h ⊢
    obtain ⟨body, hb, -⟩ := Except.bind_eq_ok_iff.1 h
    obtain ⟨body', hb'⟩ := lines_returns fields hb
    exact ⟨_, Except.bind_eq_ok_iff.2 ⟨body', hb', rfl⟩⟩
  | .reference _ _, _, _ | .embedded _ _, _, _ | .virtual, _, _ => ⟨_, rfl⟩
  | .unknown _, _, h => by simp [shape] at h

theorem type?_returns : ∀ (field : FieldOf Shape) {type : Option String},
    type? s p field = .ok type → ∃ type, type? s q field = .ok type
  | ⟨key, sh, o, a, m, ma, sa⟩, _, h => by
    by_cases hv : sh = .virtual
    · subst hv
      exact ⟨_, rfl⟩
    · rw [type?_eq hv] at h ⊢
      obtain ⟨type, ht, -⟩ := Except.map_eq_ok_iff.1 h
      obtain ⟨type', ht'⟩ := shape_returns sh ht
      exact ⟨_, Except.map_eq_ok_iff.2 ⟨type', ht', rfl⟩⟩

theorem lines_returns : ∀ (fields : List (FieldOf Shape)) {body : String},
    lines s p fields = .ok body → ∃ body, lines s q fields = .ok body
  | [], _, _ => ⟨_, rfl⟩
  | field :: rest, _, h => by
    rw [lines] at h ⊢
    obtain ⟨type, ht, h⟩ := Except.bind_eq_ok_iff.1 h
    obtain ⟨body, hb, -⟩ := Except.bind_eq_ok_iff.1 h
    obtain ⟨type', ht'⟩ := type?_returns field ht
    obtain ⟨body', hb'⟩ := lines_returns rest hb
    exact ⟨_, Except.bind_eq_ok_iff.2 ⟨type', ht', Except.bind_eq_ok_iff.2 ⟨body', hb', rfl⟩⟩⟩

end

theorem line_returns_iff {field : Field} :
    (∃ text, line s p field = .ok text) ↔ ∃ type, type? s p field = .ok type := by
  unfold line
  constructor
  · rintro ⟨text, h⟩
    obtain ⟨type, ht, -⟩ := Except.bind_eq_ok_iff.1 h
    exact ⟨type, ht⟩
  · rintro ⟨type, ht⟩
    cases type with
    | none => exact ⟨_, Except.bind_eq_ok_iff.2 ⟨_, ht, rfl⟩⟩
    | some type => exact ⟨_, Except.bind_eq_ok_iff.2 ⟨_, ht, rfl⟩⟩

end Render

namespace Compile

variable {key : String} {raw : Value} {tree : Entries}

/-- A field can be described, and has a type in a projection if it is declared. -/
def Writable (s : Store) (p : Projection) (key : String) (raw : Value) : Prop :=
  ∃ field?, Field.describe s key raw = .ok field? ∧
    ∀ field ∈ field?, ∃ type, Render.type? s p field = .ok type

theorem Writable.change (h : Writable s p key raw) : Writable s q key raw := by
  obtain ⟨field?, hd, ht⟩ := h
  exact ⟨field?, hd, fun field hf => (ht field hf).elim fun _ => Render.type?_returns field⟩

theorem mapError_eq_ok_iff {ε ε' α : Type} {x : Except ε α} {f : ε → ε'} {a : α} :
    x.mapError f = .ok a ↔ x = .ok a := by
  cases x with
  | error e =>
    show Except.error (f e) = .ok a ↔ _
    simp
  | ok b =>
    show Except.ok b = .ok a ↔ _
    simp

theorem fieldType?_returns_iff :
    (∃ type, fieldType? s p key raw = .ok type) ↔ Writable s p key raw := by
  unfold fieldType? Writable
  simp only [Except.bind_eq_ok_iff, mapError_eq_ok_iff]
  constructor
  · rintro ⟨type, field?, hd, h⟩
    refine ⟨field?, hd, fun field hf => ?_⟩
    obtain rfl := hf
    exact ⟨type, mapError_eq_ok_iff.1 h⟩
  · rintro ⟨field?, hd, h⟩
    cases field? with
    | none => exact ⟨none, _, hd, rfl⟩
    | some field => exact (h field rfl).imp fun type ht => ⟨_, hd, mapError_eq_ok_iff.2 ht⟩

theorem fieldLine_returns_iff :
    (∃ line, fieldLine s p key raw = .ok line) ↔ Writable s p key raw := by
  unfold fieldLine Writable
  simp only [Except.bind_eq_ok_iff, mapError_eq_ok_iff]
  constructor
  · rintro ⟨line, field?, hd, h⟩
    refine ⟨field?, hd, fun field hf => ?_⟩
    obtain rfl := hf
    exact Render.line_returns_iff.1 ⟨line, mapError_eq_ok_iff.1 h⟩
  · rintro ⟨field?, hd, h⟩
    cases field? with
    | none => exact ⟨"", _, hd, rfl⟩
    | some field =>
      obtain ⟨line, hl⟩ := Render.line_returns_iff.2 (h field rfl)
      exact ⟨line, _, hd, mapError_eq_ok_iff.2 hl⟩

/-- A body can be written if all of its fields can. -/
theorem bodyText_returns_iff :
    (∃ body, bodyText s p tree = .ok body) ↔ ∀ e ∈ tree, Writable s p e.1 e.2 := by
  unfold bodyText
  simp only [← fieldLine_returns_iff, ← Except.mapM_returns_iff]
  constructor
  · rintro ⟨body, h⟩
    obtain ⟨lines, hl, -⟩ := Except.bind_eq_ok_iff.1 h
    exact ⟨lines, hl⟩
  · rintro ⟨lines, hl⟩
    exact ⟨_, Except.bind_eq_ok_iff.2 ⟨lines, hl, rfl⟩⟩

theorem bodyText_returns {body : String} (h : bodyText s p tree = .ok body) :
    ∃ body, bodyText s q tree = .ok body :=
  bodyText_returns_iff.2 fun e he => (bodyText_returns_iff.1 ⟨body, h⟩ e he).change

/-- An identifier that is a field that can be written has a type. -/
theorem idType_returns {raw : Option Value} (h : ∀ v ∈ raw, Writable s p "_id" v) :
    ∃ type, idType s p raw = .ok type := by
  cases raw with
  | none => exact ⟨_, rfl⟩
  | some raw =>
    obtain ⟨type, ht⟩ := fieldType?_returns_iff.2 (h raw rfl)
    exact ⟨_, Except.bind_eq_ok_iff.2 ⟨type, ht, rfl⟩⟩

end Compile
end ModelTypes
