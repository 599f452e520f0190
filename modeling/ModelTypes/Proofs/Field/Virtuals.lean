import ModelTypes.Proofs.Compile.Projections
/-!
# Virtuals in the text of fields

A projection writes every field that it is given, or every one but the virtuals, which it leaves out
at all depths of plain mappings. `everyLine` is the text that leaves nothing out; what a projection
writes is that text of the fields it shows (`lines_eq_everyLine`).
-/

namespace ModelTypes

/-! ## Fields without virtuals -/

mutual

/-- A shape without the virtuals in it. -/
def Shape.withoutVirtuals : Shape → Shape
  | .nested fields => .nested (ModelTypes.withoutVirtuals fields)
  | sh => sh

def FieldOf.withoutVirtuals? : FieldOf Shape → Option (FieldOf Shape)
  | ⟨_, .virtual, _, _, _, _, _⟩ => none
  | ⟨key, sh, o, a, m, ma, sa⟩ => some ⟨key, sh.withoutVirtuals, o, a, m, ma, sa⟩

/-- The fields that are no virtuals, without the virtuals in them. -/
def withoutVirtuals : List (FieldOf Shape) → List (FieldOf Shape)
  | [] => []
  | field :: rest => field.withoutVirtuals?.toList ++ withoutVirtuals rest

end

/-- Whether virtuals are written. -/
def Projection.showsVirtuals (p : Projection) : Bool := p.document || p.leanVirtuals

/-- The fields that are written. -/
def shownFields (p : Projection) (fields : List Field) : List Field :=
  if p.showsVirtuals then fields else withoutVirtuals fields

theorem mem_withoutVirtuals_iff {fields : List Field} {field : Field} :
    field ∈ withoutVirtuals fields ↔ ∃ f ∈ fields, f.withoutVirtuals? = some field := by
  induction fields with
  | nil => simp [withoutVirtuals]
  | cons f rest ih => simp [withoutVirtuals, ih]

theorem eq_of_withoutVirtuals? {f field : Field} (h : f.withoutVirtuals? = some field) :
    field = { f with shape := f.shape.withoutVirtuals } := by
  obtain ⟨key, sh, o, a, m, ma, sa⟩ := f
  cases sh <;> cases h <;> rfl

namespace Render

variable {s : Store} {p q : Projection}

/-! ## The text of every field -/

mutual

/-- The type of a shape with every field in it. -/
def shapeText (s : Store) (p : Projection) : Shape → Except RenderError String
  | .nested fields => do return "\x7b\n" ++ (← everyLine s p fields) ++ "\x7d"
  | sh => shape s p sh

def typeText (s : Store) (p : Projection) : FieldOf Shape → Except RenderError String
  | ⟨key, sh, o, a, m, ma, sa⟩ => do
    return FieldOf.wrap ⟨key, (), o, a, m, ma, sa⟩ p.document (← shapeText s p sh)

/-- The declaration lines of all fields, at every depth. -/
def everyLine (s : Store) (p : Projection) : List (FieldOf Shape) → Except RenderError String
  | [] => .ok ""
  | field :: rest => do
    let line := Line.entry field.key (← typeText s p field) field.optional
    return line ++ (← everyLine s p rest)

end

/-- A shape of no fields is written in one way. -/
theorem shapeText_eq {sh : Shape} (h : sh.isNested = false) : shapeText s p sh = shape s p sh := by
  cases sh <;> first | rfl | simp [Shape.isNested] at h

theorem withoutVirtuals?_eq {key : String} {sh : Shape} {o a m ma sa : Bool}
    (h : sh ≠ .virtual) : FieldOf.withoutVirtuals? ⟨key, sh, o, a, m, ma, sa⟩
      = some ⟨key, sh.withoutVirtuals, o, a, m, ma, sa⟩ := by
  cases sh <;> first | rfl | exact absurd rfl h

mutual

theorem shape_of_shows (h : p.showsVirtuals = true) : ∀ sh : Shape,
    shape s p sh = shapeText s p sh
  | .nested fields => by
    rw [shape, shapeText, lines_of_shows h fields]
  | .scalar _ _ | .reference _ _ | .embedded _ _ | .virtual | .unknown _ => (shapeText_eq rfl).symm

theorem type?_of_shows (h : p.showsVirtuals = true) : ∀ field : FieldOf Shape,
    type? s p field = some <$> typeText s p field
  | ⟨key, sh, o, a, m, ma, sa⟩ => by
    have hs := shape_of_shows h sh
    by_cases hv : sh = .virtual
    · subst hv
      have shown : (p.document || p.leanVirtuals) = true := h
      rw [type?, if_pos shown, typeText, shapeText_eq rfl, shape]
      rfl
    · rw [type?_eq hv, typeText, hs]
      cases shapeText s p sh <;> rfl

/-- A projection that shows virtuals writes every field. -/
theorem lines_of_shows (h : p.showsVirtuals = true) : ∀ fields : List (FieldOf Shape),
    lines s p fields = everyLine s p fields
  | [] => rfl
  | field :: rest => by
    rw [lines, everyLine, type?_of_shows h field, lines_of_shows h rest]
    cases typeText s p field <;> rfl

end

mutual

theorem shape_of_hides (h : p.showsVirtuals = false) : ∀ sh : Shape,
    shape s p sh = shapeText s p sh.withoutVirtuals
  | .nested fields => by
    rw [shape, Shape.withoutVirtuals, shapeText, lines_of_hides h fields]
  | .scalar _ _ | .reference _ _ | .embedded _ _ | .virtual | .unknown _ => (shapeText_eq rfl).symm

theorem type?_of_hides (h : p.showsVirtuals = false) : ∀ field : FieldOf Shape,
    type? s p field = match field.withoutVirtuals? with
      | some shown => some <$> typeText s p shown
      | none => .ok none
  | ⟨key, sh, o, a, m, ma, sa⟩ => by
    have hs := shape_of_hides h sh
    by_cases hv : sh = .virtual
    · subst hv
      unfold Projection.showsVirtuals at h
      simp [type?, h, FieldOf.withoutVirtuals?]
    · rw [type?_eq hv, withoutVirtuals?_eq hv]
      show _ = some <$> typeText s p _
      rw [typeText, hs]
      cases shapeText s p sh.withoutVirtuals <;> rfl

/-- A projection that hides virtuals writes every other field. -/
theorem lines_of_hides (h : p.showsVirtuals = false) : ∀ fields : List (FieldOf Shape),
    lines s p fields = everyLine s p (withoutVirtuals fields)
  | [] => rfl
  | field :: rest => by
    rw [lines, withoutVirtuals, type?_of_hides h field, lines_of_hides h rest]
    obtain ⟨key, sh, o, a, m, ma, sa⟩ := field
    by_cases hv : sh = .virtual
    · subst hv
      show (everyLine s p (withoutVirtuals rest) >>= fun body => pure ("" ++ body))
        = everyLine s p (withoutVirtuals rest)
      simp
    · rw [withoutVirtuals?_eq hv]
      show (some <$> typeText s p _ >>= _) = everyLine s p (_ :: withoutVirtuals rest)
      rw [everyLine]
      cases typeText s p ⟨key, sh.withoutVirtuals, o, a, m, ma, sa⟩ <;> rfl

end

/-- What a projection writes is every line of the fields that it shows. -/
theorem lines_eq_everyLine (fields : List Field) :
    lines s p fields = everyLine s p (shownFields p fields) := by
  unfold shownFields
  split
  · exact lines_of_shows ‹_› fields
  · exact lines_of_hides (Bool.eq_false_iff.2 ‹_›) fields

/-! ## The option alone -/

mutual

theorem shapeText_leanVirtuals (b : Bool) : ∀ sh : Shape,
    shapeText s { p with leanVirtuals := b } sh = shapeText s p sh
  | .nested fields => by rw [shapeText, shapeText, everyLine_leanVirtuals b fields]
  | .scalar _ _ | .reference _ _ | .embedded _ _ | .virtual | .unknown _ => rfl

theorem typeText_leanVirtuals (b : Bool) : ∀ field : FieldOf Shape,
    typeText s { p with leanVirtuals := b } field = typeText s p field
  | ⟨_, sh, _, _, _, _, _⟩ => by rw [typeText, typeText, shapeText_leanVirtuals b sh]

/-- The text of every field does not depend on whether virtuals are shown. -/
theorem everyLine_leanVirtuals (b : Bool) : ∀ fields : List (FieldOf Shape),
    everyLine s { p with leanVirtuals := b } fields = everyLine s p fields
  | [] => rfl
  | field :: rest => by
    rw [everyLine, everyLine, typeText_leanVirtuals b field, everyLine_leanVirtuals b rest]

end

/-- With virtuals, every line is written. -/
theorem lines_withVirtuals (fields : List Field) :
    lines s { p with leanVirtuals := true } fields = everyLine s p fields := by
  rw [lines_of_shows (by simp [Projection.showsVirtuals]), everyLine_leanVirtuals]

/-- Documents always show virtuals. -/
theorem type?_leanVirtuals (h : p.document = true) (b : Bool) (field : Field) :
    type? s { p with leanVirtuals := b } field = type? s p field := by
  have shows : p.showsVirtuals = true := by simp [Projection.showsVirtuals, h]
  have shows' : Projection.showsVirtuals { p with leanVirtuals := b } = true := by
    simp [Projection.showsVirtuals, h]
  rw [type?_of_shows shows, type?_of_shows shows', typeText_leanVirtuals]

theorem lines_cons_ok_iff {field : Field} {rest : List Field} {body : String} :
    lines s p (field :: rest) = .ok body ↔ ∃ text others, line s p field = .ok text ∧
      lines s p rest = .ok others ∧ body = text ++ others := by
  rw [lines, line]
  cases type? s p field with
  | error e => simp [bind, Except.bind]
  | ok type =>
    cases lines s p rest <;> cases type <;>
      simp [bind, Except.bind, pure, Except.pure, eq_comm]

end Render

namespace Compile

variable {s : Store} {p : Projection} {tree : Entries} {body : String}

/-! ## Bodies -/

/-- The fields of a tree that are declared. -/
def described (s : Store) (tree : Entries) : Except FieldError (List Field) :=
  tree.filterMapM fun e => Field.describe s e.1 e.2

theorem bodyText_cons {e : String × Value} : bodyText s p (e :: tree) = .ok body ↔
    ∃ line rest, fieldLine s p e.1 e.2 = .ok line ∧ bodyText s p tree = .ok rest ∧
      body = line ++ rest := by
  simp only [bodyText, List.mapM_cons, Except.bind_eq_ok_iff]
  constructor
  · rintro ⟨_, ⟨line, hl, lines, hls, ht⟩, hb⟩
    cases ht
    cases hb
    exact ⟨line, _, hl, ⟨lines, hls, rfl⟩, String.join_cons⟩
  · rintro ⟨line, _, hl, ⟨lines, hls, hr⟩, rfl⟩
    cases hr
    exact ⟨_, ⟨line, hl, lines, hls, rfl⟩, congrArg Except.ok String.join_cons⟩

/-- A body is the lines of the fields that are declared. -/
theorem bodyText_ok_iff : bodyText s p tree = .ok body ↔
    ∃ fields, described s tree = .ok fields ∧ Render.lines s p fields = .ok body := by
  induction tree generalizing body with
  | nil =>
    simp [bodyText, described, pure, Except.pure, bind, Except.bind, Render.lines, String.join]
  | cons e rest ih =>
    rw [bodyText_cons]
    unfold described fieldLine
    rw [List.filterMapM_cons]
    simp only [Except.bind_eq_ok_iff, mapError_eq_ok_iff]
    constructor
    · rintro ⟨line, others, ⟨field?, hd, hl⟩, hb, rfl⟩
      obtain ⟨fields, hf, hls⟩ := ih.1 hb
      cases field? with
      | none =>
        cases hl
        exact ⟨fields, ⟨none, hd, hf⟩, by rw [hls, String.empty_append]⟩
      | some field =>
        have own := mapError_eq_ok_iff.1 hl
        exact ⟨field :: fields, ⟨some field, hd, Except.bind_eq_ok_iff.2 ⟨fields, hf, rfl⟩⟩,
          Render.lines_cons_ok_iff.2 ⟨line, others, own, hls, rfl⟩⟩
    · rintro ⟨fields, ⟨field?, hd, hf⟩, hls⟩
      cases field? with
      | none =>
        exact ⟨"", body, ⟨none, hd, rfl⟩, ih.2 ⟨fields, hf, hls⟩, by rw [String.empty_append]⟩
      | some field =>
        obtain ⟨others, ho, hf⟩ := Except.bind_eq_ok_iff.1 hf
        cases hf
        obtain ⟨line, text, hl, ht, rfl⟩ := Render.lines_cons_ok_iff.1 hls
        exact ⟨line, text, ⟨some field, hd, mapError_eq_ok_iff.2 hl⟩, ih.2 ⟨others, ho, ht⟩, rfl⟩

/-! ## Headers of documents -/

theorem fieldType?_leanVirtuals {key : String} {raw : Value} (h : p.document = true) (b : Bool) :
    fieldType? s { p with leanVirtuals := b } key raw = fieldType? s p key raw := by
  unfold fieldType?
  rcases Field.describe s key raw with e | field?
  · rfl
  · cases field? with
    | none => rfl
    | some field =>
      show (Render.type? s { p with leanVirtuals := b } field).mapError _
        = (Render.type? s p field).mapError CompileError.render
      rw [Render.type?_leanVirtuals h]

theorem idType_leanVirtuals {raw : Option Value} (h : p.document = true) (b : Bool) :
    idType s { p with leanVirtuals := b } raw = idType s p raw := by
  unfold idType
  cases raw with
  | none => rfl
  | some raw =>
    dsimp only
    rw [fieldType?_leanVirtuals h]

end Compile
end ModelTypes
