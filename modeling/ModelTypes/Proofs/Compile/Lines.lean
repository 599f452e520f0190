import ModelTypes.Declaration
import ModelTypes.Proofs.Compile.Virtuals
import ModelTypes.Proofs.Line
/-!
# Lines of blocks

The body of a block is a sequence of lines, one for each field that is shown, and so are the objects
among their types. Every line starts as the line of its key does.
-/

namespace ModelTypes

namespace Render

variable {s : Store} {p : Projection}

mutual

/-- A text of lines, one for each field. Every line starts with the name of its field. -/
inductive HasLines (s : Store) (p : Projection) : List (FieldOf Shape) → String → Prop
  | nil : HasLines s p [] ""
  | cons {field rest text line others} (typed : HasType s p field.shape text)
      (starts :
        Line.IsLine field.key (field.wrap p.document text) field.optional true line)
      (after : HasLines s p rest others) : HasLines s p (field :: rest) (line ++ others)

/-- The type of a shape. That of an object is the lines of its fields, no other one has any. -/
inductive HasType (s : Store) (p : Projection) : Shape → String → Prop
  | object {fields text} (lines : HasLines s p fields text) :
      HasType s p (.nested fields) ("\x7b\n" ++ text ++ "\x7d")
  | flat {sh text} (flat : sh.isNested = false) (own : shape s p sh = .ok text) :
      HasType s p sh text

end

mutual

theorem hasType_of_shapeText : ∀ (sh : Shape) (text : String),
    shapeText s p sh = .ok text → HasType s p sh text
  | .nested fields, text, h => by
    rw [shapeText, Except.bind_eq_ok_iff] at h
    obtain ⟨body, lines, h⟩ := h
    cases h
    exact .object (hasLines_of_everyLine fields body lines)
  | .scalar .., text, h | .reference .., text, h | .embedded .., text, h | .virtual, text, h
  | .unknown _, text, h => .flat rfl ((shapeText_eq rfl).symm.trans h)

/-- The text of all fields is their lines. -/
theorem hasLines_of_everyLine : ∀ (fields : List (FieldOf Shape)) (body : String),
    everyLine s p fields = .ok body → HasLines s p fields body
  | [], _, h => by
    cases h
    exact .nil
  | ⟨key, sh, o, a, m, ma, sa⟩ :: rest, body, h => by
    simp only [everyLine, typeText, Except.bind_eq_ok_iff] at h
    obtain ⟨_, ⟨text, typed, wraps⟩, others, after, h⟩ := h
    cases wraps
    cases h
    exact .cons (hasType_of_shapeText sh text typed) Line.isLine_entry
      (hasLines_of_everyLine rest others after)

end

theorem hasType_of_typeText {field : Field} {type : String} (h : typeText s p field = .ok type) :
    ∃ text, HasType s p field.shape text ∧ field.wrap p.document text = type := by
  obtain ⟨key, sh, o, a, m, ma, sa⟩ := field
  obtain ⟨text, typed, wraps⟩ := Except.bind_eq_ok_iff.1 h
  cases wraps
  exact ⟨text, hasType_of_shapeText sh text typed, rfl⟩

/-- A type is that of the field as it is shown. -/
theorem exists_shown_of_type? {field : Field} {type : String}
    (h : type? s p field = .ok (some type)) :
    ∃ shown ∈ shownFields p [field], typeText s p shown = .ok type := by
  have some_ok {shown : Field} (h : some <$> typeText s p shown = .ok (some type)) :
      typeText s p shown = .ok type := by
    obtain ⟨_, typed, same⟩ := Except.map_eq_ok_iff.1 h
    exact Option.some.inj same ▸ typed
  cases shows : p.showsVirtuals with
  | true =>
    rw [type?_of_shows shows] at h
    exact ⟨field, by simp [shownFields, shows], some_ok h⟩
  | false =>
    rw [type?_of_hides shows] at h
    cases hidden : field.withoutVirtuals? with
    | none =>
      rw [hidden] at h
      cases h
    | some shown =>
      rw [hidden] at h
      refine ⟨shown, ?_, some_ok h⟩
      simp [shownFields, shows, withoutVirtuals, hidden]

end Render

namespace Compile

/-! ## Blocks -/

variable {ws v : Workspace} {q : Projection}

/-- The lines of the fields that a draft shows stand between its opening and its end. -/
def Draft.Lists (v : Workspace) (q : Projection) (d : Draft) (text : String) : Prop :=
  ∃ body, Render.HasLines v.store q (d.shown v q) body ∧
    text = d.header ++ body ++ Comment.blockFooter

theorem Draft.Writes.lists {d : Draft} {block : Block} (h : d.Writes v q block) :
    d.Lists v q block.text := by
  obtain ⟨body, -, every, text⟩ := h.text
  exact ⟨body, Render.hasLines_of_everyLine _ _ every, text⟩

/-- Both parts of a paired block list the fields of their drafts. -/
structure Plan.Lists (v : Workspace) (plainIds : Bool) (plan : Plan) (block : PairedBlock) :
    Prop where
  lean : plan.lean.Lists v { document := false, plainIds } block.lean
  document : Option.Rel (Draft.Lists v { document := true }) plan.document block.document

theorem Plan.Writes.lists {plainIds : Bool} {plan : Plan} {block : PairedBlock}
    (h : plan.Writes v plainIds block) : plan.Lists v plainIds block where
  lean := h.lean.lists
  document := by
    have documents := h.document
    generalize plan.document = d, block.document = text at documents ⊢
    cases documents with
    | none => exact .none
    | some writes => exact .some writes.lists

/-- The lines of functions stand between the opening of their type and its end. -/
def FunctionsListed (name : String) (functions : List String) (this result text : String) : Prop :=
  ∃ lines, text = "export type " ++ name ++ " = \x7b\n" ++ String.join lines ++ "\x7d\n\n" ∧
    List.Forall₂ (fun function =>
        Line.IsLine function ("(this: " ++ this ++ ", ...args: any[]) => " ++ result) false true)
      (functions.filter (!Declaration.automaticFunctions.contains ·)) lines

theorem functionsListed (name : String) (functions : List String) (this result : String) :
    FunctionsListed name functions this result
      (Declaration.functionsType name functions this result) := by
  refine ⟨_, rfl, List.forall₂_map_right_iff.2 (List.forall₂_same.2 fun function _ => ?_)⟩
  exact Line.isLine_entry

/-- Every line starts with a name of the property that its key is, unless the key is misread: a key
that a digit starts is then left as it is and names no property. Such are the lines of functions,
those of objects in every type, and those of the fields that the parts of a block show. -/
theorem compile_property_names (ws : Workspace) :
    (∀ key type optional newline,
      Line.IsLine key type optional newline (Line.entry key type optional newline) ∧
        (Line.IsMisread key → ¬ Line.IsPropertyName key key)) ∧
    (∀ name functions this result, FunctionsListed name functions this result
      (Declaration.functionsType name functions this result)) ∧
    (∀ (p : Projection) (key : String) (raw : Value) (type : String),
      fieldType? ws.store p key raw = .ok (some type) →
        ∃ field, Field.describe ws.store key raw = .ok (some field) ∧
          ∃ shown ∈ shownFields p [field], ∃ text, Render.HasType ws.store p shown.shape text ∧
            shown.wrap p.document text = type) ∧
    ∀ (id : SchemaId) (model : String) (plainIds : Bool) (paired : List PairedBlock)
      (ws' : Workspace), (compile id model plainIds).on ws = (.ok paired, ws') →
      ∃ plans : List Plan, Stands ws id model (plans.map (·.site)) ∧
        (∀ plan ∈ plans, plan.Of (Reaches ws id) ws plainIds) ∧
        List.Forall₂ (Plan.Lists ws plainIds) plans paired := by
  refine ⟨fun key type optional newline => ⟨Line.isLine_entry, fun h => h.not_isPropertyName⟩,
    functionsListed, fun p key raw type h => ?_, fun id model plainIds paired ws' h => ?_⟩
  · obtain ⟨field?, described, h⟩ := Except.bind_eq_ok_iff.1 h
    cases field? with
    | none => cases h
    | some field =>
      obtain ⟨shown, mem, typed⟩ := Render.exists_shown_of_type? (mapError_eq_ok_iff.1 h)
      exact ⟨field, mapError_eq_ok_iff.1 described, shown, mem, Render.hasType_of_typeText typed⟩
  · obtain ⟨plans, stands, of, wrote⟩ := written_compile h
    exact ⟨plans, stands, of, wrote.imp fun _ _ writes => writes.lists⟩

/-- A schema with a key in quotes, a misread one and an object. -/
def labelled : Workspace :=
  (Workspace.create {} (.dict [("first-name", .str "String"), ("2fa", .str "Boolean"),
    ("home", .dict [("street", .str "String"), ("007", .str "Number")])])
    (.dict [("_id", .bool false), ("id", .bool false)])).2

theorem compile_property_names_labelled :
    (Line.IsMisread "2fa" ∧ ¬ Line.IsPropertyName "2fa" "2fa") ∧
      (∃ field, Field.describe {} "name" (.str "String") = .ok (some field) ∧
        ∃ shown ∈ shownFields { document := false } [field], ∃ text,
          Render.HasType {} { document := false } shown.shape text ∧
            shown.wrap false text = "string") ∧
      ∃ paired ws' plans, (compile 0 "User").on labelled = (.ok paired, ws') ∧
        List.Forall₂ (Plan.Lists labelled false) plans paired := by
  have misread : Line.IsMisread "2fa" :=
    Line.isMisread_of_mem (c := 'f') (by decide) (by decide) (by decide) (by decide)
  have typed : fieldType? {} { document := false } "name" (.str "String") = .ok (some "string") :=
    Except.toOption_eq_some_iff.1 (by decide +kernel)
  have returns : ((compile 0 "User").on labelled).1.isOk = true := by decide +kernel
  obtain ⟨paired, ws', h⟩ := ok_of_isOk returns
  obtain ⟨plans, -, -, lists⟩ := (compile_property_names labelled).2.2.2 _ _ _ _ _ h
  exact ⟨⟨misread, ((compile_property_names {}).1 "2fa" "boolean" false true).2 misread⟩,
    (compile_property_names {}).2.2.1 _ _ _ _ typed, paired, ws', plans, h, lists⟩

/-- A key that a digit starts is written as it is. -/
theorem entry_misread : ¬ ∀ (key type : String) (optional newline : Bool), key ≠ "" →
    ∃ name, Line.IsPropertyName key name ∧ Line.entry key type optional newline
      = name ++ (if optional then "?" else "") ++ ": " ++ type ++ ";"
        ++ (if newline then "\n" else "") := by
  intro named
  obtain ⟨name, property, line⟩ := named "2fa" "string" false true (by decide)
  have written : Line.entry "2fa" "string" false true
      = "2fa" ++ "" ++ ": " ++ "string" ++ ";" ++ "\n" := by decide
  obtain rfl : "2fa" = name := by
    simpa only [String.append_left_inj, if_true, Bool.false_eq_true, if_false, String.append_empty]
      using written.symm.trans line
  exact (Line.isMisread_of_mem (c := 'f') (by decide) (by decide) (by decide)
    (by decide)).not_isPropertyName property

end Compile
end ModelTypes
