import ModelTypes.Field.Render
import ModelTypes.Proofs.Compile.Projections
import ModelTypes.Proofs.Field.Origins
import ModelTypes.Proofs.Line
import ModelTypes.Proofs.Text.Words
/-!
# Words in declarations of fields

The library's own types are named in document types and where identifiers are no plain texts.
Without both, the lines of a field hold the library's name only if the field says it itself
(`sealed_lines`). A field says no more than its definition does (`tells_of_describeWithin`).
-/

namespace ModelTypes

open Text (Free Sealed)

/-! ## Literals -/

variable {s : Store} {p : Projection} {key type text : String} {raw v : Value}

theorem free_leafLiteral (texts : ∀ t, (Outline.leaf v).HasText t → Free t.toList)
    (h : v.leafLiteral = .ok text) : Free text.toList := by
  cases v with
  | null =>
    cases h
    decide
  | bool b =>
    cases h
    cases b <;> decide
  | int n =>
    cases h
    exact Text.free_int n
  | float d =>
    cases h
    exact Text.free_double (by decide) (by decide) d
  | str t =>
    cases h
    exact (Text.sealed_quote (texts t (.text t))).free
  | kind k =>
    cases h
    have names : Kind.all.all fun k => decide (Free k.name.toList) := by decide
    exact (Text.sealed_quote (of_decide_eq_true (List.all_eq_true.1 names k k.mem_all))).free
  | _ => cases h

theorem free_listLiteral {texts : List String} (h : ∀ t ∈ texts, Free t.toList) :
    Free (listLiteral texts).toList := by
  have joined : Free (", ".intercalate texts).toList := Text.free_intercalate (by decide) h
  rw [listLiteral, String.toList_append, String.toList_append]
  exact (Text.Free.seal (Text.Sealed.add (by decide) joined) (by decide)).free

mutual

theorem free_literal : ∀ (o : Outline) {text : String}, (∀ t, o.HasText t → Free t.toList) →
    o.literal = .ok text → Free text.toList
  | .leaf v, _, texts, h => free_leafLiteral texts h
  | .list items, _, texts, h => by
    obtain ⟨items', hi, rfl⟩ := Except.map_eq_ok_iff.1 h
    exact free_listLiteral (free_itemLiterals items (fun o ho t ht => texts t (.item ho ht)) hi)
  | .tuple items, _, texts, h => by
    obtain ⟨items', hi, rfl⟩ := Except.map_eq_ok_iff.1 h
    exact free_listLiteral
      (free_itemLiterals items (fun o ho t ht => texts t (.component ho ht)) hi)
  | .dict entries, _, texts, h => by
    obtain ⟨entries', he, h⟩ := Except.bind_eq_ok_iff.1 h
    cases h
    have joined : Free (", ".intercalate entries').toList :=
      Text.free_intercalate (by decide) (free_entryLiterals entries
        (fun e hm => ⟨texts _ (.key hm), fun t ht => texts t (.value hm ht)⟩) he)
    rw [String.toList_append, String.toList_append]
    exact (Text.Free.seal (Text.Sealed.add (by decide) joined) (by decide)).free
  | .object _, _, _, h | .model _ _, _, _, h | .embedded _ _, _, _, h
  | .enumeration _, _, _, h | .member _ _ _, _, _, h => by cases h
  | .again e, _, _, h => by cases e <;> cases h

theorem free_itemLiterals : ∀ (items : List Outline) {literals : List String},
    (∀ o ∈ items, ∀ t, o.HasText t → Free t.toList) → itemLiterals items = .ok literals →
      ∀ t ∈ literals, Free t.toList
  | [], _, _, h => by
    cases h
    simp
  | item :: rest, _, texts, h => by
    obtain ⟨first, hf, h⟩ := Except.bind_eq_ok_iff.1 h
    obtain ⟨others, ho, h⟩ := Except.bind_eq_ok_iff.1 h
    cases h
    obtain ⟨own, below⟩ := List.forall_mem_cons.1 texts
    exact List.forall_mem_cons.2 ⟨free_literal item own hf, free_itemLiterals rest below ho⟩

theorem free_entryLiterals : ∀ (entries : List (String × Outline)) {literals : List String},
    (∀ e ∈ entries, Free e.1.toList ∧ ∀ t, e.2.HasText t → Free t.toList) →
      entryLiterals entries = .ok literals → ∀ t ∈ literals, Free t.toList
  | [], _, _, h => by
    cases h
    simp
  | (k, v) :: rest, _, texts, h => by
    obtain ⟨first, hf, h⟩ := Except.bind_eq_ok_iff.1 h
    obtain ⟨others, ho, h⟩ := Except.bind_eq_ok_iff.1 h
    cases h
    obtain ⟨⟨name, own⟩, below⟩ := List.forall_mem_cons.1 texts
    refine List.forall_mem_cons.2 ⟨?_, free_entryLiterals rest below ho⟩
    rw [String.toList_append, String.toList_append]
    exact ((Text.sealed_quote name).free.seal (by decide)).add (free_literal v own hf)

end

/-! ## The pieces of a line -/

namespace Line

theorem free_enumUnion {values : List Value}
    (h : ∀ v ∈ values, ∀ t, (s.outline (enumValue s v)).HasText t → Free t.toList)
    (union : enumUnion s values = .ok text) : Free text.toList := by
  obtain ⟨texts, rfl, -, members⟩ := exists_of_enumUnion union
  refine Text.free_intercalate (by decide) fun t ht => ?_
  rcases members t ht with rfl | ⟨v, hv, literal⟩
  · decide
  · exact free_literal _ (h v hv) literal

theorem free_keyText (h : Free key.toList) : Free (keyText key).toList := by
  unfold keyText
  split
  · exact h
  · exact (Text.sealed_quote h).free

theorem sealed_entry {optional : Bool} (hk : Free key.toList) (ht : Free type.toList) :
    Sealed (entry key type optional).toList := by
  have before : Sealed (if key == "" then ""
      else keyText key ++ (if optional then "?" else "") ++ ": ").toList := by
    split
    · exact Text.sealed_nil
    · rw [String.toList_append, String.toList_append]
      have named := free_keyText hk
      cases optional with
      | false => simpa using named.seal (b := ": ".toList) (by decide)
      | true => exact (named.seal (by decide)).append (by decide)
  rw [entry, if_pos rfl, String.toList_append, String.toList_append, String.toList_append]
  exact ((before.add ht).seal (by decide)).append (by decide)

theorem free_wrapMap (h : Free type.toList) : Free (wrapMap type false).toList := by
  rw [wrapMap, if_neg Bool.false_ne_true, String.toList_append, String.toList_append]
  exact ((Text.Sealed.add (by decide) h).seal (by decide)).free

theorem free_wrapArray {subdocument : Bool} (h : Free type.toList) :
    Free (wrapArray type false subdocument).toList := by
  rw [wrapArray, if_neg Bool.false_ne_true]
  split
  · rw [String.toList_append, String.toList_append]
    exact ((Text.Sealed.add (by decide) h).seal (by decide)).free
  · rw [String.toList_append]
    exact (h.seal (by decide)).free

end Line

theorem FieldOf.free_wrap {σ : Type} (field : FieldOf σ) (h : Free type.toList) :
    Free (field.wrap false type).toList := by
  have mapped {text : String} (wrap : Bool) (h : Free text.toList) :
      Free (if wrap then Line.wrapMap text false else text).toList := by
    split
    · exact Line.free_wrapMap h
    · exact h
  have listed {text : String} (h : Free text.toList) : Free (if field.isArray then
      Line.wrapArray text false field.isSubdocumentArray else text).toList := by
    split
    · exact Line.free_wrapArray h
    · exact h
  exact mapped _ (listed (mapped _ h))

/-! ## Described fields -/

/-- Keys, names of models and of children, and enumerated texts are free of the word. -/
def freeSorts : TellSorts where
  key name := Free name.toList
  model name := Free name.toList
  child name := Free name.toList
  text name := Free name.toList

/-- What a field says of itself and of what stands below it is free of the word. -/
abbrev FieldOf.IsFree (s : Store) : FieldOf Shape → Prop := FieldOf.Tells s freeSorts

theorem FieldOf.IsFree.free_key {field : FieldOf Shape} (h : field.IsFree s) :
    Free field.key.toList := by
  cases h <;> assumption

namespace Render

/-- Only document types and identifiers that are no plain texts have names of the library. -/
theorem free_primitive (lean : p.document = false) (plain : p.plainIds = true)
    (kind : PrimitiveKind) : Free (primitive p kind).toList := by
  cases kind <;> simp only [primitive, lean, plain] <;> decide

theorem free_scalar (lean : p.document = false) (plain : p.plainIds = true) {kind : PrimitiveKind}
    {enum : Option (List Value)}
    (h : ∀ values ∈ enum, ∀ v ∈ values, ∀ t, (s.outline (Line.enumValue s v)).HasText t →
      Free t.toList) (text_eq : scalar s p kind enum = .ok text) : Free text.toList := by
  unfold scalar at text_eq
  split at text_eq
  case h_1 v vs | h_2 v vs =>
    cases union : Line.enumUnion s (v :: vs) <;> rw [union] at text_eq <;> cases text_eq
    exact Line.free_enumUnion (h _ rfl) union
  case h_3 =>
    cases text_eq
    exact free_primitive lean plain kind

theorem free_reference (lean : p.document = false) (plain : p.plainIds = true) {model : String}
    (h : Free model.toList) (idKind : Option PrimitiveKind) :
    Free (reference p model idKind).toList := by
  unfold reference
  rw [lean, plain, if_neg Bool.false_ne_true]
  cases idKind with
  | none =>
    dsimp only
    rw [String.toList_append, String.toList_append]
    exact (h.seal (by decide)).add h
  | some kind =>
    dsimp only
    rw [String.toList_append, String.toList_append]
    exact ((free_primitive lean plain kind).seal (by decide)).add h

mutual

theorem free_shape (lean : p.document = false) (plain : p.plainIds = true) :
    ∀ (sh : Shape) {key o a m ma sa text}, FieldOf.IsFree s ⟨key, sh, o, a, m, ma, sa⟩ →
      shape s p sh = .ok text → Free text.toList
  | .scalar kind enum, _, _, _, _, _, _, _, .scalar _ values, h => free_scalar lean plain values h
  | .nested fields, _, _, _, _, _, _, _, .nested _ below, h => by
    obtain ⟨body, hb, h⟩ := Except.bind_eq_ok_iff.1 h
    cases h
    rw [String.toList_append, String.toList_append]
    exact ((Text.Sealed.append (by decide) (sealed_lines lean plain fields below hb)).append
      (by decide)).free
  | .reference model idKind, _, _, _, _, _, _, _, .reference _ named, h => by
    cases h
    exact free_reference lean plain named idKind
  | .embedded name _, _, _, _, _, _, _, _, .embedded _ named, h => by
    have own : Free name.toList := named
    rw [shape, lean] at h
    cases h
    simpa using own
  | .virtual, _, _, _, _, _, _, _, _, h => by
    cases h
    decide
  | .unknown _, _, _, _, _, _, _, _, _, h => by cases h

theorem free_type (lean : p.document = false) (plain : p.plainIds = true) :
    ∀ (field : FieldOf Shape) {text}, field.IsFree s → type? s p field = .ok (some text) →
      Free text.toList
  | ⟨key, sh, o, a, m, ma, sa⟩, text, free, h => by
    by_cases hv : sh = .virtual
    · subst hv
      rw [type?, lean] at h
      split at h <;> cases h
      exact FieldOf.free_wrap _ (by decide)
    · rw [type?_eq hv, lean] at h
      obtain ⟨type, ht, h⟩ := Except.map_eq_ok_iff.1 h
      cases h
      exact FieldOf.free_wrap _ (free_shape lean plain sh free ht)

theorem sealed_lines (lean : p.document = false) (plain : p.plainIds = true) :
    ∀ (fields : List (FieldOf Shape)) {text}, (∀ field ∈ fields, field.IsFree s) →
      lines s p fields = .ok text → Sealed text.toList
  | [], _, _, h => by
    cases h
    exact Text.sealed_nil
  | field :: rest, _, free, h => by
    obtain ⟨own, others⟩ := List.forall_mem_cons.1 free
    obtain ⟨type, ht, h⟩ := Except.bind_eq_ok_iff.1 h
    obtain ⟨more, hm, h⟩ := Except.bind_eq_ok_iff.1 h
    cases h
    rw [String.toList_append]
    refine Text.Sealed.append ?_ (sealed_lines lean plain rest others hm)
    cases type with
    | none => exact Text.sealed_nil
    | some type => exact Line.sealed_entry own.free_key (free_type lean plain field own ht)

end

end Render

/-! ## Definitions -/

namespace Field

open Relation

/-- What a definition says of its own field is free of the word. A reference loses its first
apostrophe, and could be joined there. -/
structure DefinesFree (s : Store) (f : String × Value) : Prop where
  key : Free f.1.toList
  child : ∀ w e, (w = f.2 ∨ ∃ rest, s.items? f.2 = some (w :: rest)) → s.embedding? w = some e →
    Free e.name.toList
  reference : ∀ name, RefersTo s f.2 name → Free name.toList ∧ '\'' ∉ name.toList
  enumerated : ∀ text, Enumerates s f.2 text → Free text.toList

theorem free_referenceName {ref : Value} {model : String}
    (names : ∀ name, ((s.attribute? ref "model_name").getD ref).text? = some name →
      Free name.toList ∧ '\'' ∉ name.toList)
    (h : referenceName s key ref = .ok model) : Free model.toList := by
  unfold referenceName at h
  split at h
  · cases h
  rename_i name text
  obtain ⟨free, whole⟩ := names name text
  have kept : ∀ c ∈ name.toList, (c != '\'') = true := fun c hc => by
    simpa using fun same : c = '\'' => whole (same ▸ hc)
  have plain : name.toList.takeWhile (· != '\'') ++ (name.toList.dropWhile (· != '\'')).drop 1
      = name.toList := by
    rw [List.takeWhile_eq_self_iff.2 kept, List.dropWhile_eq_nil_iff.2 kept]
    simp
  dsimp only at h
  rw [plain, String.ofList_toList] at h
  cases h
  split
  · exact Naming.free_subdocumentName (by decide) fun word hw =>
      free.of_part (infix_of_mem_splitChars hw)
  · exact free

theorem DefinesFree.defines {f : String × Value} (h : DefinesFree s f) : Defines s freeSorts f where
  key := h.key
  child := h.child
  reference _ _ offers truthy :=
    free_referenceName fun name text => h.reference name ⟨_, offers, truthy, text⟩
  enumerated := h.enumerated

end Field

end ModelTypes
