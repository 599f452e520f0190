import ModelTypes.Proofs.Compile.Calls
import ModelTypes.Proofs.Compile.Modes
import ModelTypes.Proofs.Compile.Substitution
import ModelTypes.Proofs.Compile.Virtuals
import ModelTypes.Proofs.Field.Inhabited
import ModelTypes.Proofs.Field.Origins
/-!
# Identifiers in headers and bodies

The header of a document type names the type of the identifier, read from the tree as it was
written; the body declares the identifier in the tree with references in the places of children.
Both come from one field, so they agree as long as no child stands at the identifier or below it
beside a reference to a model (`compile_identifiers`). A header says `never` just if the body
declares no identifier.
-/

namespace ModelTypes.Compile

variable {s : Store} {p : Projection} {key name parent header body type : String} {raw : Value}
  {tree : Entries} {lines : Keyed String} {ws ws' : Workspace} {id : SchemaId} {model : String}

/-! ## Lines -/

/-- The declaration lines of a tree, under the keys of its fields. -/
def fieldLines (s : Store) (p : Projection) (tree : Entries) : Except CompileError (Keyed String) :=
  tree.mapM fun e => (e.1, ·) <$> fieldLine s p e.1 e.2

theorem fieldLines_of_texts {texts : List String}
    (h : (tree.mapM fun e => fieldLine s p e.1 e.2) = .ok texts) :
    ∃ lines, fieldLines s p tree = .ok lines ∧ texts = Keyed.values lines := by
  unfold fieldLines
  induction tree generalizing texts with
  | nil =>
    cases h
    exact ⟨[], rfl, rfl⟩
  | cons e rest ih =>
    rw [List.mapM_cons] at h
    obtain ⟨text, own, h⟩ := Except.bind_eq_ok_iff.1 h
    obtain ⟨others, ho, h⟩ := Except.bind_eq_ok_iff.1 h
    cases h
    obtain ⟨lines, hl, rfl⟩ := ih ho
    refine ⟨(e.1, text) :: lines, ?_, rfl⟩
    rw [List.mapM_cons, own, hl]
    rfl

theorem fieldLines_of_bodyText (h : bodyText s p tree = .ok body) :
    ∃ lines, fieldLines s p tree = .ok lines ∧ body = String.join (Keyed.values lines) := by
  obtain ⟨texts, ht, h⟩ := Except.bind_eq_ok_iff.1 h
  obtain ⟨lines, hl, rfl⟩ := fieldLines_of_texts ht
  cases h
  exact ⟨lines, hl, rfl⟩

/-- Every field has its line, and no other line is there. -/
theorem get?_fieldLines (h : fieldLines s p tree = .ok lines) (key : String) :
    Option.Rel (fun v line => fieldLine s p key v = .ok line) (Keyed.get? tree key)
      (Keyed.get? lines key) := by
  unfold fieldLines at h
  induction tree generalizing lines with
  | nil =>
    cases h
    exact .none
  | cons e rest ih =>
    rw [List.mapM_cons] at h
    obtain ⟨_, own, h⟩ := Except.bind_eq_ok_iff.1 h
    obtain ⟨others, ho, h⟩ := Except.bind_eq_ok_iff.1 h
    cases h
    obtain ⟨line, hl, rfl⟩ := Except.map_eq_ok_iff.1 own
    rw [Keyed.get?_cons, Keyed.get?_cons]
    by_cases hk : key = e.1
    · rw [if_pos hk, if_pos hk]
      exact .some (hk ▸ hl)
    · rw [if_neg hk, if_neg hk]
      exact ih ho

/-! ## The identifier -/

/-- The identifier is always declared. -/
theorem describe_identifier {read : Option Field} (h : Field.describe s "_id" raw = .ok read) :
    ∃ field, read = some field ∧ field.key = "_id" := by
  rw [Field.describe_eq, if_neg (by decide)] at h
  cases read with
  | some field => exact ⟨field, rfl, (Field.origin_of_describeOnce h).1⟩
  | none =>
    rw [Field.describeOnce, if_neg (by decide)] at h
    split at h
    · cases h
    split at h
    · cases h
    · obtain ⟨_, _, h⟩ := Except.map_eq_ok_iff.1 h
      cases h

theorem describe_null : Field.describe s "_id" .null = .error (.unsupported "_id" .null) := rfl

theorem substitute_null {path : String} : substitute s model path .null = .null := by
  simp [substitute, substituted, childAt?]

/-- The type that a document declares for the identifier of a definition. -/
structure IdentifierType (s : Store) (p : Projection) (raw : Value) (field : Field)
    (type : String) : Prop where
  described : Field.describe s "_id" raw = .ok (some field)
  typed : Render.type? s p field = .ok (some type)
  inhabited : type ≠ "never"

theorem exists_identifierType (document : p.document = true) {field : Field}
    {type? : Option String} (described : Field.describe s "_id" raw = .ok (some field))
    (h : Render.type? s p field = .ok type?) :
    ∃ type, type? = some type ∧ IdentifierType s p raw field type := by
  obtain ⟨type, rfl, inhabited⟩ := Render.type?_document document h
  exact ⟨type, rfl, described, h, inhabited⟩

theorem identifierType_of_idType (document : p.document = true)
    (h : idType s p (some raw) = .ok type) : ∃ field, IdentifierType s p raw field type := by
  obtain ⟨type?, h, ht⟩ := Except.bind_eq_ok_iff.1 h
  obtain ⟨read, hd, h⟩ := Except.bind_eq_ok_iff.1 h
  have described := mapError_eq_ok_iff.1 hd
  obtain ⟨field, rfl, -⟩ := describe_identifier described
  obtain ⟨_, rfl, identifier⟩ := exists_identifierType document described (mapError_eq_ok_iff.1 h)
  cases ht
  exact ⟨field, identifier⟩

theorem identifierType_of_fieldLine (document : p.document = true) {line : String}
    (h : fieldLine s p "_id" raw = .ok line) : ∃ field type, IdentifierType s p raw field type ∧
      line = Line.entry "_id" type field.optional := by
  obtain ⟨read, hd, h⟩ := Except.bind_eq_ok_iff.1 h
  have described := mapError_eq_ok_iff.1 hd
  obtain ⟨field, rfl, own⟩ := describe_identifier described
  obtain ⟨type?, ht, h⟩ := Except.bind_eq_ok_iff.1 (mapError_eq_ok_iff.1 h)
  obtain ⟨type, rfl, identifier⟩ := exists_identifierType document described ht
  cases h
  exact ⟨field, type, identifier, by rw [own]⟩

theorem IdentifierType.unique {field field' : Field} {type' : String}
    (h : IdentifierType s p raw field type) (h' : IdentifierType s p raw field' type') :
    type = type' := by
  cases h.described.symm.trans h'.described
  cases h.typed.symm.trans h'.typed
  rfl

/-- No child at the identifier or below it is declared beside a reference to a model. -/
def UnreferredId (s : Store) (tree : Entries) : Prop :=
  ∀ raw ∈ Keyed.get? tree "_id", raw.refersBeside s = false

/-- What a header reads as the identifier: what the tree has, where a child's header takes a null
for nothing. -/
def ReadAsId (tree : Entries) (raw : Option Value) : Prop :=
  raw = Keyed.get? tree "_id" ∨ raw = none ∧ Keyed.get? tree "_id" = some .null

/-- Some lines declare the identifier, or none do. -/
theorem declaredId_cases (document : p.document = true) (h : fieldLines s p tree = .ok lines) :
    (Keyed.get? tree "_id" = none ∧ Keyed.get? lines "_id" = none) ∨
    ∃ raw field type, Keyed.get? tree "_id" = some raw ∧ IdentifierType s p raw field type ∧
      Keyed.get? lines "_id" = some (Line.entry "_id" type field.optional) := by
  have own := get?_fieldLines h "_id"
  generalize Keyed.get? tree "_id" = declared, Keyed.get? lines "_id" = found at own ⊢
  cases own with
  | none => exact .inl ⟨rfl, rfl⟩
  | some own =>
    obtain ⟨field, type, identifier, rfl⟩ := identifierType_of_fieldLine document own
    exact .inr ⟨_, field, type, rfl, identifier, rfl⟩

/-- The type that a header reads and the one that the body declares are of one field. -/
theorem idType_declared (document : p.document = true) {declared : Entries} {raw : Option Value}
    (expanded : Keyed.get? declared "_id" = (Keyed.get? tree "_id").map (substitute s model "_id"))
    (h : fieldLines s p declared = .ok lines) (reads : ReadAsId tree raw)
    (ht : idType s p raw = .ok type) :
    idType s p (Keyed.get? tree "_id") = .ok type ∧
      (type = "never" ↔ Keyed.get? lines "_id" = none) ∧
      (UnreferredId s tree → ∀ line ∈ Keyed.get? lines "_id",
        ∃ optional, line = Line.entry "_id" type optional) := by
  rcases declaredId_cases document h with ⟨hd, hl⟩ | ⟨own, field, declaredType, hd, identifier, hl⟩
  · rw [expanded, Option.map_eq_none_iff] at hd
    obtain rfl : raw = none := by
      rcases reads with rfl | ⟨rfl, -⟩
      · exact hd
      · rfl
    cases ht
    exact ⟨by rw [hd]; rfl, by simp [hl], by simp [hl]⟩
  · rw [expanded] at hd
    obtain ⟨written, hw, rfl⟩ := Option.map_eq_some_iff.1 hd
    obtain rfl : raw = some written := by
      rcases reads with rfl | ⟨-, null⟩
      · exact hw
      · -- Where a child's header takes a null for nothing, the body fails.
        rw [hw] at null
        cases null
        have unread := identifier.described
        rw [substitute_null, describe_null] at unread
        cases unread
    obtain ⟨field', own⟩ := identifierType_of_idType document ht
    refine ⟨hw ▸ ht, by simp [hl, own.inhabited], fun unreferred line hline => ?_⟩
    have same : IdentifierType s p (substitute s model "_id" written) field' type :=
      ⟨Field.describe_substitute own.described (unreferred written hw), own.typed, own.inhabited⟩
    rw [hl] at hline
    exact ⟨field.optional, same.unique identifier ▸ (Option.some.inj hline).symm⟩

/-! ## Blocks -/

/-- How a block's schema came to be rendered: as the model's own, or as a child, single or in an
array, of the schema that a parent block declares. -/
inductive Role where
  | root
  | single (parent : String)
  | items (parent path : String)

namespace Role

def ofChild (parent : String) (b : ChildBinding) : Role :=
  if b.isArray then .items parent b.path else .single parent

/-- Whether the header of a document type names the type of the identifier. -/
def namesId : Role → Bool
  | root | single _ => true
  | items _ _ => false

/-- The opening of a document type with an identifier of some type. -/
def opening (name type : String) : Role → String
  | root => documentOpening name
      ("mongoose.Document<" ++ type ++ ", " ++ name ++ "Queries> & " ++ name ++ "Methods")
  | single parent => Comment.documentHeader (Comment.document parent) name
      ("mongoose.Document<" ++ type ++ ">")
  | items parent path => Comment.documentHeader (Comment.subdocument parent path) name
      "mongoose.Types.Subdocument"

end Role

/-- A block of a compilation: where it stands, and as what. -/
structure Place where
  site : Site
  role : Role

mutual

/-- The places of the blocks of a schema under a name, its own last. -/
inductive Placed (ws : Workspace) : Role → SchemaId → String → List Place → Prop
  | intro {role : Role} {id : SchemaId} {model : String} {places : List Place}
      (below : PlacedAll ws model (ws.schema id).children places) :
      Placed ws role id model (places ++ [⟨(id, model), role⟩])

/-- The places of the children of a block, child by child. -/
inductive PlacedAll (ws : Workspace) : String → List ChildBinding → List Place → Prop
  | nil {model : String} : PlacedAll ws model [] []
  | cons {model : String} {b : ChildBinding} {rest : List ChildBinding}
      {places others : List Place}
      (child : Placed ws (.ofChild model b) b.schema (Naming.subdocumentName b.path model) places)
      (siblings : PlacedAll ws model rest others) :
      PlacedAll ws model (b :: rest) (places ++ others)

end

/-- A document block at a place: its lines are those of the tree that its schema declares there, and
its opening names a type. If that is the type of the identifier, it is what the schema's tree
declares as it was written; it is `never` just if no line declares the identifier, and else it is
the type in that line, unless a child stands there beside a reference to a model. -/
structure Identified (ws : Workspace) (place : Place) (block : Block) : Prop where
  name : block.name = place.site.2
  text : ∃ lines type,
    fieldLines ws.store (documentPass ws place.site.1) (declaredTree ws place.site) = .ok lines ∧
    block.text = place.role.opening place.site.2 type ++ String.join (Keyed.values lines)
      ++ Comment.blockFooter ∧
    (place.role.namesId = true →
      idType ws.store (documentPass ws place.site.1)
          (Keyed.get? (ws.schema place.site.1).tree "_id") = .ok type ∧
        (type = "never" ↔ Keyed.get? lines "_id" = none) ∧
        (UnreferredId ws.store (ws.schema place.site.1).tree →
          ∀ line ∈ Keyed.get? lines "_id", ∃ optional, line = Line.entry "_id" type optional))

/-- A schema with a plain tree and the children in it. -/
structure Discovered (schema : Schema) : Prop where
  plain : Plain schema.tree
  children : schema.children = childrenOf schema.tree

instance (schema : Schema) : Decidable (Discovered schema) :=
  decidable_of_iff (Plain schema.tree ∧ schema.children = childrenOf schema.tree)
    ⟨fun h => ⟨h.1, h.2⟩, fun h => ⟨h.plain, h.children⟩⟩

theorem declaredTree_of_discovered (discovered : Discovered (ws.schema id)) (named : model ≠ "") :
    declaredTree ws (id, model) = substituteUnder ws.store model "" (ws.schema id).tree := by
  rw [← unflatten_hoisted_childrenOf discovered.plain, ← discovered.children, declaredTree,
    if_neg named, blockTree]
  dsimp only
  split
  · rename_i none
    rw [List.isEmpty_iff.1 none, List.foldl_nil, unflatten_flatten discovered.plain]
  · rfl

/-- The opening of a place names what can be read as the identifier of its schema. -/
def Heads (ws : Workspace) (place : Place) (header : String) : Prop :=
  ∃ type, header = place.role.opening place.site.2 type ∧ (place.role.namesId = true →
    ∃ raw, ReadAsId (ws.schema place.site.1).tree raw ∧
      idType ws.store (documentPass ws place.site.1) raw = .ok type)

theorem identified_of_bodyText {role : Role} (discovered : Discovered (ws.schema id))
    (named : model ≠ "") (heads : Heads ws ⟨(id, model), role⟩ header)
    (text : bodyText ws.store (documentPass ws id) (declaredTree ws (id, model)) = .ok body) :
    Identified ws ⟨(id, model), role⟩ ⟨model, header ++ body ++ Comment.blockFooter⟩ := by
  obtain ⟨type, rfl, reads⟩ := heads
  obtain ⟨lines, hl, rfl⟩ := fieldLines_of_bodyText text
  refine ⟨rfl, lines, type, hl, rfl, fun names => ?_⟩
  obtain ⟨raw, reads, ht⟩ := reads names
  have expanded : Keyed.get? (declaredTree ws (id, model)) "_id"
      = (Keyed.get? (ws.schema id).tree "_id").map (substitute ws.store model "_id") := by
    rw [declaredTree_of_discovered discovered named, get?_substituteUnder]
    rfl
  exact idType_declared rfl expanded hl reads ht

theorem heads_childHeader {b : ChildBinding}
    (h : childHeader ws parent b name (documentPass ws b.schema) = .ok header) :
    Heads ws ⟨(b.schema, name), .ofChild parent b⟩ header := by
  unfold childHeader at h
  rw [if_neg (by simp [documentPass])] at h
  unfold Heads Role.ofChild
  split at h
  · rename_i array
    cases h
    rw [if_pos array]
    exact ⟨"", rfl, fun names => by cases names⟩
  · rename_i single
    obtain ⟨type, ht, h⟩ := Except.bind_eq_ok_iff.1 h
    cases h
    rw [if_neg single]
    refine ⟨type, rfl, fun _ => ⟨_, ?_, ht⟩⟩
    split
    · rename_i null
      exact .inr ⟨rfl, null⟩
    · exact .inl rfl

/-! ## Renderings -/

mutual

/-- Rendering tidy schemas changes nothing. -/
theorem Renders.eq_of_tidy {ws ws' : Workspace} {id : SchemaId} {model : String} {p : Projection}
    {header footer : String} {blocks : List Block}
    (tidy : Throughout ws id fun x => (ws.schema x).Tidy) :
    Renders ws id model p header footer blocks ws' → ws' = ws
  | .alone _ _ => rfl
  | .parent _ _ hs _ => by
    have same := hs.eq_of_tidy fun b hb => tidy.child hb
    rw [same, hs.flat_eq]
    exact refill_eq_self tidy.own

theorem Hoists.eq_of_tidy {ws ws' : Workspace} {cs : List ChildBinding} {model : String}
    {p : Projection} {flat flat' : Entries} {blocks : List Block}
    (tidy : ∀ b ∈ cs, Throughout ws b.schema fun x => (ws.schema x).Tidy) :
    Hoists ws cs model p flat flat' blocks ws' → ws' = ws
  | .nil => rfl
  | .cons _ child others => by
    rw [List.forall_mem_cons] at tidy
    have same := child.eq_of_tidy tidy.1
    exact (others.eq_of_tidy (same ▸ tidy.2)).trans same

end

theorem Throughout.tidy_of_discovered
    (discovered : Throughout ws id fun x => Discovered (ws.schema x)) :
    Throughout ws id fun x => (ws.schema x).Tidy :=
  fun x hx => tidy_of_plain (discovered x hx).plain (discovered x hx).children

theorem declaredTree_of_hoists {flat : Entries} {blocks : List Block}
    (embeds : (ws.schema id).children ≠ []) (named : model ≠ "")
    (hs : Hoists ws (ws.schema id).children model p (flatten (ws.schema id).tree) flat blocks ws') :
    declaredTree ws (id, model) = unflatten flat := by
  rw [declaredTree, if_neg named, blockTree, if_neg (by simpa using embeds), ← hs.flat_eq]

mutual

/-- A rendering of document types identifies its blocks one by one. -/
theorem Renders.identified {ws ws' : Workspace} {id : SchemaId} {model : String} {p : Projection}
    {header footer : String} {blocks : List Block} {role : Role} (proper : Naming.Proper model)
    (discovered : Throughout ws id fun x => Discovered (ws.schema x))
    (hp : p = documentPass ws id) (hf : footer = Comment.blockFooter)
    (heads : Heads ws ⟨(id, model), role⟩ header) :
    Renders ws id model p header footer blocks ws' →
      ∃ places, Placed ws role id model places ∧ List.Forall₂ (Identified ws) places blocks
  | .alone single text => by
    have none := single.resolve_right proper.1
    have below : PlacedAll ws model (ws.schema id).children [] := none ▸ .nil
    have declared : declaredTree ws (id, model) = (ws.schema id).tree := by
      simp [declaredTree, blockTree, none]
    subst hp hf
    rw [← declared] at text
    exact ⟨_, .intro below, .cons (identified_of_bodyText discovered.own proper.1 heads text) .nil⟩
  | .parent embeds _ hs text => by
    have same := hs.eq_of_tidy fun b hb => discovered.tidy_of_discovered.child hb
    have declared := declaredTree_of_hoists embeds proper.1 hs
    obtain ⟨places, placed, children⟩ :=
      hs.identified proper (fun b hb => discovered.child hb) ⟨id, hp⟩
    subst hp hf
    rw [← declared, same] at text
    exact ⟨_, .intro placed, List.rel_append children
      (.cons (identified_of_bodyText discovered.own proper.1 heads text) .nil)⟩

theorem Hoists.identified {ws ws' : Workspace} {cs : List ChildBinding} {model : String}
    {p : Projection} {flat flat' : Entries} {blocks : List Block}
    (proper : Naming.Proper model)
    (discovered : ∀ b ∈ cs, Throughout ws b.schema fun x => Discovered (ws.schema x))
    (hp : ∃ id, p = documentPass ws id) : Hoists ws cs model p flat flat' blocks ws' →
      ∃ places, PlacedAll ws model cs places ∧ List.Forall₂ (Identified ws) places blocks
  | .nil => ⟨[], .nil, .nil⟩
  | .cons opening child others => by
    rw [List.forall_mem_cons] at discovered
    -- The siblings are rendered in the same workspace, so their trees are as they were written.
    have same := child.eq_of_tidy discovered.1.tidy_of_discovered
    have pass (b : ChildBinding) : childProjection ws p b = documentPass ws b.schema := by
      obtain ⟨id, rfl⟩ := hp
      rfl
    rw [pass] at opening
    obtain ⟨places, placed, first⟩ := child.identified (Naming.proper_subdocumentName proper _)
      discovered.1 (pass _) rfl (heads_childHeader opening)
    obtain ⟨siblings, placed', rest⟩ :=
      others.identified proper (same ▸ discovered.2) (same ▸ hp)
    rw [same] at placed' rest
    exact ⟨_, .cons placed placed', List.rel_append first rest⟩

end

/-! ## Compilations -/

theorem forall₂_pair {R : Place → Block → Prop} {places : List Place} {leans documents : List Block}
    (names : leans.map (·.name) = documents.map (·.name)) (h : List.Forall₂ R places documents) :
    List.Forall₂
      (fun place block => ∃ text, block.document = some text ∧ R place ⟨block.name, text⟩)
      places (leans.zipWith pair documents) := by
  induction h generalizing leans with
  | nil =>
    rw [List.zipWith_nil_right]
    exact .nil
  | cons own _ ih =>
    cases leans with
    | nil => cases names
    | cons lean leans =>
      obtain ⟨name, names⟩ := List.cons.inj names
      refine .cons ⟨_, rfl, ?_⟩ (ih names)
      rw [show (pair lean _).name = _ from name]
      exact own

/-- In a compilation of schemas with plain trees and the children in them, every document type opens
with the type of its own identifier, as its schema declares it, or with `never` if it declares none,
and the line that declares it has the same type, unless a child at the identifier or below it is
declared beside a reference to a model. Only the types of children in arrays open without it. -/
theorem compile_identifiers (proper : Naming.Proper model)
    (discovered : Throughout ws id fun x => Discovered (ws.schema x)) {paired : List PairedBlock}
    (h : (compile id model false).on ws = (.ok paired, ws')) :
    ∃ places, Placed ws .root id model places ∧ List.Forall₂ (fun place block =>
      ∃ text, block.document = some text ∧ Identified ws place ⟨block.name, text⟩)
      places paired := by
  obtain ⟨leans, ws₁, base, documents, hl, hb, hd, rfl⟩ := compile_paired_ok_iff.1 h
  have lean := renderBlocks_ok hl
  have names := lean.names_eq lean.sameButTrees (renderBlocks_ok hd)
  -- The header is read after the lean pass, which has changed nothing.
  obtain rfl := lean.eq_of_tidy discovered.tidy_of_discovered
  have heads : Heads ws₁ ⟨(id, model), .root⟩ (documentOpening model base) := by
    obtain ⟨type, ht, hb⟩ := Except.bind_eq_ok_iff.1 hb
    cases hb
    exact ⟨type, rfl, fun _ => ⟨_, .inl rfl, ht⟩⟩
  obtain ⟨places, placed, identified⟩ :=
    (renderBlocks_ok hd).identified proper discovered rfl rfl heads
  exact ⟨places, placed, forall₂_pair names identified⟩

/-- A schema with an identifier and a child without one. -/
def housed : List Workspace.Edit :=
  [.create (.dict [("street", .str "String")])
     (.dict [("_id", .bool false), ("id", .bool false)]) {},
   .create (.dict [("address", .schema 0)]) .null {}]

theorem compile_identifiers_housed :
    let ws := Workspace.edited {} housed
    Naming.Proper "User" ∧ (Throughout ws 1 fun x => Discovered (ws.schema x)) ∧
      ∃ paired ws' places, (compile 1 "User" false).on ws = (.ok paired, ws') ∧
        paired.map (·.name) = ["UserAddress", "User"] ∧
        Placed ws .root 1 "User" places ∧ List.Forall₂ (fun place block =>
          ∃ text, block.document = some text ∧ Identified ws place ⟨block.name, text⟩)
          places paired := by
  intro ws
  have proper : Naming.Proper "User" := ⟨by decide, by decide⟩
  have discovered : Throughout ws 1 fun x => Discovered (ws.schema x) := fun x _ =>
    Workspace.forall_schema (P := Discovered) (by decide +kernel) (by decide) x
  have names : ((compile 1 "User" false).on ws).1.toOption.map (·.map (·.name))
      = some ["UserAddress", "User"] := by decide +kernel
  obtain ⟨paired, ws', h, names⟩ := ok_of_map_eq names
  obtain ⟨places, placed, identified⟩ := compile_identifiers proper discovered h
  exact ⟨proper, discovered, paired, ws', places, h, names, placed, identified⟩

/-- A schema whose identifier is a child, declared beside a reference to its own model. -/
def referred : List Workspace.Edit :=
  [.create (.dict [("a", .str "String")]) .null {},
   .create (.dict [("_id", .dict [("type", .schema 0), ("ref", .str "User")])]) .null {}]

theorem size_opening : (Role.root.opening name type).utf8ByteSize
    = (Role.root.opening name "").utf8ByteSize + type.utf8ByteSize := by
  simp only [Role.opening, documentOpening, Comment.documentHeader, String.utf8ByteSize_append]
  rw [show "".utf8ByteSize = 0 from rfl]
  omega

theorem size_entry {optional : Bool} : (Line.entry key type optional).utf8ByteSize
    = (Line.entry key "" optional).utf8ByteSize + type.utf8ByteSize := by
  simp only [Line.entry, String.utf8ByteSize_append]
  rw [show "".utf8ByteSize = 0 from rfl]
  omega

/-- The header names the model that is referred to, the body the child. -/
theorem compile_identifiers_differ : ¬ ∀ (edits : List Workspace.Edit) (ws' : Workspace)
    (id : SchemaId) (model : String) (paired : List PairedBlock),
    let ws := Workspace.edited {} edits
    Naming.Proper model → (Throughout ws id fun x => Discovered (ws.schema x)) →
      (compile id model false).on ws = (.ok paired, ws') → ∀ block ∈ paired.getLast?,
        ∃ lines type,
          fieldLines ws.store (documentPass ws id) (declaredTree ws (id, model)) = .ok lines ∧
          block.document = some (Role.root.opening model type ++ String.join (Keyed.values lines)
            ++ Comment.blockFooter) ∧
          (type = "never" ↔ Keyed.get? lines "_id" = none) ∧
          ∀ line ∈ Keyed.get? lines "_id", ∃ optional, line = Line.entry "_id" type optional := by
  intro agree
  let ws := Workspace.edited {} referred
  have discovered : Throughout ws 1 fun x => Discovered (ws.schema x) := fun x _ =>
    Workspace.forall_schema (P := Discovered) (by decide +kernel) (by decide) x
  have written : ((compile 1 "User" false).on ws).1.toOption.map
      (fun paired => (paired.getLast?.bind (·.document)).map (·.utf8ByteSize))
        = some (some 319) := by decide +kernel
  have declared : (fieldLines ws.store (documentPass ws 1) (declaredTree ws (1, "User"))).toOption
      = some [("_id", "_id?: User_idDocument;\n"), ("id", ""), ("__v", "")] := by decide +kernel
  obtain ⟨paired, ws', h, written⟩ := ok_of_map_eq written
  obtain ⟨text, written, size⟩ := Option.map_eq_some_iff.1 written
  obtain ⟨block, last, written⟩ := Option.bind_eq_some_iff.1 written
  obtain ⟨lines, type, hl, opens, -, line⟩ := agree referred ws' 1 "User" paired
    ⟨by decide, by decide⟩ discovered h block last
  rw [hl] at declared
  obtain rfl := Option.some.inj declared
  obtain ⟨optional, line⟩ := line _ rfl
  rw [written] at opens
  -- The text has room for a type of 34 bytes, the line for 16 at most.
  have inText := congrArg String.utf8ByteSize (Option.some.inj opens)
  have inLine := congrArg String.utf8ByteSize line
  have header : (Role.root.opening "User" "").utf8ByteSize = 259 := by decide +kernel
  have body : (String.join (Keyed.values [("_id", "_id?: User_idDocument;\n"), ("id", ""),
      ("__v", "")])).utf8ByteSize = 23 := by decide +kernel
  have footer : Comment.blockFooter.utf8ByteSize = 3 := by decide +kernel
  rw [size, String.utf8ByteSize_append, String.utf8ByteSize_append, size_opening, header, body,
    footer] at inText
  have bare : 7 ≤ (Line.entry "_id" "" optional).utf8ByteSize := by
    cases optional <;> decide +kernel
  have whole : "_id?: User_idDocument;\n".utf8ByteSize = 23 := by decide +kernel
  rw [whole, size_entry] at inLine
  omega

end ModelTypes.Compile
