import Mathlib.Data.List.Forall2
import ModelTypes.Proofs.Compile.Projections
import ModelTypes.Proofs.Field.Denotation
import ModelTypes.Proofs.Path
/-!
# Type texts are read back in one way

The text of a field's type has exactly one tree in the grammar of type texts, and that tree stands
for the type that the field describes (`type?_parses`): parentheses are put wherever `[]` would bind
tighter than the union before it.
-/

namespace ModelTypes

/-! ## Texts that are read as trees -/

/-- In front of anything but the rest of a word, a text has some tokens. -/
def ReadsAs (text : String) (tokens : List Token) : Prop :=
  ∀ rest, Apart rest → lex (text.toList ++ rest) = tokens ++ lex rest

/-- The text of a primary that stands for a type. -/
def SpellsPrimary (text : String) (term : TypeTerm) : Prop :=
  ∃ type : PrimaryTree, ReadsAs text type.tokens ∧ type.term = term

def SpellsPostfix (text : String) (term : TypeTerm) : Prop :=
  ∃ type : PostfixTree, ReadsAs text type.tokens ∧ type.term = term

def Spells (text : String) (term : TypeTerm) : Prop :=
  ∃ type : TypeTree, ReadsAs text type.tokens ∧ type.term = term

/-- The text of a type that is a primary unless it has blanks. -/
def SpellsTightly (text : String) (term : TypeTerm) : Prop :=
  SpellsPrimary text term ∨ ' ' ∈ text.toList ∧ Spells text term

variable {text text' : String} {type type' : TypeTerm} {parts : List String}

theorem SpellsPrimary.bare (h : SpellsPrimary text type) : SpellsPostfix text type := by
  obtain ⟨tree, reads, rfl⟩ := h
  exact ⟨.arrays tree 0, by simpa [PostfixTree.tokens, bracketTokens] using reads, rfl⟩

theorem SpellsPostfix.spells (h : SpellsPostfix text type) : Spells text type := by
  obtain ⟨tree, reads, rfl⟩ := h
  exact ⟨.last tree, reads, rfl⟩

theorem SpellsPrimary.spells (h : SpellsPrimary text type) : Spells text type := h.bare.spells

theorem SpellsTightly.spells (h : SpellsTightly text type) : Spells text type :=
  h.elim SpellsPrimary.spells And.right

/-! ### Names -/

theorem lex_dotted {rest : List Char} (hp : ∀ part ∈ parts, IsWord part) (hne : parts ≠ [])
    (h : Apart rest) :
    lex ((Path.dotted parts).toList ++ rest) = dottedTokens parts ++ lex rest := by
  induction parts with
  | nil => exact absurd rfl hne
  | cons part others ih =>
    obtain ⟨word, words⟩ := List.forall_mem_cons.1 hp
    cases others with
    | nil => exact lex_word word h
    | cons next others =>
      have split : (Path.dotted (part :: next :: others)).toList ++ rest
          = part.toList ++ '.' :: ((Path.dotted (next :: others)).toList ++ rest) := by
        simp [Path.dotted]
      rw [split, lex_word word (apart_cons.2 (by decide)), lex_mark (by decide),
        ih words (by simp)]
      rfl

/-- A name of identifiers is read as such. -/
theorem spells_name (hne : parts ≠ []) (hp : ∀ part ∈ parts, IsIdentifier part) :
    SpellsPrimary (Path.dotted parts) (.name parts) :=
  ⟨.name ⟨parts, hne, hp⟩, fun _ => lex_dotted (fun part hm => (hp part hm).1) hne, rfl⟩

theorem isIdentifier_append {name rest : String} (h : isTypeName name = true)
    (hr : rest.toList.all Line.isWordChar = true) : IsIdentifier (name ++ rest) := by
  unfold isTypeName at h
  split at h
  · rename_i c cs hn
    simp only [Bool.and_eq_true] at h
    have chars : (name ++ rest).toList = c :: (cs ++ rest.toList) := by simp [hn]
    have word : Line.isWordChar c = true := by
      show (((c.isUpper || c.isLower) || c.isDigit) || c == '_') = true
      simp [h.1]
    have noDigit : c.isDigit = false := by
      have upper : 'A'.val ≤ c.val ∧ c.val ≤ 'Z'.val := of_decide_eq_true h.1
      rw [← Bool.not_eq_true]
      intro digit
      have below : '0'.val ≤ c.val ∧ c.val ≤ '9'.val := by
        simpa [Char.isDigit] using digit
      exact absurd (UInt32.le_trans upper.1 below.2) (by decide)
    refine ⟨⟨fun he => ?_, ?_⟩, ?_, fun he => ?_⟩
    · rw [he] at chars
      cases chars
    · rw [Line.isBareKey, chars, List.all_cons, List.all_append, word, h.2, hr]
      rfl
    · simpa [chars] using noDigit
    · have first := congrArg List.head? chars
      rw [he, show "null".toList.head? = some 'n' by decide] at first
      cases first
      exact absurd h.1 (by decide)
  · cases h

/-! ### Wrappers -/

/-- A name with a type as its argument. -/
theorem spells_apply (hne : parts ≠ []) (hp : ∀ part ∈ parts, IsIdentifier part)
    (h : Spells text type) : SpellsPrimary (Path.dotted parts ++ "<" ++ text ++ ">")
      (.apply parts [type]) := by
  obtain ⟨tree, reads, rfl⟩ := h
  refine ⟨.apply ⟨parts, hne, hp⟩ tree .done, fun rest _ => ?_, rfl⟩
  have split : (Path.dotted parts ++ "<" ++ text ++ ">").toList ++ rest
      = (Path.dotted parts).toList ++ '<' :: (text.toList ++ '>' :: rest) := by
    simp
  rw [split, lex_dotted (fun part hm => (hp part hm).1) hne (apart_cons.2 (by decide)),
    lex_mark (by decide), reads _ (apart_cons.2 (by decide)), lex_mark (by decide)]
  simp [PrimaryTree.tokens, ArgumentsTree.tokens, DottedName.tokens]

theorem spells_map (h : Spells text type) (document : Bool) :
    SpellsPrimary (Line.wrapMap text document) (Render.mapTerm document type) := by
  cases document with
  | true =>
    have hp : ∀ part ∈ ["mongoose", "Types", "Map"], IsIdentifier part := by decide
    have dotted : "mongoose.Types.Map<" = Path.dotted ["mongoose", "Types", "Map"] ++ "<" := by
      decide
    rw [Line.wrapMap, if_pos rfl, dotted]
    exact spells_apply (by simp) hp h
  | false =>
    obtain ⟨tree, reads, rfl⟩ := h
    have string : ∀ part ∈ ["string"], IsIdentifier part := by decide
    have map : ∀ part ∈ ["Map"], IsIdentifier part := by decide
    refine ⟨.apply ⟨["Map"], by simp, map⟩
      (.last (.arrays (.name ⟨["string"], by simp, string⟩) 0)) (.cons tree .done),
      fun rest _ => ?_, rfl⟩
    have split : (Line.wrapMap text false).toList ++ rest
        = "Map".toList ++ '<' ::
          ("string".toList ++ ',' :: ' ' :: (text.toList ++ '>' :: rest)) := by
      simp [Line.wrapMap]
    rw [split, lex_word (by decide) (apart_cons.2 (by decide)), lex_mark (by decide),
      lex_word (by decide) (apart_cons.2 (by decide)), lex_mark (by decide),
      lex_blank (by decide), reads _ (apart_cons.2 (by decide)), lex_mark (by decide)]
    simp [PrimaryTree.tokens, PostfixTree.tokens, TypeTree.tokens, ArgumentsTree.tokens,
      DottedName.tokens, dottedTokens, bracketTokens]

theorem spells_brackets (h : SpellsPrimary text type) : Spells (text ++ "[]") (.array type) := by
  obtain ⟨tree, reads, rfl⟩ := h
  refine ⟨.last (.arrays tree 1), fun rest _ => ?_, rfl⟩
  have split : (text ++ "[]").toList ++ rest = text.toList ++ '[' :: ']' :: rest := by simp
  rw [split, reads _ (apart_cons.2 (by decide)), lex_mark (by decide), lex_mark (by decide)]
  simp [TypeTree.tokens, PostfixTree.tokens, bracketTokens]

theorem spells_parens (h : Spells text type) : SpellsPrimary ("(" ++ text ++ ")") type := by
  obtain ⟨tree, reads, rfl⟩ := h
  refine ⟨.parens tree, fun rest _ => ?_, rfl⟩
  have split : ("(" ++ text ++ ")").toList ++ rest = '(' :: (text.toList ++ ')' :: rest) := by simp
  rw [split, lex_mark (by decide), reads _ (apart_cons.2 (by decide)), lex_mark (by decide)]
  simp [PrimaryTree.tokens]

/-- A type with blanks is put in parentheses, so that `[]` applies to all of it. -/
theorem spells_array (h : SpellsTightly text type) (document subdocument : Bool) :
    Spells (Line.wrapArray text document subdocument)
      (Render.arrayTerm document subdocument type) := by
  cases document with
  | true =>
    have dotted : "mongoose.Types." ++ (if subdocument then "Document" else "") ++ "Array<"
        = Path.dotted ["mongoose", "Types", if subdocument then "DocumentArray" else "Array"]
          ++ "<" := by
      cases subdocument <;> decide
    have hp : ∀ part ∈ ["mongoose", "Types", if subdocument then "DocumentArray" else "Array"],
        IsIdentifier part := by
      cases subdocument <;> decide
    rw [Line.wrapArray, if_pos rfl, dotted]
    exact (spells_apply (by simp) hp h.spells).spells
  | false =>
    rw [Line.wrapArray, if_neg (by decide)]
    split
    · have split : "(" ++ text ++ ")[]" = "(" ++ text ++ ")" ++ "[]" :=
        String.toList_inj.1 (by simp)
      rw [split]
      exact spells_brackets (spells_parens h.spells)
    · rename_i plain
      obtain h | ⟨blank, -⟩ := h
      · exact spells_brackets h
      · exact absurd (List.contains_iff_mem.2 blank) plain

/-- A field's type is spelled in its wrappers if its shape is. -/
theorem spells_wrap {σ : Type} (h : SpellsTightly text type) (field : FieldOf σ)
    (document : Bool) :
    Spells (field.wrap document text) (Render.wrapTerm field document type) := by
  have array := fun text type (h : SpellsTightly text type) =>
    spells_array h document field.isSubdocumentArray
  unfold FieldOf.wrap Render.wrapTerm
  cases field.isMap <;> cases field.mapOfArray <;> cases field.isArray
  case false.false.false | false.true.false => exact h.spells
  case false.false.true | false.true.true => exact array _ _ h
  case true.false.false | true.true.false => exact (spells_map h.spells document).spells
  case true.false.true => exact array _ _ (.inl (spells_map h.spells document))
  case true.true.true => exact (spells_map (array _ _ h) document).spells

/-! ### Literals and unions -/

/-- The digits of a number. -/
def digitsOf (n : Nat) : Digits where
  word := n.repr
  filled := Nat.repr_ne_empty
  digits := by
    rw [Nat.toList_repr, List.all_eq_true]
    exact fun c hc => Nat.isDigit_of_mem_toDigits (by decide) (by decide) hc

theorem value_digitsOf (n : Nat) : (digitsOf n).value = n := by
  rw [Digits.value, digitsOf, Nat.toList_repr, Nat.ofDigitChars_ten_toDigits]

theorem Digits.isWord (digits : Digits) : IsWord digits.word := by
  refine ⟨digits.filled, List.all_eq_true.2 fun c hc => ?_⟩
  exact isWordChar_of_isDigit (List.all_eq_true.1 digits.digits c hc)

theorem spells_int (n : Int) : SpellsPrimary (toString n) (.int n) := by
  cases n with
  | ofNat n =>
    refine ⟨.nat (digitsOf n), fun rest h => lex_word (digitsOf n).isWord h, ?_⟩
    rw [PrimaryTree.term, value_digitsOf]
    rfl
  | negSucc n =>
    refine ⟨.minus (digitsOf (n + 1)), fun rest h => ?_, ?_⟩
    · have split : (toString (Int.negSucc n)).toList ++ rest
          = '-' :: ((digitsOf (n + 1)).word.toList ++ rest) := by
        rw [show toString (Int.negSucc n) = "-" ++ (n + 1).repr from rfl]
        simp [digitsOf]
      rw [split, lex_mark (by decide), lex_word (digitsOf (n + 1)).isWord h]
      rfl
    · rw [PrimaryTree.term, value_digitsOf]
      rfl

theorem spells_quote (t : String) : SpellsPrimary (Text.quote t) (.text t) :=
  ⟨.text t, fun rest _ => lex_quote t rest, rfl⟩

theorem spells_null : SpellsPrimary "null" .null :=
  ⟨.null, fun _ h => lex_word (by decide) h, rfl⟩

theorem TypeTree.term_eq (type : TypeTree) : type.term = .join type.members := by
  cases type with
  | last type => rfl
  | or type rest => cases rest <;> rfl

theorem reads_union {texts : List String} {types : List TypeTerm}
    (h : List.Forall₂ SpellsPrimary texts types) (hne : texts ≠ []) :
    ∃ tree : TypeTree, ReadsAs (" | ".intercalate texts) tree.tokens ∧ tree.members = types := by
  induction h with
  | nil => exact absurd rfl hne
  | @cons text type texts types first others ih =>
    obtain ⟨tree, reads, rfl⟩ := first.bare
    cases others with
    | nil => exact ⟨.last tree, by simpa [TypeTree.tokens] using reads, rfl⟩
    | @cons next _ texts types second others =>
      obtain ⟨rest, readsRest, hrest⟩ := ih (by simp)
      refine ⟨.or tree rest, fun more h => ?_, by rw [TypeTree.members, hrest]⟩
      have split : (" | ".intercalate (text :: next :: texts)).toList ++ more
          = text.toList ++ ' ' :: '|' :: ' ' ::
            ((" | ".intercalate (next :: texts)).toList ++ more) := by
        rw [String.intercalate_cons_cons]
        simp
      rw [split, reads _ (apart_cons.2 (by decide)), lex_blank (by decide), lex_mark (by decide),
        lex_blank (by decide), readsRest more h]
      simp [TypeTree.tokens]

/-- Primaries with bars between them are a union, or the only one of them. -/
theorem spells_union {texts : List String} {types : List TypeTerm}
    (h : List.Forall₂ SpellsPrimary texts types) (hne : texts ≠ []) :
    SpellsTightly (" | ".intercalate texts) (.join types) := by
  obtain ⟨tree, reads, hm⟩ := reads_union h hne
  cases h with
  | nil => exact absurd rfl hne
  | cons first others =>
    cases others with
    | nil => exact .inl (by simpa [TypeTerm.join] using first)
    | cons second others =>
      refine .inr ⟨?_, tree, reads, by rw [TypeTree.term_eq, hm]⟩
      rw [String.intercalate_cons_cons]
      simp

/-- Two types with a bar between them. -/
theorem spells_or (h : SpellsPostfix text type) (h' : SpellsPostfix text' type') :
    SpellsTightly (text ++ " | " ++ text') (.union [type, type']) := by
  obtain ⟨tree, reads, rfl⟩ := h
  obtain ⟨tree', reads', rfl⟩ := h'
  refine .inr ⟨by simp, .or tree (.last tree'), fun rest h => ?_, rfl⟩
  have split : (text ++ " | " ++ text').toList ++ rest
      = text.toList ++ ' ' :: '|' :: ' ' :: (text'.toList ++ rest) := by simp
  rw [split, reads _ (apart_cons.2 (by decide)), lex_blank (by decide), lex_mark (by decide),
    lex_blank (by decide), reads' rest h]
  simp [TypeTree.tokens]

/-- The identifier of a named type. -/
theorem spells_idOf {name : String} (h : IsIdentifier name) :
    SpellsPostfix (name ++ "[\"_id\"]") (.idOf [name]) := by
  refine ⟨.idOf ⟨[name], by simp, by simpa using h⟩, fun rest _ => ?_, rfl⟩
  have quoted : Text.quote "_id" = "\"_id\"" := by decide
  have split : (name ++ "[\"_id\"]").toList ++ rest
      = name.toList ++ '[' :: ((Text.quote "_id").toList ++ ']' :: rest) := by
    rw [quoted]
    simp
  rw [split, lex_word h.1 (apart_cons.2 (by decide)), lex_mark (by decide), lex_quote,
    lex_mark (by decide)]
  rfl

/-! ### Shapes -/

variable {s : Store} {p : Projection}

namespace Render

theorem primitive_eq (kind : PrimitiveKind) :
    primitive p kind = Path.dotted (primitiveParts p kind) := by
  obtain ⟨document, plainIds, _⟩ := p
  cases document <;> cases plainIds <;> cases kind <;> rfl

theorem primitiveParts_filled (kind : PrimitiveKind) :
    primitiveParts p kind ≠ [] ∧ ∀ part ∈ primitiveParts p kind, IsIdentifier part := by
  obtain ⟨document, plainIds, leanVirtuals⟩ := p
  cases document <;> cases plainIds <;> cases leanVirtuals <;> cases kind <;> decide

theorem spells_primitive (kind : PrimitiveKind) :
    SpellsPrimary (primitive p kind) (.name (primitiveParts p kind)) := by
  obtain ⟨filled, identifiers⟩ := primitiveParts_filled (p := p) kind
  rw [primitive_eq]
  exact spells_name filled identifiers

theorem spells_identifier {name : String} (h : IsIdentifier name) :
    SpellsPrimary name (.name [name]) := by
  have parts : ∀ part ∈ [name], IsIdentifier part := by simpa using h
  exact spells_name (by simp) parts

theorem spells_reference {model : String} (h : isTypeName model = true)
    (idKind : Option PrimitiveKind) :
    SpellsTightly (reference p model idKind) (referenceTerm p model idKind) := by
  have own : IsIdentifier model := by
    have := isIdentifier_append h (show "".toList.all Line.isWordChar = true from rfl)
    simpa using this
  have document : IsIdentifier (model ++ "Document") := isIdentifier_append h (by decide)
  have idOf {target : String} (h : IsIdentifier target) :
      SpellsTightly (target ++ "[\"_id\"] | " ++ target)
        (.union [.idOf [target], .name [target]]) := by
    have split : target ++ "[\"_id\"] | " ++ target = target ++ "[\"_id\"]" ++ " | " ++ target :=
      String.toList_inj.1 (by simp)
    rw [split]
    exact spells_or (spells_idOf h) (spells_identifier h).bare
  unfold reference referenceTerm
  cases p.document with
  | true => cases idKind <;> exact idOf document
  | false =>
    cases idKind with
    | none => cases p.plainIds <;> exact idOf own
    | some kind =>
      cases hi : p.plainIds with
      | false => exact idOf own
      | true => exact spells_or (spells_primitive kind).bare (spells_identifier own).bare

/-! ### Enumerations -/

theorem literal_eq {v : Value} (h : v.literalTerm?.isSome = true) :
    s.literal v = v.leafLiteral := by
  cases v with
  | null | int _ | str _ | kind _ =>
    simp [Store.literal, Store.outline, Store.outlineShared, Outline.literal]
  | _ => cases h

/-- A value that is a type has a literal, which spells that type. -/
theorem spells_literal {v : Value} {type : TypeTerm} (h : v.literalTerm? = some type) :
    ∃ text, s.literal v = .ok text ∧ SpellsPrimary text type := by
  rw [literal_eq (h ▸ rfl)]
  cases v with
  | null =>
    cases h
    exact ⟨_, rfl, spells_null⟩
  | int n =>
    cases h
    exact ⟨_, rfl, spells_int n⟩
  | str t =>
    cases h
    exact ⟨_, rfl, spells_quote t⟩
  | kind k =>
    cases h
    exact ⟨_, rfl, spells_quote k.name⟩
  | _ => cases h

theorem spells_literals {values : List Value}
    (h : ∀ v ∈ values, v.literalTerm?.isSome = true) : ∃ texts, values.mapM s.literal = .ok texts ∧
      List.Forall₂ SpellsPrimary texts (values.filterMap Value.literalTerm?) := by
  induction values with
  | nil => exact ⟨[], rfl, .nil⟩
  | cons v rest ih =>
    obtain ⟨first, others⟩ := List.forall_mem_cons.1 h
    obtain ⟨type, htype⟩ := Option.isSome_iff_exists.1 first
    obtain ⟨text, literal, spells⟩ := spells_literal (s := s) htype
    obtain ⟨texts, literals, all⟩ := ih others
    refine ⟨text :: texts, ?_, ?_⟩
    · rw [List.mapM_cons, literal, literals]
      rfl
    · rw [List.filterMap_cons_some htype]
      exact .cons spells all

theorem enumTerms_ne_nil {values : List Value} (hne : values ≠ [])
    (h : ∀ v ∈ values, (Line.enumValue s v).literalTerm?.isSome = true) :
    enumTerms s values ≠ [] := by
  obtain ⟨v, rest, rfl⟩ := List.exists_cons_of_ne_nil hne
  obtain ⟨type, htype⟩ := Option.isSome_iff_exists.1 (h v List.mem_cons_self)
  unfold enumTerms
  dsimp only
  cases hn : (Line.enumValue s v).isNull with
  | true => simp [hn]
  | false => simp [hn, htype]

/-- The union of literal values is spelled by their literals. -/
theorem spells_enum {values : List Value} (hne : values ≠ [])
    (h : ∀ v ∈ values, (Line.enumValue s v).literalTerm?.isSome = true) : ∃ text,
      Line.enumUnion s values = .ok text ∧ SpellsTightly text (.join (enumTerms s values)) := by
  have filled := enumTerms_ne_nil hne h
  have literal : ∀ v ∈ (values.map (Line.enumValue s)).filter (!·.isNull),
      v.literalTerm?.isSome = true := by
    intro v hv
    obtain ⟨raw, hraw, rfl⟩ := List.mem_map.1 (List.mem_of_mem_filter hv)
    exact h raw hraw
  obtain ⟨texts, literals, all⟩ := spells_literals (s := s) literal
  have nulls : List.Forall₂ SpellsPrimary
      (if (values.map (Line.enumValue s)).any (·.isNull) then ["null"] else [])
      (if (values.map (Line.enumValue s)).any (·.isNull) then [.null] else []) := by
    split
    · exact .cons spells_null .nil
    · exact .nil
  have members : List.Forall₂ SpellsPrimary (texts ++ _) (enumTerms s values) :=
    List.rel_append all nulls
  refine ⟨_, Except.bind_eq_ok_iff.2 ⟨texts, literals, rfl⟩, spells_union members ?_⟩
  intro empty
  rw [empty, List.forall₂_nil_left_iff] at members
  exact filled members

theorem spells_scalar {kind : PrimitiveKind} {enum : Option (List Value)}
    (h : (Shape.scalar kind enum).isSpelled s = true) : ∃ text,
      scalar s p kind enum = .ok text ∧ SpellsTightly text (scalarTerm s p kind enum) := by
  have plain : SpellsTightly (primitive p kind) (.name (primitiveParts p kind)) :=
    .inl (spells_primitive kind)
  cases enum with
  | none => exact ⟨_, by cases kind <;> rfl, plain⟩
  | some values =>
    cases values with
    | nil => exact ⟨_, by cases kind <;> rfl, plain⟩
    | cons v vs =>
      have literal : ∀ w ∈ v :: vs, (Line.enumValue s w).literalTerm?.isSome = true := by
        simpa only [Shape.isSpelled, Option.all_some, List.all_eq_true] using h
      obtain ⟨text, union, spells⟩ := spells_enum (List.cons_ne_nil v vs) literal
      unfold scalar scalarTerm
      cases kind with
      | string | number => exact ⟨text, by simp only [union]; rfl, spells⟩
      | _ => exact ⟨_, rfl, plain⟩

/-! ### Bodies -/

/-- A key that is not empty is written as itself or as a literal. -/
theorem lex_keyText {key : String} (hk : key ≠ "") : ∃ written : Key, written.text = key ∧
    ∀ rest, Apart rest → lex ((Line.keyText key).toList ++ rest) = written.token :: lex rest := by
  unfold Line.keyText
  split
  · rename_i bare
    exact ⟨.word key ⟨hk, bare⟩, rfl, fun rest h => lex_word ⟨hk, bare⟩ h⟩
  · exact ⟨.quoted key, rfl, fun rest _ => lex_quote key rest⟩

/-- The mark of a field that may be absent, and the colon. -/
theorem lex_optional (optional : Bool) (rest : List Char) :
    Apart ((if optional then ['?'] else []) ++ ':' :: rest) ∧
      lex ((if optional then ['?'] else []) ++ ':' :: rest)
        = (if optional then [.mark '?'] else []) ++ .mark ':' :: lex rest := by
  have colon : lex (':' :: rest) = .mark ':' :: lex rest := lex_mark (by decide)
  cases optional with
  | false => exact ⟨apart_cons.2 (by decide), colon⟩
  | true => exact ⟨apart_cons.2 (by decide), (lex_mark (by decide)).trans (congrArg _ colon)⟩

/-- The lines of fields, in front of the brace that closes their body. -/
def SpellsFields (text : String) (fields : List (String × Bool × TypeTerm)) : Prop :=
  ∃ trees : FieldsTree, trees.terms = fields ∧
    ∀ rest, lex (text.toList ++ '\x7d' :: rest) = trees.tokens ++ lex rest

theorem spellsFields_nil : SpellsFields "" [] :=
  ⟨.done, rfl, fun rest => by simpa [FieldsTree.tokens] using lex_mark (by decide)⟩

theorem spellsFields_cons {fields : List (String × Bool × TypeTerm)} {key : String}
    (hk : key ≠ "") (optional : Bool) (h : Spells text type) (more : SpellsFields text' fields) :
    SpellsFields (Line.entry key text optional ++ text') ((key, optional, type) :: fields) := by
  obtain ⟨tree, reads, rfl⟩ := h
  obtain ⟨trees, rfl, readsMore⟩ := more
  obtain ⟨written, hkey, readsKey⟩ := lex_keyText hk
  refine ⟨.cons written optional tree trees, by rw [FieldsTree.terms, hkey], fun rest => ?_⟩
  have split : (Line.entry key text optional ++ text').toList ++ '\x7d' :: rest
      = (Line.keyText key).toList ++ ((if optional then ['?'] else []) ++ ':' :: ' ' ::
        (text.toList ++ ';' :: '\n' :: (text'.toList ++ '\x7d' :: rest))) := by
    cases optional <;> simp [Line.entry, hk]
  obtain ⟨apart, marks⟩ := lex_optional optional
    (' ' :: (text.toList ++ ';' :: '\n' :: (text'.toList ++ '\x7d' :: rest)))
  rw [split, readsKey _ apart, marks, lex_blank (by decide), reads _ (apart_cons.2 (by decide)),
    lex_mark (by decide), lex_blank (by decide), readsMore]
  simp [FieldsTree.tokens]

theorem spells_body {fields : List (String × Bool × TypeTerm)} (h : SpellsFields text fields) :
    SpellsPrimary ("\x7b\n" ++ text ++ "\x7d") (.body fields) := by
  obtain ⟨trees, rfl, reads⟩ := h
  refine ⟨.body trees, fun rest _ => ?_, rfl⟩
  have split : ("\x7b\n" ++ text ++ "\x7d").toList ++ rest
      = '\x7b' :: '\n' :: (text.toList ++ '\x7d' :: rest) := by simp
  rw [split, lex_mark (by decide), lex_blank (by decide), reads]
  rfl

mutual

theorem spells_shape : ∀ sh : Shape, sh.isSpelled s = true → ∃ text,
    shape s p sh = .ok text ∧ SpellsTightly text (shapeTerm s p sh)
  | .scalar kind enum, h => spells_scalar h
  | .nested fields, h => by
    obtain ⟨text, lines, spells⟩ := spells_lines fields h
    refine ⟨_, ?_, .inl (spells_body spells)⟩
    rw [shape, lines]
    rfl
  | .reference model idKind, h => ⟨_, rfl, spells_reference h idKind⟩
  | .embedded name isArray, h => by
    have identifier : IsIdentifier (name ++ if p.document then "Document" else "") := by
      cases p.document
      · exact isIdentifier_append h (by decide)
      · exact isIdentifier_append h (by decide)
    exact ⟨_, rfl, .inl (spells_identifier identifier)⟩
  | .virtual, _ => ⟨_, rfl, .inl (spells_identifier (by decide))⟩

theorem spells_type : ∀ field : FieldOf Shape, field.isSpelled s = true →
    match fieldTerm? s p field with
    | none => type? s p field = .ok none
    | some type => ∃ text, type? s p field = .ok (some text) ∧ Spells text type
  | ⟨key, sh, o, a, m, ma, sa⟩, h => by
    obtain ⟨text, ht, spells⟩ := spells_shape sh h
    have wrapped := spells_wrap spells ⟨key, (), o, a, m, ma, sa⟩ p.document
    by_cases hv : sh = .virtual
    · subst hv
      cases ht
      rw [fieldTerm?, type?, Shape.isVirtual, Bool.true_and]
      cases p.document || p.leanVirtuals with
      | false => rfl
      | true => exact ⟨_, rfl, wrapped⟩
    · have shown : sh.isVirtual = false := by
        cases sh <;> first | rfl | exact absurd rfl hv
      rw [fieldTerm?, shown, type?_eq hv, ht]
      exact ⟨_, rfl, wrapped⟩

theorem spells_lines : ∀ fields : List (FieldOf Shape), areSpelled s fields = true → ∃ text,
    lines s p fields = .ok text ∧ SpellsFields text (fieldTerms s p fields)
  | [], _ => ⟨_, rfl, spellsFields_nil⟩
  | field :: rest, h => by
    rw [areSpelled, Bool.and_eq_true, Bool.and_eq_true] at h
    have typed := spells_type field h.1.2
    obtain ⟨text', ht', more⟩ := spells_lines rest h.2
    rw [lines, fieldTerms]
    split at typed
    · rename_i left
      rw [typed, ht', left]
      exact ⟨_, rfl, by simpa using more⟩
    · rename_i type shown
      obtain ⟨text, ht, spells⟩ := typed
      have nonempty : field.key ≠ "" := by simpa using h.1.1
      rw [ht, ht', shown]
      exact ⟨_, rfl, spellsFields_cons nonempty field.optional spells more⟩

end

/-- A field is left out, or its type has a text that is read as one tree only, and the tree stands
for the type that the field describes. -/
theorem type?_parses {field : FieldOf Shape} (h : field.isSpelled s = true) :
    match fieldTerm? s p field with
    | none => type? s p field = .ok none
    | some type => ∃ text, type? s p field = .ok (some text) ∧
        ∃ tree : TypeTree, tree.term = type ∧
          ∀ other : TypeTree, other.tokens = lex text.toList ↔ other = tree := by
  have spelled := spells_type (p := p) field h
  split at spelled
  · exact spelled
  · obtain ⟨text, ht, tree, reads, hterm⟩ := spelled
    have tokens : lex text.toList = tree.tokens := by
      simpa [lex] using reads [] apart_nil
    refine ⟨text, ht, tree, hterm, fun other => ⟨fun he => ?_, fun he => ?_⟩⟩
    · exact TypeTree.tokens_injective (he.trans tokens)
    · rw [he, tokens]

/-- An array of maps of objects: a literal that holds all marks, a map of arrays, and a virtual. -/
def bracketed : FieldOf Shape where
  key := "items"
  shape := .nested
    [⟨"a b", .scalar .string (some [.str "x | \"y\"[]", .null]), true, true, false, false, false⟩,
      ⟨"owners", .reference "User" none, false, true, true, true, false⟩,
      ⟨"full", .virtual, true, false, false, false, false⟩]
  isArray := true
  isMap := true

theorem type?_parses_bracketed : ∃ text,
    type? {} ⟨false, false, false⟩ bracketed = .ok (some text) ∧
      ∃ tree : TypeTree, tree.term = .array (.apply ["Map"] [.name ["string"], .body [
          ("a b", true, .array (.union [.text "x | \"y\"[]", .null])),
          ("owners", false, .apply ["Map"] [.name ["string"],
            .array (.union [.idOf ["User"], .name ["User"]])])]]) ∧
        ∀ other : TypeTree, other.tokens = lex text.toList ↔ other = tree :=
  type?_parses (show bracketed.isSpelled {} = true by decide)

end Render
end ModelTypes
