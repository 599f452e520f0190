import ModelTypes.Proofs.Field.Tokens
/-!
# The grammar of type texts

A type is a union of postfix types; a postfix type is a primary followed by any number of `[]`, or
a name followed by `["_id"]`; a primary is a name with or without arguments, a string, a whole
number, `null`, a type in parentheses, or a body of typed keys. Every tree of the grammar has its
tokens, and no other tree has the same (`TypeTree.tokens_injective`).
-/

namespace ModelTypes

/-! ## Names, keys and numbers -/

/-- A word that does not start with a digit and is not the word for nothing. -/
def IsIdentifier (w : String) : Prop :=
  IsWord w ∧ w.toList.head?.any Char.isDigit = false ∧ w ≠ "null"

instance (w : String) : Decidable (IsIdentifier w) := inferInstanceAs (Decidable (_ ∧ _ ∧ _))

/-- Identifiers with dots between them. -/
structure DottedName where
  parts : List String
  filled : parts ≠ []
  identifiers : ∀ part ∈ parts, IsIdentifier part

/-- The digits of a number. -/
structure Digits where
  word : String
  filled : word ≠ ""
  digits : word.toList.all Char.isDigit = true

/-- A key as it is written: as a word, or as a string. -/
inductive Key where
  | word (w : String) (h : IsWord w)
  | quoted (text : String)

/-! ## Trees -/

mutual

/-- A union of one postfix type or more. -/
inductive TypeTree where
  | last (type : PostfixTree)
  | or (type : PostfixTree) (rest : TypeTree)

/-- A primary with as many `[]`, or the identifier of a named type. -/
inductive PostfixTree where
  | arrays (type : PrimaryTree) (depth : Nat)
  | idOf (name : DottedName)

inductive PrimaryTree where
  | name (name : DottedName)
  | apply (name : DottedName) (first : TypeTree) (rest : ArgumentsTree)
  | text (text : String)
  | nat (digits : Digits)
  | minus (digits : Digits)
  | null
  | parens (type : TypeTree)
  | body (fields : FieldsTree)

/-- Arguments after the first. -/
inductive ArgumentsTree where
  | done
  | cons (type : TypeTree) (rest : ArgumentsTree)

inductive FieldsTree where
  | done
  | cons (key : Key) (optional : Bool) (type : TypeTree) (rest : FieldsTree)

end

/-! ## Their tokens -/

def dottedTokens : List String → List Token
  | [] => []
  | [part] => [.word part]
  | part :: next :: rest => .word part :: .mark '.' :: dottedTokens (next :: rest)

def DottedName.tokens (name : DottedName) : List Token := dottedTokens name.parts

def bracketTokens : Nat → List Token
  | 0 => []
  | depth + 1 => .mark '[' :: .mark ']' :: bracketTokens depth

def Key.token : Key → Token
  | .word w _ => .word w
  | .quoted text => .text text

mutual

def TypeTree.tokens : TypeTree → List Token
  | .last type => type.tokens
  | .or type rest => type.tokens ++ .mark '|' :: rest.tokens

def PostfixTree.tokens : PostfixTree → List Token
  | .arrays type depth => type.tokens ++ bracketTokens depth
  | .idOf name => name.tokens ++ [.mark '[', .text "_id", .mark ']']

def PrimaryTree.tokens : PrimaryTree → List Token
  | .name name => name.tokens
  | .apply name first rest => name.tokens ++ .mark '<' :: (first.tokens ++ rest.tokens)
  | .text text => [.text text]
  | .nat digits => [.word digits.word]
  | .minus digits => [.mark '-', .word digits.word]
  | .null => [.word "null"]
  | .parens type => .mark '(' :: (type.tokens ++ [.mark ')'])
  | .body fields => .mark '\x7b' :: fields.tokens

def ArgumentsTree.tokens : ArgumentsTree → List Token
  | .done => [.mark '>']
  | .cons type rest => .mark ',' :: (type.tokens ++ rest.tokens)

def FieldsTree.tokens : FieldsTree → List Token
  | .done => [.mark '\x7d']
  | .cons key optional type rest =>
    key.token :: ((if optional then [.mark '?'] else []) ++
      .mark ':' :: (type.tokens ++ .mark ';' :: rest.tokens))

end

/-! ## What a tree stands for -/

/-- A type, however it is put in parentheses. -/
inductive TypeTerm where
  | name (parts : List String)
  | apply (parts : List String) (arguments : List TypeTerm)
  | idOf (parts : List String)
  | text (text : String)
  | int (n : Int)
  | null
  | array (type : TypeTerm)
  | union (members : List TypeTerm)
  | body (fields : List (String × Bool × TypeTerm))

/-- Several types are a union, one is itself. -/
def TypeTerm.join : List TypeTerm → TypeTerm
  | [type] => type
  | types => .union types

def TypeTerm.arrays (type : TypeTerm) : Nat → TypeTerm
  | 0 => type
  | depth + 1 => .array (type.arrays depth)

def Key.text : Key → String
  | .word w _ => w
  | .quoted text => text

/-- The number that digits write. -/
def Digits.value (digits : Digits) : Nat :=
  Nat.ofDigitChars 10 digits.word.toList 0

mutual

def TypeTree.term : TypeTree → TypeTerm
  | .last type => type.term
  | .or type rest => .union (type.term :: rest.members)

def TypeTree.members : TypeTree → List TypeTerm
  | .last type => [type.term]
  | .or type rest => type.term :: rest.members

def PostfixTree.term : PostfixTree → TypeTerm
  | .arrays type depth => type.term.arrays depth
  | .idOf name => .idOf name.parts

def PrimaryTree.term : PrimaryTree → TypeTerm
  | .name name => .name name.parts
  | .apply name first rest => .apply name.parts (first.term :: rest.terms)
  | .text text => .text text
  | .nat digits => .int digits.value
  | .minus digits => .int (-digits.value)
  | .null => .null
  | .parens type => type.term
  | .body fields => .body fields.terms

def ArgumentsTree.terms : ArgumentsTree → List TypeTerm
  | .done => []
  | .cons type rest => type.term :: rest.terms

def FieldsTree.terms : FieldsTree → List (String × Bool × TypeTerm)
  | .done => []
  | .cons key optional type rest => (key.text, optional, type.term) :: rest.terms

end

/-! ## No two trees have the same tokens

Tokens in front of others are those of one tree only, if what follows is nothing that the tree could
go on with. -/

/-- Tokens that do not start with one of some marks. -/
def NotFrom (marks : List Char) (rest : List Token) : Prop :=
  ∀ c ∈ marks, rest.head? ≠ some (.mark c)

variable {r r' : List Token}

theorem NotFrom.mono {marks marks' : List Char} (h : NotFrom marks r) (hs : marks' ⊆ marks) :
    NotFrom marks' r := fun c hc => h c (hs hc)

theorem NotFrom.ne {marks : List Char} {c : Char} (h : NotFrom marks r) (hc : c ∈ marks) :
    r ≠ .mark c :: r' := by
  rintro rfl
  exact h c hc rfl

theorem notFrom_cons_mark {marks : List Char} {c : Char} (h : c ∉ marks) :
    NotFrom marks (.mark c :: r) := by
  rintro d hd he
  simp only [List.head?_cons, Option.some.injEq, Token.mark.injEq] at he
  exact h (he ▸ hd)

theorem dottedTokens_split {parts parts' : List String} (hp : parts ≠ []) (hp' : parts' ≠ [])
    (h : dottedTokens parts ++ r = dottedTokens parts' ++ r') (hr : NotFrom ['.'] r)
    (hr' : NotFrom ['.'] r') : parts = parts' ∧ r = r' := by
  induction parts generalizing parts' with
  | nil => exact absurd rfl hp
  | cons part rest ih =>
    cases parts' with
    | nil => exact absurd rfl hp'
    | cons part' rest' =>
      cases rest with
      | nil =>
        cases rest' with
        | nil => simpa [dottedTokens] using h
        | cons next' rest' =>
          simp only [dottedTokens, List.cons_append, List.nil_append, List.cons.injEq] at h
          exact absurd h.2 (hr.ne (by simp))
      | cons next rest =>
        cases rest' with
        | nil =>
          simp only [dottedTokens, List.cons_append, List.nil_append, List.cons.injEq] at h
          exact absurd h.2.symm (hr'.ne (by simp))
        | cons next' rest' =>
          simp only [dottedTokens, List.cons_append, List.cons.injEq, Token.word.injEq,
            true_and] at h
          obtain ⟨hrest, hr⟩ := ih (by simp) (by simp) h.2
          exact ⟨by rw [h.1, hrest], hr⟩

theorem DottedName.split {name name' : DottedName} (h : name.tokens ++ r = name'.tokens ++ r')
    (hr : NotFrom ['.'] r) (hr' : NotFrom ['.'] r') : name = name' ∧ r = r' := by
  obtain ⟨parts, hne, _⟩ := name
  obtain ⟨parts', hne', _⟩ := name'
  obtain ⟨rfl, hr⟩ := dottedTokens_split hne hne' h hr hr'
  exact ⟨rfl, hr⟩

theorem bracketTokens_split {n n' : Nat} (h : bracketTokens n ++ r = bracketTokens n' ++ r')
    (hr : NotFrom ['['] r) (hr' : NotFrom ['['] r') : n = n' ∧ r = r' := by
  induction n generalizing n' with
  | zero =>
    cases n' with
    | zero => exact ⟨rfl, h⟩
    | succ n' => exact absurd h (hr.ne (by simp))
  | succ n ih =>
    cases n' with
    | zero => exact absurd h.symm (hr'.ne (by simp))
    | succ n' =>
      simp only [bracketTokens, List.cons_append, List.cons.injEq, true_and] at h
      obtain ⟨rfl, hr⟩ := ih h
      exact ⟨rfl, hr⟩

theorem notFrom_bracketTokens {marks : List Char} (h : NotFrom marks r) (hm : '[' ∉ marks)
    (n : Nat) : NotFrom marks (bracketTokens n ++ r) := by
  cases n with
  | zero => exact h
  | succ n => exact notFrom_cons_mark hm

/-- What the first token tells of a primary. -/
inductive PrimarySort where
  | named | text | number | negative | null | parens | body
deriving DecidableEq

def Token.sort? : Token → Option PrimarySort
  | .word w =>
    if w = "null" then some .null
    else if w.toList.head?.any Char.isDigit then some .number else some .named
  | .text _ => some .text
  | .mark '-' => some .negative
  | .mark '(' => some .parens
  | .mark '\x7b' => some .body
  | .mark _ => none

def PrimaryTree.sort : PrimaryTree → PrimarySort
  | .name _ | .apply _ _ _ => .named
  | .text _ => .text
  | .nat _ => .number
  | .minus _ => .negative
  | .null => .null
  | .parens _ => .parens
  | .body _ => .body

theorem DottedName.sort?_head (name : DottedName) :
    ∃ token rest, name.tokens = token :: rest ∧ token.sort? = some .named := by
  obtain ⟨parts, hne, identifiers⟩ := name
  obtain ⟨part, rest, rfl⟩ := List.exists_cons_of_ne_nil hne
  obtain ⟨-, noDigit, other⟩ := identifiers part List.mem_cons_self
  have sort : (Token.word part).sort? = some .named := by
    simp [Token.sort?, other, noDigit]
  cases rest with
  | nil => exact ⟨_, _, rfl, sort⟩
  | cons next rest => exact ⟨_, _, rfl, sort⟩

theorem Digits.sort? (digits : Digits) : (Token.word digits.word).sort? = some .number := by
  obtain ⟨word, filled, all⟩ := digits
  obtain ⟨c, cs, hw⟩ : ∃ c cs, word.toList = c :: cs :=
    List.exists_cons_of_ne_nil fun hn => filled (String.toList_eq_nil_iff.1 hn)
  have other : word ≠ "null" := by
    rintro rfl
    exact absurd all (by decide)
  have digit : c.isDigit = true := by
    rw [hw, List.all_cons, Bool.and_eq_true] at all
    exact all.1
  simp [Token.sort?, other, hw, digit]

theorem PrimaryTree.sort?_head (type : PrimaryTree) :
    ∃ token rest, type.tokens = token :: rest ∧ token.sort? = some type.sort := by
  cases type with
  | name name => exact name.sort?_head
  | apply name first rest =>
    obtain ⟨token, more, h, sort⟩ := name.sort?_head
    exact ⟨token, _, by rw [tokens, h]; rfl, sort⟩
  | nat digits => exact ⟨_, _, rfl, digits.sort?⟩
  | _ => exact ⟨_, _, rfl, rfl⟩

theorem PrimaryTree.sort_eq {type type' : PrimaryTree} (h : type.tokens ++ r = type'.tokens ++ r') :
    type.sort = type'.sort := by
  obtain ⟨token, rest, ht, sort⟩ := type.sort?_head
  obtain ⟨token', rest', ht', sort'⟩ := type'.sort?_head
  rw [ht, ht', List.cons_append, List.cons_append, List.cons.injEq] at h
  rw [h.1, sort'] at sort
  exact (Option.some.inj sort).symm

theorem Key.eq_of_token {key key' : Key} (h : key.token = key'.token) : key = key' := by
  cases key with
  | word w hw =>
    cases key' with
    | word w' hw' =>
      obtain rfl : w = w' := by simpa [Key.token] using h
      rfl
    | quoted text => cases h
  | quoted text =>
    cases key' with
    | word w hw => cases h
    | quoted text' =>
      obtain rfl : text = text' := by simpa [Key.token] using h
      rfl

theorem Digits.eq_of_word {digits digits' : Digits} (h : digits.word = digits'.word) :
    digits = digits' := by
  obtain ⟨word, _, _⟩ := digits
  obtain ⟨word', _, _⟩ := digits'
  obtain rfl : word = word' := h
  rfl

theorem notFrom_arguments {marks : List Char} (hd : '>' ∉ marks) (hc : ',' ∉ marks)
    (rest : ArgumentsTree) : NotFrom marks (rest.tokens ++ r) := by
  cases rest with
  | done => exact notFrom_cons_mark hd
  | cons type rest => exact notFrom_cons_mark hc

theorem bracketTokens_ne_idOf {n : Nat} (hr : NotFrom ['['] r) :
    bracketTokens n ++ r ≠ .mark '[' :: .text "_id" :: r' := by
  intro h
  cases n with
  | zero => exact hr.ne (by simp) h
  | succ n => simp [bracketTokens] at h

/-- A name without arguments is no other primary. -/
theorem PrimaryTree.eq_name {name : DottedName} {type : PrimaryTree}
    (h : type.tokens ++ r = name.tokens ++ r') (hr : NotFrom ['.', '<'] r)
    (hr' : NotFrom ['.', '<'] r') : type = .name name ∧ r = r' := by
  have sort : type.sort = (PrimaryTree.name name).sort := PrimaryTree.sort_eq h
  cases type with
  | name name' =>
    obtain ⟨rfl, hr⟩ := DottedName.split h (hr.mono (by simp)) (hr'.mono (by simp))
    exact ⟨rfl, hr⟩
  | apply name' first rest =>
    rw [tokens, List.append_assoc] at h
    obtain ⟨-, more⟩ := DottedName.split h (notFrom_cons_mark (by decide)) (hr'.mono (by simp))
    exact absurd more.symm (hr'.ne (by simp))
  | _ => cases sort

mutual

theorem TypeTree.split : ∀ (type type' : TypeTree) {r r' : List Token},
    type.tokens ++ r = type'.tokens ++ r' → NotFrom ['.', '<', '[', '|'] r →
      NotFrom ['.', '<', '[', '|'] r' → type = type' ∧ r = r'
  | .last type, .last type', r, r', h, hr, hr' => by
    obtain ⟨rfl, hr⟩ := PostfixTree.split type type' h (hr.mono (by simp)) (hr'.mono (by simp))
    exact ⟨rfl, hr⟩
  | .last type, .or type' rest', r, r', h, hr, hr' => by
    rw [TypeTree.tokens, TypeTree.tokens, List.append_assoc] at h
    obtain ⟨-, more⟩ := PostfixTree.split type type' h (hr.mono (by simp))
      (notFrom_cons_mark (by decide))
    exact absurd more (hr.ne (by simp))
  | .or type rest, .last type', r, r', h, hr, hr' => by
    rw [TypeTree.tokens, TypeTree.tokens, List.append_assoc] at h
    obtain ⟨-, more⟩ := PostfixTree.split type type' h (notFrom_cons_mark (by decide))
      (hr'.mono (by simp))
    exact absurd more.symm (hr'.ne (by simp))
  | .or type rest, .or type' rest', r, r', h, hr, hr' => by
    rw [TypeTree.tokens, TypeTree.tokens, List.append_assoc, List.append_assoc] at h
    obtain ⟨rfl, more⟩ := PostfixTree.split type type' h (notFrom_cons_mark (by decide))
      (notFrom_cons_mark (by decide))
    obtain ⟨rfl, hr⟩ := TypeTree.split rest rest' (List.cons.inj more).2 hr hr'
    exact ⟨rfl, hr⟩

theorem PostfixTree.split : ∀ (type type' : PostfixTree) {r r' : List Token},
    type.tokens ++ r = type'.tokens ++ r' → NotFrom ['.', '<', '['] r →
      NotFrom ['.', '<', '['] r' → type = type' ∧ r = r'
  | .arrays type n, .arrays type' n', r, r', h, hr, hr' => by
    rw [PostfixTree.tokens, PostfixTree.tokens, List.append_assoc, List.append_assoc] at h
    obtain ⟨rfl, more⟩ := PrimaryTree.split type type' h
      (notFrom_bracketTokens (hr.mono (by simp)) (by decide) n)
      (notFrom_bracketTokens (hr'.mono (by simp)) (by decide) n')
    obtain ⟨rfl, hr⟩ := bracketTokens_split more (hr.mono (by simp)) (hr'.mono (by simp))
    exact ⟨rfl, hr⟩
  | .arrays type n, .idOf name, r, r', h, hr, hr' => by
    rw [PostfixTree.tokens, PostfixTree.tokens, List.append_assoc, List.append_assoc] at h
    obtain ⟨-, more⟩ := PrimaryTree.eq_name h
      (notFrom_bracketTokens (hr.mono (by simp)) (by decide) n) (notFrom_cons_mark (by decide))
    exact absurd more (bracketTokens_ne_idOf (hr.mono (by simp)))
  | .idOf name, .arrays type n, r, r', h, hr, hr' => by
    rw [PostfixTree.tokens, PostfixTree.tokens, List.append_assoc, List.append_assoc] at h
    obtain ⟨-, more⟩ := PrimaryTree.eq_name h.symm
      (notFrom_bracketTokens (hr'.mono (by simp)) (by decide) n) (notFrom_cons_mark (by decide))
    exact absurd more (bracketTokens_ne_idOf (hr'.mono (by simp)))
  | .idOf name, .idOf name', r, r', h, hr, hr' => by
    rw [PostfixTree.tokens, PostfixTree.tokens, List.append_assoc, List.append_assoc] at h
    obtain ⟨rfl, more⟩ := DottedName.split h (notFrom_cons_mark (by decide))
      (notFrom_cons_mark (by decide))
    exact ⟨rfl, by simpa using more⟩

theorem PrimaryTree.split : ∀ (type type' : PrimaryTree) {r r' : List Token},
    type.tokens ++ r = type'.tokens ++ r' → NotFrom ['.', '<'] r → NotFrom ['.', '<'] r' →
      type = type' ∧ r = r'
  | .name name, type', r, r', h, hr, hr' => by
    obtain ⟨rfl, hr⟩ := PrimaryTree.eq_name h.symm hr' hr
    exact ⟨rfl, hr.symm⟩
  | .apply name first rest, type', r, r', h, hr, hr' => by
    have sort := PrimaryTree.sort_eq h
    cases type' with
    | name name' => exact PrimaryTree.eq_name h hr hr'
    | apply name' first' rest' =>
      rw [PrimaryTree.tokens, PrimaryTree.tokens, List.append_assoc, List.append_assoc] at h
      obtain ⟨rfl, more⟩ := DottedName.split h (notFrom_cons_mark (by decide))
        (notFrom_cons_mark (by decide))
      simp only [List.cons_append, List.cons.injEq, true_and, List.append_assoc] at more
      obtain ⟨rfl, after⟩ := TypeTree.split first first' more
        (notFrom_arguments (by decide) (by decide) rest)
        (notFrom_arguments (by decide) (by decide) rest')
      obtain ⟨rfl, hr⟩ := ArgumentsTree.split rest rest' after
      exact ⟨rfl, hr⟩
    | _ => cases sort
  | .text text, type', r, r', h, _, _ => by
    have sort := PrimaryTree.sort_eq h
    cases type' with
    | text text' => simpa [PrimaryTree.tokens] using h
    | _ => cases sort
  | .nat digits, type', r, r', h, _, _ => by
    have sort := PrimaryTree.sort_eq h
    cases type' with
    | nat digits' =>
      simp only [PrimaryTree.tokens, List.cons_append, List.nil_append, List.cons.injEq,
        Token.word.injEq] at h
      obtain rfl := Digits.eq_of_word h.1
      exact ⟨rfl, h.2⟩
    | _ => cases sort
  | .minus digits, type', r, r', h, _, _ => by
    have sort := PrimaryTree.sort_eq h
    cases type' with
    | minus digits' =>
      simp only [PrimaryTree.tokens, List.cons_append, List.nil_append, List.cons.injEq,
        Token.word.injEq, true_and] at h
      obtain rfl := Digits.eq_of_word h.1
      exact ⟨rfl, h.2⟩
    | _ => cases sort
  | .null, type', r, r', h, _, _ => by
    have sort := PrimaryTree.sort_eq h
    cases type' with
    | null => exact ⟨rfl, (List.cons.inj h).2⟩
    | _ => cases sort
  | .parens type, type', r, r', h, _, _ => by
    have sort := PrimaryTree.sort_eq h
    cases type' with
    | parens type' =>
      simp only [PrimaryTree.tokens, List.cons_append, List.cons.injEq, true_and,
        List.append_assoc] at h
      obtain ⟨rfl, more⟩ := TypeTree.split type type' h (notFrom_cons_mark (by decide))
        (notFrom_cons_mark (by decide))
      exact ⟨rfl, by simpa using more⟩
    | _ => cases sort
  | .body fields, type', r, r', h, _, _ => by
    have sort := PrimaryTree.sort_eq h
    cases type' with
    | body fields' =>
      obtain ⟨rfl, hr⟩ := FieldsTree.split fields fields' (List.cons.inj h).2
      exact ⟨rfl, hr⟩
    | _ => cases sort

theorem ArgumentsTree.split : ∀ (rest rest' : ArgumentsTree) {r r' : List Token},
    rest.tokens ++ r = rest'.tokens ++ r' → rest = rest' ∧ r = r'
  | .done, .done, r, r', h => ⟨rfl, (List.cons.inj h).2⟩
  | .done, .cons _ _, r, r', h => by simp [ArgumentsTree.tokens] at h
  | .cons _ _, .done, r, r', h => by simp [ArgumentsTree.tokens] at h
  | .cons type rest, .cons type' rest', r, r', h => by
    simp only [ArgumentsTree.tokens, List.cons_append, List.cons.injEq, true_and,
      List.append_assoc] at h
    obtain ⟨rfl, more⟩ := TypeTree.split type type' h
      (notFrom_arguments (by decide) (by decide) rest)
      (notFrom_arguments (by decide) (by decide) rest')
    obtain ⟨rfl, hr⟩ := ArgumentsTree.split rest rest' more
    exact ⟨rfl, hr⟩

theorem FieldsTree.split : ∀ (fields fields' : FieldsTree) {r r' : List Token},
    fields.tokens ++ r = fields'.tokens ++ r' → fields = fields' ∧ r = r'
  | .done, .done, r, r', h => ⟨rfl, (List.cons.inj h).2⟩
  | .done, .cons key _ _ _, r, r', h => by cases key <;> simp [FieldsTree.tokens, Key.token] at h
  | .cons key _ _ _, .done, r, r', h => by cases key <;> simp [FieldsTree.tokens, Key.token] at h
  | .cons key optional type rest, .cons key' optional' type' rest', r, r', h => by
    simp only [FieldsTree.tokens, List.cons_append, List.cons.injEq, List.append_assoc] at h
    obtain rfl := Key.eq_of_token h.1
    -- The mark behind the key tells whether the field is optional.
    obtain rfl : optional = optional' := by
      cases optional <;> cases optional' <;> simp at h ⊢
    have typed := List.append_cancel_left h.2
    obtain ⟨rfl, more⟩ := TypeTree.split type type' (List.cons.inj typed).2
      (notFrom_cons_mark (by decide)) (notFrom_cons_mark (by decide))
    obtain ⟨rfl, hr⟩ := FieldsTree.split rest rest' (List.cons.inj more).2
    exact ⟨rfl, hr⟩

end

/-- The grammar is not ambiguous. -/
theorem TypeTree.tokens_injective {type type' : TypeTree} (h : type.tokens = type'.tokens) :
    type = type' := by
  have ends : NotFrom ['.', '<', '[', '|'] [] := by simp [NotFrom]
  exact (TypeTree.split type type' (congrArg (· ++ []) h) ends ends).1

end ModelTypes
