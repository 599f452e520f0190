import ModelTypes.Text.Literal
/-!
# Reading string literals back

`readString` reads the text of a literal and stops behind its closing quote. It reads just the texts
that are written character by character (`readString_eq_some_iff`), so what follows a literal does
not matter (`readString_append`). Whatever text `quote` writes is read back (`readString_quoted`).
-/

namespace ModelTypes.Text

/-! ## The reader -/

/-- The value of a hexadecimal digit in either letter case. -/
def hexValue? (c : Char) : Option Nat :=
  if c.isDigit then some (c.toNat - 48)
  else if 'a' ≤ c ∧ c ≤ 'f' then some (c.toNat - 87)
  else if 'A' ≤ c ∧ c ≤ 'F' then some (c.toNat - 55)
  else none

/-- The 16-bit unit that four hexadecimal digits write. -/
def unit? (a b c d : Char) : Option Nat := do
  return (((← hexValue? a) * 16 + (← hexValue? b)) * 16 + (← hexValue? c)) * 16 + (← hexValue? d)

/-- What a single character stands for behind a backslash. -/
def unescape? : Char → Option Char
  | '"' => some '"'
  | '\\' => some '\\'
  | '/' => some '/'
  | 'b' => some '\x08'
  | 'f' => some '\x0c'
  | 'n' => some '\n'
  | 'r' => some '\r'
  | 't' => some '\t'
  | _ => none

def isHighSurrogate (n : Nat) : Bool := 0xd800 ≤ n && n < 0xdc00

def isLowSurrogate (n : Nat) : Bool := 0xdc00 ≤ n && n < 0xe000

/-- The character that a pair of surrogates writes. -/
def surrogates (high low : Nat) : Char :=
  Char.ofNat (0x10000 + (high - 0xd800) * 0x400 + (low - 0xdc00))

/-- A character before what is read after it. -/
def onto (c : Char) (read : Option (List Char × List Char)) : Option (List Char × List Char) :=
  read.map fun r => (c :: r.1, r.2)

/-- Reads a literal behind its opening quote: its text, and what follows the closing quote. Units
beyond the first plane stand in pairs. -/
def readString : List Char → Option (List Char × List Char)
  | '"' :: rest => some ([], rest)
  | '\\' :: 'u' :: a :: b :: c :: d :: rest =>
    match unit? a b c d with
    | none => none
    | some n =>
      if isLowSurrogate n then none
      else if isHighSurrogate n then
        match rest with
        | '\\' :: 'u' :: a :: b :: c :: d :: rest =>
          match unit? a b c d with
          | none => none
          | some m => if isLowSurrogate m then onto (surrogates n m) (readString rest) else none
        | _ => none
      else onto (Char.ofNat n) (readString rest)
  | '\\' :: e :: rest =>
    match unescape? e with
    | some c => onto c (readString rest)
    | none => none
  | c :: rest => if c.toNat < 0x20 then none else onto c (readString rest)
  | [] => none
termination_by structural cs => cs

/-! ## The grammar of literals -/

/-- The ways to write a character between the quotes of a literal. -/
inductive IsWritten : Char → List Char → Prop where
  | plain {c : Char} (quote : c ≠ '"') (slash : c ≠ '\\') (large : ¬ c.toNat < 0x20) :
      IsWritten c [c]
  | escape {c e : Char} (named : unescape? e = some c) : IsWritten c ['\\', e]
  | unit {a b c d : Char} {n : Nat} (unit : unit? a b c d = some n)
      (low : isLowSurrogate n = false) (high : isHighSurrogate n = false) :
      IsWritten (Char.ofNat n) ['\\', 'u', a, b, c, d]
  | pair {a b c d a' b' c' d' : Char} {n m : Nat} (first : unit? a b c d = some n)
      (low : isLowSurrogate n = false) (high : isHighSurrogate n = true)
      (second : unit? a' b' c' d' = some m) (paired : isLowSurrogate m = true) :
      IsWritten (surrogates n m) ['\\', 'u', a, b, c, d, '\\', 'u', a', b', c', d']

/-- A text written character by character. -/
inductive IsBody : List Char → List Char → Prop where
  | nil : IsBody [] []
  | cons {c : Char} {text w body : List Char} (first : IsWritten c w) (after : IsBody text body) :
      IsBody (c :: text) (w ++ body)

variable {c : Char} {cs w text rest : List Char}

theorem onto_eq_some_iff {read : Option (List Char × List Char)} :
    onto c read = some (text, rest) ↔ ∃ tail, read = some (tail, rest) ∧ c :: tail = text := by
  simp [onto]

theorem ne_u_of_unescape? {e : Char} (h : unescape? e = some c) : e ≠ 'u' := by
  rintro rfl
  cases h

/-- A character is read however it is written. -/
theorem readString_written (h : IsWritten c w) (rest : List Char) :
    readString (w ++ rest) = onto c (readString rest) := by
  cases h with
  | plain quote slash large => simp [readString, slash, large]
  | escape named => simp [readString, ne_u_of_unescape? named, named]
  | unit unit low high => simp [readString, unit, low, high]
  | pair first low high second paired => simp [readString, first, low, high, second, paired]

theorem exists_body_cons {more : List Char} (first : IsWritten c w)
    (h : onto c (readString more) = some (text, rest))
    (ih : ∀ {text}, readString more = some (text, rest) →
      ∃ body, IsBody text body ∧ more = body ++ '"' :: rest) :
    ∃ body, IsBody text body ∧ w ++ more = body ++ '"' :: rest := by
  obtain ⟨tail, read, rfl⟩ := onto_eq_some_iff.1 h
  obtain ⟨body, after, rfl⟩ := ih read
  exact ⟨w ++ body, .cons first after, (List.append_assoc _ _ _).symm⟩

/-- What is read is a text as it was written, up to the first quote that is no part of it. -/
theorem readString_eq_some_iff : readString cs = some (text, rest) ↔
    ∃ body, IsBody text body ∧ cs = body ++ '"' :: rest := by
  constructor
  · intro h
    fun_induction readString cs generalizing text with
    | case1 =>
      cases h
      exact ⟨[], .nil, rfl⟩
    | case5 _ _ _ _ _ first low high _ _ _ _ _ _ second paired ih =>
      exact exists_body_cons (.pair first (Bool.eq_false_iff.2 low) high second paired) h ih
    | case8 _ _ _ _ _ _ unit low high ih =>
      exact exists_body_cons (.unit unit (Bool.eq_false_iff.2 low) (Bool.eq_false_iff.2 high)) h ih
    | case9 _ _ _ _ named ih => exact exists_body_cons (.escape named) h ih
    | case12 c more quote _ escapes large ih =>
      -- a backslash stands alone only at the end, where no quote follows it
      have slash : c ≠ '\\' := by
        rintro rfl
        cases more with
        | nil => cases h
        | cons e more => exact escapes e more rfl rfl
      exact exists_body_cons (.plain quote slash large) h ih
    | case2 | case3 | case4 | case6 | case7 | case10 | case11 | case13 => cases h
  · rintro ⟨body, written, rfl⟩
    induction written with
    | nil => rfl
    | cons first _ ih =>
      rw [List.append_assoc, readString_written first, ih]
      rfl

theorem length_of_readString (h : readString cs = some (text, rest)) :
    rest.length < cs.length := by
  obtain ⟨body, -, rfl⟩ := readString_eq_some_iff.1 h
  rw [List.length_append, List.length_cons]
  omega

/-- What follows a literal is no part of it. -/
theorem readString_append (more : List Char) (h : readString cs = some (text, rest)) :
    readString (cs ++ more) = some (text, rest ++ more) := by
  obtain ⟨body, written, rfl⟩ := readString_eq_some_iff.1 h
  exact readString_eq_some_iff.2 ⟨body, written, List.append_assoc _ _ _⟩

/-- A literal can be read without what follows it. -/
theorem exists_literal_of_readString (h : readString cs = some (text, rest)) :
    ∃ literal, readString literal = some (text, []) ∧ cs = literal ++ rest := by
  obtain ⟨body, written, rfl⟩ := readString_eq_some_iff.1 h
  exact ⟨body ++ ['"'], readString_eq_some_iff.2 ⟨body, written, rfl⟩, by simp⟩

/-! ## Reading what was written -/

theorem unit?_of_lt : ∀ n < 32, hexDigits 4 n = ['0', '0', hexDigit (n / 16), hexDigit (n % 16)] ∧
    unit? '0' '0' (hexDigit (n / 16)) (hexDigit (n % 16)) = some n := by
  decide

/-- A character is escaped by another one, written as a unit, or stands as it is. -/
theorem escapeChar_cases (c : Char) :
    (∃ e, e ≠ 'u' ∧ unescape? e = some c ∧ escapeChar c = ['\\', e]) ∨
      (c.toNat < 32 ∧ escapeChar c = escapeUnit c.toNat) ∨
      (c ≠ '"' ∧ c ≠ '\\' ∧ ¬ c.toNat < 32 ∧ escapeChar c = [c]) := by
  by_cases short : c = '"' ∨ c = '\\' ∨ c = '\n' ∨ c = '\r' ∨ c = '\t' ∨ c = '\x08' ∨ c = '\x0c'
  · left
    rcases short with rfl | rfl | rfl | rfl | rfl | rfl | rfl
    all_goals exact ⟨_, by decide, rfl, rfl⟩
  · simp only [not_or] at short
    right
    by_cases small : c.toNat < 32
    · exact .inl ⟨small, by simp [escapeChar, short, small]⟩
    · exact .inr ⟨short.1, short.2.1, small, by simp [escapeChar, short, small]⟩

/-- The escape of a character writes it. -/
theorem isWritten_escapeChar (c : Char) : IsWritten c (escapeChar c) := by
  rcases escapeChar_cases c with ⟨e, -, named, h⟩ | ⟨small, h⟩ | ⟨quote, slash, large, h⟩
  · rw [h]
    exact .escape named
  · obtain ⟨digits, unit⟩ := unit?_of_lt c.toNat small
    have high : isHighSurrogate c.toNat = false := by
      simp [isHighSurrogate, show ¬ 0xd800 ≤ c.toNat by omega]
    have low : isLowSurrogate c.toNat = false := by
      simp [isLowSurrogate, show ¬ 0xdc00 ≤ c.toNat by omega]
    have written := IsWritten.unit unit low high
    rw [Char.ofNat_toNat] at written
    rw [h, escapeUnit, digits]
    exact written
  · rw [h]
    exact .plain quote slash large

theorem isBody_escaped (text : List Char) : IsBody text (text.flatMap escapeChar) := by
  induction text with
  | nil => exact .nil
  | cons c cs ih => exact .cons (isWritten_escapeChar c) ih

/-- A text is read back from its literal. -/
theorem readString_quoted (text rest : List Char) :
    readString (text.flatMap escapeChar ++ '"' :: rest) = some (text, rest) :=
  readString_eq_some_iff.2 ⟨_, isBody_escaped text, rfl⟩

end ModelTypes.Text
