import ModelTypes.Proofs.Compile.Projections
import ModelTypes.Proofs.Field.Tokens
import ModelTypes.Proofs.Field.Within
import ModelTypes.Proofs.Line
/-!
# Reading lines back

`readParts` takes a declaration line with a key apart: the name that it starts with, the mark of a
property that may be absent, the type and the end. It reads just the lines that give a key its type
(`readParts_eq_some_iff`). So a line has one key, one type and one mark, whatever characters stand in
them, and fields that are written as the same line are declared alike (`entry_determines_parts`).
-/

namespace ModelTypes

namespace Line

/-! ## The reader -/

/-- What a line gives: a key, its type, whether the property may be absent, and whether the line
ends in a line break. -/
structure Parts where
  key : String
  type : String
  optional : Bool
  newline : Bool
deriving DecidableEq, Repr

/-- Reads a name, in quotes or without: its key, and what follows it. -/
def readName : List Char → Option (String × List Char)
  | '"' :: cs => (Text.readString cs).map fun r => (String.ofList r.1, r.2)
  | cs => some (String.ofList (cs.takeWhile isWordChar), cs.dropWhile isWordChar)

/-- Reads what stands between a name and its type: whether the property may be absent. -/
def readMark : List Char → Option (Bool × List Char)
  | '?' :: ':' :: ' ' :: cs => some (true, cs)
  | ':' :: ' ' :: cs => some (false, cs)
  | _ => none

/-- Reads the end of a line, which is found from behind: a type may hold semicolons and breaks. -/
def readEnd (cs : List Char) : Option (String × Bool) :=
  match cs.reverse with
  | '\n' :: ';' :: type => some (String.ofList type.reverse, true)
  | ';' :: type => some (String.ofList type.reverse, false)
  | _ => none

/-- Takes a line apart. A line that starts with no name, or with that of the empty key, is refused. -/
def readParts (line : String) : Option Parts := do
  let (key, cs) ← readName line.toList
  let (optional, cs) ← readMark cs
  let (type, newline) ← readEnd cs
  if key = "" then none else some { key, type, optional, newline }

variable {key key' type type' line name : String} {optional optional' newline newline' : Bool}
  {cs rest : List Char}

/-! ## Names -/

/-- What a line with a key starts with. -/
def IsStart (key name : String) : Prop := IsPropertyName key name ∨ IsMisread key ∧ name = key

theorem isWordChar_of_first {c : Char} (first : c.isAlpha = true ∨ c = '_') :
    isWordChar c = true := by
  rcases first with letter | rfl
  · simp [isWordChar, Char.isAlphanum, letter]
  · decide

/-- A line starts with the bare key or with a literal of it. -/
theorem isStart_iff (filled : key ≠ "") : IsStart key name ↔
    (isBareKey key = true ∧ name = key) ∨
      ∃ cs, name.toList = '"' :: cs ∧ Text.readString cs = some (key.toList, []) := by
  constructor
  · rintro (named | ⟨misread, rfl⟩)
    · cases named with
      | identifier chars first words =>
        refine .inl ⟨?_, rfl⟩
        rw [isBareKey, chars, List.all_cons, isWordChar_of_first first, Bool.true_and,
          List.all_eq_true]
        exact words
      | number n decimal =>
        refine .inl ⟨List.all_eq_true.2 fun c hc => ?_, rfl⟩
        exact isWordChar_of_isDigit (isDigit_of_mem_toString (decimal ▸ hc))
      | literal opens reads => exact .inr ⟨_, opens, reads⟩
    · exact .inl ⟨misread.bare, rfl⟩
  · rintro (⟨bare, rfl⟩ | ⟨cs, opens, reads⟩)
    · exact (isPropertyName_of_isBareKey filled bare).imp_right (⟨·, rfl⟩)
    · exact .inl (.literal opens reads)

theorem readName_bare (filled : key ≠ "") (bare : isBareKey key = true) (apart : Apart rest) :
    readName (key.toList ++ rest) = some (key, rest) := by
  obtain ⟨run, after⟩ := span_apart bare apart
  unfold readName
  split
  · -- a quote is no word character
    rename_i opens
    obtain ⟨c, cs, chars⟩ : ∃ c cs, key.toList = c :: cs :=
      List.exists_cons_of_ne_nil fun hn => filled (String.toList_eq_nil_iff.1 hn)
    rw [isBareKey, chars, List.all_cons, Bool.and_eq_true] at bare
    rw [chars, List.cons_append, List.cons.injEq] at opens
    exact absurd (opens.1 ▸ bare.1) (by decide)
  · rw [run, after, String.ofList_toList]

/-- A name is read up to where no word goes on, if it is the start of a line. -/
theorem readName_eq_some_iff (filled : key ≠ "") (apart : Apart rest) :
    readName cs = some (key, rest) ↔ ∃ name, IsStart key name ∧ cs = name.toList ++ rest := by
  constructor
  · intro h
    unfold readName at h
    split at h
    · -- in quotes: the literal is read to its end
      obtain ⟨⟨text, after⟩, read, same⟩ := Option.map_eq_some_iff.1 h
      cases same
      obtain ⟨literal, reads, rfl⟩ := Text.exists_literal_of_readString read
      refine ⟨String.ofList ('"' :: literal), (isStart_iff filled).2 (.inr ⟨literal, ?_, ?_⟩), ?_⟩
      · exact String.toList_ofList
      · rw [String.toList_ofList]
        exact reads
      · rw [String.toList_ofList]
        rfl
    · -- without quotes: the run of word characters is the key
      cases h
      refine ⟨_, (isStart_iff filled).2 (.inl ⟨?_, rfl⟩), ?_⟩
      · rw [isBareKey, String.toList_ofList]
        exact List.all_takeWhile
      · rw [String.toList_ofList, List.takeWhile_append_dropWhile]
  · rintro ⟨name, starts, rfl⟩
    rcases (isStart_iff filled).1 starts with ⟨bare, rfl⟩ | ⟨literal, opens, reads⟩
    · exact readName_bare filled bare apart
    · rw [opens, List.cons_append, readName, Text.readString_append rest reads]
      simp

/-! ## Marks and ends -/

theorem readMark_eq_some_iff : readMark cs = some (optional, rest) ↔
    cs = (if optional then ['?'] else []) ++ ':' :: ' ' :: rest := by
  constructor
  · intro h
    unfold readMark at h
    split at h <;> cases h <;> rfl
  · rintro rfl
    cases optional <;> rfl

theorem apart_mark : Apart ((if optional then ['?'] else []) ++ ':' :: cs) := by
  cases optional <;> exact apart_cons.2 (by decide)

theorem readEnd_eq_some_iff : readEnd cs = some (type, newline) ↔
    cs = type.toList ++ ';' :: if newline then ['\n'] else [] := by
  constructor
  · intro h
    unfold readEnd at h
    split at h
    case h_1 back | h_2 back =>
      cases h
      simpa using List.reverse_eq_iff.1 back
    case h_3 => cases h
  · rintro rfl
    cases newline <;> simp [readEnd]

/-! ## Lines -/

theorem toList_line : (name ++ (if optional then "?" else "") ++ ": " ++ type ++ ";"
      ++ (if newline then "\n" else "")).toList
    = name.toList ++ ((if optional then ['?'] else [])
      ++ ':' :: ' ' :: (type.toList ++ ';' :: if newline then ['\n'] else [])) := by
  cases optional <;> cases newline <;> simp

/-- Just the lines that give a key its type can be taken apart, into what they were made of. -/
theorem readParts_eq_some_iff : readParts line = some ⟨key, type, optional, newline⟩ ↔
    key ≠ "" ∧ IsLine key type optional newline line := by
  constructor
  · intro h
    obtain ⟨⟨own, cs⟩, name, h⟩ := Option.bind_eq_some_iff.1 h
    obtain ⟨⟨mark, cs'⟩, marked, h⟩ := Option.bind_eq_some_iff.1 h
    obtain ⟨⟨typed, ended⟩, ends, h⟩ := Option.bind_eq_some_iff.1 h
    have filled : own ≠ "" := by
      rintro rfl
      cases h
    cases (if_neg filled).symm.trans h
    obtain rfl := readMark_eq_some_iff.1 marked
    obtain rfl := readEnd_eq_some_iff.1 ends
    obtain ⟨name, starts, chars⟩ := (readName_eq_some_iff filled apart_mark).1 name
    obtain rfl := String.toList_inj.1 (chars.trans toList_line.symm)
    exact ⟨filled, .named filled starts⟩
  · rintro ⟨filled, h⟩
    cases h with
    | named _ starts =>
      refine Option.bind_eq_some_iff.2 ⟨_, (readName_eq_some_iff filled apart_mark).2
        ⟨_, starts, toList_line⟩, ?_⟩
      refine Option.bind_eq_some_iff.2 ⟨_, readMark_eq_some_iff.2 rfl, ?_⟩
      refine Option.bind_eq_some_iff.2 ⟨_, readEnd_eq_some_iff.2 rfl, ?_⟩
      exact if_neg filled
    | unnamed empty => exact absurd empty filled

theorem readParts_entry (filled : key ≠ "") :
    readParts (entry key type optional newline) = some ⟨key, type, optional, newline⟩ :=
  readParts_eq_some_iff.2 ⟨filled, isLine_entry⟩

/-- A line gives one key one type, in whatever way the key is written. -/
theorem IsLine.unique (filled : key ≠ "") (filled' : key' ≠ "")
    (h : IsLine key type optional newline line) (h' : IsLine key' type' optional' newline' line) :
    key = key' ∧ type = type' ∧ optional = optional' ∧ newline = newline' := by
  have read := readParts_eq_some_iff.2 ⟨filled, h⟩
  have read' := readParts_eq_some_iff.2 ⟨filled', h'⟩
  cases read.symm.trans read'
  exact ⟨rfl, rfl, rfl, rfl⟩

theorem entry_inj (filled : key ≠ "") (filled' : key' ≠ "")
    (same : entry key type optional newline = entry key' type' optional' newline') :
    key = key' ∧ type = type' ∧ optional = optional' ∧ newline = newline' :=
  isLine_entry.unique filled filled' (same ▸ isLine_entry)

/-- Without a key nothing is determined: every line with a key is also that of a type alone. -/
theorem entry_eq_unnamed (filled : key ≠ "") : entry key type optional newline
    = entry "" (keyText key ++ (if optional then "?" else "") ++ ": " ++ type) false newline := by
  simp [entry, filled]

end Line

namespace Compile

open Line

variable {s : Store} {p : Projection} {key line : String} {raw : Value} {tree : Entries}

/-! ## Fields -/

/-- The type that a definition is declared with in a projection, and whether it may be absent. -/
def IsDeclaredAs (s : Store) (p : Projection) (key : String) (raw : Value) (type : String)
    (optional : Bool) : Prop :=
  ∃ field, Field.describe s key raw = .ok (some field) ∧
    Render.type? s p field = .ok (some type) ∧ field.optional = optional

theorem isDeclaredAs_of_fieldLine (shown : line ≠ "") (h : fieldLine s p key raw = .ok line) :
    ∃ type optional, IsDeclaredAs s p key raw type optional ∧ line = entry key type optional := by
  obtain ⟨field?, hd, h⟩ := Except.bind_eq_ok_iff.1 h
  have described := mapError_eq_ok_iff.1 hd
  cases field? with
  | none =>
    cases h
    exact absurd rfl shown
  | some field =>
    have read : Field.ReadFrom s (key, raw) field := ⟨_, described⟩
    obtain ⟨type?, ht, h⟩ := Except.bind_eq_ok_iff.1 (mapError_eq_ok_iff.1 h)
    cases type? with
    | none =>
      cases h
      exact absurd rfl shown
    | some type =>
      cases h
      exact ⟨type, field.optional, ⟨field, described, ht, rfl⟩, by rw [read.key]⟩

/-- Fields that are written as the same line are declared alike. -/
theorem isDeclaredAs_of_same_line {s' : Store} {p' : Projection} {key' : String} {raw' : Value}
    (filled : key ≠ "") (filled' : key' ≠ "") (shown : line ≠ "")
    (h : fieldLine s p key raw = .ok line) (h' : fieldLine s' p' key' raw' = .ok line) :
    key = key' ∧ ∃ type optional, IsDeclaredAs s p key raw type optional ∧
      IsDeclaredAs s' p' key' raw' type optional := by
  obtain ⟨type, optional, declared, written⟩ := isDeclaredAs_of_fieldLine shown h
  obtain ⟨type', optional', declared', written'⟩ := isDeclaredAs_of_fieldLine shown h'
  obtain ⟨rfl, rfl, rfl, -⟩ := entry_inj filled filled' (written.symm.trans written')
  exact ⟨rfl, type, optional, declared, declared'⟩

/-- The lines of a body that are not left out are all different. -/
theorem nodup_fieldLines {lines : List String} (distinct : (Keyed.keys tree).Nodup)
    (filled : "" ∉ Keyed.keys tree)
    (h : (tree.mapM fun e => fieldLine s p e.1 e.2) = .ok lines) :
    (lines.filter (· ≠ "")).Nodup := by
  induction tree generalizing lines with
  | nil =>
    cases h
    exact List.nodup_nil
  | cons e rest ih =>
    obtain ⟨apart, distinct⟩ := List.nodup_cons.1 distinct
    obtain ⟨own, filled⟩ := not_or.1 (mt List.mem_cons.2 filled)
    rw [List.mapM_cons] at h
    obtain ⟨line, hl, h⟩ := Except.bind_eq_ok_iff.1 h
    obtain ⟨others, ho, h⟩ := Except.bind_eq_ok_iff.1 h
    cases h
    have ih := ih distinct filled ho
    by_cases shown : line = ""
    · rw [List.filter_cons_of_neg (by simp [shown])]
      exact ih
    · rw [List.filter_cons_of_pos (by simp [shown])]
      refine List.nodup_cons.2 ⟨fun again => apart ?_, ih⟩
      -- a line that comes again belongs to a field of the same key
      obtain ⟨f, hf, written⟩ := Except.exists_of_mem_mapM ho line (List.mem_filter.1 again).1
      have key : f.1 ∈ Keyed.keys rest := List.mem_map_of_mem hf
      have same := isDeclaredAs_of_same_line (Ne.symm own) (fun empty => filled (empty ▸ key)) shown
        hl written
      exact same.1 ▸ key

/-- A line determines its key, its type and its marks, whatever characters stand in them, and they
are read back from it. So two fields that are written as the same line have one key, and they are
declared with one type, both as ones that may be absent or neither. -/
theorem entry_determines_parts :
    (∀ {key key' type type' : String} {optional optional' newline newline' : Bool},
      key ≠ "" → key' ≠ "" →
      entry key type optional newline = entry key' type' optional' newline' →
        key = key' ∧ type = type' ∧ optional = optional' ∧ newline = newline') ∧
    (∀ {key : String} (type : String) (optional newline : Bool), key ≠ "" →
      readParts (entry key type optional newline) = some ⟨key, type, optional, newline⟩) ∧
    ∀ {s s' : Store} {p p' : Projection} {key key' : String} {raw raw' : Value} {line : String},
      key ≠ "" → key' ≠ "" → line ≠ "" →
      fieldLine s p key raw = .ok line → fieldLine s' p' key' raw' = .ok line →
        key = key' ∧ ∃ type optional, IsDeclaredAs s p key raw type optional ∧
          IsDeclaredAs s' p' key' raw' type optional :=
  ⟨entry_inj, fun _ _ _ => readParts_entry, isDeclaredAs_of_same_line⟩

/-- A key in quotes, with its type in two projections, and keys that look alike. -/
theorem entry_determines_parts_lookalikes :
    (Path.child "user" "name" ≠ "" ∧ "user.name" ≠ "" ∧
      entry (Path.child "user" "name") "string" true = entry "user.name" "string" true ∧
      Path.child "user" "name" = "user.name") ∧
    entry "a?" "string" ≠ entry "a" "string" true ∧
    readParts (entry "user.name" "string" true) = some ⟨"user.name", "string", true, true⟩ ∧
    ∃ line, line ≠ "" ∧
      fieldLine {} { document := false } "user.name" (.str "String") = .ok line ∧
      fieldLine {} { document := true } "user.name" (.dict [("type", .str "String")]) = .ok line ∧
      ∃ type optional,
        IsDeclaredAs {} { document := false } "user.name" (.str "String") type optional ∧
        IsDeclaredAs {} { document := true } "user.name" (.dict [("type", .str "String")]) type
          optional := by
  have child : Path.child "user" "name" ≠ "" := by decide
  have filled : "user.name" ≠ "" := by decide
  have same : entry (Path.child "user" "name") "string" true = entry "user.name" "string" true := by
    decide
  have lookalike : entry "a?" "string" ≠ entry "a" "string" true := fun same =>
    absurd (entry_determines_parts.1 (by decide) (by decide) same).1 (by decide)
  have shown : "\"user.name\"?: string;\n" ≠ "" := by decide
  have lean : fieldLine {} { document := false } "user.name" (.str "String")
      = .ok "\"user.name\"?: string;\n" := Except.toOption_eq_some_iff.1 (by decide +kernel)
  have document : fieldLine {} { document := true } "user.name" (.dict [("type", .str "String")])
      = .ok "\"user.name\"?: string;\n" := Except.toOption_eq_some_iff.1 (by decide +kernel)
  have alike := entry_determines_parts.2.2 filled filled shown lean document
  exact ⟨⟨child, filled, same, (entry_determines_parts.1 child filled same).1⟩, lookalike,
    entry_determines_parts.2.1 "string" true true filled, _, shown, lean, document, alike.2⟩

end Compile
end ModelTypes
