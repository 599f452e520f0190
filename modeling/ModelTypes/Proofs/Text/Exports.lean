import Mathlib.Data.List.Infix
import Mathlib.Data.String.Basic
/-!
# What a text exports

A text is read line by line: a line that starts as the export of a type exports it under the name
that follows, up to the first white space. So a text of whole lines exports what its lines do,
whatever follows (`Exports`), and a type that spans lines exports nothing if its inner lines do not
(`Inline`).
-/

namespace ModelTypes.Text

/-- How the line of an exported type starts. -/
def exportMark : List Char := "export type ".toList

/-- The name of the type that a line exports. -/
def exported? (line : List Char) : Option String :=
  if exportMark.isPrefixOf line then
    some (String.ofList ((line.drop exportMark.length).takeWhile (!·.isWhitespace)))
  else none

def exportsOf (text : List Char) : List String := (text.splitOn '\n').filterMap exported?

/-- The names of the types that a text exports, line by line. -/
def exportedNames (text : String) : List String := exportsOf text.toList

@[simp] theorem exportsOf_nil : exportsOf [] = [] := rfl

/-- A name of one word, which a reader takes whole. -/
def IsOneWord (name : String) : Prop := ∀ c ∈ name.toList, c.isWhitespace = false

variable {a b cs l t r : List Char} {c : Char} {n : Option String}
  {names names' : List String} {name : String}

/-! ## Whole lines -/

/-- Whatever follows, a text exports just these names. -/
def Exports (text : List Char) (names : List String) : Prop :=
  ∀ rest, exportsOf (text ++ rest) = names ++ exportsOf rest

namespace Exports

theorem nil : Exports [] [] := fun _ => rfl

theorem append (h : Exports a names) (h' : Exports b names') :
    Exports (a ++ b) (names ++ names') := fun rest => by
  rw [List.append_assoc, h, h', List.append_assoc]

/-- A text with no names of its own may stand before any other one. -/
theorem after (h : Exports a []) (h' : Exports b names) : Exports (a ++ b) names := h.append h'

theorem flatMap {α : Type} {items : List α} {write : α → List Char} {name : α → List String}
    (h : ∀ item ∈ items, Exports (write item) (name item)) :
    Exports (items.flatMap write) (items.flatMap name) := by
  induction items with
  | nil => exact nil
  | cons item rest ih =>
    obtain ⟨first, others⟩ := List.forall_mem_cons.1 h
    exact first.append (ih others)

theorem silent {α : Type} {items : List α} {write : α → List Char}
    (h : ∀ item ∈ items, Exports (write item) []) : Exports (items.flatMap write) [] := by
  have all := flatMap h
  rwa [List.flatMap_eq_nil_iff.2 fun _ _ => rfl] at all

/-- A line exports what it tells. -/
theorem line (unbroken : '\n' ∉ r) : Exports (r ++ ['\n']) (exported? r).toList := by
  intro rest
  have first : (r ++ ['\n'] ++ rest).splitOn '\n' = r :: rest.splitOn '\n' := by
    rw [List.append_assoc, List.singleton_append, List.splitOn_append_cons_self,
      List.splitOn_eq_singleton unbroken, List.singleton_append]
  rw [exportsOf, first, List.filterMap_cons]
  cases exported? r <;> rfl

/-- What a text of whole lines exports can be computed. -/
theorem of_ended (ended : cs.getLast? = some '\n') (own : exportsOf cs = names) :
    Exports cs names := by
  intro rest
  obtain ⟨before, rfl⟩ := List.getLast?_eq_some_iff.1 ended
  have split (rest : List Char) :
      (before ++ ['\n'] ++ rest).splitOn '\n' = before.splitOn '\n' ++ rest.splitOn '\n' := by
    rw [List.append_assoc, List.singleton_append, List.splitOn_append_cons_self]
  have alone : exportsOf (before ++ ['\n']) = exportsOf before := by
    have split := split []
    rw [List.append_nil] at split
    rw [exportsOf, split, List.filterMap_append]
    exact List.append_nil _
  rw [← own, alone, exportsOf, split, List.filterMap_append]
  rfl

theorem of_literal (ended : cs.getLast? = some '\n') (own : exportsOf cs = names) :
    Exports (String.ofList cs).toList names := by
  rw [String.toList_ofList]
  exact of_ended ended own

end Exports

/-! ## Starts of lines -/

/-- A line that starts so exports nothing, whatever follows. -/
def Aside (cs : List Char) : Prop := ∀ rest, ¬ exportMark <+: cs ++ rest

theorem aside_cons (other : c ≠ 'e') : Aside (c :: cs) := fun rest h => by
  obtain ⟨rfl, -⟩ := List.cons_prefix_cons.1 (h : 'e' :: _ <+: c :: (cs ++ rest))
  exact other rfl

theorem Aside.append (h : Aside a) (b : List Char) : Aside (a ++ b) := fun rest inside =>
  h (b ++ rest) (by rwa [List.append_assoc] at inside)

/-- Without a space before it, a character that is not in the mark keeps the mark away. -/
theorem aside_of_notMem (spaceless : ' ' ∉ a) (other : c ∉ exportMark) : Aside (a ++ c :: b) := by
  intro rest inside
  rw [List.append_assoc] at inside
  rcases List.prefix_or_prefix_of_prefix inside (List.prefix_append a _) with whole | part
  · exact spaceless (whole.subset (by decide))
  · obtain ⟨after, mark⟩ := part
    rw [← mark, List.prefix_append_right_inj] at inside
    cases after with
    | nil => exact spaceless (by rw [List.append_nil] at mark; rw [mark]; decide)
    | cons d after =>
      obtain ⟨rfl, -⟩ := List.cons_prefix_cons.1 inside
      exact other (by rw [← mark]; simp)

theorem not_prefix_of_spaceless (h : ' ' ∉ cs) : ¬ exportMark <+: cs := fun inside =>
  h (inside.subset (by decide))

theorem exported?_eq_none (h : ¬ exportMark <+: r) : exported? r = none := by
  rw [exported?, if_neg (by simpa using h)]

/-- Whatever follows on its line, a text tells what is exported. -/
structure Leads (l : List Char) (n : Option String) : Prop where
  unbroken : '\n' ∉ l
  tells : ∀ rest, exported? (l ++ rest) = n

theorem Aside.leads (h : Aside cs) (unbroken : '\n' ∉ cs) : Leads cs none :=
  ⟨unbroken, fun rest => exported?_eq_none (h rest)⟩

theorem Leads.line (h : Leads l n) (unbroken : '\n' ∉ t) :
    Exports (l ++ t ++ ['\n']) n.toList := by
  have whole := Exports.line (r := l ++ t) (by simp [h.unbroken, unbroken])
  rwa [h.tells] at whole

theorem unbroken_ofList (h : '\n' ∉ cs) : '\n' ∉ (String.ofList cs).toList := by
  rwa [String.toList_ofList]

theorem IsOneWord.unbroken (h : IsOneWord name) : '\n' ∉ name.toList := fun inside => by
  simpa using h _ inside

theorem IsOneWord.spaceless (h : IsOneWord name) : ' ' ∉ name.toList := fun inside => by
  simpa using h _ inside

/-- The line of an exported type says its name. -/
theorem IsOneWord.leads (h : IsOneWord name) :
    Leads (exportMark ++ (name.toList ++ " = ".toList)) (some name) where
  unbroken := by
    have mark : '\n' ∉ exportMark := by decide
    simp [mark, h.unbroken]
  tells rest := by
    have taken : (name.toList ++ (" = ".toList ++ rest)).takeWhile (!·.isWhitespace)
        = name.toList := by
      rw [List.takeWhile_append_of_pos fun c hc => by simpa using h c hc]
      simp
    rw [exported?, if_pos (by simp [List.append_assoc]), List.append_assoc, List.append_assoc,
      List.drop_left, taken, String.ofList_toList]

/-! ## Types within lines -/

/-- The text of a type that exports nothing: on one line, which may be all of it, or with whole
lines within. -/
inductive Inline : List Char → Prop
  | line {cs : List Char} : '\n' ∉ cs → (∀ t, ' ' ∉ t → ¬ exportMark <+: cs ++ t) → Inline cs
  | lines {a b c : List Char} : '\n' ∉ a → Aside a → Exports b [] → '\n' ∉ c → Aside c →
      Inline (a ++ ['\n'] ++ b ++ c)

namespace Inline

theorem of_aside (unbroken : '\n' ∉ cs) (h : Aside cs) : Inline cs :=
  .line unbroken fun t _ => h t

theorem of_word (h : IsOneWord name) : Inline name.toList :=
  .line h.unbroken fun t spaceless =>
    not_prefix_of_spaceless (by simp [h.spaceless, spaceless])

/-- A type may be put between texts that do not break the line. -/
theorem between (h : Inline cs) (unbroken : '\n' ∉ l) (unbroken' : '\n' ∉ t)
    (starts : Aside l ∨ l = [] ∧ ' ' ∉ t) : Inline (l ++ cs ++ t) := by
  cases h with
  | line one apart =>
    refine .line (by simp [one, unbroken, unbroken']) fun more hm => ?_
    rcases starts with aside | ⟨rfl, spaceless⟩
    · rw [List.append_assoc]
      exact (aside.append cs) _
    · rw [List.nil_append, List.append_assoc]
      exact apart _ (by simp [spaceless, hm])
  | @lines first body last one aside inner one' aside' =>
    have start : Aside (l ++ first) := by
      rcases starts with before | ⟨rfl, -⟩
      · exact before.append first
      · exact aside
    have parts := Inline.lines (a := l ++ first) (by simp [unbroken, one]) start inner
      (by simp [one', unbroken']) (aside'.append t)
    simpa [List.append_assoc] using parts

/-- On a line that says what it exports, a type changes nothing. -/
theorem exports (h : Inline cs) (leads : Leads l n) (unbroken : '\n' ∉ t) :
    Exports (l ++ cs ++ t ++ ['\n']) n.toList := by
  cases h with
  | line one _ =>
    have line := leads.line (t := cs ++ t) (by simp [one, unbroken])
    simpa [List.append_assoc] using line
  | @lines first body last one aside inner one' aside' =>
    have parts := ((leads.line one).append inner).append ((aside'.leads one').line unbroken)
    simpa [List.append_assoc] using parts

/-- A type that stands alone on its lines exports nothing. -/
theorem silent (h : Inline cs) (unbroken : '\n' ∉ t) (spaceless : ' ' ∉ t) :
    Exports (cs ++ t ++ ['\n']) [] := by
  cases h with
  | line one apart =>
    have whole := Exports.line (r := cs ++ t) (by simp [one, unbroken])
    rwa [exported?_eq_none (apart t spaceless)] at whole
  | @lines first body last one aside inner one' aside' =>
    have start := (aside.leads one).line (t := []) (by simp)
    have parts := (start.append inner).append ((aside'.leads one').line unbroken)
    simpa [List.append_assoc] using parts

end Inline
end ModelTypes.Text
