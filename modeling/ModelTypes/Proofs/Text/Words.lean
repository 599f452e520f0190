import ModelTypes.Proofs.Spelling
import ModelTypes.Proofs.Text.Numbers
import ModelTypes.Proofs.Text.Unquote
/-!
# Texts without a word

Texts are put together from pieces that do not hold a word, and hold it only where a joint makes it.
A joint at a character that is no letter of the word makes none (`Free.append`), and neither does a
piece without the word's first letter (`free_append_of_notMem`). So escapes, upper case letters and
numbers make none.
-/

namespace ModelTypes.Text

/-- The name of the library that documents belong to. -/
def library : List Char := "mongoose".toList

/-- A text does not hold the library's name. -/
def Free (cs : List Char) : Prop := ¬ library <:+: cs

instance (cs : List Char) : Decidable (Free cs) := inferInstanceAs (Decidable (¬ library <:+: cs))

/-- A text ends with no letter of the library's name. -/
def Ended (cs : List Char) : Prop := ∀ c ∈ cs.getLast?, c ∉ library

/-- A text begins with no letter of the library's name. -/
def Begun (cs : List Char) : Prop := ∀ c ∈ cs.head?, c ∉ library

instance (cs : List Char) : Decidable (Ended cs) :=
  decidable_of_iff (cs.getLast?.all fun c => !library.contains c)
    (by simp [Ended, Option.all_eq_true])

instance (cs : List Char) : Decidable (Begun cs) :=
  decidable_of_iff (cs.head?.all fun c => !library.contains c) (by simp [Begun, Option.all_eq_true])

/-- A text to which any free text may be added. -/
structure Sealed (cs : List Char) : Prop where
  free : Free cs
  ended : Ended cs

instance (cs : List Char) : Decidable (Sealed cs) :=
  decidable_of_iff (Free cs ∧ Ended cs) ⟨fun h => ⟨h.1, h.2⟩, fun h => ⟨h.free, h.ended⟩⟩

/-- A text that may stand between any two free ones. -/
structure Joint (cs : List Char) : Prop where
  sealed : Sealed cs
  begun : Begun cs
  filled : cs ≠ []

instance (cs : List Char) : Decidable (Joint cs) :=
  decidable_of_iff (Sealed cs ∧ Begun cs ∧ cs ≠ [])
    ⟨fun h => ⟨h.1, h.2.1, h.2.2⟩, fun h => ⟨h.sealed, h.begun, h.filled⟩⟩

variable {a b cs : List Char} {c : Char}

/-! ## Joints -/

theorem free_nil : Free [] := by decide

theorem sealed_nil : Sealed [] := ⟨free_nil, by simp [Ended]⟩

theorem Free.of_part (h : Free b) (sub : a <:+: b) : Free a := fun inside => h (inside.trans sub)

/-- Where the word stands over a joint, it has letters on both sides. -/
theorem Free.append_of_split (ha : Free a) (hb : Free b)
    (split : ∀ before after, library = before ++ after → before ≠ [] → after ≠ [] →
      before <:+ a → ¬ after <+: b) : Free (a ++ b) := by
  intro h
  rcases List.infix_append_iff.1 h with h | h | ⟨before, after, word, hbefore, hafter⟩
  · exact ha h
  · exact hb h
  · cases before with
    | nil => exact hb (word ▸ hafter.isInfix)
    | cons first rest =>
      cases after with
      | nil => exact ha (by rw [word, List.append_nil]; exact hbefore.isInfix)
      | cons next others => exact split _ _ word (by simp) (by simp) hbefore hafter

theorem Free.append (ha : Free a) (hb : Free b) (joint : Ended a ∨ Begun b) : Free (a ++ b) := by
  refine ha.append_of_split hb fun before after word left right hbefore hafter => ?_
  rcases joint with ended | begun
  · have last : a.getLast? = some (before.getLast left) := by
      obtain ⟨start, rfl⟩ := hbefore
      rw [List.getLast?_append_of_ne_nil _ left, List.getLast?_eq_some_getLast left]
    exact ended _ last (word ▸ List.mem_append_left _ (List.getLast_mem left))
  · obtain ⟨c, rest, rfl⟩ := List.exists_cons_of_ne_nil right
    obtain ⟨more, rfl⟩ := hafter
    exact begun c rfl (word ▸ List.mem_append_right _ List.mem_cons_self)

/-- Without its first letter nothing begins the word. -/
theorem free_append_of_notMem (ha : 'm' ∉ a) (hb : Free b) : Free (a ++ b) := by
  have own : Free a := fun h => ha (h.subset (by decide))
  refine own.append_of_split hb fun before after word left _ hbefore _ => ?_
  obtain ⟨c, rest, rfl⟩ := List.exists_cons_of_ne_nil left
  obtain ⟨rfl, -⟩ := List.cons.inj (word : 'm' :: _ = c :: (rest ++ after))
  exact ha (hbefore.subset List.mem_cons_self)

theorem free_of_notMem (h : 'm' ∉ cs) : Free cs := by
  simpa using free_append_of_notMem h free_nil

theorem Ended.append (ha : Ended a) (hb : Ended b) : Ended (a ++ b) := by
  intro c hc
  rw [List.getLast?_append] at hc
  cases hlast : b.getLast? with
  | none => exact ha c (by simpa [hlast] using hc)
  | some d => exact hb c (by simpa [hlast] using hc)

theorem Free.seal (ha : Free a) (hb : Joint b) : Sealed (a ++ b) := by
  refine ⟨ha.append hb.sealed.free (.inr hb.begun), fun c hc => hb.sealed.ended c ?_⟩
  rwa [List.getLast?_append_of_ne_nil _ hb.filled] at hc

theorem Sealed.add (ha : Sealed a) (hb : Free b) : Free (a ++ b) :=
  ha.free.append hb (.inl ha.ended)

theorem Sealed.append (ha : Sealed a) (hb : Sealed b) : Sealed (a ++ b) :=
  ⟨ha.add hb.free, ha.ended.append hb.ended⟩

theorem sealed_flatMap {α : Type} {items : List α} {f : α → List Char}
    (h : ∀ item ∈ items, Sealed (f item)) : Sealed (items.flatMap f) := by
  induction items with
  | nil => exact sealed_nil
  | cons item rest ih =>
    obtain ⟨first, others⟩ := List.forall_mem_cons.1 h
    rw [List.flatMap_cons]
    exact first.append (ih others)

theorem free_intercalate {sep : String} {texts : List String} (hs : Joint sep.toList)
    (h : ∀ text ∈ texts, Free text.toList) : Free (sep.intercalate texts).toList := by
  induction texts with
  | nil => exact free_nil
  | cons first rest ih =>
    obtain ⟨hfirst, hrest⟩ := List.forall_mem_cons.1 h
    cases rest with
    | nil => simpa using hfirst
    | cons next others =>
      rw [String.intercalate_cons_cons, String.toList_append, String.toList_append]
      exact (hfirst.seal hs).add (ih hrest)

/-! ## Letter case -/

/-- A text that holds the word in no letter case does not hold it as it is. -/
theorem free_of_lower (h : Free (cs.flatMap lower)) : Free cs := by
  intro inside
  have word : library.flatMap lower = library := by decide +kernel
  exact h (word ▸ inside.flatMap lower)

theorem notMem_library (h : c.isLower = false) : c ∉ library := fun hc => by
  have letters : library.all Char.isLower = true := by decide
  simp [List.all_eq_true.1 letters c hc] at h

theorem free_upper_append (h : Free cs) : Free (upper c ++ cs) :=
  free_append_of_notMem (fun hm => absurd (isLower_of_mem_upper hm) (by decide)) h

/-- A lower case form with the first letter of the word is that letter. -/
theorem lower_of_mem (h : 'm' ∈ lower c) : lower c = ['m'] := by
  have expansions : ∀ e ∈ lowerExpansions, 'm' ∉ e.2.map Char.ofNat := by decide
  unfold lower caseForm at h ⊢
  split <;> rename_i hc
  · rw [if_pos hc, List.mem_singleton] at h
    rw [h]
  rw [if_neg hc] at h
  split at h
  · rename_i form hform
    exact absurd h (expansions _ (mem_of_lookup hform))
  · split at h <;> rw [List.mem_singleton.1 h]

/-- Putting the first letter in lower case makes the word only of itself in another letter case. -/
theorem free_lower_append (h : Free ((c :: cs).flatMap lower)) : Free (lower c ++ cs) := by
  by_cases hm : 'm' ∈ lower c
  · rw [List.flatMap_cons, lower_of_mem hm] at h
    rw [lower_of_mem hm]
    exact free_of_lower h
  · refine free_append_of_notMem hm (free_of_lower (h.of_part ?_))
    rw [List.flatMap_cons]
    exact (List.suffix_append _ _).isInfix

/-! ## Literals -/

/-- The first letter of the word stands in no escape but its own. -/
theorem escapeChar_of_mem (h : 'm' ∈ escapeChar c) : escapeChar c = [c] := by
  rcases escapeChar_cases c with ⟨e, -, he, escape⟩ | ⟨small, escape⟩ | ⟨-, -, -, escape⟩
  · rw [escape] at h
    simp only [List.mem_cons, List.not_mem_nil, or_false] at h
    rcases h with h | rfl
    · cases h
    · cases he
  · have digits : ∀ n < 32, 'm' ∉ escapeUnit n := by decide
    exact absurd (escape ▸ h) (digits _ small)
  · exact escape

/-- Letters at the beginning of an escaped text are at its beginning. -/
theorem prefix_of_prefix_escaped {letters : List Char} (h : letters <+: cs.flatMap escapeChar)
    (plain : '\\' ∉ letters) : letters <+: cs := by
  induction cs generalizing letters with
  | nil => exact h
  | cons c cs ih =>
    cases letters with
    | nil => exact List.nil_prefix
    | cons first rest =>
      have own : escapeChar c = [c] := by
        rcases escapeChar_cases c with ⟨e, -, -, escape⟩ | ⟨-, escape⟩ | ⟨-, -, -, escape⟩
        · rw [List.flatMap_cons, escape] at h
          exact absurd (List.cons_prefix_cons.1 h).1 fun he => plain (he ▸ List.mem_cons_self)
        · rw [List.flatMap_cons, escape] at h
          exact absurd (List.cons_prefix_cons.1 h).1 fun he => plain (he ▸ List.mem_cons_self)
        · exact escape
      rw [List.flatMap_cons, own, List.singleton_append, List.cons_prefix_cons] at h
      exact List.cons_prefix_cons.2 ⟨h.1, ih h.2 fun hm => plain (List.mem_cons_of_mem _ hm)⟩

theorem free_escaped (h : Free cs) : Free (cs.flatMap escapeChar) := by
  induction cs with
  | nil => exact free_nil
  | cons c cs ih =>
    rw [List.flatMap_cons]
    have rest : Free (cs.flatMap escapeChar) := ih (h.of_part (List.suffix_cons c cs).isInfix)
    by_cases hm : 'm' ∈ escapeChar c
    · rw [escapeChar_of_mem hm]
      intro inside
      rcases List.infix_cons_iff.1 inside with first | inside
      · obtain ⟨rfl, others⟩ := List.cons_prefix_cons.1 (first : 'm' :: _ <+: c :: _)
        have others := prefix_of_prefix_escaped others (by decide)
        exact h (List.cons_prefix_cons.2 ⟨rfl, others⟩ : library <+: 'm' :: cs).isInfix
      · exact rest inside
    · exact free_append_of_notMem hm rest

theorem sealed_quote {text : String} (h : Free text.toList) : Sealed (quote text).toList := by
  have quoted : (quote text).toList = ['"'] ++ (text.toList.flatMap escapeChar ++ ['"']) := by
    simp [quote, quoteChars]
  rw [quoted]
  exact Sealed.append (by decide) ((free_escaped h).seal (by decide))

/-! ## Numbers -/

theorem free_numeric (h : ∀ c ∈ cs, IsNumeric c) : Free cs :=
  free_of_notMem fun inside => absurd (h _ inside) (by decide)

theorem free_int (n : Int) : Free (toString n).toList := free_numeric fun _ => isNumeric_int

theorem free_double {spelling : Double.Spelling} (nan : 'm' ∉ spelling.nan.toList)
    (infinity : 'm' ∉ spelling.infinity.toList) (d : Double) : Free (d.text spelling).toList := by
  have magnitude : 'm' ∉ (Double.magnitudeText d.toDecimal).toList := fun inside =>
    absurd (isNumeric_magnitudeText inside) (by decide)
  refine free_of_notMem ?_
  rcases double_cases spelling d with h | h | h | h | h <;> rw [h]
  · exact nan
  · exact infinity
  · simp [infinity]
  · exact magnitude
  · simp [magnitude]

end ModelTypes.Text

namespace ModelTypes.Naming

open ModelTypes.Text

/-! ## Names of blocks -/

/-- Neither a name nor its form with the first letter in lower case holds the word. -/
structure FreeName (name : String) : Prop where
  free : Free name.toList
  lowered : Free (lowerFirst name).toList

variable {model path name : String} {before : List Char} {words : List (List Char)}

theorem toList_lowerFirst {c : Char} {cs : List Char} (h : name.toList = c :: cs) :
    (lowerFirst name).toList = lower c ++ cs := by
  rw [lowerFirst, h]
  exact String.toList_ofList

theorem freeName_of_lower (h : Free (lowerString name).toList) : FreeName name := by
  rw [lowerString, String.toList_ofList] at h
  refine ⟨free_of_lower h, ?_⟩
  rcases hn : name.toList with _ | ⟨c, cs⟩
  · rw [lowerFirst, hn]
    exact free_nil
  · rw [toList_lowerFirst hn]
    exact free_lower_append (hn ▸ h)

/-- Words in title case are added with a joint at a capital. -/
theorem free_append_titleCase (hb : Free before) (h : ∀ word ∈ words, Free word) :
    Free (before ++ words.flatMap titleCase) := by
  induction words generalizing before with
  | nil => simpa using hb
  | cons word rest ih =>
    obtain ⟨own, others⟩ := List.forall_mem_cons.1 h
    rw [List.flatMap_cons, ← List.append_assoc]
    refine ih ?_ others
    cases word with
    | nil => simpa [titleCase] using hb
    | cons c cs =>
      obtain ⟨first, more, upper, capital⟩ := head_upper c
      have free : Free (titleCase (c :: cs)) :=
        free_upper_append (own.of_part (List.suffix_cons c cs).isInfix)
      refine hb.append free (.inr fun d hd => ?_)
      rw [titleCase, upper] at hd
      cases hd
      exact notMem_library capital

theorem free_subdocumentName (hm : Free model.toList)
    (hp : ∀ word ∈ splitChars '.' path.toList, Free word) :
    Free (subdocumentName path model).toList := by
  rw [subdocumentName, String.toList_ofList]
  exact (free_append_titleCase hm hp).of_part (isPrefix_singularChars _).isInfix

/-- A block has a free name if its parent has one and its path is free. -/
theorem FreeName.subdocument (h : FreeName model) (named : model ≠ "")
    (hp : ∀ word ∈ splitChars '.' path.toList, Free word) :
    FreeName (subdocumentName path model) := by
  refine ⟨free_subdocumentName h.free hp, ?_⟩
  obtain ⟨c, cs, hm⟩ : ∃ c cs, model.toList = c :: cs :=
    List.exists_cons_of_ne_nil fun hn => named (String.toList_eq_nil_iff.1 hn)
  have own : Free (lower c ++ cs) := toList_lowerFirst hm ▸ h.lowered
  have part :=
    isPrefix_singularChars (model.toList ++ (splitChars '.' path.toList).flatMap titleCase)
  rcases hn : (subdocumentName path model).toList with _ | ⟨d, ds⟩
  · rw [lowerFirst, hn]
    exact free_nil
  · rw [toList_lowerFirst hn]
    rw [subdocumentName, String.toList_ofList] at hn
    rw [hn, hm, List.cons_append, List.cons_prefix_cons] at part
    obtain ⟨rfl, rest⟩ := part
    refine (free_append_titleCase own hp).of_part ?_
    rw [List.append_assoc]
    exact ((List.prefix_append_right_inj _).2 rest).isInfix

end ModelTypes.Naming
