import ModelTypes.Proofs.Compile.Passes
import ModelTypes.Proofs.Schema.Linked
import ModelTypes.Proofs.Spelling
/-!
# Dotted references and the blocks they name

A block reached by the paths `p₁, …, pₙ` is named level by level, and each level takes the plural
ending off its own path. The reference `M.p₁.….pₙ` is put in title case as a whole and loses one
ending at most. So the two names meet exactly if no path before the last has a plural ending.
-/

namespace ModelTypes

/-! ## Upper case forms of other characters than dots -/

namespace Text

theorem ofNat_ne_dot {n : Nat} (h : n ≠ 46) : Char.ofNat n ≠ '.' := by
  intro he
  have hn := congrArg Char.toNat he
  rw [Char.toNat_ofNat] at hn
  split at hn
  · exact h hn
  · exact absurd hn (by decide)

theorem dot_notMem_upperExpansions : ∀ e ∈ upperExpansions, 46 ∉ e.2 := by decide +kernel

theorem shift_upperRuns_ne_dot : ∀ r ∈ upperRuns,
    r.last + r.shift < 46 ∨ 46 < r.first + r.shift := by
  decide +kernel

theorem toUpper_ne_dot {c : Char} (h : c ≠ '.') : c.toUpper ≠ '.' := by
  intro he
  have upper := Char.isLower_toUpper_eq_false c
  unfold Char.toUpper at he
  split at he
  · rename_i hc
    have hn := congrArg (fun d => d.val.toNat) he
    have hv := UInt32.le_iff_toNat_le.1 hc.1
    have hw := UInt32.le_iff_toNat_le.1 hc.2
    simp only [UInt32.toNat_add] at hn
    simp at hn hv hw
    omega
  · exact h he

/-- No upper case form of another character holds a dot. -/
theorem dot_notMem_upper {c : Char} (h : c ≠ '.') : '.' ∉ upper c := by
  unfold upper
  split
  · simpa using (toUpper_ne_dot h).symm
  unfold caseForm
  split
  · rename_i form hform
    obtain ⟨before, after, split, -⟩ := List.lookup_eq_some_iff.1 hform
    have hdot := dot_notMem_upperExpansions (c.toNat, form) (by rw [split]; simp)
    rw [List.mem_map]
    rintro ⟨n, hn, he⟩
    exact ofNat_ne_dot (fun h46 => hdot (h46 ▸ hn)) he
  · split
    · rename_i r hr
      have hshift := shift_upperRuns_ne_dot r (List.mem_of_find?_eq_some hr)
      have holds := List.find?_some hr
      simp only [CaseRun.holds, Bool.and_eq_true, decide_eq_true_eq] at holds
      have hne : (c.toNat + r.shift).toNat ≠ 46 := by omega
      simpa using (ofNat_ne_dot hne).symm
    · simpa using h.symm

end Text

/-! ## Words and their endings -/

namespace Naming

/-- The segments of a path in title case. -/
def words (path : String) : List Char := (splitChars '.' path.toList).flatMap titleCase

/-- A path that has no plural ending in title case. -/
def Singular (path : String) : Prop := spelling path = words path

instance (path : String) : Decidable (Singular path) := inferInstanceAs (Decidable (_ = _))

theorem words_append (path rest : String) :
    words (path ++ "." ++ rest) = words path ++ words rest := by
  have h : (path ++ "." ++ rest).toList = path.toList ++ '.' :: rest.toList := by simp
  simp only [words, splitChars_eq, h, List.splitOn_append_cons_self, List.flatMap_append]

theorem words_dotted {paths : List String} (h : paths ≠ []) :
    words (Path.dotted paths) = paths.flatMap words := by
  induction paths with
  | nil => exact absurd rfl h
  | cons path rest ih =>
    by_cases hr : rest = []
    · simp [hr, Path.dotted]
    · rw [Path.dotted_cons hr, words_append, ih hr, List.flatMap_cons]

theorem dot_notMem_words (path : String) : '.' ∉ words path := by
  simp only [words, splitChars_eq, List.mem_flatMap, not_exists, not_and]
  intro word hw hdot
  have clean := notMem_of_mem_splitOn hw
  cases word with
  | nil => simp [titleCase] at hdot
  | cons c cs =>
    rw [List.mem_cons, not_or] at clean
    rcases List.mem_append.1 hdot with hdot | hdot
    · exact Text.dot_notMem_upper (Ne.symm clean.1) hdot
    · exact clean.2 hdot

/-- The first character is its own upper case form, as every capital letter is. -/
def Capitalised (model : String) : Prop := titleCase model.toList = model.toList ∧ model ≠ ""

instance (model : String) : Decidable (Capitalised model) := inferInstanceAs (Decidable (_ ∧ _))

/-- The words of a model's name are the name itself, unless dots go missing. -/
theorem words_eq_iff {model : String} (h : Capitalised model) :
    words model = model.toList ↔ Path.DotFree model := by
  constructor
  · intro he hdot
    exact dot_notMem_words model (he ▸ hdot)
  · intro hdot
    rw [words, splitChars_eq, List.splitOn_eq_singleton hdot]
    simpa using h.1

theorem length_spelling_le (path : String) : (spelling path).length ≤ (words path).length :=
  (isPrefix_singularChars _).length_le

theorem length_flatMap_spelling_le (paths : List String) :
    (paths.flatMap spelling).length ≤ (paths.flatMap words).length := by
  induction paths with
  | nil => exact Nat.le_refl _
  | cons path rest ih =>
    simp only [List.flatMap_cons, List.length_append]
    exact Nat.add_le_add (length_spelling_le path) ih

/-- Endings that are taken off anywhere are missing in the whole. -/
theorem flatMap_words_eq_iff {paths : List String} :
    paths.flatMap words = paths.flatMap spelling ↔ ∀ path ∈ paths, Singular path := by
  induction paths with
  | nil => simp
  | cons path rest ih =>
    rw [List.forall_mem_cons, List.flatMap_cons, List.flatMap_cons, ← ih]
    constructor
    · intro h
      have own := length_spelling_le path
      have others := length_flatMap_spelling_le rest
      have total := congrArg List.length h
      simp only [List.length_append] at total
      obtain ⟨hpath, hrest⟩ := List.append_inj h (by omega)
      exact ⟨hpath.symm, hrest⟩
    · rintro ⟨hpath, hrest⟩
      rw [hrest, ← show spelling path = words path from hpath]

/-! ## Names along a way down -/

/-- The name of the block that is reached from a model's by some paths. -/
def nameAlong (model : String) (paths : List String) : String :=
  paths.foldl (fun name path => subdocumentName path name) model

theorem toList_nameAlong {paths : List String} (h : ∀ path ∈ paths, Worded path) (model : String) :
    (nameAlong model paths).toList = model.toList ++ paths.flatMap spelling := by
  induction paths generalizing model with
  | nil => simp [nameAlong]
  | cons path rest ih =>
    obtain ⟨hpath, hrest⟩ := List.forall_mem_cons.1 h
    show (nameAlong (subdocumentName path model) rest).toList = _
    rw [ih hrest, toList_subdocumentName hpath, List.flatMap_cons, List.append_assoc]

/-- A dotted name loses the ending of its last path. -/
theorem toList_subdocumentName_dotted {last : String} (h : Worded last) (model : String)
    (before : List String) :
    (subdocumentName (Path.dotted (model :: (before ++ [last]))) "").toList
      = words model ++ before.flatMap words ++ spelling last := by
  have all : words (Path.dotted (model :: (before ++ [last])))
      = (words model ++ before.flatMap words) ++ words last := by
    rw [words_dotted (by simp)]
    simp
  rw [subdocumentName, String.toList_ofList]
  show singularChars (words _) = _
  rw [all]
  exact singularChars_append (capital_words h)

theorem worded_of_segments {path : String} (h : ∀ key ∈ Path.segments path, key ≠ "") :
    Worded path := by
  obtain ⟨key, keys, hs⟩ := List.exists_cons_of_ne_nil (Path.segments_ne_nil path)
  have hkey : key ∈ Path.segments path := by simp [hs]
  obtain ⟨c, cs, hc⟩ : ∃ c cs, key.toList = c :: cs :=
    List.exists_cons_of_ne_nil fun hn => h key hkey (String.toList_eq_nil_iff.1 hn)
  refine ⟨c, ?_, fun hdot => Path.dotFree_of_mem_segments hkey ?_⟩
  · have hp := congrArg String.toList (Path.dotted_segments path)
    rw [← hp, hs]
    cases keys with
    | nil => simp [Path.dotted, hc]
    | cons next rest => simp [Path.dotted, hc]
  · simp [hc, hdot]

/-- The name that a dotted reference stands for is the block's own name exactly if the model's name
keeps its dots, having none, and the paths before the last keep their endings. -/
theorem dotted_eq_nameAlong_iff {model last : String} {before : List String}
    (capital : Capitalised model) (worded : ∀ path ∈ before ++ [last], Worded path) :
    subdocumentName (Path.dotted (model :: (before ++ [last]))) "" = nameAlong model (before ++ [last])
      ↔ Path.DotFree model ∧ ∀ path ∈ before, Singular path := by
  rw [← String.toList_inj, toList_nameAlong worded,
    toList_subdocumentName_dotted (worded last (by simp)), List.flatMap_append, ← List.append_assoc]
  simp only [List.flatMap_cons, List.flatMap_nil, List.append_nil, List.append_left_inj]
  constructor
  · intro h
    have clean : Path.DotFree model := by
      intro hdot
      have : '.' ∈ words model ++ before.flatMap words := h ▸ List.mem_append_left _ hdot
      rcases List.mem_append.1 this with hm | hm
      · exact dot_notMem_words _ hm
      · obtain ⟨path, -, hm⟩ := List.mem_flatMap.1 hm
        exact dot_notMem_words _ hm
    rw [(words_eq_iff capital).2 clean] at h
    exact ⟨clean, flatMap_words_eq_iff.1 (List.append_cancel_left h)⟩
  · rintro ⟨clean, singular⟩
    rw [(words_eq_iff capital).2 clean, flatMap_words_eq_iff.2 singular]

end Naming

/-! ## References -/

namespace Field

/-- A dotted text without apostrophes refers to the subdocument of that name. -/
theorem referenceName_dotted {s : Store} {key model : String} {paths : List String}
    (hne : paths ≠ []) (plain : '\'' ∉ (Path.dotted (model :: paths)).toList) :
    referenceName s key (.str (Path.dotted (model :: paths)))
      = .ok (Naming.subdocumentName (Path.dotted (model :: paths)) "") := by
  have kept : ∀ c ∈ (Path.dotted (model :: paths)).toList, (c != '\'') = true := fun c hc => by
    simp only [bne_iff_ne, ne_eq]
    rintro rfl
    exact plain hc
  have dot : (Path.dotted (model :: paths)).toList.contains '.' = true := by
    rw [Path.dotted_cons hne]
    simp
  simp only [referenceName, Store.attribute?, Option.getD_none, Value.text?,
    List.takeWhile_eq_self_iff.2 kept, List.dropWhile_eq_nil_iff.2 kept, List.drop_nil,
    List.append_nil, dot, if_true, String.ofList_toList]

end Field

namespace Compile

variable {ws ws' : Workspace} {id target : SchemaId} {model : String} {paths : List String}

/-- A chain of children leads from one schema to another along their paths. -/
inductive Descends (ws : Workspace) : SchemaId → List String → SchemaId → Prop
  | own {x} : Descends ws x [] x
  | child {x b paths y} (hb : b ∈ (ws.schema x).children) (below : Descends ws b.schema paths y) :
      Descends ws x (b.path :: paths) y

theorem UnfoldsAll.exists_child {cs : List ChildBinding} {sites : List Site} {b : ChildBinding}
    (h : UnfoldsAll ws model cs sites) (hb : b ∈ cs) : ∃ inner,
      Unfolds ws b.schema (Naming.subdocumentName b.path model) inner ∧ inner ⊆ sites := by
  induction cs generalizing sites with
  | nil => simp at hb
  | cons c rest ih =>
    cases h with
    | cons child siblings =>
      rcases List.mem_cons.1 hb with rfl | hb
      · exact ⟨_, child, List.subset_append_left _ _⟩
      · obtain ⟨inner, hu, hs⟩ := ih siblings hb
        exact ⟨inner, hu, fun site hm => List.mem_append_right _ (hs hm)⟩

/-- Every way down has a block, named along its paths. -/
theorem Unfolds.mem_of_descends {sites : List Site} (way : Descends ws id paths target)
    (h : Unfolds ws id model sites) : (target, Naming.nameAlong model paths) ∈ sites := by
  induction way generalizing model sites with
  | own => exact h.own_mem
  | child hb below ih =>
    cases h with
    | intro inner =>
      obtain ⟨own, hu, hs⟩ := inner.exists_child hb
      exact List.mem_append_left _ (hs (ih hu))

/-- A compilation has a block for every way down from its root. The reference that spells the way
after the model's name stands for a name, and for the block's own name exactly if the model's name
has no dot and no path before the last has a plural ending. -/
theorem compile_dotted_reference {plainIds : Bool} {paired : List PairedBlock}
    (capital : Naming.Capitalised model) (h : (compile id model plainIds).on ws = (.ok paired, ws'))
    (way : Descends ws id paths target) (below : paths ≠ [])
    (filled : ∀ path ∈ paths, ∀ key ∈ Path.segments path, key ≠ "")
    (plain : '\'' ∉ (Path.dotted (model :: paths)).toList) (s : Store) (key : String) :
    ∃ sites, Unfolds ws id model sites ∧ paired.map (·.name) = sites.map (·.2) ∧
      (target, Naming.nameAlong model paths) ∈ sites ∧
      ∃ name, Field.referenceName s key (.str (Path.dotted (model :: paths))) = .ok name ∧
        (name = Naming.nameAlong model paths ↔
          Path.DotFree model ∧ ∀ path ∈ paths.dropLast, Naming.Singular path) := by
  have proper : Naming.Proper model := by
    refine ⟨capital.2, ?_⟩
    rintro rfl
    exact absurd capital.1 (by decide)
  obtain ⟨leans, ws₁, lean, completes⟩ := compile_ok h
  obtain ⟨sites, unfolds, names⟩ := lean.unfolds proper
  refine ⟨sites, unfolds, (completes.names lean).trans names, unfolds.mem_of_descends way, _,
    Field.referenceName_dotted below plain, ?_⟩
  have split := List.dropLast_append_getLast below
  have worded : ∀ path ∈ paths.dropLast ++ [paths.getLast below], Naming.Worded path := by
    rw [split]
    exact fun path hp => Naming.worded_of_segments (filled path hp)
  have meet := Naming.dotted_eq_nameAlong_iff capital worded
  rwa [split] at meet

/-- A schema in a field of a schema that stands in an array of a third one. -/
def lodged (outer : String) : Workspace :=
  let place := (Workspace.create {} (.dict [("street", .str "String")]) .null).2
  let friend := (place.create (.dict [("addresses", .schema 0)]) .null).2
  (friend.create (.dict [(outer, .list [.schema 1])]) .null).2

theorem built_lodged (outer : String) : (lodged outer).Built := by
  refine .create (.create (.create .empty ⟨trivial, trivial⟩) ⟨?inner, trivial⟩)
    ⟨⟨?outer, trivial⟩, trivial⟩
  case inner =>
    show 0 < _
    decide +kernel
  case outer =>
    show 1 < _
    decide +kernel

theorem compile_dotted_reference_lodged : ∃ paired ws',
    (compile 2 "User").on (lodged "friend") = (.ok paired, ws') ∧
      "UserFriendAddress" ∈ paired.map (·.name) ∧
      ∃ name, Field.referenceName {} "home" (.str "User.friend.addresses") = .ok name ∧
        name = "UserFriendAddress" := by
  have returns : ((compile 2 "User").on (lodged "friend")).1.isOk = true := by
    decide +kernel
  obtain ⟨paired, ws', h⟩ := ok_of_isOk returns
  have way : Descends (lodged "friend") 2 ["friend", "addresses"] 0 :=
    .child (b := ⟨"friend", 1, true⟩) (by decide +kernel)
      (.child (b := ⟨"addresses", 0, false⟩) (by decide +kernel) .own)
  obtain ⟨sites, -, names, mem, name, hname, meet⟩ := compile_dotted_reference (by decide +kernel) h
    way (by simp) (by decide +kernel) (by decide +kernel) {} "home"
  have along : Naming.nameAlong "User" ["friend", "addresses"] = "UserFriendAddress" := by
    decide +kernel
  rw [along] at mem meet
  exact ⟨paired, ws', h, names ▸ List.mem_map_of_mem mem, name, hname,
    meet.2 (by decide +kernel)⟩

/-- Under a path in the plural the reference keeps an ending that the block has lost. -/
theorem compile_dotted_reference_fails : ¬ ∀ (ws : Workspace) (id target : SchemaId)
    (model : String) (plainIds : Bool) (paths : List String) (paired : List PairedBlock)
    (ws' : Workspace) (s : Store) (key : String), ws.Built → Naming.Capitalised model →
      (compile id model plainIds).on ws = (.ok paired, ws') → Descends ws id paths target →
      paths ≠ [] → (∀ path ∈ paths, ∀ key ∈ Path.segments path, key ≠ "") →
      '\'' ∉ (Path.dotted (model :: paths)).toList →
        Field.referenceName s key (.str (Path.dotted (model :: paths)))
          = .ok (Naming.nameAlong model paths) := by
  intro meets
  have returns : ((compile 2 "User" true).on (lodged "friends")).1.isOk = true := by
    decide +kernel
  obtain ⟨paired, ws', h⟩ := ok_of_isOk returns
  have way : Descends (lodged "friends") 2 ["friends", "addresses"] 0 :=
    .child (b := ⟨"friends", 1, true⟩) (by decide +kernel)
      (.child (b := ⟨"addresses", 0, false⟩) (by decide +kernel) .own)
  have name := meets _ 2 0 "User" true _ paired ws' {} "home" (built_lodged _)
    (by decide +kernel) h way (by simp) (by decide +kernel) (by decide +kernel)
  have apart : (Field.referenceName {} "home" (.str "User.friends.addresses")).toOption
      ≠ some (Naming.nameAlong "User" ["friends", "addresses"]) := by decide +kernel
  exact apart (congrArg Except.toOption name)

end Compile
end ModelTypes
