import ModelTypes.Proofs.Compile.Drawing
import ModelTypes.Proofs.Schema.Linked
import ModelTypes.Proofs.Spelling
/-!
# When the names of blocks are distinct

A block's name spells the paths on the way down to it: it is the root's name with the spellings of
these paths after it. So names are distinct exactly if no two ways down spell one text, which is to
be checked among siblings only. It is so if no sibling's spelling begins with another's.
-/

namespace ModelTypes.Compile

variable {base ws ws' : Workspace} {id : SchemaId} {model : String}

/-- Every path of a child spells something. -/
def WordedAt (ws : Workspace) (id : SchemaId) : Prop :=
  ∀ b ∈ (ws.schema id).children, Naming.Worded b.path

/-- What the paths on a way down from a schema spell. -/
inductive Spells (ws : Workspace) : SchemaId → List Char → Prop
  | own {x} : Spells ws x []
  | child {x b text} (hb : b ∈ (ws.schema x).children) (below : Spells ws b.schema text) :
      Spells ws x (Naming.spelling b.path ++ text)

/-- A way down through a child and one through a sibling do not spell one text. -/
def SpelledApart (ws : Workspace) (cs : List ChildBinding) : Prop :=
  cs.Pairwise fun b b' => ∀ text text', Spells ws b.schema text → Spells ws b'.schema text' →
    Naming.spelling b.path ++ text ≠ Naming.spelling b'.path ++ text'

theorem spelledApart_cons {b : ChildBinding} {cs : List ChildBinding} :
    SpelledApart ws (b :: cs) ↔ (∀ c ∈ cs, ∀ text text', Spells ws b.schema text →
      Spells ws c.schema text' → Naming.spelling b.path ++ text ≠ Naming.spelling c.path ++ text') ∧
      SpelledApart ws cs :=
  List.pairwise_cons

/-- No child's spelling begins with that of a sibling. -/
def PrefixFree (cs : List ChildBinding) : Prop :=
  cs.Pairwise fun b b' => ¬ Naming.spelling b.path <+: Naming.spelling b'.path ∧
    ¬ Naming.spelling b'.path <+: Naming.spelling b.path

/-- Where no spelling begins with another, what follows them does not matter. -/
theorem PrefixFree.spelledApart {cs : List ChildBinding} (h : PrefixFree cs) :
    SpelledApart ws cs := by
  refine List.Pairwise.imp (fun apart text text' _ _ he => ?_) h
  rcases List.prefix_or_prefix_of_prefix (List.prefix_append _ text)
      (he ▸ List.prefix_append _ text') with hp | hp
  · exact apart.1 hp
  · exact apart.2 hp

/-! ## The sites of a rendering -/

mutual

/-- Under paths that all spell something, children are hoisted at every depth. -/
theorem Renders.unfolds_of_worded {base ws ws' : Workspace} {id : SchemaId} {model : String}
    {p : Projection} {header footer : String} {blocks : List Block} (named : model ≠ "")
    (same : SameButTrees base ws) (worded : Throughout base id (WordedAt base)) :
    Renders ws id model p header footer blocks ws' →
      ∃ sites, Unfolds base id model sites ∧ blocks.map (·.name) = sites.map (·.2)
  | .alone hc _ => by
    have hnil := hc.resolve_right named
    rw [same.children] at hnil
    refine ⟨[] ++ [(id, model)], .intro ?_, by simp⟩
    rw [hnil]
    exact .nil
  | .parent _ _ hs _ => by
    obtain ⟨sites, hu, hn⟩ := hs.unfolds_of_worded named same fun b hb => by
      rw [same.children] at hb
      exact ⟨worded.own b hb, worded.child hb⟩
    rw [same.children] at hu
    exact ⟨_, .intro hu, by simp [hn]⟩

theorem Hoists.unfolds_of_worded {base ws ws' : Workspace} {cs : List ChildBinding}
    {model : String} {p : Projection} {flat flat' : Entries} {blocks : List Block}
    (named : model ≠ "") (same : SameButTrees base ws)
    (worded : ∀ b ∈ cs, Naming.Worded b.path ∧ Throughout base b.schema (WordedAt base)) :
    Hoists ws cs model p flat flat' blocks ws' →
      ∃ sites, UnfoldsAll base model cs sites ∧ blocks.map (·.name) = sites.map (·.2)
  | .nil => ⟨[], .nil, rfl⟩
  | .cons _ hr hs => by
    obtain ⟨path, below⟩ := worded _ List.mem_cons_self
    obtain ⟨sites, hu, hn⟩ :=
      hr.unfolds_of_worded (Naming.subdocumentName_ne_empty path _) same below
    obtain ⟨others, hus, hns⟩ := hs.unfolds_of_worded named (same.trans hr.sameButTrees)
      fun c hc => worded c (List.mem_cons_of_mem _ hc)
    exact ⟨_, .cons hu hus, by simp [hn, hns]⟩

end

/-! ## Names spell paths -/

mutual

/-- The names below a root are its name with what some way down spells. -/
theorem Unfolds.mem_names_iff {ws : Workspace} {id : SchemaId} {model name : String}
    {sites : List Site} (worded : Throughout ws id (WordedAt ws)) : Unfolds ws id model sites →
      (name ∈ sites.map (·.2) ↔ ∃ text, Spells ws id text ∧ name.toList = model.toList ++ text)
  | .intro hs => by
    rw [List.map_append, List.mem_append, List.map_singleton, List.mem_singleton,
      hs.mem_names_iff fun b hb => ⟨worded.own b hb, worded.child hb⟩]
    constructor
    · rintro (⟨b, hb, text, below, hn⟩ | rfl)
      · exact ⟨_, .child hb below, hn⟩
      · exact ⟨[], .own, by simp⟩
    · rintro ⟨_, _ | ⟨hb, below⟩, hn⟩
      · exact .inr (String.toList_inj.1 (by simpa using hn))
      · exact .inl ⟨_, hb, _, below, hn⟩

/-- The names below some children are their parent's with what some way through one of them
spells. -/
theorem UnfoldsAll.mem_names_iff {ws : Workspace} {model name : String} {cs : List ChildBinding}
    {sites : List Site}
    (worded : ∀ b ∈ cs, Naming.Worded b.path ∧ Throughout ws b.schema (WordedAt ws)) :
    UnfoldsAll ws model cs sites → (name ∈ sites.map (·.2) ↔
      ∃ b ∈ cs, ∃ text, Spells ws b.schema text ∧
        name.toList = model.toList ++ (Naming.spelling b.path ++ text))
  | .nil => by simp
  | .cons hc hs => by
    obtain ⟨path, below⟩ := worded _ List.mem_cons_self
    rw [List.map_append, List.mem_append, hc.mem_names_iff below,
      hs.mem_names_iff fun c hc => worded c (List.mem_cons_of_mem _ hc),
      Naming.toList_subdocumentName path]
    simp only [List.append_assoc, List.mem_cons, exists_eq_or_imp]

end

/-! ## Distinct names -/

mutual

/-- The names below a root are distinct if siblings are spelled apart everywhere, and then only. -/
theorem Unfolds.nodup_names_iff {ws : Workspace} {id : SchemaId} {model : String}
    {sites : List Site} (worded : Throughout ws id (WordedAt ws)) :
    Unfolds ws id model sites → ((sites.map (·.2)).Nodup ↔
      Throughout ws id fun x => SpelledApart ws (ws.schema x).children)
  | @Unfolds.intro _ _ _ inner hs => by
    have children (b : ChildBinding) (hb : b ∈ (ws.schema id).children) :=
      And.intro (worded.own b hb) (worded.child hb)
    -- The names below are longer than the root's own.
    have fresh : ∀ name ∈ inner.map (·.2), ∀ own ∈ [model], name ≠ own := by
      intro name hname own hown he
      obtain ⟨b, hb, text, -, hn⟩ := (hs.mem_names_iff children).1 hname
      rw [he, List.mem_singleton.1 hown] at hn
      have none := List.append_eq_nil_iff.1 (List.self_eq_append_right.1 hn)
      exact Naming.spelling_ne_nil (worded.own b hb) none.1
    rw [List.map_append, List.map_singleton, List.nodup_append, hs.nodup_names_iff children,
      throughout_iff]
    exact ⟨fun h => h.1, fun h => ⟨h, by simp, fresh⟩⟩

theorem UnfoldsAll.nodup_names_iff {ws : Workspace} {model : String} {cs : List ChildBinding}
    {sites : List Site}
    (worded : ∀ b ∈ cs, Naming.Worded b.path ∧ Throughout ws b.schema (WordedAt ws)) :
    UnfoldsAll ws model cs sites → ((sites.map (·.2)).Nodup ↔ SpelledApart ws cs ∧
      ∀ b ∈ cs, Throughout ws b.schema fun x => SpelledApart ws (ws.schema x).children)
  | .nil => by simp [SpelledApart]
  | @UnfoldsAll.cons _ _ b rest sites others hc hs => by
    obtain ⟨path, below⟩ := worded _ List.mem_cons_self
    have worded' := fun c hc => worded c (List.mem_cons_of_mem _ hc)
    -- Names meet exactly where ways down through the first child and through another do.
    have apart : (∀ name ∈ sites.map (·.2), ∀ name' ∈ others.map (·.2), name ≠ name') ↔
        ∀ c ∈ rest, ∀ text text', Spells ws b.schema text → Spells ws c.schema text' →
          Naming.spelling b.path ++ text ≠ Naming.spelling c.path ++ text' := by
      constructor
      · intro h c hm text text' ht ht' he
        let name := String.ofList (model.toList ++ (Naming.spelling b.path ++ text))
        have first : name ∈ sites.map (·.2) := (hc.mem_names_iff below).2
          ⟨text, ht, by simp [name, Naming.toList_subdocumentName path]⟩
        have other : name ∈ others.map (·.2) := (hs.mem_names_iff worded').2
          ⟨c, hm, text', ht', by simp [name, he]⟩
        exact h name first name other rfl
      · rintro h name hname _ hname' rfl
        obtain ⟨text, ht, hn⟩ := (hc.mem_names_iff below).1 hname
        obtain ⟨c, hm, text', ht', hn'⟩ := (hs.mem_names_iff worded').1 hname'
        rw [hn, Naming.toList_subdocumentName path, List.append_assoc] at hn'
        exact h c hm text text' ht ht' (List.append_cancel_left hn')
    rw [List.map_append, List.nodup_append, hc.nodup_names_iff below, hs.nodup_names_iff worded',
      apart, spelledApart_cons, List.forall_mem_cons]
    exact ⟨fun ⟨first, ⟨own, below⟩, cross⟩ => ⟨⟨cross, own⟩, first, below⟩,
      fun ⟨⟨cross, own⟩, first, below⟩ => ⟨first, ⟨own, below⟩, cross⟩⟩

end

/-! ## Compilations -/

/-- If all paths spell something, the names of a compilation with a name are distinct exactly if
siblings are spelled apart at every depth. Without a name there is one block only. -/
theorem compile_names_distinct {plainIds : Bool} {paired : List PairedBlock}
    (worded : Throughout ws id (WordedAt ws))
    (h : (compile id model plainIds).on ws = (.ok paired, ws')) :
    (paired.map (·.name)).Nodup ↔
      model = "" ∨ Throughout ws id fun x => SpelledApart ws (ws.schema x).children := by
  obtain ⟨leans, ws₁, lean, completes⟩ := compile_ok h
  rw [completes.names lean]
  by_cases named : model = ""
  · subst named
    cases lean with
    | alone _ _ => simp
    | parent _ hm _ _ => exact absurd rfl hm
  · obtain ⟨sites, hu, hs⟩ := lean.unfolds_of_worded named (.refl ws) worded
    rw [hs, hu.nodup_names_iff worded, or_iff_right named]

/-- Two schemas, and one that embeds both, the second in an array. -/
def kin (one many : String) : Workspace :=
  let named := (Workspace.create {} (.dict [("name", .str "String")]) .null).2
  let both := (named.create (.dict [("age", .str "Number")]) .null).2
  (both.create (.dict [(one, .schema 0), (many, .list [.schema 1])]) .null).2

theorem built_kin (one many : String) : (kin one many).Built := by
  refine .create (.create (.create .empty ⟨trivial, trivial⟩) ⟨trivial, trivial⟩)
    ⟨?first, ⟨?second, trivial⟩, trivial⟩
  case first =>
    show 0 < _
    decide +kernel
  case second =>
    show 1 < _
    decide +kernel

theorem compile_names_distinct_kin : ∃ paired ws',
    (compile 2 "User").on (kin "friend" "foes") = (.ok paired, ws') ∧
      (paired.map (·.name)).Nodup := by
  have worded : Throughout (kin "friend" "foes") 2 (WordedAt (kin "friend" "foes")) := fun x _ =>
    Workspace.forall_schema (P := fun schema => ∀ b ∈ schema.children, Naming.Worded b.path)
      (by decide +kernel) (by simp) x
  have apart : Throughout (kin "friend" "foes") 2
      fun x => PrefixFree ((kin "friend" "foes").schema x).children := fun x _ =>
    Workspace.forall_schema (P := fun schema => PrefixFree schema.children)
      (by unfold PrefixFree; decide +kernel) (by simp [PrefixFree]) x
  have returns : ((compile 2 "User").on (kin "friend" "foes")).1.isOk = true := by decide +kernel
  obtain ⟨paired, ws', h⟩ := ok_of_isOk returns
  exact ⟨paired, ws', h, (compile_names_distinct worded h).2
    (.inr fun x hx => (apart x hx).spelledApart)⟩

/-- A child and an array of children in the plural are spelled alike. -/
theorem compile_names_collide : ¬ ∀ (ws : Workspace) (id : SchemaId) (model : String)
    (plainIds : Bool) (paired : List PairedBlock) (ws' : Workspace), ws.Built →
      (compile id model plainIds).on ws = (.ok paired, ws') → (paired.map (·.name)).Nodup := by
  intro distinct
  have names : ((compile 2 "User" true).on (kin "friend" "friends")).1.toOption.map
      (·.map (·.name)) = some ["UserFriend", "UserFriend", "User"] := by decide +kernel
  obtain ⟨paired, ws', h, names⟩ := ok_of_map_eq names
  have nodup := distinct _ _ _ _ _ _ (built_kin _ _) h
  rw [names] at nodup
  simp at nodup

end ModelTypes.Compile
