import Mathlib.Data.List.TakeWhile
import ModelTypes.Proofs.Tree.Fill
/-!
# What a rebuilt flat form fills

`fillFrom` reads off a flat form which empty mappings of a tree get entries when the flat form is
made a tree again. If the flat form builds the tree with some places put into it, these are the
mappings that the places fill (`fillFrom_eq`).
-/

namespace ModelTypes

variable {key path : String} {trail p : Trail} {v : Value} {tree flat later : Entries}
  {places : List (Trail × Value)}

/-! ## Below a trail -/

/-- The entries of the mapping at a trail; none if no mapping stands there. -/
def entriesBelow : Trail → Entries → Entries
  | [], tree => tree
  | key :: rest, tree => entriesBelow rest (entriesAt tree key)

/-- The places that go through a trail, seen from there. -/
def tailsBelow : Trail → List (Trail × Value) → List (Trail × Value)
  | [], places => places
  | key :: rest, places => tailsBelow rest (tailsAt key places)

theorem mem_tailsBelow_iff : (trail, v) ∈ tailsBelow p places ↔ (p ++ trail, v) ∈ places := by
  induction p generalizing places with
  | nil => rfl
  | cons key p ih => rw [tailsBelow, ih, mem_tailsAt_iff, List.cons_append]

theorem tailsBelow_concat : tailsBelow (p ++ [key]) places = tailsAt key (tailsBelow p places) := by
  induction p generalizing places with
  | nil => rfl
  | cons first p ih => exact ih

theorem tailsBelow_cons_append :
    tailsBelow p ((p ++ trail, v) :: places) = (trail, v) :: tailsBelow p places := by
  induction p generalizing places with
  | nil => rfl
  | cons key p ih => simp [tailsBelow, tailsAt, ← ih]

theorem tailsBelow_cons_of_apart (h : ¬ p <+: trail) :
    tailsBelow p ((trail, v) :: places) = tailsBelow p places := by
  induction p generalizing trail places with
  | nil => exact absurd List.nil_prefix h
  | cons key p ih =>
    cases trail with
    | nil => simp [tailsBelow, tailsAt]
    | cons first rest =>
      by_cases hk : first = key
      · rw [hk, List.prefix_cons_inj] at h
        simp [tailsBelow, tailsAt, hk, ih h]
      · simp [tailsBelow, tailsAt, hk]

theorem entriesAt_build (h : ∀ e ∈ places, ¬ e.1 <+: [key]) :
    entriesAt (build places tree) key = build (tailsAt key places) (entriesAt tree key) := by
  have hx : [] ∉ (tailsAt key places).map (·.1) := fun hm => by
    obtain ⟨⟨t, w⟩, he, rfl⟩ := List.mem_map.1 hm
    exact h _ (mem_tailsAt_iff.1 he) List.prefix_rfl
  rw [entriesAt_eq, entriesAt_eq, get?_build]
  by_cases hnil : tailsAt key places = []
  · rw [hnil]
    rfl
  · rw [settle_eq_dict hnil hx, entriesIn_dict]

/-- Places of which none lies at or above a trail build below it what their tails build there. -/
theorem entriesBelow_build (h : ∀ e ∈ places, ¬ e.1 <+: p) :
    entriesBelow p (build places tree) = build (tailsBelow p places) (entriesBelow p tree) := by
  induction p generalizing places tree with
  | nil => rfl
  | cons key p ih =>
    have hkey : ∀ e ∈ places, ¬ e.1 <+: [key] := fun e he hp =>
      h e he (hp.trans (by simp))
    rw [entriesBelow, entriesAt_build hkey, ih fun e he hp => ?_]
    · rfl
    · exact h _ (mem_tailsAt_iff.1 he) (by simpa using hp)

theorem entriesBelow_placeAt (h : p ≠ []) {entries : Entries} :
    entriesBelow p (placeAt p (.dict entries) tree) = entries := by
  induction p generalizing tree with
  | nil => exact absurd rfl h
  | cons key p ih =>
    rw [entriesBelow, placeAt_cons, entriesAt_eq, Keyed.get?_put_self]
    by_cases hp : p = []
    · rw [hp]
      rfl
    · rw [within_of_ne_nil hp, entriesIn_dict, ih hp]

theorem entriesBelow_eq_nil (h : leafAt p tree = some (.dict [])) : entriesBelow p tree = [] := by
  induction p generalizing tree with
  | nil => simp [leafAt] at h
  | cons key p ih =>
    cases p with
    | nil =>
      have hg : Keyed.get? tree key = some (.dict []) := by
        unfold leafAt at h
        split at h
        · simp at h
        · exact h
      rw [entriesBelow, entriesAt_eq, hg]
      rfl
    | cons next p => exact ih h

/-! ## Filling by paths -/

mutual

/-- A value with each empty mapping filled by its path. -/
def Value.fillBy (f : String → Entries) (path : String) : Value → Value
  | .dict [] => .dict (f path)
  | .dict (first :: rest) => .dict (fillByUnder f (path ++ ".") (first :: rest))
  | v => v

def fillByUnder (f : String → Entries) (lead : String) : List (String × Value) → Entries
  | [] => []
  | (key, v) :: rest => (key, v.fillBy f (lead ++ key)) :: fillByUnder f lead rest

end

theorem fillByUnder_congr {f g : String → Entries} {lead : String}
    (h : ∀ q, (q, .dict []) ∈ leavesUnder lead tree → f q = g q) :
    fillByUnder f lead tree = fillByUnder g lead tree := by
  induction tree using tree_induction generalizing lead with
  | nil => rfl
  | cons key v rest below ih =>
    simp only [leavesUnder, List.mem_append] at h
    rw [fillByUnder, fillByUnder, ih fun q hq => h q (.inr hq)]
    congr 2
    cases v with
    | dict entries =>
      cases entries with
      | nil =>
        have hq := h (lead ++ key) (.inl (by simp [Value.leavesAt]))
        simp [Value.fillBy, hq]
      | cons first others =>
        rw [Value.fillBy, Value.fillBy,
          below _ rfl fun q hq => h q (.inl (by rwa [Value.leavesAt]))]
    | _ => simp [Value.fillBy]

theorem fillByUnder_nothing {lead : String} : fillByUnder (fun _ => []) lead tree = tree := by
  induction tree using tree_induction generalizing lead with
  | nil => rfl
  | cons key v rest below ih =>
    rw [fillByUnder, ih]
    congr 2
    cases v with
    | dict entries =>
      cases entries with
      | nil => simp [Value.fillBy]
      | cons first others => rw [Value.fillBy, below _ rfl]
    | _ => simp [Value.fillBy]

/-- Each filling is used once, so it does not matter that it is taken away then. -/
theorem fillUnder_eq (lead : String) (fills : List (String × Entries))
    (hn : (Keyed.keys (leavesUnder lead tree)).Nodup) :
    (fillUnder lead fills tree).1 = fillByUnder (fun q => (fills.lookup q).getD []) lead tree ∧
    ∀ q ∉ Keyed.keys (leavesUnder lead tree),
      (fillUnder lead fills tree).2.lookup q = fills.lookup q := by
  induction tree using tree_induction generalizing lead fills with
  | nil => exact ⟨by simp [fillUnder, fillByUnder], fun q _ => by simp [fillUnder]⟩
  | cons key v rest below ih =>
    rw [leavesUnder, Keyed.keys_append] at hn ⊢
    obtain ⟨hv, hrest, hcross⟩ := List.nodup_append.1 hn
    obtain ⟨htree, hleft⟩ := ih lead fills hrest
    -- The entries after this one have used up only fillings for their own leaves.
    have kept (q : String) (hq : q ∈ Keyed.keys (v.leavesAt (lead ++ key))) :
        (fillUnder lead fills rest).2.lookup q = fills.lookup q :=
      hleft q fun hm => hcross q hq q hm rfl
    suffices (v.fillAt (lead ++ key) (fillUnder lead fills rest).2).1
          = v.fillBy (fun q => (fills.lookup q).getD []) (lead ++ key) ∧
        ∀ q ∉ Keyed.keys (v.leavesAt (lead ++ key)),
          (v.fillAt (lead ++ key) (fillUnder lead fills rest).2).2.lookup q
            = (fillUnder lead fills rest).2.lookup q by
      rw [fillUnder_cons, fillByUnder]
      refine ⟨by rw [htree, this.1], fun q hq => ?_⟩
      rw [List.mem_append, not_or] at hq
      rw [this.2 q hq.1, hleft q hq.2]
    cases v with
    | dict entries =>
      cases entries with
      | nil =>
        have hown := kept (lead ++ key) (by simp [Value.leavesAt])
        simp only [Value.fillAt, Value.fillBy, hown]
        cases fills.lookup (lead ++ key) with
        | none => exact ⟨rfl, fun q _ => rfl⟩
        | some entries =>
          refine ⟨rfl, fun q hq => ?_⟩
          have hne : q ≠ lead ++ key := by simpa [Value.leavesAt] using hq
          have hf := Keyed.get?_filter (m := (fillUnder lead fills rest).2) (k := q)
            (· != lead ++ key)
          simpa [Keyed.get?, hne] using hf
      | cons first others =>
        rw [Value.leavesAt] at hv kept ⊢
        obtain ⟨hsub, hsub'⟩ := below _ rfl (lead ++ key ++ ".") (fillUnder lead fills rest).2 hv
        rw [fillAt_dict_cons, Value.fillBy]
        refine ⟨?_, hsub'⟩
        rw [hsub, fillByUnder_congr fun q hq => ?_]
        rw [kept q (List.mem_map_of_mem hq)]
    | _ => exact ⟨by simp [Value.fillAt, Value.fillBy], fun q _ => by simp [Value.fillAt]⟩

/-! ## Filling by places -/

/-- What the places put below a trail, unless one takes it away. -/
def fillingAt (places : List (Trail × Value)) (p : Trail) : Entries :=
  if places.any (·.1.isPrefixOf p) then [] else build (tailsBelow p places) []

theorem fillingAt_eq_nil {e : Trail × Value} (he : e ∈ places) (hp : e.1 <+: p) :
    fillingAt places p = [] := by
  have h : places.any (·.1.isPrefixOf p) = true :=
    List.any_eq_true.2 ⟨e, he, List.isPrefixOf_iff_prefix.2 hp⟩
  rw [fillingAt, if_pos h]

theorem fillingAt_eq_build (h : ∀ e ∈ places, ¬ e.1 <+: p) :
    fillingAt places p = build (tailsBelow p places) [] := by
  have hn : ¬ places.any (·.1.isPrefixOf p) = true := fun hc => by
    obtain ⟨e, he, hp⟩ := List.any_eq_true.1 hc
    exact h e he (List.isPrefixOf_iff_prefix.1 hp)
  rw [fillingAt, if_neg hn]

theorem nil_mem_tailsBelow_iff :
    [] ∈ (tailsBelow p places).map (·.1) ↔ p ∈ places.map (·.1) := by
  simp [mem_tailsBelow_iff]

theorem segments_prefix_of_mem_leavesUnder {lead : String} {leaf : String × Value}
    (hlead : ∀ key, Path.DotFree key → Path.segments (lead ++ key) = p ++ [key])
    (plain : Plain tree) (h : leaf ∈ leavesUnder lead tree) : p <+: Path.segments leaf.1 := by
  rw [leavesUnder_eq] at h
  obtain ⟨⟨trail, v⟩, he, rfl⟩ := List.mem_map.1 h
  cases trail with
  | nil => exact absurd rfl (ne_nil_of_mem_leavesOf he)
  | cons key rest =>
    have hkey := hlead key (dotFree_of_mem_leavesOf plain he key List.mem_cons_self)
    by_cases hr : rest = []
    · simp [hr, Path.dotted, hkey]
    · rw [Path.dotted_cons hr, ← String.append_assoc, ← String.append_assoc, Path.segments_append,
        hkey, List.append_assoc]
      exact List.prefix_append _ _

/-- Filling by paths is filling from the places. -/
theorem fillByUnder_eq {lead : String} (plain : Plain tree)
    (hlead : ∀ key, Path.DotFree key → Path.segments (lead ++ key) = p ++ [key])
    (hp : ∀ e ∈ places, ¬ e.1 <+: p) :
    fillByUnder (fun q => fillingAt places (Path.segments q)) lead tree
      = filledUnder (tailsBelow p places) tree := by
  induction tree using tree_induction generalizing lead p with
  | nil => simp [fillByUnder]
  | cons key v rest below ih =>
    have hkey := hlead key plain.dotFree
    have hlead' (k : String) (hk : Path.DotFree k) :
        Path.segments (lead ++ key ++ "." ++ k) = p ++ [key] ++ [k] := by
      rw [Path.segments_append, hkey, Path.segments_of_dotFree hk]
    rw [fillByUnder, ih plain.tail hlead hp, filledUnder_cons, ← tailsBelow_concat]
    congr 2
    -- A place at the value takes it away, and then what is below it has no filling either.
    by_cases hx : p ++ [key] ∈ places.map (·.1)
    · rw [filled_of_mem (nil_mem_tailsBelow_iff.2 hx)]
      obtain ⟨e, he, hep⟩ := List.mem_map.1 hx
      cases v with
      | dict entries =>
        cases entries with
        | nil => rw [Value.fillBy, fillingAt_eq_nil he (by simp [hep, hkey])]
        | cons first others =>
          rw [Value.fillBy, fillByUnder_congr (g := fun _ => []) fun q hq => ?_,
            fillByUnder_nothing]
          exact fillingAt_eq_nil he (hep ▸ segments_prefix_of_mem_leavesUnder hlead' plain.head hq)
      | _ => simp [Value.fillBy]
    · have hx' : [] ∉ (tailsBelow (p ++ [key]) places).map (·.1) := fun hm =>
        hx (nil_mem_tailsBelow_iff.1 hm)
      have hp' : ∀ e ∈ places, ¬ e.1 <+: p ++ [key] := fun e he hc => by
        rcases List.prefix_concat_iff.1 hc with hc | hc
        · exact hx (hc ▸ List.mem_map_of_mem he)
        · exact hp e he hc
      cases v with
      | dict entries =>
        cases entries with
        | nil => rw [Value.fillBy, filled_dict_nil hx', hkey, fillingAt_eq_build hp']
        | cons first others =>
          rw [Value.fillBy, filled_dict hx' (by simp), below _ rfl plain.head hlead' hp']
      | _ => simp [Value.fillBy, Value.filled]

/-! ## The fillings of a flat form -/

theorem lookup_fillings_of_notMem (h : (path, .dict []) ∉ flat) :
    (fillings flat).lookup path = none := by
  induction flat with
  | nil => rfl
  | cons e rest ih =>
    obtain ⟨q, v⟩ := e
    simp only [List.mem_cons, Prod.mk.injEq, not_or, not_and] at h
    by_cases hv : v = .dict []
    · have hne : path ≠ q := fun hq => h.1 hq hv.symm
      subst hv
      by_cases hf : filling q rest = []
      · rw [fillings_cons_of_filling_eq_nil hf, ih h.2]
      · rw [fillings_cons_of_filling_ne_nil hf, List.lookup_cons, beq_false_of_ne hne]
        exact ih h.2
    · rw [fillings_cons_of_ne hv, ih h.2]

theorem lookup_fillings {before : Entries} (hb : path ∉ Keyed.keys before)
    (hl : path ∉ Keyed.keys later) :
    ((fillings (before ++ (path, .dict []) :: later)).lookup path).getD []
      = filling path later := by
  induction before with
  | nil =>
    by_cases hf : filling path later = []
    · have hm : (path, Value.dict []) ∉ later := fun hm => hl (List.mem_map_of_mem hm)
      rw [List.nil_append, fillings_cons_of_filling_eq_nil hf, lookup_fillings_of_notMem hm, hf]
      rfl
    · rw [List.nil_append, fillings_cons_of_filling_ne_nil hf]
      simp
  | cons e before ih =>
    obtain ⟨q, v⟩ := e
    simp only [Keyed.keys_cons, List.mem_cons, not_or] at hb
    rw [List.cons_append]
    by_cases hv : v = .dict []
    · subst hv
      by_cases hf : filling q (before ++ (path, .dict []) :: later) = []
      · rw [fillings_cons_of_filling_eq_nil hf, ih hb.2]
      · rw [fillings_cons_of_filling_ne_nil hf, List.lookup_cons, beq_false_of_ne hb.1]
        exact ih hb.2
    · rw [fillings_cons_of_ne hv, ih hb.2]

theorem toTrails_filterMap_below? (h : ∀ e ∈ later, ¬ Path.segments e.1 <+: Path.segments path) :
    toTrails (later.filterMap fun e => (Path.below? path e.1).map (·, e.2))
      = tailsBelow (Path.segments path) (toTrails later) := by
  induction later with
  | nil =>
    have hnil (p : Trail) : tailsBelow p [] = [] := by
      induction p with
      | nil => rfl
      | cons key p ih => exact ih
    simp [hnil]
  | cons e later ih =>
    obtain ⟨q, v⟩ := e
    have others := ih fun f hf => h f (List.mem_cons_of_mem _ hf)
    rw [toTrails_cons]
    by_cases hb : Path.isBelow path q = true
    · obtain ⟨rest, rfl⟩ := Path.isBelow_iff.1 hb
      rw [List.filterMap_cons_some (by rw [Path.below?_append]; rfl), toTrails_cons, others,
        Path.segments_append, tailsBelow_cons_append]
    · have hn : ¬ Path.segments path <+: Path.segments q := fun hc => by
        rcases Path.segments_prefix_iff.1 hc with rfl | hc
        · exact h _ List.mem_cons_self List.prefix_rfl
        · exact hb hc
      rw [List.filterMap_cons_none (by simp [Path.below?, hb]), others,
        tailsBelow_cons_of_apart hn]

/-- In an ordered flat form, what comes after an empty mapping and lies below it is filled in. -/
theorem filling_eq (h : ∀ e ∈ later, ¬ Path.segments e.1 <+: Path.segments path) :
    filling path later = build (tailsBelow (Path.segments path) (toTrails later)) [] := by
  have htake : (later.takeWhile fun e => !Path.isBelow e.1 path) = later := by
    apply List.takeWhile_eq_self_iff.2
    intro e he
    rw [Bool.not_eq_true', Bool.eq_false_iff]
    exact fun hb => h e he (Path.segments_prefix_iff.2 (.inr hb))
  rw [filling, htake, unflatten_eq, toTrails_filterMap_below? h]

/-- An empty mapping of an ordered flat form is filled with what stands there in the tree. -/
theorem lookup_fillings_eq (h : Ordered (toTrails flat)) (hm : (path, .dict []) ∈ flat) :
    ((fillings flat).lookup path).getD [] = entriesBelow (Path.segments path) (unflatten flat) := by
  obtain ⟨before, later, rfl⟩ := List.append_of_mem hm
  rw [toTrails_append, toTrails_cons] at h
  obtain ⟨-, hlater, hcross⟩ := List.pairwise_append.1 h
  have hl : ∀ e ∈ toTrails later, ¬ e.1 <+: Path.segments path := (List.pairwise_cons.1 hlater).1
  have hb : path ∉ Keyed.keys before := fun hc => by
    obtain ⟨e, he, rfl⟩ := List.mem_map.1 hc
    exact hcross _ (mem_toTrails he) _ List.mem_cons_self List.prefix_rfl
  have hnot : path ∉ Keyed.keys later := fun hc => by
    obtain ⟨e, he, rfl⟩ := List.mem_map.1 hc
    exact hl _ (mem_toTrails he) List.prefix_rfl
  rw [lookup_fillings hb hnot, filling_eq fun e he => hl _ (mem_toTrails he), unflatten_eq,
    toTrails_append, toTrails_cons, build_append, build_cons, entriesBelow_build hl,
    entriesBelow_placeAt (Path.segments_ne_nil path)]

/-- If a flat form builds a tree with places put into it, and has those empty mappings of the tree
that the places do not take away, then it fills the tree from the places. -/
theorem fillFrom_eq (plain : Plain tree) (h : Ordered (toTrails flat))
    (hne : ∀ e ∈ places, e.1 ≠ []) (hb : unflatten flat = build places tree)
    (hf : ∀ q, (q, .dict []) ∈ flat ↔
      (q, .dict []) ∈ flatten tree ∧ ∀ e ∈ places, ¬ e.1 <+: Path.segments q) :
    fillFrom tree flat = filledUnder places tree := by
  have hfill : fillFrom tree flat
      = fillByUnder (fun q => ((fillings flat).lookup q).getD []) "" tree := by
    unfold fillFrom
    split
    · rename_i hnil
      rw [hnil]
      exact fillByUnder_nothing.symm
    · exact (fillUnder_eq "" _ (nodup_leavesUnder plain)).1
  have hempty (q : String) (hq : (q, .dict []) ∈ leavesUnder "" tree) :
      ((fillings flat).lookup q).getD [] = fillingAt places (Path.segments q) := by
    rw [← flatten_eq plain] at hq
    by_cases hp : ∀ e ∈ places, ¬ e.1 <+: Path.segments q
    · have hleaf : leafAt (Path.segments q) tree = some (.dict []) := by
        rw [← get?_flatten plain]
        exact Keyed.get?_of_mem (nodup_keys_flatten plain) hq
      rw [lookup_fillings_eq h ((hf q).2 ⟨hq, hp⟩), hb, entriesBelow_build hp,
        entriesBelow_eq_nil hleaf, fillingAt_eq_build hp]
    · rw [lookup_fillings_of_notMem fun hm => hp ((hf q).1 hm).2]
      simp only [Classical.not_forall, Decidable.not_not] at hp
      obtain ⟨e, he, hp⟩ := hp
      rw [fillingAt_eq_nil he hp]
      rfl
  have hlead (key : String) (hk : Path.DotFree key) : Path.segments ("" ++ key) = [] ++ [key] := by
    simpa using Path.segments_of_dotFree hk
  rw [hfill, fillByUnder_congr hempty, fillByUnder_eq plain hlead fun e he hp => ?_]
  · rfl
  · exact hne e he (List.prefix_nil.1 hp)

end ModelTypes
