import ModelTypes.Proofs.Tree.Origin
/-!
# Filling empty mappings

`filledUnder places tree` is a tree whose empty mappings have got what the places put below them.
Filling does not change what the places build, whatever values they carry (`build_filledUnder`), and
a tree that was filled once stays as it is (`filledUnder_filledUnder`).
-/

namespace ModelTypes

mutual

/-- A value with its empty mappings filled, unless a place takes it away as a whole. -/
def Value.filled (places : List (Trail × Value)) : Value → Value
  | .dict [] => if places.any (·.1.isEmpty) then .dict [] else .dict (build places [])
  | .dict (first :: rest) =>
    if places.any (·.1.isEmpty) then .dict (first :: rest)
    else .dict (filledUnder places (first :: rest))
  | v => v

def filledUnder (places : List (Trail × Value)) : List (String × Value) → Entries
  | [] => []
  | (key, v) :: rest => (key, v.filled (tailsAt key places)) :: filledUnder places rest

end

variable {key : String} {trail : Trail} {v w : Value} {old : Option Value} {tree tree' : Entries}
  {places places' : List (Trail × Value)}

/-! ## Filling a value -/

theorem any_isEmpty_iff : places.any (·.1.isEmpty) = true ↔ [] ∈ places.map (·.1) := by
  simp

theorem filled_of_mem (h : [] ∈ places.map (·.1)) : v.filled places = v := by
  rw [← any_isEmpty_iff] at h
  cases v with
  | dict entries => cases entries <;> simp [Value.filled, h]
  | _ => simp [Value.filled]

theorem filled_dict_nil (h : [] ∉ places.map (·.1)) :
    (Value.dict []).filled places = .dict (build places []) := by
  rw [← any_isEmpty_iff] at h
  simp [Value.filled, h]

theorem filled_dict (h : [] ∉ places.map (·.1)) (hne : tree ≠ []) :
    (Value.dict tree).filled places = .dict (filledUnder places tree) := by
  rw [← any_isEmpty_iff] at h
  cases tree with
  | nil => exact absurd rfl hne
  | cons first rest => simp [Value.filled, h]

theorem Value.dict_or_not (v : Value) :
    (∃ entries, v = .dict entries) ∨ ∀ entries, v ≠ .dict entries := by
  cases v with
  | dict entries => exact .inl ⟨entries, rfl⟩
  | _ => exact .inr fun entries h => by cases h

theorem filled_of_ne (h : ∀ entries, v ≠ .dict entries) : v.filled places = v := by
  cases v with
  | dict entries => exact absurd rfl (h entries)
  | _ => simp [Value.filled]

@[simp] theorem filledUnder_nil : filledUnder places [] = [] := by simp [filledUnder]

@[simp] theorem filledUnder_cons : filledUnder places ((key, v) :: tree)
    = (key, v.filled (tailsAt key places)) :: filledUnder places tree := by simp [filledUnder]

theorem filledUnder_no_places : filledUnder [] tree = tree := by
  induction tree using tree_induction with
  | nil => simp
  | cons key v rest below ih =>
    rw [filledUnder_cons, ih, tailsAt_nil]
    congr 2
    cases v with
    | dict entries =>
      cases entries with
      | nil => simp [Value.filled]
      | cons first others => rw [filled_dict (by simp) (by simp), below _ rfl]
    | _ => simp [Value.filled]

@[simp] theorem filled_nil : v.filled [] = v := by
  cases v with
  | dict entries =>
    cases entries with
    | nil => simp [Value.filled]
    | cons first others => rw [filled_dict (by simp) (by simp), filledUnder_no_places]
  | _ => simp [Value.filled]

@[simp] theorem keys_filledUnder : Keyed.keys (filledUnder places tree) = Keyed.keys tree := by
  induction tree with
  | nil => simp
  | cons e rest ih =>
    obtain ⟨key, v⟩ := e
    simp [ih]

theorem filledUnder_ne_nil (h : tree ≠ []) : filledUnder places tree ≠ [] := by
  cases tree with
  | nil => exact absurd rfl h
  | cons e rest =>
    obtain ⟨key, v⟩ := e
    simp

theorem get?_filledUnder : Keyed.get? (filledUnder places tree) key
    = (Keyed.get? tree key).map (·.filled (tailsAt key places)) := by
  induction tree with
  | nil => simp
  | cons e rest ih =>
    obtain ⟨k, v⟩ := e
    rw [filledUnder_cons, Keyed.get?_cons, Keyed.get?_cons, ih]
    by_cases hk : key = k <;> simp [hk]

theorem filledUnder_congr (h : ∀ key ∈ Keyed.keys tree, tailsAt key places = tailsAt key places') :
    filledUnder places tree = filledUnder places' tree := by
  induction tree with
  | nil => simp
  | cons e rest ih =>
    obtain ⟨key, v⟩ := e
    rw [filledUnder_cons, filledUnder_cons, h key (by simp),
      ih fun k hk => h k (List.mem_cons_of_mem _ hk)]

/-! ## The same trails -/

theorem map_fst_tailsAt : (tailsAt key places).map (·.1) = (places.map (·.1)).filterMap fun trail =>
    match trail with
    | [] => none
    | first :: rest => if first = key then some rest else none := by
  induction places with
  | nil => rfl
  | cons e places ih =>
    obtain ⟨trail, v⟩ := e
    cases trail with
    | nil => simpa [tailsAt] using ih
    | cons first rest =>
      by_cases h : first = key
      · simpa [tailsAt, h] using ih
      · simpa [tailsAt, h] using ih

theorem map_fst_tailsAt_congr (h : places.map (·.1) = places'.map (·.1)) :
    (tailsAt key places).map (·.1) = (tailsAt key places').map (·.1) := by
  rw [map_fst_tailsAt, map_fst_tailsAt, h]

theorem tailsAt_eq_nil_congr (h : places.map (·.1) = places'.map (·.1)) :
    tailsAt key places = [] ↔ tailsAt key places' = [] := by
  rw [← List.map_eq_nil_iff, map_fst_tailsAt_congr h, List.map_eq_nil_iff]

theorem length_of_mem_tailsAt {n : Nat} (h : ∀ e ∈ places, e.1.length ≤ n + 1) :
    ∀ e ∈ tailsAt key places, e.1.length ≤ n := by
  rintro ⟨rest, v⟩ he
  have hlen := h _ (mem_tailsAt_iff.1 he)
  rw [List.length_cons] at hlen
  exact Nat.le_of_succ_le_succ hlen

/-! ## Keys of what is built -/

theorem nodup_keys_placeAt (h : (Keyed.keys tree).Nodup) :
    (Keyed.keys (placeAt trail v tree)).Nodup := by
  cases trail with
  | nil => exact h
  | cons key rest =>
    rw [placeAt_cons]
    exact Keyed.nodup_keys_put h

theorem nodup_keys_build (h : (Keyed.keys tree).Nodup) :
    (Keyed.keys (build places tree)).Nodup := by
  induction places generalizing tree with
  | nil => exact h
  | cons e places ih => exact ih (nodup_keys_placeAt h)

theorem keys_placeAt_congr (h : Keyed.keys tree = Keyed.keys tree') :
    Keyed.keys (placeAt trail v tree) = Keyed.keys (placeAt trail w tree') := by
  cases trail with
  | nil => exact h
  | cons key rest => rw [placeAt_cons, placeAt_cons, Keyed.keys_put, Keyed.keys_put, h]

/-- Which keys there are in the end does not depend on the values placed. -/
theorem keys_build_congr (hp : places.map (·.1) = places'.map (·.1))
    (h : Keyed.keys tree = Keyed.keys tree') :
    Keyed.keys (build places tree) = Keyed.keys (build places' tree') := by
  induction places generalizing places' tree tree' with
  | nil =>
    rw [List.map_nil, eq_comm, List.map_eq_nil_iff] at hp
    rw [hp]
    exact h
  | cons e places ih =>
    cases places' with
    | nil => simp at hp
    | cons e' places' =>
      simp only [List.map_cons, List.cons.injEq] at hp
      rw [build_cons, build_cons, ← hp.1]
      exact ih hp.2 (keys_placeAt_congr h)

theorem keys_build_of_subset (h : ∀ e ∈ places, ∀ key ∈ e.1.head?, key ∈ Keyed.keys tree) :
    Keyed.keys (build places tree) = Keyed.keys tree := by
  induction places generalizing tree with
  | nil => rfl
  | cons e places ih =>
    have hkeys : Keyed.keys (placeAt e.1 e.2 tree) = Keyed.keys tree := by
      obtain ⟨trail, v⟩ := e
      cases trail with
      | nil => rfl
      | cons key rest =>
        rw [placeAt_cons, Keyed.keys_put, if_pos (h _ List.mem_cons_self key rfl)]
    rw [build_cons, ih fun f hf => ?_, hkeys]
    rw [hkeys]
    exact h f (List.mem_cons_of_mem _ hf)

theorem head_mem_keys_build {e : Trail × Value} (h : e ∈ places) :
    ∀ key ∈ e.1.head?, key ∈ Keyed.keys (build places tree) := by
  intro key hk
  rw [← Keyed.get?_isSome_iff, Option.isSome_iff_ne_none, get?_build]
  apply settle_ne_none
  intro hn
  obtain ⟨trail, v⟩ := e
  cases trail with
  | nil => simp at hk
  | cons first rest =>
    obtain rfl : first = key := Option.some.inj hk
    have hm := mem_tailsAt_iff.2 h
    rw [hn] at hm
    simp at hm

theorem keys_build_build (hp : places.map (·.1) = places'.map (·.1)) :
    Keyed.keys (build places (build places' tree)) = Keyed.keys (build places' tree) := by
  apply keys_build_of_subset
  intro e he key hk
  have hm : e.1 ∈ places'.map (·.1) := hp ▸ List.mem_map_of_mem he
  obtain ⟨f, hf, hfe⟩ := List.mem_map.1 hm
  exact head_mem_keys_build hf key (by rwa [hfe])

/-! ## Building twice -/

theorem exists_length_le (places : List (Trail × Value)) : ∃ n, ∀ e ∈ places, e.1.length ≤ n := by
  induction places with
  | nil => exact ⟨0, by simp⟩
  | cons e places ih =>
    obtain ⟨n, hn⟩ := ih
    refine ⟨max e.1.length n, fun f hf => ?_⟩
    rcases List.mem_cons.1 hf with rfl | hf
    · exact Nat.le_max_left _ _
    · exact Nat.le_trans (hn f hf) (Nat.le_max_right _ _)

theorem build_of_length_le_zero (h : ∀ e ∈ places, e.1.length ≤ 0) : build places tree = tree := by
  induction places generalizing tree with
  | nil => rfl
  | cons e places ih =>
    have he : e.1 = [] := List.length_eq_zero_iff.1 (Nat.le_zero.1 (h e List.mem_cons_self))
    rw [build_cons, he, placeAt, ih fun f hf => h f (List.mem_cons_of_mem _ hf)]

/-- Placing at the same trails again leaves only the values placed last. -/
theorem build_build_nil (hp : places.map (·.1) = places'.map (·.1)) :
    build places (build places' []) = build places [] := by
  -- By the length of trails, as the mappings on the way are made by the placements themselves.
  obtain ⟨n, hn⟩ := exists_length_le places
  induction n generalizing places places' with
  | zero =>
    rw [build_of_length_le_zero hn, build_of_length_le_zero hn,
      build_of_length_le_zero fun e he => ?_]
    have hm : e.1 ∈ places.map (·.1) := hp ▸ List.mem_map_of_mem he
    obtain ⟨f, hf, hfe⟩ := List.mem_map.1 hm
    exact hfe ▸ hn f hf
  | succ n ih =>
    have hkeys : Keyed.keys (build places (build places' [])) = Keyed.keys (build places []) := by
      rw [keys_build_build hp, keys_build_congr hp rfl]
    refine Keyed.eq_of_get? hkeys (nodup_keys_build (nodup_keys_build (by simp))) fun key _ => ?_
    rw [get?_build, get?_build, get?_build, Keyed.get?_nil]
    have ht : (tailsAt key places).map (·.1) = (tailsAt key places').map (·.1) :=
      map_fst_tailsAt_congr hp
    by_cases hx : [] ∈ (tailsAt key places).map (·.1)
    · exact settle_of_mem_nil hx
    · by_cases hnil : tailsAt key places = []
      · rw [hnil, (tailsAt_eq_nil_congr hp).1 hnil]
        rfl
      · rw [settle_eq_dict (fun h => hnil ((tailsAt_eq_nil_congr hp).2 h)) (ht ▸ hx),
          settle_eq_dict hnil hx, settle_eq_dict hnil hx, entriesIn_dict, entriesIn_none,
          ih ht (length_of_mem_tailsAt hn)]

/-- What was built from nothing has no empty mapping below which there are places. -/
theorem filledUnder_build_nil (hp : places.map (·.1) = places'.map (·.1)) :
    filledUnder places (build places' []) = build places' [] := by
  obtain ⟨n, hn⟩ := exists_length_le places'
  induction n generalizing places places' with
  | zero => rw [build_of_length_le_zero hn, filledUnder_nil]
  | succ n ih =>
    refine Keyed.eq_of_get? keys_filledUnder
      (by rw [keys_filledUnder]; exact nodup_keys_build (by simp)) fun key _ => ?_
    rw [get?_filledUnder, get?_build, Keyed.get?_nil]
    have ht : (tailsAt key places).map (·.1) = (tailsAt key places').map (·.1) :=
      map_fst_tailsAt_congr hp
    by_cases hx : [] ∈ (tailsAt key places).map (·.1)
    · cases settle (tailsAt key places') none with
      | none => rfl
      | some v => rw [Option.map_some, filled_of_mem hx]
    · by_cases hnil : tailsAt key places' = []
      · rw [hnil]
        rfl
      · rw [settle_eq_dict hnil (ht ▸ hx), entriesIn_none, Option.map_some,
          filled_dict hx (build_ne_nil hnil (ht ▸ hx)), ih ht (length_of_mem_tailsAt hn)]

/-! ## Filling trees -/

/-- Places build the same into a tree that was filled from the same trails. -/
theorem build_filledUnder (h : Plain tree) (hp : places.map (·.1) = places'.map (·.1)) :
    build places (filledUnder places' tree) = build places tree := by
  induction tree using nested_induction generalizing places places' with
  | step tree ih =>
    refine Keyed.eq_of_get? (keys_build_congr rfl keys_filledUnder)
      (nodup_keys_build (by rw [keys_filledUnder]; exact h.keys.1)) fun key _ => ?_
    rw [get?_build, get?_build, get?_filledUnder]
    have ht : (tailsAt key places).map (·.1) = (tailsAt key places').map (·.1) :=
      map_fst_tailsAt_congr hp
    by_cases hx : [] ∈ (tailsAt key places).map (·.1)
    · exact settle_of_mem_nil hx
    cases hv : Keyed.get? tree key with
    | none => rfl
    | some v =>
      rw [Option.map_some]
      rcases v.dict_or_not with ⟨entries, rfl⟩ | hd
      case inr => rw [filled_of_ne hd]
      have hm := Keyed.mem_of_get? hv
      by_cases hnil : tailsAt key places = []
      · have hnil' := (tailsAt_eq_nil_congr hp).1 hnil
        rw [hnil, hnil', filled_nil]
      · rw [settle_eq_dict hnil hx, settle_eq_dict hnil hx]
        by_cases he : entries = []
        · rw [he, filled_dict_nil (ht ▸ hx), entriesIn_dict, entriesIn_dict, build_build_nil ht]
        · rw [filled_dict (ht ▸ hx) he, entriesIn_dict, entriesIn_dict,
            ih key entries hm (h.of_mem hm) ht]

/-- A tree that was filled once has nothing left to fill from the same trails. -/
theorem filledUnder_filledUnder (hp : places.map (·.1) = places'.map (·.1)) :
    filledUnder places (filledUnder places' tree) = filledUnder places' tree := by
  induction tree using tree_induction generalizing places places' with
  | nil => simp
  | cons key v rest below ih =>
    rw [filledUnder_cons, filledUnder_cons, ih hp]
    congr 2
    have ht : (tailsAt key places).map (·.1) = (tailsAt key places').map (·.1) :=
      map_fst_tailsAt_congr hp
    by_cases hx : [] ∈ (tailsAt key places).map (·.1)
    · exact filled_of_mem hx
    rcases v.dict_or_not with ⟨entries, rfl⟩ | hd
    case inr => rw [filled_of_ne hd, filled_of_ne hd]
    by_cases he : entries = []
    · rw [he, filled_dict_nil (ht ▸ hx)]
      by_cases hnil : tailsAt key places' = []
      · rw [hnil, (tailsAt_eq_nil_congr hp).2 hnil, build_nil, filled_nil]
      · rw [filled_dict hx (build_ne_nil hnil (ht ▸ hx)), filledUnder_build_nil ht]
    · rw [filled_dict (ht ▸ hx) he, filled_dict hx (filledUnder_ne_nil he), below _ rfl ht]

/-! ## Plain trees stay plain -/

/-- Leaves are placed at trails without dots. -/
def PlainPlaces (places : List (Trail × Value)) : Prop :=
  ∀ e ∈ places, (∀ key ∈ e.1, Path.DotFree key) ∧ e.2.IsLeaf

theorem PlainPlaces.tailsAt (h : PlainPlaces places) : PlainPlaces (tailsAt key places) := by
  rintro ⟨rest, v⟩ he
  obtain ⟨hd, hv⟩ := h _ (mem_tailsAt_iff.1 he)
  exact ⟨fun k hk => hd k (List.mem_cons_of_mem _ hk), hv⟩

theorem plain_of_isLeaf (h : v.IsLeaf) : v.Plain := by
  cases v with
  | dict entries => rw [h entries rfl]; simp [Value.Plain, PlainUnder, PlainKeys]
  | _ => simp [Value.Plain]

theorem plain_nil : Plain [] := by simp [Plain, Value.Plain, PlainUnder, PlainKeys]

theorem Plain.entriesIn (h : ∀ v ∈ old, v.Plain) : Plain (entriesIn old) := by
  cases old with
  | none => exact plain_nil
  | some v =>
    cases v with
    | dict entries => exact h _ rfl
    | _ => exact plain_nil

theorem Plain.put (h : Plain tree) (hk : Path.DotFree key) (hv : v.Plain) :
    Plain (Keyed.put tree key v) := by
  refine plain_iff.2 ⟨⟨Keyed.nodup_keys_put h.keys.1, fun k hm => ?_⟩,
    plainUnder_iff.2 fun e he => ?_⟩
  · rw [Keyed.keys_put] at hm
    split at hm
    · exact h.keys.2 k hm
    · rcases List.mem_append.1 hm with hm | hm
      · exact h.keys.2 k hm
      · rwa [List.mem_singleton.1 hm]
  · rcases mem_put he with he | rfl
    · exact h.of_mem he
    · exact hv

theorem Plain.placeAt (h : Plain tree) (ht : ∀ key ∈ trail, Path.DotFree key) (hv : v.Plain) :
    Plain (placeAt trail v tree) := by
  induction trail generalizing tree with
  | nil => exact h
  | cons key rest ih =>
    rw [placeAt_cons]
    refine h.put (ht key List.mem_cons_self) ?_
    by_cases hr : rest = []
    · rw [hr]
      exact hv
    · rw [within_of_ne_nil hr]
      refine ih (Plain.entriesIn fun w hw => ?_) fun k hk => ht k (List.mem_cons_of_mem _ hk)
      exact h.of_mem (Keyed.mem_of_get? hw)

theorem Plain.build (h : Plain tree) (hp : PlainPlaces places) : Plain (build places tree) := by
  induction places generalizing tree with
  | nil => exact h
  | cons e places ih =>
    obtain ⟨ht, hv⟩ := hp e List.mem_cons_self
    exact ih (h.placeAt ht (plain_of_isLeaf hv)) fun f hf => hp f (List.mem_cons_of_mem _ hf)

theorem Plain.filledUnder (h : Plain tree) (hp : PlainPlaces places) :
    Plain (filledUnder places tree) := by
  induction tree using tree_induction generalizing places with
  | nil => simpa using h
  | cons key v rest below ih =>
    refine plain_iff.2 ⟨by rw [keys_filledUnder]; exact h.keys, ?_⟩
    rw [filledUnder_cons]
    refine ⟨?_, (plain_iff.1 (ih h.tail hp)).2⟩
    by_cases hx : [] ∈ (ModelTypes.tailsAt key places).map (·.1)
    · rw [filled_of_mem hx]
      exact h.of_mem (List.mem_cons_self)
    rcases v.dict_or_not with ⟨entries, rfl⟩ | hd
    · by_cases he : entries = []
      · rw [he, filled_dict_nil hx]
        exact plain_nil.build hp.tailsAt
      · rw [filled_dict hx he]
        exact below _ rfl h.head hp.tailsAt
    · rw [filled_of_ne hd]
      exact h.of_mem (List.mem_cons_self)

/-! ## Leaves of filled trees -/

/-- No leaf, or an empty mapping. -/
def Vacant (leaf : Option Value) : Prop := leaf = none ∨ leaf = some (.dict [])

/-- Filling changes a lookup only where there was nothing, to one of the placed values at most. -/
theorem leafAt_filledUnder (hp : PlainPlaces places) :
    leafAt trail (filledUnder places tree) = leafAt trail tree ∨
    (Vacant (leafAt trail tree) ∧ (Vacant (leafAt trail (filledUnder places tree)) ∨
      ∃ e ∈ places, leafAt trail (filledUnder places tree) = some e.2)) := by
  induction trail generalizing places tree with
  | nil => exact .inl rfl
  | cons key rest ih =>
    have hg : Keyed.get? (filledUnder places tree) key
        = (Keyed.get? tree key).map (·.filled (tailsAt key places)) := get?_filledUnder
    by_cases same : Keyed.get? (filledUnder places tree) key = Keyed.get? tree key
    · exact .inl (leafAt_congr same)
    -- A mapping has changed, so no place takes it away.
    have hx : [] ∉ (tailsAt key places).map (·.1) := fun hx => same (by
      rw [hg]
      cases Keyed.get? tree key with
      | none => rfl
      | some v => rw [Option.map_some, filled_of_mem hx])
    cases hv : Keyed.get? tree key with
    | none => exact absurd (by rw [hg, hv]; rfl) same
    | some v =>
      rw [hv, Option.map_some] at hg
      rcases v.dict_or_not with ⟨entries, rfl⟩ | hd
      case inr => exact absurd (by rw [hg, hv, filled_of_ne hd]) same
      by_cases he : entries = []
      · rw [he, filled_dict_nil hx] at hg
        rw [he] at hv
        cases rest with
        | nil =>
          refine .inr ⟨.inr (by simp [leafAt, hv]), .inl ?_⟩
          cases hb : build (tailsAt key places) [] with
          | nil => exact .inr (by simp [leafAt, hg, hb])
          | cons first others => exact .inl (by simp [leafAt, hg, hb])
        | cons next rest =>
          rw [leafAt_cons_cons, leafAt_cons_cons, entriesAt_eq, entriesAt_eq, hg, hv,
            entriesIn_dict, entriesIn_dict, leafAt_nil_right]
          refine .inr ⟨.inl rfl, ?_⟩
          cases hl : leafAt (next :: rest) (build (tailsAt key places) []) with
          | none => exact .inl (.inl rfl)
          | some w =>
            rw [← mem_leavesOf_iff (plain_nil.build hp.tailsAt)] at hl
            rcases mem_leavesOf_build (fun f hf => (hp.tailsAt f hf).2) hl with hl | hl
            · simp at hl
            · exact .inr ⟨_, mem_tailsAt_iff.1 hl, rfl⟩
      · rw [filled_dict hx he] at hg
        cases rest with
        | nil =>
          obtain ⟨first, others, rfl⟩ := List.exists_cons_of_ne_nil he
          obtain ⟨key', v'⟩ := first
          exact .inl (by simp [leafAt, hg, hv])
        | cons next rest =>
          rw [leafAt_cons_cons, leafAt_cons_cons, entriesAt_eq, entriesAt_eq, hg, hv,
            entriesIn_dict, entriesIn_dict]
          rcases ih hp.tailsAt with h | ⟨hvac, h | ⟨e, hm, hl⟩⟩
          · exact .inl h
          · exact .inr ⟨hvac, .inl h⟩
          · exact .inr ⟨hvac, .inr ⟨_, mem_tailsAt_iff.1 hm, hl⟩⟩

end ModelTypes
