import ModelTypes.Proofs.Tree.Fields
import ModelTypes.Proofs.Tree.Origin
/-!
# What writing to a tree leaves alone

The flat form of a tree holds under a path the last leaf there, so it depends on the leaves at that
path only. A field has leaves at its key and below it, and a value that is placed at a path has them
at that path and below it. So neither changes what stands elsewhere, unless it stood on the way.
-/

namespace ModelTypes

variable {tree tree' : Entries} {v : Value} {old : Option Value} {lead path q key : String}
  {trail : Trail}

/-- What pairs leave under a key depends on the pairs with that key. -/
theorem Keyed.get?_ofPairs_congr {α : Type} {pairs pairs' : List (String × α)} {k : String}
    (h : pairs.filter (fun e => e.1 == k) = pairs'.filter fun e => e.1 == k) :
    Keyed.get? (Keyed.ofPairs pairs) k = Keyed.get? (Keyed.ofPairs pairs') k := by
  have own (m : Keyed α) : Keyed.get? m k = Keyed.get? (m.filter fun e => e.1 == k) k := by
    rw [Keyed.get?_filter fun l => l == k, if_pos (by simp)]
  rw [own, own (Keyed.ofPairs pairs'), Keyed.filter_ofPairs fun l => l == k,
    Keyed.filter_ofPairs fun l => l == k, h]

/-! ## Leaves of one field -/

/-- The leaves of what stands at a path, if anything does. -/
def fieldLeaves (path : String) : Option Value → List (String × Value)
  | none => []
  | some v => v.leavesAt path

/-- A path stands neither at another nor below it. -/
def Path.Apart (top path : String) : Prop := path ≠ top ∧ Path.isBelow top path = false

instance (top path : String) : Decidable (Path.Apart top path) :=
  inferInstanceAs (Decidable (_ ∧ _))

theorem Path.apart_iff {top path : String} :
    Path.Apart top path ↔ ¬ Path.segments top <+: Path.segments path := by
  rw [Path.segments_prefix_iff, not_or, Path.Apart, Bool.not_eq_true]

theorem filter_leavesAt_of_apart (h : Path.Apart path q) :
    (v.leavesAt path).filter (fun e => e.1 == q) = [] := by
  refine List.filter_eq_nil_iff.2 fun leaf hl => ?_
  have below := segments_prefix_of_mem_leavesAt hl
  intro same
  rw [beq_iff_eq] at same
  exact Path.apart_iff.1 h (same ▸ below)

theorem filter_fieldLeaves_of_apart (h : Path.Apart path q) :
    (fieldLeaves path old).filter (fun e => e.1 == q) = [] := by
  cases old with
  | none => rfl
  | some v => exact filter_leavesAt_of_apart h

/-- Fields under the keys that a path is apart from have no leaves there. -/
theorem filter_leavesUnder_filter {keep : String → Bool}
    (h : ∀ key, keep key = false → Path.Apart key q) :
    (leavesUnder "" (tree.filter fun e => keep e.1)).filter (fun e => e.1 == q)
      = (leavesUnder "" tree).filter fun e => e.1 == q := by
  induction tree with
  | nil => rfl
  | cons e rest ih =>
    obtain ⟨key, v⟩ := e
    cases hk : keep key with
    | true =>
      rw [List.filter_cons_of_pos (by simpa using hk), leavesUnder, leavesUnder, List.filter_append,
        List.filter_append, ih]
    | false =>
      rw [List.filter_cons_of_neg (by simp [hk]), ih, leavesUnder, List.filter_append,
        String.empty_append, filter_leavesAt_of_apart (h key hk), List.nil_append]

/-- Trees with the same fields but for some keys have the same flat form but for what is at these
keys and below them. -/
theorem get?_flatten_of_filter_eq (keep : String → Bool)
    (same : tree'.filter (fun e => keep e.1) = tree.filter fun e => keep e.1)
    (h : ∀ key, keep key = false → Path.Apart key q) :
    Keyed.get? (flatten tree') q = Keyed.get? (flatten tree) q := by
  refine Keyed.get?_ofPairs_congr ?_
  rw [← filter_leavesUnder_filter h, same, filter_leavesUnder_filter h]

/-! ## Placing a value -/

/-- Putting a value under a key changes the leaves as it changes those of the field. -/
theorem filter_leavesUnder_put {keep : String × Value → Bool}
    (h : (v.leavesAt (lead ++ key)).filter keep
      = (fieldLeaves (lead ++ key) (Keyed.get? tree key)).filter keep) :
    (leavesUnder lead (Keyed.put tree key v)).filter keep
      = (leavesUnder lead tree).filter keep := by
  induction tree with
  | nil =>
    simpa [leavesUnder, fieldLeaves] using h
  | cons e rest ih =>
    obtain ⟨first, w⟩ := e
    rw [Keyed.get?_cons] at h
    rw [Keyed.put, leavesUnder]
    split
    · rename_i hk
      subst hk
      rw [if_pos rfl] at h
      rw [leavesUnder, List.filter_append, List.filter_append, h]
      rfl
    · rename_i hk
      rw [if_neg (Ne.symm hk)] at h
      rw [leavesUnder, List.filter_append, List.filter_append, ih h]

/-- Placing a value takes away what stands on the way, and the leaves at and below its path. -/
theorem filter_leavesUnder_placeAt (hne : trail ≠ [])
    (apart : Path.Apart (lead ++ Path.dotted trail) q)
    (way : ∀ t, t ≠ [] → t <+: trail → t ≠ trail → q = lead ++ Path.dotted t →
      leafAt t tree = none) :
    (leavesUnder lead (placeAt trail v tree)).filter (fun e => e.1 == q)
      = (leavesUnder lead tree).filter fun e => e.1 == q := by
  induction trail generalizing lead tree with
  | nil => exact absurd rfl hne
  | cons key rest ih =>
    rw [placeAt_cons]
    -- Of the leaves only those of the first key's field can change.
    refine filter_leavesUnder_put ?_
    cases rest with
    | nil => exact (filter_leavesAt_of_apart apart).trans (filter_fieldLeaves_of_apart apart).symm
    | cons next rest =>
      have lead_eq (t : Trail) (ht : t ≠ []) :
          lead ++ key ++ "." ++ Path.dotted t = lead ++ Path.dotted (key :: t) := by
        rw [Path.dotted_cons ht]
        simp only [String.append_assoc]
      have apart' : Path.Apart (lead ++ key ++ "." ++ Path.dotted (next :: rest)) q := by
        rwa [lead_eq _ (by simp)]
      have way' : ∀ t, t ≠ [] → t <+: next :: rest → t ≠ next :: rest →
          q = lead ++ key ++ "." ++ Path.dotted t →
          leafAt t (entriesIn (Keyed.get? tree key)) = none := by
        intro t ht hp hn hq
        obtain ⟨first, t, rfl⟩ := List.exists_cons_of_ne_nil ht
        rw [← entriesAt_eq, ← leafAt_cons_cons]
        refine way (key :: first :: t) (by simp) ((List.prefix_cons_inj key).2 hp) ?_ ?_
        · exact fun same => hn (List.cons.inj same).2
        · rw [hq, lead_eq _ (by simp)]
      have inner := ih (by simp) apart' way'
      have new : (within (next :: rest) v (Keyed.get? tree key)).leavesAt (lead ++ key)
          = leavesUnder (lead ++ key ++ ".")
              (placeAt (next :: rest) v (entriesIn (Keyed.get? tree key))) := by
        rw [within_of_ne_nil (by simp)]
        have filled : placeAt (next :: rest) v (entriesIn (Keyed.get? tree key)) ≠ [] :=
          placeAt_ne_nil (by simp)
        obtain ⟨e, others, he⟩ := List.exists_cons_of_ne_nil filled
        rw [he, Value.leavesAt]
      rw [new, inner]
      cases hg : Keyed.get? tree key with
      | none => simp [leavesUnder, fieldLeaves]
      | some w =>
        rw [fieldLeaves]
        rcases w.trails_cases with ⟨first, others, rfl, -⟩ | ⟨hw, -⟩
        · rw [entriesIn_dict, Value.leavesAt]
        -- What is no mapping with entries is a leaf on the way.
        · have leaf : leafAt [key] tree = some w ∧ entriesIn (some w) = [] ∧
              w.leavesAt (lead ++ key) = [(lead ++ key, w)] := by
            cases w with
            | dict entries =>
              cases hw entries rfl
              simp [leafAt, hg, Value.leavesAt]
            | _ => simp [leafAt, hg, Value.leavesAt, entriesIn]
          have ne : lead ++ key ≠ q := fun same => by
            have none := way [key] (by simp) (by simp) (by simp) same.symm
            rw [leaf.1] at none
            cases none
          rw [leaf.2.1, leaf.2.2, leavesUnder]
          simp [ne]

/-- Placing a value changes nothing in the flat form but at its path, below it, and where something
stands on the way. -/
theorem get?_flatten_place (apart : Path.Apart path q)
    (way : Path.isBelow q path = true → leafAt (Path.segments q) tree = none) :
    Keyed.get? (flatten (place path v tree)) q = Keyed.get? (flatten tree) q := by
  refine Keyed.get?_ofPairs_congr (filter_leavesUnder_placeAt (Path.segments_ne_nil path) ?_ ?_)
  · rwa [String.empty_append, Path.dotted_segments]
  · intro t ht hp hn hq
    rw [String.empty_append] at hq
    have own : Path.segments q = t := by
      rw [hq]
      exact Path.segments_dotted ht fun key hk => Path.dotFree_of_mem_segments (hp.subset hk)
    rw [← own]
    refine way ((Path.segments_prefix_iff.1 (own ▸ hp)).resolve_left fun same => hn ?_)
    rw [← own, same]

/-! ## What stands at a trail -/

variable {p : Trail}

/-- A leaf that is placed somewhere stands there. -/
theorem leafAt_placeAt_self (hne : trail ≠ []) (leaf : v.IsLeaf) :
    leafAt trail (placeAt trail v tree) = some v := by
  induction trail generalizing tree with
  | nil => exact absurd rfl hne
  | cons key rest ih =>
    rw [placeAt_cons]
    cases rest with
    | nil =>
      rw [leafAt, Keyed.get?_put_self, within]
      cases v with
      | dict entries =>
        cases leaf entries rfl
        rfl
      | _ => rfl
    | cons next rest =>
      rw [leafAt_cons_cons, entriesAt_eq, Keyed.get?_put_self, within_of_ne_nil (by simp),
        entriesIn_dict]
      exact ih (by simp)

/-- A placement is not seen at trails that part from its own. -/
theorem leafAt_placeAt_of_apart (hp : ¬ p <+: trail) (ht : ¬ trail <+: p) :
    leafAt trail (placeAt p v tree) = leafAt trail tree := by
  induction p generalizing trail tree with
  | nil => exact absurd List.nil_prefix hp
  | cons key p ih =>
    cases trail with
    | nil => exact absurd List.nil_prefix ht
    | cons first rest =>
      rw [placeAt_cons]
      by_cases hk : first = key
      · subst hk
        rw [List.prefix_cons_inj] at hp ht
        obtain ⟨next, p, rfl⟩ :=
          List.exists_cons_of_ne_nil fun (he : p = []) => hp (he ▸ List.nil_prefix)
        obtain ⟨second, rest, rfl⟩ :=
          List.exists_cons_of_ne_nil fun (he : rest = []) => ht (he ▸ List.nil_prefix)
        rw [leafAt_cons_cons, leafAt_cons_cons, entriesAt_eq, Keyed.get?_put_self,
          within_of_ne_nil (by simp), entriesIn_dict, ih hp ht, entriesAt_eq]
      · exact leafAt_congr (Keyed.get?_put_of_ne hk)

/-- Above the place of a value there are mappings with entries only. -/
theorem leafAt_placeAt_of_prefix (h : trail <+: p) (hn : trail ≠ p) :
    leafAt trail (placeAt p v tree) = none := by
  induction p generalizing trail tree with
  | nil => exact absurd (List.prefix_nil.1 h) hn
  | cons key p ih =>
    cases trail with
    | nil => rfl
    | cons first rest =>
      obtain ⟨rfl, below⟩ := List.cons_prefix_cons.1 h
      have shorter : rest ≠ p := fun same => hn (by rw [same])
      obtain ⟨next, p, rfl⟩ := List.exists_cons_of_ne_nil fun (he : p = []) =>
        shorter ((List.prefix_nil.1 (he ▸ below)).trans he.symm)
      rw [placeAt_cons, within_of_ne_nil (by simp)]
      cases rest with
      | nil =>
        have filled : placeAt (next :: p) v (entriesIn (Keyed.get? tree first)) ≠ [] :=
          placeAt_ne_nil (by simp)
        obtain ⟨e, others, he⟩ := List.exists_cons_of_ne_nil filled
        rw [leafAt, Keyed.get?_put_self, he]
      | cons second rest =>
        rw [leafAt_cons_cons, entriesAt_eq, Keyed.get?_put_self, entriesIn_dict]
        exact ih below shorter

end ModelTypes
