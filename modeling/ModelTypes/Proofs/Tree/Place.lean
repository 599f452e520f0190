import ModelTypes.Proofs.Keyed
import ModelTypes.Tree
/-!
# Placing values at trails

A trail is the list of keys that leads to a place in a tree, so a dotted path without its dots.
Placements act key by key (`get?_build`): what stands at a key afterwards depends on what stood
there and on the placements that start with the key. A placement takes back all that went before it
at or below its trail, and two placements of which none lies above the other change places.
-/

namespace ModelTypes

/-- The keys that lead to a place in a tree. -/
abbrev Trail := List String

/-- The entries of what stands somewhere, if a mapping does. -/
def entriesIn : Option Value → Entries
  | some (.dict entries) => entries
  | _ => []

/-- What stands at a key once a value is placed at the rest of a trail below it. -/
def within : Trail → Value → Option Value → Value
  | [], v, _ => v
  | key :: rest, v, old => .dict (placeAt (key :: rest) v (entriesIn old))

/-- Puts one value after the other at its trail. -/
def build (places : List (Trail × Value)) (tree : Entries) : Entries :=
  places.foldl (fun tree e => placeAt e.1 e.2 tree) tree

/-- What stands at a key after placements below it. -/
def settle (places : List (Trail × Value)) (old : Option Value) : Option Value :=
  places.foldl (fun old e => some (within e.1 e.2 old)) old

/-- The placements that go through a key, seen from there. -/
def tailsAt (key : String) (places : List (Trail × Value)) : List (Trail × Value) :=
  places.filterMap fun e => match e.1 with
    | [] => none
    | first :: rest => if first = key then some (rest, e.2) else none

variable {key : String} {rest p q : Trail} {v w : Value} {old : Option Value}
  {tree : Entries} {places places' : List (Trail × Value)}

@[simp] theorem entriesIn_none : entriesIn none = [] := rfl

@[simp] theorem entriesIn_dict {entries : Entries} : entriesIn (some (.dict entries)) = entries :=
  rfl

theorem entriesAt_eq : entriesAt tree key = entriesIn (Keyed.get? tree key) := by
  unfold entriesAt entriesIn
  cases Keyed.get? tree key with
  | none => rfl
  | some v => cases v <;> rfl

theorem placeAt_cons :
    placeAt (key :: rest) v tree = Keyed.put tree key (within rest v (Keyed.get? tree key)) := by
  cases rest with
  | nil => rfl
  | cons next rest => rw [placeAt, within, entriesAt_eq]; simp

theorem placeAt_ne_nil (h : p ≠ []) : placeAt p v tree ≠ [] := by
  cases p with
  | nil => exact absurd rfl h
  | cons key rest => rw [placeAt_cons]; exact Keyed.put_ne_nil

theorem within_of_ne_nil (h : rest ≠ []) :
    within rest v old = .dict (placeAt rest v (entriesIn old)) := by
  cases rest with
  | nil => exact absurd rfl h
  | cons key rest => rfl

/-! ## Sequences of placements -/

@[simp] theorem build_nil : build [] tree = tree := rfl

@[simp] theorem build_cons {e : Trail × Value} :
    build (e :: places) tree = build places (placeAt e.1 e.2 tree) := rfl

@[simp] theorem build_append :
    build (places ++ places') tree = build places' (build places tree) := by
  simp [build]

@[simp] theorem settle_nil : settle [] old = old := rfl

@[simp] theorem settle_cons {e : Trail × Value} :
    settle (e :: places) old = settle places (some (within e.1 e.2 old)) := rfl

@[simp] theorem tailsAt_nil : tailsAt key [] = [] := rfl

theorem tailsAt_append :
    tailsAt key (places ++ places') = tailsAt key places ++ tailsAt key places' := by
  simp [tailsAt]

theorem mem_tailsAt_iff : (p, v) ∈ tailsAt key places ↔ (key :: p, v) ∈ places := by
  induction places with
  | nil => simp
  | cons e places ih =>
    obtain ⟨trail, w⟩ := e
    cases trail with
    | nil => simpa [tailsAt] using ih
    | cons first rest =>
      by_cases h : first = key
      · simpa [tailsAt, h] using or_congr Iff.rfl ih
      · simpa [tailsAt, h, Ne.symm h] using ih

theorem tailsAt_map_cons {k : String} :
    tailsAt key (places.map fun e => (k :: e.1, e.2)) = if k = key then places else [] := by
  induction places with
  | nil => simp
  | cons e rest ih =>
    rw [List.map_cons, ← List.singleton_append, tailsAt_append, ih]
    by_cases hk : k = key <;> simp [tailsAt, hk]

theorem build_ne_nil (hne : places ≠ []) (h : [] ∉ places.map (·.1)) : build places tree ≠ [] := by
  induction places generalizing tree with
  | nil => exact absurd rfl hne
  | cons e places ih =>
    simp only [List.map_cons, List.mem_cons, not_or] at h
    cases places with
    | nil => exact placeAt_ne_nil (Ne.symm h.1)
    | cons e' places => exact ih (by simp) h.2

/-- Placements act key by key. -/
theorem get?_build :
    Keyed.get? (build places tree) key = settle (tailsAt key places) (Keyed.get? tree key) := by
  induction places generalizing tree with
  | nil => rfl
  | cons e places ih =>
    obtain ⟨trail, v⟩ := e
    rw [build_cons, ih]
    cases trail with
    | nil => simp [tailsAt, placeAt]
    | cons first rest =>
      rw [placeAt_cons]
      by_cases h : first = key
      · subst h
        simp [tailsAt, Keyed.get?_put_self]
      · simp [tailsAt, h, Keyed.get?_put_of_ne (Ne.symm h)]

/-- A placement at the key itself takes back what went before. -/
theorem settle_of_mem_nil {old' : Option Value} (h : [] ∈ places.map (·.1)) :
    settle places old = settle places old' := by
  induction places generalizing old old' with
  | nil => simp at h
  | cons e places ih =>
    obtain ⟨trail, v⟩ := e
    rw [List.map_cons, List.mem_cons] at h
    rcases h with h | h
    · cases h; rfl
    · exact ih h

/-- Placements below a key make a mapping of what stands there. -/
theorem settle_eq_dict (hne : places ≠ []) (h : [] ∉ places.map (·.1)) :
    settle places old = some (.dict (build places (entriesIn old))) := by
  induction places generalizing old with
  | nil => exact absurd rfl hne
  | cons e places ih =>
    simp only [List.map_cons, List.mem_cons, not_or] at h
    rw [settle_cons, within_of_ne_nil (Ne.symm h.1), build_cons]
    cases places with
    | nil => rfl
    | cons e' places => exact ih (by simp) h.2

theorem settle_ne_none (hne : places ≠ []) : settle places old ≠ none := by
  induction places generalizing old with
  | nil => exact absurd rfl hne
  | cons e places ih =>
    cases places with
    | nil => simp
    | cons e' places => exact ih (by simp)

/-- Placements that all go through one key change one entry. -/
theorem build_map_cons (hne : places ≠ []) (h : settle places (Keyed.get? tree key) = some v) :
    build (places.map fun e => (key :: e.1, e.2)) tree = Keyed.put tree key v := by
  induction places generalizing tree with
  | nil => exact absurd rfl hne
  | cons e places ih =>
    rw [List.map_cons, build_cons, placeAt_cons]
    -- What one placement puts at the key, the next one finds there.
    cases places with
    | nil => rw [← Option.some.inj h]; rfl
    | cons e' places =>
      rw [ih (by simp) (by rw [Keyed.get?_put_self]; exact h), Keyed.put_put_self]

/-! ## Two placements -/

/-- A placement takes back what was placed at or below its trail. -/
theorem placeAt_placeAt_append (hp : p ≠ []) :
    placeAt p v (placeAt (p ++ rest) w tree) = placeAt p v tree := by
  induction p generalizing tree with
  | nil => exact absurd rfl hp
  | cons key p ih =>
    rw [List.cons_append, placeAt_cons, placeAt_cons, placeAt_cons, Keyed.put_put_self,
      Keyed.get?_put_self]
    cases p with
    | nil => rfl
    | cons next p =>
      rw [within_of_ne_nil (by simp), within_of_ne_nil (by simp), within_of_ne_nil (by simp)]
      rw [entriesIn_dict, ih (by simp)]

/-- Something stands at a trail. -/
def Occupied : Trail → Entries → Prop
  | [], _ => True
  | key :: rest, tree => key ∈ Keyed.keys tree ∧ Occupied rest (entriesAt tree key)

theorem mem_keys_put : key ∈ Keyed.keys (Keyed.put tree key v) :=
  Keyed.get?_isSome_iff.1 (by rw [Keyed.get?_put_self]; rfl)

theorem occupied_placeAt (h : p <+: q) : Occupied p (placeAt q v tree) := by
  induction p generalizing q tree with
  | nil => trivial
  | cons key p ih =>
    obtain ⟨rest, rfl⟩ := h
    rw [List.cons_append, placeAt_cons]
    refine ⟨mem_keys_put, ?_⟩
    cases p with
    | nil => trivial
    | cons next p =>
      rw [entriesAt_eq, Keyed.get?_put_self, List.cons_append, within_of_ne_nil (by simp)]
      exact ih (List.prefix_append _ _)

theorem Occupied.placeAt (h : Occupied p tree) (hq : ¬ q <+: p) :
    Occupied p (placeAt q w tree) := by
  induction p generalizing q tree with
  | nil => trivial
  | cons key p ih =>
    cases q with
    | nil => exact absurd List.nil_prefix hq
    | cons first q =>
      rw [placeAt_cons]
      by_cases hk : first = key
      · subst hk
        refine ⟨mem_keys_put, ?_⟩
        rw [List.prefix_cons_inj] at hq
        have hne : q ≠ [] := fun he => hq (he ▸ List.nil_prefix)
        rw [entriesAt_eq, Keyed.get?_put_self, within_of_ne_nil hne]
        exact ih (entriesAt_eq ▸ h.2) hq
      · refine ⟨?_, ?_⟩
        · rw [Keyed.keys_put]
          split
          · exact h.1
          · exact List.mem_append_left _ h.1
        · rw [entriesAt_eq, Keyed.get?_put_of_ne (Ne.symm hk), ← entriesAt_eq]
          exact h.2

/-- Placements of which none lies above the other change places, if the order of keys is settled
already. -/
theorem placeAt_comm (h : Occupied p tree) (hp : ¬ p <+: q) (hq : ¬ q <+: p) :
    placeAt p v (placeAt q w tree) = placeAt q w (placeAt p v tree) := by
  induction p generalizing q tree with
  | nil => exact absurd List.nil_prefix hp
  | cons key p ih =>
    cases q with
    | nil => exact absurd List.nil_prefix hq
    | cons first q =>
      simp only [placeAt_cons]
      -- Trails that share their first key part below it; others write under two keys, of which
      -- the first is there already and keeps its place.
      by_cases hk : first = key
      · subst hk
        rw [List.prefix_cons_inj] at hp hq
        have hpn : p ≠ [] := fun he => hp (he ▸ List.nil_prefix)
        have hqn : q ≠ [] := fun he => hq (he ▸ List.nil_prefix)
        have inner := ih (entriesAt_eq ▸ h.2) hp hq
        simp only [Keyed.put_put_self, Keyed.get?_put_self, within_of_ne_nil hpn,
          within_of_ne_nil hqn]
        exact congrArg (fun es => Keyed.put tree first (.dict es)) inner
      · rw [Keyed.get?_put_of_ne (Ne.symm hk), Keyed.get?_put_of_ne hk,
          Keyed.put_comm h.1 (Ne.symm hk)]

end ModelTypes
