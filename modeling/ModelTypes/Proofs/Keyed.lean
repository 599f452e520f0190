import ModelTypes.Keyed
/-!
# Insertion-ordered maps

A map is known by the order of its keys and by what it holds under each key (`eq_of_get?`). `put`
changes one of the two: the value under a key that is there, or the keys by one at the end.
-/

namespace ModelTypes.Keyed

variable {α : Type} {m m' : Keyed α} {e : String × α} {k l : String} {v w : α}

@[simp] theorem get?_nil : get? ([] : Keyed α) k = none := rfl

theorem get?_cons : get? (e :: m) l = if l = e.1 then some e.2 else get? m l := by
  unfold get?
  rw [List.lookup_cons]
  by_cases h : l = e.1
  · simp [h]
  · simp [h, beq_false_of_ne h]

@[simp] theorem keys_nil : keys ([] : Keyed α) = [] := rfl

@[simp] theorem keys_cons : keys (e :: m) = e.1 :: keys m := rfl

@[simp] theorem keys_append : keys (m ++ m') = keys m ++ keys m' := by simp [keys]

theorem get?_eq_none_iff : get? m k = none ↔ k ∉ keys m := by
  induction m with
  | nil => simp
  | cons e m ih =>
    rw [get?_cons]
    by_cases h : k = e.1 <;> simp [h, ih]

theorem get?_isSome_iff : (get? m k).isSome ↔ k ∈ keys m := by
  rw [Option.isSome_iff_ne_none, ne_eq, get?_eq_none_iff, Decidable.not_not]

theorem has_iff_mem : has m k = true ↔ k ∈ keys m := by
  simp [has, keys]

theorem has_iff_get? : has m k = true ↔ ∃ v, get? m k = some v := by
  rw [has_iff_mem, ← get?_isSome_iff, Option.isSome_iff_exists]

theorem has_eq_false_iff : has m k = false ↔ get? m k = none := by
  rw [← Bool.not_eq_true, has_iff_mem, get?_eq_none_iff]

theorem has_congr (h : keys m = keys m') : has m k = has m' k := by
  rw [Bool.eq_iff_iff, has_iff_mem, has_iff_mem, h]

theorem has_append_cons : has (m ++ (k, v) :: m') k = true :=
  has_iff_mem.2 (by simp)

theorem get?_append_of_notMem (h : k ∉ keys m) : get? (m ++ m') k = get? m' k := by
  induction m with
  | nil => rfl
  | cons e m ih =>
    simp only [keys_cons, List.mem_cons, not_or] at h
    rw [List.cons_append, get?_cons, if_neg h.1, ih h.2]

theorem get?_append_cons_of_ne (h : l ≠ k) : get? (m ++ (k, v) :: m') l = get? (m ++ m') l := by
  induction m with
  | nil => rw [List.nil_append, get?_cons, if_neg h, List.nil_append]
  | cons e m ih => rw [List.cons_append, get?_cons, ih, List.cons_append, get?_cons]

theorem get?_filter (keep : String → Bool) :
    get? (m.filter fun e => keep e.1) k = if keep k then get? m k else none := by
  induction m with
  | nil => simp
  | cons e m ih =>
    by_cases he : keep e.1 = true
    · rw [List.filter_cons_of_pos (by simpa using he), get?_cons, get?_cons, ih]
      by_cases hk : k = e.1 <;> simp [hk, he]
    · rw [List.filter_cons_of_neg (by simpa using he), ih, get?_cons]
      by_cases hk : k = e.1 <;> simp [hk, he]

theorem mem_of_get? (h : get? m k = some v) : (k, v) ∈ m := by
  induction m with
  | nil => simp at h
  | cons e m ih =>
    rw [get?_cons] at h
    split at h
    · cases h; simp_all
    · exact List.mem_cons_of_mem _ (ih h)

theorem get?_of_mem (hn : (keys m).Nodup) (h : (k, v) ∈ m) : get? m k = some v := by
  induction m with
  | nil => simp at h
  | cons e m ih =>
    simp only [keys_cons, List.nodup_cons] at hn
    rw [get?_cons]
    rcases List.mem_cons.1 h with rfl | h
    · simp
    · have hne : k ≠ e.1 := fun he => hn.1 (he ▸ List.mem_map.2 ⟨_, h, rfl⟩)
      rw [if_neg hne, ih hn.2 h]

/-! ## Putting -/

@[simp] theorem put_nil : put ([] : Keyed α) k v = [(k, v)] := rfl

theorem put_ne_nil : put m k v ≠ [] := by
  cases m with
  | nil => simp
  | cons e m => simp only [put]; split <;> simp

theorem put_of_notMem (h : k ∉ keys m) : put m k v = m ++ [(k, v)] := by
  induction m with
  | nil => rfl
  | cons e m ih =>
    simp only [keys_cons, List.mem_cons, not_or] at h
    simp [put, Ne.symm h.1, ih h.2]

theorem put_append_cons (h : k ∉ keys m) : put (m ++ (k, v) :: m') k w = m ++ (k, w) :: m' := by
  induction m with
  | nil => simp [put]
  | cons e m ih =>
    simp only [keys_cons, List.mem_cons, not_or] at h
    simp [put, Ne.symm h.1, ih h.2]

theorem keys_put : keys (put m k v) = if k ∈ keys m then keys m else keys m ++ [k] := by
  induction m with
  | nil => simp
  | cons e m ih =>
    simp only [put]
    by_cases h : e.1 = k
    · simp [h]
    · simp only [h, if_false, keys_cons, ih, List.mem_cons, Ne.symm h, false_or]
      split <;> simp

/-- Putting in one entry after the other adds their keys. -/
theorem mem_keys_foldl_put {pairs : List (String × α)} :
    k ∈ keys (pairs.foldl (fun m e => put m e.1 e.2) m) ↔ k ∈ keys m ∨ k ∈ keys pairs := by
  induction pairs generalizing m with
  | nil => simp
  | cons e rest ih =>
    rw [List.foldl_cons, ih, keys_cons, List.mem_cons, ← or_assoc]
    refine or_congr_left ?_
    rw [keys_put]
    split
    · rename_i there
      exact ⟨.inl, fun h => h.elim id (· ▸ there)⟩
    · simp

theorem nodup_keys_put (h : (keys m).Nodup) : (keys (put m k v)).Nodup := by
  rw [keys_put]
  split
  · exact h
  · rename_i hk
    refine List.nodup_append.2 ⟨h, by simp, fun a ha b hb => ?_⟩
    rw [List.mem_singleton.1 hb]
    exact fun he => hk (he ▸ ha)

theorem get?_put_self : get? (put m k v) k = some v := by
  induction m with
  | nil => simp [get?_cons]
  | cons e m ih =>
    simp only [put]
    split
    · simp [get?_cons]
    · rw [get?_cons, ih]; simp_all [eq_comm]

theorem get?_put_of_ne (h : l ≠ k) : get? (put m k v) l = get? m l := by
  induction m with
  | nil => simp [get?_cons, h]
  | cons e m ih =>
    simp only [put]
    split
    · simp_all [get?_cons]
    · rw [get?_cons, get?_cons, ih]

/-- Putting in entries changes nothing under other keys. -/
theorem get?_foldl_put {pairs : List (String × α)} (h : k ∉ keys pairs) :
    get? (pairs.foldl (fun m e => put m e.1 e.2) m) k = get? m k := by
  induction pairs generalizing m with
  | nil => rfl
  | cons e rest ih =>
    rw [keys_cons, List.mem_cons, not_or] at h
    rw [List.foldl_cons, ih h.2, get?_put_of_ne h.1]

/-- Under their keys stands what was put in last, whatever was there before. -/
theorem get?_foldl_put_of_mem {m m' : Keyed α} {pairs : List (String × α)}
    (h : k ∈ keys pairs) :
    get? (pairs.foldl (fun m e => put m e.1 e.2) m) k
      = get? (pairs.foldl (fun m e => put m e.1 e.2) m') k := by
  induction pairs generalizing m m' with
  | nil => cases h
  | cons e rest ih =>
    rw [List.foldl_cons, List.foldl_cons]
    by_cases later : k ∈ keys rest
    · exact ih later
    · obtain rfl : k = e.1 := by simpa [later] using h
      rw [get?_foldl_put later, get?_foldl_put later, get?_put_self, get?_put_self]

theorem put_put_self : put (put m k v) k w = put m k w := by
  induction m with
  | nil => simp [put]
  | cons e m ih =>
    simp only [put]
    split <;> simp_all [put]

/-- Keys that are there keep their places. -/
theorem put_comm (hk : k ∈ keys m) (h : k ≠ l) :
    put (put m k v) l w = put (put m l w) k v := by
  induction m with
  | nil => simp at hk
  | cons e m ih =>
    by_cases hek : e.1 = k
    · subst hek; simp [put, h]
    · have hkm : k ∈ keys m := by simpa [Ne.symm hek] using hk
      by_cases hel : e.1 = l <;> simp [put, hek, hel, ih hkm, Ne.symm h]

/-! ## Extensionality -/

theorem eq_of_get? (hk : keys m = keys m') (hn : (keys m).Nodup)
    (h : ∀ k ∈ keys m, get? m k = get? m' k) : m = m' := by
  induction m generalizing m' with
  | nil => cases m' <;> simp_all
  | cons e m ih =>
    cases m' with
    | nil => simp at hk
    | cons e' m' =>
      simp only [keys_cons, List.cons.injEq] at hk
      simp only [keys_cons, List.nodup_cons] at hn
      have hv : e.2 = e'.2 := by
        simpa [get?_cons, hk.1] using h e.1 (by simp)
      rw [show e = e' from Prod.ext hk.1 hv, ih hk.2 hn.2 fun k hkm => ?_]
      have hne : k ≠ e.1 := fun he => hn.1 (he ▸ hkm)
      have := h k (by simp [hkm])
      rwa [get?_cons, if_neg hne, get?_cons, if_neg (hk.1 ▸ hne)] at this

end ModelTypes.Keyed
