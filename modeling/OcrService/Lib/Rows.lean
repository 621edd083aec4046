/-
  Tables as lists of rows, keyed by a column.

  `find` is the first row with a key, `replace` puts a new row in the place of
  the rows with a key, `delete` removes them.  The lemmas say what `find` sees
  after each change, and what `replace` does to a count.

  * `Says`: what the rows of a key have in a column, and how it is kept;
  * `filter_replace`, `filter_delete`, `filter_append_other`: changes that a
    filter does not see.
-/
import Mathlib.Data.List.Basic

namespace Rows

variable {ρ κ : Type} [DecidableEq κ] (key : ρ → κ)

/-- The row with key `k`. -/
def find (rows : List ρ) (k : κ) : Option ρ := rows.find? fun r => key r = k

/-- Put `r'` in the place of the rows with key `k`. -/
def replace (rows : List ρ) (k : κ) (r' : ρ) : List ρ :=
  rows.map fun r => if key r = k then r' else r

/-- Remove the rows with key `k`. -/
def delete (rows : List ρ) (k : κ) : List ρ := rows.filter fun r => key r ≠ k

variable {key} {rows : List ρ} {k k' : κ} {r r' : ρ}

theorem find_cons : find key (r :: rows) k = if key r = k then some r else find key rows k := by
  by_cases h : key r = k <;> simp [find, h]

theorem key_of_find (h : find key rows k = some r) : key r = k := by
  simpa [find] using List.find?_some h

theorem mem_of_find (h : find key rows k = some r) : r ∈ rows := List.mem_of_find?_eq_some h

theorem find_eq_none : find key rows k = none ↔ ∀ r ∈ rows, key r ≠ k := by
  simp [find, List.find?_eq_none]

theorem find_append_one (rows : List ρ) (r : ρ) (k : κ) :
    find key (rows ++ [r]) k = (find key rows k).or (if key r = k then some r else none) := by
  rw [find, List.find?_append]
  by_cases h : key r = k <;> simp [find, h]

theorem find_append_other (rows : List ρ) (h : key r ≠ k) :
    find key (rows ++ [r]) k = find key rows k := by
  simp [find_append_one, h]

theorem find_replace_self (hr : find key rows k = some r) (hk : key r' = k) :
    find key (replace key rows k r') k = some r' := by
  induction rows with
  | nil => simp [find] at hr
  | cons r₀ rows ih =>
    rw [find_cons] at hr
    simp only [replace, List.map_cons] at ih ⊢
    rw [find_cons]
    by_cases h : key r₀ = k
    · simp [h, hk]
    · simp only [h, if_false] at hr ⊢
      exact ih hr

theorem find_replace_other (rows : List ρ) (hk : key r' = k) (hne : k ≠ k') :
    find key (replace key rows k r') k' = find key rows k' := by
  induction rows with
  | nil => rfl
  | cons r₀ rows ih =>
    simp only [replace, List.map_cons] at ih ⊢
    rw [find_cons, find_cons, ih]
    by_cases h : key r₀ = k
    · subst h; simp [hk, hne]
    · simp [h]

theorem find_delete_self (rows : List ρ) : find key (delete key rows k) k = none := by
  simp [find_eq_none, delete]

theorem find_delete_other (rows : List ρ) (hne : k ≠ k') :
    find key (delete key rows k) k' = find key rows k' := by
  induction rows with
  | nil => rfl
  | cons r rows ih =>
    simp only [delete] at ih ⊢
    by_cases h : key r = k
    · subst h; rw [find_cons, if_neg hne]; simpa using ih
    · rw [List.filter_cons_of_pos (by simpa using h), find_cons, find_cons, ih]

theorem mem_replace (h : r ∈ replace key rows k r') : r = r' ∨ r ∈ rows := by
  obtain ⟨r₀, hr₀, rfl⟩ := List.mem_map.1 h
  split_ifs
  · exact Or.inl rfl
  · exact Or.inr hr₀

theorem mem_replace_key (h : r ∈ replace key rows k r') (hk : key r = k) : r = r' := by
  obtain ⟨r₀, -, rfl⟩ := List.mem_map.1 h
  split_ifs at hk ⊢ with h₀
  · rfl
  · exact absurd hk h₀

theorem mem_delete : r ∈ delete key rows k ↔ r ∈ rows ∧ key r ≠ k := by simp [delete]

/-- What is put in the place of a row goes with it. -/
theorem delete_replace (rows : List ρ) (hk : key r' = k) :
    delete key (replace key rows k r') k = delete key rows k := by
  induction rows with
  | nil => rfl
  | cons r rows ih =>
    rw [replace, delete] at ih ⊢
    by_cases h : key r = k <;> simp [delete, h, hk] at ih ⊢ <;> exact ih

theorem map_key_replace (rows : List ρ) (hk : key r' = k) :
    (replace key rows k r').map key = rows.map key := by
  rw [replace, List.map_map]
  refine List.map_congr_left fun r _ => ?_
  simp only [Function.comp_apply]
  split_ifs with h
  · rw [hk, h]
  · rfl

/-- Without a row of that key nothing is replaced. -/
theorem replace_of_notMem (r' : ρ) (h : k ∉ rows.map key) : replace key rows k r' = rows := by
  refine (List.map_congr_left fun r hr => ?_).trans (List.map_id rows)
  refine if_neg ?_
  rintro rfl
  exact h (List.mem_map_of_mem hr)

/-- Of rows with different keys, a filter leaves the row of a key or takes it away. -/
theorem find_filter (p : ρ → Bool) (k : κ) (hnodup : (rows.map key).Nodup) :
    find key (rows.filter p) k = (find key rows k).filter p := by
  induction rows with
  | nil => rfl
  | cons r rows ih =>
    rw [List.map_cons, List.nodup_cons] at hnodup
    have ih := ih hnodup.2
    rw [find_cons]
    by_cases hk : key r = k
    · have hnone : find key rows k = none := by
        rw [find_eq_none]
        intro r' hr' hk'
        exact hnodup.1 (List.mem_map.2 ⟨r', hr', hk'.trans hk.symm⟩)
      rw [hnone] at ih
      by_cases hp : p r
      · rw [List.filter_cons_of_pos hp, find_cons, if_pos hk, if_pos hk]
        simp [Option.filter, hp]
      · rw [List.filter_cons_of_neg hp, ih, if_pos hk]
        simp [Option.filter, hp]
    · rw [if_neg hk, ← ih, List.filter_cons]
      split_ifs
      · rw [find_cons, if_neg hk]
      · rfl

/-- **Replacing the one row of a key** moves a count by that row only. -/
theorem countP_replace (p : ρ → Bool) (r' : ρ) (hnodup : (rows.map key).Nodup)
    (hr : find key rows k = some r) :
    (replace key rows k r').countP p + (if p r then 1 else 0) =
      rows.countP p + (if p r' then 1 else 0) := by
  induction rows with
  | nil => cases hr
  | cons r₀ rows ih =>
    rw [List.map_cons, List.nodup_cons] at hnodup
    rw [find_cons] at hr
    by_cases h : key r₀ = k
    · rw [if_pos h] at hr
      rw [← Option.some.inj hr]
      have hrest : replace key (r₀ :: rows) k r' = r' :: rows := by
        have := replace_of_notMem r' (h ▸ hnodup.1)
        simp only [replace, List.map_cons, if_pos h] at this ⊢
        rw [this]
      rw [hrest, List.countP_cons, List.countP_cons]
      omega
    · rw [if_neg h] at hr
      have hrest : replace key (r₀ :: rows) k r' = r₀ :: replace key rows k r' := by
        simp only [replace, List.map_cons, if_neg h]
      have := ih hnodup.2 hr
      rw [hrest, List.countP_cons, List.countP_cons]
      omega

/-! ## What the rows of a key say -/

section
variable {α : Type} {column : ρ → α} {a : α} {rows' : List ρ}

/-- The rows of key `k` have `a` in the column. -/
def Says (key : ρ → κ) (column : ρ → α) (rows : List ρ) (k : κ) (a : α) : Prop :=
  ∀ r ∈ rows, key r = k → column r = a

instance [DecidableEq α] : Decidable (Says key column rows k a) :=
  inferInstanceAs (Decidable (∀ r ∈ rows, _))

theorem delete_subset : delete key rows k ⊆ rows := fun _ hr => (mem_delete.1 hr).1

omit [DecidableEq κ] in
theorem Says.subset (h : Says key column rows k a) (hrows : rows' ⊆ rows) :
    Says key column rows' k a := fun r hr => h r (hrows hr)

theorem Says.delete (h : Says key column rows k a) : Says key column (delete key rows k') k a :=
  h.subset delete_subset

omit [DecidableEq κ] in
theorem Says.append (h : Says key column rows k a) (hr : key r = k → column r = a) :
    Says key column (rows ++ [r]) k a := by
  intro r' hr'
  rcases List.mem_append.1 hr' with hr' | hr'
  · exact h r' hr'
  · rw [List.mem_singleton.1 hr']
    exact hr

/-- A replaced row says what the row in its place said. -/
theorem Says.replace {s : ρ} (h : Says key column rows k a) (hold : Says key column rows k' (column s))
    (hkey : key s = k') : Says key column (replace key rows k' s) k a := by
  intro r hr hk
  obtain ⟨r₀, hr₀, rfl⟩ := List.mem_map.1 hr
  split_ifs at hk ⊢ with h₀
  · rw [← hold r₀ hr₀ h₀]
    exact h r₀ hr₀ (h₀.trans (hkey.symm.trans hk))
  · exact h r₀ hr₀ hk

/-- The column is as before. -/
theorem Says.map_replace {s : ρ} (h : Says key column rows k (column s)) :
    (Rows.replace key rows k s).map column = rows.map column := by
  rw [Rows.replace, List.map_map]
  refine List.map_congr_left fun r hr => ?_
  simp only [Function.comp_apply]
  split_ifs with hk
  · exact (h r hr hk).symm
  · rfl

theorem filter_map_delete {p : α → Bool} (h : ∀ r ∈ rows, p (column r) = true → key r ≠ k) :
    ((delete key rows k).map column).filter p = (rows.map column).filter p := by
  rw [delete, List.filter_map, List.filter_map, List.filter_filter]
  congr 1
  refine List.filter_congr fun r hr => ?_
  by_cases hp : p (column r) = true
  · simp [hp, h r hr hp]
  · simp [hp]

end

/-! ## A row of some kind -/

section
variable {P : ρ → Prop} {s : ρ}

omit [DecidableEq κ] in
theorem exists_append (h : ∃ r ∈ rows, P r) (s : ρ) : ∃ r ∈ rows ++ [s], P r := by
  obtain ⟨r, hr, hp⟩ := h
  exact ⟨r, List.mem_append_left _ hr, hp⟩

/-- It stays when no such row is deleted. -/
theorem exists_delete (h : ∃ r ∈ rows, P r) (hne : ∀ r ∈ rows, P r → key r ≠ k) :
    ∃ r ∈ delete key rows k, P r := by
  obtain ⟨r, hr, hp⟩ := h
  exact ⟨r, mem_delete.2 ⟨hr, hne r hr hp⟩, hp⟩

/-- It stays when the row put in its place is of that kind. -/
theorem exists_replace (h : ∃ r ∈ rows, P r) (hs : ∀ r ∈ rows, P r → key r = k → P s) :
    ∃ r ∈ replace key rows k s, P r := by
  obtain ⟨r, hr, hp⟩ := h
  refine ⟨if key r = k then s else r, List.mem_map_of_mem hr, ?_⟩
  split_ifs with hk
  · exact hs r hr hp hk
  · exact hp

end

/-! ## Changes that a filter does not see -/

section
variable (key) {p : ρ → Bool}

theorem filter_append_other (hr : p r = false) : (rows ++ [r]).filter p = rows.filter p := by
  simp [List.filter_append, hr]

theorem filter_replace (hold : ∀ r ∈ rows, key r = k → p r = false) (hnew : p r' = false) :
    (replace key rows k r').filter p = rows.filter p := by
  induction rows with
  | nil => rfl
  | cons r rows ih =>
    have ih := ih fun r hr => hold r (List.mem_cons_of_mem _ hr)
    simp only [replace, List.map_cons] at ih ⊢
    by_cases h : key r = k
    · have hr := hold r List.mem_cons_self h
      rw [if_pos h, List.filter_cons_of_neg (by simp [hnew]), List.filter_cons_of_neg (by simp [hr]), ih]
    · rw [if_neg h, List.filter_cons, List.filter_cons, ih]

theorem filter_delete (hold : ∀ r ∈ rows, key r = k → p r = false) :
    (delete key rows k).filter p = rows.filter p := by
  rw [delete, List.filter_filter]
  refine List.filter_congr fun r hr => ?_
  by_cases h : key r = k
  · simp [hold r hr h]
  · simp [h]

end

end Rows
