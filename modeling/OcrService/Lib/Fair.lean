/-
  Fair schedules of a pool.

  A schedule names the task that moves next, for ever; it is fair if it comes
  back to every task again and again.

  * `Settling`: a step of a task that is not done takes weight from it, more than
    what it gives to the tasks that it starts;
  * `Settling.comes_to_rest`: under a fair schedule all tasks are done after some
    time, and nothing moves any more.
-/
import OcrService.Lib.Pool
import Mathlib.Data.Nat.Pairing

namespace Trans.Pool

variable {σ τ : Type}

/-- The action `i`; there may be no such task yet. -/
def act (move : σ → τ → Effect σ τ) (p : Pool σ τ) (i : ℕ) : Pool σ τ := (p.step move i).getD p

/-- The pools along a schedule. -/
def follow (move : σ → τ → Effect σ τ) (schedule : ℕ → ℕ) (p : Pool σ τ) : ℕ → Pool σ τ
  | 0 => p
  | n + 1 => (follow move schedule p n).act move (schedule n)

/-- The schedule comes back to every task. -/
def Fair (schedule : ℕ → ℕ) : Prop := ∀ i n, ∃ m, n ≤ m ∧ schedule m = i

/-- Dovetailing: the first task of every pair. -/
theorem fair_unpair : Fair fun n => n.unpair.1 :=
  fun i n => ⟨Nat.pair i n, Nat.right_le_pair i n, by simp⟩

/-- Tasks that are done stay as they are, and every other step loses weight. -/
structure Settling (move : σ → τ → Effect σ τ) (done : τ → Prop) (w : τ → ℕ) : Prop where
  rest : ∀ s t, done t → move s t = ⟨s, t, []⟩
  drop : ∀ s t, ¬ done t → w (move s t).task + ((move s t).spawned.map w).sum < w t

namespace Settling
variable {move : σ → τ → Effect σ τ} {done : τ → Prop} {w : τ → ℕ} {schedule : ℕ → ℕ} {p : Pool σ τ}
  {i : ℕ} {t : τ}

theorem act_done (h : Settling move done w) (ht : p.tasks[i]? = some t) (hdone : done t) :
    p.act move i = p := by
  have hset : p.tasks.set i t = p.tasks := by
    obtain ⟨hi, rfl⟩ := List.getElem?_eq_some_iff.1 ht
    exact List.set_getElem_self hi
  simp only [act, step, ht, h.rest p.shared t hdone, Option.getD_some, List.append_nil, hset]

theorem act_lt (h : Settling move done w) (ht : p.tasks[i]? = some t) (hdone : ¬ done t) :
    (p.act move i).total w < p.total w := by
  have hstep : p.step move i = some (p.act move i) := by simp [act, step, ht]
  have htotal := total_step w hstep ht
  have hdrop := h.drop p.shared t hdone
  omega

/-- An action does nothing, or takes weight. -/
theorem act_cases (h : Settling move done w) (p : Pool σ τ) (i : ℕ) :
    p.act move i = p ∨ (p.act move i).total w < p.total w := by
  cases ht : p.tasks[i]? with
  | none => exact Or.inl (by simp [act, step, ht])
  | some t =>
    by_cases hdone : done t
    · exact Or.inl (h.act_done ht hdone)
    · exact Or.inr (h.act_lt ht hdone)

/-- Along a schedule the pool stays, or has lost weight. -/
theorem follow_cases (h : Settling move done w) (n j : ℕ) :
    follow move schedule p (n + j) = follow move schedule p n ∨
      (follow move schedule p (n + j)).total w < (follow move schedule p n).total w := by
  induction j with
  | zero => exact Or.inl rfl
  | succ j ih =>
    have hact := h.act_cases (follow move schedule p (n + j)) (schedule (n + j))
    rw [← Nat.add_assoc, follow]
    rcases ih with heq | hlt
    · rwa [heq] at hact ⊢
    · rcases hact with hact | hact
      · rw [hact]
        exact Or.inr hlt
      · exact Or.inr (hact.trans hlt)

/-- Once all tasks are done, nothing moves. -/
theorem follow_rest (h : Settling move done w) {n : ℕ}
    (hdone : ∀ t ∈ (follow move schedule p n).tasks, done t) (j : ℕ) :
    follow move schedule p (n + j) = follow move schedule p n := by
  induction j with
  | zero => rfl
  | succ j ih =>
    rw [← Nat.add_assoc, follow, ih]
    cases ht : (follow move schedule p n).tasks[schedule (n + j)]? with
    | none => simp [act, step, ht]
    | some t => exact h.act_done ht (hdone t (List.mem_of_getElem? ht))

/-- **Under a fair schedule the pool comes to rest.** -/
theorem comes_to_rest (h : Settling move done w) (hfair : Fair schedule) (p : Pool σ τ) :
    ∃ n, (∀ t ∈ (follow move schedule p n).tasks, done t) ∧
      ∀ m, n ≤ m → follow move schedule p m = follow move schedule p n := by
  -- from any point on, by induction on the weight that is left
  suffices hfrom : ∀ k n, (follow move schedule p n).total w = k →
      ∃ n', ∀ t ∈ (follow move schedule p n').tasks, done t by
    obtain ⟨n, hn⟩ := hfrom _ 0 rfl
    refine ⟨n, hn, fun m hm => ?_⟩
    obtain ⟨j, rfl⟩ := Nat.exists_eq_add_of_le hm
    exact h.follow_rest hn j
  intro k
  induction k using Nat.strong_induction_on with
  | _ k ih =>
    rintro n rfl
    by_cases hdone : ∀ t ∈ (follow move schedule p n).tasks, done t
    · exact ⟨n, hdone⟩
    · push Not at hdone
      obtain ⟨t, ht, hnot⟩ := hdone
      obtain ⟨i, hi⟩ := List.mem_iff_getElem?.1 ht
      obtain ⟨m, hm, rfl⟩ := hfair i n
      obtain ⟨j, rfl⟩ := Nat.exists_eq_add_of_le hm
      rcases h.follow_cases n j with heq | hlt
      · -- the task moves now
        refine ih _ ?_ (n + j + 1) rfl
        rw [follow, heq]
        exact h.act_lt hi hnot
      · exact ih _ hlt (n + j) rfl

end Settling

end Trans.Pool
