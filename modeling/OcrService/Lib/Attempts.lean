/-
  A bounded number of attempts.

  `attempts body n a s` is the loop `for attempt in range(a, a + n)` over a body
  that ends the loop with a result, or carries a state over to the next attempt.
  It also lists what the attempts did, in order.

  * `attempts_rule`: what holds at the start and is kept by every attempt that
    does not end the loop holds when the attempts are used up, and what the last
    attempt establishes holds of the result;
  * `attempts_add`: the loop over `m + n` attempts is the loop over `m`, and,
    if that ends with no result, the loop over the next `n`;
  * `attempts_countP_le`: how often the attempts do something;
  * `attempts_done_iff`, `attempts_again_iff`: a loop that carries nothing over
    ends with the result of the first attempt that has one.
-/
import Mathlib.Data.Nat.Notation
import Mathlib.Tactic.TypeStar

/-- How an attempt ends. -/
inductive Attempt (σ ρ : Type*) where
  | done (result : ρ)
  | again (state : σ)
  deriving DecidableEq

section
variable {σ ρ ε : Type*}

def attempts (body : ℕ → σ → List ε × Attempt σ ρ) : ℕ → ℕ → σ → List ε × Attempt σ ρ
  | 0, _, s => ([], .again s)
  | n + 1, a, s =>
    match body a s with
    | (did, .done r) => (did, .done r)
    | (did, .again s') => (did ++ (attempts body n (a + 1) s').1, (attempts body n (a + 1) s').2)

/-- The loop has ended before attempt `a`: with a result of which `Q` holds, or
    with its attempts used up, in a state of which `I` holds. -/
def Attempt.Ends (I : ℕ → σ → List ε → Prop) (Q : ρ → List ε → Prop) (a : ℕ) (did : List ε) :
    Attempt σ ρ → Prop
  | .done r => Q r did
  | .again s => I a s did

variable {body : ℕ → σ → List ε × Attempt σ ρ} {n a : ℕ} {s s' : σ} {did : List ε} {r : ρ}

@[simp] theorem attempts_zero : attempts body 0 a s = ([], .again s) := rfl

theorem attempts_succ_done (h : body a s = (did, .done r)) :
    attempts body (n + 1) a s = (did, .done r) := by
  rw [attempts, h]

theorem attempts_succ_again (h : body a s = (did, .again s')) :
    attempts body (n + 1) a s =
      (did ++ (attempts body n (a + 1) s').1, (attempts body n (a + 1) s').2) := by
  rw [attempts, h]

/-- **The invariant rule** of the loop. -/
theorem attempts_rule {I : ℕ → σ → List ε → Prop} {Q : ρ → List ε → Prop} {m : ℕ}
    (hstep : ∀ a s did, a < m → I a s did →
      ((body a s).2).Ends I Q (a + 1) (did ++ (body a s).1)) :
    ∀ {n a : ℕ} {s : σ} {did : List ε}, a + n = m → I a s did →
      ((attempts body n a s).2).Ends I Q m (did ++ (attempts body n a s).1) := by
  intro n
  induction n with
  | zero =>
    intro a s did hm hI
    obtain rfl : a = m := hm
    rw [attempts_zero, List.append_nil]
    exact hI
  | succ n ih =>
    intro a s did hm hI
    have hbody := hstep a s did (by omega) hI
    rcases hb : body a s with ⟨out, r | s'⟩
    · rw [hb] at hbody
      rw [attempts_succ_done hb]
      exact hbody
    · rw [hb] at hbody
      rw [attempts_succ_again hb, ← List.append_assoc]
      exact ih (by omega) hbody

/-- The loop over `m + n` attempts, when the first `m` have no result. -/
theorem attempts_add {m : ℕ} : ∀ {a : ℕ} {s : σ} {did : List ε},
    attempts body m a s = (did, .again s') →
    attempts body (m + n) a s =
      (did ++ (attempts body n (a + m) s').1, (attempts body n (a + m) s').2) := by
  induction m with
  | zero =>
    intro a s did h
    cases h
    rw [Nat.zero_add, Nat.add_zero, List.nil_append]
  | succ m ih =>
    intro a s did h
    rcases hb : body a s with ⟨out, r | s₁⟩
    · rw [attempts_succ_done hb] at h
      cases h
    · rw [attempts_succ_again hb, Prod.mk.injEq] at h
      obtain ⟨rfl, hrest⟩ := h
      have hnext := ih (Prod.ext rfl hrest)
      rw [Nat.add_right_comm, attempts_succ_again hb, hnext, List.append_assoc,
        show a + 1 + m = a + (m + 1) by omega]

/-- More attempts change nothing once there is a result. -/
theorem attempts_add_of_done {m : ℕ} : ∀ {a : ℕ} {s : σ} {did : List ε},
    attempts body m a s = (did, .done r) → attempts body (m + n) a s = (did, .done r) := by
  induction m with
  | zero =>
    intro a s did h
    cases h
  | succ m ih =>
    intro a s did h
    rw [Nat.add_right_comm]
    rcases hb : body a s with ⟨out, r' | s₁⟩
    · rw [attempts_succ_done hb] at h ⊢
      exact h
    · rw [attempts_succ_again hb, Prod.mk.injEq] at h
      obtain ⟨rfl, hrest⟩ := h
      rw [attempts_succ_again hb, ih (Prod.ext rfl hrest)]

/-- What every attempt does at most `k` times, `n` attempts do at most `n * k`
    times. -/
theorem attempts_countP_le {p : ε → Bool} {k : ℕ} (h : ∀ a s, (body a s).1.countP p ≤ k) :
    ∀ {n a : ℕ} {s : σ}, (attempts body n a s).1.countP p ≤ n * k := by
  intro n
  induction n with
  | zero => exact fun {a s} => Nat.zero_le _
  | succ n ih =>
    intro a s
    have hbody := h a s
    rcases hb : body a s with ⟨out, r | s'⟩
    · rw [hb] at hbody
      rw [attempts_succ_done hb, Nat.succ_mul]
      exact Nat.le_trans hbody (Nat.le_add_left _ _)
    · rw [hb] at hbody
      rw [attempts_succ_again hb, List.countP_append, Nat.succ_mul, Nat.add_comm (n * k)]
      exact Nat.add_le_add hbody ih

end

/-! ## Bodies without a state -/

section
variable {ρ ε : Type*} {body : ℕ → Unit → List ε × Attempt Unit ρ} {r : ρ}

theorem attempts_again_iff {n : ℕ} : ∀ {a : ℕ},
    (attempts body n a ()).2 = .again () ↔ ∀ i < n, (body (a + i) ()).2 = .again () := by
  induction n with
  | zero =>
    intro a
    exact iff_of_true rfl fun i hi => absurd hi (Nat.not_lt_zero i)
  | succ n ih =>
    intro a
    rcases hb : body a () with ⟨out, r | ⟨⟩⟩
    · rw [attempts_succ_done hb]
      refine iff_of_false (fun h => by cases h) fun h => ?_
      have hzero := h 0 (Nat.succ_pos n)
      rw [Nat.add_zero, hb] at hzero
      cases hzero
    · rw [attempts_succ_again hb, ih]
      constructor
      · intro h i hi
        cases i with
        | zero => rw [Nat.add_zero, hb]
        | succ i => rw [show a + (i + 1) = a + 1 + i by omega]; exact h i (by omega)
      · intro h i hi
        rw [show a + 1 + i = a + (i + 1) by omega]
        exact h (i + 1) (by omega)

theorem attempts_done_iff {n : ℕ} : ∀ {a : ℕ},
    (attempts body n a ()).2 = .done r ↔
      ∃ i < n, (∀ j < i, (body (a + j) ()).2 = .again ()) ∧ (body (a + i) ()).2 = .done r := by
  induction n with
  | zero =>
    intro a
    refine iff_of_false (fun h => by cases h) ?_
    rintro ⟨i, hi, -⟩
    exact absurd hi (Nat.not_lt_zero i)
  | succ n ih =>
    intro a
    rcases hb : body a () with ⟨out, r' | ⟨⟩⟩
    · rw [attempts_succ_done hb]
      constructor
      · intro h
        exact ⟨0, Nat.succ_pos n, fun j hj => absurd hj (Nat.not_lt_zero j), by rw [Nat.add_zero, hb]; exact h⟩
      · rintro ⟨i, -, hbelow, hi⟩
        cases i with
        | zero => rw [Nat.add_zero, hb] at hi; exact hi
        | succ i =>
          have hzero := hbelow 0 (Nat.succ_pos i)
          rw [Nat.add_zero, hb] at hzero
          cases hzero
    · rw [attempts_succ_again hb, ih]
      constructor
      · rintro ⟨i, hi, hbelow, hdone⟩
        refine ⟨i + 1, by omega, fun j hj => ?_, by rw [show a + (i + 1) = a + 1 + i by omega]; exact hdone⟩
        cases j with
        | zero => rw [Nat.add_zero, hb]
        | succ j => rw [show a + (j + 1) = a + 1 + j by omega]; exact hbelow j (by omega)
      · rintro ⟨i, hi, hbelow, hdone⟩
        cases i with
        | zero => rw [Nat.add_zero, hb] at hdone; cases hdone
        | succ i =>
          refine ⟨i, by omega, fun j hj => ?_, by rw [show a + 1 + i = a + (i + 1) by omega]; exact hdone⟩
          rw [show a + 1 + j = a + (j + 1) by omega]
          exact hbelow (j + 1) (by omega)

end
