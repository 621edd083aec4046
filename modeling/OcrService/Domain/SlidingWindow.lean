/-
  The window of the circuit breaker (`_record_failure` and `_record_success` in
  `app/domain/circuit_breaker.py`).

  The breaker keeps a list of failures that it prunes at each failure.  Against
  the full history of recorded results (`replay`), the list is as good as all
  failures since the last success (`Tracks`): the breaker opens at the first of
  them whose window has `failure_threshold` failures (`opening_exact`).  The
  results recorded in a run of concurrent calls are such a history
  (`exec_replay`).
-/
import Mathlib.Data.List.Induction
import OcrService.Lib.Window
import OcrService.Domain.CircuitBreaker

namespace OcrService

open Trans Window

namespace CircuitBreaker

/-- A recorded result, and when it was recorded. -/
inductive Recorded where
  | failure (time : ℚ)
  | success (time : ℚ)
  deriving DecidableEq

def Recorded.time : Recorded → ℚ
  | failure t | success t => t

/-- The breaker after one more result. -/
def record (b : CircuitBreaker) : Recorded → CircuitBreaker
  | .failure t => b.recordFailure t
  | .success _ => b.recordSuccess

/-- The breaker after a history of results. -/
def replay (b : CircuitBreaker) (trace : List Recorded) : CircuitBreaker := trace.foldl record b

/-- The failures since the last success, when they were recorded. -/
def failuresSince (trace : List Recorded) : List ℚ :=
  trace.foldl (fun fs r => match r with
    | .failure t => fs ++ [t]
    | .success _ => []) []

/-- The times of a history do not go back. -/
def Ordered (trace : List Recorded) : Prop := trace.Pairwise fun r r' => r.time ≤ r'.time

section
variable {b : CircuitBreaker} {trace : List Recorded} {fs : List ℚ} {now o t : ℚ}

theorem replay_append (b : CircuitBreaker) (trace trace' : List Recorded) :
    b.replay (trace ++ trace') = (b.replay trace).replay trace' := List.foldl_append

theorem failuresSince_failure (trace : List Recorded) (t : ℚ) :
    failuresSince (trace ++ [.failure t]) = failuresSince trace ++ [t] := List.foldl_append

theorem failuresSince_success (trace : List Recorded) (t : ℚ) :
    failuresSince (trace ++ [.success t]) = [] := List.foldl_append

/-- The failures since the last success are results of the history. -/
theorem mem_failuresSince (h : t ∈ failuresSince trace) : .failure t ∈ trace := by
  induction trace using List.reverseRecOn with
  | nil => cases h
  | append_singleton trace r ih =>
    cases r with
    | failure t' =>
      rw [failuresSince_failure] at h
      rcases List.mem_append.1 h with h | h
      · exact List.mem_append_left _ (ih h)
      · rw [List.mem_singleton.1 h]
        exact List.mem_append_right _ (List.mem_singleton_self _)
    | success t' =>
      rw [failuresSince_success] at h
      cases h

@[simp] theorem record_threshold (r : Recorded) : (b.record r).threshold = b.threshold := by
  cases r <;> rfl

@[simp] theorem record_window (r : Recorded) : (b.record r).window = b.window := by
  cases r <;> rfl

@[simp] theorem record_cooldown (r : Recorded) : (b.record r).cooldown = b.cooldown := by
  cases r <;> rfl

/-- What the breaker knows of the failures `fs`: a window that ends now or later
    sees the same of its list, and it opened at the first burst. -/
structure Tracks (b : CircuitBreaker) (fs : List ℚ) : Prop where
  kept : ∀ now, (∀ t ∈ fs, t ≤ now) → within b.window now b.failures = within b.window now fs
  closed : b.openedAt = none → ∀ i, ¬ Burst b.threshold b.window fs i
  opened : ∀ o, b.openedAt = some o → FirstBurst b.threshold b.window fs o

theorem tracks_success : b.recordSuccess.Tracks [] where
  kept _ _ := rfl
  closed _ _ h := by
    obtain ⟨e, he, -⟩ := h
    cases he
  opened _ h := by cases h

/-- **A failure is tracked**, if it is not earlier than the failures before it. -/
theorem Tracks.failure (h : b.Tracks fs) (hw : 0 < b.window) (hle : ∀ t ∈ fs, t ≤ now) :
    (b.recordFailure now).Tracks (fs ++ [now]) := by
  have hrecent : b.recent now = within b.window now fs ++ [now] := by
    rw [← h.kept now hle]
    rfl
  have hlast : Burst b.threshold b.window (fs ++ [now]) fs.length ↔
      b.threshold ≤ (b.recent now).length := by
    rw [hrecent]
    exact burst_concat_iff hw hle
  constructor
  · intro now' hle'
    have hnow : now ≤ now' := hle' now (List.mem_append_right _ (List.mem_singleton_self _))
    show within b.window now' (b.recent now) = within b.window now' (fs ++ [now])
    rw [hrecent, within_append, within_append, within_within hnow]
  · intro hnone i hburst
    simp only [recordFailure] at hnone hburst
    split_ifs at hnone with hopens
    rcases burst_concat hburst with hburst | rfl
    · exact h.closed hnone i hburst
    · exact hopens ⟨hlast.1 hburst, hnone⟩
  · intro o ho
    simp only [recordFailure] at ho
    split_ifs at ho with hopens
    · -- the breaker opens now
      obtain ⟨hfull, hnone⟩ := hopens
      cases ho
      refine ⟨fs.length, List.getElem?_concat_length, hlast.2 hfull, ?_⟩
      intro j hj hburst
      exact h.closed hnone j ((burst_append_left _ hj).1 hburst)
    · exact (h.opened o ho).append _

/-- **The pruned list is as good as the history**: after any history the breaker
    has tracked the failures since the last success. -/
theorem tracks_replay {n : ℕ} {w : ℚ} (c : ℚ) (hw : 0 < w) (h : Ordered trace) :
    (replay { threshold := n, window := w, cooldown := c } trace).Tracks (failuresSince trace) ∧
      (replay { threshold := n, window := w, cooldown := c } trace).threshold = n ∧
      (replay { threshold := n, window := w, cooldown := c } trace).window = w ∧
      (replay { threshold := n, window := w, cooldown := c } trace).cooldown = c := by
  induction trace using List.reverseRecOn with
  | nil =>
    exact ⟨tracks_success (b := { threshold := n, window := w, cooldown := c }), rfl, rfl, rfl⟩
  | append_singleton trace r ih =>
    obtain ⟨hbefore, -, hlast⟩ := List.pairwise_append.1 h
    obtain ⟨htracks, hn, hwindow, hc⟩ := ih hbefore
    rw [replay_append]
    refine ⟨?_, by simpa [replay] using hn, by simpa [replay] using hwindow, by simpa [replay] using hc⟩
    cases r with
    | failure t =>
      rw [failuresSince_failure]
      refine htracks.failure (by rw [hwindow]; exact hw) fun t' ht' => ?_
      exact hlast _ (mem_failuresSince ht') _ (List.mem_singleton_self _)
    | success t =>
      rw [failuresSince_success]
      exact tracks_success

end

/-- **Opening is exact.**  After a history of results whose times do not go
    back, the breaker is closed iff no failure since the last success completes
    a burst; otherwise it opened at the first that does, and is open until the
    cooldown is over. -/
theorem opening_exact (n : ℕ) {w : ℚ} (c : ℚ) (hw : 0 < w) {trace : List Recorded} (h : Ordered trace) (t : ℚ) :
    ((replay { threshold := n, window := w, cooldown := c } trace).state t = .closed ↔
      ∀ i, ¬ Burst n w (failuresSince trace) i) ∧
    ∀ i e, (failuresSince trace)[i]? = some e → Burst n w (failuresSince trace) i →
      (∀ j < i, ¬ Burst n w (failuresSince trace) j) →
      (replay { threshold := n, window := w, cooldown := c } trace).openedAt = some e ∧
      ((replay { threshold := n, window := w, cooldown := c } trace).state t = .opened ↔ t - e < c) ∧
      ((replay { threshold := n, window := w, cooldown := c } trace).state t = .halfOpen ↔ ¬ t - e < c) := by
  obtain ⟨htracks, hn, hwindow, hcool⟩ := tracks_replay (n := n) c hw h
  generalize replay { threshold := n, window := w, cooldown := c } trace = b at htracks hn hwindow hcool ⊢
  subst hn hwindow hcool
  constructor
  · rw [state_eq_closed]
    refine ⟨htracks.closed, fun hnone => ?_⟩
    cases ho : b.openedAt with
    | none => rfl
    | some o =>
      obtain ⟨i, -, hburst, -⟩ := htracks.opened o ho
      exact absurd hburst (hnone i)
  · intro i e hi hburst hfirst
    have ho : b.openedAt = some e := by
      cases ho : b.openedAt with
      | none => exact absurd hburst (htracks.closed ho i)
      | some o => rw [(htracks.opened o ho).unique hi hburst hfirst]
    refine ⟨ho, ?_, ?_⟩
    · rw [state_eq_opened, ho]
      simp only [Option.some.injEq, exists_eq_left']
      exact sub_lt_iff_lt_add'.symm
    · rw [state_eq_halfOpen, ho, not_lt]
      simp only [Option.some.injEq, exists_eq_left']
      exact le_sub_iff_add_le'.symm

/-- Failures at 0, 40 and 70: with a window of 60 the first two open a breaker
    of threshold 2, which is open at 90 and half open at 100. -/
theorem opening_exact_two :
    (replay { threshold := 2 } [.failure 0, .failure 40, .failure 70]).openedAt = some 40 ∧
      ((replay { threshold := 2 } [.failure 0, .failure 40, .failure 70]).state 90 = .opened ↔
        (90 : ℚ) - 40 < 60) ∧
      ((replay { threshold := 2 } [.failure 0, .failure 40, .failure 70]).state 90 = .halfOpen ↔
        ¬ (90 : ℚ) - 40 < 60) := by
  have hordered : Ordered [.failure 0, .failure 40, .failure 70] := by
    simp only [Ordered, Recorded.time, List.pairwise_cons]
    norm_num
  refine (opening_exact 2 60 (by norm_num) hordered 90).2 1 40 rfl ⟨40, rfl, by decide +kernel⟩ ?_
  intro j hj
  obtain rfl : j = 0 := Nat.lt_one_iff.1 hj
  rintro ⟨e, he, h⟩
  obtain rfl : 0 = e := Option.some.inj he
  exact absurd h (by decide +kernel)

/-! ## The results of a run -/

namespace Running

/-- The result that an event records. -/
def recorded (r : Running) : Event → List Recorded
  | .finish _ .raised => [.failure r.now]
  | .finish _ .returned => [.success r.now]
  | _ => []

/-- The history of a run. -/
def history (r : Running) : List Event → List Recorded
  | [] => []
  | e :: es => r.recorded e ++ match r.step e with
    | some r' => history r' es
    | none => []

/-- What a step records. -/
theorem step_recorded {r r' : Running} {e : Event} (h : r.step e = some r') :
    r'.breaker = r.breaker.replay (r.recorded e) ∧ ∀ x ∈ r.recorded e, x.time = r.now := by
  obtain ⟨d, rfl, -, hb, -⟩ | ⟨rfl, hb, -⟩ | ⟨i, ending, rfl, hb, -⟩ := step_cases h
  · exact ⟨hb, List.forall_mem_nil _⟩
  · exact ⟨hb, List.forall_mem_nil _⟩
  · rw [hb]
    cases ending with
    | returned => exact ⟨rfl, fun x hx => by rw [List.mem_singleton.1 hx]; rfl⟩
    | raised => exact ⟨rfl, fun x hx => by rw [List.mem_singleton.1 hx]; rfl⟩
    | cancelled => exact ⟨rfl, List.forall_mem_nil _⟩

/-- The clock does not go back along a run. -/
theorem exec_now {es : List Event} : ∀ {r r' : Running}, exec step r es = some r' → r.now ≤ r'.now := by
  induction es with
  | nil =>
    intro r r' h
    cases h
    exact le_rfl
  | cons e es ih =>
    intro r r' h
    rw [exec_cons] at h
    obtain ⟨r₁, hstep, h⟩ := Option.bind_eq_some_iff.1 h
    exact (step_now hstep).trans (ih h)

/-- **A run of concurrent calls records a history**: the breaker is the one after
    it, and its times do not go back. -/
theorem exec_replay {es : List Event} : ∀ {r r' : Running}, exec step r es = some r' →
    r'.breaker = r.breaker.replay (r.history es) ∧ Ordered (r.history es) ∧
      ∀ x ∈ r.history es, r.now ≤ x.time ∧ x.time ≤ r'.now := by
  induction es with
  | nil =>
    intro r r' h
    cases h
    exact ⟨rfl, List.Pairwise.nil, List.forall_mem_nil _⟩
  | cons e es ih =>
    intro r r' h
    rw [exec_cons] at h
    obtain ⟨r₁, hstep, h⟩ := Option.bind_eq_some_iff.1 h
    obtain ⟨hb, hord, htimes⟩ := ih h
    obtain ⟨hb₁, hnow⟩ := step_recorded hstep
    have hle := step_now hstep
    have hle' : r₁.now ≤ r'.now := exec_now h
    have hhistory : r.history (e :: es) = r.recorded e ++ r₁.history es := by
      rw [history, hstep]
    rw [hhistory, replay_append, ← hb₁]
    refine ⟨hb, List.pairwise_append.2 ⟨?_, hord, ?_⟩, ?_⟩
    · exact List.pairwise_of_forall_mem_list fun x hx y hy => ((hnow x hx).trans (hnow y hy).symm).le
    · intro x hx y hy
      rw [hnow x hx]
      exact hle.trans (htimes y hy).1
    · intro x hx
      rcases List.mem_append.1 hx with hx | hx
      · rw [hnow x hx]
        exact ⟨le_rfl, hle.trans hle'⟩
      · exact ⟨hle.trans (htimes x hx).1, (htimes x hx).2⟩

end Running

end CircuitBreaker

end OcrService
