/-
  The circuit breaker around the primary LLM (`app/domain/circuit_breaker.py`).
  Its state is not stored: it is read off the time of the opening and the
  clock.  Times are rational numbers.

  * `call` is one call from its attempt to its end, `calls` a sequence of them;
    `Running` is the breaker with any number of calls under way, each taking
    its state check and recording its result in a step of its own.
  * `reopens_iff`: a probe that fails leaves the time of the opening as it was,
    so the breaker stays half open and lets every later call in.
  * `open_lasts_iff`: the breaker stays open for its cooldown, and is closed
    from half open only, in exactly the runs in which no call that was let in
    earlier succeeds while it is open.
-/
import Mathlib.Algebra.Order.Ring.Rat
import Mathlib.Tactic.Linarith
import OcrService.Lib.Pool

namespace OcrService

open Trans

/-! ## The breaker -/

/-- `State`. -/
inductive BreakerState where
  | closed
  | opened
  | halfOpen
  deriving DecidableEq

/-- `CircuitBreaker`, with the defaults of `__init__`. -/
structure CircuitBreaker where
  threshold : ℕ := 5
  window : ℚ := 60
  cooldown : ℚ := 60
  failures : List ℚ := []
  openedAt : Option ℚ := none
  deriving DecidableEq

namespace CircuitBreaker

/-- How the function under the breaker ends.  A cancellation is no
    `Exception`, so nothing is recorded for it. -/
inductive Ending where
  | returned
  | raised
  | cancelled
  deriving DecidableEq

/-- What becomes of a call. -/
inductive Result where
  | circuitOpen
  | invoked (ending : Ending)
  deriving DecidableEq

section
variable (b : CircuitBreaker) (now : ℚ)

/-- `state`, read at the time `now`. -/
def state : BreakerState :=
  match b.openedAt with
  | none => .closed
  | some openedAt => if b.cooldown ≤ now - openedAt then .halfOpen else .opened

/-- The failures of the window that ends with a failure at `now`. -/
def recent : List ℚ := (b.failures.filter fun t => now - t < b.window) ++ [now]

/-- `_record_failure` at the time `now`. -/
def recordFailure : CircuitBreaker :=
  { b with
    failures := b.recent now
    openedAt := if b.threshold ≤ (b.recent now).length ∧ b.openedAt = none then some now
      else b.openedAt }

/-- `_record_success`. -/
def recordSuccess : CircuitBreaker := { b with failures := [], openedAt := none }

/-- What `call` records after its function.  The lock is never waited for:
    nothing is awaited while it is held. -/
def settle : Ending → CircuitBreaker
  | .returned => b.recordSuccess
  | .raised => b.recordFailure now
  | .cancelled => b

end

section
variable {b : CircuitBreaker} {now o : ℚ}

theorem state_eq_opened :
    b.state now = .opened ↔ ∃ o, b.openedAt = some o ∧ now < o + b.cooldown := by
  unfold state
  cases b.openedAt with
  | none => simp
  | some o =>
    simp only [Option.some.injEq, exists_eq_left']
    split_ifs with h
    · simp only [false_iff, not_lt]
      linarith
    · simp only [true_iff]
      linarith

theorem state_eq_halfOpen :
    b.state now = .halfOpen ↔ ∃ o, b.openedAt = some o ∧ o + b.cooldown ≤ now := by
  unfold state
  cases b.openedAt with
  | none => simp
  | some o =>
    simp only [Option.some.injEq, exists_eq_left']
    split_ifs with h
    · simp only [true_iff]
      linarith
    · simp only [false_iff, not_le]
      linarith

theorem state_eq_closed : b.state now = .closed ↔ b.openedAt = none := by
  unfold state
  cases b.openedAt with
  | none => simp
  | some o =>
    simp only [reduceCtorEq, iff_false]
    split_ifs <;> simp

@[simp] theorem settle_cooldown (e : Ending) : (b.settle now e).cooldown = b.cooldown := by
  cases e <;> rfl

/-- **The time of an opening is kept** by everything but a success. -/
theorem settle_openedAt {e : Ending} (he : e ≠ .returned) (ho : b.openedAt = some o) :
    (b.settle now e).openedAt = some o := by
  cases e with
  | returned => exact absurd rfl he
  | raised => simp [settle, recordFailure, ho]
  | cancelled => exact ho

/-- The breaker opens at the time of the failure that opens it. -/
theorem settle_opens {e : Ending} (hb : b.openedAt = none) (ho : (b.settle now e).openedAt = some o) :
    e = .raised ∧ o = now := by
  cases e with
  | returned => cases ho
  | raised =>
    simp only [settle, recordFailure, hb, and_true] at ho
    split_ifs at ho
    exact ⟨rfl, (Option.some.inj ho).symm⟩
  | cancelled => exact absurd (hb.symm.trans ho) (by simp)

end

/-! ## One call after the other -/

/-- A call of a sequence: when it is attempted, and when and how its function
    ends if it is invoked. -/
structure Call where
  start : ℚ
  finish : ℚ
  ending : Ending

/-- `call`. -/
def call (b : CircuitBreaker) (c : Call) : CircuitBreaker × Result :=
  if b.state c.start = .opened then (b, .circuitOpen)
  else (b.settle c.finish c.ending, .invoked c.ending)

/-- The breaker after a sequence of calls. -/
def calls (b : CircuitBreaker) (cs : List Call) : CircuitBreaker :=
  cs.foldl (fun b c => (b.call c).1) b

/-- The clock does not go back along a sequence of calls that begins at `t`. -/
def Timed (t : ℚ) : List Call → Prop
  | [] => True
  | c :: cs => t ≤ c.start ∧ c.start ≤ c.finish ∧ Timed c.finish cs

/-- A call `c` of the sequence is attempted less than the cooldown after a
    probe has failed, and no call between the two succeeds. -/
def AfterProbe (b : CircuitBreaker) (cs : List Call) (before : List Call) (probe : Call)
    (after : List Call) (c : Call) (rest : List Call) : Prop :=
  cs = before ++ probe :: (after ++ c :: rest) ∧ (b.calls before).state probe.start = .halfOpen ∧
    probe.ending = .raised ∧ (∀ d ∈ after, d.ending ≠ .returned) ∧
    c.start < probe.finish + b.cooldown

/-- The breaker is open for its cooldown after a probe that failed. -/
def Reopens (b : CircuitBreaker) (cs : List Call) : Prop :=
  ∀ before probe after c rest, b.AfterProbe cs before probe after c rest →
    ((b.calls (before ++ probe :: after)).call c).2 = .circuitOpen

section
variable {b : CircuitBreaker} {o t : ℚ}

theorem calls_append (b : CircuitBreaker) (cs ds : List Call) :
    b.calls (cs ++ ds) = (b.calls cs).calls ds := List.foldl_append

@[simp] theorem call_cooldown (c : Call) : (b.call c).1.cooldown = b.cooldown := by
  unfold call
  split_ifs <;> simp

theorem call_openedAt {c : Call} (hc : c.ending ≠ .returned) (ho : b.openedAt = some o) :
    (b.call c).1.openedAt = some o := by
  unfold call
  split_ifs
  · exact ho
  · exact settle_openedAt hc ho

/-- What calls without a success leave. -/
theorem calls_kept {cs : List Call} : ∀ {b : CircuitBreaker}, (∀ c ∈ cs, c.ending ≠ .returned) →
    b.openedAt = some o →
    (b.calls cs).openedAt = some o ∧ (b.calls cs).cooldown = b.cooldown := by
  induction cs with
  | nil => intro b _ ho; exact ⟨ho, rfl⟩
  | cons c cs ih =>
    intro b hcs ho
    have hc := call_openedAt (hcs c List.mem_cons_self) ho
    obtain ⟨hopened, hcool⟩ := ih (fun d hd => hcs d (List.mem_cons_of_mem _ hd)) hc
    exact ⟨hopened, hcool.trans (call_cooldown c)⟩

theorem Timed.of_append {cs ds : List Call} : ∀ {t : ℚ}, Timed t (cs ++ ds) → ∃ t', t ≤ t' ∧ Timed t' ds := by
  induction cs with
  | nil => intro t h; exact ⟨t, le_rfl, h⟩
  | cons c cs ih =>
    rintro t ⟨hstart, hfinish, h⟩
    obtain ⟨t', ht', h⟩ := ih h
    exact ⟨t', (hstart.trans hfinish).trans ht', h⟩

/-- **A probe that fails leaves the breaker half open**: every call that is
    attempted before the next success is let in. -/
theorem call_after_probe {probe c : Call} {after : List Call}
    (hb : b.state probe.start = .halfOpen) (hprobe : probe.ending = .raised)
    (hafter : ∀ d ∈ after, d.ending ≠ .returned) (hc : probe.start ≤ c.start) :
    ((b.calls (probe :: after)).call c).2 = .invoked c.ending := by
  obtain ⟨o, ho, hcool⟩ := state_eq_halfOpen.1 hb
  have hp : probe.ending ≠ .returned := by simp [hprobe]
  obtain ⟨hopened, hcooldown⟩ := calls_kept (b := b) (List.forall_mem_cons.2 ⟨hp, hafter⟩) ho
  have hhalf : (b.calls (probe :: after)).state c.start = .halfOpen :=
    state_eq_halfOpen.2 ⟨o, hopened, by rw [hcooldown]; exact hcool.trans hc⟩
  simp [call, hhalf]

end

/-- **The breaker never re-opens after a probe that failed**: along a sequence
    of calls it does only if no call is attempted in the cooldown. -/
theorem reopens_iff {b : CircuitBreaker} {t : ℚ} {cs : List Call} (ht : Timed t cs) :
    b.Reopens cs ↔ ∀ before probe after c rest, ¬ b.AfterProbe cs before probe after c rest := by
  refine forall₅_congr fun before probe after c rest =>
    ⟨fun h hafter => ?_, fun h hafter => absurd hafter h⟩
  obtain ⟨hcs, hhalf, hprobe, hnone, -⟩ := id hafter
  rw [hcs] at ht
  obtain ⟨-, -, -, hfinish, ht⟩ := ht.of_append
  obtain ⟨t', ht', hstart, -⟩ := ht.of_append
  have hle : probe.start ≤ c.start := (hfinish.trans ht').trans hstart
  have hin := call_after_probe hhalf hprobe hnone hle
  rw [← calls_append, h hafter] at hin
  cases hin

/-- An opening, a probe that fails, and a call one second later. -/
def Sample.probes : List Call := [⟨0, 1, .raised⟩, ⟨61, 62, .raised⟩, ⟨63, 64, .raised⟩]

theorem reopens_iff_probes : ¬ CircuitBreaker.Reopens { threshold := 1 } Sample.probes := by
  rw [reopens_iff (t := 0) (by simp only [Sample.probes, Timed]; norm_num)]
  exact fun h => h [⟨0, 1, .raised⟩] ⟨61, 62, .raised⟩ [] ⟨63, 64, .raised⟩ []
    ⟨rfl, by decide +kernel, rfl, List.forall_mem_nil _, by decide +kernel⟩

theorem call_after_failed_probe :
    (CircuitBreaker.calls { threshold := 1 } [⟨0, 1, .raised⟩]).state 61 = .halfOpen ∧
      ((CircuitBreaker.calls { threshold := 1 } [⟨0, 1, .raised⟩, ⟨61, 62, .raised⟩]).call
        ⟨63, 64, .raised⟩).2 = .invoked .raised := by
  decide +kernel

/-! ## Calls under way together -/

/-- Where a call is. -/
inductive Stage where
  | circuitOpen
  | awaiting
  | ended
  deriving DecidableEq

/-- A breaker, the clock, and the calls made so far. -/
structure Running where
  breaker : CircuitBreaker
  now : ℚ
  stages : List Stage := []
  deriving DecidableEq

/-- What happens next: time passes, a call is made and reads the state, or the
    function of the call `i` ends and its result is recorded. -/
inductive Event where
  | tick (d : ℚ)
  | check
  | finish (i : ℕ) (ending : Ending)

namespace Running

/-- The state of the breaker now. -/
def state (r : Running) : BreakerState := r.breaker.state r.now

def step (r : Running) : Event → Option Running
  | .tick d => if 0 ≤ d then some { r with now := r.now + d } else none
  | .check =>
    some { r with stages := r.stages ++ [if r.state = .opened then .circuitOpen else .awaiting] }
  | .finish i ending =>
    if r.stages[i]? = some .awaiting then
      some { r with breaker := r.breaker.settle r.now ending, stages := r.stages.set i .ended }
    else none

/-- The call that is made next is turned away, if it is made before `t`. -/
def Refuses (t : ℚ) (r : Running) (e : Event) : Prop :=
  e = .check → r.now < t → r.step e = some { r with stages := r.stages ++ [.circuitOpen] }

/-- **Open lasts the whole cooldown**: from an opening on, no call is let in
    before the cooldown is over, and the breaker is not closed while open. -/
def OpenLasts : Running → List Event → Prop
  | _, [] => True
  | r, e :: es => ∀ r', r.step e = some r' →
    (r.state ≠ .opened → r'.state = .opened →
      Along step (Refuses (r'.now + r'.breaker.cooldown)) r' es) ∧
    (r'.state = .closed → r.state ≠ .opened) ∧ OpenLasts r' es

/-- A call that was let in before the breaker opened succeeds while it is
    open. -/
def Late (r : Running) (e : Event) : Prop := r.state = .opened ∧ ∃ i, e = .finish i .returned

section
variable {r r' : Running} {e : Event} {o : ℚ}

/-- What a step does to the breaker. -/
theorem step_cases (h : r.step e = some r') :
    (∃ d, e = .tick d ∧ 0 ≤ d ∧ r'.breaker = r.breaker ∧ r'.now = r.now + d) ∨
    (e = .check ∧ r'.breaker = r.breaker ∧ r'.now = r.now) ∨
    (∃ i ending, e = .finish i ending ∧ r'.breaker = r.breaker.settle r.now ending ∧
      r'.now = r.now) := by
  cases e with
  | tick d =>
    simp only [step] at h
    split_ifs at h with hd
    cases h
    exact .inl ⟨d, rfl, hd, rfl, rfl⟩
  | check =>
    cases h
    exact .inr (.inl ⟨rfl, rfl, rfl⟩)
  | finish i ending =>
    simp only [step] at h
    split_ifs at h
    cases h
    exact .inr (.inr ⟨i, ending, rfl, rfl, rfl⟩)

theorem step_now (h : r.step e = some r') : r.now ≤ r'.now := by
  obtain ⟨d, rfl, hd, -, hnow⟩ | ⟨rfl, -, hnow⟩ | ⟨i, ending, rfl, -, hnow⟩ := step_cases h
  · linarith
  · exact hnow.ge
  · exact hnow.ge

/-- The time of the opening is kept by every step that is not late. -/
theorem step_kept (h : r.step e = some r') (ho : r.breaker.openedAt = some o)
    (hlt : r.now < o + r.breaker.cooldown) (hlate : ¬ Late r e) :
    r'.breaker.openedAt = some o ∧ r'.breaker.cooldown = r.breaker.cooldown := by
  obtain ⟨d, rfl, -, hb, -⟩ | ⟨rfl, hb, -⟩ | ⟨i, ending, rfl, hb, -⟩ := step_cases h
  · rw [hb]
    exact ⟨ho, rfl⟩
  · rw [hb]
    exact ⟨ho, rfl⟩
  · have hne : ending ≠ .returned := by
      rintro rfl
      exact hlate ⟨state_eq_opened.2 ⟨o, ho, hlt⟩, i, rfl⟩
    rw [hb]
    exact ⟨settle_openedAt hne ho, settle_cooldown _⟩

/-- The breaker opens at the time of the step that opens it. -/
theorem step_opens (h : r.step e = some r') (hr : r.state ≠ .opened) (hr' : r'.state = .opened) :
    r'.breaker.openedAt = some r'.now := by
  obtain ⟨o, ho, hlt⟩ := state_eq_opened.1 hr'
  obtain ⟨d, rfl, hd, hb, hnow⟩ | ⟨rfl, hb, hnow⟩ | ⟨i, ending, rfl, hb, hnow⟩ := step_cases h
  · -- time alone never opens a breaker
    rw [hb] at ho hlt
    exact absurd (state_eq_opened.2 ⟨o, ho, by linarith⟩) hr
  · rw [hb] at ho hlt
    exact absurd (state_eq_opened.2 ⟨o, ho, hnow ▸ hlt⟩) hr
  · cases hopen : r.breaker.openedAt with
    | none =>
      rw [hb] at ho
      obtain ⟨-, rfl⟩ := settle_opens hopen ho
      rw [hb, ho, hnow]
    | some o' =>
      have hne : ending ≠ .returned := by
        rintro rfl
        rw [hb] at ho
        cases ho
      have hkept : (r.breaker.settle r.now ending).openedAt = some o' := settle_openedAt hne hopen
      rw [hb, hkept, Option.some.injEq] at ho
      rw [hb, settle_cooldown, hnow] at hlt
      exact absurd (state_eq_opened.2 ⟨o', hopen, by rw [ho]; exact hlt⟩) hr

/-- A step closes an open breaker only if it is late. -/
theorem closes_open_iff (h : r.step e = some r') :
    (r'.state = .closed → r.state ≠ .opened) ↔ ¬ Late r e := by
  constructor
  · rintro hclosed ⟨hopen, i, rfl⟩
    obtain ⟨d, he, -⟩ | ⟨he, -⟩ | ⟨j, ending, he, hb, -⟩ := step_cases h
    · cases he
    · cases he
    · cases he
      exact hclosed (state_eq_closed.2 (by rw [hb]; rfl)) hopen
  · intro hlate hclosed hopen
    obtain ⟨o, ho, hlt⟩ := state_eq_opened.1 hopen
    have hkept := (step_kept h ho hlt hlate).1
    rw [state_eq_closed.1 hclosed] at hkept
    cases hkept

end

/-- Nothing is asked of the calls made later. -/
theorem refuses_past {t : ℚ} {es : List Event} : ∀ {r : Running}, t ≤ r.now →
    Along step (Refuses t) r es := by
  induction es with
  | nil => intro r _; trivial
  | cons e es ih =>
    intro r ht r' hstep
    exact ⟨fun _ hlt => absurd hlt (not_lt.2 ht), ih (ht.trans (step_now hstep))⟩

/-- **An open breaker refuses every call of its cooldown** in a run without a
    late success. -/
theorem refuses_of_not_late {o : ℚ} {es : List Event} : ∀ {r : Running},
    r.breaker.openedAt = some o → Along step (fun r e => ¬ Late r e) r es →
    Along step (Refuses (o + r.breaker.cooldown)) r es := by
  induction es with
  | nil => intro r _ _; trivial
  | cons e es ih =>
    intro r ho hlate
    by_cases hlt : r.now < o + r.breaker.cooldown
    · intro r' hstep
      obtain ⟨hnow, hrest⟩ := hlate r' hstep
      obtain ⟨ho', hcool⟩ := step_kept hstep ho hlt hnow
      refine ⟨?_, hcool ▸ ih ho' hrest⟩
      rintro rfl -
      have hopen : r.state = .opened := state_eq_opened.2 ⟨o, ho, hlt⟩
      simp [step, hopen]
    · exact refuses_past (not_lt.1 hlt)

/-- **The breaker stays open for its cooldown** in exactly the runs without a
    late success. -/
theorem open_lasts_iff (r : Running) (es : List Event) :
    OpenLasts r es ↔ Along step (fun r e => ¬ Late r e) r es := by
  induction es generalizing r with
  | nil => exact Iff.rfl
  | cons e es ih =>
    refine forall₂_congr fun r' hstep => ?_
    rw [closes_open_iff hstep, ih]
    constructor
    · rintro ⟨-, hlate, hrest⟩
      exact ⟨hlate, hrest⟩
    · rintro ⟨hlate, hrest⟩
      refine ⟨fun hr hr' => ?_, hlate, hrest⟩
      exact refuses_of_not_late (step_opens hstep hr hr') hrest

theorem OpenLasts.of_exec {es fs : List Event} : ∀ {r r' : Running}, OpenLasts r (es ++ fs) →
    exec step r es = some r' → OpenLasts r' fs := by
  induction es with
  | nil =>
    intro r r' h hr
    rw [exec_nil, Option.some.injEq] at hr
    exact hr ▸ h
  | cons e es ih =>
    intro r r' h hr
    rw [exec_cons] at hr
    obtain ⟨r₁, hstep, hr⟩ := Option.bind_eq_some_iff.1 hr
    exact ih (h r₁ hstep).2.2 hr

/-- A breaker that opens at the first failure, at the time 0. -/
def Sample.fresh : Running := { breaker := { threshold := 1 }, now := 0 }

/-- Two calls are let in, and the first fails; ten seconds later the second
    is still under way. -/
def Sample.opened : Running :=
  { breaker := { threshold := 1, failures := [0], openedAt := some 0 }, now := 10
    stages := [.ended, .awaiting] }

/-- The second call succeeds while the breaker is open, which closes it: the
    next call is let in. -/
theorem late_success :
    exec step Sample.fresh [.check, .check, .finish 0 .raised, .tick 10] = some Sample.opened ∧
      Sample.opened.state = .opened ∧
      (exec step Sample.opened [.finish 1 .returned, .check]).map Running.stages =
        some [.ended, .ended, .awaiting] ∧
      ¬ OpenLasts Sample.fresh
        [.check, .check, .finish 0 .raised, .tick 10, .finish 1 .returned, .check] := by
  have hrun : exec step Sample.fresh [.check, .check, .finish 0 .raised, .tick 10] =
      some Sample.opened := by decide +kernel
  refine ⟨hrun, by decide +kernel, by decide +kernel, fun h => ?_⟩
  have hsplit : OpenLasts Sample.fresh
      ([.check, .check, .finish 0 .raised, .tick 10] ++ [.finish 1 .returned, .check]) := h
  have hlast : OpenLasts Sample.opened [.finish 1 .returned, .check] := hsplit.of_exec hrun
  exact (hlast _ rfl).2.1 (by decide +kernel) (by decide +kernel)

end Running

end CircuitBreaker

end OcrService
