/-
  Runs of a step function and task pools.

  * `Reach step ok s s'`: `s'` is reached from `s` by steps whose actions
    satisfy `ok` in the state they are taken in; `Reach.invariant` is the
    invariant rule, and `Reach.iff_passed` the rule for what only steps of one
    kind bring about.
  * A `Pool` is a shared state and a list of tasks.  An action names the task
    that takes its next step; the step may change the shared state and may
    spawn tasks, which are appended.  `Pool.reach_invariant` is the rule of
    local assertions: each task keeps its own assertion, and no task breaks
    the assertion of another; `Pool.Serial.step` is the rule for tasks that
    take turns.
  * `Pool.total w` sums a weight over the tasks; `Pool.total_step` says how a
    step changes it.
  * `Finishes`: where a task that runs alone ends.
  * `Along` and `Since` speak about a list of actions: all its steps satisfy a
    condition; some action is of one kind and all after it of another; `tally`
    sums a number over its steps, `gather` collects from them.
  * `Pool.AgreeBut R j`: two pools agree but for task `j`; the rules for a step
    of another task in both, and for one of `j` in the first only.
-/
import Mathlib.Algebra.BigOperators.Group.List.Basic
import Mathlib.Algebra.GroupWithZero.Nat
import Mathlib.Algebra.Order.Group.Nat

namespace Trans

variable {σ τ α : Type}

/-! ## Reachability -/

/-- The states reached from `s` by steps whose actions satisfy `ok`. -/
inductive Reach (step : σ → α → Option σ) (ok : σ → α → Prop) (s : σ) : σ → Prop
  | refl : Reach step ok s s
  | tail {s' s'' : σ} {a : α} : Reach step ok s s' → ok s' a → step s' a = some s'' →
      Reach step ok s s''

namespace Reach
variable {step : σ → α → Option σ} {ok ok' : σ → α → Prop} {s s' s'' : σ}

/-- **The invariant rule.** -/
theorem invariant {I : σ → Prop} (h : Reach step ok s s') (h₀ : I s)
    (hstep : ∀ s a s', I s → ok s a → step s a = some s' → I s') : I s' := by
  induction h with
  | refl => exact h₀
  | tail _ ha hs ih => exact hstep _ _ _ ih ha hs

theorem trans (h : Reach step ok s s') (h' : Reach step ok s' s'') : Reach step ok s s'' := by
  induction h' with
  | refl => exact h
  | tail _ ha hs ih => exact ih.tail ha hs

theorem mono (hok : ∀ s a, ok s a → ok' s a) (h : Reach step ok s s') : Reach step ok' s s' := by
  induction h with
  | refl => exact .refl
  | tail _ ha hs ih => exact ih.tail (hok _ _ ha) hs

end Reach

/-- What holds of every state on the way may be assumed of the actions. -/
theorem Reach.strengthen {step : σ → α → Option σ} {ok : σ → α → Prop} {s s' : σ} {J : σ → Prop}
    (h : Reach step ok s s') (hJ : ∀ t, Reach step ok s t → J t) :
    Reach step (fun t a => J t ∧ ok t a) s s' := by
  induction h with
  | refl => exact .refl
  | tail hr ha hs ih => exact ih.tail ⟨hJ _ hr, ha⟩ hs

/-- The state after a list of actions; an action that is not enabled stops the
    run without a state. -/
def exec (step : σ → α → Option σ) (s : σ) (as : List α) : Option σ := as.foldlM step s

theorem exec_nil (step : σ → α → Option σ) (s : σ) : exec step s [] = some s := rfl

theorem exec_cons (step : σ → α → Option σ) (s : σ) (a : α) (as : List α) :
    exec step s (a :: as) = (step s a).bind fun s' => exec step s' as := rfl

theorem exec_append (step : σ → α → Option σ) (s : σ) (as bs : List α) :
    exec step s (as ++ bs) = (exec step s as).bind fun s' => exec step s' bs := List.foldlM_append

theorem exec_singleton (step : σ → α → Option σ) (s : σ) (a : α) : exec step s [a] = step s a := by
  rw [exec_cons]
  cases step s a <;> rfl

/-- A list of actions that runs reaches its final state. -/
theorem reach_of_exec {step : σ → α → Option σ} :
    ∀ {l : List α} {s s' : σ}, exec step s l = some s' → Reach step (fun _ _ => True) s s'
  | [], s, s', h => by
    rw [exec_nil, Option.some.injEq] at h
    exact h ▸ .refl
  | a :: l, s, s', h => by
    rw [exec_cons] at h
    obtain ⟨t, ht, h⟩ := Option.bind_eq_some_iff.1 h
    exact (Reach.tail .refl trivial ht).trans (reach_of_exec h)

/-- A step whose action is checked first. -/
def checked (step : σ → α → Option σ) (ok : σ → α → Prop) [∀ s a, Decidable (ok s a)] (s : σ) (a : α) :
    Option σ :=
  if ok s a then step s a else none

/-- A list of checked actions that runs reaches its final state by such actions. -/
theorem reach_of_checked {step : σ → α → Option σ} {ok : σ → α → Prop} [∀ s a, Decidable (ok s a)] :
    ∀ {l : List α} {s s' : σ}, exec (checked step ok) s l = some s' → Reach step ok s s'
  | [], s, s', h => by
    rw [exec_nil, Option.some.injEq] at h
    exact h ▸ .refl
  | a :: l, s, s', h => by
    rw [exec_cons] at h
    obtain ⟨t, ht, h⟩ := Option.bind_eq_some_iff.1 h
    unfold checked at ht
    split_ifs at ht with hok
    exact (Reach.tail .refl hok ht).trans (reach_of_checked h)

/-- A list of actions, each checked for a condition that implies `ok`, whose final
    state is tested. -/
theorem exists_of_checked {step : σ → α → Option σ} {check ok : σ → α → Prop}
    [∀ s a, Decidable (check s a)] {P : σ → Bool} {l : List α} {s : σ}
    (hok : ∀ s a, check s a → ok s a) (h : (exec (checked step check) s l).any P = true) :
    ∃ s', Reach step ok s s' ∧ P s' = true := by
  obtain ⟨s', hs', hP⟩ := (Option.any_eq_true _ _).1 h
  exact ⟨s', (reach_of_checked hs').mono hok, hP⟩

/-- Every step that a list of actions takes satisfies `P` in the state it is
    taken in. -/
def Along (step : σ → α → Option σ) (P : σ → α → Prop) : σ → List α → Prop
  | _, [] => True
  | s, a :: as => ∀ s', step s a = some s' → P s a ∧ Along step P s' as

theorem along_cons {step : σ → α → Option σ} {P : σ → α → Prop} {s s' : σ} {a : α} (h : step s a = some s')
    (as : List α) : Along step P s (a :: as) ↔ P s a ∧ Along step P s' as := by
  constructor
  · intro hall
    exact hall s' h
  · rintro hall t ht
    cases Option.some.inj (h.symm.trans ht)
    exact hall

/-- The sum of `f` over the steps that a list of actions takes. -/
def tally (step : σ → α → Option σ) (f : σ → α → ℕ) : σ → List α → ℕ
  | _, [] => 0
  | s, a :: as =>
    match step s a with
    | none => 0
    | some s' => f s a + tally step f s' as

section
variable {step : σ → α → Option σ} {f : σ → α → ℕ} {s s' : σ}

theorem tally_cons {a : α} (h : step s a = some s') (as : List α) :
    tally step f s (a :: as) = f s a + tally step f s' as := by
  rw [tally, h]

theorem tally_append {as : List α} (h : exec step s as = some s') (bs : List α) :
    tally step f s (as ++ bs) = tally step f s as + tally step f s' bs := by
  induction as generalizing s with
  | nil =>
    cases h
    exact (Nat.zero_add _).symm
  | cons a as ih =>
    rw [exec_cons] at h
    obtain ⟨t, ht, h⟩ := Option.bind_eq_some_iff.1 h
    rw [List.cons_append, tally_cons ht, tally_cons ht, ih h, Nat.add_assoc]

end

/-- What `f` collects over the steps that a list of actions takes. -/
def gather {β : Type} (step : σ → α → Option σ) (f : σ → α → List β) : σ → List α → List β
  | _, [] => []
  | s, a :: as =>
    match step s a with
    | none => []
    | some s' => f s a ++ gather step f s' as

theorem gather_cons {β : Type} {step : σ → α → Option σ} {f : σ → α → List β} {s s' : σ} {a : α}
    (h : step s a = some s') (as : List α) :
    gather step f s (a :: as) = f s a ++ gather step f s' as := by
  rw [gather, h]

/-- **A run seen by another system**: if each step is what the system `step'`
    does by the actions `f`, so is a run. -/
theorem exec_gather {σ' β : Type} {step : σ → α → Option σ} {step' : σ' → β → Option σ'}
    {R : σ → σ' → Prop} {f : σ → α → List β} {s t : σ} {s' : σ'} {as : List α}
    (hstep : ∀ s a t s', R s s' → step s a = some t → ∃ t', exec step' s' (f s a) = some t' ∧ R t t')
    (h : exec step s as = some t) (hR : R s s') :
    ∃ t', exec step' s' (gather step f s as) = some t' ∧ R t t' := by
  induction as generalizing s s' with
  | nil =>
    obtain rfl := Option.some.inj h
    exact ⟨s', rfl, hR⟩
  | cons a as ih =>
    rw [exec_cons] at h
    obtain ⟨r, hr, h⟩ := Option.bind_eq_some_iff.1 h
    obtain ⟨r', hr', hRr⟩ := hstep s a r s' hR hr
    obtain ⟨t', ht', hRt⟩ := ih h hRr
    exact ⟨t', by rw [gather_cons hr, exec_append, hr']; exact ht', hRt⟩

/-- Some action of the list is a `P`, and all after it are `Q`. -/
def Since (P Q : α → Prop) (as : List α) : Prop :=
  ∃ before a after, as = before ++ a :: after ∧ P a ∧ ∀ b ∈ after, Q b

theorem since_nil {P Q : α → Prop} : ¬ Since P Q [] := by
  rintro ⟨before, a, after, h, -⟩
  simp at h

theorem since_concat {P Q : α → Prop} {as : List α} {a : α} :
    Since P Q (as ++ [a]) ↔ P a ∨ Since P Q as ∧ Q a := by
  constructor
  · rintro ⟨before, b, after, h, hP, hQ⟩
    rcases List.eq_nil_or_concat after with rfl | ⟨after, c, rfl⟩
    · rw [List.append_singleton_inj] at h
      exact Or.inl (h.2 ▸ hP)
    · rw [List.concat_eq_append] at h hQ
      rw [← List.cons_append, ← List.append_assoc, List.append_singleton_inj] at h
      obtain ⟨rfl, rfl⟩ := h
      exact Or.inr ⟨⟨before, b, after, rfl, hP, fun d hd => hQ d (List.mem_append_left _ hd)⟩,
        hQ a (List.mem_append_right _ (List.mem_singleton_self a))⟩
  · rintro (hP | ⟨⟨before, b, after, rfl, hP, hQ⟩, ha⟩)
    · exact ⟨as, a, [], rfl, hP, List.forall_mem_nil _⟩
    · refine ⟨before, b, after ++ [a], by simp, hP, fun c hc => ?_⟩
      rcases List.mem_append.1 hc with hc | hc
      · exact hQ c hc
      · exact List.mem_singleton.1 hc ▸ ha

/-! ## What a run has passed -/

section
variable {step : σ → α → Option σ} {ok P : σ → α → Prop} {s s' s'' : σ} {a : α}

/-- A run from `s` to `s'` took a step of kind `P`. -/
def Passed (step : σ → α → Option σ) (ok P : σ → α → Prop) (s s' : σ) : Prop :=
  ∃ t a t', Reach step ok s t ∧ ok t a ∧ P t a ∧ step t a = some t' ∧ Reach step ok t' s'

/-- A run goes on. -/
theorem Passed.tail (h : Passed step ok P s s') (ha : ok s' a) (hs : step s' a = some s'') :
    Passed step ok P s s'' := by
  obtain ⟨t, b, t', hr, hb, hP, ht, hr'⟩ := h
  exact ⟨t, b, t', hr, hb, hP, ht, hr'.tail ha hs⟩

/-- A run starts earlier. -/
theorem Passed.head (h : Reach step ok s s') (h' : Passed step ok P s' s'') : Passed step ok P s s'' := by
  obtain ⟨t, a, t', hr, ha, hP, hs, hr'⟩ := h'
  exact ⟨t, a, t', h.trans hr, ha, hP, hs, hr'⟩

/-- A run that took no step of kind `P`. -/
theorem Reach.of_not_passed (h : Reach step ok s s') (hnot : ¬ Passed step ok P s s') :
    Reach step (fun t a => ok t a ∧ ¬ P t a) s s' := by
  induction h with
  | refl => exact .refl
  | tail hr ha hs ih =>
    refine (ih fun hpassed => hnot (hpassed.tail ha hs)).tail ⟨ha, ?_⟩ hs
    exact fun hP => hnot ⟨_, _, _, hr, ha, hP, hs, .refl⟩

/-- **What only steps of one kind bring about.** -/
theorem Reach.iff_passed {I : σ → Prop} (h : Reach step ok s s') (h₀ : ¬ I s)
    (hstep : ∀ t a t', Reach step ok s t → ok t a → step t a = some t' → (I t' ↔ I t ∨ P t a)) :
    I s' ↔ Passed step ok P s s' := by
  constructor
  · intro hI
    induction h with
    | refl => exact absurd hI h₀
    | tail hr ha hs ih =>
      rcases (hstep _ _ _ hr ha hs).1 hI with hI | hP
      · exact (ih hI).tail ha hs
      · exact ⟨_, _, _, hr, ha, hP, hs, .refl⟩
  · rintro ⟨t, a, t', hr, ha, hP, hs, hr'⟩
    have hI := (hstep t a t' hr ha hs).2 (Or.inr hP)
    clear h
    induction hr' with
    | refl => exact hI
    | tail hr' hb hs' ih => exact (hstep _ _ _ ((hr.tail ha hs).trans hr') hb hs').2 (Or.inl ih)

/-- The same where it may have held from the start. -/
theorem Reach.iff_imp_passed {I : σ → Prop} (h : Reach step ok s s')
    (hstep : ∀ t a t', Reach step ok s t → ok t a → step t a = some t' → (I t' ↔ I t ∨ P t a)) :
    I s' ↔ (¬ I s → Passed step ok P s s') := by
  by_cases h₀ : I s
  · refine iff_of_true ?_ fun h => absurd h₀ h
    induction h with
    | refl => exact h₀
    | tail hr ha hs ih => exact (hstep _ _ _ hr ha hs).2 (Or.inl ih)
  · rw [h.iff_passed h₀ hstep]
    exact ⟨fun hpassed _ => hpassed, fun hpassed => hpassed h₀⟩

end

/-! ## Task pools -/

/-- A shared state and the tasks working on it. -/
structure Pool (σ τ : Type) where
  shared : σ
  tasks : List τ

/-- What one step of a task does: the new shared state, the task after the
    step, and the tasks it spawned. -/
structure Effect (σ τ : Type) where
  shared : σ
  task : τ
  spawned : List τ := []

namespace Pool

/-- Let task `i` take its next step. -/
def step (move : σ → τ → Effect σ τ) (p : Pool σ τ) (i : ℕ) : Option (Pool σ τ) :=
  match p.tasks[i]? with
  | none => none
  | some t => some
    { shared := (move p.shared t).shared
      tasks := p.tasks.set i (move p.shared t).task ++ (move p.shared t).spawned }

theorem step_eq_some {move : σ → τ → Effect σ τ} {p p' : Pool σ τ} {i : ℕ}
    (h : p.step move i = some p') :
    ∃ t, p.tasks[i]? = some t ∧ p'.shared = (move p.shared t).shared ∧
      p'.tasks = p.tasks.set i (move p.shared t).task ++ (move p.shared t).spawned := by
  unfold step at h
  split at h
  · cases h
  · rename_i t ht
    cases h
    exact ⟨t, ht, rfl, rfl⟩

/-- The step of a task that is known. -/
theorem step_of_task {move : σ → τ → Effect σ τ} {p p' : Pool σ τ} {i : ℕ} {t : τ}
    (h : p.step move i = some p') (ht : p.tasks[i]? = some t) :
    p'.shared = (move p.shared t).shared ∧
      p'.tasks = p.tasks.set i (move p.shared t).task ++ (move p.shared t).spawned := by
  obtain ⟨t', ht', hstep⟩ := step_eq_some h
  obtain rfl : t = t' := Option.some.inj (ht.symm.trans ht')
  exact hstep

/-- Where the tasks after a step come from. -/
theorem mem_of_step {move : σ → τ → Effect σ τ} {p p' : Pool σ τ} {i : ℕ} {t u : τ}
    (h : p.step move i = some p') (ht : p.tasks[i]? = some t) (hu : u ∈ p'.tasks) :
    u = (move p.shared t).task ∨ u ∈ (move p.shared t).spawned ∨ u ∈ p.tasks := by
  obtain ⟨-, htasks⟩ := step_of_task h ht
  rw [htasks] at hu
  rcases List.mem_append.1 hu with hu | hu
  · rcases List.mem_or_eq_of_mem_set hu with hu | rfl
    · exact Or.inr (Or.inr hu)
    · exact Or.inl rfl
  · exact Or.inr (Or.inl hu)

/-- A step changes the task that moves only. -/
theorem getElem?_step {move : σ → τ → Effect σ τ} {p p' : Pool σ τ} {i j : ℕ} {t u : τ}
    (h : p.step move i = some p') (ht : p.tasks[i]? = some t) (hu : p.tasks[j]? = some u) :
    p'.tasks[j]? = some (if i = j then (move p.shared t).task else u) := by
  obtain ⟨-, htasks⟩ := step_of_task h ht
  have hj := (List.getElem?_eq_some_iff.1 hu).1
  rw [htasks, List.getElem?_append_left (by simpa using hj)]
  split_ifs with hij
  · subst hij
    rw [List.getElem?_set_self hj]
  · rw [List.getElem?_set_ne hij, hu]

/-- What becomes of one task in a step. -/
theorem moved_or_same_of_step {move : σ → τ → Effect σ τ} {p p' : Pool σ τ} {i j : ℕ} {u : τ}
    (h : p.step move i = some p') (hu : p.tasks[j]? = some u) :
    i = j ∧ p'.tasks[j]? = some (move p.shared u).task ∨ i ≠ j ∧ p'.tasks[j]? = some u := by
  obtain ⟨t, ht, -⟩ := step_eq_some h
  have hstep := getElem?_step h ht hu
  by_cases hij : i = j
  · subst hij
    obtain rfl : t = u := Option.some.inj (ht.symm.trans hu)
    rw [if_pos rfl] at hstep
    exact Or.inl ⟨rfl, hstep⟩
  · rw [if_neg hij] at hstep
    exact Or.inr ⟨hij, hstep⟩

/-- The task that moved. -/
theorem moved_of_step {move : σ → τ → Effect σ τ} {p p' : Pool σ τ} {i : ℕ} {t : τ}
    (h : p.step move i = some p') (ht : p.tasks[i]? = some t) :
    p'.tasks[i]? = some (move p.shared t).task := by
  have hstep := getElem?_step h ht ht
  rwa [if_pos rfl] at hstep

/-- The other tasks stay. -/
theorem mem_or_mem_of_step {move : σ → τ → Effect σ τ} {p p' : Pool σ τ} {i : ℕ} {t u : τ}
    (h : p.step move i = some p') (ht : p.tasks[i]? = some t) (hu : u ∈ p.tasks) :
    u = t ∨ u ∈ p'.tasks := by
  obtain ⟨j, hj⟩ := List.mem_iff_getElem?.1 hu
  by_cases hij : i = j
  · subst hij
    exact Or.inl (Option.some.inj (hj.symm.trans ht))
  · have := getElem?_step h ht hj
    rw [if_neg hij] at this
    exact Or.inr (List.mem_of_getElem? this)

/-- The task that moved is there. -/
theorem moved_mem_of_step {move : σ → τ → Effect σ τ} {p p' : Pool σ τ} {i : ℕ} {t : τ}
    (h : p.step move i = some p') (ht : p.tasks[i]? = some t) : (move p.shared t).task ∈ p'.tasks :=
  List.mem_of_getElem? (moved_of_step h ht)

/-- A step of a task that `f` leaves out, and that starts only such tasks. -/
theorem filter_step {move : σ → τ → Effect σ τ} {p p' : Pool σ τ} {i : ℕ} {t : τ} {f : τ → Bool}
    (h : p.step move i = some p') (ht : p.tasks[i]? = some t) (hold : f t = false)
    (hnew : f (move p.shared t).task = false) (hspawned : ∀ u ∈ (move p.shared t).spawned, f u = false) :
    p'.tasks.filter f = p.tasks.filter f := by
  have hset : ∀ (ts : List τ) (i : ℕ), ts[i]? = some t →
      (ts.set i (move p.shared t).task).filter f = ts.filter f := by
    intro ts
    induction ts with
    | nil => simp
    | cons u ts ih =>
      rintro (_ | i) hi
      · obtain rfl : u = t := by simpa using hi
        rw [List.set_cons_zero, List.filter_cons_of_neg (by simp [hnew]),
          List.filter_cons_of_neg (by simp [hold])]
      · rw [List.set_cons_succ, List.filter_cons, List.filter_cons, ih i (by simpa using hi)]
  have hnil : (move p.shared t).spawned.filter f = [] :=
    List.filter_eq_nil_iff.2 (by simpa using hspawned)
  rw [(step_of_task h ht).2, List.filter_append, hset p.tasks i ht, hnil, List.append_nil]

/-- **Local assertions.**  `G` is an invariant of the shared state and `L` an
    assertion of each task: a step keeps `G`, establishes `L` for the task that
    moved and for those it spawned, and breaks no other task's `L`. -/
theorem reach_invariant {move : σ → τ → Effect σ τ} {ok : Pool σ τ → ℕ → Prop}
    {G : σ → Prop} {L : σ → τ → Prop}
    (hmove : ∀ p i t, G p.shared → L p.shared t → p.tasks[i]? = some t → ok p i →
      G (move p.shared t).shared ∧ L (move p.shared t).shared (move p.shared t).task ∧
        ∀ u ∈ (move p.shared t).spawned, L (move p.shared t).shared u)
    (hother : ∀ p i t, G p.shared → L p.shared t → p.tasks[i]? = some t → ok p i →
      ∀ u, L p.shared u → L (move p.shared t).shared u)
    {p p' : Pool σ τ} (h : Reach (step move) ok p p') (hG : G p.shared)
    (hL : ∀ t ∈ p.tasks, L p.shared t) : G p'.shared ∧ ∀ t ∈ p'.tasks, L p'.shared t := by
  refine h.invariant (I := fun p => G p.shared ∧ ∀ t ∈ p.tasks, L p.shared t) ⟨hG, hL⟩ ?_
  rintro p i p' ⟨hG, hL⟩ hok hs
  obtain ⟨t, ht, hsh, -⟩ := step_eq_some hs
  have hLt := hL t (List.mem_of_getElem? ht)
  obtain ⟨hG', hL', hsp⟩ := hmove p i t hG hLt ht hok
  rw [hsh]
  refine ⟨hG', fun u hu => ?_⟩
  rcases mem_of_step hs ht hu with rfl | hu | hu
  · exact hL'
  · exact hsp u hu
  · exact hother p i t hG hLt ht hok u (hL u hu)

/-! ## One task at a time -/

/-- Every task but `i` is idle. -/
def Serial (idle : τ → Bool) (p : Pool σ τ) (i : ℕ) : Prop :=
  ∀ j < p.tasks.length, j ≠ i → ∀ t ∈ p.tasks[j]?, idle t = true

instance (idle : τ → Bool) (p : Pool σ τ) (i : ℕ) : Decidable (p.Serial idle i) :=
  inferInstanceAs (Decidable (∀ j < p.tasks.length, j ≠ i → ∀ t ∈ p.tasks[j]?, idle t = true))

section
variable {idle : τ → Bool} {move : σ → τ → Effect σ τ} {p p' : Pool σ τ} {i : ℕ} {t u : τ}

/-- The task that moves is the only one that may be under way. -/
theorem Serial.eq_or_idle (h : p.Serial idle i) (ht : p.tasks[i]? = some t) (hu : u ∈ p.tasks) :
    u = t ∨ idle u = true := by
  obtain ⟨j, hj⟩ := List.mem_iff_getElem?.1 hu
  by_cases hij : j = i
  · subst hij
    exact Or.inl (Option.some.inj (hj.symm.trans ht))
  · exact Or.inr (h j (List.getElem?_eq_some_iff.1 hj).1 hij u hj)

/-- **The serial rule.**  If idle tasks satisfy an assertion whatever the shared
    state is, only the task that moves has to keep it. -/
theorem Serial.step {L : σ → τ → Prop} (hidle : ∀ s u, idle u = true → L s u)
    (h : p.Serial idle i) (hs : p.step move i = some p') (ht : p.tasks[i]? = some t)
    (hmove : L (move p.shared t).shared (move p.shared t).task)
    (hspawn : ∀ u ∈ (move p.shared t).spawned, idle u = true) : ∀ u ∈ p'.tasks, L p'.shared u := by
  obtain ⟨hsh, htasks⟩ := step_of_task hs ht
  rw [hsh]
  intro u hu
  rw [htasks] at hu
  rcases List.mem_append.1 hu with hu | hu
  · obtain ⟨j, hj⟩ := List.mem_iff_getElem?.1 hu
    have hlt := (List.getElem?_eq_some_iff.1 hj).1
    rw [List.length_set] at hlt
    by_cases hij : i = j
    · subst hij
      rw [List.getElem?_set_self hlt] at hj
      cases hj
      exact hmove
    · rw [List.getElem?_set_ne hij] at hj
      exact hidle _ u (h j hlt (Ne.symm hij) u hj)
  · exact hidle _ u (hspawn u hu)

end

/-! ## Without one task -/

/-- The pools have the same tasks but for task `j`, and their shared states are
    related. -/
structure AgreeBut (R : σ → σ → Prop) (j : ℕ) (p p' : Pool σ τ) : Prop where
  shared : R p.shared p'.shared
  length : p.tasks.length = p'.tasks.length
  tasks : ∀ k, k ≠ j → p.tasks[k]? = p'.tasks[k]?

section
variable {move : σ → τ → Effect σ τ} {R R' : σ → σ → Prop} {p p' p₁ : Pool σ τ} {j k : ℕ}

/-- Another task takes the same step in both. -/
theorem AgreeBut.step_other (h : AgreeBut R j p p') (hk : k ≠ j) (hs : p.step move k = some p₁)
    (hmove : ∀ t, p.tasks[k]? = some t → R' (move p.shared t).shared (move p'.shared t).shared ∧
      (move p.shared t).task = (move p'.shared t).task ∧
        (move p.shared t).spawned = (move p'.shared t).spawned) :
    ∃ p₁', p'.step move k = some p₁' ∧ AgreeBut R' j p₁ p₁' := by
  obtain ⟨t, ht, hshared, htasks⟩ := step_eq_some hs
  obtain ⟨hR, htask, hspawned⟩ := hmove t ht
  have ht' : p'.tasks[k]? = some t := (h.tasks k hk).symm.trans ht
  refine ⟨_, by rw [step, ht'], ?_⟩
  constructor
  · rw [hshared]
    exact hR
  · simp only [htasks, List.length_append, List.length_set, h.length, hspawned]
  · intro l hl
    rw [htasks, htask, hspawned]
    by_cases hlt : l < p.tasks.length
    · have hlt' : l < p'.tasks.length := h.length ▸ hlt
      rw [List.getElem?_append_left (by simpa using hlt), List.getElem?_append_left (by simpa using hlt')]
      by_cases hkl : k = l
      · subst hkl
        rw [List.getElem?_set_self hlt, List.getElem?_set_self hlt']
      · rw [List.getElem?_set_ne hkl, List.getElem?_set_ne hkl, h.tasks l hl]
    · have hle : p.tasks.length ≤ l := not_lt.1 hlt
      have hle' : p'.tasks.length ≤ l := h.length ▸ hle
      rw [List.getElem?_append_right (by simpa using hle), List.getElem?_append_right (by simpa using hle'),
        List.length_set, List.length_set, h.length]

/-- A step of the task that they differ in, taken in the first only. -/
theorem AgreeBut.step_own (h : AgreeBut R j p p') (hs : p.step move j = some p₁)
    (hmove : ∀ t, p.tasks[j]? = some t → R' (move p.shared t).shared p'.shared ∧
      (move p.shared t).spawned = []) : AgreeBut R' j p₁ p' := by
  obtain ⟨t, ht, hshared, htasks⟩ := step_eq_some hs
  obtain ⟨hR, hspawned⟩ := hmove t ht
  rw [hspawned, List.append_nil] at htasks
  constructor
  · rw [hshared]
    exact hR
  · rw [htasks, List.length_set, h.length]
  · intro k hk
    rw [htasks, List.getElem?_set_ne hk.symm]
    exact h.tasks k hk

end

/-! ## Weights of the tasks -/

/-- The sum of a weight over the tasks. -/
def total (w : τ → ℕ) (p : Pool σ τ) : ℕ := (p.tasks.map w).sum

theorem sum_map_set (w : τ → ℕ) (t' : τ) :
    ∀ (ts : List τ) (i : ℕ) (t : τ), ts[i]? = some t →
      ((ts.set i t').map w).sum + w t = (ts.map w).sum + w t'
  | [], i, t, h => by simp at h
  | u :: ts, 0, t, h => by
    obtain rfl : u = t := by simpa using h
    simp only [List.set_cons_zero, List.map_cons, List.sum_cons]
    omega
  | u :: ts, i + 1, t, h => by
    have := sum_map_set w t' ts i t (by simpa using h)
    simp only [List.set_cons_succ, List.map_cons, List.sum_cons]
    omega

/-- A step changes the total by what the moved task and the spawned ones weigh. -/
theorem total_step {move : σ → τ → Effect σ τ} {p p' : Pool σ τ} {i : ℕ} {t : τ} (w : τ → ℕ)
    (h : p.step move i = some p') (ht : p.tasks[i]? = some t) :
    p'.total w + w t =
      p.total w + w (move p.shared t).task + ((move p.shared t).spawned.map w).sum := by
  obtain ⟨-, htasks⟩ := step_of_task h ht
  have := sum_map_set w (move p.shared t).task p.tasks i t ht
  simp only [total, htasks, List.map_append, List.sum_append]
  omega

end Pool

/-! ## One task alone -/

/-- A task that runs with nothing else going on takes `n` steps. -/
def alone (move : σ → τ → Effect σ τ) : ℕ → σ × τ → σ × τ
  | 0, c => c
  | n + 1, c => alone move n ((move c.1 c.2).shared, (move c.1 c.2).task)

theorem alone_succ (move : σ → τ → Effect σ τ) (n : ℕ) (c : σ × τ) :
    alone move (n + 1) c = alone move n ((move c.1 c.2).shared, (move c.1 c.2).task) := rfl

theorem alone_add (move : σ → τ → Effect σ τ) :
    ∀ (m n : ℕ) (c : σ × τ), alone move (m + n) c = alone move n (alone move m c)
  | 0, n, c => by rw [Nat.zero_add]; rfl
  | m + 1, n, c => by
    rw [show m + 1 + n = m + n + 1 by omega, alone_succ, alone_add move m n]; rfl

/-- Once a task no longer changes anything, more steps change nothing. -/
theorem alone_fixed {move : σ → τ → Effect σ τ} {s : σ} {t : τ}
    (h : move s t = ⟨s, t, []⟩) : ∀ n, alone move n (s, t) = (s, t)
  | 0 => rfl
  | n + 1 => by rw [alone_succ, h]; exact alone_fixed h n

theorem alone_succ' (move : σ → τ → Effect σ τ) {n : ℕ} {c : σ × τ} {s : σ} {t : τ}
    (h : alone move n c = (s, t)) : alone move (n + 1) c = ((move s t).shared, (move s t).task) := by
  rw [alone_add, h]
  rfl

/-- From `c`, a task that runs alone ends in `c'`. -/
def Finishes (move : σ → τ → Effect σ τ) (c c' : σ × τ) : Prop :=
  ∃ m, ∀ n, m ≤ n → alone move n c = c'

namespace Finishes
variable {move : σ → τ → Effect σ τ} {s : σ} {t : τ} {c c' c'' : σ × τ}

theorem unique (h : Finishes move c c') (h' : Finishes move c c'') : c' = c'' := by
  obtain ⟨m, h⟩ := h
  obtain ⟨m', h'⟩ := h'
  rw [← h (max m m') (le_max_left _ _), h' (max m m') (le_max_right _ _)]

theorem fixed (h : move s t = ⟨s, t, []⟩) : Finishes move (s, t) (s, t) :=
  ⟨0, fun n _ => alone_fixed h n⟩

/-- A task that has come to rest after some steps ends there. -/
theorem of_alone {n : ℕ} (hn : alone move n c = (s, t)) (h : move s t = ⟨s, t, []⟩) :
    Finishes move c (s, t) := by
  refine ⟨n, fun m hm => ?_⟩
  obtain ⟨k, rfl⟩ := Nat.exists_eq_add_of_le hm
  rw [alone_add, hn, alone_fixed h]

/-- The first step may be taken on the way. -/
theorem step_iff :
    Finishes move (s, t) c ↔ Finishes move ((move s t).shared, (move s t).task) c := by
  constructor
  · rintro ⟨m, h⟩
    exact ⟨m, fun n hn => by rw [← h (n + 1) (by omega), alone_succ]⟩
  · rintro ⟨m, h⟩
    refine ⟨m + 1, fun n hn => ?_⟩
    obtain ⟨k, rfl⟩ : ∃ k, n = k + 1 := ⟨n - 1, by omega⟩
    rw [alone_succ]
    exact h k (by omega)

end Finishes

end Trans
