/-
  The worker pool (`app/worker/pool.py`): at most so many jobs of a tenant at a
  time, by a semaphore for each tenant.

  A call of `submit` gets the tenant's semaphore, waits for a slot, runs its
  job, and gives the slot back.  `set_tenant_limit` drops the semaphore from the
  map, so that the next call makes a new one; the calls that have the old one
  keep it.  `ceiling` is what a tenant may come to run without a further change
  of its limit.

  * `running_le_ceiling`, `ceiling_step`: jobs stay below the ceiling, and only
    a change of the limit raises it;
  * `concurrency_bounded`: the jobs of a tenant stay below the largest limit
    that has been in force in every run whose changes leave room for what the
    dropped semaphores still carry.
-/
import OcrService.Lib.Pool
import OcrService.Lib.Semaphore
import OcrService.World

namespace OcrService

open Trans Semaphore Finset

/-- `WorkerPool`.  A tenant is given as `str(tenant_id)`; `semaphores` names a
    semaphore of `table`, whose users are the calls of `submit`. -/
structure WorkerPool where
  default : ℕ
  limits : String → Option ℕ := fun _ => none
  semaphores : String → Option ℕ := fun _ => none
  table : Table String := {}

/-- What happens next: a call of `submit` gets its semaphore; the call `i`
    begins its job; the job of the call `i` ends; a limit is set. -/
inductive PoolEvent where
  | submit (tid : String)
  | start (i : ℕ)
  | finish (i : ℕ) (outcome : Outcome)
  | setTenantLimit (tid : String) (limit : ℕ)

namespace WorkerPool

section
variable (p : WorkerPool) (tid : String)

/-- `self._limits.get(tenant_id, self._default)`: the limit in force. -/
def limitOf : ℕ := (p.limits tid).getD p.default

/-- A new semaphore for a tenant. -/
def addSemaphore : WorkerPool :=
  { p with
    table := p.table.create (p.limitOf tid)
    semaphores := Function.update p.semaphores tid (some p.table.values.length) }

/-- `_semaphore_for`. -/
def semaphoreFor : WorkerPool × ℕ :=
  match p.semaphores tid with
  | some o => (p, o)
  | none => (p.addSemaphore tid, p.table.values.length)

/-- `set_tenant_limit`; a limit below 1 is a `ValueError`. -/
def setTenantLimit (limit : ℕ) : WorkerPool :=
  if limit < 1 then p
  else
    { p with
      limits := Function.update p.limits tid (some limit)
      semaphores := Function.update p.semaphores tid none }

/-- The jobs of a tenant that are running. -/
def running : ℕ := p.table.holding tid

/-- The jobs of a tenant that the semaphores made so far let run together. -/
def carried : ℕ := ∑ o ∈ range p.table.values.length, p.table.reach tid o

/-- The semaphores that the tenant's next call does not get. -/
def dropped : Finset ℕ := (range p.table.values.length).filter fun o => p.semaphores tid ≠ some o

/-- What the tenant may come to run while its limit stays: a full current
    semaphore, and what the dropped ones carry. -/
def ceiling : ℕ := p.limitOf tid + ∑ o ∈ p.dropped tid, p.table.reach tid o

end

def step (p : WorkerPool) : PoolEvent → Option WorkerPool
  | .submit tid =>
    let (p, o) := p.semaphoreFor tid
    some { p with table := p.table.join tid o }
  | .start i => (p.table.enter i).map fun table => { p with table }
  | .finish i _ => (p.table.leave i).map fun table => { p with table }
  | .setTenantLimit tid limit => some (p.setTenantLimit tid limit)

/-- The largest limit that has been in force for a tenant. -/
def largest (default : ℕ) (tid : String) (es : List PoolEvent) : ℕ :=
  es.foldl (fun m e => match e with
    | .setTenantLimit t limit => if t = tid then max m limit else m
    | _ => m) default

/-! ## One step -/

/-- The semaphores exist, and the current one of a tenant has the slots of its limit. -/
structure Consistent (p : WorkerPool) : Prop where
  valid : p.table.Valid
  current : ∀ tid o, p.semaphores tid = some o →
    o < p.table.values.length ∧ p.table.slots o = p.limitOf tid

section
variable {p p' : WorkerPool} {tid t : String} {limit i : ℕ} {e : PoolEvent}

theorem consistent_new (d : ℕ) : Consistent { default := d } where
  valid := by intro u hu; cases hu
  current := by intro tid o ho; cases ho

theorem semaphoreFor_cases (p : WorkerPool) (t : String) :
    (∃ o, p.semaphores t = some o ∧ p.semaphoreFor t = (p, o)) ∨
      p.semaphores t = none ∧ p.semaphoreFor t = (p.addSemaphore t, p.table.values.length) := by
  unfold WorkerPool.semaphoreFor
  cases p.semaphores t with
  | some o => exact Or.inl ⟨o, rfl, rfl⟩
  | none => exact Or.inr ⟨rfl, rfl⟩

@[simp] theorem addSemaphore_self (p : WorkerPool) (t : String) :
    (p.addSemaphore t).semaphores t = some p.table.values.length := Function.update_self ..

theorem addSemaphore_other (p : WorkerPool) (h : tid ≠ t) :
    (p.addSemaphore t).semaphores tid = p.semaphores tid := Function.update_of_ne h ..

@[simp] theorem addSemaphore_length (p : WorkerPool) (t : String) :
    (p.addSemaphore t).table.values.length = p.table.values.length + 1 := by
  simp [addSemaphore, Table.create]

theorem Consistent.addSemaphore (h : p.Consistent) (t : String) : (p.addSemaphore t).Consistent := by
  refine ⟨h.valid.create, fun tid o ho => ?_⟩
  rw [addSemaphore_length]
  by_cases ht : tid = t
  · subst ht
    rw [addSemaphore_self, Option.some.injEq] at ho
    subst ho
    exact ⟨Nat.lt_succ_self _, Table.slots_created h.valid⟩
  · rw [addSemaphore_other p ht] at ho
    obtain ⟨hlt, hslots⟩ := h.current tid o ho
    exact ⟨hlt.trans (Nat.lt_succ_self _), (Table.slots_create hlt).trans hslots⟩

/-- What `_semaphore_for` gives. -/
theorem Consistent.semaphoreFor (h : p.Consistent) (t : String) :
    (p.semaphoreFor t).1.Consistent ∧ (p.semaphoreFor t).1.semaphores t = some (p.semaphoreFor t).2 := by
  rcases semaphoreFor_cases p t with ⟨o, ho, heq⟩ | ⟨-, heq⟩
  · rw [heq]
    exact ⟨h, ho⟩
  · rw [heq]
    exact ⟨h.addSemaphore t, addSemaphore_self p t⟩

/-- A change of the calls that keeps the slots. -/
theorem Consistent.table {s : Table String} (h : p.Consistent) (hvalid : s.Valid)
    (hlength : s.values.length = p.table.values.length) (hslots : ∀ o, s.slots o = p.table.slots o) :
    Consistent { p with table := s } where
  valid := hvalid
  current tid o ho := by
    obtain ⟨hlt, heq⟩ := h.current tid o ho
    exact ⟨hlength ▸ hlt, (hslots o).trans heq⟩

theorem Consistent.setTenantLimit (h : p.Consistent) (t : String) (limit : ℕ) :
    (p.setTenantLimit t limit).Consistent := by
  unfold WorkerPool.setTenantLimit
  split_ifs
  · exact h
  · refine ⟨h.valid, fun tid o ho => ?_⟩
    dsimp only at ho ⊢
    by_cases ht : tid = t
    · subst ht
      rw [Function.update_self] at ho
      cases ho
    · rw [Function.update_of_ne ht] at ho
      obtain ⟨hlt, hslots⟩ := h.current tid o ho
      refine ⟨hlt, hslots.trans ?_⟩
      simp only [limitOf, Function.update_of_ne ht]

theorem enter_length {s s' : Table String} (h : s.enter i = some s') : s'.values.length = s.values.length := by
  obtain ⟨u, -, -, -, hvalues, -⟩ := Table.enter_eq_some h
  rw [hvalues, List.length_set]

theorem leave_length {s s' : Table String} (h : s.leave i = some s') : s'.values.length = s.values.length := by
  obtain ⟨u, -, -, hvalues, -⟩ := Table.leave_eq_some h
  rw [hvalues, List.length_set]

theorem step_submit (p : WorkerPool) (t : String) :
    p.step (.submit t) = some { (p.semaphoreFor t).1 with
      table := (p.semaphoreFor t).1.table.join t (p.semaphoreFor t).2 } := rfl

theorem consistent_step (h : p.Consistent) (hs : p.step e = some p') : p'.Consistent := by
  cases e with
  | submit t =>
    obtain rfl := Option.some.inj ((step_submit p t).symm.trans hs)
    obtain ⟨hfor, hcurrent⟩ := h.semaphoreFor t
    exact hfor.table (hfor.valid.join (hfor.current t _ hcurrent).1) rfl fun o => Table.slots_join _ _ o
  | start i =>
    obtain ⟨s, hmove, rfl⟩ := Option.map_eq_some_iff.1 hs
    exact h.table (h.valid.enter hmove) (enter_length hmove) (Table.slots_enter h.valid hmove)
  | finish i outcome =>
    obtain ⟨s, hmove, rfl⟩ := Option.map_eq_some_iff.1 hs
    exact h.table (h.valid.leave hmove) (leave_length hmove) (Table.slots_leave h.valid hmove)
  | setTenantLimit t limit =>
    cases hs
    exact h.setTenantLimit t limit

/-- What is carried, by the current semaphore and the dropped ones. -/
theorem carried_eq (h : p.Consistent) {o : ℕ} (ho : p.semaphores tid = some o) :
    p.carried tid = min (p.limitOf tid) (p.table.pendingOn tid o) + ∑ o ∈ p.dropped tid, p.table.reach tid o := by
  obtain ⟨hlt, hslots⟩ := h.current tid o ho
  have hone : (range p.table.values.length).filter (fun o' => ¬ p.semaphores tid ≠ some o') = {o} := by
    ext o'
    simp only [ho, mem_filter, mem_range, not_not, Option.some.injEq, mem_singleton]
    exact ⟨fun ho' => ho'.2.symm, fun ho' => ⟨ho' ▸ hlt, ho'.symm⟩⟩
  rw [carried, ← sum_filter_add_sum_filter_not (range p.table.values.length) (fun o => p.semaphores tid ≠ some o),
    hone, sum_singleton, Table.reach, hslots, add_comm]
  rfl

theorem carried_eq_of_none (ho : p.semaphores tid = none) :
    p.carried tid = ∑ o ∈ p.dropped tid, p.table.reach tid o := by
  simp [carried, dropped, ho]

/-- **The jobs of a tenant are below its ceiling.** -/
theorem running_le_ceiling (h : p.Consistent) (tid : String) : p.running tid ≤ p.ceiling tid := by
  refine (Table.holding_le h.valid tid).trans (le_of_eq_of_le (b := p.carried tid) rfl ?_)
  cases hsem : p.semaphores tid with
  | none =>
    rw [carried_eq_of_none hsem]
    exact Nat.le_add_left _ _
  | some o =>
    rw [carried_eq h hsem]
    exact Nat.add_le_add_right (min_le_left _ _) _

/-- A change of the calls. -/
theorem ceiling_table {s : Table String} (hlength : s.values.length = p.table.values.length)
    (hreach : ∀ o ∈ p.dropped tid, s.reach tid o ≤ p.table.reach tid o) :
    ceiling { p with table := s } tid ≤ p.ceiling tid := by
  have hdropped : dropped { p with table := s } tid = p.dropped tid := by
    simp only [dropped, hlength]
  simp only [ceiling, hdropped]
  exact Nat.add_le_add_left (sum_le_sum hreach) _

/-- A new semaphore leaves the ceilings: it is the current one of its tenant, and
    nobody else uses it. -/
theorem ceiling_addSemaphore (h : p.Consistent) (ht : p.semaphores t = none) (tid : String) :
    (p.addSemaphore t).ceiling tid = p.ceiling tid := by
  have hreach : ∀ o ∈ p.dropped tid, (p.addSemaphore t).table.reach tid o = p.table.reach tid o := by
    intro o ho
    rw [Table.reach, addSemaphore, Table.slots_create (mem_range.1 (mem_filter.1 ho).1)]
    rfl
  have hsub : p.dropped tid ⊆ (p.addSemaphore t).dropped tid := by
    intro o ho
    obtain ⟨hlt, hne⟩ := mem_filter.1 ho
    rw [mem_range] at hlt
    refine mem_filter.2 ⟨mem_range.2 (by rw [addSemaphore_length]; omega), ?_⟩
    by_cases htid : tid = t
    · rw [htid, addSemaphore_self]
      intro heq
      exact absurd (Option.some.inj heq) hlt.ne'
    · rw [addSemaphore_other p htid]
      exact hne
  have hzero : ∀ o ∈ (p.addSemaphore t).dropped tid, o ∉ p.dropped tid →
      (p.addSemaphore t).table.reach tid o = 0 := by
    intro o ho hnot
    obtain ⟨hlt, hne⟩ := mem_filter.1 ho
    rw [mem_range, addSemaphore_length] at hlt
    have hnew : o = p.table.values.length := by
      by_contra hold
      refine hnot (mem_filter.2 ⟨mem_range.2 (by omega), ?_⟩)
      by_cases htid : tid = t
      · rw [htid, ht]
        exact (Option.some_ne_none o).symm
      · rw [← addSemaphore_other p htid]
        exact hne
    have hnone : (p.addSemaphore t).table.pendingOn tid p.table.values.length = 0 :=
      Table.pendingOn_new h.valid tid
    rw [hnew, Table.reach, hnone, Nat.min_zero]
  rw [ceiling, ceiling, ← sum_subset hsub hzero, sum_congr rfl hreach]
  rfl

/-- **Getting a semaphore** leaves the ceilings. -/
theorem ceiling_semaphoreFor (h : p.Consistent) (t tid : String) :
    (p.semaphoreFor t).1.ceiling tid = p.ceiling tid := by
  rcases semaphoreFor_cases p t with ⟨o, -, heq⟩ | ⟨ht, heq⟩
  · rw [heq]
  · rw [heq]
    exact ceiling_addSemaphore h ht tid

/-- **Only a change of its limit raises the ceiling of a tenant.** -/
theorem ceiling_step (h : p.Consistent) (hs : p.step e = some p')
    (he : ∀ limit, e = .setTenantLimit tid limit → limit < 1) : p'.ceiling tid ≤ p.ceiling tid := by
  cases e with
  | submit t =>
    obtain rfl := Option.some.inj ((step_submit p t).symm.trans hs)
    obtain ⟨hfor, hcurrent⟩ := h.semaphoreFor t
    rw [← ceiling_semaphoreFor h t tid]
    refine ceiling_table rfl fun o ho => ?_
    have hnew : t ≠ tid ∨ (p.semaphoreFor t).2 ≠ o := by
      by_contra! heq
      obtain ⟨rfl, rfl⟩ := heq
      exact (mem_filter.1 ho).2 hcurrent
    rw [Table.reach, Table.reach, Table.slots_join, Table.pendingOn_join hnew]
  | start i =>
    obtain ⟨s, hmove, rfl⟩ := Option.map_eq_some_iff.1 hs
    refine ceiling_table (enter_length hmove) fun o _ => ?_
    rw [Table.reach, Table.reach, Table.slots_enter h.valid hmove, Table.pendingOn_enter hmove]
  | finish i outcome =>
    obtain ⟨s, hmove, rfl⟩ := Option.map_eq_some_iff.1 hs
    refine ceiling_table (leave_length hmove) fun o _ => ?_
    rw [Table.reach, Table.reach, Table.slots_leave h.valid hmove]
    exact min_le_min_left _ (Table.pendingOn_leave hmove tid o)
  | setTenantLimit t limit =>
    cases hs
    unfold WorkerPool.setTenantLimit
    split_ifs with hlimit
    · exact le_rfl
    · have ht : t ≠ tid := by
        rintro rfl
        exact hlimit (he limit rfl)
      simp only [ceiling, limitOf, dropped, Function.update_of_ne ht.symm]
      exact le_rfl

/-- The ceiling after a change of the limit. -/
theorem ceiling_setTenantLimit (hlimit : ¬ limit < 1) :
    (p.setTenantLimit tid limit).ceiling tid = limit + p.carried tid := by
  rw [WorkerPool.setTenantLimit, if_neg hlimit]
  simp [ceiling, limitOf, dropped, carried]

end

/-! ## Whole runs -/

theorem largest_concat (d : ℕ) (tid : String) (es : List PoolEvent) (e : PoolEvent) :
    largest d tid (es ++ [e]) = match e with
      | .setTenantLimit t limit => if t = tid then max (largest d tid es) limit else largest d tid es
      | _ => largest d tid es := by
  rw [largest, List.foldl_append]
  rfl

/-- A limit that is set leaves room for the jobs that the semaphores made so far
    carry: together they are no more than the largest limit. -/
def LeavesRoom (d : ℕ) (tid : String) (es : List PoolEvent) : Prop :=
  ∀ es₁ limit es₂ p, es = es₁ ++ .setTenantLimit tid limit :: es₂ → 1 ≤ limit →
    exec step { default := d } es₁ = some p → limit + p.carried tid ≤ max (largest d tid es₁) limit

/-- In a run whose changes leave room, the ceiling is no more than the largest limit. -/
theorem ceiling_le_largest {d : ℕ} {tid : String} {es : List PoolEvent} : ∀ {p : WorkerPool},
    exec step { default := d } es = some p → LeavesRoom d tid es →
    p.Consistent ∧ p.ceiling tid ≤ largest d tid es := by
  induction es using List.reverseRecOn with
  | nil =>
    intro p h _
    cases h
    exact ⟨consistent_new d, by simp [ceiling, limitOf, dropped, largest]⟩
  | append_singleton es e ih =>
    intro p h hroom
    rw [exec_append] at h
    obtain ⟨q, hq, hs⟩ := Option.bind_eq_some_iff.1 h
    rw [exec_singleton] at hs
    have hbefore : LeavesRoom d tid es := fun es₁ limit es₂ p' hes =>
      hroom es₁ limit (es₂ ++ [e]) p' (by rw [hes]; simp)
    obtain ⟨hconsistent, hle⟩ := ih hq hbefore
    refine ⟨consistent_step hconsistent hs, ?_⟩
    have hgrows : largest d tid es ≤ largest d tid (es ++ [e]) := by
      rw [largest_concat]
      cases e with
      | setTenantLimit t limit =>
        dsimp only
        split_ifs
        · exact le_max_left _ _
        · exact le_rfl
      | _ => exact le_rfl
    by_cases he : ∃ limit, e = .setTenantLimit tid limit ∧ 1 ≤ limit
    · obtain ⟨limit, rfl, hlimit⟩ := he
      cases hs
      have hlargest : largest d tid (es ++ [.setTenantLimit tid limit]) = max (largest d tid es) limit :=
        (largest_concat d tid es _).trans (if_pos rfl)
      rw [ceiling_setTenantLimit (not_lt.2 hlimit), hlargest]
      exact hroom es limit [] q rfl hlimit hq
    · refine (ceiling_step hconsistent hs fun limit heq => ?_).trans (hle.trans hgrows)
      exact not_le.1 fun hlimit => he ⟨limit, heq, hlimit⟩

/-! ## The ceiling is reached -/

/-- The calls of a semaphore are of one tenant, and those of the current
    semaphore of a tenant are the tenant's. -/
def OneTenant (p : WorkerPool) : Prop :=
  ∃ owner : ℕ → String, p.table.Owned owner ∧ ∀ tid o, p.semaphores tid = some o → owner o = tid

section
variable {p p' : WorkerPool} {tid : String} {e : PoolEvent}

theorem OneTenant.addSemaphore (h : p.OneTenant) (hp : p.Consistent) (t : String) :
    (p.addSemaphore t).OneTenant := by
  obtain ⟨owner, hown, hcurrent⟩ := h
  refine ⟨Function.update owner p.table.values.length t, fun u hu => ?_, fun tid o ho => ?_⟩
  · rw [Function.update_of_ne (hp.valid u hu).ne]
    exact hown u hu
  · by_cases htid : tid = t
    · subst htid
      rw [addSemaphore_self, Option.some.injEq] at ho
      rw [← ho, Function.update_self]
    · rw [addSemaphore_other p htid] at ho
      rw [Function.update_of_ne (hp.current tid o ho).1.ne]
      exact hcurrent tid o ho

theorem OneTenant.step (h : p.OneTenant) (hp : p.Consistent) (hs : p.step e = some p') : p'.OneTenant := by
  cases e with
  | submit t =>
    obtain rfl := Option.some.inj ((step_submit p t).symm.trans hs)
    have hfor : (p.semaphoreFor t).1.OneTenant := by
      rcases semaphoreFor_cases p t with ⟨o, -, heq⟩ | ⟨-, heq⟩
      · rw [heq]
        exact h
      · rw [heq]
        exact h.addSemaphore hp t
    obtain ⟨owner, hown, hcurrent⟩ := hfor
    have hself := hcurrent t _ (hp.semaphoreFor t).2
    refine ⟨owner, ?_, hcurrent⟩
    have := hown.join (p.semaphoreFor t).2
    rwa [hself] at this
  | start i =>
    obtain ⟨s, hmove, rfl⟩ := Option.map_eq_some_iff.1 hs
    obtain ⟨owner, hown, hcurrent⟩ := h
    exact ⟨owner, hown.enter hmove, hcurrent⟩
  | finish i outcome =>
    obtain ⟨s, hmove, rfl⟩ := Option.map_eq_some_iff.1 hs
    obtain ⟨owner, hown, hcurrent⟩ := h
    exact ⟨owner, hown.leave hmove, hcurrent⟩
  | setTenantLimit t limit =>
    cases hs
    obtain ⟨owner, hown, hcurrent⟩ := h
    unfold WorkerPool.setTenantLimit
    split_ifs
    · exact ⟨owner, hown, hcurrent⟩
    · refine ⟨owner, hown, fun tid o ho => ?_⟩
      dsimp only at ho
      by_cases htid : tid = t
      · subst htid
        rw [Function.update_self] at ho
        cases ho
      · rw [Function.update_of_ne htid] at ho
        exact hcurrent tid o ho

theorem oneTenant_new (d : ℕ) : OneTenant { default := d } := by
  refine ⟨fun _ => "", ?_, ?_⟩
  · intro u hu
    cases hu
  · intro tid o ho
    cases ho

/-- The state of a run from a new pool. -/
theorem reached_consistent {d : ℕ} {es : List PoolEvent} (h : exec step { default := d } es = some p) :
    p.Consistent ∧ p.OneTenant := by
  refine (reach_of_exec h).invariant (I := fun p => p.Consistent ∧ p.OneTenant)
    ⟨consistent_new d, oneTenant_new d⟩ ?_
  rintro q e q' ⟨hq, hone⟩ - hs
  exact ⟨consistent_step hq hs, hone.step hq hs⟩

/-- A run without a change of the tenant's limit that brings `p` to `p'`. -/
def Continues (tid : String) (p p' : WorkerPool) : Prop :=
  ∃ es, (∀ limit, .setTenantLimit tid limit ∉ es) ∧ exec step p es = some p'

theorem Continues.refl (tid : String) (p : WorkerPool) : Continues tid p p := ⟨[], by simp, rfl⟩

theorem Continues.head {q : WorkerPool} (hs : p.step e = some q) (he : ∀ limit, e ≠ .setTenantLimit tid limit)
    (h : Continues tid q p') : Continues tid p p' := by
  obtain ⟨es, hes, hexec⟩ := h
  refine ⟨e :: es, fun limit hmem => ?_, by rw [exec_cons, hs]; exact hexec⟩
  rcases List.mem_cons.1 hmem with heq | hmem
  · exact he limit heq.symm
  · exact hes limit hmem

theorem Continues.trans {q : WorkerPool} (h : Continues tid p q) (h' : Continues tid q p') :
    Continues tid p p' := by
  obtain ⟨es, hes, hexec⟩ := h
  obtain ⟨es', hes', hexec'⟩ := h'
  refine ⟨es ++ es', fun limit hmem => ?_, by rw [exec_append, hexec]; exact hexec'⟩
  rcases List.mem_append.1 hmem with hmem | hmem
  · exact hes limit hmem
  · exact hes' limit hmem

/-- The calls that can begin begin. -/
theorem continues_full (hp : p.Consistent) (hone : p.OneTenant) (tid : String) :
    ∃ p', Continues tid p p' ∧ p.carried tid ≤ p'.running tid := by
  induction hn : p.table.users.countP (fun u => u.stage = .waiting) using Nat.strong_induction_on
    generalizing p with
  | _ n ih =>
    by_cases hfull : p.table.Full tid
    · obtain ⟨owner, hown, -⟩ := hone
      exact ⟨p, .refl tid p, Table.sum_reach_le hp.valid hown hfull⟩
    · simp only [Table.Full, not_forall] at hfull
      obtain ⟨u, hu, hkey, hwait, hfree⟩ := hfull
      obtain ⟨i, hi⟩ := List.mem_iff_getElem?.1 hu
      obtain ⟨s, hmove, hcount⟩ := Table.enter_of_waiting hi hwait (Nat.pos_of_ne_zero hfree)
      have hs : p.step (.start i) = some { p with table := s } := by
        rw [step, hmove]
        rfl
      obtain ⟨p', hcont, hle⟩ := ih _ (by rw [← hn, ← hcount]; exact Nat.lt_succ_self _)
        (consistent_step hp hs) (hone.step hp hs) rfl
      refine ⟨p', hcont.head hs (by simp), le_trans (le_of_eq ?_) hle⟩
      unfold carried
      rw [enter_length hmove]
      refine sum_congr rfl fun o _ => ?_
      rw [Table.reach, Table.reach, Table.slots_enter hp.valid hmove, Table.pendingOn_enter hmove]

/-- One more call of the tenant. -/
theorem submit_queued (hp : p.Consistent) (tid : String) :
    ∃ p' o, p.step (.submit tid) = some p' ∧ p'.semaphores tid = some o ∧ p'.limits = p.limits ∧
      p'.default = p.default ∧ p'.ceiling tid = p.ceiling tid ∧
      ∀ o', p.semaphores tid = some o' → o = o' ∧ p'.table.pendingOn tid o = p.table.pendingOn tid o + 1 := by
  obtain ⟨hfor, hcurrent⟩ := hp.semaphoreFor tid
  have hkeeps : (p.semaphoreFor tid).1.limits = p.limits ∧ (p.semaphoreFor tid).1.default = p.default := by
    rcases semaphoreFor_cases p tid with ⟨o, -, heq⟩ | ⟨-, heq⟩
    · rw [heq]
      exact ⟨rfl, rfl⟩
    · rw [heq]
      exact ⟨rfl, rfl⟩
  refine ⟨_, _, step_submit p tid, hcurrent, hkeeps.1, hkeeps.2, ?_, ?_⟩
  · rw [← ceiling_semaphoreFor hp tid tid]
    unfold ceiling limitOf dropped
    refine congrArg _ (sum_congr rfl fun o ho => ?_)
    have hne : (p.semaphoreFor tid).2 ≠ o := by
      rintro rfl
      exact (mem_filter.1 ho).2 hcurrent
    rw [Table.reach, Table.reach, Table.slots_join, Table.pendingOn_join (Or.inr hne)]
  · intro o' ho'
    rcases semaphoreFor_cases p tid with ⟨o, ho, heq⟩ | ⟨hnone, -⟩
    · rw [heq]
      exact ⟨Option.some.inj (ho.symm.trans ho'), Table.pendingOn_join_self tid o⟩
    · rw [hnone] at ho'
      cases ho'

/-- As many calls of the tenant as one likes get the current semaphore. -/
theorem continues_queued (hp : p.Consistent) (hone : p.OneTenant) (tid : String) (k : ℕ) :
    ∃ p' o, Continues tid p p' ∧ p'.Consistent ∧ p'.OneTenant ∧ p'.limitOf tid = p.limitOf tid ∧
      p'.ceiling tid = p.ceiling tid ∧ p'.semaphores tid = some o ∧ k ≤ p'.table.pendingOn tid o := by
  induction k generalizing p with
  | zero =>
    obtain ⟨p', o, hs, ho, hlimits, hdefault, hceiling, -⟩ := submit_queued hp tid
    refine ⟨p', o, (Continues.refl tid p').head hs (by simp), consistent_step hp hs, hone.step hp hs, ?_,
      hceiling, ho, Nat.zero_le _⟩
    rw [limitOf, limitOf, hlimits, hdefault]
  | succ k ih =>
    obtain ⟨q, o, hcont, hq, hqone, hlimit, hceiling, ho, hk⟩ := ih hp hone
    obtain ⟨p', o', hs, ho', hlimits, hdefault, hceiling', hpending⟩ := submit_queued hq tid
    obtain ⟨rfl, hpending⟩ := hpending o ho
    refine ⟨p', o', hcont.trans ((Continues.refl tid p').head hs (by simp)), consistent_step hq hs, hqone.step hq hs, ?_,
      hceiling'.trans hceiling, ho', by omega⟩
    rw [← hlimit, limitOf, limitOf, hlimits, hdefault]

/-- **The ceiling is reached**: enough calls, and every call that can begin. -/
theorem continues_ceiling (hp : p.Consistent) (hone : p.OneTenant) (tid : String) :
    ∃ p', Continues tid p p' ∧ p.ceiling tid ≤ p'.running tid := by
  obtain ⟨q, o, hcont, hq, hqone, hlimit, hceiling, ho, hk⟩ := continues_queued hp hone tid (p.limitOf tid)
  obtain ⟨p', hcont', hle⟩ := continues_full hq hqone tid
  refine ⟨p', hcont.trans hcont', le_of_eq_of_le ?_ hle⟩
  rw [carried_eq hq ho, hlimit, min_eq_left hk, ← hceiling, ceiling, hlimit]

end

/-- A change of the tenant's limit in a run without any. -/
theorem continues_invariant {p p' : WorkerPool} {tid : String} (hp : p.Consistent) (h : Continues tid p p') :
    p'.Consistent ∧ p'.ceiling tid ≤ p.ceiling tid := by
  obtain ⟨es, hes, hexec⟩ := h
  induction es generalizing p with
  | nil =>
    cases hexec
    exact ⟨hp, le_rfl⟩
  | cons e es ih =>
    rw [exec_cons] at hexec
    obtain ⟨q, hs, hexec⟩ := Option.bind_eq_some_iff.1 hexec
    obtain ⟨hp', hle⟩ := ih (consistent_step hp hs) (fun limit hmem => hes limit (List.mem_cons_of_mem _ hmem)) hexec
    refine ⟨hp', hle.trans (ceiling_step hp hs ?_)⟩
    rintro limit rfl
    exact absurd List.mem_cons_self (hes limit)

/-- **The jobs of a tenant that run together** are no more than the largest
    limit that has been in force for it, in every run whose changes of the
    limit leave room.  From any state of a run, the bound is kept until the
    next change exactly if the ceiling is no more than the largest limit. -/
theorem concurrency_bounded {d : ℕ} {tid : String} {es : List PoolEvent} {p : WorkerPool}
    (h : exec step { default := d } es = some p) :
    (LeavesRoom d tid es → p.running tid ≤ largest d tid es) ∧
      ((∀ p', Continues tid p p' → p'.running tid ≤ largest d tid es) ↔
        p.ceiling tid ≤ largest d tid es) := by
  obtain ⟨hconsistent, hone⟩ := reached_consistent h
  refine ⟨fun hroom => ?_, fun hall => ?_, fun hle p' hcont => ?_⟩
  · exact (running_le_ceiling hconsistent tid).trans (ceiling_le_largest h hroom).2
  · obtain ⟨p', hcont, hreached⟩ := continues_ceiling hconsistent hone tid
    exact hreached.trans (hall p' hcont)
  · obtain ⟨hp', hceiling⟩ := continues_invariant hconsistent hcont
    exact (running_le_ceiling hp' tid).trans (hceiling.trans hle)

/-- A job of the tenant runs when its limit is lowered to 1, and another one begins:
    there was room for it. -/
def lowered : List PoolEvent :=
  [.setTenantLimit "t" 2, .submit "t", .start 0, .setTenantLimit "t" 1, .submit "t", .start 1]

theorem lowered_leavesRoom : LeavesRoom 1 "t" lowered := by
  intro es₁ limit es₂ p hes _ hp
  have htake : es₁ = lowered.take es₁.length := by rw [hes, List.take_left]
  have hget : lowered[es₁.length]? = some (.setTenantLimit "t" limit) := by rw [hes]; simp
  have hlt : es₁.length < 6 := (List.getElem?_eq_some_iff.1 hget).1
  generalize es₁.length = n at htake hget hlt
  subst htake
  interval_cases n <;> cases hget <;> cases hp <;> decide +kernel

/-- With room two jobs run within the largest limit.  A tenant with one job running
    whose limit is set to 1 again has no room for the job that goes on with the
    semaphore that is dropped. -/
theorem concurrency_bounded_sample :
    (∃ p, exec step { default := 1 } lowered = some p ∧ p.running "t" = 2 ∧
      p.running "t" ≤ largest 1 "t" lowered) ∧
    ∃ p, exec step { default := 1 } [.submit "t", .start 0, .setTenantLimit "t" 1] = some p ∧
      ¬ ∀ p', Continues "t" p p' → p'.running "t" ≤ 1 := by
  constructor
  · exact ⟨_, rfl, by decide +kernel,
      (@concurrency_bounded 1 "t" lowered _ rfl).1 lowered_leavesRoom⟩
  · refine ⟨_, rfl, fun hall => ?_⟩
    exact absurd ((@concurrency_bounded 1 "t" [.submit "t", .start 0, .setTenantLimit "t" 1] _ rfl).2.1
      hall) (by decide +kernel)

/-- The next call of the tenant gets a new semaphore, and two jobs run together. -/
theorem two_jobs_at_once :
    (exec step { default := 1 } [.submit "t", .start 0, .setTenantLimit "t" 1, .submit "t", .start 1]).map
        (fun p => p.running "t") = some 2 ∧
      largest 1 "t" [.submit "t", .start 0, .setTenantLimit "t" 1, .submit "t", .start 1] = 1 := by
  decide +kernel

end WorkerPool

end OcrService
