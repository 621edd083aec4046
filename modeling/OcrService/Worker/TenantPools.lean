/-
  The pool of one tenant among those of the others (`app/worker/pool.py`): "one
  noisy tenant cannot starve others of pipeline slots".

  The calls, jobs and limits of the other tenants are taken out of a run of the
  pool (`ownEvents`).  What is left is a run of a pool that has this tenant only,
  and it leaves the tenant with the same calls, at the same stage, under the same
  limit, so that the tenant's next call or job can go on in the one exactly if it
  can in the other (`tenants_independent`).
-/
import OcrService.Worker.WorkerPool

namespace OcrService

open Trans Semaphore

namespace WorkerPool

/-- What a tenant does in a step of the pool: its calls, numbered among its own. -/
def ownEvents (tid : String) (p : WorkerPool) : PoolEvent → List PoolEvent
  | .submit t => if t = tid then [.submit t] else []
  | .start i =>
    if (p.table.users[i]?).map User.key = some tid then [.start (p.table.rank tid i)] else []
  | .finish i outcome =>
    if (p.table.users[i]?).map User.key = some tid then [.finish (p.table.rank tid i) outcome] else []
  | .setTenantLimit t limit => if t = tid then [.setTenantLimit t limit] else []

/-- The stages of a tenant's calls, in the order of the calls. -/
def stages (tid : String) (p : WorkerPool) : List Stage :=
  (p.table.users.filter fun u => u.key = tid).map User.stage

/-- What `p` is to a tenant is what `p'`, in which there are no others, is to it; the
    semaphore `o` of `p'` is the semaphore `f o` of `p`. -/
structure Share (tid : String) (f : ℕ → ℕ) (p p' : WorkerPool) : Prop where
  default : p.default = p'.default
  limits : p.limits tid = p'.limits tid
  table : p.table.Shares tid f p'.table
  semaphores : p.semaphores tid = (p'.semaphores tid).map f
  current : ∀ o, p'.semaphores tid = some o → o < p'.table.values.length
  others : ∀ t o, t ≠ tid → p.semaphores t = some o → ∀ o' < p'.table.values.length, f o' ≠ o

section
variable {p p' q : WorkerPool} {tid t : String} {limit i : ℕ} {e e' : PoolEvent} {f : ℕ → ℕ}

theorem share_new (d : ℕ) (tid : String) : Share tid id { default := d } { default := d } where
  default := rfl
  limits := rfl
  table := .empty tid id
  semaphores := rfl
  current := by
    intro o ho
    cases ho
  others := by
    intro t o _ ho
    cases ho

theorem Share.limitOf (h : Share tid f p p') : p.limitOf tid = p'.limitOf tid := by
  unfold WorkerPool.limitOf
  rw [h.limits, h.default]

/-- A new semaphore of the tenant. -/
theorem Share.addSemaphore (h : Share tid f p p') (hp : p.Consistent) :
    Share tid (Function.update f p'.table.values.length p.table.values.length) (p.addSemaphore tid)
      (p'.addSemaphore tid) := by
  have hlength : (p'.addSemaphore tid).table.values.length = p'.table.values.length + 1 :=
    addSemaphore_length p' tid
  refine ⟨h.default, h.limits, ?_, ?_, fun o ho => ?_, fun t o ht ho o' ho' => ?_⟩
  · unfold WorkerPool.addSemaphore
    rw [h.limitOf]
    exact h.table.create_own hp.valid _
  · rw [addSemaphore_self, addSemaphore_self, Option.map_some, Function.update_self]
  · rw [addSemaphore_self, Option.some.injEq] at ho
    rw [hlength, ← ho]
    exact Nat.lt_succ_self _
  · rw [addSemaphore_other p ht] at ho
    rw [hlength] at ho'
    by_cases hlast : o' = p'.table.values.length
    · rw [hlast, Function.update_self]
      exact (hp.current t o ho).1.ne'
    · rw [Function.update_of_ne hlast]
      exact h.others t o ht ho o' (by omega)

/-- A new semaphore of another tenant. -/
theorem Share.addSemaphore_other (h : Share tid f p p') (ht : t ≠ tid) :
    Share tid f (p.addSemaphore t) p' := by
  refine ⟨h.default, h.limits, h.table.create_other _, ?_, h.current, fun t' o ht' ho o' ho' => ?_⟩
  · rw [WorkerPool.addSemaphore_other p ht.symm]
    exact h.semaphores
  · by_cases heq : t' = t
    · subst heq
      rw [addSemaphore_self, Option.some.injEq] at ho
      rw [← ho]
      exact (h.table.lt o' ho').ne
    · rw [WorkerPool.addSemaphore_other p heq] at ho
      exact h.others t' o ht' ho o' ho'

/-- What `_semaphore_for` gives the tenant. -/
theorem Share.semaphoreFor (h : Share tid f p p') (hp : p.Consistent) :
    ∃ g, Share tid g (p.semaphoreFor tid).1 (p'.semaphoreFor tid).1 ∧
      (p.semaphoreFor tid).2 = g (p'.semaphoreFor tid).2 ∧
      (p'.semaphoreFor tid).2 < (p'.semaphoreFor tid).1.table.values.length := by
  cases hsem : p'.semaphores tid with
  | some o =>
    have hsem' : p.semaphores tid = some (f o) := by rw [h.semaphores, hsem, Option.map_some]
    have heq : p.semaphoreFor tid = (p, f o) := by rw [WorkerPool.semaphoreFor, hsem']
    have heq' : p'.semaphoreFor tid = (p', o) := by rw [WorkerPool.semaphoreFor, hsem]
    rw [heq, heq']
    exact ⟨f, h, rfl, h.current o hsem⟩
  | none =>
    have hsem' : p.semaphores tid = none := by rw [h.semaphores, hsem, Option.map_none]
    have heq : p.semaphoreFor tid = (p.addSemaphore tid, p.table.values.length) := by
      rw [WorkerPool.semaphoreFor, hsem']
    have heq' : p'.semaphoreFor tid = (p'.addSemaphore tid, p'.table.values.length) := by
      rw [WorkerPool.semaphoreFor, hsem]
    rw [heq, heq']
    refine ⟨_, h.addSemaphore hp, ?_, ?_⟩
    · exact (Function.update_self p'.table.values.length p.table.values.length f).symm
    · rw [addSemaphore_length]
      exact Nat.lt_succ_self _

/-- A call of the tenant. -/
theorem Share.submit (h : Share tid f p p') (hp : p.Consistent) (hs : p.step (.submit tid) = some q) :
    ∃ g q', p'.step (.submit tid) = some q' ∧ Share tid g q q' := by
  obtain ⟨g, hshare, hsem, hlt⟩ := h.semaphoreFor hp
  obtain rfl := Option.some.inj ((step_submit p tid).symm.trans hs)
  refine ⟨g, _, step_submit p' tid, hshare.default, hshare.limits, ?_, hshare.semaphores, hshare.current,
    hshare.others⟩
  rw [hsem]
  exact hshare.table.join_own hlt

/-- A call of another tenant. -/
theorem Share.submit_other (h : Share tid f p p') (hp : p.Consistent) (ht : t ≠ tid)
    (hs : p.step (.submit t) = some q) : Share tid f q p' := by
  obtain rfl := Option.some.inj ((step_submit p t).symm.trans hs)
  have hshare : Share tid f (p.semaphoreFor t).1 p' := by
    rcases semaphoreFor_cases p t with ⟨o, -, heq⟩ | ⟨-, heq⟩
    · rw [heq]
      exact h
    · rw [heq]
      exact h.addSemaphore_other ht
  exact { hshare with
    table := hshare.table.join_other ht (hshare.others t _ ht (hp.semaphoreFor t).2) }

/-- A job of the tenant begins or ends. -/
theorem Share.moved {s s' : Table String} (h : Share tid f p p') (hshares : s.Shares tid f s')
    (hlength : s'.values.length = p'.table.values.length) :
    Share tid f { p with table := s } { p' with table := s' } where
  default := h.default
  limits := h.limits
  table := hshares
  semaphores := h.semaphores
  current o ho := hlength.symm ▸ h.current o ho
  others t o ht ho o' ho' := h.others t o ht ho o' (hlength ▸ ho')

/-- A limit of the tenant. -/
theorem Share.setTenantLimit (h : Share tid f p p') (limit : ℕ) :
    Share tid f (p.setTenantLimit tid limit) (p'.setTenantLimit tid limit) := by
  unfold WorkerPool.setTenantLimit
  split_ifs
  · exact h
  · refine ⟨h.default, ?_, h.table, ?_, fun o ho => ?_, fun t o ht ho => ?_⟩
    · simp only [Function.update_self]
    · simp only [Function.update_self, Option.map_none]
    · simp only [Function.update_self, reduceCtorEq] at ho
    · simp only [Function.update_of_ne ht] at ho
      exact h.others t o ht ho

/-- A limit of another tenant. -/
theorem Share.setTenantLimit_other (h : Share tid f p p') (ht : t ≠ tid) (limit : ℕ) :
    Share tid f (p.setTenantLimit t limit) p' := by
  unfold WorkerPool.setTenantLimit
  split_ifs
  · exact h
  · refine ⟨h.default, ?_, h.table, ?_, h.current, fun t' o ht' ho => ?_⟩
    · simp only [Function.update_of_ne ht.symm]
      exact h.limits
    · simp only [Function.update_of_ne ht.symm]
      exact h.semaphores
    · by_cases heq : t' = t
      · simp only [heq, Function.update_self, reduceCtorEq] at ho
      · simp only [Function.update_of_ne heq] at ho
        exact h.others t' o ht' ho

/-- **One step of the pool** is what the tenant does of it in a pool of its own. -/
theorem Share.step (h : Share tid f p p') (hp : p.Consistent) (hs : p.step e = some q) :
    ∃ g q', exec WorkerPool.step p' (ownEvents tid p e) = some q' ∧ Share tid g q q' := by
  cases e with
  | submit t =>
    by_cases ht : t = tid
    · subst ht
      rw [ownEvents, if_pos rfl, exec_singleton]
      exact h.submit hp hs
    · rw [ownEvents, if_neg ht]
      exact ⟨f, p', rfl, h.submit_other hp ht hs⟩
  | start i =>
    obtain ⟨s, hmove, rfl⟩ := Option.map_eq_some_iff.1 hs
    obtain ⟨u, hu, -⟩ := Table.enter_eq_some hmove
    simp only [ownEvents, hu, Option.map_some, Option.some.injEq]
    by_cases hk : u.key = tid
    · rw [if_pos hk, exec_singleton]
      rcases h.table.enter_own hu hk with ⟨hnone, -⟩ | ⟨t, t', ht, ht', hshares⟩
      · rw [hnone] at hmove
        cases hmove
      · obtain rfl := Option.some.inj (ht.symm.trans hmove)
        exact ⟨f, _, by rw [WorkerPool.step, ht', Option.map_some], h.moved hshares (enter_length ht')⟩
    · rw [if_neg hk]
      exact ⟨f, p', rfl, { h with table := h.table.enter_other hp.valid hu hk hmove }⟩
  | finish i outcome =>
    obtain ⟨s, hmove, rfl⟩ := Option.map_eq_some_iff.1 hs
    obtain ⟨u, hu, -⟩ := Table.leave_eq_some hmove
    simp only [ownEvents, hu, Option.map_some, Option.some.injEq]
    by_cases hk : u.key = tid
    · rw [if_pos hk, exec_singleton]
      rcases h.table.leave_own hu hk with ⟨hnone, -⟩ | ⟨t, t', ht, ht', hshares⟩
      · rw [hnone] at hmove
        cases hmove
      · obtain rfl := Option.some.inj (ht.symm.trans hmove)
        exact ⟨f, _, by rw [WorkerPool.step, ht', Option.map_some], h.moved hshares (leave_length ht')⟩
    · rw [if_neg hk]
      exact ⟨f, p', rfl, { h with table := h.table.leave_other hp.valid hu hk hmove }⟩
  | setTenantLimit t limit =>
    obtain rfl := Option.some.inj hs
    by_cases ht : t = tid
    · subst ht
      rw [ownEvents, if_pos rfl, exec_singleton]
      exact ⟨f, _, rfl, h.setTenantLimit limit⟩
    · rw [ownEvents, if_neg ht]
      exact ⟨f, p', rfl, h.setTenantLimit_other ht limit⟩

/-- What the tenant can do next in the one it can do in the other. -/
theorem Share.enabled (h : Share tid f p p') (he : ownEvents tid p e = [e']) :
    (p.step e).isSome = (p'.step e').isSome := by
  cases e with
  | submit t =>
    rw [ownEvents] at he
    split_ifs at he with ht
    obtain rfl := List.singleton_injective he
    rfl
  | start i =>
    rw [ownEvents] at he
    split_ifs at he with hk
    obtain rfl := List.singleton_injective he
    obtain ⟨u, hu, hk⟩ := Option.map_eq_some_iff.1 hk
    rcases h.table.enter_own hu hk with ⟨hnone, hnone'⟩ | ⟨t, t', ht, ht', -⟩
    · rw [WorkerPool.step, WorkerPool.step, hnone, hnone']
      rfl
    · rw [WorkerPool.step, WorkerPool.step, ht, ht']
      rfl
  | finish i outcome =>
    rw [ownEvents] at he
    split_ifs at he with hk
    obtain rfl := List.singleton_injective he
    obtain ⟨u, hu, hk⟩ := Option.map_eq_some_iff.1 hk
    rcases h.table.leave_own hu hk with ⟨hnone, hnone'⟩ | ⟨t, t', ht, ht', -⟩
    · rw [WorkerPool.step, WorkerPool.step, hnone, hnone']
      rfl
    · rw [WorkerPool.step, WorkerPool.step, ht, ht']
      rfl
  | setTenantLimit t limit =>
    rw [ownEvents] at he
    split_ifs at he with ht
    obtain rfl := List.singleton_injective he
    rfl

end

/-- **The tenants are independent.**  Whatever the other tenants submit, run and
    set, the tenant's own events are a run of a pool by themselves; it has the same
    calls at the same stages, the same jobs running and the same limit, and its
    next event is possible in the one exactly if it is in the other. -/
theorem tenants_independent {d : ℕ} {es : List PoolEvent} {p : WorkerPool}
    (h : exec step { default := d } es = some p) (tid : String) :
    ∃ p', exec step { default := d } (gather step (ownEvents tid) { default := d } es) = some p' ∧
      p.stages tid = p'.table.users.map User.stage ∧ (∀ u ∈ p'.table.users, u.key = tid) ∧
      p.running tid = p'.running tid ∧ p.limitOf tid = p'.limitOf tid ∧
      ∀ e e', ownEvents tid p e = [e'] → (p.step e).isSome = (p'.step e').isSome := by
  obtain ⟨p', hexec, f, hshare, -⟩ := exec_gather
    (R := fun p p' => ∃ f, Share tid f p p' ∧ p.Consistent)
    (fun p e q p' hR hs => by
      obtain ⟨f, hshare, hp⟩ := hR
      obtain ⟨g, q', hexec, hshare'⟩ := hshare.step hp hs
      exact ⟨q', hexec, g, hshare', consistent_step hp hs⟩)
    h ⟨id, share_new d tid, consistent_new d⟩
  exact ⟨p', hexec, hshare.table.stages, hshare.table.key, hshare.table.holding, hshare.limitOf,
    fun e e' he => hshare.enabled he⟩

/-- A tenant whose calls wait for its one slot, and another tenant. -/
theorem tenants_independent_two : ∃ p p',
    exec step { default := 1 } [.submit "a", .submit "a", .start 0, .submit "b", .start 2] = some p ∧
      exec step { default := 1 } [.submit "b", .start 0] = some p' ∧ p.running "b" = p'.running "b" := by
  obtain ⟨p', hexec, -, -, hrunning, -⟩ := @tenants_independent 1
    [.submit "a", .submit "a", .start 0, .submit "b", .start 2] _ rfl "b"
  exact ⟨_, p', rfl, hexec, hrunning⟩

end WorkerPool

end OcrService
