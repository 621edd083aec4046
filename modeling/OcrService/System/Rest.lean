/-
  The service comes to rest.

  Every step of a run, a delivery, an erasure or a request brings it nearer to its
  end, and the runs and deliveries that it starts are counted with it.  So no task
  goes on for ever: if none is starved, all of them end, those started on the way
  too.  A run that waits for its slot of the worker pool has not taken its first
  step: that it gets one in the end is part of what the schedule is asked for.

  * `Task.weight`: how many steps a task, and what it starts, can still take;
  * `settling`: each step takes at least one;
  * `comes_to_rest`: every fair schedule.
-/
import OcrService.System
import OcrService.Lib.Fair

namespace OcrService

open Trans PyData

/-! ## How many steps are left -/

/-- The nodes from `n` on. -/
def NodeName.left : NodeName → ℕ
  | parse => 6
  | guardrail => 5
  | extract => 4
  | score => 3
  | route => 2
  | deliver | review | dlq => 1

/-- Of a delivery with `n` attempts. -/
def WebhookPc.weight (n : ℕ) : WebhookPc → ℕ
  | .document => n + 5
  | .tenant _ => n + 4
  | .extraction _ _ _ => n + 3
  | .post _ attempt _ _ => n + 1 - attempt + 2
  | .commit _ => 1
  | .done _ => 0

def WebhookTask.weight (t : WebhookTask) : ℕ := t.pc.weight t.env.schedule.length

/-- Of a run whose delivery takes `n` steps. -/
def RunPc.weight (n : ℕ) : RunPc → ℕ
  | .loadDocument => n + 22
  | .loadSchema _ => n + 21
  | .openSaver _ => n + 20
  | .saveInput _ => n + 19
  | .node m _ _ => n + 2 * m.left + 6
  | .save m _ _ => n + 2 * m.left + 5
  | .closeSaver _ _ => n + 6
  | .persist _ => n + 5
  | .guard _ _ => n + 4
  | .commit _ _ => n + 3
  | .persisted _ => n + 2
  | .release _ => 1
  | .done _ => 0

/-- The delivery that a run may start. -/
def RunEnv.delivery (env : RunEnv) : ℕ := WebhookPc.document.weight env.webhook.schedule.length

def RunTask.weight (r : RunTask) : ℕ := r.pc.weight r.env.delivery

def ErasePc.weight : ErasePc → ℕ
  | .register => 8
  | .read => 7
  | .commitCancelled _ => 6
  | .deleteBlob _ => 5
  | .deletePoints => 4
  | .purge => 3
  | .delete => 2
  | .clear => 1
  | .done _ => 0

def ReviewPc.weight : ReviewPc → ℕ
  | .readReview => 6
  | .readExtraction _ _ => 5
  | .readExampleDocument _ _ => 4
  | .upsert _ _ _ => 3
  | .readDocument _ => 2
  | .commit _ => 1
  | .done _ => 0

/-- Of a request whose run takes `n` steps. -/
def ExtractPc.weight (n : ℕ) : ExtractPc → ℕ
  | .readTenant => n + 6
  | .acquire _ => n + 5
  | .create => n + 4
  | .saveBlob _ => n + 3
  | .commit _ => n + 2
  | .enqueue => n + 1
  | .release _ => 1
  | .done _ => 0

def RetryPc.weight (n : ℕ) : RetryPc → ℕ
  | .readEntry => n + 4
  | .readDocument _ => n + 3
  | .enqueue _ _ => n + 2
  | .commit _ _ => 1
  | .done _ => 0

def SchemaPc.weight : SchemaPc → ℕ
  | .read => 3
  | .upsert _ _ => 2
  | .commit _ => 1
  | .done _ => 0

/-- A run that has not taken a step. -/
def RunEnv.weight (env : RunEnv) : ℕ := RunPc.loadDocument.weight env.delivery

def ExtractRequest.weight (x : ExtractRequest) : ℕ := x.pc.weight x.run.weight

def RetryRequest.weight (y : RetryRequest) : ℕ := y.pc.weight y.run.weight

/-- The steps that a task, and what it starts, can still take. -/
def Task.weight : Task → ℕ
  | .run r => r.weight
  | .webhook t => t.weight
  | .erase e => e.pc.weight
  | .review q => q.pc.weight
  | .extract x => x.weight
  | .retry y => y.weight
  | .schema c => c.pc.weight

/-- The task has returned or raised. -/
def Task.Done (x : Task) : Prop := x.weight = 0

/-! ## One step -/

section
variable {S : Site} {w : World}

/-- The nodes that follow are fewer. -/
theorem NodeName.left_next {n m : NodeName} {s : ExtractionState} (h : n.next s = some m) :
    m.left < n.left := by
  cases n with
  | route =>
    cases h
    cases Nodes.routeDecision s <;> decide
  | _ => cases h <;> decide

theorem WebhookTask.attempted_weight {t : WebhookTask} {n attempt : ℕ} {request : WebhookRequest}
    {last status : Option ℕ} {error : Option String} {rows : List Write} (h : attempt ≤ n) :
    (t.attempted S request attempt status error rows).weight n <
      (WebhookPc.post request attempt last rows).weight n := by
  unfold WebhookTask.attempted
  split_ifs <;> simp only [WebhookPc.weight] <;> omega

theorem WebhookTask.move_weight {t : WebhookTask} (h : t.weight ≠ 0) :
    (t.move S w).task.weight < t.weight := by
  unfold WebhookTask.weight at h ⊢
  cases hpc : t.pc <;> rw [hpc] at h <;> simp only [WebhookTask.move, hpc]
  case post request attempt last rows =>
    split_ifs with hlen
    · exact Nat.lt_of_lt_of_le (by decide : 1 < 2) (Nat.le_add_left _ _)
    · cases t.env.post attempt with
      | otherException => exact Nat.succ_pos _
      | status code =>
        show (t.attempted S request attempt (some code) none rows).weight _ < _
        exact attempted_weight (not_lt.1 hlen)
      | error text =>
        show (t.attempted S request attempt none (some text) rows).weight _ < _
        exact attempted_weight (not_lt.1 hlen)
  case done => exact absurd rfl h
  all_goals
    repeat' split
    all_goals simp [WebhookPc.weight]

theorem RunTask.afterNode_weight {k : ℕ} {n : NodeName} {s : ExtractionState} {unsaved : Bool} :
    (RunPc.afterNode n s unsaved).weight k < k + 2 * n.left + 5 := by
  unfold RunPc.afterNode
  cases hnext : n.next s with
  | none => simp only [RunPc.weight]; cases n <;> simp [NodeName.left]
  | some m =>
    have := NodeName.left_next hnext
    simp only [RunPc.weight]
    omega

/-- A run, with the delivery that it starts at its end. -/
theorem RunTask.move_weight {r : RunTask} (h : r.weight ≠ 0) :
    (r.move S w).task.weight + ((r.move S w).spawned.map WebhookTask.weight).sum < r.weight := by
  have hfail {k : ℕ} (hk : 1 < k) :
      r.fail.task.weight + (r.fail.spawned.map WebhookTask.weight).sum < k := hk
  unfold RunTask.weight at h ⊢
  cases hpc : r.pc <;> rw [hpc] at h <;> simp only [RunTask.move, hpc]
  case save n s unsaved => exact afterNode_weight
  case guard s document =>
    unfold RunTask.persistOutcome
    repeat' split
    all_goals first
      | exact hfail (by simp only [RunPc.weight]; omega)
      | simp [RunPc.weight, RunTask.goto]
  case persisted s =>
    unfold RunTask.scheduledWebhooks
    split_ifs
    · simp only [RunPc.weight, RunTask.goto, List.map_cons, List.map_nil, List.sum_cons, List.sum_nil]
      show 1 + (r.env.delivery + 0) < r.env.delivery + 2
      omega
    · simp [RunPc.weight, RunTask.goto]
  case done => exact absurd rfl h
  all_goals
    repeat' split
    all_goals first
      | exact hfail (by simp only [RunPc.weight]; omega)
      | simp [RunPc.weight, RunTask.goto, NodeName.left]

theorem EraseTask.move_weight {e : EraseTask} (h : e.pc.weight ≠ 0) :
    (e.move S w).task.pc.weight < e.pc.weight := by
  cases hpc : e.pc <;> rw [hpc] at h <;> simp only [EraseTask.move, hpc]
  case done => exact absurd rfl h
  all_goals
    repeat' split
    all_goals simp [ErasePc.weight, EraseTask.goto]

theorem ReviewRequest.begin_weight {q : ReviewRequest} {review : ReviewTask} :
    (q.begin review).weight < 6 := by
  unfold ReviewRequest.begin
  repeat' split
  all_goals simp [ReviewPc.weight]

theorem ReviewRequest.move_weight {q : ReviewRequest} (h : q.pc.weight ≠ 0) :
    (q.move S w).task.pc.weight < q.pc.weight := by
  cases hpc : q.pc <;> rw [hpc] at h <;> simp only [ReviewRequest.move, hpc]
  case readReview =>
    repeat' split
    all_goals first
      | exact begin_weight
      | simp [ReviewPc.weight, ReviewRequest.goto]
  case done => exact absurd rfl h
  all_goals
    repeat' split
    all_goals simp [ReviewPc.weight, ReviewRequest.goto]

/-- A request, with the run that it starts. -/
theorem ExtractRequest.move_weight {x : ExtractRequest} (h : x.weight ≠ 0) :
    (x.move S w).task.weight + ((x.move S w).spawned.map RunTask.weight).sum < x.weight := by
  unfold ExtractRequest.weight at h ⊢
  cases hpc : x.pc <;> rw [hpc] at h <;> simp only [ExtractRequest.move, hpc]
  case enqueue =>
    simp only [ExtractPc.weight, ExtractRequest.goto, List.map_cons, List.map_nil, List.sum_cons,
      List.sum_nil]
    show 0 + (x.run.weight + 0) < x.run.weight + 1
    omega
  case done => exact absurd rfl h
  all_goals
    repeat' split
    all_goals simp [ExtractPc.weight, ExtractRequest.goto]

theorem RetryRequest.move_weight {y : RetryRequest} (h : y.weight ≠ 0) :
    (y.move w).task.weight + ((y.move w).spawned.map RunTask.weight).sum < y.weight := by
  unfold RetryRequest.weight at h ⊢
  cases hpc : y.pc <;> rw [hpc] at h <;> simp only [RetryRequest.move, hpc]
  case enqueue =>
    simp only [RetryPc.weight, RetryRequest.goto, List.map_cons, List.map_nil, List.sum_cons,
      List.sum_nil]
    show 1 + (y.run.weight + 0) < y.run.weight + 2
    omega
  case done => exact absurd rfl h
  all_goals
    repeat' split
    all_goals simp [RetryPc.weight, RetryRequest.goto]

theorem SchemaRequest.begin_weight {c : SchemaRequest} {schema : Schema} :
    (c.begin schema).weight < 3 := by
  unfold SchemaRequest.begin
  repeat' split
  all_goals simp [SchemaPc.weight]

theorem SchemaRequest.move_weight {c : SchemaRequest} (h : c.pc.weight ≠ 0) :
    (c.move w).task.pc.weight < c.pc.weight := by
  cases hpc : c.pc <;> rw [hpc] at h <;> simp only [SchemaRequest.move, hpc]
  case read =>
    repeat' split
    all_goals first
      | exact begin_weight
      | simp [SchemaPc.weight, SchemaRequest.goto]
  case done => exact absurd rfl h
  all_goals
    repeat' split
    all_goals simp [SchemaPc.weight, SchemaRequest.goto]

/-- **Every step takes weight** from a task that is not done. -/
theorem Task.move_weight {x : Task} (h : ¬ x.Done) :
    (x.move S w).task.weight + ((x.move S w).spawned.map Task.weight).sum < x.weight := by
  cases x with
  | run r =>
    show (r.move S w).task.weight + (((r.move S w).spawned.map Task.webhook).map Task.weight).sum < r.weight
    rw [List.map_map]
    exact RunTask.move_weight h
  | webhook t => exact WebhookTask.move_weight h
  | erase e => exact EraseTask.move_weight h
  | review q => exact ReviewRequest.move_weight h
  | extract x =>
    show (x.move S w).task.weight + (((x.move S w).spawned.map Task.run).map Task.weight).sum < x.weight
    rw [List.map_map]
    exact ExtractRequest.move_weight h
  | retry y =>
    show (y.move w).task.weight + (((y.move w).spawned.map Task.run).map Task.weight).sum < y.weight
    rw [List.map_map]
    exact RetryRequest.move_weight h
  | schema c => exact SchemaRequest.move_weight h

/-- A task that is done does nothing. -/
theorem Task.effect_done {x : Task} (h : x.Done) : Task.effect S w x = ⟨w, x, []⟩ := by
  cases x with
  | run r =>
    replace h : r.pc.weight r.env.delivery = 0 := h
    cases hpc : r.pc <;> rw [hpc] at h <;> simp [RunPc.weight] at h
    simp [Task.effect, Task.move, RunTask.move, hpc, World.apply]
  | webhook t =>
    replace h : t.pc.weight t.env.schedule.length = 0 := h
    cases hpc : t.pc <;> rw [hpc] at h <;> simp [WebhookPc.weight] at h
    simp [Task.effect, Task.move, WebhookTask.move, hpc, World.apply]
  | erase e =>
    replace h : e.pc.weight = 0 := h
    cases hpc : e.pc <;> rw [hpc] at h <;> simp [ErasePc.weight] at h
    simp [Task.effect, Task.move, EraseTask.move, hpc, World.apply]
  | review q =>
    replace h : q.pc.weight = 0 := h
    cases hpc : q.pc <;> rw [hpc] at h <;> simp [ReviewPc.weight] at h
    simp [Task.effect, Task.move, ReviewRequest.move, hpc, World.apply]
  | extract x =>
    replace h : x.pc.weight x.run.weight = 0 := h
    cases hpc : x.pc <;> rw [hpc] at h <;> simp [ExtractPc.weight] at h
    simp [Task.effect, Task.move, ExtractRequest.move, hpc, World.apply]
  | retry y =>
    replace h : y.pc.weight y.run.weight = 0 := h
    cases hpc : y.pc <;> rw [hpc] at h <;> simp [RetryPc.weight] at h
    simp [Task.effect, Task.move, RetryRequest.move, hpc, World.apply]
  | schema c =>
    replace h : c.pc.weight = 0 := h
    cases hpc : c.pc <;> rw [hpc] at h <;> simp [SchemaPc.weight] at h
    simp [Task.effect, Task.move, SchemaRequest.move, hpc, World.apply]

theorem settling : Pool.Settling (Task.effect S) Task.Done Task.weight where
  rest _ _ h := Task.effect_done h
  drop _ _ h := Task.move_weight h

/-- **The service comes to rest.**  From any state, under any schedule that starves
    no task, there is a point at which every task has returned or raised, and from
    then on nothing changes. -/
theorem service_comes_to_rest {schedule : ℕ → ℕ} (hfair : Pool.Fair schedule) (q : System) :
    ∃ n, (∀ x ∈ (Pool.follow (Task.effect S) schedule q n).tasks, x.Done) ∧
      ∀ m, n ≤ m → Pool.follow (Task.effect S) schedule q m = Pool.follow (Task.effect S) schedule q n :=
  settling.comes_to_rest hfair q

end

/-- An erasure and a retry, with the run that the retry starts. -/
theorem service_comes_to_rest_sample :
    ∃ n, (∀ x ∈ (Pool.follow (Task.effect Sample.site) (fun n => n.unpair.1)
        ⟨Sample.undeliveredWorld, [.erase Sample.erase, .retry Sample.retry]⟩ n).tasks, x.Done) ∧
      ∀ m, n ≤ m → Pool.follow (Task.effect Sample.site) (fun n => n.unpair.1)
          ⟨Sample.undeliveredWorld, [.erase Sample.erase, .retry Sample.retry]⟩ m =
        Pool.follow (Task.effect Sample.site) (fun n => n.unpair.1)
          ⟨Sample.undeliveredWorld, [.erase Sample.erase, .retry Sample.retry]⟩ n :=
  service_comes_to_rest Pool.fair_unpair _

end OcrService
