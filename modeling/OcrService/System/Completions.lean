/-
  The deliveries of completed documents.

  Two transactions complete a document: a run persists the outcome `completed`,
  and a review accepts or corrects.  The run calls `_schedule_webhook` in the
  step after its commit; `act_on_review` ends with its transaction, so nothing is
  scheduled for the document that a reviewer completed.

  * `scheduledBy`: how many deliveries a task schedules in a history;
  * `completion_delivered_iff`: a completion is delivered exactly once iff it is
    that of a run which takes its next step.
-/
import OcrService.System.Decisions
import OcrService.System.StatusMoves

namespace OcrService

open Trans

/-! ## What a task schedules -/

/-- The deliveries of document `d` that the next step of a task schedules. -/
def Task.schedules (S : Site) (w : World) (d : Uuid) (x : Task) : ℕ :=
  (x.move S w).spawned.countP fun u =>
    match u with
    | .webhook t => t.documentId = d
    | _ => false

/-- The deliveries of document `d` that task `i` schedules in a list of steps. -/
def scheduledBy (S : Site) (i : ℕ) (d : Uuid) : System → List ℕ → ℕ :=
  tally (System.step S) fun q k =>
    if k = i then (q.tasks[k]?).elim 0 (Task.schedules S q.shared d) else 0

/-- A run of the pipeline. -/
def Task.ofPipeline : Task → Bool
  | .run _ => true
  | _ => false

/-- The task has not committed an outcome. -/
def Task.early : Task → Bool
  | .run r => !r.pc.past
  | _ => true

/-- The task schedules nothing any more. -/
def Task.spent : Task → Bool
  | .run r =>
    match r.pc with
    | .release _ | .done _ => true
    | _ => false
  | _ => true

section
variable {S : Site} {w : World} {d : Uuid} {x : Task} {r : RunTask} {f : ExtractionState}

theorem countP_webhooks (l : List WebhookTask) :
    ((l.map Task.webhook).countP fun u =>
      match u with
      | .webhook t => t.documentId = d
      | _ => false) = l.countP fun t => t.documentId = d := by
  rw [List.countP_map]
  rfl

theorem countP_runs (l : List RunTask) :
    ((l.map Task.run).countP fun u =>
      match u with
      | .webhook t => t.documentId = d
      | _ => false) = 0 := by
  rw [List.countP_map, List.countP_eq_zero]
  intro r _ h
  cases h

/-- The run schedules a delivery when it has persisted the outcome `completed`. -/
theorem schedules_persisted (hpc : r.pc = .persisted f) (hstatus : f.status = some .completed)
    (hd : r.documentId = d) : (Task.run r).schedules S w d = 1 := by
  simp only [Task.schedules, Task.move, countP_webhooks, RunTask.move, hpc, RunTask.scheduledWebhooks,
    if_pos hstatus]
  simp [hd]

/-- It schedules none elsewhere. -/
theorem schedules_run (hpc : ∀ f, r.pc ≠ .persisted f) : (Task.run r).schedules S w d = 0 := by
  have hnil : (r.move S w).spawned = [] := by
    have hfail : r.fail.spawned = [] := rfl
    cases hpc' : r.pc <;> simp only [RunTask.move, hpc', RunTask.persistOutcome]
    case persisted f => exact absurd hpc' (hpc f)
    all_goals
      repeat' split
      all_goals exact hfail
  simp only [Task.schedules, Task.move, countP_webhooks, hnil, List.countP_nil]

/-- No other kind of task schedules one. -/
theorem schedules_other (hx : x.ofPipeline = false) : x.schedules S w d = 0 := by
  cases x with
  | run r => cases hx
  | extract x => exact countP_runs _
  | retry y => exact countP_runs _
  | webhook | erase | review | schema => rfl

theorem early_schedules (hx : x.early = true) : x.schedules S w d = 0 := by
  cases x with
  | run r =>
    refine schedules_run fun f hpc => ?_
    simp only [Task.early, hpc, RunPc.past] at hx
    cases hx
  | _ => exact schedules_other rfl

theorem spent_schedules (hx : x.spent = true) : x.schedules S w d = 0 := by
  cases x with
  | run r =>
    refine schedules_run fun f hpc => ?_
    simp only [Task.spent, hpc] at hx
    cases hx
  | _ => exact schedules_other rfl

/-- A task that is early was early. -/
theorem early_of_move (h : (x.move S w).task.early = true) : x.early = true := by
  cases x with
  | run r =>
    obtain ⟨pc, hmove, hpast⟩ := RunTask.move_past (S := S) (w := w) (r := r)
    have hearly : (!(r.goto pc).pc.past) = true := by
      rw [← hmove]
      exact h
    have hpc : pc.past = false := by simpa using hearly
    simp [Task.early, (hpast hpc).1]
  | _ => rfl

/-- A task that is spent stays so. -/
theorem spent_move (h : x.spent = true) : (x.move S w).task.spent = true := by
  cases x with
  | run r =>
    simp only [Task.spent] at h
    show Task.spent (.run (r.move S w).task) = true
    cases hpc : r.pc <;> rw [hpc] at h <;> cases h
    · simp only [RunTask.move, hpc]
      rfl
    · simp only [RunTask.move, hpc, Task.spent]
  | _ => rfl

end

/-! ## Histories -/

section
variable {S : Site} {d : Uuid} {q q' : System} {i : ℕ} {x : Task} {l : List ℕ}

/-- What one step of a history schedules. -/
theorem scheduledBy_cons {k : ℕ} (hs : System.step S q k = some q') (l : List ℕ) :
    scheduledBy S i d q (k :: l) =
      (if k = i then (q.tasks[k]?).elim 0 (Task.schedules S q.shared d) else 0) +
        scheduledBy S i d q' l :=
  tally_cons hs l

/-- **Before its commit** a task has scheduled nothing. -/
theorem scheduled_before (h : exec (System.step S) q l = some q') (hx : q'.tasks[i]? = some x)
    (hearly : x.early = true) :
    scheduledBy S i d q l = 0 ∧ ∀ y, q.tasks[i]? = some y → y.early = true := by
  induction l generalizing q with
  | nil =>
    cases h
    refine ⟨rfl, ?_⟩
    intro y hy
    cases Option.some.inj (hx.symm.trans hy)
    exact hearly
  | cons k l ih =>
    rw [exec_cons] at h
    obtain ⟨q₁, hs, h⟩ := Option.bind_eq_some_iff.1 h
    obtain ⟨hnone, hafter⟩ := ih h
    have hbefore : ∀ y, q.tasks[i]? = some y → y.early = true := by
      intro y hy
      rcases Pool.moved_or_same_of_step hs hy with ⟨rfl, hy'⟩ | ⟨-, hy'⟩
      · exact early_of_move (hafter _ hy')
      · exact hafter y hy'
    refine ⟨?_, hbefore⟩
    rw [scheduledBy_cons hs, hnone, Nat.add_zero]
    split_ifs with hk
    · subst hk
      obtain ⟨y, hy, -⟩ := Pool.step_eq_some hs
      rw [hy]
      exact early_schedules (hbefore y hy)
    · rfl

/-- A task that is spent schedules nothing, whatever happens. -/
theorem scheduled_spent (hx : q.tasks[i]? = some x) (hspent : x.spent = true) (l : List ℕ) :
    scheduledBy S i d q l = 0 := by
  induction l generalizing q x with
  | nil => rfl
  | cons k l ih =>
    cases hs : System.step S q k with
    | none => simp only [scheduledBy, tally, hs]
    | some q₁ =>
      rw [scheduledBy_cons hs]
      rcases Pool.moved_or_same_of_step hs hx with ⟨rfl, hx'⟩ | ⟨hk, hx'⟩
      · rw [ih hx' (spent_move hspent), if_pos rfl, hx]
        exact spent_schedules hspent
      · rw [ih hx' hspent, if_neg hk]

/-- **After its commit** a run with the outcome `completed` schedules a delivery
    in its next step, and no other. -/
theorem scheduled_persisted {r : RunTask} {f : ExtractionState}
    (hx : q.tasks[i]? = some (.run r)) (hpc : r.pc = .persisted f) (hstatus : f.status = some .completed)
    (hd : r.documentId = d) (h : exec (System.step S) q l = some q') :
    scheduledBy S i d q l = if i ∈ l then 1 else 0 := by
  induction l generalizing q with
  | nil => rfl
  | cons k l ih =>
    rw [exec_cons] at h
    obtain ⟨q₁, hs, h⟩ := Option.bind_eq_some_iff.1 h
    rw [scheduledBy_cons hs]
    rcases Pool.moved_or_same_of_step hs hx with ⟨rfl, hx'⟩ | ⟨hk, hx'⟩
    · have hspent : ((Task.effect S q.shared (.run r)).task).spent = true := by
        simp only [Task.effect, Task.move, RunTask.move, hpc]
        rfl
      rw [scheduled_spent hx' hspent, if_pos rfl, hx, if_pos List.mem_cons_self]
      exact schedules_persisted hpc hstatus hd
    · rw [ih hx' h, if_neg hk, Nat.zero_add]
      simp only [List.mem_cons, Ne.symm hk, false_or]

end

/-! ## Completions -/

theorem completed_of_persisted {f : ExtractionState} (h : persistedStatus f = .completed) :
    f.status = some .completed := by
  have hfinal : finalStatus f = .completed := by
    unfold persistedStatus at h
    split_ifs at h
    exact h
  unfold finalStatus at hfinal
  cases hs : f.status with
  | none =>
    rw [hs] at hfinal
    cases hfinal
  | some status =>
    rw [hs] at hfinal
    exact congrArg some hfinal

section
variable {S : Site} {d : Uuid} {q₀ q q' q'' : System} {i : ℕ} {x : Task} {l l' : List ℕ}

/-- A run that has committed its outcome. -/
theorem persisted_of_commit {r : RunTask} {ws : List Write} (hx : q.tasks[i]? = some (.run r))
    (hc : (r.move S q.shared).change = .commit ws) (hs : System.step S q i = some q') :
    ∃ f, r.pc = .commit f ws ∧ q'.tasks[i]? = some (.run (r.goto (.persisted f))) := by
  obtain ⟨f, hpc, hmove, -⟩ := RunTask.change_commit hc
  refine ⟨f, hpc, ?_⟩
  rw [Pool.moved_of_step hs hx, Task.effect, Task.move, hmove]

/-- What becomes of a task that completes a document. -/
theorem completing_step (hprepares : x.Prepares S) (hx : q.tasks[i]? = some x)
    (hs : System.step S q i = some q') (hbefore : q.shared.db.statusOf d ≠ some .completed)
    (hafter : q'.shared.db.statusOf d = some .completed) :
    x.early = true ∧
      ((∃ r f, x = .run r ∧ f.status = some .completed ∧ r.documentId = d ∧
        q'.tasks[i]? = some (.run (r.goto (.persisted f)))) ∨
      (∃ r, x = .review r)) := by
  obtain ⟨row, hrow, hstatus⟩ := Option.map_eq_some_iff.1 hafter
  have hsh := System.shared_step hs hx
  rw [hsh] at hrow
  rcases World.db_apply (w := q.shared) (x.move S q.shared).change with hdb | ⟨ws, hc, hdb⟩
  · rw [hdb] at hrow
    rw [Db.statusOf, hrow, Option.map_some, hstatus] at hbefore
    exact absurd rfl hbefore
  · cases status_move hprepares hc hdb hrow (hstatus ▸ hbefore) with
    | @run r f hpc hid _ hpersisted _ =>
      obtain ⟨f', hpc', hx'⟩ := persisted_of_commit hx hc hs
      obtain ⟨rfl, -⟩ := RunPc.commit.inj (hpc.symm.trans hpc')
      refine ⟨by simp [Task.early, hpc, RunPc.past], Or.inl ⟨r, f, rfl, ?_, hid, hx'⟩⟩
      exact completed_of_persisted (hpersisted.symm.trans hstatus)
    | review => exact ⟨rfl, Or.inr ⟨_, rfl⟩⟩
    | create hpending | retry hpending => rw [hstatus] at hpending; cases hpending
    | cancel hcancelled => rw [hstatus] at hcancelled; cases hcancelled

/-- **Every completion is delivered exactly once** iff it is that of a run that
    takes its next step: the completion of a review is delivered by nobody. -/
theorem completion_delivered_iff (hfresh : ∀ x ∈ q₀.tasks, x.Fresh)
    (h : exec (System.step S) q₀ l = some q) (hx : q.tasks[i]? = some x)
    (hs : System.step S q i = some q') (hbefore : q.shared.db.statusOf d ≠ some .completed)
    (hafter : q'.shared.db.statusOf d = some .completed)
    (h' : exec (System.step S) q' l' = some q'') :
    scheduledBy S i d q₀ (l ++ i :: l') = 1 ↔ x.ofPipeline = true ∧ i ∈ l' := by
  have hprepares := reach_prepares hfresh (reach_of_exec h) x (List.mem_of_getElem? hx)
  obtain ⟨hearly, hcases⟩ := completing_step hprepares hx hs hbefore hafter
  have hcount : scheduledBy S i d q₀ (l ++ i :: l') = scheduledBy S i d q' l' := by
    have hsplit : scheduledBy S i d q₀ (l ++ i :: l') =
        scheduledBy S i d q₀ l + scheduledBy S i d q (i :: l') := tally_append h _
    rw [hsplit, (scheduled_before h hx hearly).1, scheduledBy_cons hs, if_pos rfl, hx]
    simp only [Option.elim_some, early_schedules hearly, Nat.zero_add]
  rw [hcount]
  rcases hcases with ⟨r, f, rfl, hstatus, hd, hx'⟩ | ⟨r, rfl⟩
  · rw [scheduled_persisted hx' rfl hstatus hd h']
    simp [Task.ofPipeline]
  · rw [scheduled_spent (Pool.moved_of_step hs hx) rfl]
    simp [Task.ofPipeline]

end

/-- A run completes its document, and delivers it. -/
theorem completion_delivered_iff_run :
    scheduledBy Sample.site 0 Sample.documentId ⟨Sample.world [], [.run Sample.run]⟩
      (List.replicate 19 0 ++ 0 :: [0]) = 1 := by
  have hrun : (exec (System.step Sample.site) ⟨Sample.world [], [.run Sample.run]⟩
      (List.replicate 19 0)).any (fun q =>
        decide (q.shared.db.statusOf Sample.documentId ≠ some .completed) && (q.tasks[0]?).any Task.ofPipeline &&
          (System.step Sample.site q 0).any fun q' =>
            decide (q'.shared.db.statusOf Sample.documentId = some .completed) &&
              (exec (System.step Sample.site) q' [0]).isSome) = true := by
    decide +kernel
  obtain ⟨q, hq, hfacts⟩ := (Option.any_eq_true _ _).1 hrun
  simp only [Bool.and_eq_true, decide_eq_true_eq] at hfacts
  obtain ⟨⟨hbefore, hkind⟩, hstep⟩ := hfacts
  obtain ⟨x, hx, hpipeline⟩ := (Option.any_eq_true _ _).1 hkind
  obtain ⟨q', hs, hfacts⟩ := (Option.any_eq_true _ _).1 hstep
  simp only [Bool.and_eq_true, decide_eq_true_eq] at hfacts
  obtain ⟨hafter, hlast⟩ := hfacts
  obtain ⟨q'', hq''⟩ := Option.isSome_iff_exists.1 hlast
  refine (completion_delivered_iff ?_ hq hx hs hbefore hafter hq'').2 ⟨hpipeline, List.mem_singleton_self 0⟩
  intro x hx
  rw [List.mem_singleton.1 hx]
  rfl

/-- A reviewer accepts a document: it is completed, and the call that completed it
    has ended and scheduled nothing. -/
theorem accepted_undelivered :
    ∃ q q', exec (System.step Sample.site)
        ⟨Sample.openWorld, [.review (Sample.reviewCall .accept 1)]⟩ [0, 0] = some q ∧
      System.step Sample.site q 0 = some q' ∧
      q.shared.db.statusOf Sample.documentId = some .review ∧
      q'.shared.db.statusOf Sample.documentId = some .completed ∧
      (∃ row tenant, Rows.find Document.id q'.shared.db.documents Sample.documentId = some row ∧
        row.isDryRun = false ∧ q'.shared.db.tenant? row.tenantId = some tenant ∧
          tenant.webhookUrl = some "https://example.org") ∧
      (∃ r, q'.tasks = [.review r] ∧ r.pc = .done .returned) ∧
      ∀ l', scheduledBy Sample.site 0 Sample.documentId
        ⟨Sample.openWorld, [.review (Sample.reviewCall .accept 1)]⟩ ([0, 0] ++ 0 :: l') = 0 :=
  ⟨_, _, rfl, rfl, rfl, rfl, ⟨_, _, rfl, rfl, rfl, rfl⟩, ⟨_, rfl, rfl⟩,
    fun _ => scheduled_spent rfl rfl _⟩

end OcrService
