/-
  Documents and their dead letters.

  Runs, deliveries, retries and reviews take turns on a new document.  As long
  as no run completes a document with a letter in `retrying`, no review rejects
  it and no retry of one of its letters is rolled back, a rejected document has
  one pending letter and a completed one none in `retrying`
  (`dead_letters_agree`).  Nothing in the service sets a letter to `resolved`.
-/
import OcrService.System.Phases
import OcrService.System.ForeignErasure

namespace OcrService

open Trans PyData

/-- Step `i` keeps the letters of document `d` in order: it does
    not complete the document while a letter is in `retrying`, does not reject it
    in a review, and rolls back no retry of its letters. -/
structure Orderly (d : Uuid) (q : System) (i : ℕ) : Prop where
  run : ∀ r f ws, q.tasks[i]? = some (.run r) → r.documentId = d → r.pc = .commit f ws →
    r.env.raises .commit = false → (∃ db, q.shared.db.commit ws = .ok db) →
      finalStatus f = .completed ∨ finalStatus f = .review → ¬ q.shared.db.Retrying d
  review : ∀ r ws, q.tasks[i]? = some (.review r) → r.pc = .commit ws → r.raises .commit = false →
    (∃ db, q.shared.db.commit ws = .ok db) → r.action.rejects = true →
      ∀ row ∈ q.shared.db.reviewTasks, row.id = r.reviewId → row.documentId ≠ d
  retry : ∀ y entry document, q.tasks[i]? = some (.retry y) → y.pc = .commit entry document →
    entry.documentId = d →
      y.raises .commit = false ∧ ∃ db, q.shared.db.commit (retryWrites entry document) = .ok db

/-! ## What is on its way for a document -/

def WebhookPc.over : WebhookPc → Bool
  | .done _ => true
  | _ => false

/-- The run is about to schedule a delivery. -/
def RunPc.schedules : RunPc → Bool
  | .persisted f => f.status = some .completed
  | _ => false

namespace Task
variable (d : Uuid)

/-- A run of the document that has not got to its outcome. -/
def running : Task → ℕ
  | .run r => if r.documentId = d ∧ r.pc.past = false then 1 else 0
  | _ => 0

/-- A delivery of the document, or its run about to schedule it. -/
def delivering : Task → ℕ
  | .run r => if r.documentId = d ∧ r.pc.schedules = true then 1 else 0
  | .webhook t => if t.documentId = d ∧ t.pc.over = false then 1 else 0
  | _ => 0

end Task

/-- A pending document without letters or review tasks, with at most one run and
    no delivery to come; no task is under way. -/
structure Newborn (d : Uuid) (q : System) : Prop where
  row : ∃ row, Rows.find Document.id q.shared.db.documents d = some row ∧ row.status = .pending
  letters : ∀ e ∈ q.shared.db.dlq, e.documentId ≠ d
  reviews : ∀ row ∈ q.shared.db.reviewTasks, row.documentId ≠ d
  nodup : (q.shared.db.dlq.map DeadLetter.id).Nodup
  issued : ∀ e ∈ q.shared.db.dlq, e.id < q.shared.db.nextId
  registry : ∀ p, (q.shared.procs p).isCancelled d = false
  idle : ∀ x ∈ q.tasks, x.idle = true
  runs : q.total (Task.running d) ≤ 1
  deliveries : q.total (Task.delivering d) = 0

/-- A retry of a letter of the document has enqueued its run and is about to commit. -/
structure Retried (d : Uuid) (q : System) : Prop where
  retry : ∃ y entry document, Task.retry y ∈ q.tasks ∧ y.pc = .commit entry document ∧ entry.documentId = d
  pending : q.shared.db.pendingLetters d = 1
  review : ¬ q.shared.db.UnderReview d
  runs : q.total (Task.running d) = 1
  deliveries : q.total (Task.delivering d) = 0

/-- What holds between two turns. -/
structure Agreed (S : Site) (d t : Uuid) (q : System) : Prop where
  tasks : ∀ x ∈ q.tasks, x.Current S q.shared.db
  addressed : Addressed d t q.shared.db
  registry : ∀ p, (q.shared.procs p).isCancelled d = false
  phase : Phase d q.shared.db (q.total (Task.running d)) (q.total (Task.delivering d)) ∨ Retried d q

/-! ## The weights of one step -/

section
variable {S : Site} {d : Uuid} {w : World} {r : RunTask} {v : WebhookTask} {y : RetryRequest}

theorem running_eq_one (hd : r.documentId = d) (hpast : r.pc.past = false) : (Task.run r).running d = 1 :=
  if_pos ⟨hd, hpast⟩

theorem running_eq_zero (h : r.documentId = d → r.pc.past = true) : (Task.run r).running d = 0 := by
  refine if_neg ?_
  rintro ⟨hd, hpast⟩
  rw [h hd] at hpast
  cases hpast

/-- A run weighs as a delivery only where it is about to schedule one. -/
theorem delivering_eq_zero (h : r.documentId = d → r.pc.schedules = false) :
    (Task.run r).delivering d = 0 := by
  refine if_neg ?_
  rintro ⟨hd, hschedules⟩
  rw [h hd] at hschedules
  cases hschedules

/-- A run is not taken up again. -/
theorem running_move : (Task.run (r.move S w).task).running d ≤ (Task.run r).running d := by
  obtain ⟨pc, htask, hpast⟩ := RunTask.move_past (S := S) (w := w) (r := r)
  rw [htask]
  by_cases h : r.documentId = d ∧ pc.past = false
  · have hlater : (Task.run (r.goto pc)).running d = 1 := running_eq_one h.1 h.2
    rw [hlater, running_eq_one h.1 (hpast h.2).1]
  · have hlater : (Task.run (r.goto pc)).running d = 0 := if_neg h
    rw [hlater]
    exact Nat.zero_le _

/-- A run spawns no run. -/
theorem running_spawned (l : List WebhookTask) : ((l.map Task.webhook).map (Task.running d)).sum = 0 := by
  induction l with
  | nil => rfl
  | cons v l ih =>
    rw [List.map_cons, List.map_cons, List.sum_cons, ih]
    rfl

/-- **A run that commits nothing schedules nothing new.** -/
theorem delivering_move (h : r.Current S w.db)
    (hlive : r.pc.past = false → r.documentId = d → ∀ document,
      w.db.document? r.tenantId r.documentId = some document → document.status = .pending)
    (hreg : ∀ p, (w.procs p).isCancelled d = false)
    (hc : ∀ ws, (r.move S w).change ≠ .commit ws) :
    (Task.run (r.move S w).task).delivering d +
        (((r.move S w).spawned.map Task.webhook).map (Task.delivering d)).sum ≤
      (Task.run r).delivering d := by
  unfold RunTask.Current at h
  have hidle {pc : RunPc} (hpc : r.documentId = d → pc.schedules = false) :
      (Task.run (r.goto pc)).delivering d + (([] : List Task).map (Task.delivering d)).sum ≤
        (Task.run r).delivering d := by
    rw [delivering_eq_zero hpc]
    exact Nat.zero_le _
  have hfail : (Task.run r.fail.task).delivering d +
      ((r.fail.spawned.map Task.webhook).map (Task.delivering d)).sum ≤ (Task.run r).delivering d :=
    hidle fun _ => rfl
  cases hpc : r.pc <;> simp only [hpc] at h hlive <;>
    simp only [RunTask.move, hpc, RunTask.persistOutcome] at hc ⊢
  case save n s unsaved =>
    refine hidle fun _ => ?_
    unfold RunPc.afterNode
    cases n.next s <;> rfl
  case persist f =>
    split_ifs
    · exact hfail
    · obtain ⟨⟨document, hdoc⟩, -⟩ := h
      rw [hdoc]
      exact hidle fun _ => rfl
  case guard f document =>
    split_ifs with hskip
    · -- a pending document that is not registered is not skipped
      refine hidle fun hd => ?_
      have hstatus := hlive rfl hd document h.1
      rw [hd, hreg, hstatus] at hskip
      exact absurd hskip (by decide)
    · cases persistWrites S r.tenantId r.env.nonces document f with
      | error e => exact hfail
      | ok ws => exact hidle fun _ => rfl
  case commit f ws =>
    split_ifs at hc ⊢
    · exact hfail
    · cases hdb : w.db.commit ws with
      | error e => exact hfail
      | ok db =>
        rw [hdb] at hc
        exact absurd rfl (hc ws)
  case persisted f =>
    -- the delivery that the run scheduled takes its place
    rw [delivering_eq_zero (fun _ => rfl), Nat.zero_add]
    simp only [RunTask.scheduledWebhooks, Task.delivering, hpc, RunPc.schedules]
    by_cases hf : f.status = some .completed
    · simp [hf, Task.delivering, WebhookPc.over]
    · simp [hf]
  case done o =>
    simp
  all_goals
    repeat' split
    all_goals exact hfail

/-- A delivery that has ended stays so, and remains a delivery of its document. -/
theorem WebhookTask.move_over :
    (v.move S w).task.documentId = v.documentId ∧
      ((v.move S w).task.pc.over = false → v.pc.over = false) := by
  cases hpc : v.pc <;> simp only [WebhookTask.move, hpc]
  case done o => exact ⟨trivial, id⟩
  all_goals
    repeat' split
    all_goals exact ⟨rfl, fun _ => rfl⟩

/-- A delivery is not taken up again. -/
theorem delivering_webhook :
    (Task.webhook (v.move S w).task).delivering d ≤ (Task.webhook v).delivering d := by
  obtain ⟨hid, hover⟩ := WebhookTask.move_over (S := S) (w := w) (v := v)
  by_cases h : v.documentId = d ∧ (v.move S w).task.pc.over = false
  · have hlater : (Task.webhook (v.move S w).task).delivering d = 1 := if_pos ⟨hid.trans h.1, h.2⟩
    have hbefore : (Task.webhook v).delivering d = 1 := if_pos ⟨h.1, hover h.2⟩
    rw [hlater, hbefore]
  · have hlater : (Task.webhook (v.move S w).task).delivering d = 0 :=
      if_neg fun h' => h ⟨hid.symm.trans h'.1, h'.2⟩
    rw [hlater]
    exact Nat.zero_le _

end

/-! ## The turns -/

section
variable {S : Site} {d t : Uuid} {q q' : System} {i : ℕ} {x : Task}

/-- What a task weighs, all together weigh. -/
theorem weight_le_total (weight : Task → ℕ) (hx : q.tasks[i]? = some x) : weight x ≤ q.total weight :=
  List.single_le_sum (fun _ _ => Nat.zero_le _) _ (List.mem_map_of_mem (List.mem_of_getElem? hx))

/-- Unless a retry of the document is about to commit, it stands in some phase. -/
theorem phase_of_other (h : Agreed S d t q) (hserial : q.Serial Task.idle i) (hx : q.tasks[i]? = some x)
    (hne : ∀ y entry document, x = .retry y → y.pc = .commit entry document → entry.documentId ≠ d) :
    Phase d q.shared.db (q.total (Task.running d)) (q.total (Task.delivering d)) := by
  rcases h.phase with hphase | ⟨⟨y, entry, document, hy, hpc, hd⟩, -⟩
  · exact hphase
  · rcases hserial.eq_or_idle hx hy with heq | hidle
    · exact absurd hd (hne y entry document heq.symm hpc)
    · have hidle : y.pc.idle = true := hidle
      rw [hpc] at hidle
      cases hidle

/-- The document of a run that has not got to its outcome is pending. -/
theorem pending_of_running {r : RunTask} {document : Document} {B : ℕ}
    (hphase : Phase d q.shared.db (q.total (Task.running d)) B) (hx : q.tasks[i]? = some (.run r))
    (hpast : r.pc.past = false) (hd : r.documentId = d)
    (hdoc : q.shared.db.document? r.tenantId r.documentId = some document) : document.status = .pending := by
  have hle := weight_le_total (Task.running d) hx
  have hone := running_eq_one hd hpast
  obtain ⟨hstatus, -⟩ := hphase.running (by omega)
  obtain ⟨hid, -, hfind⟩ := find_of_document? hdoc
  rw [hid, hd] at hfind
  rw [Db.statusOf, hfind] at hstatus
  exact Option.some.inj hstatus

/-- The commit of an outcome. -/
theorem run_commit_turn {r : RunTask} {ws : List Write} (h : Agreed S d t q)
    (hphase : Phase d q.shared.db (q.total (Task.running d)) (q.total (Task.delivering d)))
    (hok : Orderly d q i) (hx : q.tasks[i]? = some (.run r)) (hc : (r.move S q.shared).change = .commit ws)
    (hs : System.step S q i = some q') :
    Phase d q'.shared.db (q'.total (Task.running d)) (q'.total (Task.delivering d)) := by
  obtain ⟨f, hpc, hmove, hraise, db, hdb⟩ := RunTask.change_commit hc
  have hcurrent : r.Current S q.shared.db := h.tasks _ (List.mem_of_getElem? hx)
  obtain ⟨hrouted, document, hdoc, hws⟩ := hcurrent.commit hpc
  obtain ⟨hid, -, hfind⟩ := find_of_document? hdoc
  have hA := Pool.total_step (Task.running d) hs hx
  have hB := Pool.total_step (Task.delivering d) hs hx
  have hA₀ := weight_le_total (Task.running d) hx
  have hsh := System.shared_step hs hx
  simp only [Task.effect, Task.move, hmove, List.map_nil, List.sum_nil, Nat.add_zero] at hA hB hsh
  rw [hsh, World.apply_commit_ok hdb]
  have hlater : (Task.run (r.goto (.persisted f))).running d = 0 := running_eq_zero fun _ => rfl
  have hbefore : (Task.run r).delivering d = 0 := delivering_eq_zero fun _ => (by rw [hpc]; rfl)
  by_cases hd : r.documentId = d
  · have hone := running_eq_one hd (show r.pc.past = false by rw [hpc]; rfl)
    obtain ⟨-, hp, hr, hA₁, hB₁⟩ := hphase.running (by omega)
    -- only a completed document is delivered
    have hf : (Task.run (r.goto (.persisted f))).delivering d =
        if f.status = some .completed then 1 else 0 := by
      by_cases hf : f.status = some .completed
      · rw [if_pos hf]
        exact if_pos ⟨hd, decide_eq_true hf⟩
      · rw [if_neg hf]
        exact if_neg fun h => hf (of_decide_eq_true h.2)
    have hsettled : Phase document.id db 0 (if f.status = some .completed then 1 else 0) := by
      rw [← hd, ← hid] at hp hr
      refine persist_phase hfind hws hdb hrouted hp hr ?_
      intro hfinal
      rw [hid, hd]
      exact hok.run r f ws hx hd hpc hraise ⟨db, hdb⟩ hfinal
    rw [hid, hd] at hsettled
    have hA₂ : q'.total (Task.running d) = 0 := by omega
    have hB₂ : q'.total (Task.delivering d) = if f.status = some .completed then 1 else 0 := by omega
    rw [hA₂, hB₂]
    exact hsettled
  · have hother : (Task.run (r.goto (.persisted f))).delivering d = 0 :=
      delivering_eq_zero fun h => absurd h hd
    refine hphase.mono (persist_unmoved ?_ hws hdb) ?_ ?_
    · rw [hid]
      exact hd
    · omega
    · omega

/-- The turn of a run. -/
theorem run_turn {r : RunTask} (h : Agreed S d t q) (hserial : q.Serial Task.idle i)
    (hok : Orderly d q i) (hx : q.tasks[i]? = some (.run r)) (hs : System.step S q i = some q') :
    Phase d q'.shared.db (q'.total (Task.running d)) (q'.total (Task.delivering d)) := by
  have hphase := phase_of_other h hserial hx (fun y entry document heq => (by cases heq))
  by_cases hc : ∃ ws, (r.move S q.shared).change = .commit ws
  · obtain ⟨ws, hc⟩ := hc
    exact run_commit_turn h hphase hok hx hc hs
  · rw [not_exists] at hc
    have hcurrent : r.Current S q.shared.db := h.tasks _ (List.mem_of_getElem? hx)
    have hdelivering := delivering_move hcurrent
      (fun hpast hd _ hdoc => pending_of_running hphase hx hpast hd hdoc) h.registry hc
    have hrunning := running_move (S := S) (d := d) (w := q.shared) (r := r)
    have hA := Pool.total_step (Task.running d) hs hx
    have hB := Pool.total_step (Task.delivering d) hs hx
    have hsh := System.shared_step hs hx
    simp only [Task.effect, Task.move] at hA hB hsh
    rw [running_spawned] at hA
    rw [hsh, World.db_of_no_commit hc]
    refine hphase.mono .refl ?_ ?_
    · omega
    · omega

/-- The turn of a delivery. -/
theorem webhook_turn {v : WebhookTask} (h : Agreed S d t q) (hserial : q.Serial Task.idle i)
    (hx : q.tasks[i]? = some (.webhook v)) (hs : System.step S q i = some q') :
    Phase d q'.shared.db (q'.total (Task.running d)) (q'.total (Task.delivering d)) := by
  have hphase := phase_of_other h hserial hx (fun y entry document heq => (by cases heq))
  have hcurrent : v.Current S q.shared.db := h.tasks _ (List.mem_of_getElem? hx)
  have hA := Pool.total_step (Task.running d) hs hx
  have hB := Pool.total_step (Task.delivering d) hs hx
  have hB₀ := weight_le_total (Task.delivering d) hx
  have hsh := System.shared_step hs hx
  simp only [Task.effect, Task.move, List.map_nil, List.sum_nil] at hA hB hsh
  simp only [Task.running] at hA
  have hdelivering := delivering_webhook (S := S) (d := d) (w := q.shared) (v := v)
  rw [hsh]
  by_cases hc : ∃ ws, (v.move S q.shared).change = .commit ws
  · obtain ⟨ws, hc⟩ := hc
    obtain ⟨hpc, hdone, db, hdb⟩ := WebhookTask.change_commit hc
    obtain ⟨-, hlogs⟩ := hcurrent.commit hpc
    rw [hc, World.apply_commit_ok hdb]
    rcases hlogs with hlogs | ⟨rows, last, hlogs, rfl⟩
    · refine hphase.mono (unmoved_commit (fun w hw => (hlogs w hw).spares) hdb) ?_ ?_
      · omega
      · omega
    · by_cases hd : v.documentId = d
      · have hone : (Task.webhook v).delivering d = 1 := if_pos ⟨hd, by rw [hpc]; rfl⟩
        have hzero : (Task.webhook (v.move S q.shared).task).delivering d = 0 := by
          refine if_neg ?_
          rw [hdone]
          exact fun h => (by cases h.2)
        obtain ⟨-, -, -, -, hA₁, hB₁⟩ := hphase.delivering (by omega)
        have hA₂ : q'.total (Task.running d) = 0 := by omega
        have hB₂ : q'.total (Task.delivering d) = 0 := by omega
        rw [hA₁, hB₁, ← hd] at hphase
        rw [hA₂, hB₂, ← hd]
        exact exhausted_phase hlogs hphase hdb
      · refine hphase.mono (exhausted_unmoved hlogs hd hdb) ?_ ?_
        · omega
        · omega
  · rw [not_exists] at hc
    rw [World.db_of_no_commit hc]
    refine hphase.mono .refl ?_ ?_
    · omega
    · omega

/-- The turn of a review. -/
theorem review_turn {r : ReviewRequest} (h : Agreed S d t q) (hserial : q.Serial Task.idle i)
    (hok : Orderly d q i) (hx : q.tasks[i]? = some (.review r)) (hs : System.step S q i = some q') :
    Phase d q'.shared.db (q'.total (Task.running d)) (q'.total (Task.delivering d)) := by
  have hphase := phase_of_other h hserial hx (fun y entry document heq => (by cases heq))
  have hcurrent : r.Current S q.shared.db := h.tasks _ (List.mem_of_getElem? hx)
  have hA := Pool.total_step (Task.running d) hs hx
  have hB := Pool.total_step (Task.delivering d) hs hx
  have hsh := System.shared_step hs hx
  simp only [Task.effect, Task.move, Task.running, Task.delivering, List.map_nil, List.sum_nil,
    Nat.add_zero] at hA hB hsh
  rw [hsh, hA, hB]
  by_cases hc : ∃ ws, (r.move S q.shared).change = .commit ws
  · obtain ⟨ws, hc⟩ := hc
    obtain ⟨hpc, hraise, db, hdb⟩ := ReviewRequest.change_commit hc
    obtain ⟨draft, hdraft, rfl⟩ := hcurrent.commit hpc
    rw [hc, World.apply_commit_ok hdb]
    by_cases hd : draft.old.documentId = d
    · have hrejected : draft.rejected = false := by
        refine Bool.eq_false_iff.2 fun hrejected => ?_
        exact hok.review r _ hx hpc hraise ⟨db, hdb⟩ (hdraft.rejected hrejected) draft.old hdraft.old
          hdraft.id hd
      rw [← hd] at hphase ⊢
      exact decision_phase hdraft hphase hrejected hdb
    · exact hphase.mono (decision_unmoved hdraft hd hdb) le_rfl le_rfl
  · rw [not_exists] at hc
    rw [World.db_of_no_commit hc]
    exact hphase

/-- The commit of a retry. -/
theorem retry_commit_turn {y : RetryRequest} {entry : DeadLetter} {document : Option Document}
    (h : Agreed S d t q) (hserial : q.Serial Task.idle i) (hok : Orderly d q i)
    (hx : q.tasks[i]? = some (.retry y)) (hpc : y.pc = .commit entry document)
    (hs : System.step S q i = some q') :
    Phase d q'.shared.db (q'.total (Task.running d)) (q'.total (Task.delivering d)) := by
  have hcurrent : y.Current q.shared.db := h.tasks _ (List.mem_of_getElem? hx)
  obtain ⟨hfind, hpending, htenant, rfl⟩ := hcurrent.entry (Or.inr hpc)
  have hA := Pool.total_step (Task.running d) hs hx
  have hB := Pool.total_step (Task.delivering d) hs hx
  have hsh := System.shared_step hs hx
  have hspawned : (y.move q.shared).spawned = [] := by
    simp only [RetryRequest.move, hpc]
    repeat' split
    all_goals rfl
  simp only [Task.effect, Task.move, Task.running, Task.delivering, hspawned, List.map_nil,
    List.sum_nil, Nat.add_zero] at hA hB hsh
  rw [hsh, hA, hB]
  by_cases hd : entry.documentId = d
  · obtain ⟨hraise, db, hdb⟩ := hok.retry y entry _ hx hpc hd
    have hchange : (y.move q.shared).change =
        .commit (retryWrites entry (q.shared.db.document? y.tenantId entry.documentId)) := by
      simp only [RetryRequest.move, hpc, hraise, hdb]
      rfl
    rw [hchange, World.apply_commit_ok hdb]
    have hyt : y.tenantId = t :=
      htenant.symm.trans (h.addressed.tenant entry (Rows.mem_of_find hfind) hd)
    obtain ⟨document, hdoc⟩ : ∃ document,
        q.shared.db.document? y.tenantId entry.documentId = some document := by
      rw [hyt, hd]
      exact h.addressed.document
    rw [hdoc] at hdb
    subst hd
    obtain ⟨hp, hr, hA₁, hB₁⟩ : q.shared.db.pendingLetters entry.documentId = 1 ∧
        ¬ q.shared.db.UnderReview entry.documentId ∧ q.total (Task.running entry.documentId) ≤ 1 ∧
          q.total (Task.delivering entry.documentId) = 0 := by
      rcases h.phase with hphase | hretried
      · obtain ⟨hp, hr, hA₁, hB₁⟩ := hphase.lettered (pendingLetters_pos hfind hpending)
        exact ⟨hp, hr, by omega, hB₁⟩
      · exact ⟨hretried.pending, hretried.review, hretried.runs.le, hretried.deliveries⟩
    rw [hB₁]
    exact retry_phase h.addressed.nodup hfind hpending hdoc hdb hp hr hA₁
  · have hphase := phase_of_other h hserial hx (by
      rintro y' entry' document' heq hpc'
      cases heq
      rw [hpc] at hpc'
      cases hpc'
      exact hd)
    rcases World.db_apply (w := q.shared) (y.move q.shared).change with hdb | ⟨ws, hc, hdb⟩
    · rw [hdb]
      exact hphase
    · obtain ⟨entry', document', hpc', rfl, -⟩ := RetryRequest.change_commit hc
      rw [hpc] at hpc'
      cases hpc'
      exact hphase.mono (retry_unmoved h.addressed.nodup hfind hpending hd hdb) le_rfl le_rfl

/-- Before its commit a retry leaves the database alone. -/
theorem retry_db {y : RetryRequest} (hx : q.tasks[i]? = some (.retry y))
    (hcommit : ¬ ∃ entry document, y.pc = .commit entry document) (hs : System.step S q i = some q') :
    q'.shared.db = q.shared.db := by
  rw [System.shared_step hs hx]
  refine World.db_of_no_commit ?_
  intro ws hc
  obtain ⟨entry, document, hpc, -⟩ := RetryRequest.change_commit hc
  exact hcommit ⟨entry, document, hpc⟩

/-- A retry enqueues the run of its letter. -/
theorem retry_enqueue_turn {y : RetryRequest} {entry : DeadLetter} {document : Option Document}
    (hcurrent : y.Current q.shared.db)
    (hphase : Phase d q.shared.db (q.total (Task.running d)) (q.total (Task.delivering d)))
    (hx : q.tasks[i]? = some (.retry y)) (hpc : y.pc = .enqueue entry document)
    (hs : System.step S q i = some q') :
    Phase d q'.shared.db (q'.total (Task.running d)) (q'.total (Task.delivering d)) ∨ Retried d q' := by
  have hdb : q'.shared.db = q.shared.db := by
    refine retry_db hx ?_ hs
    rintro ⟨entry', document', hpc'⟩
    rw [hpc] at hpc'
    cases hpc'
  obtain ⟨hfind, hpending, -⟩ := hcurrent.entry (Or.inl hpc)
  have hmoved := Pool.moved_mem_of_step hs hx
  have hA := Pool.total_step (Task.running d) hs hx
  have hB := Pool.total_step (Task.delivering d) hs hx
  have hretry (y : RetryRequest) : (Task.retry y).running d = 0 ∧ (Task.retry y).delivering d = 0 :=
    ⟨rfl, rfl⟩
  have hnone : (Task.run (enqueuePipeline y.proc entry.documentId entry.tenantId y.run)).delivering d = 0 :=
    delivering_eq_zero fun _ => rfl
  simp only [Task.effect, Task.move, RetryRequest.move, hpc, List.map_cons, List.map_nil, List.sum_cons,
    List.sum_nil, Nat.add_zero, hretry, hnone] at hA hB hmoved
  by_cases hd : entry.documentId = d
  · obtain ⟨hp, hr, hA₁, hB₁⟩ := hphase.lettered (hd ▸ pendingLetters_pos hfind hpending)
    rw [running_eq_one hd rfl] at hA
    refine Or.inr ⟨⟨_, entry, document, hmoved, rfl, hd⟩, ?_, ?_, ?_, ?_⟩
    · rw [hdb]
      exact hp
    · rw [hdb]
      exact hr
    · omega
    · omega
  · rw [running_eq_zero fun h => absurd h hd] at hA
    rw [hdb, hA, hB]
    exact Or.inl hphase

/-- The turn of a retry. -/
theorem retry_turn {y : RetryRequest} (h : Agreed S d t q) (hserial : q.Serial Task.idle i)
    (hok : Orderly d q i) (hx : q.tasks[i]? = some (.retry y)) (hs : System.step S q i = some q') :
    Phase d q'.shared.db (q'.total (Task.running d)) (q'.total (Task.delivering d)) ∨ Retried d q' := by
  by_cases hcommit : ∃ entry document, y.pc = .commit entry document
  · obtain ⟨entry, document, hpc⟩ := hcommit
    exact Or.inl (retry_commit_turn h hserial hok hx hpc hs)
  have hphase := phase_of_other h hserial hx (by
    rintro y' entry document heq hpc
    cases heq
    exact absurd ⟨entry, document, hpc⟩ hcommit)
  by_cases henqueue : ∃ entry document, y.pc = .enqueue entry document
  · obtain ⟨entry, document, hpc⟩ := henqueue
    exact retry_enqueue_turn (h.tasks _ (List.mem_of_getElem? hx)) hphase hx hpc hs
  have hA := Pool.total_step (Task.running d) hs hx
  have hB := Pool.total_step (Task.delivering d) hs hx
  have hspawned : (y.move q.shared).spawned = [] := by
    cases hpc : y.pc <;> simp only [RetryRequest.move, hpc]
    case enqueue entry document => exact absurd ⟨entry, document, hpc⟩ henqueue
    all_goals
      repeat' split
      all_goals rfl
  simp only [Task.effect, Task.move, Task.running, Task.delivering, hspawned, List.map_nil, List.sum_nil,
    Nat.add_zero] at hA hB
  rw [retry_db hx hcommit hs, hA, hB]
  exact Or.inl hphase

/-! ## Whole runs -/

/-- **One turn.** -/
theorem agreed_step (h : Agreed S d t q) (hserial : q.Serial Task.idle i) (hok : Orderly d q i)
    (hs : System.step S q i = some q') : Agreed S d t q' := by
  obtain ⟨x, hx, -⟩ := Pool.step_eq_some hs
  have hcurrent : x.Current S q.shared.db := h.tasks _ (List.mem_of_getElem? hx)
  have hsh := System.shared_step hs hx
  refine ⟨?_, ?_, ?_, ?_⟩
  · refine hserial.step (L := fun w x => x.Current S w.db) (fun _ _ => Task.current_of_idle) hs hx ?_ ?_
    · exact Task.move_current hcurrent
    · exact fun u hu => Task.spawned_idle hcurrent hu
  · rw [hsh]
    rcases World.db_apply (w := q.shared) (x.move S q.shared).change with hdb | ⟨ws, hc, hdb⟩
    · rw [hdb]
      exact h.addressed
    · exact addressed_commit h.addressed (Task.commit_address hcurrent h.addressed hc) hdb
  · intro p
    rw [hsh, isCancelled_apply]
    · exact h.registry p
    · intro p' d'
      have hmakes := x.makes (S := S) (w := q.shared)
      generalize (x.move S q.shared).change = c at hmakes
      cases hmakes with
      | register => exact hcurrent.elim
      | clear => exact hcurrent.elim
      | _ => simp
  · cases x with
    | run r => exact Or.inl (run_turn h hserial hok hx hs)
    | webhook v => exact Or.inl (webhook_turn h hserial hx hs)
    | review r => exact Or.inl (review_turn h hserial hok hx hs)
    | retry y => exact retry_turn h hserial hok hx hs
    | _ => exact hcurrent.elim

theorem Newborn.agreed (h : Newborn d q) : ∃ t, Agreed S d t q := by
  obtain ⟨row, hrow, hstatus⟩ := h.row
  refine ⟨row.tenantId, ?_, ⟨⟨row, hrow, rfl⟩, h.nodup, h.issued, ?_⟩, h.registry, Or.inl ?_⟩
  · exact fun x hx => Task.current_of_idle (h.idle x hx)
  · exact fun e he hd => absurd hd (h.letters e he)
  · refine .waiting ?_ ?_ ?_ h.runs h.deliveries
    · rw [Db.statusOf, hrow, Option.map_some, hstatus]
    · refine List.countP_eq_zero.2 fun e he => ?_
      simp [h.letters e he]
    · rintro ⟨row', hrow', hd⟩
      exact h.reviews row' hrow' hd

/-- **Documents and dead letters agree** after any orderly turns of runs,
    deliveries, retries and reviews: when no run of the document is on its way, a
    rejected document or one in error has exactly one pending letter, and a
    completed one or one in review has none in `retrying`. -/
theorem dead_letters_agree {q₀ : System} {row : Document} (hnew : Newborn d q₀)
    (h : Reach (System.step S) (fun q i => q.Serial Task.idle i ∧ Orderly d q i) q₀ q)
    (hrow : Rows.find Document.id q.shared.db.documents d = some row)
    (hruns : ∀ r, Task.run r ∈ q.tasks → r.documentId = d → r.pc.past = true) :
    (row.status = .rejected ∨ row.status = .error → q.shared.db.pendingLetters d = 1) ∧
      (row.status = .completed ∨ row.status = .review → ¬ q.shared.db.Retrying d) := by
  obtain ⟨t, hagreed₀⟩ := hnew.agreed (S := S)
  have hagreed : Agreed S d t q :=
    h.invariant hagreed₀ fun _ _ _ hq hok hs => agreed_step hq hok.1 hok.2 hs
  have hzero : q.total (Task.running d) = 0 := by
    refine List.sum_eq_zero fun n hn => ?_
    obtain ⟨x, hx, rfl⟩ := List.mem_map.1 hn
    cases x with
    | run r => exact running_eq_zero fun hd => hruns r hx hd
    | _ => rfl
  have hstatus : q.shared.db.statusOf d = some row.status := by rw [Db.statusOf, hrow, Option.map_some]
  rcases hagreed.phase with hphase | hretried
  · cases hphase with
    | waiting hs =>
      rw [hstatus, Option.some.injEq] at hs
      rw [hs]
      exact ⟨by simp, by simp⟩
    | completed hs hn =>
      rw [hstatus, Option.some.injEq] at hs
      rw [hs]
      exact ⟨by simp, fun _ => hn⟩
    | review hs hn =>
      rw [hstatus, Option.some.injEq] at hs
      rw [hs]
      exact ⟨by simp, fun _ => hn⟩
    | dead hs hp =>
      rw [hstatus, Option.some.injEq, Option.some.injEq] at hs
      refine ⟨fun _ => hp, ?_⟩
      rcases hs with hs | hs
      · rw [hs]
        simp
      · rw [hs]
        simp
  · have := hretried.runs
    omega

end

/-- The step is no commit of a run that was not rejected, and no commit of a retry
    that fails. -/
def Task.calm (db : Db) : Task → Bool
  | .run r =>
    match r.pc with
    | .commit f _ => finalStatus f = .rejected
    | _ => true
  | .retry y =>
    match y.pc with
    | .commit entry document => !y.raises .commit && (db.commit (retryWrites entry document)).isOk
    | _ => true
  | _ => false

theorem orderly_of_calm {d : Uuid} {q : System} {i : ℕ}
    (h : ∀ x ∈ q.tasks[i]?, x.calm q.shared.db = true) : Orderly d q i where
  run r f ws hr _ hpc _ _ hfinal := by
    have hcalm := h _ hr
    simp only [Task.calm, hpc, decide_eq_true_eq] at hcalm
    rw [hcalm] at hfinal
    rcases hfinal with hfinal | hfinal <;> cases hfinal
  review r ws hr := by cases h _ hr
  retry y entry document hy hpc _ := by
    have hcalm := h _ hy
    simp only [Task.calm, hpc, Bool.and_eq_true, Bool.not_eq_true'] at hcalm
    refine ⟨hcalm.1, ?_⟩
    cases hdb : q.shared.db.commit (retryWrites entry document) with
    | ok db => exact ⟨db, rfl⟩
    | error e =>
      rw [hdb] at hcalm
      cases hcalm.2

namespace Sample

/-- The run of the new document finds no chain; its letter is retried. -/
def failing (again : RunEnv) : System :=
  ⟨world [], [.run { run with env := noChain }, .retry { retry with dlqId := 0, run := again }]⟩

/-- The run, the retry, and the run of the retry, one after the other. -/
def turns : List ℕ := List.replicate 22 0 ++ List.replicate 4 1 ++ List.replicate 22 2

theorem failing_newborn (again : RunEnv) : Newborn documentId (failing again) where
  row := ⟨document, rfl, rfl⟩
  letters e he := by cases he
  reviews row hrow := by cases hrow
  nodup := List.nodup_nil
  issued e he := by cases he
  registry _ := rfl
  idle x hx := by
    simp only [failing, List.mem_cons, List.not_mem_nil, or_false] at hx
    rcases hx with rfl | rfl <;> rfl
  runs := le_rfl
  deliveries := rfl

end Sample

/-- A document whose retry ends like its first run: one letter of it is in
    `retrying`, one is pending. -/
theorem dead_letters_agree_sample :
    ∃ (q : System) (row : Document), Reach (System.step Sample.site)
        (fun q i => q.Serial Task.idle i ∧ Orderly Sample.documentId q i) (Sample.failing Sample.noChain) q ∧
      Rows.find Document.id q.shared.db.documents Sample.documentId = some row ∧ row.status = .rejected ∧
        q.shared.db.Retrying Sample.documentId ∧ q.shared.db.pendingLetters Sample.documentId = 1 := by
  have hrun : (exec (checked (System.step Sample.site) fun q i =>
      q.Serial Task.idle i ∧ ∀ x ∈ q.tasks[i]?, x.calm q.shared.db = true)
        (Sample.failing Sample.noChain) Sample.turns).any (fun q =>
          decide (q.total (Task.running Sample.documentId) = 0) && q.shared.db.Retrying Sample.documentId &&
            q.shared.db.statusOf Sample.documentId = some .rejected) = true := by
    decide +kernel
  have hcheck (q : System) (i : ℕ)
      (h : q.Serial Task.idle i ∧ ∀ x ∈ q.tasks[i]?, x.calm q.shared.db = true) :
      q.Serial Task.idle i ∧ Orderly Sample.documentId q i := ⟨h.1, orderly_of_calm h.2⟩
  obtain ⟨q, hreach, hfacts⟩ := exists_of_checked hcheck hrun
  simp only [Bool.and_eq_true, decide_eq_true_eq] at hfacts
  obtain ⟨⟨hnone, hretrying⟩, hstatus⟩ := hfacts
  obtain ⟨row, hrow, hrejected⟩ := Option.map_eq_some_iff.1 hstatus
  refine ⟨q, row, hreach, hrow, hrejected, hretrying, ?_⟩
  refine (dead_letters_agree (Sample.failing_newborn _) hreach hrow ?_).1 (Or.inl hrejected)
  intro r hr hd
  obtain ⟨j, hj⟩ := List.mem_iff_getElem?.1 hr
  have hle := weight_le_total (Task.running Sample.documentId) hj
  by_contra hpast
  have hone := running_eq_one hd (Bool.eq_false_iff.2 hpast)
  omega

/-- A document whose retry completes keeps its letter in `retrying`. -/
theorem retried_document_completed :
    ∃ (q : System) (row : Document), Newborn Sample.documentId (Sample.failing Sample.env) ∧
      Reach (System.step Sample.site) (fun q i => q.Serial Task.idle i) (Sample.failing Sample.env) q ∧
        (∀ x ∈ q.tasks, x.idle = true) ∧
          Rows.find Document.id q.shared.db.documents Sample.documentId = some row ∧
            row.status = .completed ∧ q.shared.db.Retrying Sample.documentId := by
  have hrun : (exec (checked (System.step Sample.site) fun q i => q.Serial Task.idle i)
      (Sample.failing Sample.env) Sample.turns).any (fun q =>
        q.tasks.all Task.idle && q.shared.db.Retrying Sample.documentId &&
          q.shared.db.statusOf Sample.documentId = some .completed) = true := by
    decide +kernel
  obtain ⟨q, hreach, hfacts⟩ := exists_of_checked (fun _ _ => id) hrun
  simp only [Bool.and_eq_true, List.all_eq_true, decide_eq_true_eq] at hfacts
  obtain ⟨⟨hidle, hretrying⟩, hstatus⟩ := hfacts
  obtain ⟨row, hrow, hcompleted⟩ := Option.map_eq_some_iff.1 hstatus
  exact ⟨q, row, Sample.failing_newborn _, hreach, hidle, hrow, hcompleted, hretrying⟩

end OcrService
