/-
  Concurrent retries of one dead-letter entry.

  `retry_dlq` tests the status, enqueues the run and commits in three steps.  A
  retry that enqueues while the entry is still `pending` and no other retry is
  about to commit, and whose commit does not fail, is the only one: the runs
  enqueued are then the committed transitions and the one about to commit, and
  at most one (`retry_once`).
-/
import OcrService.System.Written

namespace OcrService

open Trans

/-! ## The states of a retry -/

namespace RetryPc

/-- The entry that a retry holds. -/
def entry : RetryPc → Option DeadLetter
  | .readDocument entry | .enqueue entry _ | .commit entry _ => some entry
  | _ => none

/-- The run is enqueued, the transaction has not ended. -/
def committing : RetryPc → ℕ
  | .commit _ _ => 1
  | _ => 0

/-- The transition `pending` → `retrying` is committed. -/
def committed : RetryPc → ℕ
  | .done .accepted => 1
  | _ => 0

end RetryPc

namespace Task

def isRun : Task → ℕ
  | .run _ => 1
  | _ => 0

def committing : Task → ℕ
  | .retry y => y.pc.committing
  | _ => 0

def committed : Task → ℕ
  | .retry y => y.pc.committed
  | _ => 0

end Task

/-- The step `i` is no enqueue of a retry that another one has overtaken since
    it read the entry, and no commit of a retry that fails. -/
def Serialized (e : RowId) (q : System) (i : ℕ) : Prop :=
  ∀ y, q.tasks[i]? = some (.retry y) →
    match y.pc with
    | .enqueue _ _ =>
      q.total Task.committing = 0 ∧ ∃ row ∈ q.shared.db.dlq, row.id = e ∧ row.status = .pending
    | .commit entry document =>
      y.raises .commit = false ∧ ∃ db, q.shared.db.commit (retryWrites entry document) = .ok db
    | _ => True

/-- A retry of entry `e`, which it read as `pending`; its transaction was not
    rolled back. -/
structure RetryRequest.Of (e : RowId) (y : RetryRequest) : Prop where
  key : y.dlqId = e
  entry : ∀ entry, y.pc.entry = some entry → entry.id = e ∧ entry.status = .pending
  kept : y.pc ≠ .done .rolledBack

/-- A retry of entry `e`, a run or a delivery. -/
def Task.Of (e : RowId) : Task → Prop
  | .retry y => y.Of e
  | .run _ | .webhook _ => True
  | _ => False

/-! ## One step -/

section
variable {S : Site} {e : RowId} {w : World} {y : RetryRequest}

/-- What a step of a retry can do if its commit does not fail. -/
theorem RetryRequest.move_of (h : y.Of e) (hcommit : ∀ entry document, y.pc = .commit entry document →
      y.raises .commit = false ∧ ∃ db, w.db.commit (retryWrites entry document) = .ok db) :
    (∃ entry document, y.pc = .enqueue entry document ∧
      y.move w =
        { task := y.goto (.commit entry document)
          spawned := [enqueuePipeline y.proc entry.documentId entry.tenantId y.run] }) ∨
    (∃ entry document, y.pc = .commit entry document ∧
      y.move w =
        { change := .commit (retryWrites entry document), task := y.goto (.done .accepted) }) ∨
    (y.pc.committing = 0 ∧ ∃ pc, y.move w = { task := y.goto pc } ∧ (y.goto pc).Of e ∧
      pc.committing = 0 ∧ pc.committed = y.pc.committed) := by
  obtain ⟨hid, hentry, hkept⟩ := h
  cases hpc : y.pc <;> simp only [hpc, RetryPc.entry] at hentry hcommit <;>
    simp only [RetryRequest.move, hpc]
  case readEntry =>
    refine Or.inr (Or.inr ⟨rfl, ?_⟩)
    split_ifs
    · exact ⟨_, rfl, ⟨hid, by simp [goto, RetryPc.entry], by simp [goto]⟩, rfl, rfl⟩
    · cases hrow : w.db.deadLetter? y.tenantId y.dlqId with
      | none => exact ⟨_, rfl, ⟨hid, by simp [goto, RetryPc.entry], by simp [goto]⟩, rfl, rfl⟩
      | some entry =>
        dsimp only
        split_ifs with hs
        · exact ⟨_, rfl, ⟨hid, by simp [goto, RetryPc.entry], by simp [goto]⟩, rfl, rfl⟩
        · refine ⟨_, rfl, ⟨hid, fun entry' he => ?_, by simp [goto]⟩, rfl, rfl⟩
          cases he
          exact ⟨(deadLetter?_eq hrow).1.trans hid, not_not.1 hs⟩
  case readDocument entry =>
    refine Or.inr (Or.inr ⟨rfl, ?_⟩)
    split_ifs
    · exact ⟨_, rfl, ⟨hid, by simp [goto, RetryPc.entry], by simp [goto]⟩, rfl, rfl⟩
    · refine ⟨_, rfl, ⟨hid, fun entry' he => ?_, by simp [goto]⟩, rfl, rfl⟩
      cases he
      exact hentry entry rfl
  case enqueue entry document => exact Or.inl ⟨entry, document, rfl, rfl⟩
  case commit entry document =>
    obtain ⟨hraises, db, hdb⟩ := hcommit entry document rfl
    rw [hraises, hdb]
    exact Or.inr (Or.inl ⟨entry, document, rfl, rfl⟩)
  case done result =>
    refine Or.inr (Or.inr ⟨rfl, .done result, by rw [goto, ← hpc], ?_, rfl, rfl⟩)
    exact ⟨hid, by simp [goto, RetryPc.entry], by rw [hpc] at hkept; exact hkept⟩

/-- A run or a delivery updates no dead-letter entry. -/
theorem Prepared.no_updateDeadLetter {κ : Known} {x : Task} {ws : List Write} (h : Prepared S κ x ws)
    (hx : ∀ y, x ≠ .retry y) (old new : DeadLetter) : .updateDeadLetter old new ∉ ws := by
  intro hw
  cases h.written hw with
  | persist _ _ _ _ _ h => cases h
  | webhook h => exact h
  | retryEntry => exact hx _ rfl

/-- The rows of entry `e` are not `pending`, and the id was given out. -/
structure Taken (e : RowId) (db : Db) : Prop where
  status : ∀ row ∈ db.dlq, row.id = e → row.status ≠ .pending
  issued : e < db.nextId

theorem taken_apply {db db' : Db} {wr : Write} (h : Taken e db)
    (hw : ∀ old new, wr = .updateDeadLetter old new → new.id = e → new.status ≠ .pending)
    (hdb : wr.apply db = .ok db') : Taken e db' := by
  refine ⟨fun row hrow hid => ?_, h.issued.trans_le (nextId_mono hdb)⟩
  rcases mem_dlq_apply hdb hrow with hrow | ⟨old, rfl⟩ | hnew
  · exact h.status row hrow hid
  · exact hw old row rfl hid
  · exact absurd (hid.symm.trans hnew) h.issued.ne

/-- The transition of the entry takes it. -/
theorem taken_of_retry {db db' : Db} {entry : DeadLetter} {document : Option Document} (hid : entry.id = e)
    (hpending : entry.status = .pending) (hissued : e < db.nextId)
    (hdb : db.commit (retryWrites entry document) = .ok db') : Taken e db' := by
  obtain ⟨db₁, h₁, h₂⟩ := Db.commit_cons_ok.1 hdb
  have htaken : Taken e db₁ := by
    refine ⟨fun row hrow hrid => ?_, hissued.trans_le (nextId_mono h₁)⟩
    obtain ⟨-, rfl⟩ := Write.apply_ok.1 h₁
    have hne : ({ entry with status := .retrying, retryCount := entry.retryCount + 1 } : DeadLetter) ≠
        entry := fun h => by
      have := congrArg DeadLetter.status h
      rw [hpending] at this
      cases this
    simp only [Write.perform, if_neg hne] at hrow
    rw [Rows.mem_replace_key hrow (hrid.trans hid.symm)]
    simp
  refine Db.commit_induction h₂ htaken fun wr hwr db₂ db₃ h hdb₃ => taken_apply h ?_ hdb₃
  rintro old new rfl
  cases document with
  | none => cases hwr
  | some row => cases List.mem_singleton.1 hwr

end

/-! ## Whole runs -/

/-- The runs enqueued are the committed transitions and the one about to commit,
    at most one in all; and a committed transition has taken the entry. -/
structure Once (e : RowId) (q : System) : Prop where
  tasks : ∀ x ∈ q.tasks, x.Of e
  runs : q.total Task.isRun = q.total Task.committed + q.total Task.committing
  once : q.total Task.isRun ≤ 1
  issued : e < q.shared.db.nextId
  taken : q.total Task.committed = 0 ∨ Taken e q.shared.db

section
variable {S : Site} {e : RowId} {q q' : System} {i : ℕ} {x : Task}

theorem Task.Of.spawned {w : World} (h : x.Of e) : ∀ u ∈ (x.move S w).spawned, u.Of e := by
  intro u hu
  cases x with
  | run r => obtain ⟨v, -, rfl⟩ := List.mem_map.1 hu; trivial
  | retry y => obtain ⟨v, -, rfl⟩ := List.mem_map.1 hu; trivial
  | webhook v => cases hu
  | _ => exact h.elim

/-- What a step of a run or a delivery leaves as it is. -/
theorem Task.Of.other {w : World} (h : x.Of e) (hne : ∀ y, x ≠ .retry y) :
    (x.move S w).task.Of e ∧ (x.move S w).task.isRun = x.isRun ∧
      x.committing = 0 ∧ (x.move S w).task.committing = 0 ∧
      x.committed = 0 ∧ (x.move S w).task.committed = 0 := by
  cases x with
  | run r => exact ⟨trivial, rfl, rfl, rfl, rfl, rfl⟩
  | webhook v => exact ⟨trivial, rfl, rfl, rfl, rfl, rfl⟩
  | retry y => exact absurd rfl (hne y)
  | _ => exact h.elim

/-- A run or a delivery enqueues no run, and no retry. -/
theorem Task.Of.spawned_other {w : World} (h : x.Of e) (hne : ∀ y, x ≠ .retry y) :
    ((x.move S w).spawned.map isRun).sum = 0 ∧ ((x.move S w).spawned.map committing).sum = 0 ∧
      ((x.move S w).spawned.map committed).sum = 0 := by
  cases x with
  | run r => simp [Task.move, Function.comp_def, isRun, committing, committed]
  | webhook v => exact ⟨rfl, rfl, rfl⟩
  | retry y => exact absurd rfl (hne y)
  | _ => exact h.elim

theorem once_other (h : Once e q) (hx : q.tasks[i]? = some x) (hne : ∀ y, x ≠ .retry y)
    (hcommit : ∀ ws, (x.move S q.shared).change = .commit ws → Prepared S {} x ws)
    (hs : System.step S q i = some q') : Once e q' := by
  have hof := h.tasks x (List.mem_of_getElem? hx)
  obtain ⟨hof', hrun, hc, hc', hd, hd'⟩ := hof.other (S := S) (w := q.shared) hne
  obtain ⟨hsrun, hsc, hsd⟩ := hof.spawned_other (S := S) (w := q.shared) hne
  have htr := Pool.total_step Task.isRun hs hx
  have htc := Pool.total_step Task.committing hs hx
  have htd := Pool.total_step Task.committed hs hx
  simp only [Task.effect] at htr htc htd
  have hdb : e < q'.shared.db.nextId ∧ (Taken e q.shared.db → Taken e q'.shared.db) := by
    rw [System.shared_step hs hx]
    rcases World.db_apply (w := q.shared) (x.move S q.shared).change with hdb | ⟨ws, hch, hdb⟩
    · rw [hdb]
      exact ⟨h.issued, id⟩
    · refine ⟨Db.commit_induction (P := fun db => e < db.nextId) hdb h.issued
        fun _ _ _ _ h₁ h₂ => h₁.trans_le (nextId_mono h₂), fun htaken => ?_⟩
      refine Db.commit_induction hdb htaken fun wr hwr db₁ db₂ h₁ h₂ => taken_apply h₁ ?_ h₂
      rintro old new rfl
      exact absurd hwr ((hcommit ws hch).no_updateDeadLetter hne old new)
  refine ⟨fun u hu => ?_, ?_, ?_, hdb.1, ?_⟩
  · rcases Pool.mem_of_step hs hx hu with rfl | hu | hu
    · exact hof'
    · exact hof.spawned u hu
    · exact h.tasks u hu
  · have := h.runs; omega
  · have := h.once; omega
  · rcases h.taken with h₀ | htaken
    · left; omega
    · exact Or.inr (hdb.2 htaken)

/-- The step of a retry. -/
theorem once_retry {y : RetryRequest} (h : Once e q) (hx : q.tasks[i]? = some (.retry y))
    (hok : Serialized e q i) (hs : System.step S q i = some q') : Once e q' := by
  have hof : y.Of e := h.tasks _ (List.mem_of_getElem? hx)
  have hok := hok y hx
  have htr := Pool.total_step Task.isRun hs hx
  have htc := Pool.total_step Task.committing hs hx
  have htd := Pool.total_step Task.committed hs hx
  simp only [Task.effect, Task.move] at htr htc htd
  have hsh := System.shared_step hs hx
  simp only [Task.move] at hsh
  have hmem {v : Task} (hv : v ∈ q'.tasks) : v = .retry (y.move q.shared).task ∨ v.Of e := by
    rcases Pool.mem_of_step hs hx hv with rfl | hv | hv
    · exact Or.inl rfl
    · exact Or.inr (Task.Of.spawned (S := S) (x := .retry y) hof v hv)
    · exact Or.inr (h.tasks v hv)
  have hcommit : ∀ entry document, y.pc = .commit entry document →
      y.raises .commit = false ∧ ∃ db, q.shared.db.commit (retryWrites entry document) = .ok db := by
    intro entry document hpc
    rw [hpc] at hok
    exact hok
  obtain ⟨hruns, honce⟩ := And.intro h.runs h.once
  rcases RetryRequest.move_of hof hcommit with ⟨entry, document, hpc, hm⟩ | ⟨entry, document, hpc, hm⟩ |
    ⟨hpc, pc, hm, hof', hc', hd'⟩
  · -- the enqueue: nothing is enqueued yet
    rw [hpc] at hok
    obtain ⟨hnone, row, hrow, hid, hpending⟩ := hok
    have hzero : q.total Task.committed = 0 :=
      h.taken.resolve_right fun htaken => htaken.status row hrow hid hpending
    rw [hm] at htr htc htd hsh hmem
    simp only [Task.isRun, Task.committing, Task.committed, hpc, RetryRequest.goto, RetryPc.committing,
      RetryPc.committed, List.map_cons, List.map_nil, List.sum_cons, List.sum_nil] at htr htc htd
    refine ⟨fun v hv => ?_, ?_, ?_, ?_, Or.inl ?_⟩
    · rcases hmem hv with rfl | hv
      · exact ⟨hof.key, fun entry' he => hof.entry entry' (by rw [hpc]; exact he),
          by simp [RetryRequest.goto]⟩
      · exact hv
    · omega
    · omega
    · rw [hsh]
      exact h.issued
    · omega
  · -- the commit: the transition takes the entry
    obtain ⟨-, db, hdb⟩ := hcommit entry document hpc
    obtain ⟨hid, hpending⟩ := hof.entry entry (by rw [hpc]; rfl)
    have htaken := taken_of_retry hid hpending h.issued hdb
    rw [hm] at htr htc htd hsh hmem
    rw [World.apply_commit_ok hdb] at hsh
    simp only [Task.isRun, Task.committing, Task.committed, hpc, RetryRequest.goto, RetryPc.committing,
      RetryPc.committed, List.map_nil, List.sum_nil] at htr htc htd
    refine ⟨fun v hv => ?_, ?_, ?_, ?_, Or.inr ?_⟩
    · rcases hmem hv with rfl | hv
      · exact ⟨hof.key, by simp [RetryRequest.goto, RetryPc.entry], by simp [RetryRequest.goto]⟩
      · exact hv
    · omega
    · omega
    · rw [hsh]
      exact htaken.issued
    · rw [hsh]
      exact htaken
  · rw [hm] at htr htc htd hsh hmem
    simp only [Task.isRun, Task.committing, Task.committed, hpc, hc', hd', RetryRequest.goto, List.map_nil,
      List.sum_nil] at htr htc htd
    refine ⟨fun v hv => ?_, ?_, ?_, ?_, ?_⟩
    · rcases hmem hv with rfl | hv
      · exact hof'
      · exact hv
    · omega
    · omega
    · rw [hsh]
      exact h.issued
    · rw [hsh]
      exact h.taken.imp (by omega) id

/-- **A retry is idempotent under concurrency** as long as no retry enqueues
    after another one has, and no commit fails: the runs enqueued are the
    committed transitions and the one about to commit, and at most one. -/
theorem retry_once {q₀ : System}
    (hretries : ∀ x ∈ q₀.tasks, ∃ y, x = .retry y ∧ y.dlqId = e ∧ y.pc = .readEntry)
    (hissued : e < q₀.shared.db.nextId) (h : Reach (System.step S) (Serialized e) q₀ q) :
    q.total Task.isRun = q.total Task.committed + q.total Task.committing ∧ q.total Task.isRun ≤ 1 := by
  have hholds {q : System} (h : Reach (System.step S) (Serialized e) q₀ q) :
      ∀ x ∈ q.tasks, x.Holds S {} := by
    refine (reach_known (G := fun _ => True) (κ := fun _ => {}) (fun q i x _ _ _ _ => ?_)
      (fun _ _ _ _ _ _ _ _ => ⟨trivial, .refl _⟩) h trivial ?_).2
    · exact reads_documents (fun _ _ _ _ => trivial) fun _ _ _ _ _ => trivial
    · intro x hx
      obtain ⟨y, rfl, -, hpc⟩ := hretries x hx
      exact Task.Fresh.holds (t := .retry y) hpc
  have hzero (w : Task → ℕ) (hw : ∀ y : RetryRequest, y.pc = .readEntry → w (.retry y) = 0) :
      q₀.total w = 0 := by
    refine List.sum_eq_zero fun n hn => ?_
    obtain ⟨x, hx, rfl⟩ := List.mem_map.1 hn
    obtain ⟨y, rfl, -, hpc⟩ := hretries x hx
    exact hw y hpc
  have honce : Once e q := by
    refine (h.strengthen fun _ => hholds).invariant (I := Once e) ?_ ?_
    · refine ⟨fun x hx => ?_, ?_, ?_, hissued, Or.inl (hzero _ fun y hpc => ?_)⟩
      · obtain ⟨y, rfl, hid, hpc⟩ := hretries x hx
        exact ⟨hid, by rw [hpc]; simp [RetryPc.entry], by rw [hpc]; simp⟩
      · rw [hzero Task.isRun fun _ _ => rfl,
          hzero Task.committed fun y hpc => by simp [Task.committed, hpc, RetryPc.committed],
          hzero Task.committing fun y hpc => by simp [Task.committing, hpc, RetryPc.committing]]
      · rw [hzero Task.isRun fun _ _ => rfl]; exact Nat.zero_le 1
      · simp [Task.committed, hpc, RetryPc.committed]
    · rintro q i q' hq ⟨hholds, hok⟩ hs
      obtain ⟨x, hx, -⟩ := Pool.step_eq_some hs
      have hreads : x.Reads {} q.shared :=
        reads_documents (fun _ _ _ _ => trivial) fun _ _ _ _ _ => trivial
      have hcommit := (Task.move_holds (hholds x (List.mem_of_getElem? hx)) hreads).2
      cases x with
      | retry y => exact once_retry hq hx hok hs
      | _ => exact once_other hq hx (by simp) hcommit hs
  exact ⟨honce.runs, honce.once⟩

/-- One retry commits, and one that comes after it is refused. -/
theorem retry_once_sample :
    ∃ q, Reach (System.step Sample.site) (Serialized 1)
        ⟨Sample.undeliveredWorld, [.retry Sample.retry, .retry Sample.retry]⟩ q ∧
      q.tasks[0]? = some (.retry (Sample.retry.goto (.done .accepted))) ∧
      q.tasks[1]? = some (.retry (Sample.retry.goto (.done .conflict))) ∧
      q.total Task.isRun = q.total Task.committed + q.total Task.committing ∧ q.total Task.isRun ≤ 1 := by
  have hread : Reach (System.step Sample.site) (Serialized 1)
      ⟨Sample.undeliveredWorld, [.retry Sample.retry, .retry Sample.retry]⟩
      ⟨Sample.undeliveredWorld, [.retry (Sample.retry.goto (.readDocument Sample.undelivered)),
        .retry Sample.retry]⟩ :=
    .tail .refl (a := 0) (by rintro y ⟨⟩; trivial) rfl
  have hdoc := hread.tail (a := 0) (by rintro y ⟨⟩; trivial) rfl
  have henqueue := hdoc.tail (a := 0)
    (by rintro y ⟨⟩; exact ⟨rfl, Sample.undelivered, List.mem_singleton_self _, rfl, rfl⟩) rfl
  have hcommit := henqueue.tail (a := 0) (by rintro y ⟨⟩; exact ⟨rfl, _, rfl⟩) rfl
  have hrefused := hcommit.tail (a := 1) (by rintro y ⟨⟩; trivial) rfl
  have hretries : ∀ x ∈ [Task.retry Sample.retry, .retry Sample.retry],
      ∃ y, x = .retry y ∧ y.dlqId = 1 ∧ y.pc = .readEntry := by
    intro x hx
    rcases List.mem_cons.1 hx with rfl | hx
    · exact ⟨_, rfl, rfl, rfl⟩
    · exact ⟨_, List.mem_singleton.1 hx, rfl, rfl⟩
  exact ⟨_, hrefused, rfl, rfl, retry_once (e := 1) hretries (by decide) hrefused⟩

/-- Two retries that both read the entry as `pending` enqueue two runs; one of
    them commits. -/
theorem concurrent_retries_enqueue_twice :
    ∃ q, Reach (System.step Sample.site) (fun _ _ => True)
        ⟨Sample.undeliveredWorld, [.retry Sample.retry, .retry Sample.retry]⟩ q ∧
      q.total Task.isRun = 2 ∧ q.total Task.committed = 1 ∧ q.total Task.committing = 0 :=
  ⟨_, reach_of_exec (l := [0, 0, 1, 1, 0, 1, 0, 1]) rfl, rfl, rfl, rfl⟩

end

end OcrService
