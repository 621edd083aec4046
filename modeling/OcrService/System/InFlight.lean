/-
  The accounting of the rate limiter.

  `slots` counts what holds a slot of a tenant in a process: its runs that have
  not finished, and its extract requests between `acquire` and
  `enqueue_pipeline`.  A step changes the counter of the limiter by what it
  changes of the slots, unless it enqueues the run of a retry, which acquired
  none (`inflight_step`); so without such steps the counter is exact
  (`inflight_exact`).
-/
import OcrService.System.Changes

namespace OcrService

open Trans

/-! ## What holds a slot -/

/-- The request has acquired its slot and has not yet passed it on or released it. -/
def ExtractPc.holdsSlot : ExtractPc → Bool
  | .readTenant | .acquire _ | .done _ => false
  | _ => true

def RunPc.finished : RunPc → Bool
  | .done _ => true
  | _ => false

section
variable (p : ℕ) (t : Uuid)

/-- A run of the tenant in the process that has not finished. -/
def Task.runs : Task → ℕ
  | .run r => if r.proc = p ∧ r.tenantId = t ∧ r.pc.finished = false then 1 else 0
  | _ => 0

/-- An extract request of the tenant between `acquire` and `enqueue_pipeline`. -/
def Task.extracting : Task → ℕ
  | .extract x => if x.proc = p ∧ x.tenantId = t ∧ x.pc.holdsSlot = true then 1 else 0
  | _ => 0

/-- The slots of the tenant that a task holds. -/
def Task.slots (x : Task) : ℕ := x.runs p t + x.extracting p t

end

/-! ## One step -/

section
variable {S : Site} {w : World} {p p' : ℕ} {t t' : Uuid}

theorem inflight_acquire : ((w.apply (.acquire p' t')).procs p).inflight t =
    (w.procs p).inflight t + if p' = p ∧ t' = t then 1 else 0 := by
  simp only [World.apply, World.onProc, Function.update_apply]
  by_cases hp : p = p'
  · subst hp
    by_cases ht : t = t'
    · subst ht; simp [Proc.acquire]
    · simp [Proc.acquire, Function.update_of_ne ht, Ne.symm ht]
  · simp [hp, Ne.symm hp]

theorem inflight_release : ((w.apply (.release p' t')).procs p).inflight t =
    (w.procs p).inflight t - if p' = p ∧ t' = t then 1 else 0 := by
  simp only [World.apply, World.onProc, Function.update_apply]
  by_cases hp : p = p'
  · subst hp
    by_cases ht : t = t'
    · subst ht; simp [Proc.release]
    · simp [Proc.release, Function.update_of_ne ht, Ne.symm ht]
  · simp [hp, Ne.symm hp]

/-- The other changes leave the counters alone. -/
theorem inflight_other {c : Change} (h : ∀ p t, c ≠ .acquire p t ∧ c ≠ .release p t) :
    ((w.apply c).procs p).inflight t = (w.procs p).inflight t := by
  cases c with
  | acquire p t => exact absurd rfl (h p t).1
  | release p t => exact absurd rfl (h p t).2
  | commit ws => rw [World.apply_commit]
  | cancel p' d | clear p' d =>
    simp only [World.apply, World.onProc, Function.update_apply]
    split_ifs with hp <;> [(subst hp; rfl); rfl]
  | _ => rfl

theorem afterNode_finished (n : NodeName) (s : ExtractionState) (unsaved : Bool) :
    (RunPc.afterNode n s unsaved).finished = false := by
  unfold RunPc.afterNode
  split <;> rfl

/-- A change that leaves the counters alone. -/
def Change.KeepsSlots (c : Change) : Prop := ∀ p t, c ≠ .acquire p t ∧ c ≠ .release p t

theorem keepsSlots_write {r : RunTask} (p : RunPoint) (s : ExtractionState) : (r.write p s).KeepsSlots := by
  intro p' t
  rcases RunTask.write_cases (r := r) p s with h | h <;> simp [h]

/-- A run releases its slot when it finishes, and not before. -/
theorem run_move (r : RunTask) :
    (∃ o, r.pc = .release o ∧
      r.move S w = { change := .release r.proc r.tenantId, task := r.goto (.done o) }) ∨
    ((r.move S w).change.KeepsSlots ∧
      ∃ pc, (r.move S w).task = r.goto pc ∧ pc.finished = r.pc.finished) := by
  unfold Change.KeepsSlots
  cases hpc : r.pc <;> simp only [RunTask.move, hpc, RunTask.persistOutcome, RunTask.fail]
  case release o => exact Or.inl ⟨o, rfl, rfl⟩
  case done o => exact Or.inr ⟨by simp, .done o, by rw [RunTask.goto, ← hpc], rfl⟩
  case save n s unsaved =>
    exact Or.inr ⟨keepsSlots_write _ s, _, rfl, afterNode_finished n s _⟩
  case saveInput input =>
    split_ifs
    · exact Or.inr ⟨by simp, _, rfl, rfl⟩
    · exact Or.inr ⟨keepsSlots_write _ _, _, rfl, rfl⟩
  all_goals
    right
    repeat' split
    all_goals exact ⟨by simp, _, rfl, rfl⟩

/-- An extract request acquires a slot below the limit, passes it on to the run
    it enqueues, or releases it. -/
theorem extract_move (x : ExtractRequest) :
    (∃ limit, x.pc = .acquire limit ∧ (w.procs x.proc).inflight x.tenantId < limit ∧
      x.move S w = { change := .acquire x.proc x.tenantId, task := x.goto .create }) ∨
    (x.pc = .enqueue ∧
      x.move S w =
        { task := x.goto (.done .accepted)
          spawned := [enqueuePipeline x.proc x.documentId x.tenantId x.run] }) ∨
    (∃ result, x.pc = .release result ∧
      x.move S w = { change := .release x.proc x.tenantId, task := x.goto (.done result) }) ∨
    ((x.move S w).change.KeepsSlots ∧ (x.move S w).spawned = [] ∧
      ∃ pc, (x.move S w).task = x.goto pc ∧ pc.holdsSlot = x.pc.holdsSlot) := by
  unfold Change.KeepsSlots
  cases hpc : x.pc <;> simp only [ExtractRequest.move, hpc]
  case acquire limit =>
    split_ifs with h
    · exact Or.inr (Or.inr (Or.inr ⟨by simp, by simp, _, rfl, rfl⟩))
    · exact Or.inl ⟨limit, rfl, not_le.1 h, rfl⟩
  case enqueue => exact Or.inr (Or.inl ⟨trivial, trivial⟩)
  case release result => exact Or.inr (Or.inr (Or.inl ⟨result, rfl, rfl⟩))
  case done result =>
    exact Or.inr (Or.inr (Or.inr ⟨by simp, by simp, .done result, by rw [ExtractRequest.goto, ← hpc], rfl⟩))
  case saveBlob document =>
    right; right; right
    rcases x.torn_cases with h | ⟨blob, h⟩
    all_goals
      split_ifs
      all_goals exact ⟨by simp [h], by simp, _, rfl, rfl⟩
  all_goals
    right; right; right
    repeat' split
    all_goals exact ⟨by simp, by simp, _, rfl, rfl⟩

/-- A retry enqueues a run, or spawns nothing. -/
theorem retry_move (y : RetryRequest) :
    (y.move w).change.KeepsSlots ∧
      ((y.move w).spawned = [] ∨ ∃ entry document, y.pc = .enqueue entry document ∧
        (y.move w).spawned = [enqueuePipeline y.proc entry.documentId entry.tenantId y.run]) := by
  unfold Change.KeepsSlots
  cases hpc : y.pc <;> simp only [RetryRequest.move, hpc]
  case enqueue entry document => exact ⟨by simp, Or.inr ⟨entry, document, rfl, rfl⟩⟩
  all_goals
    repeat' split
    all_goals exact ⟨by simp, Or.inl (by simp)⟩

/-- Only runs and extract requests change the counters. -/
theorem move_keepsSlots (x : Task) (hrun : ∀ r, x ≠ .run r) (hextract : ∀ y, x ≠ .extract y) :
    (x.move S w).change.KeepsSlots := by
  have h := x.makes (S := S) (w := w)
  generalize (x.move S w).change = c at h ⊢
  intro p t
  cases h with
  | finish => exact absurd rfl (hrun _)
  | acquire | release => exact absurd rfl (hextract _)
  | _ => simp

/-- A task that is not a retry about to enqueue a run of the tenant in the
    process. -/
def Task.Paired (p : ℕ) (t : Uuid) : Task → Prop
  | .retry y => ∀ entry document, y.pc = .enqueue entry document → ¬ (y.proc = p ∧ entry.tenantId = t)
  | _ => True

/-- **One step** changes the counter by what it changes of the slots. -/
theorem inflight_step (x : Task) (hx : x.Paired p t) (hslots : x.slots p t ≤ (w.procs p).inflight t) :
    ((w.apply (x.move S w).change).procs p).inflight t + x.slots p t =
      (w.procs p).inflight t + (x.move S w).task.slots p t +
        ((x.move S w).spawned.map (Task.slots p t)).sum := by
  cases x with
  | run r =>
    have hspawned (l : List WebhookTask) : ((l.map Task.webhook).map (Task.slots p t)).sum = 0 := by
      induction l with
      | nil => rfl
      | cons t l ih => simpa [Task.slots, Task.runs, Task.extracting] using ih
    simp only [Task.move, hspawned, Nat.add_zero]
    rcases run_move (S := S) (w := w) r with ⟨o, hpc, hm⟩ | ⟨hc, pc, htask, hfin⟩
    · rw [hm, inflight_release]
      simp only [Task.slots, Task.runs, Task.extracting, RunTask.goto_proc, RunTask.goto_tenantId,
        RunTask.goto_pc, hpc, RunPc.finished] at hslots ⊢
      split_ifs at hslots ⊢ <;> simp_all
    · rw [inflight_other hc, htask]
      simp only [Task.slots, Task.runs, Task.extracting, RunTask.goto_proc, RunTask.goto_tenantId,
        RunTask.goto_pc, hfin]
  | extract x =>
    simp only [Task.move]
    rcases extract_move (S := S) (w := w) x with ⟨limit, hpc, -, hm⟩ | ⟨hpc, hm⟩ | ⟨result, hpc, hm⟩ |
      ⟨hc, hsp, pc, htask, hslot⟩
    · rw [hm, inflight_acquire]
      simp [Task.slots, Task.runs, Task.extracting, ExtractRequest.goto, hpc, ExtractPc.holdsSlot]
    · rw [hm]
      simp [Task.slots, Task.runs, Task.extracting, ExtractRequest.goto, hpc, ExtractPc.holdsSlot,
        World.apply, enqueuePipeline, RunPc.finished]
    · rw [hm, inflight_release]
      simp only [Task.slots, Task.runs, Task.extracting, ExtractRequest.goto, hpc, ExtractPc.holdsSlot]
        at hslots ⊢
      split_ifs at hslots ⊢ <;> simp_all
    · rw [inflight_other hc, hsp, htask]
      simp [Task.slots, Task.runs, Task.extracting, ExtractRequest.goto, hslot]
  | retry y =>
    simp only [Task.move]
    obtain ⟨hc, hsp | ⟨entry, document, hpc, hsp⟩⟩ := retry_move (w := w) y
    · rw [inflight_other hc, hsp]
      rfl
    · have := hx entry document hpc
      rw [inflight_other hc, hsp]
      simp only [List.map_cons, List.map_nil, Task.slots, Task.runs, Task.extracting, enqueuePipeline]
      rw [if_neg fun h => this ⟨h.1, h.2.1⟩]
      rfl
  | webhook v =>
    exact congrArg (· + 0) (inflight_other (move_keepsSlots (.webhook v) (by simp) (by simp)))
  | erase e => exact congrArg (· + 0) (inflight_other (move_keepsSlots (.erase e) (by simp) (by simp)))
  | review q => exact congrArg (· + 0) (inflight_other (move_keepsSlots (.review q) (by simp) (by simp)))
  | schema c => exact congrArg (· + 0) (inflight_other (move_keepsSlots (.schema c) (by simp) (by simp)))

end

/-! ## Whole runs -/

/-- The step `i` enqueues no run of a retry for the tenant in the process, and if
    it acquires a slot of it, then below a limit of at most `max`. -/
structure Accounted (p : ℕ) (t : Uuid) (max : ℕ) (q : System) (i : ℕ) : Prop where
  paired : ∀ x, q.tasks[i]? = some x → x.Paired p t
  limit : ∀ x limit, q.tasks[i]? = some (.extract x) → x.pc = .acquire limit → x.proc = p →
    x.tenantId = t → limit ≤ max

section
variable {S : Site} {p max : ℕ} {t : Uuid} {q q' : System} {i : ℕ}

theorem slots_le_total {x : Task} (h : q.tasks[i]? = some x) : x.slots p t ≤ q.total (Task.slots p t) :=
  List.single_le_sum (fun _ _ => Nat.zero_le _) _
    (List.mem_map_of_mem (List.mem_of_getElem? h))

/-- A step keeps the counter exact. -/
theorem exact_step (hq : (q.shared.procs p).inflight t = q.total (Task.slots p t))
    (hok : ∀ x, q.tasks[i]? = some x → x.Paired p t) (h : System.step S q i = some q') :
    (q'.shared.procs p).inflight t = q'.total (Task.slots p t) := by
  obtain ⟨x, hx, hsh, -⟩ := Pool.step_eq_some h
  have htotal := Pool.total_step (Task.slots p t) h hx
  have := inflight_step (S := S) (w := q.shared) x (hok x hx) (hq ▸ slots_le_total hx)
  rw [hsh]
  simp only [Task.effect] at htotal ⊢
  omega

/-- A step keeps the counter within the largest limit. -/
theorem bounded_step (hq : (q.shared.procs p).inflight t ≤ max) (hok : Accounted p t max q i)
    (h : System.step S q i = some q') : (q'.shared.procs p).inflight t ≤ max := by
  obtain ⟨x, hx, hsh, -⟩ := Pool.step_eq_some h
  rw [hsh]
  have hkeep {c : Change} (hc : c.KeepsSlots) :
      ((q.shared.apply c).procs p).inflight t ≤ max := (inflight_other hc).le.trans hq
  have hrelease (p' : ℕ) (t' : Uuid) :
      ((q.shared.apply (.release p' t')).procs p).inflight t ≤ max := by
    rw [inflight_release]
    exact (Nat.sub_le _ _).trans hq
  cases x with
  | run r =>
    simp only [Task.effect, Task.move]
    rcases run_move (S := S) (w := q.shared) r with ⟨o, -, hm⟩ | ⟨hc, -⟩
    · rw [hm]; exact hrelease _ _
    · exact hkeep hc
  | extract x =>
    simp only [Task.effect, Task.move]
    rcases extract_move (S := S) (w := q.shared) x with ⟨limit, hpc, hlt, hm⟩ | ⟨-, hm⟩ |
      ⟨result, -, hm⟩ | ⟨hc, -⟩
    · rw [hm, inflight_acquire]
      by_cases hpt : x.proc = p ∧ x.tenantId = t
      · have := hok.limit x limit hx hpc hpt.1 hpt.2
        rw [if_pos hpt]
        rw [hpt.1, hpt.2] at hlt
        omega
      · rw [if_neg hpt]; exact hq
    · rw [hm]; exact hq
    · rw [hm]; exact hrelease _ _
    · exact hkeep hc
  | webhook v => exact hkeep (move_keepsSlots (.webhook v) (by simp) (by simp))
  | erase e => exact hkeep (move_keepsSlots (.erase e) (by simp) (by simp))
  | review r => exact hkeep (move_keepsSlots (.review r) (by simp) (by simp))
  | retry y => exact hkeep (move_keepsSlots (.retry y) (by simp) (by simp))
  | schema c => exact hkeep (move_keepsSlots (.schema c) (by simp) (by simp))

theorem total_slots (q : System) :
    q.total (Task.slots p t) = q.total (Task.runs p t) + q.total (Task.extracting p t) := by
  simp only [Pool.total]
  induction q.tasks with
  | nil => rfl
  | cons x l ih =>
    simp only [List.map_cons, List.sum_cons, ih, Task.slots]
    omega

/-- **In-flight accounting is exact** as long as no run of a retry is enqueued:
    the counter is the number of runs and of extract requests under way, and
    the runs are no more than the largest limit passed to `acquire`. -/
theorem inflight_exact (h₀ : (q.shared.procs p).inflight t = 0)
    (hidle : ∀ x ∈ q.tasks, x.slots p t = 0) (h : Reach (System.step S) (Accounted p t max) q q') :
    (q'.shared.procs p).inflight t = q'.total (Task.runs p t) + q'.total (Task.extracting p t) ∧
      q'.total (Task.runs p t) ≤ max := by
  obtain ⟨hexact, hmax⟩ := h.invariant
    (I := fun q => (q.shared.procs p).inflight t = q.total (Task.slots p t) ∧
      (q.shared.procs p).inflight t ≤ max)
    ⟨by rw [h₀, Pool.total, List.sum_eq_zero (by simpa using hidle)], by omega⟩
    fun q i q' hq hok hs => ⟨exact_step hq.1 hok.paired hs, bounded_step hq.2 hok hs⟩
  rw [hexact, total_slots] at *
  exact ⟨rfl, by omega⟩

/-- `Accounted`, for the task that takes the step. -/
def Task.accounted (p : ℕ) (t : Uuid) (max : ℕ) : Task → Bool
  | .retry y =>
    match y.pc with
    | .enqueue entry _ => y.proc ≠ p || entry.tenantId ≠ t
    | _ => true
  | .extract x =>
    match x.pc with
    | .acquire limit => x.proc ≠ p || x.tenantId ≠ t || limit ≤ max
    | _ => true
  | _ => true

theorem accounted_of_all (h : ∀ x ∈ q.tasks[i]?, x.accounted p t max = true) : Accounted p t max q i where
  paired x hx := by
    have := h x hx
    cases x with
    | retry y =>
      rintro entry document hpc ⟨hp, ht⟩
      simp [Task.accounted, hpc, hp, ht] at this
    | _ => trivial
  limit x limit hx hpc hp ht := by
    have := h _ hx
    simpa [Task.accounted, hpc, hp, ht] using this

namespace Sample

/-- Two uploads. -/
def twoUploads : System := ⟨world [], [.extract extract, .extract { extract with documentId := 6 }]⟩

end Sample

/-- The run of an upload is under way, ends and releases its slot; then a second
    upload acquires it. -/
theorem inflight_sample :
    ∃ q q', Reach (System.step Sample.site) (Accounted 0 Sample.tenantId 1) Sample.twoUploads q ∧
      q.total (Task.runs 0 Sample.tenantId) = 1 ∧ (q.shared.procs 0).inflight Sample.tenantId = 1 ∧
      Reach (System.step Sample.site) (Accounted 0 Sample.tenantId 1) q q' ∧
        q'.total (Task.runs 0 Sample.tenantId) = 0 ∧ q'.total (Task.extracting 0 Sample.tenantId) = 1 ∧
        (q'.shared.procs 0).inflight Sample.tenantId = 1 := by
  have hrun : (exec (checked (System.step Sample.site) fun q i =>
      ∀ x ∈ q.tasks[i]?, x.accounted 0 Sample.tenantId 1 = true) Sample.twoUploads
        ([0, 1, 0, 0, 0, 0, 0] ++ List.replicate 10 2)).any (fun q =>
          q.total (Task.runs 0 Sample.tenantId) = 1 && q.total (Task.extracting 0 Sample.tenantId) = 0 &&
            (exec (checked (System.step Sample.site) fun q i =>
              ∀ x ∈ q.tasks[i]?, x.accounted 0 Sample.tenantId 1 = true) q
                (List.replicate 12 2 ++ [1, 1])).any fun q' =>
                  q'.total (Task.runs 0 Sample.tenantId) = 0 &&
                    q'.total (Task.extracting 0 Sample.tenantId) = 1) = true := by
    decide +kernel
  obtain ⟨q, hq, hrunning⟩ := exists_of_checked (fun _ _ => accounted_of_all) hrun
  simp only [Bool.and_eq_true, decide_eq_true_eq] at hrunning
  obtain ⟨⟨hruns, hnone⟩, hrun'⟩ := hrunning
  obtain ⟨q', hq', hreleased⟩ := exists_of_checked (fun _ _ => accounted_of_all) hrun'
  simp only [Bool.and_eq_true, decide_eq_true_eq] at hreleased
  obtain ⟨hruns', hextracting⟩ := hreleased
  have hidle : ∀ x ∈ Sample.twoUploads.tasks, x.slots 0 Sample.tenantId = 0 := by
    simp [Sample.twoUploads, Task.slots, Task.runs, Task.extracting, Sample.extract, ExtractPc.holdsSlot]
  have hexact := (inflight_exact rfl hidle hq).1
  have hexact' := (inflight_exact rfl hidle (hq.trans hq')).1
  rw [hruns, hnone] at hexact
  rw [hruns', hextracting] at hexact'
  exact ⟨q, q', hq, hruns, hexact, hq', hruns', hextracting, hexact'⟩

/-- A retry enqueues a run without a slot. -/
theorem retry_takes_no_slot :
    ∃ q, Reach (System.step Sample.site) (fun _ _ => True)
        ⟨Sample.undeliveredWorld, [.retry Sample.retry]⟩ q ∧
      (q.shared.procs 0).inflight Sample.tenantId = 0 ∧ q.total (Task.runs 0 Sample.tenantId) = 1 :=
  ⟨_, reach_of_exec (l := [0, 0, 0]) rfl, rfl, rfl⟩

end

end OcrService
