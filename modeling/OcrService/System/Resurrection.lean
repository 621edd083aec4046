/-
  The resurrection guard of `_persist_outcome`.

  A run reads the row of its document before it writes the outcome, and skips a
  cancelled one.  A row that was read pending is stale once an erasure has
  committed `cancelled`; every outcome changes the status, so the versioned
  UPDATE fails and takes its transaction with it (`persist_refused`).  So a run
  of a pending document writes nothing after that commit
  (`cancelled_run_writes_nothing`), as long as no retry, no review and no other
  run of the document sets its status.
-/
import OcrService.System.Cancelled

namespace OcrService

open Trans

/-! ## Who takes part -/

/-- The next step of the run is the commit of `_persist_outcome`. -/
def RunPc.persists : RunPc → Bool
  | .commit _ _ => true
  | _ => false

/-- The run is past that commit. -/
def RunPc.past : RunPc → Bool
  | .persisted _ | .release _ | .done _ => true
  | _ => false

/-- Step `i` is not taken by a review, a retry, or a run of document `d` other
    than task `j`. -/
structure Unrevived (d : Uuid) (j : ℕ) (q : System) (i : ℕ) : Prop where
  run : ∀ r, q.tasks[i]? = some (.run r) → r.documentId = d → i = j
  review : ∀ r, q.tasks[i]? ≠ some (.review r)
  retry : ∀ y, q.tasks[i]? ≠ some (.retry y)

/-- Step `i` is not taken by a review or a retry, and commits no outcome of
    document `d`. -/
structure Unpersisting (d : Uuid) (q : System) (i : ℕ) : Prop where
  run : ∀ r, q.tasks[i]? = some (.run r) → r.documentId = d → r.pc.persists = false
  review : ∀ r, q.tasks[i]? ≠ some (.review r)
  retry : ∀ y, q.tasks[i]? ≠ some (.retry y)

/-- From `q` to `q'`, an erasure of document `d` commits the status `cancelled`. -/
def Cancels (S : Site) (d : Uuid) (q q' : System) : Prop :=
  ∃ i e document, q.tasks[i]? = some (.erase e) ∧ e.documentId = d ∧
    e.pc = .commitCancelled document ∧
    (e.move S q.shared).change = .commit (EraseTask.cancelWrites document) ∧
    System.step S q i = some q'

section
variable {S : Site} {w : World} {r : RunTask} {d : Uuid} {i j : ℕ} {q q' : System}

theorem unrevived_of_erase {e : EraseTask} (h : q.tasks[i]? = some (.erase e)) : Unrevived d j q i where
  run r' hr' := by cases Option.some.inj (h.symm.trans hr')
  review r' hr' := by cases Option.some.inj (h.symm.trans hr')
  retry y hy := by cases Option.some.inj (h.symm.trans hy)

/-- A run gets past its commit and stays there. -/
theorem RunTask.move_past : ∃ pc, (r.move S w).task = r.goto pc ∧
    (pc.past = false → r.pc.past = false ∧ r.pc.persists = false) := by
  have hfail : ∃ pc, r.fail.task = r.goto pc ∧
      (pc.past = false → r.pc.past = false ∧ r.pc.persists = false) := by
    refine ⟨_, rfl, ?_⟩
    intro h
    cases h
  cases hpc : r.pc <;> rw [hpc] at hfail <;> simp only [RunTask.move, hpc, RunTask.persistOutcome]
  case commit s ws =>
    split_ifs
    · exact hfail
    · cases w.db.commit ws with
      | error e => exact hfail
      | ok db =>
        refine ⟨_, rfl, ?_⟩
        intro h
        cases h
  case persisted s =>
    refine ⟨_, rfl, ?_⟩
    intro h
    cases h
  case release o =>
    refine ⟨_, rfl, ?_⟩
    intro h
    cases h
  case done o =>
    refine ⟨.done o, ?_, ?_⟩
    · rw [RunTask.goto, ← hpc]
    · intro h
      cases h
  all_goals
    repeat' split
    all_goals first
      | exact hfail
      | exact ⟨_, rfl, fun _ => ⟨rfl, rfl⟩⟩

/-- A run commits at its commit only. -/
theorem RunTask.move_persists {ws : List Write} (h : (r.move S w).change = .commit ws) :
    r.pc.persists = true := by
  cases hpc : r.pc <;> simp only [RunTask.move, hpc, RunTask.persistOutcome, RunTask.fail] at h
  case commit s ws' => rfl
  all_goals
    repeat' split at h
    all_goals first
      | exact absurd h (write_ne_commit _ _ _)
      | cases h

/-- **Until the run is past its commit, no outcome is committed.** -/
theorem unpersisting_reach {r₀ : RunTask} (hrun : q.tasks[j]? = some (.run r₀)) (hd : r₀.documentId = d)
    (h : Reach (System.step S) (Unrevived d j) q q') :
    ∃ r, q'.tasks[j]? = some (.run r) ∧ r.documentId = d ∧
      (r.pc.past = false → r₀.pc.past = false ∧ Reach (System.step S) (Unpersisting d) q q') := by
  induction h with
  | refl => exact ⟨r₀, hrun, hd, fun hpast => ⟨hpast, .refl⟩⟩
  | @tail q₁ q₂ i hr hok hs ih =>
    obtain ⟨r, hr₁, hrd, hearly⟩ := ih
    rcases Pool.moved_or_same_of_step hs hr₁ with ⟨rfl, hr₂⟩ | ⟨hij, hr₂⟩
    · obtain ⟨pc, hmove, hpast⟩ := RunTask.move_past (S := S) (w := q₁.shared) (r := r)
      refine ⟨r.goto pc, ?_, hrd, ?_⟩
      · rw [hr₂, ← hmove]
        rfl
      · intro hpc
        obtain ⟨hearly₁, hpersists⟩ := hpast hpc
        obtain ⟨hearly₀, hreach⟩ := hearly hearly₁
        refine ⟨hearly₀, hreach.tail ⟨?_, hok.review, hok.retry⟩ hs⟩
        rintro r' hr' -
        cases Option.some.inj (hr₁.symm.trans hr')
        exact hpersists
    · refine ⟨r, hr₂, hrd, ?_⟩
      intro hpc
      obtain ⟨hearly₀, hreach⟩ := hearly hpc
      refine ⟨hearly₀, hreach.tail ⟨?_, hok.review, hok.retry⟩ hs⟩
      intro r' hr' hd'
      exact absurd (hok.run r' hr' hd') hij

end

/-! ## The status of the row -/

/-- The status of document `d`, if its row is still there, is one of `P`. -/
structure Calm (d : Uuid) (P : DocumentStatus → Prop) (db : Db) : Prop where
  issued : db.Issued
  given : d ∈ db.issued
  row : ∀ row, Rows.find Document.id db.documents d = some row → P row.status

/-- The statuses of a pending document that has no outcome. -/
def unsettled (status : DocumentStatus) : Prop := status = .pending ∨ status = .cancelled

/-- A copy of document `d` was read pending, or cancelled for good. -/
def Known.unsettled (d : Uuid) (db : Db) : Known :=
  .documents (fun copy => copy.id = d → Copied d db copy ∧
      (copy.status = .pending ∨ copy.status = .cancelled ∧ Calm d (· = .cancelled) db))
    fun _ => True

section
variable {S : Site} {κ : Known} {d : Uuid} {w : World} {x : Task} {i : ℕ} {q q' : System}
  {P : DocumentStatus → Prop} {db db' : Db} {wr : Write}

theorem calm_apply (h : Calm d P db) (hw : wr.KeepsId)
    (hupd : ∀ old new, wr = .updateDocument old new → old.id = d → P new.status)
    (hdb : wr.apply db = .ok db') : Calm d P db' := by
  refine ⟨issued_apply h.issued hw hdb, issued_mono hdb h.given, row_all_apply h.given h.row hw ?_ hdb⟩
  rintro old new row hwr - hid - -
  exact hupd old new hwr hid

/-- **A step that commits no outcome leaves the status, or cancels.** -/
theorem calm_step (hP : P .cancelled) (h : Calm d P q.shared.db) (hx : q.tasks[i]? = some x)
    (hok : Unpersisting d q i)
    (hcommit : ∀ ws, (x.move S q.shared).change = .commit ws → Prepared S κ x ws) :
    Calm d P (q.shared.apply (x.move S q.shared).change).db := by
  refine World.db_induction h ?_
  intro ws hc hdb wr hwr db₁ db₂ h₁ happly
  have hprep := hcommit ws hc
  refine calm_apply h₁ (hprep.written hwr).keepsId ?_ happly
  rintro old new rfl hid
  cases hprep.written hwr with
  | @persist r _ _ _ _ hrid _ _ _ hp =>
    cases hp
    have hpersists := hok.run r hx (hrid.symm.trans hid)
    rw [RunTask.move_persists hc] at hpersists
    cases hpersists
  | webhook hw => exact hw.elim
  | cancel => exact hP
  | reviewDocument => exact absurd hx (hok.review _)
  | retryDocument => exact absurd hx (hok.retry _)
  | storageKey =>
    cases hprep with
    | create => exact absurd (hid ▸ h.given) (issued_of_create hdb hwr)

theorem reads_unsettled (h : Calm d unsettled w.db) : x.Reads (Known.unsettled d w.db) w := by
  refine reads_documents ?_ fun _ _ _ _ _ => trivial
  intro t d' row hrow hid
  refine ⟨copied_read h.issued hrow hid, ?_⟩
  have hfind := (find_of_document? hrow).2.2
  rw [hid] at hfind
  rcases h.row row hfind with hpending | hc
  · exact Or.inl hpending
  · refine Or.inr ⟨hc, h.issued, h.given, ?_⟩
    intro row' hrow'
    cases Option.some.inj (hfind.symm.trans hrow')
    exact hc

/-- **Until an outcome is committed**, the document is pending or cancelled, and
    so are all copies of it. -/
theorem unsettled_reach (h₀ : Calm d unsettled q.shared.db) (hfresh : ∀ x ∈ q.tasks, x.Fresh)
    (h : Reach (System.step S) (Unpersisting d) q q') :
    Calm d unsettled q'.shared.db ∧ ∀ x ∈ q'.tasks, x.Holds S (Known.unsettled d q'.shared.db) := by
  refine reach_known (G := fun w => Calm d unsettled w.db) (κ := fun w => Known.unsettled d w.db)
    (fun _ _ _ hG _ _ _ => reads_unsettled hG) ?_ h h₀ fun x hx => (hfresh x hx).holds
  intro q i x hG hx hok _ hcommit
  refine ⟨calm_step (Or.inr rfl) hG hx hok hcommit, ?_⟩
  refine Known.documents_le ?_ fun _ => id
  intro copy hcopy hid
  obtain ⟨hcopied, hstatus⟩ := hcopy hid
  refine ⟨(copied_step hG.issued hcommit).2 copy hcopied, ?_⟩
  exact hstatus.imp id fun hc => ⟨hc.1, calm_step rfl hc.2 hx hok hcommit⟩

/-- Once cancelled, the document stays so. -/
theorem cancelled_reach (h₀ : Calm d (· = .cancelled) q.shared.db)
    (hholds : ∀ x ∈ q.tasks, x.Holds S κ) (h : Reach (System.step S) (Unpersisting d) q q') :
    Calm d (· = .cancelled) q'.shared.db := by
  have hle : κ.Le {} := ⟨fun _ => trivial, fun _ => trivial, fun _ => trivial, fun _ => trivial,
    fun _ => trivial, fun _ => trivial, fun _ => trivial⟩
  refine (reach_known (G := fun w => Calm d (· = .cancelled) w.db) (κ := fun _ => {}) ?_ ?_ h h₀
    fun x hx => (hholds x hx).mono hle).1
  · intro q i x _ _ _ _
    exact reads_documents (fun _ _ _ _ => trivial) fun _ _ _ _ _ => trivial
  · intro q i x hG hx hok _ hcommit
    exact ⟨calm_step rfl hG hx hok hcommit, .refl _⟩

/-- The first transaction of an erasure, once it has committed: the document is
    cancelled, or it was. -/
theorem calm_of_cancelWrites {document : Document} (hissued : db.Issued) (hgiven : d ∈ db.issued)
    (hid : document.id = d) (hcancelled : document.status = .cancelled → Calm d (· = .cancelled) db)
    (hdb : db.commit (EraseTask.cancelWrites document) = .ok db') : Calm d (· = .cancelled) db' := by
  have happly := commit_one.1 hdb
  have hkeep : (Write.updateDocument document { document with status := .cancelled }).KeepsId := by
    rintro old new ⟨⟩
    rfl
  by_cases hstatus : document.status = .cancelled
  · refine calm_apply (hcancelled hstatus) hkeep ?_ happly
    rintro old new ⟨⟩ -
    rfl
  · refine ⟨issued_apply hissued hkeep happly, issued_mono happly hgiven, ?_⟩
    intro row hrow
    obtain ⟨hupd, rfl⟩ := updateDocument_ok.1 happly
    have hne : ({ document with status := .cancelled } : Document) ≠ document := by
      intro heq
      exact hstatus (congrArg Document.status heq).symm
    obtain ⟨-, row', hfind, -⟩ := hupd.resolve_left hne
    have hnew := find_updateDocument document { document with status := .cancelled } rfl hfind
    rw [if_neg hne] at hnew
    rw [← hid] at hrow
    cases Option.some.inj (hnew.symm.trans hrow)
    rfl

/-- What an erasure commits; a transaction that fails is not the change of a step. -/
theorem EraseTask.change_commit {e : EraseTask} {ws : List Write} (hc : (e.move S w).change = .commit ws) :
    ((∃ document, e.pc = .commitCancelled document ∧ ws = cancelWrites document) ∨
      e.pc = .delete ∧ ws = e.deleteWrites S) ∧ ∃ db, w.db.commit ws = .ok db := by
  cases hpc : e.pc <;> simp only [move, hpc] at hc
  case commitCancelled document =>
    split_ifs at hc
    cases hdb : w.db.commit (cancelWrites document) with
    | error err =>
      rw [hdb] at hc
      cases hc
    | ok db =>
      rw [hdb] at hc
      cases hc
      exact ⟨Or.inl ⟨document, rfl, rfl⟩, db, hdb⟩
  case delete =>
    split_ifs at hc
    cases hdb : w.db.commit (e.deleteWrites S) with
    | error err =>
      rw [hdb] at hc
      cases hc
    | ok db =>
      rw [hdb] at hc
      cases hc
      exact ⟨Or.inr ⟨rfl, rfl⟩, db, hdb⟩
  all_goals
    repeat' split at hc
    all_goals cases hc

/-- **The commit of an erasure cancels the document.** -/
theorem calm_of_cancels (h : Calm d unsettled q.shared.db)
    (hholds : ∀ x ∈ q.tasks, x.Holds S (Known.unsettled d q.shared.db)) (hc : Cancels S d q q') :
    Calm d (· = .cancelled) q'.shared.db := by
  obtain ⟨i, e, document, he, hd, hpc, hchange, hs⟩ := hc
  have hsh : q'.shared = q.shared.apply (e.move S q.shared).change := System.shared_step hs he
  obtain ⟨hknown, hid, -⟩ : (Known.unsettled d q.shared.db).document document ∧
      document.id = e.documentId ∧ document.tenantId = e.tenantId := by
    have := hholds _ (List.mem_of_getElem? he)
    simpa only [Task.Holds, EraseTask.Holds, hpc] using this
  obtain ⟨-, hstatus⟩ := hknown (hid.trans hd)
  obtain ⟨-, db, hdb⟩ := EraseTask.change_commit hchange
  rw [hsh, hchange, World.apply_commit_ok hdb]
  refine calm_of_cancelWrites h.issued h.given (hid.trans hd) ?_ hdb
  intro hcancelled
  rcases hstatus with hpending | hstatus
  · rw [hcancelled] at hpending
    cases hpending
  · exact hstatus.2

/-- The transaction of an outcome begins with the document. -/
theorem persistWrites_head {t : Uuid} {nonces : ℕ → Bytes} {document : Document} {f : ExtractionState}
    {ws : List Write} (hws : persistWrites S t nonces document f = .ok ws) :
    ∃ ws', ws = .updateDocument document (persistedDocument document f) :: ws' := by
  unfold persistWrites at hws
  cases hst : statusWrites S document.id t nonces f with
  | error err =>
    rw [hst] at hws
    cases hws
  | ok rows =>
    rw [hst] at hws
    cases hws
    exact ⟨_, rfl⟩

/-- **The outcome of a run is refused** once its document was cancelled. -/
theorem persist_refused {t : Uuid} {nonces : ℕ → Bytes} {document : Document} {f : ExtractionState}
    {ws : List Write} (h : Calm d (· = .cancelled) db) (hid : document.id = d)
    (hcopied : Copied d db document) (hpending : document.status = .pending)
    (hws : persistWrites S t nonces document f = .ok ws) : db.commit ws ≠ .ok db' := by
  intro hdb
  subst hid
  obtain ⟨ws', rfl⟩ := persistWrites_head hws
  obtain ⟨db₁, h₁, -⟩ := Db.commit_cons_ok.1 hdb
  obtain ⟨hupd, -⟩ := updateDocument_ok.1 h₁
  have hne : persistedDocument document f ≠ document := by
    intro heq
    have hterminal := persistedStatus_terminal f
    rw [show persistedStatus f = .pending from (congrArg Document.status heq).trans hpending] at hterminal
    exact absurd hterminal (by decide)
  obtain ⟨-, row, hfind, hv⟩ := hupd.resolve_left hne
  rcases hcopied.current row hfind with hlt | rfl
  · exact absurd hv hlt.ne'
  · have hc := h.row document hfind
    rw [hpending] at hc
    cases hc

end

/-! ## The guard -/

section
variable {S : Site} {d : Uuid} {j : ℕ} {q₀ q q₁ q' q'' : System} {row : Document} {r : RunTask}

/-- **Resurrection guard.**  From a state in which document `d` is pending and
    task `j` is its run, once an erasure of `d` has committed `cancelled`, no
    step of the run changes the database. -/
theorem cancelled_run_writes_nothing (hissued : q₀.shared.db.Issued)
    (hrow : Rows.find Document.id q₀.shared.db.documents d = some row)
    (hpending : row.status = .pending) (hfresh : ∀ x ∈ q₀.tasks, x.Fresh)
    (hrun : q₀.tasks[j]? = some (.run r)) (hd : r.documentId = d)
    (h : Reach (System.step S) (Unrevived d j) q₀ q) (hc : Cancels S d q q₁)
    (h' : Reach (System.step S) (Unrevived d j) q₁ q') (hs : System.step S q' j = some q'') :
    q''.shared.db = q'.shared.db := by
  obtain ⟨r₁, hr₁, hd₁, hearly₁⟩ := unpersisting_reach hrun hd h
  obtain ⟨i, e, document, he, hed, hpc, hchange, hstep⟩ := hc
  have herase : Unrevived d j q i := unrevived_of_erase he
  obtain ⟨r₂, hr₂, hd₂, hearly₂⟩ := unpersisting_reach hr₁ hd₁ (Reach.refl.tail herase hstep)
  obtain ⟨r', hr', hd', hearly'⟩ := unpersisting_reach hr₂ hd₂ h'
  have hsh : q''.shared = q'.shared.apply (r'.move S q'.shared).change := System.shared_step hs hr'
  rw [hsh]
  rcases World.db_apply (w := q'.shared) (r'.move S q'.shared).change with hdb | ⟨ws, hcommit, hdb⟩
  · exact hdb
  · -- the run is at its commit, so no outcome has been committed before
    have hpast : r'.pc.past = false := by
      have hpersists := RunTask.move_persists hcommit
      cases hpc' : r'.pc <;> rw [hpc'] at hpersists <;> first | rfl | cases hpersists
    obtain ⟨hpast₂, hreach'⟩ := hearly' hpast
    obtain ⟨hpast₁, -⟩ := hearly₂ hpast₂
    obtain ⟨-, hreach⟩ := hearly₁ hpast₁
    have hcalm₀ : Calm d unsettled q₀.shared.db := by
      refine ⟨hissued, ?_, ?_⟩
      · have := hissued row (Rows.mem_of_find hrow)
        rwa [Rows.key_of_find hrow] at this
      · intro row' hrow'
        cases Option.some.inj (hrow.symm.trans hrow')
        exact Or.inl hpending
    obtain ⟨hcalm, hholds⟩ := unsettled_reach hcalm₀ hfresh hreach
    have hcancelled := calm_of_cancels hcalm hholds ⟨i, e, document, he, hed, hpc, hchange, hstep⟩
    have herase' : Unpersisting d q i := by
      refine ⟨?_, herase.review, herase.retry⟩
      intro r'' hr''
      cases Option.some.inj (he.symm.trans hr'')
    obtain ⟨hcalm', hholds'⟩ :=
      unsettled_reach hcalm₀ hfresh ((hreach.tail herase' hstep).trans hreach')
    obtain ⟨-, hholds₁⟩ := unsettled_reach hcalm₀ hfresh (hreach.tail herase' hstep)
    have hcancelled' := cancelled_reach hcancelled hholds₁ hreach'
    have hprep := (Task.move_holds (hholds' _ (List.mem_of_getElem? hr')) (reads_unsettled hcalm')).2
      ws hcommit
    cases hprep with
    | @persist _ copy f _ hknown hid htenant hlive hf hws =>
      obtain ⟨hcopied, hstatus⟩ := hknown (hid.trans hd')
      have hcopy : copy.status = .pending := hstatus.resolve_right fun hc => hlive hc.1
      exact absurd hdb (persist_refused hcancelled' (hid.trans hd') hcopied hcopy hws)

end

/-- `Unrevived`, for task `x` taking step `i`. -/
def Task.unrevived (d : Uuid) (j i : ℕ) : Task → Bool
  | .run r => r.documentId ≠ d || i = j
  | .review _ | .retry _ => false
  | _ => true

/-- A step whose task is checked. -/
def checkedStep (S : Site) (d : Uuid) (j : ℕ) : System → ℕ → Option System :=
  checked (System.step S) fun q i => (q.tasks[i]?).all (Task.unrevived d j i) = true

theorem exists_of_checkedStep {S : Site} {d : Uuid} {j : ℕ} {q : System} {P : System → Bool} {l : List ℕ}
    (h : (exec (checkedStep S d j) q l).any P = true) :
    ∃ q', Reach (System.step S) (Unrevived d j) q q' ∧ P q' = true := by
  refine exists_of_checked (fun q i hall => ?_) h
  constructor
  · intro r hr hd
    rw [hr] at hall
    simpa [Task.unrevived, hd] using hall
  · intro r hr
    rw [hr] at hall
    cases hall
  · intro y hy
    rw [hy] at hall
    cases hall

/-- An erasure of document `d` that is about to commit `cancelled`, and can. -/
def Task.cancels (d : Uuid) (w : World) : Task → Bool
  | .erase e =>
    match e.pc with
    | .commitCancelled document =>
      e.documentId = d && !e.raises .commitCancelled &&
        (w.db.commit (EraseTask.cancelWrites document)).isOk
    | _ => false
  | _ => false

theorem Cancels.of_task {S : Site} {d : Uuid} {q q' : System} {i : ℕ} {x : Task}
    (hx : q.tasks[i]? = some x) (h : x.cancels d q.shared = true) (hs : System.step S q i = some q') :
    Cancels S d q q' := by
  unfold Task.cancels at h
  split at h
  case h_1 e =>
    split at h
    case h_1 document hpc =>
      simp only [Bool.and_eq_true, decide_eq_true_eq, Bool.not_eq_true'] at h
      obtain ⟨⟨hd, hraise⟩, hok⟩ := h
      refine ⟨i, e, document, hx, hd, hpc, ?_, hs⟩
      cases hdb : q.shared.db.commit (EraseTask.cancelWrites document) with
      | ok db => simp only [EraseTask.move, hpc, hraise, hdb, Bool.false_eq_true, if_false]
      | error e =>
        rw [hdb] at hok
        cases hok
    case h_2 => cases h
  case h_2 => cases h

/-- A run that is about to commit its outcome. -/
def Task.persists : Task → Bool
  | .run r => r.pc.persists
  | _ => false

/-- The run has read its document `pending` and passed the guard when an erasure in
    another process commits `cancelled`: the commit of the run changes nothing. -/
theorem cancelled_run_writes_nothing_sample :
    ∃ (q q₁ q' : System) (x : Task), Reach (System.step Sample.site) (Unrevived Sample.documentId 0)
        ⟨Sample.world [], [.run Sample.run, .erase { Sample.erase with proc := 1 }]⟩ q ∧
      Cancels Sample.site Sample.documentId q q₁ ∧ q₁.tasks[0]? = some x ∧ x.persists = true ∧
        System.step Sample.site q₁ 0 = some q' ∧ q'.shared.db = q₁.shared.db := by
  have hrun : (exec (checkedStep Sample.site Sample.documentId 0)
      ⟨Sample.world [], [.run Sample.run, .erase { Sample.erase with proc := 1 }]⟩
        (List.replicate 19 0 ++ [1, 1])).any (fun q =>
          (q.tasks[1]?).any (Task.cancels Sample.documentId q.shared) &&
            (System.step Sample.site q 1).any fun q₁ =>
              (q₁.tasks[0]?).any Task.persists && (System.step Sample.site q₁ 0).isSome) = true := by
    decide +kernel
  obtain ⟨q, hreach, hcancels⟩ := exists_of_checkedStep hrun
  rw [Bool.and_eq_true] at hcancels
  obtain ⟨hcancels, hnext⟩ := hcancels
  obtain ⟨e, he, hcancels⟩ := (Option.any_eq_true _ _).1 hcancels
  obtain ⟨q₁, hq₁, hcommit⟩ := (Option.any_eq_true _ _).1 hnext
  rw [Bool.and_eq_true] at hcommit
  obtain ⟨x, hx, hpersists⟩ := (Option.any_eq_true _ _).1 hcommit.1
  obtain ⟨q', hq'⟩ := Option.isSome_iff_exists.1 hcommit.2
  have hfresh : ∀ x ∈ [Task.run Sample.run, .erase { Sample.erase with proc := 1 }], x.Fresh := by
    simp [Task.Fresh, Sample.run, Sample.erase]
  have hissued : (Sample.world []).db.Issued := by decide
  have hpending : Sample.document.status = .pending := rfl
  have hcancelled := Cancels.of_task he hcancels hq₁
  refine ⟨q, q₁, q', x, hreach, hcancelled, hx, hpersists, hq', ?_⟩
  exact cancelled_run_writes_nothing (S := Sample.site) (r := Sample.run) hissued rfl hpending hfresh rfl
    rfl hreach hcancelled .refl hq'

end OcrService
