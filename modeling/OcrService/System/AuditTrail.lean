/-
  The audit trail.

  `append_event` writes a row of `audit_log` in the transaction of the operation
  that it records.  Runs and reviews call it with every status they write;
  uploads, DLQ retries and the first transaction of an erasure write a status and
  append nothing (`audit_trail_iff`).
-/
import OcrService.System.Decisions
import OcrService.System.StatusMoves

namespace OcrService

open Trans

/-! ## What a transaction appends -/

/-- The row that a write appends to `audit_log`. -/
def Write.event? : Write → Option AuditLog
  | .insertAuditLog row => some row
  | _ => none

/-- An event of document `d` and tenant `t` is appended to the log. -/
def Logged (d t : Uuid) (db db' : Db) : Prop :=
  ∃ events, db'.auditLog = db.auditLog ++ events ∧
    ∃ event ∈ events, event.documentId = some d ∧ event.tenantId = t

section
variable {d t : Uuid} {db db' : Db} {w : Write} {ws : List Write}

theorem auditLog_write (h : w.apply db = .ok db') : db'.auditLog = db.auditLog ++ w.event?.toList := by
  cases performed_of_apply h with
  | insertAuditLog => rfl
  | idle =>
    -- the audit log takes every row
    cases w with
    | insertAuditLog row =>
      obtain ⟨-, hperform⟩ := Write.apply_ok.1 h
      exact congrArg Db.auditLog hperform.symm
    | _ => exact (List.append_nil _).symm
  | _ => exact (List.append_nil _).symm

/-- **The log after a transaction** ends with the events of its writes. -/
theorem auditLog_commit (h : db.commit ws = .ok db') :
    db'.auditLog = db.auditLog ++ ws.filterMap Write.event? := by
  induction ws generalizing db with
  | nil =>
    cases h
    exact (List.append_nil _).symm
  | cons w ws ih =>
    obtain ⟨db₁, h₁, h₂⟩ := Db.commit_cons_ok.1 h
    rw [ih h₂, auditLog_write h₁, List.append_assoc]
    cases hw : w.event? <;> simp [hw]

theorem mem_events {event : AuditLog} : event ∈ ws.filterMap Write.event? ↔ .insertAuditLog event ∈ ws := by
  rw [List.mem_filterMap]
  constructor
  · rintro ⟨w, hw, hevent⟩
    cases w <;> cases hevent
    exact hw
  · intro hw
    exact ⟨_, hw, rfl⟩

theorem logged_commit (h : db.commit ws = .ok db') :
    Logged d t db db' ↔
      ∃ event, .insertAuditLog event ∈ ws ∧ event.documentId = some d ∧ event.tenantId = t := by
  have hlog := auditLog_commit h
  constructor
  · rintro ⟨events, hevents, event, hmem, hevent⟩
    rw [hlog, List.append_cancel_left_eq] at hevents
    rw [← hevents] at hmem
    exact ⟨event, mem_events.1 hmem, hevent⟩
  · rintro ⟨event, hmem, hevent⟩
    exact ⟨_, hlog, event, mem_events.2 hmem, hevent⟩

end

/-! ## Every run of the service -/

/-- The operation appends an event with the status that it writes. -/
def Task.audits : Task → Bool
  | .run _ | .review _ => true
  | _ => false

section
variable {S : Site} {d : Uuid} {q₀ q q' : System} {i : ℕ} {x : Task} {row : Document}

/-- **The audit trail.**  In every state reached, a transaction that inserts the
    row of a document or changes its status appends an event of the document and
    its tenant iff it is that of a run or of a review. -/
theorem audit_trail_iff (hfresh : ∀ x ∈ q₀.tasks, x.Fresh)
    (h : Reach (System.step S) (fun _ _ => True) q₀ q) (hx : q.tasks[i]? = some x)
    (hs : System.step S q i = some q')
    (hrow : Rows.find Document.id q'.shared.db.documents d = some row)
    (hmoved : q.shared.db.statusOf d ≠ some row.status) :
    Logged d row.tenantId q.shared.db q'.shared.db ↔ x.audits = true := by
  have hsh := System.shared_step hs hx
  rw [hsh] at hrow ⊢
  rcases World.db_apply (w := q.shared) (x.move S q.shared).change with hdb | ⟨ws, hc, hdb⟩
  · rw [hdb] at hrow
    rw [Db.statusOf, hrow] at hmoved
    exact absurd rfl hmoved
  · rw [logged_commit hdb]
    have hprepares := reach_prepares hfresh h x (List.mem_of_getElem? hx)
    cases status_move hprepares hc hdb hrow hmoved with
    | run hpc hid htenant hstatus hevent =>
      exact iff_of_true ⟨_, hevent, rfl, htenant.symm⟩ rfl
    | review hpc htenant hstatus hevent =>
      obtain ⟨event, hmem, hd, ht⟩ := hevent
      exact iff_of_true ⟨event, hmem, hd, ht.trans htenant.symm⟩ rfl
    | create _ hsilent | retry _ hsilent | cancel _ hsilent =>
      refine iff_of_false ?_ Bool.false_ne_true
      rintro ⟨event, hmem, -⟩
      exact hsilent event hmem

end

/-- A reviewer accepts a document. -/
theorem audit_trail_iff_accept :
    ∃ q q' row, Reach (System.step Sample.site) (fun _ _ => True)
        ⟨Sample.openWorld, [.review (Sample.reviewCall .accept 1)]⟩ q ∧
      System.step Sample.site q 0 = some q' ∧
      Rows.find Document.id q'.shared.db.documents Sample.documentId = some row ∧
      Logged Sample.documentId row.tenantId q.shared.db q'.shared.db := by
  have hreach : Reach (System.step Sample.site) (fun _ _ => True)
      ⟨Sample.openWorld, [.review (Sample.reviewCall .accept 1)]⟩ _ :=
    reach_of_exec (l := [0, 0]) rfl
  refine ⟨_, _, { Sample.document with status := .completed, version := 2 }, hreach, rfl, rfl, ?_⟩
  refine (audit_trail_iff (S := Sample.site) (i := 0) ?_ hreach rfl rfl rfl ?_).2 rfl
  · intro x hx
    rw [List.mem_singleton.1 hx]
    rfl
  · decide

/-- A DLQ retry sets a completed document to `pending`, and nothing is logged. -/
theorem retry_unaudited :
    ∃ q q', exec (System.step Sample.site) ⟨Sample.undeliveredWorld, [.retry Sample.retry]⟩ [0, 0, 0] =
        some q ∧
      System.step Sample.site q 0 = some q' ∧
      q.shared.db.statusOf Sample.documentId = some .completed ∧
      q'.shared.db.statusOf Sample.documentId = some .pending ∧
      ∀ t, ¬ Logged Sample.documentId t q.shared.db q'.shared.db := by
  have hsilent {q q' : System} (hlog : q'.shared.db.auditLog = []) (t : Uuid) :
      ¬ Logged Sample.documentId t q.shared.db q'.shared.db := by
    rintro ⟨events, hevents, event, hmem, -⟩
    rw [hlog] at hevents
    rw [(List.append_eq_nil_iff.1 hevents.symm).2] at hmem
    exact absurd hmem List.not_mem_nil
  exact ⟨_, _, rfl, rfl, rfl, rfl, hsilent rfl⟩

end OcrService
