/-
  Who moves the status of a document.

  Five operations write `documents.status`: an upload inserts the row, a run
  persists its outcome, a review decides, a DLQ retry resets to `pending`, and an
  erasure sets `cancelled`.  `StatusMove` lists them with the status that each
  leaves and what else its transaction has; `status_move` says that no other
  transaction inserts the row or changes its status.

  `Prepares` is what a task at its commit knows about its transaction whatever
  the other tasks do, so it needs no assumption on the tables.
-/
import OcrService.Db.Letters
import OcrService.System.Turns

namespace OcrService

open Trans

/-! ## What a task at its commit knows -/

section
variable (S : Site)

/-- A run holds the row of its document, then the transaction made from it. -/
def RunTask.Prepares (r : RunTask) : Prop :=
  match r.pc with
  | .guard _ document => document.id = r.documentId ∧ document.tenantId = r.tenantId
  | .commit f ws => ∃ document, document.id = r.documentId ∧ document.tenantId = r.tenantId ∧
      persistWrites S r.tenantId r.env.nonces document f = .ok ws
  | _ => True

/-- The draft updates extraction results only. -/
def ReviewDraft.Corrects (draft : ReviewDraft) : Prop :=
  ∀ w ∈ draft.extraction, ∃ old new, w = .updateExtractionResult old new

/-- The row that a review read of its document. -/
def ReviewRequest.Read (q : ReviewRequest) (draft : ReviewDraft) (document : Option Document) : Prop :=
  ∀ row ∈ document, row.id = draft.old.documentId ∧ row.tenantId = q.tenantId

def ReviewRequest.Prepares (q : ReviewRequest) : Prop :=
  match q.pc with
  | .readExtraction draft _ | .readExampleDocument draft _ | .upsert draft _ _ | .readDocument draft =>
    draft.Corrects
  | .commit ws => ∃ draft document, draft.Corrects ∧ q.Read draft document ∧
      ws = q.finishWrites S draft document
  | .readReview | .done _ => True

/-- The row of an upload is `pending`. -/
def ExtractRequest.Prepares (x : ExtractRequest) : Prop :=
  match x.pc with
  | .saveBlob document | .commit document => document.status = .pending
  | _ => True

def Task.Prepares : Task → Prop
  | .run r => r.Prepares S
  | .review q => q.Prepares S
  | .extract x => x.Prepares
  | .webhook t => t.Holds
  | .schema c => c.Holds S {}
  | .erase _ | .retry _ => True

end

section
variable {S : Site} {w : World}

theorem Task.Fresh.prepares {x : Task} (h : x.Fresh) : x.Prepares S := by
  cases x with
  | run r =>
    show r.Prepares S
    unfold RunTask.Prepares
    rw [show r.pc = .loadDocument from h]
    trivial
  | review q =>
    show q.Prepares S
    unfold ReviewRequest.Prepares
    rw [show q.pc = .readReview from h]
    trivial
  | extract x =>
    show x.Prepares
    unfold ExtractRequest.Prepares
    rw [show x.pc = .readTenant from h]
    trivial
  | webhook t => exact h.holds (S := S) (κ := {})
  | schema c => exact h.holds (S := S) (κ := {})
  | _ => trivial

theorem RunTask.move_prepares {r : RunTask} (h : r.Prepares S) : (r.move S w).task.Prepares S := by
  have hfail : r.fail.task.Prepares S := trivial
  unfold RunTask.Prepares at h
  cases hpc : r.pc <;> simp only [hpc] at h <;> simp only [RunTask.move, hpc]
  case persist f =>
    split_ifs
    · exact hfail
    · cases hrow : w.db.document? r.tenantId r.documentId with
      | none => trivial
      | some document => exact document?_eq hrow
  case guard f document =>
    unfold RunTask.persistOutcome
    split_ifs
    · trivial
    · cases hws : persistWrites S r.tenantId r.env.nonces document f with
      | error e => exact hfail
      | ok ws => exact ⟨document, h.1, h.2, hws⟩
  case save n s unsaved =>
    unfold RunPc.afterNode
    cases n.next s <;> trivial
  case done o =>
    unfold RunTask.Prepares
    simp only [hpc]
  all_goals
    repeat' split
    all_goals trivial

theorem ReviewRequest.begin_prepares {q : ReviewRequest} {review : ReviewTask} :
    (q.goto (q.begin review)).Prepares S := by
  have hnil {w : Write} (hw : w ∈ ([] : List Write)) : ∃ old new, w = .updateExtractionResult old new :=
    absurd hw List.not_mem_nil
  unfold ReviewRequest.begin
  cases q.action with
  | accept => exact fun w hw => hnil hw
  | correct corrections =>
    match corrections with
    | none | some [] => trivial
    | some (_ :: _) => exact fun w hw => hnil hw
  | reject reason => exact fun w hw => hnil hw
  | unknown action => trivial

theorem ReviewRequest.move_prepares {q : ReviewRequest} (h : q.Prepares S) :
    (q.move S w).task.Prepares S := by
  unfold ReviewRequest.Prepares at h
  cases hpc : q.pc <;> simp only [hpc] at h <;> simp only [ReviewRequest.move, hpc]
  case readReview =>
    split_ifs
    · trivial
    · cases w.db.reviewTask? q.tenantId q.reviewId with
      | none => trivial
      | some review =>
        dsimp only
        split_ifs
        · trivial
        · exact begin_prepares
  case readExtraction draft corrections =>
    split_ifs
    · trivial
    · cases w.db.extractionResult? q.tenantId draft.old.extractionResultId with
      | none => exact h
      | some extraction =>
        dsimp only
        cases extraction.extractedJson with
        | none => exact h
        | some extracted => exact fun _ hw => ⟨_, _, List.mem_singleton.1 hw⟩
  case readExampleDocument draft corrected =>
    split_ifs <;> exact h
  case upsert draft corrected document => exact h
  case readDocument draft =>
    split_ifs
    · trivial
    · exact ⟨draft, _, h, fun row hrow => document?_eq hrow, rfl⟩
  case commit ws =>
    split_ifs
    · trivial
    · cases w.db.commit ws <;> trivial
  case done o =>
    unfold ReviewRequest.Prepares
    simp only [hpc]

theorem ExtractRequest.move_prepares {x : ExtractRequest} (h : x.Prepares) :
    (x.move S w).task.Prepares := by
  unfold ExtractRequest.Prepares at h
  cases hpc : x.pc <;> simp only [hpc] at h <;> simp only [ExtractRequest.move, hpc]
  case create =>
    cases hdoc : createDocument S w.db x.tenantId x.documentId x.upload with
    | error e => trivial
    | ok document =>
      dsimp only
      split_ifs
      · trivial
      · show document.status = .pending
        unfold createDocument at hdoc
        split at hdoc
        · cases hdoc
        · cases hschema : resolveActiveSchema w.db x.tenantId x.upload.schemaName with
          | error e =>
            rw [hschema] at hdoc
            cases hdoc
          | ok schema =>
            rw [hschema] at hdoc
            cases hdoc
            rfl
  case saveBlob document => split_ifs <;> [trivial; exact h]
  case done o =>
    unfold ExtractRequest.Prepares
    simp only [hpc]
  all_goals
    repeat' split
    all_goals trivial

/-- **A task keeps what it knows.** -/
theorem Task.move_prepares {x : Task} (h : x.Prepares S) : (x.move S w).task.Prepares S := by
  cases x with
  | run r => exact RunTask.move_prepares h
  | review q => exact ReviewRequest.move_prepares h
  | extract x => exact ExtractRequest.move_prepares h
  | webhook t => exact (WebhookTask.move_holds (S := S) (κ := {}) h).1
  | schema c => exact (SchemaRequest.move_holds h).1
  | _ => trivial

/-- In every state reached. -/
theorem reach_prepares {ok : System → ℕ → Prop} {q q' : System} (hfresh : ∀ x ∈ q.tasks, x.Fresh)
    (h : Reach (System.step S) ok q q') : ∀ x ∈ q'.tasks, x.Prepares S := by
  refine (Pool.reach_invariant (G := fun _ => True) (L := fun _ x => x.Prepares S) ?_ ?_ h trivial
    fun x hx => (hfresh x hx).prepares).2
  · intro q i x _ hx _ _
    exact ⟨trivial, Task.move_prepares hx, fun u hu => (Task.spawned_fresh hu).prepares⟩
  · intro q i x _ _ _ _ u hu
    exact hu

end

/-! ## What each transaction does to the status -/

/-- The transaction `ws` of a task gives document `d` the row `row`. -/
inductive StatusMove (S : Site) (d : Uuid) (ws : List Write) (row : Document) : Task → Prop
  | run {r : RunTask} {f : ExtractionState} (hpc : r.pc = .commit f ws) (hid : r.documentId = d)
      (htenant : row.tenantId = r.tenantId) (hstatus : row.status = persistedStatus f)
      (hevent : pipelineEvent S d r.tenantId f ∈ ws) : StatusMove S d ws row (.run r)
  | review {q : ReviewRequest} (hpc : q.pc = .commit ws) (htenant : row.tenantId = q.tenantId)
      (hstatus : row.status = .completed ∨ row.status = .rejected)
      (hevent : ∃ event, .insertAuditLog event ∈ ws ∧ event.documentId = some d ∧
        event.tenantId = q.tenantId) : StatusMove S d ws row (.review q)
  | create {x : ExtractRequest} (hstatus : row.status = .pending)
      (hsilent : ∀ event, .insertAuditLog event ∉ ws) : StatusMove S d ws row (.extract x)
  | retry {y : RetryRequest} (hstatus : row.status = .pending)
      (hsilent : ∀ event, .insertAuditLog event ∉ ws) : StatusMove S d ws row (.retry y)
  | cancel {e : EraseTask} (hstatus : row.status = .cancelled)
      (hsilent : ∀ event, .insertAuditLog event ∉ ws) : StatusMove S d ws row (.erase e)

section
variable {S : Site} {w : World} {d : Uuid} {db db' : Db} {row : Document} {ws : List Write}

theorem puts_update {old new : Document} (h : (Write.updateDocument old new).puts d = some row) :
    old.id = d ∧ row = { new.stored with version := old.version + 1 } := by
  simp only [Write.puts] at h
  split_ifs at h with hid
  exact ⟨hid, (Option.some.inj h).symm⟩

theorem puts_insert {new : Document} (h : (Write.insertDocument new).puts d = some row) :
    row = new.stored := by
  simp only [Write.puts] at h
  split_ifs at h
  exact (Option.some.inj h).symm

/-- A new status was put there by a write. -/
theorem put_of_moved (hkeep : ∀ wr ∈ ws, wr.KeepsId) (hdb : db.commit ws = .ok db')
    (hrow : Rows.find Document.id db'.documents d = some row) (hmoved : db.statusOf d ≠ some row.status) :
    ∃ wr ∈ ws, wr.puts d = some row := by
  rcases row_put (d := d) hkeep hdb with hsame | hnone | ⟨wr, hwr, row', hput, hrow'⟩
  · rw [Db.statusOf, ← hsame, hrow] at hmoved
    exact absurd rfl hmoved
  · rw [hnone] at hrow
    cases hrow
  · cases Option.some.inj (hrow.symm.trans hrow')
    exact ⟨wr, hwr, hput⟩

theorem run_moves {r : RunTask} {f : ExtractionState} (hx : r.Prepares S) (hpc : r.pc = .commit f ws)
    (hdb : db.commit ws = .ok db') (hrow : Rows.find Document.id db'.documents d = some row)
    (hmoved : db.statusOf d ≠ some row.status) : StatusMove S d ws row (.run r) := by
  obtain ⟨document, hid, htenant, hws⟩ : ∃ document, document.id = r.documentId ∧
      document.tenantId = r.tenantId ∧
        persistWrites S r.tenantId r.env.nonces document f = .ok ws := by
    simpa only [RunTask.Prepares, hpc] using hx
  have hcases {wr : Write} (hwr : wr ∈ ws) := persistWrite_of_mem hws hwr
  have hkeep : ∀ wr ∈ ws, wr.KeepsId := by
    rintro wr hwr old new rfl
    cases hcases hwr
    rfl
  obtain ⟨wr, hwr, hput⟩ := put_of_moved hkeep hdb hrow hmoved
  cases hcases hwr with
  | document =>
    obtain ⟨hd, rfl⟩ := puts_update hput
    refine .run hpc (hid.symm.trans hd) htenant rfl ?_
    rw [← hd]
    unfold persistWrites at hws
    cases hrows : statusWrites S document.id r.tenantId r.env.nonces f with
    | error e =>
      rw [hrows] at hws
      cases hws
    | ok rows =>
      rw [hrows] at hws
      rw [← Except.ok.inj hws]
      exact List.mem_append_right _ (List.mem_singleton_self _)
  | _ => cases hput

theorem review_moves {q : ReviewRequest} (hx : q.Prepares S) (hpc : q.pc = .commit ws)
    (hdb : db.commit ws = .ok db') (hrow : Rows.find Document.id db'.documents d = some row)
    (hmoved : db.statusOf d ≠ some row.status) : StatusMove S d ws row (.review q) := by
  obtain ⟨draft, document, hcorrects, hread, rfl⟩ : ∃ draft document, draft.Corrects ∧
      q.Read draft document ∧ ws = q.finishWrites S draft document := by
    simpa only [ReviewRequest.Prepares, hpc] using hx
  have hkeep : ∀ wr ∈ q.finishWrites S draft document, wr.KeepsId := by
    rintro wr hwr old new rfl
    rcases ReviewRequest.mem_finishWrites hwr with hwr | hwr | ⟨row, -, hwr⟩ | ⟨row, -, hwr⟩
    · cases hwr
    · obtain ⟨old', new', hwr⟩ := hcorrects _ hwr
      cases hwr
    · cases hwr
      rfl
    · cases hwr
  obtain ⟨wr, hwr, hput⟩ := put_of_moved hkeep hdb hrow hmoved
  rcases ReviewRequest.mem_finishWrites hwr with rfl | hwr | ⟨old, hdoc, rfl⟩ | ⟨event, -, rfl⟩
  · cases hput
  · obtain ⟨old, new, rfl⟩ := hcorrects _ hwr
    cases hput
  · obtain ⟨hd, rfl⟩ := puts_update hput
    obtain ⟨hid, htenant⟩ := hread old hdoc
    refine .review hpc htenant ?_ ⟨_, List.mem_append_right _ (List.mem_singleton_self _), ?_, rfl⟩
    · by_cases hrejected : draft.rejected = true
      · right
        simp [Document.stored, hrejected]
      · left
        simp [Document.stored, hrejected]
    · exact congrArg some (hid.symm.trans hd)
  · cases hput

/-- A transaction that puts no row there moves no status. -/
theorem not_moved (hputs : ∀ wr ∈ ws, wr.KeepsId ∧ wr.puts d = none) (hdb : db.commit ws = .ok db')
    (hrow : Rows.find Document.id db'.documents d = some row) : db.statusOf d = some row.status := by
  by_contra hmoved
  obtain ⟨wr, hwr, hput⟩ := put_of_moved (fun wr hwr => (hputs wr hwr).1) hdb hrow hmoved
  rw [(hputs wr hwr).2] at hput
  cases hput

theorem extract_moves {x : ExtractRequest} (hx : x.Prepares) (hc : (x.move S w).change = .commit ws)
    (hdb : db.commit ws = .ok db') (hrow : Rows.find Document.id db'.documents d = some row)
    (hmoved : db.statusOf d ≠ some row.status) : StatusMove S d ws row (.extract x) := by
  obtain ⟨document, hpc, rfl⟩ : ∃ document, x.pc = .commit document ∧ ws = createWrites document := by
    cases hpc : x.pc <;> simp only [ExtractRequest.move, hpc] at hc
    case commit document =>
      split_ifs at hc
      cases hdb : w.db.commit (createWrites document) with
      | error e =>
        rw [hdb] at hc
        cases hc
      | ok db =>
        rw [hdb] at hc
        exact ⟨document, rfl, (Change.commit.inj hc).symm⟩
    case saveBlob document =>
      rcases x.torn_cases with htorn | ⟨blob, htorn⟩
      all_goals
        rw [htorn] at hc
        split_ifs at hc
    all_goals
      repeat' split at hc
      all_goals cases hc
  have hpending : document.status = .pending := by
    simpa only [ExtractRequest.Prepares, hpc] using hx
  have hmem {wr : Write} (hwr : wr ∈ createWrites document) :
      wr = .insertDocument document ∨ wr = .updateDocument document
        { document with fileStorageKey := some (storageKey document.tenantId document.id) } := by
    simpa only [createWrites, List.mem_cons, List.not_mem_nil, or_false] using hwr
  have hkeep : ∀ wr ∈ createWrites document, wr.KeepsId := by
    rintro wr hwr old new rfl
    rcases hmem hwr with hwr | hwr
    · cases hwr
    · cases hwr
      rfl
  refine .create ?_ fun event hevent => ?_
  · obtain ⟨wr, hwr, hput⟩ := put_of_moved hkeep hdb hrow hmoved
    rcases hmem hwr with rfl | rfl
    · rw [puts_insert hput]
      exact hpending
    · rw [(puts_update hput).2]
      exact hpending
  · rcases hmem hevent with hwr | hwr <;> cases hwr

theorem retry_moves {y : RetryRequest} (hc : (y.move w).change = .commit ws)
    (hdb : db.commit ws = .ok db') (hrow : Rows.find Document.id db'.documents d = some row)
    (hmoved : db.statusOf d ≠ some row.status) : StatusMove S d ws row (.retry y) := by
  obtain ⟨entry, document, -, rfl, -⟩ := RetryRequest.change_commit hc
  have hkeep : ∀ wr ∈ retryWrites entry document, wr.KeepsId := by
    rintro wr hwr old new rfl
    rcases mem_retryWrites hwr with hwr | ⟨row, -, hwr⟩
    · cases hwr
    · cases hwr
      rfl
  refine .retry ?_ fun event hevent => ?_
  · obtain ⟨wr, hwr, hput⟩ := put_of_moved hkeep hdb hrow hmoved
    rcases mem_retryWrites hwr with rfl | ⟨row, -, rfl⟩
    · cases hput
    · rw [(puts_update hput).2]
      rfl
  · rcases mem_retryWrites hevent with hwr | ⟨row, -, hwr⟩ <;> cases hwr

theorem erase_moves {e : EraseTask} (hc : (e.move S w).change = .commit ws)
    (hdb : db.commit ws = .ok db') (hrow : Rows.find Document.id db'.documents d = some row)
    (hmoved : db.statusOf d ≠ some row.status) : StatusMove S d ws row (.erase e) := by
  rcases (EraseTask.change_commit hc).1 with ⟨document, -, rfl⟩ | ⟨-, rfl⟩
  · have hkeep : ∀ wr ∈ EraseTask.cancelWrites document, wr.KeepsId := by
      rintro wr hwr old new rfl
      cases List.mem_singleton.1 hwr
      rfl
    refine .cancel ?_ fun event hevent => ?_
    · obtain ⟨wr, hwr, hput⟩ := put_of_moved hkeep hdb hrow hmoved
      rw [List.mem_singleton.1 hwr] at hput
      rw [(puts_update hput).2]
      rfl
    · cases List.mem_singleton.1 hevent
  · refine absurd (not_moved (fun wr hwr => ?_) hdb hrow) hmoved
    simp only [EraseTask.deleteWrites, List.mem_cons, List.not_mem_nil, or_false] at hwr
    rcases hwr with rfl | rfl
    all_goals
      refine ⟨?_, rfl⟩
      intro old new h
      cases h

/-- **Only five transactions move the status** of a document. -/
theorem status_move {x : Task} (hx : x.Prepares S) (hc : (x.move S w).change = .commit ws)
    (hdb : db.commit ws = .ok db') (hrow : Rows.find Document.id db'.documents d = some row)
    (hmoved : db.statusOf d ≠ some row.status) : StatusMove S d ws row x := by
  cases x with
  | run r =>
    obtain ⟨f, hpc, -⟩ := RunTask.change_commit hc
    exact run_moves hx hpc hdb hrow hmoved
  | review q =>
    obtain ⟨hpc, -⟩ := ReviewRequest.change_commit hc
    exact review_moves hx hpc hdb hrow hmoved
  | extract x => exact extract_moves hx hc hdb hrow hmoved
  | retry y => exact retry_moves hc hdb hrow hmoved
  | erase e => exact erase_moves hc hdb hrow hmoved
  | webhook t =>
    have hws := (WebhookTask.move_holds (S := S) (κ := {}) hx).2 ws hc
    refine absurd (not_moved (fun wr hwr => ⟨(hws.written hwr).keepsId, ?_⟩) hdb hrow) hmoved
    cases hws.written hwr with
    | webhook h => cases wr <;> first | rfl | exact h.elim
  | schema c =>
    have hws := (SchemaRequest.move_holds hx).2 ws hc
    refine absurd (not_moved (fun wr hwr => ⟨(hws.written hwr).keepsId, ?_⟩) hdb hrow) hmoved
    cases hws.written hwr <;> rfl

end

end OcrService
