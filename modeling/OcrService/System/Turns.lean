/-
  Tasks that take turns.

  When runs, deliveries, reviews and retries do not overlap, the database
  changes under a task by its own commit only: the rows that it holds are those
  in the tables (`Task.Current`).  `move_current` keeps this through a step.

  * `RunTask.Current`: a run gets to its outcome with one of the statuses of the
    terminal nodes;
  * `RunTask.change_commit` and its siblings: what each kind of task commits.
-/
import OcrService.System.Resurrection
import OcrService.Worker.Outcome

namespace OcrService

open Trans PyData Nodes

/-! ## Idle tasks -/

def RunPc.idle : RunPc → Bool
  | .loadDocument | .done _ => true
  | _ => false

def WebhookPc.idle : WebhookPc → Bool
  | .document | .done _ => true
  | _ => false

def ReviewPc.idle : ReviewPc → Bool
  | .readReview | .done _ => true
  | _ => false

def RetryPc.idle : RetryPc → Bool
  | .readEntry | .done _ => true
  | _ => false

/-- A run, a delivery, a review or a retry that has not started or has ended. -/
def Task.idle : Task → Bool
  | .run r => r.pc.idle
  | .webhook t => t.pc.idle
  | .review q => q.pc.idle
  | .retry y => y.pc.idle
  | .erase _ | .extract _ | .schema _ => false

/-! ## The states of a run that nothing cancels -/

/-- No node has found the run cancelled. -/
structure ExtractionState.Uncancelled (s : ExtractionState) : Prop where
  flag : s.isCancelled ≠ some true
  status : s.status ≠ some .cancelled

/-- A terminal node has set the status. -/
def ExtractionState.Routed (s : ExtractionState) : Prop := ∃ b : Branch, s.status = some b.status

section
variable {K : Components} {n : NodeName} {s u : ExtractionState}

theorem initialState_uncancelled {d t : Uuid} {document : Document} {schema : Option Schema}
    (saved : Option ExtractionState) :
    (channels saved (initialState d t document schema)).Uncancelled := by
  constructor
  · simp [channels, ExtractionState.update, initialState]
  · simp [channels, ExtractionState.update, initialState]

/-- A node that does not find the run cancelled sets no status `cancelled`. -/
theorem node_update (h : (n.run K s).result = .ok u) (hs : s.Uncancelled) :
    u.isCancelled = none ∧ u.status ≠ some .cancelled := by
  obtain ⟨hflag, hstatus⟩ := hs
  cases n <;> simp only [NodeName.run, parseNode, guardrailNode, extractNode, scoreNode, routeNode,
    deliverNode, reviewNode, dlqNode, deadLettered, if_neg hflag, if_neg hstatus] at h
  all_goals
    repeat' split at h
    all_goals cases h
    all_goals
      refine ⟨rfl, ?_⟩
      intro hc
      cases hc

theorem node_uncancelled (h : (n.run K s).result = .ok u) (hs : s.Uncancelled) :
    (s.update u).Uncancelled := by
  obtain ⟨hflag, hstatus⟩ := node_update h hs
  constructor
  · simp only [ExtractionState.update, hflag]
    exact hs.flag
  · simp only [ExtractionState.update]
    cases hu : u.status with
    | none => exact hs.status
    | some st => rwa [hu] at hstatus

/-- The terminal nodes set theirs. -/
theorem node_routed (h : (n.run K s).result = .ok u) (hs : s.Uncancelled) (hn : n.terminal = true) :
    (s.update u).Routed := by
  cases n <;> try cases hn
  all_goals simp only [NodeName.run, deliverNode, reviewNode, dlqNode, deadLettered, if_neg hs.status] at h
  all_goals cases h
  · exact ⟨.deliver, rfl⟩
  · exact ⟨.review, rfl⟩
  · exact ⟨.dlq, rfl⟩

theorem NodeName.next_eq_none : n.next s = none ↔ n.terminal = true := by
  cases n <;> simp [NodeName.next, NodeName.terminal]

end

/-! ## What a task holds -/

/-- The tenant has the document. -/
def Db.Has (db : Db) (t d : Uuid) : Prop := ∃ document, db.document? t d = some document

/-- A run holds a document that is there, and a state that nothing has cancelled. -/
def RunTask.Current (S : Site) (db : Db) (r : RunTask) : Prop :=
  match r.pc with
  | .loadSchema _ => db.Has r.tenantId r.documentId
  | .openSaver s | .saveInput s =>
    db.Has r.tenantId r.documentId ∧ ∀ saved, (channels saved s).Uncancelled
  | .node _ s _ => db.Has r.tenantId r.documentId ∧ s.Uncancelled
  | .save n s _ => db.Has r.tenantId r.documentId ∧ s.Uncancelled ∧ (n.terminal = true → s.Routed)
  | .closeSaver f _ | .persist f => db.Has r.tenantId r.documentId ∧ f.Routed
  | .guard f document => db.document? r.tenantId r.documentId = some document ∧ f.Routed
  | .commit f ws => f.Routed ∧ ∃ document, db.document? r.tenantId r.documentId = some document ∧
      persistWrites S r.tenantId r.env.nonces document f = .ok ws
  | .loadDocument | .persisted _ | .release _ | .done _ => True

/-- A row of `webhook_deliveries` or of `audit_log`. -/
def Write.Logs : Write → Prop
  | .insertWebhookDelivery _ | .insertAuditLog _ => True
  | _ => False

/-- A delivery of a document that is there writes its attempts, and a dead letter
    when they are exhausted. -/
def WebhookTask.Current (S : Site) (db : Db) (t : WebhookTask) : Prop :=
  match t.pc with
  | .tenant _ | .extraction _ _ _ => db.Has t.tenantId t.documentId
  | .post _ _ _ rows => db.Has t.tenantId t.documentId ∧ ∀ w ∈ rows, w.Logs
  | .commit ws => db.Has t.tenantId t.documentId ∧
      ((∀ w ∈ ws, w.Logs) ∨ ∃ rows last, (∀ w ∈ rows, w.Logs) ∧ ws = rows ++ t.exhausted S last)
  | .document | .done _ => True

/-- The action rejects the document. -/
def ReviewAction.rejects : ReviewAction → Bool
  | .reject _ => true
  | _ => false

/-- A draft for a review task in the table. -/
structure Drafts (db : Db) (ρ : RowId) (action : ReviewAction) (draft : ReviewDraft) : Prop where
  old : draft.old ∈ db.reviewTasks
  id : draft.old.id = ρ
  document : draft.new.documentId = draft.old.documentId
  extraction : ∀ w ∈ draft.extraction, ∃ old new, w = .updateExtractionResult old new
  rejected : draft.rejected = true → action.rejects = true

def ReviewRequest.Current (S : Site) (db : Db) (q : ReviewRequest) : Prop :=
  match q.pc with
  | .readExtraction draft _ | .readExampleDocument draft _ | .upsert draft _ _ | .readDocument draft =>
    Drafts db q.reviewId q.action draft
  | .commit ws => ∃ draft, Drafts db q.reviewId q.action draft ∧
      ws = q.finishWrites S draft (db.document? q.tenantId draft.old.documentId)
  | .readReview | .done _ => True

/-- A retry holds a pending entry, and its document. -/
def RetryRequest.Current (db : Db) (y : RetryRequest) : Prop :=
  match y.pc with
  | .readDocument entry =>
    db.deadLetter? y.tenantId y.dlqId = some entry ∧ entry.status = .pending
  | .enqueue entry document | .commit entry document =>
    (db.deadLetter? y.tenantId y.dlqId = some entry ∧ entry.status = .pending) ∧
      document = db.document? y.tenantId entry.documentId
  | .readEntry | .done _ => True

/-- What a task holds is what the tables hold. -/
def Task.Current (S : Site) (db : Db) : Task → Prop
  | .run r => r.Current S db
  | .webhook t => t.Current S db
  | .review q => q.Current S db
  | .retry y => y.Current db
  | .erase _ | .extract _ | .schema _ => False

section
variable {S : Site} {w : World} {db : Db} {x : Task}

theorem Task.current_of_idle (h : x.idle = true) : x.Current S db := by
  cases x with
  | run r =>
    show r.Current S db
    replace h : r.pc.idle = true := h
    unfold RunTask.Current
    cases hpc : r.pc <;> rw [hpc] at h <;> trivial
  | webhook t =>
    show t.Current S db
    replace h : t.pc.idle = true := h
    unfold WebhookTask.Current
    cases hpc : t.pc <;> rw [hpc] at h <;> trivial
  | review q =>
    show q.Current S db
    replace h : q.pc.idle = true := h
    unfold ReviewRequest.Current
    cases hpc : q.pc <;> rw [hpc] at h <;> trivial
  | retry y =>
    show y.Current db
    replace h : y.pc.idle = true := h
    unfold RetryRequest.Current
    cases hpc : y.pc <;> rw [hpc] at h <;> trivial
  | _ => cases h

end

/-! ## One step -/

section
variable {S : Site} {w : World} {db : Db}

/-- The steps of a run. -/
theorem RunTask.move_current {r : RunTask} (h : r.Current S w.db) :
    (r.move S w).task.Current S (w.apply (r.move S w).change).db := by
  have hfail : r.fail.task.Current S (w.apply r.fail.change).db := trivial
  unfold RunTask.Current at h
  cases hpc : r.pc <;> simp only [hpc] at h <;> simp only [RunTask.move, hpc]
  case loadDocument =>
    split_ifs
    · exact hfail
    · cases hrow : w.db.document? r.tenantId r.documentId with
      | none => trivial
      | some document => exact ⟨document, hrow⟩
  case loadSchema document =>
    split_ifs
    · exact hfail
    · exact ⟨h, fun saved => initialState_uncancelled saved⟩
  case openSaver s => split_ifs <;> [exact hfail; exact h]
  case saveInput s =>
    split_ifs
    · exact hfail
    · rw [RunTask.db_write]
      exact ⟨h.1, h.2 _⟩
  case node n s unsaved =>
    split_ifs
    · exact hfail
    · cases hrun : (n.run r.env.K s).result with
      | error e => exact hfail
      | ok u => exact ⟨h.1, node_uncancelled hrun h.2, node_routed hrun h.2⟩
  case save n s unsaved =>
    obtain ⟨hhas, hlive, hrouted⟩ := h
    rw [RunTask.db_write, RunPc.afterNode]
    cases hnext : n.next s with
    | none => exact ⟨hhas, hrouted (NodeName.next_eq_none.1 hnext)⟩
    | some m => exact ⟨hhas, hlive⟩
  case closeSaver f unsaved => split_ifs <;> [exact hfail; exact h]
  case persist f =>
    split_ifs
    · exact hfail
    · cases hrow : w.db.document? r.tenantId r.documentId with
      | none => trivial
      | some document => exact ⟨hrow, h.2⟩
  case guard f document =>
    unfold RunTask.persistOutcome
    split_ifs
    · trivial
    · cases hws : persistWrites S r.tenantId r.env.nonces document f with
      | error e => exact hfail
      | ok ws => exact ⟨h.2, document, h.1, hws⟩
  case commit f ws =>
    split_ifs
    · exact hfail
    · cases w.db.commit ws with
      | error e => exact hfail
      | ok db => trivial
  case persisted f => trivial
  case release o => trivial
  case done o =>
    unfold RunTask.Current
    simp only [hpc]

/-- The steps of a delivery. -/
theorem WebhookTask.move_current {t : WebhookTask} (h : t.Current S w.db) :
    (t.move S w).task.Current S (w.apply (t.move S w).change).db := by
  have hrows {rows : List Write} (attempt : ℕ) (status : Option ℕ) (error : Option String)
      (h : ∀ w ∈ rows, w.Logs) : ∀ w ∈ rows ++ [t.attemptRow attempt status error], w.Logs := by
    intro w hw
    rcases List.mem_append.1 hw with hw | hw
    · exact h w hw
    · rw [List.mem_singleton.1 hw]
      trivial
  have hattempted {rows : List Write} (request : WebhookRequest) (attempt : ℕ) (status : Option ℕ)
      (error : Option String) (hhas : w.db.Has t.tenantId t.documentId) (h : ∀ w ∈ rows, w.Logs) :
      ({ t with pc := t.attempted S request attempt status error rows } : WebhookTask).Current S w.db := by
    unfold WebhookTask.attempted
    split_ifs
    · refine ⟨hhas, Or.inl ?_⟩
      rw [List.append_cons]
      intro w hw
      rcases List.mem_append.1 hw with hw | hw
      · exact hrows attempt status error h w hw
      · rw [List.mem_singleton.1 hw]
        trivial
    · exact ⟨hhas, hrows attempt status error h⟩
  unfold WebhookTask.Current at h
  cases hpc : t.pc <;> simp only [hpc] at h <;> simp only [WebhookTask.move, hpc]
  case document =>
    split_ifs
    · trivial
    · cases hrow : w.db.document? t.tenantId t.documentId with
      | none => trivial
      | some document => exact ⟨document, hrow⟩
  case tenant document =>
    split_ifs
    · trivial
    · repeat' split
      all_goals trivial
  case extraction document url secret =>
    split_ifs
    · trivial
    · exact ⟨h, fun _ hw => absurd hw List.not_mem_nil⟩
  case post request attempt last rows =>
    obtain ⟨hhas, hlogs⟩ := h
    split_ifs
    · exact ⟨hhas, Or.inr ⟨rows, last, hlogs, rfl⟩⟩
    · cases t.env.post attempt with
      | status code => exact hattempted request attempt (some code) none hhas hlogs
      | error text => exact hattempted request attempt none (some text) hhas hlogs
      | otherException => trivial
  case commit ws =>
    split_ifs
    · trivial
    · cases w.db.commit ws <;> trivial
  case done o =>
    unfold WebhookTask.Current
    simp only [hpc]

/-- The branch of the action drafts a decision of the row read. -/
theorem begin_current {q : ReviewRequest} {review : ReviewTask} {db : Db} (hold : review ∈ db.reviewTasks)
    (hid : review.id = q.reviewId) : (q.goto (q.begin review)).Current S db := by
  unfold ReviewRequest.begin ReviewRequest.Current
  cases hact : q.action with
  | accept => exact ⟨hold, hid, rfl, fun _ hw => absurd hw List.not_mem_nil, fun h => (by cases h)⟩
  | correct corrections =>
    match corrections with
    | none | some [] => trivial
    | some (_ :: _) =>
      exact ⟨hold, hid, rfl, fun _ hw => absurd hw List.not_mem_nil, fun h => (by cases h)⟩
  | reject reason =>
    refine ⟨hold, hid, rfl, fun _ hw => absurd hw List.not_mem_nil, ?_⟩
    intro _
    show q.action.rejects = true
    rw [hact]
    rfl
  | unknown action => trivial

/-- The steps of a review. -/
theorem ReviewRequest.move_current {q : ReviewRequest} (h : q.Current S w.db) :
    (q.move S w).task.Current S (w.apply (q.move S w).change).db := by
  unfold ReviewRequest.Current at h
  cases hpc : q.pc <;> simp only [hpc] at h <;> simp only [ReviewRequest.move, hpc]
  case readReview =>
    split_ifs
    · trivial
    · cases hrow : w.db.reviewTask? q.tenantId q.reviewId with
      | none => trivial
      | some review =>
        dsimp only
        split_ifs
        · trivial
        · obtain ⟨hfind, -⟩ := Option.filter_eq_some_iff.1 hrow
          exact begin_current (Rows.mem_of_find hfind) (Rows.key_of_find hfind)
  case readExtraction draft corrections =>
    split_ifs
    · trivial
    · cases w.db.extractionResult? q.tenantId draft.old.extractionResultId with
      | none => exact h
      | some extraction =>
        dsimp only
        cases extraction.extractedJson with
        | none => exact h
        | some extracted =>
          exact ⟨h.old, h.id, h.document, fun _ hw => ⟨_, _, List.mem_singleton.1 hw⟩, h.rejected⟩
  case readExampleDocument draft corrected =>
    split_ifs
    · exact h
    · exact h
  case upsert draft corrected document =>
    have hdb : (w.apply (if q.raises .embed = true ∨ q.raises .upsert = true then .idle
        else .upsertPoint (q.examplePoint draft corrected document))).db = w.db := by
      split_ifs <;> rfl
    rw [hdb]
    exact h
  case readDocument draft =>
    split_ifs
    · trivial
    · exact ⟨draft, h, rfl⟩
  case commit ws =>
    split_ifs
    · trivial
    · cases w.db.commit ws <;> trivial
  case done o =>
    unfold ReviewRequest.Current
    simp only [hpc]

/-- The steps of a retry. -/
theorem RetryRequest.move_current {y : RetryRequest} (h : y.Current w.db) :
    (y.move w).task.Current (w.apply (y.move w).change).db := by
  unfold RetryRequest.Current at h
  cases hpc : y.pc <;> simp only [hpc] at h <;> simp only [RetryRequest.move, hpc]
  case readEntry =>
    split_ifs
    · trivial
    · cases hrow : w.db.deadLetter? y.tenantId y.dlqId with
      | none => trivial
      | some entry =>
        dsimp only
        split_ifs with hpending
        · trivial
        · exact ⟨hrow, not_not.1 hpending⟩
  case readDocument entry => split_ifs <;> [trivial; exact ⟨h, rfl⟩]
  case enqueue entry document => exact h
  case commit entry document =>
    split_ifs
    · trivial
    · cases w.db.commit (retryWrites entry document) <;> trivial
  case done o =>
    unfold RetryRequest.Current
    simp only [hpc]

/-- **A task keeps what it holds** through its own steps. -/
theorem Task.move_current {x : Task} (h : x.Current S w.db) :
    (x.move S w).task.Current S (w.apply (x.move S w).change).db := by
  cases x with
  | run r => exact RunTask.move_current h
  | webhook t => exact WebhookTask.move_current h
  | review q => exact ReviewRequest.move_current h
  | retry y => exact RetryRequest.move_current h
  | _ => exact h.elim

/-- What it spawns has not started. -/
theorem Task.spawned_idle {x u : Task} (h : x.Current S w.db) (hu : u ∈ (x.move S w).spawned) :
    u.idle = true := by
  have hfresh := Task.spawned_fresh hu
  cases x with
  | run r =>
    obtain ⟨t, -, rfl⟩ := List.mem_map.1 hu
    show t.pc.idle = true
    rw [show t.pc = .document from hfresh]
    rfl
  | retry y =>
    obtain ⟨r, -, rfl⟩ := List.mem_map.1 hu
    show r.pc.idle = true
    rw [show r.pc = .loadDocument from hfresh]
    rfl
  | webhook t => cases hu
  | review q => cases hu
  | _ => exact h.elim

/-! ## What a step commits -/

/-- A run about to commit has the rows of its outcome. -/
theorem RunTask.Current.commit {r : RunTask} {f : ExtractionState} {ws : List Write}
    (h : r.Current S db) (hpc : r.pc = .commit f ws) :
    f.Routed ∧ ∃ document, db.document? r.tenantId r.documentId = some document ∧
      persistWrites S r.tenantId r.env.nonces document f = .ok ws := by
  simpa only [RunTask.Current, hpc] using h

/-- A delivery about to commit has the rows of its attempts. -/
theorem WebhookTask.Current.commit {t : WebhookTask} {ws : List Write} (h : t.Current S db)
    (hpc : t.pc = .commit ws) :
    db.Has t.tenantId t.documentId ∧
      ((∀ w ∈ ws, w.Logs) ∨ ∃ rows last, (∀ w ∈ rows, w.Logs) ∧ ws = rows ++ t.exhausted S last) := by
  simpa only [WebhookTask.Current, hpc] using h

/-- A review about to commit has the rows of its draft. -/
theorem ReviewRequest.Current.commit {q : ReviewRequest} {ws : List Write} (h : q.Current S db)
    (hpc : q.pc = .commit ws) : ∃ draft, Drafts db q.reviewId q.action draft ∧
      ws = q.finishWrites S draft (db.document? q.tenantId draft.old.documentId) := by
  simpa only [ReviewRequest.Current, hpc] using h

/-- A retry that has read its entry has it still. -/
theorem RetryRequest.Current.entry {y : RetryRequest} {entry : DeadLetter} {document : Option Document}
    (h : y.Current db) (hpc : y.pc = .enqueue entry document ∨ y.pc = .commit entry document) :
    Rows.find DeadLetter.id db.dlq entry.id = some entry ∧ entry.status = .pending ∧
      entry.tenantId = y.tenantId ∧ document = db.document? y.tenantId entry.documentId := by
  obtain ⟨⟨hentry, hpending⟩, hdocument⟩ : (db.deadLetter? y.tenantId y.dlqId = some entry ∧
      entry.status = .pending) ∧ document = db.document? y.tenantId entry.documentId := by
    rcases hpc with hpc | hpc <;> simpa only [RetryRequest.Current, hpc] using h
  obtain ⟨hid, htenant⟩ := deadLetter?_eq hentry
  obtain ⟨hfind, -⟩ := Option.filter_eq_some_iff.1 hentry
  rw [← hid] at hfind
  exact ⟨hfind, hpending, htenant, hdocument⟩

/-- A run commits its outcome. -/
theorem RunTask.change_commit {r : RunTask} {ws : List Write} (hc : (r.move S w).change = .commit ws) :
    ∃ f, r.pc = .commit f ws ∧ r.move S w = { change := .commit ws, task := r.goto (.persisted f) } ∧
      r.env.raises .commit = false ∧ ∃ db, w.db.commit ws = .ok db := by
  cases hpc : r.pc <;> simp only [RunTask.move, hpc, RunTask.persistOutcome, RunTask.fail] at hc ⊢
  case commit f ws' =>
    split_ifs at hc ⊢ with hraise
    cases hdb : w.db.commit ws' with
    | error e =>
      rw [hdb] at hc
      cases hc
    | ok db =>
      rw [hdb] at hc
      cases hc
      exact ⟨f, rfl, rfl, Bool.eq_false_iff.2 hraise, db, hdb⟩
  all_goals
    repeat' split at hc
    all_goals first
      | exact absurd hc (RunTask.write_ne_commit _ _ _)
      | cases hc

/-- A delivery commits its rows. -/
theorem WebhookTask.change_commit {t : WebhookTask} {ws : List Write}
    (hc : (t.move S w).change = .commit ws) :
    t.pc = .commit ws ∧ (t.move S w).task.pc = .done .returned ∧ ∃ db, w.db.commit ws = .ok db := by
  cases hpc : t.pc <;> simp only [WebhookTask.move, hpc] at hc ⊢
  case commit ws' =>
    split_ifs at hc ⊢
    cases hdb : w.db.commit ws' with
    | error e =>
      rw [hdb] at hc
      cases hc
    | ok db =>
      rw [hdb] at hc
      cases hc
      exact ⟨rfl, rfl, db, hdb⟩
  all_goals
    repeat' split at hc
    all_goals cases hc

/-- A review commits its decision. -/
theorem ReviewRequest.change_commit {q : ReviewRequest} {ws : List Write}
    (hc : (q.move S w).change = .commit ws) :
    q.pc = .commit ws ∧ q.raises .commit = false ∧ ∃ db, w.db.commit ws = .ok db := by
  cases hpc : q.pc <;> simp only [ReviewRequest.move, hpc] at hc ⊢
  case commit ws' =>
    split_ifs at hc with hraise
    cases hdb : w.db.commit ws' with
    | error e =>
      rw [hdb] at hc
      cases hc
    | ok db =>
      rw [hdb] at hc
      cases hc
      exact ⟨rfl, Bool.eq_false_iff.2 hraise, db, hdb⟩
  case upsert draft corrected document => split_ifs at hc
  all_goals
    repeat' split at hc
    all_goals cases hc

/-- A retry commits the transition of its entry. -/
theorem RetryRequest.change_commit {y : RetryRequest} {ws : List Write}
    (hc : (y.move w).change = .commit ws) :
    ∃ entry document, y.pc = .commit entry document ∧ ws = retryWrites entry document ∧
      (y.move w).spawned = [] := by
  cases hpc : y.pc <;> simp only [RetryRequest.move, hpc] at hc ⊢
  case commit entry document =>
    split_ifs at hc ⊢
    cases hdb : w.db.commit (retryWrites entry document) with
    | error e =>
      rw [hdb] at hc
      cases hc
    | ok db =>
      rw [hdb] at hc
      cases hc
      exact ⟨entry, document, rfl, rfl, rfl⟩
  all_goals
    repeat' split at hc
    all_goals cases hc

end

end OcrService
