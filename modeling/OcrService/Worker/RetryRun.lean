/-
  What a retried document comes to.

  `retry_dlq` sets the document back to `pending` and leaves the rows of its
  earlier runs.  A run that then ends `completed` or `review` inserts an
  extraction result again, so its outcome is persisted iff no earlier run left
  one (`retry_persists_iff`).
-/
import OcrService.Worker.Persist

namespace OcrService

open Trans PyData

/-! ## A retry alone -/

section
variable {S : Site} {w w₁ : World} {y : RetryRequest} {entry : DeadLetter}

/-- A step of a retry, when it runs alone. -/
theorem finishes_retry_step {c : World × Task} {m : Move RetryRequest RunTask} (h : y.move w = m) :
    Finishes (Task.effect S) (w, .retry y) c ↔
      Finishes (Task.effect S) (w.apply m.change, .retry m.task) c := by
  subst h
  exact Finishes.step_iff

/-- A retry that has ended stays as it is. -/
theorem retry_ended {result result' : RetryResult}
    (h : RunsTo S w (.retry (y.goto (.done result))) w₁ (.retry (y.goto (.done result')))) :
    w = w₁ ∧ result = result' := by
  have := Finishes.unique (Finishes.fixed rfl) h
  simp only [Prod.mk.injEq, Task.retry.injEq, RetryRequest.goto, RetryRequest.mk.injEq,
    RetryPc.done.injEq] at this
  exact ⟨this.1, this.2.2.2.2.2.2⟩

/-- **A retry that is accepted** found its entry pending and committed. -/
theorem retry_accepted (h : RunsTo S w (.retry (y.goto .readEntry)) w₁ (.retry (y.goto (.done .accepted)))) :
    ∃ entry db, w.db.deadLetter? y.tenantId y.dlqId = some entry ∧ entry.status = .pending ∧
      w.db.commit (retryWrites entry (w.db.document? y.tenantId entry.documentId)) = .ok db ∧
      w₁ = { w with db } := by
  have hread := RetryRequest.move_readEntry (w := w) (y := y)
  by_cases h₁ : y.raises .readEntry = true
  · rw [if_pos h₁] at hread
    cases (retry_ended ((finishes_retry_step hread).1 h)).2
  rw [if_neg h₁] at hread
  cases hentry : w.db.deadLetter? y.tenantId y.dlqId with
  | none =>
    rw [hentry] at hread
    cases (retry_ended ((finishes_retry_step hread).1 h)).2
  | some entry =>
    rw [hentry] at hread
    dsimp only at hread
    by_cases hp : entry.status ≠ .pending
    · rw [if_pos hp] at hread
      cases (retry_ended ((finishes_retry_step hread).1 h)).2
    rw [if_neg hp] at hread
    replace h := (finishes_retry_step hread).1 h
    have hdoc := RetryRequest.move_readDocument (w := w) (y := y) entry
    by_cases h₂ : y.raises .readDocument = true
    · rw [if_pos h₂] at hdoc
      cases (retry_ended ((finishes_retry_step hdoc).1 h)).2
    rw [if_neg h₂] at hdoc
    replace h := (finishes_retry_step hdoc).1 h
    replace h := (finishes_retry_step (RetryRequest.move_enqueue _ _)).1 h
    dsimp only [World.apply] at h
    have hcommit := RetryRequest.move_commit (w := w) (y := y) entry
      (w.db.document? y.tenantId entry.documentId)
    by_cases h₃ : y.raises .commit = true
    · rw [if_pos h₃] at hcommit
      cases (retry_ended ((finishes_retry_step hcommit).1 h)).2
    rw [if_neg h₃] at hcommit
    cases hdb : w.db.commit (retryWrites entry (w.db.document? y.tenantId entry.documentId)) with
    | error e =>
      rw [hdb] at hcommit
      cases (retry_ended ((finishes_retry_step hcommit).1 h)).2
    | ok db =>
      rw [hdb] at hcommit
      obtain ⟨hw, -⟩ := retry_ended ((finishes_retry_step hcommit).1 h)
      refine ⟨entry, db, rfl, not_not.1 hp, hdb, ?_⟩
      rw [← hw, World.apply_commit_ok hdb]

/-- A retry that finds its entry pending and commits is accepted. -/
theorem retry_accepts {db : Db} (hraises : ∀ p, y.raises p = false)
    (hentry : w.db.deadLetter? y.tenantId y.dlqId = some entry) (hp : entry.status = .pending)
    (hdb : w.db.commit (retryWrites entry (w.db.document? y.tenantId entry.documentId)) = .ok db) :
    RunsTo S w (.retry (y.goto .readEntry)) { w with db } (.retry (y.goto (.done .accepted))) := by
  have hread := RetryRequest.move_readEntry (w := w) (y := y)
  have hdoc := RetryRequest.move_readDocument (w := w) (y := y) entry
  have hcommit := RetryRequest.move_commit (w := w) (y := y) entry
    (w.db.document? y.tenantId entry.documentId)
  rw [hraises, if_neg Bool.false_ne_true] at hread hdoc hcommit
  rw [hentry] at hread
  dsimp only at hread
  rw [if_neg (not_not.2 hp)] at hread
  rw [hdb] at hcommit
  refine (finishes_retry_step hread).2 ((finishes_retry_step hdoc).2
    ((finishes_retry_step (RetryRequest.move_enqueue _ _)).2 ((finishes_retry_step hcommit).2 ?_)))
  rw [show w.apply (.commit _) = { w with db } from World.apply_commit_ok hdb]
  exact Finishes.fixed rfl

end

/-! ## What a retry leaves -/

section
variable {db db' : Db} {entry : DeadLetter} {t d : Uuid}

/-- A retry sets the document to `pending` and leaves the rows of its earlier
    runs. -/
theorem retry_rows (h : db.commit (retryWrites entry (db.document? t d)) = .ok db') :
    db'.extractionResults = db.extractionResults ∧ db'.reviewTasks = db.reviewTasks ∧
      ∀ row, db'.document? t d = some row → row.status = .pending := by
  obtain ⟨db₁, h₁, h₂⟩ := Db.commit_cons_ok.1 h
  obtain ⟨-, rfl⟩ := Write.apply_ok.1 h₁
  obtain ⟨dlq, hdlq⟩ := perform_updateDeadLetter db entry
    { entry with status := .retrying, retryCount := entry.retryCount + 1 }
  rw [hdlq] at h₂
  cases hdoc : db.document? t d with
  | none =>
    rw [hdoc] at h₂
    cases h₂
    refine ⟨rfl, rfl, fun row hrow => ?_⟩
    rw [show ({ db with dlq } : Db).document? t d = db.document? t d from rfl, hdoc] at hrow
    cases hrow
  | some document =>
    rw [hdoc] at h₂
    obtain ⟨rfl, -, hfind⟩ := find_of_document? hdoc
    obtain ⟨-, rfl⟩ := Write.apply_ok.1 (commit_one.1 h₂)
    have hrow' := find_updateDocument document { document with status := .pending } rfl
      (show Rows.find Document.id ({ db with dlq } : Db).documents document.id = some document from hfind)
    obtain ⟨documents, hdocs⟩ := perform_updateDocument { db with dlq } document
      { document with status := .pending }
    rw [hdocs] at hrow' ⊢
    refine ⟨rfl, rfl, fun row hrow => ?_⟩
    rw [Db.document?, hrow'] at hrow
    obtain ⟨hrow, -⟩ := Option.filter_eq_some_iff.1 hrow
    split_ifs at hrow with hsame <;> cases hrow
    · rw [← hsame]
    · rfl

end

/-! ## The run of a retry -/

/-- The outcome of the run is in the tables: the status of the document, and its
    one extraction result. -/
structure Persisted (S : Site) (db db' : Db) (r : RunTask) (f : ExtractionState) : Prop where
  status : ∃ row, db'.document? r.tenantId r.documentId = some row ∧ row.status = finalStatus f
  result : ∃ extracted, encryptedExtraction S r.tenantId r.env.nonces f = .ok extracted ∧
    (db'.extractionResults.filter fun row => row.documentId = r.documentId) =
      [{ (extractionResult r.documentId r.tenantId f extracted).stored with id := db.nextId }]

/-- No earlier run of the document left an outcome in the way. -/
structure FirstOutcome (db : Db) (d : Uuid) (f : ExtractionState) : Prop where
  noResult : db.resultOf d = none
  noReview : finalStatus f = .review → db.reviewOf d = none

/-- The database accepts the values of the new rows. -/
structure OutcomeStorable (S : Site) (db : Db) (r : RunTask) (f : ExtractionState) : Prop where
  document : ∀ document, db.document? r.tenantId r.documentId = some document →
    (persistedDocument document f).Storable
  reports : ∀ report ∈ f.guardrailResults.getD [],
    (guardrailReport r.documentId r.tenantId report).Storable
  extraction : ∃ extracted, encryptedExtraction S r.tenantId r.env.nonces f = .ok extracted ∧
    (extractionResult r.documentId r.tenantId f extracted).Storable

section
variable {S : Site} {w : World} {r : RunTask} {f : ExtractionState} {document : Document}

/-- The outcome `completed` or `review` of a pending document can be persisted iff
    it is the first and its values are accepted. -/
theorem persistable_iff_first (hdoc : w.db.document? r.tenantId r.documentId = some document)
    (hpending : document.status = .pending)
    (hfinal : finalStatus f = .completed ∨ finalStatus f = .review) :
    Persistable S w.db r.tenantId r.env.nonces document f ↔
      FirstOutcome w.db r.documentId f ∧ OutcomeStorable S w.db r f := by
  obtain ⟨hid, -, -⟩ := find_of_document? hdoc
  have hchanged : persistedDocument document f ≠ document := fun h => by
    have := congrArg Document.status h
    rw [hpending] at this
    revert this
    rcases hfinal with h | h <;> simp [persistedDocument, persistedStatus, h, terminalStatuses]
  unfold Persistable StatusAccepted ExtractionAccepted
  simp only [hchanged, false_or, hid]
  constructor
  · rintro ⟨h₁, h₂, h₃⟩
    rcases hfinal with hf | hf <;> rw [hf] at h₃
    · exact ⟨⟨h₃.2, by simp [hf]⟩, ⟨fun _ h => by rw [hdoc] at h; cases h; exact h₁, h₂, h₃.1⟩⟩
    · exact ⟨⟨h₃.1.2, fun _ => h₃.2⟩,
        ⟨fun _ h => by rw [hdoc] at h; cases h; exact h₁, h₂, h₃.1.1⟩⟩
  · rintro ⟨⟨hres, hrev⟩, ⟨h₁, h₂, h₃⟩⟩
    refine ⟨h₁ document hdoc, h₂, ?_⟩
    rcases hfinal with hf | hf <;> rw [hf]
    · exact ⟨h₃, hres⟩
    · exact ⟨⟨h₃, hres⟩, hrev hf⟩

/-- A transaction that commits persists the outcome. -/
theorem persisted_of_persistDb {db' : Db} (hdoc : w.db.document? r.tenantId r.documentId = some document)
    (hfinal : finalStatus f = .completed ∨ finalStatus f = .review)
    (h : r.persistDb S w f = some db') : Persisted S w.db db' r f := by
  obtain ⟨hid, -, -⟩ := find_of_document? hdoc
  obtain ⟨⟨row, hrow, hs⟩, hres, -⟩ := persistDb_rows hdoc h
  obtain ⟨extracted, he, hnone, hrows⟩ := hres hfinal
  refine ⟨⟨row, hrow, ?_⟩, extracted, he, ?_⟩
  · rw [hs, persistedStatus]
    rcases hfinal with hf | hf <;> rw [hf] <;> rfl
  · rw [hid] at hnone
    have hold : (w.db.extractionResults.filter fun row => row.documentId = r.documentId) = [] := by
      rw [List.filter_eq_nil_iff]
      simpa using Rows.find_eq_none.1 hnone
    rw [hrows, List.filter_append, hold, hid]
    simp [ExtractionResult.stored, extractionResult]

/-- **The outcome of a pending document is persisted** iff erasure is not
    registered, it is the first, and its values are accepted. -/
theorem run_persists_iff (hpc : r.pc = .loadDocument) (hreach : r.reached w = some f)
    (hpending : ∀ row, w.db.document? r.tenantId r.documentId = some row → row.status = .pending)
    (hfinal : finalStatus f = .completed ∨ finalStatus f = .review)
    (hread : r.env.raises .persist = false) (hcommit : r.env.raises .commit = false) :
    ∃ w' o, RunsTo S w (.run r) w' (.run (r.goto (.done o))) ∧
      (Persisted S w.db w'.db r f ↔ (w.procs r.proc).isCancelled r.documentId = false ∧
        FirstOutcome w.db r.documentId f ∧ OutcomeStorable S w.db r f) := by
  obtain ⟨w', o, hrun, hdb⟩ := run_finishes (S := S) (w := w) hpc hread hcommit
  refine ⟨w', o, hrun, ?_⟩
  obtain ⟨document, hdoc⟩ : ∃ document, w.db.document? r.tenantId r.documentId = some document := by
    unfold RunTask.reached at hreach
    split at hreach
    · cases hreach
    · rename_i document hdoc; exact ⟨document, hdoc⟩
  have hskip : ¬ (document.status = .cancelled ∨ document.status = .tombstone ∨
      (w.procs r.proc).isCancelled r.documentId = true) ↔
        (w.procs r.proc).isCancelled r.documentId = false := by
    simp [hpending document hdoc]
  rw [← persistable_iff_first hdoc (hpending document hdoc) hfinal, ← hskip,
    ← persistDb_isSome hdoc]
  rw [RunTask.finalDb, hreach] at hdb
  dsimp only at hdb
  cases hpers : r.persistDb S w f with
  | none =>
    rw [hdb, hpers]
    refine iff_of_false (fun h => ?_) (by simp)
    obtain ⟨row, hrow, hs⟩ := h.status
    rw [Option.getD_none] at hrow
    rw [hpending row hrow] at hs
    rcases hfinal with hf | hf <;> rw [hf] at hs <;> cases hs
  | some db' =>
    rw [hdb, hpers]
    exact iff_of_true (persisted_of_persistDb hdoc hfinal hpers) ⟨db', rfl⟩

end

/-- **A retried run persists its outcome** iff no earlier run left one. -/
theorem retry_persists_iff {S : Site} {w w₁ : World} {y : RetryRequest} {entry : DeadLetter}
    {f : ExtractionState} (hentry : w.db.deadLetter? y.tenantId y.dlqId = some entry)
    (hretry : RunsTo S w (.retry (y.goto .readEntry)) w₁ (.retry (y.goto (.done .accepted))))
    (hreach : (enqueuePipeline y.proc entry.documentId entry.tenantId y.run).reached w₁ = some f)
    (hfinal : finalStatus f = .completed ∨ finalStatus f = .review)
    (hread : y.run.raises .persist = false) (hcommit : y.run.raises .commit = false) :
    ∃ w₂ o, RunsTo S w₁ (.run (enqueuePipeline y.proc entry.documentId entry.tenantId y.run)) w₂
        (.run ((enqueuePipeline y.proc entry.documentId entry.tenantId y.run).goto (.done o))) ∧
      (Persisted S w₁.db w₂.db (enqueuePipeline y.proc entry.documentId entry.tenantId y.run) f ↔
        (w.procs y.proc).isCancelled entry.documentId = false ∧
          FirstOutcome w.db entry.documentId f ∧
            OutcomeStorable S w₁.db (enqueuePipeline y.proc entry.documentId entry.tenantId y.run) f) := by
  obtain ⟨entry', db, hentry', -, hdb, rfl⟩ := retry_accepted hretry
  obtain rfl : entry = entry' := by simpa [hentry] using hentry'
  have htenant : entry.tenantId = y.tenantId := by
    simpa using (Option.filter_eq_some_iff.1 hentry).2
  obtain ⟨hres, hrev, hpending⟩ := retry_rows hdb
  have hfirst : FirstOutcome db entry.documentId f ↔ FirstOutcome w.db entry.documentId f := by
    have h₁ : db.resultOf entry.documentId = w.db.resultOf entry.documentId := by
      rw [Db.resultOf, hres]; rfl
    have h₂ : db.reviewOf entry.documentId = w.db.reviewOf entry.documentId := by
      rw [Db.reviewOf, hrev]; rfl
    exact ⟨fun h => ⟨h₁ ▸ h.1, h₂ ▸ h.2⟩, fun h => ⟨h₁ ▸ h.1, h₂ ▸ h.2⟩⟩
  have := run_persists_iff (S := S) (r := enqueuePipeline y.proc entry.documentId entry.tenantId y.run)
    (w := { w with db }) rfl hreach (by rw [← htenant] at hpending; exact hpending) hfinal hread hcommit
  rw [← hfirst]
  exact this

namespace Sample

/-- The run of the document completed, and its webhook was never answered. -/
def deliveryFailed : System :=
  (exec (System.step site) ⟨world [], [.run run]⟩
    (List.replicate 22 0 ++ List.replicate 10 1)).getD ⟨{}, []⟩

/-- The database after the retry. -/
def retriedDb : Db := (alone (Task.effect site) 4 (deliveryFailed.shared, .retry retry)).1.db

/-- The world after the retry. -/
def retried : World := { deliveryFailed.shared with db := retriedDb }

theorem deliveryFailed_entry :
    deliveryFailed.shared.db.deadLetter? tenantId retry.dlqId = some undelivered := by
  decide +kernel

theorem deliveryFailed_reach :
    Reach (System.step site) (fun _ _ => True) ⟨world [], [.run run]⟩ deliveryFailed := by
  refine reach_of_exec (l := List.replicate 22 0 ++ List.replicate 10 1) ?_
  obtain ⟨p, hp⟩ := Option.isSome_iff_exists.1 (show (exec (System.step site) ⟨world [], [.run run]⟩
    (List.replicate 22 0 ++ List.replicate 10 1)).isSome = true by decide +kernel)
  rw [deliveryFailed, hp, Option.getD_some]

theorem retry_runs : RunsTo site deliveryFailed.shared (.retry (retry.goto .readEntry)) retried
    (.retry (retry.goto (.done .accepted))) :=
  retry_accepts (fun _ => rfl) deliveryFailed_entry rfl (by decide +kernel)

theorem retried_reached : ∃ f, run.reached retried = some f ∧ finalStatus f = .completed :=
  Option.map_eq_some_iff.1 (show (run.reached retried).map finalStatus = some .completed by
    decide +kernel)

theorem retried_pending : ∀ row, retriedDb.document? tenantId documentId = some row →
    row.status = .pending := by
  intro row hrow
  have : (retriedDb.document? tenantId documentId).map Document.status = some .pending := by
    decide +kernel
  rw [hrow] at this
  exact Option.some.inj this

/-- The run of the document found no chain. -/
def rejected : System :=
  (exec (System.step site) ⟨world [], [.run { run with env := noChain }]⟩ (List.replicate 22 0)).getD
    ⟨{}, []⟩

/-- The letter that it left. -/
def unextracted : DeadLetter where
  id := 0
  documentId := documentId
  tenantId := tenantId
  failureReason := .extractionFailed
  pipelineState := some
    [("current_step", .str "dlq"), ("routing_decision", .str "LOW"),
      ("failure_reason", .str "EXTRACTION_FAILED"), ("error", .str "timeout"), ("parse_method", .str "text")]

/-- A retry of it; the chain answers again. -/
def retryRejected : RetryRequest := { retry with dlqId := 0 }

/-- The world after that retry. -/
def reopened : World :=
  { rejected.shared with
    db := (alone (Task.effect site) 4 (rejected.shared, .retry retryRejected)).1.db }

theorem rejected_entry : rejected.shared.db.deadLetter? tenantId retryRejected.dlqId = some unextracted := by
  decide +kernel

theorem retry_reopens : RunsTo site rejected.shared (.retry (retryRejected.goto .readEntry)) reopened
    (.retry (retryRejected.goto (.done .accepted))) :=
  retry_accepts (fun _ => rfl) rejected_entry rfl (by decide +kernel)

theorem reopened_reached : ∃ f db', run.reached reopened = some f ∧ finalStatus f = .completed ∧
    run.persistDb site reopened f = some db' := by
  have h : (run.reached reopened).any (fun f =>
      finalStatus f = .completed && (run.persistDb site reopened f).isSome) = true := by
    decide +kernel
  obtain ⟨f, hf, hcompleted⟩ := (Option.any_eq_true _ _).1 h
  simp only [Bool.and_eq_true, decide_eq_true_eq, Option.isSome_iff_exists] at hcompleted
  obtain ⟨hfinal, db', hdb⟩ := hcompleted
  exact ⟨f, db', hf, hfinal, hdb⟩

theorem reopened_pending : ∃ row, reopened.db.document? tenantId documentId = some row ∧
    row.status = .pending := by
  have h : (reopened.db.document? tenantId documentId).map Document.status = some .pending := by
    decide +kernel
  exact Option.map_eq_some_iff.1 h

end Sample

/-- The first run of a document found no chain: the run of the retry completes it, and
    its outcome is persisted. -/
theorem retry_persists_sample :
    ∃ f w₂ o, finalStatus f = .completed ∧
      RunsTo Sample.site Sample.rejected.shared (.retry (Sample.retryRejected.goto .readEntry))
        Sample.reopened (.retry (Sample.retryRejected.goto (.done .accepted))) ∧
      RunsTo Sample.site Sample.reopened (.run Sample.run) w₂ (.run (Sample.run.goto (.done o))) ∧
        Persisted Sample.site Sample.reopened.db w₂.db Sample.run f := by
  obtain ⟨f, db', hf, hcompleted, hdb⟩ := Sample.reopened_reached
  obtain ⟨document, hdoc, hpending⟩ := Sample.reopened_pending
  obtain ⟨-, hpersistable⟩ := (persistDb_isSome hdoc).1 ⟨db', hdb⟩
  obtain ⟨-, hstorable⟩ := (persistable_iff_first hdoc hpending (Or.inl hcompleted)).1 hpersistable
  obtain ⟨w₂, o, hrun, hiff⟩ := retry_persists_iff (y := Sample.retryRejected) Sample.rejected_entry
    Sample.retry_reopens hf (Or.inl hcompleted) rfl rfl
  have hfirst : FirstOutcome Sample.rejected.shared.db Sample.documentId f := by
    refine ⟨by decide +kernel, fun hreview => ?_⟩
    rw [hcompleted] at hreview
    cases hreview
  exact ⟨f, w₂, o, hcompleted, Sample.retry_reopens, hrun, hiff.2 ⟨by decide +kernel, hfirst, hstorable⟩⟩

/-- The retry of a failed delivery: its run completes, and is not persisted,
    because the run before it left its extraction result. -/
theorem retry_of_delivery_rolls_back :
    Reach (System.step Sample.site) (fun _ _ => True) ⟨Sample.world [], [.run Sample.run]⟩
        Sample.deliveryFailed ∧
      Sample.deliveryFailed.shared.db.deadLetter? Sample.tenantId Sample.retry.dlqId =
        some Sample.undelivered ∧
      RunsTo Sample.site Sample.deliveryFailed.shared (.retry (Sample.retry.goto .readEntry))
        Sample.retried (.retry (Sample.retry.goto (.done .accepted))) ∧
      ∃ f w₂ o, Sample.run.reached Sample.retried = some f ∧ finalStatus f = .completed ∧
        RunsTo Sample.site Sample.retried (.run Sample.run) w₂ (.run (Sample.run.goto (.done o))) ∧
        ¬ Persisted Sample.site Sample.retriedDb w₂.db Sample.run f := by
  refine ⟨Sample.deliveryFailed_reach, Sample.deliveryFailed_entry, Sample.retry_runs, ?_⟩
  obtain ⟨f, hf, hcompleted⟩ := Sample.retried_reached
  obtain ⟨w₂, o, hrun, hiff⟩ := run_persists_iff (S := Sample.site) (r := Sample.run) rfl hf
    Sample.retried_pending (Or.inl hcompleted) rfl rfl
  refine ⟨f, w₂, o, hf, hcompleted, hrun, fun h => ?_⟩
  have hresult : (Sample.retriedDb.resultOf Sample.documentId).isSome = true := by decide +kernel
  rw [show Sample.retriedDb.resultOf Sample.documentId = none from (hiff.1 h).2.1.noResult] at hresult
  cases hresult

end OcrService
