/-
  The writes of the service, one by one.

  `Prepared` lists the transactions; `Written` lists the writes they are made
  of, each with what is known of the rows it was made from.  Proofs about one
  table look at the writes of that table only.
-/
import OcrService.System.Transactions

namespace OcrService

open PyData

/-! ## The writes of a run -/

/-- The writes of `_persist_outcome`. -/
inductive PersistWrite (S : Site) (t : Uuid) (nonces : ℕ → Bytes) (document : Document)
    (f : ExtractionState) : Write → Prop
  | document : PersistWrite S t nonces document f (.updateDocument document (persistedDocument document f))
  | report (report : GuardrailReport) : PersistWrite S t nonces document f (.insertGuardrailReport report)
  | extraction {extracted : Obj} (h : encryptedExtraction S t nonces f = .ok extracted) :
      PersistWrite S t nonces document f
        (.insertExtractionResult (extractionResult document.id t f extracted))
  | review : PersistWrite S t nonces document f (.insertReviewTask document.id t)
  | deadLetter : PersistWrite S t nonces document f (.insertDeadLetter (deadLetter document.id t f))
  | event : PersistWrite S t nonces document f (pipelineEvent S document.id t f)

section
variable {S : Site} {d t : Uuid} {nonces : ℕ → Bytes} {document : Document} {f : ExtractionState}
  {ws : List Write} {w : Write}

/-- The rows of the final status. -/
theorem mem_statusWrites (h : statusWrites S d t nonces f = .ok ws) (hw : w ∈ ws) :
    (∃ extracted, encryptedExtraction S t nonces f = .ok extracted ∧
      w = .insertExtractionResult (extractionResult d t f extracted)) ∨
      (finalStatus f = .review ∧ w = .insertReviewTask d t) ∨
        ((finalStatus f = .rejected ∨ finalStatus f = .error) ∧
          w = .insertDeadLetter (deadLetter d t f)) := by
  unfold statusWrites at h
  cases hs : finalStatus f <;> rw [hs] at h
  case completed =>
    cases he : encryptedExtraction S t nonces f with
    | error e => rw [he] at h; cases h
    | ok extracted =>
      rw [he] at h; cases h
      exact Or.inl ⟨extracted, rfl, List.mem_singleton.1 hw⟩
  case review =>
    cases he : encryptedExtraction S t nonces f with
    | error e => rw [he] at h; cases h
    | ok extracted =>
      rw [he] at h; cases h
      rcases List.mem_cons.1 hw with rfl | hw
      · exact Or.inl ⟨extracted, rfl, rfl⟩
      · exact Or.inr (Or.inl ⟨rfl, List.mem_singleton.1 hw⟩)
  case rejected =>
    cases h
    exact Or.inr (Or.inr ⟨Or.inl rfl, List.mem_singleton.1 hw⟩)
  case error =>
    cases h
    exact Or.inr (Or.inr ⟨Or.inr rfl, List.mem_singleton.1 hw⟩)
  all_goals
    cases h
    cases hw

/-- The transaction, with the status that each row depends on. -/
theorem mem_persistWrites (h : persistWrites S t nonces document f = .ok ws) (hw : w ∈ ws) :
    w = .updateDocument document (persistedDocument document f) ∨
      (∃ report, w = .insertGuardrailReport report) ∨
        (∃ extracted, encryptedExtraction S t nonces f = .ok extracted ∧
          w = .insertExtractionResult (extractionResult document.id t f extracted)) ∨
          (finalStatus f = .review ∧ w = .insertReviewTask document.id t) ∨
            ((finalStatus f = .rejected ∨ finalStatus f = .error) ∧
              w = .insertDeadLetter (deadLetter document.id t f)) ∨
              w = pipelineEvent S document.id t f := by
  unfold persistWrites at h
  cases hst : statusWrites S document.id t nonces f with
  | error e => rw [hst] at h; cases h
  | ok ws' =>
    rw [hst] at h; cases h
    simp only [List.cons_append, List.mem_cons, List.mem_append, List.not_mem_nil, or_false] at hw
    rcases hw with rfl | (hw | hw) | rfl
    · exact Or.inl rfl
    · obtain ⟨report, -, rfl⟩ := List.mem_map.1 hw
      exact Or.inr (Or.inl ⟨_, rfl⟩)
    · rcases mem_statusWrites hst hw with hw | hw | hw
      · exact Or.inr (Or.inr (Or.inl hw))
      · exact Or.inr (Or.inr (Or.inr (Or.inl hw)))
      · exact Or.inr (Or.inr (Or.inr (Or.inr (Or.inl hw))))
    · exact Or.inr (Or.inr (Or.inr (Or.inr (Or.inr rfl))))

theorem persistWrite_of_mem (h : persistWrites S t nonces document f = .ok ws) (hw : w ∈ ws) :
    PersistWrite S t nonces document f w := by
  rcases mem_persistWrites h hw with
    rfl | ⟨report, rfl⟩ | ⟨extracted, he, rfl⟩ | ⟨-, rfl⟩ | ⟨-, rfl⟩ | rfl
  · exact .document
  · exact .report report
  · exact .extraction he
  · exact .review
  · exact .deadLetter
  · exact .event

end

/-! ## All writes -/

section
variable {S : Site} {κ : Known} {t : Task} {ws : List Write}

/-- The writes that a task makes from known rows. -/
inductive Written (S : Site) (κ : Known) : Task → Write → Prop
  | persist {r : RunTask} {document : Document} {f : ExtractionState} {w : Write}
      (hdoc : κ.document document) (hid : document.id = r.documentId)
      (htenant : document.tenantId = r.tenantId) (hlive : document.status ≠ .cancelled)
      (hf : κ.state document.id f) (h : PersistWrite S r.tenantId r.env.nonces document f w) :
      Written S κ (.run r) w
  | webhook {t : WebhookTask} {w : Write} (h : WebhookWrite w) : Written S κ (.webhook t) w
  | cancel {e : EraseTask} {document : Document} (hdoc : κ.document document)
      (hid : document.id = e.documentId) (htenant : document.tenantId = e.tenantId) :
      Written S κ (.erase e) (.updateDocument document { document with status := .cancelled })
  | delete {e : EraseTask} (hpc : e.pc = .delete) :
      Written S κ (.erase e) (.deleteDocument e.tenantId e.documentId)
  | tombstone {e : EraseTask} (hpc : e.pc = .delete) :
      Written S κ (.erase e) (tombstone S e.tenantId e.documentId)
  | reviewTask {q : ReviewRequest} {draft : ReviewDraft} (hdraft : Draft κ q.tenantId draft) :
      Written S κ (.review q) (.updateReviewTask draft.old draft.new)
  | correction {q : ReviewRequest} {draft : ReviewDraft} {extraction : ExtractionResult}
      {corrected : Obj} (hdraft : Draft κ q.tenantId draft)
      (h : Corrected κ draft.old extraction corrected) :
      Written S κ (.review q)
        (.updateExtractionResult extraction { extraction with extractedJson := some corrected })
  | reviewDocument {q : ReviewRequest} {draft : ReviewDraft} {document : Document}
      {status : DocumentStatus} (hdraft : Draft κ q.tenantId draft) (hdoc : κ.reset document)
      (hid : document.id = draft.old.documentId) :
      Written S κ (.review q) (.updateDocument document { document with status })
  | reviewEvent {q : ReviewRequest} {row : AuditLog} (h : row.eventType ≠ "ERASURE_COMPLETED") :
      Written S κ (.review q) (.insertAuditLog row)
  | createDocument {x : ExtractRequest} {document : Document} (hid : document.id = x.documentId) :
      Written S κ (.extract x) (.insertDocument document)
  | storageKey {x : ExtractRequest} {document : Document} (hid : document.id = x.documentId) :
      Written S κ (.extract x) (.updateDocument document
        { document with fileStorageKey := some (storageKey document.tenantId document.id) })
  | retryEntry {y : RetryRequest} {entry : DeadLetter} (hentry : κ.entry entry)
      (hid : entry.id = y.dlqId) :
      Written S κ (.retry y) (.updateDeadLetter entry
        { entry with status := .retrying, retryCount := entry.retryCount + 1 })
  | retryDocument {y : RetryRequest} {entry : DeadLetter} {document : Document}
      (hentry : κ.entry entry) (hdoc : κ.reset document) (hid : document.id = entry.documentId) :
      Written S κ (.retry y) (.updateDocument document { document with status := .pending })
  | updateSchema {c : SchemaRequest} {schema : Schema} {payload : SchemaPayload}
      (hid : schema.id = c.schemaId) (hcall : c.call = .update payload) :
      Written S κ (.schema c) (.updateSchema schema (updateSchema schema payload))
  | snapshot {c : SchemaRequest} {row : SchemaVersion} :
      Written S κ (.schema c) (.insertSchemaVersion row)
  | activate {c : SchemaRequest} {schema : Schema} (hid : schema.id = c.schemaId) :
      Written S κ (.schema c) (.updateSchema schema (activateSchema schema))
  | seed {c : SchemaRequest} {schema : Schema} (hid : schema.id = c.schemaId) :
      Written S κ (.schema c)
        (.updateSchema schema { schema with seedCount := schema.seedCount + 1 })

/-- **The writes of a transaction made from known rows.** -/
theorem Prepared.written (h : Prepared S κ t ws) {w : Write} (hw : w ∈ ws) : Written S κ t w := by
  cases h with
  | persist hdoc hid htenant hlive hf h =>
    exact .persist hdoc hid htenant hlive hf (persistWrite_of_mem h hw)
  | webhook h => exact .webhook (h w hw)
  | cancel hdoc hid htenant =>
    rw [List.mem_singleton.1 hw]
    exact .cancel hdoc hid htenant
  | erase hpc =>
    simp only [EraseTask.deleteWrites, List.mem_cons, List.not_mem_nil, or_false] at hw
    rcases hw with rfl | rfl
    · exact .delete hpc
    · exact .tombstone hpc
  | @review q draft document hdraft hdoc =>
    rcases ReviewRequest.mem_finishWrites hw with rfl | hw | ⟨row, hrow, rfl⟩ | ⟨row, hevent, rfl⟩
    · exact .reviewTask hdraft
    · obtain ⟨extraction, corrected, hx, rfl⟩ := hdraft.extraction w hw
      exact .correction hdraft hx
    · exact .reviewDocument hdraft (hdoc row hrow).1 (hdoc row hrow).2
    · refine .reviewEvent ?_
      rw [hevent]
      exact hdraft.event
  | create hid =>
    simp only [createWrites, List.mem_cons, List.not_mem_nil, or_false] at hw
    rcases hw with rfl | rfl
    · exact .createDocument hid
    · exact .storageKey hid
  | @retry y entry document hentry hid hdoc =>
    rcases mem_retryWrites hw with rfl | ⟨row, hrow, rfl⟩
    · exact .retryEntry hentry hid
    · exact .retryDocument hentry (hdoc row hrow).1 (hdoc row hrow).2
  | @schema c schema ws hid h =>
    unfold SchemaRequest.begin at h
    split at h
    · rename_i payload hcall
      cases h
      rw [List.mem_singleton.1 hw]
      exact .updateSchema hid hcall
    · cases h
    · split_ifs at h
      cases h
      simp only [List.mem_cons, List.not_mem_nil, or_false] at hw
      rcases hw with rfl | rfl
      · exact .snapshot
      · exact .activate hid
  | seed hid =>
    rw [List.mem_singleton.1 hw]
    exact .seed hid

/-- Updates of documents keep the id. -/
theorem Written.keepsId {w : Write} (h : Written S κ t w) : w.KeepsId := by
  rintro old new rfl
  cases h with
  | persist _ _ _ _ _ h => cases h; rfl
  | webhook h => exact h.elim
  | _ => rfl

/-- Only an ingest inserts a document. -/
theorem Prepared.create_of_insert {row : Document} (h : Prepared S κ t ws)
    (hw : .insertDocument row ∈ ws) : (∃ y, t = .extract y) ∧ ws = createWrites row := by
  obtain ⟨y, rfl⟩ : ∃ y, t = .extract y := by
    cases h.written hw with
    | persist _ _ _ _ _ h => cases h
    | webhook h => exact h.elim
    | createDocument => exact ⟨_, rfl⟩
  cases h with
  | create hid =>
    simp only [createWrites, List.mem_cons, Write.insertDocument.injEq, reduceCtorEq, List.not_mem_nil,
      or_false] at hw
    exact ⟨⟨y, rfl⟩, hw ▸ rfl⟩

/-- The transaction of an ingest. -/
theorem ExtractRequest.change_commit {w : World} {x : ExtractRequest} (hc : (x.move S w).change = .commit ws) :
    ∃ document, x.pc = .commit document ∧ ws = createWrites document := by
  cases hpc : x.pc <;> simp only [ExtractRequest.move, hpc] at hc
  case commit document =>
    split_ifs at hc
    cases hdb : w.db.commit (createWrites document) with
    | error e => rw [hdb] at hc; cases hc
    | ok db => rw [hdb] at hc; cases hc; exact ⟨document, rfl, rfl⟩
  case saveBlob document =>
    split_ifs at hc
    rcases x.torn_cases with htorn | ⟨blob, htorn⟩ <;> rw [htorn] at hc <;> cases hc
  all_goals
    repeat' split at hc
    all_goals cases hc

end

end OcrService
