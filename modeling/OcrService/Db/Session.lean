/-
  Transactions (`app/db/session.py`, the ORM of `app/db/models.py`).

  `tenant_session` commits its writes on success and rolls back on an
  exception: `Db.commit` applies a list of `Write`s or none.  Reads are single
  statements of their own (READ COMMITTED) and see the rows of the tenant only
  (row-level security).

  An ORM update carries the row as it was read.  It emits nothing if no column
  changed; `documents` and `review_tasks` have a version column, which the
  UPDATE compares and increments (`StaleDataError` when it does not match);
  every UPDATE fails if the row is gone.

  * `Write.refused`, `Write.perform`: the checks of a write, and its effect;
  * `commit_induction`: what every write keeps, a transaction keeps.
-/
import OcrService.Db.Models
import OcrService.Lib.Rows

namespace OcrService

structure Db where
  tenants : List Tenant := []
  schemas : List Schema := []
  schemaVersions : List SchemaVersion := []
  documents : List Document := []
  extractionResults : List ExtractionResult := []
  guardrailReports : List GuardrailReport := []
  reviewTasks : List ReviewTask := []
  auditLog : List AuditLog := []
  dlq : List DeadLetter := []
  webhookDeliveries : List WebhookDelivery := []
  /-- the document ids that `gen_random_uuid()` has given out -/
  issued : List Uuid := []
  /-- the next `RowId` -/
  nextId : RowId := 0
  deriving DecidableEq

/-- Why a statement fails. -/
inductive DbError
  | staleData | uniqueViolation | foreignKeyViolation | rejectedValue
  deriving DecidableEq

namespace Db
variable (db : Db)

/-! ## Reads -/

def document? (tenantId id : Uuid) : Option Document :=
  (Rows.find Document.id db.documents id).filter fun r => r.tenantId = tenantId

def schema? (tenantId id : Uuid) : Option Schema :=
  (Rows.find Schema.id db.schemas id).filter fun r => r.tenantId = tenantId

def tenant? (id : Uuid) : Option Tenant := Rows.find Tenant.id db.tenants id

def extractionResult? (tenantId : Uuid) (id : RowId) : Option ExtractionResult :=
  (Rows.find ExtractionResult.id db.extractionResults id).filter fun r => r.tenantId = tenantId

def reviewTask? (tenantId : Uuid) (id : RowId) : Option ReviewTask :=
  (Rows.find ReviewTask.id db.reviewTasks id).filter fun r => r.tenantId = tenantId

def deadLetter? (tenantId : Uuid) (id : RowId) : Option DeadLetter :=
  (Rows.find DeadLetter.id db.dlq id).filter fun r => r.tenantId = tenantId

/-- The row of `extraction_results` for a document; there is at most one. -/
def resultOf (documentId : Uuid) : Option ExtractionResult :=
  Rows.find ExtractionResult.documentId db.extractionResults documentId

def reviewOf (documentId : Uuid) : Option ReviewTask :=
  Rows.find ReviewTask.documentId db.reviewTasks documentId

end Db

/-! ## Writes -/

/-- A pending write of a session.  A review task is inserted together with the
    extraction result it refers to, whose id is known after the flush. -/
inductive Write
  | updateDocument (old new : Document)
  | updateExtractionResult (old new : ExtractionResult)
  | updateReviewTask (old new : ReviewTask)
  | updateDeadLetter (old new : DeadLetter)
  | updateSchema (old new : Schema)
  | insertDocument (row : Document)
  | insertExtractionResult (row : ExtractionResult)
  | insertGuardrailReport (row : GuardrailReport)
  | insertReviewTask (documentId tenantId : Uuid)
  | insertAuditLog (row : AuditLog)
  | insertDeadLetter (row : DeadLetter)
  | insertWebhookDelivery (row : WebhookDelivery)
  | insertSchema (row : Schema)
  | insertSchemaVersion (row : SchemaVersion)
  | deleteDocument (tenantId id : Uuid)
  deriving DecidableEq

/-- An UPDATE of `schemas` sets the columns that changed. -/
def Schema.merge (row old new : Schema) : Schema :=
  { row with
    description := if new.description = old.description then row.description else new.description
    jsonSchema := if new.jsonSchema = old.jsonSchema then row.jsonSchema else new.jsonSchema
    requiredFields :=
      if new.requiredFields = old.requiredFields then row.requiredFields else new.requiredFields
    piiFields := if new.piiFields = old.piiFields then row.piiFields else new.piiFields
    promptTemplate :=
      if new.promptTemplate = old.promptTemplate then row.promptTemplate else new.promptTemplate
    status := if new.status = old.status then row.status else new.status
    currentVersion :=
      if new.currentVersion = old.currentVersion then row.currentVersion else new.currentVersion
    confidenceHigh :=
      if new.confidenceHigh = old.confidenceHigh then row.confidenceHigh else new.confidenceHigh
    confidenceMedium :=
      if new.confidenceMedium = old.confidenceMedium then row.confidenceMedium
      else new.confidenceMedium
    seedCount := if new.seedCount = old.seedCount then row.seedCount else new.seedCount
    config := if new.config = old.config then row.config else new.config }

/-- The foreign key to `documents`. -/
def Db.hasDocument (db : Db) (id : Uuid) : Bool := (Rows.find Document.id db.documents id).isSome

/-- Deleting a document deletes the rows that refer to it; `audit_log` has no
    foreign key. -/
def Db.cascade (db : Db) (id : Uuid) : Db :=
  { db with
    documents := Rows.delete Document.id db.documents id
    extractionResults := Rows.delete ExtractionResult.documentId db.extractionResults id
    guardrailReports := Rows.delete GuardrailReport.documentId db.guardrailReports id
    reviewTasks := Rows.delete ReviewTask.documentId db.reviewTasks id
    dlq := Rows.delete DeadLetter.documentId db.dlq id
    webhookDeliveries := Rows.delete WebhookDelivery.documentId db.webhookDeliveries id }

/-- The error of a write, if the database refuses it. -/
def Write.refused (db : Db) : Write → Option DbError
  | .updateDocument old new =>
    if new = old then none
    else match Rows.find Document.id db.documents old.id with
      | none => some .staleData
      | some row =>
        if row.version ≠ old.version then some .staleData
        else if ¬ new.Storable then some .rejectedValue else none
  | .updateExtractionResult old new =>
    if new = old then none
    else if (Rows.find ExtractionResult.id db.extractionResults old.id).isNone then some .staleData
    else if ¬ new.Storable then some .rejectedValue else none
  | .updateReviewTask old new =>
    if new = old then none
    else match Rows.find ReviewTask.id db.reviewTasks old.id with
      | none => some .staleData
      | some row =>
        if row.version ≠ old.version then some .staleData
        else if ¬ new.Storable then some .rejectedValue else none
  | .updateDeadLetter old new =>
    if new = old then none
    else if (Rows.find DeadLetter.id db.dlq old.id).isNone then some .staleData
    else if ¬ new.Storable then some .rejectedValue else none
  | .updateSchema old new =>
    if new = old then none
    else match Rows.find Schema.id db.schemas old.id with
      | none => some .staleData
      | some row => if ¬ (row.merge old new.stored).Storable then some .rejectedValue else none
  | .insertDocument row =>
    if row.id ∈ db.issued then some .uniqueViolation
    else if (Rows.find Schema.id db.schemas row.schemaId).isNone then some .foreignKeyViolation
    else if ¬ row.Storable then some .rejectedValue else none
  | .insertExtractionResult row =>
    if !db.hasDocument row.documentId then some .foreignKeyViolation
    else if ¬ row.Storable then some .rejectedValue
    else if (db.resultOf row.documentId).isSome then some .uniqueViolation else none
  | .insertGuardrailReport row =>
    if !db.hasDocument row.documentId then some .foreignKeyViolation
    else if ¬ row.Storable then some .rejectedValue else none
  | .insertReviewTask documentId _ =>
    if !db.hasDocument documentId ∨ (db.resultOf documentId).isNone then some .foreignKeyViolation
    else if (db.reviewOf documentId).isSome then some .uniqueViolation else none
  | .insertAuditLog _ => none
  | .insertDeadLetter row =>
    if !db.hasDocument row.documentId then some .foreignKeyViolation
    else if ¬ row.Storable then some .rejectedValue else none
  | .insertWebhookDelivery row =>
    if !db.hasDocument row.documentId then some .foreignKeyViolation
    else if ¬ row.Storable then some .rejectedValue else none
  | .insertSchema row =>
    if db.schemas.any fun r => r.tenantId = row.tenantId ∧ r.name = row.name then
      some .uniqueViolation
    else if ¬ row.Storable then some .rejectedValue else none
  | .insertSchemaVersion row =>
    if (Rows.find Schema.id db.schemas row.schemaId).isNone then some .foreignKeyViolation
    else if db.schemaVersions.any fun r => r.schemaId = row.schemaId ∧ r.version = row.version then
      some .uniqueViolation
    else none
  | .deleteDocument _ _ => none

/-- The tables after a write. -/
def Write.perform (db : Db) : Write → Db
  | .updateDocument old new =>
    if new = old then db
    else { db with
      documents := Rows.replace Document.id db.documents old.id
        { new.stored with version := old.version + 1 } }
  | .updateExtractionResult old new =>
    if new = old then db
    else { db with
      extractionResults := Rows.replace ExtractionResult.id db.extractionResults old.id new.stored }
  | .updateReviewTask old new =>
    if new = old then db
    else { db with
      reviewTasks := Rows.replace ReviewTask.id db.reviewTasks old.id
        { new with version := old.version + 1 } }
  | .updateDeadLetter old new =>
    if new = old then db
    else { db with dlq := Rows.replace DeadLetter.id db.dlq old.id new }
  | .updateSchema old new =>
    if new = old then db
    else match Rows.find Schema.id db.schemas old.id with
      | none => db
      | some row =>
        { db with schemas := Rows.replace Schema.id db.schemas old.id (row.merge old new.stored) }
  | .insertDocument row =>
    { db with documents := db.documents ++ [row.stored], issued := row.id :: db.issued }
  | .insertExtractionResult row =>
    { db with
      extractionResults := db.extractionResults ++ [{ row.stored with id := db.nextId }]
      nextId := db.nextId + 1 }
  | .insertGuardrailReport row =>
    { db with guardrailReports := db.guardrailReports ++ [row.stored] }
  | .insertReviewTask documentId tenantId =>
    match db.resultOf documentId with
    | none => db
    | some result =>
      { db with
        reviewTasks := db.reviewTasks ++
          [{ id := db.nextId, documentId, tenantId, extractionResultId := result.id }]
        nextId := db.nextId + 1 }
  | .insertAuditLog row => { db with auditLog := db.auditLog ++ [row] }
  | .insertDeadLetter row =>
    { db with dlq := db.dlq ++ [{ row with id := db.nextId }], nextId := db.nextId + 1 }
  | .insertWebhookDelivery row => { db with webhookDeliveries := db.webhookDeliveries ++ [row] }
  | .insertSchema row => { db with schemas := db.schemas ++ [row.stored] }
  | .insertSchemaVersion row => { db with schemaVersions := db.schemaVersions ++ [row] }
  | .deleteDocument tenantId id =>
    match db.document? tenantId id with
    | none => db
    | some _ => db.cascade id

/-- One write. -/
def Write.apply (db : Db) (w : Write) : Except DbError Db :=
  match w.refused db with
  | some e => .error e
  | none => .ok (w.perform db)

/-- A transaction: all of its writes, or an error. -/
def Db.commit (db : Db) (ws : List Write) : Except DbError Db := ws.foldlM Write.apply db

/-! ## Transactions -/

theorem Write.apply_ok {db db' : Db} {w : Write} :
    w.apply db = .ok db' ↔ w.refused db = none ∧ w.perform db = db' := by
  unfold Write.apply
  cases w.refused db <;> simp

namespace Db
variable {db db' : Db}

theorem commit_nil (db : Db) : db.commit [] = .ok db := rfl

theorem commit_cons (db : Db) (w : Write) (ws : List Write) :
    db.commit (w :: ws) = (w.apply db).bind fun db' => db'.commit ws := rfl

theorem commit_cons_ok {w : Write} {ws : List Write} :
    db.commit (w :: ws) = .ok db' ↔ ∃ db₁, w.apply db = .ok db₁ ∧ db₁.commit ws = .ok db' := by
  rw [commit_cons]
  cases w.apply db <;> simp [Except.bind]

theorem commit_append_ok {ws ws' : List Write} :
    db.commit (ws ++ ws') = .ok db' ↔ ∃ db₁, db.commit ws = .ok db₁ ∧ db₁.commit ws' = .ok db' := by
  induction ws generalizing db with
  | nil => simp [commit_nil]
  | cons w ws ih =>
    simp only [List.cons_append, commit_cons_ok, ih]
    constructor
    · rintro ⟨db₁, h₁, db₂, h₂, h₃⟩; exact ⟨db₂, ⟨db₁, h₁, h₂⟩, h₃⟩
    · rintro ⟨db₂, ⟨db₁, h₁, h₂⟩, h₃⟩; exact ⟨db₁, h₁, db₂, h₂, h₃⟩

/-- **What every write keeps, a transaction keeps.** -/
theorem commit_induction {P : Db → Prop} {ws : List Write} (h : db.commit ws = .ok db')
    (hP : P db) (hw : ∀ w ∈ ws, ∀ db₁ db₂, P db₁ → w.apply db₁ = .ok db₂ → P db₂) : P db' := by
  induction ws generalizing db with
  | nil => cases h; exact hP
  | cons w ws ih =>
    obtain ⟨db₁, h₁, h₂⟩ := commit_cons_ok.1 h
    exact ih h₂ (hw w List.mem_cons_self _ _ hP h₁)
      fun w' hw' => hw w' (List.mem_cons_of_mem _ hw')

end Db

end OcrService
