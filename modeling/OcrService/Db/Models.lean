/-
  The tables (`app/db/models.py`, `migrations/versions/001_initial_schema.py`).

  A status column is an enumeration, so its CHECK constraint holds by
  construction.  `Storable` is what PostgreSQL further asks of a row: no
  U+0000 in text and JSONB columns, the lengths of VARCHAR columns, the range
  of NUMERIC columns.  Ids that `gen_random_uuid()` gives to result, review and
  dead-letter rows are numbered (`RowId`), since none is given twice.
-/
import OcrService.Pipeline.State

namespace OcrService

open PyData PyStr

/-- The id of a row of `extraction_results`, `review_tasks` or `dlq`. -/
abbrev RowId := ℕ

structure Tenant where
  id : Uuid
  webhookUrl : Option String
  webhookSecret : String
  maxQueueSize : ℕ
  deriving DecidableEq

inductive SchemaStatus
  | draft | active | deprecated
  deriving DecidableEq

structure Schema where
  id : Uuid
  tenantId : Uuid
  name : String
  description : Option String := none
  jsonSchema : Obj
  requiredFields : List String := []
  piiFields : List String := []
  promptTemplate : Option String := none
  status : SchemaStatus := .draft
  currentVersion : ℕ := 1
  confidenceHigh : ℚ := 17 / 20
  confidenceMedium : ℚ := 3 / 5
  seedCount : ℕ := 0
  config : Obj := []
  deriving DecidableEq

structure SchemaVersion where
  schemaId : Uuid
  tenantId : Uuid
  version : ℕ
  jsonSchema : Obj
  requiredFields : List String
  piiFields : List String
  promptTemplate : Option String
  deriving DecidableEq

structure Document where
  id : Uuid
  tenantId : Uuid
  schemaId : Uuid
  schemaVersion : ℕ
  fileName : Option String := none
  fileSizeBytes : ℕ := 0
  mimeType : Option String := none
  fileStorageKey : Option String := none
  status : DocumentStatus := .pending
  confidenceOverall : Option ℚ := none
  routingDecision : Option RoutingDecision := none
  isDryRun : Bool := false
  version : ℕ := 1
  deriving DecidableEq

structure ExtractionResult where
  id : RowId := 0
  documentId : Uuid
  tenantId : Uuid
  extractedJson : Option Obj
  llmModelUsed : Option String
  llmTokenUsage : Option Obj
  confidenceOverall : Option ℚ
  confidenceBreakdown : Option ConfidenceBreakdown
  lowConfidenceFields : Option (List String)
  missingFields : Option (List String)
  deriving DecidableEq

structure GuardrailReport where
  documentId : Uuid
  tenantId : Uuid
  guardrailName : String
  result : GuardrailResult
  detail : Option String
  confidenceMultiplier : ℚ
  deriving DecidableEq

inductive ReviewStatus
  | pending | inProgress | accepted | corrected | rejected
  deriving DecidableEq

def ReviewStatus.value : ReviewStatus → String
  | pending => "pending" | inProgress => "in_progress" | accepted => "accepted"
  | corrected => "corrected" | rejected => "rejected"

/-- The corrections of a review: `{field: {"new": value}}`. -/
abbrev Corrections := List (String × Obj)

structure ReviewTask where
  id : RowId := 0
  documentId : Uuid
  tenantId : Uuid
  extractionResultId : RowId
  status : ReviewStatus := .pending
  corrections : Option Corrections := none
  rejectionReason : Option String := none
  version : ℕ := 1
  deriving DecidableEq

structure AuditLog where
  tenantId : Uuid
  documentId : Option Uuid
  eventType : String
  actor : Option String
  status : Option String
  payloadHash : Option String
  auditMetadata : Option Obj
  deriving DecidableEq

inductive DlqStatus
  | pending | retrying | resolved | expired
  deriving DecidableEq

def DlqStatus.value : DlqStatus → String
  | pending => "pending" | retrying => "retrying" | resolved => "resolved"
  | expired => "expired"

structure DeadLetter where
  id : RowId := 0
  documentId : Uuid
  tenantId : Uuid
  failureReason : FailureReason
  pipelineState : Option Obj := none
  lastHttpStatus : Option ℕ := none
  status : DlqStatus := .pending
  retryCount : ℕ := 0
  deriving DecidableEq

structure WebhookDelivery where
  documentId : Uuid
  tenantId : Uuid
  attempt : ℕ
  httpStatus : Option ℕ
  error : Option String
  deriving DecidableEq

/-! ## What a row must satisfy -/

/-- An optional value satisfies `p` if it is there. -/
def IfSome {α : Type} (p : α → Prop) (o : Option α) : Prop := ∀ x ∈ o, p x

instance {α : Type} (p : α → Prop) [DecidablePred p] (o : Option α) : Decidable (IfSome p o) :=
  inferInstanceAs (Decidable (∀ x ∈ o, p x))

@[simp] theorem ifSome_none {α : Type} {p : α → Prop} : IfSome p none := by simp [IfSome]

@[simp] theorem ifSome_some {α : Type} {p : α → Prop} {x : α} : IfSome p (some x) ↔ p x := by
  simp [IfSome]

/-- A `TEXT[]` value. -/
def TextsOk (xs : List String) : Prop := ∀ x ∈ xs, NulFree x

/-- A `VARCHAR(n)` value. -/
def VarcharOk (n : ℕ) (s : String) : Prop := NulFree s ∧ s.length ≤ n

/-- A `NUMERIC(4,3)` value with a CHECK for the unit interval. -/
def UnitOk (q : ℚ) : Prop := 0 ≤ Decimal.numeric 3 q ∧ Decimal.numeric 3 q ≤ 1

/-- A `NUMERIC(4,3)` value. -/
def NumericOk (q : ℚ) : Prop := -10 < Decimal.numeric 3 q ∧ Decimal.numeric 3 q < 10

instance : DecidablePred TextsOk := fun xs => inferInstanceAs (Decidable (∀ x ∈ xs, NulFree x))
instance (n : ℕ) : DecidablePred (VarcharOk n) := fun _ => inferInstanceAs (Decidable (_ ∧ _))
instance : DecidablePred UnitOk := fun _ => inferInstanceAs (Decidable (_ ∧ _))
instance : DecidablePred NumericOk := fun _ => inferInstanceAs (Decidable (_ ∧ _))

def Document.Storable (r : Document) : Prop :=
  IfSome (VarcharOk 512) r.fileName ∧ IfSome (VarcharOk 100) r.mimeType ∧
    IfSome NulFree r.fileStorageKey ∧ IfSome UnitOk r.confidenceOverall

def ExtractionResult.Storable (r : ExtractionResult) : Prop :=
  IfSome (fun d => Obj.nulFree d = true) r.extractedJson ∧ IfSome (VarcharOk 100) r.llmModelUsed ∧
    IfSome (fun d => Obj.nulFree d = true) r.llmTokenUsage ∧ IfSome NumericOk r.confidenceOverall ∧
    IfSome TextsOk r.lowConfidenceFields ∧ IfSome TextsOk r.missingFields

def GuardrailReport.Storable (r : GuardrailReport) : Prop :=
  VarcharOk 100 r.guardrailName ∧ IfSome NulFree r.detail ∧
    0 < Decimal.numeric 3 r.confidenceMultiplier ∧ Decimal.numeric 3 r.confidenceMultiplier ≤ 1

def ReviewTask.Storable (r : ReviewTask) : Prop :=
  IfSome (fun cs => ∀ c ∈ cs, NulFree c.1 ∧ Obj.nulFree c.2 = true) r.corrections ∧
    IfSome NulFree r.rejectionReason

def DeadLetter.Storable (r : DeadLetter) : Prop :=
  IfSome (fun d => Obj.nulFree d = true) r.pipelineState

def WebhookDelivery.Storable (r : WebhookDelivery) : Prop :=
  1 ≤ r.attempt ∧ r.attempt ≤ 10 ∧ IfSome NulFree r.error

def Schema.Storable (r : Schema) : Prop :=
  VarcharOk 255 r.name ∧ IfSome NulFree r.description ∧ Obj.nulFree r.jsonSchema = true ∧
    TextsOk r.requiredFields ∧ TextsOk r.piiFields ∧ IfSome NulFree r.promptTemplate ∧
    0 ≤ Decimal.numeric 3 r.confidenceMedium ∧
    Decimal.numeric 3 r.confidenceMedium < Decimal.numeric 3 r.confidenceHigh ∧
    Decimal.numeric 3 r.confidenceHigh ≤ 1 ∧ Obj.nulFree r.config = true ∧
    (r.status = .active → 3 ≤ r.seedCount)

instance : DecidablePred Document.Storable := fun _ => inferInstanceAs (Decidable (_ ∧ _))
instance : DecidablePred ExtractionResult.Storable := fun _ => inferInstanceAs (Decidable (_ ∧ _))
instance : DecidablePred GuardrailReport.Storable := fun _ => inferInstanceAs (Decidable (_ ∧ _))
instance : DecidablePred ReviewTask.Storable := fun _ => inferInstanceAs (Decidable (_ ∧ _))
instance : DecidablePred DeadLetter.Storable := fun _ => inferInstanceAs (Decidable (IfSome _ _))
instance : DecidablePred WebhookDelivery.Storable := fun _ => inferInstanceAs (Decidable (_ ∧ _))
instance : DecidablePred Schema.Storable := fun _ => inferInstanceAs (Decidable (_ ∧ _))

/-- The values of a row as its columns hold them. -/
def Document.stored (r : Document) : Document :=
  { r with confidenceOverall := r.confidenceOverall.map (Decimal.numeric 3) }

def ExtractionResult.stored (r : ExtractionResult) : ExtractionResult :=
  { r with confidenceOverall := r.confidenceOverall.map (Decimal.numeric 3) }

def GuardrailReport.stored (r : GuardrailReport) : GuardrailReport :=
  { r with confidenceMultiplier := Decimal.numeric 3 r.confidenceMultiplier }

def Schema.stored (r : Schema) : Schema :=
  { r with
    confidenceHigh := Decimal.numeric 3 r.confidenceHigh
    confidenceMedium := Decimal.numeric 3 r.confidenceMedium }

end OcrService
