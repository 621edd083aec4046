/-
  The pipeline state (`app/pipeline/state.py`) and the enumerations it shares
  with the API (`app/api/schemas/common.py`).

  `ExtractionState` is a `TypedDict` with optional keys: a missing key is
  `none`.  A node returns a partial update, which overwrites exactly its keys
  (`update`).
-/
import OcrService.Domain.Encryption
import OcrService.Domain.Confidence
import OcrService.Domain.Guardrails

namespace OcrService

open PyData

inductive DocumentStatus
  | pending | parsing | guarding | extracting | scoring | routing | delivering
  | completed | review | rejected | error | cancelled | tombstone
  deriving DecidableEq

inductive RoutingDecision
  | high | medium | low
  deriving DecidableEq

inductive FailureReason
  | parseFailed | parseEmptyOutput | guardrailBlock | injectionDetected | llmUnavailable
  | extractionFailed | lowConfidence | pipelineTimeout | webhookDeliveryFailed | unknown
  deriving DecidableEq

/-- The string of a status in the database. -/
def DocumentStatus.value : DocumentStatus → String
  | pending => "pending" | parsing => "parsing" | guarding => "guarding"
  | extracting => "extracting" | scoring => "scoring" | routing => "routing"
  | delivering => "delivering" | completed => "completed" | review => "review"
  | rejected => "rejected" | error => "error" | cancelled => "cancelled"
  | tombstone => "tombstone"

def RoutingDecision.value : RoutingDecision → String
  | high => "HIGH" | medium => "MEDIUM" | low => "LOW"

def FailureReason.value : FailureReason → String
  | parseFailed => "PARSE_FAILED" | parseEmptyOutput => "PARSE_EMPTY_OUTPUT"
  | guardrailBlock => "GUARDRAIL_BLOCK" | injectionDetected => "INJECTION_DETECTED"
  | llmUnavailable => "LLM_UNAVAILABLE" | extractionFailed => "EXTRACTION_FAILED"
  | lowConfidence => "LOW_CONFIDENCE" | pipelineTimeout => "PIPELINE_TIMEOUT"
  | webhookDeliveryFailed => "WEBHOOK_DELIVERY_FAILED" | unknown => "UNKNOWN"

/-- `ExtractionState`. -/
structure ExtractionState where
  documentId : Option Uuid := none
  tenantId : Option Uuid := none
  schemaId : Option Uuid := none
  schemaVersion : Option ℕ := none
  schemaName : Option String := none
  fileStorageKey : Option String := none
  confidenceHigh : Option ℚ := none
  confidenceMedium : Option ℚ := none
  jsonSchema : Option Obj := none
  requiredFields : Option (List String) := none
  piiFields : Option (List String) := none
  status : Option DocumentStatus := none
  currentStep : Option String := none
  isCancelled : Option Bool := none
  rawText : Option String := none
  parseMethod : Option String := none
  guardrailResults : Option (List GuardrailOutcome) := none
  guardrailMultiplier : Option ℚ := none
  extractedJson : Option Obj := none
  llmModelUsed : Option String := none
  llmTokenUsage : Option Obj := none
  llmConfidence : Option ℚ := none
  confidence : Option ℚ := none
  confidenceBreakdown : Option ConfidenceBreakdown := none
  lowConfidenceFields : Option (List String) := none
  missingFields : Option (List String) := none
  routingDecision : Option RoutingDecision := none
  failureReason : Option FailureReason := none
  error : Option String := none

/-- Overwrite the channels that `u` has. -/
def ExtractionState.update (s u : ExtractionState) : ExtractionState where
  documentId := u.documentId.or s.documentId
  tenantId := u.tenantId.or s.tenantId
  schemaId := u.schemaId.or s.schemaId
  schemaVersion := u.schemaVersion.or s.schemaVersion
  schemaName := u.schemaName.or s.schemaName
  fileStorageKey := u.fileStorageKey.or s.fileStorageKey
  confidenceHigh := u.confidenceHigh.or s.confidenceHigh
  confidenceMedium := u.confidenceMedium.or s.confidenceMedium
  jsonSchema := u.jsonSchema.or s.jsonSchema
  requiredFields := u.requiredFields.or s.requiredFields
  piiFields := u.piiFields.or s.piiFields
  status := u.status.or s.status
  currentStep := u.currentStep.or s.currentStep
  isCancelled := u.isCancelled.or s.isCancelled
  rawText := u.rawText.or s.rawText
  parseMethod := u.parseMethod.or s.parseMethod
  guardrailResults := u.guardrailResults.or s.guardrailResults
  guardrailMultiplier := u.guardrailMultiplier.or s.guardrailMultiplier
  extractedJson := u.extractedJson.or s.extractedJson
  llmModelUsed := u.llmModelUsed.or s.llmModelUsed
  llmTokenUsage := u.llmTokenUsage.or s.llmTokenUsage
  llmConfidence := u.llmConfidence.or s.llmConfidence
  confidence := u.confidence.or s.confidence
  confidenceBreakdown := u.confidenceBreakdown.or s.confidenceBreakdown
  lowConfidenceFields := u.lowConfidenceFields.or s.lowConfidenceFields
  missingFields := u.missingFields.or s.missingFields
  routingDecision := u.routingDecision.or s.routingDecision
  failureReason := u.failureReason.or s.failureReason
  error := u.error.or s.error

/-- The empty update, which a node returns to change nothing. -/
theorem ExtractionState.update_empty (s : ExtractionState) : s.update {} = s := rfl

end OcrService
