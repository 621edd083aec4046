/-
  The pipeline nodes (`app/pipeline/nodes.py`).

  A node is a function of the state that returns a partial update, or raises.
  What it asks of storage, parser and extraction chain is recorded as a list
  of `Call`s; their answers come from `Components`.
-/
import OcrService.Pipeline.State

namespace OcrService

open PyData

structure ParseResult where
  text : String
  method : String
  pageCount : ℕ

/-- `ParseResult.is_empty`. -/
def ParseResult.isEmpty (r : ParseResult) : Bool :=
  (PyStr.strip (r.text.toList.filter (· ≠ '\n'))).length < 10

/-- `LLMExtraction`; pydantic keeps the confidence in the unit interval. -/
structure LLMExtraction where
  fields : Obj
  confidence : ℚ
  lowConfidenceFields : List String
  missingFields : List String
  confidence_nonneg : 0 ≤ confidence
  confidence_le_one : confidence ≤ 1

/-- The arguments of `ExtractionChain.extract`. -/
structure ExtractArgs where
  tenantId : Uuid
  schemaId : Uuid
  schemaName : String
  jsonSchema : Obj
  requiredFields : List String
  text : String

/-- What the nodes use: storage, parser, guardrail tools, extraction chain and
    the configured model name.  An exception is the text `str(exc)`. -/
structure Components where
  load : String → Except String Bytes
  parse : Bytes → Except String ParseResult
  tools : TextTools
  extract : ExtractArgs → Except String LLMExtraction
  llmPrimaryModel : String

/-- A use of a component. -/
inductive Call
  | load (storageKey : String)
  | parse (content : Bytes)
  | extract (args : ExtractArgs)

/-- What a node did: the components it called, and its update or exception. -/
structure NodeRun where
  calls : List Call := []
  result : Except String ExtractionState

namespace Nodes

/-- `_halted`. -/
def halted (s : ExtractionState) : Bool := s.status = some .error ∨ s.status = some .cancelled

/-- The update of `parse_node` and `extract_node` when a component raised. -/
def failed (reason : FailureReason) (error : String) : ExtractionState :=
  { status := some .error, failureReason := some reason, error := some error }

/-- The update of `parse_node` for a result without text. -/
def emptyOutput (r : ParseResult) : ExtractionState :=
  { status := some .error
    failureReason := some .parseEmptyOutput
    rawText := some r.text
    parseMethod := some r.method
    currentStep := some "parse" }

/-- The update of `parse_node` for a parsed text. -/
def parsed (r : ParseResult) : ExtractionState :=
  { rawText := some r.text
    parseMethod := some r.method
    currentStep := some "parse"
    status := some .guarding }

/-- `parse_node`. -/
def parseNode (K : Components) (s : ExtractionState) : NodeRun :=
  if s.isCancelled = some true then
    { result := .ok { status := some .cancelled, currentStep := some "parse" } }
  else match s.fileStorageKey with
    | none => { result := .ok (failed .parseFailed "'file_storage_key'") }
    | some key =>
      match K.load key with
      | .error e => { calls := [.load key], result := .ok (failed .parseFailed e) }
      | .ok content =>
        match K.parse content with
        | .error e =>
          { calls := [.load key, .parse content], result := .ok (failed .parseFailed e) }
        | .ok r =>
          { calls := [.load key, .parse content]
            result := .ok (if r.isEmpty then emptyOutput r else parsed r) }

/-- The update of `guardrail_node` when `blocked` is the first outcome that blocks. -/
def blockedUpdate (outcomes : List GuardrailOutcome) (blocked : GuardrailOutcome) : ExtractionState :=
  { guardrailResults := some outcomes
    status := some .error
    failureReason :=
      some (if blocked.name = "injection" then .injectionDetected else .guardrailBlock)
    error := some (if blocked.detail.getD "" = "" then "guardrail blocked"
      else blocked.detail.getD "")
    currentStep := some "guardrail" }

/-- The update of `guardrail_node` when no outcome blocks. -/
def guarded (outcomes : List GuardrailOutcome) : ExtractionState :=
  { guardrailResults := some outcomes
    guardrailMultiplier := some (aggregateMultiplier outcomes)
    currentStep := some "guardrail"
    status := some .extracting }

/-- `guardrail_node`. -/
def guardrailNode (K : Components) (s : ExtractionState) : NodeRun :=
  if halted s then { result := .ok {} }
  else
    let outcomes := runGuardrails K.tools (s.rawText.getD "")
    -- `has_block`, and the first outcome that blocks
    match outcomes.find? fun o => o.result = .block with
    | some blocked => { result := .ok (blockedUpdate outcomes blocked) }
    | none => { result := .ok (guarded outcomes) }

/-- The truth value of `state.get("extracted_json")`. -/
def hasExtraction (s : ExtractionState) : Bool := !(s.extractedJson.getD []).isEmpty

/-- What `extract_node` asks of the chain, for its tenant and schema. -/
def extractArgs (s : ExtractionState) (tenantId schemaId : Uuid) : ExtractArgs :=
  { tenantId, schemaId
    schemaName := s.schemaName.getD ""
    jsonSchema := s.jsonSchema.getD []
    requiredFields := s.requiredFields.getD []
    text := s.rawText.getD "" }

/-- The update of `extract_node` for an answer of the chain. -/
def extracted (K : Components) (x : LLMExtraction) : ExtractionState :=
  { extractedJson := some x.fields
    llmModelUsed := some K.llmPrimaryModel
    llmTokenUsage := some []
    llmConfidence := some x.confidence
    lowConfidenceFields := some x.lowConfidenceFields
    missingFields := some x.missingFields
    currentStep := some "extract"
    status := some .scoring }

/-- `extract_node`. -/
def extractNode (K : Components) (s : ExtractionState) : NodeRun :=
  if halted s then { result := .ok {} }
  else if hasExtraction s then { result := .ok {} } -- idempotent on checkpoint replay
  else match s.tenantId, s.schemaId with
    | none, _ => { result := .ok (failed .extractionFailed "'tenant_id'") }
    | _, none => { result := .ok (failed .extractionFailed "'schema_id'") }
    | some tenantId, some schemaId =>
      { calls := [.extract (extractArgs s tenantId schemaId)]
        result := .ok <|
          match K.extract (extractArgs s tenantId schemaId) with
          | .error e => failed .extractionFailed e
          | .ok x => extracted K x }

/-- `extract_node` passes a state that is halted or has an extraction. -/
theorem extractNode_passed {K : Components} {s : ExtractionState}
    (hs : halted s = true ∨ hasExtraction s = true) : extractNode K s = { result := .ok {} } := by
  rcases hs with h | h <;> simp [extractNode, h]

/-- `len` of a JSON value. -/
def pyLen : Json → Except String ℕ
  | .obj d => .ok d.length
  | .arr xs => .ok xs.length
  | .str s => .ok s.length
  | .null => .error "object of type 'NoneType' has no len()"
  | .bool _ => .error "object of type 'bool' has no len()"
  | .int _ => .error "object of type 'int' has no len()"
  | .float _ => .error "object of type 'float' has no len()"

/-- `len(json_schema.get("properties", {}))`. -/
def propertyCount (jsonSchema : Obj) : Except String ℕ :=
  match jsonSchema.get? "properties" with
  | none => .ok 0
  | some properties => pyLen properties

/-- `fill_rate` of `score_node`, for `props` declared properties. -/
def fillRate (props : ℕ) (extracted : Obj) : ℚ :=
  min 1 (extracted.length / (if props = 0 then max extracted.length 1 else props))

/-- `llm_signal` of `score_node`: the self-report, or the structural signals
    when it is absent. -/
def llmSignal (llmSelf completeness fillRate : ℚ) : ℚ :=
  if 0 < llmSelf then llmSelf else min completeness fillRate

/-- The breakdown computed by `score_node`. -/
def breakdown (extracted : Obj) (required : List String) (props : ℕ) (llmSelf mult : ℚ) :
    ConfidenceBreakdown :=
  let completeness := completenessScore extracted required
  let fill := fillRate props extracted
  score (llmSignal llmSelf completeness fill) completeness fill mult

/-- The update of `score_node`, for `props` declared properties. -/
def scored (s : ExtractionState) (props : ℕ) : ExtractionState :=
  let extracted := s.extractedJson.getD []
  let required := s.requiredFields.getD []
  let b := breakdown extracted required props (s.llmConfidence.getD 0) (s.guardrailMultiplier.getD 1)
  { confidence := some b.guardrailAdjusted
    confidenceBreakdown := some b
    missingFields := some (missingRequired extracted required)
    currentStep := some "score"
    status := some .routing }

/-- `score_node`. -/
def scoreNode (s : ExtractionState) : NodeRun :=
  if halted s then { result := .ok {} }
  else match propertyCount (s.jsonSchema.getD []) with
    | .error e => { result := .error e }
    | .ok props => { result := .ok (scored s props) }

/-- The result of `route_decision`. -/
inductive Branch
  | deliver | review | dlq
  deriving DecidableEq

/-- Pick the branch of a confidence. -/
def branchOf (confidence high medium : ℚ) : Branch :=
  if high ≤ confidence then .deliver else if medium ≤ confidence then .review else .dlq

/-- `route_decision`. -/
def routeDecision (s : ExtractionState) : Branch :=
  if halted s then .dlq
  else branchOf (s.confidence.getD 0) (s.confidenceHigh.getD (17 / 20))
    (s.confidenceMedium.getD (3 / 5))

/-- The routing decision recorded for a branch. -/
def Branch.decision : Branch → RoutingDecision
  | deliver => .high
  | review => .medium
  | dlq => .low

/-- The update of `route_node`. -/
def routed (s : ExtractionState) : ExtractionState :=
  { routingDecision := some (routeDecision s).decision, currentStep := some "route" }

/-- `route_node`. -/
def routeNode (s : ExtractionState) : NodeRun := { result := .ok (routed s) }

/-- `deliver_node`. -/
def deliverNode : NodeRun :=
  { result := .ok { status := some .completed, currentStep := some "deliver" } }

/-- `review_node`. -/
def reviewNode : NodeRun :=
  { result := .ok { status := some .review, currentStep := some "create_review" } }

/-- The update of `dlq_node`. -/
def deadLettered (s : ExtractionState) : ExtractionState :=
  if s.status = some .cancelled then { currentStep := some "dlq" }
  else
    { status := some .rejected
      failureReason := some (s.failureReason.getD .lowConfidence)
      currentStep := some "dlq" }

/-- `dlq_node`. -/
def dlqNode (s : ExtractionState) : NodeRun := { result := .ok (deadLettered s) }

end Nodes

end OcrService
