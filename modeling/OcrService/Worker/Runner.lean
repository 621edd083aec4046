/-
  The pipeline runner (`app/worker/runner.py`, `app/pipeline/checkpoint.py`).

  `run_pipeline` loads the document and its schema, invokes the graph under
  the checkpointer, persists the outcome, and releases the rate-limit slot.  A
  run is a task: each `RunPc` is a point where it waits for the database, the
  checkpointer or a node, and `move` is what it does next.  An exception at
  such a point ends the run, which still releases its slot.

  The graph writes its checkpoints in the background, one after the other: a
  write that raises stops neither the nodes nor the later writes, and
  `graph.ainvoke` raises when the nodes are done.  A node sees neither the
  database nor the checkpoints, so the write is a step before the next node.

  The wait of `run_pipeline` for a slot of the worker pool is no step: a run that
  waits has not taken its first one (`Worker/WorkerPool`).
-/
import OcrService.Pipeline.Graph
import OcrService.Services.WebhookDelivery

namespace OcrService

open PyData

/-- `_load_initial_state`, from the rows it reads. -/
def initialState (documentId tenantId : Uuid) (document : Document) (schema : Option Schema) :
    ExtractionState where
  documentId := some documentId
  tenantId := some tenantId
  schemaId := some document.schemaId
  schemaVersion := some document.schemaVersion
  schemaName := some (match schema with | some r => r.name | none => "")
  fileStorageKey := some (document.fileStorageKey.getD "")
  confidenceHigh := some (match schema with | some r => r.confidenceHigh | none => 17 / 20)
  confidenceMedium := some (match schema with | some r => r.confidenceMedium | none => 3 / 5)
  jsonSchema := some (match schema with | some r => r.jsonSchema | none => [])
  requiredFields := some (match schema with | some r => r.requiredFields | none => [])
  piiFields := some (match schema with | some r => r.piiFields | none => [])
  status := some .pending
  isCancelled := some false

/-! ## Persisting the outcome -/

/-- `_TERMINAL`. -/
def terminalStatuses : List DocumentStatus := [.completed, .review, .rejected, .error, .cancelled]

/-- `final_status` of `_persist_outcome`. -/
def finalStatus (s : ExtractionState) : DocumentStatus := s.status.getD .error

/-- The status that `_persist_outcome` gives to the document. -/
def persistedStatus (s : ExtractionState) : DocumentStatus :=
  if finalStatus s ∈ terminalStatuses then finalStatus s else .error

theorem persistedStatus_terminal (f : ExtractionState) : persistedStatus f ∈ terminalStatuses := by
  unfold persistedStatus
  split_ifs with h
  · exact h
  · decide

/-- The document as `_persist_outcome` changes it. -/
def persistedDocument (document : Document) (s : ExtractionState) : Document :=
  { document with
    status := persistedStatus s
    routingDecision := s.routingDecision
    confidenceOverall := s.confidence.or document.confidenceOverall }

/-- The `guardrail_reports` rows. -/
def guardrailReports (documentId tenantId : Uuid) (s : ExtractionState) : List Write :=
  (s.guardrailResults.getD []).map fun report =>
    .insertGuardrailReport
      { documentId, tenantId
        guardrailName := report.name
        result := report.result
        detail := report.detail
        confidenceMultiplier := report.confidenceMultiplier }

/-- The extraction of `_write_extraction_result`, with PII encrypted. -/
def encryptedExtraction (S : Site) (tenantId : Uuid) (nonces : ℕ → Bytes) (s : ExtractionState) :
    Except EncError Obj :=
  let extracted := s.extractedJson.getD []
  let piiFields := s.piiFields.getD []
  if piiFields = [] then .ok extracted
  else encryptFields S.cipher tenantId nonces extracted piiFields

/-- The row of `_write_extraction_result`. -/
def extractionResult (documentId tenantId : Uuid) (s : ExtractionState) (extracted : Obj) :
    ExtractionResult where
  documentId := documentId
  tenantId := tenantId
  extractedJson := some extracted
  llmModelUsed := s.llmModelUsed
  llmTokenUsage := s.llmTokenUsage
  confidenceOverall := s.confidence
  confidenceBreakdown := s.confidenceBreakdown
  lowConfidenceFields := s.lowConfidenceFields
  missingFields := s.missingFields

/-- `_snapshot`. -/
def snapshot (s : ExtractionState) : Obj :=
  [ ("current_step", s.currentStep.map Json.str),
    ("routing_decision", s.routingDecision.map fun d => Json.str d.value),
    ("confidence", s.confidence.map Json.float),
    ("failure_reason", s.failureReason.map fun r => Json.str r.value),
    ("error", s.error.map Json.str),
    ("parse_method", s.parseMethod.map Json.str) ].filterMap fun e => e.2.map fun v => (e.1, v)

/-- The dead-letter row. -/
def deadLetter (documentId tenantId : Uuid) (s : ExtractionState) : DeadLetter where
  documentId := documentId
  tenantId := tenantId
  failureReason := s.failureReason.getD .unknown
  pipelineState := some (snapshot s)

/-- The rows that depend on the final status. -/
def statusWrites (S : Site) (documentId tenantId : Uuid) (nonces : ℕ → Bytes) (s : ExtractionState) :
    Except EncError (List Write) :=
  match finalStatus s with
  | .completed =>
    (encryptedExtraction S tenantId nonces s).map fun extracted =>
      [.insertExtractionResult (extractionResult documentId tenantId s extracted)]
  | .review =>
    (encryptedExtraction S tenantId nonces s).map fun extracted =>
      [.insertExtractionResult (extractionResult documentId tenantId s extracted),
        .insertReviewTask documentId tenantId]
  | .rejected | .error => .ok [.insertDeadLetter (deadLetter documentId tenantId s)]
  | _ => .ok []

/-- The event that `_persist_outcome` appends. -/
def pipelineEvent (S : Site) (documentId tenantId : Uuid) (s : ExtractionState) : Write :=
  appendEvent S tenantId documentId ("PIPELINE_" ++ (persistedStatus s).value.toUpper)
    "system:pipeline" (persistedStatus s).value s.extractedJson
    (some [("routing_decision", match s.routingDecision with
      | some d => .str d.value
      | none => .null)])

/-- The transaction of `_persist_outcome`. -/
def persistWrites (S : Site) (tenantId : Uuid) (nonces : ℕ → Bytes) (document : Document)
    (s : ExtractionState) : Except EncError (List Write) :=
  (statusWrites S document.id tenantId nonces s).map fun ws =>
    .updateDocument document (persistedDocument document s) ::
      guardrailReports document.id tenantId s ++ ws ++ [pipelineEvent S document.id tenantId s]

/-! ## The run -/

/-- Where a run can fail outside a node's own `try`; `saveInput` and `save` are the
    writes of checkpoints. -/
inductive RunPoint
  | loadDocument | loadSchema | openSaver | readThread | saveInput | node (n : NodeName)
  | save (n : NodeName) | closeSaver | persist | commit
  deriving DecidableEq

/-- The outside world of one run. -/
structure RunEnv where
  K : Components
  raises : RunPoint → Bool := fun _ => false
  nonces : ℕ → Bytes := fun _ => []
  webhook : WebhookEnv

/-- Where a run stands; `unsaved` says that a write of a checkpoint has raised. -/
inductive RunPc
  | loadDocument
  | loadSchema (document : Document)
  | openSaver (input : ExtractionState)
  | saveInput (input : ExtractionState)
  | node (n : NodeName) (s : ExtractionState) (unsaved : Bool)
  | save (n : NodeName) (s : ExtractionState) (unsaved : Bool)
  | closeSaver (final : ExtractionState) (unsaved : Bool)
  | persist (final : ExtractionState)
  | guard (final : ExtractionState) (document : Document)
  | commit (final : ExtractionState) (ws : List Write)
  | persisted (final : ExtractionState)
  | release (outcome : Outcome)
  | done (outcome : Outcome)

/-- Where a run goes after node `n` left the state `s`. -/
def RunPc.afterNode (n : NodeName) (s : ExtractionState) (unsaved : Bool) : RunPc :=
  match n.next s with
  | some m => .node m s unsaved
  | none => .closeSaver s unsaved

/-- A run of `run_pipeline` in process `proc`. -/
structure RunTask where
  proc : ℕ
  documentId : Uuid
  tenantId : Uuid
  env : RunEnv
  pc : RunPc := .loadDocument

namespace RunTask

def goto (r : RunTask) (pc : RunPc) : RunTask := { r with pc }

/-- An exception: the slot is still released. -/
def fail (r : RunTask) : Move RunTask WebhookTask := { task := r.goto (.release .raised) }

/-- The write of a checkpoint, unless it raises. -/
def write (r : RunTask) (p : RunPoint) (s : ExtractionState) : Change :=
  if r.env.raises p then .idle else .saveCheckpoint ⟨r.documentId, s⟩

/-- `_persist_outcome` after the document was read: the erasure guard, then the
    writes. -/
def persistOutcome (S : Site) (w : World) (r : RunTask) (final : ExtractionState)
    (document : Document) : Move RunTask WebhookTask :=
  if document.status = .cancelled ∨ document.status = .tombstone ∨
      (w.procs r.proc).isCancelled r.documentId then
    { task := r.goto (.persisted final) }
  else match persistWrites S r.tenantId r.env.nonces document final with
    | .error _ => r.fail
    | .ok ws => { task := r.goto (.commit final ws) }

/-- `_schedule_webhook`, when the run ended `completed`. -/
def scheduledWebhooks (r : RunTask) (final : ExtractionState) : List WebhookTask :=
  if final.status = some .completed then
    [{ documentId := r.documentId, tenantId := r.tenantId, env := r.env.webhook }]
  else []

/-- `run_pipeline`. -/
def move (S : Site) (w : World) (r : RunTask) : Move RunTask WebhookTask :=
  match r.pc with
  | .loadDocument =>
    if r.env.raises .loadDocument then r.fail
    else match w.db.document? r.tenantId r.documentId with
      | none => { task := r.goto (.release .returned) }
      | some document => { task := r.goto (.loadSchema document) }
  | .loadSchema document =>
    if r.env.raises .loadSchema then r.fail
    else
      let schema := w.db.schema? r.tenantId document.schemaId
      { task := r.goto (.openSaver (initialState r.documentId r.tenantId document schema)) }
  | .openSaver input =>
    if r.env.raises .openSaver then r.fail else { task := r.goto (.saveInput input) }
  | .saveInput input =>
    if r.env.raises .readThread then r.fail
    else
      let s := channels (w.savedState r.documentId) input
      { change := r.write .saveInput s, task := r.goto (.node .parse s (r.env.raises .saveInput)) }
  | .node n s unsaved =>
    if r.env.raises (.node n) then r.fail
    else match (n.run r.env.K s).result with
      | .error _ => r.fail
      | .ok u => { task := r.goto (.save n (s.update u) unsaved) }
  | .save n s unsaved =>
    { change := r.write (.save n) s
      task := r.goto (.afterNode n s (unsaved || r.env.raises (.save n))) }
  | .closeSaver final unsaved =>
    -- a write that raised is raised again at the end of `graph.ainvoke`
    if unsaved ∨ r.env.raises .closeSaver then r.fail else { task := r.goto (.persist final) }
  | .persist final =>
    if r.env.raises .persist then r.fail
    else match w.db.document? r.tenantId r.documentId with
      | none => { task := r.goto (.persisted final) }
      | some document => { task := r.goto (.guard final document) }
  | .guard final document => r.persistOutcome S w final document
  | .commit final ws =>
    if r.env.raises .commit then r.fail
    else match w.db.commit ws with
      | .error _ => r.fail
      | .ok _ => { change := .commit ws, task := r.goto (.persisted final) }
  | .persisted final =>
    { task := r.goto (.release .returned), spawned := r.scheduledWebhooks final }
  | .release outcome => { change := .release r.proc r.tenantId, task := r.goto (.done outcome) }
  | .done _ => { task := r }

/-! ## The steps -/

section
variable {S : Site} {w : World} {r : RunTask}

@[simp] theorem goto_proc (pc : RunPc) : (r.goto pc).proc = r.proc := rfl
@[simp] theorem goto_tenantId (pc : RunPc) : (r.goto pc).tenantId = r.tenantId := rfl
@[simp] theorem goto_pc (pc : RunPc) : (r.goto pc).pc = pc := rfl

theorem write_cases (p : RunPoint) (s : ExtractionState) :
    r.write p s = .idle ∨ r.write p s = .saveCheckpoint ⟨r.documentId, s⟩ := by
  unfold write
  split_ifs
  · exact Or.inl rfl
  · exact Or.inr rfl

@[simp] theorem write_ne_commit (p : RunPoint) (s : ExtractionState) (ws : List Write) :
    r.write p s ≠ .commit ws := by
  rcases write_cases (r := r) p s with h | h <;> simp [h]

/-- The write of a checkpoint leaves the database alone. -/
@[simp] theorem db_write (p : RunPoint) (s : ExtractionState) : (w.apply (r.write p s)).db = w.db :=
  World.db_of_no_commit fun ws => write_ne_commit p s ws

theorem move_loadDocument : (r.goto .loadDocument).move S w =
    if r.env.raises .loadDocument then r.fail
    else match w.db.document? r.tenantId r.documentId with
      | none => { task := r.goto (.release .returned) }
      | some document => { task := r.goto (.loadSchema document) } := rfl

theorem move_loadSchema (document : Document) : (r.goto (.loadSchema document)).move S w =
    if r.env.raises .loadSchema then r.fail
    else { task := r.goto (.openSaver (initialState r.documentId r.tenantId document
      (w.db.schema? r.tenantId document.schemaId))) } := rfl

theorem move_openSaver (input : ExtractionState) : (r.goto (.openSaver input)).move S w =
    if r.env.raises .openSaver then r.fail else { task := r.goto (.saveInput input) } := rfl

theorem move_saveInput (input : ExtractionState) : (r.goto (.saveInput input)).move S w =
    if r.env.raises .readThread then r.fail
    else
      { change := r.write .saveInput (channels (w.savedState r.documentId) input)
        task := r.goto (.node .parse (channels (w.savedState r.documentId) input)
          (r.env.raises .saveInput)) } := rfl

theorem move_node (n : NodeName) (s : ExtractionState) (unsaved : Bool) :
    (r.goto (.node n s unsaved)).move S w =
      if r.env.raises (.node n) then r.fail
      else match (n.run r.env.K s).result with
        | .error _ => r.fail
        | .ok u => { task := r.goto (.save n (s.update u) unsaved) } := rfl

theorem move_save (n : NodeName) (s : ExtractionState) (unsaved : Bool) :
    (r.goto (.save n s unsaved)).move S w =
      { change := r.write (.save n) s
        task := r.goto (.afterNode n s (unsaved || r.env.raises (.save n))) } := rfl

theorem move_closeSaver (final : ExtractionState) (unsaved : Bool) :
    (r.goto (.closeSaver final unsaved)).move S w =
      if unsaved ∨ r.env.raises .closeSaver then r.fail else { task := r.goto (.persist final) } := rfl

theorem move_persist (final : ExtractionState) : (r.goto (.persist final)).move S w =
    if r.env.raises .persist then r.fail
    else match w.db.document? r.tenantId r.documentId with
      | none => { task := r.goto (.persisted final) }
      | some document => { task := r.goto (.guard final document) } := rfl

theorem move_guard (final : ExtractionState) (document : Document) :
    (r.goto (.guard final document)).move S w = r.persistOutcome S w final document := rfl

theorem move_commit (final : ExtractionState) (ws : List Write) :
    (r.goto (.commit final ws)).move S w =
      if r.env.raises .commit then r.fail
      else match w.db.commit ws with
        | .error _ => r.fail
        | .ok _ => { change := .commit ws, task := r.goto (.persisted final) } := rfl

theorem move_persisted (final : ExtractionState) : (r.goto (.persisted final)).move S w =
    { task := r.goto (.release .returned), spawned := r.scheduledWebhooks final } := rfl

end

end RunTask

/-! ## A small deployment

One tenant without an encryption key, one active schema, and one document that
waits for its run. -/

namespace Sample

def tenantId : Uuid := 1
def otherTenantId : Uuid := 2
def schemaId : Uuid := 3
def documentId : Uuid := 4

def site : Site where
  cipher :=
    { b64encode := fun _ => ""
      b64decode := fun _ => .ok []
      hkdf := fun _ _ _ => []
      aesEncrypt := fun _ _ _ _ => []
      piiEncryptionKey := none }
  payloadHash _ := ""
  maxFileSizeBytes := 1000
  allowedMimeTypes := ["text/plain"]

/-- Storage, parser and chain answer; no guardrail blocks. -/
def components (fields : Obj) : Components where
  load _ := .ok [73]
  parse _ := .ok { text := "Invoice for Ann Example", method := "text", pageCount := 1 }
  tools := { search := fun _ => none, printable := fun _ => true }
  extract _ := .ok
    { fields
      confidence := 1
      lowConfidenceFields := []
      missingFields := []
      confidence_nonneg := zero_le_one
      confidence_le_one := le_rfl }
  llmPrimaryModel := "model"

def schema (piiFields : List String) : Schema where
  id := schemaId
  tenantId := tenantId
  name := "invoice"
  jsonSchema := [("properties", .obj [("name", .obj [])])]
  requiredFields := ["name"]
  piiFields := piiFields
  status := .active
  confidenceHigh := 1 / 2
  confidenceMedium := 1 / 4
  seedCount := 3

def document : Document where
  id := documentId
  tenantId := tenantId
  schemaId := schemaId
  schemaVersion := 1
  fileStorageKey := some "key"

def world (piiFields : List String) : World where
  db :=
    { tenants := [⟨tenantId, some "https://example.org", "secret", 1⟩]
      schemas := [schema piiFields]
      documents := [document]
      issued := [documentId] }

/-- What the document's run finds: an extraction of one field, and a webhook
    endpoint that is down. -/
def env : RunEnv where
  K := components [("name", .str "Ann")]
  webhook := { post := fun _ => .status 503 }

/-- The extraction chain is down. -/
def noChain : RunEnv := { env with K := { components [] with extract := fun _ => .error "timeout" } }

def run : RunTask where
  proc := 0
  documentId := documentId
  tenantId := tenantId
  env := env

end Sample

end OcrService
