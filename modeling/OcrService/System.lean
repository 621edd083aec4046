/-
  The service: tasks of every kind over one world, interleaved step by step.

  A schedule names the task that moves next, so a run of the system is a run of
  the pool; a task that is never scheduled again has crashed.  Each replica is
  a process number with its own globals.
-/
import OcrService.Api.Requests
import OcrService.Services.Erasure
import OcrService.Services.Review
import OcrService.Services.SchemaRegistry
import OcrService.Lib.Pool

namespace OcrService

open Trans PyData

inductive Task
  | run (r : RunTask)
  | webhook (t : WebhookTask)
  | erase (e : EraseTask)
  | review (q : ReviewRequest)
  | extract (x : ExtractRequest)
  | retry (y : RetryRequest)
  | schema (c : SchemaRequest)

/-- The step of a task: its change, the task afterwards, what it scheduled. -/
def Task.move (S : Site) (w : World) : Task → Move Task Task
  | .run r => let m := r.move S w; ⟨m.change, .run m.task, m.spawned.map .webhook⟩
  | .webhook t => let m := t.move S w; ⟨m.change, .webhook m.task, []⟩
  | .erase e => let m := e.move S w; ⟨m.change, .erase m.task, []⟩
  | .review q => let m := q.move S w; ⟨m.change, .review m.task, []⟩
  | .extract x => let m := x.move S w; ⟨m.change, .extract m.task, m.spawned.map .run⟩
  | .retry y => let m := y.move w; ⟨m.change, .retry m.task, m.spawned.map .run⟩
  | .schema c => let m := c.move w; ⟨m.change, .schema m.task, []⟩

/-- The effect of a step on the world. -/
def Task.effect (S : Site) (w : World) (t : Task) : Effect World Task :=
  ⟨w.apply (t.move S w).change, (t.move S w).task, (t.move S w).spawned⟩

/-- The service: a world and its tasks. -/
abbrev System := Pool World Task

/-- Task `i` of the service takes its next step. -/
def System.step (S : Site) : System → ℕ → Option System := Pool.step (Task.effect S)

/-- The world after a step. -/
theorem System.shared_step {S : Site} {q q' : System} {i : ℕ} {x : Task} (hs : System.step S q i = some q')
    (hx : q.tasks[i]? = some x) : q'.shared = q.shared.apply (x.move S q.shared).change :=
  (Pool.step_of_task hs hx).1

/-- From world `w`, task `t` alone ends in world `w'` as `t'`. -/
def RunsTo (S : Site) (w : World) (t : Task) (w' : World) (t' : Task) : Prop :=
  Finishes (Task.effect S) (w, t) (w', t')

/-! ## A dead letter and a review of the small deployment -/

namespace Sample

/-- The dead-letter row of the webhook. -/
def undelivered : DeadLetter where
  id := 1
  documentId := documentId
  tenantId := tenantId
  failureReason := .webhookDeliveryFailed
  lastHttpStatus := some 503

/-- The world after the delivery failed. -/
def undeliveredWorld : World where
  db :=
    { (world []).db with
      documents := [{ document with status := .completed }]
      dlq := [undelivered]
      nextId := 2 }

/-- The review task of the document, pending. -/
def openReview : ReviewTask := { id := 1, documentId, tenantId, extractionResultId := 0 }

/-- The document with its extraction and its review task. -/
def openWorld : World where
  db :=
    { (world []).db with
      documents := [{ document with status := .review }]
      extractionResults :=
        [{ documentId
           tenantId
           extractedJson := some [("name", .str "Ann")]
           llmModelUsed := some "model"
           llmTokenUsage := some []
           confidenceOverall := none
           confidenceBreakdown := none
           lowConfidenceFields := some []
           missingFields := some [] }]
      reviewTasks := [openReview]
      nextId := 2 }

/-- A call on the review task. -/
def reviewCall (action : ReviewAction) (expectedVersion : ℕ) : ReviewRequest :=
  { reviewId := 1, tenantId, action, expectedVersion }

/-- A correction of the name. -/
def correctName : ReviewRequest := reviewCall (.correct (some [("name", [("new", .str "Bo")])])) 1

def retry : RetryRequest := { proc := 0, dlqId := 1, tenantId := tenantId, run := env }

def erase : EraseTask := { proc := 0, documentId := documentId, tenantId := tenantId }

def extract : ExtractRequest where
  proc := 0
  tenantId := tenantId
  upload :=
    { schemaName := "invoice", fileName := some "a.txt", content := [73], mimeType := some "text/plain" }
  documentId := 5
  run := env

end Sample

end OcrService
