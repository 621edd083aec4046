/-
  Webhook delivery (`app/services/webhook_delivery.py`, and `_deliver_webhook`
  of `app/worker/runner.py`).

  The delivery task reads the document, its tenant and its extraction result,
  then posts until an attempt is answered with a 2xx status or the schedule is
  exhausted; its rows are committed at the end.
-/
import OcrService.World

namespace OcrService

open PyData

/-- What a POST comes to: a status code, an `httpx.HTTPError` or `OSError`, or
    another exception. -/
inductive PostResult
  | status (code : ℕ)
  | error (text : String)
  | otherException

/-- `RETRY_SCHEDULE_S`. -/
def retrySchedule : List ℕ := [1, 5, 30, 120, 600]

inductive WebhookPoint
  | document | tenant | extraction | commit
  deriving DecidableEq

/-- The outside world of one delivery. -/
structure WebhookEnv where
  raises : WebhookPoint → Bool := fun _ => false
  /-- the answer to the `attempt`-th POST -/
  post : ℕ → PostResult
  schedule : List ℕ := retrySchedule

/-- The `payload` of `_deliver_webhook`. -/
structure WebhookPayload where
  documentId : Uuid
  status : DocumentStatus
  routingDecision : Option RoutingDecision
  extractedJson : Option Obj

/-- What `deliver` sends, and where. -/
structure WebhookRequest where
  webhookUrl : String
  webhookSecret : String
  payload : WebhookPayload

inductive WebhookPc
  | document
  | tenant (document : Document)
  | extraction (document : Document) (webhookUrl webhookSecret : String)
  | post (request : WebhookRequest) (attempt : ℕ) (lastStatus : Option ℕ) (rows : List Write)
  | commit (ws : List Write)
  | done (outcome : Outcome)

structure WebhookTask where
  documentId : Uuid
  tenantId : Uuid
  env : WebhookEnv
  pc : WebhookPc := .document

namespace WebhookTask

def isOk (status : Option ℕ) : Bool :=
  match status with
  | some code => 200 ≤ code && code < 300
  | none => false

/-- The status as JSON. -/
def statusJson (status : Option ℕ) : Json :=
  match status with
  | some code => .int code
  | none => .null

/-- The rows and events of the loop body of `deliver`, for one attempt. -/
def attemptRow (t : WebhookTask) (attempt : ℕ) (status : Option ℕ) (error : Option String) : Write :=
  .insertWebhookDelivery
    { documentId := t.documentId, tenantId := t.tenantId, attempt, httpStatus := status, error }

def delivered (S : Site) (t : WebhookTask) (attempt : ℕ) (status : Option ℕ) : Write :=
  appendEvent S t.tenantId t.documentId "WEBHOOK_DELIVERED" "system:webhook" "completed" none
    (some [("attempt", .int attempt), ("http_status", statusJson status)])

/-- The end of `deliver`, when the schedule is exhausted. -/
def exhausted (S : Site) (t : WebhookTask) (lastStatus : Option ℕ) : List Write :=
  [ .insertDeadLetter
      { documentId := t.documentId
        tenantId := t.tenantId
        failureReason := .webhookDeliveryFailed
        lastHttpStatus := lastStatus },
    appendEvent S t.tenantId t.documentId "WEBHOOK_EXHAUSTED" "system:webhook" "error" none
      (some [("attempts", .int t.env.schedule.length), ("last_http_status", statusJson lastStatus)]) ]

/-- One attempt that was answered or failed with a transport error. -/
def attempted (S : Site) (t : WebhookTask) (request : WebhookRequest) (attempt : ℕ)
    (status : Option ℕ) (error : Option String) (rows : List Write) : WebhookPc :=
  if isOk status then
    .commit (rows ++ [t.attemptRow attempt status error, t.delivered S attempt status])
  else .post request (attempt + 1) status (rows ++ [t.attemptRow attempt status error])

/-- `_deliver_webhook`, and `deliver` from `.post` on. -/
def move (S : Site) (w : World) (t : WebhookTask) : Move WebhookTask Empty :=
  match t.pc with
  | .document =>
    if t.env.raises .document then { task := { t with pc := .done .raised } }
    else match w.db.document? t.tenantId t.documentId with
      | none => { task := { t with pc := .done .returned } }
      | some document => { task := { t with pc := .tenant document } }
  | .tenant document =>
    if t.env.raises .tenant then { task := { t with pc := .done .raised } }
    else match w.db.tenant? t.tenantId with
      | none => { task := { t with pc := .done .returned } }
      | some tenant =>
        match tenant.webhookUrl with
        | none | some "" => { task := { t with pc := .done .returned } }
        | some url => { task := { t with pc := .extraction document url tenant.webhookSecret } }
  | .extraction document webhookUrl webhookSecret =>
    if t.env.raises .extraction then { task := { t with pc := .done .raised } }
    else
      let extraction := (w.db.resultOf t.documentId).filter fun r => r.tenantId = t.tenantId
      let payload : WebhookPayload :=
        { documentId := t.documentId
          status := document.status
          routingDecision := document.routingDecision
          extractedJson := extraction.bind fun r => r.extractedJson }
      { task := { t with pc := .post { webhookUrl, webhookSecret, payload } 1 none [] } }
  | .post request attempt lastStatus rows =>
    if t.env.schedule.length < attempt then
      { task := { t with pc := .commit (rows ++ t.exhausted S lastStatus) } }
    else match t.env.post attempt with
      | .otherException => { task := { t with pc := .done .raised } }
      | .status code => { task := { t with pc := t.attempted S request attempt (some code) none rows } }
      | .error text => { task := { t with pc := t.attempted S request attempt none (some text) rows } }
  | .commit ws =>
    if t.env.raises .commit then { task := { t with pc := .done .raised } }
    else match w.db.commit ws with
      | .error _ => { task := { t with pc := .done .raised } }
      | .ok _ => { change := .commit ws, task := { t with pc := .done .returned } }
  | .done _ => { task := t }

end WebhookTask

end OcrService
