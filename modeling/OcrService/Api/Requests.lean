/-
  The two requests that enqueue pipeline runs: `POST /extract`
  (`app/api/routers/extract.py`, `app/services/rate_limit.py`) and
  `POST /dlq/{dlq_id}/retry` (`app/api/routers/dlq.py`).

  `extract` acquires a slot of the tenant's rate limit and enqueues after its
  transaction committed; `retry_dlq` enqueues before its transaction commits
  and acquires no slot.
-/
import OcrService.Services.Ingest
import OcrService.Worker.Runner

namespace OcrService

open PyData

/-- The run that `enqueue_pipeline` schedules. -/
def enqueuePipeline (proc : ℕ) (documentId tenantId : Uuid) (env : RunEnv) : RunTask :=
  { proc, documentId, tenantId, env }

/-! ## `POST /extract` -/

/-- How a request is answered. -/
inductive ExtractResult
  | accepted | queueFull | refused (e : IngestError) | failed
  deriving DecidableEq

inductive ExtractPoint
  | readTenant | resolveSchema | flush | saveBlob | commit
  deriving DecidableEq

inductive ExtractPc
  | readTenant
  | acquire (limit : ℕ)
  | create
  | saveBlob (document : Document)
  | commit (document : Document)
  | enqueue
  | release (result : ExtractResult)
  | done (result : ExtractResult)

structure ExtractRequest where
  proc : ℕ
  tenantId : Uuid
  upload : Upload
  /-- the id that `gen_random_uuid()` gives to the document -/
  documentId : Uuid
  run : RunEnv
  raises : ExtractPoint → Bool := fun _ => false
  /-- the part of the content that a failing `write_bytes` leaves in the file -/
  leftover : Option Bytes := none
  pc : ExtractPc := .readTenant

namespace ExtractRequest

def goto (x : ExtractRequest) (pc : ExtractPc) : ExtractRequest := { x with pc }

/-- What `write_bytes` leaves when it fails. -/
def torn (x : ExtractRequest) : Change :=
  match x.leftover with
  | none => .idle
  | some content => .saveBlob ⟨storageKey x.tenantId x.documentId, content⟩

theorem torn_cases (x : ExtractRequest) : x.torn = .idle ∨ ∃ blob, x.torn = .saveBlob blob := by
  unfold torn
  cases x.leftover with
  | none => exact Or.inl rfl
  | some content => exact Or.inr ⟨_, rfl⟩

/-- `extract`. -/
def move (S : Site) (w : World) (x : ExtractRequest) : Move ExtractRequest RunTask :=
  match x.pc with
  | .readTenant =>
    if x.raises .readTenant then { task := x.goto (.done .failed) }
    else
      { task := x.goto <| .acquire <|
          match w.db.tenant? x.tenantId with
          | some tenant => tenant.maxQueueSize
          | none => 500 }
  | .acquire limit =>
    if limit ≤ (w.procs x.proc).inflight x.tenantId then { task := x.goto (.done .queueFull) }
    else { change := .acquire x.proc x.tenantId, task := x.goto .create }
  | .create =>
    match createDocument S w.db x.tenantId x.documentId x.upload with
    | .error e => { task := x.goto (.release (.refused e)) }
    | .ok document =>
      if x.raises .resolveSchema ∨ x.raises .flush ∨
          ((Write.insertDocument document).refused w.db).isSome then
        { task := x.goto (.release .failed) }
      else { task := x.goto (.saveBlob document) }
  | .saveBlob document =>
    if x.raises .saveBlob then
      { change := x.torn, task := x.goto (.release .failed) }
    else
      { change := .saveBlob ⟨storageKey x.tenantId x.documentId, x.upload.content⟩
        task := x.goto (.commit document) }
  | .commit document =>
    if x.raises .commit then { task := x.goto (.release .failed) }
    else match w.db.commit (createWrites document) with
      | .error _ => { task := x.goto (.release .failed) }
      | .ok _ => { change := .commit (createWrites document), task := x.goto .enqueue }
  | .enqueue =>
    { task := x.goto (.done .accepted)
      spawned := [enqueuePipeline x.proc x.documentId x.tenantId x.run] }
  | .release result =>
    { change := .release x.proc x.tenantId, task := x.goto (.done result) }
  | .done _ => { task := x }

section
variable {S : Site} {w : World} {x : ExtractRequest}

theorem move_readTenant : (x.goto .readTenant).move S w =
    if x.raises .readTenant then { task := x.goto (.done .failed) }
    else
      { task := x.goto <| .acquire <|
          match w.db.tenant? x.tenantId with
          | some tenant => tenant.maxQueueSize
          | none => 500 } := rfl

theorem move_acquire (limit : ℕ) : (x.goto (.acquire limit)).move S w =
    if limit ≤ (w.procs x.proc).inflight x.tenantId then { task := x.goto (.done .queueFull) }
    else { change := .acquire x.proc x.tenantId, task := x.goto .create } := rfl

theorem move_create : (x.goto .create).move S w =
    match createDocument S w.db x.tenantId x.documentId x.upload with
    | .error e => { task := x.goto (.release (.refused e)) }
    | .ok document =>
      if x.raises .resolveSchema ∨ x.raises .flush ∨
          ((Write.insertDocument document).refused w.db).isSome then
        { task := x.goto (.release .failed) }
      else { task := x.goto (.saveBlob document) } := rfl

theorem move_saveBlob (document : Document) : (x.goto (.saveBlob document)).move S w =
    if x.raises .saveBlob then
      { change := x.torn, task := x.goto (.release .failed) }
    else
      { change := .saveBlob ⟨storageKey x.tenantId x.documentId, x.upload.content⟩
        task := x.goto (.commit document) } := rfl

theorem move_commit (document : Document) : (x.goto (.commit document)).move S w =
    if x.raises .commit then { task := x.goto (.release .failed) }
    else match w.db.commit (createWrites document) with
      | .error _ => { task := x.goto (.release .failed) }
      | .ok _ => { change := .commit (createWrites document), task := x.goto .enqueue } := rfl

end

end ExtractRequest

/-! ## `POST /dlq/{dlq_id}/retry` -/

/-- How a retry is answered; `rolledBack` when the handler returned and its
    transaction failed. -/
inductive RetryResult
  | accepted | notFound | conflict | failed | rolledBack
  deriving DecidableEq

inductive RetryPoint
  | readEntry | readDocument | commit
  deriving DecidableEq

inductive RetryPc
  | readEntry
  | readDocument (entry : DeadLetter)
  | enqueue (entry : DeadLetter) (document : Option Document)
  | commit (entry : DeadLetter) (document : Option Document)
  | done (result : RetryResult)

structure RetryRequest where
  proc : ℕ
  dlqId : RowId
  tenantId : Uuid
  run : RunEnv
  raises : RetryPoint → Bool := fun _ => false
  pc : RetryPc := .readEntry

/-- The transaction of `retry_dlq`. -/
def retryWrites (entry : DeadLetter) (document : Option Document) : List Write :=
  .updateDeadLetter entry
    { entry with status := .retrying, retryCount := entry.retryCount + 1 } ::
  match document with
  | some r => [.updateDocument r { r with status := .pending }]
  | none => []

/-- The rows that a retry writes. -/
theorem mem_retryWrites {entry : DeadLetter} {document : Option Document} {w : Write}
    (hw : w ∈ retryWrites entry document) :
    w = .updateDeadLetter entry { entry with status := .retrying, retryCount := entry.retryCount + 1 } ∨
      ∃ row, document = some row ∧ w = .updateDocument row { row with status := .pending } := by
  rcases List.mem_cons.1 hw with hw | hw
  · exact Or.inl hw
  · cases document with
    | none => cases hw
    | some row => exact Or.inr ⟨row, rfl, List.mem_singleton.1 hw⟩

namespace RetryRequest

def goto (y : RetryRequest) (pc : RetryPc) : RetryRequest := { y with pc }

/-- `retry_dlq`; the session commits when the handler has returned. -/
def move (w : World) (y : RetryRequest) : Move RetryRequest RunTask :=
  match y.pc with
  | .readEntry =>
    if y.raises .readEntry then { task := y.goto (.done .failed) }
    else match w.db.deadLetter? y.tenantId y.dlqId with
      | none => { task := y.goto (.done .notFound) }
      | some entry =>
        if entry.status ≠ .pending then { task := y.goto (.done .conflict) }
        else { task := y.goto (.readDocument entry) }
  | .readDocument entry =>
    if y.raises .readDocument then { task := y.goto (.done .failed) }
    else { task := y.goto (.enqueue entry (w.db.document? y.tenantId entry.documentId)) }
  | .enqueue entry document =>
    { task := y.goto (.commit entry document)
      spawned := [enqueuePipeline y.proc entry.documentId entry.tenantId y.run] }
  | .commit entry document =>
    if y.raises .commit then { task := y.goto (.done .rolledBack) }
    else match w.db.commit (retryWrites entry document) with
      | .error _ => { task := y.goto (.done .rolledBack) }
      | .ok _ =>
        { change := .commit (retryWrites entry document), task := y.goto (.done .accepted) }
  | .done _ => { task := y }

/-! ### The steps -/

section
variable {w : World} {y : RetryRequest}

theorem move_readEntry : (y.goto .readEntry).move w =
    if y.raises .readEntry then { task := y.goto (.done .failed) }
    else match w.db.deadLetter? y.tenantId y.dlqId with
      | none => { task := y.goto (.done .notFound) }
      | some entry =>
        if entry.status ≠ .pending then { task := y.goto (.done .conflict) }
        else { task := y.goto (.readDocument entry) } := rfl

theorem move_readDocument (entry : DeadLetter) : (y.goto (.readDocument entry)).move w =
    if y.raises .readDocument then { task := y.goto (.done .failed) }
    else { task := y.goto (.enqueue entry (w.db.document? y.tenantId entry.documentId)) } := rfl

theorem move_enqueue (entry : DeadLetter) (document : Option Document) :
    (y.goto (.enqueue entry document)).move w =
      { task := y.goto (.commit entry document)
        spawned := [enqueuePipeline y.proc entry.documentId entry.tenantId y.run] } := rfl

theorem move_commit (entry : DeadLetter) (document : Option Document) :
    (y.goto (.commit entry document)).move w =
      if y.raises .commit then { task := y.goto (.done .rolledBack) }
      else match w.db.commit (retryWrites entry document) with
        | .error _ => { task := y.goto (.done .rolledBack) }
        | .ok _ =>
          { change := .commit (retryWrites entry document), task := y.goto (.done .accepted) } := rfl

end

end RetryRequest

end OcrService
