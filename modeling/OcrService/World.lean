/-
  What the tasks of the service share: the database, the checkpoints of the
  pipeline runs, the vector store, the blob storage, and the globals of each
  process.

  A step of a task makes one `Change` to it and goes on (`Move`).  The
  projection lemmas say which part of the world a change touches.
-/
import OcrService.Db.Session

namespace OcrService

open PyData

/-- The globals of one process: the cancellation registry
    (`app/worker/cancellation.py`) and the counters of the rate limiter
    (`app/services/rate_limit.py`); a tenant without an entry counts 0. -/
structure Proc where
  cancelled : Finset Uuid := ∅
  inflight : Uuid → ℕ := fun _ => 0

namespace Proc
variable (g : Proc)

/-- `cancellation.cancel`. -/
def cancel (documentId : Uuid) : Proc := { g with cancelled := insert documentId g.cancelled }

/-- `cancellation.clear`. -/
def clear (documentId : Uuid) : Proc := { g with cancelled := g.cancelled.erase documentId }

/-- `cancellation.is_cancelled`. -/
def isCancelled (documentId : Uuid) : Bool := documentId ∈ g.cancelled

/-- `TenantRateLimiter.acquire`, below the limit. -/
def acquire (tenantId : Uuid) : Proc :=
  { g with inflight := Function.update g.inflight tenantId (g.inflight tenantId + 1) }

/-- `TenantRateLimiter.release`, with its floor at zero. -/
def release (tenantId : Uuid) : Proc :=
  { g with inflight := Function.update g.inflight tenantId (g.inflight tenantId - 1) }

end Proc

/-- A checkpoint row: the channels of a thread after a superstep. -/
structure Checkpoint where
  threadId : Uuid
  values : ExtractionState

/-- What wrote a point of the vector store. -/
inductive PointSource
  | seed | correction
  deriving DecidableEq

/-- A point of the vector store, by its payload. -/
structure Point where
  tenantId : Uuid
  schemaId : Uuid
  documentId : Uuid
  source : PointSource
  expectedJson : Obj

structure Blob where
  key : String
  content : Bytes

structure World where
  db : Db := {}
  checkpoints : List Checkpoint := []
  points : List Point := []
  blobs : List Blob := []
  procs : ℕ → Proc := fun _ => {}

/-- What one step does to the world. -/
inductive Change
  | idle
  | commit (ws : List Write)
  | saveCheckpoint (checkpoint : Checkpoint)
  | purgeCheckpoints (threadId : Uuid)
  | upsertPoint (point : Point)
  | deletePoints (tenantId documentId : Uuid)
  | saveBlob (blob : Blob)
  | deleteBlob (key : String)
  | cancel (proc : ℕ) (documentId : Uuid)
  | clear (proc : ℕ) (documentId : Uuid)
  | acquire (proc : ℕ) (tenantId : Uuid)
  | release (proc : ℕ) (tenantId : Uuid)

/-- A step of a task: its change to the world, the task afterwards, and the
    tasks it scheduled (`asyncio.create_task`). -/
structure Move (τ υ : Type) where
  change : Change := .idle
  task : τ
  spawned : List υ := []

/-- How a coroutine ends. -/
inductive Outcome
  | returned | raised
  deriving DecidableEq

/-- What the deployment fixes: the cipher, the SHA-256 of the canonical JSON of a
    payload (`payload_hash`), and the settings of the upload. -/
structure Site where
  cipher : Cipher
  payloadHash : Obj → String
  maxFileSizeBytes : ℕ
  allowedMimeTypes : List String

/-- `audit.append_event`. -/
def appendEvent (S : Site) (tenantId documentId : Uuid) (eventType actor status : String)
    (payload metadata : Option Obj) : Write :=
  .insertAuditLog
    { tenantId
      documentId := some documentId
      eventType
      actor := some actor
      status := some status
      payloadHash := payload.map S.payloadHash
      auditMetadata := metadata }

namespace World
variable (w : World)

def onProc (proc : ℕ) (f : Proc → Proc) : World :=
  { w with procs := Function.update w.procs proc (f (w.procs proc)) }

def apply : Change → World
  | .idle => w
  | .commit ws =>
    match w.db.commit ws with
    | .ok db => { w with db }
    | .error _ => w
  | .saveCheckpoint checkpoint => { w with checkpoints := w.checkpoints ++ [checkpoint] }
  | .purgeCheckpoints threadId =>
    { w with checkpoints := w.checkpoints.filter fun c => c.threadId ≠ threadId }
  | .upsertPoint point => { w with points := w.points ++ [point] }
  | .deletePoints tenantId documentId =>
    { w with
      points := w.points.filter fun p => ¬ (p.tenantId = tenantId ∧ p.documentId = documentId) }
  | .saveBlob blob => { w with blobs := w.blobs.filter (fun b => b.key ≠ blob.key) ++ [blob] }
  | .deleteBlob key => { w with blobs := w.blobs.filter fun b => b.key ≠ key }
  | .cancel proc documentId => w.onProc proc fun g => g.cancel documentId
  | .clear proc documentId => w.onProc proc fun g => g.clear documentId
  | .acquire proc tenantId => w.onProc proc fun g => g.acquire tenantId
  | .release proc tenantId => w.onProc proc fun g => g.release tenantId

/-- The channels of the newest checkpoint of a thread. -/
def savedState (threadId : Uuid) : Option ExtractionState :=
  ((w.checkpoints.filter fun c => c.threadId = threadId).getLast?).map Checkpoint.values

/-! ## What a change does -/

variable {w}

theorem apply_commit_ok {ws : List Write} {db : Db} (h : w.db.commit ws = .ok db) :
    w.apply (.commit ws) = { w with db } := by
  simp [apply, h]

theorem apply_commit_error {ws : List Write} {e : DbError} (h : w.db.commit ws = .error e) :
    w.apply (.commit ws) = w := by
  simp [apply, h]

/-- The database changes by a transaction only. -/
theorem db_apply (c : Change) :
    (w.apply c).db = w.db ∨ ∃ ws, c = .commit ws ∧ w.db.commit ws = .ok (w.apply c).db := by
  cases c with
  | commit ws =>
    cases h : w.db.commit ws with
    | ok db => rw [apply_commit_ok h]; exact Or.inr ⟨ws, rfl, h⟩
    | error e => rw [apply_commit_error h]; exact Or.inl rfl
  | _ => exact Or.inl rfl

/-- **What every write of a transaction keeps, a change keeps.** -/
theorem db_induction {P : Db → Prop} {c : Change} (h : P w.db)
    (hw : ∀ ws, c = .commit ws → w.db.commit ws = .ok (w.apply c).db →
      ∀ wr ∈ ws, ∀ db₁ db₂, P db₁ → wr.apply db₁ = .ok db₂ → P db₂) : P (w.apply c).db := by
  rcases db_apply c with hdb | ⟨ws, hc, hdb⟩
  · rw [hdb]
    exact h
  · exact Db.commit_induction hdb h (hw ws hc hdb)

/-- Without a transaction the database stays. -/
theorem db_of_no_commit {c : Change} (h : ∀ ws, c ≠ .commit ws) : (w.apply c).db = w.db := by
  rcases db_apply c with hdb | ⟨ws, hc, -⟩
  · exact hdb
  · exact absurd hc (h ws)

/-- A transaction changes the database only. -/
theorem apply_commit (ws : List Write) :
    w.apply (.commit ws) = { w with db := (w.apply (.commit ws)).db } := by
  cases h : w.db.commit ws with
  | ok db => rw [apply_commit_ok h]
  | error e => rw [apply_commit_error h]

/-- Where a point comes from. -/
theorem mem_points_apply {c : Change} {p : Point} (h : p ∈ (w.apply c).points) :
    p ∈ w.points ∨ c = .upsertPoint p := by
  cases c with
  | commit ws =>
    rw [apply_commit] at h
    exact Or.inl h
  | upsertPoint point =>
    rcases List.mem_append.1 h with h | h
    · exact Or.inl h
    · rw [List.mem_singleton.1 h]
      exact Or.inr rfl
  | deletePoints tenantId documentId => exact Or.inl (List.mem_filter.1 h).1
  | _ => exact Or.inl h

/-- Where a checkpoint comes from. -/
theorem mem_checkpoints_apply {c : Change} {checkpoint : Checkpoint}
    (h : checkpoint ∈ (w.apply c).checkpoints) :
    checkpoint ∈ w.checkpoints ∨ c = .saveCheckpoint checkpoint := by
  cases c with
  | commit ws =>
    rw [apply_commit] at h
    exact Or.inl h
  | saveCheckpoint checkpoint' =>
    rcases List.mem_append.1 h with h | h
    · exact Or.inl h
    · rw [List.mem_singleton.1 h]
      exact Or.inr rfl
  | purgeCheckpoints threadId => exact Or.inl (List.mem_filter.1 h).1
  | _ => exact Or.inl h

end World

end OcrService
