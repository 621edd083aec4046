/-
  GDPR erasure (`app/services/erasure.py`).

  `erase_document` registers the document in its process, commits the status
  `cancelled`, deletes blob, vectors and checkpoints, then deletes the row and
  appends the tombstone event, and clears the registration.  Exceptions of the
  two external deletes are suppressed; any other ends the call where it is.
-/
import OcrService.World

namespace OcrService

open PyData

inductive ErasePoint
  | read | commitCancelled | deleteBlob | deletePoints | purge | delete
  deriving DecidableEq

inductive ErasePc
  | register
  | read
  | commitCancelled (document : Document)
  | deleteBlob (storageKey : Option String)
  | deletePoints
  | purge
  | delete
  | clear
  | done (outcome : Outcome)

/-- A call of `erase_document` in process `proc`. -/
structure EraseTask where
  proc : ℕ
  documentId : Uuid
  tenantId : Uuid
  raises : ErasePoint → Bool := fun _ => false
  pc : ErasePc := .register

/-- The `ERASURE_COMPLETED` event. -/
def tombstone (S : Site) (tenantId documentId : Uuid) : Write :=
  appendEvent S tenantId documentId "ERASURE_COMPLETED" "system:gdpr" "cancelled" none
    (some [("reason", .str "gdpr_erasure")])

namespace EraseTask

def goto (e : EraseTask) (pc : ErasePc) : EraseTask := { e with pc }

/-- The first transaction: `documents.status = 'cancelled'`. -/
def cancelWrites (document : Document) : List Write :=
  [.updateDocument document { document with status := .cancelled }]

/-- The last transaction: the row and, last, the tombstone. -/
def deleteWrites (S : Site) (e : EraseTask) : List Write :=
  [.deleteDocument e.tenantId e.documentId, tombstone S e.tenantId e.documentId]

/-- `erase_document`. -/
def move (S : Site) (w : World) (e : EraseTask) : Move EraseTask Empty :=
  match e.pc with
  | .register => { change := .cancel e.proc e.documentId, task := e.goto .read }
  | .read =>
    if e.raises .read then { task := e.goto (.done .raised) }
    else match w.db.document? e.tenantId e.documentId with
      | none => { task := e.goto (.done .raised) } -- DocumentNotFoundError
      | some document => { task := e.goto (.commitCancelled document) }
  | .commitCancelled document =>
    if e.raises .commitCancelled then { task := e.goto (.done .raised) }
    else match w.db.commit (cancelWrites document) with
      | .error _ => { task := e.goto (.done .raised) }
      | .ok _ =>
        { change := .commit (cancelWrites document)
          task := e.goto (.deleteBlob document.fileStorageKey) }
  | .deleteBlob storageKey =>
    { change :=
        match storageKey with
        | none | some "" => .idle
        | some key => if e.raises .deleteBlob then .idle else .deleteBlob key
      task := e.goto .deletePoints }
  | .deletePoints =>
    { change := if e.raises .deletePoints then .idle else .deletePoints e.tenantId e.documentId
      task := e.goto .purge }
  | .purge =>
    if e.raises .purge then { task := e.goto (.done .raised) }
    else { change := .purgeCheckpoints e.documentId, task := e.goto .delete }
  | .delete =>
    if e.raises .delete then { task := e.goto (.done .raised) }
    else match w.db.commit (e.deleteWrites S) with
      | .error _ => { task := e.goto (.done .raised) }
      | .ok _ => { change := .commit (e.deleteWrites S), task := e.goto .clear }
  | .clear => { change := .clear e.proc e.documentId, task := e.goto (.done .returned) }
  | .done _ => { task := e }

/-! ### The steps -/

section
variable {S : Site} {w : World} {e : EraseTask}

theorem move_register : (e.goto .register).move S w =
    { change := .cancel e.proc e.documentId, task := e.goto .read } := rfl

theorem move_read : (e.goto .read).move S w =
    if e.raises .read then { task := e.goto (.done .raised) }
    else match w.db.document? e.tenantId e.documentId with
      | none => { task := e.goto (.done .raised) }
      | some document => { task := e.goto (.commitCancelled document) } := rfl

theorem move_commitCancelled (document : Document) : (e.goto (.commitCancelled document)).move S w =
    if e.raises .commitCancelled then { task := e.goto (.done .raised) }
    else match w.db.commit (cancelWrites document) with
      | .error _ => { task := e.goto (.done .raised) }
      | .ok _ =>
        { change := .commit (cancelWrites document)
          task := e.goto (.deleteBlob document.fileStorageKey) } := rfl

theorem move_deleteBlob (storageKey : Option String) : (e.goto (.deleteBlob storageKey)).move S w =
    { change :=
        match storageKey with
        | none | some "" => .idle
        | some key => if e.raises .deleteBlob then .idle else .deleteBlob key
      task := e.goto .deletePoints } := rfl

theorem move_deletePoints : (e.goto .deletePoints).move S w =
    { change := if e.raises .deletePoints then .idle else .deletePoints e.tenantId e.documentId
      task := e.goto .purge } := rfl

theorem move_purge : (e.goto .purge).move S w =
    if e.raises .purge then { task := e.goto (.done .raised) }
    else { change := .purgeCheckpoints e.documentId, task := e.goto .delete } := rfl

theorem move_delete : (e.goto .delete).move S w =
    if e.raises .delete then { task := e.goto (.done .raised) }
    else match w.db.commit (e.deleteWrites S) with
      | .error _ => { task := e.goto (.done .raised) }
      | .ok _ => { change := .commit (e.deleteWrites S), task := e.goto .clear } := rfl

end

end EraseTask

end OcrService
