/-
  Review actions (`app/services/review.py`, `app/api/routers/review.py`).

  `apply_action` reads the task, checks its version, and changes task, document
  and, for `correct`, the stored extraction in one transaction.  A correction
  also writes a few-shot example to the vector store before that transaction
  commits.  The document is read for the example and read again for its status:
  the session keeps no row that nothing refers to any more.
-/
import OcrService.World

namespace OcrService

open PyData

/-- The `action` of a request with its arguments. -/
inductive ReviewAction
  | accept
  | correct (corrections : Option Corrections)
  | reject (reason : Option String)
  | unknown (action : String)

inductive ReviewPoint
  | readReview | readExtraction | readExampleDocument | embed | upsert | readDocument | commit
  deriving DecidableEq

/-- `{field: change["new"]}` for the corrections that have one, in order. -/
def applyCorrections (extracted : Obj) (corrections : Corrections) : Obj :=
  corrections.foldl (fun corrected c =>
    match c.2.get? "new" with
    | some v => corrected.set c.1 v
    | none => corrected) extracted

/-- What `apply_action` has decided so far: the review row as read and as
    changed, the updates of the extraction, and the name of the action. -/
structure ReviewDraft where
  old : ReviewTask
  new : ReviewTask
  extraction : List Write := []
  rejected : Bool := false
  eventType : String

/-- `extraction.extracted_json = corrected`. -/
def ReviewDraft.setExtraction (draft : ReviewDraft) (extraction : ExtractionResult)
    (corrected : Obj) : ReviewDraft :=
  { draft with
    extraction :=
      [.updateExtractionResult extraction { extraction with extractedJson := some corrected }] }

inductive ReviewPc
  | readReview
  | readExtraction (draft : ReviewDraft) (corrections : Corrections)
  | readExampleDocument (draft : ReviewDraft) (corrected : Obj)
  | upsert (draft : ReviewDraft) (corrected : Obj) (document : Option Document)
  | readDocument (draft : ReviewDraft)
  | commit (ws : List Write)
  | done (outcome : Outcome)

/-- A request `POST /review/{review_id}`. -/
structure ReviewRequest where
  reviewId : RowId
  tenantId : Uuid
  action : ReviewAction
  expectedVersion : ℕ
  raises : ReviewPoint → Bool := fun _ => false
  pc : ReviewPc := .readReview

namespace ReviewRequest

def goto (q : ReviewRequest) (pc : ReviewPc) : ReviewRequest := { q with pc }

/-- The end of `apply_action`: document, event, flush. -/
def finishWrites (S : Site) (q : ReviewRequest) (draft : ReviewDraft) (document : Option Document) :
    List Write :=
  .updateReviewTask draft.old draft.new :: draft.extraction ++
    (match document with
      | some r => [.updateDocument r
          { r with status := if draft.rejected then .rejected else .completed }]
      | none => []) ++
    [appendEvent S q.tenantId draft.old.documentId draft.eventType "reviewer" draft.new.status.value
      none (some [("review_id", .str (toString q.reviewId))])]

/-- The rows that a decision writes. -/
theorem mem_finishWrites {S : Site} {q : ReviewRequest} {draft : ReviewDraft} {document : Option Document}
    {w : Write} (hw : w ∈ q.finishWrites S draft document) :
    w = .updateReviewTask draft.old draft.new ∨ w ∈ draft.extraction ∨
      (∃ row, document = some row ∧ w = .updateDocument row
        { row with status := if draft.rejected then .rejected else .completed }) ∨
        ∃ row : AuditLog, row.eventType = draft.eventType ∧ w = .insertAuditLog row := by
  simp only [finishWrites, List.cons_append, List.mem_cons, List.mem_append, List.not_mem_nil,
    or_false] at hw
  rcases hw with hw | (hw | hw) | hw
  · exact Or.inl hw
  · exact Or.inr (Or.inl hw)
  · cases document with
    | none => cases hw
    | some row => exact Or.inr (Or.inr (Or.inl ⟨row, rfl, List.mem_singleton.1 hw⟩))
  · exact Or.inr (Or.inr (Or.inr ⟨_, rfl, hw⟩))

/-- The vector-store point of a correction. -/
def examplePoint (q : ReviewRequest) (draft : ReviewDraft) (corrected : Obj) (document : Option Document) :
    Point where
  tenantId := q.tenantId
  schemaId := match document with | some r => r.schemaId | none => draft.old.documentId
  documentId := draft.old.documentId
  source := .correction
  expectedJson := corrected

/-- The branch of the action, once the version matched. -/
def begin (q : ReviewRequest) (review : ReviewTask) : ReviewPc :=
  match q.action with
  | .accept =>
    .readDocument
      { old := review, new := { review with status := .accepted }, eventType := "REVIEW_ACCEPT" }
  | .correct none | .correct (some []) => .done .raised
  | .correct (some corrections) =>
    .readExtraction
      { old := review
        new := { review with status := .corrected, corrections := some corrections }
        eventType := "REVIEW_CORRECT" }
      corrections
  | .reject reason =>
    .readDocument
      { old := review
        new := { review with status := .rejected, rejectionReason := reason }
        rejected := true
        eventType := "REVIEW_REJECT" }
  | .unknown _ => .done .raised

/-- `apply_action` in the session of `act_on_review`. -/
def move (S : Site) (w : World) (q : ReviewRequest) : Move ReviewRequest Empty :=
  match q.pc with
  | .readReview =>
    if q.raises .readReview then { task := q.goto (.done .raised) }
    else match w.db.reviewTask? q.tenantId q.reviewId with
      | none => { task := q.goto (.done .raised) }
      | some review =>
        if review.version ≠ q.expectedVersion then { task := q.goto (.done .raised) }
        else { task := q.goto (q.begin review) }
  | .readExtraction draft corrections =>
    if q.raises .readExtraction then { task := q.goto (.done .raised) }
    else match w.db.extractionResult? q.tenantId draft.old.extractionResultId with
      | none => { task := q.goto (.readDocument draft) }
      | some extraction =>
        match extraction.extractedJson with
        | none => { task := q.goto (.readDocument draft) }
        | some extracted =>
          let corrected := applyCorrections extracted corrections
          { task := q.goto (.readExampleDocument (draft.setExtraction extraction corrected) corrected) }
  | .readExampleDocument draft corrected =>
    if q.raises .readExampleDocument then { task := q.goto (.readDocument draft) }
    else
      { task :=
          q.goto (.upsert draft corrected (w.db.document? q.tenantId draft.old.documentId)) }
  | .upsert draft corrected document =>
    { change :=
        if q.raises .embed ∨ q.raises .upsert then .idle
        else .upsertPoint (q.examplePoint draft corrected document)
      task := q.goto (.readDocument draft) }
  | .readDocument draft =>
    if q.raises .readDocument then { task := q.goto (.done .raised) }
    else
      { task :=
          q.goto (.commit (q.finishWrites S draft (w.db.document? q.tenantId draft.old.documentId))) }
  | .commit ws =>
    if q.raises .commit then { task := q.goto (.done .raised) }
    else match w.db.commit ws with
      | .error _ => { task := q.goto (.done .raised) }
      | .ok _ => { change := .commit ws, task := q.goto (.done .returned) }
  | .done _ => { task := q }

end ReviewRequest

end OcrService
