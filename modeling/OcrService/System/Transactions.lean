/-
  The transactions of the service.

  Between the read of a row and the commit of a transaction made from it, a task
  holds a copy of the row.  A `Known` says what is known of the rows that tasks
  read; `Prepared` lists the transactions a task can make from known rows, and
  `Holds` says that everything a task holds is known or made from known rows.

  * `move_holds`: a step that reads known rows keeps `Holds`, and what it commits
    is `Prepared`;
  * `reach_known`: the invariant rule for all runs of the service.
-/
import OcrService.System
import OcrService.Db.Writes

namespace OcrService

open Trans PyData

/-! ## What is known of the rows read -/

structure Known where
  /-- a document read by its run or by its erasure -/
  document : Document → Prop := fun _ => True
  /-- a document read by a retry or a review, which reset its status -/
  reset : Document → Prop := fun _ => True
  review : ReviewTask → Prop := fun _ => True
  /-- the extraction result read for a review -/
  extraction : ReviewTask → ExtractionResult → Prop := fun _ _ => True
  /-- the corrections about to be applied for a review -/
  corrections : ReviewTask → Corrections → Prop := fun _ _ => True
  entry : DeadLetter → Prop := fun _ => True
  /-- the pipeline state of a document -/
  state : Uuid → ExtractionState → Prop := fun _ _ => True
  channels : ∀ {d saved input}, state d input → state d (channels saved input) := by intros; trivial
  node : ∀ {d} {K : Components} {n : NodeName} {s u}, (n.run K s).result = .ok u → state d s →
    state d (s.update u) := by intros; trivial

/-- `κ'` knows less than `κ`. -/
structure Known.Le (κ κ' : Known) : Prop where
  document : ∀ {row}, κ.document row → κ'.document row
  reset : ∀ {row}, κ.reset row → κ'.reset row
  review : ∀ {row}, κ.review row → κ'.review row
  extraction : ∀ {review row}, κ.extraction review row → κ'.extraction review row
  corrections : ∀ {review cs}, κ.corrections review cs → κ'.corrections review cs
  entry : ∀ {row}, κ.entry row → κ'.entry row
  state : ∀ {d s}, κ.state d s → κ'.state d s

theorem Known.Le.refl (κ : Known) : κ.Le κ := ⟨id, id, id, id, id, id, id⟩

/-! ## What tasks hold -/

section
variable (S : Site) (κ : Known)

/-- `corrected` is what the corrections of a review make of the extraction read
    for it. -/
def Corrected (review : ReviewTask) (extraction : ExtractionResult) (corrected : Obj) : Prop :=
  κ.extraction review extraction ∧ ∃ extracted corrections,
    extraction.extractedJson = some extracted ∧ κ.corrections review corrections ∧
      corrected = applyCorrections extracted corrections

/-- A draft of `apply_action` made from known rows. -/
structure Draft (tenantId : Uuid) (draft : ReviewDraft) : Prop where
  review : κ.review draft.old
  tenant : draft.old.tenantId = tenantId
  new : draft.new.id = draft.old.id ∧ draft.new.documentId = draft.old.documentId ∧
    draft.new.tenantId = draft.old.tenantId ∧
      draft.new.extractionResultId = draft.old.extractionResultId
  event : draft.eventType ≠ "ERASURE_COMPLETED"
  extraction : ∀ w ∈ draft.extraction, ∃ extraction corrected,
    Corrected κ draft.old extraction corrected ∧
      w = .updateExtractionResult extraction { extraction with extractedJson := some corrected }

/-- The writes of a webhook delivery. -/
def WebhookWrite : Write → Prop
  | .insertWebhookDelivery _ | .insertDeadLetter _ => True
  | .insertAuditLog row => row.eventType ≠ "ERASURE_COMPLETED"
  | _ => False

/-- The transactions a task makes from known rows. -/
inductive Prepared : Task → List Write → Prop
  | persist {r : RunTask} {document : Document} {f : ExtractionState} {ws : List Write}
      (hdoc : κ.document document) (hid : document.id = r.documentId)
      (htenant : document.tenantId = r.tenantId) (hlive : document.status ≠ .cancelled)
      (hf : κ.state document.id f)
      (h : persistWrites S r.tenantId r.env.nonces document f = .ok ws) : Prepared (.run r) ws
  | webhook {t : WebhookTask} {ws : List Write} (h : ∀ w ∈ ws, WebhookWrite w) :
      Prepared (.webhook t) ws
  | cancel {e : EraseTask} {document : Document} (hdoc : κ.document document)
      (hid : document.id = e.documentId) (htenant : document.tenantId = e.tenantId) :
      Prepared (.erase e) (EraseTask.cancelWrites document)
  | erase {e : EraseTask} (hpc : e.pc = .delete) : Prepared (.erase e) (e.deleteWrites S)
  | review {q : ReviewRequest} {draft : ReviewDraft} {document : Option Document}
      (hdraft : Draft κ q.tenantId draft)
      (hdoc : ∀ row ∈ document, κ.reset row ∧ row.id = draft.old.documentId) :
      Prepared (.review q) (q.finishWrites S draft document)
  | create {x : ExtractRequest} {document : Document} (hid : document.id = x.documentId) :
      Prepared (.extract x) (createWrites document)
  | retry {y : RetryRequest} {entry : DeadLetter} {document : Option Document}
      (hentry : κ.entry entry) (hid : entry.id = y.dlqId)
      (hdoc : ∀ row ∈ document, κ.reset row ∧ row.id = entry.documentId) :
      Prepared (.retry y) (retryWrites entry document)
  | schema {c : SchemaRequest} {schema : Schema} {ws : List Write} (hid : schema.id = c.schemaId)
      (h : c.begin schema = .commit ws) : Prepared (.schema c) ws
  | seed {c : SchemaRequest} {schema : Schema} (hid : schema.id = c.schemaId) :
      Prepared (.schema c) [.updateSchema schema { schema with seedCount := schema.seedCount + 1 }]

def RunTask.Holds (r : RunTask) : Prop :=
  match r.pc with
  | .loadSchema document =>
    κ.document document ∧ document.id = r.documentId ∧ document.tenantId = r.tenantId
  | .openSaver s | .saveInput s | .node _ s _ | .save _ s _ | .closeSaver s _ | .persist s =>
    κ.state r.documentId s
  | .guard s document =>
    κ.state r.documentId s ∧ κ.document document ∧ document.id = r.documentId ∧
      document.tenantId = r.tenantId
  | .commit _ ws => Prepared S κ (.run r) ws
  | _ => True

def WebhookTask.Holds (t : WebhookTask) : Prop :=
  match t.pc with
  | .post _ _ _ rows => ∀ w ∈ rows, WebhookWrite w
  | .commit ws => ∀ w ∈ ws, WebhookWrite w
  | _ => True

/-- Once an erasure has read its document, it knows that its tenant has it. -/
def EraseTask.Holds (e : EraseTask) : Prop :=
  match e.pc with
  | .commitCancelled document =>
    κ.document document ∧ document.id = e.documentId ∧ document.tenantId = e.tenantId
  | .deleteBlob _ | .deletePoints | .purge | .delete | .clear | .done .returned =>
    ∃ document, κ.document document ∧ document.id = e.documentId ∧ document.tenantId = e.tenantId
  | _ => True

def ReviewRequest.Holds (q : ReviewRequest) : Prop :=
  match q.pc with
  | .readExtraction draft _ | .readDocument draft => Draft κ q.tenantId draft
  | .readExampleDocument draft corrected | .upsert draft corrected _ =>
    Draft κ q.tenantId draft ∧ ∃ extraction, Corrected κ draft.old extraction corrected
  | .commit ws => Prepared S κ (.review q) ws
  | _ => True

def ExtractRequest.Holds (x : ExtractRequest) : Prop :=
  match x.pc with
  | .saveBlob document | .commit document => document.id = x.documentId
  | _ => True

def RetryRequest.Holds (y : RetryRequest) : Prop :=
  match y.pc with
  | .readDocument entry => κ.entry entry ∧ entry.id = y.dlqId
  | .enqueue entry document | .commit entry document =>
    κ.entry entry ∧ entry.id = y.dlqId ∧
      ∀ row ∈ document, κ.reset row ∧ row.id = entry.documentId
  | _ => True

def SchemaRequest.Holds (c : SchemaRequest) : Prop :=
  match c.pc with
  | .upsert schema _ => schema.id = c.schemaId
  | .commit ws => Prepared S κ (.schema c) ws
  | _ => True

/-- Everything a task holds is known. -/
def Task.Holds : Task → Prop
  | .run r => r.Holds S κ
  | .webhook t => t.Holds
  | .erase e => e.Holds κ
  | .review q => q.Holds S κ
  | .extract x => x.Holds
  | .retry y => y.Holds κ
  | .schema c => c.Holds S κ

end

/-- What the next step of a task reads is known. -/
def Task.Reads (κ : Known) (w : World) : Task → Prop
  | .run r =>
    match r.pc with
    | .loadDocument | .persist _ =>
      ∀ row, w.db.document? r.tenantId r.documentId = some row → κ.document row
    | .loadSchema document =>
      κ.state r.documentId (initialState r.documentId r.tenantId document
        (w.db.schema? r.tenantId document.schemaId))
    | _ => True
  | .erase e =>
    match e.pc with
    | .read => ∀ row, w.db.document? e.tenantId e.documentId = some row → κ.document row
    | _ => True
  | .review q =>
    match q.pc with
    | .readReview => ∀ row, w.db.reviewTask? q.tenantId q.reviewId = some row → κ.review row
    | .readExtraction draft corrections =>
      ∀ row, w.db.extractionResult? q.tenantId draft.old.extractionResultId = some row →
        κ.extraction draft.old row ∧ κ.corrections draft.old corrections
    | .readDocument draft =>
      ∀ row, w.db.document? q.tenantId draft.old.documentId = some row → κ.reset row
    | _ => True
  | .retry y =>
    match y.pc with
    | .readEntry => ∀ row, w.db.deadLetter? y.tenantId y.dlqId = some row → κ.entry row
    | .readDocument entry =>
      ∀ row, w.db.document? y.tenantId entry.documentId = some row → κ.reset row
    | _ => True
  | .webhook _ | .extract _ | .schema _ => True

/-- The document, by tenant and id, that a task is about to read in order to set
    its status. -/
def Task.resets : Task → Option (Uuid × Uuid)
  | .retry y =>
    match y.pc with
    | .readDocument entry => some (y.tenantId, entry.documentId)
    | _ => none
  | .review q =>
    match q.pc with
    | .readDocument draft => some (q.tenantId, draft.old.documentId)
    | _ => none
  | _ => none

/-- A task that has not taken a step. -/
def Task.Fresh : Task → Prop
  | .run r => r.pc = .loadDocument
  | .webhook t => t.pc = .document
  | .erase e => e.pc = .register
  | .review q => q.pc = .readReview
  | .extract x => x.pc = .readTenant
  | .retry y => y.pc = .readEntry
  | .schema c => c.pc = .read

/-! ## One step -/

section
variable {S : Site} {κ κ' : Known} {w : World}

theorem Task.Fresh.holds {t : Task} (h : t.Fresh) : t.Holds S κ := by
  cases t <;> simp_all [Task.Fresh, Task.Holds, RunTask.Holds, WebhookTask.Holds, EraseTask.Holds,
    ReviewRequest.Holds, ExtractRequest.Holds, RetryRequest.Holds, SchemaRequest.Holds]

/-- A row read for a tenant has the key it was asked for, and is the tenant's. -/
theorem document?_eq {db : Db} {t d : Uuid} {row : Document} (h : db.document? t d = some row) :
    row.id = d ∧ row.tenantId = t :=
  ⟨(find_of_document? h).1, (find_of_document? h).2.1⟩

theorem reviewTask?_eq {db : Db} {t : Uuid} {id : RowId} {row : ReviewTask}
    (h : db.reviewTask? t id = some row) : row.id = id ∧ row.tenantId = t := by
  obtain ⟨h₁, h₂⟩ := Option.filter_eq_some_iff.1 h
  exact ⟨Rows.key_of_find h₁, by simpa using h₂⟩

theorem deadLetter?_eq {db : Db} {t : Uuid} {id : RowId} {row : DeadLetter}
    (h : db.deadLetter? t id = some row) : row.id = id ∧ row.tenantId = t := by
  obtain ⟨h₁, h₂⟩ := Option.filter_eq_some_iff.1 h
  exact ⟨Rows.key_of_find h₁, by simpa using h₂⟩

theorem schema?_eq {db : Db} {t σ : Uuid} {row : Schema} (h : db.schema? t σ = some row) :
    row.id = σ ∧ row.tenantId = t := by
  obtain ⟨h₁, h₂⟩ := Option.filter_eq_some_iff.1 h
  exact ⟨Rows.key_of_find h₁, by simpa using h₂⟩

/-- The steps of a run. -/
theorem RunTask.move_holds {r : RunTask} (h : r.Holds S κ) (hr : (Task.run r).Reads κ w) :
    (r.move S w).task.Holds S κ ∧
      ∀ ws, (r.move S w).change = .commit ws → Prepared S κ (.run r) ws := by
  have hfail : r.fail.task.Holds S κ ∧ ∀ ws, r.fail.change = .commit ws → Prepared S κ (.run r) ws :=
    ⟨trivial, by simp [RunTask.fail]⟩
  unfold RunTask.Holds at h
  unfold Task.Reads at hr
  cases hpc : r.pc <;> simp only [hpc] at h hr <;> simp only [RunTask.move, hpc]
  case loadDocument =>
    split_ifs
    · exact hfail
    · cases hrow : w.db.document? r.tenantId r.documentId with
      | none => exact ⟨trivial, by simp⟩
      | some row => exact ⟨⟨hr row hrow, document?_eq hrow⟩, by simp⟩
  case loadSchema document =>
    split_ifs
    · exact hfail
    · exact ⟨hr, by simp⟩
  case openSaver s => split_ifs <;> [exact hfail; exact ⟨h, by simp⟩]
  case saveInput s =>
    split_ifs <;> [exact hfail; exact ⟨κ.channels h, by simp⟩]
  case node n s unsaved =>
    split_ifs
    · exact hfail
    · cases hrun : (n.run r.env.K s).result with
      | error e => exact hfail
      | ok u => exact ⟨κ.node hrun h, by simp⟩
  case save n s unsaved =>
    have hnext (b : Bool) : (r.goto (.afterNode n s b)).Holds S κ := by
      unfold RunPc.afterNode
      cases n.next s <;> exact h
    exact ⟨hnext _, by simp⟩
  case closeSaver s unsaved => split_ifs <;> [exact hfail; exact ⟨h, by simp⟩]
  case persist s =>
    split_ifs
    · exact hfail
    · cases hrow : w.db.document? r.tenantId r.documentId with
      | none => exact ⟨trivial, by simp⟩
      | some row => exact ⟨⟨h, hr row hrow, document?_eq hrow⟩, by simp⟩
  case guard s document =>
    obtain ⟨hs, hdoc, hid, htenant⟩ := h
    unfold RunTask.persistOutcome
    split_ifs with hskip
    · exact ⟨trivial, by simp⟩
    · cases hws : persistWrites S r.tenantId r.env.nonces document s with
      | error e => exact hfail
      | ok ws =>
        simp only [not_or] at hskip
        refine ⟨?_, by simp⟩
        exact Prepared.persist (r := r.goto (.commit s ws)) hdoc hid htenant hskip.1
          (hid ▸ hs) hws
  case commit s ws =>
    split_ifs
    · exact hfail
    · cases w.db.commit ws with
      | error e => exact hfail
      | ok db =>
        refine ⟨trivial, fun ws' hws' => ?_⟩
        cases hws'
        exact h
  case persisted s => exact ⟨trivial, by simp⟩
  case release o => exact ⟨trivial, by simp⟩
  case done o => exact ⟨by simp [RunTask.Holds, hpc], by simp⟩

/-- The steps of a webhook delivery. -/
theorem WebhookTask.move_holds {t : WebhookTask} (h : t.Holds) :
    (t.move S w).task.Holds ∧
      ∀ ws, (t.move S w).change = .commit ws → Prepared S κ (.webhook t) ws := by
  unfold WebhookTask.Holds at h
  have hrow (attempt : ℕ) (status : Option ℕ) (error : Option String) {rows : List Write}
      (h : ∀ w ∈ rows, WebhookWrite w) :
      ∀ w ∈ rows ++ [t.attemptRow attempt status error], WebhookWrite w := by
    intro w hw
    rcases List.mem_append.1 hw with hw | hw
    · exact h w hw
    · rw [List.mem_singleton.1 hw]; trivial
  have hattempted (request : WebhookRequest) (attempt : ℕ) (status : Option ℕ)
      (error : Option String) {rows : List Write} (h : ∀ w ∈ rows, WebhookWrite w) :
      ({ t with pc := t.attempted S request attempt status error rows } : WebhookTask).Holds := by
    unfold WebhookTask.attempted
    split_ifs
    · show ∀ w ∈ _, WebhookWrite w
      rw [List.append_cons]
      intro w hw
      rcases List.mem_append.1 hw with hw | hw
      · exact hrow attempt status error h w hw
      · rw [List.mem_singleton.1 hw]
        exact (by decide : "WEBHOOK_DELIVERED" ≠ "ERASURE_COMPLETED")
    · exact hrow attempt status error h
  cases hpc : t.pc <;> simp only [hpc] at h <;> simp only [WebhookTask.move, hpc]
  case post request attempt last rows =>
    split_ifs
    · refine ⟨fun w hw => ?_, by simp⟩
      rcases List.mem_append.1 hw with hw | hw
      · exact h w hw
      · simp only [WebhookTask.exhausted, List.mem_cons, List.not_mem_nil, or_false] at hw
        rcases hw with rfl | rfl
        · trivial
        · exact (by decide : "WEBHOOK_EXHAUSTED" ≠ "ERASURE_COMPLETED")
    · cases t.env.post attempt with
      | status code => exact ⟨hattempted request attempt (some code) none h, by simp⟩
      | error text => exact ⟨hattempted request attempt none (some text) h, by simp⟩
      | otherException => exact ⟨trivial, by simp⟩
  case commit ws =>
    split_ifs
    · exact ⟨trivial, by simp⟩
    · cases w.db.commit ws with
      | error e => exact ⟨trivial, by simp⟩
      | ok db =>
        refine ⟨trivial, fun ws' hws' => ?_⟩
        cases hws'
        exact .webhook h
  case done o => exact ⟨by simp [WebhookTask.Holds, hpc], by simp⟩
  case extraction document url secret =>
    split_ifs
    · exact ⟨trivial, by simp⟩
    · exact ⟨by simp [WebhookTask.Holds], by simp⟩
  all_goals
    repeat' split
    all_goals exact ⟨trivial, by simp⟩

/-- The steps of an erasure. -/
theorem EraseTask.move_holds {e : EraseTask} (h : e.Holds κ) (hr : (Task.erase e).Reads κ w) :
    (e.move S w).task.Holds κ ∧
      ∀ ws, (e.move S w).change = .commit ws → Prepared S κ (.erase e) ws := by
  unfold EraseTask.Holds at h
  unfold Task.Reads at hr
  cases hpc : e.pc <;> simp only [hpc] at h hr <;> simp only [EraseTask.move, hpc]
  case register => exact ⟨trivial, by simp⟩
  case read =>
    split_ifs
    · exact ⟨trivial, by simp⟩
    · cases hrow : w.db.document? e.tenantId e.documentId with
      | none => exact ⟨trivial, by simp⟩
      | some row => exact ⟨⟨hr row hrow, document?_eq hrow⟩, by simp⟩
  case commitCancelled document =>
    split_ifs
    · exact ⟨trivial, by simp⟩
    · cases w.db.commit (EraseTask.cancelWrites document) with
      | error e => exact ⟨trivial, by simp⟩
      | ok db =>
        refine ⟨⟨document, h⟩, fun ws' hws' => ?_⟩
        cases hws'
        exact .cancel h.1 h.2.1 h.2.2
  case deleteBlob key =>
    refine ⟨h, ?_⟩
    repeat' split
    all_goals simp
  case deletePoints => exact ⟨h, by split_ifs <;> simp⟩
  case purge => split_ifs <;> [exact ⟨trivial, by simp⟩; exact ⟨h, by simp⟩]
  case delete =>
    split_ifs
    · exact ⟨trivial, by simp⟩
    · cases w.db.commit (e.deleteWrites S) with
      | error e => exact ⟨trivial, by simp⟩
      | ok db =>
        refine ⟨h, fun ws' hws' => ?_⟩
        cases hws'
        exact .erase hpc
  case clear => exact ⟨h, by simp⟩
  case done o => exact ⟨by simpa only [EraseTask.Holds, hpc] using h, by simp⟩

/-- The steps of a review request. -/
theorem ReviewRequest.move_holds {q : ReviewRequest} (h : q.Holds S κ) (hr : (Task.review q).Reads κ w) :
    (q.move S w).task.Holds S κ ∧
      ∀ ws, (q.move S w).change = .commit ws → Prepared S κ (.review q) ws := by
  unfold ReviewRequest.Holds at h
  unfold Task.Reads at hr
  cases hpc : q.pc <;> simp only [hpc] at h hr <;> simp only [ReviewRequest.move, hpc]
  case readReview =>
    split_ifs
    · exact ⟨trivial, by simp⟩
    · cases hrow : w.db.reviewTask? q.tenantId q.reviewId with
      | none => exact ⟨trivial, by simp⟩
      | some review =>
        dsimp only
        split_ifs
        · exact ⟨trivial, by simp⟩
        · refine ⟨?_, by simp⟩
          have hreview := hr review hrow
          have htenant := (reviewTask?_eq hrow).2
          unfold ReviewRequest.begin
          cases haction : q.action with
          | accept =>
            exact ⟨hreview, htenant, ⟨rfl, rfl, rfl, rfl⟩, by simp, by simp⟩
          | reject reason =>
            exact ⟨hreview, htenant, ⟨rfl, rfl, rfl, rfl⟩, by simp, by simp⟩
          | unknown action => trivial
          | correct corrections =>
            match corrections with
            | none | some [] => trivial
            | some (c :: cs) =>
              exact ⟨hreview, htenant, ⟨rfl, rfl, rfl, rfl⟩, by simp, by simp⟩
  case readExtraction draft corrections =>
    split_ifs
    · exact ⟨trivial, by simp⟩
    · cases hrow : w.db.extractionResult? q.tenantId draft.old.extractionResultId with
      | none => exact ⟨h, by simp⟩
      | some extraction =>
        obtain ⟨hextraction, hcorrections⟩ := hr extraction hrow
        dsimp only
        cases hx : extraction.extractedJson with
        | none => exact ⟨h, by simp⟩
        | some extracted =>
          have hcorrected : Corrected κ draft.old extraction (applyCorrections extracted corrections) :=
            ⟨hextraction, extracted, corrections, hx, hcorrections, rfl⟩
          refine ⟨⟨⟨h.review, h.tenant, h.new, h.event, ?_⟩, extraction, hcorrected⟩, by simp⟩
          intro w hw
          exact ⟨extraction, _, hcorrected, List.mem_singleton.1 hw⟩
  case readExampleDocument draft corrected =>
    split_ifs
    · exact ⟨h.1, by simp⟩
    · exact ⟨h, by simp⟩
  case upsert draft corrected document => exact ⟨h.1, by split_ifs <;> simp⟩
  case readDocument draft =>
    split_ifs
    · exact ⟨trivial, by simp⟩
    · refine ⟨?_, by simp⟩
      exact Prepared.review (q := q.goto _) h fun row hrow => ⟨hr row hrow, (document?_eq hrow).1⟩
  case commit ws =>
    split_ifs
    · exact ⟨trivial, by simp⟩
    · cases w.db.commit ws with
      | error e => exact ⟨trivial, by simp⟩
      | ok db =>
        refine ⟨trivial, fun ws' hws' => ?_⟩
        cases hws'
        exact h
  case done o => exact ⟨by simp [ReviewRequest.Holds, hpc], by simp⟩

/-- The steps of an extract request. -/
theorem ExtractRequest.move_holds {x : ExtractRequest} (h : x.Holds) :
    (x.move S w).task.Holds ∧
      ∀ ws, (x.move S w).change = .commit ws → Prepared S κ (.extract x) ws := by
  unfold ExtractRequest.Holds at h
  cases hpc : x.pc <;> simp only [hpc] at h <;> simp only [ExtractRequest.move, hpc]
  case create =>
    cases hdoc : createDocument S w.db x.tenantId x.documentId x.upload with
    | error e => exact ⟨trivial, by simp⟩
    | ok document =>
      dsimp only
      split_ifs
      · exact ⟨trivial, by simp⟩
      · refine ⟨?_, by simp⟩
        unfold createDocument at hdoc
        split at hdoc
        · cases hdoc
        · cases hschema : resolveActiveSchema w.db x.tenantId x.upload.schemaName with
          | error e => rw [hschema] at hdoc; cases hdoc
          | ok schema => rw [hschema] at hdoc; cases hdoc; rfl
  case saveBlob document =>
    split_ifs
    · rcases x.torn_cases with htorn | ⟨blob, htorn⟩
      · exact ⟨trivial, by simp [htorn]⟩
      · exact ⟨trivial, by simp [htorn]⟩
    · exact ⟨h, by simp⟩
  case commit document =>
    split_ifs
    · exact ⟨trivial, by simp⟩
    · cases w.db.commit (createWrites document) with
      | error e => exact ⟨trivial, by simp⟩
      | ok db =>
        refine ⟨trivial, fun ws' hws' => ?_⟩
        cases hws'
        exact .create h
  case done o => exact ⟨by simp [ExtractRequest.Holds, hpc], by simp⟩
  all_goals
    repeat' split
    all_goals exact ⟨trivial, by simp⟩

/-- The steps of a retry. -/
theorem RetryRequest.move_holds {y : RetryRequest} (h : y.Holds κ) (hr : (Task.retry y).Reads κ w) :
    (y.move w).task.Holds κ ∧
      ∀ ws, (y.move w).change = .commit ws → Prepared S κ (.retry y) ws := by
  unfold RetryRequest.Holds at h
  unfold Task.Reads at hr
  cases hpc : y.pc <;> simp only [hpc] at h hr <;> simp only [RetryRequest.move, hpc]
  case readEntry =>
    split_ifs
    · exact ⟨trivial, by simp⟩
    · cases hrow : w.db.deadLetter? y.tenantId y.dlqId with
      | none => exact ⟨trivial, by simp⟩
      | some entry =>
        dsimp only
        split_ifs
        · exact ⟨trivial, by simp⟩
        · exact ⟨⟨hr entry hrow, (deadLetter?_eq hrow).1⟩, by simp⟩
  case readDocument entry =>
    split_ifs
    · exact ⟨trivial, by simp⟩
    · exact ⟨⟨h.1, h.2, fun row hrow => ⟨hr row hrow, (document?_eq hrow).1⟩⟩, by simp⟩
  case enqueue entry document => exact ⟨h, by simp⟩
  case commit entry document =>
    split_ifs
    · exact ⟨trivial, by simp⟩
    · cases w.db.commit (retryWrites entry document) with
      | error e => exact ⟨trivial, by simp⟩
      | ok db =>
        refine ⟨trivial, fun ws' hws' => ?_⟩
        cases hws'
        exact .retry h.1 h.2.1 h.2.2
  case done o => exact ⟨by simp [RetryRequest.Holds, hpc], by simp⟩

/-- The steps of a schema call. -/
theorem SchemaRequest.move_holds {c : SchemaRequest} (h : c.Holds S κ) :
    (c.move w).task.Holds S κ ∧
      ∀ ws, (c.move w).change = .commit ws → Prepared S κ (.schema c) ws := by
  unfold SchemaRequest.Holds at h
  cases hpc : c.pc <;> simp only [hpc] at h <;> simp only [SchemaRequest.move, hpc]
  case read =>
    split_ifs
    · exact ⟨trivial, by simp⟩
    · cases hrow : w.db.schema? c.tenantId c.schemaId with
      | none => exact ⟨trivial, by simp⟩
      | some schema =>
        refine ⟨?_, by simp⟩
        have hid := (schema?_eq hrow).1
        show (c.goto (c.begin schema)).Holds S κ
        cases hbegin : c.begin schema with
        | read | done o => trivial
        | upsert schema' expectedJson =>
          show schema'.id = c.schemaId
          unfold SchemaRequest.begin at hbegin
          cases hcall : c.call <;> simp only [hcall] at hbegin
          case update => cases hbegin
          case addSeed => cases hbegin; exact hid
          case activate => split_ifs at hbegin
        | commit ws => exact Prepared.schema (c := c.goto _) hid hbegin
  case upsert schema expectedJson =>
    split_ifs
    · exact ⟨trivial, by simp⟩
    · exact ⟨Prepared.seed (c := c.goto _) h, by simp⟩
  case commit ws =>
    split_ifs
    · exact ⟨trivial, by simp⟩
    · cases w.db.commit ws with
      | error e => exact ⟨trivial, by simp⟩
      | ok db =>
        refine ⟨trivial, fun ws' hws' => ?_⟩
        cases hws'
        exact h
  case done o => exact ⟨by simp [SchemaRequest.Holds, hpc], by simp⟩

/-- A step spawns tasks that have not taken a step. -/
theorem Task.spawned_fresh {t u : Task} (h : u ∈ (t.move S w).spawned) : u.Fresh := by
  cases t with
  | run r =>
    obtain ⟨x, hx, rfl⟩ := List.mem_map.1 h
    have hnil : x ∉ r.fail.spawned := List.not_mem_nil
    cases hpc : r.pc <;> simp only [RunTask.move, hpc, RunTask.persistOutcome] at hx
    case persisted s =>
      simp only [RunTask.scheduledWebhooks] at hx
      split_ifs at hx
      · rw [List.mem_singleton.1 hx]; rfl
      · cases hx
    all_goals
      repeat' split at hx
      all_goals exact absurd hx hnil
  | extract x =>
    obtain ⟨r, hr, rfl⟩ := List.mem_map.1 h
    cases hpc : x.pc <;> simp only [ExtractRequest.move, hpc] at hr
    case enqueue => rw [List.mem_singleton.1 hr]; rfl
    all_goals
      repeat' split at hr
      all_goals cases hr
  | retry y =>
    obtain ⟨r, hr, rfl⟩ := List.mem_map.1 h
    cases hpc : y.pc <;> simp only [RetryRequest.move, hpc] at hr
    case enqueue => rw [List.mem_singleton.1 hr]; rfl
    all_goals
      repeat' split at hr
      all_goals cases hr
  | webhook | erase | review | schema => cases h

/-- **One step.**  A task that holds and reads known rows goes on holding known
    rows, and commits only what it made from them. -/
theorem Task.move_holds {t : Task} (h : t.Holds S κ) (hr : t.Reads κ w) :
    (t.move S w).task.Holds S κ ∧
      ∀ ws, (t.move S w).change = .commit ws → Prepared S κ t ws := by
  cases t with
  | run r => exact RunTask.move_holds h hr
  | webhook t => exact WebhookTask.move_holds h
  | erase e => exact EraseTask.move_holds h hr
  | review q => exact ReviewRequest.move_holds h hr
  | extract x => exact ExtractRequest.move_holds h
  | retry y => exact RetryRequest.move_holds h hr
  | schema c => exact SchemaRequest.move_holds h

/-! ## Knowing of documents only -/

/-- What is known of documents read, and of those read to be reset. -/
def Known.documents (document reset : Document → Prop) : Known where
  document := document
  reset := reset

theorem reads_documents {P R : Document → Prop} {t : Task}
    (hdoc : ∀ tenantId d row, w.db.document? tenantId d = some row → P row)
    (hreset : ∀ tenantId d row, t.resets = some (tenantId, d) →
      w.db.document? tenantId d = some row → R row) : t.Reads (Known.documents P R) w := by
  unfold Task.Reads
  unfold Task.resets at hreset
  repeat' split
  all_goals first
    | trivial
    | exact hdoc _ _
    | exact fun _ _ => trivial
    | exact fun _ _ => ⟨trivial, trivial⟩
    | (rename_i hpc; simp only [hpc] at hreset; exact fun row => hreset _ _ row rfl)

/-- Nothing has to be known of the rows read. -/
theorem reads_any (x : Task) (w : World) : x.Reads {} w :=
  reads_documents (P := fun _ => True) (R := fun _ => True) (fun _ _ _ _ => trivial)
    fun _ _ _ _ _ => trivial

/-! ## Knowing less -/

theorem Known.documents_le {P R P' R' : Document → Prop} (hdoc : ∀ row, P row → P' row)
    (hreset : ∀ row, R row → R' row) : (Known.documents P R).Le (Known.documents P' R') :=
  ⟨hdoc _, hreset _, id, id, id, id, id⟩

theorem Corrected.mono (hle : κ.Le κ') {review : ReviewTask} {extraction : ExtractionResult}
    {corrected : Obj} (h : Corrected κ review extraction corrected) :
    Corrected κ' review extraction corrected := by
  obtain ⟨hx, extracted, corrections, he, hcs, hc⟩ := h
  exact ⟨hle.extraction hx, extracted, corrections, he, hle.corrections hcs, hc⟩

theorem Draft.mono (hle : κ.Le κ') {t : Uuid} {draft : ReviewDraft} (h : Draft κ t draft) :
    Draft κ' t draft := by
  refine ⟨hle.review h.review, h.tenant, h.new, h.event, fun w hw => ?_⟩
  obtain ⟨extraction, corrected, hx, hw⟩ := h.extraction w hw
  exact ⟨extraction, corrected, hx.mono hle, hw⟩

theorem Prepared.mono (hle : κ.Le κ') {t : Task} {ws : List Write} (h : Prepared S κ t ws) :
    Prepared S κ' t ws := by
  cases h with
  | persist hdoc hid htenant hlive hf h =>
    exact .persist (hle.document hdoc) hid htenant hlive (hle.state hf) h
  | webhook h => exact .webhook h
  | cancel hdoc hid htenant => exact .cancel (hle.document hdoc) hid htenant
  | erase hpc => exact .erase hpc
  | review hdraft hdoc =>
    exact .review (hdraft.mono hle) fun row hrow => ⟨hle.reset (hdoc row hrow).1, (hdoc row hrow).2⟩
  | create hid => exact .create hid
  | retry hentry hid hdoc =>
    exact .retry (hle.entry hentry) hid fun row hrow => ⟨hle.reset (hdoc row hrow).1, (hdoc row hrow).2⟩
  | schema hid h => exact .schema hid h
  | seed hid => exact .seed hid

theorem Task.Holds.mono (hle : κ.Le κ') {t : Task} (h : t.Holds S κ) : t.Holds S κ' := by
  cases t with
  | run r =>
    show r.Holds S κ'
    replace h : r.Holds S κ := h
    unfold RunTask.Holds at h ⊢
    cases hpc : r.pc <;> simp only [hpc] at h ⊢
    case loadSchema document => exact ⟨hle.document h.1, h.2⟩
    case guard s document => exact ⟨hle.state h.1, hle.document h.2.1, h.2.2⟩
    case commit s ws => exact h.mono hle
    all_goals exact hle.state h
  | webhook t => exact h
  | erase e =>
    show e.Holds κ'
    replace h : e.Holds κ := h
    unfold EraseTask.Holds at h ⊢
    split at h
    · exact ⟨hle.document h.1, h.2⟩
    all_goals first
      | trivial
      | (obtain ⟨document, hdoc, h⟩ := h; exact ⟨document, hle.document hdoc, h⟩)
  | review q =>
    show q.Holds S κ'
    replace h : q.Holds S κ := h
    unfold ReviewRequest.Holds at h ⊢
    cases hpc : q.pc <;> simp only [hpc] at h ⊢
    case readExtraction draft corrections => exact h.mono hle
    case readExampleDocument | upsert =>
      obtain ⟨hdraft, extraction, hx⟩ := h
      exact ⟨hdraft.mono hle, extraction, hx.mono hle⟩
    case readDocument draft => exact h.mono hle
    case commit ws => exact h.mono hle
  | extract x => exact h
  | retry y =>
    show y.Holds κ'
    replace h : y.Holds κ := h
    unfold RetryRequest.Holds at h ⊢
    cases hpc : y.pc <;> simp only [hpc] at h ⊢
    case readDocument entry => exact ⟨hle.entry h.1, h.2⟩
    all_goals
      refine ⟨hle.entry h.1, h.2.1, fun row hrow => ?_⟩
      obtain ⟨hreset, hrest⟩ := h.2.2 row hrow
      exact ⟨hle.reset hreset, hrest⟩
  | schema c =>
    show c.Holds S κ'
    replace h : c.Holds S κ := h
    unfold SchemaRequest.Holds at h ⊢
    cases hpc : c.pc <;> simp only [hpc] at h ⊢
    case upsert schema _ => exact h
    case commit ws => exact h.mono hle

end

/-! ## Whole runs -/

/-- **The invariant rule of the service.**  `G` is an invariant of the world and
    `κ` what is known of the rows in it.  If every step reads known rows and
    keeps `G`, and what was known before it is known afterwards, then `G` holds
    and every task holds known rows in every state reached. -/
theorem reach_known {S : Site} {ok : System → ℕ → Prop} {G : World → Prop} {κ : World → Known}
    (hreads : ∀ q i t, G q.shared → q.tasks[i]? = some t → ok q i → t.Holds S (κ q.shared) →
      t.Reads (κ q.shared) q.shared)
    (hstep : ∀ q i t, G q.shared → q.tasks[i]? = some t → ok q i → t.Holds S (κ q.shared) →
      (∀ ws, (t.move S q.shared).change = .commit ws → Prepared S (κ q.shared) t ws) →
      G (q.shared.apply (t.move S q.shared).change) ∧
        (κ q.shared).Le (κ (q.shared.apply (t.move S q.shared).change)))
    {q q' : System} (h : Reach (System.step S) ok q q') (hG : G q.shared)
    (hL : ∀ t ∈ q.tasks, t.Holds S (κ q.shared)) :
    G q'.shared ∧ ∀ t ∈ q'.tasks, t.Holds S (κ q'.shared) := by
  refine Pool.reach_invariant (L := fun w t => t.Holds S (κ w))
    (fun q i t hG ht hi hok => ?_) (fun q i t hG ht hi hok u hu => ?_) h hG hL
  · obtain ⟨hholds, hcommit⟩ := Task.move_holds (w := q.shared) ht (hreads q i t hG hi hok ht)
    obtain ⟨hG', hle⟩ := hstep q i t hG hi hok ht hcommit
    exact ⟨hG', hholds.mono hle, fun u hu => (Task.spawned_fresh hu).holds⟩
  · obtain ⟨-, hcommit⟩ := Task.move_holds (w := q.shared) ht (hreads q i t hG hi hok ht)
    exact hu.mono (hstep q i t hG hi hok ht hcommit).2

end OcrService
