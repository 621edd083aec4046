/-
  What is on record stays on record.

  The rows that a pipeline run, a delivery or a review leaves behind are evidence:
  guardrail reports and delivery attempts are only inserted, and the updates of a
  result, a review task or a dead letter change the columns of the decision, not
  those of what happened.  They come from copies read earlier, so this rests on the
  copies agreeing with the rows on the other columns (`Task.Copies`), whatever was
  written in between.

  * `Db.evidence`: what is on record of a document;
  * `Write.Faithful`: an update that changes none of it;
  * `evidence_kept`: every run of the service only adds to it.
-/
import OcrService.System.Isolation
import OcrService.System.AuditTrail
import OcrService.System.Accounts

namespace OcrService

open Trans PyData

/-! ## The record of a document -/

/-- A result as it was recorded, but for the corrections of a review. -/
def ExtractionResult.recorded (r : ExtractionResult) : ExtractionResult :=
  { r.stored with extractedJson := none }

/-- A review task but for its decision. -/
def ReviewTask.recorded (r : ReviewTask) : ReviewTask :=
  { r with status := .pending, corrections := none, rejectionReason := none, version := 1 }

/-- A dead letter but for its retries. -/
def DeadLetter.recorded (r : DeadLetter) : DeadLetter := { r with status := .pending, retryCount := 0 }

/-- What is on record of a document. -/
structure Evidence where
  reports : List GuardrailReport
  deliveries : List WebhookDelivery
  results : List ExtractionResult
  reviews : List ReviewTask
  letters : List DeadLetter

def Db.evidence (db : Db) (d : Uuid) : Evidence where
  reports := db.guardrailReports.filter fun r => r.documentId = d
  deliveries := db.webhookDeliveries.filter fun r => r.documentId = d
  results := (db.extractionResults.map ExtractionResult.recorded).filter fun r => r.documentId = d
  reviews := (db.reviewTasks.map ReviewTask.recorded).filter fun r => r.documentId = d
  letters := (db.dlq.map DeadLetter.recorded).filter fun r => r.documentId = d

/-- Every table has the rows of before, in order, and more of them after. -/
structure Evidence.Extends (e e' : Evidence) : Prop where
  reports : e.reports <+: e'.reports
  deliveries : e.deliveries <+: e'.deliveries
  results : e.results <+: e'.results
  reviews : e.reviews <+: e'.reviews
  letters : e.letters <+: e'.letters

theorem Evidence.Extends.refl {e : Evidence} : e.Extends e :=
  ⟨List.prefix_rfl, List.prefix_rfl, List.prefix_rfl, List.prefix_rfl, List.prefix_rfl⟩

theorem Evidence.Extends.trans {e e' e'' : Evidence} (h : e.Extends e') (h' : e'.Extends e'') :
    e.Extends e'' :=
  ⟨h.reports.trans h'.reports, h.deliveries.trans h'.deliveries, h.results.trans h'.results,
    h.reviews.trans h'.reviews, h.letters.trans h'.letters⟩

/-! ## Rows and copies that agree -/

namespace Db
variable (db : Db)

/-- Row id `k` is that of a result recorded so, and so on. -/
def ResultIs : RowId → ExtractionResult → Prop :=
  Numbered ExtractionResult.id ExtractionResult.recorded db.nextId db.extractionResults

def ReviewIs : RowId → ReviewTask → Prop :=
  Numbered ReviewTask.id ReviewTask.recorded db.nextId db.reviewTasks

def LetterIs : RowId → DeadLetter → Prop :=
  Numbered DeadLetter.id DeadLetter.recorded db.nextId db.dlq

instance {k : RowId} {o : ExtractionResult} : Decidable (db.ResultIs k o) :=
  inferInstanceAs (Decidable (Numbered ..))
instance {k : RowId} {o : ReviewTask} : Decidable (db.ReviewIs k o) :=
  inferInstanceAs (Decidable (Numbered ..))
instance {k : RowId} {o : DeadLetter} : Decidable (db.LetterIs k o) :=
  inferInstanceAs (Decidable (Numbered ..))

/-- The rows of one id are recorded alike. -/
structure Recorded : Prop where
  results : ∀ r ∈ db.extractionResults, db.ResultIs r.id r.recorded
  reviews : ∀ r ∈ db.reviewTasks, db.ReviewIs r.id r.recorded
  letters : ∀ r ∈ db.dlq, db.LetterIs r.id r.recorded

instance : Decidable db.Recorded :=
  decidable_of_iff (_ ∧ _ ∧ _) ⟨fun ⟨h₁, h₂, h₃⟩ => ⟨h₁, h₂, h₃⟩, fun ⟨h₁, h₂, h₃⟩ => ⟨h₁, h₂, h₃⟩⟩

/-- What a row id stands for in `db` it stands for in `db'`. -/
structure Agrees (db db' : Db) : Prop where
  result : ∀ {k o}, db.ResultIs k o → db'.ResultIs k o
  review : ∀ {k o}, db.ReviewIs k o → db'.ReviewIs k o
  letter : ∀ {k o}, db.LetterIs k o → db'.LetterIs k o

end Db

/-- The write changes nothing on record. -/
def Write.Faithful (db : Db) : Write → Prop
  | .updateExtractionResult old new => new.id = old.id ∧ db.ResultIs old.id new.recorded
  | .updateReviewTask old new => new.id = old.id ∧ db.ReviewIs old.id new.recorded
  | .updateDeadLetter old new => new.id = old.id ∧ db.LetterIs old.id new.recorded
  | _ => True

section
variable {db db' db'' : Db} {t d : Uuid} {w : Write} {ws : List Write}

theorem Db.Agrees.refl : db.Agrees db := ⟨id, id, id⟩

theorem Db.Agrees.trans (h : db.Agrees db') (h' : db'.Agrees db'') : db.Agrees db'' :=
  ⟨fun ho => h'.result (h.result ho), fun ho => h'.review (h.review ho),
    fun ho => h'.letter (h.letter ho)⟩

theorem Write.Faithful.mono (h : db.Agrees db') (hw : w.Faithful db) : w.Faithful db' := by
  cases w with
  | updateExtractionResult => exact ⟨hw.1, h.result hw.2⟩
  | updateReviewTask => exact ⟨hw.1, h.review hw.2⟩
  | updateDeadLetter => exact ⟨hw.1, h.letter hw.2⟩
  | _ => trivial

/-- A value that has been stored is stored as it is. -/
theorem recorded_stored (r : ExtractionResult) : r.stored.recorded = r.recorded := by
  simp [ExtractionResult.recorded, ExtractionResult.stored, Function.comp_def, Decimal.numeric_numeric]

theorem agrees_apply (hw : w.Faithful db) (h : w.apply db = .ok db') : db.Agrees db' := by
  cases performed_of_apply h with
  | @updateExtractionResult old new =>
    refine ⟨fun ho => ⟨ho.issued, ?_⟩, id, id⟩
    exact ho.own.replace (s := new.stored) (recorded_stored new ▸ hw.2.own) hw.1
  | @updateReviewTask old new =>
    refine ⟨id, fun ho => ⟨ho.issued, ?_⟩, id⟩
    exact ho.own.replace (s := { new with version := old.version + 1 }) hw.2.own hw.1
  | @updateDeadLetter old new =>
    refine ⟨id, id, fun ho => ⟨ho.issued, ?_⟩⟩
    exact ho.own.replace (s := new) hw.2.own hw.1
  | insertExtractionResult =>
    exact ⟨fun ho => Numbered.append ho rfl, fun ho => Numbered.succ ho, fun ho => Numbered.succ ho⟩
  | insertReviewTask =>
    exact ⟨fun ho => Numbered.succ ho, fun ho => Numbered.append ho rfl, fun ho => Numbered.succ ho⟩
  | insertDeadLetter =>
    exact ⟨fun ho => Numbered.succ ho, fun ho => Numbered.succ ho, fun ho => Numbered.append ho rfl⟩
  | deleteDocument =>
    exact ⟨fun ho => ho.subset Rows.delete_subset, fun ho => ho.subset Rows.delete_subset,
      fun ho => ho.subset Rows.delete_subset⟩
  | _ => exact ⟨id, id, id⟩

theorem recorded_apply (hr : db.Recorded) (hw : w.Faithful db) (h : w.apply db = .ok db') :
    db'.Recorded := by
  have ha := agrees_apply hw h
  have hresults : ∀ r ∈ db.extractionResults, db'.ResultIs r.id r.recorded :=
    fun r hmem => ha.result (hr.results r hmem)
  have hreviews : ∀ r ∈ db.reviewTasks, db'.ReviewIs r.id r.recorded :=
    fun r hmem => ha.review (hr.reviews r hmem)
  have hletters : ∀ r ∈ db.dlq, db'.LetterIs r.id r.recorded :=
    fun r hmem => ha.letter (hr.letters r hmem)
  cases performed_of_apply h with
  | @updateExtractionResult old new =>
    refine ⟨fun r hmem => ?_, hreviews, hletters⟩
    rcases Rows.mem_replace hmem with rfl | hmem
    · rw [recorded_stored]
      exact (show new.stored.id = old.id from hw.1) ▸ ha.result hw.2
    · exact hresults r hmem
  | @updateReviewTask old new =>
    refine ⟨hresults, fun r hmem => ?_, hletters⟩
    rcases Rows.mem_replace hmem with rfl | hmem
    · exact hw.1 ▸ ha.review hw.2
    · exact hreviews r hmem
  | @updateDeadLetter old new =>
    refine ⟨hresults, hreviews, fun r hmem => ?_⟩
    rcases Rows.mem_replace hmem with rfl | hmem
    · exact hw.1 ▸ ha.letter hw.2
    · exact hletters r hmem
  | insertExtractionResult =>
    refine ⟨fun r hmem => ?_, hreviews, hletters⟩
    rcases List.mem_append.1 hmem with hmem | hmem
    · exact hresults r hmem
    · rw [List.mem_singleton.1 hmem]
      exact Numbered.new fun r hmem => (hr.results r hmem).issued
  | insertReviewTask =>
    refine ⟨hresults, fun r hmem => ?_, hletters⟩
    rcases List.mem_append.1 hmem with hmem | hmem
    · exact hreviews r hmem
    · rw [List.mem_singleton.1 hmem]
      exact Numbered.new fun r hmem => (hr.reviews r hmem).issued
  | insertDeadLetter =>
    refine ⟨hresults, hreviews, fun r hmem => ?_⟩
    rcases List.mem_append.1 hmem with hmem | hmem
    · exact hletters r hmem
    · rw [List.mem_singleton.1 hmem]
      exact Numbered.new fun r hmem => (hr.letters r hmem).issued
  | deleteDocument =>
    exact ⟨fun r hmem => hresults r (Rows.delete_subset hmem),
      fun r hmem => hreviews r (Rows.delete_subset hmem),
      fun r hmem => hletters r (Rows.delete_subset hmem)⟩
  | _ => exact ⟨hresults, hreviews, hletters⟩

/-- **A faithful write only adds** to the record of a document that stays. -/
theorem evidence_apply (hw : w.Faithful db) (h : w.apply db = .ok db') (hdoc : db'.hasDocument d = true) :
    (db.evidence d).Extends (db'.evidence d) := by
  have hsame {α : Type} (l : List α) : l <+: l := List.prefix_rfl
  have happend {α β : Type} (l : List α) (a : α) (f : α → β) (p : β → Bool) :
      (l.map f).filter p <+: ((l ++ [a]).map f).filter p := by
    rw [List.map_append, List.filter_append]
    exact List.prefix_append _ _
  have hfilter {α : Type} (l : List α) (a : α) (p : α → Bool) : l.filter p <+: (l ++ [a]).filter p := by
    rw [List.filter_append]
    exact List.prefix_append _ _
  cases performed_of_apply h with
  | @updateExtractionResult old new =>
    refine ⟨hsame _, hsame _, ?_, hsame _, hsame _⟩
    have hown : Rows.Says ExtractionResult.id ExtractionResult.recorded db.extractionResults old.id
        new.stored.recorded := recorded_stored new ▸ hw.2.own
    simp only [Db.evidence]
    rw [hown.map_replace]
  | @updateReviewTask old new =>
    refine ⟨hsame _, hsame _, hsame _, ?_, hsame _⟩
    have hown : Rows.Says ReviewTask.id ReviewTask.recorded db.reviewTasks old.id
        { new with version := old.version + 1 }.recorded := hw.2.own
    simp only [Db.evidence]
    rw [hown.map_replace]
  | @updateDeadLetter old new =>
    refine ⟨hsame _, hsame _, hsame _, hsame _, ?_⟩
    simp only [Db.evidence]
    rw [hw.2.own.map_replace]
  | insertExtractionResult => exact ⟨hsame _, hsame _, happend .., hsame _, hsame _⟩
  | insertGuardrailReport => exact ⟨hfilter .., hsame _, hsame _, hsame _, hsame _⟩
  | insertReviewTask => exact ⟨hsame _, hsame _, hsame _, happend .., hsame _⟩
  | insertDeadLetter => exact ⟨hsame _, hsame _, hsame _, hsame _, happend ..⟩
  | insertWebhookDelivery => exact ⟨hsame _, hfilter .., hsame _, hsame _, hsame _⟩
  | @deleteDocument tenantId k =>
    have hne : d ≠ k := by
      rintro rfl
      simp [Db.hasDocument, Db.cascade, Rows.find_delete_self] at hdoc
    have hreports : (db.cascade k).evidence d = db.evidence d := by
      simp only [Db.evidence, Db.cascade, Evidence.mk.injEq]
      refine ⟨Rows.filter_delete _ fun r _ hk => ?_, Rows.filter_delete _ fun r _ hk => ?_,
        Rows.filter_map_delete fun r _ hp => ?_, Rows.filter_map_delete fun r _ hp => ?_,
        Rows.filter_map_delete fun r _ hp => ?_⟩
      · exact decide_eq_false (hk ▸ hne.symm)
      · exact decide_eq_false (hk ▸ hne.symm)
      all_goals exact (of_decide_eq_true hp) ▸ hne
    rw [hreports]
    exact .refl
  | _ => exact .refl

end

/-! ## Copies over await points -/

/-- A draft made from a copy that agrees with the row, and a correction likewise. -/
structure ReviewDraft.Copies (db : Db) (draft : ReviewDraft) : Prop where
  review : Write.Faithful db (.updateReviewTask draft.old draft.new)
  extraction : ∀ w ∈ draft.extraction, w.Faithful db

def ReviewRequest.Copies (db : Db) (q : ReviewRequest) : Prop :=
  match q.pc with
  | .readExtraction draft _ | .readExampleDocument draft _ | .upsert draft _ _ | .readDocument draft =>
    draft.Copies db
  | .commit ws => ∀ w ∈ ws, w.Faithful db
  | .readReview | .done _ => True

def RetryRequest.Copies (db : Db) (y : RetryRequest) : Prop :=
  match y.pc with
  | .readDocument entry | .enqueue entry _ | .commit entry _ => db.LetterIs entry.id entry.recorded
  | .readEntry | .done _ => True

/-- The copies that a task may write back agree with the rows. -/
def Task.Copies (db : Db) : Task → Prop
  | .review q => q.Copies db
  | .retry y => y.Copies db
  | .run _ | .webhook _ | .erase _ | .extract _ | .schema _ => True

section
variable {S : Site} {w : World} {db db' : Db} {t d : Uuid} {x : Task} {ws : List Write}

theorem Task.Copies.mono (ha : db.Agrees db') (h : x.Copies db) : x.Copies db' := by
  cases x with
  | review q =>
    show q.Copies db'
    replace h : q.Copies db := h
    unfold ReviewRequest.Copies at h ⊢
    cases hpc : q.pc <;> simp only [hpc] at h ⊢
    case commit => exact fun wr hwr => (h wr hwr).mono ha
    all_goals exact ⟨h.review.mono ha, fun wr hwr => (h.extraction wr hwr).mono ha⟩
  | retry y =>
    show y.Copies db'
    replace h : y.Copies db := h
    unfold RetryRequest.Copies at h ⊢
    cases hpc : y.pc <;> simp only [hpc] at h ⊢
    all_goals exact ha.letter h
  | _ => trivial

theorem Task.Fresh.copies (h : x.Fresh) : x.Copies db := by
  cases x <;> simp_all [Task.Fresh, Task.Copies, ReviewRequest.Copies, RetryRequest.Copies]

/-- The transaction of a decision. -/
theorem faithful_finish {q : ReviewRequest} {draft : ReviewDraft} {document : Option Document}
    (h : draft.Copies db) : ∀ wr ∈ q.finishWrites S draft document, wr.Faithful db := by
  intro wr hwr
  rcases ReviewRequest.mem_finishWrites hwr with rfl | hwr | ⟨row, -, rfl⟩ | ⟨row, -, rfl⟩
  · exact h.review
  · exact h.extraction wr hwr
  · trivial
  · trivial

/-- The steps of a review request. -/
theorem ReviewRequest.move_copies {q : ReviewRequest} (hr : w.db.Recorded) (h : q.Copies w.db) :
    (q.move S w).task.Copies w.db := by
  unfold ReviewRequest.Copies at h
  cases hpc : q.pc <;> simp only [hpc] at h <;> simp only [ReviewRequest.move, hpc]
  case readReview =>
    split_ifs
    · trivial
    · cases hrow : w.db.reviewTask? q.tenantId q.reviewId with
      | none => trivial
      | some review =>
        have hreview := hr.reviews review (Rows.mem_of_find (Option.filter_eq_some_iff.1 hrow).1)
        dsimp only
        split_ifs
        · trivial
        · unfold ReviewRequest.begin
          cases haction : q.action with
          | accept => exact ⟨⟨rfl, hreview⟩, fun _ hwr => absurd hwr List.not_mem_nil⟩
          | reject reason => exact ⟨⟨rfl, hreview⟩, fun _ hwr => absurd hwr List.not_mem_nil⟩
          | unknown action => trivial
          | correct corrections =>
            obtain _ | _ | ⟨c, cs⟩ := corrections
            · trivial
            · trivial
            · exact ⟨⟨rfl, hreview⟩, fun _ hwr => absurd hwr List.not_mem_nil⟩
  case readExtraction draft corrections =>
    split_ifs
    · trivial
    · cases hrow : w.db.extractionResult? q.tenantId draft.old.extractionResultId with
      | none => exact h
      | some extraction =>
        have hresult := hr.results extraction (Rows.mem_of_find (Option.filter_eq_some_iff.1 hrow).1)
        dsimp only
        cases extraction.extractedJson with
        | none => exact h
        | some extracted =>
          refine ⟨h.review, fun wr hwr => ?_⟩
          rw [List.mem_singleton.1 hwr]
          exact ⟨rfl, hresult⟩
  case readExampleDocument draft corrected => split_ifs <;> exact h
  case upsert draft corrected document => exact h
  case readDocument draft =>
    split_ifs
    · trivial
    · exact faithful_finish h
  case commit ws =>
    split_ifs
    · trivial
    · cases w.db.commit ws <;> trivial
  case done o => simp only [ReviewRequest.Copies, hpc]

/-- The steps of a retry. -/
theorem RetryRequest.move_copies {y : RetryRequest} (hr : w.db.Recorded) (h : y.Copies w.db) :
    (y.move w).task.Copies w.db := by
  unfold RetryRequest.Copies at h
  cases hpc : y.pc <;> simp only [hpc] at h <;> simp only [RetryRequest.move, hpc]
  case readEntry =>
    split_ifs
    · trivial
    · cases hrow : w.db.deadLetter? y.tenantId y.dlqId with
      | none => trivial
      | some entry =>
        have hletter := hr.letters entry (Rows.mem_of_find (Option.filter_eq_some_iff.1 hrow).1)
        dsimp only
        split_ifs
        · trivial
        · exact hletter
  case readDocument entry => split_ifs <;> [trivial; exact h]
  case enqueue entry document => exact h
  case commit entry document =>
    split_ifs
    · trivial
    · cases w.db.commit (retryWrites entry document) <;> trivial
  case done o => simp only [RetryRequest.Copies, hpc]

theorem Task.move_copies (hr : w.db.Recorded) (h : x.Copies w.db) : (x.move S w).task.Copies w.db := by
  cases x with
  | review q => exact ReviewRequest.move_copies hr h
  | retry y => exact RetryRequest.move_copies hr h
  | _ => trivial

/-- **The transactions of the service** are faithful. -/
theorem faithful_commit (hholds : x.Holds S {}) (h : x.Copies w.db)
    (hc : (x.move S w).change = .commit ws) : ∀ wr ∈ ws, wr.Faithful w.db := by
  intro wr hwr
  have hwritten := ((Task.move_holds hholds (reads_any x w)).2 ws hc).written hwr
  cases x with
  | review q =>
    obtain ⟨hpc, -⟩ := ReviewRequest.change_commit hc
    have hcopies : q.Copies w.db := h
    simp only [ReviewRequest.Copies, hpc] at hcopies
    exact hcopies wr hwr
  | retry y =>
    obtain ⟨entry, document, hpc, rfl, -⟩ := RetryRequest.change_commit hc
    have hcopies : y.Copies w.db := h
    simp only [RetryRequest.Copies, hpc] at hcopies
    rcases mem_retryWrites hwr with rfl | ⟨row, -, rfl⟩
    · exact ⟨rfl, hcopies⟩
    · trivial
  | run r => cases hwritten with | persist _ _ _ _ _ h => cases h <;> trivial
  | webhook y =>
    cases hwritten with | webhook h => cases wr <;> trivial
  | erase e => cases hwritten <;> trivial
  | extract y => cases hwritten <;> trivial
  | schema c => cases hwritten <;> trivial

/-! ## Whole runs -/

/-- What a transaction keeps of the records. -/
structure Db.Keeps (db db' : Db) : Prop where
  recorded : db'.Recorded
  agrees : db.Agrees db'
  issued : ∀ d ∈ db.issued, d ∈ db'.issued
  evidence : ∀ d ∈ db.issued, db'.hasDocument d = true → (db.evidence d).Extends (db'.evidence d)
  before : ∀ d ∈ db.issued, db'.hasDocument d = true → db.hasDocument d = true

theorem Db.Keeps.refl (hr : db.Recorded) : db.Keeps db :=
  ⟨hr, .refl, fun _ => id, fun _ _ _ => .refl, fun _ _ => id⟩

theorem Db.Keeps.trans {db'' : Db} (h : db.Keeps db') (h' : db'.Keeps db'') : db.Keeps db'' where
  recorded := h'.recorded
  agrees := h.agrees.trans h'.agrees
  issued d hd := h'.issued d (h.issued d hd)
  evidence d hd hdoc := (h.evidence d hd (h'.before d (h.issued d hd) hdoc)).trans
    (h'.evidence d (h.issued d hd) hdoc)
  before d hd hdoc := h.before d hd (h'.before d (h.issued d hd) hdoc)

theorem keeps_apply {wr : Write} (hr : db.Recorded) (hfits : wr.Fits db t) (hw : wr.Faithful db)
    (h : wr.apply db = .ok db') : db.Keeps db' where
  recorded := recorded_apply hr hw h
  agrees := agrees_apply hw h
  issued _ hd := issued_mono h hd
  evidence _ _ hdoc := evidence_apply hw h hdoc
  before _ hd hdoc := hasDocument_apply hfits.keepsId hd h hdoc

/-- **One step** keeps the records. -/
theorem keeps_move (hs : w.db.Sound) (hr : w.db.Recorded) (hmine : x.Mine w.db) (hholds : x.Holds S {})
    (h : x.Copies w.db) : w.db.Keeps (w.apply (x.move S w).change).db := by
  rcases World.db_apply (w := w) (x.move S w).change with hdb | ⟨ws, hc, hdb⟩
  · rw [hdb]
    exact .refl hr
  · have hfits : (x.move S w).change.Fits w.db x.tenantId := (Task.move_mine hs hmine).2
    have hfaithful := faithful_commit hholds h hc
    refine (commit_fits hs (hc ▸ hfits) hdb (.refl hr)
      fun wr hwr db₁ db₂ _ hfits₁ hkeeps happly => ?_).2.2
    exact hkeeps.trans
      (keeps_apply hkeeps.recorded hfits₁ ((hfaithful wr hwr).mono hkeeps.agrees) happly)

/-- What a task holds. -/
structure Task.Careful (S : Site) (db : Db) (x : Task) : Prop where
  mine : x.Mine db
  holds : x.Holds S {}
  copies : x.Copies db

theorem Task.Fresh.careful (h : x.Fresh) : x.Careful S db := ⟨h.mine, h.holds, h.copies⟩

theorem Task.Careful.mono (hle : db.Le db') (ha : db.Agrees db') (h : x.Careful S db) :
    x.Careful S db' := ⟨h.mine.mono hle, h.holds, h.copies.mono ha⟩

theorem reach_careful {ok : System → ℕ → Prop} {q q' : System} (hs : q.shared.db.Sound)
    (hr : q.shared.db.Recorded) (hcareful : ∀ x ∈ q.tasks, x.Careful S q.shared.db)
    (h : Reach (System.step S) ok q q') :
    (q'.shared.db.Sound ∧ q'.shared.db.Recorded) ∧ ∀ x ∈ q'.tasks, x.Careful S q'.shared.db := by
  have hstep (q : System) (x : Task) (hs : q.shared.db.Sound) (hx : x.Mine q.shared.db) :
      (q.shared.apply (x.move S q.shared).change).db.Sound ∧
        q.shared.db.Le (q.shared.apply (x.move S q.shared).change).db := by
    obtain ⟨hs', hle, -⟩ := apply_fits (P := fun _ => True) hs (Task.move_mine hs hx).2 trivial
      fun _ _ _ _ _ _ _ => trivial
    exact ⟨hs', hle⟩
  refine Pool.reach_invariant (G := fun w => w.db.Sound ∧ w.db.Recorded)
    (L := fun w x => x.Careful S w.db) (fun p i x hG hx _ _ => ?_) (fun p i x hG hx _ _ u hu => ?_) h
    ⟨hs, hr⟩ hcareful
  · obtain ⟨hs', hle⟩ := hstep p x hG.1 hx.mine
    have hkeeps := keeps_move hG.1 hG.2 hx.mine hx.holds hx.copies
    refine ⟨⟨hs', hkeeps.recorded⟩, ?_, fun u hu => (Task.spawned_fresh hu).careful⟩
    exact ⟨(Task.move_mine hG.1 hx.mine).1.mono hle, (Task.move_holds hx.holds (reads_any x _)).1,
      (Task.move_copies hG.2 hx.copies).mono hkeeps.agrees⟩
  · obtain ⟨-, hle⟩ := hstep p x hG.1 hx.mine
    exact hu.mono hle (keeps_move hG.1 hG.2 hx.mine hx.holds hx.copies).agrees

/-- Of an id that has not been given out nothing is on record. -/
theorem evidence_of_notMem (hs : db.Sound) (hd : d ∉ db.issued) (e : Evidence) :
    (db.evidence d).Extends e := by
  have hnone {α : Type} {l : List α} {f : α → Uuid} (h : ∀ r ∈ l, f r ∈ db.issued) (l' : List α) :
      l.filter (fun r => f r = d) <+: l' := by
    have hnil : l.filter (fun r => f r = d) = [] := by
      refine List.filter_eq_nil_iff.2 fun r hr hp => hd ?_
      rw [← of_decide_eq_true hp]
      exact h r hr
    rw [hnil]
    exact List.nil_prefix
  refine ⟨hnone (fun r hr => (hs.reports r hr).issued) _,
    hnone (fun r hr => (hs.deliveries r hr).issued) _, hnone (fun r hr => ?_) _,
    hnone (fun r hr => ?_) _, hnone (fun r hr => ?_) _⟩
  · obtain ⟨r', hr', rfl⟩ := List.mem_map.1 hr
    exact (hs.results r' hr').2.issued
  · obtain ⟨r', hr', rfl⟩ := List.mem_map.1 hr
    exact (hs.reviews r' hr').2.issued
  · obtain ⟨r', hr', rfl⟩ := List.mem_map.1 hr
    exact (hs.letters r' hr').2.issued

/-- **What is on record stays on record.**  Whatever the tasks do, in any order, the
    audit log only grows, and of a document that is still there, so do its guardrail
    reports and delivery attempts, and its results, review tasks and dead letters
    but for the columns of a decision or a retry. -/
theorem evidence_kept {ok : System → ℕ → Prop} {q₀ q q' : System} (hs : q₀.shared.db.Sound)
    (hr : q₀.shared.db.Recorded) (hfresh : ∀ x ∈ q₀.tasks, x.Fresh)
    (hreach : Reach (System.step S) ok q₀ q) (h : Reach (System.step S) ok q q') :
    q.shared.db.auditLog <+: q'.shared.db.auditLog ∧
      ∀ d, q'.shared.db.hasDocument d = true →
        (q.shared.db.evidence d).Extends (q'.shared.db.evidence d) := by
  obtain ⟨⟨hs', hr'⟩, hcareful⟩ := reach_careful hs hr (fun x hx => (hfresh x hx).careful) hreach
  have hkeeps : q.shared.db.auditLog <+: q'.shared.db.auditLog ∧ q.shared.db.Keeps q'.shared.db := by
    induction h with
    | refl => exact ⟨List.prefix_rfl, .refl hr'⟩
    | @tail p p' i hp _ hstep ih =>
      obtain ⟨⟨hs₁, hr₁⟩, hcareful₁⟩ := reach_careful hs' hr' hcareful hp
      obtain ⟨x, hx, hshared, -⟩ := Pool.step_eq_some hstep
      obtain ⟨hmine, hholds, hcopies⟩ := hcareful₁ x (List.mem_of_getElem? hx)
      rw [show p'.shared = p.shared.apply (x.move S p.shared).change from hshared]
      refine ⟨ih.1.trans ?_, ih.2.trans (keeps_move hs₁ hr₁ hmine hholds hcopies)⟩
      rcases World.db_apply (w := p.shared) (x.move S p.shared).change with hdb | ⟨ws, -, hdb⟩
      · rw [hdb]
      · rw [auditLog_commit hdb]
        exact List.prefix_append _ _
  refine ⟨hkeeps.1, fun d hdoc => ?_⟩
  by_cases hd : d ∈ q.shared.db.issued
  · exact hkeeps.2.evidence d hd hdoc
  · exact evidence_of_notMem hs' hd _

end

/-- While one reviewer rejects and another corrects. -/
theorem evidence_kept_sample :
    ∃ q', Reach (System.step Sample.site) (fun _ _ => True)
        ⟨Sample.reviewedWorld, [.review (Sample.reviewCall (.reject none) 1),
          .review (Sample.reviewCall (.correct (some [("name", [("new", .str "Bo")])])) 1)]⟩ q' ∧
      (Sample.reviewedWorld.db.evidence Sample.documentId).Extends
        (q'.shared.db.evidence Sample.documentId) := by
  have hfresh : ∀ x ∈ [Task.review (Sample.reviewCall (.reject none) 1),
      .review (Sample.reviewCall (.correct (some [("name", [("new", .str "Bo")])])) 1)], x.Fresh := by
    intro x hx
    rcases List.mem_cons.1 hx with rfl | hx
    · rfl
    · rw [List.mem_singleton.1 hx]
      rfl
  have hreach : Reach (System.step Sample.site) (fun _ _ => True)
      ⟨Sample.reviewedWorld, [.review (Sample.reviewCall (.reject none) 1),
        .review (Sample.reviewCall (.correct (some [("name", [("new", .str "Bo")])])) 1)]⟩ _ :=
    reach_of_exec (l := [0, 1, 1, 1, 1, 1, 0, 0]) rfl
  exact ⟨_, hreach, (evidence_kept (by decide) (by decide) hfresh .refl hreach).2 _ rfl⟩

end OcrService
