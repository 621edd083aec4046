/-
  Every document is accounted for.

  The status of a document says where its outcome is: a completed one has an
  extraction result, one under review has a result and a pending review task, a
  rejected one a dead letter or a review that rejected it.  No transaction sets the
  status alone, and none takes these rows from a document that is there, so in
  every state reached each document is in one of these places, or about to be
  processed, or about to be erased.

  * `DocumentStatus.Backed`: what a status promises;
  * `Retained`: what a transaction leaves of the rows that refer to a document;
  * `Watches`: what a run or a review knows at its await points;
  * `documents_accounted`: every run of the service.
-/
import OcrService.System.Isolation
import OcrService.System.StatusMoves
import OcrService.System.Written
import OcrService.System.Decisions

namespace OcrService

open Trans PyData Nodes

/-! ## What a status promises -/

namespace Db
variable (db : Db) (d : Uuid)

/-- The document has an extraction result. -/
def Extracted : Prop := ∃ r ∈ db.extractionResults, r.documentId = d

/-- It has a dead letter. -/
def Lettered : Prop := ∃ r ∈ db.dlq, r.documentId = d

/-- It waits for a reviewer. -/
def Queued : Prop := ∃ r ∈ db.reviewTasks, r.documentId = d ∧ r.status = .pending

end Db

/-- What the status of document `d` promises.  The pipeline ends in one of three
    branches, so no document is left in another status. -/
def DocumentStatus.Backed (db : Db) (d : Uuid) : DocumentStatus → Prop
  | .pending | .cancelled => True
  | .completed => db.Extracted d
  | .review => db.Extracted d ∧ db.Queued d
  | .rejected => db.Lettered d ∨ db.UnderReview d
  | _ => False

/-- Every document has what its status promises, and every review is of a result. -/
structure Db.Accounted (db : Db) : Prop where
  status : ∀ d row, Rows.find Document.id db.documents d = some row → row.status.Backed db d
  reviews : ∀ r ∈ db.reviewTasks, db.Extracted r.documentId

/-! ## Rows that refer to a document -/

/-- The write decides no review of the document. -/
def Write.Undecided (d : Uuid) : Write → Prop
  | .updateReviewTask _ new => new.documentId ≠ d
  | _ => True

/-- The rows that refer to the document stay. -/
structure Retained (d : Uuid) (db db' : Db) : Prop where
  extracted : db.Extracted d → db'.Extracted d
  lettered : db.Lettered d → db'.Lettered d
  reviewed : db.UnderReview d → db'.UnderReview d

section
variable {S : Site} {w : World} {db db' db'' : Db} {t d : Uuid} {wr : Write} {ws : List Write} {c : Change}

theorem Retained.refl : Retained d db db := ⟨id, id, id⟩

theorem Retained.trans (h : Retained d db db') (h' : Retained d db' db'') : Retained d db db'' :=
  ⟨fun hr => h'.extracted (h.extracted hr), fun hr => h'.lettered (h.lettered hr),
    fun hr => h'.reviewed (h.reviewed hr)⟩

/-- Only a deletion of the document takes them. -/
theorem retained_apply (hw : wr.Fits db t) (h : wr.apply db = .ok db') (hdoc : db'.hasDocument d = true) :
    Retained d db db' := by
  cases performed_of_apply h with
  | @updateExtractionResult old new =>
    refine ⟨fun hr => Rows.exists_replace hr fun r hr hd hk => ?_, id, id⟩
    exact (congrArg Prod.snd (hw.1.own r hr hk)).symm.trans hd
  | @updateDeadLetter old new =>
    refine ⟨id, fun hr => Rows.exists_replace hr fun r hr hd hk => ?_, id⟩
    exact (congrArg Prod.snd (hw.1.own r hr hk)).symm.trans hd
  | @updateReviewTask old new =>
    refine ⟨id, id, fun hr => Rows.exists_replace hr fun r hr hd hk => ?_⟩
    exact (congrArg Prod.snd (hw.1.own r hr hk)).symm.trans hd
  | insertExtractionResult => exact ⟨fun hr => Rows.exists_append hr _, id, id⟩
  | insertDeadLetter => exact ⟨id, fun hr => Rows.exists_append hr _, id⟩
  | insertReviewTask => exact ⟨id, id, fun hr => Rows.exists_append hr _⟩
  | @deleteDocument tenantId k =>
    have hne : d ≠ k := by
      rintro rfl
      simp [Db.hasDocument, Db.cascade, Rows.find_delete_self] at hdoc
    exact ⟨fun hr => Rows.exists_delete hr fun r _ hd => hd ▸ hne,
      fun hr => Rows.exists_delete hr fun r _ hd => hd ▸ hne,
      fun hr => Rows.exists_delete hr fun r _ hd => hd ▸ hne⟩
  | _ => exact ⟨id, id, id⟩

theorem queued_apply (hw : wr.Fits db t) (hun : wr.Undecided d) (h : wr.apply db = .ok db')
    (hdoc : db'.hasDocument d = true) (hq : db.Queued d) : db'.Queued d := by
  cases performed_of_apply h with
  | @updateReviewTask old new =>
    refine Rows.exists_replace hq fun r hr hd hk => ?_
    exact absurd ((congrArg Prod.snd (hw.1.own r hr hk)).symm.trans hd.1) hun
  | insertReviewTask => exact Rows.exists_append hq _
  | @deleteDocument tenantId k =>
    have hne : d ≠ k := by
      rintro rfl
      simp [Db.hasDocument, Db.cascade, Rows.find_delete_self] at hdoc
    exact Rows.exists_delete hq fun r _ hd => hd.1 ▸ hne
  | _ => exact hq

/-- An id is given out once: a document that is gone does not come back. -/
theorem hasDocument_apply (hw : wr.KeepsId) (hd : d ∈ db.issued) (h : wr.apply db = .ok db')
    (hdoc : db'.hasDocument d = true) : db.hasDocument d = true := by
  unfold Db.hasDocument at hdoc ⊢
  cases row_apply (d := d) hw h with
  | same hfind => rwa [← hfind]
  | updated hne hid hrow hv hfind => rw [hrow]; rfl
  | inserted hid hnew => exact absurd hd hnew
  | deleted hfind =>
    rw [hfind] at hdoc
    cases hdoc

theorem Write.Fits.keepsId (hw : wr.Fits db t) : wr.KeepsId := by
  rintro old new rfl
  exact hw.2.1

/-- What one transaction leaves of the rows of a document whose id has been given
    out, provided that the document is still there. -/
structure Leaves (d : Uuid) (db db' : Db) : Prop where
  issued : d ∈ db'.issued
  before : db'.hasDocument d = true → db.hasDocument d = true
  retained : db'.hasDocument d = true → Retained d db db'

theorem Leaves.refl (hd : d ∈ db.issued) : Leaves d db db := ⟨hd, id, fun _ => .refl⟩

theorem leaves_apply (hw : wr.Fits db' t) (h : wr.apply db' = .ok db'') (hl : Leaves d db db') :
    Leaves d db db'' := by
  have hbefore := hasDocument_apply hw.keepsId hl.issued h
  exact ⟨issued_mono h hl.issued, fun hdoc => hl.before (hbefore hdoc),
    fun hdoc => (hl.retained (hbefore hdoc)).trans (retained_apply hw h hdoc)⟩

/-- **What a change leaves.** -/
theorem leaves_change (hs : w.db.Sound) (hc : c.Fits w.db t) (hd : d ∈ w.db.issued) :
    Leaves d w.db (w.apply c).db :=
  (apply_fits hs hc (P := Leaves d w.db) (.refl hd) fun _ _ _ _ hw hl h => leaves_apply hw h hl).2.2

/-- A transaction passes each of its writes. -/
theorem commit_at {P : Db → Prop} (h : db.commit ws = .ok db') (hw : wr ∈ ws) (hP : P db)
    (hkeep : ∀ w ∈ ws, ∀ db₁ db₂, P db₁ → w.apply db₁ = .ok db₂ → P db₂) :
    ∃ db₁ db₂, P db₁ ∧ wr.apply db₁ = .ok db₂ ∧ P db₂ ∧
      ∃ ws', (∀ w ∈ ws', w ∈ ws) ∧ db₂.commit ws' = .ok db' := by
  obtain ⟨before, after, rfl⟩ := List.append_of_mem hw
  obtain ⟨db₁, h₁, h₂⟩ := Db.commit_append_ok.1 h
  obtain ⟨db₂, h₂, h₃⟩ := Db.commit_cons_ok.1 h₂
  have hP₁ : P db₁ := Db.commit_induction h₁ hP fun w hw => hkeep w (List.mem_append_left _ hw)
  exact ⟨db₁, db₂, hP₁, h₂, hkeep wr hw _ _ hP₁ h₂, after,
    fun w hw => List.mem_append_right _ (List.mem_cons_of_mem _ hw), h₃⟩

/-- **What a write of the transaction sets up** about a document, and the others
    keep as long as the document is there, holds in the end. -/
theorem fits_sets {P : Db → Prop} (hs : db.Sound) (hd : d ∈ db.issued) (hws : ∀ w ∈ ws, w.Fits db t)
    (h : db.commit ws = .ok db') (hdoc : db'.hasDocument d = true) (hw : wr ∈ ws)
    (hset : ∀ db₁ db₂, wr.apply db₁ = .ok db₂ → P db₂)
    (hkeep : ∀ w ∈ ws, ∀ db₁ db₂, w.Fits db₁ t → db₂.hasDocument d = true → P db₁ →
      w.apply db₁ = .ok db₂ → P db₂) : P db' := by
  obtain ⟨db₁, db₂, -, happly, ⟨hs₂, hle₂, hd₂⟩, after, hafter, h₂⟩ :=
    commit_at (P := fun db₁ => db₁.Sound ∧ db.Le db₁ ∧ d ∈ db₁.issued) h hw ⟨hs, .refl, hd⟩
      fun w hw db₁ db₂ ⟨hs₁, hle₁, hd₁⟩ happly =>
        ⟨sound_apply hs₁ ((hws w hw).mono hle₁) happly,
          hle₁.trans (le_apply ((hws w hw).mono hle₁) happly), issued_mono happly hd₁⟩
  have hrest := fits_commit (P := fun db₁ => d ∈ db₁.issued ∧ (db₁.hasDocument d = true → P db₁)) hs₂
    (fun w hw => (hws w (hafter w hw)).mono hle₂) h₂ ⟨hd₂, fun _ => hset _ _ happly⟩
    fun w hw db₃ db₄ _ hfits hP happly =>
      ⟨issued_mono happly hP.1, fun hdoc₄ => hkeep w (hafter w hw) db₃ db₄ hfits hdoc₄
        (hP.2 (hasDocument_apply hfits.keepsId hP.1 happly hdoc₄)) happly⟩
  exact hrest.2.2.2 hdoc

/-! ## What a run leaves -/

/-- The outcome of a run that ended in a branch. -/
theorem persisted_backed {nonces : ℕ → Bytes} {document : Document} {f : ExtractionState}
    (hs : db.Sound) (hd : document.id ∈ db.issued) (hws : ∀ w ∈ ws, w.Fits db t)
    (h : persistWrites S t nonces document f = .ok ws) (hf : f.Routed) (hdb : db.commit ws = .ok db')
    (hdoc : db'.hasDocument document.id = true) : (persistedStatus f).Backed db' document.id := by
  have hcases {wr : Write} (hwr : wr ∈ ws) := persistWrite_of_mem h hwr
  have hextracted (row : ExtractionResult) (hrow : .insertExtractionResult row ∈ ws)
      (hid : row.documentId = document.id) : db'.Extracted document.id := by
    refine fits_sets hs hd hws hdb hdoc hrow (fun db₁ db₂ happly => ?_)
      fun w hw db₁ db₂ hfits hdoc₂ hP happly => (retained_apply hfits happly hdoc₂).extracted hP
    obtain ⟨-, rfl⟩ := Write.apply_ok.1 happly
    exact ⟨_, List.mem_append_right _ (List.mem_singleton_self _), hid⟩
  have hlettered (row : DeadLetter) (hrow : .insertDeadLetter row ∈ ws)
      (hid : row.documentId = document.id) : db'.Lettered document.id := by
    refine fits_sets hs hd hws hdb hdoc hrow (fun db₁ db₂ happly => ?_)
      fun w hw db₁ db₂ hfits hdoc₂ hP happly => (retained_apply hfits happly hdoc₂).lettered hP
    obtain ⟨-, rfl⟩ := Write.apply_ok.1 happly
    exact ⟨_, List.mem_append_right _ (List.mem_singleton_self _), hid⟩
  have hqueued (hrow : .insertReviewTask document.id t ∈ ws) : db'.Queued document.id := by
    refine fits_sets hs hd hws hdb hdoc hrow (fun db₁ db₂ happly => ?_)
      fun w hw db₁ db₂ hfits hdoc₂ hP happly => queued_apply hfits ?_ happly hdoc₂ hP
    · obtain ⟨hrefused, rfl⟩ := Write.apply_ok.1 happly
      cases hres : db₁.resultOf document.id with
      | none => simp [Write.refused, hres] at hrefused
      | some result =>
        rw [perform_insertReviewTask hres]
        exact ⟨_, List.mem_append_right _ (List.mem_singleton_self _), rfl, rfl⟩
    · cases hcases hw <;> trivial
  obtain ⟨b, hb⟩ := hf
  have hfinal : finalStatus f = b.status := by simp [finalStatus, hb]
  have hstatus : persistedStatus f = b.status := by
    rw [persistedStatus, hfinal]
    cases b <;> rfl
  rw [hstatus]
  unfold persistWrites statusWrites at h
  rw [hfinal] at h
  cases b with
  | deliver =>
    cases he : encryptedExtraction S t nonces f with
    | error e =>
      simp only [Branch.status, he] at h
      cases h
    | ok extracted =>
      simp only [Branch.status, he] at h
      cases h
      exact hextracted (extractionResult document.id t f extracted) (by simp) rfl
  | review =>
    cases he : encryptedExtraction S t nonces f with
    | error e =>
      simp only [Branch.status, he] at h
      cases h
    | ok extracted =>
      simp only [Branch.status, he] at h
      cases h
      exact ⟨hextracted (extractionResult document.id t f extracted) (by simp) rfl,
        hqueued (by simp)⟩
  | dlq =>
    simp only [Branch.status] at h
    cases h
    exact Or.inl (hlettered (deadLetter document.id t f) (by simp) rfl)

end

/-! ## What a task watches -/

namespace Db
variable (db : Db) (d : Uuid)

/-- As long as the document is there, it has its review task. -/
def Reviewed : Prop := d ∈ db.issued ∧ (db.hasDocument d = true → db.UnderReview d)

/-- A document under review was so when its row was read. -/
def Seen (document : Option Document) : Prop :=
  db.statusOf d = some .review → ∃ row ∈ document, row.id = d ∧ row.status = .review

end Db

/-- A run that nothing has cancelled ends in a branch. -/
def RunTask.Watches (r : RunTask) : Prop :=
  match r.pc with
  | .openSaver s | .saveInput s => ∀ saved, (channels saved s).Uncancelled
  | .node _ s _ => s.Uncancelled
  | .save n s _ => s.Uncancelled ∧ (n.terminal = true → s.Routed)
  | .closeSaver f _ | .persist f | .guard f _ | .commit f _ => f.Routed
  | _ => True

/-- The write ends the review of the document whose copy it replaces. -/
def Write.Ends (d : Uuid) (w : Write) : Prop :=
  ∃ old new, w = .updateDocument old new ∧ old.id = d ∧ old.status = .review ∧ new.status ≠ .review

/-- A review knows whether its document is under review. -/
def ReviewRequest.Watches (db : Db) (q : ReviewRequest) : Prop :=
  match q.pc with
  | .readReview | .done _ => True
  | .readExtraction draft _ | .readExampleDocument draft _ | .upsert draft _ _ | .readDocument draft =>
    db.Reviewed draft.old.documentId
  | .commit ws => ∀ old new, .updateReviewTask old new ∈ ws →
    new.documentId = old.documentId ∧ db.Reviewed old.documentId ∧
      (db.statusOf old.documentId = some .review → ∃ w ∈ ws, w.Ends old.documentId)

def Task.Watches (db : Db) : Task → Prop
  | .run r => r.Watches
  | .review q => q.Watches db
  | .webhook _ | .erase _ | .extract _ | .retry _ | .schema _ => True

/-- What a transaction leaves of the documents that have been reviewed: their
    review tasks, and none of them enters review. -/
structure Db.Onward (db db' : Db) : Prop where
  reviewed : ∀ {d}, db.Reviewed d → db'.Reviewed d
  entered : ∀ {d}, db.Reviewed d → db'.statusOf d = some .review → db.statusOf d = some .review

section
variable {S : Site} {w : World} {db db' : Db} {t d : Uuid} {x : Task} {ws : List Write}

theorem Db.Onward.refl : db.Onward db := ⟨id, fun _ => id⟩

/-- **What a task watches stays** under the transactions of the others. -/
theorem Task.Watches.mono (hl : db.Onward db') (h : x.Watches db) : x.Watches db' := by
  cases x with
  | review q =>
    show q.Watches db'
    replace h : q.Watches db := h
    unfold ReviewRequest.Watches at h ⊢
    cases hpc : q.pc <;> simp only [hpc] at h ⊢
    case commit =>
      intro old new hw
      obtain ⟨hid, hr, hends⟩ := h old new hw
      exact ⟨hid, hl.reviewed hr, fun hs => hends (hl.entered hr hs)⟩
    all_goals exact hl.reviewed h
  | run => exact h
  | _ => trivial

theorem Task.Fresh.watches (h : x.Fresh) : x.Watches db := by
  cases x <;> simp_all [Task.Fresh, Task.Watches, RunTask.Watches, ReviewRequest.Watches]

/-- The steps of a run. -/
theorem RunTask.move_watches {r : RunTask} (h : r.Watches) : (r.move S w).task.Watches := by
  have hfail : r.fail.task.Watches := trivial
  unfold RunTask.Watches at h
  cases hpc : r.pc <;> simp only [hpc] at h <;> simp only [RunTask.move, hpc]
  case loadDocument =>
    split_ifs
    · exact hfail
    · cases w.db.document? r.tenantId r.documentId <;> trivial
  case loadSchema document =>
    split_ifs
    · exact hfail
    · exact fun saved => initialState_uncancelled saved
  case openSaver s => split_ifs <;> [exact hfail; exact h]
  case saveInput s => split_ifs <;> [exact hfail; exact h _]
  case node n s unsaved =>
    split_ifs
    · exact hfail
    · cases hrun : (n.run r.env.K s).result with
      | error e => exact hfail
      | ok u => exact ⟨node_uncancelled hrun h, node_routed hrun h⟩
  case save n s unsaved =>
    unfold RunPc.afterNode
    cases hnext : n.next s with
    | none => exact h.2 (NodeName.next_eq_none.1 hnext)
    | some m => exact h.1
  case closeSaver f unsaved => split_ifs <;> [exact hfail; exact h]
  case persist f =>
    split_ifs
    · exact hfail
    · cases w.db.document? r.tenantId r.documentId with
      | none => trivial
      | some document => exact h
  case guard f document =>
    unfold RunTask.persistOutcome
    split_ifs
    · trivial
    · cases persistWrites S r.tenantId r.env.nonces document f with
      | error e => exact hfail
      | ok ws => exact h
  case commit f ws =>
    split_ifs
    · exact hfail
    · cases w.db.commit ws <;> trivial
  case done o => simp only [RunTask.Watches, hpc]
  all_goals trivial

/-- The row of a document that the tenant owns is read. -/
theorem seen_document? (howns : db.OwnsDocument t d) : db.Seen d (db.document? t d) := by
  intro hs
  obtain ⟨row, hrow, hstatus⟩ := Option.map_eq_some_iff.1 hs
  refine ⟨row, ?_, Rows.key_of_find hrow, hstatus⟩
  have htenant : row.tenantId = t := howns.own row (Rows.mem_of_find hrow) (Rows.key_of_find hrow)
  simp [Db.document?, hrow, htenant]

/-- A decision updates one review task. -/
theorem decision_of_mem {q : ReviewRequest} {draft : ReviewDraft} {document : Option Document}
    {old new : ReviewTask} (hcorrects : draft.Corrects)
    (hw : .updateReviewTask old new ∈ q.finishWrites S draft document) :
    old = draft.old ∧ new = draft.new := by
  rcases ReviewRequest.mem_finishWrites hw with hw | hw | ⟨row, -, hw⟩ | ⟨row, -, hw⟩
  · cases hw
    exact ⟨rfl, rfl⟩
  · obtain ⟨old', new', hw⟩ := hcorrects _ hw
    cases hw
  · cases hw
  · cases hw

/-- The transaction of a decision. -/
theorem watches_finish {q : ReviewRequest} {draft : ReviewDraft} {document : Option Document}
    (hid : draft.new.documentId = draft.old.documentId) (hcorrects : draft.Corrects)
    (hr : db.Reviewed draft.old.documentId) (hseen : db.Seen draft.old.documentId document) :
    (q.goto (.commit (q.finishWrites S draft document))).Watches db := by
  intro old new hw
  obtain ⟨rfl, rfl⟩ := decision_of_mem hcorrects hw
  refine ⟨hid, hr, fun hs => ?_⟩
  obtain ⟨row, hrow, hd, hstatus⟩ := hseen hs
  obtain rfl : document = some row := hrow
  refine ⟨_, List.mem_append_left _ (List.mem_append_right _ (List.mem_singleton_self _)), row, _, rfl,
    hd, hstatus, ?_⟩
  by_cases hrejected : draft.rejected = true <;> simp [hrejected]

/-- The steps of a review request. -/
theorem ReviewRequest.move_watches {q : ReviewRequest} (hs : w.db.Sound) (hmine : q.Mine w.db)
    (hprepares : q.Prepares S) (h : q.Watches w.db) : (q.move S w).task.Watches w.db := by
  unfold ReviewRequest.Mine at hmine
  unfold ReviewRequest.Prepares at hprepares
  unfold ReviewRequest.Watches at h
  cases hpc : q.pc <;> simp only [hpc] at hmine hprepares h <;> simp only [ReviewRequest.move, hpc]
  case readReview =>
    split_ifs
    · trivial
    · cases hrow : w.db.reviewTask? q.tenantId q.reviewId with
      | none => trivial
      | some review =>
        have hmem : review ∈ w.db.reviewTasks := Rows.mem_of_find (Option.filter_eq_some_iff.1 hrow).1
        have hr : w.db.Reviewed review.documentId :=
          ⟨(hs.reviews review hmem).2.issued, fun _ => ⟨review, hmem, rfl⟩⟩
        dsimp only
        split_ifs
        · trivial
        · unfold ReviewRequest.begin
          cases haction : q.action with
          | accept => exact hr
          | reject reason => exact hr
          | unknown action => trivial
          | correct corrections =>
            obtain _ | _ | ⟨c, cs⟩ := corrections
            · trivial
            · trivial
            · exact hr
  case readExtraction draft corrections =>
    split_ifs
    · trivial
    · cases w.db.extractionResult? q.tenantId draft.old.extractionResultId with
      | none => exact h
      | some extraction =>
        dsimp only
        cases extraction.extractedJson with
        | none => exact h
        | some extracted => exact h
  case readExampleDocument draft corrected =>
    split_ifs
    · exact h
    · exact h
  case upsert draft corrected document => exact h
  case readDocument draft =>
    split_ifs
    · trivial
    · exact watches_finish (congrArg Prod.snd hmine.owner) hprepares h
        (seen_document? hmine.review.document)
  case commit ws =>
    split_ifs
    · trivial
    · cases w.db.commit ws <;> trivial
  case done o => simp only [ReviewRequest.Watches, hpc]

/-! ## One step -/

/-- What a task holds. -/
structure Task.Ready (S : Site) (db : Db) (x : Task) : Prop where
  mine : x.Mine db
  prepares : x.Prepares S
  holds : x.Holds S {}
  watches : x.Watches db

theorem Task.Fresh.ready (h : x.Fresh) : x.Ready S db := ⟨h.mine, h.prepares, h.holds, h.watches⟩

theorem Task.move_ready (hs : w.db.Sound) (h : x.Ready S w.db) : (x.move S w).task.Ready S w.db := by
  refine ⟨(Task.move_mine hs h.mine).1, Task.move_prepares h.prepares,
    (Task.move_holds h.holds (reads_any x w)).1, ?_⟩
  have hwatches := h.watches
  cases x with
  | run r => exact RunTask.move_watches hwatches
  | review q => exact ReviewRequest.move_watches hs h.mine h.prepares hwatches
  | _ => trivial

theorem Task.Ready.mono (hle : db.Le db') (hl : db.Onward db') (h : x.Ready S db) : x.Ready S db' :=
  ⟨h.mine.mono hle, h.prepares, h.holds, h.watches.mono hl⟩

theorem reviewOf_of_underReview (h : db.UnderReview d) : (db.reviewOf d).isSome = true := by
  obtain ⟨row, hrow, hd⟩ := h
  cases hr : db.reviewOf d with
  | some review => rfl
  | none => exact absurd hd (Rows.find_eq_none.1 hr row hrow)

/-- The transaction of a run, and the document it is made from. -/
theorem run_transaction {r : RunTask} (h : (Task.run r).Ready S w.db)
    (hc : (r.move S w).change = .commit ws) :
    ∃ f document, f.Routed ∧ document.id = r.documentId ∧ r.pc = .commit f ws ∧
      persistWrites S r.tenantId r.env.nonces document f = .ok ws ∧
        w.db.OwnsDocument r.tenantId r.documentId ∧ ∀ wr ∈ ws, wr.Fits w.db r.tenantId := by
  obtain ⟨f, hpc, -⟩ := RunTask.change_commit hc
  obtain ⟨document, hid, -, hws⟩ : ∃ document, document.id = r.documentId ∧
      document.tenantId = r.tenantId ∧
        persistWrites S r.tenantId r.env.nonces document f = .ok ws := by
    have hprepares : r.Prepares S := h.prepares
    simpa only [RunTask.Prepares, hpc] using hprepares
  have hmine : r.Mine w.db := h.mine
  have hrouted : r.Watches := h.watches
  simp only [RunTask.Mine, hpc] at hmine
  simp only [RunTask.Watches, hpc] at hrouted
  exact ⟨f, document, hrouted, hid, hpc, hws, hmine⟩

/-- No document that has been reviewed enters review again: the second review task
    is refused. -/
theorem entered_commit (hs : w.db.Sound) (h : x.Ready S w.db) (hc : (x.move S w).change = .commit ws)
    (hdb : w.db.commit ws = .ok db') (hr : w.db.Reviewed d) (hd : db'.statusOf d = some .review) :
    w.db.statusOf d = some .review := by
  obtain ⟨row, hrow, hstatus⟩ := Option.map_eq_some_iff.1 hd
  by_contra hmoved
  rw [← hstatus] at hmoved
  cases status_move h.prepares hc hdb hrow hmoved with
  | @run r f hpc hid htenant hpersisted hevent =>
    obtain ⟨f', document, -, hdoc, hpc', hws, -, hfits⟩ := run_transaction h hc
    cases hpc.symm.trans hpc'
    have hfinal : finalStatus f = .review := by
      rw [hstatus, persistedStatus] at hpersisted
      split_ifs at hpersisted
      exact hpersisted.symm
    have hinsert : .insertReviewTask document.id r.tenantId ∈ ws := by
      unfold persistWrites statusWrites at hws
      rw [hfinal] at hws
      cases he : encryptedExtraction S r.tenantId r.env.nonces f with
      | error e =>
        simp only [he] at hws
        cases hws
      | ok extracted =>
        simp only [he] at hws
        cases hws
        simp
    rw [hdoc, hid] at hinsert
    obtain ⟨db₁, db₂, ⟨-, hle, hl⟩, happly, -⟩ := commit_at
      (P := fun db₁ => db₁.Sound ∧ w.db.Le db₁ ∧ Leaves d w.db db₁) hdb hinsert
      ⟨hs, .refl, .refl hr.1⟩ fun wr hwr db₁ db₂ hkept happly =>
        have hfits₁ := (hfits wr hwr).mono hkept.2.1
        ⟨sound_apply hkept.1 hfits₁ happly, hkept.2.1.trans (le_apply hfits₁ happly),
          leaves_apply hfits₁ happly hkept.2.2⟩
    obtain ⟨hrefused, -⟩ := Write.apply_ok.1 happly
    simp only [Write.refused] at hrefused
    split_ifs at hrefused with hmissing hreview
    have hdoc₁ : db₁.hasDocument d = true := by
      by_contra hno
      exact hmissing (Or.inl (by simpa using hno))
    exact hreview (reviewOf_of_underReview ((hl.retained hdoc₁).reviewed (hr.2 (hl.before hdoc₁))))
  | review hpc htenant hdecided => rcases hdecided with h | h <;> rw [hstatus] at h <;> cases h
  | create hpending => rw [hstatus] at hpending; cases hpending
  | retry hpending => rw [hstatus] at hpending; cases hpending
  | cancel hcancelled => rw [hstatus] at hcancelled; cases hcancelled

theorem later_move (hs : w.db.Sound) (h : x.Ready S w.db) :
    w.db.Onward (w.apply (x.move S w).change).db := by
  have hfits : (x.move S w).change.Fits w.db x.tenantId := (Task.move_mine hs h.mine).2
  refine ⟨fun {d} hr => ?_, fun {d} hr hd => ?_⟩
  · have hl := leaves_change hs hfits hr.1
    exact ⟨hl.issued, fun hdoc => (hl.retained hdoc).reviewed (hr.2 (hl.before hdoc))⟩
  · rcases World.db_apply (w := w) (x.move S w).change with hdb | ⟨ws, hc, hdb⟩
    · rwa [hdb] at hd
    · exact entered_commit hs h hc hdb hr hd

/-- A review task is of a document with a result: it refers to that row. -/
theorem reviews_apply {wr : Write} (hw : wr.Fits db t) (h : wr.apply db = .ok db')
    (hP : ∀ r ∈ db.reviewTasks, db.Extracted r.documentId) :
    ∀ r ∈ db'.reviewTasks, db'.Extracted r.documentId := by
  cases performed_of_apply h with
  | @updateExtractionResult old new =>
    intro r hr
    refine Rows.exists_replace (hP r hr) fun r' hr' hd hk => ?_
    exact (congrArg Prod.snd (hw.1.own r' hr' hk)).symm.trans hd
  | @updateReviewTask old new =>
    intro r hr
    obtain ⟨r₀, hr₀, rfl⟩ := List.mem_map.1 hr
    split_ifs with hk
    · have hd : r₀.documentId = new.documentId := congrArg Prod.snd (hw.1.own r₀ hr₀ hk)
      show db.Extracted new.documentId
      rw [← hd]
      exact hP r₀ hr₀
    · exact hP r₀ hr₀
  | insertExtractionResult => exact fun r hr => Rows.exists_append (hP r hr) _
  | @insertReviewTask documentId tenantId result hres =>
    intro r hr
    rcases List.mem_append.1 hr with hr | hr
    · exact hP r hr
    · rw [List.mem_singleton.1 hr]
      exact ⟨result, Rows.mem_of_find hres, Rows.key_of_find hres⟩
  | deleteDocument =>
    intro r hr
    obtain ⟨hr, hne⟩ := Rows.mem_delete.1 hr
    exact Rows.exists_delete (hP r hr) fun r' _ hd => hd ▸ hne
  | _ => exact hP

/-- The transaction of a review, and the draft it is made from. -/
structure Decision (S : Site) (db : Db) (q : ReviewRequest) (ws : List Write) (draft : ReviewDraft)
    (document : Option Document) : Prop where
  corrects : draft.Corrects
  read : q.Read draft document
  writes : ws = q.finishWrites S draft document
  id : draft.new.documentId = draft.old.documentId
  reviewed : db.Reviewed draft.old.documentId
  ends : db.statusOf draft.old.documentId = some .review → ∃ wr ∈ ws, wr.Ends draft.old.documentId

theorem review_transaction {q : ReviewRequest} (h : (Task.review q).Ready S w.db)
    (hc : (q.move S w).change = .commit ws) : ∃ draft document, Decision S w.db q ws draft document := by
  obtain ⟨hpc, -⟩ := ReviewRequest.change_commit hc
  obtain ⟨draft, document, hcorrects, hread, rfl⟩ : ∃ draft document, draft.Corrects ∧
      q.Read draft document ∧ ws = q.finishWrites S draft document := by
    have hprepares : q.Prepares S := h.prepares
    simpa only [ReviewRequest.Prepares, hpc] using hprepares
  have hwatches : q.Watches w.db := h.watches
  simp only [ReviewRequest.Watches, hpc] at hwatches
  obtain ⟨hid, hr, hends⟩ := hwatches draft.old draft.new List.mem_cons_self
  exact ⟨draft, document, hcorrects, hread, rfl, hid, hr, hends⟩

section
variable {q : ReviewRequest} {draft : ReviewDraft} {document : Option Document}

/-- It puts one row there, of its document, in one of two statuses. -/
theorem Decision.puts (hw : Decision S db q ws draft document) {wr : Write} {row : Document}
    (hwr : wr ∈ ws) (hput : wr.puts d = some row) :
    draft.old.documentId = d ∧ (row.status = .completed ∨ row.status = .rejected) := by
  rw [hw.writes] at hwr
  rcases ReviewRequest.mem_finishWrites hwr with rfl | hwr | ⟨old, hold, rfl⟩ | ⟨event, -, rfl⟩
  · cases hput
  · obtain ⟨old, new, rfl⟩ := hw.corrects _ hwr
    cases hput
  · obtain ⟨hd, rfl⟩ := puts_update hput
    refine ⟨(hw.read old hold).1.symm.trans hd, ?_⟩
    by_cases hrejected : draft.rejected = true
    · exact Or.inr (by simp [Document.stored, hrejected])
    · exact Or.inl (by simp [Document.stored, hrejected])
  · cases hput

/-- **A decision on a document under review** leaves it in another status. -/
theorem Decision.ended (hw : Decision S db q ws draft document) (hkeep : ∀ wr ∈ ws, wr.KeepsId)
    (hdb : db.commit ws = .ok db') (hstatus : db.statusOf draft.old.documentId = some .review) :
    db'.statusOf draft.old.documentId ≠ some .review := by
  obtain ⟨wr, hwr, old, new, rfl, hid, hold, hnew⟩ := hw.ends hstatus
  obtain ⟨db₁, db₂, -, hput, -, after, hafter, hrest⟩ :=
    commit_at (P := fun _ => True) hdb hwr trivial fun _ _ _ _ _ _ => trivial
  have hne : new ≠ old := by
    rintro rfl
    exact hnew hold
  -- the update that it is for is not skipped, and finds the row
  have hset : db₂.statusOf draft.old.documentId = some new.status := by
    obtain ⟨hcheck, rfl⟩ := updateDocument_ok.1 hput
    obtain ⟨-, row, hrow, -⟩ := hcheck.resolve_left hne
    rw [Db.statusOf, ← hid, find_updateDocument old new (hkeep _ hwr old new rfl) hrow, if_neg hne]
    rfl
  intro hback
  obtain ⟨row, hrow, hrev⟩ := Option.map_eq_some_iff.1 hback
  have hmoved : db₂.statusOf draft.old.documentId ≠ some row.status := by
    rw [hset, hrev]
    exact fun h => hnew (Option.some.inj h)
  obtain ⟨wr, hwr, hput⟩ := put_of_moved (fun wr hwr => hkeep wr (hafter wr hwr)) hrest hrow hmoved
  rcases (hw.puts (hafter wr hwr) hput).2 with h | h <;> rw [hrev] at h <;> cases h

end

/-- Only a review updates a review task. -/
theorem review_of_decides {old new : ReviewTask} (h : x.Ready S w.db)
    (hc : (x.move S w).change = .commit ws) (hw : .updateReviewTask old new ∈ ws) :
    ∃ q, x = .review q := by
  cases ((Task.move_holds h.holds (reads_any x w)).2 ws hc).written hw with
  | persist _ _ _ _ _ h => cases h
  | webhook h => exact h.elim
  | reviewTask => exact ⟨_, rfl⟩

/-- A pending review stays pending if nobody decides it. -/
theorem queued_commit (hs : db.Sound) (hc : (Change.commit ws).Fits db t) (hd : d ∈ db.issued)
    (hun : ∀ wr ∈ ws, wr.Undecided d) (hdb : db.commit ws = .ok db') (hdoc : db'.hasDocument d = true)
    (hq : db.Queued d) : db'.Queued d := by
  have hstep : ∀ wr ∈ ws, ∀ db₁ db₂, db₁.Sound → wr.Fits db₁ t →
      (d ∈ db₁.issued ∧ (db₁.hasDocument d = true → db₁.Queued d)) → wr.apply db₁ = .ok db₂ →
        (d ∈ db₂.issued ∧ (db₂.hasDocument d = true → db₂.Queued d)) :=
    fun wr hwr db₁ db₂ _ hfits hP happly => ⟨issued_mono happly hP.1, fun hdoc₂ =>
      queued_apply hfits (hun wr hwr) happly hdoc₂
        (hP.2 (hasDocument_apply hfits.keepsId hP.1 happly hdoc₂))⟩
  exact (commit_fits hs hc hdb ⟨hd, fun _ => hq⟩ hstep).2.2.2 hdoc

/-- A status that stays keeps what it promises. -/
theorem unmoved_backed {row : Document} (hs : w.db.Sound) (hacc : w.db.Accounted) (h : x.Ready S w.db)
    (hcommit : (x.move S w).change = .commit ws)
    (hdb : w.db.commit ws = .ok (w.apply (x.move S w).change).db)
    (hrow : Rows.find Document.id (w.apply (x.move S w).change).db.documents d = some row)
    (hsame : w.db.statusOf d = some row.status) :
    row.status.Backed (w.apply (x.move S w).change).db d := by
  have hc : (x.move S w).change.Fits w.db x.tenantId := (Task.move_mine hs h.mine).2
  have hdoc : (w.apply (x.move S w).change).db.hasDocument d = true := by
    rw [Db.hasDocument, hrow]
    rfl
  obtain ⟨row', hrow', hstatus⟩ := Option.map_eq_some_iff.1 hsame
  have hbacked := hacc.status d row' hrow'
  rw [hstatus] at hbacked
  have hd : d ∈ w.db.issued := by
    have hissued := hs.issued row' (Rows.mem_of_find hrow')
    rwa [Rows.key_of_find hrow'] at hissued
  have hretained := (leaves_change hs hc hd).retained hdoc
  cases hcase : row.status <;> rw [hcase] at hbacked
  case completed => exact hretained.extracted hbacked
  case rejected => exact hbacked.imp hretained.lettered hretained.reviewed
  case review =>
    refine ⟨hretained.extracted hbacked.1, ?_⟩
    refine queued_commit hs (hcommit ▸ hc) hd (fun wr hwr => ?_) hdb hdoc hbacked.2
    by_contra hdecided
    obtain ⟨old, new, rfl, hnew⟩ : ∃ old new, wr = .updateReviewTask old new ∧ new.documentId = d := by
      cases wr with
      | updateReviewTask old new => exact ⟨old, new, rfl, by simpa [Write.Undecided] using hdecided⟩
      | _ => exact absurd trivial hdecided
    obtain ⟨q, rfl⟩ := review_of_decides h hcommit hwr
    obtain ⟨draft, document, hw⟩ := review_transaction h hcommit
    have hold : draft.old.documentId = d := by
      obtain ⟨-, rfl⟩ := decision_of_mem hw.corrects (hw.writes ▸ hwr)
      exact hw.id.symm.trans hnew
    have hkeep : ∀ wr ∈ ws, wr.KeepsId := fun wr hwr =>
      (((Task.move_holds h.holds (reads_any _ w)).2 ws hcommit).written hwr).keepsId
    have hended := hw.ended hkeep hdb (by rw [hold, hsame, hcase])
    rw [hold] at hended
    exact hended (by rw [Db.statusOf, hrow, Option.map_some, hcase])
  all_goals exact hbacked

/-- A new status comes with what it promises. -/
theorem moved_backed {row : Document} (hs : w.db.Sound) (hacc : w.db.Accounted) (h : x.Ready S w.db)
    (hcommit : (x.move S w).change = .commit ws)
    (hdb : w.db.commit ws = .ok (w.apply (x.move S w).change).db)
    (hrow : Rows.find Document.id (w.apply (x.move S w).change).db.documents d = some row)
    (hmoved : w.db.statusOf d ≠ some row.status) :
    row.status.Backed (w.apply (x.move S w).change).db d := by
  have hc : (x.move S w).change.Fits w.db x.tenantId := (Task.move_mine hs h.mine).2
  have hdoc : (w.apply (x.move S w).change).db.hasDocument d = true := by
    rw [Db.hasDocument, hrow]
    rfl
  have hkeep : ∀ wr ∈ ws, wr.KeepsId := fun wr hwr =>
    (((Task.move_holds h.holds (reads_any _ w)).2 ws hcommit).written hwr).keepsId
  cases status_move h.prepares hcommit hdb hrow hmoved with
  | @run r f hpc hid htenant hpersisted hevent =>
    obtain ⟨f', document, hrouted, hdid, hpc', hws, howns, hfits⟩ := run_transaction h hcommit
    cases hpc.symm.trans hpc'
    obtain rfl : document.id = d := hdid.trans hid
    rw [hpersisted]
    refine persisted_backed hs ?_ hfits hws hrouted hdb hdoc
    rw [hdid]
    exact howns.issued
  | @review q hpc htenant hdecided hevent =>
    obtain ⟨draft, document, hw⟩ := review_transaction h hcommit
    obtain ⟨wr, hwr, hput⟩ := put_of_moved hkeep hdb hrow hmoved
    obtain ⟨rfl, -⟩ := hw.puts hwr hput
    have hl := leaves_change hs hc hw.reviewed.1
    have hunder := hw.reviewed.2 (hl.before hdoc)
    rcases hdecided with hstatus | hstatus <;> rw [hstatus]
    · -- the review is of a result
      obtain ⟨review, hreview, hd⟩ := hunder
      exact (hl.retained hdoc).extracted (hd ▸ hacc.reviews review hreview)
    · exact Or.inr ((hl.retained hdoc).reviewed hunder)
  | create hpending => rw [hpending]; trivial
  | retry hpending => rw [hpending]; trivial
  | cancel hcancelled => rw [hcancelled]; trivial

/-- **A step keeps every document accounted for.** -/
theorem accounted_move (hs : w.db.Sound) (hacc : w.db.Accounted) (h : x.Ready S w.db) :
    (w.apply (x.move S w).change).db.Accounted := by
  have hc : (x.move S w).change.Fits w.db x.tenantId := (Task.move_mine hs h.mine).2
  refine ⟨fun d row hrow => ?_, (apply_fits hs hc (P := fun db => ∀ r ∈ db.reviewTasks,
    db.Extracted r.documentId) hacc.reviews fun _ _ _ _ hw hP h => reviews_apply hw h hP).2.2⟩
  rcases World.db_apply (w := w) (x.move S w).change with hdb | ⟨ws, hcommit, hdb⟩
  · rw [hdb] at hrow ⊢
    exact hacc.status d row hrow
  by_cases hmoved : w.db.statusOf d = some row.status
  · exact unmoved_backed hs hacc h hcommit hdb hrow hmoved
  · exact moved_backed hs hacc h hcommit hdb hrow hmoved

/-! ## Whole runs -/

theorem reach_ready {ok : System → ℕ → Prop} {q q' : System} (hs : q.shared.db.Sound)
    (hacc : q.shared.db.Accounted) (hready : ∀ x ∈ q.tasks, x.Ready S q.shared.db)
    (h : Reach (System.step S) ok q q') :
    (q'.shared.db.Sound ∧ q'.shared.db.Accounted) ∧ ∀ x ∈ q'.tasks, x.Ready S q'.shared.db := by
  refine Pool.reach_invariant (G := fun w => w.db.Sound ∧ w.db.Accounted)
    (L := fun w x => x.Ready S w.db) (fun p i x hG hx _ _ => ?_) (fun p i x hG hx _ _ u hu => ?_) h
    ⟨hs, hacc⟩ hready
  · obtain ⟨hs', hle, -⟩ := apply_fits (P := fun _ => True) hG.1 (Task.move_mine hG.1 hx.mine).2 trivial
      fun _ _ _ _ _ _ _ => trivial
    exact ⟨⟨hs', accounted_move hG.1 hG.2 hx⟩,
      (Task.move_ready hG.1 hx).mono hle (later_move hG.1 hx), fun u hu => (Task.spawned_fresh hu).ready⟩
  · obtain ⟨-, hle, -⟩ := apply_fits (P := fun _ => True) hG.1 (Task.move_mine hG.1 hx.mine).2 trivial
      fun _ _ _ _ _ _ _ => trivial
    exact hu.mono hle (later_move hG.1 hx)

/-- **Every document is accounted for.**  Whatever the tasks do, in any order: a
    completed document has an extraction result, one under review has a result and
    a pending review task, a rejected one a dead letter or a review task, and any
    other document is pending or cancelled. -/
theorem documents_accounted {ok : System → ℕ → Prop} {q q' : System} (hs : q.shared.db.Sound)
    (hacc : q.shared.db.Accounted) (hfresh : ∀ x ∈ q.tasks, x.Fresh)
    (h : Reach (System.step S) ok q q') : q'.shared.db.Accounted :=
  (reach_ready hs hacc (fun x hx => (hfresh x hx).ready) h).1.2

/-- A document that has been reviewed and is under review was so all the way. -/
theorem reach_onward {ok : System → ℕ → Prop} {q q' : System} (hs : q.shared.db.Sound)
    (hacc : q.shared.db.Accounted) (hready : ∀ x ∈ q.tasks, x.Ready S q.shared.db)
    (h : Reach (System.step S) ok q q') : q.shared.db.Onward q'.shared.db := by
  induction h with
  | refl => exact .refl
  | @tail p p' i hr _ hstep ih =>
    obtain ⟨⟨hs', -⟩, hready'⟩ := reach_ready hs hacc hready hr
    obtain ⟨x, hx, hshared, -⟩ := Pool.step_eq_some hstep
    have hl := later_move hs' (hready' x (List.mem_of_getElem? hx))
    rw [← show p'.shared = p.shared.apply (x.move S p.shared).change from hshared] at hl
    exact ⟨fun hr => hl.reviewed (ih.reviewed hr),
      fun hr hd => ih.entered hr (hl.entered (ih.reviewed hr) hd)⟩

/-- **A document goes to review once.**  Between two states in which it is under
    review it is so throughout, whatever the tasks do: one that has left the status
    `review`, by a decision, a retry or an erasure, never gets it again. -/
theorem review_once {ok : System → ℕ → Prop} {q₀ q q' q'' : System} (hs : q₀.shared.db.Sound)
    (hacc : q₀.shared.db.Accounted) (hfresh : ∀ x ∈ q₀.tasks, x.Fresh)
    (h₀ : Reach (System.step S) ok q₀ q) (h : Reach (System.step S) ok q q')
    (h' : Reach (System.step S) ok q' q'') (hd : q.shared.db.statusOf d = some .review)
    (hd'' : q''.shared.db.statusOf d = some .review) : q'.shared.db.statusOf d = some .review := by
  obtain ⟨⟨hs₁, hacc₁⟩, hready₁⟩ := reach_ready hs hacc (fun x hx => (hfresh x hx).ready) h₀
  obtain ⟨⟨hs₂, hacc₂⟩, hready₂⟩ := reach_ready hs₁ hacc₁ hready₁ h
  obtain ⟨row, hrow, hstatus⟩ := Option.map_eq_some_iff.1 hd
  have hr : q.shared.db.Reviewed d := by
    have hissued := hs₁.issued row (Rows.mem_of_find hrow)
    have hbacked := hacc₁.status d row hrow
    rw [hstatus] at hbacked
    obtain ⟨review, hreview, hid, -⟩ := hbacked.2
    exact ⟨Rows.key_of_find hrow ▸ hissued, fun _ => ⟨review, hreview, hid⟩⟩
  have hr' := (reach_onward hs₁ hacc₁ hready₁ h).reviewed hr
  exact (reach_onward hs₂ hacc₂ hready₂ h').entered hr' hd''

end

namespace Sample

/-- A document under review. -/
def reviewedWorld : World :=
  { openWorld with db := { openWorld.db with documents := [{ ownDocument with status := .review }] } }

/-- A document under review with a dead letter, which is accepted and retried. -/
def reviewedOnce : System :=
  ⟨{ reviewedWorld with db := { reviewedWorld.db with dlq := [undelivered] } },
    [.review (reviewCall .accept 1), .retry retry]⟩

theorem reviewed_accounted (dlq : List DeadLetter) : ({ reviewedWorld.db with dlq } : Db).Accounted where
  status d row hrow := by
    have hmem : row ∈ reviewedWorld.db.documents := Rows.mem_of_find hrow
    have hd : row.id = d := Rows.key_of_find hrow
    cases List.mem_singleton.1 hmem
    cases hd
    exact ⟨⟨_, List.mem_singleton_self _, rfl⟩, openReview, List.mem_singleton_self _, rfl, rfl⟩
  reviews r hr := by
    cases List.mem_singleton.1 hr
    exact ⟨_, List.mem_singleton_self _, rfl⟩

theorem reviewedWorld_accounted : reviewedWorld.db.Accounted := reviewed_accounted []

end Sample

/-- One reviewer accepts while another rejects: the document is completed. -/
theorem documents_accounted_sample :
    ∃ q', Reach (System.step Sample.site) (fun _ _ => True)
        ⟨Sample.reviewedWorld, [.review (Sample.reviewCall .accept 1),
          .review (Sample.reviewCall (.reject none) 1)]⟩ q' ∧
      q'.shared.db.statusOf Sample.documentId = some .completed ∧ q'.shared.db.Accounted := by
  have hfresh : ∀ x ∈ [Task.review (Sample.reviewCall .accept 1),
      .review (Sample.reviewCall (.reject none) 1)], x.Fresh := by
    intro x hx
    rcases List.mem_cons.1 hx with rfl | hx
    · rfl
    · rw [List.mem_singleton.1 hx]
      rfl
  have hreach : Reach (System.step Sample.site) (fun _ _ => True)
      ⟨Sample.reviewedWorld, [.review (Sample.reviewCall .accept 1),
        .review (Sample.reviewCall (.reject none) 1)]⟩ _ :=
    reach_of_exec (l := [0, 1, 0, 1, 0, 1]) rfl
  exact ⟨_, hreach, rfl, documents_accounted (by decide) Sample.reviewedWorld_accounted hfresh hreach⟩

/-- A reviewer accepts the document, and a retry makes it pending: whatever its run
    does, it is not under review again. -/
theorem review_once_sample :
    ∃ q', Reach (System.step Sample.site) (fun _ _ => True) Sample.reviewedOnce q' ∧
      q'.shared.db.statusOf Sample.documentId = some .pending ∧
      ∀ q'', Reach (System.step Sample.site) (fun _ _ => True) q' q'' →
        q''.shared.db.statusOf Sample.documentId ≠ some .review := by
  have hfresh : ∀ x ∈ Sample.reviewedOnce.tasks, x.Fresh := by
    simp [Sample.reviewedOnce, Task.Fresh, Sample.reviewCall, Sample.retry]
  have hretried : Reach (System.step Sample.site) (fun _ _ => True) Sample.reviewedOnce _ :=
    reach_of_exec (l := [0, 0, 0, 1, 1, 1, 1]) rfl
  refine ⟨_, hretried, rfl, fun q'' h'' hreview => ?_⟩
  have hstill := review_once (by decide) (Sample.reviewed_accounted _) hfresh .refl hretried h'' rfl hreview
  cases hstill

end OcrService
