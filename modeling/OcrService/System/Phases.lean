/-
  Where a document stands between two turns.

  `Phase` says how the status of a document, its letters and its review task go
  together with the runs and deliveries that are still to come.  For each of the
  four transactions there is a lemma about the document that it is for
  (`persist_phase`, `exhausted_phase`, `retry_phase`, `decision_phase`), and one
  about every other document (`Unmoved`).
-/
import OcrService.Db.Letters
import OcrService.System.Turns
import OcrService.System.Written

namespace OcrService

open Trans PyData

/-! ## The phases -/

/-- Where a document stands between two turns, with `runs` runs and `deliveries`
    deliveries on their way. -/
inductive Phase (d : Uuid) (db : Db) (runs deliveries : ℕ) : Prop
  | waiting (hs : db.statusOf d = some .pending) (hp : db.pendingLetters d = 0)
      (hr : ¬ db.UnderReview d) (ha : runs ≤ 1) (hb : deliveries = 0)
  | completed (hs : db.statusOf d = some .completed) (hn : ¬ db.Retrying d)
      (hp : db.pendingLetters d + deliveries ≤ 1)
      (hr : db.UnderReview d → db.pendingLetters d + deliveries = 0) (ha : runs = 0)
  | review (hs : db.statusOf d = some .review) (hn : ¬ db.Retrying d) (hp : db.pendingLetters d = 0)
      (ha : runs = 0) (hb : deliveries = 0)
  | dead (hs : db.statusOf d = some .rejected ∨ db.statusOf d = some .error)
      (hp : db.pendingLetters d = 1) (hr : ¬ db.UnderReview d) (ha : runs = 0) (hb : deliveries = 0)

section
variable {d t : Uuid} {db db' : Db} {A A' B B' : ℕ}

/-- A turn that leaves the tables of the document alone. -/
theorem Phase.mono (h : Phase d db A B) (hdb : Unmoved d db db') (hA : A' ≤ A) (hB : B' ≤ B) :
    Phase d db' A' B' := by
  obtain ⟨hrow, hl, hr⟩ := hdb
  have hs : db'.statusOf d = db.statusOf d := by rw [Db.statusOf, hrow, Db.statusOf]
  have hp := hl.pending
  cases h with
  | waiting hs' hp' hr' ha hb =>
    refine .waiting (hs.trans hs') (hp.trans hp') (fun h => hr' (hr h)) ?_ ?_
    · omega
    · omega
  | completed hs' hn hp' hr' ha =>
    refine .completed (hs.trans hs') (fun h => hn (hl.retrying h)) ?_ ?_ ?_
    · omega
    · intro h
      have := hr' (hr h)
      omega
    · omega
  | review hs' hn hp' ha hb =>
    refine .review (hs.trans hs') (fun h => hn (hl.retrying h)) (hp.trans hp') ?_ ?_
    · omega
    · omega
  | dead hs' hp' hr' ha hb =>
    refine .dead ?_ (hp.trans hp') (fun h => hr' (hr h)) ?_ ?_
    · rw [hs]
      exact hs'
    · omega
    · omega

/-- While a run is on its way the document is pending. -/
theorem Phase.running (h : Phase d db A B) (hA : 0 < A) :
    db.statusOf d = some .pending ∧ db.pendingLetters d = 0 ∧ ¬ db.UnderReview d ∧ A = 1 ∧ B = 0 := by
  cases h with
  | waiting hs hp hr ha hb => exact ⟨hs, hp, hr, by omega, hb⟩
  | completed _ _ _ _ ha | review _ _ _ ha _ | dead _ _ _ ha _ => omega

/-- While a delivery is on its way the document is completed. -/
theorem Phase.delivering (h : Phase d db A B) (hB : 0 < B) :
    db.statusOf d = some .completed ∧ ¬ db.Retrying d ∧ db.pendingLetters d = 0 ∧ ¬ db.UnderReview d ∧
      A = 0 ∧ B = 1 := by
  cases h with
  | completed hs hn hp hr ha =>
    refine ⟨hs, hn, by omega, ?_, ha, by omega⟩
    intro h
    have := hr h
    omega
  | waiting _ _ _ _ hb | review _ _ _ _ hb | dead _ _ _ _ hb => omega

/-- A document with a pending letter has nothing on its way. -/
theorem Phase.lettered (h : Phase d db A B) (hp : 0 < db.pendingLetters d) :
    db.pendingLetters d = 1 ∧ ¬ db.UnderReview d ∧ A = 0 ∧ B = 0 := by
  cases h with
  | completed hs hn hp' hr ha =>
    refine ⟨by omega, ?_, ha, by omega⟩
    intro h
    have := hr h
    omega
  | dead hs hp' hr ha hb => exact ⟨hp', hr, ha, hb⟩
  | waiting _ hp' _ _ _ | review _ _ hp' _ _ => omega

/-- A document under review is completed or waits for its review. -/
theorem Phase.reviewed (h : Phase d db A B) (hr : db.UnderReview d) :
    ¬ db.Retrying d ∧ db.pendingLetters d = 0 ∧ A = 0 ∧ B = 0 := by
  cases h with
  | completed hs hn hp hr' ha =>
    have := hr' hr
    exact ⟨hn, by omega, ha, by omega⟩
  | review hs hn hp ha hb => exact ⟨hn, hp, ha, hb⟩
  | waiting _ _ hr' _ _ | dead _ _ hr' _ _ => exact absurd hr hr'

end

/-! ## What the turns commit -/

section
variable {S : Site} {d t t' : Uuid} {w : World} {db db' : Db} {x : Task} {ws : List Write}

/-- The row of the document is its tenant's. -/
theorem Addressed.tenant_eq (h : Addressed d t db) {document : Document} {d' : Uuid}
    (hdoc : db.document? t' d' = some document) (hd : document.id = d) :
    document.tenantId = t ∧ t' = t := by
  obtain ⟨hid, htenant, hfind⟩ := find_of_document? hdoc
  obtain ⟨row, hrow, hrowt⟩ := h.row
  rw [hd] at hfind
  cases Option.some.inj (hfind.symm.trans hrow)
  exact ⟨hrowt, htenant.symm.trans hrowt⟩

/-- **What the tasks commit is addressed** to the tenant of the document. -/
theorem Task.commit_address (h : x.Current S w.db) (ha : Addressed d t w.db)
    (hc : (x.move S w).change = .commit ws) : ∀ wr ∈ ws, wr.KeepsAddress d t := by
  intro wr hwr
  cases x with
  | run r =>
    obtain ⟨f, hpc, -⟩ := RunTask.change_commit hc
    obtain ⟨-, document, hdoc, hws⟩ := RunTask.Current.commit h hpc
    have htenant := fun hd => ha.tenant_eq hdoc hd
    cases persistWrite_of_mem hws hwr with
    | document => exact ⟨rfl, fun hd => (htenant hd).1⟩
    | deadLetter => exact fun hd => (htenant hd).2
    | _ => trivial
  | webhook v =>
    obtain ⟨hpc, -⟩ := WebhookTask.change_commit hc
    obtain ⟨⟨document, hdoc⟩, hlogs⟩ := WebhookTask.Current.commit h hpc
    have hlog {wr : Write} (h : wr.Logs) : wr.KeepsAddress d t := by
      cases wr <;> first | exact h.elim | trivial
    rcases hlogs with hlogs | ⟨rows, last, hlogs, rfl⟩
    · exact hlog (hlogs wr hwr)
    · rcases List.mem_append.1 hwr with hwr | hwr
      · exact hlog (hlogs wr hwr)
      · simp only [WebhookTask.exhausted, List.mem_cons, List.not_mem_nil, or_false] at hwr
        rcases hwr with rfl | rfl
        · intro hd
          exact (ha.tenant_eq hdoc ((find_of_document? hdoc).1.trans hd)).2
        · trivial
  | review v =>
    obtain ⟨hpc, -⟩ := ReviewRequest.change_commit hc
    obtain ⟨draft, hdraft, rfl⟩ := ReviewRequest.Current.commit h hpc
    rcases ReviewRequest.mem_finishWrites hwr with rfl | hwr | ⟨row, hdoc, rfl⟩ | ⟨row, -, rfl⟩
    · trivial
    · obtain ⟨old, new, rfl⟩ := hdraft.extraction wr hwr
      trivial
    · exact ⟨rfl, fun hd => (ha.tenant_eq hdoc hd).1⟩
    · trivial
  | retry y =>
    obtain ⟨entry, document, hpc, rfl, -⟩ := RetryRequest.change_commit hc
    obtain ⟨hfind, -, -, rfl⟩ := RetryRequest.Current.entry h (Or.inr hpc)
    rcases mem_retryWrites hwr with rfl | ⟨row, hdoc, rfl⟩
    · exact ⟨rfl, fun hd => ha.tenant entry (Rows.mem_of_find hfind) hd⟩
    · exact ⟨rfl, fun hd => (ha.tenant_eq hdoc hd).1⟩
  | _ => exact h.elim

end

/-! ## What a transaction does to the document -/

section
variable {S : Site} {d t d' : Uuid} {db db' : Db} {document : Document} {f : ExtractionState}
  {nonces : ℕ → Bytes} {ws : List Write} {B : ℕ}

/-- The outcome of another document. -/
theorem persist_unmoved (hd : document.id ≠ d) (hws : persistWrites S t nonces document f = .ok ws)
    (hdb : db.commit ws = .ok db') : Unmoved d db db' := by
  refine unmoved_commit ?_ hdb
  intro w hw
  rcases mem_persistWrites hws hw with rfl | ⟨row, rfl⟩ | ⟨extracted, -, rfl⟩ | ⟨-, rfl⟩ | ⟨-, rfl⟩ | rfl
  · exact ⟨⟨rfl, hd⟩, trivial, trivial⟩
  · exact ⟨trivial, trivial, trivial⟩
  · exact ⟨trivial, trivial, trivial⟩
  · exact ⟨trivial, trivial, hd⟩
  · exact ⟨trivial, hd, trivial⟩
  · exact ⟨trivial, trivial, trivial⟩

/-- **The outcome of the document** settles it. -/
theorem persist_phase (hfind : Rows.find Document.id db.documents document.id = some document)
    (hws : persistWrites S t nonces document f = .ok ws) (hdb : db.commit ws = .ok db')
    (hrouted : f.Routed) (hp : db.pendingLetters document.id = 0) (hr : ¬ db.UnderReview document.id)
    (hn : finalStatus f = .completed ∨ finalStatus f = .review → ¬ db.Retrying document.id) :
    Phase document.id db' 0 (if f.status = some .completed then 1 else 0) := by
  obtain ⟨⟨row, hrow, -, -, hstatus⟩, hrows⟩ := persist_rows hfind hws hdb
  have hs : db'.statusOf document.id = some (persistedStatus f) := by
    rw [Db.statusOf, hrow, Option.map_some, hstatus]
  have hletters (h : ¬ (finalStatus f = .rejected ∨ finalStatus f = .error)) :
      SameLetters document.id db db' := by
    refine letters_commit ?_ hdb
    intro w hw
    rcases mem_persistWrites hws hw with rfl | ⟨row, rfl⟩ | ⟨extracted, -, rfl⟩ | ⟨-, rfl⟩ | ⟨hf, -⟩ | rfl
    case inr.inr.inr.inr.inl => exact absurd hf h
    all_goals trivial
  have hreviews (h : finalStatus f ≠ .review) : ¬ db'.UnderReview document.id := by
    refine fun hreview => hr (reviews_commit ?_ hdb hreview)
    intro w hw
    rcases mem_persistWrites hws hw with rfl | ⟨row, rfl⟩ | ⟨extracted, -, rfl⟩ | ⟨hf, -⟩ | ⟨-, rfl⟩ | rfl
    case inr.inr.inr.inl => exact absurd hf h
    all_goals trivial
  obtain ⟨b, hb⟩ := hrouted
  have hfinal : finalStatus f = b.status := by rw [finalStatus, hb, Option.getD_some]
  cases b with
  | deliver =>
    replace hfinal : finalStatus f = .completed := hfinal
    have hsame := hletters (by rw [hfinal]; decide)
    have hpersisted : persistedStatus f = .completed := by
      rw [persistedStatus, hfinal]
      rfl
    have hnone := hreviews (by rw [hfinal]; decide)
    rw [if_pos (show f.status = some .completed from hb)]
    refine .completed (hs.trans (congrArg some hpersisted)) ?_ ?_ ?_ rfl
    · exact fun h => hn (Or.inl hfinal) (hsame.retrying h)
    · rw [hsame.pending, hp]
    · exact fun h => absurd h hnone
  | review =>
    replace hfinal : finalStatus f = .review := hfinal
    have hsame := hletters (by rw [hfinal]; decide)
    have hpersisted : persistedStatus f = .review := by
      rw [persistedStatus, hfinal]
      rfl
    rw [if_neg (show ¬ f.status = some .completed by rw [hb]; decide)]
    refine .review (hs.trans (congrArg some hpersisted)) ?_ (hsame.pending.trans hp) rfl rfl
    exact fun h => hn (Or.inr hfinal) (hsame.retrying h)
  | dlq =>
    replace hfinal : finalStatus f = .rejected := hfinal
    obtain ⟨hpending, -⟩ := letters_append (d := document.id) (hrows.deadLetters (Or.inl hfinal)) rfl rfl
    have hpersisted : persistedStatus f = .rejected := by
      rw [persistedStatus, hfinal]
      rfl
    rw [if_neg (show ¬ f.status = some .completed by rw [hb]; decide)]
    refine .dead (Or.inl (hs.trans (congrArg some hpersisted))) ?_ ?_ rfl rfl
    · rw [hpending, hp]
    · exact hreviews (by rw [hfinal]; decide)

/-- A row of `webhook_deliveries` or of the audit log concerns no document's row,
    letters or review. -/
theorem Write.Logs.spares {w : Write} (h : w.Logs) : w.Spares d := by
  cases w with
  | insertWebhookDelivery row => exact ⟨trivial, trivial, trivial⟩
  | insertAuditLog row => exact ⟨trivial, trivial, trivial⟩
  | _ => exact h.elim

/-- An exhausted delivery of another document. -/
theorem exhausted_unmoved {v : WebhookTask} {rows : List Write} {last : Option ℕ}
    (hrows : ∀ w ∈ rows, w.Logs) (hd : v.documentId ≠ d)
    (hdb : db.commit (rows ++ v.exhausted S last) = .ok db') : Unmoved d db db' := by
  refine unmoved_commit ?_ hdb
  intro w hw
  rcases List.mem_append.1 hw with hw | hw
  · exact (hrows w hw).spares
  · simp only [WebhookTask.exhausted, List.mem_cons, List.not_mem_nil, or_false] at hw
    rcases hw with rfl | rfl
    · exact ⟨trivial, hd, trivial⟩
    · exact ⟨trivial, trivial, trivial⟩

/-- **An exhausted delivery of the document** leaves a pending letter. -/
theorem exhausted_phase {v : WebhookTask} {rows : List Write} {last : Option ℕ}
    (hrows : ∀ w ∈ rows, w.Logs) (h : Phase v.documentId db 0 1)
    (hdb : db.commit (rows ++ v.exhausted S last) = .ok db') : Phase v.documentId db' 0 0 := by
  obtain ⟨hs, hn, hp, hr, -, -⟩ := h.delivering Nat.one_pos
  have hkeeps : ∀ w ∈ rows ++ v.exhausted S last, w.KeepsRow v.documentId ∧ w.KeepsReviews v.documentId := by
    intro w hw
    rcases List.mem_append.1 hw with hw | hw
    · exact ⟨(hrows w hw).spares.1, (hrows w hw).spares.2.2⟩
    · simp only [WebhookTask.exhausted, List.mem_cons, List.not_mem_nil, or_false] at hw
      rcases hw with rfl | rfl <;> exact ⟨trivial, trivial⟩
  have hrow := row_commit (fun w hw => (hkeeps w hw).1) hdb
  have hreview := reviews_commit (fun w hw => (hkeeps w hw).2) hdb
  obtain ⟨db₁, h₁, h₂⟩ := Db.commit_append_ok.1 hdb
  have hsame := letters_commit (d := v.documentId) (fun w hw => (hrows w hw).spares.2.1) h₁
  obtain ⟨db₂, h₂, h₃⟩ := Db.commit_cons_ok.1 h₂
  obtain ⟨hpending, hretrying⟩ := letters_insert (d := v.documentId) h₂ rfl rfl
  have hevent : SameLetters v.documentId db₂ db' := by
    refine letters_commit ?_ h₃
    intro w hw
    rw [List.mem_singleton.1 hw]
    trivial
  refine .completed ?_ ?_ ?_ (fun h => absurd (hreview h) hr) rfl
  · rw [Db.statusOf, hrow]
    exact hs
  · exact fun h => hn (hsame.retrying (hretrying (hevent.retrying h)))
  · rw [hevent.pending, hpending, hsame.pending, hp]

/-- The letter of a retry is in `retrying` afterwards. -/
theorem retry_dlq {entry : DeadLetter} {document : Option Document} (hs : entry.status = .pending)
    (hdb : db.commit (retryWrites entry document) = .ok db') :
    db'.dlq = Rows.replace DeadLetter.id db.dlq entry.id
      { entry with status := .retrying, retryCount := entry.retryCount + 1 } := by
  obtain ⟨db₁, h₁, h₂⟩ := Db.commit_cons_ok.1 hdb
  obtain ⟨-, rfl⟩ := Write.apply_ok.1 h₁
  have hne : ({ entry with status := .retrying, retryCount := entry.retryCount + 1 } : DeadLetter) ≠
      entry := by
    intro h
    have := congrArg DeadLetter.status h
    rw [hs] at this
    cases this
  have hdlq : db'.dlq = ((Write.updateDeadLetter entry
      { entry with status := .retrying, retryCount := entry.retryCount + 1 }).perform db).dlq := by
    cases document with
    | none =>
      cases h₂
      rfl
    | some row =>
      obtain ⟨-, rfl⟩ := Write.apply_ok.1 (commit_one.1 h₂)
      obtain ⟨documents, hdocs⟩ := perform_updateDocument ((Write.updateDeadLetter entry
        { entry with status := .retrying, retryCount := entry.retryCount + 1 }).perform db) row
          { row with status := .pending }
      rw [hdocs]
  rw [hdlq]
  simp only [Write.perform, if_neg hne]

/-- A retry adds no review task. -/
theorem retry_reviews {entry : DeadLetter} {document : Option Document}
    (hdb : db.commit (retryWrites entry document) = .ok db') : db'.UnderReview d → db.UnderReview d := by
  refine reviews_commit ?_ hdb
  intro w hw
  rcases mem_retryWrites hw with rfl | ⟨row, -, rfl⟩ <;> trivial

/-- A retry of a letter of another document. -/
theorem retry_unmoved {entry : DeadLetter} (hnodup : (db.dlq.map DeadLetter.id).Nodup)
    (hfind : Rows.find DeadLetter.id db.dlq entry.id = some entry) (hs : entry.status = .pending)
    (hd : entry.documentId ≠ d)
    (hdb : db.commit (retryWrites entry (db.document? t entry.documentId)) = .ok db') :
    Unmoved d db db' := by
  have hdlq := retry_dlq hs hdb
  refine ⟨row_commit ?_ hdb, ⟨?_, ?_⟩, retry_reviews hdb⟩
  · intro w hw
    rcases mem_retryWrites hw with rfl | ⟨row, hdoc, rfl⟩
    · trivial
    · refine ⟨rfl, ?_⟩
      rw [(find_of_document? hdoc).1]
      exact hd
  · have := pendingLetters_retry (d := d) hnodup hfind hs hdlq
    rwa [if_neg hd] at this
  · rintro ⟨e, he, hed, hes⟩
    rw [hdlq] at he
    rcases Rows.mem_replace he with rfl | he
    · exact absurd hed hd
    · exact ⟨e, he, hed, hes⟩

/-- **A retry of the letter of the document** sets the document to wait. -/
theorem retry_phase {entry : DeadLetter} {A : ℕ} (hnodup : (db.dlq.map DeadLetter.id).Nodup)
    (hfind : Rows.find DeadLetter.id db.dlq entry.id = some entry) (hs : entry.status = .pending)
    (hdoc : db.document? t entry.documentId = some document)
    (hdb : db.commit (retryWrites entry (some document)) = .ok db')
    (hp : db.pendingLetters entry.documentId = 1) (hr : ¬ db.UnderReview entry.documentId) (hA : A ≤ 1) :
    Phase entry.documentId db' A 0 := by
  obtain ⟨hid, -, hrow⟩ := find_of_document? hdoc
  rw [hid] at hrow
  refine .waiting ?_ ?_ (fun h => hr (retry_reviews hdb h)) hA rfl
  · have hbefore : ∀ w ∈ [Write.updateDeadLetter entry
        { entry with status := .retrying, retryCount := entry.retryCount + 1 }],
        w.KeepsRow entry.documentId := by
      intro w hw
      rw [List.mem_singleton.1 hw]
      trivial
    have hstatus : db'.statusOf entry.documentId =
        some ({ document with status := .pending } : Document).status :=
      statusOf_update hbefore (fun _ hw => absurd hw List.not_mem_nil) hrow rfl hdb
    exact hstatus
  · have := pendingLetters_retry (d := entry.documentId) hnodup hfind hs (retry_dlq hs hdb)
    rw [if_pos rfl] at this
    omega

/-- A decision on another document. -/
theorem decision_unmoved {q : ReviewRequest} {draft : ReviewDraft} {ρ : RowId} {action : ReviewAction}
    (hdraft : Drafts db ρ action draft) (hd : draft.old.documentId ≠ d)
    (hdb : db.commit (q.finishWrites S draft (db.document? t draft.old.documentId)) = .ok db') :
    Unmoved d db db' := by
  refine unmoved_commit ?_ hdb
  intro w hw
  rcases ReviewRequest.mem_finishWrites hw with rfl | hw | ⟨row, hdoc, rfl⟩ | ⟨row, -, rfl⟩
  · refine ⟨trivial, trivial, ?_⟩
    show draft.new.documentId ≠ d
    rw [hdraft.document]
    exact hd
  · obtain ⟨old, new, rfl⟩ := hdraft.extraction w hw
    exact ⟨trivial, trivial, trivial⟩
  · refine ⟨⟨rfl, ?_⟩, trivial, trivial⟩
    rw [(find_of_document? hdoc).1]
    exact hd
  · exact ⟨trivial, trivial, trivial⟩

/-- **A decision on the document** that does not reject it completes it. -/
theorem decision_phase {q : ReviewRequest} {draft : ReviewDraft} {ρ : RowId} {action : ReviewAction}
    {A B : ℕ} (hdraft : Drafts db ρ action draft) (h : Phase draft.old.documentId db A B)
    (hrejected : draft.rejected = false)
    (hdb : db.commit (q.finishWrites S draft (db.document? t draft.old.documentId)) = .ok db') :
    Phase draft.old.documentId db' A B := by
  have hreview : db.UnderReview draft.old.documentId := ⟨draft.old, hdraft.old, rfl⟩
  obtain ⟨hn, hp, hA, hB⟩ := h.reviewed hreview
  have hextraction {w : Write} (hw : w ∈ draft.extraction) :
      w.KeepsRow draft.old.documentId ∧ w.KeepsLetters draft.old.documentId := by
    obtain ⟨old, new, rfl⟩ := hdraft.extraction w hw
    exact ⟨trivial, trivial⟩
  have hletters : SameLetters draft.old.documentId db db' := by
    refine letters_commit ?_ hdb
    intro w hw
    rcases ReviewRequest.mem_finishWrites hw with rfl | hw | ⟨row, -, rfl⟩ | ⟨row, -, rfl⟩
    · trivial
    · exact (hextraction hw).2
    · trivial
    · trivial
  have hbefore : ∀ w ∈ Write.updateReviewTask draft.old draft.new :: draft.extraction,
      w.KeepsRow draft.old.documentId := by
    intro w hw
    rcases List.mem_cons.1 hw with rfl | hw
    · trivial
    · exact (hextraction hw).1
  cases hdoc : db.document? t draft.old.documentId with
  | none =>
    -- the document is another tenant's, and stays as it is
    rw [hdoc] at hdb
    refine h.mono ⟨row_commit ?_ hdb, hletters, fun _ => hreview⟩ le_rfl le_rfl
    intro w hw
    simp only [ReviewRequest.finishWrites, List.append_nil] at hw
    rcases List.mem_append.1 hw with hw | hw
    · exact hbefore w hw
    · rw [List.mem_singleton.1 hw]
      trivial
  | some row =>
    rw [hdoc] at hdb
    obtain ⟨hid, -, hrow⟩ := find_of_document? hdoc
    rw [hid] at hrow
    have hstatus : db'.statusOf draft.old.documentId =
        some ({ row with status := if draft.rejected then .rejected else .completed } : Document).status := by
      simp only [ReviewRequest.finishWrites, List.append_assoc, List.singleton_append] at hdb
      refine statusOf_update hbefore ?_ hrow rfl hdb
      intro w hw
      rw [List.mem_singleton.1 hw]
      trivial
    rw [hrejected] at hstatus
    have hp' := hletters.pending
    refine .completed hstatus (fun h => hn (hletters.retrying h)) ?_ ?_ hA
    · omega
    · intro _
      omega

end

end OcrService
