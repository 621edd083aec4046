/-
  When `_persist_outcome` commits, and what it leaves.

  `Persistable` collects what the database asks of the rows of a final state;
  `persistDb_isSome` says that nothing else keeps the transaction of a document
  from committing, and `persistDb_rows` what is then in the tables.
-/
import OcrService.Worker.RunAlone
import OcrService.Db.Writes

namespace OcrService

open PyData

/-! ## What the rows must satisfy -/

/-- The row of one guardrail report. -/
def guardrailReport (documentId tenantId : Uuid) (report : GuardrailOutcome) : GuardrailReport where
  documentId := documentId
  tenantId := tenantId
  guardrailName := report.name
  result := report.result
  detail := report.detail
  confidenceMultiplier := report.confidenceMultiplier

theorem guardrailReports_eq (documentId tenantId : Uuid) (s : ExtractionState) :
    guardrailReports documentId tenantId s =
      ((s.guardrailResults.getD []).map (guardrailReport documentId tenantId)).map
        Write.insertGuardrailReport := by
  simp [guardrailReports, guardrailReport]

section
variable (S : Site) (db : Db) (tenantId : Uuid) (nonces : ℕ → Bytes) (document : Document)
  (f : ExtractionState)

/-- The extraction can be encrypted, stored, and is the first of its document. -/
def ExtractionAccepted : Prop :=
  (∃ extracted, encryptedExtraction S tenantId nonces f = .ok extracted ∧
    (extractionResult document.id tenantId f extracted).Storable) ∧ db.resultOf document.id = none

/-- The rows that depend on the final status are accepted. -/
def StatusAccepted : Prop :=
  match finalStatus f with
  | .completed => ExtractionAccepted S db tenantId nonces document f
  | .review => ExtractionAccepted S db tenantId nonces document f ∧ db.reviewOf document.id = none
  | .rejected | .error => (deadLetter document.id tenantId f).Storable
  | _ => True

/-- Every row that `_persist_outcome` writes for this state is accepted. -/
def Persistable : Prop :=
  (persistedDocument document f = document ∨ (persistedDocument document f).Storable) ∧
    (∀ report ∈ f.guardrailResults.getD [], (guardrailReport document.id tenantId report).Storable) ∧
      StatusAccepted S db tenantId nonces document f

end

/-! ## The writes one after the other -/

section
variable {db db' : Db} {d t : Uuid}

theorem commit_guardrailReports (db' : Db) (rows : List GuardrailReport) :
    ∀ {db : Db}, db.hasDocument d = true → (∀ row ∈ rows, row.documentId = d) →
      (db.commit (rows.map Write.insertGuardrailReport) = .ok db' ↔
        (∀ row ∈ rows, row.Storable) ∧
          { db with guardrailReports := db.guardrailReports ++ rows.map GuardrailReport.stored } = db') := by
  induction rows with
  | nil => intro db _ _; simp [Db.commit_nil]
  | cons row rows ih =>
    intro db hdoc hrows
    rw [List.map_cons, Db.commit_cons_ok]
    have hrow : db.hasDocument row.documentId = true := by
      rw [hrows row List.mem_cons_self]; exact hdoc
    have ih := @ih { db with guardrailReports := db.guardrailReports ++ [row.stored] } hdoc
      fun r hr => hrows r (List.mem_cons_of_mem _ hr)
    simp only [insertGuardrailReport_ok row hrow]
    constructor
    · rintro ⟨_, ⟨hs, rfl⟩, h⟩
      obtain ⟨hss, rfl⟩ := ih.1 h
      exact ⟨List.forall_mem_cons.2 ⟨hs, hss⟩, by simp⟩
    · rintro ⟨hss, rfl⟩
      obtain ⟨hs, hss⟩ := List.forall_mem_cons.1 hss
      exact ⟨_, ⟨hs, rfl⟩, ih.2 ⟨hss, by simp⟩⟩

theorem hasDocument_of_find {document : Document}
    (h : Rows.find Document.id db.documents d = some document) : db.hasDocument d = true := by
  simp [Db.hasDocument, h]

end

/-! ## The rows of the final status -/

section
variable {S : Site} {db db' : Db} {t : Uuid} {nonces : ℕ → Bytes} {document : Document}
  {f : ExtractionState} {ws : List Write}

/-- What the status-dependent writes leave in the tables. -/
structure StatusRows (S : Site) (db db' : Db) (t : Uuid) (nonces : ℕ → Bytes) (document : Document)
    (f : ExtractionState) : Prop where
  results : finalStatus f = .completed ∨ finalStatus f = .review →
    ∃ extracted, encryptedExtraction S t nonces f = .ok extracted ∧ db.resultOf document.id = none ∧
      db'.extractionResults = db.extractionResults ++
        [{ (extractionResult document.id t f extracted).stored with id := db.nextId }]
  deadLetters : finalStatus f = .rejected ∨ finalStatus f = .error →
    db'.dlq = db.dlq ++ [{ deadLetter document.id t f with id := db.nextId }]

theorem commit_extraction {extracted : Obj} (hdoc : db.hasDocument document.id = true) :
    db.commit [.insertExtractionResult (extractionResult document.id t f extracted)] = .ok db' ↔
      ((extractionResult document.id t f extracted).Storable ∧ db.resultOf document.id = none) ∧
        (Write.insertExtractionResult (extractionResult document.id t f extracted)).perform db = db' :=
  commit_one.trans (insertExtractionResult_ok (extractionResult document.id t f extracted) hdoc)

/-- After the insert the result row is the one the review task refers to. -/
theorem resultOf_insert (row : ExtractionResult) (h : db.resultOf row.documentId = none) :
    ((Write.insertExtractionResult row).perform db).resultOf row.documentId =
      some { row.stored with id := db.nextId } := by
  unfold Db.resultOf at h ⊢
  simp only [Write.perform]
  rw [Rows.find_append_one, h]
  simp [ExtractionResult.stored]

theorem commit_review {extracted : Obj} (hdoc : db.hasDocument document.id = true) :
    db.commit [.insertExtractionResult (extractionResult document.id t f extracted),
        .insertReviewTask document.id t] = .ok db' ↔
      (((extractionResult document.id t f extracted).Storable ∧ db.resultOf document.id = none) ∧
        db.reviewOf document.id = none) ∧
        (Write.insertReviewTask document.id t).perform
          ((Write.insertExtractionResult (extractionResult document.id t f extracted)).perform db) =
            db' := by
  set row := extractionResult document.id t f extracted
  have hdoc' : ((Write.insertExtractionResult row).perform db).hasDocument document.id = true := hdoc
  have hreview (h : db.resultOf document.id = none) :
      Write.apply _ (.insertReviewTask document.id t) = .ok db' ↔ _ :=
    insertReviewTask_ok t hdoc' (resultOf_insert row h)
  rw [Db.commit_cons_ok]
  simp only [commit_one, insertExtractionResult_ok row hdoc]
  constructor
  · rintro ⟨_, ⟨h, rfl⟩, h'⟩
    obtain ⟨hrev, rfl⟩ := (hreview h.2).1 h'
    exact ⟨⟨h, hrev⟩, rfl⟩
  · rintro ⟨⟨h, hrev⟩, hdb⟩
    exact ⟨_, ⟨h, rfl⟩, (hreview h.2).2 ⟨hrev, hdb⟩⟩

/-- The tables after both inserts. -/
theorem perform_review (row : ExtractionResult) (h : db.resultOf row.documentId = none) :
    ((Write.insertReviewTask row.documentId t).perform
      ((Write.insertExtractionResult row).perform db)).documents = db.documents ∧
    ((Write.insertReviewTask row.documentId t).perform
      ((Write.insertExtractionResult row).perform db)).extractionResults =
        db.extractionResults ++ [{ row.stored with id := db.nextId }] := by
  rw [perform_insertReviewTask (resultOf_insert row h)]
  exact ⟨rfl, rfl⟩

theorem commit_deadLetter (hdoc : db.hasDocument document.id = true) :
    db.commit [.insertDeadLetter (deadLetter document.id t f)] = .ok db' ↔
      (deadLetter document.id t f).Storable ∧
        (Write.insertDeadLetter (deadLetter document.id t f)).perform db = db' :=
  commit_one.trans (insertDeadLetter_ok (deadLetter document.id t f) hdoc)

/-- The status-dependent writes commit iff they are accepted. -/
theorem status_commits_iff (hdoc : db.hasDocument document.id = true) :
    (∃ ws, statusWrites S document.id t nonces f = .ok ws ∧ ∃ db', db.commit ws = .ok db') ↔
      StatusAccepted S db t nonces document f := by
  unfold statusWrites StatusAccepted ExtractionAccepted
  cases finalStatus f with
  | completed =>
    cases he : encryptedExtraction S t nonces f with
    | error e => simp [Except.map]
    | ok extracted => simp [Except.map, commit_extraction hdoc]
  | review =>
    cases he : encryptedExtraction S t nonces f with
    | error e => simp [Except.map]
    | ok extracted => simp [Except.map, commit_review hdoc]
  | rejected => simp [commit_deadLetter hdoc]
  | error => simp [commit_deadLetter hdoc]
  | _ => simp [Db.commit_nil]

/-- What they leave. -/
theorem statusRows_of_commit (hdoc : db.hasDocument document.id = true)
    (hws : statusWrites S document.id t nonces f = .ok ws) (h : db.commit ws = .ok db') :
    db'.documents = db.documents ∧ StatusRows S db db' t nonces document f := by
  unfold statusWrites at hws
  cases hs : finalStatus f with
  | completed =>
    rw [hs] at hws
    cases he : encryptedExtraction S t nonces f with
    | error e => rw [he] at hws; cases hws
    | ok extracted =>
      rw [he] at hws; cases hws
      obtain ⟨⟨-, hres⟩, rfl⟩ := (commit_extraction hdoc).1 h
      exact ⟨rfl, fun _ => ⟨extracted, he, hres, rfl⟩, by simp [hs]⟩
  | review =>
    rw [hs] at hws
    cases he : encryptedExtraction S t nonces f with
    | error e => rw [he] at hws; cases hws
    | ok extracted =>
      rw [he] at hws; cases hws
      obtain ⟨⟨⟨-, hres⟩, -⟩, rfl⟩ := (commit_review hdoc).1 h
      obtain ⟨hdocs, hresults⟩ :=
        perform_review (t := t) (extractionResult document.id t f extracted) hres
      exact ⟨hdocs, fun _ => ⟨extracted, he, hres, hresults⟩, by simp [hs]⟩
  | rejected | error =>
    rw [hs] at hws; cases hws
    obtain ⟨-, rfl⟩ := (commit_deadLetter hdoc).1 h
    exact ⟨rfl, by simp [hs], fun _ => rfl⟩
  | _ =>
    rw [hs] at hws; cases hws
    cases h
    exact ⟨rfl, by simp [hs], by simp [hs]⟩

end

/-! ## The whole transaction -/

section
variable {S : Site} {w : World} {db db' : Db} {t : Uuid} {nonces : ℕ → Bytes} {document : Document}
  {f : ExtractionState}

/-- The database after the update of the document and the guardrail reports. -/
def reportedDb (db : Db) (t : Uuid) (document : Document) (f : ExtractionState) : Db :=
  { (Write.updateDocument document (persistedDocument document f)).perform db with
    guardrailReports := db.guardrailReports ++
      ((f.guardrailResults.getD []).map (guardrailReport document.id t)).map GuardrailReport.stored }

theorem reportedDb_eq (db : Db) (t : Uuid) (document : Document) (f : ExtractionState) :
    ∃ documents guardrailReports, reportedDb db t document f = { db with documents, guardrailReports } := by
  obtain ⟨documents, h⟩ :=
    perform_updateDocument db document (persistedDocument document f)
  exact ⟨documents, _, by rw [reportedDb, h]⟩

theorem statusAccepted_reportedDb :
    StatusAccepted S (reportedDb db t document f) t nonces document f ↔
      StatusAccepted S db t nonces document f := by
  obtain ⟨_, _, h⟩ := reportedDb_eq db t document f
  rw [h]
  exact Iff.rfl

/-- The document is there after its update. -/
theorem hasDocument_updated (hfind : Rows.find Document.id db.documents document.id = some document) :
    ((Write.updateDocument document (persistedDocument document f)).perform db).hasDocument
      document.id = true :=
  hasDocument_of_find (find_updateDocument document (persistedDocument document f) rfl hfind)

/-- The transaction, write after write. -/
theorem commit_persist_iff (hfind : Rows.find Document.id db.documents document.id = some document)
    {ws : List Write} :
    db.commit (.updateDocument document (persistedDocument document f) ::
        guardrailReports document.id t f ++ ws ++ [pipelineEvent S document.id t f]) = .ok db' ↔
      ((persistedDocument document f = document ∨ (persistedDocument document f).Storable) ∧
        ∀ report ∈ f.guardrailResults.getD [], (guardrailReport document.id t report).Storable) ∧
        ∃ db₁, (reportedDb db t document f).commit ws = .ok db₁ ∧
          (pipelineEvent S document.id t f).perform db₁ = db' := by
  have hdoc := hasDocument_updated (f := f) hfind
  obtain ⟨_, hupd⟩ := perform_updateDocument db document (persistedDocument document f)
  have hreports (db' : Db) := commit_guardrailReports db'
    ((f.guardrailResults.getD []).map (guardrailReport document.id t)) hdoc
    (by simp [guardrailReport])
  have hstored : { (Write.updateDocument document (persistedDocument document f)).perform db with
      guardrailReports := ((Write.updateDocument document (persistedDocument document f)).perform
        db).guardrailReports ++ ((f.guardrailResults.getD []).map
          (guardrailReport document.id t)).map GuardrailReport.stored } =
      reportedDb db t document f := by
    rw [reportedDb, hupd]
  have hevent (db₁ : Db) : db₁.commit [pipelineEvent S document.id t f] = .ok db' ↔
      (pipelineEvent S document.id t f).perform db₁ = db' := by
    rw [commit_one, Write.apply_ok]
    exact and_iff_right rfl
  rw [List.cons_append, List.cons_append, Db.commit_cons_ok]
  simp only [Db.commit_append_ok, updateDocument_ok, hfind, guardrailReports_eq, hevent]
  constructor
  · rintro ⟨_, ⟨hupd', rfl⟩, _, ⟨_, h₁, h₂⟩, h₃⟩
    obtain ⟨hrep, rfl⟩ := (hreports _).1 h₁
    rw [hstored] at h₂
    refine ⟨⟨hupd'.imp id fun h => h.1, fun report hr => ?_⟩, _, h₂, h₃⟩
    exact hrep _ (List.mem_map_of_mem hr)
  · rintro ⟨⟨hupd', hrep⟩, db₁, h₂, h₃⟩
    refine ⟨_, ⟨hupd'.imp id fun h => ⟨h, _, rfl, rfl⟩, rfl⟩, _, ⟨_, (hreports _).2 ⟨?_, hstored⟩, h₂⟩, h₃⟩
    simpa using hrep

/-- **The transaction commits iff every row is accepted.** -/
theorem persist_commits_iff (hfind : Rows.find Document.id db.documents document.id = some document) :
    (∃ ws, persistWrites S t nonces document f = .ok ws ∧ ∃ db', db.commit ws = .ok db') ↔
      Persistable S db t nonces document f := by
  have hdoc : (reportedDb db t document f).hasDocument document.id = true := hasDocument_updated hfind
  have hstatus : (∃ ws, statusWrites S document.id t nonces f = .ok ws ∧
      ∃ db', (reportedDb db t document f).commit ws = .ok db') ↔
        StatusAccepted S (reportedDb db t document f) t nonces document f := status_commits_iff hdoc
  rw [statusAccepted_reportedDb] at hstatus
  unfold Persistable
  rw [← hstatus, persistWrites]
  constructor
  · rintro ⟨_, hws, db', h⟩
    cases hst : statusWrites S document.id t nonces f with
    | error e => rw [hst] at hws; cases hws
    | ok ws =>
      rw [hst] at hws; cases hws
      obtain ⟨⟨h₁, h₂⟩, db₁, h₃, -⟩ := (commit_persist_iff hfind).1 h
      exact ⟨h₁, h₂, ws, rfl, db₁, h₃⟩
  · rintro ⟨h₁, h₂, ws, hst, db₁, h₃⟩
    exact ⟨_, by rw [hst]; rfl, _, (commit_persist_iff hfind).2 ⟨⟨h₁, h₂⟩, db₁, h₃, rfl⟩⟩

/-- **What the transaction leaves.** -/
theorem persist_rows (hfind : Rows.find Document.id db.documents document.id = some document)
    {ws : List Write} (hws : persistWrites S t nonces document f = .ok ws)
    (h : db.commit ws = .ok db') :
    (∃ row, Rows.find Document.id db'.documents document.id = some row ∧
      row.tenantId = document.tenantId ∧ row.isDryRun = document.isDryRun ∧
        row.status = persistedStatus f) ∧
      StatusRows S db db' t nonces document f := by
  rw [persistWrites] at hws
  cases hst : statusWrites S document.id t nonces f with
  | error e => rw [hst] at hws; cases hws
  | ok ws' =>
    rw [hst] at hws; cases hws
    obtain ⟨-, db₁, h₁, rfl⟩ := (commit_persist_iff hfind).1 h
    have hdoc : (reportedDb db t document f).hasDocument document.id = true := hasDocument_updated hfind
    obtain ⟨hdocs, hrows⟩ := statusRows_of_commit hdoc hst h₁
    have hfind' := find_updateDocument document (persistedDocument document f) rfl hfind
    refine ⟨⟨_, (congrArg (fun l => Rows.find Document.id l document.id) hdocs).trans hfind', ?_⟩, ?_⟩
    · split_ifs with hsame
      · exact ⟨rfl, rfl, by rw [← hsame]; rfl⟩
      · exact ⟨rfl, rfl, rfl⟩
    · obtain ⟨_, _, hrep⟩ := reportedDb_eq db t document f
      rw [hrep] at hrows
      exact ⟨hrows.results, hrows.deadLetters⟩

end

/-! ## Of a run -/

section
variable {S : Site} {w : World} {r : RunTask} {f : ExtractionState} {document : Document}

/-- **`_persist_outcome` commits iff erasure has not begun and every row is
    accepted.** -/
theorem persistDb_isSome (hdoc : w.db.document? r.tenantId r.documentId = some document) :
    (∃ db', r.persistDb S w f = some db') ↔
      ¬ (document.status = .cancelled ∨ document.status = .tombstone ∨
        (w.procs r.proc).isCancelled r.documentId = true) ∧
        Persistable S w.db r.tenantId r.env.nonces document f := by
  obtain ⟨-, -, hfind⟩ := find_of_document? hdoc
  rw [← persist_commits_iff hfind]
  simp only [RunTask.persistDb, hdoc]
  split_ifs with hskip
  · simp [hskip]
  · simp only [hskip, not_false_eq_true, true_and]
    cases persistWrites S r.tenantId r.env.nonces document f with
    | error e => simp
    | ok ws => cases hc : w.db.commit ws <;> simp [Except.toOption, hc]

/-- What it leaves. -/
theorem persistDb_rows {db' : Db} (hdoc : w.db.document? r.tenantId r.documentId = some document)
    (h : r.persistDb S w f = some db') :
    (∃ row, db'.document? r.tenantId r.documentId = some row ∧ row.status = persistedStatus f) ∧
      StatusRows S w.db db' r.tenantId r.env.nonces document f := by
  obtain ⟨hid, htenant, hfind⟩ := find_of_document? hdoc
  simp only [RunTask.persistDb, hdoc] at h
  split_ifs at h with hskip
  cases hws : persistWrites S r.tenantId r.env.nonces document f with
  | error e => rw [hws] at h; cases h
  | ok ws =>
    rw [hws] at h
    dsimp only at h
    cases hc : w.db.commit ws with
    | error e => rw [hc] at h; cases h
    | ok db =>
      rw [hc] at h; cases h
      obtain ⟨⟨row, hrow, ht, -, hs⟩, hrows⟩ := persist_rows hfind hws hc
      refine ⟨⟨row, ?_, hs⟩, hrows⟩
      rw [Db.document?, ← hid, hrow]
      simp [ht, htenant]

end

end OcrService
