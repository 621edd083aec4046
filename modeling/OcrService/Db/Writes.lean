/-
  What one write does.

  The first part says when each write succeeds, and with what; the second says
  what any write does to one table.  Proofs about transactions cite these and
  unfold no write.
-/
import OcrService.Db.Session

namespace OcrService

open PyData

variable {db db' : Db}

/-! ## When a write succeeds -/

/-- A transaction of one write. -/
theorem commit_one {w : Write} : db.commit [w] = .ok db' ↔ w.apply db = .ok db' := by
  rw [Db.commit_cons_ok]
  simp only [Db.commit_nil, Except.ok.injEq, exists_eq_right]

theorem updateDocument_ok {old new : Document} :
    Write.apply db (.updateDocument old new) = .ok db' ↔
      (new = old ∨ (new.Storable ∧
        ∃ row, Rows.find Document.id db.documents old.id = some row ∧ row.version = old.version)) ∧
        (Write.updateDocument old new).perform db = db' := by
  rw [Write.apply_ok]
  refine and_congr_left fun _ => ?_
  unfold Write.refused
  by_cases hne : new = old
  · simp [hne]
  · simp only [hne, if_false, false_or]
    cases Rows.find Document.id db.documents old.id with
    | none => simp
    | some row =>
      by_cases hv : row.version = old.version <;> by_cases hs : new.Storable <;> simp [hv, hs]

theorem insertGuardrailReport_ok (row : GuardrailReport) (hdoc : db.hasDocument row.documentId = true) :
    Write.apply db (.insertGuardrailReport row) = .ok db' ↔
      row.Storable ∧ (Write.insertGuardrailReport row).perform db = db' := by
  rw [Write.apply_ok]
  by_cases hs : row.Storable <;> simp [Write.refused, hdoc, hs]

theorem insertExtractionResult_ok (row : ExtractionResult)
    (hdoc : db.hasDocument row.documentId = true) :
    Write.apply db (.insertExtractionResult row) = .ok db' ↔
      (row.Storable ∧ db.resultOf row.documentId = none) ∧
        (Write.insertExtractionResult row).perform db = db' := by
  rw [Write.apply_ok]
  by_cases hs : row.Storable <;> cases hr : db.resultOf row.documentId <;>
    simp [Write.refused, hdoc, hs, hr]

theorem insertReviewTask_ok {documentId : Uuid} (tenantId : Uuid) {result : ExtractionResult}
    (hdoc : db.hasDocument documentId = true) (hres : db.resultOf documentId = some result) :
    Write.apply db (.insertReviewTask documentId tenantId) = .ok db' ↔
      db.reviewOf documentId = none ∧ (Write.insertReviewTask documentId tenantId).perform db = db' := by
  rw [Write.apply_ok]
  cases hr : db.reviewOf documentId <;> simp [Write.refused, hdoc, hres, hr]

theorem perform_insertReviewTask {documentId tenantId : Uuid} {result : ExtractionResult}
    (hres : db.resultOf documentId = some result) :
    (Write.insertReviewTask documentId tenantId).perform db =
      { db with
        reviewTasks := db.reviewTasks ++
          [{ id := db.nextId, documentId, tenantId, extractionResultId := result.id }]
        nextId := db.nextId + 1 } := by
  simp only [Write.perform, hres]

theorem insertDeadLetter_ok (row : DeadLetter) (hdoc : db.hasDocument row.documentId = true) :
    Write.apply db (.insertDeadLetter row) = .ok db' ↔
      row.Storable ∧ (Write.insertDeadLetter row).perform db = db' := by
  rw [Write.apply_ok]
  by_cases hs : row.Storable <;> simp [Write.refused, hdoc, hs]

theorem updateSchema_ok {old new : Schema} (hne : new ≠ old) :
    Write.apply db (.updateSchema old new) = .ok db' ↔
      ∃ row, Rows.find Schema.id db.schemas old.id = some row ∧ (row.merge old new.stored).Storable ∧
        { db with schemas := Rows.replace Schema.id db.schemas old.id (row.merge old new.stored) } = db' := by
  rw [Write.apply_ok]
  simp only [Write.refused, Write.perform, if_neg hne]
  cases Rows.find Schema.id db.schemas old.id with
  | none => simp
  | some row => by_cases hs : (row.merge old new.stored).Storable <;> simp [hs]

theorem insertSchema_ok {row : Schema} (h : Write.apply db (.insertSchema row) = .ok db') :
    row.Storable ∧ { db with schemas := db.schemas ++ [row.stored] } = db' := by
  obtain ⟨hr, rfl⟩ := Write.apply_ok.1 h
  refine ⟨?_, rfl⟩
  simp only [Write.refused] at hr
  split_ifs at hr with h₁ h₂
  exact h₂

/-- The version of a snapshot is new to its schema. -/
theorem insertSchemaVersion_ok {row : SchemaVersion} {schema : Schema}
    (hrow : Rows.find Schema.id db.schemas row.schemaId = some schema) :
    Write.apply db (.insertSchemaVersion row) = .ok db' ↔
      (∀ r ∈ db.schemaVersions, r.schemaId = row.schemaId → r.version ≠ row.version) ∧
        { db with schemaVersions := db.schemaVersions ++ [row] } = db' := by
  rw [Write.apply_ok]
  simp only [Write.refused, Write.perform, hrow, Option.isNone_some, Bool.false_eq_true, if_false]
  refine and_congr_left fun _ => ?_
  simp

/-! ## What an update leaves alone -/

/-- Updating a document leaves the other tables alone. -/
theorem perform_updateDocument (db : Db) (old new : Document) :
    ∃ documents, (Write.updateDocument old new).perform db = { db with documents } := by
  simp only [Write.perform]
  split_ifs
  · exact ⟨_, rfl⟩
  · exact ⟨_, rfl⟩

/-- Updating a dead-letter row leaves the other tables alone. -/
theorem perform_updateDeadLetter (db : Db) (old new : DeadLetter) :
    ∃ dlq, (Write.updateDeadLetter old new).perform db = { db with dlq } := by
  simp only [Write.perform]
  split_ifs
  · exact ⟨_, rfl⟩
  · exact ⟨_, rfl⟩

/-- The row of a document after its update. -/
theorem find_updateDocument (old new : Document) {row : Document} (hid : new.id = old.id)
    (h : Rows.find Document.id db.documents old.id = some row) :
    Rows.find Document.id ((Write.updateDocument old new).perform db).documents old.id =
      some (if new = old then row else { new.stored with version := old.version + 1 }) := by
  simp only [Write.perform]
  split_ifs
  · exact h
  · exact Rows.find_replace_self h hid

theorem find_of_document? {document : Document} {t d : Uuid} (h : db.document? t d = some document) :
    document.id = d ∧ document.tenantId = t ∧
      Rows.find Document.id db.documents document.id = some document := by
  unfold Db.document? at h
  obtain ⟨h₁, h₂⟩ := Option.filter_eq_some_iff.1 h
  have hid := Rows.key_of_find h₁
  exact ⟨hid, by simpa using h₂, by rw [hid]; exact h₁⟩

/-! ## What any write does to one table -/

/-- The database after a write, case by case. -/
inductive Performed (db : Db) : Write → Db → Prop
  | idle {w : Write} : Performed db w db
  | updateDocument {old new : Document} (hne : new ≠ old) :
      Performed db (.updateDocument old new)
        { db with
          documents := Rows.replace Document.id db.documents old.id
            { new.stored with version := old.version + 1 } }
  | updateExtractionResult {old new : ExtractionResult} (hne : new ≠ old) :
      Performed db (.updateExtractionResult old new)
        { db with
          extractionResults :=
            Rows.replace ExtractionResult.id db.extractionResults old.id new.stored }
  | updateReviewTask {old new : ReviewTask} (hne : new ≠ old) :
      Performed db (.updateReviewTask old new)
        { db with
          reviewTasks := Rows.replace ReviewTask.id db.reviewTasks old.id
            { new with version := old.version + 1 } }
  | updateDeadLetter {old new : DeadLetter} (hne : new ≠ old) :
      Performed db (.updateDeadLetter old new)
        { db with dlq := Rows.replace DeadLetter.id db.dlq old.id new }
  | updateSchema {old new row : Schema} (hrow : Rows.find Schema.id db.schemas old.id = some row) :
      Performed db (.updateSchema old new)
        { db with schemas := Rows.replace Schema.id db.schemas old.id (row.merge old new.stored) }
  | insertDocument {row : Document} :
      Performed db (.insertDocument row)
        { db with documents := db.documents ++ [row.stored], issued := row.id :: db.issued }
  | insertExtractionResult {row : ExtractionResult} :
      Performed db (.insertExtractionResult row)
        { db with
          extractionResults := db.extractionResults ++ [{ row.stored with id := db.nextId }]
          nextId := db.nextId + 1 }
  | insertGuardrailReport {row : GuardrailReport} :
      Performed db (.insertGuardrailReport row)
        { db with guardrailReports := db.guardrailReports ++ [row.stored] }
  | insertReviewTask {documentId tenantId : Uuid} {result : ExtractionResult}
      (hres : db.resultOf documentId = some result) :
      Performed db (.insertReviewTask documentId tenantId)
        { db with
          reviewTasks := db.reviewTasks ++
            [{ id := db.nextId, documentId, tenantId, extractionResultId := result.id }]
          nextId := db.nextId + 1 }
  | insertAuditLog {row : AuditLog} :
      Performed db (.insertAuditLog row) { db with auditLog := db.auditLog ++ [row] }
  | insertDeadLetter {row : DeadLetter} :
      Performed db (.insertDeadLetter row)
        { db with dlq := db.dlq ++ [{ row with id := db.nextId }], nextId := db.nextId + 1 }
  | insertWebhookDelivery {row : WebhookDelivery} :
      Performed db (.insertWebhookDelivery row)
        { db with webhookDeliveries := db.webhookDeliveries ++ [row] }
  | insertSchema {row : Schema} :
      Performed db (.insertSchema row) { db with schemas := db.schemas ++ [row.stored] }
  | insertSchemaVersion {row : SchemaVersion} :
      Performed db (.insertSchemaVersion row)
        { db with schemaVersions := db.schemaVersions ++ [row] }
  | deleteDocument {tenantId id : Uuid} {row : Document} (hrow : db.document? tenantId id = some row) :
      Performed db (.deleteDocument tenantId id) (db.cascade id)

theorem performed (db : Db) (w : Write) : Performed db w (w.perform db) := by
  cases w with
  | updateDocument old new =>
    simp only [Write.perform]; split_ifs with hne <;> [exact .idle; exact .updateDocument hne]
  | updateExtractionResult old new =>
    simp only [Write.perform]; split_ifs with hne <;> [exact .idle; exact .updateExtractionResult hne]
  | updateReviewTask old new =>
    simp only [Write.perform]; split_ifs with hne <;> [exact .idle; exact .updateReviewTask hne]
  | updateDeadLetter old new =>
    simp only [Write.perform]; split_ifs with hne <;> [exact .idle; exact .updateDeadLetter hne]
  | updateSchema old new =>
    simp only [Write.perform]
    split_ifs
    · exact .idle
    · cases hrow : Rows.find Schema.id db.schemas old.id with
      | none => exact .idle
      | some row => exact .updateSchema hrow
  | insertDocument row => exact .insertDocument
  | insertExtractionResult row => exact .insertExtractionResult
  | insertGuardrailReport row => exact .insertGuardrailReport
  | insertReviewTask documentId tenantId =>
    simp only [Write.perform]
    cases hres : db.resultOf documentId with
    | none => exact .idle
    | some result => exact .insertReviewTask hres
  | insertAuditLog row => exact .insertAuditLog
  | insertDeadLetter row => exact .insertDeadLetter
  | insertWebhookDelivery row => exact .insertWebhookDelivery
  | insertSchema row => exact .insertSchema
  | insertSchemaVersion row => exact .insertSchemaVersion
  | deleteDocument tenantId id =>
    simp only [Write.perform]
    cases hrow : db.document? tenantId id with
    | none => exact .idle
    | some row => exact .deleteDocument hrow

theorem performed_of_apply {w : Write} (h : w.apply db = .ok db') : Performed db w db' := by
  obtain ⟨-, rfl⟩ := Write.apply_ok.1 h
  exact performed db w

/-- A change of `documents` by one write. -/
inductive DocumentsChange (db db' : Db) : Write → Prop
  | same {w : Write} (h : db'.documents = db.documents) (hi : db'.issued = db.issued) :
      DocumentsChange db db' w
  | updated {old new row : Document} (hne : new ≠ old)
      (hrow : Rows.find Document.id db.documents old.id = some row)
      (hv : row.version = old.version)
      (h : db'.documents = Rows.replace Document.id db.documents old.id
        { new.stored with version := old.version + 1 })
      (hi : db'.issued = db.issued) : DocumentsChange db db' (.updateDocument old new)
  | inserted {row : Document} (hnew : row.id ∉ db.issued)
      (h : db'.documents = db.documents ++ [row.stored]) (hi : db'.issued = row.id :: db.issued) :
      DocumentsChange db db' (.insertDocument row)
  | deleted {tenantId id : Uuid} {row : Document} (hrow : db.document? tenantId id = some row)
      (h : db'.documents = Rows.delete Document.id db.documents id) (hi : db'.issued = db.issued) :
      DocumentsChange db db' (.deleteDocument tenantId id)

theorem documents_apply {w : Write} (h : w.apply db = .ok db') : DocumentsChange db db' w := by
  cases performed_of_apply h with
  | updateDocument hne =>
    obtain ⟨-, row, hrow, hv⟩ := (updateDocument_ok.1 h).1.resolve_left hne
    exact .updated hne hrow hv rfl rfl
  | insertDocument =>
    obtain ⟨hr, -⟩ := Write.apply_ok.1 h
    simp only [Write.refused] at hr
    split_ifs at hr with h₁
    exact .inserted h₁ rfl rfl
  | deleteDocument hrow => exact .deleted hrow rfl rfl
  | _ => exact .same rfl rfl

/-- Updates of documents keep the id. -/
def Write.KeepsId (w : Write) : Prop := ∀ old new, w = .updateDocument old new → new.id = old.id

/-- A change of the row of document `d` by one write. -/
inductive RowChange (d : Uuid) (db db' : Db) : Write → Prop
  | same {w : Write}
      (h : Rows.find Document.id db'.documents d = Rows.find Document.id db.documents d) :
      RowChange d db db' w
  | updated {old new row : Document} (hne : new ≠ old) (hid : old.id = d)
      (hrow : Rows.find Document.id db.documents d = some row) (hv : row.version = old.version)
      (h : Rows.find Document.id db'.documents d =
        some { new.stored with version := old.version + 1 }) :
      RowChange d db db' (.updateDocument old new)
  | inserted {row : Document} (hid : row.id = d) (hnew : d ∉ db.issued) :
      RowChange d db db' (.insertDocument row)
  | deleted {w : Write} (h : Rows.find Document.id db'.documents d = none) : RowChange d db db' w

theorem row_apply {d : Uuid} {w : Write} (hw : w.KeepsId) (h : w.apply db = .ok db') :
    RowChange d db db' w := by
  cases documents_apply h with
  | same hdocs hi => exact .same (by rw [hdocs])
  | @updated old new row hne hrow hv hdocs hi =>
    have hkey : Document.id { new.stored with version := old.version + 1 } = old.id := hw old new rfl
    by_cases hid : old.id = d
    · subst hid
      exact .updated hne rfl hrow hv (by rw [hdocs]; exact Rows.find_replace_self hrow hkey)
    · exact .same (by rw [hdocs]; exact Rows.find_replace_other _ hkey hid)
  | @inserted row hnew hdocs hi =>
    by_cases hid : row.id = d
    · subst hid; exact .inserted rfl hnew
    · exact .same (by rw [hdocs]; exact Rows.find_append_other (r := row.stored) _ hid)
  | @deleted tenantId id row hrow hdocs hi =>
    by_cases hid : id = d
    · subst hid; exact .deleted (by rw [hdocs]; exact Rows.find_delete_self _)
    · exact .same (by rw [hdocs]; exact Rows.find_delete_other _ hid)

/-- Ids that have been given out stay so. -/
theorem issued_mono {d : Uuid} {w : Write} (h : w.apply db = .ok db') (hd : d ∈ db.issued) :
    d ∈ db'.issued := by
  cases documents_apply h with
  | inserted hnew hdocs hi => rw [hi]; exact List.mem_cons_of_mem _ hd
  | same _ hi | updated _ _ _ _ hi | deleted _ _ hi => rw [hi]; exact hd

/-- **What updates keep of the row of document `d`**, every write keeps: the id
    has been given out, so none inserts the row. -/
theorem row_all_apply {d : Uuid} {P : Document → Prop} {w : Write} (hgiven : d ∈ db.issued)
    (hP : ∀ row, Rows.find Document.id db.documents d = some row → P row) (hw : w.KeepsId)
    (hupd : ∀ old new row, w = .updateDocument old new → new ≠ old → old.id = d →
      Rows.find Document.id db.documents d = some row → row.version = old.version →
        P { new.stored with version := old.version + 1 })
    (hdb : w.apply db = .ok db') :
    ∀ row, Rows.find Document.id db'.documents d = some row → P row := by
  intro row hrow
  cases row_apply (d := d) hw hdb with
  | same hfind => exact hP row (hfind ▸ hrow)
  | updated hne hid hrow' hv hfind =>
    cases Option.some.inj (hfind.symm.trans hrow)
    exact hupd _ _ _ rfl hne hid hrow' hv
  | inserted hid hnew => exact absurd hgiven hnew
  | deleted hfind =>
    rw [hfind] at hrow
    cases hrow

/-- A row that a deletion left is another tenant's. -/
theorem find_deleteDocument {t d : Uuid} {row : Document}
    (hdb : Write.apply db (.deleteDocument t d) = .ok db')
    (hrow : Rows.find Document.id db'.documents d = some row) :
    Rows.find Document.id db.documents d = some row ∧ row.tenantId ≠ t := by
  obtain ⟨-, rfl⟩ := Write.apply_ok.1 hdb
  simp only [Write.perform] at hrow
  cases hread : db.document? t d with
  | none =>
    rw [hread] at hrow
    refine ⟨hrow, ?_⟩
    rintro rfl
    simp [Db.document?, show Rows.find Document.id db.documents d = some row from hrow] at hread
  | some document =>
    rw [hread] at hrow
    rw [show Rows.find Document.id (db.cascade d).documents d = none from Rows.find_delete_self _] at hrow
    cases hrow

/-- The ids of all rows have been given out. -/
def Db.Issued (db : Db) : Prop := ∀ row ∈ db.documents, row.id ∈ db.issued

instance : DecidablePred Db.Issued := fun db => inferInstanceAs (Decidable (∀ row ∈ db.documents, _))

theorem issued_apply {w : Write} (h : db.Issued) (hw : w.KeepsId) (hdb : w.apply db = .ok db') :
    db'.Issued := by
  intro r hr
  cases documents_apply hdb with
  | same hdocs hi => rw [hdocs] at hr; rw [hi]; exact h r hr
  | @updated old new row hne hrow hv hdocs hi =>
    rw [hdocs] at hr
    rw [hi]
    rcases Rows.mem_replace hr with rfl | hr
    · have hrow' := h row (Rows.mem_of_find hrow)
      have hid : row.id = old.id := Rows.key_of_find hrow
      rw [hid, ← hw old new rfl] at hrow'
      exact hrow'
    · exact h r hr
  | @inserted row hnew hdocs hi =>
    rw [hdocs] at hr
    rw [hi]
    rcases List.mem_append.1 hr with hr | hr
    · exact List.mem_cons_of_mem _ (h r hr)
    · rw [List.mem_singleton.1 hr]
      exact List.mem_cons_self
  | deleted hrow hdocs hi =>
    rw [hdocs] at hr
    rw [hi]
    exact h r (Rows.mem_delete.1 hr).1

/-- Where a dead-letter row comes from. -/
theorem mem_dlq_apply {w : Write} (h : w.apply db = .ok db') {row : DeadLetter} (hrow : row ∈ db'.dlq) :
    row ∈ db.dlq ∨ (∃ old, w = .updateDeadLetter old row) ∨ row.id = db.nextId := by
  cases performed_of_apply h with
  | @updateDeadLetter old new hne =>
    rcases Rows.mem_replace hrow with rfl | hrow
    · exact Or.inr (Or.inl ⟨old, rfl⟩)
    · exact Or.inl hrow
  | insertDeadLetter =>
    rcases List.mem_append.1 hrow with hrow | hrow
    · exact Or.inl hrow
    · rw [List.mem_singleton.1 hrow]
      exact Or.inr (Or.inr rfl)
  | deleteDocument => exact Or.inl (Rows.mem_delete.1 hrow).1
  | _ => exact Or.inl hrow

/-- Where a review task comes from. -/
theorem mem_reviewTasks_apply {w : Write} (h : w.apply db = .ok db') {row : ReviewTask}
    (hrow : row ∈ db'.reviewTasks) :
    row ∈ db.reviewTasks ∨
      (∃ old new, w = .updateReviewTask old new ∧ row = { new with version := old.version + 1 }) ∨
      ∃ result, db.resultOf row.documentId = some result ∧
        w = .insertReviewTask row.documentId row.tenantId ∧
          row.extractionResultId = result.id ∧ row.id = db.nextId := by
  cases performed_of_apply h with
  | @updateReviewTask old new hne =>
    rcases Rows.mem_replace hrow with rfl | hrow
    · exact Or.inr (Or.inl ⟨old, new, rfl, rfl⟩)
    · exact Or.inl hrow
  | @insertReviewTask documentId tenantId result hres =>
    rcases List.mem_append.1 hrow with hrow | hrow
    · exact Or.inl hrow
    · rw [List.mem_singleton.1 hrow]
      exact Or.inr (Or.inr ⟨result, hres, rfl, rfl, rfl⟩)
  | deleteDocument => exact Or.inl (Rows.mem_delete.1 hrow).1
  | _ => exact Or.inl hrow

/-- Where an extraction result comes from. -/
theorem mem_extractionResults_apply {w : Write} (h : w.apply db = .ok db') {row : ExtractionResult}
    (hrow : row ∈ db'.extractionResults) :
    row ∈ db.extractionResults ∨
      (∃ old new, w = .updateExtractionResult old new ∧ row = new.stored ∧
        ∃ row' ∈ db.extractionResults, row'.id = old.id) ∨
      ∃ new, w = .insertExtractionResult new ∧ row = { new.stored with id := db.nextId } := by
  cases performed_of_apply h with
  | @updateExtractionResult old new hne =>
    rcases Rows.mem_replace hrow with rfl | hrow
    · obtain ⟨hr, -⟩ := Write.apply_ok.1 h
      simp only [Write.refused, if_neg hne] at hr
      cases hfind : Rows.find ExtractionResult.id db.extractionResults old.id with
      | none => simp [hfind] at hr
      | some row' =>
        exact Or.inr (Or.inl ⟨old, new, rfl, rfl, row', Rows.mem_of_find hfind,
          Rows.key_of_find hfind⟩)
    · exact Or.inl hrow
  | @insertExtractionResult new =>
    rcases List.mem_append.1 hrow with hrow | hrow
    · exact Or.inl hrow
    · exact Or.inr (Or.inr ⟨new, rfl, List.mem_singleton.1 hrow⟩)
  | deleteDocument => exact Or.inl (Rows.mem_delete.1 hrow).1
  | _ => exact Or.inl hrow

/-- Where an audit row comes from. -/
theorem mem_auditLog_apply {w : Write} (h : w.apply db = .ok db') {row : AuditLog}
    (hrow : row ∈ db'.auditLog) : row ∈ db.auditLog ∨ w = .insertAuditLog row := by
  cases performed_of_apply h with
  | insertAuditLog =>
    rcases List.mem_append.1 hrow with hrow | hrow
    · exact Or.inl hrow
    · rw [List.mem_singleton.1 hrow]
      exact Or.inr rfl
  | _ => exact Or.inl hrow

theorem mem_auditLog_commit {ws : List Write} (h : db.commit ws = .ok db') {row : AuditLog}
    (hrow : row ∈ db'.auditLog) : row ∈ db.auditLog ∨ .insertAuditLog row ∈ ws := by
  refine Db.commit_induction (P := fun db₁ => ∀ row ∈ db₁.auditLog, row ∈ db.auditLog ∨
    .insertAuditLog row ∈ ws) h (fun _ => Or.inl) (fun w hw db₁ db₂ h₁ h₂ row hrow => ?_) row hrow
  rcases mem_auditLog_apply h₂ hrow with hrow | rfl
  · exact h₁ row hrow
  · exact Or.inr hw

/-- Row ids are given out in order. -/
theorem nextId_mono {w : Write} (h : w.apply db = .ok db') : db.nextId ≤ db'.nextId := by
  cases performed_of_apply h with
  | insertExtractionResult | insertReviewTask | insertDeadLetter => exact Nat.le_succ _
  | _ => exact le_rfl

/-- A change of `schemas` by one write. -/
inductive SchemasChange (db db' : Db) : Write → Prop
  | same {w : Write} (h : db'.schemas = db.schemas) : SchemasChange db db' w
  | updated {old new row : Schema} (hrow : Rows.find Schema.id db.schemas old.id = some row)
      (h : db'.schemas = Rows.replace Schema.id db.schemas old.id (row.merge old new.stored)) :
      SchemasChange db db' (.updateSchema old new)
  | inserted {row : Schema} (h : db'.schemas = db.schemas ++ [row.stored]) :
      SchemasChange db db' (.insertSchema row)

theorem schemas_apply {w : Write} (h : w.apply db = .ok db') : SchemasChange db db' w := by
  cases performed_of_apply h with
  | updateSchema hrow => exact .updated hrow rfl
  | insertSchema => exact .inserted rfl
  | _ => exact .same rfl

end OcrService
