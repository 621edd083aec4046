/-
  Whose the rows are.

  Row-level security shows a tenant the rows that carry its `tenant_id`.  That
  these are the tenant's own, and stay so, rests on how ids are given out: an id
  of a document, a result, a review or a letter is given once, and no update
  changes id, tenant or document of a row.

  * `Db.OwnsDocument`, `Numbered`: an id is a tenant's, now and from now on (`Le`);
  * `Db.Sound`: every row refers to documents of its own tenant;
  * `Write.Fits`: a write by a tenant to its own rows;
  * `fits_commit`: transactions of such writes keep `Sound`, and everything owned.
-/
import OcrService.Db.Writes
import OcrService.Services.Ingest

namespace OcrService

/-! ## Owners -/

/-- The tenant of a row, and the document that it refers to. -/
def ExtractionResult.owner (r : ExtractionResult) : Uuid × Uuid := (r.tenantId, r.documentId)
def ReviewTask.owner (r : ReviewTask) : Uuid × Uuid := (r.tenantId, r.documentId)
def DeadLetter.owner (r : DeadLetter) : Uuid × Uuid := (r.tenantId, r.documentId)

/-- The file of a document is stored under its own key. -/
def Document.Keyed (r : Document) : Prop :=
  r.fileStorageKey = none ∨ r.fileStorageKey = some (storageKey r.tenantId r.id)

instance : DecidablePred Document.Keyed := fun _ => inferInstanceAs (Decidable (_ ∨ _))

/-- The id of document `d` has been given out, to a row of tenant `t`. -/
structure Given (issued : List Uuid) (documents : List Document) (t d : Uuid) : Prop where
  issued : d ∈ issued
  own : Rows.Says Document.id Document.tenantId documents d t

/-- Row id `k` has been given out (those below `next` are), to a row with `o` in the
    column. -/
structure Numbered {ρ α : Type} (id : ρ → RowId) (column : ρ → α) (next : RowId) (rows : List ρ)
    (k : RowId) (o : α) : Prop where
  issued : k < next
  own : Rows.Says id column rows k o

instance {issued : List Uuid} {documents : List Document} {t d : Uuid} :
    Decidable (Given issued documents t d) :=
  decidable_of_iff (issued.any (· = d) ∧ Rows.Says Document.id Document.tenantId documents d t)
    ⟨fun h => ⟨by simpa using h.1, h.2⟩, fun h => ⟨by simpa using h.issued, h.own⟩⟩

instance {ρ α : Type} [DecidableEq α] {id : ρ → RowId} {column : ρ → α} {next : RowId} {rows : List ρ}
    {k : RowId} {o : α} : Decidable (Numbered id column next rows k o) :=
  decidable_of_iff (_ ∧ _) ⟨fun h => ⟨h.1, h.2⟩, fun h => ⟨h.issued, h.own⟩⟩

namespace Db
variable (db : Db)

def OwnsDocument : Uuid → Uuid → Prop := Given db.issued db.documents

def OwnsSchema (t σ : Uuid) : Prop := Rows.Says Schema.id Schema.tenantId db.schemas σ t

def OwnsResult : RowId → Uuid × Uuid → Prop :=
  Numbered ExtractionResult.id ExtractionResult.owner db.nextId db.extractionResults

def OwnsReview : RowId → Uuid × Uuid → Prop :=
  Numbered ReviewTask.id ReviewTask.owner db.nextId db.reviewTasks

def OwnsLetter : RowId → Uuid × Uuid → Prop :=
  Numbered DeadLetter.id DeadLetter.owner db.nextId db.dlq

instance {t d : Uuid} : Decidable (db.OwnsDocument t d) := inferInstanceAs (Decidable (Given ..))
instance {t σ : Uuid} : Decidable (db.OwnsSchema t σ) := inferInstanceAs (Decidable (Rows.Says ..))
instance {k : RowId} {o : Uuid × Uuid} : Decidable (db.OwnsResult k o) :=
  inferInstanceAs (Decidable (Numbered ..))
instance {k : RowId} {o : Uuid × Uuid} : Decidable (db.OwnsReview k o) :=
  inferInstanceAs (Decidable (Numbered ..))
instance {k : RowId} {o : Uuid × Uuid} : Decidable (db.OwnsLetter k o) :=
  inferInstanceAs (Decidable (Numbered ..))

/-- Every row is its tenant's, and refers to a document of its tenant. -/
structure Sound : Prop where
  documents : ∀ r ∈ db.documents, db.OwnsDocument r.tenantId r.id ∧ r.Keyed
  schemas : ∀ r ∈ db.schemas, db.OwnsSchema r.tenantId r.id
  results : ∀ r ∈ db.extractionResults,
    db.OwnsResult r.id r.owner ∧ db.OwnsDocument r.tenantId r.documentId
  reviews : ∀ r ∈ db.reviewTasks, db.OwnsReview r.id r.owner ∧ db.OwnsDocument r.tenantId r.documentId
  letters : ∀ r ∈ db.dlq, db.OwnsLetter r.id r.owner ∧ db.OwnsDocument r.tenantId r.documentId
  reports : ∀ r ∈ db.guardrailReports, db.OwnsDocument r.tenantId r.documentId
  deliveries : ∀ r ∈ db.webhookDeliveries, db.OwnsDocument r.tenantId r.documentId

instance : Decidable db.Sound :=
  decidable_of_iff (_ ∧ _ ∧ _ ∧ _ ∧ _ ∧ _ ∧ _)
    ⟨fun ⟨h₁, h₂, h₃, h₄, h₅, h₆, h₇⟩ => ⟨h₁, h₂, h₃, h₄, h₅, h₆, h₇⟩,
      fun ⟨h₁, h₂, h₃, h₄, h₅, h₆, h₇⟩ => ⟨h₁, h₂, h₃, h₄, h₅, h₆, h₇⟩⟩

/-- What is owned in `db` is owned in `db'`. -/
structure Le (db db' : Db) : Prop where
  document : ∀ {t d}, db.OwnsDocument t d → db'.OwnsDocument t d
  schema : ∀ {t σ}, db.OwnsSchema t σ → db'.OwnsSchema t σ
  result : ∀ {k o}, db.OwnsResult k o → db'.OwnsResult k o
  review : ∀ {k o}, db.OwnsReview k o → db'.OwnsReview k o
  letter : ∀ {k o}, db.OwnsLetter k o → db'.OwnsLetter k o

variable {db} {db' db'' : Db}

theorem Le.refl : db.Le db := ⟨id, id, id, id, id⟩

theorem Le.trans (h : db.Le db') (h' : db'.Le db'') : db.Le db'' :=
  ⟨fun ho => h'.document (h.document ho), fun ho => h'.schema (h.schema ho),
    fun ho => h'.result (h.result ho), fun ho => h'.review (h.review ho),
    fun ho => h'.letter (h.letter ho)⟩

end Db

/-! ## Writes of one tenant -/

/-- A write by tenant `t` to rows of its own. -/
def Write.Fits (db : Db) (t : Uuid) : Write → Prop
  | .updateDocument old new =>
    db.OwnsDocument t old.id ∧ new.id = old.id ∧ new.tenantId = t ∧ new.Keyed
  | .updateExtractionResult old new =>
    db.OwnsResult old.id new.owner ∧ new.id = old.id ∧ new.tenantId = t ∧
      db.OwnsDocument t new.documentId
  | .updateReviewTask old new =>
    db.OwnsReview old.id new.owner ∧ new.id = old.id ∧ new.tenantId = t ∧
      db.OwnsDocument t new.documentId
  | .updateDeadLetter old new =>
    db.OwnsLetter old.id new.owner ∧ new.id = old.id ∧ new.tenantId = t ∧
      db.OwnsDocument t new.documentId
  | .updateSchema old _ => db.OwnsSchema t old.id
  | .insertDocument row => row.tenantId = t ∧ row.Keyed
  | .insertExtractionResult row => row.tenantId = t ∧ db.OwnsDocument t row.documentId
  | .insertGuardrailReport row => row.tenantId = t ∧ db.OwnsDocument t row.documentId
  | .insertReviewTask documentId tenantId => tenantId = t ∧ db.OwnsDocument t documentId
  | .insertAuditLog row => row.tenantId = t
  | .insertDeadLetter row => row.tenantId = t ∧ db.OwnsDocument t row.documentId
  | .insertWebhookDelivery row => row.tenantId = t ∧ db.OwnsDocument t row.documentId
  | .insertSchema _ => False
  | .insertSchemaVersion row => row.tenantId = t
  | .deleteDocument tenantId _ => tenantId = t

section
variable {ρ α : Type} {id : ρ → RowId} {column : ρ → α} {n : RowId} {rows : List ρ} {k : RowId} {o : α}
  {r : ρ} {db db' : Db} {t : Uuid} {w : Write} {ws : List Write}

/-! ### Numbered rows -/

theorem Numbered.append (h : Numbered id column n rows k o) (hr : id r = n) :
    Numbered id column (n + 1) (rows ++ [r]) k o :=
  ⟨h.issued.trans (Nat.lt_succ_self _), h.own.append fun hk => absurd (hk.symm.trans hr) h.issued.ne⟩

theorem Numbered.succ (h : Numbered id column n rows k o) : Numbered id column (n + 1) rows k o :=
  ⟨h.issued.trans (Nat.lt_succ_self _), h.own⟩

theorem Numbered.subset {rows' : List ρ} (h : Numbered id column n rows k o) (hrows : rows' ⊆ rows) :
    Numbered id column n rows' k o :=
  ⟨h.issued, h.own.subset hrows⟩

/-- The row with the next id is its column's. -/
theorem Numbered.new (hrows : ∀ r ∈ rows, id r < n) :
    Numbered id column (n + 1) (rows ++ [r]) n (column r) := by
  refine ⟨Nat.lt_succ_self _, fun r' hr' hk => ?_⟩
  rcases List.mem_append.1 hr' with hr' | hr'
  · exact absurd hk (hrows r' hr').ne
  · rw [List.mem_singleton.1 hr']

/-! ### What one write keeps -/

/-- **What is owned stays owned.** -/
theorem le_apply (hw : w.Fits db t) (h : w.apply db = .ok db') : db.Le db' := by
  cases performed_of_apply h with
  | idle | insertGuardrailReport | insertAuditLog | insertWebhookDelivery | insertSchemaVersion =>
    exact ⟨id, id, id, id, id⟩
  | @updateDocument old new =>
    obtain ⟨hold, hid, rfl, -⟩ := hw
    refine ⟨fun ho => ⟨ho.issued, ?_⟩, id, id, id, id⟩
    exact ho.own.replace (s := { new.stored with version := old.version + 1 }) hold.own hid
  | @updateExtractionResult old new =>
    obtain ⟨hold, hid, -, -⟩ := hw
    refine ⟨id, id, fun ho => ⟨ho.issued, ?_⟩, id, id⟩
    exact ho.own.replace (s := new.stored) hold.own hid
  | @updateReviewTask old new =>
    obtain ⟨hold, hid, -, -⟩ := hw
    refine ⟨id, id, id, fun ho => ⟨ho.issued, ?_⟩, id⟩
    exact ho.own.replace (s := { new with version := old.version + 1 }) hold.own hid
  | @updateDeadLetter old new =>
    obtain ⟨hold, hid, -, -⟩ := hw
    exact ⟨id, id, id, id, fun ho => ⟨ho.issued, ho.own.replace hold.own hid⟩⟩
  | @updateSchema old new row hrow =>
    refine ⟨id, fun ho => ?_, id, id, id⟩
    have hid : row.id = old.id := Rows.key_of_find hrow
    refine Rows.Says.replace (s := row.merge old new.stored) ho ?_ hid
    rw [show (row.merge old new.stored).tenantId = t from hw row (Rows.mem_of_find hrow) hid]
    exact hw
  | @insertDocument row =>
    have hnew : row.id ∉ db.issued := by
      cases documents_apply h with
      | inserted hnew => exact hnew
      | same hdocs => simp at hdocs
    refine ⟨fun {t' d} ho => ⟨List.mem_cons_of_mem _ ho.issued, ?_⟩, id, id, id, id⟩
    refine ho.own.append (r := row.stored) fun hd => ?_
    rw [show row.id = d from hd] at hnew
    exact absurd ho.issued hnew
  | insertExtractionResult =>
    exact ⟨id, id, fun ho => Numbered.append ho rfl, fun ho => Numbered.succ ho, fun ho => Numbered.succ ho⟩
  | insertReviewTask =>
    exact ⟨id, id, fun ho => Numbered.succ ho, fun ho => Numbered.append ho rfl, fun ho => Numbered.succ ho⟩
  | insertDeadLetter =>
    exact ⟨id, id, fun ho => Numbered.succ ho, fun ho => Numbered.succ ho, fun ho => Numbered.append ho rfl⟩
  | insertSchema => exact hw.elim
  | deleteDocument =>
    exact ⟨fun ho => ⟨ho.issued, ho.own.delete⟩, id, fun ho => ho.subset Rows.delete_subset,
      fun ho => ho.subset Rows.delete_subset, fun ho => ho.subset Rows.delete_subset⟩

theorem Write.Fits.mono (hle : db.Le db') (h : w.Fits db t) : w.Fits db' t := by
  cases w with
  | updateDocument => exact ⟨hle.document h.1, h.2⟩
  | updateExtractionResult => exact ⟨hle.result h.1, h.2.1, h.2.2.1, hle.document h.2.2.2⟩
  | updateReviewTask => exact ⟨hle.review h.1, h.2.1, h.2.2.1, hle.document h.2.2.2⟩
  | updateDeadLetter => exact ⟨hle.letter h.1, h.2.1, h.2.2.1, hle.document h.2.2.2⟩
  | updateSchema => exact hle.schema h
  | insertExtractionResult | insertGuardrailReport | insertReviewTask | insertDeadLetter |
      insertWebhookDelivery => exact ⟨h.1, hle.document h.2⟩
  | insertDocument | insertAuditLog | insertSchema | insertSchemaVersion | deleteDocument => exact h

theorem Db.Sound.issued (h : db.Sound) : db.Issued := fun r hr => (h.documents r hr).1.issued

/-- The rows of before are still their tenants'. -/
theorem sound_apply (hs : db.Sound) (hw : w.Fits db t) (h : w.apply db = .ok db') : db'.Sound := by
  have hle := le_apply hw h
  have hdocs : ∀ r ∈ db.documents, db'.OwnsDocument r.tenantId r.id ∧ r.Keyed :=
    fun r hr => ⟨hle.document (hs.documents r hr).1, (hs.documents r hr).2⟩
  have hschemas : ∀ r ∈ db.schemas, db'.OwnsSchema r.tenantId r.id :=
    fun r hr => hle.schema (hs.schemas r hr)
  have hresults : ∀ r ∈ db.extractionResults,
      db'.OwnsResult r.id r.owner ∧ db'.OwnsDocument r.tenantId r.documentId :=
    fun r hr => ⟨hle.result (hs.results r hr).1, hle.document (hs.results r hr).2⟩
  have hreviews : ∀ r ∈ db.reviewTasks,
      db'.OwnsReview r.id r.owner ∧ db'.OwnsDocument r.tenantId r.documentId :=
    fun r hr => ⟨hle.review (hs.reviews r hr).1, hle.document (hs.reviews r hr).2⟩
  have hletters : ∀ r ∈ db.dlq,
      db'.OwnsLetter r.id r.owner ∧ db'.OwnsDocument r.tenantId r.documentId :=
    fun r hr => ⟨hle.letter (hs.letters r hr).1, hle.document (hs.letters r hr).2⟩
  have hreports : ∀ r ∈ db.guardrailReports, db'.OwnsDocument r.tenantId r.documentId :=
    fun r hr => hle.document (hs.reports r hr)
  have hdeliveries : ∀ r ∈ db.webhookDeliveries, db'.OwnsDocument r.tenantId r.documentId :=
    fun r hr => hle.document (hs.deliveries r hr)
  cases performed_of_apply h with
  | idle => exact hs
  | insertAuditLog | insertSchemaVersion =>
    exact ⟨hdocs, hschemas, hresults, hreviews, hletters, hreports, hdeliveries⟩
  | @updateDocument old new =>
    obtain ⟨hold, hid, rfl, hkey⟩ := hw
    refine ⟨fun r hr => ?_, hschemas, hresults, hreviews, hletters, hreports, hdeliveries⟩
    rcases Rows.mem_replace hr with rfl | hr
    · exact ⟨hid ▸ hle.document hold, hkey⟩
    · exact hdocs r hr
  | @updateExtractionResult old new =>
    obtain ⟨hold, hid, rfl, hdoc⟩ := hw
    refine ⟨hdocs, hschemas, fun r hr => ?_, hreviews, hletters, hreports, hdeliveries⟩
    rcases Rows.mem_replace hr with rfl | hr
    · exact ⟨hid ▸ hle.result hold, hle.document hdoc⟩
    · exact hresults r hr
  | @updateReviewTask old new =>
    obtain ⟨hold, hid, rfl, hdoc⟩ := hw
    refine ⟨hdocs, hschemas, hresults, fun r hr => ?_, hletters, hreports, hdeliveries⟩
    rcases Rows.mem_replace hr with rfl | hr
    · exact ⟨hid ▸ hle.review hold, hle.document hdoc⟩
    · exact hreviews r hr
  | @updateDeadLetter old new =>
    obtain ⟨hold, hid, rfl, hdoc⟩ := hw
    refine ⟨hdocs, hschemas, hresults, hreviews, fun r hr => ?_, hreports, hdeliveries⟩
    rcases Rows.mem_replace hr with rfl | hr
    · exact ⟨hid ▸ hle.letter hold, hle.document hdoc⟩
    · exact hletters r hr
  | @updateSchema old new row hrow =>
    refine ⟨hdocs, fun r hr => ?_, hresults, hreviews, hletters, hreports, hdeliveries⟩
    rcases Rows.mem_replace hr with rfl | hr
    · exact hschemas row (Rows.mem_of_find hrow)
    · exact hschemas r hr
  | @insertDocument row =>
    have hnew : row.id ∉ db.issued := by
      cases documents_apply h with
      | inserted hnew => exact hnew
      | same hdocs => simp at hdocs
    refine ⟨fun r hr => ?_, hschemas, hresults, hreviews, hletters, hreports, hdeliveries⟩
    rcases List.mem_append.1 hr with hr | hr
    · exact hdocs r hr
    · rw [List.mem_singleton.1 hr]
      refine ⟨⟨List.mem_cons_self, fun r' hr' hid => ?_⟩, hw.2⟩
      -- the id had not been given out
      rcases List.mem_append.1 hr' with hr' | hr'
      · have hissued := (hs.documents r' hr').1.issued
        rw [show r'.id = row.id from hid] at hissued
        exact absurd hissued hnew
      · rw [List.mem_singleton.1 hr']
  | @insertExtractionResult row =>
    refine ⟨hdocs, hschemas, fun r hr => ?_, hreviews, hletters, hreports, hdeliveries⟩
    rcases List.mem_append.1 hr with hr | hr
    · exact hresults r hr
    · rw [List.mem_singleton.1 hr]
      refine ⟨?_, hw.1 ▸ hle.document hw.2⟩
      exact Numbered.new (fun r hr => (hs.results r hr).1.issued)
  | @insertReviewTask documentId tenantId result hres =>
    refine ⟨hdocs, hschemas, hresults, fun r hr => ?_, hletters, hreports, hdeliveries⟩
    rcases List.mem_append.1 hr with hr | hr
    · exact hreviews r hr
    · rw [List.mem_singleton.1 hr]
      refine ⟨?_, hw.1 ▸ hle.document hw.2⟩
      exact Numbered.new (fun r hr => (hs.reviews r hr).1.issued)
  | @insertDeadLetter row =>
    refine ⟨hdocs, hschemas, hresults, hreviews, fun r hr => ?_, hreports, hdeliveries⟩
    rcases List.mem_append.1 hr with hr | hr
    · exact hletters r hr
    · rw [List.mem_singleton.1 hr]
      refine ⟨?_, hw.1 ▸ hle.document hw.2⟩
      exact Numbered.new (fun r hr => (hs.letters r hr).1.issued)
  | @insertGuardrailReport row =>
    refine ⟨hdocs, hschemas, hresults, hreviews, hletters, fun r hr => ?_, hdeliveries⟩
    rcases List.mem_append.1 hr with hr | hr
    · exact hreports r hr
    · rw [List.mem_singleton.1 hr]
      exact hw.1 ▸ hle.document hw.2
  | @insertWebhookDelivery row =>
    refine ⟨hdocs, hschemas, hresults, hreviews, hletters, hreports, fun r hr => ?_⟩
    rcases List.mem_append.1 hr with hr | hr
    · exact hdeliveries r hr
    · rw [List.mem_singleton.1 hr]
      exact hw.1 ▸ hle.document hw.2
  | insertSchema => exact hw.elim
  | deleteDocument =>
    exact ⟨fun r hr => hdocs r (Rows.delete_subset hr), hschemas,
      fun r hr => hresults r (Rows.delete_subset hr),
      fun r hr => hreviews r (Rows.delete_subset hr),
      fun r hr => hletters r (Rows.delete_subset hr),
      fun r hr => hreports r (Rows.delete_subset hr),
      fun r hr => hdeliveries r (Rows.delete_subset hr)⟩

/-! ### What a transaction keeps -/

/-- **Transactions of fitting writes** keep `P` if each of them does in a sound
    database. -/
theorem fits_commit {P : Db → Prop} (hs : db.Sound) (hws : ∀ w ∈ ws, w.Fits db t)
    (h : db.commit ws = .ok db') (hP : P db)
    (hstep : ∀ w ∈ ws, ∀ db₁ db₂, db₁.Sound → w.Fits db₁ t → P db₁ → w.apply db₁ = .ok db₂ → P db₂) :
    db'.Sound ∧ db.Le db' ∧ P db' := by
  refine Db.commit_induction (P := fun db₁ => db₁.Sound ∧ db.Le db₁ ∧ P db₁) h ⟨hs, .refl, hP⟩ ?_
  rintro w hw db₁ db₂ ⟨hs₁, hle₁, hP₁⟩ happly
  have hfits := (hws w hw).mono hle₁
  exact ⟨sound_apply hs₁ hfits happly, hle₁.trans (le_apply hfits happly),
    hstep w hw db₁ db₂ hs₁ hfits hP₁ happly⟩

/-- The transaction of `create_document`: its update fits once the row is there. -/
theorem fits_create {document : Document} {P : Db → Prop} (hs : db.Sound)
    (ht : document.tenantId = t) (hkey : document.fileStorageKey = none)
    (h : db.commit (createWrites document) = .ok db') (hP : P db)
    (hstep : ∀ w ∈ createWrites document, ∀ db₁ db₂, db₁.Sound → w.Fits db₁ t → P db₁ →
      w.apply db₁ = .ok db₂ → P db₂) : db'.Sound ∧ db.Le db' ∧ P db' := by
  subst ht
  obtain ⟨db₁, h₁, h₂⟩ := Db.commit_cons_ok.1 h
  have hinsert : Write.Fits db document.tenantId (.insertDocument document) := ⟨rfl, Or.inl hkey⟩
  have hs₁ := sound_apply hs hinsert h₁
  have hmem : document.stored ∈ db₁.documents := by
    obtain ⟨-, rfl⟩ := Write.apply_ok.1 h₁
    exact List.mem_append_right _ List.mem_cons_self
  have hupdate : ∀ w ∈ [Write.updateDocument document
      { document with fileStorageKey := some (storageKey document.tenantId document.id) }],
      w.Fits db₁ document.tenantId := by
    intro w hw
    rw [List.mem_singleton.1 hw]
    exact ⟨(hs₁.documents _ hmem).1, rfl, rfl, Or.inr rfl⟩
  have hP₁ := hstep _ List.mem_cons_self _ _ hs hinsert hP h₁
  obtain ⟨hs₂, hle, hP₂⟩ := fits_commit hs₁ hupdate h₂ hP₁
    fun w hw => hstep w (List.mem_cons_of_mem _ hw)
  exact ⟨hs₂, (le_apply hinsert h₁).trans hle, hP₂⟩

end

end OcrService
