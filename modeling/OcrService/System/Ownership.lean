/-
  Whose the tasks' changes are.

  Every task works for one tenant.  It reads that tenant's rows only, and holds
  copies of them over its awaits (`Task.Mine`); so every change it makes is to
  rows, checkpoints, points and blobs of that tenant (`Change.Fits`), whatever
  the other tasks do in between.

  * `move_mine`: one step;
  * `apply_fits`: a change that fits keeps everything owned;
  * `reach_mine`: every run of the service.
-/
import OcrService.System.Transactions
import OcrService.Db.Owners

namespace OcrService

open Trans PyData

/-- The tenant that a task works for. -/
def Task.tenantId : Task → Uuid
  | .run r => r.tenantId
  | .webhook t => t.tenantId
  | .erase e => e.tenantId
  | .review q => q.tenantId
  | .extract x => x.tenantId
  | .retry y => y.tenantId
  | .schema c => c.tenantId

/-! ## What a task holds -/

section
variable (db : Db)

/-- A copy of a document of tenant `t`. -/
structure MyDocument (t : Uuid) (r : Document) : Prop where
  tenant : r.tenantId = t
  keyed : r.Keyed
  owns : db.OwnsDocument t r.id

/-- A row id with its owner, tenant `t`. -/
structure MyRow (owns : RowId → Uuid × Uuid → Prop) (t : Uuid) (k : RowId) (o : Uuid × Uuid) : Prop where
  tenant : o.1 = t
  row : owns k o
  document : db.OwnsDocument t o.2

/-- A review under way, of tenant `t`. -/
structure MyDraft (t : Uuid) (draft : ReviewDraft) : Prop where
  review : MyRow db db.OwnsReview t draft.old.id draft.old.owner
  id : draft.new.id = draft.old.id
  owner : draft.new.owner = draft.old.owner
  extraction : ∀ w ∈ draft.extraction, w.Fits db t

def RunTask.Mine (r : RunTask) : Prop :=
  match r.pc with
  | .loadDocument | .release _ | .done _ => True
  | .loadSchema document | .guard _ document =>
    MyDocument db r.tenantId document ∧ document.id = r.documentId
  | .commit _ ws => db.OwnsDocument r.tenantId r.documentId ∧ ∀ w ∈ ws, w.Fits db r.tenantId
  | _ => db.OwnsDocument r.tenantId r.documentId

def WebhookTask.Mine (t : WebhookTask) : Prop :=
  match t.pc with
  | .document | .done _ => True
  | .post _ _ _ ws | .commit ws =>
    db.OwnsDocument t.tenantId t.documentId ∧ ∀ w ∈ ws, w.Fits db t.tenantId
  | _ => db.OwnsDocument t.tenantId t.documentId

def EraseTask.Mine (e : EraseTask) : Prop :=
  match e.pc with
  | .register | .read | .done _ => True
  | .commitCancelled document => MyDocument db e.tenantId document ∧ document.id = e.documentId
  | .deleteBlob storageKey? =>
    db.OwnsDocument e.tenantId e.documentId ∧
      (storageKey? = none ∨ storageKey? = some (storageKey e.tenantId e.documentId))
  | _ => db.OwnsDocument e.tenantId e.documentId

def ReviewRequest.Mine (q : ReviewRequest) : Prop :=
  match q.pc with
  | .readReview | .done _ => True
  | .readExtraction draft _ | .readExampleDocument draft _ | .upsert draft _ _ | .readDocument draft =>
    MyDraft db q.tenantId draft
  | .commit ws => ∀ w ∈ ws, w.Fits db q.tenantId

def ExtractRequest.Mine (x : ExtractRequest) : Prop :=
  match x.pc with
  | .saveBlob document | .commit document =>
    document.tenantId = x.tenantId ∧ document.fileStorageKey = none
  | _ => True

def RetryRequest.Mine (y : RetryRequest) : Prop :=
  match y.pc with
  | .readDocument entry => MyRow db db.OwnsLetter y.tenantId entry.id entry.owner
  | .enqueue entry document | .commit entry document =>
    MyRow db db.OwnsLetter y.tenantId entry.id entry.owner ∧
      ∀ row ∈ document, MyDocument db y.tenantId row
  | _ => True

def SchemaRequest.Mine (c : SchemaRequest) : Prop :=
  match c.pc with
  | .upsert schema _ => db.OwnsSchema c.tenantId schema.id
  | .commit ws => ∀ w ∈ ws, w.Fits db c.tenantId
  | _ => True

/-- Everything a task holds is its tenant's. -/
def Task.Mine : Task → Prop
  | .run r => r.Mine db
  | .webhook t => t.Mine db
  | .erase e => e.Mine db
  | .review q => q.Mine db
  | .extract x => x.Mine
  | .retry y => y.Mine db
  | .schema c => c.Mine db

/-- A change by a task of tenant `t` to what is `t`'s. -/
def Change.Fits (t : Uuid) : Change → Prop
  | .idle | .cancel _ _ | .clear _ _ => True
  | .commit ws =>
    (∀ w ∈ ws, w.Fits db t) ∨
      ∃ document : Document, ws = createWrites document ∧ document.tenantId = t ∧
        document.fileStorageKey = none
  | .saveCheckpoint checkpoint => db.OwnsDocument t checkpoint.threadId
  | .purgeCheckpoints threadId => db.OwnsDocument t threadId
  | .upsertPoint point => point.tenantId = t
  | .deletePoints tenantId _ => tenantId = t
  | .saveBlob blob => ∃ d, blob.key = storageKey t d
  | .deleteBlob key => ∃ d, key = storageKey t d
  | .acquire _ tenantId | .release _ tenantId => tenantId = t

end

section
variable {S : Site} {w : World} {db db' : Db} {t : Uuid} {x : Task}

theorem MyDocument.mono {r : Document} (hle : db.Le db') (h : MyDocument db t r) : MyDocument db' t r :=
  ⟨h.tenant, h.keyed, hle.document h.owns⟩

theorem MyDraft.mono {draft : ReviewDraft} (hle : db.Le db') (h : MyDraft db t draft) :
    MyDraft db' t draft :=
  ⟨⟨h.review.tenant, hle.review h.review.row, hle.document h.review.document⟩, h.id, h.owner,
    fun w hw => (h.extraction w hw).mono hle⟩

/-- **What a task holds stays its tenant's** as long as what is owned stays owned. -/
theorem Task.Mine.mono (hle : db.Le db') (h : x.Mine db) : x.Mine db' := by
  have hfits {t : Uuid} {ws : List Write} (h : ∀ w ∈ ws, w.Fits db t) : ∀ w ∈ ws, w.Fits db' t :=
    fun w hw => (h w hw).mono hle
  have hletter {t : Uuid} {entry : DeadLetter} (h : MyRow db db.OwnsLetter t entry.id entry.owner) :
      MyRow db' db'.OwnsLetter t entry.id entry.owner :=
    ⟨h.tenant, hle.letter h.row, hle.document h.document⟩
  cases x with
  | run r =>
    show r.Mine db'
    replace h : r.Mine db := h
    unfold RunTask.Mine at h ⊢
    cases hpc : r.pc <;> simp only [hpc] at h ⊢
    case loadSchema | guard => exact ⟨h.1.mono hle, h.2⟩
    case commit => exact ⟨hle.document h.1, hfits h.2⟩
    all_goals exact hle.document h
  | webhook y =>
    show y.Mine db'
    replace h : y.Mine db := h
    unfold WebhookTask.Mine at h ⊢
    cases hpc : y.pc <;> simp only [hpc] at h ⊢
    case post | commit => exact ⟨hle.document h.1, hfits h.2⟩
    all_goals exact hle.document h
  | erase e =>
    show e.Mine db'
    replace h : e.Mine db := h
    unfold EraseTask.Mine at h ⊢
    cases hpc : e.pc <;> simp only [hpc] at h ⊢
    case commitCancelled => exact ⟨h.1.mono hle, h.2⟩
    case deleteBlob => exact ⟨hle.document h.1, h.2⟩
    all_goals exact hle.document h
  | review q =>
    show q.Mine db'
    replace h : q.Mine db := h
    unfold ReviewRequest.Mine at h ⊢
    cases hpc : q.pc <;> simp only [hpc] at h ⊢
    case commit => exact hfits h
    all_goals exact h.mono hle
  | extract => exact h
  | retry y =>
    show y.Mine db'
    replace h : y.Mine db := h
    unfold RetryRequest.Mine at h ⊢
    cases hpc : y.pc <;> simp only [hpc] at h ⊢
    case readDocument => exact hletter h
    all_goals exact ⟨hletter h.1, fun row hrow => (h.2 row hrow).mono hle⟩
  | schema c =>
    show c.Mine db'
    replace h : c.Mine db := h
    unfold SchemaRequest.Mine at h ⊢
    cases hpc : c.pc <;> simp only [hpc] at h ⊢
    case upsert => exact hle.schema h
    case commit => exact hfits h

theorem Task.Fresh.mine (h : x.Fresh) : x.Mine db := by
  cases x <;> simp_all [Task.Fresh, Task.Mine, RunTask.Mine, WebhookTask.Mine, EraseTask.Mine,
    ReviewRequest.Mine, ExtractRequest.Mine, RetryRequest.Mine, SchemaRequest.Mine]

/-! ## What a task reads -/

theorem mine_document? (hs : db.Sound) {d : Uuid} {r : Document} (h : db.document? t d = some r) :
    MyDocument db t r ∧ r.id = d := by
  obtain ⟨hid, htenant, hfind⟩ := find_of_document? h
  obtain ⟨howns, hkeyed⟩ := hs.documents r (Rows.mem_of_find hfind)
  exact ⟨⟨htenant, hkeyed, htenant ▸ howns⟩, hid⟩

theorem mine_reviewTask? (hs : db.Sound) {k : RowId} {r : ReviewTask} (h : db.reviewTask? t k = some r) :
    MyRow db db.OwnsReview t r.id r.owner := by
  obtain ⟨hrow, hdoc⟩ := hs.reviews r (Rows.mem_of_find (Option.filter_eq_some_iff.1 h).1)
  have htenant := (reviewTask?_eq h).2
  exact ⟨htenant, hrow, htenant ▸ hdoc⟩

theorem mine_deadLetter? (hs : db.Sound) {k : RowId} {r : DeadLetter} (h : db.deadLetter? t k = some r) :
    MyRow db db.OwnsLetter t r.id r.owner := by
  obtain ⟨hrow, hdoc⟩ := hs.letters r (Rows.mem_of_find (Option.filter_eq_some_iff.1 h).1)
  have htenant := (deadLetter?_eq h).2
  exact ⟨htenant, hrow, htenant ▸ hdoc⟩

theorem mine_extractionResult? (hs : db.Sound) {k : RowId} {r : ExtractionResult}
    (h : db.extractionResult? t k = some r) : MyRow db db.OwnsResult t r.id r.owner := by
  obtain ⟨hfind, htenant⟩ := Option.filter_eq_some_iff.1 h
  obtain ⟨hrow, hdoc⟩ := hs.results r (Rows.mem_of_find hfind)
  have htenant : r.tenantId = t := by simpa using htenant
  exact ⟨htenant, hrow, htenant ▸ hdoc⟩

theorem mine_schema? (hs : db.Sound) {σ : Uuid} {r : Schema} (h : db.schema? t σ = some r) :
    r.tenantId = t ∧ db.OwnsSchema t r.id := by
  have htenant := (schema?_eq h).2
  exact ⟨htenant, htenant ▸ hs.schemas r (Rows.mem_of_find (Option.filter_eq_some_iff.1 h).1)⟩

/-! ## What a task writes -/

theorem fits_persistWrites {nonces : ℕ → Bytes} {document : Document} {f : ExtractionState}
    {ws : List Write} (hdoc : MyDocument db t document)
    (h : persistWrites S t nonces document f = .ok ws) : ∀ w ∈ ws, w.Fits db t := by
  unfold persistWrites at h
  cases hst : statusWrites S document.id t nonces f with
  | error e => rw [hst] at h; cases h
  | ok rows =>
    rw [hst] at h
    cases h
    have hrows : ∀ w ∈ rows, w.Fits db t := by
      unfold statusWrites at hst
      cases hstatus : finalStatus f <;> simp only [hstatus] at hst
      case completed | review =>
        cases he : encryptedExtraction S t nonces f with
        | error e => rw [he] at hst; cases hst
        | ok extracted =>
          rw [he] at hst
          cases hst
          simp [Write.Fits, extractionResult, hdoc.owns]
      case rejected | error => cases hst; simp [Write.Fits, deadLetter, hdoc.owns]
      all_goals cases hst; simp
    intro w hw
    simp only [List.cons_append, List.append_assoc, List.mem_cons, List.mem_append, List.not_mem_nil,
      or_false] at hw
    rcases hw with rfl | hw | hw | rfl
    · exact ⟨hdoc.owns, rfl, hdoc.tenant, hdoc.keyed⟩
    · obtain ⟨report, -, rfl⟩ := List.mem_map.1 hw
      exact ⟨rfl, hdoc.owns⟩
    · exact hrows w hw
    · rfl

theorem fits_updateDocument {document : Document} {status : DocumentStatus}
    (h : MyDocument db t document) :
    Write.Fits db t (.updateDocument document { document with status }) :=
  ⟨h.owns, rfl, h.tenant, h.keyed⟩

theorem fits_finishWrites {q : ReviewRequest} {draft : ReviewDraft} {document : Option Document}
    (hdraft : MyDraft db q.tenantId draft) (hdoc : ∀ row ∈ document, MyDocument db q.tenantId row) :
    ∀ w ∈ q.finishWrites S draft document, w.Fits db q.tenantId := by
  intro w hw
  simp only [ReviewRequest.finishWrites, List.cons_append, List.mem_cons, List.mem_append,
    List.not_mem_nil, or_false] at hw
  rcases hw with rfl | (hw | hw) | rfl
  · have howner := hdraft.owner
    refine ⟨howner ▸ hdraft.review.row, hdraft.id, ?_, ?_⟩
    · exact (congrArg Prod.fst howner).trans hdraft.review.tenant
    · rw [show draft.new.documentId = draft.old.documentId from congrArg Prod.snd howner]
      exact hdraft.review.document
  · exact hdraft.extraction w hw
  · cases document with
    | none => cases hw
    | some row =>
      rw [List.mem_singleton.1 hw]
      exact fits_updateDocument (hdoc row rfl)
  · rfl

theorem fits_retryWrites {entry : DeadLetter} {document : Option Document}
    (hentry : MyRow db db.OwnsLetter t entry.id entry.owner)
    (hdoc : ∀ row ∈ document, MyDocument db t row) : ∀ w ∈ retryWrites entry document, w.Fits db t := by
  intro w hw
  rcases mem_retryWrites hw with rfl | ⟨row, rfl, rfl⟩
  · exact ⟨hentry.row, rfl, hentry.tenant, hentry.document⟩
  · exact fits_updateDocument (hdoc row rfl)

/-! ## One step -/

theorem fits_write {r : RunTask} (p : RunPoint) (s : ExtractionState)
    (h : w.db.OwnsDocument r.tenantId r.documentId) : (r.write p s).Fits w.db r.tenantId := by
  rcases RunTask.write_cases (r := r) p s with hc | hc <;> rw [hc]
  · trivial
  · exact h

/-- The steps of a run. -/
theorem RunTask.move_mine {r : RunTask} (hs : w.db.Sound) (h : r.Mine w.db) :
    (r.move S w).task.Mine w.db ∧ (r.move S w).change.Fits w.db r.tenantId := by
  have hfail : r.fail.task.Mine w.db ∧ r.fail.change.Fits w.db r.tenantId := ⟨trivial, trivial⟩
  unfold RunTask.Mine at h
  cases hpc : r.pc <;> simp only [hpc] at h <;> simp only [RunTask.move, hpc]
  case loadDocument =>
    split_ifs
    · exact hfail
    · cases hrow : w.db.document? r.tenantId r.documentId with
      | none => exact ⟨trivial, trivial⟩
      | some document => exact ⟨mine_document? hs hrow, trivial⟩
  case loadSchema document =>
    have howns : w.db.OwnsDocument r.tenantId r.documentId := h.2 ▸ h.1.owns
    split_ifs <;> [exact hfail; exact ⟨howns, trivial⟩]
  case openSaver => split_ifs <;> [exact hfail; exact ⟨h, trivial⟩]
  case saveInput => split_ifs <;> [exact hfail; exact ⟨h, fits_write _ _ h⟩]
  case node n s unsaved =>
    split_ifs
    · exact hfail
    · cases (n.run r.env.K s).result with
      | error e => exact hfail
      | ok u => exact ⟨h, trivial⟩
  case save n s unsaved =>
    have hnext (b : Bool) : (r.goto (.afterNode n s b)).Mine w.db := by
      unfold RunPc.afterNode
      cases n.next s <;> exact h
    exact ⟨hnext _, fits_write _ _ h⟩
  case closeSaver => split_ifs <;> [exact hfail; exact ⟨h, trivial⟩]
  case persist s =>
    split_ifs
    · exact hfail
    · cases hrow : w.db.document? r.tenantId r.documentId with
      | none => exact ⟨h, trivial⟩
      | some document => exact ⟨mine_document? hs hrow, trivial⟩
  case guard s document =>
    have howns : w.db.OwnsDocument r.tenantId r.documentId := h.2 ▸ h.1.owns
    unfold RunTask.persistOutcome
    split_ifs
    · exact ⟨howns, trivial⟩
    · cases hws : persistWrites S r.tenantId r.env.nonces document s with
      | error e => exact hfail
      | ok ws => exact ⟨⟨howns, fits_persistWrites h.1 hws⟩, trivial⟩
  case commit s ws =>
    split_ifs
    · exact hfail
    · cases w.db.commit ws with
      | error e => exact hfail
      | ok db => exact ⟨h.1, Or.inl h.2⟩
  case persisted => exact ⟨trivial, trivial⟩
  case release => exact ⟨trivial, rfl⟩
  case done => exact ⟨by simp [RunTask.Mine, hpc], trivial⟩

/-- The steps of a webhook delivery. -/
theorem WebhookTask.move_mine {y : WebhookTask} (hs : w.db.Sound) (h : y.Mine w.db) :
    (y.move S w).task.Mine w.db ∧ (y.move S w).change.Fits w.db y.tenantId := by
  unfold WebhookTask.Mine at h
  cases hpc : y.pc <;> simp only [hpc] at h <;> simp only [WebhookTask.move, hpc]
  case document =>
    split_ifs
    · exact ⟨trivial, trivial⟩
    · cases hrow : w.db.document? y.tenantId y.documentId with
      | none => exact ⟨trivial, trivial⟩
      | some document =>
        obtain ⟨hmine, hid⟩ := mine_document? hs hrow
        have howns := hmine.owns
        rw [hid] at howns
        exact ⟨howns, trivial⟩
  case tenant document =>
    repeat' split
    all_goals first
      | exact ⟨h, trivial⟩
      | exact ⟨trivial, trivial⟩
  case extraction document url secret =>
    split_ifs
    · exact ⟨trivial, trivial⟩
    · exact ⟨⟨h, fun w hw => absurd hw List.not_mem_nil⟩, trivial⟩
  case post request attempt last rows =>
    obtain ⟨howns, hrows⟩ := h
    have hrow (attempt : ℕ) (status : Option ℕ) (error : Option String) :
        ∀ wr ∈ rows ++ [y.attemptRow attempt status error], wr.Fits w.db y.tenantId := by
      intro wr hwr
      rcases List.mem_append.1 hwr with hwr | hwr
      · exact hrows wr hwr
      · rw [List.mem_singleton.1 hwr]
        exact ⟨rfl, howns⟩
    have hattempted (attempt : ℕ) (status : Option ℕ) (error : Option String) :
        ({ y with pc := y.attempted S request attempt status error rows } : WebhookTask).Mine w.db := by
      unfold WebhookTask.attempted
      split_ifs
      · refine ⟨howns, fun wr hwr => ?_⟩
        rw [List.append_cons] at hwr
        rcases List.mem_append.1 hwr with hwr | hwr
        · exact hrow attempt status error wr hwr
        · rw [List.mem_singleton.1 hwr]
          rfl
      · exact ⟨howns, hrow attempt status error⟩
    split_ifs
    · refine ⟨⟨howns, fun wr hwr => ?_⟩, trivial⟩
      rcases List.mem_append.1 hwr with hwr | hwr
      · exact hrows wr hwr
      · simp only [WebhookTask.exhausted, List.mem_cons, List.not_mem_nil, or_false] at hwr
        rcases hwr with rfl | rfl
        · exact ⟨rfl, howns⟩
        · rfl
    · cases y.env.post attempt with
      | status code => exact ⟨hattempted attempt (some code) none, trivial⟩
      | error text => exact ⟨hattempted attempt none (some text), trivial⟩
      | otherException => exact ⟨trivial, trivial⟩
  case commit ws =>
    split_ifs
    · exact ⟨trivial, trivial⟩
    · cases w.db.commit ws with
      | error e => exact ⟨trivial, trivial⟩
      | ok db => exact ⟨trivial, Or.inl h.2⟩
  case done => exact ⟨by simp [WebhookTask.Mine, hpc], trivial⟩

/-- The steps of an erasure. -/
theorem EraseTask.move_mine {e : EraseTask} (hs : w.db.Sound) (h : e.Mine w.db) :
    (e.move S w).task.Mine w.db ∧ (e.move S w).change.Fits w.db e.tenantId := by
  unfold EraseTask.Mine at h
  cases hpc : e.pc <;> simp only [hpc] at h <;> simp only [EraseTask.move, hpc]
  case register => exact ⟨trivial, trivial⟩
  case read =>
    split_ifs
    · exact ⟨trivial, trivial⟩
    · cases hrow : w.db.document? e.tenantId e.documentId with
      | none => exact ⟨trivial, trivial⟩
      | some document => exact ⟨mine_document? hs hrow, trivial⟩
  case commitCancelled document =>
    obtain ⟨hdoc, hid⟩ := h
    split_ifs
    · exact ⟨trivial, trivial⟩
    · cases w.db.commit (EraseTask.cancelWrites document) with
      | error e => exact ⟨trivial, trivial⟩
      | ok db =>
        have hkeyed := hdoc.keyed
        rw [Document.Keyed, hdoc.tenant, hid] at hkeyed
        refine ⟨⟨hid ▸ hdoc.owns, hkeyed⟩, Or.inl fun wr hwr => ?_⟩
        rw [List.mem_singleton.1 hwr]
        exact fits_updateDocument hdoc
  case deleteBlob key =>
    obtain ⟨howns, hkey⟩ := h
    refine ⟨howns, ?_⟩
    rcases hkey with rfl | rfl
    · trivial
    · split
      · trivial
      · trivial
      · rename_i key hkey
        split_ifs
        · trivial
        · exact ⟨e.documentId, (Option.some.inj hkey).symm⟩
  case deletePoints => exact ⟨h, by split_ifs <;> [trivial; rfl]⟩
  case purge => split_ifs <;> [exact ⟨trivial, trivial⟩; exact ⟨h, h⟩]
  case delete =>
    split_ifs
    · exact ⟨trivial, trivial⟩
    · cases w.db.commit (e.deleteWrites S) with
      | error e => exact ⟨trivial, trivial⟩
      | ok db =>
        refine ⟨h, Or.inl fun wr hwr => ?_⟩
        simp only [EraseTask.deleteWrites, List.mem_cons, List.not_mem_nil, or_false] at hwr
        rcases hwr with rfl | rfl <;> rfl
  case clear => exact ⟨trivial, trivial⟩
  case done => exact ⟨by simp [EraseTask.Mine, hpc], trivial⟩

/-- The steps of a review request. -/
theorem ReviewRequest.move_mine {q : ReviewRequest} (hs : w.db.Sound) (h : q.Mine w.db) :
    (q.move S w).task.Mine w.db ∧ (q.move S w).change.Fits w.db q.tenantId := by
  unfold ReviewRequest.Mine at h
  cases hpc : q.pc <;> simp only [hpc] at h <;> simp only [ReviewRequest.move, hpc]
  case readReview =>
    split_ifs
    · exact ⟨trivial, trivial⟩
    · cases hrow : w.db.reviewTask? q.tenantId q.reviewId with
      | none => exact ⟨trivial, trivial⟩
      | some review =>
        have hreview := mine_reviewTask? hs hrow
        dsimp only
        split_ifs
        · exact ⟨trivial, trivial⟩
        · refine ⟨?_, trivial⟩
          have hnil : ∀ wr ∈ ([] : List Write), wr.Fits w.db q.tenantId := by simp
          unfold ReviewRequest.begin
          cases haction : q.action with
          | accept => exact ⟨hreview, rfl, rfl, hnil⟩
          | reject reason => exact ⟨hreview, rfl, rfl, hnil⟩
          | unknown action => trivial
          | correct corrections =>
            obtain _ | _ | ⟨c, cs⟩ := corrections
            · trivial
            · trivial
            · exact ⟨hreview, rfl, rfl, hnil⟩
  case readExtraction draft corrections =>
    split_ifs
    · exact ⟨trivial, trivial⟩
    · cases hrow : w.db.extractionResult? q.tenantId draft.old.extractionResultId with
      | none => exact ⟨h, trivial⟩
      | some extraction =>
        have hmine := mine_extractionResult? hs hrow
        dsimp only
        cases extraction.extractedJson with
        | none => exact ⟨h, trivial⟩
        | some extracted =>
          refine ⟨⟨h.review, h.id, h.owner, fun wr hwr => ?_⟩, trivial⟩
          rw [List.mem_singleton.1 hwr]
          exact ⟨hmine.row, rfl, hmine.tenant, hmine.document⟩
  case readExampleDocument draft corrected =>
    split_ifs
    · exact ⟨h, trivial⟩
    · exact ⟨h, trivial⟩
  case upsert draft corrected document => exact ⟨h, by split_ifs <;> [trivial; rfl]⟩
  case readDocument draft =>
    split_ifs
    · exact ⟨trivial, trivial⟩
    · exact ⟨fits_finishWrites h fun row hrow => (mine_document? hs hrow).1, trivial⟩
  case commit ws =>
    split_ifs
    · exact ⟨trivial, trivial⟩
    · cases w.db.commit ws with
      | error e => exact ⟨trivial, trivial⟩
      | ok db => exact ⟨trivial, Or.inl h⟩
  case done => exact ⟨by simp [ReviewRequest.Mine, hpc], trivial⟩

/-- The steps of an extract request. -/
theorem ExtractRequest.move_mine {x : ExtractRequest} (h : x.Mine) :
    (x.move S w).task.Mine ∧ (x.move S w).change.Fits w.db x.tenantId := by
  unfold ExtractRequest.Mine at h
  cases hpc : x.pc <;> simp only [hpc] at h <;> simp only [ExtractRequest.move, hpc]
  case readTenant => split_ifs <;> exact ⟨trivial, trivial⟩
  case acquire limit => split_ifs <;> [exact ⟨trivial, trivial⟩; exact ⟨trivial, rfl⟩]
  case create =>
    cases hdoc : createDocument S w.db x.tenantId x.documentId x.upload with
    | error e => exact ⟨trivial, trivial⟩
    | ok document =>
      dsimp only
      split_ifs
      · exact ⟨trivial, trivial⟩
      · refine ⟨?_, trivial⟩
        unfold createDocument at hdoc
        split at hdoc
        · cases hdoc
        · cases hschema : resolveActiveSchema w.db x.tenantId x.upload.schemaName with
          | error e => rw [hschema] at hdoc; cases hdoc
          | ok schema =>
            rw [hschema] at hdoc
            cases hdoc
            exact ⟨rfl, rfl⟩
  case saveBlob document =>
    split_ifs
    · refine ⟨trivial, ?_⟩
      unfold ExtractRequest.torn
      cases x.leftover with
      | none => trivial
      | some content => exact ⟨x.documentId, rfl⟩
    · exact ⟨h, x.documentId, rfl⟩
  case commit document =>
    split_ifs
    · exact ⟨trivial, trivial⟩
    · cases w.db.commit (createWrites document) with
      | error e => exact ⟨trivial, trivial⟩
      | ok db => exact ⟨trivial, Or.inr ⟨document, rfl, h.1, h.2⟩⟩
  case enqueue => exact ⟨trivial, trivial⟩
  case release => exact ⟨trivial, rfl⟩
  case done => exact ⟨by simp [ExtractRequest.Mine, hpc], trivial⟩

/-- The steps of a retry. -/
theorem RetryRequest.move_mine {y : RetryRequest} (hs : w.db.Sound) (h : y.Mine w.db) :
    (y.move w).task.Mine w.db ∧ (y.move w).change.Fits w.db y.tenantId := by
  unfold RetryRequest.Mine at h
  cases hpc : y.pc <;> simp only [hpc] at h <;> simp only [RetryRequest.move, hpc]
  case readEntry =>
    split_ifs
    · exact ⟨trivial, trivial⟩
    · cases hrow : w.db.deadLetter? y.tenantId y.dlqId with
      | none => exact ⟨trivial, trivial⟩
      | some entry =>
        dsimp only
        split_ifs
        · exact ⟨trivial, trivial⟩
        · exact ⟨mine_deadLetter? hs hrow, trivial⟩
  case readDocument entry =>
    split_ifs
    · exact ⟨trivial, trivial⟩
    · exact ⟨⟨h, fun row hrow => (mine_document? hs hrow).1⟩, trivial⟩
  case enqueue entry document => exact ⟨h, trivial⟩
  case commit entry document =>
    split_ifs
    · exact ⟨trivial, trivial⟩
    · cases w.db.commit (retryWrites entry document) with
      | error e => exact ⟨trivial, trivial⟩
      | ok db => exact ⟨trivial, Or.inl (fits_retryWrites h.1 h.2)⟩
  case done => exact ⟨by simp [RetryRequest.Mine, hpc], trivial⟩

/-- The steps of a schema call. -/
theorem SchemaRequest.move_mine {c : SchemaRequest} (hs : w.db.Sound) (h : c.Mine w.db) :
    (c.move w).task.Mine w.db ∧ (c.move w).change.Fits w.db c.tenantId := by
  unfold SchemaRequest.Mine at h
  cases hpc : c.pc <;> simp only [hpc] at h <;> simp only [SchemaRequest.move, hpc]
  case read =>
    split_ifs
    · exact ⟨trivial, trivial⟩
    · cases hrow : w.db.schema? c.tenantId c.schemaId with
      | none => exact ⟨trivial, trivial⟩
      | some schema =>
        obtain ⟨htenant, howns⟩ := mine_schema? hs hrow
        refine ⟨?_, trivial⟩
        dsimp only
        unfold SchemaRequest.begin
        cases c.call with
        | update payload => exact fun wr hwr => List.mem_singleton.1 hwr ▸ howns
        | addSeed expectedJson => exact howns
        | activate =>
          dsimp only
          split_ifs
          · trivial
          · intro wr hwr
            simp only [List.mem_cons, List.not_mem_nil, or_false] at hwr
            rcases hwr with rfl | rfl
            · exact htenant
            · exact howns
  case upsert schema expectedJson =>
    split_ifs
    · exact ⟨trivial, trivial⟩
    · refine ⟨fun wr hwr => ?_, rfl⟩
      rw [List.mem_singleton.1 hwr]
      exact h
  case commit ws =>
    split_ifs
    · exact ⟨trivial, trivial⟩
    · cases w.db.commit ws with
      | error e => exact ⟨trivial, trivial⟩
      | ok db => exact ⟨trivial, Or.inl h⟩
  case done => exact ⟨by simp [SchemaRequest.Mine, hpc], trivial⟩

/-- **One step.**  A task that holds rows of its tenant goes on doing so, and
    changes what is its tenant's. -/
theorem Task.move_mine (hs : w.db.Sound) (h : x.Mine w.db) :
    (x.move S w).task.Mine w.db ∧ (x.move S w).change.Fits w.db x.tenantId := by
  cases x with
  | run r => exact RunTask.move_mine hs h
  | webhook y => exact WebhookTask.move_mine hs h
  | erase e => exact EraseTask.move_mine hs h
  | review q => exact ReviewRequest.move_mine hs h
  | extract x => exact ExtractRequest.move_mine h
  | retry y => exact RetryRequest.move_mine hs h
  | schema c => exact SchemaRequest.move_mine hs h

/-- A task goes on working for its tenant. -/
theorem Task.move_tenant : (x.move S w).task.tenantId = x.tenantId := by
  cases x with
  | run r =>
    show (r.move S w).task.tenantId = r.tenantId
    cases hpc : r.pc <;> simp only [RunTask.move, hpc, RunTask.persistOutcome]
    all_goals
      repeat' split
      all_goals rfl
  | webhook y =>
    show (y.move S w).task.tenantId = y.tenantId
    cases hpc : y.pc <;> simp only [WebhookTask.move, hpc]
    all_goals
      repeat' split
      all_goals rfl
  | erase e =>
    show (e.move S w).task.tenantId = e.tenantId
    cases hpc : e.pc <;> simp only [EraseTask.move, hpc]
    all_goals
      repeat' split
      all_goals rfl
  | review q =>
    show (q.move S w).task.tenantId = q.tenantId
    cases hpc : q.pc <;> simp only [ReviewRequest.move, hpc]
    all_goals
      repeat' split
      all_goals rfl
  | extract x =>
    show (x.move S w).task.tenantId = x.tenantId
    cases hpc : x.pc <;> simp only [ExtractRequest.move, hpc]
    all_goals
      repeat' split
      all_goals rfl
  | retry y =>
    show (y.move w).task.tenantId = y.tenantId
    cases hpc : y.pc <;> simp only [RetryRequest.move, hpc]
    all_goals
      repeat' split
      all_goals rfl
  | schema c =>
    show (c.move w).task.tenantId = c.tenantId
    cases hpc : c.pc <;> simp only [SchemaRequest.move, hpc]
    all_goals
      repeat' split
      all_goals rfl

/-- A task starts tasks of its own tenant. -/
theorem Task.spawned_tenant (h : x.Mine w.db) {u : Task} (hu : u ∈ (x.move S w).spawned) :
    u.tenantId = x.tenantId := by
  cases x with
  | run r =>
    obtain ⟨y, hy, rfl⟩ := List.mem_map.1 hu
    have hnil : y ∉ r.fail.spawned := List.not_mem_nil
    cases hpc : r.pc <;> simp only [RunTask.move, hpc, RunTask.persistOutcome] at hy
    case persisted s =>
      simp only [RunTask.scheduledWebhooks] at hy
      split_ifs at hy
      · rw [List.mem_singleton.1 hy]; rfl
      · cases hy
    all_goals
      repeat' split at hy
      all_goals exact absurd hy hnil
  | extract x =>
    obtain ⟨r, hr, rfl⟩ := List.mem_map.1 hu
    cases hpc : x.pc <;> simp only [ExtractRequest.move, hpc] at hr
    case enqueue => rw [List.mem_singleton.1 hr]; rfl
    all_goals
      repeat' split at hr
      all_goals cases hr
  | retry y =>
    obtain ⟨r, hr, rfl⟩ := List.mem_map.1 hu
    replace h : y.Mine w.db := h
    unfold RetryRequest.Mine at h
    cases hpc : y.pc <;> simp only [hpc] at h <;> simp only [RetryRequest.move, hpc] at hr
    case enqueue =>
      -- the run gets the tenant of the letter
      rw [List.mem_singleton.1 hr]
      exact h.1.tenant
    all_goals
      repeat' split at hr
      all_goals cases hr
  | webhook | erase | review | schema => cases hu

/-! ## Whole runs -/

/-- **A transaction that fits** keeps everything owned, and what its writes keep. -/
theorem commit_fits {ws : List Write} {P : Db → Prop} (hs : db.Sound) (hc : (Change.commit ws).Fits db t)
    (hdb : db.commit ws = .ok db') (hP : P db)
    (hstep : ∀ wr ∈ ws, ∀ db₁ db₂, db₁.Sound → wr.Fits db₁ t → P db₁ → wr.apply db₁ = .ok db₂ → P db₂) :
    db'.Sound ∧ db.Le db' ∧ P db' := by
  rcases hc with hws | ⟨document, rfl, htenant, hkey⟩
  · exact fits_commit hs hws hdb hP hstep
  · exact fits_create hs htenant hkey hdb hP hstep

/-- So does any change. -/
theorem apply_fits {c : Change} {P : Db → Prop} (hs : w.db.Sound) (hc : c.Fits w.db t) (hP : P w.db)
    (hstep : ∀ (wr : Write) db₁ db₂, db₁.Sound → wr.Fits db₁ t → P db₁ → wr.apply db₁ = .ok db₂ →
      P db₂) :
    (w.apply c).db.Sound ∧ w.db.Le (w.apply c).db ∧ P (w.apply c).db := by
  rcases World.db_apply (w := w) c with hdb | ⟨ws, rfl, hdb⟩
  · rw [hdb]
    exact ⟨hs, .refl, hP⟩
  · exact commit_fits hs hc hdb hP fun wr _ => hstep wr

/-- **In every state reached**, rows and tasks are their tenants'. -/
theorem reach_mine {ok : System → ℕ → Prop} {q q' : System} (hs : q.shared.db.Sound)
    (hmine : ∀ x ∈ q.tasks, x.Mine q.shared.db) (h : Reach (System.step S) ok q q') :
    q'.shared.db.Sound ∧ ∀ x ∈ q'.tasks, x.Mine q'.shared.db := by
  have hstep (q : System) (x : Task) (hs : q.shared.db.Sound) (hx : x.Mine q.shared.db) :
      (q.shared.apply (x.move S q.shared).change).db.Sound ∧
        q.shared.db.Le (q.shared.apply (x.move S q.shared).change).db := by
    obtain ⟨hs', hle, -⟩ := apply_fits (P := fun _ => True) hs (Task.move_mine hs hx).2 trivial
      fun _ _ _ _ _ _ _ => trivial
    exact ⟨hs', hle⟩
  refine Pool.reach_invariant (G := fun w => w.db.Sound) (L := fun w x => x.Mine w.db)
    (fun q i x hs hx _ _ => ?_) (fun q i x hs hx _ _ u hu => ?_) h hs hmine
  · obtain ⟨hs', hle⟩ := hstep q x hs hx
    exact ⟨hs', (Task.move_mine hs hx).1.mono hle, fun u hu => (Task.spawned_fresh hu).mine⟩
  · exact hu.mono (hstep q x hs hx).2

end

end OcrService
