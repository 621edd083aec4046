/-
  What never changes of a document: its tenant, its schema and the version it is
  pinned to.

  * `Prepared.update`: the updates of documents in the transactions of the
    service;
  * `agree_commit`: a transaction made from rows that agree on the pins of a
    document leaves rows that agree;
  * `pins_agree`: in every state reached, the row of a document and all copies
    of it agree on its pins.
-/
import OcrService.System.Written

namespace OcrService

open Trans PyData

/-- What ingest pins of a document. -/
def Document.pins (row : Document) : Uuid × Uuid × ℕ := (row.tenantId, row.schemaId, row.schemaVersion)

/-! ## The updates of documents -/

/-- How a transaction changes the status of a document. -/
inductive StatusUpdate (κ : Known) (old new : Document) : Prop
  | persist (h : κ.document old) (hlive : old.status ≠ .cancelled)
  | cancel (h : κ.document old) (hc : new = { old with status := .cancelled })
  | reset (h : κ.reset old)

/-- An update of a document in a transaction other than that of an ingest keeps
    its id and its pins. -/
theorem Prepared.update {S : Site} {κ : Known} {t : Task} {ws : List Write} (h : Prepared S κ t ws) :
    (∃ document, ws = createWrites document) ∨
      ∀ old new, .updateDocument old new ∈ ws →
        new.id = old.id ∧ new.pins = old.pins ∧ StatusUpdate κ old new := by
  refine or_iff_not_imp_left.2 fun hcreate old new hw => ?_
  cases h.written hw with
  | persist hdoc _ _ hlive _ h =>
    cases h
    exact ⟨rfl, rfl, .persist hdoc hlive⟩
  | webhook h => exact h.elim
  | cancel hdoc => exact ⟨rfl, rfl, .cancel hdoc rfl⟩
  | reviewDocument _ hdoc => exact ⟨rfl, rfl, .reset hdoc⟩
  | retryDocument _ hdoc => exact ⟨rfl, rfl, .reset hdoc⟩
  | storageKey =>
    cases h
    exact absurd ⟨_, rfl⟩ hcreate

/-! ## Agreement on the pins -/

/-- The row of document `d`, if it is still there, has the pins of `row`, and
    the id of `d` has been given out. -/
structure Agree (d : Uuid) (db : Db) (row : Document) : Prop where
  issued : d ∈ db.issued
  pins : ∀ r ∈ db.documents, r.id = d → r.pins = row.pins

/-- The ids of the rows have been given out, and the rows of document `d` agree. -/
structure PinsAgree (d : Uuid) (db : Db) : Prop where
  issued : ∀ r ∈ db.documents, r.id ∈ db.issued
  agree : ∀ row ∈ db.documents, row.id = d → Agree d db row

/-- Copies of document `d` agree with its row. -/
def Known.agree (d : Uuid) (db : Db) : Known :=
  .documents (fun row => row.id = d → Agree d db row) (fun row => row.id = d → Agree d db row)

/-- All copies of a document have its pins. -/
def Known.pinned (document : Document) : Known :=
  .documents (fun row => row.id = document.id → row.pins = document.pins)
    (fun row => row.id = document.id → row.pins = document.pins)

section
variable {S : Site} {d : Uuid} {db db' : Db} {ws : List Write}

/-- A document keeps its id, and its row agrees with what was read of it. -/
def AgreeingUpdate (d : Uuid) (db : Db) (old new : Document) : Prop :=
  new.id = old.id ∧ new.pins = old.pins ∧ (old.id = d → Agree d db old)

/-- One write keeps what was read of the document. -/
theorem agree_keeps {w : Write} {r : Document} (hr : Agree d db r)
    (hw : ∀ old new, w = .updateDocument old new → AgreeingUpdate d db old new)
    (hdb : w.apply db = .ok db') : Agree d db' r := by
  refine ⟨issued_mono hdb hr.issued, ?_⟩
  intro r' hr' hid'
  cases documents_apply hdb with
  | same hdocs hi =>
    rw [hdocs] at hr'
    exact hr.pins r' hr' hid'
  | @updated old new row hne hrow hv hdocs hi =>
    obtain ⟨hid, hpins, hagree⟩ := hw old new rfl
    rw [hdocs] at hr'
    rcases Rows.mem_replace hr' with rfl | hr'
    · -- the updated row has the pins of the row it replaces
      have hold : old.id = d := hid.symm.trans hid'
      have hrow' := Rows.mem_of_find hrow
      have hkey : row.id = d := (Rows.key_of_find hrow).trans hold
      calc new.pins = old.pins := hpins
        _ = row.pins := ((hagree hold).pins row hrow' hkey).symm
        _ = r.pins := hr.pins row hrow' hkey
    · exact hr.pins r' hr' hid'
  | @inserted row hnew hdocs hi =>
    rw [hdocs] at hr'
    rcases List.mem_append.1 hr' with hr' | hr'
    · exact hr.pins r' hr' hid'
    · rw [List.mem_singleton.1 hr'] at hid'
      rw [show row.id = d from hid'] at hnew
      exact absurd hr.issued hnew
  | deleted hrow hdocs hi =>
    rw [hdocs] at hr'
    exact hr.pins r' (Rows.mem_delete.1 hr').1 hid'

/-- One write keeps the agreement. -/
theorem agree_apply {w : Write} (h : PinsAgree d db)
    (hw : ∀ old new, w = .updateDocument old new → AgreeingUpdate d db old new)
    (hdb : w.apply db = .ok db') : PinsAgree d db' ∧ ∀ row, Agree d db row → Agree d db' row := by
  have hkeep : ∀ row, Agree d db row → Agree d db' row := fun row hrow => agree_keeps hrow hw hdb
  refine ⟨⟨issued_apply h.issued (fun old new hupd => (hw old new hupd).1) hdb, ?_⟩, hkeep⟩
  intro r hr hid'
  cases documents_apply hdb with
  | same hdocs hi =>
    rw [hdocs] at hr
    exact hkeep r (h.agree r hr hid')
  | @updated old new row hne hrow hv hdocs hi =>
    obtain ⟨hid, hpins, hagree⟩ := hw old new rfl
    rw [hdocs] at hr
    rcases Rows.mem_replace hr with rfl | hr
    · have hold := hkeep old (hagree (hid.symm.trans hid'))
      exact ⟨hold.issued, fun r' hr' hid'' => (hold.pins r' hr' hid'').trans hpins.symm⟩
    · exact hkeep r (h.agree r hr hid')
  | @inserted row hnew hdocs hi =>
    rw [hdocs] at hr
    rcases List.mem_append.1 hr with hr | hr
    · exact hkeep r (h.agree r hr hid')
    · -- the id was new, so the row is the only one
      rw [List.mem_singleton.1 hr] at hid' ⊢
      replace hid' : row.id = d := hid'
      refine ⟨by rw [hi, ← hid']; exact List.mem_cons_self, ?_⟩
      intro r' hr' hid''
      rw [hdocs] at hr'
      rcases List.mem_append.1 hr' with hr' | hr'
      · have hissued := h.issued r' hr'
        rw [hid'', ← hid'] at hissued
        exact absurd hissued hnew
      · rw [List.mem_singleton.1 hr']
  | deleted hrow hdocs hi =>
    rw [hdocs] at hr
    exact hkeep r (h.agree r (Rows.mem_delete.1 hr).1 hid')

/-- **A transaction keeps the agreement.** -/
theorem agree_commit {κ : Known} {t : Task} (h : PinsAgree d db)
    (hdocument : ∀ row, κ.document row → row.id = d → Agree d db row)
    (hreset : ∀ row, κ.reset row → row.id = d → Agree d db row)
    (hws : Prepared S κ t ws) (hdb : db.commit ws = .ok db') :
    PinsAgree d db' ∧ ∀ row, Agree d db row → Agree d db' row := by
  rcases hws.update with ⟨document, rfl⟩ | hupdates
  · obtain ⟨db₁, h₁, h₂⟩ := Db.commit_cons_ok.1 hdb
    obtain ⟨hagree₁, hkeep₁⟩ := agree_apply h (by simp) h₁
    have hnew : document.stored ∈ db₁.documents := by
      obtain ⟨-, rfl⟩ := Write.apply_ok.1 h₁
      exact List.mem_append_right _ List.mem_cons_self
    obtain ⟨hagree₂, hkeep₂⟩ := agree_apply hagree₁ (fun old new hw => by
      cases hw
      exact ⟨rfl, rfl, fun hid =>
        ⟨(hagree₁.agree _ hnew hid).issued, (hagree₁.agree _ hnew hid).pins⟩⟩) (commit_one.1 h₂)
    exact ⟨hagree₂, fun row hrow => hkeep₂ row (hkeep₁ row hrow)⟩
  · refine Db.commit_induction (P := fun db₁ => PinsAgree d db₁ ∧ ∀ row, Agree d db row → Agree d db₁ row)
      hdb ⟨h, fun _ => id⟩ ?_
    rintro w hw db₁ db₂ ⟨hagree₁, hkeep₁⟩ h₁
    obtain ⟨hagree₂, hkeep₂⟩ := agree_apply hagree₁ (fun old new hwe => by
      obtain ⟨hid, hpins, hstatus⟩ := hupdates old new (hwe ▸ hw)
      refine ⟨hid, hpins, fun hd => hkeep₁ old ?_⟩
      cases hstatus with
      | persist hk _ | cancel hk _ => exact hdocument old hk hd
      | reset hk => exact hreset old hk hd) h₁
    exact ⟨hagree₂, fun row hrow => hkeep₂ row (hkeep₁ row hrow)⟩

theorem mem_of_document? {t : Uuid} {row : Document} (h : db.document? t d = some row) :
    row ∈ db.documents := by
  have h := (find_of_document? h).2.2
  exact Rows.mem_of_find h

theorem Agree.of_pins {row row' : Document} (h : Agree d db row) (hp : row'.pins = row.pins) :
    Agree d db row' := ⟨h.issued, fun r hr hid => (h.pins r hr hid).trans hp.symm⟩

/-- While the row of a document is there, all copies that agree with it have its pins. -/
theorem Known.agree_pinned {document : Document} (h : document ∈ db.documents) :
    (Known.agree document.id db).Le (Known.pinned document) :=
  Known.documents_le (fun _ hrow hid => ((hrow hid).pins document h rfl).symm)
    (fun _ hrow hid => ((hrow hid).pins document h rfl).symm)

/-- What a task reads of document `d` agrees with its row. -/
theorem reads_agree {t : Task} {w : World} (h : PinsAgree d w.db) : t.Reads (Known.agree d w.db) w :=
  reads_documents (fun _ _ row hrow => h.agree row (mem_of_document? hrow))
    (fun _ _ row _ hrow => h.agree row (mem_of_document? hrow))

/-- What a task reads of a pinned document has its pins. -/
theorem reads_pinned {t : Task} {w : World} {document : Document} (h : Agree document.id w.db document) :
    t.Reads (Known.pinned document) w :=
  reads_documents (fun _ _ row hrow => h.pins row (mem_of_document? hrow))
    (fun _ _ row _ hrow => h.pins row (mem_of_document? hrow))

/-- A step keeps the agreement. -/
theorem agree_step {t : Task} {w : World} (h : PinsAgree d w.db)
    (hcommit : ∀ ws, (t.move S w).change = .commit ws → Prepared S (Known.agree d w.db) t ws) :
    PinsAgree d (w.apply (t.move S w).change).db ∧
      ∀ row, Agree d w.db row → Agree d (w.apply (t.move S w).change).db row := by
  rcases World.db_apply (w := w) (t.move S w).change with hdb | ⟨ws, hc, hdb⟩
  · rw [hdb]; exact ⟨h, fun _ => id⟩
  · exact agree_commit h (fun _ => id) (fun _ => id) (hcommit ws hc) hdb

/-- A step keeps the pins of a document. -/
theorem pinned_step {κ : Known} {t : Task} {w : World} {document : Document}
    (h : PinsAgree document.id w.db) (hdoc : Agree document.id w.db document)
    (hle : κ.Le (Known.pinned document))
    (hcommit : ∀ ws, (t.move S w).change = .commit ws → Prepared S κ t ws) :
    PinsAgree document.id (w.apply (t.move S w).change).db ∧
      Agree document.id (w.apply (t.move S w).change).db document := by
  rcases World.db_apply (w := w) (t.move S w).change with hdb | ⟨ws, hc, hdb⟩
  · rw [hdb]; exact ⟨h, hdoc⟩
  · obtain ⟨hagree, hkeep⟩ := agree_commit (κ := Known.pinned document) h
      (fun row hrow hid => hdoc.of_pins (hrow hid)) (fun row hrow hid => hdoc.of_pins (hrow hid))
      ((hcommit ws hc).mono hle) hdb
    exact ⟨hagree, hkeep _ hdoc⟩

theorem Known.agree_le (h : ∀ row, Agree d db row → Agree d db' row) :
    (Known.agree d db).Le (Known.agree d db') :=
  Known.documents_le (fun row hrow hid => h row (hrow hid)) (fun row hrow hid => h row (hrow hid))

/-- **In every state reached, the row of a document and the copies of it agree on
    its pins.** -/
theorem pins_agree {ok : System → ℕ → Prop} {q q' : System} (hkeys : PinsAgree d q.shared.db)
    (hfresh : ∀ t ∈ q.tasks, t.Fresh) (h : Reach (System.step S) ok q q') :
    PinsAgree d q'.shared.db ∧ ∀ t ∈ q'.tasks, t.Holds S (Known.agree d q'.shared.db) :=
  reach_known (G := fun w => PinsAgree d w.db) (κ := fun w => Known.agree d w.db)
    (fun _ _ _ hG _ _ _ => reads_agree hG)
    (fun _ _ _ hG _ _ _ hcommit =>
      ⟨(agree_step hG hcommit).1, Known.agree_le (agree_step hG hcommit).2⟩)
    h hkeys fun t ht => (hfresh t ht).holds

end

namespace Sample

theorem agree (piiFields : List String) : Agree documentId (world piiFields).db document :=
  ⟨List.mem_singleton_self _, fun row hrow _ => by rw [List.mem_singleton.1 hrow]⟩

theorem pinsAgree (piiFields : List String) : PinsAgree documentId (world piiFields).db where
  issued row hrow := by rw [List.mem_singleton.1 hrow]; exact List.mem_singleton_self _
  agree row hrow _ := by rw [List.mem_singleton.1 hrow]; exact agree piiFields

end Sample

end OcrService
