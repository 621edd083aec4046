/-
  An erasure that is driven again.

  A call of `erase_document` may end anywhere: it raises, its process stops, or the
  externals it deletes refuse.  Whatever earlier calls have left, and whatever else
  is going on when the next one begins, the row of the document can be written
  (`Db.Writable`); so a call that nothing disturbs goes through, and nothing of the
  document is left but the tombstone (`erasure_completes`).
-/
import OcrService.System.Disk
import OcrService.System.ForeignErasure

namespace OcrService

open Trans PyData

/-! ## Rows that can be written -/

theorem Document.stored_storable {r : Document} : r.stored.Storable ↔ r.Storable := by
  simp only [Document.Storable, Document.stored]
  refine and_congr_right fun _ => and_congr_right fun _ => and_congr_right fun _ => ?_
  cases r.confidenceOverall with
  | none => simp
  | some q => simp [UnitOk, Decimal.numeric_numeric]

/-- The rows of all documents can be written again. -/
def Db.Writable (db : Db) : Prop := ∀ r ∈ db.documents, r.Storable

section
variable {db db' : Db} {t d : Uuid}

/-- The database takes no row that it could not take again. -/
theorem writable_apply {wr : Write} (h : db.Writable) (hdb : wr.apply db = .ok db') : db'.Writable := by
  intro r hr
  cases wr with
  | updateDocument old new =>
    obtain ⟨hrow, rfl⟩ := updateDocument_ok.1 hdb
    simp only [Write.perform] at hr
    split_ifs at hr with hne
    · exact h r hr
    · obtain ⟨hs, -⟩ := hrow.resolve_left hne
      rcases Rows.mem_replace hr with rfl | hr
      · exact Document.stored_storable.2 hs
      · exact h r hr
  | insertDocument row =>
    obtain ⟨hrefused, rfl⟩ := Write.apply_ok.1 hdb
    simp only [Write.refused] at hrefused
    split_ifs at hrefused with hissued hschema hs
    rcases List.mem_append.1 hr with hr | hr
    · exact h r hr
    · rw [List.mem_singleton.1 hr]
      exact Document.stored_storable.2 hs
  | deleteDocument =>
    cases documents_apply hdb with
    | same hdocs => exact h r (hdocs ▸ hr)
    | deleted hrow hdocs =>
      rw [hdocs] at hr
      exact h r (Rows.mem_delete.1 hr).1
  | _ =>
    cases documents_apply hdb with
    | same hdocs => exact h r (hdocs ▸ hr)

theorem reach_writable {S : Site} {ok : System → ℕ → Prop} {q q' : System} (h : q.shared.db.Writable)
    (hreach : Reach (System.step S) ok q q') : q'.shared.db.Writable := by
  refine hreach.invariant (I := fun p => p.shared.db.Writable) h ?_
  rintro p i p' hp - hstep
  obtain ⟨x, -, hshared, -⟩ := Pool.step_eq_some hstep
  rw [show p'.shared = p.shared.apply (x.move S p.shared).change from hshared]
  refine World.db_induction (P := Db.Writable) hp ?_
  intro ws _ _ wr _ db₁ db₂ h₁ happly
  exact writable_apply h₁ happly

/-! ## The transactions of an erasure -/

/-- The row of a document can be cancelled: afterwards it is its tenant's still, and
    a deletion leaves what it would have left before. -/
theorem cancel_ok {row : Document} (hw : db.Writable) (hrow : db.document? t d = some row) :
    ∃ db', db.commit (EraseTask.cancelWrites row) = .ok db' ∧ db'.cascade d = db.cascade d ∧
      db'.auditLog = db.auditLog ∧ ∃ row', db'.document? t d = some row' := by
  obtain ⟨hid, ht, hfind⟩ := find_of_document? hrow
  subst hid
  have hupdate : Write.apply db (.updateDocument row { row with status := .cancelled }) =
      .ok ((Write.updateDocument row { row with status := .cancelled }).perform db) := by
    refine updateDocument_ok.2 ⟨or_iff_not_imp_left.2 fun _ => ⟨?_, row, hfind, rfl⟩, rfl⟩
    exact hw row (Rows.mem_of_find hfind)
  refine ⟨_, commit_one.2 hupdate, ?_, ?_, ?_⟩
  · simp only [Write.perform]
    split_ifs
    · rfl
    · simp only [Db.cascade, Db.mk.injEq, and_true, true_and]
      exact Rows.delete_replace db.documents rfl
  · simp only [Write.perform]
    split_ifs <;> rfl
  · have hnew := find_updateDocument row { row with status := .cancelled } rfl hfind
    rw [Db.document?, hnew, Option.filter_some, if_pos]
    · exact ⟨_, rfl⟩
    · split_ifs <;> exact decide_eq_true ht

/-- Nothing of document `d` of tenant `t` is left, but its audit trail. -/
structure World.Forgot (w : World) (t d : Uuid) : Prop where
  document : ∀ r ∈ w.db.documents, r.id ≠ d
  results : ∀ r ∈ w.db.extractionResults, r.documentId ≠ d
  reports : ∀ r ∈ w.db.guardrailReports, r.documentId ≠ d
  reviews : ∀ r ∈ w.db.reviewTasks, r.documentId ≠ d
  letters : ∀ r ∈ w.db.dlq, r.documentId ≠ d
  deliveries : ∀ r ∈ w.db.webhookDeliveries, r.documentId ≠ d
  checkpoints : ∀ c ∈ w.checkpoints, c.threadId ≠ d
  points : ∀ p ∈ w.points, ¬ (p.tenantId = t ∧ p.documentId = d)

end

section
variable {S : Site} {w : World} {e : EraseTask} {row : Document}

/-- The last transaction goes through, whatever is there. -/
theorem delete_ok (S : Site) (e : EraseTask) {db : Db} {row : Document}
    (hrow : db.document? e.tenantId e.documentId = some row) :
    db.commit (e.deleteWrites S) =
      .ok ((tombstone S e.tenantId e.documentId).perform (db.cascade e.documentId)) := by
  refine Db.commit_cons_ok.2 ⟨db.cascade e.documentId, ?_, commit_one.2 ?_⟩
  · refine Write.apply_ok.2 ⟨rfl, ?_⟩
    simp only [Write.perform, hrow]
  · exact Write.apply_ok.2 ⟨rfl, rfl⟩

/-- The world in which a call has deleted the externals. -/
def EraseTask.purged (w : World) (e : EraseTask) (storageKey : Option String) : World :=
  { w with
    blobs := w.blobs.filter fun b => ¬ (storageKey = some b.key ∧ b.key ≠ "")
    points := w.points.filter fun p => ¬ (p.tenantId = e.tenantId ∧ p.documentId = e.documentId)
    checkpoints := w.checkpoints.filter fun c => c.threadId ≠ e.documentId }

/-- The blob of the document, where it has one. -/
theorem EraseTask.deleteBlob_purged (hraises : ∀ p, e.raises p = false) (storageKey : Option String) :
    w.apply ((e.goto (.deleteBlob storageKey)).move S w).change =
      { w with blobs := (e.purged w storageKey).blobs } := by
  rw [move_deleteBlob]
  split
  · simp [World.apply, purged]
  · have hall : w.blobs.filter (fun b => ¬ (some "" = some b.key ∧ b.key ≠ "")) = w.blobs := by
      refine List.filter_eq_self.2 fun b _ => decide_eq_true ?_
      rintro ⟨h, hne⟩
      exact hne (Option.some.inj h).symm
    rw [purged, hall]
    rfl
  · next key hne =>
    rw [hraises, if_neg Bool.false_ne_true]
    simp only [World.apply, purged]
    congr 1
    refine List.filter_congr fun b _ => decide_eq_decide.2 ?_
    rw [Option.some.injEq, not_and_not_right]
    constructor
    · rintro hkey rfl
      exact absurd rfl hkey
    · rintro h rfl
      exact hne (h rfl)

/-- The externals of a call that nothing disturbs. -/
theorem finishes_externals {c : World × Task} (hraises : ∀ p, e.raises p = false) (storageKey : Option String) :
    Finishes (Task.effect S) (w, .erase (e.goto (.deleteBlob storageKey))) c ↔
      Finishes (Task.effect S) (e.purged w storageKey, .erase (e.goto .delete)) c := by
  have hpoints (w : World) : (e.goto .deletePoints).move S w =
      { change := .deletePoints e.tenantId e.documentId, task := e.goto .purge } := by
    rw [EraseTask.move_deletePoints, hraises, if_neg Bool.false_ne_true]
  have hpurge (w : World) : (e.goto .purge).move S w =
      { change := .purgeCheckpoints e.documentId, task := e.goto .delete } := by
    rw [EraseTask.move_purge, hraises, if_neg Bool.false_ne_true]
  have htask : ((e.goto (.deleteBlob storageKey)).move S w).task = e.goto .deletePoints := rfl
  rw [finishes_erase_step rfl, htask, EraseTask.deleteBlob_purged hraises, finishes_erase_step (hpoints _),
    finishes_erase_step (hpurge _)]
  rfl

/-- **A call that nothing disturbs.** -/
theorem erasure_alone (hw : w.db.Writable) (hpc : e.pc = .register) (hraises : ∀ p, e.raises p = false)
    (hrow : w.db.document? e.tenantId e.documentId = some row) :
    ∃ w', RunsTo S w (.erase e) w' (.erase (e.goto (.done .returned))) ∧
      w'.db = (tombstone S e.tenantId e.documentId).perform (w.db.cascade e.documentId) ∧
      w'.blobs = (e.purged w row.fileStorageKey).blobs ∧ w'.points = (e.purged w row.fileStorageKey).points ∧
      w'.checkpoints = (e.purged w row.fileStorageKey).checkpoints ∧
      w'.procs = Function.update w.procs e.proc
        (((w.procs e.proc).cancel e.documentId).clear e.documentId) := by
  obtain ⟨db, hcommit, hcascade, haudit, row', hrow'⟩ := cancel_ok hw hrow
  have hgoto : e = e.goto .register := by
    rw [← hpc]
    rfl
  have hread : (e.goto .read).move S (e.registered w) = { task := e.goto (.commitCancelled row) } := by
    rw [EraseTask.move_read, hraises, if_neg Bool.false_ne_true,
      show (e.registered w).db.document? e.tenantId e.documentId = some row from hrow]
  have hcancel : (e.goto (.commitCancelled row)).move S (e.registered w) =
      { change := .commit (EraseTask.cancelWrites row), task := e.goto (.deleteBlob row.fileStorageKey) } := by
    rw [EraseTask.move_commitCancelled, hraises, if_neg Bool.false_ne_true,
      show (e.registered w).db.commit (EraseTask.cancelWrites row) = .ok db from hcommit]
  have hcancelled : (e.registered w).apply (.commit (EraseTask.cancelWrites row)) =
      { e.registered w with db } := World.apply_commit_ok hcommit
  have hdelete := delete_ok S e hrow'
  refine ⟨(({ e.purged { e.registered w with db } row.fileStorageKey with
      db := (tombstone S e.tenantId e.documentId).perform (db.cascade e.documentId) } : World).apply
        (.clear e.proc e.documentId)), ?_, ?_, rfl, rfl, rfl, ?_⟩
  · have hdone (w : World) : RunsTo S w (.erase (e.goto (.done .returned))) w (.erase (e.goto (.done .returned))) :=
      Finishes.fixed rfl
    rw [hgoto]
    refine (finishes_erase_step EraseTask.move_register).2 ?_
    refine (finishes_erase_step hread).2 ?_
    refine (finishes_erase_step hcancel).2 ?_
    rw [hcancelled, finishes_externals hraises]
    have hlast : (e.goto .delete).move S (e.purged { e.registered w with db } row.fileStorageKey) =
        { change := .commit (e.deleteWrites S), task := e.goto .clear } := by
      rw [EraseTask.move_delete, hraises, if_neg Bool.false_ne_true,
        show (e.purged { e.registered w with db } row.fileStorageKey).db.commit (e.deleteWrites S) = _ from hdelete]
    refine (finishes_erase_step hlast).2 ?_
    rw [World.apply_commit_ok hdelete]
    exact (finishes_erase_step rfl).2 (hdone _)
  · rw [← hcascade]
    rfl
  · simp [World.apply, World.onProc, EraseTask.purged, EraseTask.registered]

/-- **An erasure that is driven again completes.**  In every state reached, whatever
    earlier calls have left and whatever is in flight, a call for a document of its
    tenant that nothing disturbs returns: the rows of the document, its checkpoints,
    vectors and blob are gone, the tombstone is appended, nothing else of the database
    has changed, and the document is registered no more. -/
theorem erasure_completes {ok : System → ℕ → Prop} {q₀ q : System} (hw : q₀.shared.db.Writable)
    (h : Reach (System.step S) ok q₀ q) (hpc : e.pc = .register) (hraises : ∀ p, e.raises p = false)
    (hrow : q.shared.db.document? e.tenantId e.documentId = some row) :
    ∃ w', RunsTo S q.shared (.erase e) w' (.erase (e.goto (.done .returned))) ∧
      w'.Forgot e.tenantId e.documentId ∧
      (∀ key, row.fileStorageKey = some key → key ≠ "" → w'.blob? key = none) ∧
      w'.db = (tombstone S e.tenantId e.documentId).perform (q.shared.db.cascade e.documentId) ∧
      (w'.procs e.proc).isCancelled e.documentId = false := by
  obtain ⟨w', hruns, hdb, hblobs, hpoints, hcheckpoints, hprocs⟩ :=
    erasure_alone (S := S) (reach_writable hw h) hpc hraises hrow
  refine ⟨w', hruns, ?_, fun key hkey hne => ?_, hdb, ?_⟩
  · have hgone {ρ : Type} (key : ρ → Uuid) (rows : List ρ) : ∀ r ∈ Rows.delete key rows e.documentId,
        key r ≠ e.documentId := fun r hr => (Rows.mem_delete.1 hr).2
    refine
      { document := hdb ▸ hgone _ _
        results := hdb ▸ hgone _ _
        reports := hdb ▸ hgone _ _
        reviews := hdb ▸ hgone _ _
        letters := hdb ▸ hgone _ _
        deliveries := hdb ▸ hgone _ _
        checkpoints := fun c hc => ?_
        points := fun p hp => ?_ }
    · rw [hcheckpoints] at hc
      exact of_decide_eq_true (List.mem_filter.1 hc).2
    · rw [hpoints] at hp
      exact of_decide_eq_true (List.mem_filter.1 hp).2
  · rw [World.blob?, hblobs, Option.map_eq_none_iff, Rows.find_eq_none]
    rintro b hb rfl
    exact of_decide_eq_true (List.mem_filter.1 hb).2 ⟨hkey, hne⟩
  · rw [hprocs, Function.update_self]
    simp [Proc.isCancelled, Proc.clear]

end

/-- A call that raises when it purges the checkpoints, and the next one. -/
theorem erasure_completes_sample :
    ∃ q w', Reach (System.step Sample.site) (fun _ _ => True)
        ⟨Sample.world [], [.erase { Sample.erase with raises := fun p => p = .purge }, .run Sample.run]⟩ q ∧
      RunsTo Sample.site q.shared (.erase Sample.erase) w' (.erase (Sample.erase.goto (.done .returned))) ∧
      w'.Forgot Sample.tenantId Sample.documentId := by
  have hrun : (exec (System.step Sample.site)
      ⟨Sample.world [], [.erase { Sample.erase with raises := fun p => p = .purge }, .run Sample.run]⟩
      [1, 0, 1, 0, 1, 0, 1, 0, 1, 0, 1, 0]).map
        (fun q => (q.shared.db.document? Sample.tenantId Sample.documentId).isSome) = some true := by
    decide +kernel
  obtain ⟨q, hq, hsome⟩ := Option.map_eq_some_iff.1 hrun
  obtain ⟨row, hrow⟩ := Option.isSome_iff_exists.1 hsome
  have hreach := reach_of_exec hq
  obtain ⟨w', hruns, hforgot, -⟩ := erasure_completes (e := Sample.erase)
    (fun r hr => by rw [List.mem_singleton.1 hr]; decide) hreach rfl (fun _ => rfl) hrow
  exact ⟨q, w', hreach, hruns, hforgot⟩

end OcrService
