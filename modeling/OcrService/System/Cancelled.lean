/-
  The status `cancelled` of a document.

  A transaction that updates a document fails if its copy of the row is stale
  (`copied_apply`), and `_persist_outcome` makes none from a cancelled copy.  So
  the row of a cancelled document stays as it is until it is deleted, unless a
  retry or a review that sets its status reads it after the cancellation: neither
  looks at the status it resets (`cancelled_absorbing`).
-/
import OcrService.System.Pins

namespace OcrService

open Trans

/-- Step `i` is not the read of document `d`, for the status that a retry or a
    review sets, that finds it cancelled. -/
def SparesCancelled (d : Uuid) (q : System) (i : ℕ) : Prop :=
  ∀ x t row, q.tasks[i]? = some x → x.resets = some (t, d) → q.shared.db.document? t d = some row →
    row.status ≠ .cancelled

/-! ## Copies of the row -/

/-- `copy` was read from document `d`: it is older than the row, or the row. -/
structure Copied (d : Uuid) (db : Db) (copy : Document) : Prop where
  issued : d ∈ db.issued
  current : ∀ row, Rows.find Document.id db.documents d = some row →
    copy.version < row.version ∨ copy = row

section
variable {S : Site} {κ : Known} {t : Task} {d : Uuid} {db db' : Db} {ws : List Write} {copy : Document}

/-- **Every write keeps copies no newer than the row.** -/
theorem copied_apply {w : Write} (h : Copied d db copy) (hw : w.KeepsId) (hdb : w.apply db = .ok db') :
    Copied d db' copy := by
  refine ⟨issued_mono hdb h.issued, row_all_apply h.issued h.current hw ?_ hdb⟩
  rintro old new row - - - hrow hv
  -- the version has grown
  left
  rcases h.current row hrow with hlt | rfl
  · exact Nat.lt_succ_of_lt (hv ▸ hlt)
  · exact Nat.lt_succ_of_le hv.le

theorem copied_commit (hws : Prepared S κ t ws) (h : db.Issued) (hdb : db.commit ws = .ok db') :
    db'.Issued ∧ ∀ copy, Copied d db copy → Copied d db' copy :=
  Db.commit_induction (P := fun db₁ => db₁.Issued ∧ ∀ copy, Copied d db copy → Copied d db₁ copy)
    hdb ⟨h, fun _ => id⟩ fun _ hw _ _ h₁ hdb₁ =>
      ⟨issued_apply h₁.1 (hws.written hw).keepsId hdb₁,
        fun copy hcopy => copied_apply (h₁.2 copy hcopy) (hws.written hw).keepsId hdb₁⟩

end

/-! ## Up to the cancellation -/

/-- Tasks hold copies of document `d`; the status of none that they reset was
    `cancelled`. -/
def Known.copied (d : Uuid) (db : Db) : Known :=
  .documents (fun copy => copy.id = d → Copied d db copy)
    (fun copy => copy.id = d → Copied d db copy ∧ copy.status ≠ .cancelled)

section
variable {S : Site} {d : Uuid} {w : World} {x : Task} {i : ℕ} {q q' : System}

theorem copied_read {t d' : Uuid} {row : Document} (h : w.db.Issued)
    (hrow : w.db.document? t d' = some row) (hid : row.id = d) : Copied d w.db row := by
  subst hid
  have hfind := (find_of_document? hrow).2.2
  refine ⟨h row (Rows.mem_of_find hfind), fun row' hrow' => Or.inr ?_⟩
  rw [hfind] at hrow'
  exact Option.some.inj hrow'

theorem reads_copied (h : q.shared.db.Issued) (hx : q.tasks[i]? = some x) (hok : SparesCancelled d q i) :
    x.Reads (Known.copied d q.shared.db) q.shared := by
  refine reads_documents (fun _ _ row hrow => copied_read h hrow) fun t d' row hreset hrow hid => ?_
  obtain rfl : d' = d := (document?_eq hrow).1.symm.trans hid
  exact ⟨copied_read h hrow hid, hok x t row hx hreset hrow⟩

/-- A step keeps what is known of copies. -/
theorem copied_step {κ : Known} (h : w.db.Issued)
    (hcommit : ∀ ws, (x.move S w).change = .commit ws → Prepared S κ x ws) :
    (w.apply (x.move S w).change).db.Issued ∧
      ∀ copy, Copied d w.db copy → Copied d (w.apply (x.move S w).change).db copy := by
  rcases World.db_apply (w := w) (x.move S w).change with hdb | ⟨ws, hc, hdb⟩
  · rw [hdb]; exact ⟨h, fun _ => id⟩
  · exact copied_commit (hcommit ws hc) h hdb

/-- **In every state reached, the copies of a document are no newer than its row.** -/
theorem copies_known (hissued : q.shared.db.Issued) (hfresh : ∀ x ∈ q.tasks, x.Fresh)
    (h : Reach (System.step S) (SparesCancelled d) q q') :
    q'.shared.db.Issued ∧ ∀ x ∈ q'.tasks, x.Holds S (Known.copied d q'.shared.db) :=
  reach_known (G := fun w => w.db.Issued) (κ := fun w => Known.copied d w.db)
    (fun _ _ _ hG hx hok _ => reads_copied hG hx hok)
    (fun _ _ _ hG _ _ _ hcommit =>
      have ⟨hissued, hkeep⟩ := copied_step hG hcommit
      ⟨hissued, Known.documents_le (fun row hrow hid => hkeep row (hrow hid))
        (fun row hrow hid => ⟨hkeep row (hrow hid).1, (hrow hid).2⟩)⟩)
    h hissued fun x hx => (hfresh x hx).holds

/-! ## From the cancellation on -/

/-- Tasks hold copies of a cancelled document that are the row or older; those
    that they reset are older. -/
def Known.cancelled (row : Document) : Known :=
  .documents (fun copy => copy.id = row.id → copy.version < row.version ∨ copy = row)
    (fun copy => copy.id = row.id → copy.version < row.version)

/-- The row of a document, if it is still there, is `row`. -/
structure Stays (row : Document) (db : Db) : Prop where
  issued : db.Issued
  given : row.id ∈ db.issued
  row : ∀ row', Rows.find Document.id db.documents row.id = some row' → row' = row

variable {row : Document}

theorem Stays.read {db : Db} (h : Stays row db) {t d' : Uuid} {row' : Document}
    (hrow : db.document? t d' = some row') (hid : row'.id = row.id) : row' = row := by
  have hfind := (find_of_document? hrow).2.2
  rw [hid] at hfind
  exact h.row row' hfind

theorem reads_cancelled (h : Stays row q.shared.db) (hc : row.status = .cancelled)
    (hx : q.tasks[i]? = some x) (hok : SparesCancelled row.id q i) :
    x.Reads (Known.cancelled row) q.shared := by
  refine reads_documents (fun _ _ row' hrow hid => Or.inr (h.read hrow hid))
    fun t d' row' hreset hrow hid => ?_
  obtain rfl : d' = row.id := (document?_eq hrow).1.symm.trans hid
  have := hok x t row' hx hreset hrow
  rw [h.read hrow hid] at this
  exact absurd hc this

/-- What a transaction that creates a document updates, is new. -/
theorem issued_of_create {db db' : Db} {document old new : Document}
    (h : db.commit (createWrites document) = .ok db')
    (hw : .updateDocument old new ∈ createWrites document) : old.id ∉ db.issued := by
  obtain ⟨db₁, h₁, -⟩ := Db.commit_cons_ok.1 h
  obtain ⟨hr, -⟩ := Write.apply_ok.1 h₁
  simp only [Write.refused] at hr
  split_ifs at hr with hnew
  have hold : old = document := by
    simp only [createWrites, List.mem_cons, List.not_mem_nil, or_false] at hw
    rcases hw with hw | hw <;> cases hw
    rfl
  rw [hold]
  exact hnew

/-- The updates of a document that is there already. -/
theorem Prepared.update_given {κ : Known} {x : Task} {ws : List Write} {db db' : Db} {old new : Document}
    (h : Prepared S κ x ws) (hdb : db.commit ws = .ok db') (hw : .updateDocument old new ∈ ws)
    (hgiven : old.id ∈ db.issued) : new.id = old.id ∧ new.pins = old.pins ∧ StatusUpdate κ old new := by
  rcases h.update with ⟨document, rfl⟩ | hupd
  · exact absurd hgiven (issued_of_create hdb hw)
  · exact hupd old new hw

/-- An update made of what is known changes nothing, or fails. -/
theorem stays_apply {db db' : Db} {wr : Write} (h : Stays row db) (hw : wr.KeepsId)
    (hupd : ∀ old new, wr = .updateDocument old new → old.id = row.id →
      new = old ∨ old.version < row.version) (hdb : wr.apply db = .ok db') : Stays row db' := by
  refine ⟨issued_apply h.issued hw hdb, issued_mono hdb h.given, row_all_apply h.given h.row hw ?_ hdb⟩
  intro old new row' hwr hne hid hrow hv
  obtain rfl := h.row row' hrow
  rcases hupd old new hwr hid with hnew | hlt
  · exact absurd hnew hne
  · exact absurd hv hlt.ne'

theorem stays_step (h : Stays row w.db) (hc : row.status = .cancelled)
    (hcommit : ∀ ws, (x.move S w).change = .commit ws → Prepared S (Known.cancelled row) x ws) :
    Stays row (w.apply (x.move S w).change).db := by
  refine World.db_induction h ?_
  intro ws hws hdb wr hwr db₁ db₂ hdb₁ happly
  have hprep := hcommit ws hws
  refine stays_apply hdb₁ (hprep.written hwr).keepsId ?_ happly
  rintro old new rfl hid
  obtain ⟨-, -, hstatus⟩ := hprep.update_given hdb hwr (hid ▸ h.given)
  cases hstatus with
  | persist hdoc hlive =>
    rcases hdoc hid with hlt | rfl
    · exact Or.inr hlt
    · exact absurd hc hlive
  | cancel hdoc hnew =>
    rcases hdoc hid with hlt | rfl
    · exact Or.inr hlt
    · left
      rw [hnew, ← hc]
  | reset hreset => exact Or.inr (hreset hid)

/-- **`cancelled` is absorbing** as long as no retry and no review reads the
    cancelled row: the row stays as it is until it is deleted. -/
theorem cancelled_absorbing {q₀ : System} (hissued : q₀.shared.db.Issued)
    (hfresh : ∀ x ∈ q₀.tasks, x.Fresh) (h : Reach (System.step S) (SparesCancelled d) q₀ q)
    (hrow : Rows.find Document.id q.shared.db.documents d = some row) (hc : row.status = .cancelled)
    (h' : Reach (System.step S) (SparesCancelled d) q q') :
    Rows.find Document.id q'.shared.db.documents d = some row ∨
      Rows.find Document.id q'.shared.db.documents d = none := by
  obtain rfl : row.id = d := Rows.key_of_find hrow
  obtain ⟨hissued, hholds⟩ := copies_known (S := S) hissued hfresh h
  have hle : (Known.copied row.id q.shared.db).Le (Known.cancelled row) := by
    refine Known.documents_le (fun copy hcopy hid => (hcopy hid).current row hrow) fun copy hcopy hid => ?_
    rcases (hcopy hid).1.current row hrow with hlt | rfl
    · exact hlt
    · exact absurd hc (hcopy hid).2
  obtain ⟨hstays, -⟩ := reach_known (S := S) (G := fun w => Stays row w.db)
    (κ := fun _ => Known.cancelled row)
    (fun _ _ _ hG hx hok _ => reads_cancelled hG hc hx hok)
    (fun _ _ _ hG _ _ _ hcommit =>
      ⟨stays_step hG hc hcommit, .refl _⟩)
    h' ⟨hissued, hissued row (Rows.mem_of_find hrow),
      fun row' hrow' => Option.some.inj (hrow'.symm.trans hrow)⟩
    fun x hx => (hholds x hx).mono hle
  cases hfind : Rows.find Document.id q'.shared.db.documents row.id with
  | none => exact Or.inr rfl
  | some row' => exact Or.inl (congrArg some (hstays.row row' hfind))

end

namespace Sample

/-- The row once the erasure has begun. -/
def cancelledDocument : Document := { document with status := .cancelled, version := 2 }

/-- The document under review with a dead letter, while it is erased, corrected and
    retried. -/
def cancelling : System :=
  ⟨{ openWorld with db := { openWorld.db with dlq := [undelivered] } },
    [.erase erase, .review correctName, .retry retry]⟩

end Sample

/-- `SparesCancelled`, for the task that takes the step. -/
def Task.spares (d : Uuid) (db : Db) (x : Task) : Bool :=
  x.resets.all fun read =>
    read.2 ≠ d || (db.document? read.1 d).all fun row => row.status ≠ .cancelled

theorem spares_of_all {d : Uuid} {q : System} {i : ℕ}
    (h : ∀ x ∈ q.tasks[i]?, x.spares d q.shared.db = true) : SparesCancelled d q i := by
  intro x t row hx hresets hrow
  have := h x hx
  simpa [Task.spares, hresets, hrow] using this

/-- A correction and a retry have read the document when the erasure cancels it:
    both go on, both fail, and the run that the retry has enqueued skips its
    outcome. -/
theorem cancelled_absorbing_sample :
    ∃ q q' row, Reach (System.step Sample.site) (SparesCancelled Sample.documentId)
        Sample.cancelling q ∧
      Rows.find Document.id q.shared.db.documents Sample.documentId = some row ∧
        row.status = .cancelled ∧
      Reach (System.step Sample.site) (SparesCancelled Sample.documentId) q q' ∧
      Rows.find Document.id q'.shared.db.documents Sample.documentId = some row := by
  have hrun : (exec (checked (System.step Sample.site) fun q i =>
      ∀ x ∈ q.tasks[i]?, x.spares Sample.documentId q.shared.db = true) Sample.cancelling
        [1, 1, 1, 1, 1, 2, 2, 0, 0, 0]).any (fun q =>
          (Rows.find Document.id q.shared.db.documents Sample.documentId).any
              (fun row => row.status = .cancelled) &&
            (exec (checked (System.step Sample.site) fun q i =>
              ∀ x ∈ q.tasks[i]?, x.spares Sample.documentId q.shared.db = true) q
                ([2, 2, 1] ++ List.replicate 24 3 ++ [0])).any fun q' =>
                  (Rows.find Document.id q'.shared.db.documents Sample.documentId).isSome) = true := by
    decide +kernel
  obtain ⟨q, hq, hcancelled⟩ := exists_of_checked (fun _ _ => spares_of_all) hrun
  rw [Bool.and_eq_true] at hcancelled
  obtain ⟨hrow, hrun'⟩ := hcancelled
  obtain ⟨row, hrow, hc⟩ := (Option.any_eq_true _ _).1 hrow
  obtain ⟨q', hq', hthere⟩ := exists_of_checked (fun _ _ => spares_of_all) hrun'
  have hfresh : ∀ x ∈ Sample.cancelling.tasks, x.Fresh := by
    simp [Sample.cancelling, Task.Fresh, Sample.erase, Sample.correctName, Sample.reviewCall,
      Sample.retry]
  refine ⟨q, q', row, hq, hrow, of_decide_eq_true hc, hq', ?_⟩
  refine (cancelled_absorbing (by decide) hfresh hq hrow (of_decide_eq_true hc) hq').resolve_right ?_
  intro hnone
  rw [hnone] at hthere
  cases hthere

/-- A retry after the cancellation brings the document back. -/
theorem retry_revives_cancelled :
    ∃ q q' row, Reach (System.step Sample.site) (fun _ _ => True)
        ⟨Sample.undeliveredWorld, [.erase Sample.erase, .retry Sample.retry]⟩ q ∧
      Rows.find Document.id q.shared.db.documents Sample.documentId = some Sample.cancelledDocument ∧
      Reach (System.step Sample.site) (fun _ _ => True) q q' ∧
      Rows.find Document.id q'.shared.db.documents Sample.documentId = some row ∧
      row.status = .pending :=
  ⟨_, _, { Sample.document with status := .pending, version := 3 },
    reach_of_exec (l := [0, 0, 0]) rfl, rfl, reach_of_exec (l := [1, 1, 1, 1]) rfl, rfl, rfl⟩

end OcrService
