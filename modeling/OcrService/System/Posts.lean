/-
  The document at each POST of its webhook.

  `_process` schedules the delivery because of the final state of its run, and
  `_deliver_webhook` reads the row once, for the payload: neither looks at
  `is_dry_run`, and nothing is read again between two attempts of `deliver`.

  * `Task.posts`: the next step of a task is an attempt;
  * `outcome_row`: what a run leaves of the row, once its outcome has committed;
  * `erased_reach`: once an erasure has committed a transaction, the row is
    cancelled or gone;
  * `post_deliverable_iff`: when the row is that of a completed document that is
    no dry run.
-/
import OcrService.System.Completions

namespace OcrService

open Trans

/-! ## The attempts -/

/-- The document is there, completed, and no dry run. -/
def Db.Deliverable (db : Db) (d : Uuid) : Prop :=
  ∃ row, Rows.find Document.id db.documents d = some row ∧ row.status = .completed ∧ row.isDryRun = false

instance (db : Db) (d : Uuid) : Decidable (db.Deliverable d) :=
  decidable_of_iff (∃ row ∈ Rows.find Document.id db.documents d, row.status = .completed ∧
    row.isDryRun = false) Iff.rfl

/-- The next step of the task is a POST for document `d`. -/
def Task.posts (d : Uuid) : Task → Bool
  | .webhook t =>
    match t.pc with
    | .post _ attempt _ _ => t.documentId = d && attempt ≤ t.env.schedule.length
    | _ => false
  | _ => false

/-- No delivery of document `d` has been scheduled. -/
def Undelivered (d : Uuid) (q : System) : Prop := ∀ t, .webhook t ∈ q.tasks → t.documentId ≠ d

section
variable (S : Site) (d : Uuid)

/-- Step `i` commits the outcome of a run of document `d`. -/
def CommitsOutcome (q : System) (i : ℕ) : Prop :=
  ∃ r ws, q.tasks[i]? = some (.run r) ∧ r.documentId = d ∧ (r.move S q.shared).change = .commit ws

/-- Step `i` commits a transaction of an erasure of document `d`. -/
def CommitsErasure (q : System) (i : ℕ) : Prop :=
  ∃ e ws, q.tasks[i]? = some (.erase e) ∧ e.documentId = d ∧ (e.move S q.shared).change = .commit ws

/-- Step `i` commits neither. -/
structure Uncommitting (j : ℕ) (q : System) (i : ℕ) : Prop where
  allowed : Unrevived d j q i
  outcome : ¬ CommitsOutcome S d q i
  erasure : ¬ CommitsErasure S d q i

end

/-! ## Steps that leave the row alone -/

/-- The copies of document `d` satisfy `P`. -/
def Known.copies (d : Uuid) (P : Document → Prop) : Known :=
  .documents (fun copy => copy.id = d → P copy) fun _ => True

section
variable {S : Site} {κ : Known} {d : Uuid} {q q' : System} {i j : ℕ} {x : Task} {row : Document}

/-- **A step that commits neither an outcome nor an erasure** leaves the row as it is. -/
theorem uncommitting_step (hrow : Rows.find Document.id q.shared.db.documents d = some row)
    (hgiven : d ∈ q.shared.db.issued) (hx : q.tasks[i]? = some x) (hok : Uncommitting S d j q i)
    (hcommit : ∀ ws, (x.move S q.shared).change = .commit ws → Prepared S κ x ws) :
    Rows.find Document.id (q.shared.apply (x.move S q.shared).change).db.documents d = some row ∧
      d ∈ (q.shared.apply (x.move S q.shared).change).db.issued := by
  refine World.db_induction (P := fun db => Rows.find Document.id db.documents d = some row ∧
    d ∈ db.issued) ⟨hrow, hgiven⟩ ?_
  rintro ws hc hdb wr hwr db₁ db₂ ⟨hrow₁, hgiven₁⟩ happly
  have hprep := hcommit ws hc
  refine ⟨?_, issued_mono happly hgiven₁⟩
  cases documents_apply happly with
  | same hdocs => rw [hdocs, hrow₁]
  | @updated old new row' hne hold hv hdocs =>
    have hkey : Document.id { new.stored with version := old.version + 1 } = old.id :=
      (hprep.written hwr).keepsId old new rfl
    rw [hdocs, Rows.find_replace_other _ hkey ?_, hrow₁]
    intro hid
    cases hprep.written hwr with
    | @persist r _ _ _ _ hrid _ _ _ hp =>
      cases hp
      exact hok.outcome ⟨r, ws, hx, hrid.symm.trans hid, hc⟩
    | webhook hw => exact hw.elim
    | @cancel e _ _ heid => exact hok.erasure ⟨e, ws, hx, heid.symm.trans hid, hc⟩
    | reviewDocument => exact hok.allowed.review _ hx
    | retryDocument => exact hok.allowed.retry _ hx
    | storageKey =>
      cases hprep with
      | create => exact issued_of_create hdb hwr (hid ▸ hgiven)
  | @inserted row' hnew hdocs =>
    rw [hdocs, Rows.find_append_other (r := row'.stored) _ ?_, hrow₁]
    intro hid
    exact hnew (show row'.id ∈ db₁.issued from hid ▸ hgiven₁)
  | @deleted t id row' hread hdocs =>
    rw [hdocs, Rows.find_delete_other _ ?_, hrow₁]
    intro hid
    cases hprep.written hwr with
    | webhook hw => exact hw.elim
    | @delete e hpc => exact hok.erasure ⟨e, ws, hx, hid, hc⟩
    | persist _ _ _ _ _ hp => cases hp

/-- **As long as neither commits**, the row stays, and so does what tasks know of
    their copies of it. -/
theorem uncommitting_reach {P : Document → Prop} (hP : P row)
    (hrow : Rows.find Document.id q.shared.db.documents d = some row) (hgiven : d ∈ q.shared.db.issued)
    (hholds : ∀ x ∈ q.tasks, x.Holds S (Known.copies d P))
    (h : Reach (System.step S) (Uncommitting S d j) q q') :
    (Rows.find Document.id q'.shared.db.documents d = some row ∧ d ∈ q'.shared.db.issued) ∧
      ∀ x ∈ q'.tasks, x.Holds S (Known.copies d P) := by
  refine reach_known (κ := fun _ => Known.copies d P)
    (G := fun w => Rows.find Document.id w.db.documents d = some row ∧ d ∈ w.db.issued) ?_ ?_ h
    ⟨hrow, hgiven⟩ hholds
  · intro q i x hG _ _ _
    refine reads_documents ?_ fun _ _ _ _ _ => trivial
    intro t d' copy hread hid
    have hfind := (find_of_document? hread).2.2
    rw [hid] at hfind
    exact Option.some.inj (hG.1.symm.trans hfind) ▸ hP
  · intro q i x hG hx hok _ hcommit
    exact ⟨uncommitting_step hG.1 hG.2 hx hok hcommit, .refl _⟩

theorem uncommitting_of_not_passed (h : Reach (System.step S) (Unrevived d j) q q')
    (hout : ¬ Passed (System.step S) (Unrevived d j) (CommitsOutcome S d) q q')
    (herase : ¬ Passed (System.step S) (Unrevived d j) (CommitsErasure S d) q q') :
    Reach (System.step S) (Uncommitting S d j) q q' := by
  have hneither : ¬ Passed (System.step S) (Unrevived d j)
      (fun q i => CommitsOutcome S d q i ∨ CommitsErasure S d q i) q q' := by
    rintro ⟨s, i, s', hr, hok, hcommits | hcommits, hs, hr'⟩
    · exact hout ⟨s, i, s', hr, hok, hcommits, hs, hr'⟩
    · exact herase ⟨s, i, s', hr, hok, hcommits, hs, hr'⟩
  refine (h.of_not_passed hneither).mono ?_
  rintro q i ⟨hok, hnone⟩
  exact ⟨hok, fun hc => hnone (Or.inl hc), fun hc => hnone (Or.inr hc)⟩

end

/-! ## Once an erasure has committed -/

/-- The row of document `d`, if it is there, is tenant `t`'s. -/
structure Tenanted (d t : Uuid) (db : Db) : Prop where
  issued : db.Issued
  given : d ∈ db.issued
  row : ∀ row, Rows.find Document.id db.documents d = some row → row.tenantId = t

/-- Copies of document `d` are no newer than its row, and tenant `t`'s; one that
    was read cancelled was so for good. -/
def Known.tracked (d t : Uuid) (db : Db) : Known :=
  .documents (fun copy => copy.id = d → Copied d db copy ∧ copy.tenantId = t ∧
      (copy.status = .cancelled → Calm d (· = .cancelled) db))
    fun _ => False

section
variable {S : Site} {κ : Known} {d t : Uuid} {db db' : Db} {wr : Write} {w : World} {q q' : System}
  {i j : ℕ} {x : Task}

/-- No update made from a live copy gets through to a cancelled row. -/
theorem cancelled_apply (h : Calm d (· = .cancelled) db) (hw : wr.KeepsId)
    (hupd : ∀ old new, wr = .updateDocument old new → old.id = d →
      new.status = .cancelled ∨ Copied d db old ∧ old.status ≠ .cancelled)
    (hdb : wr.apply db = .ok db') : Calm d (· = .cancelled) db' := by
  refine ⟨issued_apply h.issued hw hdb, issued_mono hdb h.given, row_all_apply h.given h.row hw ?_ hdb⟩
  rintro old new row hwr - hid hrow hv
  rcases hupd old new hwr hid with hnew | ⟨hcopied, hlive⟩
  · exact hnew
  · rcases hcopied.current row hrow with hlt | rfl
    · exact absurd hv hlt.ne'
    · exact absurd (h.row old hrow) hlive

/-- **A cancelled document stays cancelled**, or goes. -/
theorem cancelled_step (h : Calm d (· = .cancelled) w.db)
    (hcommit : ∀ ws, (x.move S w).change = .commit ws → Prepared S (Known.tracked d t w.db) x ws) :
    Calm d (· = .cancelled) (w.apply (x.move S w).change).db := by
  refine (World.db_induction (P := fun db => Calm d (· = .cancelled) db ∧
    ∀ copy, Copied d w.db copy → Copied d db copy) ⟨h, fun _ => id⟩ ?_).1
  rintro ws hc hdb wr hwr db₁ db₂ ⟨hcalm, hkeep⟩ happly
  have hprep := hcommit ws hc
  have hid := (hprep.written hwr).keepsId
  refine ⟨cancelled_apply hcalm hid ?_ happly, fun copy hcopy => copied_apply (hkeep copy hcopy) hid happly⟩
  rintro old new rfl hd
  obtain ⟨-, -, hstatus⟩ := hprep.update_given hdb hwr (hd ▸ h.given)
  cases hstatus with
  | persist hdoc hlive => exact Or.inr ⟨hkeep _ (hdoc hd).1, hlive⟩
  | cancel _ hnew =>
    left
    rw [hnew]
  | reset hreset => exact hreset.elim

/-- A step keeps the tenant of the document. -/
theorem tenanted_step (h : Tenanted d t w.db)
    (hcommit : ∀ ws, (x.move S w).change = .commit ws → Prepared S (Known.tracked d t w.db) x ws) :
    Tenanted d t (w.apply (x.move S w).change).db := by
  refine World.db_induction h ?_
  intro ws hc hdb wr hwr db₁ db₂ h₁ happly
  have hprep := hcommit ws hc
  have hkeep := (hprep.written hwr).keepsId
  refine ⟨issued_apply h₁.issued hkeep happly, issued_mono happly h₁.given,
    row_all_apply h₁.given h₁.row hkeep ?_ happly⟩
  rintro old new row rfl - hid - -
  obtain ⟨-, hpins, hstatus⟩ := hprep.update_given hdb hwr (hid ▸ h.given)
  have hold : old.tenantId = t := by
    cases hstatus with
    | persist hdoc | cancel hdoc => exact (hdoc hid).2.1
    | reset hreset => exact hreset.elim
  exact (congrArg Prod.fst hpins).trans hold

/-- What a run or an erasure reads is tracked. -/
theorem reads_tracked (h : Tenanted d t q.shared.db) (hx : q.tasks[i]? = some x) (hok : Unrevived d j q i) :
    x.Reads (Known.tracked d t q.shared.db) q.shared := by
  refine reads_documents ?_ ?_
  · intro t' d' row hrow hid
    have hfind := (find_of_document? hrow).2.2
    rw [hid] at hfind
    refine ⟨copied_read h.issued hrow hid, h.row row hfind, fun hc => ⟨h.issued, h.given, ?_⟩⟩
    intro row' hrow'
    cases Option.some.inj (hfind.symm.trans hrow')
    exact hc
  · intro t' d' row hreset hrow
    cases x with
    | review r => exact hok.review r hx
    | retry y => exact hok.retry y hx
    | _ => cases hreset

theorem tracked_le (h : Tenanted d t w.db)
    (hcommit : ∀ ws, (x.move S w).change = .commit ws → Prepared S (Known.tracked d t w.db) x ws) :
    (Known.tracked d t w.db).Le (Known.tracked d t (w.apply (x.move S w).change).db) := by
  refine Known.documents_le ?_ fun _ => id
  intro copy hcopy hid
  obtain ⟨hcopied, htenant, hcancelled⟩ := hcopy hid
  refine ⟨(copied_step h.issued hcommit).2 copy hcopied, htenant, ?_⟩
  exact fun hc => cancelled_step (hcancelled hc) hcommit

/-- In every state reached, the copies are tracked. -/
theorem tracked_reach (h₀ : Tenanted d t q.shared.db)
    (hholds : ∀ x ∈ q.tasks, x.Holds S (Known.tracked d t q.shared.db))
    (h : Reach (System.step S) (Unrevived d j) q q') :
    Tenanted d t q'.shared.db ∧ ∀ x ∈ q'.tasks, x.Holds S (Known.tracked d t q'.shared.db) :=
  reach_known (G := fun w => Tenanted d t w.db) (κ := fun w => Known.tracked d t w.db)
    (fun _ _ _ hG hx hok _ => reads_tracked hG hx hok)
    (fun _ _ _ hG _ _ _ hcommit => ⟨tenanted_step hG hcommit, tracked_le hG hcommit⟩) h h₀ hholds

/-- Once cancelled, a document stays so. -/
theorem erased_reach (h₀ : Tenanted d t q.shared.db)
    (hholds : ∀ x ∈ q.tasks, x.Holds S (Known.tracked d t q.shared.db))
    (hcalm : Calm d (· = .cancelled) q.shared.db) (h : Reach (System.step S) (Unrevived d j) q q') :
    Calm d (· = .cancelled) q'.shared.db := by
  refine (reach_known (G := fun w => Tenanted d t w.db ∧ Calm d (· = .cancelled) w.db)
    (κ := fun w => Known.tracked d t w.db) (fun _ _ _ hG hx hok _ => reads_tracked hG.1 hx hok) ?_ h
    ⟨h₀, hcalm⟩ hholds).1.2
  intro q i x hG _ _ _ hcommit
  exact ⟨⟨tenanted_step hG.1 hcommit, cancelled_step hG.2 hcommit⟩, tracked_le hG.1 hcommit⟩

/-- The last transaction of its tenant's erasure leaves no document. -/
theorem calm_of_deleteWrites {e : EraseTask} (h : Tenanted d e.tenantId db) (hd : e.documentId = d)
    (hdb : db.commit (e.deleteWrites S) = .ok db') : Calm d (· = .cancelled) db' := by
  subst hd
  obtain ⟨db₁, h₁, h₂⟩ := Db.commit_cons_ok.1 hdb
  have hdelete : (Write.deleteDocument e.tenantId e.documentId).KeepsId := by
    intro old new h
    cases h
  have htombstone : (tombstone S e.tenantId e.documentId).KeepsId := by
    intro old new h
    cases h
  have happly := commit_one.1 h₂
  refine ⟨issued_apply (issued_apply h.issued hdelete h₁) htombstone happly,
    issued_mono happly (issued_mono h₁ h.given), ?_⟩
  intro row hrow
  have hsame := row_keeps (d := e.documentId) (w := tombstone S e.tenantId e.documentId) trivial happly
  obtain ⟨hrow₀, hother⟩ := find_deleteDocument h₁ (hsame.symm.trans hrow)
  exact absurd (h.row row hrow₀) hother

/-- **An erasure that commits** leaves the document cancelled, or no document. -/
theorem calm_of_erasure (h : Tenanted d t q.shared.db)
    (hholds : ∀ x ∈ q.tasks, x.Holds S (Known.tracked d t q.shared.db)) (hc : CommitsErasure S d q i)
    (hs : System.step S q i = some q') : Calm d (· = .cancelled) q'.shared.db := by
  obtain ⟨e, ws, hx, hd, hchange⟩ := hc
  have hsh : q'.shared = q.shared.apply (e.move S q.shared).change := System.shared_step hs hx
  have hknown := hholds _ (List.mem_of_getElem? hx)
  obtain ⟨hwrites, db, hdb⟩ := EraseTask.change_commit hchange
  rw [hsh, hchange, World.apply_commit_ok hdb]
  rcases hwrites with ⟨document, hpc, rfl⟩ | ⟨hpc, rfl⟩
  · obtain ⟨hdoc, hid, -⟩ : (Known.tracked d t q.shared.db).document document ∧
        document.id = e.documentId ∧ document.tenantId = e.tenantId := by
      simpa only [Task.Holds, EraseTask.Holds, hpc] using hknown
    exact calm_of_cancelWrites h.issued h.given (hid.trans hd) (hdoc (hid.trans hd)).2.2 hdb
  · obtain ⟨document, hdoc, hid, htenant⟩ : ∃ document, (Known.tracked d t q.shared.db).document document ∧
        document.id = e.documentId ∧ document.tenantId = e.tenantId := by
      simpa only [Task.Holds, EraseTask.Holds, hpc] using hknown
    have hown : e.tenantId = t := htenant.symm.trans (hdoc (hid.trans hd)).2.1
    subst hown
    exact calm_of_deleteWrites h hd hdb

end

/-! ## What the outcome leaves -/

section
variable {S : Site} {d : Uuid} {q₀ q q' : System} {i j : ℕ} {r : RunTask} {row : Document} {ws : List Write}

/-- **The commit of an outcome** gives the row its status. -/
theorem outcome_row {f : ExtractionState} (hrow : Rows.find Document.id q.shared.db.documents d = some row)
    (hd : r.documentId = d) (hprepares : (Task.run r).Prepares S)
    (hholds : (Task.run r).Holds S (Known.copies d (· = row)))
    (hc : (r.move S q.shared).change = .commit ws) (hpc : r.pc = .commit f ws) :
    ∃ row', Rows.find Document.id (q.shared.apply (r.move S q.shared).change).db.documents d = some row' ∧
      row'.status = persistedStatus f ∧ row'.isDryRun = row.isDryRun := by
  obtain ⟨-, -, -, -, db, hdb⟩ := RunTask.change_commit hc
  obtain ⟨document, hid, -, hws⟩ : ∃ document, document.id = r.documentId ∧
      document.tenantId = r.tenantId ∧
        persistWrites S r.tenantId r.env.nonces document f = .ok ws := by
    simpa only [Task.Prepares, RunTask.Prepares, hpc] using hprepares
  have hprep : Prepared S (Known.copies d (· = row)) (.run r) ws := by
    simpa only [Task.Holds, RunTask.Holds, hpc] using hholds
  -- the document written is the one that was read
  obtain rfl : document = row := by
    cases hprep with
    | persist hknown hid' _ _ _ hws' =>
      obtain ⟨rest, hhead⟩ := persistWrites_head hws
      obtain ⟨rest', hhead'⟩ := persistWrites_head hws'
      obtain ⟨hsame, -⟩ := Write.updateDocument.inj (List.cons.inj (hhead.symm.trans hhead')).1
      exact hsame.trans (hknown (hid'.trans hd))
  have hkey : document.id = d := hid.trans hd
  rw [← hkey] at hrow
  obtain ⟨⟨row', hrow', -, hdry, hstatus⟩, -⟩ := persist_rows hrow hws hdb
  refine ⟨row', ?_, hstatus, hdry⟩
  rw [hc, World.apply_commit_ok hdb, ← hkey]
  exact hrow'

/-- Only a run at its commit commits an outcome. -/
theorem not_passed_outcome (hrun : q.tasks[j]? = some (.run r)) (hd : r.documentId = d)
    (hpast : ∀ r', q'.tasks[j]? = some (.run r') → r.pc.past = true ∨ r'.pc.past = false) :
    ¬ Passed (System.step S) (Unrevived d j) (CommitsOutcome S d) q q' := by
  rintro ⟨s, a, s', hr, hok, ⟨r₁, ws, hx, hd₁, hc⟩, hs, hr'⟩
  obtain rfl := hok.run r₁ hx hd₁
  obtain ⟨f, hpc, hx'⟩ := persisted_of_commit hx hc hs
  obtain ⟨r₂, hx₂, -, hbefore⟩ := unpersisting_reach hrun hd hr
  cases Option.some.inj (hx.symm.trans hx₂)
  obtain ⟨r₃, hx₃, -, hafter⟩ := unpersisting_reach hx' hd₁ hr'
  rcases hpast r₃ hx₃ with hpast | hpast
  · have hearly := (hbefore (by rw [hpc]; rfl)).1
    rw [hpast] at hearly
    cases hearly
  · have hlate := (hafter hpast).1
    cases hlate

end

/-! ## Who schedules the delivery -/

section
variable {S : Site} {w : World} {d : Uuid} {q q' : System} {i j : ℕ} {x : Task} {r : RunTask}
  {f : ExtractionState}

/-- A run of another document schedules no delivery of this one. -/
theorem schedules_elsewhere (hd : r.documentId ≠ d) : (Task.run r).schedules S w d = 0 := by
  by_cases hpc : ∃ f, r.pc = .persisted f
  · obtain ⟨f, hpc⟩ := hpc
    simp only [Task.schedules, Task.move, countP_webhooks, RunTask.move, hpc, RunTask.scheduledWebhooks]
    split_ifs
    · simp [hd]
    · rfl
  · exact schedules_run fun f h => hpc ⟨f, h⟩

/-- Nor does one that did not end `completed`. -/
theorem schedules_uncompleted (hpc : r.pc = .persisted f) (hf : f.status ≠ some .completed) :
    (Task.run r).schedules S w d = 0 := by
  simp only [Task.schedules, Task.move, countP_webhooks, RunTask.move, hpc, RunTask.scheduledWebhooks,
    if_neg hf, List.countP_nil]

/-- Another task than the run schedules none. -/
theorem schedules_unrevived (hx : q.tasks[i]? = some x) (hok : Unrevived d j q i) (hij : i ≠ j) :
    x.schedules S w d = 0 := by
  cases x with
  | run r => exact schedules_elsewhere fun hd => hij (hok.run r hx hd)
  | _ => exact schedules_other rfl

theorem WebhookTask.move_documentId {t : WebhookTask} : (t.move S w).task.documentId = t.documentId := by
  cases hpc : t.pc <;> simp only [WebhookTask.move, hpc]
  all_goals
    repeat' split
    all_goals rfl

/-- A step that schedules no delivery adds none. -/
theorem undelivered_step (h : Undelivered d q) (hs : System.step S q i = some q')
    (hx : q.tasks[i]? = some x) (hnone : x.schedules S q.shared d = 0) : Undelivered d q' := by
  intro t ht
  rcases Pool.mem_of_step hs hx ht with hu | hu | hu
  · cases x with
    | webhook t' =>
      obtain rfl := Task.webhook.inj hu
      rw [WebhookTask.move_documentId]
      exact h t' (List.mem_of_getElem? hx)
    | _ => cases hu
  · intro hd
    have := List.countP_eq_zero.1 hnone _ hu
    simp [hd] at this
  · exact h t hu

/-- **Before its outcome is persisted**, nothing has been scheduled. -/
theorem undelivered_reach (h₀ : Undelivered d q) (hrun : q.tasks[j]? = some (.run r))
    (hd : r.documentId = d) (h : Reach (System.step S) (Unrevived d j) q q') :
    ∃ r', q'.tasks[j]? = some (.run r') ∧ r'.documentId = d ∧
      ((Task.run r').spent = false → Undelivered d q') := by
  induction h with
  | refl => exact ⟨r, hrun, hd, fun _ => h₀⟩
  | @tail q₁ q₂ i hr hok hs ih =>
    obtain ⟨r₁, hr₁, hd₁, hnone⟩ := ih
    rcases Pool.moved_or_same_of_step hs hr₁ with ⟨rfl, hr₂⟩ | ⟨hij, hr₂⟩
    · obtain ⟨pc, hmove, -⟩ := RunTask.move_past (S := S) (w := q₁.shared) (r := r₁)
      refine ⟨r₁.goto pc, ?_, hd₁, ?_⟩
      · rw [hr₂, ← hmove]
        rfl
      · intro hspent
        have hpc : ∀ f, r₁.pc ≠ .persisted f := by
          intro f hf
          have hspent' : (Task.run (r₁.move S q₁.shared).task).spent = true := by
            simp only [RunTask.move, hf]
            rfl
          rw [hmove, hspent] at hspent'
          cases hspent'
        refine undelivered_step (hnone ?_) hs hr₁ (schedules_run hpc)
        by_contra hover
        have hspent' := spent_move (S := S) (w := q₁.shared) (Bool.eq_true_of_not_eq_false hover)
        simp only [Task.move, hmove, hspent] at hspent'
        cases hspent'
    · refine ⟨r₁, hr₂, hd₁, fun hspent => ?_⟩
      obtain ⟨x, hx, -⟩ := Pool.step_eq_some hs
      exact undelivered_step (hnone hspent) hs hx (schedules_unrevived hx hok hij)

/-- **A delivery has been scheduled** because the outcome was `completed`. -/
theorem completed_of_delivered {t : WebhookTask} (h₀ : Undelivered d q)
    (hrun : q.tasks[j]? = some (.run r)) (hpc : r.pc = .persisted f)
    (h : Reach (System.step S) (Unrevived d j) q q') (ht : .webhook t ∈ q'.tasks)
    (htd : t.documentId = d) : f.status = some .completed := by
  by_contra hf
  have hnone : (∃ r', q'.tasks[j]? = some (.run r') ∧
      (r'.pc = .persisted f ∨ (Task.run r').spent = true)) ∧ Undelivered d q' := by
    refine h.invariant (I := fun q => (∃ r', q.tasks[j]? = some (.run r') ∧
      (r'.pc = .persisted f ∨ (Task.run r').spent = true)) ∧ Undelivered d q)
      ⟨⟨r, hrun, Or.inl hpc⟩, h₀⟩ ?_
    rintro q₁ i q₂ ⟨⟨r₁, hr₁, hlate⟩, hnone⟩ hok hs
    rcases Pool.moved_or_same_of_step hs hr₁ with ⟨rfl, hr₂⟩ | ⟨hij, hr₂⟩
    · have hmute : (Task.run r₁).schedules S q₁.shared d = 0 := by
        rcases hlate with hpc | hspent
        · exact schedules_uncompleted hpc hf
        · exact spent_schedules hspent
      refine ⟨⟨_, hr₂, Or.inr ?_⟩, undelivered_step hnone hs hr₁ hmute⟩
      rcases hlate with hpc | hspent
      · simp only [RunTask.move, hpc]
        rfl
      · exact spent_move hspent
    · obtain ⟨x, hx, -⟩ := Pool.step_eq_some hs
      exact ⟨⟨r₁, hr₂, hlate⟩, undelivered_step hnone hs hx (schedules_unrevived hx hok hij)⟩
  exact hnone.2 t ht htd

end

/-! ## The posts -/

section
variable {S : Site} {d : Uuid} {q₀ q : System} {j : ℕ} {x : Task} {r : RunTask} {row₀ : Document}

theorem webhook_of_posts (h : x.posts d = true) : ∃ t, x = .webhook t ∧ t.documentId = d := by
  cases x with
  | webhook t =>
    simp only [Task.posts] at h
    cases hpc : t.pc <;> simp only [hpc] at h <;> try cases h
    simp only [Bool.and_eq_true, decide_eq_true_eq] at h
    exact ⟨t, rfl, h.1⟩
  | _ => cases h

theorem tenanted_of_find (hissued : q₀.shared.db.Issued)
    (hrow : Rows.find Document.id q₀.shared.db.documents d = some row₀) :
    Tenanted d row₀.tenantId q₀.shared.db := by
  refine ⟨hissued, ?_, ?_⟩
  · have hgiven := hissued row₀ (Rows.mem_of_find hrow)
    rwa [Rows.key_of_find hrow] at hgiven
  · intro row hrow'
    cases Option.some.inj (hrow.symm.trans hrow')
    rfl

/-- After an erasure has committed. -/
theorem undeliverable_of_erasure (hissued : q₀.shared.db.Issued)
    (hrow : Rows.find Document.id q₀.shared.db.documents d = some row₀) (hfresh : ∀ x ∈ q₀.tasks, x.Fresh)
    (h : Passed (System.step S) (Unrevived d j) (CommitsErasure S d) q₀ q) :
    ¬ q.shared.db.Deliverable d := by
  obtain ⟨s, i, s', hr, hok, hcommits, hs, hr'⟩ := h
  have h₀ := tenanted_of_find hissued hrow
  obtain ⟨hs₁, hholds₁⟩ := tracked_reach h₀ (fun x hx => (hfresh x hx).holds) hr
  obtain ⟨hs₂, hholds₂⟩ := tracked_reach h₀ (fun x hx => (hfresh x hx).holds) (hr.tail hok hs)
  have hcalm := erased_reach hs₂ hholds₂ (calm_of_erasure hs₁ hholds₁ hcommits hs) hr'
  rintro ⟨row, hfind, hstatus, -⟩
  rw [hcalm.row row hfind] at hstatus
  cases hstatus

/-- Before the outcome has committed. -/
theorem row_before_outcome (hissued : q₀.shared.db.Issued)
    (hrow : Rows.find Document.id q₀.shared.db.documents d = some row₀) (hfresh : ∀ x ∈ q₀.tasks, x.Fresh)
    (h : Reach (System.step S) (Unrevived d j) q₀ q)
    (hout : ¬ Passed (System.step S) (Unrevived d j) (CommitsOutcome S d) q₀ q)
    (herase : ¬ Passed (System.step S) (Unrevived d j) (CommitsErasure S d) q₀ q) :
    (Rows.find Document.id q.shared.db.documents d = some row₀ ∧ d ∈ q.shared.db.issued) ∧
      ∀ x ∈ q.tasks, x.Holds S (Known.copies d (· = row₀)) := by
  have hquiet := uncommitting_of_not_passed h hout herase
  exact uncommitting_reach (P := (· = row₀)) rfl hrow (tenanted_of_find hissued hrow).given
    (fun x hx => (hfresh x hx).holds) hquiet

/-- **After the outcome has committed**, a delivery is that of a completed row. -/
theorem row_after_outcome (hissued : q₀.shared.db.Issued)
    (hrow : Rows.find Document.id q₀.shared.db.documents d = some row₀) (hfresh : ∀ x ∈ q₀.tasks, x.Fresh)
    (hrun : q₀.tasks[j]? = some (.run r)) (hd : r.documentId = d) (hnone : Undelivered d q₀)
    (hout : Passed (System.step S) (Unrevived d j) (CommitsOutcome S d) q₀ q)
    (herase : ¬ Passed (System.step S) (Unrevived d j) (CommitsErasure S d) q₀ q)
    {t : WebhookTask} (ht : .webhook t ∈ q.tasks) (htd : t.documentId = d) :
    ∃ row, Rows.find Document.id q.shared.db.documents d = some row ∧ row.status = .completed ∧
      row.isDryRun = row₀.isDryRun := by
  obtain ⟨s, i, s', hr, hok, ⟨r₁, ws, hx₁, hd₁, hc⟩, hs, hr'⟩ := hout
  obtain rfl := hok.run r₁ hx₁ hd₁
  have hmem := List.mem_of_getElem? hx₁
  obtain ⟨f, hpc, hx'⟩ := persisted_of_commit hx₁ hc hs
  -- up to the commit the row is the one of the start
  have hfirst : ¬ Passed (System.step S) (Unrevived d i) (CommitsOutcome S d) q₀ s := by
    refine not_passed_outcome hrun hd ?_
    intro r' hr'
    cases Option.some.inj (hx₁.symm.trans hr')
    rw [hpc]
    exact Or.inr rfl
  have hlive : ¬ Passed (System.step S) (Unrevived d i) (CommitsErasure S d) q₀ s := by
    rintro ⟨u, a, u', hu, hua, huc, hus, hus'⟩
    exact herase ⟨u, a, u', hu, hua, huc, hus, (hus'.tail hok hs).trans hr'⟩
  obtain ⟨⟨hrow₁, hgiven⟩, hholds⟩ := row_before_outcome hissued hrow hfresh hr hfirst hlive
  obtain ⟨row, hrow', hstatus, hdry⟩ :=
    outcome_row hrow₁ hd₁ (reach_prepares hfresh hr _ hmem) (hholds _ hmem) hc hpc
  -- from there on it stays
  have hlast : Reach (System.step S) (Uncommitting S d i) s' q := by
    refine uncommitting_of_not_passed hr' ?_ fun hpassed => herase (hpassed.head (hr.tail hok hs))
    exact not_passed_outcome hx' hd₁ fun _ _ => Or.inl rfl
  obtain ⟨htenanted, htracked⟩ := tracked_reach (tenanted_of_find hissued hrow)
    (fun x hx => (hfresh x hx).holds) (hr.tail hok hs)
  have hle : (Known.tracked d row₀.tenantId s'.shared.db).Le (Known.copies d fun _ => True) :=
    Known.documents_le (fun _ _ _ => trivial) fun _ _ => trivial
  have hfind := (uncommitting_reach (P := fun _ => True) trivial (System.shared_step hs hx₁ ▸ hrow')
    htenanted.given (fun x hx => (htracked x hx).mono hle) hlast).1.1
  obtain ⟨r₂, hx₂, -, hundelivered⟩ := undelivered_reach hnone hrun hd (hr.tail hok hs)
  cases Option.some.inj (hx'.symm.trans hx₂)
  have hcompleted := completed_of_delivered (hundelivered rfl) hx' rfl hr' ht htd
  refine ⟨row, hfind, ?_, hdry⟩
  rw [hstatus, persistedStatus, finalStatus, hcompleted]
  rfl

/-- **A POST of the webhook is for a deliverable document** iff it is no dry run,
    the outcome of its run has committed (or the document was completed before),
    and no erasure of it has committed a transaction. -/
theorem post_deliverable_iff (hissued : q₀.shared.db.Issued)
    (hrow : Rows.find Document.id q₀.shared.db.documents d = some row₀) (hfresh : ∀ x ∈ q₀.tasks, x.Fresh)
    (hrun : q₀.tasks[j]? = some (.run r)) (hd : r.documentId = d) (hnone : Undelivered d q₀)
    (h : Reach (System.step S) (Unrevived d j) q₀ q) (hx : x ∈ q.tasks) (hposts : x.posts d = true) :
    q.shared.db.Deliverable d ↔ row₀.isDryRun = false ∧
      (row₀.status = .completed ∨
        Passed (System.step S) (Unrevived d j) (CommitsOutcome S d) q₀ q) ∧
      ¬ Passed (System.step S) (Unrevived d j) (CommitsErasure S d) q₀ q := by
  obtain ⟨t, rfl, htd⟩ := webhook_of_posts hposts
  by_cases herase : Passed (System.step S) (Unrevived d j) (CommitsErasure S d) q₀ q
  · have hnot := undeliverable_of_erasure hissued hrow hfresh herase
    exact iff_of_false hnot fun hall => hall.2.2 herase
  by_cases hout : Passed (System.step S) (Unrevived d j) (CommitsOutcome S d) q₀ q
  · obtain ⟨row, hfind, hstatus, hdry⟩ :=
      row_after_outcome hissued hrow hfresh hrun hd hnone hout herase hx htd
    constructor
    · rintro ⟨row', hfind', -, hdry'⟩
      cases Option.some.inj (hfind.symm.trans hfind')
      exact ⟨hdry.symm.trans hdry', Or.inr hout, herase⟩
    · rintro ⟨hdry₀, -, -⟩
      exact ⟨row, hfind, hstatus, hdry.trans hdry₀⟩
  · obtain ⟨⟨hfind, -⟩, -⟩ := row_before_outcome hissued hrow hfresh h hout herase
    constructor
    · rintro ⟨row, hfind', hstatus, hdry⟩
      cases Option.some.inj (hfind.symm.trans hfind')
      exact ⟨hdry, Or.inl hstatus, herase⟩
    · rintro ⟨hdry, hstatus | hpassed, -⟩
      · exact ⟨row₀, hfind, hstatus, hdry⟩
      · exact absurd hpassed hout

end

/-! ## Three deliveries -/

namespace Sample

/-- The document is a dry run. -/
def dryRunWorld : World where
  db := { (world []).db with documents := [{ document with isDryRun := true }] }

end Sample

/-- A run completes its document and posts: the outcome has committed. -/
theorem post_deliverable_iff_run :
    ∃ q x, Reach (System.step Sample.site) (Unrevived Sample.documentId 0)
        ⟨Sample.world [], [.run Sample.run]⟩ q ∧ x ∈ q.tasks ∧ x.posts Sample.documentId = true ∧
      Passed (System.step Sample.site) (Unrevived Sample.documentId 0)
        (CommitsOutcome Sample.site Sample.documentId) ⟨Sample.world [], [.run Sample.run]⟩ q := by
  have hrun : (exec (checkedStep Sample.site Sample.documentId 0)
      ⟨Sample.world [], [.run Sample.run]⟩ (List.replicate 22 0 ++ [1, 1, 1])).any (fun q =>
        q.tasks.any (Task.posts Sample.documentId) &&
          decide (q.shared.db.Deliverable Sample.documentId)) = true := by
    decide +kernel
  obtain ⟨q, hreach, hfacts⟩ := exists_of_checkedStep hrun
  simp only [Bool.and_eq_true, decide_eq_true_eq] at hfacts
  obtain ⟨hposts, hdeliverable⟩ := hfacts
  obtain ⟨x, hx, hposts⟩ := List.any_eq_true.1 hposts
  have hfresh : ∀ x ∈ [Task.run Sample.run], x.Fresh := by
    intro x hx
    rw [List.mem_singleton.1 hx]
    rfl
  have hissued : (Sample.world []).db.Issued := by decide
  have hnone : Undelivered Sample.documentId ⟨Sample.world [], [.run Sample.run]⟩ := by
    intro t ht
    cases List.mem_singleton.1 ht
  have hrow : Rows.find Document.id (Sample.world []).db.documents Sample.documentId =
      some Sample.document := rfl
  have hd : Sample.run.documentId = Sample.documentId := rfl
  have hcondition :=
    (post_deliverable_iff hissued hrow hfresh rfl hd hnone hreach hx hposts).1 hdeliverable
  refine ⟨q, x, hreach, hx, hposts, hcondition.2.1.resolve_left ?_⟩
  intro hcompleted
  cases hcompleted

/-- A dry run is posted; and so is a document that an erasure has cancelled
    between two attempts. -/
theorem posts_undeliverable :
    (∃ q x, Reach (System.step Sample.site) (Unrevived Sample.documentId 0)
        ⟨Sample.dryRunWorld, [.run Sample.run]⟩ q ∧
      x ∈ q.tasks ∧ x.posts Sample.documentId = true ∧ ¬ q.shared.db.Deliverable Sample.documentId) ∧
    ∃ q x, Reach (System.step Sample.site) (Unrevived Sample.documentId 0)
        ⟨Sample.world [], [.run Sample.run, .erase Sample.erase]⟩ q ∧
      x ∈ q.tasks ∧ x.posts Sample.documentId = true ∧ ¬ q.shared.db.Deliverable Sample.documentId := by
  have hposted {q₀ : System} {l : List ℕ}
      (h : (exec (checkedStep Sample.site Sample.documentId 0) q₀ l).any (fun q =>
        q.tasks.any (Task.posts Sample.documentId) &&
          decide (¬ q.shared.db.Deliverable Sample.documentId)) = true) :
      ∃ q x, Reach (System.step Sample.site) (Unrevived Sample.documentId 0) q₀ q ∧
        x ∈ q.tasks ∧ x.posts Sample.documentId = true ∧
          ¬ q.shared.db.Deliverable Sample.documentId := by
    obtain ⟨q, hreach, hfacts⟩ := exists_of_checkedStep h
    simp only [Bool.and_eq_true, decide_eq_true_eq] at hfacts
    obtain ⟨x, hx, hposts⟩ := List.any_eq_true.1 hfacts.1
    exact ⟨q, x, hreach, hx, hposts, hfacts.2⟩
  constructor
  · refine hposted (l := List.replicate 22 0 ++ [1, 1, 1]) ?_
    decide +kernel
  · refine hposted (l := List.replicate 22 0 ++ [2, 2, 2, 2, 1, 1, 1]) ?_
    decide +kernel

end OcrService
