/-
  Erasure and the work in flight.

  `erase_document` deletes the points of a document, purges its checkpoints, and
  then commits the deletion with its `ERASURE_COMPLETED` event.  A run or a
  review that is under way writes its checkpoint or point without a look at the
  erasure; if none does so once the erasure has purged them, nothing of the
  document is left when the event is there (`erasure_stays`).
-/
import OcrService.System.Changes
import OcrService.System.Pins

namespace OcrService

open Trans PyData

/-! ## How far an erasure is -/

namespace ErasePc

def pointsDeleted : ErasePc → Bool
  | .purge | .delete | .clear | .done .returned => true
  | _ => false

def purged : ErasePc → Bool
  | .delete | .clear | .done .returned => true
  | _ => false

def completed : ErasePc → Bool
  | .clear | .done .returned => true
  | _ => false

theorem of_completed {pc : ErasePc} (h : pc.completed = true) :
    pc.purged = true ∧ pc.pointsDeleted = true := by
  cases pc with
  | clear => exact ⟨rfl, rfl⟩
  | done outcome =>
    cases outcome with
    | returned => exact ⟨rfl, rfl⟩
    | raised => cases h
  | _ => cases h

end ErasePc

/-- An erasure of document `d` has got as far as `far`. -/
def Erasing (d : Uuid) (far : ErasePc → Bool) (q : System) : Prop :=
  ∃ e, .erase e ∈ q.tasks ∧ e.documentId = d ∧ far e.pc = true

/-- Step `i` writes no checkpoint of document `d` after an erasure has purged
    them, and no point of it after an erasure has deleted them. -/
structure Timely (d : Uuid) (q : System) (i : ℕ) : Prop where
  checkpoint : ∀ r, q.tasks[i]? = some (.run r) → r.documentId = d → r.pc.saves = true →
    ¬ Erasing d ErasePc.purged q
  point : ∀ r draft corrected document, q.tasks[i]? = some (.review r) →
    r.pc = .upsert draft corrected document → draft.old.documentId = d →
      ¬ Erasing d ErasePc.pointsDeleted q

section
variable {S : Site} {w : World} {e : EraseTask}

theorem EraseTask.move_goto : ∃ pc, (e.move S w).task = e.goto pc := by
  cases hpc : e.pc <;> simp only [EraseTask.move, hpc]
  case done o => exact ⟨.done o, by rw [goto, ← hpc]⟩
  all_goals
    repeat' split
    all_goals exact ⟨_, rfl⟩

/-- The points are deleted by the step before. -/
theorem EraseTask.move_pointsDeleted (h : (e.move S w).task.pc.pointsDeleted = true) :
    e.pc.pointsDeleted = true ∨ e.pc = .deletePoints ∧ (e.raises .deletePoints = false →
      (e.move S w).change = .deletePoints e.tenantId e.documentId) := by
  cases hpc : e.pc <;> simp only [EraseTask.move, hpc] at h ⊢
  case deletePoints => exact Or.inr ⟨trivial, fun hr => by simp [hr]⟩
  case purge | delete | clear => exact Or.inl rfl
  case done o => exact Or.inl (hpc ▸ h)
  all_goals
    repeat' split at h
    all_goals cases h

/-- The checkpoints are purged by the step before. -/
theorem EraseTask.move_purged (h : (e.move S w).task.pc.purged = true) :
    e.pc.purged = true ∨ (e.move S w).change = .purgeCheckpoints e.documentId := by
  cases hpc : e.pc <;> simp only [EraseTask.move, hpc] at h ⊢
  case purge =>
    right
    split_ifs at h ⊢ with hr
    · cases h
    · rfl
  case delete | clear => exact Or.inl rfl
  case done o => exact Or.inl (hpc ▸ h)
  all_goals
    repeat' split at h
    all_goals cases h

/-- A completed erasure stays completed. -/
theorem EraseTask.move_completed (h : e.pc.completed = true) : (e.move S w).task.pc.completed = true := by
  cases hpc : e.pc <;> simp only [hpc] at h <;> simp only [EraseTask.move, hpc]
  case clear => rfl
  case done o => exact hpc ▸ h
  all_goals cases h

/-- The last transaction completes the erasure. -/
theorem EraseTask.move_deleted {ws : List Write} (hpc : e.pc = .delete)
    (h : (e.move S w).change = .commit ws) : (e.move S w).task.pc.completed = true := by
  simp only [EraseTask.move, hpc] at h ⊢
  split_ifs at h ⊢
  cases hdb : w.db.commit (e.deleteWrites S) with
  | error err => rw [hdb] at h; cases h
  | ok db => rfl

theorem SchemaRequest.move_schemaId {c : SchemaRequest} : (c.move w).task.schemaId = c.schemaId := by
  cases hpc : c.pc <;> simp only [SchemaRequest.move, hpc]
  all_goals
    repeat' split
    all_goals rfl

end

/-! ## Whose the rows and points are -/

/-- Review tasks and points of a document are its tenant's, as its row is. -/
structure Owned (document : Document) (w : World) : Prop where
  pins : PinsAgree document.id w.db
  row : Agree document.id w.db document
  reviews : ∀ row ∈ w.db.reviewTasks, row.documentId = document.id → row.tenantId = document.tenantId
  points : ∀ p ∈ w.points, p.documentId = document.id → p.tenantId = document.tenantId

/-- Copies of a document have its pins, and its review tasks are its tenant's. -/
def Known.owned (document : Document) : Known where
  document row := row.id = document.id → row.pins = document.pins
  reset row := row.id = document.id → row.pins = document.pins
  review row := row.documentId = document.id → row.tenantId = document.tenantId

/-- A task of which the erasure of document `d` is right about the points: a seed
    is not keyed to it, and deleting its points does not fail. -/
def Task.Proper (d : Uuid) : Task → Prop
  | .erase e => e.documentId = d → e.raises .deletePoints = false
  | .schema c => c.schemaId ≠ d
  | _ => True

section
variable {S : Site} {w : World} {x : Task} {document : Document} {d : Uuid}

theorem Task.Proper.move (h : x.Proper d) : (x.move S w).task.Proper d := by
  cases x with
  | erase e =>
    obtain ⟨pc, hpc⟩ := EraseTask.move_goto (S := S) (w := w) (e := e)
    simp only [Task.move, hpc]
    exact h
  | schema c =>
    show (c.move w).task.schemaId ≠ d
    rw [SchemaRequest.move_schemaId]
    exact h
  | _ => trivial

theorem Task.Fresh.proper_spawned {u : Task} (hu : u ∈ (x.move S w).spawned) : u.Proper d := by
  cases x with
  | run r => obtain ⟨v, -, rfl⟩ := List.mem_map.1 hu; trivial
  | extract r => obtain ⟨v, -, rfl⟩ := List.mem_map.1 hu; trivial
  | retry r => obtain ⟨v, -, rfl⟩ := List.mem_map.1 hu; trivial
  | webhook | erase | review | schema => cases hu

theorem proper_reach {ok : System → ℕ → Prop} {q q' : System} (hq : ∀ x ∈ q.tasks, x.Proper d)
    (h : Reach (System.step S) ok q q') : ∀ x ∈ q'.tasks, x.Proper d :=
  (Pool.reach_invariant (G := fun _ => True) (L := fun _ x => x.Proper d)
    (fun _ _ _ _ hx _ _ => ⟨trivial, hx.move, fun _ => Task.Fresh.proper_spawned⟩)
    (fun _ _ _ _ _ _ _ _ => id) h trivial hq).2

theorem owned_le : (Known.owned document).Le (Known.pinned document) :=
  ⟨id, id, fun _ => trivial, id, id, id, id⟩

theorem reads_owned (h : Owned document w) : x.Reads (Known.owned document) w := by
  have hread {t d : Uuid} : ∀ row, w.db.document? t d = some row → row.id = document.id →
      row.pins = document.pins := fun row hrow => h.row.pins row (mem_of_document? hrow)
  unfold Task.Reads
  repeat' split
  all_goals first
    | trivial
    | exact hread
    | exact fun _ _ => trivial
    | exact fun _ _ => ⟨trivial, trivial⟩
    | (intro row hrow
       exact h.reviews row (Rows.mem_of_find (Option.filter_eq_some_iff.1 hrow).1))

/-- A step keeps the ownership. -/
theorem owned_step (h : Owned document w) (hproper : x.Proper document.id)
    (hholds : x.Holds S (Known.owned document))
    (hcommit : ∀ ws, (x.move S w).change = .commit ws → Prepared S (Known.owned document) x ws) :
    Owned document (w.apply (x.move S w).change) := by
  obtain ⟨hpins, hrow⟩ := pinned_step h.pins h.row owned_le hcommit
  refine ⟨hpins, hrow, ?_, fun p hp hid => ?_⟩
  · refine World.db_induction (P := fun db => ∀ row ∈ db.reviewTasks, row.documentId = document.id →
      row.tenantId = document.tenantId) h.reviews ?_
    intro ws hc _ wr hwr db₁ db₂ h₁ h₂ row hrow hid
    rcases mem_reviewTasks_apply h₂ hrow with hrow | ⟨old, new, rfl, rfl⟩ | ⟨_, -, rfl, -⟩
    · exact h₁ row hrow hid
    · cases (hcommit ws hc).written hwr with
      | persist _ _ _ _ _ h => cases h
      | webhook h => exact h.elim
      | reviewTask hdraft =>
        obtain ⟨-, hd, ht, -⟩ := hdraft.new
        exact ht.trans (hdraft.review (hd.symm.trans hid))
    · generalize hd : row.documentId = d, ht : row.tenantId = t at hwr
      cases (hcommit ws hc).written hwr with
      | persist hdoc _ htenant _ _ h =>
        cases h
        have hpins := hdoc (hd.symm.trans hid)
        exact htenant.symm.trans (congrArg Prod.fst hpins)
      | webhook h => exact h.elim
  · rcases World.mem_points_apply hp with hp | hc
    · exact h.points p hp hid
    · have hmakes := x.makes (S := S) (w := w)
      rw [hc] at hmakes
      cases hmakes with
      | @upsertExample q draft corrected row hpc =>
        have hdraft : Draft (Known.owned document) q.tenantId draft := by
          simp only [Task.Holds, ReviewRequest.Holds, hpc] at hholds
          exact hholds.1
        exact hdraft.tenant.symm.trans (hdraft.review hid)
      | upsertSeed => exact absurd hid hproper

end

/-! ## Whole runs -/

/-- What an erasure has deleted stays deleted, and its event says that one is
    completed. -/
structure Erased (d : Uuid) (q : System) : Prop where
  points : Erasing d ErasePc.pointsDeleted q → ∀ p ∈ q.shared.points, p.documentId ≠ d
  checkpoints : Erasing d ErasePc.purged q → ∀ c ∈ q.shared.checkpoints, c.threadId ≠ d
  completed : (∃ row ∈ q.shared.db.auditLog, row.eventType = "ERASURE_COMPLETED" ∧ row.documentId = some d) →
    Erasing d ErasePc.completed q

section
variable {S : Site} {document : Document} {d : Uuid} {q q' : System} {i : ℕ} {x : Task}

/-- An erasure that is far after a step was so before, or has moved. -/
theorem erasing_step {far : ErasePc → Bool} (h : Erasing d far q') (hs : System.step S q i = some q')
    (hx : q.tasks[i]? = some x) :
    Erasing d far q ∨ ∃ e, x = .erase e ∧ e.documentId = d ∧ far (e.move S q.shared).task.pc = true := by
  obtain ⟨e, he, hd, hfar⟩ := h
  rcases Pool.mem_of_step hs hx he with hu | hu | hu
  · cases x with
    | erase e' =>
      obtain rfl := Task.erase.inj hu
      obtain ⟨pc, hpc⟩ := EraseTask.move_goto (S := S) (w := q.shared) (e := e')
      rw [hpc] at hd
      exact Or.inr ⟨e', rfl, hd, hfar⟩
    | _ => cases hu
  · cases x with
    | run r => obtain ⟨v, -, hv⟩ := List.mem_map.1 hu; cases hv
    | extract r => obtain ⟨v, -, hv⟩ := List.mem_map.1 hu; cases hv
    | retry r => obtain ⟨v, -, hv⟩ := List.mem_map.1 hu; cases hv
    | webhook | erase | review | schema => cases hu
  · exact Or.inl ⟨e, hu, hd, hfar⟩

/-- The points are deleted by now, or in this step. -/
theorem pointsDeleted_step (h : Erasing d ErasePc.pointsDeleted q') (hs : System.step S q i = some q')
    (hx : q.tasks[i]? = some x) (hproper : x.Proper d) :
    Erasing d ErasePc.pointsDeleted q ∨ ∃ e, x = .erase e ∧ e.documentId = d ∧ e.pc = .deletePoints ∧
      (x.move S q.shared).change = .deletePoints e.tenantId e.documentId := by
  rcases erasing_step h hs hx with hq | ⟨e, rfl, hd, hfar⟩
  · exact Or.inl hq
  · rcases EraseTask.move_pointsDeleted hfar with hpc | ⟨hpc, hr⟩
    · exact Or.inl ⟨e, List.mem_of_getElem? hx, hd, hpc⟩
    · exact Or.inr ⟨e, rfl, hd, hpc, hr (hproper hd)⟩

/-- The checkpoints are purged by now, or in this step. -/
theorem purged_step (h : Erasing d ErasePc.purged q') (hs : System.step S q i = some q')
    (hx : q.tasks[i]? = some x) :
    Erasing d ErasePc.purged q ∨ (x.move S q.shared).change = .purgeCheckpoints d := by
  rcases erasing_step h hs hx with hq | ⟨e, rfl, rfl, hfar⟩
  · exact Or.inl hq
  · exact (EraseTask.move_purged hfar).imp (fun hpc => ⟨e, List.mem_of_getElem? hx, rfl, hpc⟩) id

/-- A completed erasure stays. -/
theorem erasing_completed (h : Erasing d ErasePc.completed q) (hs : System.step S q i = some q')
    (hx : q.tasks[i]? = some x) : Erasing d ErasePc.completed q' := by
  obtain ⟨e, he, hd, hfar⟩ := h
  rcases Pool.mem_or_mem_of_step hs hx he with rfl | he
  · obtain ⟨pc, hpc⟩ := EraseTask.move_goto (S := S) (w := q.shared) (e := e)
    refine ⟨_, Pool.moved_mem_of_step hs hx, ?_, EraseTask.move_completed hfar⟩
    rw [hpc]
    exact hd
  · exact ⟨e, he, hd, hfar⟩

theorem pipelineEvent_ne (status : DocumentStatus) :
    "PIPELINE_" ++ status.value.toUpper ≠ "ERASURE_COMPLETED" := by
  cases status <;> decide

/-- The event of an erasure is written by one. -/
theorem Written.tombstone_of {κ : Known} {row : AuditLog} (h : Written S κ x (.insertAuditLog row))
    (he : row.eventType = "ERASURE_COMPLETED") (hd : row.documentId = some d) :
    ∃ e, x = .erase e ∧ e.documentId = d ∧ e.pc = .delete := by
  cases h with
  | @persist r document f w _ _ _ _ _ h =>
    cases h
    exact absurd he (pipelineEvent_ne (persistedStatus f))
  | webhook h => exact absurd he h
  | tombstone hpc => exact ⟨_, rfl, Option.some.inj hd, hpc⟩
  | reviewEvent h => exact absurd he h

/-- **A timely step leaves deleted what is deleted.** -/
theorem erased_step (h : Erased d q) (hdoc : document.id = d) (howned : Owned document q.shared)
    (hx : q.tasks[i]? = some x) (hproper : x.Proper d) (hholds : x.Holds S (Known.owned document))
    (hcommit : ∀ ws, (x.move S q.shared).change = .commit ws → Prepared S (Known.owned document) x ws)
    (hok : Timely d q i) (hs : System.step S q i = some q') : Erased d q' := by
  have hsh := System.shared_step hs hx
  have hmakes := x.makes (S := S) (w := q.shared)
  refine ⟨fun herasing p hp hid => ?_, fun herasing c hc hid => ?_, ?_⟩
  · rw [hsh] at hp
    rcases pointsDeleted_step herasing hs hx hproper with hq | ⟨e, rfl, hd, hpc, hchange⟩
    · -- a new point would be late
      rcases World.mem_points_apply hp with hp | hchange
      · exact h.points hq p hp hid
      · rw [hchange] at hmakes
        cases hmakes with
        | upsertExample hpc => exact hok.point _ _ _ _ hx hpc hid hq
        | upsertSeed => exact hproper hid
    · -- the points are the tenant's, as the document of the erasure is
      obtain ⟨copy, hcopy, hcid, htenant⟩ : ∃ copy, (Known.owned document).document copy ∧
          copy.id = e.documentId ∧ copy.tenantId = e.tenantId := by
        simpa only [Task.Holds, EraseTask.Holds, hpc] using hholds
      rw [hchange] at hp
      obtain ⟨hp, hkept⟩ := List.mem_filter.1 hp
      have hpins : copy.tenantId = document.tenantId :=
        congrArg Prod.fst (hcopy (hcid.trans (hd.trans hdoc.symm)))
      have := howned.points p hp (hid.trans hdoc.symm)
      simp [this, ← htenant, hpins, hid, hd] at hkept
  · rw [hsh] at hc
    rcases purged_step herasing hs hx with hq | hchange
    · rcases World.mem_checkpoints_apply hc with hc | hchange
      · exact h.checkpoints hq c hc hid
      · rw [hchange] at hmakes
        cases hmakes with
        | saveCheckpoint hsaves => exact hok.checkpoint _ hx hid hsaves hq
    · rw [hchange] at hc
      obtain ⟨-, hkept⟩ := List.mem_filter.1 hc
      simp [hid] at hkept
  · rintro ⟨row, hrow, he, hd⟩
    rw [hsh] at hrow
    rcases World.db_apply (w := q.shared) (x.move S q.shared).change with hdb | ⟨ws, hc, hdb⟩
    · rw [hdb] at hrow
      exact erasing_completed (h.completed ⟨row, hrow, he, hd⟩) hs hx
    · rcases mem_auditLog_commit hdb hrow with hrow | hw
      · exact erasing_completed (h.completed ⟨row, hrow, he, hd⟩) hs hx
      · -- the moved task is the erasure that writes the event
        obtain ⟨e, rfl, hed, hpc⟩ := ((hcommit ws hc).written hw).tombstone_of he hd
        obtain ⟨pc, hmove⟩ := EraseTask.move_goto (S := S) (w := q.shared) (e := e)
        refine ⟨_, Pool.moved_mem_of_step hs hx, ?_, EraseTask.move_deleted hpc hc⟩
        rw [hmove]
        exact hed

/-- **Erasure is not undone by work in flight** as long as no checkpoint or
    point of the document is written after its erasure purged them: once its
    `ERASURE_COMPLETED` event is there, it has neither. -/
theorem erasure_stays {q₀ : System} (howned : Owned document q₀.shared)
    (hlog : ∀ row ∈ q₀.shared.db.auditLog, row.eventType = "ERASURE_COMPLETED" →
      row.documentId ≠ some document.id)
    (hfresh : ∀ x ∈ q₀.tasks, x.Fresh) (hproper : ∀ x ∈ q₀.tasks, x.Proper document.id)
    (h : Reach (System.step S) (Timely document.id) q₀ q)
    (hrow : ∃ row ∈ q.shared.db.auditLog,
      row.eventType = "ERASURE_COMPLETED" ∧ row.documentId = some document.id) :
    (∀ c ∈ q.shared.checkpoints, c.threadId ≠ document.id) ∧
      ∀ p ∈ q.shared.points, p.documentId ≠ document.id := by
  have hproper' := h.strengthen fun _ hr => proper_reach hproper hr
  have hknown {q : System} (h : Reach (System.step S)
      (fun q i => (∀ x ∈ q.tasks, x.Proper document.id) ∧ Timely document.id q i) q₀ q) :
      Owned document q.shared ∧ ∀ x ∈ q.tasks, x.Holds S (Known.owned document) :=
    reach_known (G := Owned document) (κ := fun _ => Known.owned document)
      (fun _ _ _ hG _ _ _ => reads_owned hG)
      (fun _ _ _ hG hx hok hholds hcommit =>
        ⟨owned_step hG (hok.1 _ (List.mem_of_getElem? hx)) hholds hcommit, .refl _⟩)
      h howned fun x hx => (hfresh x hx).holds
  have herased := (hproper'.strengthen fun _ => hknown).invariant (I := Erased document.id) ?_ ?_
  · obtain ⟨e, he, hd, hfar⟩ := herased.completed hrow
    obtain ⟨hpurged, hdeleted⟩ := ErasePc.of_completed hfar
    exact ⟨herased.checkpoints ⟨e, he, hd, hpurged⟩, herased.points ⟨e, he, hd, hdeleted⟩⟩
  · -- no erasure has taken a step yet
    have hnone {far : ErasePc → Bool} (hfar : far .register = false) : ¬ Erasing document.id far q₀ := by
      rintro ⟨e, he, -, h⟩
      rw [show e.pc = .register from hfresh _ he, hfar] at h
      cases h
    exact ⟨fun h => absurd h (hnone rfl), fun h => absurd h (hnone rfl),
      fun ⟨row, hrow, he, hd⟩ => absurd hd (hlog row hrow he)⟩
  · rintro q i q' hq ⟨⟨howned, hholds⟩, hproper, hok⟩ hs
    obtain ⟨x, hx, -⟩ := Pool.step_eq_some hs
    have hmem := List.mem_of_getElem? hx
    have hcommit := (Task.move_holds (hholds x hmem) (reads_owned howned)).2
    exact erased_step hq rfl howned hx (hproper x hmem) (hholds x hmem) hcommit hok hs

end

/-- An erasure of document `d` that has got as far as `far`. -/
def Task.erasing (d : Uuid) (far : ErasePc → Bool) : Task → Bool
  | .erase e => e.documentId = d && far e.pc
  | _ => false

/-- `Timely`, for the task that takes the step. -/
def Task.timely (d : Uuid) (q : System) : Task → Bool
  | .run r => r.documentId ≠ d || !r.pc.saves || !q.tasks.any (Task.erasing d ErasePc.purged)
  | .review r =>
    match r.pc with
    | .upsert draft _ _ =>
      draft.old.documentId ≠ d || !q.tasks.any (Task.erasing d ErasePc.pointsDeleted)
    | _ => true
  | _ => true

theorem not_erasing {d : Uuid} {far : ErasePc → Bool} {q : System}
    (h : q.tasks.any (Task.erasing d far) = false) : ¬ Erasing d far q := by
  rintro ⟨e, he, hd, hfar⟩
  have := List.any_eq_false.1 h _ he
  simp [Task.erasing, hd, hfar] at this

theorem timely_of_all {d : Uuid} {q : System} {i : ℕ} (h : ∀ x ∈ q.tasks[i]?, x.timely d q = true) :
    Timely d q i where
  checkpoint r hr hd hsaves := by
    have := h _ hr
    simp only [Task.timely, hd, hsaves, ne_eq, not_true_eq_false, decide_false, Bool.not_true,
      Bool.false_or, Bool.not_eq_true'] at this
    exact not_erasing this
  point r draft corrected document hr hpc hd := by
    have := h _ hr
    simp only [Task.timely, hpc, hd, ne_eq, not_true_eq_false, decide_false, Bool.false_or,
      Bool.not_eq_true'] at this
    exact not_erasing this

namespace Sample

/-- The document under review is run, erased and corrected at once. -/
def overlapped : System := ⟨openWorld, [.run run, .erase erase, .review correctName]⟩

theorem open_owned : Owned document openWorld where
  pins :=
    { issued := by decide
      agree := fun row hrow _ => by
        cases List.mem_singleton.1 hrow
        exact ⟨List.mem_singleton_self _, fun r hr _ => by rw [List.mem_singleton.1 hr]⟩ }
  row := ⟨List.mem_singleton_self _, fun r hr _ => by rw [List.mem_singleton.1 hr]; rfl⟩
  reviews row hrow _ := by rw [List.mem_singleton.1 hrow]; rfl
  points := by rintro p ⟨⟩

end Sample

/-- A run and a correction write beside an erasure, in time, and go on after it:
    the run finds the document cancelled, and the commit of the correction fails. -/
theorem erasure_stays_sample :
    ∃ q q', Reach (System.step Sample.site) (Timely Sample.documentId) Sample.overlapped q ∧
      q.shared.checkpoints.length = 2 ∧ q.shared.points.length = 1 ∧
        Reach (System.step Sample.site) (Timely Sample.documentId) q q' ∧
          (∀ c ∈ q'.shared.checkpoints, c.threadId ≠ Sample.documentId) ∧
            ∀ p ∈ q'.shared.points, p.documentId ≠ Sample.documentId := by
  have hrun : (exec (checked (System.step Sample.site) fun q i =>
      ∀ x ∈ q.tasks[i]?, x.timely Sample.documentId q = true) Sample.overlapped
        [0, 0, 0, 0, 0, 0, 1, 1, 1, 2, 2, 2, 2]).any (fun q =>
          q.shared.checkpoints.length = 2 && q.shared.points.length = 1 &&
            (exec (checked (System.step Sample.site) fun q i =>
              ∀ x ∈ q.tasks[i]?, x.timely Sample.documentId q = true) q
                ([1, 1] ++ List.replicate 10 0 ++ [1, 0, 0, 2, 1, 2, 0, 0, 0, 1])).any fun q' =>
                  q'.shared.db.auditLog.any fun row =>
                    row.eventType = "ERASURE_COMPLETED" && row.documentId = some Sample.documentId) =
        true := by
    decide +kernel
  obtain ⟨q, hq, hwritten⟩ := exists_of_checked (fun _ _ => timely_of_all) hrun
  simp only [Bool.and_eq_true, decide_eq_true_eq] at hwritten
  obtain ⟨⟨hcheckpoints, hpoints⟩, hrun'⟩ := hwritten
  obtain ⟨q', hq', hevent⟩ := exists_of_checked (fun _ _ => timely_of_all) hrun'
  obtain ⟨row, hrow, hevent⟩ := List.any_eq_true.1 hevent
  simp only [Bool.and_eq_true, decide_eq_true_eq] at hevent
  have hfresh : ∀ x ∈ Sample.overlapped.tasks, x.Fresh := by
    simp [Sample.overlapped, Task.Fresh, Sample.run, Sample.erase, Sample.correctName, Sample.reviewCall]
  have hproper : ∀ x ∈ Sample.overlapped.tasks, x.Proper Sample.documentId := by
    simp [Sample.overlapped, Task.Proper, Sample.erase]
  have hstays := erasure_stays Sample.open_owned (fun _ h => absurd h List.not_mem_nil) hfresh hproper
    (hq.trans hq') ⟨row, hrow, hevent⟩
  exact ⟨q, q', hq, hcheckpoints, hpoints, hq', hstays⟩

/-- A run that is under way writes its checkpoint after the erasure. -/
theorem run_writes_after_erasure :
    ∃ q, Reach (System.step Sample.site) (fun _ _ => True)
        ⟨Sample.world [], [.run Sample.run, .erase Sample.erase]⟩ q ∧
      (∃ row ∈ q.shared.db.auditLog,
        row.eventType = "ERASURE_COMPLETED" ∧ row.documentId = some Sample.documentId) ∧
      ∃ c ∈ q.shared.checkpoints, c.threadId = Sample.documentId :=
  ⟨_, reach_of_exec (l := [0, 0, 0, 1, 1, 1, 1, 1, 1, 1, 1, 0]) rfl,
    ⟨_, List.mem_singleton_self _, rfl, rfl⟩, _, List.mem_singleton_self _, rfl⟩

end OcrService
