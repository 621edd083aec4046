/-
  Tenant isolation.

  Row-level security filters what a session reads (`migrations/versions/
  002_rls_policies.py`); the checkpoint tables have no policy
  (`005_checkpoint_grant.py`), nor have blobs, points and rate-limit slots.
  `World.share` collects what a tenant has in all of them.

  * `share_apply`: a change to what is one tenant's leaves the shares of the
    others alone;
  * `tenant_isolation`: so does every run of steps of the others' tasks, and it
    neither moves nor starts a task of the tenant.
-/
import OcrService.System.Ownership
import OcrService.Db.Letters
import OcrService.Domain.UuidText

namespace OcrService

open Trans PyData

/-! ## The share of a tenant -/

/-- The rows that the policies show to tenant `t`, and its row of `tenants`. -/
def Db.shown (t : Uuid) (db : Db) : Db where
  tenants := db.tenants.filter fun r => r.id = t
  schemas := db.schemas.filter fun r => r.tenantId = t
  schemaVersions := db.schemaVersions.filter fun r => r.tenantId = t
  documents := db.documents.filter fun r => r.tenantId = t
  extractionResults := db.extractionResults.filter fun r => r.tenantId = t
  guardrailReports := db.guardrailReports.filter fun r => r.tenantId = t
  reviewTasks := db.reviewTasks.filter fun r => r.tenantId = t
  auditLog := db.auditLog.filter fun r => r.tenantId = t
  dlq := db.dlq.filter fun r => r.tenantId = t
  webhookDeliveries := db.webhookDeliveries.filter fun r => r.tenantId = t

/-- What a tenant has of the world. -/
structure Share where
  db : Db
  checkpoints : List Checkpoint
  points : List Point
  blobs : List Blob
  inflight : ℕ → ℕ

/-- The file is in the directory of the tenant. -/
def Blob.inDir (t : Uuid) (b : Blob) : Bool := (t.str ++ "/").toList.isPrefixOf b.key.toList

def World.share (t : Uuid) (w : World) : Share where
  db := w.db.shown t
  checkpoints := w.checkpoints.filter fun c => (w.db.shown t).hasDocument c.threadId
  points := w.points.filter fun p => p.tenantId = t
  blobs := w.blobs.filter (Blob.inDir t)
  inflight proc := (w.procs proc).inflight t

/-! ## What the others' changes leave -/

section
variable {S : Site} {w : World} {db db' : Db} {t t' : Uuid} {wr : Write}

/-- **A write to rows of one tenant** is not shown to another. -/
theorem shown_apply (hs : db.Sound) (hne : t ≠ t') (hw : wr.Fits db t) (h : wr.apply db = .ok db') :
    db'.shown t' = db.shown t' := by
  have hother {a : Uuid} (h : a = t) : decide (a = t') = false := decide_eq_false (h ▸ hne)
  cases performed_of_apply h with
  | idle => rfl
  | @updateDocument old new =>
    obtain ⟨hold, hid, hnew, -⟩ := hw
    refine congrArg (fun documents => { db.shown t' with documents }) (Rows.filter_replace Document.id ?_ ?_)
    · exact fun r hr hk => hother (hold.own r hr hk)
    · exact hother hnew
  | @updateExtractionResult old new =>
    obtain ⟨hold, hid, hnew, -⟩ := hw
    refine congrArg (fun extractionResults => { db.shown t' with extractionResults })
      (Rows.filter_replace ExtractionResult.id ?_ ?_)
    · exact fun r hr hk => hother ((congrArg Prod.fst (hold.own r hr hk)).trans hnew)
    · exact hother hnew
  | @updateReviewTask old new =>
    obtain ⟨hold, hid, hnew, -⟩ := hw
    refine congrArg (fun reviewTasks => { db.shown t' with reviewTasks })
      (Rows.filter_replace ReviewTask.id ?_ ?_)
    · exact fun r hr hk => hother ((congrArg Prod.fst (hold.own r hr hk)).trans hnew)
    · exact hother hnew
  | @updateDeadLetter old new =>
    obtain ⟨hold, hid, hnew, -⟩ := hw
    refine congrArg (fun dlq => { db.shown t' with dlq }) (Rows.filter_replace DeadLetter.id ?_ ?_)
    · exact fun r hr hk => hother ((congrArg Prod.fst (hold.own r hr hk)).trans hnew)
    · exact hother hnew
  | @updateSchema old new row hrow =>
    refine congrArg (fun schemas => { db.shown t' with schemas }) (Rows.filter_replace Schema.id ?_ ?_)
    · exact fun r hr hk => hother (hw r hr hk)
    · exact hother (hw row (Rows.mem_of_find hrow) (Rows.key_of_find hrow))
  | insertDocument =>
    refine congrArg (fun documents => { db.shown t' with documents }) (Rows.filter_append_other ?_)
    exact hother hw.1
  | insertExtractionResult =>
    refine congrArg (fun extractionResults => { db.shown t' with extractionResults })
      (Rows.filter_append_other ?_)
    exact hother hw.1
  | insertGuardrailReport =>
    refine congrArg (fun guardrailReports => { db.shown t' with guardrailReports })
      (Rows.filter_append_other ?_)
    exact hother hw.1
  | insertReviewTask =>
    refine congrArg (fun reviewTasks => { db.shown t' with reviewTasks }) (Rows.filter_append_other ?_)
    exact hother hw.1
  | insertAuditLog =>
    refine congrArg (fun auditLog => { db.shown t' with auditLog }) (Rows.filter_append_other ?_)
    exact hother hw
  | insertDeadLetter =>
    refine congrArg (fun dlq => { db.shown t' with dlq }) (Rows.filter_append_other ?_)
    exact hother hw.1
  | insertWebhookDelivery =>
    refine congrArg (fun webhookDeliveries => { db.shown t' with webhookDeliveries })
      (Rows.filter_append_other ?_)
    exact hother hw.1
  | insertSchema => exact hw.elim
  | insertSchemaVersion =>
    refine congrArg (fun schemaVersions => { db.shown t' with schemaVersions })
      (Rows.filter_append_other ?_)
    exact hother hw
  | @deleteDocument tenantId id row hrow =>
    -- what refers to the document is of its tenant
    have htenant : row.tenantId = t := (document?_eq hrow).2.trans hw
    have hmem := Rows.mem_of_find (find_of_document? hrow).2.2
    have hid : row.id = id := (document?_eq hrow).1
    have hchild {t₀ d : Uuid} (howns : db.OwnsDocument t₀ d) (hd : d = id) :
        decide (t₀ = t') = false :=
      hother ((howns.own row hmem (hid.trans hd.symm)).symm.trans htenant)
    simp only [Db.shown, Db.cascade]
    rw [Rows.filter_delete Document.id fun r hr => hchild (hs.documents r hr).1,
      Rows.filter_delete ExtractionResult.documentId fun r hr => hchild (hs.results r hr).2,
      Rows.filter_delete GuardrailReport.documentId fun r hr => hchild (hs.reports r hr),
      Rows.filter_delete ReviewTask.documentId fun r hr => hchild (hs.reviews r hr).2,
      Rows.filter_delete DeadLetter.documentId fun r hr => hchild (hs.letters r hr).2,
      Rows.filter_delete WebhookDelivery.documentId fun r hr => hchild (hs.deliveries r hr)]

/-- Another tenant's document is not shown. -/
theorem hasDocument_shown {d : Uuid} (howns : db.OwnsDocument t d) (hne : t ≠ t') :
    (db.shown t').hasDocument d = false := by
  rw [Db.hasDocument, Option.isSome_eq_false_iff, Option.isNone_iff_eq_none, Rows.find_eq_none]
  intro r hr hid
  obtain ⟨hr, htenant⟩ := List.mem_filter.1 hr
  exact hne ((howns.own r hr hid).symm.trans (of_decide_eq_true htenant))

/-- Keys of another tenant are in another directory. -/
theorem inDir_other {b : Blob} {d : Uuid} (hne : t ≠ t') (hkey : b.key = storageKey t d) :
    b.inDir t' = false := by
  rw [Blob.inDir, hkey, Bool.eq_false_iff, Ne, List.isPrefixOf_iff_prefix]
  rintro ⟨rest, hrest⟩
  simp only [storageKey, String.toList_append, List.append_assoc] at hrest
  have hlen : t'.str.toList.length = t.str.toList.length := by
    rw [String.length_toList, String.length_toList, Uuid.length_str, Uuid.length_str]
  have := (List.append_inj hrest hlen).1
  exact hne (Uuid.str_injective (String.ext this).symm)

/-- A change to the globals of a process that leaves the slots of a tenant alone. -/
theorem inflight_onProc {proc : ℕ} {f : Proc → Proc} (h : ∀ g, (f g).inflight t' = g.inflight t') :
    (w.onProc proc f).share t' = w.share t' := by
  refine congrArg (fun inflight => { w.share t' with inflight }) (funext fun p => ?_)
  by_cases hp : p = proc
  · subst hp
    exact (congrArg (fun g : Proc => g.inflight t') (Function.update_self ..)).trans (h _)
  · exact congrArg (fun g : Proc => g.inflight t') (Function.update_of_ne hp ..)

/-- **A change to what is one tenant's** leaves the others' shares alone. -/
theorem share_apply {c : Change} (hs : w.db.Sound) (hne : t ≠ t') (hc : c.Fits w.db t) :
    (w.apply c).share t' = w.share t' := by
  have hdb : (w.apply c).db.shown t' = w.db.shown t' :=
    (apply_fits (P := fun db => db.shown t' = w.db.shown t') hs hc rfl
      fun wr db₁ db₂ hs₁ hfits h₁ happly => (shown_apply hs₁ hne hfits happly).trans h₁).2.2
  cases c with
  | idle => rfl
  | commit ws =>
    rw [World.apply_commit] at hdb ⊢
    simp only [World.share, hdb]
  | saveCheckpoint checkpoint =>
    refine congrArg (fun checkpoints => { w.share t' with checkpoints }) (Rows.filter_append_other ?_)
    exact hasDocument_shown hc hne
  | purgeCheckpoints threadId =>
    refine congrArg (fun checkpoints => { w.share t' with checkpoints })
      (Rows.filter_delete Checkpoint.threadId fun r hr hk => ?_)
    rw [hk]
    exact hasDocument_shown hc hne
  | upsertPoint point =>
    refine congrArg (fun points => { w.share t' with points }) (Rows.filter_append_other ?_)
    exact decide_eq_false (hc ▸ hne)
  | deletePoints tenantId documentId =>
    obtain rfl : tenantId = t := hc
    refine congrArg (fun points => { w.share t' with points }) ?_
    rw [World.apply, List.filter_filter]
    refine List.filter_congr fun p hp => ?_
    by_cases h : p.tenantId = t'
    · simp [h, Ne.symm hne]
    · simp [h]
  | saveBlob blob =>
    obtain ⟨d, hkey⟩ := hc
    refine congrArg (fun blobs => { w.share t' with blobs }) ((Rows.filter_append_other ?_).trans
      (Rows.filter_delete Blob.key fun b hb hk => ?_))
    · exact inDir_other hne hkey
    · exact inDir_other hne (hk.trans hkey)
  | deleteBlob key =>
    obtain ⟨d, rfl⟩ := hc
    refine congrArg (fun blobs => { w.share t' with blobs })
      (Rows.filter_delete Blob.key fun b hb hk => ?_)
    exact inDir_other hne hk
  | cancel proc d => exact inflight_onProc fun g => rfl
  | clear proc d => exact inflight_onProc fun g => rfl
  | acquire proc tenantId =>
    obtain rfl : tenantId = t := hc
    exact inflight_onProc fun g => Function.update_of_ne hne.symm _ _
  | release proc tenantId =>
    obtain rfl : tenantId = t := hc
    exact inflight_onProc fun g => Function.update_of_ne hne.symm _ _

/-! ## Whole runs -/

/-- Step `i` is one of another tenant's task. -/
def OthersMove (t : Uuid) (q : System) (i : ℕ) : Prop :=
  ∀ x, q.tasks[i]? = some x → x.tenantId ≠ t

instance {t : Uuid} {q : System} {i : ℕ} : Decidable (OthersMove t q i) :=
  inferInstanceAs (Decidable (∀ x ∈ q.tasks[i]?, x.tenantId ≠ t))

/-- The tasks of tenant `t`, in order. -/
def System.tasksOf (t : Uuid) (q : System) : List Task := q.tasks.filter fun x => x.tenantId = t

/-- **Tenant isolation.**  Once the service is in a state that it reaches, whatever
    the tasks of the other tenants then do, in any order, the tenant has the same
    rows, checkpoints, points, files and slots, and the same tasks. -/
theorem tenant_isolation {ok : System → ℕ → Prop} {q q' q'' : System} (hs : q.shared.db.Sound)
    (hfresh : ∀ x ∈ q.tasks, x.Fresh) (hreach : Reach (System.step S) ok q q')
    (h : Reach (System.step S) (OthersMove t) q' q'') :
    q''.shared.share t = q'.shared.share t ∧ q''.tasksOf t = q'.tasksOf t := by
  obtain ⟨hs', hmine'⟩ := reach_mine hs (fun x hx => (hfresh x hx).mine) hreach
  induction h with
  | refl => exact ⟨rfl, rfl⟩
  | @tail p p' i hr hothers hstep ih =>
    obtain ⟨hsound, hmine⟩ := reach_mine hs' hmine' hr
    obtain ⟨x, hx, -⟩ := Pool.step_eq_some hstep
    have hxmine := hmine x (List.mem_of_getElem? hx)
    have hne : x.tenantId ≠ t := hothers x hx
    have hshare : p'.shared.share t = p.shared.share t := by
      rw [System.shared_step hstep hx]
      exact share_apply hsound hne (Task.move_mine hsound hxmine).2
    have htasks : p'.tasksOf t = p.tasksOf t := by
      refine Pool.filter_step hstep hx (decide_eq_false hne) (decide_eq_false ?_) fun u hu => ?_
      · rw [show (Task.effect S p.shared x).task = (x.move S p.shared).task from rfl, Task.move_tenant]
        exact hne
      · rw [Task.spawned_tenant hxmine hu]
        exact decide_eq_false hne
    exact ⟨hshare.trans ih.1, htasks.trans ih.2⟩

end

namespace Sample

/-- A document of each tenant. -/
def ownDocument : Document := { document with fileStorageKey := none }

def otherDocument : Document :=
  { document with id := 6, tenantId := otherTenantId, fileStorageKey := none }

def sharedWorld : World where
  db :=
    { (world []).db with
      documents := [ownDocument, otherDocument]
      issued := [documentId, 6] }

def otherErase : EraseTask := { proc := 0, documentId := 6, tenantId := otherTenantId }

end Sample

/-- The other tenant erases its document while a run is under way. -/
theorem tenant_isolation_sample :
    ∃ q' q'', Reach (System.step Sample.site) (fun _ _ => True)
        ⟨Sample.sharedWorld, [.run Sample.run, .erase Sample.otherErase]⟩ q' ∧
      Reach (System.step Sample.site) (OthersMove Sample.tenantId) q' q'' ∧
      q''.shared.db.statusOf 6 = some .cancelled ∧
      q''.shared.share Sample.tenantId = q'.shared.share Sample.tenantId ∧
        q''.tasksOf Sample.tenantId = q'.tasksOf Sample.tenantId := by
  have hfresh : ∀ x ∈ [Task.run Sample.run, .erase Sample.otherErase], x.Fresh := by
    intro x hx
    rcases List.mem_cons.1 hx with rfl | hx
    · rfl
    · rw [List.mem_singleton.1 hx]
      rfl
  have hreach : Reach (System.step Sample.site) (fun _ _ => True)
      ⟨Sample.sharedWorld, [.run Sample.run, .erase Sample.otherErase]⟩
      ⟨Sample.sharedWorld, [.run (Sample.run.goto (.loadSchema Sample.ownDocument)),
        .erase Sample.otherErase]⟩ :=
    reach_of_exec (l := [0]) rfl
  have herase : Reach (System.step Sample.site) (OthersMove Sample.tenantId)
      ⟨Sample.sharedWorld, [.run (Sample.run.goto (.loadSchema Sample.ownDocument)),
        .erase Sample.otherErase]⟩ _ :=
    reach_of_checked (l := [1, 1, 1]) rfl
  exact ⟨_, _, hreach, herase, rfl, tenant_isolation (by decide) hfresh hreach herase⟩

end OcrService
