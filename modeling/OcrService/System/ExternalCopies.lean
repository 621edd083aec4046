/-
  The external copies of an erased document.

  Blob and vectors lie outside the database.  `erase_document` deletes them
  before the row, but suppresses the exceptions of both deletes, and commits the
  tombstone all the same: the tombstone says that the copies are gone iff both
  deletes have gone through, in this call or in another (`copies_gone_iff`).
-/
import OcrService.System.Tombstones

namespace OcrService

open Trans PyData

/-- The external delete that an erasure is about to make. -/
def ErasePc.external : ErasePc → Option ErasePoint
  | .deleteBlob none | .deleteBlob (some "") => none
  | .deleteBlob (some _) => some .deleteBlob
  | .deletePoints => some .deletePoints
  | _ => none

/-- Step `i` is the external delete `p` of an erasure, and raises no exception. -/
def GoesThrough (p : ErasePoint) (q : System) (i : ℕ) : Prop :=
  ∃ e, q.tasks[i]? = some (.erase e) ∧ e.pc.external = some p ∧ e.raises p = false

/-! ## What an erasure has read -/

/-- An erasure has read the storage key `key` of a document of tenant `t`. -/
def EraseTask.Copies (key : String) (t : Uuid) (e : EraseTask) : Prop :=
  match e.pc with
  | .commitCancelled document =>
    document.fileStorageKey = some key ∧ document.tenantId = t ∧ e.tenantId = t
  | .deleteBlob storageKey => storageKey = some key ∧ e.tenantId = t
  | .deletePoints => e.tenantId = t
  | _ => True

/-- The row of document `d`, as long as it is there, has storage key `key` and
    tenant `t`. -/
def KeyedRow (d : Uuid) (key : String) (t : Uuid) (w : World) : Prop :=
  ∀ row, Rows.find Document.id w.db.documents d = some row → row.fileStorageKey = some key ∧ row.tenantId = t

/-- A task is an erasure of document `d`. -/
def Task.Erases (d : Uuid) (key : String) (t : Uuid) (x : Task) : Prop :=
  ∃ e, x = .erase e ∧ e.documentId = d ∧ e.Copies key t

section
variable {S : Site} {w : World} {e : EraseTask} {d t : Uuid} {key : String} {ws : List Write}

/-- The transactions of an erasure. -/
theorem EraseTask.move_commit (h : (e.move S w).change = .commit ws) :
    (∃ document, e.pc = .commitCancelled document ∧ ws = cancelWrites document) ∨
      (e.pc = .delete ∧ ws = e.deleteWrites S) := by
  cases hpc : e.pc <;> simp only [EraseTask.move, hpc] at h
  case commitCancelled document =>
    split_ifs at h
    cases hdb : w.db.commit (cancelWrites document) with
    | error err =>
      rw [hdb] at h
      cases h
    | ok db =>
      rw [hdb] at h
      cases h
      exact Or.inl ⟨document, rfl, rfl⟩
  case delete =>
    split_ifs at h
    cases hdb : w.db.commit (e.deleteWrites S) with
    | error err =>
      rw [hdb] at h
      cases h
    | ok db =>
      rw [hdb] at h
      cases h
      exact Or.inr ⟨rfl, rfl⟩
  all_goals
    repeat' split at h
    all_goals cases h

/-- An erasure goes on with the key it has read. -/
theorem EraseTask.move_copies (hrow : KeyedRow e.documentId key t w) (h : e.Copies key t) :
    (e.move S w).task.Copies key t := by
  unfold Copies at h
  cases hpc : e.pc <;> simp only [hpc] at h <;> simp only [EraseTask.move, hpc]
  case read =>
    split_ifs
    · trivial
    · cases hdoc : w.db.document? e.tenantId e.documentId with
      | none => trivial
      | some document =>
        obtain ⟨hid, ht, hfind⟩ := find_of_document? hdoc
        rw [hid] at hfind
        obtain ⟨hkey, htenant⟩ := hrow document hfind
        exact ⟨hkey, htenant, ht.symm.trans htenant⟩
  case commitCancelled document =>
    split_ifs
    · trivial
    · cases w.db.commit (cancelWrites document) with
      | error err => trivial
      | ok db => exact ⟨h.1, h.2.2⟩
  case deleteBlob storageKey => exact h.2
  case done o =>
    unfold Copies
    rw [hpc]
    trivial
  all_goals
    repeat' split
    all_goals trivial

/-- The row keeps its storage key and tenant. -/
theorem keyedRow_step (hrow : KeyedRow d key t w) (h : e.Copies key t) :
    KeyedRow d key t (w.apply (e.move S w).change) := by
  refine World.db_induction (P := fun db => ∀ row, Rows.find Document.id db.documents d = some row →
    row.fileStorageKey = some key ∧ row.tenantId = t) hrow ?_
  intro ws hc _ wr hwr db₁ db₂ h₁ h₂ row hfind
  have hkeep : wr.KeepsId ∧ (∀ new, wr ≠ .insertDocument new) ∧ ∀ old new,
      wr = .updateDocument old new → new.fileStorageKey = some key ∧ new.tenantId = t := by
    rcases EraseTask.move_commit hc with ⟨document, hpc, rfl⟩ | ⟨-, rfl⟩
    · rw [EraseTask.Copies, hpc] at h
      rw [List.mem_singleton.1 hwr]
      refine ⟨?_, ?_, ?_⟩
      · rintro old new ⟨⟩
        rfl
      · intro new hw
        cases hw
      · rintro old new ⟨⟩
        exact ⟨h.1, h.2.1⟩
    · rcases List.mem_cons.1 hwr with rfl | hwr
      · exact ⟨fun _ _ hw => (nomatch hw), fun _ hw => (nomatch hw), fun _ _ hw => (nomatch hw)⟩
      · rw [List.mem_singleton.1 hwr]
        exact ⟨fun _ _ hw => (nomatch hw), fun _ hw => (nomatch hw), fun _ _ hw => (nomatch hw)⟩
  cases row_apply hkeep.1 h₂ with
  | same hsame => exact h₁ row (hsame ▸ hfind)
  | updated hne hid hrow₁ hv hnew =>
    obtain ⟨hkey, htenant⟩ := hkeep.2.2 _ _ rfl
    cases Option.some.inj (hnew.symm.trans hfind)
    exact ⟨hkey, htenant⟩
  | inserted hid hnew => exact absurd rfl (hkeep.2.1 _)
  | deleted hgone =>
    rw [hgone] at hfind
    cases hfind

/-! ## The external deletes -/

/-- **The blob goes in a delete that goes through**, and in no other step. -/
theorem blobs_move (h : e.Copies key t) :
    (∀ b ∈ (w.apply (e.move S w).change).blobs, b.key ≠ key) ↔
      (∀ b ∈ w.blobs, b.key ≠ key) ∨ e.pc.external = some .deleteBlob ∧ e.raises .deleteBlob = false := by
  by_cases hpc : ∃ storageKey, e.pc = .deleteBlob storageKey
  · obtain ⟨storageKey, hpc⟩ := hpc
    rw [EraseTask.Copies, hpc] at h
    obtain ⟨rfl, -⟩ := h
    simp only [EraseTask.move, hpc]
    split
    · rename_i heq
      cases heq
    · rename_i heq
      cases heq
      refine (or_iff_left ?_).symm
      rintro ⟨hexternal, -⟩
      cases hexternal
    · rename_i key' hne heq
      cases heq
      have hexternal : (ErasePc.deleteBlob (some key)).external = some .deleteBlob := by
        unfold ErasePc.external
        split <;> simp_all
      rw [hexternal, and_iff_right rfl]
      split_ifs with hraise
      · exact (or_iff_left fun h => absurd (hraise.symm.trans h) (by decide)).symm
      · refine iff_of_true (fun b hb => ?_) (Or.inr (Bool.eq_false_iff.2 hraise))
        exact of_decide_eq_true (List.mem_filter.1 hb).2
  · have hsame : (w.apply (e.move S w).change).blobs = w.blobs := by
      cases hc : (e.move S w).change with
      | commit ws => rw [World.apply_commit]
      | deleteBlob key' =>
        cases hpc' : e.pc <;> simp only [EraseTask.move, hpc'] at hc
        case deleteBlob storageKey => exact absurd ⟨storageKey, hpc'⟩ hpc
        all_goals
          repeat' split at hc
          all_goals cases hc
      | saveBlob blob =>
        have hmakes := (Task.erase e).makes (S := S) (w := w)
        simp only [Task.move, hc] at hmakes
        cases hmakes
      | _ => rfl
    rw [hsame]
    refine (or_iff_left ?_).symm
    rintro ⟨hexternal, -⟩
    cases hpc' : e.pc <;> rw [hpc'] at hexternal
    case deleteBlob storageKey => exact hpc ⟨storageKey, hpc'⟩
    all_goals cases hexternal

/-- **The vectors go in a delete that goes through**, and in no other step. -/
theorem points_move (h : e.Copies key t) :
    (∀ p ∈ (w.apply (e.move S w).change).points, p.tenantId = t → p.documentId ≠ e.documentId) ↔
      (∀ p ∈ w.points, p.tenantId = t → p.documentId ≠ e.documentId) ∨
        e.pc.external = some .deletePoints ∧ e.raises .deletePoints = false := by
  by_cases hpc : e.pc = .deletePoints
  · rw [EraseTask.Copies, hpc] at h
    subst h
    simp only [EraseTask.move, hpc, ErasePc.external, true_and]
    split_ifs with hraise
    · exact (or_iff_left fun h => absurd (hraise.symm.trans h) (by decide)).symm
    · refine iff_of_true (fun p hp ht hid => ?_) (Or.inr (Bool.eq_false_iff.2 hraise))
      exact of_decide_eq_true (List.mem_filter.1 hp).2 ⟨ht, hid⟩
  · have hsame : (w.apply (e.move S w).change).points = w.points := by
      have hmakes := (Task.erase e).makes (S := S) (w := w)
      simp only [Task.move] at hmakes
      cases hc : (e.move S w).change with
      | commit ws => rw [World.apply_commit]
      | deletePoints t' d' =>
        rw [hc] at hmakes
        cases hmakes with
        | deletePoints hpc' => exact absurd hpc' hpc
      | upsertPoint point =>
        rw [hc] at hmakes
        cases hmakes
      | _ => rfl
    rw [hsame]
    refine (or_iff_left ?_).symm
    rintro ⟨hexternal, -⟩
    cases hpc' : e.pc <;> rw [hpc'] at hexternal hpc
    case deletePoints => exact hpc rfl
    case deleteBlob storageKey =>
      unfold ErasePc.external at hexternal
      split at hexternal <;> simp_all
    all_goals cases hexternal

end

/-! ## Whole runs -/

section
variable {S : Site} {document : Document} {q₀ q q' : System} {i : ℕ} {key : String}

/-- Every task is an erasure of the document, at work with what its row says. -/
theorem reach_erases {d t : Uuid} (hrow : KeyedRow d key t q₀.shared)
    (herase : ∀ x ∈ q₀.tasks, x.Erases d key t)
    (h : Reach (System.step S) (fun _ _ => True) q₀ q) :
    KeyedRow d key t q.shared ∧ ∀ x ∈ q.tasks, x.Erases d key t := by
  refine Pool.reach_invariant (G := KeyedRow d key t) (L := fun _ x => x.Erases d key t)
    ?_ (fun _ _ _ _ _ _ _ _ => id) h hrow herase
  rintro q i x hG ⟨e, rfl, rfl, he⟩ - -
  refine ⟨keyedRow_step hG he, ?_, fun u hu => (nomatch hu)⟩
  obtain ⟨pc, hpc⟩ := EraseTask.move_goto (S := S) (w := q.shared) (e := e)
  have hcopies := EraseTask.move_copies (S := S) hG he
  rw [hpc] at hcopies
  refine ⟨e.goto pc, ?_, rfl, hcopies⟩
  rw [← hpc]
  rfl

/-- **A tombstone says that the external copies are gone** iff, whenever there is
    one, a delete of the blob has gone through, and one of the vectors if the
    document had any. -/
theorem copies_gone_iff
    (hrow : Rows.find Document.id q₀.shared.db.documents document.id = some document)
    (hkey : document.fileStorageKey = some key) (hblob : ∃ b ∈ q₀.shared.blobs, b.key = key)
    (herase : ∀ x ∈ q₀.tasks, ∃ e, x = .erase e ∧ e.documentId = document.id ∧ e.pc = .register)
    (h : Reach (System.step S) (fun _ _ => True) q₀ q) :
    (q.shared.db.tombstones document.id ≠ [] → (∀ b ∈ q.shared.blobs, b.key ≠ key) ∧
        ∀ p ∈ q.shared.points, p.tenantId = document.tenantId → p.documentId ≠ document.id) ↔
      (q.shared.db.tombstones document.id ≠ [] →
        Passed (System.step S) (fun _ _ => True) (GoesThrough .deleteBlob) q₀ q ∧
          ((∃ p ∈ q₀.shared.points, p.tenantId = document.tenantId ∧ p.documentId = document.id) →
            Passed (System.step S) (fun _ _ => True) (GoesThrough .deletePoints) q₀ q)) := by
  have hkeyed : KeyedRow document.id key document.tenantId q₀.shared := by
    intro row hfind
    cases Option.some.inj (hrow.symm.trans hfind)
    exact ⟨hkey, rfl⟩
  have herases : ∀ x ∈ q₀.tasks, x.Erases document.id key document.tenantId := by
    intro x hx
    obtain ⟨e, rfl, hd, hpc⟩ := herase x hx
    refine ⟨e, rfl, hd, ?_⟩
    rw [EraseTask.Copies, hpc]
    trivial
  -- what a step of the erasure that takes it does to the copies
  have hstep {q q' : System} {i : ℕ} (hr : Reach (System.step S) (fun _ _ => True) q₀ q)
      (hs : System.step S q i = some q') : ∃ e, q.tasks[i]? = some (.erase e) ∧
        e.documentId = document.id ∧ e.Copies key document.tenantId ∧
          q'.shared = q.shared.apply (e.move S q.shared).change := by
    obtain ⟨x, hx, -⟩ := Pool.step_eq_some hs
    obtain ⟨e, rfl, hd, he⟩ := (reach_erases hkeyed herases hr).2 x (List.mem_of_getElem? hx)
    exact ⟨e, hx, hd, he, System.shared_step hs hx⟩
  have hthrough {q : System} {i : ℕ} {e : EraseTask} {p : ErasePoint}
      (he : q.tasks[i]? = some (.erase e)) :
      GoesThrough p q i ↔ e.pc.external = some p ∧ e.raises p = false := by
    constructor
    · rintro ⟨e', he', hp⟩
      cases Option.some.inj (he.symm.trans he')
      exact hp
    · exact fun hp => ⟨e, he, hp⟩
  have hblobs : (∀ b ∈ q.shared.blobs, b.key ≠ key) ↔
      Passed (System.step S) (fun _ _ => True) (GoesThrough .deleteBlob) q₀ q := by
    refine h.iff_passed (I := fun q => ∀ b ∈ q.shared.blobs, b.key ≠ key) ?_ ?_
    · obtain ⟨b, hb, hbk⟩ := hblob
      exact fun hnone => hnone b hb hbk
    · intro q i q' hr _ hs
      obtain ⟨e, he, -, hcopies, hsh⟩ := hstep hr hs
      rw [hsh, hthrough he]
      exact blobs_move hcopies
  have hpoints : (∀ p ∈ q.shared.points, p.tenantId = document.tenantId → p.documentId ≠ document.id) ↔
      ((∃ p ∈ q₀.shared.points, p.tenantId = document.tenantId ∧ p.documentId = document.id) →
        Passed (System.step S) (fun _ _ => True) (GoesThrough .deletePoints) q₀ q) := by
    have hany : (∃ p ∈ q₀.shared.points, p.tenantId = document.tenantId ∧ p.documentId = document.id) ↔
        ¬ ∀ p ∈ q₀.shared.points, p.tenantId = document.tenantId → p.documentId ≠ document.id := by
      push Not
      exact Iff.rfl
    rw [hany]
    refine h.iff_imp_passed (I := fun q => ∀ p ∈ q.shared.points, p.tenantId = document.tenantId →
      p.documentId ≠ document.id) ?_
    intro q i q' hr _ hs
    obtain ⟨e, he, hd, hcopies, hsh⟩ := hstep hr hs
    rw [hsh, hthrough he, ← hd]
    exact points_move hcopies
  rw [hblobs, hpoints]

end

namespace Sample

/-- The document after its run, with a checkpoint and a correction. -/
def processedWorld : World :=
  { world [] with
    checkpoints := [⟨documentId, {}⟩]
    points := [⟨tenantId, schemaId, documentId, .correction, []⟩] }

/-- The document with its blob and a vector. -/
def storedWorld : World := { processedWorld with blobs := [⟨"key", [73]⟩] }

/-- An erasure that the blob storage fails. -/
def blobFails : EraseTask := { erase with raises := fun p => p = .deleteBlob }

end Sample

/-- Two calls, one of which the storage fails.  If both have read the row, the other
    deletes the blob: the tombstone says the truth.  If the other comes later, it finds
    no row, and the blob stays. -/
theorem copies_gone_sample :
    (∃ q, Reach (System.step Sample.site) (fun _ _ => True)
        ⟨Sample.storedWorld, [.erase Sample.erase, .erase Sample.blobFails]⟩ q ∧
      q.shared.db.tombstones Sample.documentId ≠ [] ∧ q.shared.blobs = [] ∧ q.shared.points = [] ∧
        Passed (System.step Sample.site) (fun _ _ => True) (GoesThrough .deleteBlob)
          ⟨Sample.storedWorld, [.erase Sample.erase, .erase Sample.blobFails]⟩ q) ∧
    ∃ q, Reach (System.step Sample.site) (fun _ _ => True)
        ⟨Sample.storedWorld, [.erase Sample.erase, .erase Sample.blobFails]⟩ q ∧
      q.shared.db.tombstones Sample.documentId ≠ [] ∧ q.shared.blobs ≠ [] ∧
        ¬ (Passed (System.step Sample.site) (fun _ _ => True) (GoesThrough .deleteBlob)
              ⟨Sample.storedWorld, [.erase Sample.erase, .erase Sample.blobFails]⟩ q ∧
            Passed (System.step Sample.site) (fun _ _ => True) (GoesThrough .deletePoints)
              ⟨Sample.storedWorld, [.erase Sample.erase, .erase Sample.blobFails]⟩ q) := by
  have hcalls : ∀ x ∈ [Task.erase Sample.erase, .erase Sample.blobFails],
      ∃ e, x = .erase e ∧ e.documentId = Sample.document.id ∧ e.pc = .register := by
    intro x hx
    rcases List.mem_cons.1 hx with rfl | hx
    · exact ⟨_, rfl, rfl, rfl⟩
    · exact ⟨_, List.mem_singleton.1 hx, rfl, rfl⟩
  have hkey : Sample.document.fileStorageKey = some "key" := rfl
  have hoverlap : Reach (System.step Sample.site) (fun _ _ => True)
      ⟨Sample.storedWorld, [.erase Sample.erase, .erase Sample.blobFails]⟩ _ :=
    reach_of_exec (l := [1, 1, 1, 0, 0, 0, 1, 1, 1, 0, 0, 1]) rfl
  have hlater : Reach (System.step Sample.site) (fun _ _ => True)
      ⟨Sample.storedWorld, [.erase Sample.erase, .erase Sample.blobFails]⟩ _ :=
    reach_of_exec (l := [1, 1, 1, 1, 1, 1, 1, 1, 0, 0]) rfl
  constructor
  · have hiff := copies_gone_iff rfl hkey ⟨_, List.mem_singleton_self _, rfl⟩ hcalls hoverlap
    refine ⟨_, hoverlap, List.cons_ne_nil _ _, rfl, rfl, ?_⟩
    exact (hiff.1 (fun _ => ⟨List.forall_mem_nil _, List.forall_mem_nil _⟩) (List.cons_ne_nil _ _)).1
  · have hiff := copies_gone_iff rfl hkey ⟨_, List.mem_singleton_self _, rfl⟩ hcalls hlater
    refine ⟨_, hlater, List.cons_ne_nil _ _, List.cons_ne_nil _ _, fun hpassed => ?_⟩
    obtain ⟨hblobs, -⟩ := hiff.2 (fun _ => ⟨hpassed.1, fun _ => hpassed.2⟩) (List.cons_ne_nil _ _)
    exact hblobs _ (List.mem_singleton_self _) rfl

/-- An erasure that the blob storage fails commits its tombstone, and the blob
    stays. -/
theorem suppressed_delete_leaves_blob :
    ∃ q, Reach (System.step Sample.site) (fun _ _ => True)
        ⟨Sample.storedWorld, [.erase Sample.blobFails]⟩ q ∧
      q.shared.db.tombstones Sample.documentId ≠ [] ∧ ∃ b ∈ q.shared.blobs, b.key = "key" :=
  ⟨_, reach_of_exec (l := [0, 0, 0, 0, 0, 0, 0, 0]) rfl, List.cons_ne_nil _ _, _,
    List.mem_singleton_self _, rfl⟩

end OcrService
