/-
  What a failed `POST /extract` leaves behind.

  The document row goes with the transaction and the slot is given back, but
  the blob is written before the commit, and nothing deletes it when the commit
  fails.  `failed_ingest_iff`: nothing is left exactly if nothing was written to
  the file.
-/
import OcrService.System

namespace OcrService

open Trans PyData

namespace ExtractRequest

section
variable (S : Site) (w : World) (x : ExtractRequest)

/-- Where the content goes. -/
def key : String := storageKey x.tenantId x.documentId

/-- The request inserts this row. -/
def Inserts (document : Document) : Prop :=
  createDocument S w.db x.tenantId x.documentId x.upload = .ok document ∧
    x.raises .resolveSchema = false ∧ x.raises .flush = false ∧
    (Write.insertDocument document).refused w.db = none

/-- The request writes to its file: all of the content, or what a failing write
    leaves. -/
def WritesBlob : Prop :=
  (∃ document, x.Inserts S w document) ∧ (x.raises .saveBlob = false ∨ x.leftover ≠ none)

/-- The world in which the request holds its slot. -/
def admitted : World := w.apply (.acquire x.proc x.tenantId)

/-- Nothing of the request is left: no row, no blob, no run, no slot. -/
def LeavesNothing (q : System) : Prop :=
  (∀ d ∈ q.shared.db.documents, d.id ≠ x.documentId) ∧ (∀ b ∈ q.shared.blobs, b.key ≠ x.key) ∧
    (∀ r, Task.run r ∉ q.tasks) ∧
    (q.shared.procs x.proc).inflight x.tenantId = (w.procs x.proc).inflight x.tenantId

/-- The world of a failed request: its slot is held, and its file written if it
    got so far. -/
def FailedIn (w' : World) : Prop :=
  (¬ x.WritesBlob S w ∧ w' = x.admitted w) ∨
    x.WritesBlob S w ∧ ∃ content, w' = (x.admitted w).apply (.saveBlob ⟨x.key, content⟩)

/-- The world at each point of a request that has nothing enqueued. -/
def At (w' : World) : ExtractPc → Prop
  | .readTenant => w' = w
  | .acquire _ => w' = w ∧ x.raises .readTenant = false
  | .create => w' = x.admitted w
  | .saveBlob document => w' = x.admitted w ∧ x.Inserts S w document
  | .commit document => x.Inserts S w document ∧ x.raises .saveBlob = false ∧
      ∃ content, w' = (x.admitted w).apply (.saveBlob ⟨x.key, content⟩)
  | .enqueue => True
  | .release result => result ≠ .accepted ∧ x.FailedIn S w w'
  | .done result => x.raises .readTenant = false → result ≠ .queueFull →
      ∃ w₁, x.FailedIn S w w₁ ∧ w' = w₁.apply (.release x.proc x.tenantId)

/-- A step that goes on to a point whose world is as it should be. -/
def GoesOn (w' : World) (m : Move ExtractRequest RunTask) : Prop :=
  ∃ pc, m.task = x.goto pc ∧ m.spawned = [] ∧ x.At S w (w'.apply m.change) pc

end

section
variable {S : Site} {w w' : World} {x : ExtractRequest} {pc : ExtractPc}

@[simp] theorem goto_pc : (x.goto pc).pc = pc := rfl

/-- A step of the request keeps `At`, until it enqueues. -/
theorem at_move (h : x.At S w w' pc) (hpc : pc ≠ .enqueue) :
    x.GoesOn S w w' ((x.goto pc).move S w') := by
  cases pc with
  | readTenant =>
    rw [move_readTenant]
    split_ifs with hraise
    · exact ⟨.done .failed, rfl, rfl, fun hfalse => absurd hraise (ne_true_of_eq_false hfalse)⟩
    · exact ⟨.acquire _, rfl, rfl, h, Bool.eq_false_iff.2 hraise⟩
  | acquire limit =>
    obtain ⟨rfl, -⟩ := h
    rw [move_acquire]
    split_ifs
    · exact ⟨.done .queueFull, rfl, rfl, fun _ hfull => absurd rfl hfull⟩
    · exact ⟨.create, rfl, rfl, rfl⟩
  | create =>
    obtain rfl : w' = x.admitted w := h
    rw [move_create, show (x.admitted w).db = w.db from rfl]
    cases hdoc : createDocument S w.db x.tenantId x.documentId x.upload with
    | error e =>
      refine ⟨.release (.refused e), rfl, rfl, by simp, Or.inl ⟨?_, rfl⟩⟩
      rintro ⟨⟨document, hdocument, -⟩, -⟩
      rw [hdoc] at hdocument
      cases hdocument
    | ok document =>
      dsimp only
      split_ifs with hraise
      · refine ⟨.release .failed, rfl, rfl, by simp, Or.inl ⟨?_, rfl⟩⟩
        rintro ⟨⟨document', hdocument, hresolve, hflush, hinsert⟩, -⟩
        rw [hdoc, Except.ok.injEq] at hdocument
        subst hdocument
        simp [hresolve, hflush, hinsert] at hraise
      · simp only [not_or, Bool.not_eq_true, Option.isSome_eq_false_iff, Option.isNone_iff_eq_none]
          at hraise
        exact ⟨.saveBlob document, rfl, rfl, rfl, hdoc, hraise⟩
  | saveBlob document =>
    obtain ⟨rfl, hinserts⟩ := h
    rw [move_saveBlob]
    split_ifs with hraise
    · refine ⟨.release .failed, rfl, rfl, by simp, ?_⟩
      dsimp only [torn]
      cases hleft : x.leftover with
      | none =>
        refine Or.inl ⟨?_, rfl⟩
        rintro ⟨-, hsaved | hsome⟩
        · exact ne_true_of_eq_false hsaved hraise
        · exact hsome hleft
      | some content => exact Or.inr ⟨⟨⟨document, hinserts⟩, Or.inr (by simp [hleft])⟩, content, rfl⟩
    · exact ⟨.commit document, rfl, rfl, hinserts, Bool.eq_false_iff.2 hraise, _, rfl⟩
  | commit document =>
    obtain ⟨hinserts, hsaved, content, rfl⟩ := h
    have hfailed : x.FailedIn S w ((x.admitted w).apply (.saveBlob ⟨x.key, content⟩)) :=
      Or.inr ⟨⟨⟨document, hinserts⟩, Or.inl hsaved⟩, content, rfl⟩
    rw [move_commit]
    split_ifs
    · exact ⟨.release .failed, rfl, rfl, by simp, hfailed⟩
    · split
      · exact ⟨.release .failed, rfl, rfl, by simp, hfailed⟩
      · exact ⟨.enqueue, rfl, rfl, trivial⟩
  | enqueue => exact absurd rfl hpc
  | release result => exact ⟨.done result, rfl, rfl, fun _ _ => ⟨w', h.2, rfl⟩⟩
  | done result => exact ⟨.done result, rfl, rfl, h⟩

/-- The request, until it has enqueued its run. -/
def Failing (S : Site) (w : World) (x : ExtractRequest) (q : System) : Prop :=
  (∃ pc, q.tasks = [.extract (x.goto pc)] ∧ x.At S w q.shared pc) ∨
    q.tasks[0]? = some (.extract (x.goto (.done .accepted)))

/-- **A failing request**: its runs go along `At`. -/
theorem failing_reach {q : System} (hpc : x.pc = .readTenant)
    (h : Reach (System.step S) (fun _ _ => True) ⟨w, [.extract x]⟩ q) : Failing S w x q := by
  refine h.invariant (Or.inl ⟨.readTenant, by rw [goto, ← hpc], rfl⟩) fun q i q' hq _ hs => ?_
  rcases hq with ⟨pc, htasks, hat⟩ | hdone
  · obtain ⟨t, ht, hshared, htasks'⟩ := Pool.step_eq_some hs
    obtain rfl : i = 0 := by
      rw [htasks] at ht
      obtain ⟨hlt, -⟩ := List.getElem?_eq_some_iff.1 ht
      simpa using hlt
    obtain rfl : t = .extract (x.goto pc) := by
      rw [htasks] at ht
      exact (Option.some.inj ht).symm
    by_cases henq : pc = .enqueue
    · subst henq
      refine Or.inr ?_
      rw [htasks', htasks]
      rfl
    · obtain ⟨pc', htask, hspawned, hat'⟩ := at_move hat henq
      refine Or.inl ⟨pc', ?_, hshared ▸ hat'⟩
      rw [htasks', htasks]
      simp [Task.effect, Task.move, htask, hspawned]
  · rcases Pool.moved_or_same_of_step hs hdone with ⟨-, hdone'⟩ | ⟨-, hdone'⟩
    · exact Or.inr hdone'
    · exact Or.inr hdone'

/-- The slot of a request is given back. -/
theorem inflight_released {w₁ : World} (h : w₁.procs = (x.admitted w).procs) :
    ((w₁.apply (.release x.proc x.tenantId)).procs x.proc).inflight x.tenantId =
      (w.procs x.proc).inflight x.tenantId := by
  simp [World.apply, World.onProc, h, admitted, Proc.acquire, Proc.release]

/-- **A failed ingest leaves nothing behind** exactly if it wrote nothing to its
    file. -/
theorem failed_ingest_iff {q : System} {result : ExtractResult} (hpc : x.pc = .readTenant)
    (hread : x.raises .readTenant = false)
    (hrow : ∀ d ∈ w.db.documents, d.id ≠ x.documentId) (hblob : ∀ b ∈ w.blobs, b.key ≠ x.key)
    (hrun : Reach (System.step S) (fun _ _ => True) ⟨w, [.extract x]⟩ q)
    (hdone : q.tasks[0]? = some (.extract (x.goto (.done result))))
    (hfailed : result ≠ .accepted) (hpassed : result ≠ .queueFull) :
    x.LeavesNothing w q ↔ ¬ x.WritesBlob S w := by
  rcases failing_reach hpc hrun with ⟨pc, htasks, hat⟩ | haccepted
  · obtain rfl : pc = .done result := by
      rw [htasks] at hdone
      injection hdone with h
      injection h with h
      exact congrArg ExtractRequest.pc h
    obtain ⟨w₁, hw₁, hshared⟩ := hat hread hpassed
    have hruns : ∀ r, Task.run r ∉ q.tasks := by
      intro r hr
      rw [htasks, List.mem_singleton] at hr
      cases hr
    rcases hw₁ with ⟨hnot, rfl⟩ | ⟨hwrites, content, rfl⟩
    · refine iff_of_true ⟨?_, ?_, hruns, ?_⟩ hnot
      · rw [hshared]
        exact hrow
      · rw [hshared]
        exact hblob
      · rw [hshared]
        exact inflight_released rfl
    · refine iff_of_false ?_ (not_not.2 hwrites)
      rintro ⟨-, hblobs, -⟩
      refine hblobs ⟨x.key, content⟩ ?_ rfl
      rw [hshared]
      exact List.mem_append_right _ (List.mem_singleton_self _)
  · rw [haccepted] at hdone
    injection hdone with h
    injection h with h
    injection congrArg ExtractRequest.pc h with h
    exact absurd h.symm hfailed

end

end ExtractRequest

namespace Sample

/-- An upload whose file cannot be written: nothing or a part of it is left. -/
def unsavedUpload (leftover : Option Bytes) : ExtractRequest :=
  { extract with
    raises := fun p => p = .saveBlob
    leftover }

def uncommitted : ExtractRequest := { extract with raises := fun p => p = .commit }

end Sample

/-- The save of an upload fails: nothing is left if no file is, and else the part
    that was written. -/
theorem failed_ingest_iff_unsaved :
    (∃ q, Reach (System.step Sample.site) (fun _ _ => True)
        ⟨Sample.world [], [.extract (Sample.unsavedUpload none)]⟩ q ∧
      (Sample.unsavedUpload none).LeavesNothing (Sample.world []) q) ∧
    ∃ q, Reach (System.step Sample.site) (fun _ _ => True)
        ⟨Sample.world [], [.extract (Sample.unsavedUpload (some [73]))]⟩ q ∧
      ¬ (Sample.unsavedUpload (some [73])).LeavesNothing (Sample.world []) q := by
  have hrun (leftover : Option Bytes) : Reach (System.step Sample.site) (fun _ _ => True)
      ⟨Sample.world [], [.extract (Sample.unsavedUpload leftover)]⟩ _ :=
    reach_of_exec (l := [0, 0, 0, 0, 0]) rfl
  have hfailed : ExtractResult.failed ≠ .accepted ∧ ExtractResult.failed ≠ .queueFull := by
    constructor <;> simp
  have hnew : ∀ d ∈ (Sample.world []).db.documents, d.id ≠ 5 := by decide
  constructor
  · refine ⟨_, hrun none, (ExtractRequest.failed_ingest_iff rfl rfl hnew (List.forall_mem_nil _)
      (hrun none) rfl hfailed.1 hfailed.2).2 ?_⟩
    rintro ⟨-, hsaved | hleft⟩
    · cases hsaved
    · exact hleft rfl
  · refine ⟨_, hrun (some [73]), ?_⟩
    rw [ExtractRequest.failed_ingest_iff rfl rfl hnew (List.forall_mem_nil _) (hrun (some [73])) rfl
      hfailed.1 hfailed.2, not_not]
    exact ⟨⟨_, rfl, rfl, rfl, rfl⟩, Or.inr (by simp [Sample.unsavedUpload])⟩

/-- A request whose commit fails: its blob stays. -/
theorem failed_commit_leaves_blob :
    ∃ q, Reach (System.step Sample.site) (fun _ _ => True)
        ⟨Sample.world [], [.extract Sample.uncommitted]⟩ q ∧
      q.tasks[0]? = some (.extract (Sample.uncommitted.goto (.done .failed))) ∧
      ¬ Sample.uncommitted.LeavesNothing (Sample.world []) q := by
  refine ⟨_, reach_of_exec (l := [0, 0, 0, 0, 0, 0]) rfl, rfl, ?_⟩
  rintro ⟨-, hblobs, -⟩
  exact hblobs _ (List.mem_singleton_self _) rfl

end OcrService
