/-
  The changes that each task can make to the world.

  `Makes` says it once for every kind of task; proofs about one part of the
  world look at the changes of that part only.
-/
import OcrService.System

namespace OcrService

open PyData

/-- The next step of the run writes a checkpoint. -/
def RunPc.saves : RunPc → Bool
  | .saveInput _ | .save _ _ _ => true
  | _ => false

/-- The changes of a task, with where it makes them. -/
inductive Makes : Task → Change → Prop
  | idle {x : Task} : Makes x .idle
  | commit {x : Task} {ws : List Write} : Makes x (.commit ws)
  | saveCheckpoint {r : RunTask} {s : ExtractionState} (h : r.pc.saves = true) :
      Makes (.run r) (.saveCheckpoint ⟨r.documentId, s⟩)
  | finish {r : RunTask} {outcome : Outcome} (h : r.pc = .release outcome) :
      Makes (.run r) (.release r.proc r.tenantId)
  | register {e : EraseTask} (h : e.pc = .register) : Makes (.erase e) (.cancel e.proc e.documentId)
  | deleteBlob {e : EraseTask} {key : String} : Makes (.erase e) (.deleteBlob key)
  | deletePoints {e : EraseTask} (h : e.pc = .deletePoints) :
      Makes (.erase e) (.deletePoints e.tenantId e.documentId)
  | purge {e : EraseTask} (h : e.pc = .purge) : Makes (.erase e) (.purgeCheckpoints e.documentId)
  | clear {e : EraseTask} (h : e.pc = .clear) : Makes (.erase e) (.clear e.proc e.documentId)
  | upsertExample {q : ReviewRequest} {draft : ReviewDraft} {corrected : Obj}
      {document : Option Document} (h : q.pc = .upsert draft corrected document) :
      Makes (.review q) (.upsertPoint (q.examplePoint draft corrected document))
  | acquire {x : ExtractRequest} {limit : ℕ} (h : x.pc = .acquire limit) :
      Makes (.extract x) (.acquire x.proc x.tenantId)
  | saveBlob {x : ExtractRequest} {blob : Blob} : Makes (.extract x) (.saveBlob blob)
  | release {x : ExtractRequest} {result : ExtractResult} (h : x.pc = .release result) :
      Makes (.extract x) (.release x.proc x.tenantId)
  | upsertSeed {c : SchemaRequest} {expectedJson : Obj} :
      Makes (.schema c) (.upsertPoint ⟨c.tenantId, c.schemaId, c.schemaId, .seed, expectedJson⟩)

section
variable {S : Site} {w : World}

theorem makes_write {r : RunTask} {p : RunPoint} {s : ExtractionState} (h : r.pc.saves = true) :
    Makes (.run r) (r.write p s) := by
  rcases RunTask.write_cases (r := r) p s with hc | hc <;> rw [hc]
  · exact .idle
  · exact .saveCheckpoint h

/-- **What a step changes.** -/
theorem Task.makes (x : Task) : Makes x (x.move S w).change := by
  cases x with
  | run r =>
    cases hpc : r.pc <;> simp only [Task.move, RunTask.move, hpc, RunTask.persistOutcome, RunTask.fail]
    case saveInput s =>
      split_ifs
      · exact .idle
      · exact makes_write (by rw [hpc]; rfl)
    case save n s unsaved => exact makes_write (by rw [hpc]; rfl)
    case release outcome => exact .finish hpc
    all_goals
      repeat' split
      all_goals first
        | exact .idle
        | exact .commit
  | webhook t =>
    cases hpc : t.pc <;> simp only [Task.move, WebhookTask.move, hpc]
    all_goals
      repeat' split
      all_goals first
        | exact .idle
        | exact .commit
  | erase e =>
    cases hpc : e.pc <;> simp only [Task.move, EraseTask.move, hpc]
    case register => exact .register hpc
    case deletePoints => split_ifs <;> [exact .idle; exact .deletePoints hpc]
    case purge => split_ifs <;> [exact .idle; exact .purge hpc]
    case clear => exact .clear hpc
    all_goals
      repeat' split
      all_goals first
        | exact .idle
        | exact .commit
        | exact .deleteBlob
  | review q =>
    cases hpc : q.pc <;> simp only [Task.move, ReviewRequest.move, hpc]
    case upsert draft corrected document => split_ifs <;> [exact .idle; exact .upsertExample hpc]
    all_goals
      repeat' split
      all_goals first
        | exact .idle
        | exact .commit
  | extract x =>
    cases hpc : x.pc <;> simp only [Task.move, ExtractRequest.move, hpc]
    case acquire limit => split_ifs <;> [exact .idle; exact .acquire hpc]
    case saveBlob document =>
      split_ifs
      · rcases x.torn_cases with h | ⟨blob, h⟩
        · exact h ▸ .idle
        · exact h ▸ .saveBlob
      · exact .saveBlob
    case release result => exact .release hpc
    all_goals
      repeat' split
      all_goals first
        | exact .idle
        | exact .commit
  | retry y =>
    cases hpc : y.pc <;> simp only [Task.move, RetryRequest.move, hpc]
    all_goals
      repeat' split
      all_goals first
        | exact .idle
        | exact .commit
  | schema c =>
    cases hpc : c.pc <;> simp only [Task.move, SchemaRequest.move, hpc]
    case upsert schema expectedJson => split_ifs <;> [exact .idle; exact .upsertSeed]
    all_goals
      repeat' split
      all_goals first
        | exact .idle
        | exact .commit

end

end OcrService
