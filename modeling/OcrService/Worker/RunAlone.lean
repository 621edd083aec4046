/-
  A pipeline run with nothing else going on.

  Every run finishes.  Either an exception ends it before `_persist_outcome`,
  and the database is as it was, or the graph returns a final state and the
  rest of the run is that of `_persist_outcome` on it (`run_reaches`,
  `run_stops`).
-/
import OcrService.System

namespace OcrService

open Trans PyData

/-- The states that the write of a checkpoint leaves on the thread. -/
def RunEnv.saved (E : RunEnv) (p : RunPoint) (s : ExtractionState) : List ExtractionState :=
  if E.raises p then [] else [s]

/-- The graph of a run whose nodes and writes of checkpoints may raise: the
    states it saves, and its last state with whether a write has raised; `none`
    if a node raised. -/
def invoke (E : RunEnv) : ℕ → NodeName → ExtractionState → Bool →
    List ExtractionState × Option (ExtractionState × Bool)
  | 0, _, _, _ => ([], none)
  | k + 1, n, s, unsaved =>
    if E.raises (.node n) then ([], none)
    else match (n.run E.K s).result with
      | .error _ => ([], none)
      | .ok u =>
        match n.next (s.update u) with
        | none => (E.saved (.save n) (s.update u), some (s.update u, unsaved || E.raises (.save n)))
        | some m =>
          let rest := invoke E k m (s.update u) (unsaved || E.raises (.save n))
          (E.saved (.save n) (s.update u) ++ rest.1, rest.2)

/-- The number of nodes from a node to the end of the graph, at most. -/
def NodeName.height : NodeName → ℕ
  | parse => 6
  | guardrail => 5
  | extract => 4
  | score => 3
  | route => 2
  | deliver | review | dlq => 1

theorem NodeName.height_next {n m : NodeName} {s : ExtractionState} (h : n.next s = some m) :
    m.height < n.height := by
  cases n <;> simp only [NodeName.next, Option.some.injEq, reduceCtorEq] at h <;> subst h <;>
    first
    | decide
    | (cases Nodes.routeDecision s <;> decide)

/-- Save states on the thread of a run. -/
def World.saveStates (w : World) (threadId : Uuid) (states : List ExtractionState) : World :=
  { w with checkpoints := w.checkpoints ++ states.map fun s => ⟨threadId, s⟩ }

/-- The world in which a run has released its slot. -/
def World.released (w : World) (r : RunTask) : World :=
  w.onProc r.proc fun g => g.release r.tenantId

section
variable {S : Site} {w : World} {r : RunTask} {c : World × Task}

/-- A step of a run, when it runs alone. -/
theorem finishes_run_step {m : Move RunTask WebhookTask} (h : r.move S w = m) :
    Finishes (Task.effect S) (w, .run r) c ↔
      Finishes (Task.effect S) (w.apply m.change, .run m.task) c := by
  subst h
  exact Finishes.step_iff

/-- A step that leaves the world alone. -/
theorem finishes_idle {r' : RunTask} {ts : List WebhookTask}
    (h : r.move S w = { task := r', spawned := ts }) :
    Finishes (Task.effect S) (w, .run r) c ↔ Finishes (Task.effect S) (w, .run r') c :=
  finishes_run_step h

theorem finishes_release {o : Outcome} :
    RunsTo S w (.run (r.goto (.release o))) (w.released r) (.run (r.goto (.done o))) :=
  Finishes.step_iff.2 (Finishes.fixed rfl)

theorem saveStates_nil (d : Uuid) : w.saveStates d [] = w := by simp [World.saveStates]

theorem saveStates_write (p : RunPoint) (s : ExtractionState) (l : List ExtractionState) :
    (w.apply (r.write p s)).saveStates r.documentId l =
      w.saveStates r.documentId (r.env.saved p s ++ l) := by
  unfold RunTask.write RunEnv.saved
  split_ifs
  · rfl
  · simp [World.saveStates, World.apply]

/-- Where a run goes when the graph returned or raised. -/
def RunPc.afterGraph : Option (ExtractionState × Bool) → RunPc
  | some (final, unsaved) => .closeSaver final unsaved
  | none => .release .raised

/-- From a node on, the graph saves the states of `invoke` and ends as it does. -/
theorem finishes_node : ∀ {k : ℕ} {n : NodeName} {s : ExtractionState} {unsaved : Bool} {w : World},
    n.height ≤ k →
    (Finishes (Task.effect S) (w, .run (r.goto (.node n s unsaved))) c ↔
      Finishes (Task.effect S) (w.saveStates r.documentId (invoke r.env k n s unsaved).1,
        .run (r.goto (.afterGraph (invoke r.env k n s unsaved).2))) c)
  | 0, n, s, unsaved, w, hk => by cases n <;> simp [NodeName.height] at hk
  | k + 1, n, s, unsaved, w, hk => by
    have hnode := RunTask.move_node (S := S) (w := w) (r := r) n s unsaved
    rw [invoke]
    by_cases hraise : r.env.raises (.node n) = true
    · rw [if_pos hraise] at hnode ⊢
      rw [saveStates_nil]
      exact finishes_run_step hnode
    · rw [if_neg hraise] at hnode ⊢
      cases hrun : (n.run r.env.K s).result with
      | error e =>
        rw [hrun] at hnode
        rw [saveStates_nil]
        exact finishes_run_step hnode
      | ok u =>
        rw [hrun] at hnode
        have hsave := RunTask.move_save (S := S) (w := w) (r := r) n (s.update u) unsaved
        refine (finishes_idle hnode).trans ((finishes_run_step hsave).trans ?_)
        rw [RunPc.afterNode]
        cases hnext : n.next (s.update u) with
        | none =>
          simp only [hnext]
          rw [← List.append_nil (r.env.saved _ _), ← saveStates_write, saveStates_nil]
          rfl
        | some m =>
          have := NodeName.height_next hnext
          simp only [hnext]
          rw [finishes_node (k := k) (by omega), saveStates_write]

end

/-! ## Up to `_persist_outcome` -/

namespace RunTask

/-- The input of a run of this document. -/
def input (r : RunTask) (w : World) (document : Document) : ExtractionState :=
  initialState r.documentId r.tenantId document (w.db.schema? r.tenantId document.schemaId)

/-- The channels its graph starts from. -/
def start (r : RunTask) (w : World) (document : Document) : ExtractionState :=
  channels (w.savedState r.documentId) (r.input w document)

/-- The graph of a run of this document. -/
def graph (r : RunTask) (w : World) (document : Document) :
    List ExtractionState × Option (ExtractionState × Bool) :=
  invoke r.env recursionLimit .parse (r.start w document) (r.env.raises .saveInput)

/-- The state that a run alone hands to `_persist_outcome`; `none` if the
    document is missing or an exception came before. -/
def reached (r : RunTask) (w : World) : Option ExtractionState :=
  match w.db.document? r.tenantId r.documentId with
  | none => none
  | some document =>
    if r.env.raises .loadDocument ∨ r.env.raises .loadSchema ∨ r.env.raises .openSaver ∨
        r.env.raises .readThread ∨ r.env.raises .closeSaver then none
    else match (r.graph w document).2 with
      | some (final, false) => some final
      | _ => none

end RunTask

section
variable {S : Site} {w : World} {r : RunTask} {f : ExtractionState} {document : Document}
  {c : World × Task}

/-- The states that the run of this document saves. -/
def RunTask.saves (r : RunTask) (w : World) (document : Document) : List ExtractionState :=
  r.env.saved .saveInput (r.start w document) ++ (r.graph w document).1

/-- From the invocation of the graph to its end. -/
theorem finishes_graph (hread : r.env.raises .readThread = false) :
    Finishes (Task.effect S) (w, .run (r.goto (.saveInput (r.input w document)))) c ↔
      Finishes (Task.effect S) (w.saveStates r.documentId (r.saves w document),
        .run (r.goto (.afterGraph (r.graph w document).2))) c := by
  have h := RunTask.move_saveInput (S := S) (w := w) (r := r) (r.input w document)
  rw [hread, if_neg Bool.false_ne_true] at h
  refine (finishes_run_step h).trans ?_
  dsimp only
  rw [finishes_node (k := recursionLimit) (by decide), saveStates_write]
  rfl

/-- A run whose next step raises. -/
theorem stops_of_fail {pc : RunPc} (h : (r.goto pc).move S w = r.fail) :
    RunsTo S w (.run (r.goto pc)) (w.released r) (.run (r.goto (.done .raised))) :=
  (finishes_idle h).2 finishes_release

/-- **A run that reaches `_persist_outcome` goes on as it does.** -/
theorem run_reaches (h : r.reached w = some f) :
    ∃ l, ∀ c, Finishes (Task.effect S) (w, .run (r.goto .loadDocument)) c ↔
      Finishes (Task.effect S) (w.saveStates r.documentId l, .run (r.goto (.persist f))) c := by
  unfold RunTask.reached at h
  split at h
  · cases h
  · rename_i document hdoc
    split_ifs at h with hraise
    simp only [not_or, Bool.not_eq_true] at hraise
    obtain ⟨h₁, h₂, h₃, h₄, h₅⟩ := hraise
    split at h
    case h_2 => cases h
    rename_i final hg
    cases h
    have hload := RunTask.move_loadDocument (S := S) (w := w) (r := r)
    have hschema := RunTask.move_loadSchema (S := S) (w := w) (r := r) document
    have hopen := RunTask.move_openSaver (S := S) (w := w) (r := r) (r.input w document)
    rw [h₁, if_neg Bool.false_ne_true, hdoc] at hload
    rw [h₂, if_neg Bool.false_ne_true] at hschema
    rw [h₃, if_neg Bool.false_ne_true] at hopen
    refine ⟨r.saves w document, fun c => ?_⟩
    rw [finishes_idle hload]
    refine (finishes_idle hschema).trans ((finishes_idle hopen).trans
      ((finishes_graph h₄).trans ?_))
    have hclose := RunTask.move_closeSaver (S := S) (r := r) f false
      (w := w.saveStates r.documentId (r.saves w document))
    rw [h₅, if_neg (by simp)] at hclose
    rw [hg, RunPc.afterGraph]
    exact finishes_idle hclose

/-- **A run that does not reach it leaves the database alone.** -/
theorem run_stops (h : r.reached w = none) :
    ∃ l o, RunsTo S w (.run (r.goto .loadDocument)) ((w.saveStates r.documentId l).released r)
      (.run (r.goto (.done o))) := by
  have hload := RunTask.move_loadDocument (S := S) (w := w) (r := r)
  by_cases h₁ : r.env.raises .loadDocument = true
  · rw [if_pos h₁] at hload
    exact ⟨[], .raised, by rw [saveStates_nil]; exact stops_of_fail hload⟩
  rw [if_neg h₁] at hload
  unfold RunTask.reached at h
  cases hdoc : w.db.document? r.tenantId r.documentId with
  | none =>
    rw [hdoc] at hload
    exact ⟨[], .returned,
      (finishes_idle hload).2 (by rw [saveStates_nil]; exact finishes_release)⟩
  | some document =>
    rw [hdoc] at hload h
    have hschema := RunTask.move_loadSchema (S := S) (w := w) (r := r) document
    have hopen := RunTask.move_openSaver (S := S) (w := w) (r := r) (r.input w document)
    by_cases h₂ : r.env.raises .loadSchema = true
    · rw [if_pos h₂] at hschema
      exact ⟨[], .raised, (finishes_idle hload).2 (by rw [saveStates_nil]; exact stops_of_fail hschema)⟩
    rw [if_neg h₂] at hschema
    by_cases h₃ : r.env.raises .openSaver = true
    · rw [if_pos h₃] at hopen
      exact ⟨[], .raised, (finishes_idle hload).2 ((finishes_idle hschema).2
        (by rw [saveStates_nil]; exact stops_of_fail hopen))⟩
    rw [if_neg h₃] at hopen
    by_cases h₄ : r.env.raises .readThread = true
    · have hsave := RunTask.move_saveInput (S := S) (w := w) (r := r) (r.input w document)
      rw [if_pos h₄] at hsave
      exact ⟨[], .raised, (finishes_idle hload).2 ((finishes_idle hschema).2
        ((finishes_idle hopen).2 (by rw [saveStates_nil]; exact stops_of_fail hsave)))⟩
    refine ⟨r.saves w document, .raised, (finishes_idle hload).2 ((finishes_idle hschema).2
      ((finishes_idle hopen).2 ((finishes_graph (by simpa using h₄)).2 ?_)))⟩
    cases hg : (r.graph w document).2 with
    | none => exact finishes_release
    | some ended =>
      obtain ⟨f, unsaved⟩ := ended
      have hclose := RunTask.move_closeSaver (S := S) (r := r) f unsaved
        (w := w.saveStates r.documentId (r.saves w document))
      have h₅ : unsaved = true ∨ r.env.raises .closeSaver = true := by
        by_contra h₅
        cases unsaved <;> simp_all
      rw [if_pos h₅] at hclose
      exact stops_of_fail hclose

/-! ## `_persist_outcome` -/

/-- The database after the transaction of `_persist_outcome`, if it commits. -/
def RunTask.persistDb (S : Site) (w : World) (r : RunTask) (f : ExtractionState) : Option Db :=
  match w.db.document? r.tenantId r.documentId with
  | none => none
  | some document =>
    if document.status = .cancelled ∨ document.status = .tombstone ∨
        (w.procs r.proc).isCancelled r.documentId then none
    else match persistWrites S r.tenantId r.env.nonces document f with
      | .error _ => none
      | .ok ws => (w.db.commit ws).toOption

theorem finishes_persisted :
    RunsTo S w (.run (r.goto (.persisted f))) (w.released r) (.run (r.goto (.done .returned))) :=
  (finishes_idle (RunTask.move_persisted f)).2 finishes_release

/-- `_persist_outcome` commits `persistDb`, or nothing. -/
theorem persist_finishes (hread : r.env.raises .persist = false) (hcommit : r.env.raises .commit = false) :
    ∃ o, RunsTo S w (.run (r.goto (.persist f)))
      (({ w with db := (r.persistDb S w f).getD w.db } : World).released r)
      (.run (r.goto (.done o))) := by
  have hp := RunTask.move_persist (S := S) (w := w) (r := r) f
  rw [hread, if_neg Bool.false_ne_true] at hp
  unfold RunTask.persistDb
  cases hdoc : w.db.document? r.tenantId r.documentId with
  | none =>
    rw [hdoc] at hp
    exact ⟨.returned, (finishes_idle hp).2 finishes_persisted⟩
  | some document =>
    rw [hdoc] at hp
    have hg := RunTask.move_guard (S := S) (w := w) (r := r) f document
    rw [RunTask.persistOutcome] at hg
    dsimp only
    by_cases hskip : document.status = .cancelled ∨ document.status = .tombstone ∨
        (w.procs r.proc).isCancelled r.documentId
    · rw [if_pos hskip] at hg ⊢
      exact ⟨.returned, (finishes_idle hp).2 ((finishes_idle hg).2 finishes_persisted)⟩
    · rw [if_neg hskip] at hg ⊢
      cases hws : persistWrites S r.tenantId r.env.nonces document f with
      | error e =>
        rw [hws] at hg
        exact ⟨.raised, (finishes_idle hp).2 (stops_of_fail hg)⟩
      | ok ws =>
        rw [hws] at hg
        have hc := RunTask.move_commit (S := S) (w := w) (r := r) f ws
        rw [hcommit, if_neg Bool.false_ne_true] at hc
        dsimp only
        cases hdb : w.db.commit ws with
        | error e =>
          rw [hdb] at hc
          exact ⟨.raised, (finishes_idle hp).2 ((finishes_idle hg).2 (stops_of_fail hc))⟩
        | ok db =>
          rw [hdb] at hc
          refine ⟨.returned, (finishes_idle hp).2 ((finishes_idle hg).2
            ((finishes_run_step hc).2 ?_))⟩
          rw [show w.apply (.commit ws) = { w with db } from World.apply_commit_ok hdb]
          exact finishes_persisted

end

/-! ## The whole run -/

/-- The database after a run alone. -/
def RunTask.finalDb (S : Site) (w : World) (r : RunTask) : Db :=
  match r.reached w with
  | none => w.db
  | some f => (r.persistDb S w f).getD w.db

/-- **Every run finishes, and leaves `finalDb`**, when the database is available
    to `_persist_outcome`. -/
theorem run_finishes {S : Site} {w : World} {r : RunTask} (hpc : r.pc = .loadDocument)
    (hread : r.env.raises .persist = false) (hcommit : r.env.raises .commit = false) :
    ∃ w' o, RunsTo S w (.run r) w' (.run (r.goto (.done o))) ∧ w'.db = r.finalDb S w := by
  have hr : r.goto .loadDocument = r := by rw [RunTask.goto, ← hpc]
  unfold RunTask.finalDb
  cases h : r.reached w with
  | none =>
    obtain ⟨l, o, hrun⟩ := run_stops (S := S) h
    rw [hr] at hrun
    exact ⟨_, o, hrun, rfl⟩
  | some f =>
    obtain ⟨l, hl⟩ := run_reaches (S := S) h
    obtain ⟨o, hrun⟩ := persist_finishes (S := S) (w := w.saveStates r.documentId l) (f := f)
      hread hcommit
    rw [hr] at hl
    exact ⟨_, o, (hl _).2 hrun, rfl⟩

end OcrService
