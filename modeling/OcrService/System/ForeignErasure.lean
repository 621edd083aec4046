/-
  Erasure requests that fail.

  `erase_document` registers the document in its process before it looks for
  the row, and `_persist_outcome` skips a registered document.  So a request of
  another tenant, which fails, leaves the run of the document as it would be
  alone iff the run does not see it registered; and a failed request leaves the
  registry as it was iff the document was there before (`failed_erasures`).
-/
import OcrService.System.Changes
import OcrService.System.Pins
import OcrService.Worker.RunAlone

namespace OcrService

open Trans

/-! ## Worlds that differ in the globals only -/

/-- The stores are the same; the globals of the processes may differ. -/
def World.SameStores (w w' : World) : Prop := ∃ procs, w = { w' with procs }

section
variable {S : Site} {w w' : World} {r : RunTask} {c : Change} {p : ℕ} {d : Uuid}

theorem World.SameStores.db (h : w.SameStores w') : w.db = w'.db := by
  obtain ⟨procs, rfl⟩ := h
  rfl

theorem World.SameStores.apply (h : w.SameStores w') (c : Change) :
    (w.apply c).SameStores (w'.apply c) := by
  obtain ⟨procs, rfl⟩ := h
  cases c with
  | commit ws =>
    cases hdb : w'.db.commit ws with
    | ok db =>
      rw [World.apply_commit_ok hdb]
      exact ⟨procs, World.apply_commit_ok (w := { w' with procs }) hdb⟩
    | error e =>
      rw [World.apply_commit_error hdb]
      exact ⟨procs, World.apply_commit_error (w := { w' with procs }) hdb⟩
  | cancel | clear | acquire | release => exact ⟨_, rfl⟩
  | _ => exact ⟨procs, rfl⟩

/-- A run depends on the globals in its erasure guard only. -/
theorem RunTask.move_congr (h : w.SameStores w')
    (hguard : ∀ f document, r.pc = .guard f document →
      (w.procs r.proc).isCancelled r.documentId = (w'.procs r.proc).isCancelled r.documentId) :
    r.move S w = r.move S w' := by
  obtain ⟨procs, rfl⟩ := h
  cases hpc : r.pc <;> simp only [RunTask.move, hpc]
  case guard f document => simp only [RunTask.persistOutcome, hguard f document hpc]
  all_goals rfl

/-- The registry changes by registration and clearing only. -/
theorem isCancelled_apply (h : ∀ p d, c ≠ .cancel p d ∧ c ≠ .clear p d) :
    ((w.apply c).procs p).isCancelled d = (w.procs p).isCancelled d := by
  cases c with
  | cancel p d => exact absurd rfl (h p d).1
  | clear p d => exact absurd rfl (h p d).2
  | commit ws => rw [World.apply_commit]
  | acquire p' t | release p' t =>
    simp only [World.apply, World.onProc, Function.update_apply]
    split_ifs with hp <;> [(subst hp; rfl); rfl]
  | _ => rfl

theorem run_isCancelled : ((w.apply (r.move S w).change).procs p).isCancelled d =
    (w.procs p).isCancelled d := by
  have h := (Task.run r).makes (S := S) (w := w)
  refine isCancelled_apply fun p d => ?_
  simp only [Task.move] at h
  generalize (r.move S w).change = c at h
  cases h <;> simp

end

/-! ## Requests of other tenants -/

/-- A request of another tenant for the document, which has not found it. -/
structure EraseTask.Foreign (document : Document) (e : EraseTask) : Prop where
  id : e.documentId = document.id
  tenant : e.tenantId ≠ document.tenantId
  pc : e.pc = .register ∨ e.pc = .read ∨ e.pc = .done .raised

section
variable {S : Site} {w : World} {e : EraseTask} {document : Document}

/-- It registers the document and raises. -/
theorem EraseTask.Foreign.move (h : e.Foreign document) (hdoc : Agree document.id w.db document) :
    (e.move S w).task.Foreign document ∧
      ((e.move S w).change = .idle ∨ (e.move S w).change = .cancel e.proc e.documentId) := by
  obtain ⟨hid, htenant, hpc⟩ := h
  rcases hpc with hpc | hpc | hpc <;> simp only [EraseTask.move, hpc]
  · exact ⟨⟨hid, htenant, Or.inr (Or.inl rfl)⟩, Or.inr trivial⟩
  · have hnone : w.db.document? e.tenantId e.documentId = none := by
      rw [Option.eq_none_iff_forall_not_mem]
      intro row hrow
      have hpins := hdoc.pins row (mem_of_document? hrow) ((document?_eq hrow).1.trans hid)
      exact htenant ((document?_eq hrow).2.symm.trans (congrArg Prod.fst hpins))
    rw [hnone]
    split_ifs <;> exact ⟨⟨hid, htenant, Or.inr (Or.inr rfl)⟩, Or.inl rfl⟩
  · exact ⟨⟨hid, htenant, Or.inr (Or.inr hpc)⟩, Or.inl trivial⟩

end

/-! ## The interleaved run -/

/-- In an interleaving of a run, task 0, with `n` requests, step `i` is one of
    theirs; and if the run reads the registry, it reads what was there before. -/
structure Unnoticed (w : World) (n : ℕ) (q : System) (i : ℕ) : Prop where
  task : i ≤ n
  guard : ∀ r f document, q.tasks[i]? = some (.run r) → r.pc = .guard f document →
    (q.shared.procs r.proc).isCancelled r.documentId = (w.procs r.proc).isCancelled r.documentId

/-- The run is where it gets to alone, and the requests have not found the
    document. -/
structure Follows (S : Site) (w : World) (r : RunTask) (n : ℕ) (document : Document) (q : System) :
    Prop where
  run : ∃ k v r', alone (Task.effect S) k (w, .run r) = (v, .run r') ∧
    q.tasks[0]? = some (.run r') ∧ q.shared.SameStores v ∧
      ∀ p d, (v.procs p).isCancelled d = (w.procs p).isCancelled d
  erases : ∀ j, j < n → ∃ e, q.tasks[j + 1]? = some (.erase e) ∧ e.Foreign document

section
variable {S : Site} {w : World} {r : RunTask} {n i : ℕ} {document : Document} {q q' : System}

theorem follows_step (h : Follows S w r n document q) (hdoc : Agree document.id q.shared.db document)
    (hok : Unnoticed w n q i) (hs : System.step S q i = some q') : Follows S w r n document q' := by
  obtain ⟨⟨k, v, r', hk, hrun, hstores, hreg⟩, herases⟩ := h
  obtain ⟨x, hx, hsh, -⟩ := Pool.step_eq_some hs
  cases i with
  | zero =>
    obtain rfl := Option.some.inj (hrun.symm.trans hx)
    have hmove : r'.move S q.shared = r'.move S v :=
      RunTask.move_congr hstores fun f document hpc => by
        rw [hreg, hok.guard r' f document hrun hpc]
    refine ⟨⟨k + 1, _, _, alone_succ' _ hk, ?_, ?_, fun p d => ?_⟩, fun j hj => ?_⟩
    · rw [Pool.getElem?_step hs hx hrun, if_pos rfl]
      simp only [Task.effect, Task.move, hmove]
    · rw [hsh]
      simp only [Task.effect, Task.move, hmove]
      exact hstores.apply _
    · exact run_isCancelled.trans (hreg p d)
    · obtain ⟨e, he, hforeign⟩ := herases j hj
      exact ⟨e, by rw [Pool.getElem?_step hs hx he, if_neg (by omega)], hforeign⟩
  | succ i =>
    obtain ⟨e, he, hforeign⟩ := herases i (by have := hok.task; omega)
    obtain rfl := Option.some.inj (he.symm.trans hx)
    obtain ⟨hforeign', hchange⟩ := hforeign.move (S := S) hdoc
    refine ⟨⟨k, v, r', hk, ?_, ?_, hreg⟩, fun j hj => ?_⟩
    · rw [Pool.getElem?_step hs hx hrun, if_neg (by omega)]
    · rw [hsh]
      simp only [Task.effect, Task.move]
      obtain ⟨procs, hprocs⟩ := hstores
      rcases hchange with hc | hc <;> rw [hc, hprocs] <;> exact ⟨_, rfl⟩
    · obtain ⟨e', he', hforeign''⟩ := herases j hj
      rw [Pool.getElem?_step hs hx he']
      split_ifs with hij
      · exact ⟨_, rfl, hforeign'⟩
      · exact ⟨e', rfl, hforeign''⟩

end

/-! ## Requests that fail -/

namespace EraseTask

/-- The call raises before it has committed the status `cancelled`. -/
def FailsEarly (w : World) (e : EraseTask) : Prop :=
  e.raises .read = true ∨ ∀ document, w.db.document? e.tenantId e.documentId = some document →
    e.raises .commitCancelled = true ∨ ∃ err, w.db.commit (cancelWrites document) = .error err

/-- The world in which the call has registered its document. -/
def registered (e : EraseTask) (w : World) : World := w.apply (.cancel e.proc e.documentId)

end EraseTask

section
variable {S : Site} {w : World} {e : EraseTask} {c : World × Task}

/-- A step of an erasure, when it runs alone. -/
theorem finishes_erase_step {m : Move EraseTask Empty} (h : e.move S w = m) :
    Finishes (Task.effect S) (w, .erase e) c ↔
      Finishes (Task.effect S) (w.apply m.change, .erase m.task) c := by
  subst h
  exact Finishes.step_iff

/-- A call that fails early leaves its document registered. -/
theorem failsEarly_finishes (h : e.FailsEarly w) :
    RunsTo S w (.erase (e.goto .register)) (e.registered w) (.erase (e.goto (.done .raised))) := by
  have hdone : RunsTo S (e.registered w) (.erase (e.goto (.done .raised))) (e.registered w)
      (.erase (e.goto (.done .raised))) := Finishes.fixed rfl
  have hread := EraseTask.move_read (S := S) (w := e.registered w) (e := e)
  have hdb : (e.registered w).db = w.db := rfl
  rw [hdb] at hread
  refine (finishes_erase_step EraseTask.move_register).2 ?_
  rcases h with hraise | h
  · rw [if_pos hraise] at hread
    exact (finishes_erase_step hread).2 hdone
  · cases hrow : w.db.document? e.tenantId e.documentId with
    | none =>
      rw [hrow, ite_self] at hread
      exact (finishes_erase_step hread).2 hdone
    | some document =>
      have hcommit := EraseTask.move_commitCancelled (S := S) (w := e.registered w) (e := e) document
      rw [hdb] at hcommit
      by_cases hraise : e.raises .read = true
      · rw [if_pos hraise] at hread
        exact (finishes_erase_step hread).2 hdone
      · rw [if_neg hraise, hrow] at hread
        refine (finishes_erase_step hread).2 ?_
        rcases h document hrow with hraise | ⟨err, herr⟩
        · rw [if_pos hraise] at hcommit
          exact (finishes_erase_step hcommit).2 hdone
        · rw [herr, ite_self] at hcommit
          exact (finishes_erase_step hcommit).2 hdone

/-- Its registry is as it was before iff the document was registered. -/
theorem registered_iff :
    (∀ p d, ((e.registered w).procs p).isCancelled d = (w.procs p).isCancelled d) ↔
      (w.procs e.proc).isCancelled e.documentId = true := by
  simp only [EraseTask.registered, World.apply, World.onProc, Function.update_apply]
  constructor
  · intro h
    rw [← h, if_pos rfl]
    simp [Proc.isCancelled, Proc.cancel]
  · intro h p d
    split_ifs with hp
    · subst hp
      simp only [Proc.isCancelled, decide_eq_true_eq] at h
      simp [Proc.isCancelled, Proc.cancel, Finset.insert_eq_of_mem h]
    · rfl

/-- **What a failed erasure request changes.**  The run of a document persists
    with requests of other tenants what it persists alone, unless its guard
    sees a registration of theirs; and a request that raises before it has
    committed `cancelled` leaves the registry as it was iff its document was
    registered. -/
theorem failed_erasures {r : RunTask} {document : Document} {es : List EraseTask}
    (hpins : PinsAgree r.documentId w.db) (hpc : r.pc = .loadDocument)
    (hrow : w.db.document? r.tenantId r.documentId = some document)
    (hes : ∀ e ∈ es, e.pc = .register ∧ e.documentId = r.documentId ∧ e.tenantId ≠ r.tenantId) :
    (∀ q r' o, Reach (System.step S) (Unnoticed w es.length) ⟨w, .run r :: es.map .erase⟩ q →
      q.tasks[0]? = some (.run r') → r'.pc = .done o →
        ∃ w', RunsTo S w (.run r) w' (.run r') ∧ w'.db = q.shared.db) ∧
    ∀ w (e : EraseTask), e.FailsEarly w →
      ∃ w', RunsTo S w (.erase (e.goto .register)) w' (.erase (e.goto (.done .raised))) ∧
        ((∀ p d, (w'.procs p).isCancelled d = (w.procs p).isCancelled d) ↔
          (w.procs e.proc).isCancelled e.documentId = true) := by
  refine ⟨fun q r' o h hr' ho => ?_, fun w e he => ⟨_, failsEarly_finishes he, registered_iff⟩⟩
  obtain ⟨hid, htenant⟩ := document?_eq hrow
  rw [← hid] at hpins
  have hfresh : ∀ x ∈ Task.run r :: es.map Task.erase, x.Fresh := by
    intro x hx
    rcases List.mem_cons.1 hx with rfl | hx
    · exact hpc
    · obtain ⟨e, he, rfl⟩ := List.mem_map.1 hx
      exact (hes e he).1
  have hpinned {q : System}
      (h : Reach (System.step S) (Unnoticed w es.length) ⟨w, .run r :: es.map .erase⟩ q) :
      PinsAgree document.id q.shared.db ∧ Agree document.id q.shared.db document :=
    (reach_known (S := S) (G := fun w => PinsAgree document.id w.db ∧ Agree document.id w.db document)
      (κ := fun _ => Known.pinned document) (fun _ _ _ hG _ _ _ => reads_pinned hG.2)
      (fun _ _ _ hG _ _ _ hcommit => ⟨pinned_step hG.1 hG.2 (.refl _) hcommit, .refl _⟩)
      h ⟨hpins, hpins.agree _ (mem_of_document? hrow) rfl⟩ fun x hx => (hfresh x hx).holds).1
  have hfollows := (h.strengthen fun _ => hpinned).invariant (I := Follows S w r es.length document)
    ?_ fun q i q' hq hok hs => follows_step hq hok.1.2 hok.2 hs
  · obtain ⟨⟨k, v, r'', hk, hr'', hstores, -⟩, -⟩ := hfollows
    obtain rfl : r' = r'' := Task.run.inj (Option.some.inj (hr'.symm.trans hr''))
    have hfixed : Task.effect S v (.run r') = ⟨v, .run r', []⟩ := by
      simp only [Task.effect, Task.move, RunTask.move, ho]
      rfl
    exact ⟨v, Finishes.of_alone hk hfixed, hstores.db.symm⟩
  · refine ⟨⟨0, w, r, rfl, rfl, ⟨_, rfl⟩, fun _ _ => rfl⟩, fun j hj => ?_⟩
    refine ⟨es[j], ?_, ?_⟩
    · simp [hj]
    · obtain ⟨hreg, hd, ht⟩ := hes _ (List.getElem_mem hj)
      exact ⟨hd.trans hid.symm, by rw [htenant]; exact ht, Or.inl hreg⟩

end

namespace Sample

/-- A request of another tenant for the document. -/
def foreign : EraseTask := { erase with tenantId := otherTenantId }

/-- A run of the document beside two such requests, one in another process. -/
def besideForeign : System :=
  ⟨world [], [.run run, .erase { foreign with proc := 1 }, .erase foreign]⟩

/-- The request fails, then the run of the document ends. -/
def afterForeign : System :=
  (exec (System.step site) ⟨world [], [.run run, .erase foreign]⟩
    ([1, 1] ++ List.replicate 22 0)).getD ⟨{}, []⟩

/-- The delivery that the run schedules. -/
def delivery : WebhookTask := { documentId, tenantId, env := env.webhook }

theorem afterForeign_reach :
    Reach (System.step site) (fun _ _ => True) ⟨world [], [.run run, .erase foreign]⟩ afterForeign := by
  refine reach_of_exec (l := [1, 1] ++ List.replicate 22 0) ?_
  obtain ⟨p, hp⟩ := Option.isSome_iff_exists.1 (show (exec (System.step site)
    ⟨world [], [.run run, .erase foreign]⟩ ([1, 1] ++ List.replicate 22 0)).isSome = true by
      decide +kernel)
  rw [afterForeign, hp, Option.getD_some]

end Sample

/-- `Unnoticed`, for the task that takes the step. -/
def Task.unnoticed (w w' : World) : Task → Bool
  | .run r =>
    match r.pc with
    | .guard _ _ =>
      (w'.procs r.proc).isCancelled r.documentId = (w.procs r.proc).isCancelled r.documentId
    | _ => true
  | _ => true

theorem unnoticed_of_all {w : World} {n : ℕ} {q : System} {i : ℕ}
    (h : i ≤ n ∧ ∀ x ∈ q.tasks[i]?, x.unnoticed w q.shared = true) : Unnoticed w n q i where
  task := h.1
  guard r f document hr hpc := by
    have := h.2 _ hr
    simpa [Task.unnoticed, hpc] using this

/-- A task that is a run which has returned. -/
def Task.runReturned : Task → Bool
  | .run r =>
    match r.pc with
    | .done .returned => true
    | _ => false
  | _ => false

theorem Task.eq_of_runReturned {x : Task} (h : x.runReturned = true) :
    ∃ r, x = .run r ∧ r.pc = .done .returned := by
  unfold Task.runReturned at h
  split at h
  case h_1 r =>
    split at h
    case h_1 hdone => exact ⟨r, rfl, hdone⟩
    case h_2 => cases h
  case h_2 => cases h

/-- A request in another process comes first, and one in the process of the run
    between its guard and its commit: the run completes its document. -/
theorem failed_erasures_sample :
    (∃ q r' w', Reach (System.step Sample.site) (Unnoticed (Sample.world []) 2) Sample.besideForeign q ∧
      (q.shared.procs 0).isCancelled Sample.documentId = true ∧
      (q.shared.db.document? Sample.tenantId Sample.documentId).map Document.status = some .completed ∧
      RunsTo Sample.site (Sample.world []) (.run Sample.run) w' (.run r') ∧ w'.db = q.shared.db) ∧
    ∃ w', RunsTo Sample.site (Sample.world []) (.erase (Sample.foreign.goto .register)) w'
        (.erase (Sample.foreign.goto (.done .raised))) ∧
      ¬ ∀ p d, (w'.procs p).isCancelled d = ((Sample.world []).procs p).isCancelled d := by
  have hrow : (Sample.world []).db.document? Sample.run.tenantId Sample.run.documentId =
      some Sample.document := rfl
  have hforeign : ∀ e ∈ [{ Sample.foreign with proc := 1 }, Sample.foreign],
      e.pc = .register ∧ e.documentId = Sample.run.documentId ∧ e.tenantId ≠ Sample.run.tenantId := by
    intro e he
    rcases List.mem_cons.1 he with rfl | he
    · exact ⟨rfl, rfl, by decide⟩
    · rw [List.mem_singleton.1 he]
      exact ⟨rfl, rfl, by decide⟩
  obtain ⟨hrun, herase⟩ := failed_erasures (S := Sample.site) (Sample.pinsAgree []) rfl hrow hforeign
  constructor
  · -- the guard is the nineteenth step of the run
    have hend : (exec (checked (System.step Sample.site) fun q i =>
        i ≤ 2 ∧ ∀ x ∈ q.tasks[i]?, x.unnoticed (Sample.world []) q.shared = true) Sample.besideForeign
          ([1, 0, 1] ++ List.replicate 18 0 ++ [2, 2, 0, 0, 0])).any (fun q =>
            (q.tasks[0]?).any Task.runReturned && (q.shared.procs 0).isCancelled Sample.documentId &&
              (q.shared.db.document? Sample.tenantId Sample.documentId).map Document.status =
                some .completed) = true := by
      decide +kernel
    obtain ⟨q, hq, hfacts⟩ := exists_of_checked (fun _ _ => unnoticed_of_all) hend
    simp only [Bool.and_eq_true, decide_eq_true_eq] at hfacts
    obtain ⟨⟨hreturned, hregistered⟩, hcompleted⟩ := hfacts
    obtain ⟨x, hx, hreturned⟩ := (Option.any_eq_true _ _).1 hreturned
    obtain ⟨r', rfl, hdone⟩ := Task.eq_of_runReturned hreturned
    obtain ⟨w', hw', hdb⟩ := hrun q r' .returned hq hx hdone
    exact ⟨q, r', w', hq, hregistered, hcompleted, hw', hdb⟩
  · obtain ⟨v, hv, hiff⟩ := herase (Sample.world []) Sample.foreign (Or.inr fun _ h => by cases h)
    exact ⟨v, hv, fun h => by cases hiff.1 h⟩

/-- The run of a document skips its outcome after a request of another tenant
    failed, and completes alone; the request leaves the registry changed. -/
theorem foreign_request_suppresses_outcome :
    ∃ q, Reach (System.step Sample.site) (fun _ _ => True)
        ⟨Sample.world [], [.run Sample.run, .erase Sample.foreign]⟩ q ∧
      q.tasks = [.run (Sample.run.goto (.done .returned)),
        .erase (Sample.foreign.goto (.done .raised)), .webhook Sample.delivery] ∧
      (q.shared.db.document? Sample.tenantId Sample.documentId).map Document.status = some .pending ∧
      (q.shared.procs 0).isCancelled Sample.documentId = true ∧
      ∃ w' o, RunsTo Sample.site (Sample.world []) (.run Sample.run) w' (.run (Sample.run.goto (.done o))) ∧
        (w'.db.document? Sample.tenantId Sample.documentId).map Document.status = some .completed := by
  refine ⟨_, Sample.afterForeign_reach, by with_unfolding_all rfl, by decide +kernel, by decide +kernel, ?_⟩
  obtain ⟨w', o, hrun, hdb⟩ := run_finishes (S := Sample.site) (w := Sample.world []) (r := Sample.run)
    rfl rfl rfl
  refine ⟨w', o, hrun, ?_⟩
  rw [hdb]
  decide +kernel

end OcrService
