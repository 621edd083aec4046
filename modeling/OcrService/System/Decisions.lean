/-
  The decisions of a review task.

  `apply_action` compares the version that the reviewer saw with that of the row
  it reads, and its commit is refused if the row has moved on since.  The status
  is not looked at.

  * `decision_step`: as long as no call reads a decided task with the version it
    expects, a step commits nothing, or decides a task that was open;
  * `one_decision`: of the calls that expect one and the same version, at most
    one commits, and the others end in an error and change nothing;
  * `decided_final`: a decided task stays as it is, unless a later call expects
    the version that the decision left.
-/
import OcrService.System
import OcrService.Db.Writes

namespace OcrService

open Trans PyData

/-- An accepted, corrected or rejected review. -/
def ReviewStatus.decided : ReviewStatus → Bool
  | .accepted | .corrected | .rejected => true
  | .pending | .inProgress => false

/-- An action that `apply_action` carries out. -/
def ReviewAction.valid : ReviewAction → Bool
  | .accept | .correct (some (_ :: _)) | .reject _ => true
  | .correct _ | .unknown _ => false

/-- Call `j` has committed its decision. -/
def Committed (q : System) (j : ℕ) : Prop :=
  ∃ r, q.tasks[j]? = some (.review r) ∧ r.pc = .done .returned

/-- Call `j` has ended in an error. -/
def Refused (q : System) (j : ℕ) : Prop :=
  ∃ r, q.tasks[j]? = some (.review r) ∧ r.pc = .done .raised

/-- Step `i` is not the read of review task `ρ`, already decided, for a valid
    action that expects its version. -/
def NotAgain (ρ : RowId) (q : System) (i : ℕ) : Prop :=
  ∀ r row, q.tasks[i]? = some (.review r) → r.pc = .readReview → r.raises .readReview = false →
    q.shared.db.reviewTask? r.tenantId ρ = some row → row.status.decided = true →
      r.action.valid = true → row.version ≠ r.expectedVersion

/-! ## Drafts -/

/-- A draft that decides review task `ρ`, made from an undecided row of version `v`
    that is older than the row in the table, or the row. -/
structure Decides (ρ : RowId) (v : ℕ) (db : Db) (draft : ReviewDraft) : Prop where
  id : draft.old.id = ρ
  version : draft.old.version = v
  undecided : draft.old.status.decided = false
  current : ∀ row, Rows.find ReviewTask.id db.reviewTasks ρ = some row →
    draft.old.version < row.version ∨ draft.old = row
  newId : draft.new.id = ρ
  decided : draft.new.status.decided = true
  extraction : ∀ w ∈ draft.extraction, ∃ old new, w = .updateExtractionResult old new

/-- What a call on review task `ρ` holds decides the task. -/
def ReviewRequest.Drafted (S : Site) (ρ : RowId) (db : Db) (r : ReviewRequest) : Prop :=
  match r.pc with
  | .readExtraction draft _ | .readExampleDocument draft _ | .upsert draft _ _ | .readDocument draft =>
    Decides ρ r.expectedVersion db draft
  | .commit ws => ∃ draft document,
    Decides ρ r.expectedVersion db draft ∧ ws = r.finishWrites S draft document
  | _ => True

section
variable {S : Site} {ρ : RowId} {v : ℕ} {db db' : Db} {w : World} {r : ReviewRequest}
  {draft : ReviewDraft} {row : ReviewTask}

theorem Decides.setExtraction (h : Decides ρ v db draft) (extraction : ExtractionResult)
    (corrected : Obj) : Decides ρ v db (draft.setExtraction extraction corrected) := by
  refine ⟨h.id, h.version, h.undecided, h.current, h.newId, h.decided, ?_⟩
  intro wr hwr
  exact ⟨_, _, List.mem_singleton.1 hwr⟩

/-- A draft stays one when the row moves on, and is then out of date. -/
theorem Decides.moved {row' : ReviewTask} (h : Decides ρ v db draft)
    (hrow : Rows.find ReviewTask.id db.reviewTasks ρ = some row)
    (hrow' : Rows.find ReviewTask.id db'.reviewTasks ρ = some row') (hv : row.version < row'.version) :
    Decides ρ v db' draft := by
  refine ⟨h.id, h.version, h.undecided, ?_, h.newId, h.decided, h.extraction⟩
  intro row'' hrow''
  cases Option.some.inj (hrow'.symm.trans hrow'')
  rcases h.current row hrow with hlt | heq
  · exact Or.inl (hlt.trans hv)
  · rw [heq]
    exact Or.inl hv

theorem ReviewRequest.Drafted.moved {row' : ReviewTask} (h : r.Drafted S ρ db)
    (hrow : Rows.find ReviewTask.id db.reviewTasks ρ = some row)
    (hrow' : Rows.find ReviewTask.id db'.reviewTasks ρ = some row') (hv : row.version < row'.version) :
    r.Drafted S ρ db' := by
  unfold ReviewRequest.Drafted at h ⊢
  cases hpc : r.pc <;> simp only [hpc] at h ⊢
  case commit ws =>
    obtain ⟨draft, document, hd, rfl⟩ := h
    exact ⟨draft, document, hd.moved hrow hrow' hv, rfl⟩
  all_goals exact Decides.moved h hrow hrow' hv

/-- A valid action drafts a decision, any other ends the call. -/
theorem begin_drafted (hid : row.id = ρ) (hversion : row.version = r.expectedVersion)
    (hrow : Rows.find ReviewTask.id db.reviewTasks ρ = some row)
    (hopen : r.action.valid = true → row.status.decided = false) :
    (r.goto (r.begin row)).Drafted S ρ db := by
  have hcurrent : ∀ row', Rows.find ReviewTask.id db.reviewTasks ρ = some row' →
      row.version < row'.version ∨ row = row' := by
    intro row' hrow'
    exact Or.inr (Option.some.inj (hrow.symm.trans hrow'))
  unfold ReviewRequest.begin ReviewRequest.Drafted
  cases hact : r.action with
  | accept =>
    rw [hact] at hopen
    exact ⟨hid, hversion, hopen rfl, hcurrent, hid, rfl, fun _ h => (nomatch h)⟩
  | correct corrections =>
    rw [hact] at hopen
    match corrections, hopen with
    | none, _ => trivial
    | some [], _ => trivial
    | some (_ :: _), hopen =>
      exact ⟨hid, hversion, hopen rfl, hcurrent, hid, rfl, fun _ h => (nomatch h)⟩
  | reject reason =>
    rw [hact] at hopen
    exact ⟨hid, hversion, hopen rfl, hcurrent, hid, rfl, fun _ h => (nomatch h)⟩
  | unknown action => trivial

/-- A call keeps its draft, but for its commit. -/
theorem ReviewRequest.move_drafted (h : r.Drafted S ρ w.db) (hid : r.reviewId = ρ)
    (hread : ∀ row, r.pc = .readReview → r.raises .readReview = false →
      w.db.reviewTask? r.tenantId ρ = some row → r.action.valid = true →
        row.version = r.expectedVersion → row.status.decided = false) :
    (r.move S w).task.Drafted S ρ w.db := by
  subst hid
  unfold Drafted at h
  cases hpc : r.pc <;> simp only [hpc] at h <;> simp only [move, hpc]
  case readReview =>
    split_ifs with hraise
    · trivial
    · cases hrow : w.db.reviewTask? r.tenantId r.reviewId with
      | none => trivial
      | some row =>
        dsimp only
        split_ifs with hv
        · trivial
        · obtain ⟨hfind, -⟩ := Option.filter_eq_some_iff.1 hrow
          rw [not_not] at hv
          refine begin_drafted (Rows.key_of_find hfind) hv hfind ?_
          intro hvalid
          exact hread row hpc (Bool.eq_false_iff.2 hraise) hrow hvalid hv
  case readExtraction draft corrections =>
    split_ifs
    · trivial
    · cases w.db.extractionResult? r.tenantId draft.old.extractionResultId with
      | none => exact h
      | some extraction =>
        cases hx : extraction.extractedJson with
        | none =>
          simp only [hx]
          exact h
        | some extracted =>
          simp only [hx]
          exact h.setExtraction _ _
  case readExampleDocument draft corrected =>
    split_ifs <;> exact h
  case upsert draft corrected document => exact h
  case readDocument draft =>
    split_ifs
    · trivial
    · exact ⟨draft, _, h, rfl⟩
  case commit ws =>
    split_ifs
    · trivial
    · cases w.db.commit ws <;> trivial
  case done o =>
    unfold Drafted
    simp only [hpc]

/-- A call goes on as the same call. -/
theorem ReviewRequest.move_goto : ∃ pc, (r.move S w).task = r.goto pc := by
  cases hpc : r.pc <;> simp only [move, hpc]
  case done o => exact ⟨.done o, by rw [goto, ← hpc]⟩
  all_goals
    repeat' split
    all_goals exact ⟨_, rfl⟩

/-- A step of a call commits and returns, or leaves the database alone. -/
theorem ReviewRequest.move_outcome :
    (∃ ws db', r.pc = .commit ws ∧ w.db.commit ws = .ok db' ∧
      r.move S w = { change := .commit ws, task := r.goto (.done .returned) }) ∨
    ((w.apply (r.move S w).change).db = w.db ∧
      ((r.move S w).task.pc = .done .returned ↔ r.pc = .done .returned)) := by
  cases hpc : r.pc <;> simp only [move, hpc]
  case commit ws =>
    split_ifs
    · exact Or.inr ⟨rfl, by simp [goto]⟩
    · cases hdb : w.db.commit ws with
      | error e => exact Or.inr ⟨rfl, by simp [goto]⟩
      | ok db' => exact Or.inl ⟨ws, db', rfl, hdb, rfl⟩
  case readReview =>
    right
    split_ifs
    · exact ⟨rfl, by simp [goto]⟩
    · cases w.db.reviewTask? r.tenantId r.reviewId with
      | none => exact ⟨rfl, by simp [goto]⟩
      | some row =>
        dsimp only
        split_ifs
        · exact ⟨rfl, by simp [goto]⟩
        · refine ⟨rfl, ?_⟩
          unfold begin
          split <;> simp [goto]
  case upsert draft corrected document =>
    right
    refine ⟨?_, by simp [goto]⟩
    split_ifs <;> rfl
  case done o => exact Or.inr ⟨rfl, by simp⟩
  all_goals
    right
    repeat' split
    all_goals exact ⟨rfl, by simp [goto]⟩

/-! ## The commit of a decision -/

/-- The writes of a decision: the review task, and then other tables. -/
theorem finishWrites_cons (S : Site) (r : ReviewRequest) (draft : ReviewDraft) (document : Option Document) :
    ∃ ws, r.finishWrites S draft document = .updateReviewTask draft.old draft.new :: ws ∧
      ∀ wr ∈ ws, wr ∈ draft.extraction ∨ (∃ old new, wr = .updateDocument old new) ∨
        ∃ row, wr = .insertAuditLog row := by
  refine ⟨_, rfl, ?_⟩
  intro wr hwr
  rcases List.mem_append.1 hwr with hwr | hwr
  · rcases List.mem_append.1 hwr with hwr | hwr
    · exact Or.inl hwr
    · cases document with
      | none => cases hwr
      | some row => exact Or.inr (Or.inl ⟨_, _, List.mem_singleton.1 hwr⟩)
  · exact Or.inr (Or.inr ⟨_, List.mem_singleton.1 hwr⟩)

/-- **A decision that commits** decides the row that it was drafted from. -/
theorem decides_commit {document : Option Document} (h : Decides ρ v db draft)
    (hdb : db.commit (r.finishWrites S draft document) = .ok db') :
    Rows.find ReviewTask.id db.reviewTasks ρ = some draft.old ∧
      ∃ row, Rows.find ReviewTask.id db'.reviewTasks ρ = some row ∧ row.status.decided = true ∧
        row.version = v + 1 := by
  obtain ⟨ws, hws, hkind⟩ := finishWrites_cons S r draft document
  rw [hws] at hdb
  obtain ⟨db₁, h₁, h₂⟩ := Db.commit_cons_ok.1 hdb
  obtain ⟨hrefused, rfl⟩ := Write.apply_ok.1 h₁
  have hne : draft.new ≠ draft.old := by
    intro heq
    have hdecided := h.decided
    rw [heq, h.undecided] at hdecided
    cases hdecided
  simp only [Write.refused, if_neg hne] at hrefused
  -- the copy has the version of the row, so it is the row
  have hfind : Rows.find ReviewTask.id db.reviewTasks ρ = some draft.old := by
    rw [h.id] at hrefused
    cases hrow : Rows.find ReviewTask.id db.reviewTasks ρ with
    | none => simp [hrow] at hrefused
    | some row =>
      simp only [hrow] at hrefused
      split_ifs at hrefused with hv
      rw [not_not] at hv
      rcases h.current row hrow with hlt | heq
      · exact absurd hv hlt.ne'
      · rw [heq]
  refine ⟨hfind, { draft.new with version := draft.old.version + 1 }, ?_, h.decided, by rw [← h.version]⟩
  have hsame : ∀ wr ∈ ws, ∀ db₁ db₂, wr.apply db₁ = .ok db₂ → db₂.reviewTasks = db₁.reviewTasks := by
    intro wr hwr db₁ db₂ happly
    have hcases : (∃ old new, wr = .updateExtractionResult old new) ∨
        (∃ old new, wr = .updateDocument old new) ∨ ∃ row, wr = .insertAuditLog row :=
      (hkind wr hwr).imp_left (h.extraction wr)
    rcases hcases with ⟨old, new, rfl⟩ | ⟨old, new, rfl⟩ | ⟨row, rfl⟩
    all_goals
      cases performed_of_apply happly
      all_goals rfl
  have htasks : db'.reviewTasks = ((Write.updateReviewTask draft.old draft.new).perform db).reviewTasks := by
    refine Db.commit_induction (P := fun db₂ => db₂.reviewTasks =
      ((Write.updateReviewTask draft.old draft.new).perform db).reviewTasks) h₂ rfl ?_
    intro wr hwr db₁ db₂ h₁ happly
    exact (hsame wr hwr db₁ db₂ happly).trans h₁
  rw [htasks]
  simp only [Write.perform, if_neg hne]
  rw [h.id]
  exact Rows.find_replace_self hfind h.newId

end

/-! ## One step -/

/-- Every task is a call on review task `ρ`. -/
def Deciding (S : Site) (ρ : RowId) (q : System) : Prop :=
  ∀ x ∈ q.tasks, ∃ r, x = .review r ∧ r.reviewId = ρ ∧ r.Drafted S ρ q.shared.db

/-- Step `i` of the calls on review task `ρ`: it leaves the database alone, or
    decides the task. -/
inductive DecisionStep (ρ : RowId) (q q' : System) (i : ℕ) : Prop
  | idle (hdb : q'.shared.db = q.shared.db) (h : ∀ j, Committed q' j ↔ Committed q j)
  | decides {r : ReviewRequest} {row row' : ReviewTask} (hr : q.tasks[i]? = some (.review r))
      (hrow : Rows.find ReviewTask.id q.shared.db.reviewTasks ρ = some row)
      (hopen : row.status.decided = false) (hv : row.version = r.expectedVersion)
      (hrow' : Rows.find ReviewTask.id q'.shared.db.reviewTasks ρ = some row')
      (hdecided : row'.status.decided = true) (hv' : row'.version = r.expectedVersion + 1)
      (h : ∀ j, Committed q' j ↔ Committed q j ∨ j = i) : DecisionStep ρ q q' i

section
variable {S : Site} {ρ : RowId} {v : ℕ} {q₀ q q' : System} {i j k : ℕ} {r : ReviewRequest}
  {row : ReviewTask}

/-- The tasks after a step of a call. -/
theorem tasks_review_step (hs : System.step S q i = some q') (hr : q.tasks[i]? = some (.review r)) :
    q'.tasks = q.tasks.set i (.review (r.move S q.shared).task) ∧
      q'.shared = q.shared.apply (r.move S q.shared).change := by
  refine ⟨?_, System.shared_step hs hr⟩
  rw [(Pool.step_of_task hs hr).2]
  exact List.append_nil _

/-- Which calls have committed after a step of a call. -/
theorem committed_step (hs : System.step S q i = some q') (hr : q.tasks[i]? = some (.review r)) :
    Committed q' j ↔
      if j = i then (r.move S q.shared).task.pc = .done .returned else Committed q j := by
  obtain ⟨htasks, -⟩ := tasks_review_step hs hr
  have hi := (List.getElem?_eq_some_iff.1 hr).1
  unfold Committed
  split_ifs with hji
  · subst hji
    rw [htasks, List.getElem?_set_self hi]
    constructor
    · rintro ⟨r', hr', hpc⟩
      cases hr'
      exact hpc
    · intro hpc
      exact ⟨_, rfl, hpc⟩
  · rw [htasks, List.getElem?_set_ne fun h => hji h.symm]

/-- **One step of the calls on a review task.** -/
theorem decision_step (h : Deciding S ρ q) (hok : NotAgain ρ q i) (hs : System.step S q i = some q') :
    Deciding S ρ q' ∧ DecisionStep ρ q q' i := by
  obtain ⟨x, hx, -⟩ := Pool.step_eq_some hs
  obtain ⟨r, rfl, hid, hdrafted⟩ := h x (List.mem_of_getElem? hx)
  obtain ⟨htasks, hsh⟩ := tasks_review_step hs hx
  have hmoved : (r.move S q.shared).task.Drafted S ρ q.shared.db := by
    refine r.move_drafted hdrafted hid ?_
    intro row hpc hraise hrow hvalid hv
    by_contra hdecided
    exact hok r row hx hpc hraise hrow (Bool.not_eq_false _ ▸ hdecided) hvalid hv
  obtain ⟨pc, hgoto⟩ := ReviewRequest.move_goto (S := S) (w := q.shared) (r := r)
  rcases ReviewRequest.move_outcome (S := S) (w := q.shared) (r := r) with
    ⟨ws, db', hpc, hdb, hmove⟩ | ⟨hdb, hpc⟩
  · obtain ⟨draft, document, hdecides, rfl⟩ : ∃ draft document,
        Decides ρ r.expectedVersion q.shared.db draft ∧ ws = r.finishWrites S draft document := by
      simpa only [ReviewRequest.Drafted, hpc] using hdrafted
    obtain ⟨hrow, row', hrow', hdecided, hv'⟩ := decides_commit hdecides hdb
    have hdb' : q'.shared.db = db' := by
      rw [hsh, hmove, World.apply_commit_ok hdb]
    refine ⟨?_, .decides hx hrow hdecides.undecided hdecides.version (hdb' ▸ hrow') hdecided hv' ?_⟩
    · -- the drafts of the other calls are older than the decided row
      intro u hu
      rw [htasks, hmove] at hu
      rcases List.mem_or_eq_of_mem_set hu with hu | rfl
      · obtain ⟨r', rfl, hid', hdrafted'⟩ := h u hu
        refine ⟨r', rfl, hid', ?_⟩
        rw [hdb']
        refine hdrafted'.moved hrow hrow' ?_
        rw [hv', hdecides.version]
        exact Nat.lt_succ_self _
      · exact ⟨_, rfl, hid, trivial⟩
    · intro j
      rw [committed_step hs hx, hmove]
      split_ifs with hji
      · exact iff_of_true rfl (Or.inr hji)
      · exact (or_iff_left hji).symm
  · rw [← hsh] at hdb
    refine ⟨?_, .idle hdb ?_⟩
    · intro u hu
      rw [htasks] at hu
      rw [hdb]
      rcases List.mem_or_eq_of_mem_set hu with hu | rfl
      · exact h u hu
      · refine ⟨_, rfl, ?_, hmoved⟩
        rw [hgoto]
        exact hid
    · intro j
      rw [committed_step hs hx]
      split_ifs with hji
      · subst hji
        rw [hpc]
        constructor
        · intro hdone
          exact ⟨r, hx, hdone⟩
        · rintro ⟨r', hr', hdone⟩
          cases Option.some.inj (hx.symm.trans hr')
          exact hdone
      · exact Iff.rfl

/-! ## A decided task -/

/-- Calls on review task `ρ` that have not taken a step. -/
def Calls (ρ : RowId) (q : System) : Prop :=
  ∀ x ∈ q.tasks, ∃ r, x = .review r ∧ r.reviewId = ρ ∧ r.pc = .readReview

theorem Calls.deciding (h : Calls ρ q) : Deciding S ρ q := by
  intro x hx
  obtain ⟨r, rfl, hid, hpc⟩ := h x hx
  refine ⟨r, rfl, hid, ?_⟩
  unfold ReviewRequest.Drafted
  rw [hpc]
  trivial

/-- **A decided review is final** in every run in which no call reads the decided
    task with the version that it expects. -/
theorem decided_final (hcalls : Calls ρ q₀) (h : Reach (System.step S) (NotAgain ρ) q₀ q)
    (hrow : Rows.find ReviewTask.id q.shared.db.reviewTasks ρ = some row)
    (hdecided : row.status.decided = true) (h' : Reach (System.step S) (NotAgain ρ) q q') :
    q'.shared.db = q.shared.db := by
  have hdeciding : Deciding S ρ q :=
    h.invariant hcalls.deciding fun _ _ _ hq hok hs => (decision_step hq hok hs).1
  refine (h'.invariant (I := fun q' => Deciding S ρ q' ∧ q'.shared.db = q.shared.db)
    ⟨hdeciding, rfl⟩ ?_).2
  rintro q₁ i q₂ ⟨hq, hdb⟩ hok hs
  obtain ⟨hq', hstep⟩ := decision_step hq hok hs
  refine ⟨hq', ?_⟩
  cases hstep with
  | idle hsame => exact hsame.trans hdb
  | decides hr hrow₁ hopen =>
    rw [hdb, hrow] at hrow₁
    cases Option.some.inj hrow₁
    rw [hdecided] at hopen
    cases hopen

/-! ## Calls that expect one version -/

/-- Every call expects version `v`. -/
def Expects (v : ℕ) (q : System) : Prop :=
  ∀ r, Task.review r ∈ q.tasks → r.expectedVersion = v

/-- No call has committed, and the database is `db`. -/
structure Open (db : Db) (q : System) : Prop where
  db : q.shared.db = db
  none : ∀ j, ¬ Committed q j

/-- Call `k` has decided review task `ρ`, and no other has. -/
structure Closed (ρ : RowId) (v k : ℕ) (q : System) : Prop where
  row : ∃ row, Rows.find ReviewTask.id q.shared.db.reviewTasks ρ = some row ∧
    row.status.decided = true ∧ row.version = v + 1
  winner : ∀ j, Committed q j ↔ j = k

theorem expects_step (hs : System.step S q i = some q') (hr : q.tasks[i]? = some (.review r))
    (h : Expects v q) : Expects v q' := by
  obtain ⟨htasks, -⟩ := tasks_review_step hs hr
  obtain ⟨pc, hgoto⟩ := ReviewRequest.move_goto (S := S) (w := q.shared) (r := r)
  intro r' hr'
  rw [htasks] at hr'
  rcases List.mem_or_eq_of_mem_set hr' with hr' | heq
  · exact h r' hr'
  · cases heq
    rw [hgoto]
    exact h r (List.mem_of_getElem? hr)

/-- While the task is open, a step leaves it so or decides it. -/
theorem open_step {db : Db} (hdeciding : Deciding S ρ q) (hexpects : Expects v q)
    (hrow : Rows.find ReviewTask.id db.reviewTasks ρ = some row) (hopen : row.status.decided = false)
    (h : Open db q) (hs : System.step S q i = some q') :
    Deciding S ρ q' ∧ Expects v q' ∧ (Open db q' ∨ Closed ρ v i q') := by
  obtain ⟨x, hx, -⟩ := Pool.step_eq_some hs
  obtain ⟨r, rfl, -⟩ := hdeciding x (List.mem_of_getElem? hx)
  have hok : NotAgain ρ q i := by
    intro r' row' _ _ _ hread hdecided
    obtain ⟨hfind, -⟩ := Option.filter_eq_some_iff.1 hread
    have hfind' : Rows.find ReviewTask.id q.shared.db.reviewTasks ρ = some row' := hfind
    rw [h.db, hrow] at hfind'
    cases Option.some.inj hfind'
    rw [hopen] at hdecided
    cases hdecided
  obtain ⟨hdeciding', hstep⟩ := decision_step hdeciding hok hs
  refine ⟨hdeciding', expects_step hs hx hexpects, ?_⟩
  cases hstep with
  | idle hdb hcommitted =>
    left
    refine ⟨hdb.trans h.db, ?_⟩
    intro j
    rw [hcommitted]
    exact h.none j
  | decides hr _ _ _ hrow' hdecided' hv' hcommitted =>
    right
    refine ⟨⟨_, hrow', hdecided', ?_⟩, ?_⟩
    · rw [hv', hexpects _ (List.mem_of_getElem? hr)]
    · intro j
      rw [hcommitted]
      exact or_iff_right (h.none j)

/-- Once the task is decided, no step changes the database. -/
theorem closed_step (hdeciding : Deciding S ρ q) (hexpects : Expects v q) (h : Closed ρ v k q)
    (hs : System.step S q i = some q') :
    Deciding S ρ q' ∧ Expects v q' ∧ Closed ρ v k q' ∧ q'.shared.db = q.shared.db := by
  obtain ⟨row, hrow, hdecided, hv⟩ := h.row
  obtain ⟨x, hx, -⟩ := Pool.step_eq_some hs
  obtain ⟨r, rfl, -⟩ := hdeciding x (List.mem_of_getElem? hx)
  have hok : NotAgain ρ q i := by
    intro r' row' hr' _ _ hread _ _ heq
    obtain ⟨hfind, -⟩ := Option.filter_eq_some_iff.1 hread
    have hfind' : Rows.find ReviewTask.id q.shared.db.reviewTasks ρ = some row' := hfind
    rw [hrow] at hfind'
    cases Option.some.inj hfind'
    rw [hexpects r' (List.mem_of_getElem? hr')] at heq
    omega
  obtain ⟨hdeciding', hstep⟩ := decision_step hdeciding hok hs
  cases hstep with
  | idle hdb hcommitted =>
    refine ⟨hdeciding', expects_step hs hx hexpects, ⟨?_, ?_⟩, hdb⟩
    · exact ⟨row, by rw [hdb]; exact hrow, hdecided, hv⟩
    · intro j
      rw [hcommitted]
      exact h.winner j
  | decides _ hrow₁ hopen =>
    rw [hrow] at hrow₁
    cases Option.some.inj hrow₁
    rw [hdecided] at hopen
    cases hopen

/-- The steps that a call has before it, at most. -/
def ReviewPc.left : ReviewPc → ℕ
  | .readReview => 6
  | .readExtraction _ _ => 5
  | .readExampleDocument _ _ => 4
  | .upsert _ _ _ => 3
  | .readDocument _ => 2
  | .commit _ => 1
  | .done _ => 0

theorem ReviewRequest.move_left {w : World} : (r.move S w).task.pc.left ≤ r.pc.left - 1 := by
  cases hpc : r.pc <;> simp only [move, hpc]
  case readReview =>
    split_ifs
    · exact Nat.zero_le _
    · cases w.db.reviewTask? r.tenantId r.reviewId with
      | none => exact Nat.zero_le _
      | some row =>
        dsimp only
        split_ifs
        · exact Nat.zero_le _
        · show (r.begin row).left ≤ 6 - 1
          unfold begin
          split <;> simp only [ReviewPc.left] <;> omega
  case done o => exact Nat.zero_le _
  all_goals
    repeat' split
    all_goals
      simp only [goto, ReviewPc.left]
      omega

/-- **Every step that a call takes brings it closer to its end.** -/
theorem left_exec {l : List ℕ} : ∀ {q r}, q.tasks[j]? = some (Task.review r) →
    exec (System.step S) q l = some q' →
      ∃ r', q'.tasks[j]? = some (.review r') ∧ r'.pc.left ≤ r.pc.left - l.count j := by
  induction l with
  | nil =>
    intro q r hr h
    rw [exec_nil, Option.some.injEq] at h
    subst h
    exact ⟨r, hr, le_rfl⟩
  | cons i l ih =>
    intro q r hr h
    rw [exec_cons] at h
    obtain ⟨q₁, hs, h⟩ := Option.bind_eq_some_iff.1 h
    rcases Pool.moved_or_same_of_step hs hr with ⟨rfl, hr₁⟩ | ⟨hij, hr₁⟩
    · obtain ⟨r', hr', hleft⟩ := ih hr₁ h
      refine ⟨r', hr', ?_⟩
      have hmove := ReviewRequest.move_left (S := S) (w := q.shared) (r := r)
      rw [List.count_cons_self]
      omega
    · obtain ⟨r', hr', hleft⟩ := ih hr₁ h
      refine ⟨r', hr', ?_⟩
      rwa [List.count_cons_of_ne hij]

/-- **Optimistic locking admits one decision.**  Of calls on an open review task
    that expect one and the same version, at most one commits under any
    schedule; before it does the database is as it was, after it did no step
    changes it, and a call that has taken six steps has committed or ended in an
    error. -/
theorem one_decision {l : List ℕ} (hcalls : Calls ρ q₀) (hexpects : Expects v q₀)
    (hrow : Rows.find ReviewTask.id q₀.shared.db.reviewTasks ρ = some row)
    (hopen : row.status = .pending ∨ row.status = .inProgress)
    (h : exec (System.step S) q₀ l = some q) :
    (∀ j k, Committed q j → Committed q k → j = k) ∧
      ((∀ j, ¬ Committed q j) → q.shared.db = q₀.shared.db) ∧
      (∀ k l' q', Committed q k → exec (System.step S) q l' = some q' → q'.shared.db = q.shared.db) ∧
      ∀ j, j < q₀.tasks.length → 6 ≤ l.count j → Committed q j ∨ Refused q j := by
  have hundecided : row.status.decided = false := by
    rcases hopen with hstatus | hstatus <;> rw [hstatus] <;> rfl
  have hstart : Open q₀.shared.db q₀ := by
    refine ⟨rfl, ?_⟩
    rintro j ⟨r, hr, hdone⟩
    obtain ⟨r', heq, -, hpc⟩ := hcalls _ (List.mem_of_getElem? hr)
    cases heq
    rw [hpc] at hdone
    cases hdone
  obtain ⟨hdeciding, hexp, hphase⟩ : Deciding S ρ q ∧ Expects v q ∧
      (Open q₀.shared.db q ∨ ∃ k, Closed ρ v k q) := by
    refine (reach_of_exec h).invariant (I := fun q => Deciding S ρ q ∧ Expects v q ∧
      (Open q₀.shared.db q ∨ ∃ k, Closed ρ v k q)) ⟨hcalls.deciding, hexpects, Or.inl hstart⟩ ?_
    rintro q i q' ⟨hdeciding, hexp, hphase⟩ - hs
    rcases hphase with hphase | ⟨k, hphase⟩
    · obtain ⟨hdeciding', hexp', hphase'⟩ := open_step hdeciding hexp hrow hundecided hphase hs
      exact ⟨hdeciding', hexp', hphase'.imp_right fun hclosed => ⟨i, hclosed⟩⟩
    · obtain ⟨hdeciding', hexp', hphase', -⟩ := closed_step hdeciding hexp hphase hs
      exact ⟨hdeciding', hexp', Or.inr ⟨k, hphase'⟩⟩
  refine ⟨?_, ?_, ?_, ?_⟩
  · intro j k hj hk
    rcases hphase with hphase | ⟨k', hphase⟩
    · exact absurd hj (hphase.none j)
    · exact ((hphase.winner j).1 hj).trans ((hphase.winner k).1 hk).symm
  · intro hnone
    rcases hphase with hphase | ⟨k, hphase⟩
    · exact hphase.db
    · exact absurd ((hphase.winner k).2 rfl) (hnone k)
  · intro k l' q' hk h'
    rcases hphase with hphase | ⟨k', hphase⟩
    · exact absurd hk (hphase.none k)
    · refine ((reach_of_exec h').invariant (I := fun q₁ => Deciding S ρ q₁ ∧ Expects v q₁ ∧
        Closed ρ v k' q₁ ∧ q₁.shared.db = q.shared.db) ⟨hdeciding, hexp, hphase, rfl⟩ ?_).2.2.2
      rintro q₁ i q₂ ⟨hdeciding₁, hexp₁, hphase₁, hdb⟩ - hs
      obtain ⟨hdeciding₂, hexp₂, hphase₂, hsame⟩ := closed_step hdeciding₁ hexp₁ hphase₁ hs
      exact ⟨hdeciding₂, hexp₂, hphase₂, hsame.trans hdb⟩
  · intro j hj hcount
    obtain ⟨r, heq, -, hpc⟩ := hcalls _ (List.getElem_mem hj)
    have hr : q₀.tasks[j]? = some (.review r) := by
      rw [List.getElem?_eq_getElem hj, heq]
    obtain ⟨r', hr', hleft⟩ := left_exec hr h
    rw [hpc, show ReviewPc.readReview.left = 6 from rfl] at hleft
    have hzero : r'.pc.left = 0 := by omega
    cases hpc' : r'.pc <;> rw [hpc'] at hzero
    case done o =>
      cases o with
      | returned => exact Or.inl ⟨r', hr', hpc'⟩
      | raised => exact Or.inr ⟨r', hr', hpc'⟩
    all_goals cases hzero

end

/-- A reviewer rejects while another corrects. -/
theorem one_decision_sample :
    ∃ q, exec (System.step Sample.site)
        ⟨Sample.openWorld, [.review (Sample.reviewCall (.reject (some "unreadable")) 1),
          .review (Sample.reviewCall (.correct (some [("name", [("new", .str "Bo")])])) 1)]⟩
        [0, 1, 1, 1, 1, 0, 0, 1, 0, 1, 0, 0] = some q ∧
      (∀ j k, Committed q j → Committed q k → j = k) ∧
      ∀ j, j < 2 → 6 ≤ [0, 1, 1, 1, 1, 0, 0, 1, 0, 1, 0, 0].count j → Committed q j ∨ Refused q j := by
  have hcalls : Calls 1 ⟨Sample.openWorld, [.review (Sample.reviewCall (.reject (some "unreadable")) 1),
      .review (Sample.reviewCall (.correct (some [("name", [("new", .str "Bo")])])) 1)]⟩ := by
    intro x hx
    rcases List.mem_cons.1 hx with rfl | hx
    · exact ⟨_, rfl, rfl, rfl⟩
    · exact ⟨_, List.mem_singleton.1 hx, rfl, rfl⟩
  have hexpects : Expects 1 ⟨Sample.openWorld,
      [.review (Sample.reviewCall (.reject (some "unreadable")) 1),
        .review (Sample.reviewCall (.correct (some [("name", [("new", .str "Bo")])])) 1)]⟩ := by
    intro r hr
    rcases List.mem_cons.1 hr with heq | hr
    · cases heq
      rfl
    · cases List.mem_singleton.1 hr
      rfl
  have hpending : Sample.openReview.status = .pending ∨ Sample.openReview.status = .inProgress :=
    Or.inl rfl
  obtain ⟨hone, -, -, hends⟩ := one_decision (S := Sample.site)
    (l := [0, 1, 1, 1, 1, 0, 0, 1, 0, 1, 0, 0]) hcalls hexpects rfl hpending rfl
  exact ⟨_, rfl, hone, hends⟩

theorem notAgain_of_pc {ρ : RowId} {q : System} {i : ℕ} {r : ReviewRequest}
    (hr : q.tasks[i]? = some (.review r)) (hpc : r.pc ≠ .readReview) : NotAgain ρ q i := by
  intro r' row hr' hpc'
  cases Option.some.inj (hr.symm.trans hr')
  exact absurd hpc' hpc

/-- One reviewer accepts, and one who saw the same version comes late. -/
theorem decided_final_sample :
    ∃ q q', Reach (System.step Sample.site) (NotAgain 1)
        ⟨Sample.openWorld, [.review (Sample.reviewCall .accept 1),
          .review (Sample.reviewCall (.reject (some "unreadable")) 1)]⟩ q ∧
      Reach (System.step Sample.site) (NotAgain 1) q q' ∧ q'.shared.db = q.shared.db := by
  have hcalls : Calls 1 ⟨Sample.openWorld, [.review (Sample.reviewCall .accept 1),
      .review (Sample.reviewCall (.reject (some "unreadable")) 1)]⟩ := by
    intro x hx
    rcases List.mem_cons.1 hx with rfl | hx
    · exact ⟨_, rfl, rfl, rfl⟩
    · exact ⟨_, List.mem_singleton.1 hx, rfl, rfl⟩
  have hfirst : NotAgain 1 ⟨Sample.openWorld, [.review (Sample.reviewCall .accept 1),
      .review (Sample.reviewCall (.reject (some "unreadable")) 1)]⟩ 0 := by
    intro r row hr _ _ hrow hdecided
    cases Option.some.inj hr
    rw [← Option.some.inj (show some Sample.openReview = some row from hrow)] at hdecided
    cases hdecided
  have hread : Reach (System.step Sample.site) (NotAgain 1)
      ⟨Sample.openWorld, [.review (Sample.reviewCall .accept 1),
        .review (Sample.reviewCall (.reject (some "unreadable")) 1)]⟩ _ :=
    Reach.refl.tail (a := 0) hfirst rfl
  have hdocument := hread.tail (a := 0) (notAgain_of_pc rfl ReviewPc.noConfusion) rfl
  have haccepted := hdocument.tail (a := 0) (notAgain_of_pc rfl ReviewPc.noConfusion) rfl
  obtain ⟨q, hq⟩ : ∃ q, Reach (System.step Sample.site) (NotAgain 1)
      ⟨Sample.openWorld, [.review (Sample.reviewCall .accept 1),
        .review (Sample.reviewCall (.reject (some "unreadable")) 1)]⟩ q ∧
      Rows.find ReviewTask.id q.shared.db.reviewTasks 1 =
        some { Sample.openReview with status := .accepted, version := 2 } ∧
      q.tasks[1]? = some (.review (Sample.reviewCall (.reject (some "unreadable")) 1)) :=
    ⟨_, haccepted, rfl, rfl⟩
  obtain ⟨hreach, hrow, hcall⟩ := hq
  have hstale : NotAgain 1 q 1 := by
    intro r row hr _ _ hread _ _
    obtain ⟨hfind, -⟩ := Option.filter_eq_some_iff.1 hread
    cases Option.some.inj (hcall.symm.trans hr)
    cases Option.some.inj (hrow.symm.trans hfind)
    decide
  obtain ⟨q', hs⟩ : ∃ q', System.step Sample.site q 1 = some q' := by
    rw [System.step, Pool.step, hcall]
    exact ⟨_, rfl⟩
  have hlate := Reach.refl.tail hstale hs
  exact ⟨q, q', hreach, hlate, decided_final hcalls hreach hrow rfl hlate⟩

/-- A call that expects the version that the decision left decides the task
    again. -/
theorem accepted_review_rejected :
    ∃ q q' row row', exec (System.step Sample.site)
        ⟨Sample.openWorld, [.review (Sample.reviewCall .accept 1),
          .review (Sample.reviewCall (.reject (some "unreadable")) 2)]⟩ [0, 0, 0] = some q ∧
      Rows.find ReviewTask.id q.shared.db.reviewTasks 1 = some row ∧ row.status = .accepted ∧
      exec (System.step Sample.site) q [1, 1, 1] = some q' ∧
      Rows.find ReviewTask.id q'.shared.db.reviewTasks 1 = some row' ∧ row'.status = .rejected :=
  ⟨_, _, _, _, rfl, rfl, rfl, rfl, rfl, rfl⟩

end OcrService
