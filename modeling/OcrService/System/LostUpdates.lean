/-
  No lost update.

  `documents` and `review_tasks` have a version column (`app/db/models.py`), so
  an update that was made from an old copy of a row fails.  Under any interleaving
  of runs, reviews, retries and erasures, the updates of a row that commit are a
  chain: each replaces the very row that the one before it left, and the version
  counts them.

  * `documentTable`, `reviewTable`: the two tables as rows with a version;
  * `Known.versioned`: what tasks hold are copies;
  * `no_lost_update`: the updates that a run of the service commits.
-/
import OcrService.Lib.Versions
import OcrService.System.Cancelled

namespace OcrService

open Trans PyData Versions

/-! ## The two tables -/

/-- `documents`: the copy that an UPDATE was made from, and the row it writes. -/
def documentTable : Table Db Write Uuid Document where
  row db d := Rows.find Document.id db.documents d
  version := Document.version
  given db d := d ∈ db.issued
  update d
    | .updateDocument old new =>
      if old.id = d ∧ new ≠ old then some (old, { new.stored with version := old.version + 1 })
      else none
    | _ => none

/-- The id of `review_tasks` is a key. -/
structure Db.ReviewKeys (db : Db) : Prop where
  nodup : (db.reviewTasks.map ReviewTask.id).Nodup
  issued : ∀ r ∈ db.reviewTasks, r.id < db.nextId

/-- `review_tasks`. -/
def reviewTable : Table Db Write RowId ReviewTask where
  row db k := Rows.find ReviewTask.id db.reviewTasks k
  version := ReviewTask.version
  given db k := db.ReviewKeys ∧ k < db.nextId
  update k
    | .updateReviewTask old new =>
      if old.id = k ∧ new ≠ old then some (old, { new with version := old.version + 1 }) else none
    | _ => none

/-- The writes that a change commits. -/
def World.committed (w : World) : OcrService.Change → List Write
  | .commit ws =>
    match w.db.commit ws with
    | .ok _ => ws
    | .error _ => []
  | _ => []

/-- The writes that step `i` commits. -/
def System.commits (S : Site) (q : System) (i : ℕ) : List Write :=
  match q.tasks[i]? with
  | some x => q.shared.committed (x.move S q.shared).change
  | none => []

/-- The updates of document `d` that a run of the service commits, in order. -/
def documentUpdates (S : Site) (d : Uuid) (q : System) (l : List ℕ) : List (Document × Document) :=
  (gather (System.step S) (System.commits S) q l).filterMap (documentTable.update d)

/-- The updates of review task `k`. -/
def reviewUpdates (S : Site) (k : RowId) (q : System) (l : List ℕ) : List (ReviewTask × ReviewTask) :=
  (gather (System.step S) (System.commits S) q l).filterMap (reviewTable.update k)

section
variable {S : Site} {db db' : Db} {d : Uuid} {k : RowId} {w : Write} {ws : List Write}

/-! ## What a write does to a row -/

theorem documentTable_update {old new : Document} (h : documentTable.update d w = some (old, new)) :
    ∃ new', w = .updateDocument old new' ∧ old.id = d ∧ new' ≠ old ∧
      new = { new'.stored with version := old.version + 1 } := by
  cases w with
  | updateDocument old' new' =>
    simp only [documentTable] at h
    split_ifs at h with hc
    cases h
    exact ⟨new', rfl, hc.1, hc.2, rfl⟩
  | _ => cases h

theorem reviewTable_update {old new : ReviewTask} (h : reviewTable.update k w = some (old, new)) :
    ∃ new', w = .updateReviewTask old new' ∧ old.id = k ∧ new' ≠ old ∧
      new = { new' with version := old.version + 1 } := by
  cases w with
  | updateReviewTask old' new' =>
    simp only [reviewTable] at h
    split_ifs at h with hc
    cases h
    exact ⟨new', rfl, hc.1, hc.2, rfl⟩
  | _ => cases h

/-- **A write and the row of a document.** -/
theorem document_change (hw : w.KeepsId) (hdb : w.apply db = .ok db') (hgiven : d ∈ db.issued) :
    Versions.Change documentTable db db' d w := by
  refine ⟨issued_mono hdb hgiven, fun {old new} hu => ?_, fun hu => ?_⟩
  · obtain ⟨new', rfl, rfl, hne, rfl⟩ := documentTable_update hu
    obtain ⟨hok, rfl⟩ := updateDocument_ok.1 hdb
    obtain ⟨-, row, hrow, hv⟩ := hok.resolve_left hne
    refine ⟨row, hrow, hv, ?_, rfl⟩
    exact (find_updateDocument old new' (hw old new' rfl) hrow).trans (by rw [if_neg hne])
  · cases row_apply (d := d) hw hdb with
    | same hfind => exact Or.inl hfind
    | updated hne hid => simp [documentTable, hne, hid] at hu
    | inserted hid hnew => exact absurd hgiven hnew
    | deleted hfind => exact Or.inr hfind

/-- Updates of review tasks keep the id. -/
def Write.KeepsReviewId (w : Write) : Prop :=
  ∀ old new, w = .updateReviewTask old new → new.id = old.id

theorem reviewKeys_apply (h : db.ReviewKeys) (hw : w.KeepsReviewId) (hdb : w.apply db = .ok db') :
    db'.ReviewKeys := by
  have hnext := nextId_mono hdb
  cases performed_of_apply hdb with
  | @updateReviewTask old new =>
    have hid : ReviewTask.id { new with version := old.version + 1 } = old.id := hw old new rfl
    refine ⟨?_, fun r hr => ?_⟩
    · rw [Rows.map_key_replace _ hid]
      exact h.nodup
    · obtain ⟨r₀, hr₀, rfl⟩ := List.mem_map.1 hr
      split_ifs with h₀
      · exact (hid.trans h₀.symm).trans_lt (h.issued r₀ hr₀)
      · exact h.issued r₀ hr₀
  | insertReviewTask =>
    refine ⟨?_, fun r hr => ?_⟩
    · rw [List.map_append, List.nodup_append]
      refine ⟨h.nodup, List.nodup_singleton _, ?_⟩
      intro k hk k' hk'
      obtain ⟨r, hr, rfl⟩ := List.mem_map.1 hk
      rw [List.mem_singleton.1 hk']
      exact (h.issued r hr).ne
    · rcases List.mem_append.1 hr with hr | hr
      · exact (h.issued r hr).trans_le hnext
      · rw [List.mem_singleton.1 hr]
        exact Nat.lt_succ_self _
  | deleteDocument =>
    refine ⟨h.nodup.sublist (List.filter_sublist.map _), fun r hr => ?_⟩
    exact h.issued r (List.mem_filter.1 hr).1
  | _ => exact ⟨h.nodup, fun r hr => (h.issued r hr).trans_le hnext⟩

/-- **A write and the row of a review task.** -/
theorem review_change (hw : w.KeepsReviewId) (hdb : w.apply db = .ok db')
    (hgiven : reviewTable.given db k) : Versions.Change reviewTable db db' k w := by
  obtain ⟨hkeys, hk⟩ := hgiven
  refine ⟨⟨reviewKeys_apply hkeys hw hdb, hk.trans_le (nextId_mono hdb)⟩, fun {old new} hu => ?_,
    fun hu => ?_⟩
  · obtain ⟨new', rfl, rfl, hne, rfl⟩ := reviewTable_update hu
    obtain ⟨hr, rfl⟩ := Write.apply_ok.1 hdb
    simp only [Write.refused, if_neg hne] at hr
    cases hfind : Rows.find ReviewTask.id db.reviewTasks old.id with
    | none => simp [hfind] at hr
    | some row =>
      simp only [hfind] at hr
      split_ifs at hr with hv hs
      refine ⟨row, hfind, not_not.1 hv, ?_, rfl⟩
      simp only [reviewTable, Write.perform, if_neg hne]
      exact Rows.find_replace_self hfind (hw old new' rfl)
  · cases performed_of_apply hdb with
    | @updateReviewTask old new hne =>
      have hid : old.id ≠ k := by
        rintro rfl
        simp [reviewTable, hne] at hu
      exact Or.inl (Rows.find_replace_other _ (hw old new rfl) hid)
    | insertReviewTask => exact Or.inl (Rows.find_append_other _ (Nat.ne_of_gt hk))
    | @deleteDocument tenantId id row hrow =>
      -- the review task goes with its document
      have hfind := Rows.find_filter (fun r : ReviewTask => r.documentId ≠ id) k hkeys.nodup
      rcases Option.eq_none_or_eq_some (Rows.find ReviewTask.id db.reviewTasks k) with hr | ⟨r, hr⟩
      · exact Or.inr (hfind.trans (by rw [hr]; rfl))
      · by_cases hd : r.documentId = id
        · exact Or.inr (hfind.trans (by rw [hr]; simp [Option.filter, hd]))
        · exact Or.inl ((hfind.trans (by rw [hr]; simp [Option.filter, hd])).trans hr.symm)
    | _ => exact Or.inl rfl

/-! ## What tasks hold -/

/-- What is read of the two tables are copies. -/
def Known.versioned (db : Db) : Known where
  document row := row.id ∈ db.issued ∧ Copy documentTable db row.id row
  reset row := row.id ∈ db.issued ∧ Copy documentTable db row.id row
  review row := row.id < db.nextId ∧ Copy reviewTable db row.id row

/-- The ids of both tables have been given out. -/
def Db.Versioned (db : Db) : Prop := db.Issued ∧ db.ReviewKeys

/-- Copies stay copies. -/
structure Db.Later (db db' : Db) : Prop where
  document : ∀ {d}, d ∈ db.issued →
    d ∈ db'.issued ∧ ∀ copy, Copy documentTable db d copy → Copy documentTable db' d copy
  review : ∀ {k}, k < db.nextId →
    k < db'.nextId ∧ ∀ copy, Copy reviewTable db k copy → Copy reviewTable db' k copy

theorem Db.Later.known_le (h : db.Later db') : (Known.versioned db).Le (Known.versioned db') :=
  have hdoc {row : Document} (hrow : row.id ∈ db.issued ∧ Copy documentTable db row.id row) :
      row.id ∈ db'.issued ∧ Copy documentTable db' row.id row :=
    ⟨(h.document hrow.1).1, (h.document hrow.1).2 row hrow.2⟩
  ⟨hdoc, hdoc, fun {row} hrow => ⟨(h.review hrow.1).1, (h.review hrow.1).2 row hrow.2⟩, id, id, id, id⟩

variable {κ : Known} {x : Task} {v : World}

/-- Updates of review tasks keep the id. -/
theorem Written.keepsReviewId {w : Write} (h : Written S κ x w) : w.KeepsReviewId := by
  rintro old new rfl
  cases h with
  | persist _ _ _ _ _ h => cases h
  | webhook h => exact h.elim
  | reviewTask hdraft => exact hdraft.new.1

/-- The writes of a transaction, one after the other. -/
theorem runs_of_commit (h : db.commit ws = .ok db') :
    Runs (fun db w db' => w.apply db = .ok db') db ws db' := by
  induction ws generalizing db with
  | nil => cases h; exact .nil
  | cons w ws ih =>
    obtain ⟨db₁, h₁, h₂⟩ := Db.commit_cons_ok.1 h
    exact .cons h₁ (ih h₂)

theorem later_commit (hws : ∀ w ∈ ws, Written S κ x w) (hdb : db.commit ws = .ok db')
    (h : db.Versioned) : db'.Versioned ∧ db.Later db' := by
  have hruns := runs_of_commit hdb
  have hkeys : db'.Versioned :=
    Db.commit_induction (P := Db.Versioned) hdb h fun w hw _ _ h₁ happly =>
      ⟨issued_apply h₁.1 (hws w hw).keepsId happly,
        reviewKeys_apply h₁.2 (hws w hw).keepsReviewId happly⟩
  refine ⟨hkeys, fun hd => ?_, fun hk => ?_⟩
  · exact copy_runs (T := documentTable)
      (fun w hw _ _ happly => document_change (hws w hw).keepsId happly) hruns hd
  · obtain ⟨hgiven, hcopy⟩ := copy_runs
      (fun w hw _ _ happly => review_change (hws w hw).keepsReviewId happly) hruns ⟨h.2, hk⟩
    exact ⟨hgiven.2, hcopy⟩

theorem reads_versioned (h : v.db.Versioned) : x.Reads (Known.versioned v.db) v := by
  have hdoc {t d : Uuid} {row : Document} (hrow : v.db.document? t d = some row) :
      row.id ∈ v.db.issued ∧ Copy documentTable v.db row.id row := by
    have hfind := (find_of_document? hrow).2.2
    exact ⟨h.1 row (Rows.mem_of_find hfind), copy_of_row hfind⟩
  have hreview {t : Uuid} {k : RowId} {row : ReviewTask} (hrow : v.db.reviewTask? t k = some row) :
      row.id < v.db.nextId ∧ Copy reviewTable v.db row.id row := by
    have hfind := (Option.filter_eq_some_iff.1 hrow).1
    refine ⟨h.2.issued row (Rows.mem_of_find hfind), copy_of_row ?_⟩
    rw [Rows.key_of_find hfind]
    exact hfind
  unfold Task.Reads
  repeat' split
  all_goals first
    | trivial
    | exact fun row hrow => hdoc hrow
    | exact fun row hrow => hreview hrow
    | exact fun _ _ => trivial
    | exact fun _ _ => ⟨trivial, trivial⟩

/-! ## Whole runs -/

/-- A change applies the writes that it commits. -/
theorem commit_committed (c : OcrService.Change) : v.db.commit (v.committed c) = .ok (v.apply c).db := by
  cases c with
  | commit ws =>
    cases h : v.db.commit ws with
    | ok db => simp only [World.committed, h, World.apply_commit_ok h]
    | error e => simp only [World.committed, h, World.apply_commit_error h, Db.commit_nil]
  | _ => rfl

theorem written_committed {c : OcrService.Change}
    (hcommit : ∀ ws, c = .commit ws → Prepared S κ x ws) : ∀ w ∈ v.committed c, Written S κ x w := by
  intro w hw
  cases c with
  | commit ws =>
    simp only [World.committed] at hw
    cases h : v.db.commit ws with
    | ok db => rw [h] at hw; exact (hcommit ws rfl).written hw
    | error e => rw [h] at hw; cases hw
  | _ => cases hw

/-- **In every state reached**, tasks hold copies. -/
theorem reach_versioned {ok : System → ℕ → Prop} {q q' : System} (h : q.shared.db.Versioned)
    (hholds : ∀ x ∈ q.tasks, x.Holds S (Known.versioned q.shared.db))
    (hreach : Reach (System.step S) ok q q') :
    q'.shared.db.Versioned ∧ ∀ x ∈ q'.tasks, x.Holds S (Known.versioned q'.shared.db) :=
  reach_known (G := fun w => w.db.Versioned) (κ := fun w => Known.versioned w.db)
    (fun _ _ _ hG _ _ _ => reads_versioned hG)
    (fun q _ _ hG _ _ _ hcommit =>
      have ⟨hG', hlater⟩ := later_commit (written_committed hcommit)
        (commit_committed (v := q.shared) _) hG
      ⟨hG', hlater.known_le⟩)
    hreach h hholds

/-- The updates that a change commits were made from copies: of documents, -/
theorem document_copies {c : OcrService.Change} (hd : d ∈ v.db.issued)
    (hcommit : ∀ ws, c = .commit ws → Prepared S (Known.versioned v.db) x ws) :
    ∀ w ∈ v.committed c, ∀ old new, documentTable.update d w = some (old, new) →
      Copy documentTable v.db d old := by
  intro w hw old new hu
  obtain ⟨new', rfl, rfl, hne, -⟩ := documentTable_update hu
  cases c with
  | commit ws =>
    simp only [World.committed] at hw
    cases hdb : v.db.commit ws with
    | error e => rw [hdb] at hw; cases hw
    | ok db =>
      rw [hdb] at hw
      rcases (hcommit ws rfl).update with ⟨document, rfl⟩ | hupd
      · exact absurd hd (issued_of_create hdb hw)
      · cases (hupd old new' hw).2.2 with
        | persist h => exact h.2
        | cancel h => exact h.2
        | reset h => exact h.2
  | _ => cases hw

/-- and of review tasks. -/
theorem review_copies {c : OcrService.Change}
    (hcommit : ∀ ws, c = .commit ws → Prepared S (Known.versioned v.db) x ws) :
    ∀ w ∈ v.committed c, ∀ old new, reviewTable.update k w = some (old, new) →
      Copy reviewTable v.db k old := by
  intro w hw old new hu
  obtain ⟨new', rfl, rfl, -, -⟩ := reviewTable_update hu
  cases written_committed hcommit _ hw with
  | persist _ _ _ _ _ h => cases h
  | webhook h => exact h.elim
  | reviewTask hdraft => exact hdraft.review.2

/-- The updates that a run commits of a document and of a review task are chains. -/
theorem updates_chain {q q' : System} {l : List ℕ} (hv : q.shared.db.Versioned)
    (hholds : ∀ x ∈ q.tasks, x.Holds S (Known.versioned q.shared.db))
    (h : exec (System.step S) q l = some q') :
    (∀ d ∈ q.shared.db.issued, ∀ r', Rows.find Document.id q'.shared.db.documents d = some r' →
      ∃ r, Rows.find Document.id q.shared.db.documents d = some r ∧
        Chain r (documentUpdates S d q l) r') ∧
    (∀ k < q.shared.db.nextId, ∀ r', Rows.find ReviewTask.id q'.shared.db.reviewTasks k = some r' →
      ∃ r, Rows.find ReviewTask.id q.shared.db.reviewTasks k = some r ∧
        Chain r (reviewUpdates S k q l) r') := by
  induction l generalizing q with
  | nil =>
    cases h
    exact ⟨fun d _ r hr => ⟨r, hr, .nil⟩, fun k _ r hr => ⟨r, hr, .nil⟩⟩
  | cons i l ih =>
    rw [exec_cons] at h
    obtain ⟨q₁, hstep, h⟩ := Option.bind_eq_some_iff.1 h
    have hreach : Reach (System.step S) (fun _ _ => True) q q₁ := .tail .refl trivial hstep
    obtain ⟨hv₁, hholds₁⟩ := reach_versioned hv hholds hreach
    obtain ⟨ihd, ihr⟩ := ih hv₁ hholds₁ h
    obtain ⟨x, hx, -⟩ := Pool.step_eq_some hstep
    obtain ⟨-, hcommit⟩ := Task.move_holds (hholds x (List.mem_of_getElem? hx)) (reads_versioned hv)
    -- the transaction of the step, and its updates
    have hdb : q.shared.db.commit (q.shared.committed (x.move S q.shared).change) = .ok q₁.shared.db := by
      rw [System.shared_step hstep hx]
      exact commit_committed _
    have hcommits : System.commits S q i = q.shared.committed (x.move S q.shared).change := by
      simp only [System.commits, hx]
    have hwritten := written_committed (v := q.shared) hcommit
    have hruns := runs_of_commit hdb
    obtain ⟨-, hlater⟩ := later_commit hwritten hdb hv
    constructor
    · intro d hd r' hr'
      obtain ⟨r₁, hr₁, hchain₁⟩ := ihd d (hlater.document hd).1 r' hr'
      obtain ⟨r, hr, hchain⟩ := chain_of_runs (T := documentTable)
        (fun w hw _ _ happly => document_change (hwritten w hw).keepsId happly)
        (document_copies hd hcommit) hruns hd hr₁
      refine ⟨r, hr, ?_⟩
      rw [documentUpdates, gather_cons hstep, List.filterMap_append, hcommits]
      exact hchain.append hchain₁
    · intro k hk r' hr'
      obtain ⟨r₁, hr₁, hchain₁⟩ := ihr k (hlater.review hk).1 r' hr'
      obtain ⟨r, hr, hchain⟩ := chain_of_runs (T := reviewTable)
        (fun w hw _ _ happly => review_change (hwritten w hw).keepsReviewId happly)
        (review_copies hcommit) hruns ⟨hv.2, hk⟩ hr₁
      refine ⟨r, hr, ?_⟩
      rw [reviewUpdates, gather_cons hstep, List.filterMap_append, hcommits]
      exact hchain.append hchain₁

/-- **No update is lost.**  Whatever the tasks do, in any order: the row of a
    document, and of a review task, is what the updates that committed make of the
    row of before, each replacing the row that the one before it left; and its
    version counts them. -/
theorem no_lost_update {ok : System → ℕ → Prop} {q₀ q q' : System} {l : List ℕ}
    (hversioned : q₀.shared.db.Versioned) (hfresh : ∀ x ∈ q₀.tasks, x.Fresh)
    (hreach : Reach (System.step S) ok q₀ q) (h : exec (System.step S) q l = some q') :
    (∀ d ∈ q.shared.db.issued, ∀ r', Rows.find Document.id q'.shared.db.documents d = some r' →
      ∃ r, Rows.find Document.id q.shared.db.documents d = some r ∧
        Chain r (documentUpdates S d q l) r' ∧
          r'.version = r.version + (documentUpdates S d q l).length) ∧
    (∀ k < q.shared.db.nextId, ∀ r', Rows.find ReviewTask.id q'.shared.db.reviewTasks k = some r' →
      ∃ r, Rows.find ReviewTask.id q.shared.db.reviewTasks k = some r ∧
        Chain r (reviewUpdates S k q l) r' ∧
          r'.version = r.version + (reviewUpdates S k q l).length) := by
  obtain ⟨hv, hholds⟩ := reach_versioned hversioned (fun x hx => (hfresh x hx).holds) hreach
  obtain ⟨hdocs, hreviews⟩ := updates_chain hv hholds h
  constructor
  · intro d hd r' hr'
    obtain ⟨r, hr, hchain⟩ := hdocs d hd r' hr'
    refine ⟨r, hr, hchain, hchain.version fun u hu => ?_⟩
    obtain ⟨w, -, hw⟩ := List.mem_filterMap.1 hu
    obtain ⟨new, -, -, -, hnew⟩ := documentTable_update hw
    rw [hnew]
  · intro k hk r' hr'
    obtain ⟨r, hr, hchain⟩ := hreviews k hk r' hr'
    refine ⟨r, hr, hchain, hchain.version fun u hu => ?_⟩
    obtain ⟨w, -, hw⟩ := List.mem_filterMap.1 hu
    obtain ⟨new, -, -, -, hnew⟩ := reviewTable_update hw
    rw [hnew]

end

namespace Sample

/-- An erasure and a retry of one document. -/
def contended : System := ⟨undeliveredWorld, [.erase erase, .retry retry]⟩

/-- The retry reads the row before the erasure cancels it, and commits after. -/
def overtaken : List ℕ := [1, 1, 0, 0, 0, 1, 1]

end Sample

/-- The update of the retry fails; the chain is that of the erasure. -/
theorem no_lost_update_sample :
    ∃ q', exec (System.step Sample.site) Sample.contended Sample.overtaken = some q' ∧
      ∃ r, Rows.find Document.id Sample.contended.shared.db.documents Sample.documentId = some r ∧
        Chain r (documentUpdates Sample.site Sample.documentId Sample.contended Sample.overtaken)
          Sample.cancelledDocument ∧
        Sample.cancelledDocument.version = r.version +
          (documentUpdates Sample.site Sample.documentId Sample.contended Sample.overtaken).length := by
  have hfresh : ∀ x ∈ Sample.contended.tasks, x.Fresh := by
    intro x hx
    rcases List.mem_cons.1 hx with rfl | hx
    · rfl
    · rw [List.mem_singleton.1 hx]
      rfl
  have hversioned : Sample.contended.shared.db.Versioned := ⟨by decide, by decide, by decide⟩
  have hreach : Reach (System.step Sample.site) (fun _ _ => True) Sample.contended Sample.contended :=
    .refl
  exact ⟨_, rfl, (no_lost_update hversioned hfresh hreach rfl).1 Sample.documentId (by decide) _ rfl⟩

end OcrService
