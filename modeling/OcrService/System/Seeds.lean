/-
  The seeds of a schema.

  `add_seed_example` reads the row of the schema, embeds the example and writes
  it to the vector store, and then sets `seed_count` to what it read plus one.
  So the commit of a call counts iff the row still has the `seed_count` that the
  call has read: `seeds_counted_iff` says that `seed_count` has grown by the
  number of calls that committed iff that was so for each of them.
-/
import OcrService.System.Written

namespace OcrService

open Trans PyData

/-- The `seed_count` of a schema. -/
def Db.seedCountOf (db : Db) (σ : Uuid) : Option ℕ :=
  (Rows.find Schema.id db.schemas σ).map Schema.seedCount

/-- The transaction of `add_seed_example`. -/
def seedWrites (schema : Schema) : List Write :=
  [.updateSchema schema { schema with seedCount := schema.seedCount + 1 }]

/-- The `seed_count` that a call has read and is going to add one to. -/
def SchemaRequest.seedRead (c : SchemaRequest) : Option ℕ :=
  match c.call, c.pc with
  | .addSeed _, .upsert schema _ => some schema.seedCount
  | .addSeed _, .commit [.updateSchema schema _] => some schema.seedCount
  | _, _ => none

/-- The same for a call on schema `σ`. -/
def Task.seedRead (σ : Uuid) : Task → Option ℕ
  | .schema c => if c.schemaId = σ then c.seedRead else none
  | _ => none

/-- The next step of the task commits an `add_seed_example` on schema `σ`. -/
def Task.commitsSeed (w : World) (σ : Uuid) : Task → Bool
  | .schema c =>
    match c.call, (c.move w).change with
    | .addSeed _, .commit _ => c.schemaId = σ
    | _, _ => false
  | _ => false

/-- The calls of `add_seed_example` on schema `σ` that commit in a list of steps. -/
def seedsCommitted (S : Site) (σ : Uuid) : System → List ℕ → ℕ :=
  tally (System.step S) fun q i =>
    if (q.tasks[i]?).any (Task.commitsSeed q.shared σ) then 1 else 0

/-- If step `i` commits an `add_seed_example` on schema `σ`, the row has the
    `seed_count` that the call has read. -/
def SeedsInTurn (σ : Uuid) (q : System) (i : ℕ) : Prop :=
  ∀ x, q.tasks[i]? = some x → x.commitsSeed q.shared σ = true →
    x.seedRead σ = q.shared.db.seedCountOf σ

/-! ## What a call commits -/

/-- What a call holds, it made of a row of its schema. -/
def SchemaRequest.Made (c : SchemaRequest) : Prop :=
  match c.pc with
  | .upsert schema expectedJson => schema.id = c.schemaId ∧ c.call = .addSeed expectedJson
  | .commit ws =>
    ∃ schema, schema.id = c.schemaId ∧
      (c.begin schema = .commit ws ∨ ∃ expectedJson, c.call = .addSeed expectedJson ∧ ws = seedWrites schema)
  | _ => True

/-- What a task holds: its writes, and those of a call on a schema from its row. -/
def Task.MadeOf (S : Site) (x : Task) : Prop :=
  x.Holds S {} ∧ ∀ c, x = .schema c → c.Made

section
variable {S : Site} {w : World} {σ : Uuid} {x : Task}

theorem SchemaRequest.move_made {c : SchemaRequest} (h : c.Made) : (c.move w).task.Made := by
  unfold SchemaRequest.Made at h
  cases hpc : c.pc <;> simp only [hpc] at h <;> simp only [SchemaRequest.move, hpc]
  case read =>
    split_ifs
    · trivial
    · cases hrow : w.db.schema? c.tenantId c.schemaId with
      | none => trivial
      | some schema =>
        have hid := (schema?_eq hrow).1
        show (c.goto (c.begin schema)).Made
        cases hbegin : c.begin schema with
        | read | done o => trivial
        | upsert schema' expectedJson =>
          show schema'.id = c.schemaId ∧ c.call = .addSeed expectedJson
          unfold SchemaRequest.begin at hbegin
          cases hcall : c.call <;> simp only [hcall] at hbegin
          case update => cases hbegin
          case addSeed =>
            cases hbegin
            exact ⟨hid, rfl⟩
          case activate => split_ifs at hbegin
        | commit ws => exact ⟨schema, hid, Or.inl hbegin⟩
  case upsert schema expectedJson =>
    split_ifs
    · trivial
    · exact ⟨schema, h.1, Or.inr ⟨expectedJson, h.2, rfl⟩⟩
  case commit ws =>
    split_ifs
    · trivial
    · cases w.db.commit ws <;> trivial
  case done o => simp only [SchemaRequest.Made, hpc]

theorem Task.Fresh.madeOf (h : x.Fresh) : x.MadeOf S := by
  refine ⟨h.holds, ?_⟩
  rintro c rfl
  have hpc : c.pc = .read := h
  simp only [SchemaRequest.Made, hpc]

theorem Task.move_madeOf (h : x.MadeOf S) : (x.move S w).task.MadeOf S := by
  refine ⟨(Task.move_holds h.1 (reads_any x w)).1, ?_⟩
  intro c hc
  cases x with
  | schema c' =>
    cases hc
    exact SchemaRequest.move_made (h.2 c' rfl)
  | _ => cases hc

/-- The tasks after a step hold what they made. -/
theorem madeOf_step {q q' : System} {i : ℕ} (hmade : ∀ x ∈ q.tasks, x.MadeOf S)
    (hs : System.step S q i = some q') : ∀ x ∈ q'.tasks, x.MadeOf S := by
  obtain ⟨x, hx, -⟩ := Pool.step_eq_some hs
  intro u hu
  rcases Pool.mem_of_step hs hx hu with rfl | hu | hu
  · exact Task.move_madeOf (hmade x (List.mem_of_getElem? hx))
  · exact (Task.spawned_fresh hu).madeOf
  · exact hmade u hu

/-- The commit of a call succeeds. -/
theorem SchemaRequest.change_commit {c : SchemaRequest} {ws : List Write}
    (h : (c.move w).change = .commit ws) : c.pc = .commit ws ∧ ∃ db, w.db.commit ws = .ok db := by
  cases hpc : c.pc <;> simp only [SchemaRequest.move, hpc] at h
  case commit ws' =>
    split_ifs at h
    cases hdb : w.db.commit ws' with
    | error e =>
      rw [hdb] at h
      cases h
    | ok db =>
      rw [hdb] at h
      cases h
      exact ⟨rfl, db, hdb⟩
  all_goals
    repeat' split at h
    all_goals cases h

/-- A seed is committed from the row that was read. -/
theorem commitsSeed_writes (h : x.MadeOf S) (hseed : x.commitsSeed w σ = true) :
    ∃ schema db, schema.id = σ ∧ (x.move S w).change = .commit (seedWrites schema) ∧
      w.db.commit (seedWrites schema) = .ok db ∧ x.seedRead σ = some schema.seedCount := by
  cases x with
  | schema c =>
    simp only [Task.commitsSeed] at hseed
    split at hseed
    · rename_i e ws hcall hchange
      have hσ : c.schemaId = σ := of_decide_eq_true hseed
      obtain ⟨hpc, db, hdb⟩ := SchemaRequest.change_commit hchange
      have hmade := h.2 c rfl
      simp only [SchemaRequest.Made, hpc] at hmade
      obtain ⟨schema, hid, hbegin | ⟨-, -, rfl⟩⟩ := hmade
      · simp only [SchemaRequest.begin, hcall] at hbegin
        cases hbegin
      · refine ⟨schema, db, hid.trans hσ, hchange, hdb, ?_⟩
        simp only [Task.seedRead, if_pos hσ, SchemaRequest.seedRead, hcall, hpc, seedWrites]
    · cases hseed
  | _ => cases hseed

/-- Every other transaction leaves `seed_count` as it was read. -/
theorem writes_keep_seeds (h : x.MadeOf S) (hseed : x.commitsSeed w σ = false) {ws : List Write}
    (hc : (x.move S w).change = .commit ws) {wr : Write} (hwr : wr ∈ ws) {old new : Schema}
    (he : wr = .updateSchema old new) (hold : old.id = σ) : new.seedCount = old.seedCount := by
  have hprep := (Task.move_holds h.1 (reads_any x w)).2 ws hc
  subst he
  cases hprep.written hwr with
  | persist _ _ _ _ _ hp => cases hp
  | webhook hw => exact hw.elim
  | updateSchema | activate => rfl
  | @seed c schema hid =>
    -- only an `add_seed_example` makes this write, and its commit is not one of `σ`
    have hchange : (c.move w).change = .commit ws := hc
    have hmade := h.2 c rfl
    simp only [SchemaRequest.Made, (SchemaRequest.change_commit hchange).1] at hmade
    obtain ⟨schema', hid', hbegin | ⟨e, hcall, -⟩⟩ := hmade
    · unfold SchemaRequest.begin at hbegin
      cases hcall : c.call <;> simp only [hcall] at hbegin
      case update payload =>
        cases hbegin
        obtain ⟨rfl, hnew⟩ := Write.updateSchema.inj (List.mem_singleton.1 hwr)
        have hcount := congrArg Schema.seedCount hnew
        exact hcount
      case addSeed => cases hbegin
      case activate =>
        split_ifs at hbegin
        cases hbegin
        simp only [List.mem_cons, reduceCtorEq, List.not_mem_nil, or_false, false_or] at hwr
        obtain ⟨rfl, hnew⟩ := Write.updateSchema.inj hwr
        have hcount := congrArg Schema.seedCount hnew
        exact hcount
    · simp only [Task.commitsSeed, hcall, hchange] at hseed
      exact absurd (hid.symm.trans hold) (of_decide_eq_false hseed)

end

/-! ## What a transaction does to the count -/

section
variable {db db' : Db} {σ : Uuid} {n : ℕ}

/-- A write that leaves the count as it was read leaves it. -/
theorem seedCount_apply {w : Write} (hn : db.seedCountOf σ = some n)
    (hupd : ∀ old new, w = .updateSchema old new → old.id = σ → new.seedCount = old.seedCount)
    (hdb : w.apply db = .ok db') : db'.seedCountOf σ = some n := by
  obtain ⟨row, hrow, rfl⟩ := Option.map_eq_some_iff.1 hn
  unfold Db.seedCountOf
  cases schemas_apply hdb with
  | same hs => rw [hs, hrow, Option.map_some]
  | @updated old new row' hrow' hs =>
    have hkey : (row'.merge old new.stored).id = old.id := Rows.key_of_find (r := row') hrow'
    by_cases hid : old.id = σ
    · subst hid
      cases Option.some.inj (hrow.symm.trans hrow')
      rw [hs, Rows.find_replace_self hrow' hkey, Option.map_some]
      exact congrArg some (if_pos (hupd old new rfl rfl))
    · rw [hs, Rows.find_replace_other _ hkey hid, hrow, Option.map_some]
  | inserted hs => rw [hs, Rows.find_append_one, hrow, Option.some_or, Option.map_some]

/-- The transaction of `add_seed_example` sets the count that was read plus one. -/
theorem seedCount_seed {schema : Schema} (hdb : db.commit (seedWrites schema) = .ok db') :
    db'.seedCountOf schema.id = some (schema.seedCount + 1) := by
  have hne : { schema with seedCount := schema.seedCount + 1 } ≠ schema := by
    intro h
    exact absurd (congrArg Schema.seedCount h) (Nat.succ_ne_self _)
  obtain ⟨row, hrow, -, rfl⟩ := (updateSchema_ok hne).1 (commit_one.1 hdb)
  have hkey : (row.merge schema (Schema.stored { schema with seedCount := schema.seedCount + 1 })).id =
      schema.id := Rows.key_of_find (r := row) hrow
  rw [Db.seedCountOf, Rows.find_replace_self hrow hkey, Option.map_some]
  exact congrArg some (if_neg (Nat.succ_ne_self _))

end

/-! ## One step -/

section
variable {S : Site} {σ : Uuid} {q q' : System} {i n K : ℕ} {x : Task}

/-- What a task carries, it carried before or reads in this step. -/
theorem seedRead_move {w : World} {r : ℕ} (h : (x.move S w).task.seedRead σ = some r) :
    x.seedRead σ = some r ∨ w.db.seedCountOf σ = some r := by
  cases x with
  | schema c =>
    change (Task.schema (c.move w).task).seedRead σ = some r at h
    cases hpc : c.pc <;> simp only [SchemaRequest.move, hpc] at h
    case read =>
      split_ifs at h
      · simp [Task.seedRead, SchemaRequest.seedRead, SchemaRequest.goto] at h
      · cases hrow : w.db.schema? c.tenantId c.schemaId with
        | none => simp [hrow, Task.seedRead, SchemaRequest.seedRead, SchemaRequest.goto] at h
        | some schema =>
          right
          simp only [hrow, Task.seedRead, SchemaRequest.goto] at h
          split_ifs at h with hσ
          obtain ⟨hfind, -⟩ := Option.filter_eq_some_iff.1 hrow
          rw [← hσ, Db.seedCountOf, hfind, Option.map_some]
          cases hcall : c.call <;> simp [SchemaRequest.seedRead, SchemaRequest.begin, hcall] at h
          rw [h]
    case upsert schema e =>
      split_ifs at h
      · simp [Task.seedRead, SchemaRequest.seedRead, SchemaRequest.goto] at h
      · left
        rw [← h]
        cases hcall : c.call <;> simp only [Task.seedRead, SchemaRequest.seedRead, SchemaRequest.goto, hpc, hcall]
    case commit ws =>
      split_ifs at h
      · simp [Task.seedRead, SchemaRequest.seedRead, SchemaRequest.goto] at h
      · cases hdb : w.db.commit ws <;>
          simp [hdb, Task.seedRead, SchemaRequest.seedRead, SchemaRequest.goto] at h
    case done o => exact Or.inl h
  | _ => cases h

/-- The count, and what the calls have read, are at most `K`. -/
structure AtMost (σ : Uuid) (K : ℕ) (q : System) : Prop where
  count : ∃ n, q.shared.db.seedCountOf σ = some n ∧ n ≤ K
  read : ∀ x ∈ q.tasks, ∀ r, x.seedRead σ = some r → r ≤ K

/-- What a step does to the count. -/
theorem count_step (hmade : ∀ x ∈ q.tasks, x.MadeOf S) (hn : q.shared.db.seedCountOf σ = some n)
    (hx : q.tasks[i]? = some x) (hs : System.step S q i = some q') :
    (x.commitsSeed q.shared σ = false ∧ q'.shared.db.seedCountOf σ = some n) ∨
      ∃ r, x.commitsSeed q.shared σ = true ∧ x.seedRead σ = some r ∧
        q'.shared.db.seedCountOf σ = some (r + 1) := by
  have hmx := hmade x (List.mem_of_getElem? hx)
  rw [System.shared_step hs hx]
  cases hseed : x.commitsSeed q.shared σ with
  | false =>
    refine Or.inl ⟨rfl, World.db_induction (P := fun db => db.seedCountOf σ = some n) hn ?_⟩
    intro ws hc _ wr hwr db₁ db₂ hn₁ hdb
    exact seedCount_apply hn₁ (fun old new he hid => writes_keep_seeds hmx hseed hc hwr he hid) hdb
  | true =>
    obtain ⟨schema, db, rfl, hc, hdb, hread⟩ := commitsSeed_writes hmx hseed
    refine Or.inr ⟨schema.seedCount, rfl, hread, ?_⟩
    rw [hc, World.apply_commit_ok hdb]
    exact seedCount_seed hdb

/-- What the tasks have read after a step, they had read before or is the count. -/
theorem read_step (hread : ∀ x ∈ q.tasks, ∀ r, x.seedRead σ = some r → r ≤ K)
    (hn : ∀ n, q.shared.db.seedCountOf σ = some n → n ≤ K) (hs : System.step S q i = some q') :
    ∀ x ∈ q'.tasks, ∀ r, x.seedRead σ = some r → r ≤ K := by
  obtain ⟨x, hx, -⟩ := Pool.step_eq_some hs
  intro u hu r hr
  rcases Pool.mem_of_step hs hx hu with rfl | hu | hu
  · rcases seedRead_move hr with hr | hr
    · exact hread x (List.mem_of_getElem? hx) r hr
    · exact hn r hr
  · cases u with
    | schema c =>
      have hpc : c.pc = .read := Task.spawned_fresh hu
      cases hcall : c.call <;> simp [Task.seedRead, SchemaRequest.seedRead, hpc, hcall] at hr
    | _ => cases hr
  · exact hread u hu r hr

/-- The calls that one step commits. -/
theorem seedsCommitted_cons (hs : System.step S q i = some q') (hx : q.tasks[i]? = some x) (l : List ℕ) :
    seedsCommitted S σ q (i :: l) =
      (if x.commitsSeed q.shared σ then 1 else 0) + seedsCommitted S σ q' l := by
  rw [seedsCommitted, tally_cons hs, hx, Option.any_some]

/-- A step keeps the bound, raised by one if it commits a seed. -/
theorem atMost_step (hmade : ∀ x ∈ q.tasks, x.MadeOf S) (h : AtMost σ K q) (hx : q.tasks[i]? = some x)
    (hs : System.step S q i = some q') :
    AtMost σ (K + if x.commitsSeed q.shared σ then 1 else 0) q' := by
  obtain ⟨n, hn, hle⟩ := h.count
  have hread := read_step h.read (fun m hm => Option.some.inj (hn.symm.trans hm) ▸ hle) hs
  rcases count_step hmade hn hx hs with ⟨hseed, hn'⟩ | ⟨r, hseed, hr, hn'⟩ <;> rw [hseed]
  · exact ⟨⟨n, hn', hle⟩, hread⟩
  · refine ⟨⟨r + 1, hn', ?_⟩, fun y hy m hm => Nat.le_succ_of_le (hread y hy m hm)⟩
    exact Nat.succ_le_succ (h.read x (List.mem_of_getElem? hx) r hr)

/-! ## Whole runs -/

/-- **A commit counts at most once.** -/
theorem atMost_exec {l : List ℕ} (hmade : ∀ x ∈ q.tasks, x.MadeOf S) (h : AtMost σ K q)
    (hl : exec (System.step S) q l = some q') : AtMost σ (K + seedsCommitted S σ q l) q' := by
  induction l generalizing q K with
  | nil =>
    cases hl
    exact h
  | cons i l ih =>
    rw [exec_cons] at hl
    obtain ⟨q₁, hs, hl⟩ := Option.bind_eq_some_iff.1 hl
    obtain ⟨x, hx, -⟩ := Pool.step_eq_some hs
    rw [seedsCommitted_cons hs hx, ← Nat.add_assoc]
    exact ih (madeOf_step hmade hs) (atMost_step hmade h hx hs) hl

/-- **A commit counts iff it is in turn.**  Once one is not, the count stays short
    of the commits: no call has read more than were committed before. -/
theorem count_exec_iff {l : List ℕ} (hmade : ∀ x ∈ q.tasks, x.MadeOf S)
    (hn : q.shared.db.seedCountOf σ = some K) (hread : ∀ x ∈ q.tasks, ∀ r, x.seedRead σ = some r → r ≤ K)
    (hl : exec (System.step S) q l = some q') :
    q'.shared.db.seedCountOf σ = some (K + seedsCommitted S σ q l) ↔
      Along (System.step S) (SeedsInTurn σ) q l := by
  induction l generalizing q K with
  | nil =>
    cases hl
    exact iff_of_true hn trivial
  | cons i l ih =>
    rw [exec_cons] at hl
    obtain ⟨q₁, hs, hl⟩ := Option.bind_eq_some_iff.1 hl
    obtain ⟨x, hx, -⟩ := Pool.step_eq_some hs
    have hmade₁ := madeOf_step hmade hs
    have hread₁ := read_step hread (fun m hm => le_of_eq (Option.some.inj (hm.symm.trans hn))) hs
    rw [seedsCommitted_cons hs hx, ← Nat.add_assoc, along_cons hs]
    rcases count_step hmade hn hx hs with ⟨hseed, hn₁⟩ | ⟨r, hseed, hr, hn₁⟩
    · have hturn : SeedsInTurn σ q i := by
        intro y hy hy'
        cases Option.some.inj (hx.symm.trans hy)
        rw [hseed] at hy'
        cases hy'
      rw [hseed, if_neg Bool.false_ne_true, Nat.add_zero, ih hmade₁ hn₁ hread₁ hl]
      exact (and_iff_right hturn).symm
    · rw [hseed]
      have hrK := hread x (List.mem_of_getElem? hx) r hr
      by_cases hturn : r = K
      · subst hturn
        have hinturn : SeedsInTurn σ q i := by
          intro y hy _
          cases Option.some.inj (hx.symm.trans hy)
          rw [hr, hn]
        rw [if_pos rfl, ih hmade₁ hn₁ (fun y hy m hm => Nat.le_succ_of_le (hread₁ y hy m hm)) hl]
        exact (and_iff_right hinturn).symm
      · refine iff_of_false ?_ fun h => hturn ?_
        · obtain ⟨m, hm, hle⟩ := (atMost_exec hmade₁ ⟨⟨r + 1, hn₁, by omega⟩, hread₁⟩ hl).count
          rw [hm]
          intro h
          have := Option.some.inj h
          rw [if_pos rfl] at this
          omega
        · exact Option.some.inj ((hr.symm.trans (h.1 x hx hseed)).trans hn)

/-- **Seeds are counted** in exactly the runs in which every `add_seed_example`
    that commits finds the `seed_count` it has read; three of them then open the
    gate of `activate_schema`. -/
theorem seeds_counted_iff {l : List ℕ} {row₀ : Schema} (hfresh : ∀ x ∈ q.tasks, x.Fresh)
    (hrow₀ : Rows.find Schema.id q.shared.db.schemas σ = some row₀)
    (hl : exec (System.step S) q l = some q') :
    ∃ row, Rows.find Schema.id q'.shared.db.schemas σ = some row ∧
      row.seedCount ≤ row₀.seedCount + seedsCommitted S σ q l ∧
      (row.seedCount = row₀.seedCount + seedsCommitted S σ q l ↔
        Along (System.step S) (SeedsInTurn σ) q l) ∧
      (Along (System.step S) (SeedsInTurn σ) q l → 3 ≤ seedsCommitted S σ q l →
        minSeedsForActivation ≤ row.seedCount) := by
  have hn : q.shared.db.seedCountOf σ = some row₀.seedCount := by rw [Db.seedCountOf, hrow₀, Option.map_some]
  have hmade : ∀ x ∈ q.tasks, x.MadeOf S := fun x hx => (hfresh x hx).madeOf
  have hread : ∀ x ∈ q.tasks, ∀ r, x.seedRead σ = some r → r ≤ row₀.seedCount := by
    intro x hx r hr
    cases x with
    | schema c =>
      have hpc : c.pc = .read := hfresh _ hx
      cases hcall : c.call <;> simp [Task.seedRead, SchemaRequest.seedRead, hpc, hcall] at hr
    | _ => cases hr
  obtain ⟨n, hn', hle⟩ := (atMost_exec hmade ⟨⟨_, hn, le_rfl⟩, hread⟩ hl).count
  obtain ⟨row, hrow, rfl⟩ := Option.map_eq_some_iff.1 hn'
  have hiff := count_exec_iff hmade hn hread hl
  rw [hn', Option.some.injEq] at hiff
  refine ⟨row, hrow, hle, hiff, fun halong hthree => ?_⟩
  rw [hiff.2 halong]
  exact le_trans hthree (Nat.le_add_left _ _)

end

namespace Sample

/-- The schema before its first seed. -/
def draft : Schema := { schema [] with status := .draft, seedCount := 0 }

def draftWorld : World where
  db := { (world []).db with schemas := [draft] }

def seedCall : SchemaRequest where
  tenantId := tenantId
  schemaId := schemaId
  call := .addSeed [("name", .str "Ada")]

/-- Three seeds for the schema. -/
def seedCalls : System := ⟨draftWorld, [.schema seedCall, .schema seedCall, .schema seedCall]⟩

theorem draft_row : Rows.find Schema.id seedCalls.shared.db.schemas schemaId = some draft := rfl

end Sample

/-- Three calls one after the other are counted, and the gate is open. -/
theorem seeds_counted_iff_serial :
    ∃ q row, exec (System.step Sample.site) Sample.seedCalls [0, 0, 0, 1, 1, 1, 2, 2, 2] = some q ∧
      Rows.find Schema.id q.shared.db.schemas Sample.schemaId = some row ∧
      Along (System.step Sample.site) (SeedsInTurn Sample.schemaId) Sample.seedCalls
        [0, 0, 0, 1, 1, 1, 2, 2, 2] ∧ minSeedsForActivation ≤ row.seedCount := by
  have hfresh : ∀ x ∈ Sample.seedCalls.tasks, x.Fresh := by
    intro x hx
    simp only [Sample.seedCalls, List.mem_cons, List.not_mem_nil, or_false, or_self] at hx
    rw [hx]
    rfl
  have hrun : (exec (System.step Sample.site) Sample.seedCalls [0, 0, 0, 1, 1, 1, 2, 2, 2]).bind
      (fun q => q.shared.db.seedCountOf Sample.schemaId) = some 3 := by decide +kernel
  have hcommitted : seedsCommitted Sample.site Sample.schemaId Sample.seedCalls
      [0, 0, 0, 1, 1, 1, 2, 2, 2] = 3 := by decide +kernel
  obtain ⟨q, hq, hcount⟩ := Option.bind_eq_some_iff.1 hrun
  obtain ⟨row, hrow, -, hiff, hgate⟩ := seeds_counted_iff hfresh Sample.draft_row hq
  rw [Db.seedCountOf, hrow, Option.map_some, Option.some.injEq] at hcount
  have halong := hiff.1 (by rw [hcount, hcommitted]; rfl)
  exact ⟨q, row, hq, hrow, halong, hgate halong hcommitted.ge⟩

/-- Three calls that overlap: all of them commit, and one is counted. -/
theorem three_seeds_count_one :
    ∃ q row, exec (System.step Sample.site) Sample.seedCalls [0, 1, 2, 0, 1, 2, 0, 1, 2] = some q ∧
      (∀ x ∈ Sample.seedCalls.tasks, x.Fresh) ∧
      seedsCommitted Sample.site Sample.schemaId Sample.seedCalls [0, 1, 2, 0, 1, 2, 0, 1, 2] = 3 ∧
      Rows.find Schema.id Sample.seedCalls.shared.db.schemas Sample.schemaId = some Sample.draft ∧
      Rows.find Schema.id q.shared.db.schemas Sample.schemaId = some row ∧
      row.seedCount = Sample.draft.seedCount + 1 ∧ ¬ minSeedsForActivation ≤ row.seedCount := by
  have hrun : (exec (System.step Sample.site) Sample.seedCalls [0, 1, 2, 0, 1, 2, 0, 1, 2]).bind
      (fun q => q.shared.db.seedCountOf Sample.schemaId) = some 1 := by decide +kernel
  obtain ⟨q, hq, hcount⟩ := Option.bind_eq_some_iff.1 hrun
  obtain ⟨row, hrow, hone⟩ := Option.map_eq_some_iff.1 hcount
  refine ⟨q, row, hq, ?_, by decide +kernel, Sample.draft_row, hrow, hone, by rw [hone]; decide⟩
  intro x hx
  simp only [Sample.seedCalls, List.mem_cons, List.not_mem_nil, or_false, or_self] at hx
  rw [hx]
  rfl

end OcrService
