/-
  What an activation publishes.

  `activate_schema` inserts a snapshot of the definition under the
  `current_version` of the schema, which it raises only if the schema is
  deprecated.  In a sequence of calls on a schema, the snapshot of the last
  activation bears that version as long as the schema is active, so an
  activation publishes iff the schema is not active (`activation_publishes_iff`).
-/
import OcrService.System.Seeds

namespace OcrService

open Trans PyData

/-- The definition of a schema at its current version. -/
def Schema.snapshot (row : Schema) : SchemaVersion where
  schemaId := row.id
  tenantId := row.tenantId
  version := row.currentVersion
  jsonSchema := row.jsonSchema
  requiredFields := row.requiredFields
  piiFields := row.piiFields
  promptTemplate := row.promptTemplate

/-- Schema `σ` is active, the one snapshot of its current version holds its
    definition, and the snapshots of before are as they were. -/
def Publishes (σ : Uuid) (db db' : Db) : Prop :=
  ∃ row, Rows.find Schema.id db'.schemas σ = some row ∧ row.status = .active ∧
    db'.schemaVersions.filter (fun v => v.schemaId = σ ∧ v.version = row.currentVersion) = [row.snapshot] ∧
    db'.schemaVersions = db.schemaVersions ++ [row.snapshot]

/-- One call after another on schema `σ` of tenant `t`, and moves of its status
    to deprecated. -/
inductive SchemaEvent (S : Site) (t σ : Uuid) (w : World) : World → Prop
  | create {id : Uuid} {payload : SchemaPayload} {row : Schema}
      (hnew : Rows.find Schema.id w.db.schemas id = none) (h : createSchema w.db t id payload = some row) :
      SchemaEvent S t σ w (w.apply (.commit [.insertSchema row]))
  | call {c : SchemaRequest} {w' : World} {o : Outcome} (ht : c.tenantId = t) (hid : c.schemaId = σ)
      (hpc : c.pc = .read) (h : RunsTo S w (.schema c) w' (.schema (c.goto (.done o)))) :
      SchemaEvent S t σ w w'
  | deprecated {row : Schema} (hrow : w.db.schema? t σ = some row) :
      SchemaEvent S t σ w (w.apply (.commit [.updateSchema row { row with status := .deprecated }]))

/-! ## A call alone -/

section
variable {S : Site} {w w' : World} {c : SchemaRequest} {o : Outcome}

/-- What a call commits of the row that it reads. -/
def SchemaRequest.MakesOf (c : SchemaRequest) (schema : Schema) (ws : List Write) : Prop :=
  c.begin schema = .commit ws ∨ ∃ expectedJson, c.call = .addSeed expectedJson ∧ ws = seedWrites schema

theorem SchemaRequest.begin_cases (c : SchemaRequest) (schema : Schema) :
    c.begin schema = .done .raised ∨ (∃ ws, c.begin schema = .commit ws) ∨
      ∃ expectedJson, c.call = .addSeed expectedJson ∧ c.begin schema = .upsert schema expectedJson := by
  unfold SchemaRequest.begin
  cases c.call with
  | update payload => exact Or.inr (Or.inl ⟨_, rfl⟩)
  | addSeed expectedJson => exact Or.inr (Or.inr ⟨_, rfl, rfl⟩)
  | activate =>
    dsimp only
    split_ifs
    · exact Or.inl rfl
    · exact Or.inr (Or.inl ⟨_, rfl⟩)

theorem SchemaRequest.move_read (hpc : c.pc = .read) :
    c.move w =
      if c.raises .read then { task := c.goto (.done .raised) }
      else match w.db.schema? c.tenantId c.schemaId with
        | none => { task := c.goto (.done .raised) }
        | some schema => { task := c.goto (c.begin schema) } := by
  cases c
  cases hpc
  rfl

theorem SchemaRequest.move_upsert (schema : Schema) (expectedJson : Obj) :
    (c.goto (.upsert schema expectedJson)).move w =
      if c.raises .embed ∨ c.raises .upsert then { task := c.goto (.done .raised) }
      else
        { change := .upsertPoint ⟨c.tenantId, c.schemaId, c.schemaId, .seed, expectedJson⟩
          task := c.goto (.commit (seedWrites schema)) } := rfl

theorem SchemaRequest.move_commit (ws : List Write) :
    (c.goto (.commit ws)).move w =
      if c.raises .commit then { task := c.goto (.done .raised) }
      else match w.db.commit ws with
        | .error _ => { task := c.goto (.done .raised) }
        | .ok _ => { change := .commit ws, task := c.goto (.done .returned) } := rfl

/-- A step of a call, when it runs alone. -/
theorem finishes_schema_step {m : Move SchemaRequest Empty} {e : World × Task} (h : c.move w = m) :
    Finishes (Task.effect S) (w, .schema c) e ↔
      Finishes (Task.effect S) (w.apply m.change, .schema m.task) e := by
  subst h
  exact Finishes.step_iff

theorem finishes_done (w : World) (o : Outcome) :
    RunsTo S w (.schema (c.goto (.done o))) w (.schema (c.goto (.done o))) := Finishes.fixed rfl

/-- The transaction of a call that can be made. -/
theorem finishes_commit_ok {ws : List Write} {db : Db} (hraise : c.raises .commit = false)
    (hdb : w.db.commit ws = .ok db) :
    RunsTo S w (.schema (c.goto (.commit ws))) { w with db } (.schema (c.goto (.done .returned))) := by
  have hmove := c.move_commit (w := w) ws
  rw [hraise, if_neg Bool.false_ne_true, hdb] at hmove
  refine (finishes_schema_step hmove).2 ?_
  rw [World.apply_commit_ok hdb]
  exact finishes_done _ _

/-- The transaction of a call that is refused. -/
theorem finishes_commit_error {ws : List Write} (h : c.raises .commit = true ∨ ∃ e, w.db.commit ws = .error e) :
    RunsTo S w (.schema (c.goto (.commit ws))) w (.schema (c.goto (.done .raised))) := by
  have hmove := c.move_commit (w := w) ws
  rcases h with h | ⟨e, h⟩
  · rw [if_pos h] at hmove
    exact (finishes_schema_step hmove).2 (finishes_done _ _)
  · rw [h, ite_self] at hmove
    exact (finishes_schema_step hmove).2 (finishes_done _ _)

/-- A transaction is made or not. -/
theorem finishes_commit (ws : List Write) (w : World) :
    ∃ w' o, RunsTo S w (.schema (c.goto (.commit ws))) w' (.schema (c.goto (.done o))) ∧
      (w'.db = w.db ∨ w.db.commit ws = .ok w'.db) := by
  cases hraise : c.raises .commit with
  | true => exact ⟨w, _, finishes_commit_error (Or.inl hraise), Or.inl rfl⟩
  | false =>
    cases hdb : w.db.commit ws with
    | error e => exact ⟨w, _, finishes_commit_error (Or.inr ⟨e, hdb⟩), Or.inl rfl⟩
    | ok db => exact ⟨_, _, finishes_commit_ok hraise hdb, Or.inr rfl⟩

/-- **A call alone** leaves the database, or commits what it makes of the live row. -/
theorem call_alone (hpc : c.pc = .read) (h : RunsTo S w (.schema c) w' (.schema (c.goto (.done o)))) :
    w'.db = w.db ∨ ∃ schema ws, w.db.schema? c.tenantId c.schemaId = some schema ∧
      c.MakesOf schema ws ∧ w.db.commit ws = .ok w'.db := by
  -- the end of a call is one only
  suffices hend : ∃ w'' o', RunsTo S w (.schema c) w'' (.schema (c.goto (.done o'))) ∧
      (w''.db = w.db ∨ ∃ schema ws, w.db.schema? c.tenantId c.schemaId = some schema ∧
        c.MakesOf schema ws ∧ w.db.commit ws = .ok w''.db) by
    obtain ⟨w'', o', h', hdb⟩ := hend
    cases (Prod.ext_iff.1 (h.unique h')).1
    exact hdb
  have hread := c.move_read (w := w) hpc
  by_cases hraise : c.raises .read = true
  · rw [if_pos hraise] at hread
    exact ⟨w, .raised, (finishes_schema_step hread).2 (finishes_done _ _), Or.inl rfl⟩
  rw [if_neg hraise] at hread
  cases hrow : w.db.schema? c.tenantId c.schemaId with
  | none =>
    rw [hrow] at hread
    exact ⟨w, .raised, (finishes_schema_step hread).2 (finishes_done _ _), Or.inl rfl⟩
  | some schema =>
    replace hread : c.move w = { task := c.goto (c.begin schema) } := by rw [hread, hrow]
    rcases c.begin_cases schema with hbegin | ⟨ws, hbegin⟩ | ⟨e, hcall, hbegin⟩ <;> rw [hbegin] at hread
    · exact ⟨w, .raised, (finishes_schema_step hread).2 (finishes_done _ _), Or.inl rfl⟩
    · obtain ⟨w'', o', hruns, hdb⟩ := finishes_commit (S := S) (c := c) ws w
      refine ⟨w'', o', (finishes_schema_step hread).2 hruns, hdb.imp_right fun hdb => ?_⟩
      exact ⟨schema, ws, rfl, Or.inl hbegin, hdb⟩
    · have hupsert := c.move_upsert (w := w) schema e
      split_ifs at hupsert
      · exact ⟨w, .raised, (finishes_schema_step hread).2 ((finishes_schema_step hupsert).2
          (finishes_done _ _)), Or.inl rfl⟩
      · obtain ⟨w'', o', hruns, hdb⟩ := finishes_commit (S := S) (c := c) (seedWrites schema)
          (w.apply (.upsertPoint ⟨c.tenantId, c.schemaId, c.schemaId, .seed, e⟩))
        refine ⟨w'', o', (finishes_schema_step hread).2 ((finishes_schema_step hupsert).2 hruns),
          hdb.imp_right fun hdb => ?_⟩
        exact ⟨schema, _, rfl, Or.inr ⟨e, hcall, rfl⟩, hdb⟩

end

/-! ## The row of a schema -/

theorem Schema.stored_stored (r : Schema) : r.stored.stored = r.stored := by
  simp only [Schema.stored, Decimal.numeric_numeric]

theorem Schema.storable_stored {r : Schema} : r.stored.Storable ↔ r.Storable := by
  simp only [Schema.Storable, Schema.stored, Decimal.numeric_numeric]

/-- An update of the row that was read sets it to the new one. -/
theorem Schema.merge_self (row new : Schema) (hid : new.id = row.id) (ht : new.tenantId = row.tenantId)
    (hn : new.name = row.name) : row.merge row new = new := by
  have hite : ∀ {α : Type} [DecidableEq α] (a b : α), (if a = b then b else a) = a := by
    intro α _ a b
    split_ifs with h
    · exact h.symm
    · rfl
  cases new
  cases row
  simp only at hid ht hn
  subst hid ht hn
  simp only [Schema.merge, hite]

/-- The live row of schema `σ` of tenant `t`. -/
structure Live (t σ : Uuid) (db : Db) (row : Schema) : Prop where
  find : Rows.find Schema.id db.schemas σ = some row
  tenant : row.tenantId = t
  storable : row.Storable
  stored : row.stored = row

/-- The same, with the versions that its snapshots bear. -/
structure Registered (t σ : Uuid) (db : Db) (row : Schema) : Prop extends Live t σ db row where
  versions : ∀ v ∈ db.schemaVersions, v.schemaId = σ → v.version ≤ row.currentVersion
  draft : row.status = .draft → ∀ v ∈ db.schemaVersions, v.schemaId ≠ σ
  active : row.status = .active → ∃ v ∈ db.schemaVersions, v.schemaId = σ ∧ v.version = row.currentVersion

section
variable {t σ : Uuid} {db db' : Db} {row : Schema}

theorem Live.id_eq (h : Live t σ db row) : row.id = σ := Rows.key_of_find h.find

/-- The update of a live row. -/
theorem Live.update (h : Live t σ db row) (new : Schema) (hid : new.id = row.id)
    (ht : new.tenantId = row.tenantId) (hn : new.name = row.name)
    (hdb : Write.apply db (.updateSchema row new) = .ok db') :
    db'.schemaVersions = db.schemaVersions ∧ Rows.find Schema.id db'.schemas σ = some new.stored ∧
      new.stored.Storable := by
  by_cases hne : new = row
  · subst hne
    obtain ⟨-, rfl⟩ := Write.apply_ok.1 hdb
    have hsame : (Write.updateSchema new new).perform db = db := if_pos rfl
    rw [hsame]
    exact ⟨rfl, h.stored.symm ▸ h.find, h.stored.symm ▸ h.storable⟩
  · obtain ⟨row', hrow', hs, rfl⟩ := (updateSchema_ok hne).1 hdb
    rw [h.id_eq] at hrow'
    cases Option.some.inj (h.find.symm.trans hrow')
    rw [Schema.merge_self row new.stored hid ht hn] at hs ⊢
    refine ⟨rfl, ?_, hs⟩
    have hfind := h.find
    rw [← h.id_eq] at hfind ⊢
    exact Rows.find_replace_self hfind hid

/-- A live row takes every row that can be stored. -/
theorem Live.can_update (h : Live t σ db row) (new : Schema) (hid : new.id = row.id)
    (ht : new.tenantId = row.tenantId) (hn : new.name = row.name) (hs : new.Storable) :
    ∃ db', Write.apply db (.updateSchema row new) = .ok db' := by
  by_cases hne : new = row
  · exact ⟨(Write.updateSchema row new).perform db, Write.apply_ok.2 ⟨if_pos hne, rfl⟩⟩
  · refine ⟨_, (updateSchema_ok hne).2 ⟨row, h.id_eq ▸ h.find, ?_, rfl⟩⟩
    rw [Schema.merge_self row new.stored hid ht hn]
    exact Schema.storable_stored.2 hs

/-- An update that leaves the version, and the status or deprecates. -/
theorem Registered.keep (h : Registered t σ db row) (new : Schema) (hid : new.id = row.id)
    (ht : new.tenantId = row.tenantId) (hn : new.name = row.name)
    (hv : new.currentVersion = row.currentVersion) (hs : new.status = row.status ∨ new.status = .deprecated)
    (hdb : Write.apply db (.updateSchema row new) = .ok db') : Registered t σ db' new.stored := by
  obtain ⟨hversions, hfind, hstorable⟩ := h.update new hid ht hn hdb
  have hstatus : ∀ st, new.status = st → st ≠ .deprecated → row.status = st := by
    rintro st rfl hne
    rcases hs with hs | hs
    · exact hs.symm
    · exact absurd hs hne
  refine ⟨⟨hfind, ht.trans h.tenant, hstorable, new.stored_stored⟩, ?_, ?_, ?_⟩ <;> rw [hversions]
  · intro v hv' hσ
    exact (h.versions v hv' hσ).trans_eq hv.symm
  · intro hst
    exact h.draft (hstatus _ hst (by decide))
  · intro hst
    obtain ⟨v, hmem, hσ, hver⟩ := h.active (hstatus _ hst (by decide))
    exact ⟨v, hmem, hσ, hver.trans hv.symm⟩

/-- The transaction of `activate_schema`. -/
def activateWrites (schema : Schema) : List Write :=
  [.insertSchemaVersion (schemaSnapshot schema), .updateSchema schema (activateSchema schema)]

theorem Registered.activate_version (h : Registered t σ db row) :
    (∀ v ∈ db.schemaVersions, v.schemaId = σ → v.version ≠ (activateSchema row).currentVersion) ↔
      row.status ≠ .active := by
  constructor
  · intro hnew hactive
    obtain ⟨v, hmem, hσ, hver⟩ := h.active hactive
    refine hnew v hmem hσ (hver.trans ?_)
    simp only [activateSchema, hactive, reduceCtorEq, if_false]
  · intro hne v hmem hσ hver
    simp only [activateSchema] at hver
    split_ifs at hver with hdep
    · have := h.versions v hmem hσ
      omega
    · have hdraft : row.status = .draft := by
        cases hst : row.status with
        | draft => rfl
        | active => exact absurd hst hne
        | deprecated => exact absurd hst hdep
      exact h.draft hdraft v hmem hσ

theorem Schema.le_activateSchema (row : Schema) : row.currentVersion ≤ (activateSchema row).currentVersion := by
  simp only [activateSchema]
  split_ifs
  · exact Nat.le_succ _
  · exact le_rfl

theorem Live.activateSchema_storable (h : Live t σ db row) (hseeds : minSeedsForActivation ≤ row.seedCount) :
    (activateSchema row).Storable := by
  obtain ⟨h₁, h₂, h₃, h₄, h₅, h₆, h₇, h₈, h₉, h₁₀, -⟩ := h.storable
  exact ⟨h₁, h₂, h₃, h₄, h₅, h₆, h₇, h₈, h₉, h₁₀, fun _ => hseeds⟩

/-- **An activation** of a schema that is not active publishes its definition. -/
theorem Registered.activate (h : Registered t σ db row) (hseeds : minSeedsForActivation ≤ row.seedCount)
    (hne : row.status ≠ .active) :
    ∃ db', db.commit (activateWrites row) = .ok db' ∧ Publishes σ db db' ∧
      Registered t σ db' (activateSchema row) := by
  have hfind : Rows.find Schema.id db.schemas (schemaSnapshot row).schemaId = some row := by
    rw [show (schemaSnapshot row).schemaId = σ from h.id_eq]
    exact h.find
  have hnew := h.activate_version.2 hne
  obtain ⟨db₁, hins, rfl⟩ : ∃ db₁, Write.apply db (.insertSchemaVersion (schemaSnapshot row)) = .ok db₁ ∧
      { db with schemaVersions := db.schemaVersions ++ [schemaSnapshot row] } = db₁ :=
    ⟨_, (insertSchemaVersion_ok hfind).2 ⟨fun v hv hσ => hnew v hv (hσ.trans h.id_eq), rfl⟩, rfl⟩
  have hlive : Live t σ { db with schemaVersions := db.schemaVersions ++ [schemaSnapshot row] } row :=
    ⟨h.find, h.tenant, h.storable, h.stored⟩
  have hstored : (activateSchema row).stored = activateSchema row := congrArg activateSchema h.stored
  obtain ⟨db', hupd⟩ := hlive.can_update (activateSchema row) rfl rfl rfl (h.activateSchema_storable hseeds)
  obtain ⟨hversions, hrow, hstorable⟩ := hlive.update (activateSchema row) rfl rfl rfl hupd
  rw [hstored] at hrow hstorable
  refine ⟨db', Db.commit_cons_ok.2 ⟨_, hins, commit_one.2 hupd⟩, ⟨_, hrow, rfl, ?_, hversions⟩,
    ⟨⟨hrow, h.tenant, hstorable, hstored⟩, ?_, fun hst => (nomatch hst), fun _ => ?_⟩⟩ <;> rw [hversions]
  · -- no earlier snapshot bears the version
    rw [List.filter_append, List.filter_eq_nil_iff.2, List.nil_append, List.filter_cons_of_pos,
      List.filter_nil]
    · rfl
    · exact decide_eq_true ⟨h.id_eq, rfl⟩
    · intro v hv hver
      obtain ⟨hσ, hver⟩ := of_decide_eq_true hver
      exact hnew v hv hσ hver
  · intro v hv hσ
    rcases List.mem_append.1 hv with hv | hv
    · exact (h.versions v hv hσ).trans row.le_activateSchema
    · rw [List.mem_singleton.1 hv]
      exact le_rfl
  · exact ⟨_, List.mem_append_right _ (List.mem_singleton_self _), h.id_eq, rfl⟩

/-- An activation of an active schema violates the unique constraint. -/
theorem Registered.activate_active (h : Registered t σ db row) (hactive : row.status = .active) :
    db.commit (activateWrites row) = .error .uniqueViolation := by
  obtain ⟨v, hmem, hσ, hver⟩ := h.active hactive
  have hfind : Rows.find Schema.id db.schemas (schemaSnapshot row).schemaId = some row := by
    rw [show (schemaSnapshot row).schemaId = σ from h.id_eq]
    exact h.find
  have hversion : (schemaSnapshot row).version = row.currentVersion := by
    simp only [schemaSnapshot, activateSchema, hactive, reduceCtorEq, if_false]
  have hany : (db.schemaVersions.any fun r =>
      r.schemaId = (schemaSnapshot row).schemaId ∧ r.version = (schemaSnapshot row).version) = true :=
    List.any_eq_true.2 ⟨v, hmem, decide_eq_true ⟨hσ.trans h.id_eq.symm, hver.trans hversion.symm⟩⟩
  have hrefused : (Write.insertSchemaVersion (schemaSnapshot row)).refused db = some .uniqueViolation := by
    simp only [Write.refused, hfind, Option.isNone_some, Bool.false_eq_true, if_false]
    exact if_pos hany
  rw [activateWrites, Db.commit_cons, Write.apply, hrefused]
  rfl

/-- Schema `σ` is not there, and no snapshot of it; or it is registered. -/
def Catalogued (t σ : Uuid) (db : Db) : Prop :=
  (Rows.find Schema.id db.schemas σ = none ∧ ∀ v ∈ db.schemaVersions, v.schemaId ≠ σ) ∨
    ∃ row, Registered t σ db row

/-- A schema that is created has no snapshot. -/
theorem catalogued_create {id : Uuid} {payload : SchemaPayload} (h : Catalogued t σ db)
    (hfresh : Rows.find Schema.id db.schemas id = none) (hrow : createSchema db t id payload = some new)
    (hdb : Write.apply db (.insertSchema new) = .ok db') : Catalogued t σ db' := by
  obtain ⟨hs, rfl⟩ := insertSchema_ok hdb
  have hnew : new.id = id ∧ new.tenantId = t ∧ new.status = .draft := by
    unfold createSchema at hrow
    split_ifs at hrow
    cases hrow
    exact ⟨rfl, rfl, rfl⟩
  obtain ⟨rfl, ht, hst⟩ := hnew
  by_cases hid : new.id = σ
  · subst hid
    rcases h with ⟨-, hversions⟩ | ⟨row, hr⟩
    · refine Or.inr ⟨new.stored, ⟨?_, ht, Schema.storable_stored.2 hs, new.stored_stored⟩, ?_, ?_, ?_⟩
      · rw [Rows.find_append_one, hfresh]
        exact if_pos rfl
      · intro v hv hσ
        exact absurd hσ (hversions v hv)
      · intro _
        exact hversions
      · intro hactive
        cases hst.symm.trans hactive
    · cases hfresh.symm.trans hr.find
  · have hfind : Rows.find Schema.id (db.schemas ++ [new.stored]) σ = Rows.find Schema.id db.schemas σ :=
      Rows.find_append_other (r := new.stored) _ hid
    rcases h with ⟨hnone, hversions⟩ | ⟨row, hr⟩
    · exact Or.inl ⟨hfind.trans hnone, hversions⟩
    · exact Or.inr ⟨row, ⟨hfind.trans hr.find, hr.tenant, hr.storable, hr.stored⟩, hr.versions, hr.draft, hr.active⟩

/-- The transaction of a call on a registered schema. -/
theorem Registered.call {c : SchemaRequest} {ws : List Write} (h : Registered t σ db row)
    (hmakes : c.MakesOf row ws) (hdb : db.commit ws = .ok db') : Catalogued t σ db' := by
  rcases hmakes with hbegin | ⟨e, -, rfl⟩
  · unfold SchemaRequest.begin at hbegin
    cases hcall : c.call <;> simp only [hcall] at hbegin
    case update payload =>
      cases hbegin
      exact Or.inr ⟨_, h.keep (updateSchema row payload) rfl rfl rfl rfl (Or.inl rfl) (commit_one.1 hdb)⟩
    case addSeed => cases hbegin
    case activate =>
      split_ifs at hbegin with hseeds
      cases hbegin
      by_cases hactive : row.status = .active
      · cases (h.activate_active hactive).symm.trans hdb
      · obtain ⟨db₁, hdb₁, -, hr⟩ := h.activate (not_lt.1 hseeds) hactive
        cases hdb₁.symm.trans hdb
        exact Or.inr ⟨_, hr⟩
  · exact Or.inr ⟨_, h.keep { row with seedCount := row.seedCount + 1 } rfl rfl rfl rfl (Or.inl rfl)
      (commit_one.1 hdb)⟩

end

/-! ## Sequences of calls -/

section
variable {S : Site} {t σ : Uuid} {w w' w₀ : World} {row : Schema}

theorem schema?_of_find {db : Db} (hfind : Rows.find Schema.id db.schemas σ = some row)
    (ht : row.tenantId = t) : db.schema? t σ = some row := by
  rw [Db.schema?, hfind]
  exact Option.filter_some_pos (decide_eq_true ht)

/-- **One event** keeps what the snapshots bear. -/
theorem catalogued_event (h : Catalogued t σ w.db) (he : SchemaEvent S t σ w w') : Catalogued t σ w'.db := by
  cases he with
  | create hnew hrow =>
    rcases World.db_apply (w := w) (.commit [.insertSchema _]) with hdb | ⟨ws, hc, hdb⟩
    · rw [hdb]
      exact h
    · cases hc
      exact catalogued_create h hnew hrow (commit_one.1 hdb)
  | @call c _ o ht hid hpc hruns =>
    subst ht hid
    rcases call_alone hpc hruns with hdb | ⟨schema, ws, hrow, hmakes, hdb⟩
    · rw [hdb]
      exact h
    · obtain ⟨hfind, -⟩ := Option.filter_eq_some_iff.1 hrow
      rcases h with ⟨hnone, -⟩ | ⟨row, hr⟩
      · cases hnone.symm.trans hfind
      · cases Option.some.inj (hr.find.symm.trans hfind)
        exact hr.call hmakes hdb
  | @deprecated row hrow =>
    rcases World.db_apply (w := w) (.commit [.updateSchema _ _]) with hdb | ⟨ws, hc, hdb⟩
    · rw [hdb]
      exact h
    · cases hc
      obtain ⟨hfind, -⟩ := Option.filter_eq_some_iff.1 hrow
      rcases h with ⟨hnone, -⟩ | ⟨row', hr⟩
      · cases hnone.symm.trans hfind
      · obtain rfl : row' = row := Option.some.inj (hr.find.symm.trans hfind)
        exact Or.inr ⟨_, hr.keep { row' with status := .deprecated } rfl rfl rfl rfl (Or.inr rfl)
          (commit_one.1 hdb)⟩

/-- Along every sequence. -/
theorem catalogued_events (h : Catalogued t σ w.db) (he : Relation.ReflTransGen (SchemaEvent S t σ) w w') :
    Catalogued t σ w'.db := by
  induction he with
  | refl => exact h
  | tail _ he ih => exact catalogued_event ih he

/-- **Activation publishes** in exactly the states in which the schema is not
    active: after any sequence of calls from its creation on, an activation with
    enough seeds commits and publishes the definition iff the schema is not
    active; otherwise it raises and nothing is changed. -/
theorem activation_publishes_iff {c : SchemaRequest} (hnone : Rows.find Schema.id w₀.db.schemas σ = none)
    (hversions : ∀ v ∈ w₀.db.schemaVersions, v.schemaId ≠ σ)
    (he : Relation.ReflTransGen (SchemaEvent S t σ) w₀ w)
    (hrow : w.db.schema? t σ = some row) (hseeds : minSeedsForActivation ≤ row.seedCount)
    (ht : c.tenantId = t) (hid : c.schemaId = σ) (hpc : c.pc = .read) (hcall : c.call = .activate)
    (hread : c.raises .read = false) (hcommit : c.raises .commit = false) :
    ∃ w' o, RunsTo S w (.schema c) w' (.schema (c.goto (.done o))) ∧
      (o = .returned ∧ Publishes σ w.db w'.db ↔ row.status ≠ .active) ∧
      (row.status = .active → o = .raised ∧ w' = w) := by
  subst ht hid
  obtain ⟨hfind, -⟩ := Option.filter_eq_some_iff.1 hrow
  have hr : Registered c.tenantId c.schemaId w.db row := by
    rcases catalogued_events (Or.inl ⟨hnone, hversions⟩) he with ⟨hnone, -⟩ | ⟨row', hr⟩
    · cases hnone.symm.trans hfind
    · exact Option.some.inj (hr.find.symm.trans hfind) ▸ hr
  have hmove : c.move w = { task := c.goto (.commit (activateWrites row)) } := by
    have hbegin : c.begin row = .commit (activateWrites row) := by
      simp only [SchemaRequest.begin, hcall]
      exact if_neg (not_lt.2 hseeds)
    rw [c.move_read hpc, hread, if_neg Bool.false_ne_true, hrow, ← hbegin]
  by_cases hactive : row.status = .active
  · refine ⟨w, .raised, (finishes_schema_step hmove).2
      (finishes_commit_error (Or.inr ⟨_, hr.activate_active hactive⟩)), ?_, fun _ => ⟨rfl, rfl⟩⟩
    refine iff_of_false ?_ (not_not.2 hactive)
    rintro ⟨h, -⟩
    cases h
  · obtain ⟨db', hdb, hpublishes, -⟩ := hr.activate hseeds hactive
    refine ⟨_, .returned, (finishes_schema_step hmove).2 (finishes_commit_ok hcommit hdb), ?_,
      fun h => absurd h hactive⟩
    exact iff_of_true ⟨rfl, hpublishes⟩ hactive

end

/-! ## A schema of the small deployment -/

section
variable {S : Site} {t σ : Uuid} {w : World} {row : Schema} {c : SchemaRequest}

/-- The step in which a call reads its schema. -/
theorem Registered.move_read (h : Registered t σ w.db row) (ht : c.tenantId = t) (hid : c.schemaId = σ)
    (hpc : c.pc = .read) (hraise : c.raises .read = false) : c.move w = { task := c.goto (c.begin row) } := by
  rw [c.move_read hpc, hraise, if_neg Bool.false_ne_true, ht, hid, schema?_of_find h.find h.tenant]

/-- A seed that is stored. -/
theorem Registered.seed_alone {expectedJson : Obj} (h : Registered t σ w.db row) (ht : c.tenantId = t)
    (hid : c.schemaId = σ) (hpc : c.pc = .read) (hcall : c.call = .addSeed expectedJson)
    (hraises : ∀ p, c.raises p = false) :
    ∃ w', RunsTo S w (.schema c) w' (.schema (c.goto (.done .returned))) ∧
      Registered t σ w'.db { row with seedCount := row.seedCount + 1 } := by
  have hstorable : Schema.Storable { row with seedCount := row.seedCount + 1 } := by
    obtain ⟨h₁, h₂, h₃, h₄, h₅, h₆, h₇, h₈, h₉, h₁₀, h₁₁⟩ := h.storable
    exact ⟨h₁, h₂, h₃, h₄, h₅, h₆, h₇, h₈, h₉, h₁₀, fun hst => Nat.le_succ_of_le (h₁₁ hst)⟩
  obtain ⟨db', hdb⟩ := h.can_update { row with seedCount := row.seedCount + 1 } rfl rfl rfl hstorable
  have hread := h.move_read ht hid hpc (hraises _)
  rw [show c.begin row = .upsert row expectedJson by rw [SchemaRequest.begin, hcall]] at hread
  have hupsert := c.move_upsert (w := w) row expectedJson
  rw [hraises, hraises, if_neg (by simp)] at hupsert
  refine ⟨_, (finishes_schema_step hread).2 ((finishes_schema_step hupsert).2
    (finishes_commit_ok (hraises _) (commit_one.2 hdb))), ?_⟩
  have hkeep := h.keep { row with seedCount := row.seedCount + 1 } rfl rfl rfl rfl (Or.inl rfl) hdb
  rwa [show Schema.stored { row with seedCount := row.seedCount + 1 } = { row with seedCount := row.seedCount + 1 }
    from congrArg (fun r : Schema => { r with seedCount := row.seedCount + 1 }) h.stored] at hkeep

/-- A change of the definition that is stored. -/
theorem Registered.update_alone {payload : SchemaPayload} (h : Registered t σ w.db row) (ht : c.tenantId = t)
    (hid : c.schemaId = σ) (hpc : c.pc = .read) (hcall : c.call = .update payload)
    (hraises : ∀ p, c.raises p = false) (hstorable : (updateSchema row payload).Storable) :
    ∃ w', RunsTo S w (.schema c) w' (.schema (c.goto (.done .returned))) ∧
      Registered t σ w'.db (updateSchema row payload).stored := by
  obtain ⟨db', hdb⟩ := h.can_update (updateSchema row payload) rfl rfl rfl hstorable
  have hread := h.move_read ht hid hpc (hraises _)
  rw [show c.begin row = .commit [.updateSchema row (updateSchema row payload)] by
    rw [SchemaRequest.begin, hcall]] at hread
  exact ⟨_, (finishes_schema_step hread).2 (finishes_commit_ok (hraises _) (commit_one.2 hdb)),
    h.keep (updateSchema row payload) rfl rfl rfl rfl (Or.inl rfl) hdb⟩

end

namespace Sample

/-- The deployment before its schema is created. -/
def emptyWorld : World where
  db := { (world []).db with schemas := [] }

def payload : SchemaPayload where
  name := "invoice"
  jsonSchema := (schema []).jsonSchema
  requiredFields := ["name"]
  confidenceHigh := 1 / 2
  confidenceMedium := 1 / 4

def activateCall : SchemaRequest := { tenantId := tenantId, schemaId := schemaId, call := .activate }

/-- Another field is required. -/
def editCall : SchemaRequest where
  tenantId := tenantId
  schemaId := schemaId
  call := .update { payload with requiredFields := ["name", "total"] }

/-- The schema is created. -/
theorem created_draft :
    createSchema emptyWorld.db tenantId schemaId payload = some draft ∧
      Registered tenantId schemaId (emptyWorld.apply (.commit [.insertSchema draft])).db draft := by
  have hstored : draft.stored = draft := by decide +kernel
  have hinsert : emptyWorld.db.commit [.insertSchema draft] =
      .ok { emptyWorld.db with schemas := [draft.stored] } := by
    rw [commit_one, Write.apply_ok]
    exact ⟨by decide +kernel, rfl⟩
  rw [World.apply_commit_ok hinsert, hstored]
  refine ⟨rfl, ⟨⟨rfl, rfl, by decide +kernel, hstored⟩, ?_, ?_, ?_⟩⟩
  · intro v hv
    cases hv
  · intro _ v hv
    cases hv
  · intro hst
    cases hst

/-- The sequence of its creation and three seeds. -/
theorem seeded :
    ∃ w, Relation.ReflTransGen (SchemaEvent site tenantId schemaId) emptyWorld w ∧
      Registered tenantId schemaId w.db { draft with seedCount := 3 } := by
  obtain ⟨hcreate, h₀⟩ := created_draft
  obtain ⟨w₁, hruns₁, h₁⟩ := h₀.seed_alone (S := site) (c := seedCall) rfl rfl rfl rfl fun _ => rfl
  obtain ⟨w₂, hruns₂, h₂⟩ := h₁.seed_alone (S := site) (c := seedCall) rfl rfl rfl rfl fun _ => rfl
  obtain ⟨w₃, hruns₃, h₃⟩ := h₂.seed_alone (S := site) (c := seedCall) rfl rfl rfl rfl fun _ => rfl
  refine ⟨w₃, ?_, h₃⟩
  have hcreated : Relation.ReflTransGen (SchemaEvent site tenantId schemaId) emptyWorld
      (emptyWorld.apply (.commit [.insertSchema draft])) := .single (.create rfl hcreate)
  exact ((hcreated.tail (.call rfl rfl rfl hruns₁)).tail (.call rfl rfl rfl hruns₂)).tail
    (.call rfl rfl rfl hruns₃)

end Sample

/-- The first activation of a schema publishes it. -/
theorem activation_publishes_iff_first :
    ∃ w w' o, Relation.ReflTransGen (SchemaEvent Sample.site Sample.tenantId Sample.schemaId)
        Sample.emptyWorld w ∧
      RunsTo Sample.site w (.schema Sample.activateCall) w' (.schema (Sample.activateCall.goto (.done o))) ∧
      o = .returned ∧ Publishes Sample.schemaId w.db w'.db := by
  obtain ⟨w, hevents, hr⟩ := Sample.seeded
  obtain ⟨w', o, hruns, hiff, -⟩ := activation_publishes_iff (c := Sample.activateCall) rfl (List.forall_mem_nil _)
    hevents (schema?_of_find hr.find hr.tenant) (by decide) rfl rfl rfl rfl rfl rfl
  exact ⟨w, w', o, hevents, hruns, hiff.2 (by decide)⟩

/-- A schema is activated and its definition is changed: the next activation raises
    and publishes nothing. -/
theorem republish_raises :
    ∃ w row, Relation.ReflTransGen (SchemaEvent Sample.site Sample.tenantId Sample.schemaId)
        Sample.emptyWorld w ∧
      w.db.schema? Sample.tenantId Sample.schemaId = some row ∧ minSeedsForActivation ≤ row.seedCount ∧
      row.requiredFields = ["name", "total"] ∧
      ∀ w' o, RunsTo Sample.site w (.schema Sample.activateCall) w'
        (.schema (Sample.activateCall.goto (.done o))) → o = .raised ∧ w' = w := by
  obtain ⟨w, hevents, h₀⟩ := Sample.seeded
  obtain ⟨db₁, hdb₁, -, h₁⟩ := h₀.activate (le_refl 3) (by decide)
  have hactivate := h₀.move_read (c := Sample.activateCall) rfl rfl rfl rfl
  have hruns₁ := (finishes_schema_step (S := Sample.site) hactivate).2
    (finishes_commit_ok (c := Sample.activateCall) rfl hdb₁)
  obtain ⟨w₂, hruns₂, h₂⟩ := Registered.update_alone (S := Sample.site) (w := { w with db := db₁ })
    (c := Sample.editCall) h₁ rfl rfl rfl rfl (fun _ => rfl) (by decide +kernel)
  refine ⟨w₂, _, (hevents.tail (.call rfl rfl rfl hruns₁)).tail (.call rfl rfl rfl hruns₂),
    schema?_of_find h₂.find h₂.tenant, le_refl 3, rfl, fun w' o hruns => ?_⟩
  have hagain := h₂.move_read (c := Sample.activateCall) rfl rfl rfl rfl
  have hraised := (finishes_schema_step (S := Sample.site) hagain).2
    (finishes_commit_error (c := Sample.activateCall) (Or.inr ⟨_, h₂.activate_active rfl⟩))
  have hend := hruns.unique hraised
  simp only [Prod.mk.injEq, Task.schema.injEq, SchemaRequest.goto, SchemaRequest.mk.injEq, SchemaPc.done.injEq,
    true_and] at hend
  exact ⟨hend.2, hend.1⟩

end OcrService
