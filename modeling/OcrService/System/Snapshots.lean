/-
  The contract of a document is on record.

  A document is pinned to a version of its schema by number.  `activate_schema`
  snapshots the definition under that number and makes the schema active in one
  transaction, and only active schemas take documents; so the number always stands
  for one snapshot, whatever activations and updates are in flight.  A call may
  commit from an old copy of the row: if the stage of the schema has moved on
  since, the snapshot that the copy asks for is there already (`Latest`), and the
  transaction is refused.

  * `Db.versionsOf`: the snapshots of a version;
  * `Registry`: active schemas and documents have theirs, and there is one of each;
  * `pinned_on_record`: every run of the service.
-/
import OcrService.System.Activation
import OcrService.System.Pins

namespace OcrService

open Trans PyData

/-! ## Versions on record -/

namespace Db
variable (db : Db)

/-- The snapshots of version `n` of schema `σ`. -/
def versionsOf (σ : Uuid) (n : ℕ) : List SchemaVersion :=
  db.schemaVersions.filter fun v => v.schemaId = σ ∧ v.version = n

def HasVersion (σ : Uuid) (n : ℕ) : Prop := ∃ v ∈ db.schemaVersions, v.schemaId = σ ∧ v.version = n

/-- The status and the version of a schema. -/
def stage (σ : Uuid) : Option (SchemaStatus × ℕ) :=
  (Rows.find Schema.id db.schemas σ).map fun r => (r.status, r.currentVersion)

instance {σ : Uuid} {n : ℕ} : Decidable (db.HasVersion σ n) :=
  inferInstanceAs (Decidable (∃ v ∈ db.schemaVersions, _))

/-- Active schemas and documents have a snapshot of their version, and no version
    has two. -/
structure Registry : Prop where
  active : ∀ r ∈ db.schemas, r.status = .active → db.HasVersion r.id r.currentVersion
  documents : ∀ r ∈ db.documents, db.HasVersion r.schemaId r.schemaVersion
  once : ∀ σ n, (db.versionsOf σ n).length ≤ 1

/-- The snapshot that an activation of the copy asks for is there, or the schema is
    at the stage of the copy. -/
def Latest (copy : Schema) : Prop :=
  db.stage copy.id = some (copy.status, copy.currentVersion) ∨
    db.HasVersion copy.id (activateSchema copy).currentVersion

/-- What is on record in `db` is so in `db'`, and a schema that has moved on has
    been activated. -/
structure Records (db db' : Db) : Prop where
  versions : db.schemaVersions <+: db'.schemaVersions
  moved : ∀ σ, db'.stage σ = db.stage σ ∨ ∃ copy : Schema, copy.id = σ ∧
    db.stage σ = some (copy.status, copy.currentVersion) ∧
      db'.HasVersion σ (activateSchema copy).currentVersion

end Db

section
variable {S : Site} {w : World} {db db' db'' : Db} {ws : List Write} {x : Task} {σ : Uuid} {n : ℕ}

theorem Db.Records.refl : db.Records db := ⟨List.prefix_rfl, fun _ => Or.inl rfl⟩

theorem Db.Records.hasVersion (h : db.Records db') (hv : db.HasVersion σ n) : db'.HasVersion σ n := by
  obtain ⟨v, hmem, hkey⟩ := hv
  exact ⟨v, h.versions.subset hmem, hkey⟩

/-- A copy of before is one of after. -/
theorem Db.Latest.mono {copy : Schema} (h : db.Records db') (hl : db.Latest copy) : db'.Latest copy := by
  rcases hl with hl | hv
  · rcases h.moved copy.id with hsame | ⟨copy', hid, hstage, hv⟩
    · exact Or.inl (hsame.trans hl)
    · -- the activation was of a copy at the same stage
      obtain ⟨hst, hn⟩ := Prod.mk.inj (Option.some.inj (hl.symm.trans hstage))
      refine Or.inr ?_
      rwa [show (activateSchema copy).currentVersion = (activateSchema copy').currentVersion by
        simp only [activateSchema, hst, hn]]
  · exact Or.inr (h.hasVersion hv)

/-- No write adds a second snapshot of a version. -/
theorem once_apply {wr : Write} (ho : ∀ σ n, (db.versionsOf σ n).length ≤ 1) (h : wr.apply db = .ok db') :
    ∀ σ n, (db'.versionsOf σ n).length ≤ 1 := by
  cases performed_of_apply h with
  | @insertSchemaVersion row =>
    intro σ n
    by_cases hkey : row.schemaId = σ ∧ row.version = n
    · obtain ⟨hrefused, -⟩ := Write.apply_ok.1 h
      simp only [Write.refused] at hrefused
      split_ifs at hrefused with hschema hany
      have hnone : db.versionsOf σ n = [] := by
        refine List.filter_eq_nil_iff.2 fun v hv hp => hany ?_
        rw [List.any_eq_true]
        exact ⟨v, hv, by simpa [hkey] using hp⟩
      rw [Db.versionsOf, List.filter_append, show db.schemaVersions.filter _ = [] from hnone]
      simp [hkey]
    · simp only [Db.versionsOf]
      rw [List.filter_append, List.filter_cons_of_neg (by simpa using hkey), List.filter_nil,
        List.append_nil]
      exact ho σ n
  | _ => exact ho

/-- A write that concerns no schema. -/
def Write.KeepsSchemas : Write → Prop
  | .updateSchema _ _ | .insertSchema _ | .insertSchemaVersion _ => False
  | _ => True

theorem schemas_kept {wr : Write} (hw : wr.KeepsSchemas) (h : wr.apply db = .ok db') :
    db'.schemas = db.schemas ∧ db'.schemaVersions = db.schemaVersions := by
  cases performed_of_apply h with
  | updateSchema | insertSchema | insertSchemaVersion => exact hw.elim
  | _ => exact ⟨rfl, rfl⟩

/-- A row of a document with a contract on record. -/
def Write.Pinned (db : Db) : Write → Prop
  | .updateDocument _ new => db.HasVersion new.schemaId new.schemaVersion
  | .insertDocument row => db.HasVersion row.schemaId row.schemaVersion
  | _ => True

theorem documents_kept {wr : Write} (hw : wr.Pinned db)
    (hd : ∀ r ∈ db.documents, db.HasVersion r.schemaId r.schemaVersion) (h : wr.apply db = .ok db')
    (hversions : db'.schemaVersions = db.schemaVersions) :
    ∀ r ∈ db'.documents, db'.HasVersion r.schemaId r.schemaVersion := by
  have hv : ∀ {σ n}, db.HasVersion σ n → db'.HasVersion σ n := by
    intro σ n hv
    rwa [Db.HasVersion, hversions]
  intro r hr
  cases documents_apply h with
  | same hdocs => exact hv (hd r (hdocs ▸ hr))
  | @updated old new row hne hrow hver hdocs =>
    rw [hdocs] at hr
    rcases Rows.mem_replace hr with rfl | hr
    · exact hv hw
    · exact hv (hd r hr)
  | @inserted row hnew hdocs =>
    rw [hdocs] at hr
    rcases List.mem_append.1 hr with hr | hr
    · exact hv (hd r hr)
    · rw [List.mem_singleton.1 hr]
      exact hv hw
  | deleted hrow hdocs =>
    rw [hdocs] at hr
    exact hv (hd r (Rows.mem_delete.1 hr).1)

/-- **A transaction that concerns no schema.** -/
theorem registry_keeps (hr : db.Registry) (hws : ∀ wr ∈ ws, wr.KeepsSchemas ∧ wr.Pinned db)
    (h : db.commit ws = .ok db') : db'.Registry ∧ db.Records db' := by
  have hall : db'.Registry ∧ db'.schemas = db.schemas ∧ db'.schemaVersions = db.schemaVersions := by
    refine Db.commit_induction (P := fun db₁ => db₁.Registry ∧ db₁.schemas = db.schemas ∧
      db₁.schemaVersions = db.schemaVersions) h ⟨hr, rfl, rfl⟩ ?_
    rintro wr hwr db₁ db₂ ⟨hr₁, hschemas, hversions⟩ happly
    obtain ⟨hkeeps, hpinned⟩ := hws wr hwr
    obtain ⟨hschemas₂, hversions₂⟩ := schemas_kept hkeeps happly
    have hv : ∀ {σ n}, db₁.HasVersion σ n → db₂.HasVersion σ n := by
      intro σ n hv
      rwa [Db.HasVersion, hversions₂]
    have hpinned₁ : wr.Pinned db₁ := by
      cases wr with
      | updateDocument | insertDocument => rw [Write.Pinned, Db.HasVersion, hversions]; exact hpinned
      | _ => trivial
    refine ⟨⟨fun r hmem hact => hv (hr₁.active r (hschemas₂ ▸ hmem) hact),
      documents_kept hpinned₁ hr₁.documents happly hversions₂, once_apply hr₁.once happly⟩,
      hschemas₂.trans hschemas, hversions₂.trans hversions⟩
  obtain ⟨hr', hschemas, hversions⟩ := hall
  refine ⟨hr', hversions ▸ List.prefix_rfl, fun σ => Or.inl ?_⟩
  rw [Db.stage, hschemas, Db.stage]

/-- The stages after the update of a schema. -/
theorem stage_replace (db : Db) (new : Schema) {row : Schema} {k : Uuid}
    (hrow : Rows.find Schema.id db.schemas k = some row) (hid : new.id = k) (σ : Uuid) :
    ({ db with schemas := Rows.replace Schema.id db.schemas k new } : Db).stage σ =
      if σ = k then some (new.status, new.currentVersion) else db.stage σ := by
  split_ifs with h
  · subst h
    simp only [Db.stage, Rows.find_replace_self hrow hid, Option.map_some]
  · simp only [Db.stage, Rows.find_replace_other db.schemas hid (Ne.symm h)]

/-- **An update of the definition**, or of the seeds. -/
theorem registry_update {copy new : Schema} (hr : db.Registry)
    (h : Write.apply db (.updateSchema copy new) = .ok db') (hst : new.status = copy.status)
    (hv : new.currentVersion = copy.currentVersion) : db'.Registry ∧ db.Records db' := by
  have honce := once_apply hr.once h
  cases performed_of_apply h with
  | idle => exact ⟨hr, .refl⟩
  | @updateSchema old new row hrow =>
    have hid : row.id = copy.id := Rows.key_of_find hrow
    have hstatus : (row.merge copy new.stored).status = row.status := if_pos hst
    have hversion : (row.merge copy new.stored).currentVersion = row.currentVersion := if_pos hv
    refine ⟨⟨fun r hmem hact => ?_, hr.documents, honce⟩, List.prefix_rfl, fun σ => Or.inl ?_⟩
    · rcases Rows.mem_replace hmem with rfl | hmem
      · rw [hstatus] at hact
        have hversions := hr.active row (Rows.mem_of_find hrow) hact
        rw [← hversion] at hversions
        exact hversions
      · exact hr.active r hmem hact
    · rw [stage_replace db (row.merge copy new.stored) hrow hid, hstatus, hversion]
      split_ifs with hσ
      · simp only [Db.stage, hσ, hrow, Option.map_some]
      · rfl

/-- **An activation** goes through only from a copy at the stage of the schema. -/
theorem registry_activate {copy : Schema} (hr : db.Registry) (hl : db.Latest copy)
    (h : db.commit (activateWrites copy) = .ok db') : db'.Registry ∧ db.Records db' := by
  obtain ⟨db₁, hinsert, h₂⟩ := Db.commit_cons_ok.1 h
  have hupdate := commit_one.1 h₂
  have honce := once_apply (once_apply hr.once hinsert) hupdate
  obtain ⟨hrefused, rfl⟩ := Write.apply_ok.1 hinsert
  have hnew : ¬ db.HasVersion copy.id (activateSchema copy).currentVersion := by
    rintro ⟨v, hmem, hschema, hn⟩
    simp only [Write.refused] at hrefused
    split_ifs at hrefused with hknown hany
    refine hany (List.any_eq_true.2 ⟨v, hmem, ?_⟩)
    simp only [Bool.decide_and, Bool.and_eq_true, decide_eq_true_eq]
    exact ⟨hschema, hn⟩
  have hstage := hl.resolve_right hnew
  have hsnap (db' : Db) (hversions : db'.schemaVersions = db.schemaVersions ++ [schemaSnapshot copy]) :
      db'.HasVersion copy.id (activateSchema copy).currentVersion ∧
        ∀ {σ n}, db.HasVersion σ n → db'.HasVersion σ n := by
    refine ⟨⟨schemaSnapshot copy, ?_, rfl, rfl⟩, ?_⟩
    · rw [hversions]
      exact List.mem_append_right _ (List.mem_singleton_self _)
    · rintro σ n ⟨v, hv, hkey⟩
      refine ⟨v, ?_, hkey⟩
      rw [hversions]
      exact List.mem_append_left _ hv
  cases performed_of_apply hupdate with
  | idle =>
    obtain ⟨-, hmono⟩ := hsnap ((Write.insertSchemaVersion (schemaSnapshot copy)).perform db) rfl
    exact ⟨⟨fun r hmem hact => hmono (hr.active r hmem hact), fun r hmem => hmono (hr.documents r hmem),
      honce⟩, List.prefix_append _ _, fun σ => Or.inl rfl⟩
  | @updateSchema old new row hrow =>
    obtain ⟨hhas, hmono⟩ := hsnap { (Write.insertSchemaVersion (schemaSnapshot copy)).perform db with
      schemas := Rows.replace Schema.id db.schemas copy.id
        (row.merge copy (activateSchema copy).stored) } rfl
    have hid : row.id = copy.id := Rows.key_of_find hrow
    have hrow' : row.status = copy.status ∧ row.currentVersion = copy.currentVersion := by
      have hfind : Rows.find Schema.id db.schemas copy.id = some row := hrow
      rw [Db.stage, hfind, Option.map_some] at hstage
      exact Prod.mk.inj (Option.some.inj hstage)
    have hversion : (row.merge copy (activateSchema copy).stored).currentVersion =
        (activateSchema copy).currentVersion := by
      simp only [Schema.merge, Schema.stored, hrow'.2]
      split_ifs with hsame
      · exact hsame.symm
      · rfl
    refine ⟨⟨fun r hmem hact => ?_, fun r hmem => hmono (hr.documents r hmem), honce⟩,
      List.prefix_append _ _, fun σ => ?_⟩
    · rcases Rows.mem_replace hmem with rfl | hmem
      · rw [hversion, show (row.merge copy (activateSchema copy).stored).id = copy.id from hid]
        exact hhas
      · exact hmono (hr.active r hmem hact)
    · by_cases hσ : σ = copy.id
      · exact Or.inr ⟨copy, hσ.symm, hσ ▸ hstage, hσ ▸ hhas⟩
      · refine Or.inl ?_
        have hother := stage_replace ((Write.insertSchemaVersion (schemaSnapshot copy)).perform db)
          (row.merge copy (activateSchema copy).stored) hrow hid σ
        rw [if_neg hσ] at hother
        exact hother

end

/-! ## Copies over await points -/

/-- The version that a document of an ingest is pinned to is on record. -/
def ExtractRequest.Follows (db : Db) (x : ExtractRequest) : Prop :=
  match x.pc with
  | .saveBlob document | .commit document => db.HasVersion document.schemaId document.schemaVersion
  | .readTenant | .acquire _ | .create | .enqueue | .release _ | .done _ => True

/-- A schema call commits what it makes of a copy that is the latest. -/
def SchemaRequest.Follows (db : Db) (c : SchemaRequest) : Prop :=
  match c.pc with
  | .upsert schema _ => db.Latest schema ∧ ∃ expectedJson, c.call = .addSeed expectedJson
  | .commit ws => ∃ schema, db.Latest schema ∧ c.MakesOf schema ws
  | .read | .done _ => True

/-- The copies that a task goes by. -/
def Task.Follows (db : Db) : Task → Prop
  | .extract x => x.Follows db
  | .schema c => c.Follows db
  | .run _ | .webhook _ | .erase _ | .review _ | .retry _ => True

/-- Documents that are read have their version on record. -/
def Known.onRecord (db : Db) : Known :=
  .documents (fun row => db.HasVersion row.schemaId row.schemaVersion)
    (fun row => db.HasVersion row.schemaId row.schemaVersion)

section
variable {S : Site} {w : World} {db db' : Db} {ws : List Write} {x : Task}

theorem Task.Follows.mono (h : db.Records db') (hx : x.Follows db) : x.Follows db' := by
  cases x with
  | extract x =>
    show x.Follows db'
    replace hx : x.Follows db := hx
    unfold ExtractRequest.Follows at hx ⊢
    cases hpc : x.pc <;> simp only [hpc] at hx ⊢ <;> exact h.hasVersion hx
  | schema c =>
    show c.Follows db'
    replace hx : c.Follows db := hx
    unfold SchemaRequest.Follows at hx ⊢
    cases hpc : c.pc <;> simp only [hpc] at hx ⊢
    case upsert => exact ⟨hx.1.mono h, hx.2⟩
    case commit =>
      obtain ⟨schema, hl, hmakes⟩ := hx
      exact ⟨schema, hl.mono h, hmakes⟩
  | _ => trivial

theorem Task.Fresh.follows (h : x.Fresh) : x.Follows db := by
  cases x <;> simp_all [Task.Fresh, Task.Follows, ExtractRequest.Follows, SchemaRequest.Follows]

theorem Known.onRecord_le (h : db.Records db') : (Known.onRecord db).Le (Known.onRecord db') :=
  Known.documents_le (fun _ => h.hasVersion) (fun _ => h.hasVersion)

theorem reads_onRecord (hr : w.db.Registry) : x.Reads (Known.onRecord w.db) w :=
  reads_documents (fun _ _ row hrow => hr.documents row (mem_of_document? hrow))
    (fun _ _ row _ hrow => hr.documents row (mem_of_document? hrow))

/-- A schema that takes documents has its version on record. -/
theorem createDocument_onRecord {t d : Uuid} {u : Upload} {document : Document} (hr : db.Registry)
    (h : createDocument S db t d u = .ok document) :
    db.HasVersion document.schemaId document.schemaVersion := by
  unfold createDocument resolveActiveSchema at h
  split at h
  · cases h
  · cases hfind : db.schemas.find? fun r => r.tenantId = t ∧ r.name = u.schemaName ∧ r.status = .active with
    | none => rw [hfind] at h; cases h
    | some schema =>
      rw [hfind] at h
      cases h
      have hactive := List.find?_some hfind
      simp only [decide_eq_true_eq] at hactive
      exact hr.active schema (List.mem_of_find?_eq_some hfind) hactive.2.2

theorem ExtractRequest.move_follows {x : ExtractRequest} (hr : w.db.Registry) (h : x.Follows w.db) :
    (x.move S w).task.Follows w.db := by
  unfold ExtractRequest.Follows at h
  cases hpc : x.pc <;> simp only [hpc] at h <;> simp only [ExtractRequest.move, hpc]
  case create =>
    cases hdoc : createDocument S w.db x.tenantId x.documentId x.upload with
    | error e => trivial
    | ok document =>
      dsimp only
      split_ifs
      · trivial
      · exact createDocument_onRecord hr hdoc
  case saveBlob document => split_ifs <;> [trivial; exact h]
  case done o => simp only [ExtractRequest.Follows, hpc]
  all_goals
    repeat' split
    all_goals trivial

theorem SchemaRequest.move_follows {c : SchemaRequest} (h : c.Follows w.db) :
    (c.move w).task.Follows w.db := by
  unfold SchemaRequest.Follows at h
  cases hpc : c.pc <;> simp only [hpc] at h <;> simp only [SchemaRequest.move, hpc]
  case read =>
    split_ifs
    · trivial
    · cases hrow : w.db.schema? c.tenantId c.schemaId with
      | none => trivial
      | some schema =>
        have hlatest : w.db.Latest schema := by
          have hfind := (Option.filter_eq_some_iff.1 hrow).1
          rw [← (schema?_eq hrow).1] at hfind
          exact Or.inl (congrArg (Option.map _) hfind)
        show (c.goto (c.begin schema)).Follows w.db
        rcases c.begin_cases schema with hbegin | ⟨ws, hbegin⟩ | ⟨e, hcall, hbegin⟩ <;> rw [hbegin]
        · trivial
        · exact ⟨schema, hlatest, Or.inl hbegin⟩
        · exact ⟨hlatest, e, hcall⟩
  case upsert schema e =>
    split_ifs
    · trivial
    · obtain ⟨hlatest, e', hcall⟩ := h
      exact ⟨schema, hlatest, Or.inr ⟨e', hcall, rfl⟩⟩
  case commit ws =>
    split_ifs
    · trivial
    · cases w.db.commit ws <;> trivial
  case done o => simp only [SchemaRequest.Follows, hpc]

theorem Task.move_follows (hr : w.db.Registry) (h : x.Follows w.db) : (x.move S w).task.Follows w.db := by
  cases x with
  | extract x => exact ExtractRequest.move_follows hr h
  | schema c => exact SchemaRequest.move_follows h
  | _ => trivial

/-! ## Every transaction -/

/-- What a schema call commits. -/
theorem registry_schema {c : SchemaRequest} {schema : Schema} (hr : db.Registry) (hl : db.Latest schema)
    (hmakes : c.MakesOf schema ws) (h : db.commit ws = .ok db') : db'.Registry ∧ db.Records db' := by
  rcases hmakes with hbegin | ⟨e, -, rfl⟩
  · unfold SchemaRequest.begin at hbegin
    cases hcall : c.call with
    | update payload =>
      simp only [hcall] at hbegin
      cases hbegin
      exact registry_update hr (commit_one.1 h) rfl rfl
    | addSeed e =>
      simp only [hcall] at hbegin
      cases hbegin
    | activate =>
      simp only [hcall] at hbegin
      split_ifs at hbegin
      cases hbegin
      exact registry_activate hr hl h
  · exact registry_update hr (commit_one.1 h) rfl rfl

/-- What a task that works on documents writes. -/
theorem pinned_prepared (hschema : ∀ c, x ≠ .schema c)
    (hcreate : ∀ y document, x = .extract y → ws = createWrites document →
      db.HasVersion document.schemaId document.schemaVersion)
    (h : Prepared S (Known.onRecord db) x ws) : ∀ wr ∈ ws, wr.KeepsSchemas ∧ wr.Pinned db := by
  intro wr hwr
  constructor
  · cases h.written hwr with
    | persist _ _ _ _ _ h => cases h <;> trivial
    | webhook h => cases wr <;> first | exact h | trivial
    | updateSchema | snapshot | activate | seed => exact absurd rfl (hschema _)
    | _ => trivial
  · rcases h.update with ⟨document, rfl⟩ | hupdates
    · have hinsert : .insertDocument document ∈ createWrites document := List.mem_cons_self
      obtain ⟨⟨y, hy⟩, -⟩ := h.create_of_insert hinsert
      have hv := hcreate y document hy rfl
      simp only [createWrites, List.mem_cons, List.not_mem_nil, or_false] at hwr
      rcases hwr with rfl | rfl <;> exact hv
    · cases wr with
      | updateDocument old new =>
        obtain ⟨-, hpins, hstatus⟩ := hupdates old new hwr
        have hold : db.HasVersion old.schemaId old.schemaVersion := by
          cases hstatus with
          | persist hk _ | cancel hk _ => exact hk
          | reset hk => exact hk
        simp only [Document.pins, Prod.mk.injEq] at hpins
        rw [Write.Pinned, hpins.2.1, hpins.2.2]
        exact hold
      | insertDocument row =>
        obtain ⟨⟨y, hy⟩, hws⟩ := h.create_of_insert hwr
        exact hcreate y row hy hws
      | _ => trivial

/-- **One step.** -/
theorem registry_move (hr : w.db.Registry) (hholds : x.Holds S (Known.onRecord w.db))
    (hfollows : x.Follows w.db) :
    (w.apply (x.move S w).change).db.Registry ∧ w.db.Records (w.apply (x.move S w).change).db := by
  rcases World.db_apply (w := w) (x.move S w).change with hdb | ⟨ws, hc, hdb⟩
  · rw [hdb]
    exact ⟨hr, .refl⟩
  have hprepared := (Task.move_holds hholds (reads_onRecord hr)).2 ws hc
  by_cases hschema : ∃ c, x = .schema c
  · obtain ⟨c, rfl⟩ := hschema
    have hpc := (SchemaRequest.change_commit hc).1
    replace hfollows : c.Follows w.db := hfollows
    rw [SchemaRequest.Follows, hpc] at hfollows
    obtain ⟨schema, hl, hmakes⟩ := hfollows
    exact registry_schema hr hl hmakes hdb
  · have hcreate (y : ExtractRequest) (document : Document) (hx : x = .extract y)
        (hws : ws = createWrites document) : w.db.HasVersion document.schemaId document.schemaVersion := by
      subst hx
      obtain ⟨document', hpc, hws'⟩ := ExtractRequest.change_commit hc
      replace hfollows : y.Follows w.db := hfollows
      rw [ExtractRequest.Follows, hpc] at hfollows
      cases hws.symm.trans hws'
      exact hfollows
    exact registry_keeps hr (pinned_prepared (fun c hx => hschema ⟨c, hx⟩) hcreate hprepared) hdb

/-- What a task holds and goes by. -/
structure Task.Abides (S : Site) (db : Db) (x : Task) : Prop where
  holds : x.Holds S (Known.onRecord db)
  follows : x.Follows db

theorem Task.Fresh.abides (h : x.Fresh) : x.Abides S db := ⟨h.holds, h.follows⟩

theorem Task.Abides.mono (h : db.Records db') (hx : x.Abides S db) : x.Abides S db' :=
  ⟨hx.holds.mono (Known.onRecord_le h), hx.follows.mono h⟩

theorem reach_registry {db₀ : Db} {ok : System → ℕ → Prop} {q q' : System} (hr : q.shared.db.Registry)
    (hold₀ : db₀.schemaVersions <+: q.shared.db.schemaVersions)
    (habides : ∀ x ∈ q.tasks, x.Abides S q.shared.db) (h : Reach (System.step S) ok q q') :
    (q'.shared.db.Registry ∧ db₀.schemaVersions <+: q'.shared.db.schemaVersions) ∧
      ∀ x ∈ q'.tasks, x.Abides S q'.shared.db := by
  refine Pool.reach_invariant (G := fun w => w.db.Registry ∧ db₀.schemaVersions <+: w.db.schemaVersions)
    (L := fun w x => x.Abides S w.db) (fun p i x hG hx _ _ => ?_) (fun p i x hG hx _ _ u hu => ?_) h
    ⟨hr, hold₀⟩ habides
  · obtain ⟨hr', hrec⟩ := registry_move hG.1 hx.holds hx.follows
    refine ⟨⟨hr', hG.2.trans hrec.versions⟩, ?_, fun u hu => (Task.spawned_fresh hu).abides⟩
    refine Task.Abides.mono hrec ⟨(Task.move_holds hx.holds (reads_onRecord hG.1)).1, ?_⟩
    exact Task.move_follows hG.1 hx.follows
  · exact hu.mono (registry_move hG.1 hx.holds hx.follows).2

/-- A version on record has one snapshot. -/
theorem Db.Registry.versionsOf_eq {σ : Uuid} {n : ℕ} (hr : db.Registry) (hv : db.HasVersion σ n) :
    ∃ v, db.versionsOf σ n = [v] := by
  obtain ⟨v, hmem, hkey⟩ := hv
  have hpos : 0 < (db.versionsOf σ n).length :=
    List.length_pos_of_mem (List.mem_filter.2 ⟨hmem, by simpa using hkey⟩)
  exact List.length_eq_one_iff.1 (le_antisymm (hr.once σ n) hpos)

/-- A snapshot on record stays the one of its version. -/
theorem versionsOf_kept {σ : Uuid} {n : ℕ} {v : SchemaVersion} (hr : db'.Registry)
    (h : db.schemaVersions <+: db'.schemaVersions) (hv : db.versionsOf σ n = [v]) :
    db'.versionsOf σ n = [v] := by
  have hold₀ : db.versionsOf σ n <+: db'.versionsOf σ n := h.filter _
  rw [hv] at hold₀
  exact (hold₀.eq_of_length_le (hr.once σ n)).symm

/-- The row of a document keeps its pins. -/
theorem pins_kept {ok : System → ℕ → Prop} {q₀ q q' : System} {row row' : Document}
    (hkeys : PinsAgree row.id q₀.shared.db) (hfresh : ∀ x ∈ q₀.tasks, x.Fresh)
    (hreach : Reach (System.step S) ok q₀ q) (hrow : row ∈ q.shared.db.documents)
    (h : Reach (System.step S) ok q q') (hrow' : row' ∈ q'.shared.db.documents) (hid : row'.id = row.id) :
    row'.pins = row.pins := by
  obtain ⟨hagree, hholds⟩ := pins_agree hkeys hfresh hreach
  have hlater := reach_known
    (G := fun w => PinsAgree row.id w.db ∧ Agree row.id w.db row) (κ := fun w => Known.agree row.id w.db)
    (fun _ _ _ hG _ _ _ => reads_agree hG.1)
    (fun _ _ _ hG _ _ _ hcommit =>
      have hstep := agree_step hG.1 hcommit
      ⟨⟨hstep.1, hstep.2 row hG.2⟩, Known.agree_le hstep.2⟩)
    h ⟨hagree, hagree.agree row hrow rfl⟩ hholds
  exact hlater.1.2.pins row' hrow' hid

/-- **The contract of a document is on record**, and it is one and the same as long as
    the document is there: whatever activations and updates are in flight, the version
    that it is pinned to has one snapshot. -/
theorem pinned_on_record {ok : System → ℕ → Prop} {q₀ q q' : System} (hr : q₀.shared.db.Registry)
    (hkeys : ∀ d, PinsAgree d q₀.shared.db) (hfresh : ∀ x ∈ q₀.tasks, x.Fresh)
    (hreach : Reach (System.step S) ok q₀ q) (h : Reach (System.step S) ok q q') :
    (∀ σ ∈ q.shared.db.schemas, σ.status = .active →
      ∃ v, q.shared.db.versionsOf σ.id σ.currentVersion = [v]) ∧
      ∀ row ∈ q.shared.db.documents, ∃ v,
        q.shared.db.versionsOf row.schemaId row.schemaVersion = [v] ∧
          ∀ row' ∈ q'.shared.db.documents, row'.id = row.id →
            q'.shared.db.versionsOf row'.schemaId row'.schemaVersion = [v] := by
  obtain ⟨⟨hreg, -⟩, habides⟩ :=
    reach_registry hr List.prefix_rfl (fun x hx => (hfresh x hx).abides) hreach
  obtain ⟨⟨hreg', hold₀⟩, -⟩ := reach_registry hreg List.prefix_rfl habides h
  refine ⟨fun σ hσ hactive => hreg.versionsOf_eq (hreg.active σ hσ hactive), fun row hrow => ?_⟩
  obtain ⟨v, hv⟩ := hreg.versionsOf_eq (hreg.documents row hrow)
  refine ⟨v, hv, fun row' hrow' hid => ?_⟩
  have hpins := pins_kept (hkeys row.id) hfresh hreach hrow h hrow' hid
  simp only [Document.pins, Prod.mk.injEq] at hpins
  rw [hpins.2.1, hpins.2.2]
  exact versionsOf_kept hreg' hold₀ hv

end

namespace Sample

/-- The schema with its seeds, before its activation. -/
def seededDraft : Schema := { schema [] with status := .draft, seedCount := minSeedsForActivation }

def seededWorld : World where
  db := { (world []).db with schemas := [seededDraft], documents := [] }

/-- Two activations and an ingest. -/
def activations : System where
  shared := seededWorld
  tasks := [.schema activateCall, .extract extract, .schema activateCall]

theorem activations_registry : activations.shared.db.Registry where
  active σ hσ hactive := by
    rw [List.mem_singleton.1 hσ] at hactive
    cases hactive
  documents row hrow := nomatch hrow
  once σ n := Nat.zero_le _

theorem activations_pins (d : Uuid) : PinsAgree d activations.shared.db where
  issued _ hrow := absurd hrow List.not_mem_nil
  agree _ hrow := absurd hrow List.not_mem_nil

end Sample

/-- The document is created between the commits of two activations that both read the
    schema before: the second one is refused. -/
theorem pinned_on_record_sample :
    ∃ q q' row, Reach (System.step Sample.site) (fun _ _ => True) Sample.activations q ∧
      Reach (System.step Sample.site) (fun _ _ => True) q q' ∧ row ∈ q.shared.db.documents ∧
      ∃ v, q.shared.db.versionsOf row.schemaId row.schemaVersion = [v] ∧
        ∀ row' ∈ q'.shared.db.documents, row'.id = row.id →
          q'.shared.db.versionsOf row'.schemaId row'.schemaVersion = [v] := by
  have hfresh : ∀ x ∈ Sample.activations.tasks, x.Fresh := by
    intro x hx
    simp only [Sample.activations, List.mem_cons, List.not_mem_nil, or_false] at hx
    rcases hx with rfl | rfl | rfl <;> rfl
  have hrun : (exec (System.step Sample.site) Sample.activations [0, 2, 0, 1, 1, 1, 1, 1]).bind
      (fun q => (exec (System.step Sample.site) q [2]).map fun q' =>
        (q.shared.db.documents.length, q'.shared.db.documents.length)) = some (1, 1) := by decide +kernel
  obtain ⟨q, hq, hq'⟩ := Option.bind_eq_some_iff.1 hrun
  obtain ⟨q', hq', hlen⟩ := Option.map_eq_some_iff.1 hq'
  obtain ⟨row, hrow⟩ := List.length_eq_one_iff.1 (Prod.mk.inj hlen).1
  have hmem : row ∈ q.shared.db.documents := hrow ▸ List.mem_singleton_self row
  have hreach := reach_of_exec hq
  have hreach' := reach_of_exec hq'
  refine ⟨q, q', row, hreach, hreach', hmem, ?_⟩
  exact (pinned_on_record Sample.activations_registry Sample.activations_pins hfresh hreach
    hreach').2 row hmem

end OcrService
