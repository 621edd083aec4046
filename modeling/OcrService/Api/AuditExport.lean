/-
  `GET /audit/export` (`app/api/routers/audit.py`): the audit trail of a tenant
  over a range of dates, as NDJSON or CSV.

  `audit_export`: a CSV export reads back as the rows asked for, except that a
  missing actor, status or hash is the same there as an empty one; an NDJSON
  export tells these apart too.
-/
import OcrService.Db.Session
import OcrService.Domain.UuidText
import OcrService.Lib.Csv
import OcrService.Lib.Datetime
import OcrService.Lib.JsonLines

namespace OcrService

open PyData PyDatetime

/-- A row of `audit_log`, with the columns that the database fills in. -/
structure AuditRow where
  id : Uuid
  log : AuditLog
  createdAt : Datetime
  deriving DecidableEq

inductive ExportFormat
  | ndjson | csv
  deriving DecidableEq

/-! ## The export -/

/-- `_COLUMNS` -/
def exportColumns : List String :=
  ["id", "document_id", "event_type", "actor", "status", "payload_hash", "created_at"]

namespace AuditRow

/-- `_row_values` -/
def rowValues (row : AuditRow) : Flat :=
  [("id", some row.id.str), ("document_id", row.log.documentId.map Uuid.str),
    ("event_type", some row.log.eventType), ("actor", row.log.actor), ("status", row.log.status),
    ("payload_hash", row.log.payloadHash), ("created_at", some row.createdAt.isoformat)]

/-- The row is one of tenant `t`, whose session selects it, and within the bounds
    of `_build_query`, which are compared as instants. -/
def Asked (t : Uuid) (start stop : Option Datetime) (row : AuditRow) : Prop :=
  row.log.tenantId = t ∧ (∀ d ∈ start, d ≤ row.createdAt) ∧ ∀ d ∈ stop, row.createdAt ≤ d

instance (t : Uuid) (start stop : Option Datetime) (row : AuditRow) :
    Decidable (row.Asked t start stop) := inferInstanceAs (Decidable (_ ∧ _ ∧ _))

/-- The record that `writerow` gets; it writes `None` as the empty text. -/
def cells (row : AuditRow) : List (List Char) :=
  exportColumns.map fun c => ((row.rowValues.lookup c).join.getD "").toList

/-- A line of an NDJSON export. -/
def line (row : AuditRow) : List Char := dumpsLine row.rowValues

end AuditRow

/-- `_stream_rows` of `_build_query`: what the database may answer, since rows of
    one instant come in any order. -/
structure Answers (t : Uuid) (start stop : Option Datetime) (log rows : List AuditRow) : Prop where
  perm : rows.Perm (log.filter (AuditRow.Asked t start stop ·))
  sorted : rows.Pairwise fun r r' => r.createdAt ≤ r'.createdAt

/-- The body of the response of `export_audit`, for the rows streamed. -/
def exportAudit : ExportFormat → List AuditRow → List Char
  | .csv, rows => Csv.record (exportColumns.map String.toList) ++ rows.flatMap (Csv.record ·.cells)
  | .ndjson, rows => rows.flatMap AuditRow.line

/-! ## What a row has in an export -/

namespace AuditRow
variable {row row' : AuditRow}

/-- The fields of a row that an NDJSON export has. -/
def exported (row : AuditRow) : Uuid × Option Uuid × String × Option String × Option String ×
    Option String × Datetime :=
  (row.id, row.log.documentId, row.log.eventType, row.log.actor, row.log.status, row.log.payloadHash,
    row.createdAt)

/-- The fields of a row that a CSV export has. -/
def blanked (row : AuditRow) : Uuid × Option Uuid × String × String × String × String × Datetime :=
  (row.id, row.log.documentId, row.log.eventType, row.log.actor.getD "", row.log.status.getD "",
    row.log.payloadHash.getD "", row.createdAt)

theorem cells_eq (row : AuditRow) : row.cells =
    [row.id.str.toList, ((row.log.documentId.map Uuid.str).getD "").toList, row.log.eventType.toList,
      (row.log.actor.getD "").toList, (row.log.status.getD "").toList,
      (row.log.payloadHash.getD "").toList, row.createdAt.isoformat.toList] := rfl

/-- The text of a UUID is not empty, so that none is told from any. -/
theorem documentCell_injective :
    Function.Injective fun d : Option Uuid => ((d.map Uuid.str).getD "").toList := by
  have hne (u : Uuid) : u.str ≠ "" := fun h => by simpa [h] using u.length_str
  intro d d' h
  have h : (d.map Uuid.str).getD "" = (d'.map Uuid.str).getD "" := String.toList_inj.1 h
  cases d with
  | none =>
    cases d' with
    | none => rfl
    | some u => exact absurd h.symm (hne u)
  | some u =>
    cases d' with
    | none => exact absurd h (hne u)
    | some v => exact congrArg some (Uuid.str_injective h)

theorem cells_eq_iff : row.cells = row'.cells ↔ row.blanked = row'.blanked := by
  simp only [cells_eq, blanked, List.cons.injEq, Prod.mk.injEq, String.toList_inj, and_true,
    documentCell_injective.eq_iff, Uuid.str_injective.eq_iff, Datetime.isoformat_injective.eq_iff]

theorem rowValues_eq_iff : row.rowValues = row'.rowValues ↔ row.exported = row'.exported := by
  simp only [rowValues, exported, List.cons.injEq, Prod.mk.injEq, Option.some.injEq, true_and, and_true,
    (Option.map_injective Uuid.str_injective).eq_iff, Uuid.str_injective.eq_iff,
    Datetime.isoformat_injective.eq_iff]

end AuditRow

/-! ## What an export tells -/

/-- Lists whose elements agree in `f` agree in what `f` determines. -/
theorem map_eq_map {α β γ : Type*} {f : α → β} {g : α → γ} (hfg : ∀ a b, f a = f b → g a = g b) :
    ∀ {l m : List α}, l.map f = m.map f → l.map g = m.map g
  | [], [], _ => rfl
  | [], _ :: _, h => absurd h.symm (List.cons_ne_nil _ _)
  | _ :: _, [], h => absurd h (List.cons_ne_nil _ _)
  | a :: l, b :: m, h => by
    obtain ⟨hab, hlm⟩ := List.cons.inj h
    rw [List.map_cons, List.map_cons, hfg a b hab, map_eq_map hfg hlm]

section
variable {t : Uuid} {start stop : Option Datetime} {log rows rows' : List AuditRow}

theorem exportAudit_csv (rows : List AuditRow) : exportAudit .csv rows =
    Csv.record (exportColumns.map String.toList) ++ (rows.map AuditRow.cells).flatMap Csv.record := by
  rw [List.flatMap_map, exportAudit]

/-- **A CSV export reads back** as the columns and the cells of every row. -/
theorem read_exportAudit (rows : List AuditRow) : Csv.read (exportAudit .csv rows) =
    exportColumns.map String.toList :: rows.map AuditRow.cells := by
  rw [exportAudit_csv, Csv.read_record, Csv.read_records]

theorem exportAudit_csv_eq_iff :
    exportAudit .csv rows = exportAudit .csv rows' ↔ rows.map AuditRow.blanked = rows'.map AuditRow.blanked := by
  constructor
  · intro h
    have hread := congrArg Csv.read h
    rw [read_exportAudit, read_exportAudit] at hread
    exact map_eq_map (fun _ _ => AuditRow.cells_eq_iff.1) (List.cons.inj hread).2
  · intro h
    have hcells := map_eq_map (fun _ _ => AuditRow.cells_eq_iff.2) h
    rw [exportAudit_csv, exportAudit_csv, hcells]

theorem exportAudit_ndjson (rows : List AuditRow) :
    exportAudit .ndjson rows = (rows.map AuditRow.rowValues).flatMap dumpsLine := by
  rw [List.flatMap_map]
  rfl

theorem exportAudit_ndjson_eq_iff :
    exportAudit .ndjson rows = exportAudit .ndjson rows' ↔
      rows.map AuditRow.exported = rows'.map AuditRow.exported := by
  rw [exportAudit_ndjson, exportAudit_ndjson, lines_injective.eq_iff]
  exact ⟨map_eq_map fun _ _ => AuditRow.rowValues_eq_iff.1, map_eq_map fun _ _ => AuditRow.rowValues_eq_iff.2⟩

theorem count_exportAudit (rows : List AuditRow) :
    (exportAudit .ndjson rows).count Csv.lf = rows.length := by
  rw [exportAudit_ndjson, ← List.length_map AuditRow.rowValues]
  exact count_lines _

/-- **The audit export.**  A CSV export reads back as the rows of the tenant within
    the bounds, each as often as the log has it; without bounds these are all its
    rows of `audit_log`.  Other rows have the same CSV export iff they are the same
    but for `None` in place of the empty text, and the same NDJSON export iff all
    exported fields are the same.  An NDJSON export has a line for each row. -/
theorem audit_export (db : Db) (h : Answers t start stop log rows)
    (hlog : log.map AuditRow.log = db.auditLog) :
    (∃ records, Csv.read (exportAudit .csv rows) = exportColumns.map String.toList :: records ∧
      records.Perm ((log.filter (AuditRow.Asked t start stop ·)).map AuditRow.cells)) ∧
    (start = none → stop = none →
      (rows.map AuditRow.log).Perm (db.auditLog.filter (AuditLog.tenantId · = t))) ∧
    ∀ rows', (exportAudit .csv rows' = exportAudit .csv rows ↔
        rows'.map AuditRow.blanked = rows.map AuditRow.blanked) ∧
      (exportAudit .ndjson rows' = exportAudit .ndjson rows ↔
        rows'.map AuditRow.exported = rows.map AuditRow.exported) ∧
      (exportAudit .ndjson rows').count Csv.lf = rows'.length := by
  refine ⟨⟨rows.map AuditRow.cells, read_exportAudit rows, h.perm.map _⟩, ?_, fun rows' =>
    ⟨exportAudit_csv_eq_iff, exportAudit_ndjson_eq_iff, count_exportAudit rows'⟩⟩
  rintro rfl rfl
  have hasked : ∀ row : AuditRow, decide (row.Asked t none none) = decide (row.log.tenantId = t) := by
    simp [AuditRow.Asked]
  have hperm := h.perm.map AuditRow.log
  simp only [hasked] at hperm
  rwa [← hlog, List.filter_map]

/-- An event whose actor has a comma, a quote and a line break, and two others. -/
def exportLog : List AuditRow :=
  [{ id := 7, log := ⟨1, some 3, "REVIEW_CORRECTED", some "Doe, \"J\"\r\n", some "DELIVERED", none, none⟩,
     createdAt := { year := 2026, month := 2, day := 28, hour := 9 } },
    { id := 8, log := ⟨2, some 4, "PIPELINE_COMPLETED", none, some "COMPLETED", some "ab", none⟩,
      createdAt := { year := 2026, month := 2, day := 1 } },
    { id := 9, log := ⟨1, none, "PIPELINE_COMPLETED", none, none, some "cd", none⟩,
      createdAt := { year := 2026, month := 2, day := 27, hour := 23, microsecond := 50 } }]

theorem audit_export_sample : ∃ rows : List AuditRow,
    Answers 1 none none exportLog rows ∧ rows.map AuditRow.id = [9, 7] ∧
    (∃ records, Csv.read (exportAudit .csv rows) = exportColumns.map String.toList :: records ∧
      records.length = 2) ∧
    -- an empty actor in place of none
    ∃ rows', exportAudit .csv rows' = exportAudit .csv rows ∧ exportAudit .ndjson rows' ≠ exportAudit .ndjson rows := by
  have hanswers : Answers 1 none none exportLog [exportLog[2], exportLog[0]] :=
    ⟨by decide, by decide⟩
  obtain ⟨⟨records, hread, hperm⟩, -, htell⟩ :=
    audit_export { auditLog := exportLog.map AuditRow.log } hanswers rfl
  obtain ⟨hcsv, hndjson, -⟩ :=
    htell [{ exportLog[2] with log := { exportLog[2].log with actor := some "" } }, exportLog[0]]
  refine ⟨_, hanswers, rfl, ⟨records, hread, hperm.length_eq⟩, _, hcsv.2 rfl, fun h => ?_⟩
  have hactor := congrArg (·.2.2.2.1) (List.cons.inj (hndjson.1 h)).1
  exact Option.some_ne_none _ hactor

end

end OcrService
