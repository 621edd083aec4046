/-
  Ingest (`app/services/ingest.py`): validation of an upload, the active
  schema, and the document row pinned to that schema's current version.
-/
import OcrService.World

namespace OcrService

open PyData

/-- An uploaded file with the form fields of `POST /extract`. -/
structure Upload where
  schemaName : String
  fileName : Option String
  content : Bytes
  mimeType : Option String
  isDryRun : Bool := false

/-- The subclasses of `IngestError`. -/
inductive IngestError
  | emptyFile | fileTooLarge | unsupportedMediaType | unknownSchema
  deriving DecidableEq

/-- `validate_upload`. -/
def validateUpload (S : Site) (content : Bytes) (mimeType : Option String) : Except IngestError Unit :=
  if content = [] then .error .emptyFile
  else if S.maxFileSizeBytes < content.length then .error .fileTooLarge
  else match mimeType with
    | some m => if m ∈ S.allowedMimeTypes then .ok () else .error .unsupportedMediaType
    | none => .error .unsupportedMediaType

/-- `_resolve_active_schema`. -/
def resolveActiveSchema (db : Db) (tenantId : Uuid) (schemaName : String) : Except IngestError Schema :=
  match db.schemas.find? fun r =>
      r.tenantId = tenantId ∧ r.name = schemaName ∧ r.status = .active with
  | none => .error .unknownSchema
  | some schema => .ok schema

/-- The row that `create_document` inserts; it pins the schema's current version. -/
def newDocument (tenantId documentId : Uuid) (schema : Schema) (u : Upload) : Document where
  id := documentId
  tenantId := tenantId
  schemaId := schema.id
  schemaVersion := schema.currentVersion
  fileName := u.fileName
  fileSizeBytes := u.content.length
  mimeType := u.mimeType
  isDryRun := u.isDryRun

/-- `LocalFileStorage._key`. -/
def storageKey (tenantId documentId : Uuid) : String := tenantId.str ++ "/" ++ documentId.str

/-- The transaction of `create_document`: the insert, then the storage key. -/
def createWrites (document : Document) : List Write :=
  [.insertDocument document,
    .updateDocument document
      { document with fileStorageKey := some (storageKey document.tenantId document.id) }]

/-- `create_document` up to the flush: the row to insert. -/
def createDocument (S : Site) (db : Db) (tenantId documentId : Uuid) (u : Upload) :
    Except IngestError Document :=
  match validateUpload S u.content u.mimeType with
  | .error e => .error e
  | .ok () => (resolveActiveSchema db tenantId u.schemaName).map fun schema =>
      newDocument tenantId documentId schema u

end OcrService
