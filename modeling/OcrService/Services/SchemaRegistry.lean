/-
  The schema registry (`app/services/schema_registry.py`): `create_schema` and
  the three calls that change an existing schema.

  Each of these reads the live row of `schemas` and updates it in one transaction;
  `add_seed_example` writes a point to the vector store in between, and
  `activate_schema` snapshots the definition into `schema_versions`.
-/
import OcrService.World

namespace OcrService

open PyData

/-- `CreateSchemaRequest`. -/
structure SchemaPayload where
  name : String
  description : Option String := none
  jsonSchema : Obj
  requiredFields : List String := []
  piiFields : List String := []
  promptTemplate : Option String := none
  confidenceHigh : ℚ := 17 / 20
  confidenceMedium : ℚ := 3 / 5
  config : Obj := []

/-- `MIN_SEEDS_FOR_ACTIVATION`. -/
def minSeedsForActivation : ℕ := 3

inductive SchemaCall
  | update (payload : SchemaPayload)
  | addSeed (expectedJson : Obj)
  | activate

inductive SchemaPoint
  | read | embed | upsert | commit
  deriving DecidableEq

inductive SchemaPc
  | read
  | upsert (schema : Schema) (expectedJson : Obj)
  | commit (ws : List Write)
  | done (outcome : Outcome)

/-- A call on schema `schemaId`. -/
structure SchemaRequest where
  tenantId : Uuid
  schemaId : Uuid
  call : SchemaCall
  raises : SchemaPoint → Bool := fun _ => false
  pc : SchemaPc := .read

/-- `create_schema`; `none` is a `DuplicateSchemaError`. -/
def createSchema (db : Db) (tenantId id : Uuid) (payload : SchemaPayload) : Option Schema :=
  if db.schemas.any fun r => r.tenantId = tenantId ∧ r.name = payload.name then none
  else some
    { id
      tenantId
      name := payload.name
      description := payload.description
      jsonSchema := payload.jsonSchema
      requiredFields := payload.requiredFields
      piiFields := payload.piiFields
      promptTemplate := payload.promptTemplate
      confidenceHigh := payload.confidenceHigh
      confidenceMedium := payload.confidenceMedium
      config := payload.config
      status := .draft
      currentVersion := 1 }

/-- `update_schema`: every column of the definition but the name. -/
def updateSchema (schema : Schema) (payload : SchemaPayload) : Schema :=
  { schema with
    description := payload.description
    jsonSchema := payload.jsonSchema
    requiredFields := payload.requiredFields
    piiFields := payload.piiFields
    promptTemplate := payload.promptTemplate
    confidenceHigh := payload.confidenceHigh
    confidenceMedium := payload.confidenceMedium
    config := payload.config }

/-- `activate_schema`: a deprecated schema gets the next version. -/
def activateSchema (schema : Schema) : Schema :=
  { schema with
    currentVersion :=
      if schema.status = .deprecated then schema.currentVersion + 1 else schema.currentVersion
    status := .active }

/-- The snapshot of `activate_schema`. -/
def schemaSnapshot (schema : Schema) : SchemaVersion where
  schemaId := schema.id
  tenantId := schema.tenantId
  version := (activateSchema schema).currentVersion
  jsonSchema := schema.jsonSchema
  requiredFields := schema.requiredFields
  piiFields := schema.piiFields
  promptTemplate := schema.promptTemplate

namespace SchemaRequest

def goto (c : SchemaRequest) (pc : SchemaPc) : SchemaRequest := { c with pc }

/-- What a call does with the row it read. -/
def begin (c : SchemaRequest) (schema : Schema) : SchemaPc :=
  match c.call with
  | .update payload => .commit [.updateSchema schema (updateSchema schema payload)]
  | .addSeed expectedJson => .upsert schema expectedJson
  | .activate =>
    if schema.seedCount < minSeedsForActivation then .done .raised
    else .commit [.insertSchemaVersion (schemaSnapshot schema),
      .updateSchema schema (activateSchema schema)]

/-- A call in its session. -/
def move (w : World) (c : SchemaRequest) : Move SchemaRequest Empty :=
  match c.pc with
  | .read =>
    if c.raises .read then { task := c.goto (.done .raised) }
    else match w.db.schema? c.tenantId c.schemaId with
      | none => { task := c.goto (.done .raised) }
      | some schema => { task := c.goto (c.begin schema) }
  | .upsert schema expectedJson =>
    if c.raises .embed ∨ c.raises .upsert then { task := c.goto (.done .raised) }
    else
      { change := .upsertPoint
          { tenantId := c.tenantId
            schemaId := c.schemaId
            documentId := c.schemaId -- a seed is keyed to the schema
            source := .seed
            expectedJson }
        task := c.goto (.commit
          [.updateSchema schema { schema with seedCount := schema.seedCount + 1 }]) }
  | .commit ws =>
    if c.raises .commit then { task := c.goto (.done .raised) }
    else match w.db.commit ws with
      | .error _ => { task := c.goto (.done .raised) }
      | .ok _ => { change := .commit ws, task := c.goto (.done .returned) }
  | .done _ => { task := c }

end SchemaRequest

end OcrService
