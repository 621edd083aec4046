/-
  The extraction chain (`app/pipeline/extraction.py`, `app/pipeline/prompts.py`).

  A property of the tenant's schema becomes an optional string of the output
  model if its name is an identifier (`buildOutputModel`); the structured
  output is normalised by `coerce`; the answer comes from the primary model
  under the circuit breaker, or from the fallback (`ExtractionChain.invoke`).

  `create_model`, `json.dumps`, `float` of a text and the Unicode classes of
  identifiers are the fields of `ChainTools`.
-/
import OcrService.Pipeline.Nodes
import OcrService.Domain.CircuitBreaker
import OcrService.Services.Qdrant

namespace OcrService

open PyData

/-- What the chain uses of Python and of pydantic. -/
structure ChainTools where
  /-- the characters that may begin an identifier, besides the underscore -/
  xidStart : Char → Bool
  /-- the characters that may follow -/
  xidContinue : Char → Bool
  printer : Printer
  /-- `json.dumps(v, indent=2)` -/
  dumps : Json → String
  /-- `float` of a text; the texts of an infinity or a NaN count as refused, as
      the bounds of the confidence refuse them -/
  floatOfText : String → Except String ℚ
  /-- the field names that `create_model` offers for the given ones -/
  createModel : String → List String → Except String (List String)
  /-- the text of a `ValidationError` of `LLMExtraction` -/
  validationError : ℚ → List Json → List Json → String

/-! ## The output model -/

/-- `name.isidentifier()`. -/
def ChainTools.isIdentifier (T : ChainTools) (name : String) : Bool :=
  match name.toList with
  | [] => false
  | c :: cs => (c = '_' || T.xidStart c) && cs.all T.xidContinue

/-- The name of the Python type of a value. -/
def typeName : Json → String
  | .null => "NoneType"
  | .bool _ => "bool"
  | .int _ => "int"
  | .float _ => "float"
  | .str _ => "str"
  | .arr _ => "list"
  | .obj _ => "dict"

/-- The exception for a method that the value does not have. -/
def noAttribute (v : Json) (method : String) : String :=
  "'" ++ typeName v ++ "' object has no attribute '" ++ method ++ "'"

/-- An optional string of the output model. -/
structure FieldDef where
  name : String
  description : String
  deriving DecidableEq

/-- The entry of `field_defs` for a property. -/
def fieldDef (T : ChainTools) (name : String) : Json → Except String FieldDef
  | .obj spec => .ok { name, description := ((Obj.get? spec "description").getD (.str name)).pyStr T.printer }
  | v => .error (noAttribute v "get")

/-- `field_defs`, in the order of the properties. -/
def fieldDefs (T : ChainTools) : Obj → Except String (List FieldDef)
  | [] => .ok []
  | (name, spec) :: properties =>
    if T.isIdentifier name then do
      let d ← fieldDef T name spec
      let ds ← fieldDefs T properties
      return d :: ds
    else fieldDefs T properties

/-- `json_schema.get("properties", {}).items()`. -/
def propertiesOf (jsonSchema : Obj) : Except String Obj :=
  match jsonSchema.get? "properties" with
  | none => .ok []
  | some (.obj properties) => .ok properties
  | some v => .error (noAttribute v "items")

/-- The model of the structured output: the fields asked for, those that the
    nested model offers, and those of the envelope. -/
structure OutputModel where
  fieldDefs : List FieldDef
  fields : List String
  envelope : List String

/-- `build_output_model`. -/
def buildOutputModel (T : ChainTools) (jsonSchema : Obj) : Except String OutputModel := do
  let properties ← propertiesOf jsonSchema
  let defs ← fieldDefs T properties
  let fields ← T.createModel "ExtractedFields" (defs.map FieldDef.name)
  let envelope ← T.createModel "DynamicExtraction"
    ["fields", "confidence", "low_confidence_fields", "missing_fields"]
  return { fieldDefs := defs, fields, envelope }

/-! ## Coercion -/

/-- A structured output: an `LLMExtraction`, a model or dictionary given by its
    entries (nested models by their dumps), or a value that `dict` refuses. -/
inductive Raw
  | extraction (x : LLMExtraction)
  | data (d : Obj)
  | other (error : String)

/-- The truth value of a JSON value. -/
def truthy : Json → Bool
  | .null => false
  | .bool b => b
  | .int n => n ≠ 0
  | .float q => q ≠ 0
  | .str s => s ≠ ""
  | .arr xs => xs ≠ []
  | .obj d => d ≠ []

/-- `d.get(k) or default`. -/
def getOr (d : Obj) (k : String) (default : Json) : Json :=
  match d.get? k with
  | some v => if truthy v then v else default
  | none => default

/-- `v in (None, "")`. -/
def isNullOrEmpty (v : Json) : Bool := v = .null || v = .str ""

/-- Drop nulls so that empty values do not masquerade as extracted fields. -/
def dropEmpty (fields : Obj) : Obj := fields.filter fun e => !isNullOrEmpty e.2

/-- The fields of a structured output, without the empty ones. -/
def coercedFields (d : Obj) : Except String Obj :=
  match getOr d "fields" (.obj []) with
  | .obj fields => .ok (dropEmpty fields)
  | v => .error (noAttribute v "items")

/-- `float(v)`. -/
def pyFloat (T : ChainTools) : Json → Except String ℚ
  | .int n => .ok n
  | .float q => .ok q
  | .bool b => .ok (if b then 1 else 0)
  | .str s => T.floatOfText s
  | v => .error ("float() argument must be a string or a real number, not '" ++ typeName v ++ "'")

/-- `list(v)`. -/
def pyList : Json → Except String (List Json)
  | .arr xs => .ok xs
  | .str s => .ok (s.toList.map fun c => .str (String.singleton c))
  | .obj d => .ok (d.map fun e => .str e.1)
  | v => .error ("'" ++ typeName v ++ "' object is not iterable")

/-- A list of strings, as pydantic validates it. -/
def texts : List Json → Option (List String)
  | [] => some []
  | .str s :: xs => (texts xs).map (s :: ·)
  | _ :: _ => none

/-- `LLMExtraction(...)`. -/
def llmExtraction (T : ChainTools) (fields : Obj) (confidence : ℚ) (low missing : List Json) :
    Except String LLMExtraction :=
  if h : 0 ≤ confidence ∧ confidence ≤ 1 then
    match texts low, texts missing with
    | some lowConfidenceFields, some missingFields =>
      .ok { fields, confidence, lowConfidenceFields, missingFields
            confidence_nonneg := h.1, confidence_le_one := h.2 }
    | _, _ => .error (T.validationError confidence low missing)
  else .error (T.validationError confidence low missing)

/-- The self-report of a structured output. -/
def selfReport (T : ChainTools) : Raw → Except String ℚ
  | .extraction x => .ok x.confidence
  | .data d => pyFloat T (getOr d "confidence" (.float 0))
  | .other e => .error e

/-- `_coerce`. -/
def coerce (T : ChainTools) : Raw → Except String LLMExtraction
  | .extraction x => .ok x
  | .data d => do
    let fields ← coercedFields d
    let confidence ← pyFloat T (getOr d "confidence" (.float 0))
    let low ← pyList (getOr d "low_confidence_fields" (.arr []))
    let missing ← pyList (getOr d "missing_fields" (.arr []))
    llmExtraction T fields confidence low missing
  | .other e => .error e

/-! ## The prompt -/

/-- The parts of the prompt for the example number `i`. -/
def exampleParts (T : ChainTools) (i : ℕ) (ex : Obj) : List String :=
  let snippet := String.ofList
    ((((ex.get? "input_text").getD (.str "")).pyStr T.printer).toList.take 500)
  let expected := T.dumps ((ex.get? "expected_json").getD (.obj []))
  ["\nExample " ++ toString i ++ " input:\n" ++ snippet,
    "Example " ++ toString i ++ " output:\n" ++ expected]

/-- `build_extraction_prompt`. -/
def buildExtractionPrompt (T : ChainTools) (a : ExtractArgs) (examples : List Obj) : String :=
  "\n".intercalate
    (["You are an expert at extracting structured data from " ++ a.schemaName ++ " documents.",
      "Extract the fields defined by this JSON Schema. Return values as strings; " ++
        "use null for fields you cannot find. Report your own confidence in [0,1].",
      "",
      "JSON Schema:",
      T.dumps (.obj a.jsonSchema)] ++
    (if a.requiredFields = [] then []
      else ["", "Required fields: " ++ ", ".intercalate a.requiredFields]) ++
    (if examples = [] then []
      else ["", "Here are labelled examples from similar documents:"] ++
        (examples.zipIdx 1).flatMap fun e => exampleParts T e.2 e.1) ++
    ["", "Now extract from this document:", "---", a.text, "---"])

/-! ## The chain -/

/-- A chat model with the output model as its structured output: its answer to
    a prompt, or the exception of building or asking it. -/
abbrev ChatModel := String → OutputModel → Except String Raw

/-- `ExtractionChain`, with the two models and their names in the settings, and
    the embedder and the vector store of `retrieve_examples`. -/
structure ExtractionChain where
  tools : ChainTools
  model : Option ChatModel := none
  primary : ChatModel
  fallback : ChatModel
  llmPrimaryModel : String
  llmFallbackModel : String
  embed : String → Except String (List ℚ)
  client : Client

inductive ModelRole
  | injected | primary | fallback
  deriving DecidableEq

/-- A model that was asked, and what it answered. -/
structure Invocation where
  role : ModelRole
  answer : Except String Raw

/-- The circuit breaker around a call: as it is when the call reads its state,
    and as other calls have left it when the function has ended. -/
structure BreakerUse where
  atStart : CircuitBreaker
  start : ℚ
  atFinish : CircuitBreaker
  finish : ℚ

/-- What a call of the chain did. -/
structure ChainRun (α : Type) where
  result : Except String α
  breaker : CircuitBreaker
  invocations : List Invocation

namespace ExtractionChain
variable (C : ExtractionChain) (B : BreakerUse)

/-- The fallback, after the models that were asked before. -/
def askFallback (prompt : String) (M : OutputModel) (breaker : CircuitBreaker)
    (before : List Invocation) : ChainRun Raw where
  result := C.fallback prompt M
  breaker := breaker
  invocations := before ++ [⟨.fallback, C.fallback prompt M⟩]

/-- `_invoke`. -/
def invoke (prompt : String) (M : OutputModel) : ChainRun Raw :=
  match C.model with
  | some model =>
    { result := model prompt M
      breaker := B.atStart
      invocations := [⟨.injected, model prompt M⟩] }
  | none =>
    if B.atStart.state B.start = .opened then C.askFallback prompt M B.atStart [] -- `CircuitOpenError`
    else match C.primary prompt M with
      | .ok raw =>
        { result := .ok raw
          breaker := B.atFinish.settle B.finish .returned
          invocations := [⟨.primary, .ok raw⟩] }
      | .error e =>
        C.askFallback prompt M (B.atFinish.settle B.finish .raised) [⟨.primary, .error e⟩]

/-- The prompt of `extract`. -/
def prompt (a : ExtractArgs) : String :=
  buildExtractionPrompt C.tools a
    (retrieveExamples C.tools.printer C.embed C.client (.str a.tenantId.str) (.str a.schemaId.str)
      a.text 3)

/-- `extract`. -/
def extract (a : ExtractArgs) : ChainRun LLMExtraction :=
  match buildOutputModel C.tools a.jsonSchema with
  | .error e => { result := .error e, breaker := B.atStart, invocations := [] }
  | .ok M =>
    let asked := C.invoke B (C.prompt a) M
    { result := asked.result.bind (coerce C.tools)
      breaker := asked.breaker
      invocations := asked.invocations }

/-- The components of the nodes, with this chain. -/
def components (K : Components) : Components :=
  { K with
    extract := fun a => (C.extract B a).result
    llmPrimaryModel := C.llmPrimaryModel }

/-- The models that `extract_node` asks on a state. -/
def asked (K : Components) (s : ExtractionState) : List Invocation :=
  (Nodes.extractNode (C.components B K) s).calls.flatMap fun
    | .extract a => (C.extract B a).invocations
    | _ => []

end ExtractionChain

end OcrService
