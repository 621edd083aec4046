/-
  The vector service (`app/services/qdrant.py`) and the few-shot retrieval on
  top of it (`app/pipeline/prompts.py`).

  The client is outside the repository: `search` and `retrieveExamples` take it
  as it is, as any function from queries to answers.  `retrieveExamples_own`:
  whatever it answers, the examples are none, or the payloads of the answer, all
  stamped with the tenant that asks.
-/
import OcrService.Lib.Show
import OcrService.Domain.UuidText
import OcrService.World

namespace OcrService

open PyData

/-- **No other value is shown as a UUID.** -/
theorem Uuid.pyStr_eq_str (u : Uuid) (P : Printer) {v : Json} : v.pyStr P = u.str ↔ v = .str u.str :=
  pyStr_eq_iff P (by rw [length_str]; decide) u.count_hyphen_str
    (u.not_mem_str (by decide) (by decide)) (u.not_mem_str (by decide) (by decide))

/-! ## The service -/

/-- An identifier as the service takes it: `uuid.UUID | str`. -/
inductive Ident where
  | uuid (u : Uuid)
  | str (s : String)
  deriving DecidableEq

namespace Ident

/-- `str(tenant_id)`. -/
def text : Ident → String
  | .uuid u => u.str
  | .str s => s

/-- `not tenant_id`. -/
def isMissing : Ident → Bool
  | .uuid _ => false
  | .str s => s = ""

theorem isMissing_iff {i : Ident} : i.isMissing ↔ i.text = "" := by
  cases i with
  | uuid u =>
    simp only [isMissing, text, Bool.false_eq_true, false_iff]
    exact fun h => absurd (congrArg String.length h) (by rw [Uuid.length_str]; decide)
  | str s => simp [isMissing, text]

end Ident

/-- `models.FieldCondition` with a `MatchValue`. -/
structure FieldCondition where
  key : String
  value : String

/-- The payload meets the condition: the field is the value, or a list with it. -/
def FieldCondition.meets (c : FieldCondition) (payload : Obj) : Bool :=
  match payload.get? c.key with
  | some (.str s) => s = c.value
  | some (.arr xs) => xs.contains (.str c.value)
  | _ => false

/-- `models.Filter(must=...)`. -/
def passes (must : List FieldCondition) (payload : Obj) : Bool := must.all fun c => c.meets payload

/-- `models.PointStruct`. -/
structure PointStruct where
  id : Uuid
  vector : List ℚ
  payload : Obj
  deriving DecidableEq

/-- The arguments of `query_points`. -/
structure Query where
  filter : List FieldCondition
  vector : List ℚ
  limit : ℕ

/-- What a vector store answers to a query: the payloads of its points, or an
    exception. -/
abbrev Client := Query → Except String (List (Option Obj))

/-- What `search` raises. -/
inductive SearchError where
  | tenantFilterMissing (msg : String)
  | crossTenantLeakage (msg : String)
  | client (msg : String)

namespace QdrantService

/-- The payload that `upsert_example` stores. -/
def fullPayload (tenantId schemaId documentId : Ident) (payload : Obj) : Obj :=
  ((payload.set "tenant_id" (.str tenantId.text)).set "schema_id" (.str schemaId.text)).set
    "document_id" (.str documentId.text)

/-- The selector of `delete_by_document`. -/
def pointsSelector (tenantId documentId : Ident) : List FieldCondition :=
  [⟨"tenant_id", tenantId.text⟩, ⟨"document_id", documentId.text⟩]

/-- The filter of `search`. -/
def queryFilter (tenantId schemaId : Ident) : List FieldCondition :=
  [⟨"tenant_id", tenantId.text⟩, ⟨"schema_id", schemaId.text⟩]

section
variable (P : Printer)

/-- The loop of `search` over the points of the response. -/
def collect (tenantId : Ident) : List (Option Obj) → Except SearchError (List Obj)
  | [] => .ok []
  | point :: points =>
    let payload := point.getD []
    if strGet P payload "tenant_id" ≠ tenantId.text then
      .error (.crossTenantLeakage "Qdrant returned a point for a different tenant")
    else (collect tenantId points).map fun payloads => payload :: payloads

/-- `search`. -/
def search (client : Client) (tenantId schemaId : Ident) (vector : List ℚ) (limit : ℕ) :
    Except SearchError (List Obj) :=
  if tenantId.isMissing then
    .error (.tenantFilterMissing "tenant_id is required for every Qdrant query")
  else match client { filter := queryFilter tenantId schemaId, vector, limit } with
    | .error msg => .error (.client msg)
    | .ok points => collect P tenantId points

end

end QdrantService

/-- `_MAX_EMBED_CHARS`. -/
def maxEmbedChars : ℕ := 8000

/-- `retrieve_examples`: what the embedder or the search raises is swallowed. -/
def retrieveExamples (P : Printer) (embed : String → Except String (List ℚ)) (client : Client)
    (tenantId schemaId : Ident) (text : String) (limit : ℕ) : List Obj :=
  match embed (String.ofList (text.toList.take maxEmbedChars)) with
  | .error _ => []
  | .ok vector =>
    match QdrantService.search P client tenantId schemaId vector limit with
    | .error _ => []
    | .ok payloads => payloads

/-! ## Whatever the store answers -/

namespace QdrantService
variable {P : Printer}

/-- **The check after the query**: the payloads of the answer, if all of them
    show the tenant. -/
theorem collect_eq_ok {tenantId : Ident} : ∀ {points : List (Option Obj)} {payloads : List Obj},
    collect P tenantId points = .ok payloads ↔
      payloads = points.map (fun p => p.getD []) ∧
        ∀ p ∈ payloads, strGet P p "tenant_id" = tenantId.text
  | [], payloads => by
    simp only [collect, Except.ok.injEq, List.map_nil]
    constructor
    · rintro rfl
      exact ⟨rfl, List.forall_mem_nil _⟩
    · rintro ⟨rfl, -⟩
      rfl
  | point :: points, payloads => by
    simp only [collect, List.map_cons]
    split_ifs with h
    · simp only [false_iff, not_and]
      rintro rfl hall
      exact h (hall _ List.mem_cons_self)
    · rw [not_not] at h
      cases hrest : collect P tenantId points with
      | error e =>
        simp only [Except.map, reduceCtorEq, false_iff, not_and]
        rintro rfl hall
        have := collect_eq_ok.2 ⟨rfl, fun p hp => hall p (List.mem_cons_of_mem _ hp)⟩
        rw [hrest] at this
        cases this
      | ok rest =>
        obtain ⟨rfl, hall⟩ := collect_eq_ok.1 hrest
        simp only [Except.map, Except.ok.injEq]
        constructor
        · rintro rfl
          exact ⟨rfl, List.forall_mem_cons.2 ⟨h, hall⟩⟩
        · rintro ⟨rfl, -⟩
          rfl

/-- A search that returns has asked the client. -/
theorem search_eq_ok {client : Client} {tenantId schemaId : Ident} {vector : List ℚ} {limit : ℕ}
    {payloads : List Obj} (h : search P client tenantId schemaId vector limit = .ok payloads) :
    ∃ points, client ⟨queryFilter tenantId schemaId, vector, limit⟩ = .ok points ∧
      payloads = points.map (fun p => p.getD []) ∧
      ∀ p ∈ payloads, strGet P p "tenant_id" = tenantId.text := by
  unfold search at h
  split_ifs at h
  split at h
  · cases h
  · rename_i points hpoints
    exact ⟨points, hpoints, collect_eq_ok.1 h⟩

end QdrantService

open QdrantService

/-- The stamp of a tenant is the text of its id and nothing else. -/
theorem strGet_eq_str {P : Printer} {payload : Obj} {k : String} {u : Uuid} :
    strGet P payload k = u.str ↔ payload.get? k = some (.str u.str) := by
  rw [strGet, Uuid.pyStr_eq_str]
  cases payload.get? k <;> simp

/-- **The examples of a tenant are its own**, or there are none. -/
theorem retrieveExamples_own {P : Printer} {tenantId : Ident} {tenant : Uuid}
    (embed : String → Except String (List ℚ)) (client : Client) (schemaId : Ident) (text : String)
    (limit : ℕ) (htenant : tenantId.text = tenant.str) :
    retrieveExamples P embed client tenantId schemaId text limit = [] ∨
      (∀ p ∈ retrieveExamples P embed client tenantId schemaId text limit,
        p.get? "tenant_id" = some (.str tenant.str)) ∧
      ∃ vector points, embed (String.ofList (text.toList.take maxEmbedChars)) = .ok vector ∧
        client ⟨queryFilter tenantId schemaId, vector, limit⟩ = .ok points ∧
        retrieveExamples P embed client tenantId schemaId text limit =
          points.map fun p => p.getD [] := by
  unfold retrieveExamples
  split
  · exact Or.inl rfl
  · rename_i vector hvector
    split
    · exact Or.inl rfl
    · rename_i payloads hsearch
      obtain ⟨points, hpoints, hpayloads, hall⟩ := search_eq_ok hsearch
      refine Or.inr ⟨fun p hp => ?_, vector, points, hvector, hpoints, hpayloads⟩
      exact strGet_eq_str.1 ((hall p hp).trans htenant)

end OcrService
