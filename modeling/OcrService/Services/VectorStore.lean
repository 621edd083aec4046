/-
  A vector store that applies its filters, and what the service stores in it
  (`app/services/qdrant.py`).

  * `Store.run` is the store after a sequence of calls, and `Store.Answers` what
    it may answer to a query: points that pass the filter.
  * `Store.live` is what a tenant has upserted under a schema and not deleted
    since.  A search can return exactly this (`select_run`), so the calls of
    other tenants do not matter (`live_purge`).
-/
import Mathlib.Data.List.Induction
import OcrService.Lib.Pool
import OcrService.Services.Qdrant

namespace OcrService

open PyData QdrantService

/-! ## A store that applies its filters -/

/-- A call of the service; `uuid.uuid4` draws the id of a new point. -/
inductive VectorCall where
  | upsertExample (tenantId schemaId documentId : Ident) (vector : List ℚ) (payload : Obj) (id : Uuid)
  | deleteByDocument (tenantId documentId : Ident)
  | search (tenantId schemaId : Ident) (vector : List ℚ) (limit : ℕ)

namespace VectorCall

/-- Who calls. -/
def tenantId : VectorCall → Ident
  | upsertExample tenantId .. | deleteByDocument tenantId _ | search tenantId .. => tenantId

/-- The id that the call draws. -/
def drawn : VectorCall → Option Uuid
  | upsertExample _ _ _ _ _ id => some id
  | _ => none

end VectorCall

/-- The points of a collection. -/
abbrev Store := List PointStruct

namespace Store

/-- `client.upsert`: a point with the id is replaced. -/
def upsert (store : Store) (point : PointStruct) : Store :=
  store.filter (fun p => p.id ≠ point.id) ++ [point]

/-- `client.delete`. -/
def delete (store : Store) (selector : List FieldCondition) : Store :=
  store.filter fun p => !passes selector p.payload

/-- The points that pass a filter. -/
def select (store : Store) (must : List FieldCondition) : Store :=
  store.filter fun p => passes must p.payload

/-- What `query_points` may answer: some of the points that pass the filter, in
    any order, and no more than the limit. -/
def Answers (store : Store) (q : Query) (response : List (Option Obj)) : Prop :=
  ∃ chosen : List PointStruct, chosen.Subperm (store.select q.filter) ∧ chosen.length ≤ q.limit ∧
    response = chosen.map fun p => some p.payload

/-- The store after a call. -/
def call (store : Store) : VectorCall → Store
  | .upsertExample tenantId schemaId documentId vector payload id =>
    store.upsert { id, vector, payload := fullPayload tenantId schemaId documentId payload }
  | .deleteByDocument tenantId documentId =>
    if tenantId.isMissing then store else store.delete (pointsSelector tenantId documentId)
  | .search .. => store

/-- The store after a sequence of calls. -/
def run (cs : List VectorCall) : Store := cs.foldl call []

section
variable (tenantId schemaId : Ident)

/-- What a call does to the points that `tenantId` has under `schemaId`. -/
def liveCall (store : Store) : VectorCall → Store
  | .upsertExample tenant schema documentId vector payload id =>
    if tenant.text = tenantId.text ∧ schema.text = schemaId.text then
      store ++ [{ id, vector, payload := fullPayload tenant schema documentId payload }]
    else store
  | .deleteByDocument tenant documentId =>
    if tenant.text = tenantId.text ∧ ¬ tenant.isMissing then
      store.filter fun p => !FieldCondition.meets ⟨"document_id", documentId.text⟩ p.payload
    else store
  | .search .. => store

/-- What `tenantId` has upserted under `schemaId` and not deleted since. -/
def live (cs : List VectorCall) : Store := cs.foldl (liveCall tenantId schemaId) []

/-- The call upserts `p` for `tenantId` under `schemaId`. -/
def Stores (p : PointStruct) (c : VectorCall) : Prop :=
  ∃ tenant schema documentId vector payload id,
    c = .upsertExample tenant schema documentId vector payload id ∧
      tenant.text = tenantId.text ∧ schema.text = schemaId.text ∧
      p = { id, vector, payload := fullPayload tenant schema documentId payload }

/-- The call deletes the document of `p` for `tenantId`. -/
def Removes (p : PointStruct) (c : VectorCall) : Prop :=
  ∃ tenant documentId, c = .deleteByDocument tenant documentId ∧ tenant.text = tenantId.text ∧
    ¬ tenant.isMissing ∧ FieldCondition.meets ⟨"document_id", documentId.text⟩ p.payload

end

section
variable {tenant schema document tenantId schemaId : Ident} {payload : Obj}

theorem get?_tenant : (fullPayload tenant schema document payload).get? "tenant_id" =
    some (.str tenant.text) := by
  rw [fullPayload, Obj.get?_set_of_ne _ _ (by decide), Obj.get?_set_of_ne _ _ (by decide),
    Obj.get?_set_self]

theorem get?_schema : (fullPayload tenant schema document payload).get? "schema_id" =
    some (.str schema.text) := by
  rw [fullPayload, Obj.get?_set_of_ne _ _ (by decide), Obj.get?_set_self]

theorem get?_document : (fullPayload tenant schema document payload).get? "document_id" =
    some (.str document.text) := Obj.get?_set_self _ _ _

/-- **The stamp decides which filters a point passes**, whatever the caller has
    put into the payload. -/
theorem passes_queryFilter :
    passes (queryFilter tenantId schemaId) (fullPayload tenant schema document payload) =
      decide (tenant.text = tenantId.text ∧ schema.text = schemaId.text) := by
  simp [passes, queryFilter, FieldCondition.meets, get?_tenant, get?_schema]

theorem passes_pointsSelector {documentId : Ident} :
    passes (pointsSelector tenantId documentId) (fullPayload tenant schema document payload) =
      decide (tenant.text = tenantId.text ∧ document.text = documentId.text) := by
  simp [passes, pointsSelector, FieldCondition.meets, get?_tenant, get?_document]

theorem meets_document {documentId : Ident} :
    FieldCondition.meets ⟨"document_id", documentId.text⟩
      (fullPayload tenant schema document payload) = decide (document.text = documentId.text) := by
  simp [FieldCondition.meets, get?_document]

end

section
variable {tenantId schemaId : Ident} {store : Store} {point p : PointStruct} {cs : List VectorCall}
  {c : VectorCall} {must : List FieldCondition}

/-! ### The store against what is live -/

theorem run_concat (cs : List VectorCall) (c : VectorCall) : run (cs ++ [c]) = (run cs).call c := by
  simp [run]

theorem live_concat (cs : List VectorCall) (c : VectorCall) :
    live tenantId schemaId (cs ++ [c]) = liveCall tenantId schemaId (live tenantId schemaId cs) c := by
  simp [live]

/-- Where the points after a call come from. -/
theorem mem_call (h : p ∈ store.call c) :
    p ∈ store ∨ ∃ tenant schema documentId vector payload id,
      c = .upsertExample tenant schema documentId vector payload id ∧
        p = { id, vector, payload := fullPayload tenant schema documentId payload } := by
  cases c with
  | upsertExample tenant schema documentId vector payload id =>
    rcases List.mem_append.1 h with h | h
    · exact Or.inl (List.mem_of_mem_filter h)
    · exact Or.inr ⟨_, _, _, _, _, _, rfl, List.mem_singleton.1 h⟩
  | deleteByDocument tenant documentId =>
    simp only [call] at h
    split_ifs at h
    · exact Or.inl h
    · exact Or.inl (List.mem_of_mem_filter h)
  | search tenant schema vector limit => exact Or.inl h

/-- **Every point is stamped**, and its id has been drawn. -/
theorem run_stamped : ∀ p ∈ run cs, p.id ∈ cs.filterMap VectorCall.drawn ∧
    ∃ tenant schema documentId payload, p.payload = fullPayload tenant schema documentId payload := by
  induction cs using List.reverseRecOn with
  | nil => exact List.forall_mem_nil _
  | append_singleton cs c ih =>
    intro p hp
    rw [run_concat] at hp
    rw [List.filterMap_append]
    rcases mem_call hp with hp | ⟨tenant, schema, documentId, vector, payload, id, rfl, rfl⟩
    · exact ⟨List.mem_append_left _ (ih p hp).1, (ih p hp).2⟩
    · exact ⟨List.mem_append_right _ (by simp [VectorCall.drawn]), _, _, _, _, rfl⟩

/-- A point with a new id is added. -/
theorem select_upsert (hid : ∀ p ∈ store, p.id ≠ point.id) :
    (store.upsert point).select must =
      store.select must ++ if passes must point.payload then [point] else [] := by
  have hkeep : store.filter (fun p => p.id ≠ point.id) = store :=
    List.filter_eq_self.2 fun p hp => decide_eq_true (hid p hp)
  rw [upsert, hkeep, select, List.filter_append]
  split_ifs with h <;> simp [select, h]

theorem select_delete (selector : List FieldCondition) :
    (store.delete selector).select must =
      (store.select must).filter fun p => !passes selector p.payload := by
  rw [select, select, delete, List.filter_filter, List.filter_filter]
  exact List.filter_congr fun p _ => Bool.and_comm _ _

/-- One call: what passes the filter of a tenant and schema changes as what is
    live of them does. -/
theorem select_call (hstamped : ∀ p ∈ store, ∃ tenant schema documentId payload,
      p.payload = fullPayload tenant schema documentId payload)
    (hid : ∀ p ∈ store, ∀ id ∈ c.drawn, p.id ≠ id) :
    (store.call c).select (queryFilter tenantId schemaId) =
      liveCall tenantId schemaId (store.select (queryFilter tenantId schemaId)) c := by
  cases c with
  | upsertExample tenant schema documentId vector payload id =>
    rw [call, select_upsert fun p hp => hid p hp id rfl, passes_queryFilter, liveCall]
    split_ifs with h <;> simp_all
  | deleteByDocument tenant documentId =>
    rw [call, liveCall]
    by_cases hmissing : tenant.isMissing
    · simp [hmissing]
    · rw [if_neg hmissing, select_delete]
      have hpasses : ∀ p ∈ store.select (queryFilter tenantId schemaId),
          passes (pointsSelector tenant documentId) p.payload =
            (decide (tenant.text = tenantId.text) &&
              FieldCondition.meets ⟨"document_id", documentId.text⟩ p.payload) := by
        intro p hp
        obtain ⟨hp, hselect⟩ := List.mem_filter.1 hp
        obtain ⟨tenant', schema', document', payload, hpayload⟩ := hstamped p hp
        rw [hpayload, passes_queryFilter] at hselect
        rw [hpayload, passes_pointsSelector, meets_document, (of_decide_eq_true hselect).1]
        simp [eq_comm]
      by_cases htenant : tenant.text = tenantId.text
      · rw [if_pos ⟨htenant, hmissing⟩]
        exact List.filter_congr fun p hp => by simp [hpasses p hp, htenant]
      · rw [if_neg fun h => htenant h.1]
        exact List.filter_eq_self.2 fun p hp => by simp [hpasses p hp, htenant]
  | search tenant schema vector limit => rfl

/-- **A search can return what is live**, and nothing else. -/
theorem select_run (hids : (cs.filterMap VectorCall.drawn).Nodup) :
    (run cs).select (queryFilter tenantId schemaId) = live tenantId schemaId cs := by
  induction cs using List.reverseRecOn with
  | nil => rfl
  | append_singleton cs c ih =>
    rw [List.filterMap_append] at hids
    obtain ⟨hids, -, hnew⟩ := List.nodup_append.1 hids
    rw [run_concat, live_concat, ← ih hids]
    refine select_call (fun p hp => (run_stamped p hp).2) fun p hp id hid => ?_
    exact hnew _ (run_stamped p hp).1 _ (by
      cases c with
      | upsertExample => simpa [VectorCall.drawn, eq_comm] using hid
      | deleteByDocument => cases hid
      | search => cases hid)

/-- **The calls of other tenants** do not change what is live. -/
theorem live_purge : live tenantId schemaId cs =
    live tenantId schemaId (cs.filter fun c => c.tenantId.text = tenantId.text) := by
  rw [live, live, List.foldl_filter]
  refine List.foldl_ext _ _ _ fun store c _ => ?_
  cases c with
  | upsertExample tenant schema documentId vector payload id =>
    by_cases h : tenant.text = tenantId.text <;> simp [liveCall, VectorCall.tenantId, h]
  | deleteByDocument tenant documentId =>
    by_cases h : tenant.text = tenantId.text <;> simp [liveCall, VectorCall.tenantId, h]
  | search tenant schema vector limit => simp [liveCall]

theorem mem_liveCall : p ∈ liveCall tenantId schemaId store c ↔
    Stores tenantId schemaId p c ∨ p ∈ store ∧ ¬ Removes tenantId p c := by
  cases c with
  | upsertExample tenant schema documentId vector payload id =>
    simp only [liveCall, Stores, Removes]
    split_ifs with h
    · simp [h, or_comm]
    · simp only [false_and, exists_false, not_false_eq_true, and_true, iff_or_self]
      rintro ⟨_, _, _, _, _, _, hc, htenant, hschema, -⟩
      cases hc
      exact absurd ⟨htenant, hschema⟩ h
  | deleteByDocument tenant documentId =>
    simp only [liveCall, Stores, Removes]
    split_ifs with h
    · simp [h]
    · simp only [false_and, exists_false, false_or, iff_self_and]
      rintro - ⟨_, _, hc, htenant, hmissing, -⟩
      cases hc
      exact h ⟨htenant, hmissing⟩
  | search tenant schema vector limit => simp [liveCall, Stores, Removes]

/-- **What is live** has been upserted for the tenant under the schema, and not
    deleted by it since. -/
theorem mem_live : p ∈ live tenantId schemaId cs ↔
    Trans.Since (Stores tenantId schemaId p) (fun c => ¬ Removes tenantId p c) cs := by
  induction cs using List.reverseRecOn with
  | nil => exact iff_of_false List.not_mem_nil Trans.since_nil
  | append_singleton cs c ih => rw [live_concat, mem_liveCall, Trans.since_concat, ih]

end

/-- The client is a client of the store. -/
def Faithful (store : Store) (client : Client) : Prop :=
  ∀ q response, client q = .ok response → store.Answers q response

end Store

/-! ## The points of the world -/

/-- The stored point is `p`, as the world keeps it. -/
def Represents (q : PointStruct) (p : Point) : Prop :=
  ∃ payload, payload.get? "expected_json" = some (.obj p.expectedJson) ∧
    q.payload = fullPayload (.uuid p.tenantId) (.uuid p.schemaId) (.uuid p.documentId) payload

namespace World
variable {w : World} {store : Store}

/-- The upsert of a point with a new id is that of the world. -/
theorem represents_upsert {p : Point} {payload : Obj} {vector : List ℚ} {id : Uuid}
    (h : List.Forall₂ Represents store w.points) (hid : ∀ q ∈ store, q.id ≠ id)
    (hpayload : payload.get? "expected_json" = some (.obj p.expectedJson)) :
    List.Forall₂ Represents
      (store.call (.upsertExample (.uuid p.tenantId) (.uuid p.schemaId) (.uuid p.documentId) vector
        payload id)) (w.apply (.upsertPoint p)).points := by
  have hkeep : store.filter (fun q => q.id ≠ id) = store :=
    List.filter_eq_self.2 fun q hq => decide_eq_true (hid q hq)
  simp only [Store.call, Store.upsert, hkeep]
  exact List.rel_append h (.cons ⟨payload, hpayload, rfl⟩ .nil)

/-- The deletion of a document is that of the world. -/
theorem represents_delete {tenantId documentId : Uuid}
    (h : List.Forall₂ Represents store w.points) :
    List.Forall₂ Represents (store.call (.deleteByDocument (.uuid tenantId) (.uuid documentId)))
      (w.apply (.deletePoints tenantId documentId)).points := by
  refine List.rel_filter (fun q p => ?_) h
  rintro ⟨payload, -, hq⟩
  beta_reduce
  rw [hq, Store.passes_pointsSelector]
  simp [Ident.text, Uuid.str_injective.eq_iff]

end World

/-! ## Isolation -/

/-- **Few-shot retrieval is isolated by tenant.**  Whatever the store answers,
    the examples of a tenant are none, or the payloads of the answer, all with
    its stamp.  If the store applies its filters, a search returns what the
    tenant has upserted under the schema and not deleted since; and the store
    may answer just what it might without the calls of other tenants. -/
theorem few_shot_isolation (P : Printer) (tenant : Uuid) (tenantId : Ident)
    (htenant : tenantId.text = tenant.str) :
    (∀ embed client schemaId text limit,
      let examples := retrieveExamples P embed client tenantId schemaId text limit
      examples = [] ∨ (∀ p ∈ examples, p.get? "tenant_id" = some (.str tenant.str)) ∧
        ∃ vector points, client ⟨queryFilter tenantId schemaId, vector, limit⟩ = .ok points ∧
          examples = points.map fun p => p.getD []) ∧
    ∀ cs : List VectorCall, (cs.filterMap VectorCall.drawn).Nodup → ∀ schemaId vector limit,
      (∀ client payloads, Store.Faithful (Store.run cs) client →
        search P client tenantId schemaId vector limit = .ok payloads →
        ∀ p ∈ payloads, ∃ tenant' schema' documentId payload,
          tenant'.text = tenant.str ∧ schema'.text = schemaId.text ∧
          p = fullPayload tenant' schema' documentId payload ∧
          Trans.Since (fun c => ∃ v id, c = .upsertExample tenant' schema' documentId v payload id)
            (fun c => ∀ tenant'' documentId', c = .deleteByDocument tenant'' documentId' →
              tenant''.text = tenant.str → documentId'.text ≠ documentId.text) cs) ∧
      ∀ response, (Store.run cs).Answers ⟨queryFilter tenantId schemaId, vector, limit⟩ response ↔
        (Store.run (cs.filter fun c => c.tenantId.text = tenant.str)).Answers
          ⟨queryFilter tenantId schemaId, vector, limit⟩ response := by
  refine ⟨fun embed client schemaId text limit => ?_, fun cs hids schemaId vector limit => ⟨?_, ?_⟩⟩
  · rcases retrieveExamples_own embed client schemaId text limit htenant with
      h | ⟨hall, v, points, -, hpoints, heq⟩
    · exact Or.inl h
    · exact Or.inr ⟨hall, v, points, hpoints, heq⟩
  · intro client payloads hclient hsearch p hp
    obtain ⟨points, hpoints, rfl, -⟩ := search_eq_ok hsearch
    obtain ⟨chosen, hchosen, -, rfl⟩ := hclient _ _ hpoints
    rw [Store.select_run hids] at hchosen
    obtain ⟨_, hmem, rfl⟩ := List.mem_map.1 hp
    obtain ⟨point, hpoint, rfl⟩ := List.mem_map.1 hmem
    obtain ⟨before, c, after, hcs, ⟨t, s, d, v, payload, id, rfl, ht, hs, hp⟩, hafter⟩ :=
      Store.mem_live.1 (hchosen.subset hpoint)
    refine ⟨t, s, d, payload, ht.trans htenant, hs, by rw [hp]; rfl,
      before, _, after, hcs, ⟨v, id, rfl⟩, ?_⟩
    rintro c hc t' d' rfl ht' hd'
    refine hafter _ hc ⟨t', d', rfl, ht'.trans htenant.symm, ?_, ?_⟩
    · rw [Ident.isMissing_iff, ht']
      exact fun h => absurd (congrArg String.length h) (by rw [Uuid.length_str]; decide)
    · rw [hp, Store.meets_document]
      exact decide_eq_true hd'.symm
  · intro response
    have hpurged : ((cs.filter fun c => c.tenantId.text = tenant.str).filterMap
        VectorCall.drawn).Nodup := hids.sublist (List.filter_sublist.filterMap _)
    simp only [Store.Answers, Store.select_run hids, Store.select_run hpurged]
    rw [Store.live_purge, htenant]

/-- One tenant upserts an example; another one upserts an example that claims to
    be of the first, and deletes the document of the first. -/
def Sample.calls : List VectorCall :=
  [.upsertExample (.uuid 1) (.uuid 7) (.uuid 9) [] [("input_text", .str "total 5")] 11,
   .upsertExample (.uuid 2) (.uuid 7) (.uuid 9) [] [("tenant_id", .str (Uuid.str 1))] 12,
   .deleteByDocument (.uuid 2) (.uuid 9)]

def Sample.printer : Printer := ⟨fun _ => "0.5", fun _ => true, fun _ => by decide⟩

/-- The search of the first tenant may answer its example, as it may without the
    calls of the other one. -/
theorem few_shot_isolation_two :
    (Store.run Sample.calls).Answers ⟨queryFilter (.uuid 1) (.uuid 7), [], 3⟩
      [some (fullPayload (.uuid 1) (.uuid 7) (.uuid 9) [("input_text", .str "total 5")])] := by
  have hiff := ((few_shot_isolation Sample.printer 1 (.uuid 1) rfl).2 Sample.calls (by decide)
    (.uuid 7) [] 3).2 [some (fullPayload (.uuid 1) (.uuid 7) (.uuid 9) [("input_text", .str "total 5")])]
  have hselect : (Store.run (Sample.calls.filter fun c => c.tenantId.text = Uuid.str 1)).select
      (queryFilter (.uuid 1) (.uuid 7)) =
        [⟨11, [], fullPayload (.uuid 1) (.uuid 7) (.uuid 9) [("input_text", .str "total 5")]⟩] := by
    decide
  refine hiff.2 ⟨_, .refl _, ?_, ?_⟩
  · rw [hselect]
    decide
  · rw [hselect]
    rfl

end OcrService
