/-
  Which model an extraction came from.

  The answer of the chain is the primary model's or the fallback's, chosen in
  `_invoke` under the circuit breaker; `extract_node` records
  `llm_primary_model` in every case (`provenance_iff`).
-/
import OcrService.Pipeline.OutputModel
import OcrService.Pipeline.Replay

namespace OcrService

open PyData Nodes

namespace ExtractionChain
variable (C : ExtractionChain) (B : BreakerUse) (K : Components) (s : ExtractionState)

/-- The configured name of a model. -/
def modelName : ModelRole → Option String
  | .injected => none
  | .primary => some C.llmPrimaryModel
  | .fallback => some C.llmFallbackModel

/-- A model answered with a coercible result. -/
def Answered (i : Invocation) (x : LLMExtraction) : Prop :=
  ∃ raw, i.answer = .ok raw ∧ coerce C.tools raw = .ok x

/-- `extract_node` reaches `_invoke`, with these arguments and this output model. -/
def Reaches (a : ExtractArgs) (M : OutputModel) : Prop :=
  AsksChain s a ∧ buildOutputModel C.tools a.jsonSchema = .ok M

/-- The node wrote an extraction. -/
def Succeeds (fields : Obj) (modelUsed : Option String) : Prop :=
  ∃ u, (extractNode (C.components B K) s).result = .ok u ∧ u.extractedJson = some fields ∧
    u.llmModelUsed = modelUsed

/-- The provenance of an extraction: the node succeeds iff a model answered, the
    primary is not asked while the breaker is open, the fallback is asked iff
    the primary was short-circuited or raised, and the recorded name is that of
    the model whose answer became the extraction. -/
structure Provenance : Prop where
  success : (∃ fields modelUsed, C.Succeeds B K s fields modelUsed) ↔
    ∃ i ∈ C.asked B K s, (i.role = .primary ∨ i.role = .fallback) ∧ ∃ x, C.Answered i x
  shielded : B.atStart.state B.start = .opened → ∀ i ∈ C.asked B K s, i.role ≠ .primary
  fallback : (∃ i ∈ C.asked B K s, i.role = .fallback) ↔
    (∃ a M, C.Reaches s a M) ∧ (B.atStart.state B.start = .opened ∨
      ∃ i ∈ C.asked B K s, i.role = .primary ∧ ∃ e, i.answer = .error e)
  named : ∀ fields modelUsed, C.Succeeds B K s fields modelUsed →
    ∃ i ∈ C.asked B K s, ∃ x, C.Answered i x ∧ x.fields = fields ∧ modelUsed = C.modelName i.role

/-- The fallback's answer becomes the extraction, under another name. -/
def Misnamed : Prop :=
  ∃ a M, C.Reaches s a M ∧
    (B.atStart.state B.start = .opened ∨ ∃ e, C.primary (C.prompt a) M = .error e) ∧
    (∃ raw x, C.fallback (C.prompt a) M = .ok raw ∧ coerce C.tools raw = .ok x) ∧
    C.llmFallbackModel ≠ C.llmPrimaryModel

/-! ## One call of the chain -/

section
variable {C B K s} {a : ExtractArgs} {M : OutputModel}

/-- The models that were asked before the one whose answer counts, and that one:
    the fallback alone, the primary alone, or both. -/
inductive Course (C : ExtractionChain) (B : BreakerUse) (prompt : String) (M : OutputModel) :
    List Invocation → Invocation → Prop
  | shortCircuited : B.atStart.state B.start = .opened →
      Course C B prompt M [] ⟨.fallback, C.fallback prompt M⟩
  | answered {raw} : B.atStart.state B.start ≠ .opened → C.primary prompt M = .ok raw →
      Course C B prompt M [] ⟨.primary, .ok raw⟩
  | raised {e} : B.atStart.state B.start ≠ .opened → C.primary prompt M = .error e →
      Course C B prompt M [⟨.primary, .error e⟩] ⟨.fallback, C.fallback prompt M⟩

/-- **A call of the chain returns what the last model answered**, coerced. -/
theorem extract_course (hprod : C.model = none) (hM : buildOutputModel C.tools a.jsonSchema = .ok M) :
    ∃ before i, Course C B (C.prompt a) M before i ∧
      (C.extract B a).invocations = before ++ [i] ∧
      (C.extract B a).result = i.answer.bind (coerce C.tools) := by
  by_cases hopen : B.atStart.state B.start = .opened
  · refine ⟨_, _, .shortCircuited hopen, ?_, ?_⟩ <;>
      simp only [extract, hM, invoke, hprod, hopen, if_true, askFallback]
  · cases hp : C.primary (C.prompt a) M with
    | ok raw =>
      refine ⟨_, _, .answered hopen hp, ?_, ?_⟩ <;>
        simp only [extract, hM, invoke, hprod, hopen, if_false, hp, List.nil_append]
    | error e =>
      refine ⟨_, _, .raised hopen hp, ?_, ?_⟩ <;>
        simp only [extract, hM, invoke, hprod, hopen, if_false, hp, askFallback]

theorem bind_coerce_iff {i : Invocation} {x : LLMExtraction} :
    i.answer.bind (coerce C.tools) = .ok x ↔ C.Answered i x := by
  unfold Answered
  cases i.answer with
  | error e => simp [Except.bind]
  | ok raw => simp [Except.bind]

/-- Between its check and its end no other call touches the breaker: then the
    breaker is used as by `CircuitBreaker.call`. -/
theorem extract_breaker (hprod : C.model = none) (hM : buildOutputModel C.tools a.jsonSchema = .ok M)
    (halone : B.atFinish = B.atStart) :
    (C.extract B a).breaker =
      (B.atStart.call ⟨B.start, B.finish, match C.primary (C.prompt a) M with
        | .ok _ => .returned
        | .error _ => .raised⟩).1 := by
  by_cases hopen : B.atStart.state B.start = .opened
  · simp only [extract, hM, invoke, hprod, hopen, if_true, askFallback, CircuitBreaker.call]
  · cases hp : C.primary (C.prompt a) M <;>
      simp only [extract, hM, invoke, hprod, hopen, if_false, hp, askFallback, CircuitBreaker.call,
        halone]

/-! ## The node -/

theorem asked_of_asks (h : AsksChain s a) : C.asked B K s = (C.extract B a).invocations := by
  rw [asked, extractNode_of_asks h, List.flatMap_cons, List.flatMap_nil, List.append_nil]

theorem asked_of_not_asks (h : ∀ a, ¬ AsksChain s a) : C.asked B K s = [] := by
  rw [asked, (extractNode_of_not_asks h).1, List.flatMap_nil]

/-- The arguments are those of the state. -/
theorem AsksChain.unique {a' : ExtractArgs} (h : AsksChain s a) (h' : AsksChain s a') : a = a' := by
  obtain ⟨t, c, ht, hc, rfl⟩ := h.ids
  obtain ⟨t', c', ht', hc', rfl⟩ := h'.ids
  rw [ht, Option.some.injEq] at ht'
  rw [hc, Option.some.injEq] at hc'
  rw [ht', hc']

/-- The node succeeds with what the chain returns. -/
theorem succeeds_iff {fields : Obj} {modelUsed : Option String} :
    C.Succeeds B K s fields modelUsed ↔
      ∃ a x, AsksChain s a ∧ (C.extract B a).result = .ok x ∧ x.fields = fields ∧
        modelUsed = some C.llmPrimaryModel := by
  by_cases hall : ∀ a, ¬ AsksChain s a
  · constructor
    · rintro ⟨u, hu, hfields, -⟩
      obtain ⟨-, v, hv, hnone⟩ := extractNode_of_not_asks (K := C.components B K) hall
      rw [hu] at hv
      cases hv
      rw [hnone] at hfields
      cases hfields
    · rintro ⟨a, x, ha, -⟩
      exact absurd ha (hall a)
  · obtain ⟨a, ha⟩ := not_forall_not.1 hall
    unfold Succeeds
    rw [extractNode_of_asks ha]
    have hres : (C.components B K).extract a = (C.extract B a).result := rfl
    constructor
    · rintro ⟨u, hu, hfields, hmodel⟩
      cases hx : (C.extract B a).result with
      | error e =>
        rw [hx] at hres
        simp only [extractUpdate, hres, Except.ok.injEq] at hu
        rw [← hu] at hfields
        cases hfields
      | ok x =>
        rw [hx] at hres
        simp only [extractUpdate, hres, Except.ok.injEq] at hu
        rw [← hu] at hfields hmodel
        exact ⟨a, x, ha, hx, Option.some.inj hfields, hmodel.symm⟩
    · rintro ⟨a', x, ha', hx, rfl, rfl⟩
      obtain rfl := AsksChain.unique ha ha'
      rw [hx] at hres
      simp only [extractUpdate, hres]
      exact ⟨_, rfl, rfl, rfl⟩

/-- Without a call of `_invoke` no model is asked and nothing is extracted. -/
theorem of_not_reaches (h : ∀ a M, ¬ C.Reaches s a M) :
    C.asked B K s = [] ∧ ∀ fields modelUsed, ¬ C.Succeeds B K s fields modelUsed := by
  by_cases hall : ∀ a, ¬ AsksChain s a
  · refine ⟨asked_of_not_asks hall, fun fields modelUsed hsucc => ?_⟩
    obtain ⟨a, x, ha, -⟩ := succeeds_iff.1 hsucc
    exact hall a ha
  · obtain ⟨a, ha⟩ := not_forall_not.1 hall
    cases hM : buildOutputModel C.tools a.jsonSchema with
    | ok M => exact absurd ⟨ha, hM⟩ (h a M)
    | error e =>
      have hrun : C.extract B a = { result := .error e, breaker := B.atStart, invocations := [] } := by
        simp only [extract, hM]
      refine ⟨by rw [asked_of_asks ha, hrun], fun fields modelUsed hsucc => ?_⟩
      obtain ⟨a', x, ha', hx, -⟩ := succeeds_iff.1 hsucc
      obtain rfl := AsksChain.unique ha ha'
      rw [hrun] at hx
      cases hx

/-- What the node did after a call of `_invoke`. -/
theorem of_reaches (hprod : C.model = none) (h : C.Reaches s a M) :
    ∃ before i, Course C B (C.prompt a) M before i ∧ C.asked B K s = before ++ [i] ∧
      ∀ fields modelUsed, C.Succeeds B K s fields modelUsed ↔
        ∃ x, C.Answered i x ∧ x.fields = fields ∧ modelUsed = some C.llmPrimaryModel := by
  obtain ⟨before, i, hcourse, hinv, hres⟩ := extract_course (B := B) hprod h.2
  refine ⟨before, i, hcourse, by rw [asked_of_asks h.1, hinv], fun fields modelUsed => ?_⟩
  rw [succeeds_iff]
  constructor
  · rintro ⟨a', x, ha', hx, hfields, hmodel⟩
    obtain rfl := AsksChain.unique h.1 ha'
    rw [hres, bind_coerce_iff] at hx
    exact ⟨x, hx, hfields, hmodel⟩
  · rintro ⟨x, hx, hfields, hmodel⟩
    exact ⟨a, x, h.1, hres.trans (bind_coerce_iff.2 hx), hfields, hmodel⟩

section
variable {prompt : String} {before : List Invocation} {i : Invocation}

/-- Only the last model that is asked answers, and it is one of the two. -/
theorem Course.last (h : Course C B prompt M before i) :
    (i.role = .primary ∨ i.role = .fallback) ∧
      ∀ j ∈ before ++ [i], ∀ x, C.Answered j x → j = i := by
  cases h with
  | shortCircuited hopen => simp
  | answered hopen hp => simp
  | raised hopen hp => simp [Answered]

theorem Course.shielded (h : Course C B prompt M before i) (hopen : B.atStart.state B.start = .opened) :
    ∀ j ∈ before ++ [i], j.role ≠ .primary := by
  cases h with
  | shortCircuited _ => simp
  | answered hclosed _ => exact absurd hopen hclosed
  | raised hclosed _ => exact absurd hopen hclosed

theorem Course.fallback_iff (h : Course C B prompt M before i) :
    (∃ j ∈ before ++ [i], j.role = .fallback) ↔ (B.atStart.state B.start = .opened ∨
      ∃ j ∈ before ++ [i], j.role = .primary ∧ ∃ e, j.answer = .error e) := by
  cases h with
  | shortCircuited hopen => simp [hopen]
  | answered hclosed hp => simp [hclosed]
  | raised hclosed hp => simp [hclosed]

end

/-- The name recorded is the right one iff the last model is the primary, or is
    called as it. -/
theorem Course.misnamed_iff {before : List Invocation} {i : Invocation}
    (h : Course C B (C.prompt a) M before i) :
    ((∃ x, C.Answered i x) → C.modelName i.role = some C.llmPrimaryModel) ↔
      ¬ ((B.atStart.state B.start = .opened ∨ ∃ e, C.primary (C.prompt a) M = .error e) ∧
        (∃ raw x, C.fallback (C.prompt a) M = .ok raw ∧ coerce C.tools raw = .ok x) ∧
        C.llmFallbackModel ≠ C.llmPrimaryModel) := by
  have hanswered : (∃ x, C.Answered ⟨.fallback, C.fallback (C.prompt a) M⟩ x) ↔
      ∃ raw x, C.fallback (C.prompt a) M = .ok raw ∧ coerce C.tools raw = .ok x :=
    ⟨fun ⟨x, raw, h⟩ => ⟨raw, x, h⟩, fun ⟨raw, x, h⟩ => ⟨x, raw, h⟩⟩
  cases h with
  | shortCircuited hopen =>
    rw [hanswered, modelName, Option.some.injEq]
    simp only [hopen, true_or, true_and, not_and, not_not]
  | answered hopen hp => simp [modelName, hopen, hp]
  | raised hopen hp =>
    rw [hanswered, modelName, Option.some.injEq]
    simp only [hp, Except.error.injEq, exists_eq', or_true, true_and, not_and, not_not]

end

/-- **The recorded model is the one that answered** iff the fallback's answer
    does not become the extraction, or both models have one name. -/
theorem provenance_iff (hprod : C.model = none) : C.Provenance B K s ↔ ¬ C.Misnamed B s := by
  by_cases hreach : ∃ a M, C.Reaches s a M
  · obtain ⟨a, M, h⟩ := hreach
    obtain ⟨before, i, hcourse, hasked, hsucc⟩ := of_reaches (B := B) (K := K) hprod h
    have hmis : C.Misnamed B s ↔
        ((B.atStart.state B.start = .opened ∨ ∃ e, C.primary (C.prompt a) M = .error e) ∧
          (∃ raw x, C.fallback (C.prompt a) M = .ok raw ∧ coerce C.tools raw = .ok x) ∧
          C.llmFallbackModel ≠ C.llmPrimaryModel) := by
      constructor
      · rintro ⟨a', M', h', hrest⟩
        obtain rfl := AsksChain.unique h.1 h'.1
        obtain rfl : M = M' := Except.ok.inj (h.2.symm.trans h'.2)
        exact hrest
      · exact fun hrest => ⟨a, M, h, hrest⟩
    rw [hmis, ← hcourse.misnamed_iff]
    obtain ⟨hrole, hlast⟩ := hcourse.last
    constructor
    · rintro ⟨-, -, -, hnamed⟩ ⟨x, hx⟩
      obtain ⟨j, hj, y, hy, -, hname⟩ := hnamed x.fields _ ((hsucc _ _).2 ⟨x, hx, rfl, rfl⟩)
      obtain rfl := hlast j (hasked ▸ hj) y hy
      exact hname.symm
    · intro hname
      refine ⟨⟨?_, ?_⟩, ?_, ?_, ?_⟩
      · rintro ⟨fields, modelUsed, hs⟩
        obtain ⟨x, hx, -⟩ := (hsucc fields modelUsed).1 hs
        exact ⟨i, by rw [hasked]; exact List.mem_append_right _ List.mem_cons_self, hrole, x, hx⟩
      · rintro ⟨j, hj, -, x, hx⟩
        obtain rfl := hlast j (hasked ▸ hj) x hx
        exact ⟨x.fields, _, (hsucc _ _).2 ⟨x, hx, rfl, rfl⟩⟩
      · rw [hasked]
        exact hcourse.shielded
      · rw [hasked, hcourse.fallback_iff]
        exact (and_iff_right ⟨a, M, h⟩).symm
      · intro fields modelUsed hs
        obtain ⟨x, hx, hfields, rfl⟩ := (hsucc fields modelUsed).1 hs
        exact ⟨i, by rw [hasked]; exact List.mem_append_right _ List.mem_cons_self, x, hx, hfields,
          (hname ⟨x, hx⟩).symm⟩
  · -- nothing is asked, and nothing is to be named
    have hnone : ∀ a M, ¬ C.Reaches s a M := fun a M h => hreach ⟨a, M, h⟩
    obtain ⟨hasked, hfails⟩ := of_not_reaches (B := B) (K := K) hnone
    refine iff_of_true ⟨⟨?_, ?_⟩, ?_, ?_, ?_⟩ ?_
    · rintro ⟨fields, modelUsed, hs⟩
      exact absurd hs (hfails _ _)
    · rintro ⟨i, hi, -⟩
      rw [hasked] at hi
      cases hi
    · intro _ i hi
      rw [hasked] at hi
      cases hi
    · simp [hasked, hreach]
    · intro fields modelUsed hs
      exact absurd hs (hfails _ _)
    · rintro ⟨a, M, h, -⟩
      exact hnone a M h

/-- An answer with one field. -/
def Sample.answer : Except String Raw := .ok (.data [("fields", .obj [("total", .str "100")])])

/-- A chain whose fallback answers. -/
def Sample.chain (primary : Except String Raw) : ExtractionChain where
  tools := OcrService.Sample.chainTools
  primary _ _ := primary
  fallback _ _ := Sample.answer
  llmPrimaryModel := "claude-sonnet-4-6"
  llmFallbackModel := "gpt-4o"
  embed _ := .error "no embedder"
  client _ := .error "no vector store"

/-- A call under a closed breaker. -/
def Sample.use : BreakerUse where
  atStart := {}
  start := 0
  atFinish := {}
  finish := 1

/-- A primary that answers. -/
theorem provenance_iff_primary :
    (Sample.chain Sample.answer).Provenance Sample.use (answering noFields) parsedDocument := by
  refine (provenance_iff (Sample.chain Sample.answer) Sample.use (answering noFields) parsedDocument
    rfl).2 ?_
  rintro ⟨a, M, -, h | ⟨e, h⟩, -⟩
  · cases h
  · cases h

/-- The primary raises, the fallback answers, and the name recorded is that of
    the primary. -/
theorem fallback_answer_is_misnamed :
    (Sample.chain (.error "overloaded")).asked Sample.use (answering noFields) parsedDocument =
        [⟨.primary, .error "overloaded"⟩, ⟨.fallback, Sample.answer⟩] ∧
      (Sample.chain (.error "overloaded")).Succeeds Sample.use (answering noFields) parsedDocument
        [("total", .str "100")] (some "claude-sonnet-4-6") ∧
      ¬ (Sample.chain (.error "overloaded")).Provenance Sample.use (answering noFields)
        parsedDocument := by
  have hasked : (Sample.chain (.error "overloaded")).asked Sample.use (answering noFields)
      parsedDocument = [⟨.primary, .error "overloaded"⟩, ⟨.fallback, Sample.answer⟩] := rfl
  have hsucc : (Sample.chain (.error "overloaded")).Succeeds Sample.use (answering noFields)
      parsedDocument [("total", .str "100")] (some "claude-sonnet-4-6") := ⟨_, rfl, rfl, rfl⟩
  refine ⟨hasked, hsucc, fun h => ?_⟩
  obtain ⟨i, hi, x, ⟨raw, hanswer, -⟩, -, hname⟩ := h.named _ _ hsucc
  rw [hasked] at hi
  rcases List.mem_pair.1 hi with rfl | rfl
  · cases hanswer
  · exact absurd hname (by decide)

end ExtractionChain

end OcrService
