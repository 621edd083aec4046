/-
  The final state of a run on an empty thread.

  Whatever storage, parser, guardrails and LLM answer, a final state has one of
  the statuses `completed`, `review` and `rejected`, a confidence in the unit
  interval, and the reports of the shipped guardrails (`fresh_final`).
-/
import OcrService.Pipeline.Retry
import OcrService.Db.Models

namespace OcrService

open PyData Nodes

/-! ## The score -/

theorem fillRate_nonneg (props : ℕ) (extracted : Obj) : 0 ≤ fillRate props extracted := by
  unfold fillRate
  refine le_min zero_le_one (div_nonneg (Nat.cast_nonneg _) ?_)
  split_ifs <;> exact Nat.cast_nonneg _

theorem llmSignal_nonneg {llmSelf completeness fill : ℚ} (hc : 0 ≤ completeness) (hf : 0 ≤ fill) :
    0 ≤ llmSignal llmSelf completeness fill := by
  unfold llmSignal
  split_ifs with h
  · exact h.le
  · exact le_min hc hf

theorem breakdown_mem_unit (extracted : Obj) (required : List String) (props : ℕ) (llmSelf : ℚ)
    {mult : ℚ} (h0 : 0 ≤ mult) (h1 : mult ≤ 1) :
    0 ≤ (breakdown extracted required props llmSelf mult).guardrailAdjusted ∧
      (breakdown extracted required props llmSelf mult).guardrailAdjusted ≤ 1 := by
  obtain ⟨hc0, hc1⟩ := completenessScore_mem_unit extracted required
  have hf := fillRate_nonneg props extracted
  exact score_mem_unit (llmSignal_nonneg hc0 hf) hc0 hf hc1 h0 h1

/-! ## The guardrail reports -/

theorem runGuardrails_name (T : TextTools) (text : String) :
    ∀ o ∈ runGuardrails T text, o.name = "injection" ∨ o.name = "text_quality" := by
  simp only [runGuardrails, defaultGuardrails, List.map_cons, List.map_nil, List.mem_cons,
    List.not_mem_nil, or_false]
  rintro o (rfl | rfl)
  · left
    simp only [injectionGuardrail]
    split <;> rfl
  · right
    simp only [textQualityGuardrail]
    split_ifs <;> rfl

/-! ## The final state -/

/-- What a final state holds. -/
structure Final (K : Components) (f : ExtractionState) : Prop where
  status : ∃ b : Branch, f.status = some b.status
  confidence : IfSome (fun q => 0 ≤ q ∧ q ≤ 1) f.confidence
  guardrails : IfSome (fun outcomes => ∃ text, outcomes = runGuardrails K.tools text) f.guardrailResults

theorem final_settle {K : Components} {s : ExtractionState} (hs : s.status ≠ some .cancelled)
    (hc : IfSome (fun q => 0 ≤ q ∧ q ≤ 1) s.confidence)
    (hg : IfSome (fun outcomes => ∃ text, outcomes = runGuardrails K.tools text) s.guardrailResults) :
    Final K (settle s) :=
  ⟨⟨_, settle_status hs⟩, by rw [settle_confidence]; exact hc,
    by rw [settle_guardrailResults]; exact hg⟩

theorem final_error {K : Components} {s f : ExtractionState} (hs : s.status = some .error)
    (hc : s.confidence = none)
    (hg : IfSome (fun outcomes => ∃ text, outcomes = runGuardrails K.tools text) s.guardrailResults)
    (h : finish s = .ok f) : Final K f := by
  rw [finish, if_pos (by simp [halted, hs])] at h
  cases h
  exact final_settle (by simp [hs]) (by simp [hc]) hg

section
variable {K : Components} {d t : Uuid} {document : Document} {schema : Option Schema}
  {f : ExtractionState}

/-- **A run on an empty thread ends in a terminal status, with a confidence in
    the unit interval.** -/
theorem fresh_final (h : (ainvoke K none (initialState d t document schema)).result = .ok f) :
    Final K f := by
  set input := initialState d t document schema
  obtain ⟨hres, -⟩ := supersteps_fresh (K := K) (k := 19)
    (initialState_ready {} : Ready (ExtractionState.update {} input) _ t document.schemaId) rfl
  replace h : (supersteps K (19 + 6) .parse input).result = .ok f := h
  rw [show ExtractionState.update {} input = input from rfl] at hres
  rw [hres] at h
  generalize course K input (document.fileStorageKey.getD "") t document.schemaId = c at h
  cases c with
  | unparsed e => exact final_error rfl rfl ifSome_none h
  | empty r => exact final_error rfl rfl ifSome_none h
  | blocked r o => exact final_error rfl rfl (ifSome_some.2 ⟨r.text, rfl⟩) h
  | unextracted r e => exact final_error rfl rfl (ifSome_some.2 ⟨r.text, rfl⟩) h
  | extracted r x =>
    set s := (Course.extracted r x).reach K input with hs
    rw [finish, if_neg (show ¬ halted s = true from Bool.false_ne_true)] at h
    cases hp : propertyCount (s.jsonSchema.getD []) with
    | error e => rw [hp] at h; cases h
    | ok props =>
      rw [hp] at h; cases h
      obtain ⟨h0, h1⟩ := aggregateMultiplier_mem_unit (runGuardrails_storable K.tools r.text)
      have hne : (some .routing : Option DocumentStatus) ≠ some .cancelled := by decide
      exact final_settle hne (ifSome_some.2 (breakdown_mem_unit _ _ props _ h0 h1))
        (ifSome_some.2 ⟨r.text, rfl⟩)

end

end OcrService
