/-
  Confidence scoring (`app/domain/confidence.py`), in exact rational
  arithmetic.
-/
import OcrService.Lib.Json
import OcrService.Lib.Decimal

namespace OcrService

open PyData

structure ConfidenceBreakdown where
  llm : ℚ
  completeness : ℚ
  semantic : ℚ
  guardrailAdjusted : ℚ
  deriving DecidableEq

/-- `_is_present`, on the result of `extracted.get(f)`. -/
def isPresent : Option Json → Bool
  | none | some .null => false
  | some (.str s) => PyStr.strip s.toList ≠ []
  | some _ => true

/-- `completeness_score`: the fraction of the required fields that are present. -/
def completenessScore (extracted : Obj) (requiredFields : List String) : ℚ :=
  if requiredFields = [] then 1
  else (requiredFields.countP fun f => isPresent (extracted.get? f)) / requiredFields.length

/-- `missing_required`. -/
def missingRequired (extracted : Obj) (requiredFields : List String) : List String :=
  requiredFields.filter fun f => !isPresent (extracted.get? f)

/-- `score`. -/
def score (llmSelf completeness semantic guardrailMultiplier : ℚ) : ConfidenceBreakdown :=
  { llm := Decimal.round 4 llmSelf
    completeness := Decimal.round 4 completeness
    semantic := Decimal.round 4 semantic
    guardrailAdjusted :=
      Decimal.round 4 (min (min llmSelf completeness) semantic * guardrailMultiplier) }

theorem completenessScore_mem_unit (extracted : Obj) (requiredFields : List String) :
    0 ≤ completenessScore extracted requiredFields ∧
      completenessScore extracted requiredFields ≤ 1 := by
  unfold completenessScore
  split_ifs with h
  · exact ⟨zero_le_one, le_rfl⟩
  · have hpos : (0 : ℚ) < requiredFields.length := by
      exact_mod_cast List.length_pos_of_ne_nil h
    refine ⟨by positivity, (div_le_one hpos).2 ?_⟩
    exact_mod_cast List.countP_le_length

/-- **The score of signals in the unit interval is in the unit interval.** -/
theorem score_mem_unit {llm completeness semantic mult : ℚ} (hl : 0 ≤ llm) (hc : 0 ≤ completeness)
    (hs : 0 ≤ semantic) (hc' : completeness ≤ 1) (hm : 0 ≤ mult) (hm' : mult ≤ 1) :
    0 ≤ (score llm completeness semantic mult).guardrailAdjusted ∧
      (score llm completeness semantic mult).guardrailAdjusted ≤ 1 := by
  have h0 : 0 ≤ min (min llm completeness) semantic := le_min (le_min hl hc) hs
  have h1 : min (min llm completeness) semantic ≤ 1 :=
    (min_le_left _ _).trans ((min_le_right _ _).trans hc')
  exact Decimal.round_mem_unit 4 (mul_nonneg h0 hm) (mul_le_one₀ h1 hm hm')

end OcrService
