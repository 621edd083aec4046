/-
  Missing required fields and the route of a document.

  The requirement is that a missing required field forces the low tier.
  `score_node` only lowers the completeness signal, so the document is
  dead-lettered when one of the signals alone is too low (`Weak`).

  * `missing_required_forces_dlq_iff`: the documents on which a missing required
    field leads to the dead-letter route;
  * `required_fields_forcing_iff`: the lists of required fields for which it
    does on every document.
-/
import OcrService.Pipeline.Nodes

namespace OcrService

open PyData Nodes

/-- A signal that alone, under the guardrail multiplier, stays below the medium
    threshold. -/
def Weak (mult medium signal : ℚ) : Prop := Decimal.round 4 (signal * mult) < medium

/-- The state `s` with what `score_node` and `route_decision` read of it. -/
def ExtractionState.withSignals (s : ExtractionState) (extracted : Obj) (required : List String)
    (jsonSchema : Obj) (llm mult high medium : ℚ) : ExtractionState :=
  { s with
    extractedJson := some extracted, requiredFields := some required, jsonSchema := some jsonSchema
    llmConfidence := some llm, guardrailMultiplier := some mult
    confidenceHigh := some high, confidenceMedium := some medium }

section
variable {mult medium high : ℚ}

theorem Weak.mono (hm : 0 ≤ mult) {x y : ℚ} (hxy : x ≤ y) (hy : Weak mult medium y) :
    Weak mult medium x :=
  (Decimal.round_mono 4 (mul_le_mul_of_nonneg_right hxy hm)).trans_lt hy

/-- The least of two signals is weak iff one of them is. -/
theorem weak_min_iff (hm : 0 ≤ mult) {x y : ℚ} :
    Weak mult medium (min x y) ↔ Weak mult medium x ∨ Weak mult medium y := by
  constructor
  · intro h
    rcases min_choice x y with hx | hy
    · exact Or.inl (hx ▸ h)
    · exact Or.inr (hy ▸ h)
  · rintro (h | h)
    · exact h.mono hm (min_le_left _ _)
    · exact h.mono hm (min_le_right _ _)

/-! ## The score -/

/-- The completeness signal, by the fields that are missing. -/
theorem completenessScore_eq {extracted : Obj} {required : List String} (hne : required ≠ []) :
    completenessScore extracted required =
      ((required.length - (missingRequired extracted required).length : ℕ) : ℚ) / required.length := by
  have hcount : required.countP (fun f => isPresent (extracted.get? f)) =
      required.length - (missingRequired extracted required).length := by
    rw [missingRequired, ← List.countP_eq_length_filter,
      List.length_eq_countP_add_countP fun f => isPresent (extracted.get? f)]
    simp
  rw [completenessScore, if_neg hne, hcount]

/-- **The score is below the medium threshold** iff a signal is weak; a
    self-report of `0` is none. -/
theorem breakdown_lt_iff (hm : 0 ≤ mult) {extracted : Obj} {required : List String} {props : ℕ}
    {llm : ℚ} :
    (breakdown extracted required props llm mult).guardrailAdjusted < medium ↔
      Weak mult medium (completenessScore extracted required) ∨
        Weak mult medium (fillRate props extracted) ∨ (0 < llm ∧ Weak mult medium llm) := by
  have hscore : (breakdown extracted required props llm mult).guardrailAdjusted < medium ↔
      Weak mult medium (min (min (llmSignal llm (completenessScore extracted required)
        (fillRate props extracted)) (completenessScore extracted required))
        (fillRate props extracted)) := Iff.rfl
  rw [hscore, weak_min_iff hm, weak_min_iff hm, llmSignal]
  split_ifs with hl
  · constructor
    · rintro ((h | h) | h)
      · exact Or.inr (Or.inr ⟨hl, h⟩)
      · exact Or.inl h
      · exact Or.inr (Or.inl h)
    · rintro (h | h | ⟨-, h⟩)
      · exact Or.inl (Or.inr h)
      · exact Or.inr h
      · exact Or.inl (Or.inl h)
  · -- without a self-report the signal is the least of the other two
    rw [weak_min_iff hm]
    constructor
    · rintro (((h | h) | h) | h)
      · exact Or.inl h
      · exact Or.inr (Or.inl h)
      · exact Or.inl h
      · exact Or.inr (Or.inl h)
    · rintro (h | h | ⟨hpos, -⟩)
      · exact Or.inl (Or.inr h)
      · exact Or.inr h
      · exact absurd hpos hl

theorem branchOf_eq_dlq_iff (ht : medium ≤ high) {confidence : ℚ} :
    branchOf confidence high medium = .dlq ↔ confidence < medium := by
  unfold branchOf
  split_ifs with h₁ h₂
  · simpa using ht.trans h₁
  · simpa using h₂
  · simpa using h₂

/-- The route after scoring. -/
theorem route_scored_iff (hm : 0 ≤ mult) (ht : medium ≤ high) (s : ExtractionState) (extracted : Obj)
    (required : List String) (jsonSchema : Obj) (llm : ℚ) :
    (∀ u, (scoreNode (s.withSignals extracted required jsonSchema llm mult high medium)).result =
        .ok u →
      routeDecision ((s.withSignals extracted required jsonSchema llm mult high medium).update u) =
        .dlq) ↔
      ∀ props, propertyCount jsonSchema = .ok props → halted s = true ∨
        Weak mult medium (completenessScore extracted required) ∨
        Weak mult medium (fillRate props extracted) ∨ (0 < llm ∧ Weak mult medium llm) := by
  have hhalt : halted (s.withSignals extracted required jsonSchema llm mult high medium) = halted s :=
    rfl
  by_cases hs : halted s = true
  · refine ⟨fun _ _ _ => Or.inl hs, ?_⟩
    intro _ u hu
    rw [scoreNode, if_pos (hhalt.trans hs), Except.ok.injEq] at hu
    rw [← hu, ExtractionState.update_empty, routeDecision, if_pos (hhalt.trans hs)]
  · simp only [hs, Bool.false_eq_true, false_or, ← breakdown_lt_iff hm, scoreNode, hhalt, if_false]
    have hschema : (s.withSignals extracted required jsonSchema llm mult high medium).jsonSchema.getD
        [] = jsonSchema := rfl
    rw [hschema]
    cases propertyCount jsonSchema with
    | error e => simp
    | ok props =>
      simp only [Except.ok.injEq, forall_eq']
      exact branchOf_eq_dlq_iff ht

/-- **A missing required field leads to the dead-letter route** iff the node is
    not run, or the share of required fields present, the fill rate or the
    self-report is too low by itself. -/
theorem missing_required_forces_dlq_iff (s : ExtractionState) (extracted : Obj)
    (required : List String) (jsonSchema : Obj) (llm mult high medium : ℚ) (hm : 0 < mult)
    (ht : medium < high) :
    (missingRequired extracted required ≠ [] →
        ∀ u, (scoreNode (s.withSignals extracted required jsonSchema llm mult high medium)).result =
            .ok u →
          routeDecision ((s.withSignals extracted required jsonSchema llm mult high medium).update
            u) = .dlq) ↔
      (missingRequired extracted required ≠ [] →
        ∀ props, propertyCount jsonSchema = .ok props →
          halted s = true ∨
          Weak mult medium
            (((required.length - (missingRequired extracted required).length : ℕ) : ℚ) /
              required.length) ∨
          Weak mult medium
            (min 1 (extracted.length / (if props = 0 then max extracted.length 1 else props))) ∨
          (0 < llm ∧ Weak mult medium llm)) := by
  refine imp_congr_right fun hmiss => ?_
  have hne : required ≠ [] := by
    rintro rfl
    exact hmiss rfl
  rw [route_scored_iff hm.le ht.le, completenessScore_eq hne]
  rfl

/-- One of three required fields is missing, and `2/3` is below the threshold. -/
theorem missing_required_forces_dlq_iff_one :
    missingRequired [("invoiceDate", .str "2026-01-31"), ("totalAmount", .int 100)]
        ["invoiceNumber", "invoiceDate", "totalAmount"] = ["invoiceNumber"] ∧
      ∃ u, (scoreNode (ExtractionState.withSignals {}
          [("invoiceDate", .str "2026-01-31"), ("totalAmount", .int 100)]
          ["invoiceNumber", "invoiceDate", "totalAmount"] [] (9 / 10) 1 (17 / 20) (7 / 10))).result =
            .ok u ∧
        routeDecision ((ExtractionState.withSignals {}
          [("invoiceDate", .str "2026-01-31"), ("totalAmount", .int 100)]
          ["invoiceNumber", "invoiceDate", "totalAmount"] [] (9 / 10) 1 (17 / 20) (7 / 10)).update u) =
            .dlq := by
  have hone : missingRequired [("invoiceDate", .str "2026-01-31"), ("totalAmount", .int 100)]
      ["invoiceNumber", "invoiceDate", "totalAmount"] = ["invoiceNumber"] := by decide +kernel
  refine ⟨hone, _, rfl, (missing_required_forces_dlq_iff {} _ _ [] (9 / 10) 1 (17 / 20) (7 / 10)
    (by norm_num) (by norm_num)).2 ?_ (by rw [hone]; simp) _ rfl⟩
  intro _ props _
  refine Or.inr (Or.inl ?_)
  rw [hone]
  unfold Weak
  decide +kernel

/-- An invoice with all the required fields but its number. -/
def numberless : Obj :=
  [("invoiceDate", .str "2026-01-31"), ("vendorName", .str "Acme"), ("totalAmount", .int 100),
    ("currency", .str "EUR")]

def invoiceRequired : List String :=
  ["invoiceNumber", "invoiceDate", "vendorName", "totalAmount", "currency"]

def invoiceSchema : Obj := [("properties", .obj (invoiceRequired.map fun k => (k, .obj [])))]

/-- `4/5` of the required fields and of the schema are there, so the invoice
    goes to review. -/
theorem numberless_goes_to_review :
    missingRequired numberless invoiceRequired = ["invoiceNumber"] ∧
      ∃ u, (scoreNode (ExtractionState.withSignals {} numberless invoiceRequired invoiceSchema
          (19 / 20) 1 (17 / 20) (3 / 5))).result = .ok u ∧
        routeDecision ((ExtractionState.withSignals {} numberless invoiceRequired invoiceSchema
          (19 / 20) 1 (17 / 20) (3 / 5)).update u) = .review := by
  refine ⟨by decide +kernel, _, rfl, ?_⟩
  decide +kernel

/-! ## The required fields that force the route -/

/-- Whatever is extracted, whatever the schema and the self-report: a missing
    required field leads to the dead-letter route. -/
def Forcing (required : List String) (mult high medium : ℚ) : Prop :=
  ∀ (s : ExtractionState) (extracted jsonSchema : Obj) (llm : ℚ), 0 ≤ llm → llm ≤ 1 →
    missingRequired extracted required ≠ [] →
    ∀ u, (scoreNode (s.withSignals extracted required jsonSchema llm mult high medium)).result =
        .ok u →
      routeDecision ((s.withSignals extracted required jsonSchema llm mult high medium).update u) =
        .dlq

/-- What is extracted when only the field `f` is missing. -/
def allBut (f : String) (required : List String) : Obj :=
  (f, .null) :: ((required.dedup.filter (· ≠ f)).map fun k => (k, .bool true))

theorem get?_map_const (v : Json) {k : String} : ∀ {ks : List String}, k ∈ ks →
    Obj.get? (ks.map fun k => (k, v)) k = some v
  | k' :: ks, h => by
    by_cases hk : k' = k
    · simp [Obj.get?, hk]
    · simpa [Obj.get?, hk] using get?_map_const v ((List.mem_cons.1 h).resolve_left (Ne.symm hk))

theorem isPresent_allBut {f k : String} {required : List String} (hk : k ∈ required) :
    isPresent ((allBut f required).get? k) = decide (k ≠ f) := by
  by_cases hf : k = f
  · simp [allBut, Obj.get?, hf, isPresent]
  · have hmem : k ∈ required.dedup.filter (· ≠ f) := by simpa [hf] using hk
    rw [allBut, Obj.get?, if_neg (Ne.symm hf), get?_map_const _ hmem]
    simp [isPresent, hf]

theorem missingRequired_allBut (f : String) (required : List String) :
    missingRequired (allBut f required) required = required.filter (· = f) := by
  refine List.filter_congr fun k hk => ?_
  rw [isPresent_allBut hk]
  simp

/-- Where a field is missing, so is every occurrence of it. -/
theorem count_le_missing {extracted : Obj} {required : List String} {f : String}
    (hf : f ∈ missingRequired extracted required) :
    required.count f ≤ (missingRequired extracted required).length := by
  have hcount : (missingRequired extracted required).count f = required.count f :=
    List.count_filter (List.mem_filter.1 hf).2
  rw [← hcount]
  exact List.count_le_length

/-- **The required fields for which the law holds**: without any one of them the
    completeness signal is weak. -/
theorem required_fields_forcing_iff {required : List String} (hm : 0 < mult) (ht : medium < high) :
    Forcing required mult high medium ↔
      ∀ f ∈ required,
        Weak mult medium (((required.length - required.count f : ℕ) : ℚ) / required.length) := by
  constructor
  · intro hlaw f hf
    have hne : required ≠ [] := List.ne_nil_of_mem hf
    have hlen : (0 : ℚ) < required.length := by exact_mod_cast List.length_pos_of_ne_nil hne
    have hmiss := missingRequired_allBut f required
    have hcount : (missingRequired (allBut f required) required).length = required.count f := by
      rw [hmiss, ← List.countP_eq_length_filter, List.count]
      refine List.countP_congr fun k _ => ?_
      simp
    have hsome : missingRequired (allBut f required) required ≠ [] := by
      rw [hmiss]
      exact List.ne_nil_of_mem (List.mem_filter.2 ⟨hf, by simp⟩)
    have hfill : fillRate 0 (allBut f required) = 1 := by
      have hpos : (0 : ℚ) < (allBut f required).length := by
        exact_mod_cast List.length_pos_of_ne_nil (List.cons_ne_nil _ _)
      have hmax : max (allBut f required).length 1 = (allBut f required).length :=
        max_eq_left (List.length_pos_of_ne_nil (List.cons_ne_nil _ _))
      rw [fillRate, if_pos rfl, Nat.cast_max, ← Nat.cast_max, hmax, div_self hpos.ne', min_self]
    have hle : ((required.length - required.count f : ℕ) : ℚ) / required.length ≤ 1 :=
      (div_le_one hlen).2 (by exact_mod_cast Nat.sub_le _ _)
    have hroute := (route_scored_iff hm.le ht.le {} (allBut f required) required [] 1).1
      (hlaw {} (allBut f required) [] 1 zero_le_one le_rfl hsome) 0 rfl
    rw [completenessScore_eq hne, hcount, hfill] at hroute
    rcases hroute with hs | hc | hone | ⟨-, hone⟩
    · cases hs
    · exact hc
    · exact hone.mono hm.le hle
    · exact hone.mono hm.le hle
  · intro hweak s extracted jsonSchema llm _ _ hmiss
    obtain ⟨f, hf⟩ := List.exists_mem_of_ne_nil _ hmiss
    have hfr : f ∈ required := (List.mem_filter.1 hf).1
    have hne : required ≠ [] := List.ne_nil_of_mem hfr
    refine (route_scored_iff hm.le ht.le s extracted required jsonSchema llm).2 fun props _ =>
      Or.inr (Or.inl ?_)
    rw [completenessScore_eq hne]
    refine (hweak f hfr).mono hm.le ?_
    have hcount := count_le_missing hf
    gcongr

/-- The required fields of an invoice do not force the route. -/
example : ¬ Forcing invoiceRequired 1 (17 / 20) (3 / 5) := by
  rw [required_fields_forcing_iff (by norm_num) (by norm_num)]
  intro h
  refine absurd (h "invoiceNumber" (by decide)) ?_
  unfold Weak
  decide +kernel

end

end OcrService
