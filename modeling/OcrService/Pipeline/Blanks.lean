/-
  Blank values and the score.

  `_coerce` drops nulls and empty strings, completeness counts the values that
  are present, the fill rate counts all that are left.  A string of white space
  is not present and is not dropped, so it counts for the fill rate
  (`blanks_count_for_nothing_iff`).
-/
import OcrService.Pipeline.OutputModel

namespace OcrService

open PyData Nodes

/-! ## Dictionaries -/

/-- The keys of a dictionary are distinct. -/
def DistinctKeys (d : Obj) : Prop := (d.map Prod.fst).Nodup

instance : DecidablePred DistinctKeys := fun d => inferInstanceAs (Decidable (d.map Prod.fst).Nodup)

theorem get?_eq_some_iff {d : Obj} (h : DistinctKeys d) {k : String} {v : Json} :
    d.get? k = some v ↔ (k, v) ∈ d := by
  induction d with
  | nil => simp [Obj.get?]
  | cons e d ih =>
    obtain ⟨k', v'⟩ := e
    obtain ⟨hnotin, hd⟩ := List.nodup_cons.1 h
    by_cases hk : k' = k
    · subst hk
      have hmem : (k', v) ∉ d := fun hmem => hnotin (List.mem_map.2 ⟨_, hmem, rfl⟩)
      simp [Obj.get?, hmem, eq_comm]
    · simp [Obj.get?, hk, Ne.symm hk, ih hd]

theorem DistinctKeys.filter {d : Obj} (h : DistinctKeys d) (p : String × Json → Bool) :
    DistinctKeys (d.filter p) := h.sublist (List.filter_sublist.map _)

/-! ## Raw outputs that differ in blank values -/

/-- The field map of a structured output. -/
inductive FieldMap : Raw → Obj → Prop
  | extraction (x : LLMExtraction) : FieldMap (.extraction x) x.fields
  | dict {d fields : Obj} : d.get? "fields" = some (.obj fields) → FieldMap (.data d) fields
  | absent {d : Obj} : d.get? "fields" = none ∨ d.get? "fields" = some .null → FieldMap (.data d) []

/-- Two structured outputs are equal but for their field maps. -/
inductive SameOtherwise : Raw → Raw → Prop
  | extraction {x y : LLMExtraction} : x.confidence = y.confidence →
      x.lowConfidenceFields = y.lowConfidenceFields → x.missingFields = y.missingFields →
      SameOtherwise (.extraction x) (.extraction y)
  | data {d d' : Obj} : (∀ k, k ≠ "fields" → d.get? k = d'.get? k) → SameOtherwise (.data d) (.data d')

/-- Two field maps agree on the keys with a present value. -/
def AgreeOnPresent (m m' : Obj) : Prop :=
  ∀ k v, isPresent (some v) = true → (m.get? k = some v ↔ m'.get? k = some v)

/-- The blank values that `_coerce` keeps: the strings of white space, and all of
    them in an `LLMExtraction`. -/
def blanksKept : Raw → Obj → ℕ
  | .extraction _, m => m.countP fun e => !isPresent (some e.2)
  | _, m => m.countP fun e => !isPresent (some e.2) && !isNullOrEmpty e.2

/-- Both extractions are scored and routed alike under every schema, list of
    required fields, multiplier and pair of thresholds. -/
def SameVerdict (x y : LLMExtraction) : Prop :=
  ∀ (s : ExtractionState) (required : List String) (jsonSchema : Obj) (mult high medium : ℚ),
    0 < mult → mult ≤ 1 →
    scoreAndRoute (s.withSignals x.fields required jsonSchema x.confidence mult high medium) =
      scoreAndRoute (s.withSignals y.fields required jsonSchema y.confidence mult high medium)

/-! ## What is left of the fields -/

/-- The fields that `_coerce` leaves. -/
def keptFields : Raw → Obj → Obj
  | .extraction _, m => m
  | _, m => dropEmpty m

section
variable {r r' : Raw} {m m' : Obj}

theorem isPresent_of_isNullOrEmpty {v : Json} (h : isNullOrEmpty v = true) :
    isPresent (some v) = false := by
  rcases (by simpa [isNullOrEmpty] using h : v = .null ∨ v = .str "") with rfl | rfl
  · rfl
  · rfl

theorem isPresent_dropEmpty (h : DistinctKeys m) (f : String) :
    isPresent ((dropEmpty m).get? f) = isPresent (m.get? f) := by
  have hd : DistinctKeys (dropEmpty m) := h.filter _
  cases hm : m.get? f with
  | some v =>
    by_cases hv : isNullOrEmpty v = true
    · have hnone : (dropEmpty m).get? f = none := by
        rw [Option.eq_none_iff_forall_ne_some]
        intro w hw
        obtain ⟨hmem, hw'⟩ := List.mem_filter.1 ((get?_eq_some_iff hd).1 hw)
        rw [← get?_eq_some_iff h, hm, Option.some.injEq] at hmem
        simp [← hmem, hv] at hw'
      rw [hnone, isPresent_of_isNullOrEmpty hv]
      rfl
    · have hsome : (dropEmpty m).get? f = some v :=
        (get?_eq_some_iff hd).2 (List.mem_filter.2 ⟨(get?_eq_some_iff h).1 hm, by simpa using hv⟩)
      rw [hsome]
  | none =>
    have hnone : (dropEmpty m).get? f = none := by
      rw [Option.eq_none_iff_forall_ne_some]
      intro w hw
      have hmem := (List.mem_filter.1 ((get?_eq_some_iff hd).1 hw)).1
      rw [← get?_eq_some_iff h, hm] at hmem
      cases hmem
    rw [hnone]

theorem isPresent_keptFields (h : DistinctKeys m) (f : String) :
    isPresent ((keptFields r m).get? f) = isPresent (m.get? f) := by
  cases r with
  | extraction x => rfl
  | data d => exact isPresent_dropEmpty h f
  | other e => exact isPresent_dropEmpty h f

theorem AgreeOnPresent.isPresent_eq (h : AgreeOnPresent m m') (f : String) :
    isPresent (m.get? f) = isPresent (m'.get? f) := by
  rw [Bool.eq_iff_iff]
  constructor
  · intro hp
    cases hm : m.get? f with
    | none => rw [hm] at hp; cases hp
    | some v =>
      rw [hm] at hp
      rw [(h f v hp).1 hm]
      exact hp
  · intro hp
    cases hm : m'.get? f with
    | none => rw [hm] at hp; cases hp
    | some v =>
      rw [hm] at hp
      rw [(h f v hp).2 hm]
      exact hp

/-- The values that are present. -/
def presentCount (m : Obj) : ℕ := m.countP fun e => isPresent (some e.2)

theorem presentCount_eq (h : DistinctKeys m) (h' : DistinctKeys m') (ha : AgreeOnPresent m m') :
    presentCount m = presentCount m' := by
  have hperm : (m.filter fun e => isPresent (some e.2)).Perm (m'.filter fun e => isPresent (some e.2)) := by
    refine (List.perm_ext_iff_of_nodup (List.Nodup.of_map _ (h.filter _))
      (List.Nodup.of_map _ (h'.filter _))).2 ?_
    rintro ⟨k, v⟩
    simp only [List.mem_filter]
    rw [← get?_eq_some_iff h, ← get?_eq_some_iff h']
    exact and_congr_left fun hp => ha k v hp
  rw [presentCount, presentCount, List.countP_eq_length_filter, List.countP_eq_length_filter]
  exact hperm.length_eq

theorem length_dropEmpty (m : Obj) : (dropEmpty m).length =
    presentCount m + m.countP fun e => !isPresent (some e.2) && !isNullOrEmpty e.2 := by
  unfold presentCount dropEmpty
  induction m with
  | nil => rfl
  | cons e m ih =>
    by_cases hn : isNullOrEmpty e.2 = true
    · have hp := isPresent_of_isNullOrEmpty hn
      simpa [List.filter_cons, hn, hp] using ih
    · cases hp : isPresent (some e.2) with
      | true =>
        simp [hn, hp, ih]
        omega
      | false =>
        simp [hn, hp, ih]
        omega

/-- The fields that are left are present, or are blanks that were kept. -/
theorem length_keptFields (r : Raw) (m : Obj) :
    (keptFields r m).length = presentCount m + blanksKept r m := by
  cases r with
  | extraction x =>
    change m.length = presentCount m + m.countP fun e => !isPresent (some e.2)
    simpa [presentCount] using
      List.length_eq_countP_add_countP (fun e => isPresent (some e.2)) (l := m)
  | data d => exact length_dropEmpty m
  | other e => exact length_dropEmpty m

end

/-! ## Coercion -/

section
variable {T : ChainTools} {r r' : Raw} {m m' : Obj}

theorem coercedFields_of_fieldMap {d : Obj} (h : FieldMap (.data d) m) :
    coercedFields d = .ok (dropEmpty m) := by
  cases h with
  | dict hd =>
    rw [coercedFields, getOr, hd]
    cases m <;> rfl
  | absent hd =>
    rcases hd with hd | hd
    · rw [coercedFields, getOr, hd]
    · rw [coercedFields, getOr, hd]
      rfl

/-- A value built by `LLMExtraction` shows what it was built from. -/
theorem llmExtraction_ok {fields : Obj} {c : ℚ} {low missing : List Json} {x : LLMExtraction}
    (h : llmExtraction T fields c low missing = .ok x) : x.fields = fields ∧ x.confidence = c := by
  unfold llmExtraction at h
  split_ifs at h
  split at h
  · cases h
    exact ⟨rfl, rfl⟩
  · cases h

/-- Whether it is built does not depend on the fields. -/
theorem llmExtraction_fields (fields : Obj) {fields' : Obj} {c : ℚ} {low missing : List Json} {e : String}
    (h : llmExtraction T fields c low missing = .error e) :
    llmExtraction T fields' c low missing = .error e := by
  unfold llmExtraction at h ⊢
  split_ifs at h ⊢
  · split at h
    · cases h
    · exact h
  · exact h

/-- Two outputs that are equal but for their fields are both refused, with the
    same exception, or both coerced. -/
theorem coerce_cases (h : FieldMap r m) (h' : FieldMap r' m') (hs : SameOtherwise r r') :
    (∃ e, coerce T r = .error e ∧ coerce T r' = .error e) ∨
      ∃ x x', coerce T r = .ok x ∧ coerce T r' = .ok x' ∧ x.fields = keptFields r m ∧
        x'.fields = keptFields r' m' ∧ x'.confidence = x.confidence ∧
        selfReport T r = .ok x.confidence := by
  cases hs with
  | @extraction x y hc hl hm =>
    cases h
    cases h'
    exact Or.inr ⟨x, y, rfl, rfl, rfl, rfl, hc.symm, rfl⟩
  | @data d d' hd =>
    have hor : ∀ k, k ≠ "fields" → ∀ v, getOr d' k v = getOr d k v := by
      intro k hk v
      rw [getOr, getOr, hd k hk]
    simp only [coerce, selfReport, coercedFields_of_fieldMap h, coercedFields_of_fieldMap h',
      hor "confidence" (by decide), hor "low_confidence_fields" (by decide),
      hor "missing_fields" (by decide), bind, Except.bind]
    cases pyFloat T (getOr d "confidence" (.float 0)) with
    | error e => exact Or.inl ⟨e, rfl, rfl⟩
    | ok c =>
      cases pyList (getOr d "low_confidence_fields" (.arr [])) with
      | error e => exact Or.inl ⟨e, rfl, rfl⟩
      | ok low =>
        cases pyList (getOr d "missing_fields" (.arr [])) with
        | error e => exact Or.inl ⟨e, rfl, rfl⟩
        | ok missing =>
          dsimp only
          cases hx : llmExtraction T (dropEmpty m) c low missing with
          | error e => exact Or.inl ⟨e, rfl, llmExtraction_fields _ hx⟩
          | ok x =>
            cases hx' : llmExtraction T (dropEmpty m') c low missing with
            | error e =>
              rw [llmExtraction_fields _ hx'] at hx
              cases hx
            | ok x' =>
              obtain ⟨hf, hc⟩ := llmExtraction_ok hx
              obtain ⟨hf', hc'⟩ := llmExtraction_ok hx'
              exact Or.inr ⟨x, x', rfl, rfl, hf, hf', hc'.trans hc.symm, congrArg Except.ok hc.symm⟩

end

/-! ## The verdict -/

/-- A score of at most half a unit is rounded to `0`. -/
theorem round_four_eq_zero_iff {q : ℚ} (h : 0 ≤ q) : Decimal.round 4 q = 0 ↔ q ≤ 1 / 20000 := by
  rw [Decimal.round_eq_zero_iff 4 h]
  constructor <;> intro hq <;> linarith

section
variable {x y : LLMExtraction}

/-- A self-report of at most half a unit is scored `0`, whatever the fields. -/
theorem breakdown_eq_zero {extracted : Obj} {required : List String} {props : ℕ} {l mult : ℚ}
    (hl : 0 < l) (hl' : l ≤ 1 / 20000) (hm : 0 < mult) (hm' : mult ≤ 1) :
    (breakdown extracted required props l mult).guardrailAdjusted = 0 := by
  have hc := (completenessScore_mem_unit extracted required).1
  have hf := (fillRate_mem_unit props extracted).1
  set base := min (min l (completenessScore extracted required)) (fillRate props extracted) with hbase
  have hnonneg : 0 ≤ base := le_min (le_min hl.le hc) hf
  have hle : base ≤ 1 / 20000 := (min_le_left _ _).trans ((min_le_left _ _).trans hl')
  have hscore : (breakdown extracted required props l mult).guardrailAdjusted =
      Decimal.round 4 (base * mult) := by
    simp only [breakdown, score, llmSignal, hl, if_true, hbase]
  rw [hscore, round_four_eq_zero_iff (mul_nonneg hnonneg hm.le)]
  exact (mul_le_of_le_one_right hnonneg hm').trans hle

/-- Without required fields and warnings, and with a self-report that is absent
    or above half a unit, the score is `0` iff the fill rate is at most half a
    unit. -/
theorem breakdown_eq_zero_iff {extracted : Obj} {props : ℕ} {l : ℚ} (hl : l = 0 ∨ 1 / 20000 < l) :
    (breakdown extracted [] props l 1).guardrailAdjusted = 0 ↔ fillRate props extracted ≤ 1 / 20000 := by
  obtain ⟨hf, hf'⟩ := fillRate_mem_unit props extracted
  have hone : completenessScore extracted [] = 1 := rfl
  have hmin : min 1 (fillRate props extracted) = fillRate props extracted := min_eq_right hf'
  have hscore : (breakdown extracted [] props l 1).guardrailAdjusted =
      Decimal.round 4 (min (min (llmSignal l 1 (fillRate props extracted)) 1)
        (fillRate props extracted)) := by
    simp only [breakdown, score, hone, mul_one]
  rcases hl with rfl | hl
  · rw [hscore, llmSignal, if_neg (lt_irrefl _), hmin, min_eq_left hf', min_self,
      round_four_eq_zero_iff hf]
  · have hpos : 0 < l := by linarith
    have hbase : 0 ≤ min (min l 1) (fillRate props extracted) := le_min (le_min hpos.le zero_le_one) hf
    rw [hscore, llmSignal, if_pos hpos, round_four_eq_zero_iff hbase]
    constructor
    · intro h
      by_contra hgt
      exact absurd h (not_le.2 (lt_min (lt_min hl (by norm_num)) (not_le.1 hgt)))
    · exact (min_le_right _ _).trans

/-- A schema with `n` properties. -/
def schemaOf (n : ℕ) : Obj :=
  [("properties", .obj ((List.range n).map fun i => (toString i, .obj [])))]

theorem propertyCount_schemaOf (n : ℕ) : propertyCount (schemaOf n) = .ok n := by
  change Except.ok ((List.range n).map fun i => (toString i, Json.obj [])).length = Except.ok n
  rw [List.length_map, List.length_range]

/-- A schema that tells `n` fields from more. -/
theorem fillRate_le_iff {extracted : Obj} (n : ℕ) :
    fillRate (max 1 (20000 * n)) extracted ≤ 1 / 20000 ↔ extracted.length ≤ n := by
  have hne : max 1 (20000 * n) ≠ 0 := by omega
  have hpos : (0 : ℚ) < (max 1 (20000 * n) : ℕ) := by exact_mod_cast Nat.pos_of_ne_zero hne
  have hhalf : ¬ (1 : ℚ) ≤ 1 / 20000 := by norm_num
  rw [fillRate, if_neg hne, min_le_iff, or_iff_right hhalf, div_le_iff₀ hpos]
  have hcast : (extracted.length : ℚ) ≤ 1 / 20000 * ((max 1 (20000 * n) : ℕ) : ℚ) ↔
      20000 * extracted.length ≤ max 1 (20000 * n) := by
    rw [← @Nat.cast_le ℚ]
    push_cast
    constructor <;> intro h <;> linarith
  rw [hcast]
  omega

theorem length_le_of_sameVerdict (hconf : y.confidence = x.confidence)
    (hl : x.confidence = 0 ∨ 1 / 20000 < x.confidence) (h : SameVerdict x y) :
    y.fields.length ≤ x.fields.length := by
  have hv := h {} [] (schemaOf (max 1 (20000 * x.fields.length))) 1 0 0 one_pos le_rfl
  rw [scoreAndRoute_withSignals rfl, scoreAndRoute_withSignals rfl, propertyCount_schemaOf, hconf] at hv
  have hscore := congrArg Verdict.confidence (Except.ok.inj hv)
  simp only [Option.some.injEq] at hscore
  have hx := (breakdown_eq_zero_iff hl).2 ((fillRate_le_iff x.fields.length).2 le_rfl)
  rw [hscore] at hx
  exact (fillRate_le_iff x.fields.length).1 ((breakdown_eq_zero_iff hl).1 hx)

/-- **Two extractions have the same verdict** iff they have as many fields, or
    their self-report is scored `0`. -/
theorem sameVerdict_iff (hconf : y.confidence = x.confidence)
    (hpresent : ∀ f, isPresent (x.fields.get? f) = isPresent (y.fields.get? f)) :
    SameVerdict x y ↔
      x.fields.length = y.fields.length ∨ (0 < x.confidence ∧ x.confidence ≤ 1 / 20000) := by
  constructor
  · intro h
    by_cases hsmall : 0 < x.confidence ∧ x.confidence ≤ 1 / 20000
    · exact Or.inr hsmall
    · have hl : x.confidence = 0 ∨ 1 / 20000 < x.confidence := by
        rcases x.confidence_nonneg.eq_or_lt with h0 | hpos
        · exact Or.inl h0.symm
        · exact Or.inr (not_le.1 fun hle => hsmall ⟨hpos, hle⟩)
      have hsymm : SameVerdict y x := fun s required jsonSchema mult high medium h0 h1 =>
        (h s required jsonSchema mult high medium h0 h1).symm
      exact Or.inl ((length_le_of_sameVerdict hconf.symm (hconf ▸ hl) hsymm).antisymm
        (length_le_of_sameVerdict hconf hl h))
  · intro h s required jsonSchema mult high medium hm hm'
    have hc : completenessScore x.fields required = completenessScore y.fields required := by
      simp only [completenessScore, hpresent]
    have hmissing : missingRequired x.fields required = missingRequired y.fields required := by
      simp only [missingRequired, hpresent]
    have hscore : ∀ props, (breakdown x.fields required props x.confidence mult).guardrailAdjusted =
        (breakdown y.fields required props y.confidence mult).guardrailAdjusted := by
      intro props
      rcases h with hlen | ⟨hpos, hsmall⟩
      · have hfill : fillRate props x.fields = fillRate props y.fields := by
          simp only [fillRate, hlen]
        simp only [breakdown, hc, hfill, hconf]
      · rw [hconf, breakdown_eq_zero hpos hsmall hm hm', breakdown_eq_zero hpos hsmall hm hm']
    cases hs : halted s with
    | true => rw [scoreAndRoute_withSignals_halted hs, scoreAndRoute_withSignals_halted hs]
    | false => simp only [scoreAndRoute_withSignals hs, hscore, hmissing]

end

/-- **Blank values count for nothing** iff both outputs keep as many of them, or
    the self-report is scored `0` anyway. -/
theorem blanks_count_for_nothing_iff (T : ChainTools) (r r' : Raw) (m m' : Obj) (h : FieldMap r m)
    (h' : FieldMap r' m') (hd : DistinctKeys m) (hd' : DistinctKeys m') (ha : AgreeOnPresent m m')
    (hs : SameOtherwise r r') :
    (∀ e, coerce T r = .error e ↔ coerce T r' = .error e) ∧
      ∀ x x' l, coerce T r = .ok x → coerce T r' = .ok x' → selfReport T r = .ok l →
        (SameVerdict x x' ↔ blanksKept r m = blanksKept r' m' ∨ (0 < l ∧ l ≤ 1 / 20000)) := by
  rcases coerce_cases (T := T) h h' hs with ⟨e, he, he'⟩ | ⟨y, y', hy, hy', hf, hf', hconf, hself⟩
  · refine ⟨fun e' => by rw [he, he'], fun x x' l hx => ?_⟩
    rw [he] at hx
    cases hx
  · refine ⟨fun e => by simp [hy, hy'], fun x x' l hx hx' hl => ?_⟩
    obtain rfl : y = x := Except.ok.inj (hy.symm.trans hx)
    obtain rfl : y' = x' := Except.ok.inj (hy'.symm.trans hx')
    obtain rfl : y.confidence = l := Except.ok.inj (hself.symm.trans hl)
    have hpresent : ∀ f, isPresent (y.fields.get? f) = isPresent (y'.fields.get? f) := by
      intro f
      rw [hf, hf', isPresent_keptFields hd, isPresent_keptFields hd', ha.isPresent_eq]
    have hlen : y.fields.length = y'.fields.length ↔ blanksKept r m = blanksKept r' m' := by
      rw [hf, hf', length_keptFields, length_keptFields, presentCount_eq hd hd' ha]
      omega
    rw [sameVerdict_iff hconf hpresent, hlen]

/-- An output with the given fields, by a model that is sure of them. -/
def Sample.output (fields : Obj) : Obj := [("fields", .obj fields), ("confidence", .float 1)]

theorem sameOtherwise_output (fields fields' : Obj) :
    SameOtherwise (.data (Sample.output fields)) (.data (Sample.output fields')) :=
  .data fun k hk => by simp [Sample.output, Obj.get?, Ne.symm hk]

theorem agreeOnPresent_blank {v : Json} (hv : isPresent (some v) = false) :
    AgreeOnPresent [("a", .str "x")] [("a", .str "x"), ("b", v)] := by
  intro k w hw
  by_cases ha : "a" = k
  · simp [Obj.get?, ha]
  · by_cases hb : "b" = k
    · have hne : v ≠ w := by
        rintro rfl
        rw [hv] at hw
        cases hw
      simp [Obj.get?, ha, hb, hne]
    · simp [Obj.get?, ha, hb]

/-- A null that is added to an output. -/
theorem blanks_count_for_nothing_iff_null :
    ∃ x x', coerce Sample.chainTools (.data (Sample.output [("a", .str "x")])) = .ok x ∧
      coerce Sample.chainTools (.data (Sample.output [("a", .str "x"), ("b", .null)])) = .ok x' ∧
      SameVerdict x x' :=
  ⟨_, _, rfl, rfl, ((blanks_count_for_nothing_iff Sample.chainTools _ _ _ _ (.dict rfl) (.dict rfl)
    (by decide) (by decide) (agreeOnPresent_blank rfl) (sameOtherwise_output _ _)).2 _ _ 1 rfl rfl
    rfl).2 (Or.inl (by decide))⟩

/-- A string of white space lets an invoice with one of two fields get full
    marks. -/
theorem white_space_counts :
    AgreeOnPresent [("a", .str "x")] [("a", .str "x"), ("b", .str " ")] ∧
    SameOtherwise (.data (Sample.output [("a", .str "x")]))
      (.data (Sample.output [("a", .str "x"), ("b", .str " ")])) ∧
    ∃ x x', coerce Sample.chainTools (.data (Sample.output [("a", .str "x")])) = .ok x ∧
      coerce Sample.chainTools (.data (Sample.output [("a", .str "x"), ("b", .str " ")])) = .ok x' ∧
      scoreAndRoute (ExtractionState.withSignals {} x.fields ["a"] (schemaOf 2) x.confidence 1
          (17 / 20) (3 / 5)) =
        .ok { confidence := some (1 / 2), missingFields := some [], branch := .dlq } ∧
      scoreAndRoute (ExtractionState.withSignals {} x'.fields ["a"] (schemaOf 2) x'.confidence 1
          (17 / 20) (3 / 5)) =
        .ok { confidence := some 1, missingFields := some [], branch := .deliver } := by
  refine ⟨agreeOnPresent_blank (by decide), sameOtherwise_output _ _, _, _, rfl, rfl,
    (scoreAndRoute_withSignals rfl).trans ?_, (scoreAndRoute_withSignals rfl).trans ?_⟩
  · rw [propertyCount_schemaOf]
    decide +kernel
  · rw [propertyCount_schemaOf]
    decide +kernel

end OcrService
