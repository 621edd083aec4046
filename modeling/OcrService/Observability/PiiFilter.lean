/-
  PII masking for log output (`app/observability/pii_filter.py`).

  The classes `\w` and `\d` are those of the Unicode tables (`CharTables`).

  * `masked_maskValue`: a masked string has no email address, IBAN or card
    number;
  * `at?_scrub`: under keys that are not sensitive the scrubbed value is the
    value, scrubbed;
  * `masking_complete`: masking is complete, and doing it again changes nothing.
-/
import OcrService.Lib.Regex

namespace OcrService

open PyStr PyStr.Regex

def redacted : String := "[REDACTED]"

/-! ## The patterns -/

/-- How `re.IGNORECASE` folds the characters that a letter of ASCII can match. -/
def ignoreCase (c : Char) : Char :=
  if c.toNat = 0x130 ∨ c.toNat = 0x131 then 'i'
  else if c.toNat = 0x17f then 's'
  else if c.toNat = 0x212a then 'k'
  else c.toLower

/-- A text, in any case. -/
def literal (s : String) : Regex :=
  s.toList.foldr (fun c r => seq (one fun d => ignoreCase d == c) r) nil

/-- One of some patterns. -/
def anyOf (patterns : List Regex) : Regex := patterns.foldr alt (one fun _ => false)

/-- `_SENSITIVE_KEY_RE`. -/
def sensitiveKeyRe : Regex :=
  anyOf
    [literal "password", literal "secret", literal "token",
      seq (literal "api") (seq (rep (one fun c => c == '_' || c == '-') 0 1) (literal "key")),
      literal "authorization", literal "webhook_secret", literal "key_hash", literal "pii",
      literal "ssn", literal "tax_id", literal "iban", literal "card", literal "cvv"]

/-- `_EMAIL_RE`. -/
def emailRe : Regex :=
  seq (many (fun c => c.isAlphanum || ['.', '_', '%', '+', '-'].contains c) 1)
    (seq (one (· == '@'))
      (seq (many (fun c => c.isAlphanum || c == '.' || c == '-') 1)
        (seq (one (· == '.')) (many Char.isAlpha 2))))

section
variable (T : CharTables)

/-- What `_IBAN_RE` has between its boundaries. -/
def ibanBody : Regex :=
  seq (rep (one Char.isUpper) 2 2)
    (seq (rep (one T.digit) 2 2) (rep (one fun c => c.isUpper || c.isDigit) 10 30))

/-- `_IBAN_RE`. -/
def ibanRe : Regex := (ibanBody T).walled

/-- What `_CARD_RE` has between its boundaries. -/
def cardBody : Regex :=
  rep (seq (one T.digit) (rep (one fun c => c == ' ' || c == '-') 0 1)) 13 19

/-- `_CARD_RE`. -/
def cardRe : Regex := (cardBody T).walled

/-! ## Scrubbing -/

/-- `_mask_value`. -/
def maskValue (value : String) : String :=
  (cardRe T).sub T.word redacted ((ibanRe T).sub T.word redacted (emailRe.sub T.word redacted value))

/-- Whether the values of a key are always masked. -/
def sensitiveKey (k : String) : Bool := sensitiveKeyRe.search T.word k

/-- A value of a log entry, with scalars other than strings of type `α`. -/
inductive LogValue (α : Type) where
  | dict (entries : List (String × LogValue α))
  | list (items : List (LogValue α))
  | tuple (items : List (LogValue α))
  | str (s : String)
  | other (a : α)

abbrev EventDict (α : Type) := List (String × LogValue α)

variable {α : Type}

mutual
/-- `_scrub`. -/
def scrub : LogValue α → LogValue α
  | .dict entries => .dict (scrubEntries entries)
  | .list items => .list (scrubItems items)
  | .tuple items => .tuple (scrubItems items)
  | .str s => .str (maskValue T s)
  | .other a => .other a

def scrubItems : List (LogValue α) → List (LogValue α)
  | [] => []
  | v :: items => scrub v :: scrubItems items

def scrubEntries : EventDict α → EventDict α
  | [] => []
  | (k, v) :: entries =>
    (k, if sensitiveKey T k then .str redacted else scrub v) :: scrubEntries entries
end

/-- `pii_redaction_processor`. -/
def piiRedactionProcessor (eventDict : EventDict α) : EventDict α := scrubEntries T eventDict

end

/-! ## Strings -/

section
variable {T : CharTables} {s : String}

theorem redacted_toList : redacted.toList = '[' :: "REDACTED".toList ++ [']'] := by decide +kernel

/-- The brackets of the replacement are no word and no digit. -/
theorem brackets_ascii (T : CharTables) :
    (T.word '[' = false ∧ T.word ']' = false) ∧ T.digit '[' = false ∧ T.digit ']' = false :=
  ⟨⟨T.word_ascii _ (by decide), T.word_ascii _ (by decide)⟩,
    T.digit_ascii _ (by decide), T.digit_ascii _ (by decide)⟩

theorem letters_redacted :
    ∀ c ∈ "REDACTED".toList, c.toNat < 128 ∧ c.isDigit = false ∧ c ≠ '@' := by
  have hall : ("REDACTED".toList.all fun c => c.toNat < 128 && !c.isDigit && c != '@') = true := by
    decide +kernel
  intro c hc
  simpa [and_assoc] using List.all_eq_true.1 hall c hc

theorem digit_redacted : ∀ c ∈ "REDACTED".toList, T.digit c = false := by
  intro c hc
  obtain ⟨hascii, hdigit, -⟩ := letters_redacted c hc
  rw [T.digit_ascii c hascii, hdigit]

theorem emailRe_avoids : emailRe.Avoids T.word '[' "REDACTED".toList ']' := by
  apply avoids_of_alphabet (p := (· == '@'))
  · decide
  · decide
  · intro c hc
    simpa using (letters_redacted c hc).2.2
  · rintro before _ after ⟨m₁, _, rfl, -, _, m₂, rfl, ⟨c, rfl, hc⟩, -⟩
    exact ⟨c, by simp, hc⟩

theorem ibanRe_avoids : (ibanRe T).Avoids T.word '[' "REDACTED".toList ']' := by
  obtain ⟨-, hopening, hclosing⟩ := brackets_ascii T
  apply avoids_of_alphabet (p := T.digit)
  · simp [ibanRe, walled, ibanBody, alphabet, hopening]
  · simp [ibanRe, walled, ibanBody, alphabet, hclosing]
  · exact digit_redacted
  · intro before m after hm
    obtain ⟨-, ⟨m₁, _, rfl, -, m₂, m₃, rfl, hdigits, -⟩, -⟩ := walled_matches.1 hm
    obtain ⟨_, m₄, rfl, c, rfl, hc⟩ := RepMatches.first hdigits
    exact ⟨c, by simp, hc⟩

theorem ibanRe_walled : (ibanRe T).Walled T.word := by
  apply walled_walled
  rintro before m after ⟨m₁, m₂, rfl, hcountry, -⟩
  obtain ⟨_, m₃, rfl, c, rfl, hc⟩ := RepMatches.first hcountry
  exact T.word_isUpper hc

/-- A card number begins with a digit. -/
theorem cardBody_head {before m after : List Char} (hm : (cardBody T).Matches T.word before m after) :
    ∃ c m', m = c :: m' ∧ T.digit c = true := by
  obtain ⟨_, m₂, rfl, _, m₃, rfl, ⟨c, rfl, hc⟩, -⟩ := RepMatches.first hm
  exact ⟨c, m₃ ++ m₂, rfl, hc⟩

theorem cardRe_avoids : (cardRe T).Avoids T.word '[' "REDACTED".toList ']' := by
  obtain ⟨-, hopening, hclosing⟩ := brackets_ascii T
  apply avoids_of_alphabet (p := T.digit)
  · simp [cardRe, walled, cardBody, alphabet, hopening]
  · simp [cardRe, walled, cardBody, alphabet, hclosing]
  · exact digit_redacted
  · intro before m after hm
    obtain ⟨-, hbody, -⟩ := walled_matches.1 hm
    obtain ⟨c, m', rfl, hc⟩ := cardBody_head hbody
    exact ⟨c, List.mem_cons_self, hc⟩

theorem cardRe_walled : (cardRe T).Walled T.word := by
  apply walled_walled
  intro before m after hm
  obtain ⟨c, m', rfl, hc⟩ := cardBody_head hm
  exact T.word_of_digit c hc

/-- A string has nothing to mask. -/
structure Masked (T : CharTables) (s : String) : Prop where
  email : ¬ emailRe.Contains T.word s
  iban : ¬ (ibanRe T).Contains T.word s
  card : ¬ (cardRe T).Contains T.word s

/-- **A masked string has nothing to mask**: each substitution leaves nothing of
    its own pattern and uncovers nothing of those before it. -/
theorem masked_maskValue (s : String) : Masked T (maskValue T s) := by
  obtain ⟨hword, -⟩ := brackets_ascii T
  unfold maskValue
  constructor
  · intro h
    replace h := contains_of_sub redacted_toList cardRe_avoids emailRe_avoids (Or.inl rfl) h
    replace h := contains_of_sub redacted_toList ibanRe_avoids emailRe_avoids (Or.inl rfl) h
    exact not_contains_sub redacted_toList emailRe_avoids (Or.inl rfl) h
  · intro h
    replace h := contains_of_sub redacted_toList cardRe_avoids ibanRe_avoids
      (Or.inr ⟨ibanRe_walled, cardRe_walled, hword⟩) h
    exact not_contains_sub redacted_toList ibanRe_avoids (Or.inr ⟨ibanRe_walled, hword⟩) h
  · exact not_contains_sub redacted_toList cardRe_avoids (Or.inr ⟨cardRe_walled, hword⟩)

theorem Masked.maskValue_eq (h : Masked T s) : maskValue T s = s := by
  rw [maskValue, sub_eq_self h.email, sub_eq_self h.iban, sub_eq_self h.card]

example : maskValue .ascii "a.b@x.org, GB82WEST12345698765432, 4111 1111 1111 1111 or 12" =
    "[REDACTED], [REDACTED], [REDACTED]or 12" := by
  decide +kernel

end

/-! ## Nested values -/

section
variable {α : Type}

/-- A step into a value. -/
inductive LogStep where
  | key (k : String)
  | index (i : ℕ)

/-- The value at the end of a path. -/
def LogValue.at? : LogValue α → List LogStep → Option (LogValue α)
  | v, [] => some v
  | .dict entries, .key k :: π => (entries.lookup k).bind fun v => v.at? π
  | .list items, .index i :: π => items[i]?.bind fun v => v.at? π
  | .tuple items, .index i :: π => items[i]?.bind fun v => v.at? π
  | _, _ :: _ => none

/-- What masking leaves as it is: the keys of a dictionary, the type and the
    length of a list or tuple, and a scalar that is not a string. -/
inductive Outline (α : Type) where
  | dict (keys : List String)
  | list (length : ℕ)
  | tuple (length : ℕ)
  | str
  | other (a : α)

def LogValue.outline : LogValue α → Outline α
  | .dict entries => .dict (entries.map Prod.fst)
  | .list items => .list items.length
  | .tuple items => .tuple items.length
  | .str _ => .str
  | .other a => .other a

/-- No key of the path is sensitive. -/
def NonSensitive (T : CharTables) (π : List LogStep) : Prop :=
  ∀ k, .key k ∈ π → sensitiveKey T k = false

variable {T : CharTables}

theorem scrubItems_eq (items : List (LogValue α)) : scrubItems T items = items.map (scrub T) := by
  induction items with
  | nil => rfl
  | cons v items ih => rw [scrubItems, ih, List.map_cons]

theorem keys_scrubEntries (entries : EventDict α) :
    (scrubEntries T entries).map Prod.fst = entries.map Prod.fst := by
  induction entries with
  | nil => rfl
  | cons e entries ih =>
    obtain ⟨k, v⟩ := e
    rw [scrubEntries, List.map_cons, List.map_cons, ih]

theorem lookup_scrubEntries (entries : EventDict α) (k : String) :
    (scrubEntries T entries).lookup k =
      (entries.lookup k).map fun v => if sensitiveKey T k then .str redacted else scrub T v := by
  induction entries with
  | nil => rfl
  | cons e entries ih =>
    obtain ⟨k', v⟩ := e
    rw [scrubEntries, List.lookup_cons, List.lookup_cons]
    cases hk : k == k' with
    | true =>
      obtain rfl := eq_of_beq hk
      rfl
    | false => exact ih

theorem outline_scrub (v : LogValue α) : (scrub T v).outline = v.outline := by
  cases v with
  | dict entries => rw [scrub, LogValue.outline, keys_scrubEntries, LogValue.outline]
  | list items | tuple items => simp only [scrub, LogValue.outline, scrubItems_eq, List.length_map]
  | str s => rw [scrub, LogValue.outline, LogValue.outline]
  | other a => rw [scrub]

/-- **Under keys that are not sensitive** a scrubbed value has the scrubbed values. -/
theorem at?_scrub {π : List LogStep} (hπ : NonSensitive T π) (v : LogValue α) :
    (scrub T v).at? π = (v.at? π).map (scrub T) := by
  induction π generalizing v with
  | nil => rw [LogValue.at?, LogValue.at?, Option.map_some]
  | cons step π ih =>
    replace ih := ih fun k hk => hπ k (List.mem_cons_of_mem _ hk)
    cases step with
    | key k =>
      have hk := hπ k List.mem_cons_self
      cases v with
      | dict entries =>
        rw [scrub, LogValue.at?, LogValue.at?, lookup_scrubEntries]
        cases entries.lookup k with
        | none => rfl
        | some v => simp [hk, ih]
      | _ => rfl
    | index i =>
      cases v with
      | list items | tuple items =>
        rw [scrub, LogValue.at?, LogValue.at?, scrubItems_eq, List.getElem?_map]
        cases items[i]? with
        | none => rfl
        | some v => simp [ih]
      | _ => rfl

/-- **The value of a sensitive key** is masked, however deep it is. -/
theorem at?_scrub_sensitive {k : String} (hk : sensitiveKey T k = true) (π : List LogStep)
    {v x : LogValue α} (hx : (scrub T v).at? (π ++ [.key k]) = some x) : x = .str redacted := by
  induction π generalizing v with
  | nil =>
    cases v with
    | dict entries =>
      rw [List.nil_append, scrub, LogValue.at?, lookup_scrubEntries] at hx
      cases hlookup : entries.lookup k with
      | none => simp [hlookup] at hx
      | some v => simpa [hlookup, hk, LogValue.at?, eq_comm] using hx
    | _ => cases hx
  | cons step π ih =>
    cases step with
    | key k' =>
      cases v with
      | dict entries =>
        rw [List.cons_append, scrub, LogValue.at?, lookup_scrubEntries] at hx
        cases hlookup : entries.lookup k' with
        | none => simp [hlookup] at hx
        | some v =>
          simp only [hlookup, Option.map_some, Option.bind_some] at hx
          split_ifs at hx with hk'
          · cases π <;> simp [LogValue.at?] at hx
          · exact ih hx
      | _ => cases hx
    | index i =>
      cases v with
      | list items | tuple items =>
        rw [List.cons_append, scrub, LogValue.at?, scrubItems_eq, List.getElem?_map] at hx
        cases hitem : items[i]? with
        | none => simp [hitem] at hx
        | some v =>
          simp only [hitem, Option.map_some, Option.bind_some] at hx
          exact ih hx
      | _ => cases hx

mutual
/-- **Scrubbing again** changes nothing. -/
theorem scrub_scrub : ∀ v : LogValue α, scrub T (scrub T v) = scrub T v
  | .dict entries => by rw [scrub, scrub, scrubEntries_scrubEntries entries]
  | .list items => by rw [scrub, scrub, scrubItems_scrubItems items]
  | .tuple items => by rw [scrub, scrub, scrubItems_scrubItems items]
  | .str s => by rw [scrub, scrub, (masked_maskValue s).maskValue_eq]
  | .other a => by rw [scrub, scrub]

theorem scrubItems_scrubItems : ∀ items : List (LogValue α),
    scrubItems T (scrubItems T items) = scrubItems T items
  | [] => rfl
  | v :: items => by rw [scrubItems, scrubItems, scrub_scrub v, scrubItems_scrubItems items]

theorem scrubEntries_scrubEntries : ∀ entries : EventDict α,
    scrubEntries T (scrubEntries T entries) = scrubEntries T entries
  | [] => rfl
  | (k, v) :: entries => by
    have hv : (if sensitiveKey T k then .str redacted
        else scrub T (if sensitiveKey T k then .str redacted else scrub T v)) =
          if sensitiveKey T k then .str redacted else scrub T v := by
      split_ifs with hk
      · rfl
      · exact scrub_scrub v
    rw [scrubEntries, scrubEntries, hv, scrubEntries_scrubEntries entries]
end

/-- **Masking is complete**, keeps what it does not mask, and is idempotent. -/
theorem masking_complete (T : CharTables) (eventDict : EventDict α) :
    (∀ π k v, (LogValue.dict (piiRedactionProcessor T eventDict)).at? (π ++ [.key k]) = some v →
      sensitiveKeyRe.Contains T.word k → v = .str redacted) ∧
    (∀ π s, NonSensitive T π →
      (LogValue.dict (piiRedactionProcessor T eventDict)).at? π = some (.str s) → Masked T s) ∧
    (∀ π, NonSensitive T π →
      ((LogValue.dict (piiRedactionProcessor T eventDict)).at? π).map LogValue.outline =
        ((LogValue.dict eventDict).at? π).map LogValue.outline) ∧
    piiRedactionProcessor T (piiRedactionProcessor T eventDict) = piiRedactionProcessor T eventDict := by
  have hscrub : LogValue.dict (piiRedactionProcessor T eventDict) = scrub T (.dict eventDict) := by
    rw [scrub, piiRedactionProcessor]
  rw [hscrub]
  refine ⟨fun π k v hv hk => ?_, fun π s hπ hs => ?_, fun π hπ => ?_, scrubEntries_scrubEntries eventDict⟩
  · exact at?_scrub_sensitive (search_iff.2 hk) π hv
  · rw [at?_scrub hπ] at hs
    obtain ⟨v, -, hv⟩ := Option.map_eq_some_iff.1 hs
    cases v with
    | str s' =>
      rw [scrub] at hv
      obtain rfl := LogValue.str.inj hv
      exact masked_maskValue s'
    | _ => cases hv
  · rw [at?_scrub hπ, Option.map_map]
    exact congrArg (fun f => Option.map f _) (funext outline_scrub)

end

end OcrService
