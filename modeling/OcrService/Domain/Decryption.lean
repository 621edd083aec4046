/-
  Field-level PII decryption (`app/domain/encryption.py`).

  `decrypt_value` decodes the body of an envelope before it enters the guarded
  block, so what base64 raises there leaves `decrypt_fields` as it is, while
  everything after it is turned into an `EncryptionError`.

  * `Vault.opened`: the text under a number of layers of sealing, from the
    parts of the library alone;
  * `decryption_guarded_iff`: the inputs on which `decrypt_fields` returns or
    raises `EncryptionError`.
-/
import OcrService.Domain.Vault

namespace OcrService

open PyData

def nonceBytes : ℕ := 12

/-- `envelope[len(_PREFIX):]`. -/
def body (envelope : String) : String :=
  String.ofList (envelope.toList.drop envelopePrefix.toList.length)

def decryptionFailed : EncError :=
  .encryptionError "PII decryption failed (wrong tenant key or tampered data)"

namespace Vault
variable (C : Vault)

/-- `decrypt_value`; the `match`es after the first are the guarded block. -/
def decryptValue (tenantId : Uuid) (envelope : String) : Except EncError String :=
  if isEncrypted envelope then
    match C.b64decode (body envelope) with
    | .error msg => .error (.binasciiError msg)
    | .ok blob =>
      let nonce := blob.take nonceBytes
      let ct := blob.drop nonceBytes
      match C.tenantKey tenantId with
      | .error _ => .error decryptionFailed
      | .ok key =>
        match C.aesDecrypt key nonce ct (encode tenantId.str) with
        | none => .error decryptionFailed
        | some plaintext =>
          match decode plaintext with
          | none => .error decryptionFailed
          | some s => .ok s
  else .ok envelope

end Vault

/-- `decrypt_fields`. -/
def decryptFields (C : Vault) (tenantId : Uuid) : (data : Obj) → (piiFields : List String) →
    Except EncError Obj
  | out, [] => .ok out
  | out, field :: fields =>
    match walk out field (C.decryptValue tenantId) with
    | .error e => .error e
    | .ok out => decryptFields C tenantId out fields

section
variable {C : Vault} {tenantId : Uuid}

theorem decryptFields_eq_mapStrs {d : Obj} {fields : List String} :
    decryptFields C tenantId d fields =
      d.mapStrs (fun _ => C.decryptValue tenantId) (fields.map Path.keys) := by
  induction fields generalizing d with
  | nil => rfl
  | cons field fields ih =>
    rw [decryptFields, List.map_cons, Obj.mapStrs, walk]
    cases d.mapStr (C.decryptValue tenantId) (Path.keys field) with
    | error e => rfl
    | ok d₁ => exact ih

/-! ## The layers of a text -/

namespace Vault
variable (C)

/-- What is sealed in an envelope; any other string is not sealed. -/
def openOnce (tenantId : Uuid) (s : String) : Option String :=
  if isEncrypted s then do
    let blob ← (C.b64decode (body s)).toOption
    let key ← (C.tenantKey tenantId).toOption
    let plaintext ← C.aesDecrypt key (blob.take nonceBytes) (blob.drop nonceBytes) (encode tenantId.str)
    decode plaintext
  else some s

/-- The text under `n` layers of sealing, if they all open. -/
def opened (tenantId : Uuid) : ℕ → String → Option String
  | 0, s => some s
  | n + 1, s => (openOnce C tenantId s).bind (opened tenantId n)

/-- An envelope whose body base64 refuses. -/
def Malformed (s : String) : Prop := isEncrypted s = true ∧ ∃ msg, C.b64decode (body s) = .error msg

variable {C}

/-- **What `decrypt_value` raises**: the error of base64 on a malformed
    envelope, `EncryptionError` on any other string that does not open. -/
theorem decryptValue_cases (C : Vault) (tenantId : Uuid) (s : String) :
    (∃ msg, C.decryptValue tenantId s = .error (.binasciiError msg) ∧ C.Malformed s ∧
        C.openOnce tenantId s = none) ∨
      (C.decryptValue tenantId s = .error decryptionFailed ∧ ¬ C.Malformed s ∧
        C.openOnce tenantId s = none) ∨
      ∃ s', C.decryptValue tenantId s = .ok s' ∧ ¬ C.Malformed s ∧
        C.openOnce tenantId s = some s' := by
  by_cases hs : isEncrypted s = true
  · simp only [decryptValue, openOnce, Malformed, hs, if_true, true_and]
    cases C.b64decode (body s) with
    | error msg => exact Or.inl ⟨msg, rfl, ⟨msg, rfl⟩, rfl⟩
    | ok blob =>
      right
      have hok : ¬ ∃ msg, (Except.ok blob : Except String Bytes) = .error msg := by rintro ⟨_, ⟨⟩⟩
      cases C.tenantKey tenantId with
      | error e => exact Or.inl ⟨rfl, hok, rfl⟩
      | ok key =>
        cases hm : C.aesDecrypt key (blob.take nonceBytes) (blob.drop nonceBytes)
            (encode tenantId.str) with
        | none =>
          exact Or.inl ⟨by simp [hm], hok, by simp [Except.toOption, hm]⟩
        | some m =>
          cases hd : decode m with
          | none => exact Or.inl ⟨by simp [hm, hd], hok, by simp [Except.toOption, hm, hd]⟩
          | some s' => exact Or.inr ⟨s', by simp [hm, hd], hok, by simp [Except.toOption, hm, hd]⟩
  · refine Or.inr (Or.inr ⟨s, ?_, fun h => hs h.1, ?_⟩)
    · rw [decryptValue, if_neg hs]
    · rw [openOnce, if_neg hs]

theorem decryptValue_eq_ok {s s' : String} :
    C.decryptValue tenantId s = .ok s' ↔ C.openOnce tenantId s = some s' := by
  obtain ⟨msg, h, -, ho⟩ | ⟨h, -, ho⟩ | ⟨t, h, -, ho⟩ :=
    decryptValue_cases C tenantId s
  · simp [h, ho]
  · simp [h, ho]
  · simp [h, ho]

theorem decryptValue_eq_failed {s : String} (hs : ¬ C.Malformed s)
    (ho : C.openOnce tenantId s = none) : C.decryptValue tenantId s = .error decryptionFailed := by
  obtain ⟨-, -, hbad, -⟩ | ⟨h, -⟩ | ⟨t, -, -, ho'⟩ :=
    decryptValue_cases C tenantId s
  · exact absurd hbad hs
  · exact h
  · rw [ho] at ho'; cases ho'

/-- The run of decryptions at a path opens one layer for each time it is listed. -/
theorem runAt_decrypt {q : List String} {qs : List (List String)} {s s' : String} :
    Obj.runAt (fun _ => C.decryptValue tenantId) q qs s = .ok s' ↔
      C.opened tenantId (qs.count q) s = some s' := by
  induction qs generalizing s with
  | nil => simp [Obj.runAt, opened]
  | cons p qs ih =>
    rw [Obj.runAt, List.count_cons]
    by_cases hp : p = q
    · rw [if_pos hp, if_pos (beq_iff_eq.2 hp), opened]
      cases hv : C.decryptValue tenantId s with
      | ok t => rw [decryptValue_eq_ok.1 hv]; exact ih
      | error e =>
        have ho : C.openOnce tenantId s = none := by
          cases ho : C.openOnce tenantId s with
          | none => rfl
          | some t => rw [decryptValue_eq_ok.2 ho] at hv; cases hv
        simp [ho]
    · rw [if_neg hp, if_neg (mt beq_iff_eq.1 hp)]
      exact ih

end Vault

/-! ## What decryption raises -/

/-- The paths `pre` can be decrypted in `d`: the strings they address open, one
    layer for each time they are listed. -/
def Opens (C : Vault) (tenantId : Uuid) (pre : List String) (d : Obj) : Prop :=
  ∀ q ∈ pre, ∀ s, d.lookup (Path.keys q) = some (.str s) →
    (C.opened tenantId ((pre.map Path.keys).count (Path.keys q)) s).isSome

theorem decryptFields_isOk_iff {d : Obj} {fields : List String} :
    (∃ d', decryptFields C tenantId d fields = .ok d') ↔ Opens C tenantId fields d := by
  rw [decryptFields_eq_mapStrs, Obj.mapStrs_isOk_iff]
  constructor
  · intro h q _ s hs
    obtain ⟨s', hs'⟩ := h _ s (Obj.lookup_eq_str.1 hs)
    rw [Vault.runAt_decrypt.1 hs']
    rfl
  · intro h p s hs
    by_cases hp : p ∈ fields.map Path.keys
    · obtain ⟨q, hq, rfl⟩ := List.mem_map.1 hp
      obtain ⟨s', hs'⟩ := Option.isSome_iff_exists.1 (h q hq s (Obj.lookup_eq_str.2 hs))
      exact ⟨s', Vault.runAt_decrypt.2 hs'⟩
    · exact ⟨s, Obj.runAt_of_notMem hp s⟩

/-- **Where `decrypt_fields` fails**: at the first listed path that does not go
    through, with the error of `decrypt_value` on the string the paths before
    left there. -/
theorem decryptFields_eq_error_iff {d : Obj} {fields : List String} {e : EncError} :
    decryptFields C tenantId d fields = .error e ↔
      ∃ pre p post, fields = pre ++ p :: post ∧ Opens C tenantId pre d ∧
        ∃ s m, d.lookup (Path.keys p) = some (.str s) ∧
          C.opened tenantId ((pre.map Path.keys).count (Path.keys p)) s = some m ∧
          C.decryptValue tenantId m = .error e := by
  rw [decryptFields_eq_mapStrs, Obj.mapStrs_eq_error_iff]
  constructor
  · rintro ⟨pre, q, post, d₁, m, hqs, hd₁, hm, hf⟩
    obtain ⟨pre, rest, rfl, rfl, hrest⟩ := List.map_eq_append_iff.1 hqs
    obtain ⟨p, post, rfl, rfl, -⟩ := List.map_eq_cons_iff.1 hrest
    refine ⟨pre, p, post, rfl,
      decryptFields_isOk_iff.1 ⟨d₁, by rw [decryptFields_eq_mapStrs]; exact hd₁⟩, ?_⟩
    obtain ⟨-, hn⟩ | ⟨s, s', hs, hr, hs'⟩ := Obj.mapStrs_strAt hd₁ (Path.keys p)
    · rw [hm] at hn; cases hn
    · rw [hm, Option.some.injEq] at hs'
      exact ⟨s, m, Obj.lookup_eq_str.2 hs, hs' ▸ Vault.runAt_decrypt.1 hr, hf⟩
  · rintro ⟨pre, p, post, rfl, hpre, s, m, hs, hm, hf⟩
    obtain ⟨d₁, hd₁⟩ := decryptFields_isOk_iff.2 hpre
    rw [decryptFields_eq_mapStrs] at hd₁
    refine ⟨pre.map Path.keys, Path.keys p, post.map Path.keys, d₁, m, by simp, hd₁, ?_, hf⟩
    obtain ⟨hn, -⟩ | ⟨s₀, s', hs₀, hr, hs'⟩ := Obj.mapStrs_strAt hd₁ (Path.keys p)
    · rw [Obj.lookup_eq_str.1 hs] at hn; cases hn
    · rw [Obj.lookup_eq_str.1 hs, Option.some.injEq] at hs₀
      rw [← hs₀, Vault.runAt_decrypt, hm, Option.some.injEq] at hr
      rw [hs', hr]

/-- **`decrypt_fields` returns or raises `EncryptionError`** iff the first listed
    path that does not go through, if there is one, does not end at a malformed
    envelope. -/
theorem decryption_guarded_iff (C : Vault) (tenantId : Uuid) (d : Obj) (fields : List String) :
    ((∃ d', decryptFields C tenantId d fields = .ok d') ∨
        ∃ msg, decryptFields C tenantId d fields = .error (.encryptionError msg)) ↔
      ∀ pre p post, fields = pre ++ p :: post → Opens C tenantId pre d →
        ∀ s m, d.lookup (Path.keys p) = some (.str s) →
          C.opened tenantId ((pre.map Path.keys).count (Path.keys p)) s = some m →
          ¬ C.Malformed m := by
  constructor
  · intro hok pre p post hp hpre s m hs hm hbad
    obtain ⟨msg, hv, -⟩ | ⟨-, hnot, -⟩ | ⟨-, -, hnot, -⟩ :=
      Vault.decryptValue_cases C tenantId m
    · have herr := decryptFields_eq_error_iff.2 ⟨pre, p, post, hp, hpre, s, m, hs, hm, hv⟩
      rw [herr] at hok
      rcases hok with ⟨d', h⟩ | ⟨msg', h⟩ <;> cases h
    · exact hnot hbad
    · exact hnot hbad
  · intro hcond
    cases h : decryptFields C tenantId d fields with
    | ok d' => exact Or.inl ⟨d', rfl⟩
    | error e =>
      obtain ⟨pre, p, post, hp, hpre, s, m, hs, hm, hv⟩ := decryptFields_eq_error_iff.1 h
      obtain ⟨msg, -, hbad, -⟩ | ⟨hv', -⟩ | ⟨s', hv', -⟩ :=
        Vault.decryptValue_cases C tenantId m
      · exact absurd hbad (hcond pre p post hp hpre s m hs hm)
      · rw [hv, Except.error.injEq] at hv'
        exact Or.inr ⟨_, congrArg Except.error hv'⟩
      · rw [hv] at hv'; cases hv'

end

/-- An envelope cut short: base64 refuses its body, and its error gets out. -/
theorem truncated_envelope_escapes :
    framed.KeyUsable ∧
      decryptFields framed 1 [("iban", .str "ocrenc:v1:abc")] ["iban"] =
        .error (.binasciiError "Incorrect padding") ∧
      ¬ ((∃ d', decryptFields framed 1 [("iban", .str "ocrenc:v1:abc")] ["iban"] = .ok d') ∨
        ∃ msg, decryptFields framed 1 [("iban", .str "ocrenc:v1:abc")] ["iban"] =
          .error (.encryptionError msg)) := by
  have hrun : decryptFields framed 1 [("iban", .str "ocrenc:v1:abc")] ["iban"] =
      .error (.binasciiError "Incorrect padding") := rfl
  refine ⟨framed_keyUsable, hrun, ?_⟩
  rw [hrun]
  rintro (⟨d', h⟩ | ⟨msg, h⟩) <;> cases h

end OcrService
