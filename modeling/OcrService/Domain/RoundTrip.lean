/-
  The round trip of field-level encryption.

  A run of `encrypt_fields` acts on the string at each listed path by itself
  (`Obj.mapStrs_strAt`) and blanks to what it was given
  (`Obj.mapStrs_redact`), whatever prefixes and repetitions the paths have.
  The round trip is then that of one value (`decryptValue_envelope`).

  * `field_encryption_round_trip`: decryption inverts encryption; encryption
    changes only strings at listed paths, and changes nothing the second time;
    no other tenant decrypts.
-/
import OcrService.Domain.Decryption

namespace OcrService

open PyData

section
variable {C : Vault} {tenantId : Uuid} {nonce : Bytes} {s e : String}

/-! ## One value -/

theorem body_envelope (b : String) : body (envelopePrefix ++ b) = b := by
  rw [body, String.toList_append, List.drop_left, String.ofList_toList]

/-- What `encrypt_value` makes of a text that is not an envelope. -/
theorem encryptValue_plain (hs : isEncrypted s = false)
    (h : C.encryptValue tenantId nonce s = .ok e) :
    ∃ key, C.tenantKey tenantId = .ok key ∧ e = envelopePrefix ++
      C.b64encode (nonce ++ C.aesEncrypt key nonce (encode s) (encode tenantId.str)) := by
  rw [Cipher.encryptValue, hs] at h
  cases hk : C.tenantKey tenantId with
  | error err => rw [hk] at h; cases h
  | ok key => rw [hk] at h; cases h; exact ⟨key, rfl, rfl⟩

theorem decryptValue_plain (hs : isEncrypted s = false) : C.decryptValue tenantId s = .ok s := by
  rw [Vault.decryptValue, hs]
  rfl

/-- What is sealed in an envelope that a nonce and a ciphertext make up. -/
theorem openOnce_envelope (hC : C.Ideal) (hnonce : nonce.length = nonceBytes) (u : Uuid) (ct : Bytes) :
    C.openOnce u (envelopePrefix ++ C.b64encode (nonce ++ ct)) =
      (C.tenantKey u).toOption.bind fun key => (C.aesDecrypt key nonce ct (encode u.str)).bind decode := by
  have htake : (nonce ++ ct).take nonceBytes = nonce := by rw [← hnonce, List.take_left]
  have hdrop : (nonce ++ ct).drop nonceBytes = ct := by rw [← hnonce, List.drop_left]
  rw [Vault.openOnce, if_pos (isEncrypted_envelope _), body_envelope, hC.b64]
  simp only [Except.toOption, Option.bind_eq_bind, Option.bind_some, htake, hdrop]

/-- **The tenant's own envelope decrypts to the text.** -/
theorem decryptValue_envelope (hC : C.Ideal) (hnonce : nonce.length = nonceBytes)
    (hs : isEncrypted s = false) (h : C.encryptValue tenantId nonce s = .ok e) :
    C.decryptValue tenantId e = .ok s := by
  obtain ⟨key, hkey, rfl⟩ := encryptValue_plain hs h
  rw [Vault.decryptValue_eq_ok, openOnce_envelope hC hnonce, hkey]
  simp [Except.toOption, hC.opens, decode_encode]

/-- **No other tenant decrypts it**: the tenant is in the associated data. -/
theorem decryptValue_foreign (hC : C.Ideal) (hnonce : nonce.length = nonceBytes)
    (hs : isEncrypted s = false) (h : C.encryptValue tenantId nonce s = .ok e) {u : Uuid}
    (hu : u ≠ tenantId) : C.decryptValue u e = .error decryptionFailed := by
  obtain ⟨key, -, rfl⟩ := encryptValue_plain hs h
  refine Vault.decryptValue_eq_failed ?_ ?_
  · rintro ⟨-, msg, hbad⟩
    rw [body_envelope, hC.b64] at hbad
    cases hbad
  · rw [openOnce_envelope hC hnonce]
    have hnone : ∀ key', C.aesDecrypt key' nonce
        (C.aesEncrypt key nonce (encode s) (encode tenantId.str)) (encode u.str) = none := by
      intro key'
      by_contra hne
      exact hu (Uuid.str_injective (encode_injective (hC.rejects _ _ _ _ _ _ _ hne).2.2))
    cases C.tenantKey u <;> simp [Except.toOption, hnone]

end

/-! ## All fields -/

section
variable {C : Vault} {tenantId : Uuid} {nonces : ℕ → Bytes} {fields : List String} {d d' : Obj}

theorem encryptFields_redact (h : encryptFields C.toCipher tenantId nonces d fields = .ok d') :
    (Json.obj d').redact (fields.map Path.keys) = (Json.obj d).redact (fields.map Path.keys) := by
  rw [encryptFields_eq_mapStrs] at h
  exact Obj.mapStrs_redact (fun _ hq => hq) h

/-- Decryption changes only strings at listed paths. -/
theorem decryptFields_redact (h : decryptFields C tenantId d fields = .ok d') :
    (Json.obj d').redact (fields.map Path.keys) = (Json.obj d).redact (fields.map Path.keys) := by
  rw [decryptFields_eq_mapStrs] at h
  exact Obj.mapStrs_redact (fun _ hq => hq) h

/-- No string that a path of `fields` addresses in `d` is an envelope. -/
def Unsealed (fields : List String) (d : Obj) : Prop :=
  ∀ p ∈ fields, ∀ s, d.lookup (Path.keys p) = some (.str s) → isEncrypted s = false

theorem Unsealed.strAt (hd : Unsealed fields d) {p : List String} (hp : p ∈ fields.map Path.keys)
    {s : String} (hs : (Json.obj d).strAt p = some s) : isEncrypted s = false := by
  obtain ⟨q, hq, rfl⟩ := List.mem_map.1 hp
  exact hd q hq s (Obj.lookup_eq_str.2 hs)

/-- After encryption the run of decryptions at a listed path reads the text that
    was there. -/
theorem runAt_decrypt_encrypted (hC : C.Ideal) (hnonces : ∀ i, (nonces i).length = nonceBytes)
    (hd : Unsealed fields d) (h : encryptFields C.toCipher tenantId nonces d fields = .ok d')
    {p : List String} (hp : p ∈ fields.map Path.keys) {e : String}
    (he : (Json.obj d').strAt p = some e) :
    ∃ s, (Json.obj d).strAt p = some s ∧
      Obj.runAt (fun _ => C.decryptValue tenantId) p (fields.map Path.keys) e = .ok s := by
  obtain ⟨-, hn⟩ | ⟨s, e', i, hs, he', hv⟩ := encryptFields_strAt h hp
  · rw [he] at hn; cases hn
  · rw [he, Option.some.injEq] at he'
    subst he'
    have hplain := hd.strAt hp hs
    have hdec := decryptValue_envelope hC (hnonces i) hplain hv
    -- decrypting the text again, for another occurrence of the path, changes nothing
    have hagain : ∀ (i : ℕ) t, C.decryptValue tenantId e = .ok t → ∀ j : ℕ,
        C.decryptValue tenantId t = .ok t := by
      intro _ t ht _
      rw [hdec, Except.ok.injEq] at ht
      exact ht ▸ decryptValue_plain hplain
    obtain ⟨j, hj⟩ := Obj.runAt_of_mem hp hagain
    exact ⟨s, hs, hj.trans hdec⟩

/-- **Decryption inverts encryption.** -/
theorem decrypt_encryptFields (hC : C.Ideal) (hnonces : ∀ i, (nonces i).length = nonceBytes)
    (hd : Unsealed fields d) (h : encryptFields C.toCipher tenantId nonces d fields = .ok d') :
    decryptFields C tenantId d' fields = .ok d := by
  have hok : ∃ d₂, decryptFields C tenantId d' fields = .ok d₂ := by
    rw [decryptFields_eq_mapStrs, Obj.mapStrs_isOk_iff]
    intro p e he
    by_cases hp : p ∈ fields.map Path.keys
    · obtain ⟨s, -, hr⟩ := runAt_decrypt_encrypted hC hnonces hd h hp he
      exact ⟨s, hr⟩
    · exact ⟨e, Obj.runAt_of_notMem hp e⟩
  obtain ⟨d₂, hd₂⟩ := hok
  -- `d₂` and `d` agree where no path leads and at the end of every path
  have hredact := (decryptFields_redact hd₂).trans (encryptFields_redact h)
  have hstr : ∀ p ∈ fields.map Path.keys, (Json.obj d₂).strAt p = (Json.obj d).strAt p := by
    intro p hp
    rw [decryptFields_eq_mapStrs] at hd₂
    obtain ⟨hn, hn₂⟩ | ⟨e, s₂, he, hr, hs₂⟩ := Obj.mapStrs_strAt hd₂ p
    · obtain ⟨hn', -⟩ | ⟨-, e, -, -, he, -⟩ := encryptFields_strAt h hp
      · rw [hn₂, hn']
      · rw [hn] at he; cases he
    · obtain ⟨s, hs, hr'⟩ := runAt_decrypt_encrypted hC hnonces hd h hp he
      rw [hr, Except.ok.injEq] at hr'
      rw [hs₂, hs, hr']
  rw [hd₂, Json.obj.inj (Json.eq_of_redact hredact hstr)]

/-- **No other tenant decrypts**, if there is anything to decrypt. -/
theorem decryptFields_foreign (hC : C.Ideal) (hnonces : ∀ i, (nonces i).length = nonceBytes)
    (hd : Unsealed fields d) (h : encryptFields C.toCipher tenantId nonces d fields = .ok d')
    {u : Uuid} (hu : u ≠ tenantId)
    (hsome : ∃ p ∈ fields, ∃ s, d.lookup (Path.keys p) = some (.str s)) :
    decryptFields C u d' fields = .error decryptionFailed := by
  rw [decryptFields_eq_mapStrs]
  refine Obj.mapStrs_eq_error_of_forall ?_ ?_
  · intro p hp e he _
    obtain ⟨-, hn⟩ | ⟨s, e', i, hs, he', hv⟩ := encryptFields_strAt h hp
    · rw [he] at hn; cases hn
    · rw [he, Option.some.injEq] at he'
      exact he' ▸ decryptValue_foreign hC (hnonces i) (hd.strAt hp hs) hv hu
  · obtain ⟨p, hp, s, hs⟩ := hsome
    have hp' := List.mem_map_of_mem (f := Path.keys) hp
    obtain ⟨hn, -⟩ | ⟨-, e, -, -, he, -⟩ := encryptFields_strAt h hp'
    · rw [Obj.lookup_eq_str.1 hs] at hn; cases hn
    · exact ⟨_, hp', e, he⟩

/-- **Field encryption round-trips and touches nothing else.**  Encryption
    returns if the key can be used.  What it returns decrypts to the object it
    was given, is that object but for the strings at the listed paths, is
    returned unchanged by a second encryption, and is refused under any other
    tenant. -/
theorem field_encryption_round_trip (C : Vault) (hC : C.Ideal) (tenantId : Uuid) (nonces : ℕ → Bytes)
    (hnonces : ∀ i, (nonces i).length = nonceBytes) (d : Obj) (fields : List String)
    (hd : Unsealed fields d) :
    (C.KeyUsable → ∃ d', encryptFields C.toCipher tenantId nonces d fields = .ok d') ∧
      ∀ d', encryptFields C.toCipher tenantId nonces d fields = .ok d' →
        decryptFields C tenantId d' fields = .ok d ∧
        (Json.obj d').redact (fields.map Path.keys) = (Json.obj d).redact (fields.map Path.keys) ∧
        (∀ nonces', encryptFields C.toCipher tenantId nonces' d' fields = .ok d') ∧
        ∀ u ≠ tenantId, (∃ p ∈ fields, ∃ s, d.lookup (Path.keys p) = some (.str s)) →
          ∃ msg, decryptFields C u d' fields = .error (.encryptionError msg) := by
  refine ⟨fun hkey => encryptFields_isOk_iff.2 (Or.inl hkey), ?_⟩
  intro d' h
  refine ⟨decrypt_encryptFields hC hnonces hd h, encryptFields_redact h, ?_, ?_⟩
  · intro nonces'
    exact encryptFields_of_sealed (encryptFields_envelope h)
  · intro u hu hsome
    exact ⟨_, decryptFields_foreign hC hnonces hd h hu hsome⟩

/-- Nested fields, listed twice and through a prefix of each other. -/
theorem field_encryption_round_trip_nested :
    ∃ d', encryptFields framed.toCipher 1 (fun _ => List.replicate nonceBytes 0)
        [("tax", .str "T-9"), ("bank", .obj [("iban", .str "DE89"), ("n", .int 1)])]
        ["bank.iban", "bank", "tax", "bank.iban", "tax.x", ""] = .ok d' ∧
      decryptFields framed 1 d' ["bank.iban", "bank", "tax", "bank.iban", "tax.x", ""] =
        .ok [("tax", .str "T-9"), ("bank", .obj [("iban", .str "DE89"), ("n", .int 1)])] ∧
      ∃ msg, decryptFields framed 2 d' ["bank.iban", "bank", "tax", "bank.iban", "tax.x", ""] =
        .error (.encryptionError msg) := by
  have hplain : Unsealed ["bank.iban", "bank", "tax", "bank.iban", "tax.x", ""]
      [("tax", .str "T-9"), ("bank", .obj [("iban", .str "DE89"), ("n", .int 1)])] := by
    intro p hp s hs
    have hstr : ∀ p ∈ ["bank.iban", "bank", "tax", "bank.iban", "tax.x", ""], ∀ s,
        ((Json.obj [("tax", .str "T-9"), ("bank", .obj [("iban", .str "DE89"), ("n", .int 1)])]).strAt
          (Path.keys p)) = some s → s = "DE89" ∨ s = "T-9" := by
      simp only [List.forall_mem_cons]
      exact ⟨fun s h => Or.inl (Option.some.inj h).symm, nofun,
        fun s h => Or.inr (Option.some.inj h).symm, fun s h => Or.inl (Option.some.inj h).symm,
        nofun, nofun, nofun⟩
    obtain rfl | rfl := hstr p hp s (Obj.lookup_eq_str.1 hs)
    · rfl
    · rfl
  obtain ⟨hok, hall⟩ := field_encryption_round_trip framed framed_ideal 1
    (fun _ => List.replicate nonceBytes 0) (fun _ => List.length_replicate) _ _ hplain
  obtain ⟨d', h⟩ := hok framed_keyUsable
  obtain ⟨hback, -, -, hforeign⟩ := hall d' h
  exact ⟨d', h, hback, hforeign 2 (by decide) ⟨"tax", by decide, "T-9", rfl⟩⟩

end

end OcrService
