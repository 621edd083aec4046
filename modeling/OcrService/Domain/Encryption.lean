/-
  Field-level PII encryption (`app/domain/encryption.py`).

  AES-GCM, HKDF and base64 are outside the repository: they are the fields of
  `Cipher`, together with the setting `pii_encryption_key`.  A path of
  `pii_fields` is walked by `PyData.Obj.mapStr`; `walk_eq` is the recursion
  the source writes.

  * `encryptFields_envelope`: afterwards every string a listed path addresses
    is an envelope;
  * `encryptFields_isOk_iff`: encryption fails only for want of a usable key,
    and only if there is a plaintext to encrypt.
-/
import OcrService.Lib.JsonPaths

namespace OcrService

open PyData

/-- A UUID, as its 128 bits. -/
abbrev Uuid := BitVec 128

abbrev Bytes := List UInt8

/-- `str(uuid)`: 32 hexadecimal digits in groups of 8, 4, 4, 4 and 12. -/
def Uuid.str (u : Uuid) : String :=
  let h := PyStr.hex 32 u.toNat
  String.ofList <| h.take 8 ++ '-' :: (h.drop 8).take 4 ++ '-' :: (h.drop 12).take 4 ++
    '-' :: (h.drop 16).take 4 ++ '-' :: h.drop 20

/-- `s.encode()`. -/
def encode (s : String) : Bytes := s.toUTF8.toList

/-- What the encryption module raises. -/
inductive EncError
  | encryptionError (msg : String)
  | binasciiError (msg : String)

/-- The cryptographic library, base64, and the configured master key. -/
structure Cipher where
  b64encode : Bytes → String
  b64decode : String → Except String Bytes
  /-- HKDF-SHA256 of length 32: master key, salt, info -/
  hkdf : Bytes → Bytes → Bytes → Bytes
  /-- `AESGCM(key).encrypt(nonce, data, associated_data)` -/
  aesEncrypt : Bytes → Bytes → Bytes → Bytes → Bytes
  /-- `settings.pii_encryption_key` -/
  piiEncryptionKey : Option String

def envelopePrefix : String := "ocrenc:v1:"

def keyBytes : ℕ := 32

/-- `is_encrypted` on a string. -/
def isEncrypted (s : String) : Bool := envelopePrefix.toList.isPrefixOf s.toList

theorem isEncrypted_envelope (b : String) : isEncrypted (envelopePrefix ++ b) = true := by
  simp [isEncrypted, String.toList_append]

namespace Cipher
variable (C : Cipher)

/-- `_master_key`. -/
def masterKey : Except EncError Bytes :=
  match C.piiEncryptionKey with
  | none =>
    .error (.encryptionError "OCR_PII_ENCRYPTION_KEY is not set; refusing to handle PII fields.")
  | some key =>
    match C.b64decode key with
    | .error msg => .error (.binasciiError msg)
    | .ok raw =>
      if raw.length = keyBytes then .ok raw
      else .error (.encryptionError
        ("OCR_PII_ENCRYPTION_KEY must decode to 32 bytes, got " ++ toString raw.length ++ "."))

/-- `_tenant_key`. -/
def tenantKey (tenantId : Uuid) : Except EncError Bytes :=
  C.masterKey.map fun master => C.hkdf master (encode tenantId.str) (encode "ocr-pii-field")

/-- `encrypt_value`, with the nonce it draws. -/
def encryptValue (tenantId : Uuid) (nonce : Bytes) (plaintext : String) : Except EncError String :=
  if isEncrypted plaintext then .ok plaintext
  else (C.tenantKey tenantId).map fun key =>
    envelopePrefix ++
      C.b64encode (nonce ++ C.aesEncrypt key nonce (encode plaintext) (encode tenantId.str))

/-- The configured key can be used. -/
def KeyUsable : Prop := ∃ key, C.masterKey = .ok key

end Cipher

/-- `_walk`: apply a transformation to the string at a dotted path. -/
def walk {ε : Type} (data : Obj) (path : String) (transform : String → Except ε String) :
    Except ε Obj :=
  data.mapStr transform (Path.keys path)

/-- `_walk` by the partition of the path at its first dot, as the source
    recurses: `head` names the entry, and `rest`, if not empty, is walked in the
    dictionary found there. -/
theorem walk_eq {ε : Type} (data : Obj) (path : String) (transform : String → Except ε String) :
    walk data path transform =
      let head := String.ofList (Path.partition path.toList).1
      let rest := String.ofList (Path.partition path.toList).2
      if rest ≠ "" then
        match data.get? head with
        | some (.obj child) => (walk child rest transform).map fun c => data.set head (.obj c)
        | _ => .ok data
      else
        match data.get? head with
        | some (.str s) => (transform s).map fun s' => data.set head (.str s')
        | _ => .ok data := by
  have hk := Path.keysOf_eq path.toList
  dsimp only
  by_cases hr : (Path.partition path.toList).2 = []
  · have hrest : String.ofList (Path.partition path.toList).2 = "" := by rw [hr]
    have hp : Path.keys path = [String.ofList (Path.partition path.toList).1] := by
      rw [Path.keys, hk, if_pos hr]; rfl
    rw [if_neg (not_not.2 hrest), walk, hp]
    rfl
  · have hrest : String.ofList (Path.partition path.toList).2 ≠ "" := by
      intro h; exact hr (by simpa using congrArg String.toList h)
    obtain ⟨k, ks, hkeys⟩ := Path.keys_eq_cons (String.ofList (Path.partition path.toList).2)
    have hp : Path.keys path = String.ofList (Path.partition path.toList).1 :: k :: ks := by
      rw [Path.keys, hk, if_neg hr, ← hkeys, Path.keys, String.toList_ofList]; rfl
    rw [if_pos hrest]
    simp only [walk, hp, hkeys]
    rfl

/-- `encrypt_fields`; the `i`-th field draws the nonce `nonces i` if it needs
    one. -/
def encryptFields (C : Cipher) (tenantId : Uuid) :
    (nonces : ℕ → Bytes) → (data : Obj) → (piiFields : List String) → Except EncError Obj
  | _, out, [] => .ok out
  | nonces, out, field :: fields =>
    match walk out field (C.encryptValue tenantId (nonces 0)) with
    | .error e => .error e
    | .ok out => encryptFields C tenantId (fun i => nonces (i + 1)) out fields

/-! ## Envelopes -/

/-- Every string that a path of `piiFields` addresses in `d` is an envelope. -/
def Sealed (piiFields : List String) (d : Obj) : Prop :=
  ∀ p ∈ piiFields, ∀ s, d.lookup (Path.keys p) = some (.str s) → isEncrypted s = true

section
variable {C : Cipher} {tenantId : Uuid} {nonce : Bytes}

theorem encryptValue_isEncrypted {s s' : String} (h : C.encryptValue tenantId nonce s = .ok s') :
    isEncrypted s' = true := by
  unfold Cipher.encryptValue at h
  split at h
  · rename_i hs; cases h; exact hs
  · cases hk : C.tenantKey tenantId with
    | error e => rw [hk] at h; cases h
    | ok key => rw [hk] at h; cases h; exact isEncrypted_envelope _

/-- Every result of `encrypt_value` is left as it is the next time. -/
theorem encryptValue_again {s e : String} (h : C.encryptValue tenantId nonce s = .ok e)
    (nonce' : Bytes) : C.encryptValue tenantId nonce' e = .ok e := by
  rw [Cipher.encryptValue, if_pos (encryptValue_isEncrypted h)]

theorem encryptFields_eq_mapStrs {nonces : ℕ → Bytes} {d : Obj} {fields : List String} :
    encryptFields C tenantId nonces d fields =
      d.mapStrs (fun i => C.encryptValue tenantId (nonces i)) (fields.map Path.keys) := by
  induction fields generalizing nonces d with
  | nil => rfl
  | cons field fields ih =>
    rw [encryptFields, List.map_cons, Obj.mapStrs, walk]
    cases d.mapStr (C.encryptValue tenantId (nonces 0)) (Path.keys field) with
    | error e => rfl
    | ok d₁ => exact ih

/-- **A string at a listed path after encryption** is what `encrypt_value` made
    of it, with one of the nonces drawn. -/
theorem encryptFields_strAt {nonces : ℕ → Bytes} {fields : List String} {d d' : Obj}
    (h : encryptFields C tenantId nonces d fields = .ok d') {p : List String}
    (hp : p ∈ fields.map Path.keys) :
    ((Json.obj d).strAt p = none ∧ (Json.obj d').strAt p = none) ∨
      ∃ s e i, (Json.obj d).strAt p = some s ∧ (Json.obj d').strAt p = some e ∧
        C.encryptValue tenantId (nonces i) s = .ok e := by
  rw [encryptFields_eq_mapStrs] at h
  obtain hl | ⟨s, e, hs, hr, he⟩ := Obj.mapStrs_strAt h p
  · exact Or.inl hl
  · obtain ⟨i, hi⟩ := Obj.runAt_of_mem (s := s) hp fun i t ht j => encryptValue_again ht (nonces j)
    exact Or.inr ⟨s, e, i, hs, he, hi ▸ hr⟩

/-- **After `encrypt_fields` every string a listed path addresses is an
    envelope.** -/
theorem encryptFields_envelope {nonces : ℕ → Bytes} {fields : List String} {d d' : Obj}
    (h : encryptFields C tenantId nonces d fields = .ok d') : Sealed fields d' := by
  intro p hp s hs
  obtain ⟨-, hn⟩ | ⟨s₀, e, i, -, he, hv⟩ :=
    encryptFields_strAt h (List.mem_map_of_mem (f := Path.keys) hp)
  · rw [Obj.lookup_eq_str.1 hs] at hn; cases hn
  · rw [Obj.lookup_eq_str.1 hs, Option.some.injEq] at he
    exact he ▸ encryptValue_isEncrypted hv

/-- Where every listed path addresses envelopes, encryption changes nothing. -/
theorem encryptFields_of_sealed : ∀ {nonces : ℕ → Bytes} {fields : List String} {d : Obj},
    Sealed fields d → encryptFields C tenantId nonces d fields = .ok d
  | _, [], _, _ => rfl
  | nonces, field :: fields, d, h => by
    have hwalk : walk d field (C.encryptValue tenantId (nonces 0)) = .ok d :=
      Obj.mapStr_of_fixed fun s hs => by
        rw [Cipher.encryptValue, if_pos (h field List.mem_cons_self s hs)]
    rw [encryptFields, hwalk]
    exact encryptFields_of_sealed fun p hp => h p (List.mem_cons_of_mem _ hp)

/-- **Encryption is the identity** exactly where there is nothing to encrypt. -/
theorem encryptFields_eq_self_iff {nonces : ℕ → Bytes} {fields : List String} {d d' : Obj}
    (h : encryptFields C tenantId nonces d fields = .ok d') : d' = d ↔ Sealed fields d := by
  constructor
  · rintro rfl
    exact encryptFields_envelope h
  · intro hsealed
    rw [encryptFields_of_sealed hsealed, Except.ok.injEq] at h
    exact h.symm

/-! ## When encryption fails -/

theorem encryptValue_eq_error {s : String} :
    (∃ e, C.encryptValue tenantId nonce s = .error e) ↔ ¬ C.KeyUsable ∧ isEncrypted s = false := by
  unfold Cipher.encryptValue Cipher.KeyUsable Cipher.tenantKey
  cases hs : isEncrypted s <;> cases hk : C.masterKey <;> simp [Except.map]

/-- **`encrypt_fields` succeeds iff the key is usable or there is nothing to
    encrypt.** -/
theorem encryptFields_isOk_iff {nonces : ℕ → Bytes} {fields : List String} {d : Obj} :
    (∃ d', encryptFields C tenantId nonces d fields = .ok d') ↔ C.KeyUsable ∨ Sealed fields d := by
  have hrun : ∀ {p s}, p ∈ fields.map Path.keys → ∃ i,
      Obj.runAt (fun i => C.encryptValue tenantId (nonces i)) p (fields.map Path.keys) s =
        C.encryptValue tenantId (nonces i) s :=
    fun hp => Obj.runAt_of_mem hp fun i t ht j => encryptValue_again ht (nonces j)
  constructor
  · intro hok
    by_cases hkey : C.KeyUsable
    · exact Or.inl hkey
    · refine Or.inr fun p hp s hs => ?_
      by_contra hplain
      rw [encryptFields_eq_mapStrs, Obj.mapStrs_isOk_iff] at hok
      obtain ⟨e, he⟩ := hok (Path.keys p) s (Obj.lookup_eq_str.1 hs)
      obtain ⟨i, hi⟩ := hrun (s := s) (List.mem_map_of_mem (f := Path.keys) hp)
      obtain ⟨err, herr⟩ := encryptValue_eq_error.2 ⟨hkey, by simpa using hplain⟩
      rw [hi, herr] at he
      cases he
  · rintro (hkey | hsealed)
    · rw [encryptFields_eq_mapStrs, Obj.mapStrs_isOk_iff]
      intro p s _
      by_cases hp : p ∈ fields.map Path.keys
      · obtain ⟨i, hi⟩ := hrun (s := s) hp
        cases hv : C.encryptValue tenantId (nonces i) s with
        | ok e => exact ⟨e, hi.trans hv⟩
        | error err => exact absurd hkey (encryptValue_eq_error.1 ⟨err, hv⟩).1
      · exact ⟨s, Obj.runAt_of_notMem hp s⟩
    · exact ⟨d, encryptFields_of_sealed hsealed⟩

end

end OcrService
