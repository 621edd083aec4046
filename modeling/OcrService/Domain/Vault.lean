/-
  The cryptographic library with its decryption, and what is assumed of it.

  `Vault.Ideal` is the assumption on AES-GCM and base64: decryption succeeds
  for the key, the nonce and the associated data of the encryption and for no
  others, and decoding undoes encoding.  `framed` has it by construction: its
  base64 is the one of `PyData.Base64`, its ciphertext shows what it was made
  with.
-/
import OcrService.Domain.UuidText
import OcrService.Lib.Base64

namespace OcrService

open PyData

/-! ## Text and bytes -/

/-- `bs.decode()`. -/
def decode (bs : Bytes) : Option String := String.fromUTF8? ⟨bs.toArray⟩

theorem toList_loop (bs : ByteArray) (i : ℕ) (r : Bytes) :
    ByteArray.toList.loop bs i r = r.reverse ++ bs.data.toList.drop i := by
  induction i, r using ByteArray.toList.loop.induct bs with
  | case1 i r hi ih =>
    have hlen : i < bs.data.toList.length := hi
    have hget : bs.get! i = bs.data.toList[i] := getElem!_pos bs.data i hi
    rw [ByteArray.toList.loop, if_pos hi, ih, hget, List.drop_eq_getElem_cons hlen]
    simp
  | case2 i r hi =>
    have hlen : bs.data.toList.length ≤ i := Nat.le_of_not_lt hi
    rw [ByteArray.toList.loop, if_neg hi, List.drop_of_length_le hlen, List.append_nil]

theorem toArray_toList (bs : ByteArray) : bs.toList.toArray = bs.data := by
  rw [ByteArray.toList, toList_loop]
  simp

/-- **Text that is encoded is decoded.** -/
theorem decode_encode (s : String) : decode (encode s) = some s := by
  have hs : (⟨(encode s).toArray⟩ : ByteArray) = s.toByteArray := by
    rw [encode, toArray_toList]
    rfl
  rw [decode, hs, String.fromUTF8?, dif_pos s.isValidUTF8]
  rfl

theorem encode_injective : Function.Injective encode := by
  intro s t h
  have := congrArg decode h
  rw [decode_encode, decode_encode] at this
  exact Option.some.inj this

theorem encode_of_decode {bs : Bytes} {s : String} (h : decode bs = some s) : encode s = bs := by
  unfold decode String.fromUTF8? at h
  split at h
  · rename_i hvalid
    rw [Option.some.injEq] at h
    subst h
    have hbytes : (encode (String.fromUTF8 ⟨bs.toArray⟩ hvalid)).toArray = bs.toArray :=
      toArray_toList _
    exact Array.toList_inj.2 hbytes
  · cases h

/-- Every character takes a byte at least. -/
theorem length_le_encode (s : String) : s.toList.length ≤ (encode s).length := by
  have hbytes : (encode s).length = (s.toList.flatMap String.utf8EncodeChar).length := by
    have h : (encode s).toArray = s.toByteArray.data := toArray_toList _
    rw [← List.size_toArray, h, ← String.ofList_toList (s := s), String.toByteArray_ofList,
      List.utf8Encode, String.toList_ofList, ← Array.length_toList, List.toList_data_toByteArray]
  rw [hbytes]
  induction s.toList with
  | nil => exact Nat.zero_le _
  | cons c cs ih =>
    have hc := c.utf8Size_pos
    rw [List.flatMap_cons, List.length_append, String.length_utf8EncodeChar, List.length_cons]
    omega

/-! ## The library -/

/-- The cryptographic library with its decryption. -/
structure Vault extends Cipher where
  /-- `AESGCM(key).decrypt(nonce, data, associated_data)`; `none` if it raises -/
  aesDecrypt : Bytes → Bytes → Bytes → Bytes → Option Bytes

/-- AES-GCM and base64 are ideal. -/
structure Vault.Ideal (C : Vault) : Prop where
  b64 : ∀ bs, C.b64decode (C.b64encode bs) = .ok bs
  opens : ∀ key nonce data ad, C.aesDecrypt key nonce (C.aesEncrypt key nonce data ad) ad = some data
  rejects : ∀ key nonce data ad key' nonce' ad',
    C.aesDecrypt key' nonce' (C.aesEncrypt key nonce data ad) ad' ≠ none →
      key' = key ∧ nonce' = nonce ∧ ad' = ad

/-- Neither decryption nor decoding lengthens: a ciphertext has its tag on top
    of the text, base64 four characters for three bytes. -/
structure Vault.NoGrowth (C : Vault) : Prop where
  b64 : ∀ s bs, C.b64decode s = .ok bs → bs.length ≤ s.toList.length
  aes : ∀ key nonce data ad plaintext, C.aesDecrypt key nonce data ad = some plaintext →
    plaintext.length ≤ data.length

/-! ## A library that is ideal -/

/-- A byte string with its end marked. -/
def frame : Bytes → Bytes
  | [] => [0]
  | b :: bs => 1 :: b :: frame bs

theorem frame_append_inj : ∀ {a b r r' : Bytes}, frame a ++ r = frame b ++ r' → a = b ∧ r = r'
  | [], [], _, _, h => ⟨rfl, (List.cons.inj h).2⟩
  | [], _ :: _, _, _, h => absurd (List.cons.inj h).1 (by decide)
  | _ :: _, [], _, _, h => absurd (List.cons.inj h).1 (by decide)
  | x :: a, y :: b, r, r', h => by
    have h' := List.cons.inj (List.cons.inj h).2
    obtain ⟨rfl, rfl⟩ := frame_append_inj h'.2
    exact ⟨congrArg (· :: a) h'.1, rfl⟩

/-- What a ciphertext is made with, in front of it. -/
def label (key nonce ad : Bytes) : Bytes := frame key ++ (frame nonce ++ frame ad)

theorem label_append_inj {key nonce ad r key' nonce' ad' r' : Bytes}
    (h : label key nonce ad ++ r = label key' nonce' ad' ++ r') :
    key = key' ∧ nonce = nonce' ∧ ad = ad' ∧ r = r' := by
  simp only [label, List.append_assoc] at h
  obtain ⟨hkey, h⟩ := frame_append_inj h
  obtain ⟨hnonce, h⟩ := frame_append_inj h
  exact ⟨hkey, hnonce, frame_append_inj h⟩

/-- Ciphertexts that show what they were made with; the configured key is 32
    times the byte of `k`. -/
def framed : Vault where
  b64encode := Base64.encode
  b64decode := Base64.decode
  hkdf master salt _ := (salt ++ master).take keyBytes
  aesEncrypt key nonce data ad := label key nonce ad ++ data
  aesDecrypt key nonce data ad :=
    if (label key nonce ad).isPrefixOf data then some (data.drop (label key nonce ad).length)
    else none
  piiEncryptionKey := some (Base64.encode (List.replicate keyBytes 107))

theorem framed_ideal : framed.Ideal where
  b64 := Base64.decode_encode
  opens key nonce data ad := by simp [framed]
  rejects key nonce data ad key' nonce' ad' h := by
    simp only [framed, ne_eq, ite_eq_right_iff, reduceCtorEq, imp_false, not_not,
      List.isPrefixOf_iff_prefix] at h
    obtain ⟨r, hr⟩ := h
    obtain ⟨hkey, hnonce, had, -⟩ := label_append_inj hr
    exact ⟨hkey, hnonce, had⟩

theorem framed_noGrowth : framed.NoGrowth where
  b64 _ _ h := Base64.decode_length h
  aes key nonce data ad plaintext h := by
    simp only [framed, Option.ite_none_right_eq_some, Option.some.injEq] at h
    rw [← h.2, List.length_drop]
    exact Nat.sub_le _ _

theorem framed_keyUsable : framed.KeyUsable := by
  have hkey : ∀ bs, framed.b64decode (Base64.encode bs) = .ok bs := Base64.decode_encode
  have hset : framed.piiEncryptionKey = some (Base64.encode (List.replicate keyBytes 107)) := rfl
  refine ⟨List.replicate keyBytes 107, ?_⟩
  rw [Cipher.masterKey, hset]
  simp only [hkey, List.length_replicate, if_true]

end OcrService
