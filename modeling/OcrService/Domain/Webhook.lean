/-
  Webhook payload signing (`app/domain/webhook.py`).

  HMAC-SHA256 is the parameter `hmacSha256`, of a key and a message.

  * `serializePayload_perm`: the signed bytes do not depend on the order of the
    keys of the payload;
  * `verify_eq_true_iff`: of all texts the receiver accepts the signature of the
    body only, and `verify_sign`: that one it accepts.
-/
import OcrService.Lib.Dumps
import OcrService.Domain.UuidText

namespace OcrService

open PyData PyStr

def signatureHeader : String := "X-OCR-Signature"

section
variable (P : Printer) (hmacSha256 : Bytes → Bytes → Bytes)

/-- `serialize_payload`. -/
def serializePayload (payload : Obj) : Bytes := encode ((Json.obj payload).dumps P)

/-- `hexdigest` of a digest. -/
def hexdigest (digest : Bytes) : String :=
  String.ofList (digest.flatMap fun b => hex 2 b.toNat)

def sign (body : Bytes) (secret : String) : String :=
  "sha256=" ++ hexdigest (hmacSha256 (encode secret) body)

/-- `s.isascii()`. -/
def isAscii (s : String) : Bool := s.toList.all fun c => c.toNat < 128

/-- `hmac.compare_digest` on strings, or the text of its `TypeError`. -/
def compareDigest (a b : String) : Except String Bool :=
  if isAscii a && isAscii b then .ok (a = b)
  else .error "comparing strings with non-ASCII characters is not supported"

def verify (body : Bytes) (secret signature : String) : Except String Bool :=
  compareDigest (sign hmacSha256 body secret) signature

/-- `build_signed_request`: the body and the headers. -/
def buildSignedRequest (payload : Obj) (secret : String) : Bytes × List (String × String) :=
  let body := serializePayload P payload
  (body, [("Content-Type", "application/json"), (signatureHeader, sign hmacSha256 body secret)])

end

variable {P : Printer} {hmacSha256 : Bytes → Bytes → Bytes}

theorem serializePayload_perm {d d' : Obj} (hkeys : (d.map Prod.fst).Nodup) (hperm : d.Perm d') :
    serializePayload P d = serializePayload P d' := by
  rw [serializePayload, dumps_perm hkeys hperm, serializePayload]

example : serializePayload default [("b", .int 2), ("a", .int 1)] = encode "\x7b\"a\":1,\"b\":2\x7d" := by
  decide +kernel

theorem isAscii_append (s t : String) : isAscii (s ++ t) = (isAscii s && isAscii t) := by
  simp [isAscii, String.toList_append]

theorem hexDigit_ascii : ∀ n < 16, (hexDigit n).toNat < 128 := by decide

theorem isAscii_hexdigest (digest : Bytes) : isAscii (hexdigest digest) = true := by
  rw [isAscii, hexdigest, String.toList_ofList, List.all_eq_true]
  intro c hc
  obtain ⟨b, -, hc⟩ := List.mem_flatMap.1 hc
  obtain ⟨n, hn, rfl⟩ := mem_hex hc
  exact decide_eq_true (hexDigit_ascii n hn)

theorem isAscii_sign (body : Bytes) (secret : String) : isAscii (sign hmacSha256 body secret) = true := by
  have hname : isAscii "sha256=" = true := by decide +kernel
  rw [sign, isAscii_append, hname, isAscii_hexdigest, Bool.and_true]

theorem verify_eq_true_iff {body : Bytes} {secret signature : String} :
    verify hmacSha256 body secret signature = .ok true ↔ signature = sign hmacSha256 body secret := by
  rw [verify, compareDigest, isAscii_sign, Bool.true_and]
  constructor
  · intro h
    split_ifs at h with hascii
    exact (of_decide_eq_true (Except.ok.inj h)).symm
  · rintro rfl
    rw [if_pos (isAscii_sign body secret), decide_eq_true rfl]

theorem verify_sign (body : Bytes) (secret : String) :
    verify hmacSha256 body secret (sign hmacSha256 body secret) = .ok true :=
  verify_eq_true_iff.2 rfl

/-- The request carries a signature that verifies. -/
theorem buildSignedRequest_verifies (payload : Obj) (secret : String) :
    ∃ signature,
      (buildSignedRequest P hmacSha256 payload secret).2.lookup signatureHeader = some signature ∧
      verify hmacSha256 (buildSignedRequest P hmacSha256 payload secret).1 secret signature = .ok true :=
  ⟨sign hmacSha256 (serializePayload P payload) secret, rfl, verify_sign _ _⟩

end OcrService
