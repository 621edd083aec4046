/-
  What a serialised payload identifies (`app/domain/webhook.py`, and
  `payload_hash` of `app/services/audit.py`).

  The floats of a payload are those of any type, with the text that `repr` gives
  of each; NaN and the infinities are no JSON.

  * `serializePayload_obj`: the payloads of `OcrService.serializePayload` are those
    with rational floats;
  * `serializePayload_eq_iff`: the bytes identify the payload, but for the order of
    keys;
  * `verify_sign_eq`: with an ideal HMAC a signature verifies for its body only.
-/
import OcrService.Lib.Canonical
import OcrService.Domain.Webhook
import OcrService.Domain.Vault

namespace OcrService

open PyData PyStr

/-- A dictionary, in which no dictionary has a key twice. -/
structure Payload (φ : Type) where
  entries : List (String × JsonTree φ)
  keyed : (JsonTree.obj entries).Keyed

namespace Payload
variable {φ : Type}

def value (payload : Payload φ) : JsonTree φ := .obj payload.entries

/-- Equal as JSON values, irrespective of the order of keys at every depth. -/
def Same (p q : Payload φ) : Prop := JsonTree.Same p.value q.value

section
variable (text : φ → String)

/-- `serialize_payload`. -/
def serializePayload (payload : Payload φ) : Bytes := encode (payload.value.print text)

/-- `build_signed_request`. -/
def buildSignedRequest (hmacSha256 : Bytes → Bytes → Bytes) (payload : Payload φ) (secret : String) :
    Bytes × List (String × String) :=
  let body := payload.serializePayload text
  (body, [("Content-Type", "application/json"), (signatureHeader, sign hmacSha256 body secret)])

/-- The string that `payload_hash` hashes; its `default=str` is for values that
    are no JSON. -/
def canonical (payload : Payload φ) : String := payload.value.print text

/-- `payload_hash`. -/
def payloadHash (sha256 : Bytes → Bytes) (payload : Option (Payload φ)) : Option String :=
  payload.map fun payload => hexdigest (sha256 (encode (payload.canonical text)))

end

/-- A dictionary with rational floats, as a payload. -/
def ofObj (d : Obj) (hkeyed : (Json.obj d).tree.Keyed) : Payload ℚ where
  entries := treeEntries d
  keyed := by rwa [Json.tree] at hkeyed

/-- The signed bytes of a dictionary are those of its payload. -/
theorem serializePayload_obj (P : Printer) (d : Obj) (hkeyed : (Json.obj d).tree.Keyed) :
    OcrService.serializePayload P d = (ofObj d hkeyed).serializePayload P.float := by
  rw [OcrService.serializePayload, dumps_eq_print, Json.tree, serializePayload, value, ofObj]

/-! ## Payloads -/

theorem canonical_eq_iff (F : FloatPrinter φ) {p q : Payload φ} :
    p.canonical F.text = q.canonical F.text ↔ p.Same q :=
  JsonTree.print_eq_iff p.keyed

/-- **The signed bytes identify the payload.** -/
theorem serializePayload_eq_iff (F : FloatPrinter φ) {p q : Payload φ} :
    p.serializePayload F.text = q.serializePayload F.text ↔ p.Same q := by
  rw [serializePayload, serializePayload, encode_injective.eq_iff]
  exact canonical_eq_iff F

/-! ## Signatures -/

theorem hexdigest_injective : Function.Injective hexdigest := by
  intro a b h
  have hlist : a.flatMap (fun x => hex 2 x.toNat) = b.flatMap (fun x => hex 2 x.toNat) := by
    rw [← String.toList_inj] at h
    simpa only [hexdigest, String.toList_ofList] using h
  have hne (x : UInt8) (l : List Char) : hex 2 x.toNat ++ l ≠ [] := by
    intro h
    have hlength := congrArg List.length h
    simp [length_hex] at hlength
  clear h
  induction a generalizing b with
  | nil =>
    cases b with
    | nil => rfl
    | cons y b => exact absurd hlist.symm (hne y _)
  | cons x a ih =>
    cases b with
    | nil => exact absurd hlist (hne x _)
    | cons y b =>
      obtain ⟨hxy, hrest⟩ := List.append_inj hlist (by rw [length_hex, length_hex])
      have hmod := hex_inj hxy
      have hx := x.toNat_lt
      have hy := y.toNat_lt
      rw [Nat.mod_eq_of_lt (by omega), Nat.mod_eq_of_lt (by omega)] at hmod
      rw [UInt8.toNat_inj.1 hmod, ih hrest]

section
variable {hmacSha256 : Bytes → Bytes → Bytes}

/-- With an ideal HMAC, a signature is of one body. -/
theorem sign_injective (hideal : ∀ key, Function.Injective (hmacSha256 key)) (secret : String) :
    Function.Injective fun body => sign hmacSha256 body secret := by
  intro body body₀ h
  have hdigest := String.append_right_inj _ |>.1 h
  exact hideal _ (hexdigest_injective hdigest)

/-- **A signature verifies** for the body it was made of, and for no other. -/
theorem verify_sign_eq (hideal : ∀ key, Function.Injective (hmacSha256 key))
    (body body₀ : Bytes) (secret : String) :
    verify hmacSha256 body secret (sign hmacSha256 body₀ secret) = .ok (decide (body = body₀)) := by
  rw [verify, compareDigest, isAscii_sign, isAscii_sign, Bool.and_true, if_pos rfl]
  exact congrArg Except.ok (decide_eq_decide.2 (sign_injective hideal secret).eq_iff)

/-- **Canonical serialisation identifies a payload**, in its bytes, in the string
    that is hashed, and in the signatures that verify. -/
theorem serialization_identifies (F : FloatPrinter φ)
    (hideal : ∀ key, Function.Injective (hmacSha256 key)) :
    (∀ p q : Payload φ, p.serializePayload F.text = q.serializePayload F.text ↔ p.Same q) ∧
    (∀ p q : Payload φ, p.canonical F.text = q.canonical F.text ↔ p.Same q) ∧
    (∀ (body body₀ : Bytes) (secret : String),
      verify hmacSha256 body secret (sign hmacSha256 body₀ secret) = .ok (decide (body = body₀))) ∧
    ∀ (p : Payload φ) (secret : String),
      ∃ signature, (p.buildSignedRequest F.text hmacSha256 secret).2.lookup signatureHeader = some signature ∧
        ∀ q : Payload φ,
          verify hmacSha256 (q.serializePayload F.text) secret signature = .ok true ↔ q.Same p := by
  refine ⟨fun p q => serializePayload_eq_iff F, fun p q => canonical_eq_iff F,
    verify_sign_eq hideal, fun p secret => ?_⟩
  refine ⟨sign hmacSha256 (p.serializePayload F.text) secret, rfl, fun q => ?_⟩
  rw [verify_sign_eq hideal, Except.ok.injEq, decide_eq_true_eq]
  exact serializePayload_eq_iff F

end

end Payload

namespace Sample

/-- The two zeros, by their signs. -/
def zeros : FloatPrinter Bool where
  text negative := if negative then "-0.0" else "0.0"
  injective := by decide
  numeric negative := by cases negative <;> exact List.all_eq_true.1 (by decide)
  marked negative := by cases negative <;> exact Or.inl (by decide)

/-- A payload and its copy with the keys in another order. -/
def signedPayload : Payload Bool where
  entries := [("total", .float false), ("items", .arr [.obj [("q", .int 2), ("p", .float true)]])]
  keyed := by simp [JsonTree.Keyed, JsonTree.KeyedEntries, JsonTree.KeyedItems]

def reordered : Payload Bool where
  entries := [("items", .arr [.obj [("p", .float true), ("q", .int 2)]]), ("total", .float false)]
  keyed := by simp [JsonTree.Keyed, JsonTree.KeyedEntries, JsonTree.KeyedItems]

/-- Another zero in the same place. -/
def flipped : Payload Bool where
  entries := [("total", .float true), ("items", .arr [.obj [("q", .int 2), ("p", .float true)]])]
  keyed := by simp [JsonTree.Keyed, JsonTree.KeyedEntries, JsonTree.KeyedItems]

theorem same_reordered : signedPayload.Same reordered := by
  have hitem : JsonTree.Same (.obj [("q", .int 2), ("p", .float true)])
      (.obj [("p", .float true), ("q", .int 2)] : JsonTree Bool) :=
    .obj (.swap _ _ _) (.refl _) rfl (.cons (.float true) (.cons (.int 2) .nil))
  exact .obj (.swap _ _ _) (.refl _) rfl
    (.cons (.arr (.cons hitem .nil)) (.cons (.float false) .nil))

end Sample

theorem serialization_identifies_sample :
    Sample.signedPayload.serializePayload Sample.zeros.text =
        Sample.reordered.serializePayload Sample.zeros.text ∧
      ¬ Sample.signedPayload.Same Sample.flipped ∧
      verify (fun key body => key ++ body) [1] "sek" (sign (fun key body => key ++ body) [2] "sek") =
        .ok false := by
  have h := Payload.serialization_identifies Sample.zeros
    (fun key _ _ => List.append_cancel_left : ∀ key : Bytes, Function.Injective fun body => key ++ body)
  have hne : Sample.signedPayload.serializePayload Sample.zeros.text ≠
      Sample.flipped.serializePayload Sample.zeros.text := by
    decide +kernel
  exact ⟨(h.1 _ _).2 Sample.same_reordered, mt (h.1 _ _).2 hne, h.2.2.1 _ _ _⟩

end OcrService
