/-
  What field-level encryption leaves in the clear.

  `encrypt_fields` encrypts a string at a listed path, and takes a string with
  the envelope prefix for encrypted.  Numbers, lists and strings below a path
  that is not listed stay as they are, and so does a text that only looks like
  an envelope.

  * `Secured`: a value after encryption consists of envelopes of what it was
    before;
  * `Encryptable`: what encryption secures, read off the value before;
  * `pii_secured_iff`: every listed value is secured iff every listed value is
    encryptable.
-/
import OcrService.Domain.RoundTrip

namespace OcrService

open PyData

/-- The value `v'` has no scalar in the clear, and its envelopes decrypt to the
    value `v`. -/
inductive Secured (C : Vault) (tenantId : Uuid) : (v v' : Json) → Prop
  | str {s e} : isEncrypted e = true → C.decryptValue tenantId e = .ok s →
      Secured C tenantId (.str s) (.str e)
  | arr {xs ys} : xs.length = ys.length →
      (∀ (i : ℕ) x y, xs[i]? = some x → ys[i]? = some y → Secured C tenantId x y) →
      Secured C tenantId (.arr xs) (.arr ys)
  | obj {c c'} : c.map Prod.fst = c'.map Prod.fst →
      (∀ k x y, Obj.get? c k = some x → Obj.get? c' k = some y → Secured C tenantId x y) →
      Secured C tenantId (.obj c) (.obj c')

/-- A value without scalars: lists and dictionaries of such values. -/
inductive Blank : Json → Prop
  | arr {xs} : (∀ x ∈ xs, Blank x) → Blank (.arr xs)
  | obj {c} : (∀ k x, Obj.get? c k = some x → Blank x) → Blank (.obj c)

/-- The value `v` at the path `q`: every scalar of it is a string, not an
    envelope, at a listed path through dictionaries only. -/
inductive Encryptable (fields : List String) : (q : List String) → (v : Json) → Prop
  | str {q s} : q ∈ fields.map Path.keys → isEncrypted s = false → Encryptable fields q (.str s)
  | arr {q xs} : (∀ x ∈ xs, Blank x) → Encryptable fields q (.arr xs)
  | obj {q c} : (∀ k x, Obj.get? c k = some x → Encryptable fields (q ++ [k]) x) →
      Encryptable fields q (.obj c)

section
variable {C : Vault} {tenantId : Uuid}

/-- **No envelope decrypts to itself**: the text is shorter. -/
theorem decryptValue_ne_self (hC : C.NoGrowth) {e : String} (he : isEncrypted e = true) :
    C.decryptValue tenantId e ≠ .ok e := by
  intro h
  rw [Vault.decryptValue_eq_ok, Vault.openOnce, if_pos he] at h
  cases hb : C.b64decode (body e) with
  | error msg => simp [hb, Except.toOption] at h
  | ok blob =>
    cases hk : C.tenantKey tenantId with
    | error err => simp [hb, hk, Except.toOption] at h
    | ok key =>
      simp only [hb, hk, Except.toOption, Option.bind_eq_bind, Option.bind_some,
        Option.bind_eq_some_iff] at h
      obtain ⟨plaintext, hp, hd⟩ := h
      have hprefix : envelopePrefix.toList.length ≤ e.toList.length :=
        (List.isPrefixOf_iff_prefix.1 he).length_le
      have hten : envelopePrefix.toList.length = 10 := rfl
      have hbody : (body e).toList.length = e.toList.length - envelopePrefix.toList.length := by
        rw [body, String.toList_ofList, List.length_drop]
      have hblob := hC.b64 _ _ hb
      have hplain := hC.aes _ _ _ _ _ hp
      have htext := length_le_encode e
      rw [encode_of_decode hd] at htext
      rw [List.length_drop] at hplain
      omega

/-! ## Values that stay as they are -/

theorem secured_self_of_blank {v : Json} (h : Blank v) : Secured C tenantId v v := by
  induction h with
  | arr _ ih =>
    refine .arr rfl fun i x y hx hy => ?_
    rw [hx, Option.some.injEq] at hy
    exact hy ▸ ih x (List.mem_of_getElem? hx)
  | obj _ ih =>
    refine .obj rfl fun k x y hx hy => ?_
    rw [hx, Option.some.injEq] at hy
    exact hy ▸ ih k x hx

theorem blank_of_secured_self (hC : C.NoGrowth) {v v' : Json} (h : Secured C tenantId v v')
    (hv : v = v') : Blank v := by
  induction h with
  | str he hd =>
    cases hv
    exact absurd hd (decryptValue_ne_self hC he)
  | arr _ _ ih =>
    cases hv
    refine .arr fun x hx => ?_
    obtain ⟨i, hi⟩ := List.mem_iff_getElem?.1 hx
    exact ih i x x hi hi rfl
  | obj _ _ ih =>
    cases hv
    exact .obj fun k x hx => ih k x x hx hx rfl

/-! ## Values at a path -/

variable {nonces : ℕ → Bytes} {fields : List String} {d d' : Obj}

/-- Encryption changes the shape of no value, at whatever path. -/
theorem encryptFields_shape (h : encryptFields C.toCipher tenantId nonces d fields = .ok d')
    (q : List String) :
    ((Json.obj d').at? q).map Json.shape = ((Json.obj d).at? q).map Json.shape := by
  rw [← Json.shape_at?_redact (fields.map Path.keys), encryptFields_redact h,
    Json.shape_at?_redact]

theorem encryptFields_strAt_of_notMem (h : encryptFields C.toCipher tenantId nonces d fields = .ok d')
    {q : List String} (hq : q ∉ fields.map Path.keys) :
    (Json.obj d').strAt q = (Json.obj d).strAt q := by
  rw [← Json.strAt_redact hq, encryptFields_redact h, Json.strAt_redact hq]

/-- The value at a path afterwards has the shape it had before. -/
theorem encryptFields_at? (h : encryptFields C.toCipher tenantId nonces d fields = .ok d')
    {q : List String} {v : Json} (hv : (Json.obj d).at? q = some v) :
    ∃ v', (Json.obj d').at? q = some v' ∧ v'.shape = v.shape := by
  have hshape := encryptFields_shape h q
  rw [hv, Option.map_some, Option.map_eq_some_iff] at hshape
  exact hshape

theorem shape_eq_obj {v : Json} {c : Obj} (h : v.shape = (Json.obj c).shape) :
    ∃ c', v = .obj c' ∧ c.map Prod.fst = c'.map Prod.fst := by
  cases v with
  | obj c' =>
    have hkeys := congrArg (List.map Prod.fst) (Json.obj.inj h)
    rw [List.map_map, List.map_map] at hkeys
    exact ⟨c', rfl, hkeys.symm⟩
  | _ => cases h

theorem shape_eq_arr {v : Json} {xs : List Json} (h : v.shape = (Json.arr xs).shape) :
    v = .arr xs := by
  cases v with
  | arr ys => exact h
  | _ => cases h

/-- An entry of the dictionary at a path. -/
theorem at?_entry {d c : Obj} {q : List String} (hc : (Json.obj d).at? q = some (.obj c)) (k : String) :
    (Json.obj d).at? (q ++ [k]) = Obj.get? c k := by
  rw [Json.at?_append, hc, Option.bind_some, Json.at?_obj]
  cases Obj.get? c k <;> simp

/-- **What is encryptable is secured**, by induction on the value. -/
theorem secured_of_encryptable (hC : C.Ideal) (hnonces : ∀ i, (nonces i).length = nonceBytes)
    (h : encryptFields C.toCipher tenantId nonces d fields = .ok d') {q : List String} {v : Json}
    (hv : Encryptable fields q v) (hat : (Json.obj d).at? q = some v) :
    ∃ v', (Json.obj d').at? q = some v' ∧ Secured C tenantId v v' := by
  induction hv with
  | str hq hs =>
    obtain ⟨hn, -⟩ | ⟨s, e, i, hs', he, hv⟩ := encryptFields_strAt h hq
    · rw [Json.strAt_eq_some.2 hat] at hn; cases hn
    · rw [Json.strAt_eq_some.2 hat, Option.some.injEq] at hs'
      subst hs'
      exact ⟨.str e, Json.strAt_eq_some.1 he,
        .str (encryptValue_isEncrypted hv) (decryptValue_envelope hC (hnonces i) hs hv)⟩
  | arr hxs =>
    obtain ⟨v', hv', hshape⟩ := encryptFields_at? h hat
    obtain rfl := shape_eq_arr hshape
    exact ⟨_, hv', secured_self_of_blank (.arr hxs)⟩
  | obj _ ih =>
    obtain ⟨v', hv', hshape⟩ := encryptFields_at? h hat
    obtain ⟨c', rfl, hkeys⟩ := shape_eq_obj hshape
    refine ⟨_, hv', .obj hkeys fun k x y hx hy => ?_⟩
    obtain ⟨y', hy', hsec⟩ := ih k x hx ((at?_entry hat k).trans hx)
    rw [at?_entry hv', hy, Option.some.injEq] at hy'
    exact hy' ▸ hsec

/-- **Only what is encryptable is secured**, by induction on the derivation. -/
theorem encryptable_of_secured (hC : C.NoGrowth)
    (h : encryptFields C.toCipher tenantId nonces d fields = .ok d') {q : List String} {v v' : Json}
    (hsec : Secured C tenantId v v') (hat : (Json.obj d).at? q = some v)
    (hat' : (Json.obj d').at? q = some v') : Encryptable fields q v := by
  induction hsec generalizing q with
  | @str s e he hd =>
    have hs := Json.strAt_eq_some.2 hat
    have he' := Json.strAt_eq_some.2 hat'
    by_cases hq : q ∈ fields.map Path.keys
    · refine .str hq ?_
      by_contra hne
      obtain ⟨hn, -⟩ | ⟨s₀, e₀, i, hs₀, he₀, hv⟩ := encryptFields_strAt h hq
      · rw [hs] at hn; cases hn
      · rw [hs, Option.some.injEq] at hs₀
        rw [he', Option.some.injEq] at he₀
        subst hs₀ he₀
        rw [Cipher.encryptValue, if_pos (by simpa using hne)] at hv
        cases hv
        exact decryptValue_ne_self hC he hd
    · -- an unlisted string has stayed as it was
      rw [encryptFields_strAt_of_notMem h hq, hs] at he'
      cases he'
      exact absurd hd (decryptValue_ne_self hC he)
  | arr hlen hxs _ =>
    obtain ⟨v', hv', hshape⟩ := encryptFields_at? h hat
    rw [hat', Option.some.injEq] at hv'
    subst hv'
    have hsame := shape_eq_arr hshape
    cases hsame
    have hblank := blank_of_secured_self hC (.arr hlen hxs) rfl
    cases hblank with
    | arr hb => exact .arr hb
  | obj _ _ ih =>
    refine .obj fun k x hx => ?_
    have hx' := (at?_entry hat k).trans hx
    obtain ⟨y, hy, -⟩ := encryptFields_at? h hx'
    exact ih k x y hx ((at?_entry hat' k).symm.trans hy) hx' hy

/-- **Every listed value is really encrypted** iff every listed value is
    encryptable: its scalars are strings at listed paths, none of which starts
    with the envelope prefix. -/
theorem pii_secured_iff (C : Vault) (hC : C.Ideal) (hsize : C.NoGrowth) (tenantId : Uuid)
    (nonces : ℕ → Bytes) (hnonces : ∀ i, (nonces i).length = nonceBytes) (d d' : Obj)
    (fields : List String) (h : encryptFields C.toCipher tenantId nonces d fields = .ok d') :
    (∀ p ∈ fields, ∀ v, d.lookup (Path.keys p) = some v → v ≠ .null →
        ∃ v', d'.lookup (Path.keys p) = some v' ∧ Secured C tenantId v v') ↔
      ∀ p ∈ fields, ∀ v, d.lookup (Path.keys p) = some v → v ≠ .null →
        Encryptable fields (Path.keys p) v := by
  have hlookup : ∀ (d : Obj) p, d.lookup (Path.keys p) = (Json.obj d).at? (Path.keys p) := by
    intro d p
    obtain ⟨k, ks, hk⟩ := Path.keys_eq_cons p
    rw [hk, Obj.lookup_eq_at? _ _ (List.cons_ne_nil _ _)]
  constructor
  · intro hall p hp v hv hnull
    obtain ⟨v', hv', hsec⟩ := hall p hp v hv hnull
    rw [hlookup] at hv hv'
    exact encryptable_of_secured hsize h hsec hv hv'
  · intro hall p hp v hv hnull
    have henc := hall p hp v hv hnull
    rw [hlookup] at hv
    obtain ⟨v', hv', hsec⟩ := secured_of_encryptable hC hnonces h henc hv
    exact ⟨v', by rw [hlookup]; exact hv', hsec⟩

/-- A string at a listed path and a dictionary of one. -/
theorem pii_secured_iff_nested :
    ∃ d', encryptFields framed.toCipher 1 (fun _ => List.replicate nonceBytes 0)
        [("bank", .obj [("iban", .str "DE89")])] ["bank", "bank.iban"] = .ok d' ∧
      ∃ v', d'.lookup ["bank"] = some v' ∧
        Secured framed 1 (.obj [("iban", .str "DE89")]) v' := by
  obtain ⟨d', h⟩ := encryptFields_isOk_iff.2 (Or.inl framed_keyUsable)
  refine ⟨d', h, ?_⟩
  have hiff := pii_secured_iff framed framed_ideal framed_noGrowth 1 _
    (fun _ => List.length_replicate) _ d' _ h
  have hstr : Encryptable ["bank", "bank.iban"] ["bank", "iban"] (.str "DE89") :=
    .str (by decide) (by decide)
  have hobj : Encryptable ["bank", "bank.iban"] ["bank"] (.obj [("iban", .str "DE89")]) := by
    refine .obj fun k x hx => ?_
    by_cases hk : "iban" = k
    · subst hk
      cases hx
      exact hstr
    · simp [Obj.get?, hk] at hx
  refine hiff.2 ?_ "bank" (by decide) _ rfl (by simp)
  intro p hp v hv _
  rcases List.mem_cons.1 hp with rfl | hp
  · cases hv
    exact hobj
  · obtain rfl := List.mem_singleton.1 hp
    cases hv
    exact hstr

/-- A number and a text that looks like an envelope stay in the clear. -/
theorem listed_values_in_the_clear :
    encryptFields framed.toCipher 1 (fun _ => List.replicate nonceBytes 0)
        [("tax", .int 7), ("iban", .str "ocrenc:v1:DE89")] ["tax", "iban"] =
      .ok [("tax", .int 7), ("iban", .str "ocrenc:v1:DE89")] ∧
    ¬ (∃ v', Obj.lookup [("tax", .int 7), ("iban", .str "ocrenc:v1:DE89")] (Path.keys "tax") =
        some v' ∧ Secured framed 1 (.int 7) v') ∧
    ¬ ∃ v', Obj.lookup [("tax", .int 7), ("iban", .str "ocrenc:v1:DE89")] (Path.keys "iban") =
        some v' ∧ Secured framed 1 (.str "ocrenc:v1:DE89") v' := by
  refine ⟨rfl, ?_, ?_⟩
  · rintro ⟨v', -, hsec⟩
    cases hsec
  · rintro ⟨v', ⟨⟩, hsec⟩
    cases hsec with
    | str he hd => exact decryptValue_ne_self framed_noGrowth he hd

end

end OcrService
