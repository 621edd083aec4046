/-
  Base64, as `base64.b64encode` and `base64.b64decode` compute it.

  The decoder is the lenient one: it skips characters that are not in the
  alphabet, and stops at the padding that completes a group of four.

  * `decode_encode`: what is encoded is decoded;
  * `decode_length`: decoding does not lengthen.
-/
import Mathlib.Tactic.Common

namespace PyData.Base64

/-- The character of a six-bit value. -/
def char (n : ℕ) : Char :=
  if n < 26 then Char.ofNat (65 + n)
  else if n < 52 then Char.ofNat (71 + n)
  else if n < 62 then Char.ofNat (n - 4)
  else if n = 62 then '+' else '/'

/-- The six-bit value of a character of the alphabet. -/
def value (c : Char) : Option ℕ :=
  let n := c.toNat
  if 65 ≤ n ∧ n ≤ 90 then some (n - 65)
  else if 97 ≤ n ∧ n ≤ 122 then some (n - 71)
  else if 48 ≤ n ∧ n ≤ 57 then some (n + 4)
  else if c = '+' then some 62
  else if c = '/' then some 63
  else none

theorem value_char : ∀ n < 64, value (char n) = some n := by decide

theorem char_ascii : ∀ n < 64, (char n).toNat < 128 := by decide

theorem value_pad : value '=' = none := rfl

/-! ## Encoding -/

/-- Three bytes are four characters; the last group is padded. -/
def encodeChars : List UInt8 → List Char
  | [] => []
  | [a] => [char (a.toNat / 4), char (a.toNat % 4 * 16), '=', '=']
  | [a, b] =>
    [char (a.toNat / 4), char (a.toNat % 4 * 16 + b.toNat / 16), char (b.toNat % 16 * 4), '=']
  | a :: b :: c :: bs =>
    char (a.toNat / 4) :: char (a.toNat % 4 * 16 + b.toNat / 16) ::
      char (b.toNat % 16 * 4 + c.toNat / 64) :: char (c.toNat % 64) :: encodeChars bs

/-- `base64.b64encode(bs).decode()`. -/
def encode (bs : List UInt8) : String := String.ofList (encodeChars bs)

/-! ## Decoding -/

/-- What the decoder carries from one character to the next. -/
structure Scan where
  /-- characters read of the current group -/
  quadPos : ℕ
  /-- the bits read that no byte has taken yet -/
  leftchar : ℕ
  pads : ℕ
  out : List UInt8

namespace Scan

/-- A character of the alphabet, by its value. -/
def data (s : Scan) (v : ℕ) : Scan :=
  match s.quadPos with
  | 0 => ⟨1, v, 0, s.out⟩
  | 1 => ⟨2, v % 16, 0, s.out ++ [UInt8.ofNat (s.leftchar * 4 + v / 16)]⟩
  | 2 => ⟨3, v % 4, 0, s.out ++ [UInt8.ofNat (s.leftchar * 16 + v / 4)]⟩
  | _ => ⟨0, 0, 0, s.out ++ [UInt8.ofNat (s.leftchar * 64 + v)]⟩

/-- At the end of the input. -/
def finish (s : Scan) : Except String (List UInt8) :=
  if s.quadPos = 0 then .ok s.out
  else if s.quadPos = 1 then
    .error ("Invalid base64-encoded string: number of data characters (" ++
      toString (s.out.length / 3 * 4 + 1) ++ ") cannot be 1 more than a multiple of 4")
  else .error "Incorrect padding"

/-- `binascii.a2b_base64`, from the characters left. -/
def run : Scan → List Char → Except String (List UInt8)
  | s, [] => s.finish
  | s, c :: cs =>
    if c = '=' then
      if 2 ≤ s.quadPos then
        -- the padding that completes a group ends the data
        if 4 ≤ s.quadPos + (s.pads + 1) then .ok s.out
        else run { s with pads := s.pads + 1 } cs
      else run s cs
    else
      match value c with
      | none => run s cs
      | some v => run (s.data v) cs

end Scan

/-- `base64.b64decode(s)`. -/
def decode (s : String) : Except String (List UInt8) :=
  if s.toList.all fun c => c.toNat < 128 then Scan.run ⟨0, 0, 0, []⟩ s.toList
  else .error "string argument should contain only ASCII characters"

example : decode "aGk=" = .ok [104, 105] := by decide +kernel
example : decode "abc" = .error "Incorrect padding" := by decide +kernel

/-! ## The round trip -/

namespace Scan

/-- A character that was encoded is read as its value. -/
theorem run_char (s : Scan) {n : ℕ} (hn : n < 64) (cs : List Char) :
    s.run (char n :: cs) = (s.data n).run cs := by
  have hv := value_char n hn
  have hpad : char n ≠ '=' := by
    intro h
    rw [h, value_pad] at hv
    cases hv
  rw [run, if_neg hpad, hv]

theorem ofNat_of_eq {n : ℕ} {a : UInt8} (h : n = a.toNat) : UInt8.ofNat n = a := by
  rw [h, UInt8.ofNat_toNat]

/-- At the start of a group the decoder reads the bytes encoded. -/
theorem run_encodeChars (bs : List UInt8) (left pads : ℕ) (out : List UInt8) :
    run ⟨0, left, pads, out⟩ (encodeChars bs) = .ok (out ++ bs) := by
  induction bs using encodeChars.induct generalizing left pads out with
  | case1 => simp [encodeChars, run, finish]
  | case2 a =>
    have ha := a.toNat_lt
    have h₁ : UInt8.ofNat (a.toNat / 4 * 4 + a.toNat % 4 * 16 / 16) = a := ofNat_of_eq (by omega)
    rw [encodeChars, run_char _ (by omega), run_char _ (by omega)]
    simp only [data, h₁]
    simp [run]
  | case3 a b =>
    have ha := a.toNat_lt
    have hb := b.toNat_lt
    have h₁ : UInt8.ofNat (a.toNat / 4 * 4 + (a.toNat % 4 * 16 + b.toNat / 16) / 16) = a :=
      ofNat_of_eq (by omega)
    have h₂ : UInt8.ofNat ((a.toNat % 4 * 16 + b.toNat / 16) % 16 * 16 + b.toNat % 16 * 4 / 4) = b :=
      ofNat_of_eq (by omega)
    rw [encodeChars, run_char _ (by omega), run_char _ (by omega), run_char _ (by omega)]
    simp only [data, h₁, h₂]
    simp [run]
  | case4 a b c bs ih =>
    have ha := a.toNat_lt
    have hb := b.toNat_lt
    have hc := c.toNat_lt
    have h₁ : UInt8.ofNat (a.toNat / 4 * 4 + (a.toNat % 4 * 16 + b.toNat / 16) / 16) = a :=
      ofNat_of_eq (by omega)
    have h₂ : UInt8.ofNat ((a.toNat % 4 * 16 + b.toNat / 16) % 16 * 16 +
        (b.toNat % 16 * 4 + c.toNat / 64) / 4) = b := ofNat_of_eq (by omega)
    have h₃ : UInt8.ofNat ((b.toNat % 16 * 4 + c.toNat / 64) % 4 * 64 + c.toNat % 64) = c :=
      ofNat_of_eq (by omega)
    rw [encodeChars, run_char _ (by omega), run_char _ (by omega), run_char _ (by omega),
      run_char _ (by omega)]
    simp only [data, h₁, h₂, h₃, ih, List.append_assoc, List.cons_append, List.nil_append]

/-- Every byte comes with a character of its own. -/
theorem run_length {s : Scan} {cs : List Char} {bs : List UInt8} (h : s.run cs = .ok bs) :
    bs.length ≤ s.out.length + cs.length := by
  induction cs generalizing s with
  | nil =>
    rw [run, finish] at h
    split_ifs at h
    cases h; exact Nat.le_refl _
  | cons c cs ih =>
    have hdata : ∀ v, (s.data v).out.length ≤ s.out.length + 1 := by
      intro v
      unfold data
      split <;> simp
    rw [run] at h
    split_ifs at h
    · cases h; exact Nat.le_add_right _ _
    · exact Nat.le_trans (ih h) (by simp)
    · exact Nat.le_trans (ih h) (by simp)
    · split at h
      · exact Nat.le_trans (ih h) (by simp)
      · rename_i v _
        have := ih h
        have := hdata v
        rw [List.length_cons]
        omega

end Scan

/-- The characters of an encoding: those of the alphabet, and the padding. -/
theorem mem_encodeChars (bs : List UInt8) : ∀ c ∈ encodeChars bs, c = '=' ∨ ∃ n < 64, c = char n := by
  induction bs using encodeChars.induct with
  | case1 => simp [encodeChars]
  | case2 a =>
    have ha := a.toNat_lt
    simp only [encodeChars, List.forall_mem_cons]
    exact ⟨.inr ⟨_, by omega, rfl⟩, .inr ⟨_, by omega, rfl⟩, .inl trivial, .inl trivial, nofun⟩
  | case3 a b =>
    have ha := a.toNat_lt
    have hb := b.toNat_lt
    simp only [encodeChars, List.forall_mem_cons]
    exact ⟨.inr ⟨_, by omega, rfl⟩, .inr ⟨_, by omega, rfl⟩, .inr ⟨_, by omega, rfl⟩, .inl trivial, nofun⟩
  | case4 a b c bs ih =>
    have ha := a.toNat_lt
    have hb := b.toNat_lt
    have hc := c.toNat_lt
    simp only [encodeChars, List.forall_mem_cons]
    exact ⟨.inr ⟨_, by omega, rfl⟩, .inr ⟨_, by omega, rfl⟩, .inr ⟨_, by omega, rfl⟩,
      .inr ⟨_, by omega, rfl⟩, ih⟩

theorem encodeChars_ascii (bs : List UInt8) : ∀ c ∈ encodeChars bs, c.toNat < 128 := by
  intro c hc
  rcases mem_encodeChars bs c hc with rfl | ⟨n, hn, rfl⟩
  · decide
  · exact char_ascii n hn

theorem char_ne_zero : ∀ n < 64, char n ≠ Char.ofNat 0 := by decide

/-- **What is encoded is decoded.** -/
theorem decode_encode (bs : List UInt8) : decode (encode bs) = .ok bs := by
  have hascii : (encode bs).toList.all (fun c => c.toNat < 128) = true := by
    simpa [encode] using encodeChars_ascii bs
  rw [decode, if_pos hascii, encode, String.toList_ofList, Scan.run_encodeChars]
  rfl

/-- **Decoding does not lengthen.** -/
theorem decode_length {s : String} {bs : List UInt8} (h : decode s = .ok bs) :
    bs.length ≤ s.toList.length := by
  unfold decode at h
  split_ifs at h
  simpa using Scan.run_length h

end PyData.Base64
