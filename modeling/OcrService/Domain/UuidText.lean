/-
  The text of a UUID: 36 characters, hexadecimal digits and hyphens, from which
  the UUID can be read back (`Uuid.str_injective`).
-/
import OcrService.Domain.Encryption

namespace OcrService

open PyStr

/-! ## UUIDs -/

namespace Uuid
variable (u : Uuid)

theorem toList_str : u.str.toList =
    (hex 32 u.toNat).take 8 ++ '-' :: ((hex 32 u.toNat).drop 8).take 4 ++
      '-' :: ((hex 32 u.toNat).drop 12).take 4 ++ '-' :: ((hex 32 u.toNat).drop 16).take 4 ++
      '-' :: (hex 32 u.toNat).drop 20 := String.toList_ofList

theorem length_str : u.str.length = 36 := by
  rw [← String.length_toList, toList_str]
  simp [length_hex]

theorem count_hyphen_str : 2 ≤ u.str.toList.count '-' := by
  rw [toList_str]
  simp only [List.count_append, List.count_cons_self]
  omega

/-- The characters of a UUID. -/
theorem mem_str {c : Char} (h : c ∈ u.str.toList) : c = '-' ∨ ∃ m < 16, c = hexDigit m := by
  have hdigit : ∀ d ∈ hex 32 u.toNat, ∃ m < 16, d = hexDigit m := fun d hd => mem_hex hd
  rw [toList_str] at h
  generalize hex 32 u.toNat = l at h hdigit
  simp only [List.mem_append, List.mem_cons] at h
  rcases h with (((h | h | h) | h | h) | h | h) | h | h
  · exact Or.inr (hdigit c (List.mem_of_mem_take h))
  · exact Or.inl h
  · exact Or.inr (hdigit c (List.mem_of_mem_drop (List.mem_of_mem_take h)))
  · exact Or.inl h
  · exact Or.inr (hdigit c (List.mem_of_mem_drop (List.mem_of_mem_take h)))
  · exact Or.inl h
  · exact Or.inr (hdigit c (List.mem_of_mem_drop (List.mem_of_mem_take h)))
  · exact Or.inl h
  · exact Or.inr (hdigit c (List.mem_of_mem_drop h))

/-- The digits of a UUID, without the hyphens. -/
theorem filter_str : u.str.toList.filter (fun c => c ≠ '-') = hex 32 u.toNat := by
  have hdigit : ∀ d ∈ hex 32 u.toNat, d ≠ '-' := by
    intro d hd
    obtain ⟨m, hm, rfl⟩ := mem_hex hd
    exact (by decide : ∀ m < 16, hexDigit m ≠ '-') m hm
  rw [toList_str]
  generalize hex 32 u.toNat = l at hdigit
  have hl : l.take 8 ++ (l.drop 8).take 4 ++ (l.drop 12).take 4 ++ (l.drop 16).take 4 ++ l.drop 20 =
      l := by
    have h : ∀ n, (l.drop n).take 4 ++ l.drop (n + 4) = l.drop n := fun n => by
      rw [← List.drop_drop, List.take_append_drop]
    rw [List.append_assoc, h 16, List.append_assoc, h 12, List.append_assoc, h 8,
      List.take_append_drop]
  calc _ = (l.take 8 ++ (l.drop 8).take 4 ++ (l.drop 12).take 4 ++ (l.drop 16).take 4 ++
          l.drop 20).filter (fun c => c ≠ '-') := by simp [List.filter_append]
    _ = l.filter (fun c => c ≠ '-') := by rw [hl]
    _ = l := List.filter_eq_self.2 fun d hd => decide_eq_true (hdigit d hd)

theorem str_injective : Function.Injective str := by
  intro u v h
  have hhex : hex 32 u.toNat = hex 32 v.toNat := by rw [← filter_str, ← filter_str, h]
  have := hex_inj hhex
  rw [Nat.mod_eq_of_lt (by simpa using u.isLt), Nat.mod_eq_of_lt (by simpa using v.isLt)] at this
  exact BitVec.eq_of_toNat_eq this

theorem not_mem_str {c : Char} (hc : c ≠ '-') (hd : ∀ m < 16, c ≠ hexDigit m) : c ∉ u.str.toList := by
  intro h
  rcases u.mem_str h with h | ⟨m, hm, h⟩
  · exact hc h
  · exact hd m hm h

end Uuid

end OcrService
