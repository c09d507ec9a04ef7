import Mathlib.Data.UInt
import Mathlib.Data.List.Basic

/-!
# Texts as bytes

The UTF-8 bytes of a text as a list.  A byte below 128 is in the bytes of a
text only if its character is in the text.
-/

namespace Utf8

/-- The bytes of a text. -/
def bytes (s : String) : List UInt8 := s.toList.flatMap String.utf8EncodeChar

/-- A character that takes more than one byte has no small byte. -/
theorem eq_of_mem_utf8EncodeChar {b : UInt8} (hb : b.toNat < 128) {c : Char}
    (h : b ∈ String.utf8EncodeChar c) : c.toNat = b.toNat := by
  have hlarge : ∀ n, 128 ≤ n → n < 256 → b ≠ UInt8.ofNat n := by
    rintro n hlow hhigh rfl
    rw [UInt8.toNat_ofNat', Nat.mod_eq_of_lt hhigh] at hb
    omega
  unfold String.utf8EncodeChar at h
  dsimp only at h
  split_ifs at h with hone htwo hthree
  · rw [List.mem_singleton.1 h, UInt8.toNat_ofNat', Nat.mod_eq_of_lt (by omega)]
    rfl
  · rcases List.mem_cons.1 h with h | h
    · exact absurd h (hlarge _ (by omega) (by omega))
    · exact absurd (List.mem_singleton.1 h) (hlarge _ (by omega) (by omega))
  · simp only [List.mem_cons, List.not_mem_nil, or_false] at h
    rcases h with h | h | h <;> exact absurd h (hlarge _ (by omega) (by omega))
  · simp only [List.mem_cons, List.not_mem_nil, or_false] at h
    rcases h with h | h | h | h <;>
      exact absurd h (hlarge _ (by omega) (by omega))

/-- A byte that stands for a character the text does not have. -/
theorem notMem_bytes {b : UInt8} (hb : b.toNat < 128) {s : String}
    (h : ∀ c ∈ s.toList, c.toNat ≠ b.toNat) : b ∉ bytes s := by
  intro hmem
  obtain ⟨c, hc, hmem⟩ := List.mem_flatMap.1 hmem
  exact h c hc (eq_of_mem_utf8EncodeChar hb hmem)

end Utf8
