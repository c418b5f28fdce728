import Mathlib.Algebra.Group.Nat.Defs
import Mathlib.Logic.Function.Basic
import Stencil.Settings.Basic

/-!
# Numbers and their digits

Reading the digits of a number gives the number back, so different numbers have different digits.
An identifier of generated code is a stem with the digits of a depth behind it.
-/

namespace Stencil

namespace Text

theorem digitValue?_digitChar {n : Nat} (h : n < 10) : digitValue? n.digitChar = some n := by
  have hall : ∀ m < 10, digitValue? (Nat.digitChar m) = some m := by decide
  exact hall n h

theorem exists_of_isDigit {c : Char} (h : isDigit c = true) :
    ∃ start ∈ zeros, ∃ k < 10, c.toNat = start + k := by
  rw [isDigit, digitValue?, Option.isSome_map, Option.isSome_iff_exists] at h
  obtain ⟨start, hstart⟩ := h
  have hrange := List.find?_some hstart
  rw [Bool.and_eq_true, decide_eq_true_eq, decide_eq_true_eq] at hrange
  exact ⟨start, List.mem_of_find?_eq_some hstart, c.toNat - start, by omega, by omega⟩

theorem digitsValue_ofNat (n : Nat) : digitsValue (ofNat n) = n := by
  induction n using Nat.strongRecOn with
  | _ n ih =>
      rw [ofNat, Nat.toDigits_eq_if (by decide), digitsValue]
      split
      · next h => simp [digitValue?_digitChar h]
      · next h =>
          have hquotient : digitsValue (Nat.toDigits 10 (n / 10)) = n / 10 :=
            ih (n / 10) (by omega)
          rw [digitsValue] at hquotient
          rw [List.foldl_append, hquotient, List.foldl_cons, List.foldl_nil,
            digitValue?_digitChar (Nat.mod_lt n (by decide)), Option.getD_some]
          omega

theorem ofNat_injective : Function.Injective ofNat :=
  Function.LeftInverse.injective digitsValue_ofNat

theorem ofNat_ne_nil (n : Nat) : ofNat n ≠ [] := by
  rw [ofNat, Nat.toDigits_eq_if (by decide)]
  split <;> simp

theorem isDigit_of_mem_ofNat {c : Char} {n : Nat} (h : c ∈ ofNat n) : isDigit c = true := by
  induction n using Nat.strongRecOn with
  | _ n ih =>
      have hlast : ∀ m < 10, isDigit (Nat.digitChar m) = true := by decide
      rw [ofNat, Nat.toDigits_eq_if (by decide)] at h
      split at h
      · next hn =>
          rw [List.mem_singleton.1 h]
          exact hlast n hn
      · next hn =>
          rcases List.mem_append.1 h with hfront | hend
          · exact ih (n / 10) (by omega) hfront
          · rw [List.mem_singleton.1 hend]
            exact hlast _ (Nat.mod_lt n (by decide))

theorem length_ofNat_le_iff {n k : Nat} (hk : 0 < k) : (ofNat n).length ≤ k ↔ n < 10 ^ k :=
  Nat.length_toDigits_le_iff (by decide) hk

end Text

theorem Settings.not_isDigit_of_isSmallLetter {c : Char} (h : isSmallLetter c = true) :
    Text.isDigit c = false := by
  have hzeros : ∀ start ∈ Text.zeros, start + 10 ≤ 'a'.toNat ∨ 'z'.toNat < start := by decide
  rw [isSmallLetter, Bool.and_eq_true, decide_eq_true_eq, decide_eq_true_eq] at h
  have hrange : 'a'.toNat ≤ c.toNat ∧ c.toNat ≤ 'z'.toNat := h
  by_contra hdigit
  obtain ⟨start, hstart, k, hk, heq⟩ := Text.exists_of_isDigit (by simpa using hdigit)
  have hapart := hzeros start hstart
  omega

theorem Settings.of_mem_identifier {stem : Text} {depth : Nat} {c : Char}
    (h : c ∈ identifier stem depth) : c ∈ stem ∨ c.isDigit = true := by
  rw [identifier, Text.ofInt_natCast, List.mem_append] at h
  exact h.imp_right (Nat.isDigit_of_mem_toDigits (by decide) (by decide))

end Stencil
