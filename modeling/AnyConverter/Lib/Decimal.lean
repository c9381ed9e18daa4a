import Mathlib.Algebra.Ring.Int.Defs
import Mathlib.Algebra.Ring.Nat
import Mathlib.Data.List.Basic

/-!
# Decimal numerals

Numerals of a fixed number of digits, filled up with zeros, as dates are written with.

* `pad_append_lt_iff`: texts that begin with numerals of one width are in the order of the numbers,
  and then in the order of what follows;
* `ofDigitChars_pad`: the number can be read back.
-/

set_option autoImplicit false

namespace Decimal

/-- The last `k` digits of a number. -/
def pad : Nat → Nat → List Char
  | 0, _ => []
  | k + 1, n => pad k (n / 10) ++ [Nat.digitChar (n % 10)]

/-- The digits of a number, at least `k` of them. -/
def padAtLeast (k n : Nat) : List Char := if n < 10 ^ k then pad k n else Nat.toDigits 10 n

@[simp] theorem length_pad (k n : Nat) : (pad k n).length = k := by
  induction k generalizing n with
  | zero => rfl
  | succ k ih => rw [pad, List.length_append, ih, List.length_singleton]

theorem digitChar_lt_iff {m n : Nat} (hm : m < 10) (hn : n < 10) :
    Nat.digitChar m < Nat.digitChar n ↔ m < n := by
  have hall : ∀ m n : Fin 10, Nat.digitChar m < Nat.digitChar n ↔ (m : Nat) < n := by decide
  exact hall ⟨m, hm⟩ ⟨n, hn⟩

theorem digitChar_inj {m n : Nat} (hm : m < 10) (hn : n < 10)
    (h : Nat.digitChar m = Nat.digitChar n) : m = n := by
  have hall : ∀ m n : Fin 10, Nat.digitChar m = Nat.digitChar n → (m : Nat) = n := by decide
  exact hall ⟨m, hm⟩ ⟨n, hn⟩ h

theorem isDigit_digitChar {n : Nat} (h : n < 10) : (Nat.digitChar n).isDigit = true := by
  have hall : ∀ n : Fin 10, (Nat.digitChar n).isDigit = true := by decide
  exact hall ⟨n, h⟩

theorem isDigit_of_mem_pad {k n : Nat} {c : Char} (h : c ∈ pad k n) : c.isDigit = true := by
  induction k generalizing n with
  | zero => cases h
  | succ k ih =>
    rcases List.mem_append.mp h with h | h
    · exact ih h
    · rw [List.mem_singleton.mp h]
      exact isDigit_digitChar (Nat.mod_lt n (by decide))

theorem isDigit_of_mem_padAtLeast {k n : Nat} {c : Char} (h : c ∈ padAtLeast k n) :
    c.isDigit = true := by
  unfold padAtLeast at h
  split at h
  · exact isDigit_of_mem_pad h
  · exact Nat.isDigit_of_mem_toDigits (by decide) (by decide) h

/-- Numerals of one width are in the order of their numbers, whatever follows them. -/
theorem pad_append_lt_iff {k m n : Nat} (hm : m < 10 ^ k) (hn : n < 10 ^ k) (c d : List Char) :
    pad k m ++ c < pad k n ++ d ↔ m < n ∨ m = n ∧ c < d := by
  induction k generalizing m n c d with
  | zero =>
    have hm : m = 0 := by simpa using hm
    have hn : n = 0 := by simpa using hn
    simp [pad, hm, hn]
  | succ k ih =>
    rw [Nat.pow_succ] at hm hn
    have hm' := Nat.mod_lt m (show 10 > 0 by decide)
    have hn' := Nat.mod_lt n (show 10 > 0 by decide)
    rw [pad, pad, List.append_assoc, List.append_assoc, ih (by omega) (by omega),
      List.singleton_append, List.singleton_append, List.cons_lt_cons_iff,
      digitChar_lt_iff hm' hn']
    constructor
    · rintro (hlt | ⟨heq, hlt | ⟨hdigit, hrest⟩⟩)
      · omega
      · omega
      · have hlast := digitChar_inj hm' hn' hdigit
        exact Or.inr ⟨by omega, hrest⟩
    · rintro (hlt | ⟨rfl, hrest⟩)
      · omega
      · exact Or.inr ⟨rfl, Or.inr ⟨rfl, hrest⟩⟩

theorem ofDigitChars_pad {k n : Nat} (h : n < 10 ^ k) : Nat.ofDigitChars 10 (pad k n) 0 = n := by
  induction k generalizing n with
  | zero =>
    have hn : n = 0 := by simpa using h
    simp [pad, hn]
  | succ k ih =>
    rw [Nat.pow_succ] at h
    rw [pad, Nat.ofDigitChars_append, ih (by omega),
      Nat.ofDigitChars_cons_digitChar_of_lt_ten (Nat.mod_lt n (by decide)), Nat.ofDigitChars_nil]
    omega

theorem ofDigitChars_padAtLeast (k n : Nat) : Nat.ofDigitChars 10 (padAtLeast k n) 0 = n := by
  unfold padAtLeast
  split
  · rename_i h
    exact ofDigitChars_pad h
  · exact Nat.ofDigitChars_ten_toDigits

theorem padAtLeast_inj {k m n : Nat} (h : padAtLeast k m = padAtLeast k n) : m = n := by
  rw [← ofDigitChars_padAtLeast k m, h, ofDigitChars_padAtLeast]

/-- A numeral is worth less than one more digit would make it. -/
theorem ofDigitChars_lt {cs : List Char} (h : ∀ c ∈ cs, c.isDigit = true) (init : Nat) :
    Nat.ofDigitChars 10 cs init < (init + 1) * 10 ^ cs.length := by
  induction cs generalizing init with
  | nil => simp
  | cons c cs ih =>
    have hdigit : c.toNat - '0'.toNat < 10 := by
      have hc := h c List.mem_cons_self
      simp only [Char.isDigit, Bool.and_eq_true, decide_eq_true_eq] at hc
      have hle : c.toNat ≤ '9'.toNat := UInt32.le_iff_toNat_le.mp hc.2
      have hnine : '9'.toNat = 57 := rfl
      have hzero : '0'.toNat = 48 := rfl
      omega
    have hrest := ih (fun d hd => h d (List.mem_cons_of_mem c hd)) (10 * init + (c.toNat - '0'.toNat))
    rw [Nat.ofDigitChars_cons, List.length_cons, Nat.pow_succ]
    calc Nat.ofDigitChars 10 cs (10 * init + (c.toNat - '0'.toNat))
        < (10 * init + (c.toNat - '0'.toNat) + 1) * 10 ^ cs.length := hrest
      _ ≤ (10 * (init + 1)) * 10 ^ cs.length := Nat.mul_le_mul_right _ (by omega)
      _ = (init + 1) * (10 ^ cs.length * 10) := by
        rw [Nat.mul_comm 10, Nat.mul_assoc, Nat.mul_comm 10]

end Decimal
