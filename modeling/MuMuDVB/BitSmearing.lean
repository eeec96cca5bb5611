import Mathlib.Data.Nat.Bitwise
import Mathlib.Data.Nat.Log

/-!
# Smearing the bits of a number

A number that is shifted to the right by 1, 2, 4 and so on, with the bits added
in each time, has in the end a one in each place below its highest one. One more
is then a power of two.
-/
namespace BitSmearing

variable {n x y : Nat}

/-- `x |= x >> s` -/
def smear (s x : Nat) : Nat := x ||| x >>> s

/-- A bit is set exactly when one of the `n` bits from its place on was. -/
def Spread (n x y : Nat) : Prop := ∀ i, y.testBit i = true ↔ ∃ j < n, x.testBit (i + j) = true

theorem spread_one (x : Nat) : Spread 1 x x := by
  intro i
  constructor
  · exact fun h => ⟨0, Nat.one_pos, h⟩
  · rintro ⟨j, hj, h⟩
    rwa [Nat.lt_one_iff.mp hj, Nat.add_zero] at h

/-- Each turn doubles how far a bit is spread. -/
theorem Spread.smear (h : Spread n x y) : Spread (n + n) x (smear n y) := by
  intro i
  rw [BitSmearing.smear, Nat.testBit_or, Nat.testBit_shiftRight, Bool.or_eq_true, h i, h (n + i)]
  constructor
  · rintro (⟨j, hj, hbit⟩ | ⟨j, hj, hbit⟩)
    · exact ⟨j, by omega, hbit⟩
    · exact ⟨n + j, by omega, by rwa [← Nat.add_assoc, Nat.add_comm i n]⟩
  · rintro ⟨j, hj, hbit⟩
    by_cases hlow : j < n
    · exact .inl ⟨j, hlow, hbit⟩
    · refine .inr ⟨j - n, by omega, ?_⟩
      rwa [show n + i + (j - n) = i + j by omega]

/-- There is a one from place `i` on exactly when the number is that large. -/
theorem exists_testBit_iff (x i : Nat) : (∃ j, x.testBit (i + j) = true) ↔ 2 ^ i ≤ x := by
  constructor
  · rintro ⟨j, h⟩
    exact (Nat.pow_le_pow_right (by decide) (Nat.le_add_right i j)).trans
      (Nat.ge_two_pow_of_testBit h)
  · intro h
    obtain ⟨k, hk, hbit⟩ := Nat.exists_ge_and_testBit_of_ge_two_pow h
    exact ⟨k - i, by rwa [Nat.add_sub_cancel' hk]⟩

/-- A number that is spread over all its bits is one below a power of two. -/
theorem Spread.add_one (h : Spread n x y) (hx : x < 2 ^ n) : y + 1 = 2 ^ Nat.clog 2 (x + 1) := by
  have hbits : ∀ i, y.testBit i = (2 ^ Nat.clog 2 (x + 1) - 1).testBit i := by
    intro i
    rw [Bool.eq_iff_iff, h i, Nat.testBit_two_pow_sub_one, decide_eq_true_iff,
      Nat.lt_clog_iff_pow_lt (by decide), Nat.lt_succ_iff, ← exists_testBit_iff]
    constructor
    · rintro ⟨j, -, hbit⟩
      exact ⟨j, hbit⟩
    · rintro ⟨j, hbit⟩
      have hlow : i + j < n := by
        by_contra hhigh
        have hlt := hx.trans_le (Nat.pow_le_pow_right (by decide) (Nat.not_lt.mp hhigh))
        rw [Nat.testBit_lt_two_pow hlt] at hbit
        cases hbit
      exact ⟨j, by omega, hbit⟩
  have hpos := Nat.two_pow_pos (Nat.clog 2 (x + 1))
  rw [Nat.eq_of_testBit_eq hbits]
  omega

end BitSmearing
