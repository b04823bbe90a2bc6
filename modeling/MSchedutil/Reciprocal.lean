import Mathlib.Tactic.Linarith
import Mathlib.Tactic.Ring
import Mathlib.Tactic.Positivity

/-! Division through a stored reciprocal: a dividend is multiplied by a weight and the
reciprocal of the divisor, after halving the factor until it fits a given number of bits. -/

namespace Reciprocal

/-- Halve `f` until it has `b` bits, for at most the given number of turns; the mantissa and
how often it was halved. -/
def shrink (b : ℕ) : ℕ → ℕ → ℕ × ℕ
  | 0, f => (f, 0)
  | n + 1, f =>
    if f >>> b ≠ 0 then
      let r := shrink b n (f >>> 1)
      (r.1, r.2 + 1)
    else (f, 0)

/-- `inv` is `2 ^ n / d`, rounded down. -/
structure Of (n d inv : ℕ) : Prop where
  le : inv * d ≤ 2 ^ n
  lt : 2 ^ n ≤ inv * d + d

variable {b n : ℕ}

theorem shrink_fst (f : ℕ) : (shrink b n f).1 = f / 2 ^ (shrink b n f).2 := by
  induction n generalizing f with
  | zero => simp [shrink]
  | succ n ih =>
    by_cases hf : f >>> b = 0
    · simp [shrink, hf]
    · simp only [shrink, ne_eq, hf, not_false_eq_true, if_true]
      rw [ih, Nat.shiftRight_one, Nat.div_div_eq_div_mul, Nat.pow_succ']

theorem shrink_le_turns (f : ℕ) : (shrink b n f).2 ≤ n := by
  induction n generalizing f with
  | zero => simp [shrink]
  | succ n ih =>
    by_cases hf : f >>> b = 0
    · simp [shrink, hf]
    · simp only [shrink, ne_eq, hf, not_false_eq_true, if_true]
      exact Nat.succ_le_succ (ih _)

theorem shrink_of_lt {f : ℕ} (hf : f < 2 ^ b) : shrink b n f = (f, 0) := by
  cases n with
  | zero => rfl
  | succ n => simp [shrink, Nat.shiftRight_eq_zero f b hf]

/-- A factor that was halved at all still has its top bit. -/
theorem shrink_top {f : ℕ} (hb : 0 < b) (h : (shrink b n f).2 ≠ 0) :
    2 ^ (b - 1) ≤ (shrink b n f).1 := by
  induction n generalizing f with
  | zero => exact absurd rfl h
  | succ n ih =>
    by_cases hz : f >>> b = 0
    · simp [shrink, hz] at h
    · simp only [shrink, ne_eq, hz, not_false_eq_true, if_true]
      by_cases hmore : (shrink b n (f >>> 1)).2 = 0
      · rw [shrink_fst, hmore, pow_zero, Nat.div_one, Nat.shiftRight_one]
        rw [Nat.shiftRight_eq_div_pow, Nat.div_eq_zero_iff, not_or] at hz
        have hpow : 2 ^ b = 2 * 2 ^ (b - 1) := by
          rw [← pow_succ', Nat.sub_add_cancel hb]
        omega
      · exact ih hmore

/-- The quotient never exceeds the exact one. -/
theorem quotient_le {d inv : ℕ} (h : Of n d inv) (x w k : ℕ) (hk : k ≤ n) :
    (x * (w * inv / 2 ^ k)) / 2 ^ (n - k) * d ≤ x * w := by
  have hfloor : x * (w * inv / 2 ^ k) / 2 ^ (n - k) * 2 ^ n ≤ x * (w * inv) := by
    calc x * (w * inv / 2 ^ k) / 2 ^ (n - k) * 2 ^ n
        = x * (w * inv / 2 ^ k) / 2 ^ (n - k) * 2 ^ (n - k) * 2 ^ k := by
          rw [Nat.mul_assoc, ← pow_add, Nat.sub_add_cancel hk]
      _ ≤ x * (w * inv / 2 ^ k) * 2 ^ k := Nat.mul_le_mul_right _ (Nat.div_mul_le_self _ _)
      _ = x * (w * inv / 2 ^ k * 2 ^ k) := Nat.mul_assoc _ _ _
      _ ≤ x * (w * inv) := Nat.mul_le_mul_left _ (Nat.div_mul_le_self _ _)
  have hscaled : x * (w * inv / 2 ^ k) / 2 ^ (n - k) * d * 2 ^ n ≤ x * w * 2 ^ n := by
    calc x * (w * inv / 2 ^ k) / 2 ^ (n - k) * d * 2 ^ n
        = x * (w * inv / 2 ^ k) / 2 ^ (n - k) * 2 ^ n * d := Nat.mul_right_comm _ _ _
      _ ≤ x * (w * inv) * d := Nat.mul_le_mul_right _ hfloor
      _ = x * w * (inv * d) := by ring
      _ ≤ x * w * 2 ^ n := Nat.mul_le_mul_left _ h.le
  exact Nat.le_of_mul_le_mul_right hscaled (by positivity)

/-- And falls short of it by one unit, by the rounding of the reciprocal, a `d / 2 ^ n` part,
and by that of the mantissa, a `2 ^ (1 - b)` part. -/
theorem exact_le {d inv : ℕ} (h : Of n d inv) (x w k : ℕ) (hk : k ≤ n)
    (htop : k ≠ 0 → 2 ^ (b - 1) ≤ w * inv / 2 ^ k) :
    x * w * (2 ^ n - d) * (2 ^ (b - 1) - 1) ≤
      ((x * (w * inv / 2 ^ k)) / 2 ^ (n - k) + 1) * d * 2 ^ n * 2 ^ (b - 1) := by
  set m := w * inv / 2 ^ k
  set q := x * m / 2 ^ (n - k)
  have hq : x * m * 2 ^ k ≤ (q + 1) * 2 ^ n := by
    have hlt : x * m < 2 ^ (n - k) * (q + 1) := Nat.lt_mul_div_succ _ (by positivity)
    calc x * m * 2 ^ k ≤ 2 ^ (n - k) * (q + 1) * 2 ^ k := Nat.mul_le_mul_right _ hlt.le
      _ = (q + 1) * (2 ^ (n - k) * 2 ^ k) := by ring
      _ = (q + 1) * 2 ^ n := by rw [← pow_add, Nat.sub_add_cancel hk]
  have hm : w * inv * (2 ^ (b - 1) - 1) ≤ m * 2 ^ k * 2 ^ (b - 1) := by
    rcases Nat.eq_zero_or_pos k with rfl | hpos
    · simp only [m, pow_zero, Nat.div_one, Nat.mul_one]
      exact Nat.mul_le_mul_left _ (Nat.sub_le _ _)
    · have hlt : w * inv < 2 ^ k * (m + 1) := Nat.lt_mul_div_succ _ (by positivity)
      have ht : 2 ^ (b - 1) ≤ m := htop hpos.ne'
      calc w * inv * (2 ^ (b - 1) - 1) ≤ 2 ^ k * (m + 1) * (2 ^ (b - 1) - 1) :=
            Nat.mul_le_mul_right _ hlt.le
        _ = 2 ^ k * ((m + 1) * (2 ^ (b - 1) - 1)) := Nat.mul_assoc _ _ _
        _ ≤ 2 ^ k * (m * 2 ^ (b - 1)) := by
          apply Nat.mul_le_mul_left
          rw [Nat.mul_sub_one, Nat.add_mul, Nat.one_mul]
          omega
        _ = m * 2 ^ k * 2 ^ (b - 1) := by ring
  have hd : 2 ^ n - d ≤ inv * d := Nat.sub_le_iff_le_add.mpr h.lt
  calc x * w * (2 ^ n - d) * (2 ^ (b - 1) - 1)
      ≤ x * w * (inv * d) * (2 ^ (b - 1) - 1) :=
        Nat.mul_le_mul_right _ (Nat.mul_le_mul_left _ hd)
    _ = x * d * (w * inv * (2 ^ (b - 1) - 1)) := by ring
    _ ≤ x * d * (m * 2 ^ k * 2 ^ (b - 1)) := Nat.mul_le_mul_left _ hm
    _ = x * m * 2 ^ k * (d * 2 ^ (b - 1)) := by ring
    _ ≤ (q + 1) * 2 ^ n * (d * 2 ^ (b - 1)) := Nat.mul_le_mul_right _ hq
    _ = (q + 1) * d * 2 ^ n * 2 ^ (b - 1) := by ring

end Reciprocal
