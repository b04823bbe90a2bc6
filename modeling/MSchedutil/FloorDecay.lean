import Mathlib.Tactic.Linarith
import Mathlib.Tactic.Ring
import Mathlib.Order.Monotone.Basic

/-! Integer decay by shifts and fixed-point products that round down. Each such
operation never grows its argument and is superadditive; these two facts are
closed under composition and give monotonicity. -/

structure FloorDecay (f : ℕ → ℕ) : Prop where
  le_self : ∀ x, f x ≤ x
  superadd : ∀ x y, f x + f y ≤ f (x + y)

namespace FloorDecay

variable {f g : ℕ → ℕ}

theorem mono (hf : FloorDecay f) : Monotone f := by
  intro x y hxy
  obtain ⟨d, rfl⟩ := Nat.exists_eq_add_of_le hxy
  exact (Nat.le_add_right _ _).trans (hf.superadd x d)

protected theorem id : FloorDecay (fun x => x) := ⟨fun _ => le_rfl, fun _ _ => le_rfl⟩

theorem zero : FloorDecay (fun _ => 0) := ⟨fun _ => Nat.zero_le _, fun _ _ => le_rfl⟩

theorem comp (hg : FloorDecay g) (hf : FloorDecay f) : FloorDecay (fun x => g (f x)) where
  le_self x := (hg.le_self _).trans (hf.le_self x)
  superadd x y := (hg.superadd _ _).trans (hg.mono (hf.superadd x y))

theorem mul_div {a d : ℕ} (had : a ≤ d) : FloorDecay (fun x => x * a / d) where
  le_self x := by
    rcases Nat.eq_zero_or_pos d with rfl | hd
    · simp
    · exact Nat.div_le_of_le_mul (by rw [Nat.mul_comm d]; exact Nat.mul_le_mul_left x had)
  superadd x y := by
    rw [Nat.add_mul]
    exact Nat.div_add_div_le_add_div

theorem shiftRight (k : ℕ) : FloorDecay (fun x => x >>> k) := by
  have h := mul_div (Nat.one_le_two_pow (n := k))
  simpa only [Nat.mul_one, ← Nat.shiftRight_eq_div_pow] using h

theorem mul_shiftRight {a k : ℕ} (ha : a ≤ 2 ^ k) : FloorDecay (fun x => (x * a) >>> k) := by
  simpa only [Nat.shiftRight_eq_div_pow] using mul_div ha

/-- Parts of two quantities that fit under a third still fit after decay. -/
theorem add_le (hf : FloorDecay f) {x y z : ℕ} (h : x + y ≤ z) : f x + f y ≤ f z :=
  (hf.superadd x y).trans (hf.mono h)

end FloorDecay
