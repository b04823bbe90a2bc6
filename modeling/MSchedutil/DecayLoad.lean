import MSchedutil.FloorDecay
import MSchedutil.SchedAvg

/-! The table-driven decay is a floor decay for every exponent, and the decayed
history of a saturated sum leaves room for the contribution of the periods that
passed. -/

namespace MSchedutil

theorem decayBy_eq {period n : Nat} {inv : List Nat} (val : Nat) (hn : n ≠ 0)
    (hmax : n ≤ period * 63) :
    decayBy period inv val n = ((val >>> (n / period)) * inv.getD (n % period) 0) >>> 32 := by
  unfold decayBy mulU64U32Shr
  rw [if_neg hn, if_neg (by omega)]
  by_cases h : n ≥ period
  · simp only [h, if_true]
  · have hlt : n < period := by omega
    simp only [h, if_false, Nat.div_eq_of_lt hlt, Nat.mod_eq_of_lt hlt, Nat.shiftRight_zero]

theorem floorDecay_decayBy {inv : List Nat} (period : Nat)
    (hinv : ∀ i, inv.getD i 0 ≤ 2 ^ 32) (n : Nat) : FloorDecay (fun val => decayBy period inv val n) := by
  by_cases h0 : n = 0
  · simpa [decayBy, h0] using FloorDecay.id
  · by_cases hmax : n ≤ period * 63
    · simp only [decayBy_eq _ h0 hmax]
      exact (FloorDecay.mul_shiftRight (hinv _)).comp (FloorDecay.shiftRight _)
    · have hgt : n > period * 63 := by omega
      simpa [decayBy, h0, hgt] using FloorDecay.zero

/-- The decayed value times its denominator stays below the value times the table entry. -/
theorem decayBy_mul_le {period n : Nat} (inv : List Nat) (val : Nat) (hn : n ≠ 0)
    (hmax : n ≤ period * 63) :
    decayBy period inv val n * 2 ^ (32 + n / period) ≤ val * inv.getD (n % period) 0 := by
  rw [decayBy_eq val hn hmax, Nat.shiftRight_eq_div_pow, Nat.shiftRight_eq_div_pow, Nat.pow_add]
  have h₁ := Nat.div_mul_le_self (val / 2 ^ (n / period) * inv.getD (n % period) 0) (2 ^ 32)
  have h₂ := Nat.div_mul_le_self val (2 ^ (n / period))
  calc val / 2 ^ (n / period) * inv.getD (n % period) 0 / 2 ^ 32 * (2 ^ 32 * 2 ^ (n / period))
      = val / 2 ^ (n / period) * inv.getD (n % period) 0 / 2 ^ 32 * 2 ^ 32 * 2 ^ (n / period) := by ring
    _ ≤ val / 2 ^ (n / period) * inv.getD (n % period) 0 * 2 ^ (n / period) :=
        Nat.mul_le_mul_right _ h₁
    _ = val / 2 ^ (n / period) * 2 ^ (n / period) * inv.getD (n % period) 0 := by ring
    _ ≤ val * inv.getD (n % period) 0 := Nat.mul_le_mul_right _ h₂

theorem decayBy_le_shift {period n k : Nat} {inv : List Nat} (val : Nat)
    (hinv : ∀ i, inv.getD i 0 ≤ 2 ^ 32) (hn : n ≠ 0) (hk : k ≤ n / period) :
    decayBy period inv val n ≤ val / 2 ^ k := by
  by_cases hmax : n ≤ period * 63
  · rw [decayBy_eq val hn hmax, Nat.shiftRight_eq_div_pow val]
    calc ((val / 2 ^ (n / period)) * inv.getD (n % period) 0) >>> 32
        ≤ val / 2 ^ (n / period) := (FloorDecay.mul_shiftRight (hinv _)).le_self _
      _ ≤ val / 2 ^ k := Nat.div_le_div_left (Nat.pow_le_pow_right (by norm_num) hk) (by positivity)
  · have hgt : n > period * 63 := by omega
    simp [decayBy, hn, hgt]

/-- Room for a contribution, from a comparison of rationals that does not mention the
sum. Any larger history than the one compared has room for it too. -/
theorem decayBy_add_le {period n M₀ M contrib : Nat} {inv : List Nat} (C : Nat)
    (hinv : ∀ i, inv.getD i 0 ≤ 2 ^ 32) (hn : n ≠ 0) (hmax : n ≤ period * 63) (hM : M₀ ≤ M)
    (h : (M₀ + 1024) * inv.getD (n % period) 0 + contrib * 2 ^ (32 + n / period) ≤
      M₀ * 2 ^ (32 + n / period)) :
    decayBy period inv ((M + 1024) * C) n + contrib * C ≤ M * C := by
  have hd := decayBy_mul_le inv ((M + 1024) * C) hn hmax
  have ha : inv.getD (n % period) 0 ≤ 2 ^ (32 + n / period) :=
    (hinv _).trans (Nat.pow_le_pow_right (by norm_num) (Nat.le_add_right _ _))
  obtain ⟨m, rfl⟩ := Nat.exists_eq_add_of_le hM
  have hroom : (M₀ + m + 1024) * inv.getD (n % period) 0 + contrib * 2 ^ (32 + n / period) ≤
      (M₀ + m) * 2 ^ (32 + n / period) := by
    have hm := Nat.mul_le_mul_left m ha
    linarith
  apply Nat.le_of_mul_le_mul_right _ (Nat.two_pow_pos (32 + n / period))
  calc (decayBy period inv ((M₀ + m + 1024) * C) n + contrib * C) * 2 ^ (32 + n / period)
      = decayBy period inv ((M₀ + m + 1024) * C) n * 2 ^ (32 + n / period)
          + contrib * 2 ^ (32 + n / period) * C := by ring
    _ ≤ (M₀ + m + 1024) * C * inv.getD (n % period) 0 + contrib * 2 ^ (32 + n / period) * C :=
        Nat.add_le_add_right hd _
    _ = ((M₀ + m + 1024) * inv.getD (n % period) 0 + contrib * 2 ^ (32 + n / period)) * C := by ring
    _ ≤ (M₀ + m) * 2 ^ (32 + n / period) * C := Nat.mul_le_mul_right _ hroom
    _ = (M₀ + m) * C * 2 ^ (32 + n / period) := by ring

theorem getD_le_of_forall_mem {l : List Nat} {b : Nat} (h : ∀ x ∈ l, x ≤ b) (i : Nat) :
    l.getD i 0 ≤ b := by
  rw [List.getD_eq_getElem?_getD]
  cases he : l[i]? with
  | none => simp
  | some x => exact h x (List.mem_of_getElem? he)

theorem runnableAvgYNInv_le (i : Nat) : runnableAvgYNInv.getD i 0 ≤ 2 ^ 32 :=
  getD_le_of_forall_mem (by decide) i

theorem runnableAvgFastYNInv_le (i : Nat) : runnableAvgFastYNInv.getD i 0 ≤ 2 ^ 32 :=
  getD_le_of_forall_mem (by decide) i

theorem floorDecay_decayLoad (n : Nat) : FloorDecay (fun val => decayLoad val n) :=
  floorDecay_decayBy _ runnableAvgYNInv_le n

theorem floorDecay_decayFastLoad (n : Nat) : FloorDecay (fun val => decayFastLoad val n) :=
  floorDecay_decayBy _ runnableAvgFastYNInv_le n

/-! The periods that the tables cover exactly, and the saturated ones. -/

theorem computeRunnableContrib_of_ge {n : Nat} (h : loadAvgMaxN ≤ n) :
    computeRunnableContrib n = loadAvgMax := by
  simp only [loadAvgMaxN] at h
  have h₁ : ¬ n ≤ 32 := by omega
  simp [computeRunnableContrib, loadAvgPeriod, loadAvgMaxN, h₁, h]

theorem computeRunnableContribFast_of_ge {n : Nat} (h : loadAvgFastMaxN ≤ n) :
    computeRunnableContribFast n = loadAvgFastMax := by
  simp only [loadAvgFastMaxN] at h
  have h₁ : ¬ n ≤ 3 := by omega
  simp [computeRunnableContribFast, loadAvgFastPeriod, loadAvgFastMaxN, h₁, h]

theorem decayLoad_add_contrib_table : ∀ p < 345,
    (46765 + 1024) * runnableAvgYNInv.getD ((p + 1) % 32) 0
      + computeRunnableContrib p * 2 ^ (32 + (p + 1) / 32) ≤ 46765 * 2 ^ (32 + (p + 1) / 32) := by
  decide +kernel

theorem decayFastLoad_add_contrib_table : ∀ p < 31,
    (3940 + 1024) * runnableAvgFastYNInv.getD ((p + 1) % 3) 0
      + computeRunnableContribFast p * 2 ^ (32 + (p + 1) / 3) ≤ 3940 * 2 ^ (32 + (p + 1) / 3) := by
  decide +kernel

/-- Below saturation a full history of 46765 units decays enough for what is added. -/
theorem decayLoad_add_contrib_le {p M : Nat} (C : Nat) (hp : p < loadAvgMaxN) (hM : 46765 ≤ M) :
    decayLoad ((M + 1024) * C) (p + 1) + computeRunnableContrib p * C ≤ M * C :=
  decayBy_add_le C runnableAvgYNInv_le (by omega)
    (by simp only [loadAvgMaxN, loadAvgPeriod] at hp ⊢; omega) hM (decayLoad_add_contrib_table p hp)

theorem decayFastLoad_add_contrib_le {p M : Nat} (C : Nat) (hp : p < loadAvgFastMaxN)
    (hM : 3940 ≤ M) :
    decayFastLoad ((M + 1024) * C) (p + 1) + computeRunnableContribFast p * C ≤ M * C :=
  decayBy_add_le C runnableAvgFastYNInv_le (by omega)
    (by simp only [loadAvgFastMaxN, loadAvgFastPeriod] at hp ⊢; omega) hM
    (decayFastLoad_add_contrib_table p hp)

theorem decayLoad_saturated_le {p : Nat} (val : Nat) (hp : loadAvgMaxN ≤ p) :
    decayLoad val (p + 1) ≤ val / 1024 :=
  decayBy_le_shift (k := 10) val runnableAvgYNInv_le (by omega)
    (by simp only [loadAvgMaxN, loadAvgPeriod] at hp ⊢; omega)

theorem decayFastLoad_saturated_le {p : Nat} (val : Nat) (hp : loadAvgFastMaxN ≤ p) :
    decayFastLoad val (p + 1) ≤ val / 1024 :=
  decayBy_le_shift (k := 10) val runnableAvgFastYNInv_le (by omega)
    (by simp only [loadAvgFastMaxN, loadAvgFastPeriod] at hp ⊢; omega)

/-- A saturated contribution needs a larger history, but any gap fits under it. -/
theorem decayLoad_add_any_contrib_le (p C : Nat) :
    decayLoad ((47800 + 1024) * C) (p + 1) + computeRunnableContrib p * C ≤ 47800 * C := by
  by_cases hp : p < loadAvgMaxN
  · exact decayLoad_add_contrib_le C hp (by norm_num)
  · have hd := decayLoad_saturated_le ((47800 + 1024) * C) (not_lt.mp hp)
    rw [computeRunnableContrib_of_ge (not_lt.mp hp), loadAvgMax]
    omega

theorem decayFastLoad_add_any_contrib_le (p C : Nat) :
    decayFastLoad ((4970 + 1024) * C) (p + 1) + computeRunnableContribFast p * C ≤ 4970 * C := by
  by_cases hp : p < loadAvgFastMaxN
  · exact decayFastLoad_add_contrib_le C hp (by norm_num)
  · have hd := decayFastLoad_saturated_le ((4970 + 1024) * C) (not_lt.mp hp)
    rw [computeRunnableContribFast_of_ge (not_lt.mp hp), loadAvgFastMax]
    omega

theorem decayLoad_le {M : Nat} (p C : Nat) (hM : 46765 ≤ M) :
    decayLoad ((M + 1024) * C) (p + 1) ≤ M * C := by
  by_cases hp : p < loadAvgMaxN
  · exact (Nat.le_add_right _ _).trans (decayLoad_add_contrib_le C hp hM)
  · have hd := decayLoad_saturated_le ((M + 1024) * C) (not_lt.mp hp)
    have hC : 1024 * C ≤ M * C := Nat.mul_le_mul_right C (by omega)
    rw [Nat.add_mul] at hd ⊢
    omega

theorem decayFastLoad_le {M : Nat} (p C : Nat) (hM : 3940 ≤ M) :
    decayFastLoad ((M + 1024) * C) (p + 1) ≤ M * C := by
  by_cases hp : p < loadAvgFastMaxN
  · exact (Nat.le_add_right _ _).trans (decayFastLoad_add_contrib_le C hp hM)
  · have hd := decayFastLoad_saturated_le ((M + 1024) * C) (not_lt.mp hp)
    have hC : 1024 * C ≤ M * C := Nat.mul_le_mul_right C (by omega)
    rw [Nat.add_mul] at hd ⊢
    omega

end MSchedutil
