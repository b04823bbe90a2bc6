import MSchedutil.DecayLoad

/-! The table-driven decay only falls while periods pass, across the half-life
blocks and at the cut-off, and never leaves its table or shifts a whole word. -/

namespace MSchedutil

open Word

/-- A shift of a 64-bit word, undefined from 64 places on. -/
def shiftRight64 (val k : Nat) : Option Nat :=
  if k < 64 then some (val >>> k) else none

/-- `decayBy` with the narrowing of `local_n`, the table access and both shifts
as the machine has them: undefined out of range. -/
def decayByChecked (period : Nat) (inv : List Nat) (val n : Nat) : Option Nat :=
  if n = 0 then some val
  else if n > period * 63 then some 0
  else
    let localN := u32 n
    let scaled :=
      if localN ≥ period then
        (shiftRight64 val (localN / period)).map fun val => (val, localN % period)
      else some (val, localN)
    scaled.bind fun (val, localN) =>
      inv[localN]?.bind fun mul => shiftRight64 (val * mul) 32

def decayLoadChecked (val n : Nat) : Option Nat :=
  decayByChecked loadAvgPeriod runnableAvgYNInv val n

def decayFastLoadChecked (val n : Nat) : Option Nat :=
  decayByChecked loadAvgFastPeriod runnableAvgFastYNInv val n

structure InverseTable (period : Nat) (inv : List Nat) : Prop where
  pos : 0 < period
  narrow : period * 63 < 2 ^ 32
  covers : period ≤ inv.length
  le_one : ∀ i, inv.getD i 0 ≤ 2 ^ 32
  falls : ∀ i < period - 1, inv.getD (i + 1) 0 ≤ inv.getD i 0
  half : 2 ^ 31 ≤ inv.getD (period - 1) 0

structure OrderlyDecay (f : Nat → Nat → Nat) (checked : Nat → Nat → Option Nat) : Prop where
  le_self : ∀ val n, f val n ≤ val
  mono : ∀ n, Monotone fun val => f val n
  antitone : ∀ val, Antitone (f val)
  superadd : ∀ x y n, f x n + f y n ≤ f (x + y) n
  inRange : ∀ val n, checked val n = some (f val n)

theorem shiftRight64_of_lt {k : Nat} (val : Nat) (hk : k < 64) :
    shiftRight64 val k = some (val >>> k) := if_pos hk

theorem half_block_le {val k a b : Nat} (ha : a ≤ 2 ^ 32) (hb : 2 ^ 31 ≤ b) :
    ((val >>> (k + 1)) * a) >>> 32 ≤ ((val >>> k) * b) >>> 32 := by
  have hhalf : val >>> (k + 1) = (val >>> k) / 2 := Nat.shiftRight_succ val k
  have hfit := Nat.div_mul_le_self (val >>> k) 2
  rw [Nat.shiftRight_eq_div_pow _ 32, Nat.shiftRight_eq_div_pow _ 32, hhalf]
  apply Nat.div_le_div_right
  calc (val >>> k) / 2 * a ≤ (val >>> k) / 2 * 2 ^ 32 := Nat.mul_le_mul_left _ ha
    _ = (val >>> k) / 2 * 2 * 2 ^ 31 := by ring
    _ ≤ (val >>> k) * 2 ^ 31 := Nat.mul_le_mul_right _ hfit
    _ ≤ (val >>> k) * b := Nat.mul_le_mul_left _ hb

section Table

variable {period : Nat} {inv : List Nat}

theorem decayBy_block (inv : List Nat) {r k : Nat} (val : Nat) (hr : r < period)
    (hn : r + period * k ≠ 0) (hmax : r + period * k ≤ period * 63) :
    decayBy period inv val (r + period * k) = ((val >>> k) * inv.getD r 0) >>> 32 := by
  have hpos : 0 < period := by omega
  have hdiv : (r + period * k) / period = k := by
    rw [Nat.add_mul_div_left _ _ hpos, Nat.div_eq_of_lt hr, Nat.zero_add]
  have hmod : (r + period * k) % period = r := by
    rw [Nat.add_mul_mod_self_left, Nat.mod_eq_of_lt hr]
  rw [decayBy_eq val hn hmax, hdiv, hmod]

/-- One more period, inside a block or into the next one. -/
theorem decayBy_block_step (htab : InverseTable period inv) {r k : Nat} (val : Nat)
    (hr : r < period) (hn : r + period * k ≠ 0) (hmax : r + period * k + 1 ≤ period * 63) :
    decayBy period inv val (r + period * k + 1) ≤ decayBy period inv val (r + period * k) := by
  have hnow := decayBy_block inv val hr hn (by omega)
  by_cases hin : r + 1 < period
  · have hshape : r + period * k + 1 = (r + 1) + period * k := by omega
    have hnext := decayBy_block inv val hin (by omega) (by omega : (r + 1) + period * k ≤ _)
    rw [hshape, hnext, hnow, Nat.shiftRight_eq_div_pow _ 32, Nat.shiftRight_eq_div_pow _ 32]
    exact Nat.div_le_div_right (Nat.mul_le_mul_left _ (htab.falls r (by omega)))
  · have hlast : r = period - 1 := by omega
    have hshape : r + period * k + 1 = 0 + period * (k + 1) := by rw [Nat.mul_succ]; omega
    have hnext := decayBy_block inv val htab.pos (by omega) (by omega : 0 + period * (k + 1) ≤ _)
    rw [hshape, hnext, hnow]
    exact half_block_le (htab.le_one 0) (by rw [hlast]; exact htab.half)

theorem decayBy_succ_le (htab : InverseTable period inv) (val n : Nat) :
    decayBy period inv val (n + 1) ≤ decayBy period inv val n := by
  rcases Nat.eq_zero_or_pos n with rfl | hn
  · have hstart : decayBy period inv val 0 = val := by simp [decayBy]
    rw [hstart]
    exact (floorDecay_decayBy period htab.le_one 1).le_self val
  · by_cases hmax : n + 1 ≤ period * 63
    · have hr := Nat.mod_lt n htab.pos
      have hshape := Nat.mod_add_div n period
      have hstep := decayBy_block_step htab val hr (by rw [hshape]; omega) (by rwa [hshape])
      rwa [hshape] at hstep
    · have hcut : decayBy period inv val (n + 1) = 0 := by
        simp [decayBy, not_le.mp hmax]
      rw [hcut]
      exact Nat.zero_le _

theorem decayByChecked_eq_some (htab : InverseTable period inv) (val n : Nat) :
    decayByChecked period inv val n = some (decayBy period inv val n) := by
  have hnarrow := htab.narrow
  have hcovers := htab.covers
  rcases Nat.eq_zero_or_pos n with rfl | hn
  · simp [decayByChecked, decayBy]
  · by_cases hmax : n > period * 63
    · simp [decayByChecked, decayBy, hn.ne', hmax]
    · have hword : u32 n = n := u32_of_lt (by omega)
      have hunit : 32 < 64 := by omega
      have hentry : ∀ i < period, inv[i]? = some (inv.getD i 0) := by
        intro i hi
        rw [List.getD_eq_getElem?_getD, List.getElem?_eq_getElem (by omega), Option.getD_some]
      by_cases hblock : n ≥ period
      · have hshift : n / period < 64 := by
          have := Nat.div_le_of_le_mul (not_lt.mp hmax)
          omega
        have hmod := hentry _ (Nat.mod_lt n htab.pos)
        simp only [decayByChecked, decayBy, mulU64U32Shr, hn.ne', hmax, hword, hblock, hmod,
          if_true, if_false, Option.map_some, Option.bind_some, shiftRight64_of_lt _ hshift,
          shiftRight64_of_lt _ hunit]
      · have hfirst := hentry n (not_le.mp hblock)
        simp only [decayByChecked, decayBy, mulU64U32Shr, hn.ne', hmax, hword, hblock, hfirst,
          if_false, Option.bind_some, shiftRight64_of_lt _ hunit]

theorem orderlyDecay_decayBy (htab : InverseTable period inv) :
    OrderlyDecay (decayBy period inv) (decayByChecked period inv) where
  le_self val n := (floorDecay_decayBy period htab.le_one n).le_self val
  mono n := (floorDecay_decayBy period htab.le_one n).mono
  antitone val := antitone_nat_of_succ_le (decayBy_succ_le htab val)
  superadd x y n := (floorDecay_decayBy period htab.le_one n).superadd x y
  inRange := decayByChecked_eq_some htab

end Table

theorem inverseTable_runnableAvgYNInv : InverseTable loadAvgPeriod runnableAvgYNInv where
  pos := by decide
  narrow := by decide
  covers := by decide
  le_one := runnableAvgYNInv_le
  falls := by decide
  half := by decide

theorem inverseTable_runnableAvgFastYNInv :
    InverseTable loadAvgFastPeriod runnableAvgFastYNInv where
  pos := by decide
  narrow := by decide
  covers := by decide
  le_one := runnableAvgFastYNInv_le
  falls := by decide
  half := by decide

theorem orderlyDecay_decayLoad_decayFastLoad :
    OrderlyDecay decayLoad decayLoadChecked ∧ OrderlyDecay decayFastLoad decayFastLoadChecked :=
  ⟨orderlyDecay_decayBy inverseTable_runnableAvgYNInv,
    orderlyDecay_decayBy inverseTable_runnableAvgFastYNInv⟩

end MSchedutil
