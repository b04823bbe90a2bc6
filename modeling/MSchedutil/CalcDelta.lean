import MSchedutil.Reciprocal
import MSchedutil.SchedAvg

/-! Weighted time: `__calc_delta` with the cached reciprocal of a `load_weight`, and the
slices that `sched_slice` cuts from the latency period, level by level. -/

namespace MSchedutil

open Word Reciprocal

def nice0Load : Nat := 1 <<< 20

def wmultConst : Nat := 2 ^ 32 - 1

def wmultShift : Nat := 32

structure LoadWeight where
  weight : Nat
  invWeight : Nat
  deriving DecidableEq, Repr

namespace LoadWeight

/-- `update_load_add` -/
def add (lw : LoadWeight) (inc : Nat) : LoadWeight := ⟨lw.weight + inc, 0⟩

/-- `update_load_sub` -/
def sub (lw : LoadWeight) (dec : Nat) : LoadWeight := ⟨lw.weight - dec, 0⟩

/-- `update_load_set` -/
def set (w : Nat) : LoadWeight := ⟨w, 0⟩

/-- `__update_inv_weight` -/
def updateInvWeight (lw : LoadWeight) : LoadWeight :=
  if lw.invWeight ≠ 0 then lw
  else
    let w := scaleLoadDown lw.weight
    { lw with
      invWeight := if w ≥ wmultConst then 1 else if w = 0 then wmultConst else wmultConst / w }

/-- What the cache may hold: nothing, or the reciprocal. -/
def Cached (lw : LoadWeight) : Prop :=
  lw.invWeight = 0 ∨ Reciprocal.Of wmultShift (scaleLoadDown lw.weight) lw.invWeight

/-- A divisor that has a reciprocal: neither zero nor more than 32 bits once scaled down. -/
def Divides (lw : LoadWeight) : Prop :=
  0 < scaleLoadDown lw.weight ∧ scaleLoadDown lw.weight ≤ wmultConst

theorem of_updateInvWeight {lw : LoadWeight} (hc : lw.Cached) (hd : lw.Divides) :
    Reciprocal.Of wmultShift (scaleLoadDown lw.weight) lw.updateInvWeight.invWeight := by
  rcases hc with hzero | hof
  · obtain ⟨hpos, hle⟩ := hd
    simp only [updateInvWeight, hzero, ne_eq, not_true_eq_false, if_false]
    rcases hle.lt_or_eq with hlt | heq
    · rw [if_neg (by omega), if_neg (by omega)]
      have hlow := Nat.div_mul_le_self wmultConst (scaleLoadDown lw.weight)
      have hup := Nat.lt_mul_div_succ wmultConst hpos
      rw [Nat.mul_add, Nat.mul_one, Nat.mul_comm] at hup
      simp only [wmultConst, wmultShift] at *
      exact ⟨by omega, by omega⟩
    · rw [if_pos (by omega), heq]
      exact ⟨by decide, by decide⟩
  · by_cases hzero : lw.invWeight = 0
    · have hlt := hof.lt
      obtain ⟨hpos, hle⟩ := hd
      simp only [hzero, wmultConst, wmultShift] at hlt hle
      omega
    · simpa only [updateInvWeight, ne_eq, hzero, not_false_eq_true, if_true] using hof

end LoadWeight

/-- The factor of `__calc_delta`, and how often it was halved: first the weight alone, then its
product with the reciprocal. -/
def calcFactor (weight : Nat) (lw : LoadWeight) : Nat × Nat :=
  let lw := lw.updateInvWeight
  let fact := shrink 32 wmultShift (scaleLoadDown weight)
  let product := shrink 32 wmultShift (u64 (u32 fact.1 * lw.invWeight))
  (product.1, fact.2 + product.2)

/-- `__calc_delta`. The reciprocal that it leaves in `lw` is computed again when it is next asked
for. -/
def calcDelta (deltaExec weight : Nat) (lw : LoadWeight) : Nat :=
  let fact := calcFactor weight lw
  u64 (mulU64U32Shr deltaExec fact.1 (wmultShift - fact.2))

def calcDeltaFair (delta : Nat) (load : LoadWeight) : Nat :=
  if load.weight ≠ nice0Load then calcDelta delta nice0Load load else delta

section Bounds

variable {weight : Nat} {lw : LoadWeight}

/-- With weights of 32 bits only the product is halved, and the shift stays positive. -/
theorem calcFactor_eq (hc : lw.Cached) (hd : lw.Divides) (hw : scaleLoadDown weight < 2 ^ 32) :
    ∃ k ≤ wmultShift, calcFactor weight lw =
      (scaleLoadDown weight * lw.updateInvWeight.invWeight / 2 ^ k, k) ∧
      (k ≠ 0 → 2 ^ 31 ≤ scaleLoadDown weight * lw.updateInvWeight.invWeight / 2 ^ k) := by
  have hinv : lw.updateInvWeight.invWeight ≤ 2 ^ 32 :=
    (Nat.le_mul_of_pos_right _ hd.1).trans (LoadWeight.of_updateInvWeight hc hd).le
  have hprod : scaleLoadDown weight * lw.updateInvWeight.invWeight < 2 ^ 64 := by
    calc scaleLoadDown weight * lw.updateInvWeight.invWeight
        ≤ (2 ^ 32 - 1) * 2 ^ 32 := Nat.mul_le_mul (by omega) hinv
      _ < 2 ^ 64 := by norm_num
  have heq : calcFactor weight lw =
      shrink 32 wmultShift (scaleLoadDown weight * lw.updateInvWeight.invWeight) := by
    simp [calcFactor, shrink_of_lt hw, u32_of_lt hw, u64_of_lt hprod]
  refine ⟨_, shrink_le_turns _, heq.trans (Prod.ext (shrink_fst _) rfl), fun hk => ?_⟩
  rw [← shrink_fst]
  exact shrink_top (by norm_num) hk

/-- `__calc_delta` is `delta_exec * weight / lw.weight` short of one unit and of the two
roundings: it never charges more than the exact share. -/
theorem calcDelta_share {deltaExec : Nat} (hc : lw.Cached) (hd : lw.Divides)
    (hw : scaleLoadDown weight < 2 ^ 32)
    (hfits : deltaExec * scaleLoadDown weight < 2 ^ 64 * scaleLoadDown lw.weight) :
    calcDelta deltaExec weight lw * scaleLoadDown lw.weight ≤ deltaExec * scaleLoadDown weight ∧
      deltaExec * scaleLoadDown weight * (2 ^ 32 - scaleLoadDown lw.weight) * (2 ^ 31 - 1) ≤
        (calcDelta deltaExec weight lw + 1) * scaleLoadDown lw.weight * 2 ^ 32 * 2 ^ 31 := by
  have hof := LoadWeight.of_updateInvWeight hc hd
  obtain ⟨k, hk, hfact, htop⟩ := calcFactor_eq hc hd hw
  have hle := quotient_le hof deltaExec (scaleLoadDown weight) k hk
  have hquot : calcDelta deltaExec weight lw =
      deltaExec * (scaleLoadDown weight * lw.updateInvWeight.invWeight / 2 ^ k) /
        2 ^ (wmultShift - k) := by
    simp only [calcDelta, hfact, mulU64U32Shr, Nat.shiftRight_eq_div_pow]
    apply u64_of_lt
    exact Nat.lt_of_mul_lt_mul_right (hle.trans_lt hfits)
  rw [hquot]
  exact ⟨hle, exact_le hof deltaExec (scaleLoadDown weight) k hk (b := 32) htop⟩

/-- A third of 4 ms. -/
theorem calcDelta_share_third :
    calcDelta 4000000 nice0Load (.set (3 * nice0Load)) * scaleLoadDown (3 * nice0Load) ≤
        4000000 * scaleLoadDown nice0Load ∧
      4000000 * scaleLoadDown nice0Load * (2 ^ 32 - scaleLoadDown (3 * nice0Load)) * (2 ^ 31 - 1) ≤
        (calcDelta 4000000 nice0Load (.set (3 * nice0Load)) + 1) * scaleLoadDown (3 * nice0Load) *
          2 ^ 32 * 2 ^ 31 :=
  calcDelta_share (.inl rfl) ⟨by decide, by decide⟩ (by decide) (by decide)

end Bounds

end MSchedutil
