import MSchedutil.PeriodSum
import MSchedutil.Transition

/-! A bound on the sums of a `sched_avg` that grows with the part of the period
already accrued. A call keeps it when the decayed history leaves room for the
whole periods it adds, and then none of its accruals wraps. -/

namespace MSchedutil

open Word

/-- Every sum is at most its history bound plus the accrued part of the period. -/
structure SchedAvg.Bounded (M : Track → Nat) (C : Nat) (sa : SchedAvg) : Prop where
  contrib_lt : sa.periodContrib < 1024
  sum_le : ∀ k, (sa.signal k).sum ≤ (M k + sa.periodContrib) * C

namespace UpdateCall

variable {c : UpdateCall} {M : Track → Nat} {C : Nat}

/-- After `n` boundaries the history `M` has room for the whole periods between them. -/
def Room (c : UpdateCall) (M C n : Nat) (k : Track) : Prop :=
  k.decay ((M + 1024) * C) n + (if c.running then k.contrib (n - 1) else 0) * C ≤ M * C

theorem charge_le_mul (h : c.InRange) (hC : c.scaleCpu ≤ C) (amount : Nat) (k : Track) :
    c.charge amount k ≤ amount * C := by
  calc c.charge amount k ≤ (if c.running then amount else 0) * c.scaleCpu := charge_le h amount k
    _ ≤ amount * C := Nat.mul_le_mul (by split <;> omega) hC

theorem completed_le (h : c.InRange) (hC : c.scaleCpu ≤ C) {sa : SchedAvg} (hb : sa.Bounded M C)
    (k : Track) :
    (sa.signal k).sum + c.charge (1024 - sa.periodContrib) k ≤ (M k + 1024) * C := by
  have hpc := hb.contrib_lt
  calc (sa.signal k).sum + c.charge (1024 - sa.periodContrib) k
      ≤ (M k + sa.periodContrib) * C + (1024 - sa.periodContrib) * C :=
        Nat.add_le_add (hb.sum_le k) (charge_le_mul h hC _ k)
    _ = (M k + 1024) * C := by rw [← Nat.add_mul]; congr 1; omega

theorem crossedSum_le (h : c.InRange) (hC : c.scaleCpu ≤ C) {sa : SchedAvg} (hb : sa.Bounded M C)
    {delta : Nat} {k : Track} (hroom : c.Room (M k) C (crossed sa.periodContrib delta) k) :
    c.crossedSum sa.periodContrib delta k (sa.signal k).sum ≤
      (M k + (sa.periodContrib + delta) % 1024) * C := by
  have hdecay := (k.floorDecay (crossed sa.periodContrib delta)).mono (completed_le h hC hb k)
  have hcontrib : c.charge (k.contrib (crossed sa.periodContrib delta - 1)) k ≤
      (if c.running then k.contrib (crossed sa.periodContrib delta - 1) else 0) * C :=
    (charge_le h _ k).trans (Nat.mul_le_mul_left _ hC)
  have hrest := charge_le_mul h hC ((sa.periodContrib + delta) % 1024) k
  unfold Room at hroom
  unfold crossedSum
  rw [Nat.add_mul]
  omega

/-- The bound is kept by any call that leaves room at the boundaries it crosses. -/
theorem bounded_accrueDelta (h : c.InRange) (hC : c.scaleCpu ≤ C) (hC' : C ≤ 1024)
    (hM : ∀ k, M k ≤ 50000) {sa : SchedAvg} (hb : sa.Bounded M C) {delta : Nat}
    (hd : delta < 2 ^ 53)
    (hroom : 1024 ≤ delta + sa.periodContrib →
      ∀ k, c.Room (M k) C (crossed sa.periodContrib delta) k) :
    (c.accrueDelta delta sa).1.Bounded M C := by
  have hpc := hb.contrib_lt
  have hcap : ∀ k n, n ≤ 1024 → (M k + n) * C ≤ 51024 * 1024 := fun k n hn =>
    Nat.mul_le_mul (by have := hM k; omega) hC'
  by_cases hx : 1024 ≤ delta + sa.periodContrib
  · have hsum : ∀ k, ((c.crossPeriod delta { sa with lastUpdateTime := c.now }).signal k).sum =
        c.crossedSum sa.periodContrib delta k (sa.signal k).sum := by
      intro k
      have h₁ := completed_le h hC hb k
      have h₂ := crossedSum_le h hC hb (hroom hx k)
      have hc₁ := hcap k 1024 le_rfl
      have hc₂ := hcap k ((sa.periodContrib + delta) % 1024) (by omega)
      simpa only [signal_with_lastUpdateTime] using
        sum_crossPeriod h { sa with lastUpdateTime := c.now } k hpc hd hx
          (by rw [signal_with_lastUpdateTime]; dsimp only; omega)
          (by rw [signal_with_lastUpdateTime]; dsimp only; omega)
    have hpc' : (c.crossPeriod delta { sa with lastUpdateTime := c.now }).periodContrib =
        (sa.periodContrib + delta) % 1024 := crossPeriod_periodContrib c hpc hd hx
    simp only [accrueDelta, ge_iff_le, hx, if_true]
    refine ⟨by rw [hpc']; omega, fun k => ?_⟩
    rw [hsum k, hpc']
    exact crossedSum_le h hC hb (hroom hx k)
  · simp only [accrueDelta, ge_iff_le, hx, if_false]
    have hpc' : (c.remainder delta { sa with lastUpdateTime := c.now }).periodContrib =
        sa.periodContrib + delta := remainder_periodContrib c (by dsimp only; omega)
    refine ⟨by rw [hpc']; omega, fun k => ?_⟩
    have hs := hb.sum_le k
    have hch := charge_le_mul h hC delta k
    have hc := hcap k (sa.periodContrib + delta) (by omega)
    have hle : (sa.signal k).sum + c.charge delta k ≤ (M k + (sa.periodContrib + delta)) * C := by
      calc (sa.signal k).sum + c.charge delta k
          ≤ (M k + sa.periodContrib) * C + delta * C := Nat.add_le_add hs hch
        _ = (M k + (sa.periodContrib + delta)) * C := by ring
    have hsum := sum_remainder h (d := delta) (by omega)
      { sa with lastUpdateTime := c.now } k
      (by rw [signal_with_lastUpdateTime]; omega)
    rw [signal_with_lastUpdateTime] at hsum
    rw [hpc', hsum]
    exact hle

theorem bounded_updateLoadAvg (h : c.InRange) (hC : c.scaleCpu ≤ C) (hC' : C ≤ 1024)
    (hM : ∀ k, M k ≤ 50000) {sa : SchedAvg} (hb : sa.Bounded M C)
    (hroom : ∀ delta, elapsed c.now sa.lastUpdateTime = .units delta →
      1024 ≤ delta + sa.periodContrib → ∀ k, c.Room (M k) C (crossed sa.periodContrib delta) k) :
    (c.updateLoadAvg sa).1.Bounded M C := by
  unfold updateLoadAvg
  cases he : elapsed c.now sa.lastUpdateTime with
  | backwards => exact ⟨hb.contrib_lt, fun k => by simpa using hb.sum_le k⟩
  | tooShort => exact hb
  | units delta =>
    exact bounded_accrueDelta h hC hC' hM hb (elapsed_units he).2.1 (hroom delta he)

/-- The history any sequence of gaps can build up, saturated contributions included. -/
def anyGap (k : Track) : Nat := k.pick 47800 4970

theorem anyGap_le (k : Track) : anyGap k ≤ 50000 := by cases k <;> decide

theorem room_anyGap (c : UpdateCall) {n : Nat} (hn : n ≠ 0) (k : Track) :
    c.Room (anyGap k) C n k := by
  obtain ⟨p, rfl⟩ := Nat.exists_eq_succ_of_ne_zero hn
  have hs := decayLoad_add_any_contrib_le p C
  have hf := decayFastLoad_add_any_contrib_le p C
  have hk : k.decay ((anyGap k + 1024) * C) (p + 1) + k.contrib p * C ≤ anyGap k * C := by
    cases k <;> assumption
  unfold Room
  refine le_trans (Nat.add_le_add_left (Nat.mul_le_mul_right C ?_) _) hk
  rw [Nat.succ_sub_one]
  split <;> omega

/-- Whatever the gaps, the sums stay far below 32 bits. -/
theorem bounded_anyGap (h : c.InRange) {sa : SchedAvg} (hb : sa.Bounded anyGap 1024) :
    (c.updateLoadAvg sa).1.Bounded anyGap 1024 :=
  bounded_updateLoadAvg h h.scaleCpu le_rfl anyGap_le hb fun _ _ hx k =>
    room_anyGap c (by unfold crossed; omega) k

end UpdateCall

end MSchedutil
