import MSchedutil.Track

/-! The sums after a whole call of `__update_load_avg`, in exact arithmetic, and
the bound on them that every call keeps. -/

namespace MSchedutil

open Word

theorem elapsed_units {now last delta : Nat} (h : elapsed now last = .units delta) :
    0 < delta ∧ delta < 2 ^ 53 ∧ delta = sub64 now last / 1024 := by
  unfold elapsed at h
  simp only at h
  split at h
  · cases h
  · rename_i hs
    have hnn := (s64_nonneg_iff (sub64 now last)).mp (not_lt.mp hs)
    have hu : u64 (sub64 now last) = sub64 now last := u64_of_lt (u64_lt _)
    rw [hu] at hnn
    split at h
    · cases h
    · rename_i hd
      rw [Nat.shiftRight_eq_div_pow] at h hd
      have he := Elapsed.units.inj h
      omega

namespace UpdateCall

variable {c : UpdateCall}

/-- The periods a crossing call leaves behind, the first of them completed. -/
def crossed (pc delta : Nat) : Nat := (pc + delta) / 1024

/-- The sum after a period boundary is crossed, before it is averaged. -/
def crossedSum (c : UpdateCall) (pc delta : Nat) (k : Track) (s : Nat) : Nat :=
  k.decay (s + c.charge (1024 - pc) k) (crossed pc delta) +
    c.charge (k.contrib (crossed pc delta - 1)) k + c.charge ((pc + delta) % 1024) k

theorem contrib_le (k : Track) (n : Nat) : k.contrib n ≤ 47800 := by
  have hs := decayLoad_add_any_contrib_le n 1
  have hf := decayFastLoad_add_any_contrib_le n 1
  exact k.pick_cases (p := fun f : Nat → Nat => f n ≤ 47800) (by omega) (by omega)

theorem sum_completePeriod (h : c.InRange) {w : Nat} (hw : w ≤ 1024) (sa : SchedAvg) (k : Track)
    (hfit : (sa.signal k).sum + c.charge w k < 2 ^ 32) :
    ((c.completePeriod w sa).signal k).sum = (sa.signal k).sum + c.charge w k := by
  have hp : k.pick w w = w := by unfold Track.pick; split <;> rfl
  have hwide : w ≤ 50000 := by omega
  have hs := sum_accrue h hwide hwide sa k
  rw [hp] at hs
  unfold completePeriod
  simp only [u32_capScale_eq h (show w ≤ 50000 by omega)]
  exact hs hfit

theorem sum_decay (h : c.InRange) (n : Nat) (sa : SchedAvg) (k : Track) :
    ((c.decay n sa).signal k).sum = k.decay (sa.signal k).sum n := by
  simp [h.pemt, Signal.decay]

theorem sum_wholePeriods (h : c.InRange) (n : Nat) (sa : SchedAvg) (k : Track)
    (hfit : (sa.signal k).sum + c.charge (k.contrib n) k < 2 ^ 32) :
    ((c.wholePeriods n sa).signal k).sum = (sa.signal k).sum + c.charge (k.contrib n) k := by
  have hslow := contrib_le .util n
  have hfast := contrib_le .utilFast n
  change computeRunnableContrib n ≤ 47800 at hslow
  change computeRunnableContribFast n ≤ 47800 at hfast
  have hk : k.pick (computeRunnableContrib n) (computeRunnableContribFast n) = k.contrib n := by
    unfold Track.contrib Track.pick
    split <;> rfl
  have hslow' : computeRunnableContrib n ≤ 50000 := by omega
  have hfast' : computeRunnableContribFast n ≤ 50000 := by omega
  have hs := sum_accrue h hslow' hfast' sa k
  rw [hk] at hs
  unfold wholePeriods
  simp only [u32_capScale_eq h (show computeRunnableContrib n ≤ 50000 by omega),
    u32_capScale_eq h (show computeRunnableContribFast n ≤ 50000 by omega)]
  exact hs hfit

@[simp] theorem signal_with_periodContrib (sa : SchedAvg) (n : Nat) (k : Track) :
    SchedAvg.signal { sa with periodContrib := n } k = sa.signal k := by cases k <;> rfl

@[simp] theorem signal_with_lastUpdateTime (sa : SchedAvg) (n : Nat) (k : Track) :
    SchedAvg.signal { sa with lastUpdateTime := n } k = sa.signal k := by cases k <;> rfl

theorem sum_remainder (h : c.InRange) {d : Nat} (hd : d ≤ 1024) (sa : SchedAvg) (k : Track)
    (hfit : (sa.signal k).sum + c.charge d k < 2 ^ 32) :
    ((c.remainder d sa).signal k).sum = (sa.signal k).sum + c.charge d k := by
  have hp : k.pick d d = d := by unfold Track.pick; split <;> rfl
  have hwide : d ≤ 50000 := by omega
  have hs := sum_accrue h hwide hwide sa k
  rw [hp] at hs
  unfold remainder
  simp only [signal_with_periodContrib, capScale_eq h (show d ≤ 50000 by omega)]
  exact hs hfit

theorem remainder_periodContrib (c : UpdateCall) {d : Nat} {sa : SchedAvg}
    (h : sa.periodContrib + d < 2 ^ 32) :
    (c.remainder d sa).periodContrib = sa.periodContrib + d := by
  simp [remainder, u32_of_lt h]

theorem crossPeriod_eq (c : UpdateCall) {delta : Nat} {sa : SchedAvg} (hpc : sa.periodContrib < 1024)
    (hd : delta < 2 ^ 53) (hx : 1024 ≤ delta + sa.periodContrib) :
    c.crossPeriod delta sa =
      c.averages (c.remainder ((sa.periodContrib + delta) % 1024)
        (c.wholePeriods (crossed sa.periodContrib delta - 1)
          (c.decay (crossed sa.periodContrib delta)
            (c.completePeriod (1024 - sa.periodContrib) { sa with periodContrib := 0 })))) := by
  have hw : sub32 1024 sa.periodContrib = 1024 - sa.periodContrib :=
    sub32_of_le hpc.le (by norm_num)
  have hr : sub64 delta (1024 - sa.periodContrib) = delta - (1024 - sa.periodContrib) :=
    sub64_of_le (by omega) (by omega)
  have hp : (delta - (1024 - sa.periodContrib)) / 1024 = crossed sa.periodContrib delta - 1 := by
    unfold crossed; omega
  have hp1 : crossed sa.periodContrib delta - 1 + 1 = crossed sa.periodContrib delta := by
    unfold crossed; omega
  have hm : (delta - (1024 - sa.periodContrib)) % 1024 = (sa.periodContrib + delta) % 1024 := by omega
  simp only [crossPeriod, hw, hr, hp, hp1, hm]

theorem crossPeriod_periodContrib (c : UpdateCall) {delta : Nat} {sa : SchedAvg}
    (hpc : sa.periodContrib < 1024) (hd : delta < 2 ^ 53)
    (hx : 1024 ≤ delta + sa.periodContrib) :
    (c.crossPeriod delta sa).periodContrib = (sa.periodContrib + delta) % 1024 := by
  have hz : (c.wholePeriods (crossed sa.periodContrib delta - 1)
      (c.decay (crossed sa.periodContrib delta)
        (c.completePeriod (1024 - sa.periodContrib)
          { sa with periodContrib := 0 }))).periodContrib = 0 := by
    simp [wholePeriods, completePeriod]
  rw [crossPeriod_eq c hpc hd hx, averages_periodContrib, remainder_periodContrib c (by omega), hz]
  omega

theorem sum_crossPeriod (h : c.InRange) {delta : Nat} (sa : SchedAvg) (k : Track)
    (hpc : sa.periodContrib < 1024) (hd : delta < 2 ^ 53) (hx : 1024 ≤ delta + sa.periodContrib)
    (hfit : (sa.signal k).sum + c.charge (1024 - sa.periodContrib) k < 2 ^ 32)
    (hfit' : c.crossedSum sa.periodContrib delta k (sa.signal k).sum < 2 ^ 32) :
    ((c.crossPeriod delta sa).signal k).sum =
      c.crossedSum sa.periodContrib delta k (sa.signal k).sum := by
  unfold crossedSum at hfit' ⊢
  have h₁ := sum_completePeriod h (w := 1024 - sa.periodContrib) (by omega)
    { sa with periodContrib := 0 } k (by simpa using hfit)
  rw [signal_with_periodContrib] at h₁
  have h₂ := sum_decay h (crossed sa.periodContrib delta)
    (c.completePeriod (1024 - sa.periodContrib) { sa with periodContrib := 0 }) k
  rw [h₁] at h₂
  have h₃ := sum_wholePeriods h (crossed sa.periodContrib delta - 1)
    (c.decay (crossed sa.periodContrib delta)
      (c.completePeriod (1024 - sa.periodContrib) { sa with periodContrib := 0 })) k
    (by rw [h₂]; exact (Nat.le_add_right _ _).trans_lt hfit')
  rw [h₂] at h₃
  have h₄ := sum_remainder h (d := (sa.periodContrib + delta) % 1024) (by omega)
    (c.wholePeriods (crossed sa.periodContrib delta - 1)
      (c.decay (crossed sa.periodContrib delta)
        (c.completePeriod (1024 - sa.periodContrib) { sa with periodContrib := 0 }))) k
    (by rw [h₃]; exact hfit')
  rw [h₃] at h₄
  rw [crossPeriod_eq c hpc hd hx, signal_averages, h.pemt]
  simpa [Signal.average] using h₄

end UpdateCall

end MSchedutil
