import MSchedutil.FreqCache

/-! The margin under `pkshin_perf_enabled`: the configured one, doubled and weighted
with the share of the core in the load. It is defined as long as the divisor, that load,
is not zero, and never exceeds the doubled margin. -/

namespace MSchedutil

open Word Transition

variable {L : Type*}

/-- What both copies of the formula divide by. -/
def marginDivisor (rq : RqView) : Nat :=
  u64 (rq.avg.coreUtil.avg + (u64 (rq.avg.memoryUtil.avg * rq.scaleFreq) >>> 10))

/-- The copy in `get_next_freq`, in `unsigned int`. -/
def nextFreqMargin (capacityMargin : Nat) (rq : RqView) : Nat :=
  u32 (perfMargin (u32 (capacityMargin * 2)) rq)

/-- The copy in `sugov_get_util`, in `unsigned long`. -/
def getUtilMargin (capacityMargin : Nat) (rq : RqView) : Nat :=
  perfMargin (u64 (capacityMargin * 2)) rq

theorem perfMargin_eq (doubled : Nat) (rq : RqView) :
    perfMargin doubled rq = u64 (doubled * rq.avg.coreUtil.avg) / marginDivisor rq := rfl

/-- The frequency `get_next_freq` starts from. -/
def baseFreq (env : Env) (policy : CpufreqPolicy L) : Nat :=
  if env.freqInvariant then policy.maxFreq else policy.cur

/-- The margin `get_next_freq` applies. -/
def freqMargin (env : Env) (capacityMargin cpu : Nat) : Nat :=
  if env.perfEnabled then nextFreqMargin capacityMargin (env.rq cpu) else capacityMargin

/-- The margin `sugov_get_util` applies. -/
def utilMargin (env : Env) (capacityMargin : Nat) (rq : RqView) : Nat :=
  if env.perfEnabled then getUtilMargin capacityMargin rq else capacityMargin

theorem rawFreq_eq (env : Env) (capacityMargin : Nat) (policy : CpufreqPolicy L)
    (cpu util max : Nat) : rawFreq env capacityMargin policy cpu util max =
      u32 (u64 (u64 ((u64 (baseFreq env policy * freqMargin env capacityMargin cpu) >>>
        capacityMarginFloorFactor) + baseFreq env policy) * util) / max) := rfl

/-- The margin inside `pkshinUtil` is `utilMargin`. -/
theorem pkshinUtil_eq (env : Env) (t : SugovTunables) (rq : RqView) (rt : Nat) :
    pkshinUtil env t rq rt =
      let fixed := u64 ((u64 (rq.avg.memoryUtil.avg * utilMargin env t.capacityMargin rq) >>>
        capacityMarginFloorFactor) + rq.avg.memoryUtil.avg)
      if rq.scaleCpu > fixed then
        if rq.scaleCpu - fixed > rq.avg.coreUtil.avg then
          min (u64 (u64 (rq.scaleCpu * rq.avg.coreUtil.avg) / (rq.scaleCpu - fixed) + rt)) rq.scaleCpu
        else rq.scaleCpu
      else rq.scaleCpu := rfl

/-- Averages of 32 bits, and a frequency scale of at most one. -/
structure RqView.Readable (rq : RqView) : Prop where
  core_lt : rq.avg.coreUtil.avg < 2 ^ 32
  memory_lt : rq.avg.memoryUtil.avg < 2 ^ 32
  scale_le : rq.scaleFreq ≤ schedCapacityScale

theorem RqView.Readable.memory_scaled_lt {rq : RqView} (h : rq.Readable) :
    rq.avg.memoryUtil.avg * rq.scaleFreq < 2 ^ 64 := by
  have hle : rq.avg.memoryUtil.avg * rq.scaleFreq ≤ 2 ^ 32 * schedCapacityScale :=
    Nat.mul_le_mul h.memory_lt.le h.scale_le
  unfold schedCapacityScale at hle
  omega

theorem RqView.Readable.marginDivisor_eq {rq : RqView} (h : rq.Readable) :
    marginDivisor rq = rq.avg.coreUtil.avg + rq.avg.memoryUtil.avg * rq.scaleFreq / 1024 := by
  have hm := h.memory_scaled_lt
  have hc := h.core_lt
  unfold marginDivisor
  rw [u64_of_lt hm, Nat.shiftRight_eq_div_pow, u64_of_lt (by omega)]

theorem marginDivisor_ne_zero_iff {rq : RqView} (h : rq.Readable) :
    marginDivisor rq ≠ 0 ↔
      rq.avg.coreUtil.avg ≠ 0 ∨ 1024 ≤ rq.avg.memoryUtil.avg * rq.scaleFreq := by
  rw [h.marginDivisor_eq]
  omega

/-- The core cannot be more than the whole load, whatever the memory part is. -/
theorem core_le_marginDivisor {rq : RqView} (hcore : rq.avg.coreUtil.avg < 2 ^ 63) :
    rq.avg.coreUtil.avg ≤ marginDivisor rq := by
  have hm : u64 (rq.avg.memoryUtil.avg * rq.scaleFreq) >>> 10 < 2 ^ 54 := by
    have hlt := u64_lt (rq.avg.memoryUtil.avg * rq.scaleFreq)
    rw [Nat.shiftRight_eq_div_pow]
    omega
  unfold marginDivisor
  rw [u64_of_lt (by omega)]
  exact Nat.le_add_right _ _

theorem perfMargin_le (doubled : Nat) {rq : RqView} (hcore : rq.avg.coreUtil.avg < 2 ^ 63) :
    perfMargin doubled rq ≤ doubled := by
  rw [perfMargin_eq]
  refine Nat.div_le_of_le_mul ?_
  calc u64 (doubled * rq.avg.coreUtil.avg)
      ≤ doubled * rq.avg.coreUtil.avg := u64_le _
    _ ≤ doubled * marginDivisor rq := Nat.mul_le_mul_left _ (core_le_marginDivisor hcore)
    _ = marginDivisor rq * doubled := Nat.mul_comm _ _

/-- Neither copy of the formula divides by zero or more than doubles the margin. -/
structure MarginDefined (margin : Nat) (rq : RqView) : Prop where
  divisor : marginDivisor rq ≠ 0
  nextFreq : nextFreqMargin margin rq ≤ 2 * margin
  getUtil : getUtilMargin margin rq ≤ 2 * margin

theorem nextFreqMargin_le (margin : Nat) {rq : RqView} (hcore : rq.avg.coreUtil.avg < 2 ^ 63) :
    nextFreqMargin margin rq ≤ 2 * margin :=
  calc nextFreqMargin margin rq
      ≤ perfMargin (u32 (margin * 2)) rq := u32_le _
    _ ≤ u32 (margin * 2) := perfMargin_le _ hcore
    _ ≤ margin * 2 := u32_le _
    _ = 2 * margin := Nat.mul_comm _ _

theorem getUtilMargin_le (margin : Nat) {rq : RqView} (hcore : rq.avg.coreUtil.avg < 2 ^ 63) :
    getUtilMargin margin rq ≤ 2 * margin :=
  calc getUtilMargin margin rq
      ≤ u64 (margin * 2) := perfMargin_le _ hcore
    _ ≤ margin * 2 := u64_le _
    _ = 2 * margin := Nat.mul_comm _ _

/-- Up to the accepted margins the narrow copy of the formula loses nothing. -/
theorem nextFreqMargin_eq {margin : Nat} (hmargin : margin ≤ capacityMarginMaxValue) {rq : RqView}
    (hcore : rq.avg.coreUtil.avg < 2 ^ 63) : nextFreqMargin margin rq = perfMargin (2 * margin) rq := by
  unfold capacityMarginMaxValue at hmargin
  have hle := perfMargin_le (2 * margin) hcore
  unfold nextFreqMargin
  rw [Nat.mul_comm margin 2, u32_of_lt (n := 2 * margin) (by omega), u32_of_lt (by omega)]

theorem getUtilMargin_eq {margin : Nat} (hmargin : margin ≤ capacityMarginMaxValue) (rq : RqView) :
    getUtilMargin margin rq = perfMargin (2 * margin) rq := by
  unfold capacityMarginMaxValue at hmargin
  unfold getUtilMargin
  rw [Nat.mul_comm margin 2, u64_of_lt (by omega)]

/-- The share of the core in the load grows with the core, and the margin with it. -/
theorem perfMargin_mono {doubled doubled' : Nat} {rq rq' : RqView} (hdoubled : doubled ≤ doubled')
    (hle : doubled' ≤ 2048) (hcore : rq.avg.coreUtil.avg ≤ rq'.avg.coreUtil.avg)
    (hlt : rq'.avg.coreUtil.avg < 2 ^ 32)
    (hmemory : rq.avg.memoryUtil.avg * rq.scaleFreq = rq'.avg.memoryUtil.avg * rq'.scaleFreq) :
    perfMargin doubled rq ≤ perfMargin doubled' rq' := by
  have hpart : u64 (rq'.avg.memoryUtil.avg * rq'.scaleFreq) >>> 10 < 2 ^ 54 := by
    have hu := u64_lt (rq'.avg.memoryUtil.avg * rq'.scaleFreq)
    rw [Nat.shiftRight_eq_div_pow]
    omega
  unfold perfMargin
  rw [hmemory]
  generalize u64 (rq'.avg.memoryUtil.avg * rq'.scaleFreq) >>> 10 = part at hpart ⊢
  generalize rq.avg.coreUtil.avg = core at hcore ⊢
  generalize rq'.avg.coreUtil.avg = core' at hcore hlt ⊢
  have hprod : doubled * core ≤ 2048 * 2 ^ 32 := Nat.mul_le_mul (by omega) (by omega)
  have hprod' : doubled' * core' ≤ 2048 * 2 ^ 32 := Nat.mul_le_mul hle hlt.le
  rw [u64_of_lt (n := doubled * core) (by omega), u64_of_lt (n := doubled' * core') (by omega),
    u64_of_lt (by omega), u64_of_lt (by omega)]
  rcases Nat.eq_zero_or_pos (core' + part) with hzero | hpos
  · have hcore0 : core + part = 0 := by omega
    rw [hzero, hcore0, Nat.div_zero, Nat.div_zero]
  · have hbusy : doubled * core / (core + part) * (core + part) ≤ doubled * core :=
      Nat.div_mul_le_self _ _
    have hquot : doubled * core / (core + part) ≤ doubled :=
      Nat.div_le_of_le_mul (by rw [Nat.mul_comm]; exact Nat.mul_le_mul_right _ (by omega))
    rw [Nat.le_div_iff_mul_le hpos]
    calc doubled * core / (core + part) * (core' + part)
        = doubled * core / (core + part) * (core + part) +
            doubled * core / (core + part) * (core' - core) := by
          rw [← Nat.mul_add]
          congr 1
          omega
      _ ≤ doubled * core + doubled * (core' - core) :=
          Nat.add_le_add hbusy (Nat.mul_le_mul_right _ hquot)
      _ = doubled * core' := by
          rw [← Nat.mul_add]
          congr 1
          omega
      _ ≤ doubled' * core' := Nat.mul_le_mul_right _ hdoubled

/-- Whatever the governor has been through, the margin of a CPU is defined exactly while
its load does not round to zero: some core utilisation, or memory utilisation that scales
to a unit. -/
theorem perf_margin_defined_iff (resolve : L → Nat → Nat) (policies : Nat → CpufreqPolicy L)
    (es : List (GovEvent L)) (t cpu : Nat) (env : Env) (h : (env.rq cpu).Readable) :
    MarginDefined ((run (Gov.next resolve) (sugovInit policies) es).tunables t).capacityMargin
        (env.rq cpu) ↔
      (env.rq cpu).avg.coreUtil.avg ≠ 0 ∨
        1024 ≤ (env.rq cpu).avg.memoryUtil.avg * (env.rq cpu).scaleFreq := by
  have hcore : (env.rq cpu).avg.coreUtil.avg < 2 ^ 63 := h.core_lt.trans (by norm_num)
  rw [← marginDivisor_ne_zero_iff h]
  exact ⟨fun hd => hd.divisor,
    fun hd => ⟨hd, nextFreqMargin_le _ hcore, getUtilMargin_le _ hcore⟩⟩

/-- A CPU with averages `avg`, at full scale. -/
def avgEnv (avg : SchedAvg) : Env :=
  { busyEnv 10000000 0 1 with
    rq := fun _ => ⟨avg, 0, 0, 10000000, 1024, 1024, avg.util.avg⟩
    pemtEnabled := true
    freqEnabled := true
    perfEnabled := true }

/-- A runqueue busy for a second, with per-entity memory tracking on or off. -/
def busySecond (pemt : Bool) : SchedAvg :=
  (UpdateCall.updateLoadAvg ⟨2 ^ 30, 1, true, pemt, 512, 1024, 1024⟩ idleAvg).1

theorem perf_margin_defined_tracked :
    MarginDefined ((run (Gov.next clampFreq) (machine {0}) [.start 0]).tunables 0).capacityMargin
      ((avgEnv (busySecond true)).rq 0) :=
  (perf_margin_defined_iff clampFreq _ [.start 0] 0 0 (avgEnv (busySecond true))
    ⟨by decide +kernel, by decide +kernel, by decide +kernel⟩).mpr (.inl (by decide +kernel))

/-- With the performance module alone a busy CPU has utilisation and a zero divisor;
with memory tracking so has an idle one. -/
theorem perf_margin_divides_by_zero :
    ((avgEnv (busySecond false)).rq 0).avg.util.avg = 1024 ∧
      marginDivisor ((avgEnv (busySecond false)).rq 0) = 0 ∧
      marginDivisor ((avgEnv idleAvg).rq 0) = 0 ∧
      ¬ ∀ (es : List (GovEvent (Nat × Nat))) (t cpu : Nat) (env : Env), (env.rq cpu).Readable →
        MarginDefined ((run (Gov.next clampFreq) (machine {0}) es).tunables t).capacityMargin
          (env.rq cpu) := by
  have hzero : marginDivisor ((avgEnv (busySecond false)).rq 0) = 0 := by decide +kernel
  refine ⟨by decide +kernel, hzero, by decide +kernel, fun hall => ?_⟩
  have hreadable : ((avgEnv (busySecond false)).rq 0).Readable :=
    ⟨by decide +kernel, by decide +kernel, by decide +kernel⟩
  exact (hall [] 0 0 _ hreadable).divisor hzero

end MSchedutil
