import MSchedutil.PerfMargin

/-! The product of `get_next_freq` before it is narrowed. Its 64-bit intermediates never
wrap; whether the result stays below `UINT_MAX` depends on the performance margin. -/

namespace MSchedutil

open Word

variable {L : Type*}

/-- `tfreq`, as it stands when it is narrowed to `unsigned int`. -/
def tfreq (env : Env) (capacityMargin : Nat) (policy : CpufreqPolicy L) (cpu util max : Nat) : Nat :=
  u64 (u64 ((u64 (baseFreq env policy * freqMargin env capacityMargin cpu) >>>
    capacityMarginFloorFactor) + baseFreq env policy) * util) / max

theorem rawFreq_eq_tfreq (env : Env) (capacityMargin : Nat) (policy : CpufreqPolicy L)
    (cpu util max : Nat) :
    rawFreq env capacityMargin policy cpu util max = u32 (tfreq env capacityMargin policy cpu util max) :=
  rfl

/-- No 64-bit intermediate of `get_next_freq` wraps, and narrowing loses nothing. -/
structure FreqProduct (env : Env) (capacityMargin : Nat) (policy : CpufreqPolicy L)
    (cpu util max : Nat) : Prop where
  core : env.perfEnabled = true →
    u32 (capacityMargin * 2) * (env.rq cpu).avg.coreUtil.avg < 2 ^ 64
  memory : env.perfEnabled = true →
    (env.rq cpu).avg.memoryUtil.avg * (env.rq cpu).scaleFreq < 2 ^ 64
  load : env.perfEnabled = true →
    (env.rq cpu).avg.coreUtil.avg +
      ((env.rq cpu).avg.memoryUtil.avg * (env.rq cpu).scaleFreq) >>> 10 < 2 ^ 64
  scaled : baseFreq env policy * freqMargin env capacityMargin cpu < 2 ^ 64
  raised : (baseFreq env policy * freqMargin env capacityMargin cpu) >>> capacityMarginFloorFactor +
    baseFreq env policy < 2 ^ 64
  product : ((baseFreq env policy * freqMargin env capacityMargin cpu) >>>
    capacityMarginFloorFactor + baseFreq env policy) * util < 2 ^ 64
  narrow : tfreq env capacityMargin policy cpu util max < uintMax

/-- The least margin that takes `freq` to `UINT_MAX` at this utilisation. -/
def marginRoom (freq util max : Nat) : Nat :=
  (1024 * ((uintMax * max - 1) / util - freq + 1) + freq - 1) / freq

/-- The share of the core in the load leaves the performance margin its room. -/
def MarginFits (env : Env) (capacityMargin : Nat) (policy : CpufreqPolicy L) (cpu util max : Nat) :
    Prop :=
  env.perfEnabled = false ∨ baseFreq env policy = 0 ∨ util = 0 ∨
    2 * capacityMargin * (env.rq cpu).avg.coreUtil.avg <
      marginRoom (baseFreq env policy) util max * ((env.rq cpu).avg.coreUtil.avg +
        (env.rq cpu).avg.memoryUtil.avg * (env.rq cpu).scaleFreq / 1024)

section Bounds

variable {freq margin util max : Nat}

theorem raised_le {n : Nat} (hmargin : margin ≤ 1024 * n) :
    freq * margin / 1024 + freq ≤ (n + 1) * freq := by
  have hle : freq * margin ≤ 1024 * (n * freq) := by
    calc freq * margin ≤ freq * (1024 * n) := Nat.mul_le_mul_left _ hmargin
      _ = 1024 * (n * freq) := by ring
  have hdiv := Nat.div_le_of_le_mul hle
  rw [Nat.succ_mul]
  omega

theorem raised_mul_lt (hfreq : freq < 2 ^ 31) (hmargin : margin ≤ 2048) (hutil : util < 2 ^ 31) :
    (freq * margin / 1024 + freq) * util < 2 ^ 64 := by
  have hraised : freq * margin / 1024 + freq ≤ 3 * freq := raised_le (n := 2) hmargin
  calc (freq * margin / 1024 + freq) * util ≤ 3 * 2 ^ 31 * 2 ^ 31 :=
        Nat.mul_le_mul (by omega) hutil.le
    _ < 2 ^ 64 := by norm_num

theorem raised_fits {n : Nat} (hfreq : (n + 1) * freq < uintMax) (hmargin : margin ≤ 1024 * n)
    (hle : util ≤ max) (hmax : 0 < max) : (freq * margin / 1024 + freq) * util / max < uintMax := by
  have hraised : freq * margin / 1024 + freq ≤ (n + 1) * freq := raised_le hmargin
  rw [Nat.div_lt_iff_lt_mul hmax]
  calc (freq * margin / 1024 + freq) * util ≤ (n + 1) * freq * max := Nat.mul_le_mul hraised hle
    _ < uintMax * max := Nat.mul_lt_mul_of_pos_right hfreq hmax

theorem raised_fits_iff (margin : Nat) (hfreq : freq < uintMax) (hutil : 0 < util)
    (hle : util ≤ max) :
    (freq * margin / 1024 + freq) * util / max < uintMax ↔
      margin * freq < 1024 * ((uintMax * max - 1) / util - freq + 1) := by
  have hmax : 0 < max := by omega
  have hfull : 0 < uintMax * max := Nat.mul_pos (by omega) hmax
  have hbase : freq ≤ (uintMax * max - 1) / util := by
    rw [Nat.le_div_iff_mul_le hutil]
    have hlt : freq * util < uintMax * max :=
      calc freq * util ≤ freq * max := Nat.mul_le_mul_left _ hle
        _ < uintMax * max := Nat.mul_lt_mul_of_pos_right hfreq hmax
    omega
  have hword : (freq * margin / 1024 + freq) * util / max < uintMax ↔
      freq * margin / 1024 + freq ≤ (uintMax * max - 1) / util := by
    rw [Nat.div_lt_iff_lt_mul hmax, Nat.le_div_iff_mul_le hutil]
    omega
  rw [hword, Nat.mul_comm margin freq]
  omega

theorem margin_lt_room_iff (hfreq : 0 < freq) :
    margin < marginRoom freq util max ↔
      margin * freq < 1024 * ((uintMax * max - 1) / util - freq + 1) := by
  rw [marginRoom, Nat.lt_iff_add_one_le, Nat.le_div_iff_mul_le hfreq, Nat.succ_mul]
  omega

end Bounds

section Product

variable {env : Env} {capacityMargin cpu util max : Nat} {policy : CpufreqPolicy L}

theorem freqMargin_le (hmargin : capacityMargin ≤ capacityMarginMaxValue)
    (h : (env.rq cpu).Readable) : freqMargin env capacityMargin cpu ≤ 2048 := by
  have hle := nextFreqMargin_le capacityMargin (h.core_lt.trans (by norm_num))
  simp only [capacityMarginMaxValue] at hmargin
  simp only [freqMargin]
  split <;> omega

theorem freqMargin_perf (hperf : env.perfEnabled = true)
    (hmargin : capacityMargin ≤ capacityMarginMaxValue) (h : (env.rq cpu).Readable) :
    freqMargin env capacityMargin cpu =
      2 * capacityMargin * (env.rq cpu).avg.coreUtil.avg /
        ((env.rq cpu).avg.coreUtil.avg +
          (env.rq cpu).avg.memoryUtil.avg * (env.rq cpu).scaleFreq / 1024) := by
  have hcore : (env.rq cpu).avg.coreUtil.avg < 2 ^ 63 := h.core_lt.trans (by norm_num)
  have hprod : 2 * capacityMargin * (env.rq cpu).avg.coreUtil.avg ≤ 2048 * 2 ^ 32 :=
    Nat.mul_le_mul (by simp only [capacityMarginMaxValue] at hmargin; omega) h.core_lt.le
  rw [freqMargin, if_pos hperf, nextFreqMargin_eq hmargin hcore, perfMargin_eq,
    u64_of_lt (by omega), h.marginDivisor_eq]

theorem tfreq_eq (hfreq : baseFreq env policy < uintMax / 2)
    (hmargin : capacityMargin ≤ capacityMarginMaxValue) (h : (env.rq cpu).Readable)
    (hutil : util < 2 ^ 31) : tfreq env capacityMargin policy cpu util max =
      (baseFreq env policy * freqMargin env capacityMargin cpu / 1024 + baseFreq env policy) * util /
        max := by
  have hm := freqMargin_le hmargin h
  have hf : baseFreq env policy < 2 ^ 31 := by simp only [uintMax] at hfreq; omega
  have hscaled : baseFreq env policy * freqMargin env capacityMargin cpu ≤ 2 ^ 31 * 2048 :=
    Nat.mul_le_mul hf.le hm
  rw [tfreq, u64_of_lt (n := _ * freqMargin env capacityMargin cpu) (by omega),
    Nat.shiftRight_eq_div_pow, show 2 ^ capacityMarginFloorFactor = 1024 from rfl,
    u64_of_lt (n := _ + _) (by omega), u64_of_lt (raised_mul_lt hf hm hutil)]

theorem freqProduct_iff_narrow (hfreq : baseFreq env policy < uintMax / 2)
    (hmargin : capacityMargin ≤ capacityMarginMaxValue) (hutil : util < 2 ^ 31)
    (h : (env.rq cpu).Readable) : FreqProduct env capacityMargin policy cpu util max ↔
      (baseFreq env policy * freqMargin env capacityMargin cpu / 1024 + baseFreq env policy) * util /
        max < uintMax := by
  rw [← tfreq_eq hfreq hmargin h hutil]
  refine ⟨fun hp => hp.narrow, fun hnarrow => ?_⟩
  have hm := freqMargin_le hmargin h
  have hf : baseFreq env policy < 2 ^ 31 := by simp only [uintMax] at hfreq; omega
  have hscaled : baseFreq env policy * freqMargin env capacityMargin cpu ≤ 2 ^ 31 * 2048 :=
    Nat.mul_le_mul hf.le hm
  have hfloor : 2 ^ capacityMarginFloorFactor = 1024 := rfl
  have hcore := h.core_lt
  have hmem := h.memory_scaled_lt
  constructor
  case core =>
    intro _
    calc u32 (capacityMargin * 2) * (env.rq cpu).avg.coreUtil.avg
        ≤ capacityMargin * 2 * 2 ^ 32 := Nat.mul_le_mul (u32_le _) hcore.le
      _ < 2 ^ 64 := by simp only [capacityMarginMaxValue] at hmargin; omega
  case memory => exact fun _ => hmem
  case load =>
    intro _
    rw [Nat.shiftRight_eq_div_pow]
    omega
  case scaled => omega
  case raised =>
    rw [Nat.shiftRight_eq_div_pow, hfloor]
    omega
  case product =>
    rw [Nat.shiftRight_eq_div_pow, hfloor]
    exact raised_mul_lt hf hm hutil
  case narrow => exact hnarrow

/-- With an accepted margin, only the performance margin can take the frequency out of
`unsigned int`, and it does so exactly when it runs out of room. -/
theorem freqProduct_iff_marginFits (hfreq : baseFreq env policy < uintMax / 2)
    (hmargin : capacityMargin ≤ capacityMarginMaxValue) (hle : util ≤ max) (hmax : 0 < max)
    (hmax' : max < 2 ^ 31) (h : (env.rq cpu).Readable)
    (hdiv : env.perfEnabled = true → marginDivisor (env.rq cpu) ≠ 0) :
    FreqProduct env capacityMargin policy cpu util max ↔
      MarginFits env capacityMargin policy cpu util max := by
  rw [freqProduct_iff_narrow hfreq hmargin (by omega) h, MarginFits]
  by_cases hperf : env.perfEnabled = true
  · rcases Nat.eq_zero_or_pos (baseFreq env policy) with hzero | hpos
    · simp [hzero, uintMax]
    · rcases Nat.eq_zero_or_pos util with rfl | hutil
      · simp [uintMax]
      · have hD : 0 < (env.rq cpu).avg.coreUtil.avg +
            (env.rq cpu).avg.memoryUtil.avg * (env.rq cpu).scaleFreq / 1024 := by
          rw [← h.marginDivisor_eq]
          exact Nat.pos_of_ne_zero (hdiv hperf)
        have hroom := raised_fits_iff (freqMargin env capacityMargin cpu)
          (by omega : baseFreq env policy < uintMax) hutil hle
        rw [hroom, ← margin_lt_room_iff hpos, freqMargin_perf hperf hmargin h,
          Nat.div_lt_iff_lt_mul hD]
        simp [hperf, hpos.ne', hutil.ne']
  · have hplain : freqMargin env capacityMargin cpu = capacityMargin := if_neg hperf
    rw [hplain]
    exact ⟨fun _ => .inl (by simpa using hperf),
      fun _ => raised_fits (n := 1) (by omega) hmargin hle hmax⟩

end Product

theorem nearHalf_lt_uintMax : 2147483646 < uintMax := by decide

def nearHalfPolicy : CpufreqPolicy (Nat × Nat) :=
  ⟨{0}, 2147483646, 300000, false, (300000, 2147483646), nearHalf_lt_uintMax⟩

def splitEnv (memory : Nat) : Env :=
  avgEnv { idleAvg with coreUtil := ⟨512 * loadAvgMax, 512⟩, memoryUtil := ⟨memory * loadAvgMax, memory⟩ }

theorem freqProduct_balanced : FreqProduct (splitEnv 512) 1024 nearHalfPolicy 0 1024 1024 :=
  (freqProduct_iff_marginFits (by decide) (by decide) (by decide) (by decide) (by decide)
    ⟨by decide, by decide, by decide⟩ (by decide)).mpr (.inr (.inr (.inr (by decide))))

/-- Without memory stalls the margin of 1024 counts twice, and the frequency triples. -/
theorem freqProduct_overflows :
    baseFreq (splitEnv 0) nearHalfPolicy < uintMax / 2 ∧
      tfreq (splitEnv 0) 1024 nearHalfPolicy 0 1024 1024 = 6442450938 ∧
      rawFreq (splitEnv 0) 1024 nearHalfPolicy 0 1024 1024 = 2147483642 ∧
      ¬ ∀ (env : Env) (capacityMargin : Nat) (policy : CpufreqPolicy (Nat × Nat))
          (cpu util max : Nat), baseFreq env policy < uintMax / 2 →
        capacityMargin ≤ capacityMarginMaxValue → util ≤ max → 0 < max → max < 2 ^ 31 →
        (env.rq cpu).Readable → (env.perfEnabled = true → marginDivisor (env.rq cpu) ≠ 0) →
        FreqProduct env capacityMargin policy cpu util max := by
  have hout : tfreq (splitEnv 0) 1024 nearHalfPolicy 0 1024 1024 = 6442450938 := by decide
  refine ⟨by decide, hout, by decide, fun hall => ?_⟩
  have hnarrow := (hall (splitEnv 0) 1024 nearHalfPolicy 0 1024 1024 (by decide) (by decide)
    (by decide) (by decide) (by decide) ⟨by decide, by decide, by decide⟩ (by decide)).narrow
  rw [hout] at hnarrow
  exact absurd hnarrow (by decide)

end MSchedutil
