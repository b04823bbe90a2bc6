import MSchedutil.Balance
import MSchedutil.PerfMargin

/-! The memory-aware utilisation: the speed at which core and memory time fill the CPU,
the memory time being stretched by the margin, and the frequency made of it. -/

namespace MSchedutil

open Word Balance

variable {L : Type*}

/-- The share of the other classes, as `sugov_get_util` scales it. -/
def sugovRt (env : Env) (cpu : Nat) : Nat :=
  let rq := env.rq cpu
  let delta := (deltaNs env.time rq.ageStamp).toNat
  u64 (rq.rtAvg / u64 (env.schedAvgPeriod + delta) * rq.scaleCpu) >>> schedCapacityShift

/-- One call of `sugov_get_util` and of `get_next_freq` on what it returns. -/
structure Evaluation where
  env : Env
  tunables : SugovTunables
  cpu : Nat

namespace Evaluation

def rq (e : Evaluation) : RqView := e.env.rq e.cpu
def cap (e : Evaluation) : Nat := e.rq.scaleCpu
def core (e : Evaluation) : Nat := e.rq.avg.coreUtil.avg
def memory (e : Evaluation) : Nat := e.rq.avg.memoryUtil.avg
def rt (e : Evaluation) : Nat := sugovRt e.env e.cpu
def margin (e : Evaluation) : Nat := e.tunables.capacityMargin

def util (e : Evaluation) : Nat := (sugovGetUtil e.env e.tunables e.cpu).1

/-- The raw frequency for a policy, before the cache test. -/
def raw (e : Evaluation) (policy : CpufreqPolicy L) : Nat :=
  rawFreq e.env e.margin policy e.cpu e.util (sugovGetUtil e.env e.tunables e.cpu).2

/-- Memory-aware selection is on, and capacity, averages and margin are in range. -/
structure MemoryAware (e : Evaluation) : Prop where
  pelt : e.env.usePelt = true
  pemt : e.env.pemtEnabled = true
  freq : e.env.freqEnabled = true
  cap_pos : 0 < e.cap
  cap_le : e.cap ≤ schedCapacityScale
  core_lt : e.core < 2 ^ 32
  memory_lt : e.memory < 2 ^ 32
  rt_lt : e.rt < 2 ^ 32
  margin_le : e.margin ≤ capacityMarginMaxValue

/-- The memory time with its margin. -/
def stretched (memory margin : Nat) : Nat := memory + ((memory * margin) >>> capacityMarginFloorFactor)

theorem stretched_mono {memory memory' margin margin' : Nat} (hmemory : memory ≤ memory')
    (hmargin : margin ≤ margin') : stretched memory margin ≤ stretched memory' margin' := by
  unfold stretched
  rw [Nat.shiftRight_eq_div_pow, Nat.shiftRight_eq_div_pow]
  exact Nat.add_le_add hmemory (Nat.div_le_div_right (Nat.mul_le_mul hmemory hmargin))

variable {e e' : Evaluation}

/-- The margin that stretches the memory time, doubled by the performance module at most. -/
def appliedMargin (e : Evaluation) : Nat := utilMargin e.env e.margin e.rq

theorem MemoryAware.appliedMargin_le (h : e.MemoryAware) : e.appliedMargin ≤ 2048 := by
  have hmargin := h.margin_le
  unfold capacityMarginMaxValue at hmargin
  unfold appliedMargin utilMargin
  split
  · have hle := getUtilMargin_le e.margin (h.core_lt.trans (by norm_num) : e.core < 2 ^ 63)
    exact hle.trans (by omega)
  · omega

theorem MemoryAware.sugovGetUtil_eq (h : e.MemoryAware) : sugovGetUtil e.env e.tunables e.cpu =
    (pkshinUtil e.env e.tunables e.rq e.rt, e.cap) := by
  unfold sugovGetUtil
  dsimp only
  rw [if_pos h.pelt, if_pos ⟨h.pemt, h.freq⟩]
  rfl

/-- Within its range the code computes the balancing speed, and adds the other classes. -/
theorem MemoryAware.util_eq (h : e.MemoryAware) : e.util =
    min (speed e.cap e.core (stretched e.memory e.appliedMargin) + e.rt) e.cap := by
  have hcap := h.cap_le
  have hcore := h.core_lt
  have hmemory := h.memory_lt
  have hrt := h.rt_lt
  unfold schedCapacityScale at hcap
  have hprod : e.memory * e.appliedMargin ≤ 2 ^ 32 * 2048 :=
    Nat.mul_le_mul hmemory.le h.appliedMargin_le
  have hfixed : u64 ((u64 (e.memory * e.appliedMargin) >>> capacityMarginFloorFactor) + e.memory) =
      stretched e.memory e.appliedMargin := by
    have hshift : (e.memory * e.appliedMargin) >>> capacityMarginFloorFactor ≤ 2 ^ 32 * 2048 := by
      rw [Nat.shiftRight_eq_div_pow]
      exact (Nat.div_le_self _ _).trans hprod
    unfold stretched
    rw [u64_of_lt (n := e.memory * e.appliedMargin) (by omega), Nat.add_comm]
    exact u64_of_lt (by omega)
  have hload : e.cap * e.core ≤ 1024 * 2 ^ 32 := Nat.mul_le_mul hcap hcore.le
  have hutil : e.util = pkshinUtil e.env e.tunables e.rq e.rt := by
    unfold Evaluation.util
    rw [h.sugovGetUtil_eq]
  have hcode : pkshinUtil e.env e.tunables e.rq e.rt =
      if e.cap > stretched e.memory e.appliedMargin then
        if e.cap - stretched e.memory e.appliedMargin > e.core then
          min (u64 (u64 (e.cap * e.core) / (e.cap - stretched e.memory e.appliedMargin) + e.rt)) e.cap
        else e.cap
      else e.cap := by
    rw [pkshinUtil_eq, ← hfixed]
    rfl
  rw [hutil, hcode]
  unfold speed
  by_cases hroom : stretched e.memory e.appliedMargin < e.cap
  · by_cases hfits : e.core < e.cap - stretched e.memory e.appliedMargin
    · have hdiv : e.cap * e.core / (e.cap - stretched e.memory e.appliedMargin) ≤ e.cap * e.core :=
        Nat.div_le_self _ _
      rw [if_pos hroom, if_pos hfits, if_pos ⟨hroom, hfits⟩,
        u64_of_lt (n := e.cap * e.core) (by omega), u64_of_lt (by omega)]
    · rw [if_pos hroom, if_neg hfits, if_neg fun hall => hfits hall.2]
      omega
  · rw [if_neg hroom, if_neg fun hall => hroom hall.1]
    omega

theorem MemoryAware.util_bounds (h : e.MemoryAware) : min e.core e.cap ≤ e.util ∧ e.util ≤ e.cap := by
  rw [h.util_eq]
  have hcore := core_le_speed e.cap e.core (stretched e.memory e.appliedMargin)
  exact ⟨le_min (hcore.trans (Nat.le_add_right _ _)) (min_le_right _ _), min_le_right _ _⟩

/-- With a margin that does not shrink, the utilisation shrinks in none of its inputs. -/
theorem MemoryAware.util_mono (h : e.MemoryAware) (h' : e'.MemoryAware) (hcap : e.cap = e'.cap)
    (hcore : e.core ≤ e'.core) (hmemory : e.memory ≤ e'.memory) (hrt : e.rt ≤ e'.rt)
    (hmargin : e.appliedMargin ≤ e'.appliedMargin) : e.util ≤ e'.util := by
  rw [h.util_eq, h'.util_eq, hcap]
  have hspeed : speed e'.cap e.core (stretched e.memory e.appliedMargin) ≤
      speed e'.cap e'.core (stretched e'.memory e'.appliedMargin) :=
    speed_mono hcore (stretched_mono hmemory hmargin)
  omega

/-- The frequency with its margin, for a utilisation. -/
def scaledFreq (freq margin util max : Nat) : Nat :=
  ((freq * margin) / 1024 + freq) * util / max

theorem scaledFreq_mono {margin margin' util util' : Nat} (freq max : Nat)
    (hmargin : margin ≤ margin') (hutil : util ≤ util') :
    scaledFreq freq margin util max ≤ scaledFreq freq margin' util' max := by
  unfold scaledFreq
  refine Nat.div_le_div_right (Nat.mul_le_mul (Nat.add_le_add_right ?_ _) hutil)
  exact Nat.div_le_div_right (Nat.mul_le_mul_left freq hmargin)

/-- The margin that `get_next_freq` puts on the frequency. -/
def raisedMargin (e : Evaluation) : Nat := freqMargin e.env e.margin e.cpu

theorem MemoryAware.raisedMargin_le (h : e.MemoryAware) : e.raisedMargin ≤ 2048 := by
  have hmargin := h.margin_le
  unfold capacityMarginMaxValue at hmargin
  unfold raisedMargin freqMargin
  split
  · have hle := nextFreqMargin_le e.margin (h.core_lt.trans (by norm_num) : e.core < 2 ^ 63)
    exact hle.trans (by omega)
  · omega

theorem MemoryAware.raw_eq (h : e.MemoryAware) {policy : CpufreqPolicy L}
    (hfreq : baseFreq e.env policy * e.raisedMargin / 1024 + baseFreq e.env policy < 2 ^ 32) :
    e.raw policy = scaledFreq (baseFreq e.env policy) e.raisedMargin e.util e.cap := by
  have hutil := h.util_bounds.2
  have hcap := h.cap_le
  have hpos := h.cap_pos
  unfold schedCapacityScale at hcap
  have hbase : baseFreq e.env policy ≤ 2 ^ 32 := by omega
  have hprod : baseFreq e.env policy * e.raisedMargin ≤ 2 ^ 32 * 2048 :=
    Nat.mul_le_mul hbase h.raisedMargin_le
  have hcode : e.raw policy = u32 (u64 (u64 ((u64 (baseFreq e.env policy * e.raisedMargin) >>>
      capacityMarginFloorFactor) + baseFreq e.env policy) * e.util) / e.cap) := by
    unfold Evaluation.raw
    rw [rawFreq_eq, h.sugovGetUtil_eq]
    rfl
  have hscaled : (baseFreq e.env policy * e.raisedMargin / 1024 + baseFreq e.env policy) * e.util ≤
      2 ^ 32 * e.cap := Nat.mul_le_mul hfreq.le hutil
  have hlt : scaledFreq (baseFreq e.env policy) e.raisedMargin e.util e.cap < 2 ^ 32 := by
    unfold scaledFreq
    rw [Nat.div_lt_iff_lt_mul hpos]
    calc (baseFreq e.env policy * e.raisedMargin / 1024 + baseFreq e.env policy) * e.util
        ≤ (baseFreq e.env policy * e.raisedMargin / 1024 + baseFreq e.env policy) * e.cap :=
          Nat.mul_le_mul_left _ hutil
      _ < 2 ^ 32 * e.cap := Nat.mul_lt_mul_of_pos_right hfreq hpos
  rw [hcode, u64_of_lt (n := baseFreq e.env policy * e.raisedMargin) (by omega),
    Nat.shiftRight_eq_div_pow, show 2 ^ capacityMarginFloorFactor = 1024 from rfl,
    u64_of_lt (n := baseFreq e.env policy * e.raisedMargin / 1024 + baseFreq e.env policy) (by omega),
    u64_of_lt (by omega)]
  exact u32_of_lt hlt

theorem MemoryAware.raw_mono (h : e.MemoryAware) (h' : e'.MemoryAware) (hcap : e.cap = e'.cap)
    (hutil : e.util ≤ e'.util) (hmargin : e.raisedMargin ≤ e'.raisedMargin)
    {policy : CpufreqPolicy L} (hbase : baseFreq e.env policy = baseFreq e'.env policy)
    (hfreq : baseFreq e'.env policy * e'.raisedMargin / 1024 + baseFreq e'.env policy < 2 ^ 32) :
    e.raw policy ≤ e'.raw policy := by
  have hle : baseFreq e'.env policy * e.raisedMargin / 1024 ≤
      baseFreq e'.env policy * e'.raisedMargin / 1024 :=
    Nat.div_le_div_right (Nat.mul_le_mul_left _ hmargin)
  rw [h.raw_eq (by rw [hbase]; omega), h'.raw_eq hfreq, hbase, hcap]
  exact scaledFreq_mono _ _ hmargin hutil

/-- The performance module weighs both margins alike. -/
theorem MemoryAware.margins_of_perf (h : e.MemoryAware) (hperf : e.env.perfEnabled = true) :
    e.appliedMargin = perfMargin (2 * e.margin) e.rq ∧
      e.raisedMargin = perfMargin (2 * e.margin) e.rq := by
  unfold appliedMargin utilMargin raisedMargin freqMargin
  rw [if_pos hperf, if_pos hperf]
  exact ⟨getUtilMargin_eq h.margin_le _,
    nextFreqMargin_eq h.margin_le (h.core_lt.trans (by norm_num) : e.core < 2 ^ 63)⟩

theorem margins_of_not_perf (e : Evaluation) (hperf : e.env.perfEnabled = false) :
    e.appliedMargin = e.margin ∧ e.raisedMargin = e.margin := by
  unfold appliedMargin utilMargin raisedMargin freqMargin
  rw [hperf]
  exact ⟨rfl, rfl⟩

end Evaluation

/-- The memory-aware utilisation is bounded, grows with each of its inputs and solves the
model equation to one unit, and the raw frequency follows it while the raised frequency fits
32 bits; under the performance module both still grow with the core and the margin. -/
theorem memory_aware_util_monotone :
    (∀ e : Evaluation, e.MemoryAware → e.env.perfEnabled = false →
      min e.core e.cap ≤ e.util ∧ e.util ≤ e.cap) ∧
    (∀ e e' : Evaluation, e.MemoryAware → e'.MemoryAware → e.env.perfEnabled = false →
      e'.env.perfEnabled = false → e.cap = e'.cap → e.core ≤ e'.core → e.memory ≤ e'.memory →
      e.rt ≤ e'.rt → e.margin ≤ e'.margin →
      e.util ≤ e'.util ∧ ∀ policy : CpufreqPolicy L, baseFreq e.env policy = baseFreq e'.env policy →
        baseFreq e.env policy < 2 ^ 31 → e.raw policy ≤ e'.raw policy) ∧
    (∀ e : Evaluation, e.MemoryAware → e.env.perfEnabled = false → e.rt = 0 →
      let T := e.memory + ((e.memory * e.margin) >>> 10)
      e.core < e.cap - T →
      e.util * (e.cap - T) ≤ e.cap * e.core ∧ e.cap * e.core < (e.util + 1) * (e.cap - T)) ∧
    ∀ e e' : Evaluation, e.MemoryAware → e'.MemoryAware → e.env.perfEnabled = true →
      e'.env.perfEnabled = true → marginDivisor e.rq ≠ 0 → marginDivisor e'.rq ≠ 0 →
      e.cap = e'.cap → e.rq.scaleFreq = e'.rq.scaleFreq → e.core ≤ e'.core →
      e.memory = e'.memory → e.rt ≤ e'.rt → e.margin ≤ e'.margin →
      e.util ≤ e'.util ∧ ∀ policy : CpufreqPolicy L, baseFreq e.env policy = baseFreq e'.env policy →
        3 * baseFreq e.env policy < 2 ^ 32 → e.raw policy ≤ e'.raw policy := by
  refine ⟨fun e h _ => h.util_bounds, ?_, ?_, ?_⟩
  · intro e e' h h' hperf hperf' hcap hcore hmemory hrt hmargin
    obtain ⟨happlied, hraised⟩ := e.margins_of_not_perf hperf
    obtain ⟨happlied', hraised'⟩ := e'.margins_of_not_perf hperf'
    have hutil := h.util_mono h' hcap hcore hmemory hrt (by rw [happlied, happlied']; exact hmargin)
    refine ⟨hutil, fun policy hbase hfreq => ?_⟩
    refine h.raw_mono h' hcap hutil (by rw [hraised, hraised']; exact hmargin) hbase ?_
    have hle : baseFreq e'.env policy * e'.raisedMargin ≤ baseFreq e'.env policy * 1024 :=
      Nat.mul_le_mul_left _ (hraised'.trans_le h'.margin_le)
    omega
  · intro e h hperf hrt T hroom
    have hutil : e.util = speed e.cap e.core T := by
      rw [h.util_eq, hrt, (e.margins_of_not_perf hperf).1, Nat.add_zero]
      exact min_eq_left (speed_le _ _ _)
    rw [hutil]
    exact speed_solves hroom
  · intro e e' h h' hperf hperf' _ _ hcap hscale hcore hmemory hrt hmargin
    obtain ⟨happlied, hraised⟩ := h.margins_of_perf hperf
    obtain ⟨happlied', hraised'⟩ := h'.margins_of_perf hperf'
    have hweighed : perfMargin (2 * e.margin) e.rq ≤ perfMargin (2 * e'.margin) e'.rq := by
      have hle := h'.margin_le
      unfold capacityMarginMaxValue at hle
      refine perfMargin_mono (by omega) (by omega) hcore h'.core_lt ?_
      rw [hscale]
      exact congrArg (· * e'.rq.scaleFreq) hmemory
    have hutil := h.util_mono h' hcap hcore hmemory.le hrt (by rw [happlied, happlied']; exact hweighed)
    refine ⟨hutil, fun policy hbase hfreq => ?_⟩
    refine h.raw_mono h' hcap hutil (by rw [hraised, hraised']; exact hweighed) hbase ?_
    have hle : baseFreq e'.env policy * e'.raisedMargin ≤ baseFreq e'.env policy * 2048 :=
      Nat.mul_le_mul_left _ h'.raisedMargin_le
    omega

/-- A CPU of capacity 1024 with the given averages, at 300 MHz of 2 GHz. -/
def memoryLoad (perf : Bool) (core memory margin : Nat) : Evaluation where
  env := { busyEnv 10000000 0 1 with
    rq := fun _ => ⟨{ idleAvg with coreUtil := ⟨0, core⟩, memoryUtil := ⟨0, memory⟩ }, 0, 0, 10000000,
      1024, 1024, 0⟩
    pemtEnabled := true
    freqEnabled := true
    perfEnabled := perf }
  tunables := ⟨2000000, 500, 2000, margin⟩
  cpu := 0

theorem memoryLoad_memoryAware (perf : Bool) {core memory margin : Nat} (hcore : core < 2 ^ 32)
    (hmemory : memory < 2 ^ 32) (hmargin : margin ≤ capacityMarginMaxValue) :
    (memoryLoad perf core memory margin).MemoryAware where
  pelt := rfl
  pemt := rfl
  freq := rfl
  cap_pos := (by decide : 0 < 1024)
  cap_le := le_refl 1024
  core_lt := hcore
  memory_lt := hmemory
  rt_lt := by
    have hrt : (memoryLoad perf core memory margin).rt = 0 := by
      simp [Evaluation.rt, sugovRt, memoryLoad, u64]
    rw [hrt]
    decide
  margin_le := hmargin

/-- A policy with the given maximal frequency. -/
def policyUpTo (maxFreq : Nat) (h : maxFreq < uintMax) : CpufreqPolicy (Nat × Nat) :=
  ⟨{0}, maxFreq, 300000, false, (300000, maxFreq), h⟩

theorem memory_aware_util_monotone_rising_load :
    (min 300 1024 ≤ (memoryLoad false 300 100 256).util ∧ (memoryLoad false 300 100 256).util ≤ 1024) ∧
    (memoryLoad false 300 100 256).raw (policyUpTo 2000000 (by decide)) ≤
      (memoryLoad false 400 200 512).raw (policyUpTo 2000000 (by decide)) ∧
    (memoryLoad false 300 100 256).util * (1024 - 125) ≤ 1024 * 300 ∧
    (memoryLoad true 300 100 256).util ≤ (memoryLoad true 400 100 512).util := by
  have hload : (memoryLoad false 300 100 256).MemoryAware :=
    memoryLoad_memoryAware false (by decide) (by decide) (by decide)
  have hmore : (memoryLoad false 400 200 512).MemoryAware :=
    memoryLoad_memoryAware false (by decide) (by decide) (by decide)
  have hperf : (memoryLoad true 300 100 256).MemoryAware :=
    memoryLoad_memoryAware true (by decide) (by decide) (by decide)
  have hperf' : (memoryLoad true 400 100 512).MemoryAware :=
    memoryLoad_memoryAware true (by decide) (by decide) (by decide)
  obtain ⟨hbounds, hmono, hsolves, hweighed⟩ := memory_aware_util_monotone (L := Nat × Nat)
  exact ⟨hbounds _ hload rfl,
    (hmono _ _ hload hmore rfl rfl rfl (by decide) (by decide) (by decide +kernel) (by decide)).2 _ rfl
      (by decide +kernel),
    (hsolves _ hload rfl (by decide +kernel) (by decide)).1,
    (hweighed _ _ hperf hperf' rfl rfl (by decide +kernel) (by decide +kernel) rfl rfl (by decide) rfl
      (by decide +kernel) (by decide)).1⟩

/-- At a frequency from 2^31 on the raised frequency is cut to 32 bits: a margin of 1/1024
lowers the request of a full CPU from the maximum to a thousandth of it. -/
theorem raw_frequency_wraps :
    (memoryLoad false 1024 0 0).raw (policyUpTo (2 ^ 32 - 2) (by decide)) = 2 ^ 32 - 2 ∧
      (memoryLoad false 1024 0 1).raw (policyUpTo (2 ^ 32 - 2) (by decide)) = 2 ^ 22 - 3 ∧
      ¬ ∀ (e e' : Evaluation) (policy : CpufreqPolicy (Nat × Nat)), e.MemoryAware → e'.MemoryAware →
        e.env.perfEnabled = false → e'.env.perfEnabled = false → e.cap = e'.cap → e.core ≤ e'.core →
        e.memory ≤ e'.memory → e.rt ≤ e'.rt → e.margin ≤ e'.margin →
        baseFreq e.env policy = baseFreq e'.env policy → e.raw policy ≤ e'.raw policy := by
  have hplain : (memoryLoad false 1024 0 0).raw (policyUpTo (2 ^ 32 - 2) (by decide)) = 2 ^ 32 - 2 := by
    decide +kernel
  have hraised : (memoryLoad false 1024 0 1).raw (policyUpTo (2 ^ 32 - 2) (by decide)) = 2 ^ 22 - 3 := by
    decide +kernel
  refine ⟨hplain, hraised, fun hall => ?_⟩
  have hle := hall (memoryLoad false 1024 0 0) (memoryLoad false 1024 0 1)
    (policyUpTo (2 ^ 32 - 2) (by decide))
    (memoryLoad_memoryAware false (by decide) (by decide) (by decide))
    (memoryLoad_memoryAware false (by decide) (by decide) (by decide))
    rfl rfl rfl (by decide) (by decide) (by decide +kernel) (by decide) rfl
  rw [hplain, hraised] at hle
  exact absurd hle (by decide)

end MSchedutil
