import MSchedutil.BoostRatio
import MSchedutil.MemoryAware

/-! The two margins of one evaluation of `sugov_next_freq_shared`: one goes into the
utilisation of the work core, the other into the frequency made of it. -/

namespace MSchedutil

open Word Transition

variable {L : Type*} {resolve : L → Nat → Nat}

namespace Gov

/-- No tunables hold a margin that `capacity_margin_store` would refuse. -/
def MarginsAccepted (g : Gov L) : Prop :=
  ∀ t, (g.tunables t).capacityMargin ≤ capacityMarginMaxValue

theorem MarginsAccepted.setTunables {g : Gov L} (h : g.MarginsAccepted) (t : Nat)
    {tun : SugovTunables} (htun : tun.capacityMargin ≤ capacityMarginMaxValue) :
    (g.setTunables t tun).MarginsAccepted := by
  intro q
  by_cases hq : q = t
  · subst hq
    simpa [Gov.setTunables] using htun
  · simpa [Gov.setTunables, hq] using h q

theorem MarginsAccepted.next {g : Gov L} (h : g.MarginsAccepted) (e : GovEvent L) :
    (g.next resolve e).MarginsAccepted := by
  cases e with
  | start p => exact h.setTunables _ (h _)
  | stop p | workTarget p cur | workClear p | limits p limits cur => exact h
  | update cpu env =>
    cases hh : g.hooks cpu with
    | none => simpa only [Gov.next, sugovUpdate, hh] using h
    | some shared =>
      intro t
      rw [show (g.next resolve (.update cpu env)).tunables = g.tunables from
        (serves_update resolve env hh).wiring.tunables]
      exact h t
  | upRateLimitUs t us | downRateLimitUs t us | iowaitBoostMax t us => exact h.setTunables t (h t)
  | capacityMargin t margin =>
    unfold Gov.next capacityMarginStore
    dsimp only
    split
    · exact h
    · rename_i hle
      exact h.setTunables t (not_lt.mp hle)

/-- The store is the only way to a margin, so every run has accepted ones only. -/
theorem marginsAccepted_run (resolve : L → Nat → Nat) (policies : Nat → CpufreqPolicy L)
    (es : List (GovEvent L)) : (run (Gov.next resolve) (sugovInit policies) es).MarginsAccepted := by
  have hes : Along (Gov.next resolve) (fun _ _ => True) (sugovInit policies) es :=
    along_of_forall (fun _ _ _ => trivial) _
  have hinit : (256 : Nat) ≤ capacityMarginMaxValue := by decide
  exact hes.invariant (fun _ e h _ => h.next e) fun _ => hinit

/-- An evaluation gets to a pair that a CPU produced: the utilisation of the work core was
taken, or its boost replaced what there was. -/
def PairProduced (env : Env) (g : Gov L) : Prop :=
  (g.cpus workCore).hasPolicy = true ∧
    let plain := g.plainUtil true env
    let boost := (g.cpus workCore).iowaitBoost
    u64 ((sugovGetUtil env (g.tunablesOf workCore) workCore).1 * 1) >
        u64 ((sugovGetUtil env (g.tunablesOf workCore) workCore).2 * 0) ∨
      boost ≠ 0 ∧
        u64 (plain.1 * (g.tunablesOf workCore).iowaitBoostMax) < u64 (plain.2 * boost)

/-- In an evaluation for policy `p` whose pair a CPU produced, `get_next_freq` looks at this
CPU, and applies the margin that `sugov_get_util` computed its utilisation with, if any. -/
structure MarginsAgree (env : Env) (p : Nat) (g : Gov L) : Prop where
  sameCpu : g.PairProduced env → (g.sharedUtil env).1 = workCore
  sameMargin : g.PairProduced env → env.usePelt = true →
    freqMargin env (g.tunables (g.policies p).tunables).capacityMargin (g.sharedUtil env).1 =
      utilMargin env (g.tunablesOf workCore).capacityMargin (env.rq workCore)

end Gov

/-- Capacity, averages and the share of the other classes are in range, and the load by which
the margin is divided is not zero. -/
structure Env.InRange (env : Env) (cpu : Nat) : Prop extends (env.rq cpu).Readable where
  cap_pos : 0 < (env.rq cpu).scaleCpu
  cap_le : (env.rq cpu).scaleCpu ≤ schedCapacityScale
  util_lt : (env.rq cpu).avg.util.avg < 2 ^ 32
  boosted_lt : (env.rq cpu).boostedUtil < 2 ^ 64
  rt_lt : sugovRt env cpu < 2 ^ 32
  divisor : marginDivisor (env.rq cpu) ≠ 0

/-- A CPU with some load to show: under `use_pelt()` other classes, and with the memory-aware
rule core time or memory time that fills the capacity. -/
def Env.ShowsLoad (env : Env) (cpu : Nat) : Prop :=
  let rq := env.rq cpu
  if env.usePelt then
    0 < sugovRt env cpu ∨
      if env.freqEnabled then 0 < rq.avg.coreUtil.avg ∨ rq.scaleCpu ≤ rq.avg.memoryUtil.avg
      else 0 < rq.avg.util.avg
  else 0 < rq.boostedUtil

/-- Two margins, doubled and weighed with the core's share of the load: what one is above the
other does not fill up what the division leaves of the lower one. -/
def WeighTogether (margin margin' : Nat) (rq : RqView) : Prop :=
  let core := rq.avg.coreUtil.avg
  let load := core + rq.avg.memoryUtil.avg * rq.scaleFreq / 1024
  2 * margin * core % load + (2 * margin' * core - 2 * margin * core) < load ∧
    2 * margin' * core % load + (2 * margin * core - 2 * margin' * core) < load

theorem div_eq_div_of_le_iff {a b d : Nat} (hd : 0 < d) (hab : a ≤ b) :
    a / d = b / d ↔ a % d + (b - a) < d := by
  have hb : b = d * (a / d) + (a % d + (b - a)) := by
    have ha := Nat.div_add_mod a d
    omega
  have hquot : b / d = a / d + (a % d + (b - a)) / d := by
    conv_lhs => rw [hb]
    exact Nat.mul_add_div hd _ _
  rw [hquot, ← Nat.div_eq_zero_iff_lt hd]
  omega

theorem perfMargin_eq_iff {margin margin' : Nat} {rq : RqView} (h : rq.Readable)
    (hdiv : marginDivisor rq ≠ 0) (hm : margin ≤ capacityMarginMaxValue)
    (hm' : margin' ≤ capacityMarginMaxValue) :
    perfMargin (2 * margin) rq = perfMargin (2 * margin') rq ↔ WeighTogether margin margin' rq := by
  have hcore := h.core_lt
  have hfit : ∀ m ≤ capacityMarginMaxValue, u64 (2 * m * rq.avg.coreUtil.avg) =
      2 * m * rq.avg.coreUtil.avg := by
    intro m hle
    have hprod : 2 * m * rq.avg.coreUtil.avg ≤ 2 * capacityMarginMaxValue * 2 ^ 32 :=
      Nat.mul_le_mul (Nat.mul_le_mul_left 2 hle) hcore.le
    unfold capacityMarginMaxValue at hprod
    exact u64_of_lt (by omega)
  have hpos : 0 < rq.avg.coreUtil.avg + rq.avg.memoryUtil.avg * rq.scaleFreq / 1024 := by
    rw [← h.marginDivisor_eq]
    exact Nat.pos_of_ne_zero hdiv
  rw [perfMargin_eq, perfMargin_eq, hfit _ hm, hfit _ hm', h.marginDivisor_eq]
  unfold WeighTogether
  dsimp only
  generalize 2 * margin * rq.avg.coreUtil.avg = a
  generalize 2 * margin' * rq.avg.coreUtil.avg = b
  generalize rq.avg.coreUtil.avg + rq.avg.memoryUtil.avg * rq.scaleFreq / 1024 = d at hpos
  have hmod := Nat.mod_lt b hpos
  have hmod' := Nat.mod_lt a hpos
  rcases le_total a b with hab | hba
  · rw [div_eq_div_of_le_iff hpos hab]
    omega
  · rw [eq_comm, div_eq_div_of_le_iff hpos hba]
    omega

namespace Env.InRange

variable {env : Env} {cpu : Nat}

/-- The memory-aware rule yields no utilisation for a CPU without core time, other classes and
memory time to fill it: the margin of such a CPU is zero. -/
theorem memoryAware_pos_iff (h : env.InRange cpu) (hpelt : env.usePelt = true)
    (hpemt : env.pemtEnabled = true) (hfreq : env.freqEnabled = true)
    (hperf : env.perfEnabled = true) {t : SugovTunables}
    (ht : t.capacityMargin ≤ capacityMarginMaxValue) :
    0 < (sugovGetUtil env t cpu).1 ↔ 0 < sugovRt env cpu ∨ 0 < (env.rq cpu).avg.coreUtil.avg ∨
      (env.rq cpu).scaleCpu ≤ (env.rq cpu).avg.memoryUtil.avg := by
  have haware : Evaluation.MemoryAware ⟨env, t, cpu⟩ :=
    ⟨hpelt, hpemt, hfreq, h.cap_pos, h.cap_le, h.core_lt, h.memory_lt, h.rt_lt, ht⟩
  have hpos := h.cap_pos
  rw [show (sugovGetUtil env t cpu).1 = (⟨env, t, cpu⟩ : Evaluation).util from rfl, haware.util_eq,
    lt_min_iff, Nat.add_pos_iff_pos_or_pos, Balance.speed_pos_iff]
  have hfixed : (env.rq cpu).avg.coreUtil.avg = 0 →
      Evaluation.stretched (env.rq cpu).avg.memoryUtil.avg
        (Evaluation.appliedMargin ⟨env, t, cpu⟩) = (env.rq cpu).avg.memoryUtil.avg := by
    intro hzero
    have hmargin : Evaluation.appliedMargin ⟨env, t, cpu⟩ = 0 := by
      unfold Evaluation.appliedMargin utilMargin
      rw [if_pos hperf, show Evaluation.margin ⟨env, t, cpu⟩ = t.capacityMargin from rfl,
        getUtilMargin_eq ht, perfMargin_eq, show (Evaluation.rq ⟨env, t, cpu⟩) = env.rq cpu from rfl,
        hzero, Nat.mul_zero, show u64 0 = 0 from rfl, Nat.zero_div]
    rw [hmargin]
    simp [Evaluation.stretched]
  have hcode : (⟨env, t, cpu⟩ : Evaluation).rt = sugovRt env cpu ∧
      (⟨env, t, cpu⟩ : Evaluation).cap = (env.rq cpu).scaleCpu ∧
      (⟨env, t, cpu⟩ : Evaluation).core = (env.rq cpu).avg.coreUtil.avg ∧
      (⟨env, t, cpu⟩ : Evaluation).memory = (env.rq cpu).avg.memoryUtil.avg := ⟨rfl, rfl, rfl, rfl⟩
  rw [hcode.1, hcode.2.1, hcode.2.2.1, hcode.2.2.2]
  rcases Nat.eq_zero_or_pos (env.rq cpu).avg.coreUtil.avg with hzero | hsome
  · rw [hfixed hzero]
    omega
  · omega

/-- `sugov_get_util` finds a utilisation exactly where there is a load to show. -/
theorem sugovGetUtil_pos_iff (h : env.InRange cpu) (hpemt : env.pemtEnabled = true)
    (hperf : env.perfEnabled = true) {t : SugovTunables}
    (ht : t.capacityMargin ≤ capacityMarginMaxValue) :
    0 < u64 (sugovGetUtil env t cpu).1 ↔ env.ShowsLoad cpu := by
  unfold Env.ShowsLoad
  dsimp only
  cases hpelt : env.usePelt with
  | false =>
    have hcode : (sugovGetUtil env t cpu).1 = (env.rq cpu).boostedUtil := by
      simp [sugovGetUtil, hpelt]
    rw [hcode, u64_of_lt h.boosted_lt]
    simp
  | true =>
    have hle : (sugovGetUtil env t cpu).1 ≤ (env.rq cpu).scaleCpu := sugovGetUtil_le t hpelt cpu
    have hcap := h.cap_le
    unfold schedCapacityScale at hcap
    rw [u64_of_lt (by omega)]
    cases hfreq : env.freqEnabled with
    | true => simpa using h.memoryAware_pos_iff hpelt hpemt hfreq hperf ht
    | false =>
      have hutil := h.util_lt
      have hrt := h.rt_lt
      have hpos := h.cap_pos
      have hcode : (sugovGetUtil env t cpu).1 =
          min (u64 ((env.rq cpu).avg.util.avg + sugovRt env cpu)) (env.rq cpu).scaleCpu := by
        simp [sugovGetUtil, sugovRt, hpelt, hfreq]
      rw [hcode, u64_of_lt (by omega)]
      simp only [if_true, Bool.false_eq_true, if_false]
      omega

end Env.InRange

/-- The work core is looked at unless its utilisation is zero. -/
theorem sharedUtil_fst (env : Env) (g : Gov L) : (g.sharedUtil env).1 =
    if u64 (sugovGetUtil env (g.tunablesOf workCore) workCore).1 = 0 then 0 else workCore := by
  unfold Gov.sharedUtil
  dsimp only
  rw [Nat.mul_one, Nat.mul_zero, show u64 0 = 0 from rfl]
  by_cases h : u64 (sugovGetUtil env (g.tunablesOf workCore) workCore).1 = 0
  · rw [if_neg (by rw [h]; decide), if_pos h]
  · rw [if_pos (Nat.pos_of_ne_zero h), if_neg h]

theorem pairProduced_iff (env : Env) (g : Gov L) : g.PairProduced env ↔
    (g.cpus workCore).hasPolicy = true ∧
      (0 < u64 (sugovGetUtil env (g.tunablesOf workCore) workCore).1 ∨
        u64 (g.cpus workCore).iowaitBoost ≠ 0) := by
  unfold Gov.PairProduced Gov.plainUtil
  refine and_congr_right fun _ => ?_
  dsimp only
  simp only [if_true, Nat.mul_one, Nat.mul_zero, show u64 0 = 0 from rfl]
  by_cases hutil : 0 < u64 (sugovGetUtil env (g.tunablesOf workCore) workCore).1
  · exact iff_of_true (.inl hutil) (.inl hutil)
  · rw [if_neg hutil]
    simp only [hutil, false_or, Nat.zero_mul, Nat.one_mul, show u64 0 = 0 from rfl]
    constructor
    · exact fun h => h.2.ne'
    · intro h
      refine ⟨fun hzero => h (by rw [hzero]; rfl), Nat.pos_of_ne_zero h⟩

/-- CPUs 0 and 3 share a policy; an update of CPU 3 for an I/O wait has left a boost. -/
def ioWaited : Gov (Nat × Nat) :=
  run (Gov.next clampFreq) (machine {0, 3})
    [.start 0, .update 3 { busyEnv 10000000 0 1 with flags := schedCpufreqIowait }]

/-- CPU 0 has core load only, CPU 3 the given one. -/
def splitLoadEnv (core memory : Nat) : Env :=
  { busyEnv 11000000 0 1 with
    rq := fun cpu => if cpu = 0
      then ⟨{ idleAvg with coreUtil := ⟨0, 500⟩ }, 0, 0, 11000000, 1024, 1024, 0⟩
      else ⟨{ idleAvg with coreUtil := ⟨0, core⟩, memoryUtil := ⟨0, memory⟩ }, 0, 0, 11000000, 1024, 1024, 0⟩
    pemtEnabled := true
    freqEnabled := true
    perfEnabled := true }

end MSchedutil
