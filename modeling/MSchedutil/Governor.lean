import Mathlib.Data.Finset.Card
import MSchedutil.SchedAvg

/-! The data of the schedutil governor and the functions a utilisation update is
made of. What lies outside the governor (runqueues, clocks, module switches) is
an `Env`; the limits of a policy are read only by `cpufreq_driver_resolve_freq`
and stay abstract. -/

namespace MSchedutil

open Word

def uintMax : Nat := 2 ^ 32 - 1

def schedCpufreqDl : Nat := 2
def schedCpufreqIowait : Nat := 4

def nsecPerUsec : Nat := 1000

def capacityMarginMaxValue : Nat := 1024
def capacityMarginFloorFactor : Nat := 10

/-- The CPU whose utilisation drives a shared policy. -/
def workCore : Nat := 3

structure SugovTunables where
  iowaitBoostMax : Nat
  upRateLimitUs : Nat
  downRateLimitUs : Nat
  capacityMargin : Nat

/-- `struct cpufreq_policy`: a frequency in kHz never reaches the sentinel. -/
structure CpufreqPolicy (L : Type*) where
  cpus : Finset Nat
  maxFreq : Nat
  cur : Nat
  fastSwitchEnabled : Bool
  limits : L
  maxFreq_lt : maxFreq < uintMax

structure SugovPolicy (L : Type*) where
  policy : CpufreqPolicy L
  tunables : Nat
  lastFreqUpdateTime : Nat
  minRateLimitNs : Nat
  upRateDelayNs : Nat
  downRateDelayNs : Nat
  nextFreq : Nat
  cachedRawFreq : Nat
  workInProgress : Bool
  needFreqUpdate : Bool

/-- The `sg_policy` of a CPU is `NULL` until a policy with this CPU is started. -/
structure SugovCpu where
  sgPolicy? : Option Nat
  iowaitBoost : Nat
  lastUpdate : Nat
  flags : Nat
  savedIdleCalls : Nat
  deriving DecidableEq, Repr

/-- The policy of a CPU that has one. -/
def SugovCpu.sgPolicy (c : SugovCpu) : Nat := c.sgPolicy?.getD 0

@[simp] theorem SugovCpu.sgPolicy_mk (p iowaitBoost lastUpdate flags savedIdleCalls : Nat) :
    (⟨some p, iowaitBoost, lastUpdate, flags, savedIdleCalls⟩ : SugovCpu).sgPolicy = p := rfl

def SugovCpu.hasPolicy (c : SugovCpu) : Bool := c.sgPolicy?.isSome

/-- What the governor reads of a runqueue, after `sched_avg_update`. -/
structure RqView where
  avg : SchedAvg
  rtAvg : Nat
  ageStamp : Nat
  clockTask : Nat
  scaleFreq : Nat
  scaleCpu : Nat
  boostedUtil : Nat

/-- One call of a utilisation hook and the world it finds. -/
structure Env where
  time : Nat
  flags : Nat
  smpProcessorId : Nat
  idleCalls : Nat
  rq : Nat → RqView
  schedAvgPeriod : Nat
  tickNsec : Nat
  usePelt : Bool
  freqInvariant : Bool
  pemtEnabled : Bool
  freqEnabled : Bool
  perfEnabled : Bool
  cycleEnabled : Bool

/-- The counters of the cycle tracking; the two arrays are per CPU. -/
structure CycleStats where
  execTime : Nat → Nat
  execClearTime : Nat → Nat
  totalIdleTimeSum : Nat
  totalBusyTimeSum : Nat
  totalIdleCycleSum : Nat
  totalBusyCycleSum : Nat

/-- The governor of the whole machine. `hooks` says which CPUs have an update hook and
whether it is the shared one; a hook comes with an `sg_policy`, which outlives it. -/
structure Gov (L : Type*) where
  policies : Nat → SugovPolicy L
  tunables : Nat → SugovTunables
  cpus : Nat → SugovCpu
  hooks : Nat → Option Bool
  cycles : CycleStats

variable {L : Type*}

namespace Gov

/-- `sg_policy->tunables` of a CPU that has a policy. -/
def tunablesOf (g : Gov L) (cpu : Nat) : SugovTunables :=
  g.tunables (g.policies (g.cpus cpu).sgPolicy).tunables

def setPolicy (g : Gov L) (p : Nat) (sg : SugovPolicy L) : Gov L :=
  { g with policies := Function.update g.policies p sg }

def setCpu (g : Gov L) (cpu : Nat) (c : SugovCpu) : Gov L :=
  { g with cpus := Function.update g.cpus cpu c }

def setTunables (g : Gov L) (t : Nat) (tun : SugovTunables) : Gov L :=
  { g with tunables := Function.update g.tunables t tun }

@[simp] theorem setCpu_policies (g : Gov L) (cpu : Nat) (c : SugovCpu) :
    (g.setCpu cpu c).policies = g.policies := rfl

@[simp] theorem setCpu_tunables (g : Gov L) (cpu : Nat) (c : SugovCpu) :
    (g.setCpu cpu c).tunables = g.tunables := rfl

@[simp] theorem setCpu_cpus (g : Gov L) (cpu : Nat) (c : SugovCpu) :
    (g.setCpu cpu c).cpus = Function.update g.cpus cpu c := rfl

@[simp] theorem setPolicy_cpus (g : Gov L) (p : Nat) (sg : SugovPolicy L) :
    (g.setPolicy p sg).cpus = g.cpus := rfl

@[simp] theorem setPolicy_policies (g : Gov L) (p : Nat) (sg : SugovPolicy L) :
    (g.setPolicy p sg).policies = Function.update g.policies p sg := rfl

end Gov

def hasFlag (flags bit : Nat) : Bool := flags &&& bit != 0

/-- `time - t` as the `s64 delta_ns` of the source. -/
def deltaNs (time t : Nat) : Int := s64 (sub64 time t)

def sugovShouldUpdateFreq (sg : SugovPolicy L) (time : Nat) : Bool × SugovPolicy L :=
  if sg.workInProgress then (false, sg)
  else if sg.needFreqUpdate then
    (true, { sg with needFreqUpdate := false, nextFreq := uintMax })
  else (decide (deltaNs time sg.lastFreqUpdateTime ≥ sg.minRateLimitNs), sg)

def sugovUpDownRateLimit (sg : SugovPolicy L) (time nextFreq : Nat) : Bool :=
  let delta := deltaNs time sg.lastFreqUpdateTime
  if nextFreq > sg.nextFreq ∧ delta < sg.upRateDelayNs then true
  else if nextFreq < sg.nextFreq ∧ delta < sg.downRateDelayNs then true
  else false

/-- The stub the source puts in place of the fast switch. -/
def cpufreqDriverFastSwitch (_ : CpufreqPolicy L) (_ : Nat) : Nat := 0

def cpufreqEntryInvalid : Nat := uintMax

/-- `sugov_update_commit`; the second component says whether irq work was queued. -/
def sugovUpdateCommit (sg : SugovPolicy L) (time nextFreq : Nat) : SugovPolicy L × Bool :=
  if sugovUpDownRateLimit sg time nextFreq then (sg, false)
  else if sg.nextFreq = nextFreq then (sg, false)
  else
    let sg := { sg with nextFreq := nextFreq, lastFreqUpdateTime := time }
    if sg.policy.fastSwitchEnabled then
      let nextFreq := cpufreqDriverFastSwitch sg.policy nextFreq
      if nextFreq = cpufreqEntryInvalid then (sg, false)
      else ({ sg with policy := { sg.policy with cur := nextFreq } }, false)
    else ({ sg with workInProgress := true, lastFreqUpdateTime := time }, true)

/-- The margin under `pkshin_perf_enabled`, from the doubled margin. A zero
divisor gives zero, as `udiv` does. -/
def perfMargin (doubled : Nat) (rq : RqView) : Nat :=
  u64 (doubled * rq.avg.coreUtil.avg) /
    u64 (rq.avg.coreUtil.avg + (u64 (rq.avg.memoryUtil.avg * rq.scaleFreq) >>> 10))

def rawFreq (env : Env) (capacityMargin : Nat) (policy : CpufreqPolicy L) (cpu util max : Nat) :
    Nat :=
  let freq := if env.freqInvariant then policy.maxFreq else policy.cur
  let capacityMargin :=
    if env.perfEnabled then u32 (perfMargin (u32 (capacityMargin * 2)) (env.rq cpu))
    else capacityMargin
  let scaled := u64 ((u64 (freq * capacityMargin) >>> capacityMarginFloorFactor) + freq)
  u32 (u64 (scaled * util) / max)

/-- One call of `get_next_freq`, for the record. -/
structure FreqCall where
  policy : Nat
  raw : Nat
  shortcut : Bool
  freq : Nat
  deriving DecidableEq, Repr

/-- `get_next_freq` from the raw frequency on: the shortcut, or the driver's answer. -/
def cachedOrResolved (resolve : L → Nat → Nat) (sg : SugovPolicy L) (raw : Nat) :
    Bool × Nat × SugovPolicy L :=
  if raw = sg.cachedRawFreq ∧ sg.nextFreq ≠ uintMax then (true, sg.nextFreq, sg)
  else (false, resolve sg.policy.limits raw, { sg with cachedRawFreq := raw })

def getNextFreq (resolve : L → Nat → Nat) (env : Env) (t : SugovTunables) (p : Nat)
    (sg : SugovPolicy L) (cpu util max : Nat) : FreqCall × SugovPolicy L :=
  let raw := rawFreq env t.capacityMargin sg.policy cpu util max
  let (shortcut, freq, sg) := cachedOrResolved resolve sg raw
  (⟨p, raw, shortcut, freq⟩, sg)

/-- The utilisation `sugov_get_util` computes under `pkshin_pemt_enabled`. -/
def pkshinUtil (env : Env) (t : SugovTunables) (rq : RqView) (rt : Nat) : Nat :=
  let maxCap := rq.scaleCpu
  let capacityMargin :=
    if env.perfEnabled then perfMargin (u64 (t.capacityMargin * 2)) rq else t.capacityMargin
  let temp := u64 ((u64 (rq.avg.memoryUtil.avg * capacityMargin) >>> capacityMarginFloorFactor) +
    rq.avg.memoryUtil.avg)
  if maxCap > temp then
    let temp := maxCap - temp
    if temp > rq.avg.coreUtil.avg then
      min (u64 (u64 (maxCap * rq.avg.coreUtil.avg) / temp + rt)) maxCap
    else maxCap
  else maxCap

/-- `sugov_get_util`, with the tunables of the CPU's policy. -/
def sugovGetUtil (env : Env) (t : SugovTunables) (cpu : Nat) : Nat × Nat :=
  let rq := env.rq cpu
  let maxCap := rq.scaleCpu
  let delta := (deltaNs env.time rq.ageStamp).toNat
  let rt := rq.rtAvg / u64 (env.schedAvgPeriod + delta)
  let rt := u64 (rt * maxCap) >>> schedCapacityShift
  if env.usePelt then
    let util := min (u64 (rq.avg.util.avg + rt)) maxCap
    if env.pemtEnabled ∧ env.freqEnabled then (pkshinUtil env t rq rt, maxCap) else (util, maxCap)
  else (rq.boostedUtil, maxCap)

def sugovSetIowaitBoost (env : Env) (boostMax : Nat) (c : SugovCpu) : SugovCpu :=
  if hasFlag env.flags schedCpufreqIowait then { c with iowaitBoost := boostMax }
  else if c.iowaitBoost ≠ 0 ∧ deltaNs env.time c.lastUpdate > env.tickNsec then
    { c with iowaitBoost := 0 }
  else c

/-- `sugov_iowait_boost`: the boost decays, and the utilisation is raised to it. -/
def sugovIowaitBoost (boostMax : Nat) (c : SugovCpu) (util max : Nat) : SugovCpu × Nat × Nat :=
  if c.iowaitBoost = 0 then (c, util, max)
  else
    let (util', max') :=
      if u64 (util * boostMax) < u64 (max * c.iowaitBoost) then (c.iowaitBoost, boostMax)
      else (util, max)
    ({ c with iowaitBoost := c.iowaitBoost >>> 1 }, util', max')

def sugovCpuIsBusy (idleCalls : Nat) (c : SugovCpu) : Bool × SugovCpu :=
  (decide (idleCalls = c.savedIdleCalls), { c with savedIdleCalls := idleCalls })

/-- The settlement under `pkshin_cycle_enabled`: the time since the last one that no
task accounted for goes to the idle sums, the accounted time to the busy sums. -/
def CycleStats.settle (s : CycleStats) (i now scaleFreq : Nat) : CycleStats :=
  let interval := sub64 now (s.execClearTime i) >>> 10
  if interval = 0 then s
  else
    let idle := interval - s.execTime i
    { execTime := Function.update s.execTime i 0
      execClearTime := Function.update s.execClearTime i now
      totalIdleTimeSum := u64 (s.totalIdleTimeSum + idle)
      totalIdleCycleSum := u64 (s.totalIdleCycleSum + u64 (idle * scaleFreq))
      totalBusyTimeSum := u64 (s.totalBusyTimeSum + s.execTime i)
      totalBusyCycleSum := u64 (s.totalBusyCycleSum + u64 (s.execTime i * scaleFreq)) }

end MSchedutil
