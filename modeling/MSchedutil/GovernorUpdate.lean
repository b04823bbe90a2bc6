import MSchedutil.Governor

/-! The entry points of the governor: the two update hooks, start, stop, the
limits callback, the end of a frequency transition and the sysfs stores. -/

namespace MSchedutil

open Word

variable {L : Type*}

/-- What an update leaves behind: the governor, the call of `get_next_freq` it
made, and whether it queued irq work. -/
structure UpdateResult (L : Type*) where
  gov : Gov L
  call : Option FreqCall
  queued : Bool

/-- `sugov_update_commit` at policy `p`, the last act of either hook. -/
def Gov.commit (g : Gov L) (p time nextFreq : Nat) (call : Option FreqCall) : UpdateResult L :=
  let result := sugovUpdateCommit (g.policies p) time nextFreq
  ⟨g.setPolicy p result.1, call, result.2⟩

/-- The commit behind an evaluation. One that faults never gets here: nothing is committed. -/
def Gov.commitNext (g : Gov L) (p time : Nat) :
    Option (Gov L × Option FreqCall × Nat) → UpdateResult L
  | none => ⟨g, none, false⟩
  | some (g', call, nextF) => g'.commit p time nextF call

/-- The lines both hooks start with: the iowait boost and the time of the update. -/
def Gov.enterHook (g : Gov L) (env : Env) (cpu : Nat) (c : SugovCpu) : Gov L :=
  g.setCpu cpu
    { sugovSetIowaitBoost env (g.tunablesOf cpu).iowaitBoostMax c with lastUpdate := env.time }

@[simp] theorem Gov.enterHook_policies (g : Gov L) (env : Env) (cpu : Nat) (c : SugovCpu) :
    (g.enterHook env cpu c).policies = g.policies := rfl

/-- `sugov_should_update_freq` at policy `p`. -/
def Gov.shouldUpdate (g : Gov L) (p time : Nat) : Bool × Gov L :=
  let result := sugovShouldUpdateFreq (g.policies p) time
  (result.1, g.setPolicy p result.2)

/-- The utilisation a policy of its own goes by, and the CPU's boost after it. -/
def Gov.singleUtil (env : Env) (cpu : Nat) (g : Gov L) : SugovCpu × Nat × Nat :=
  let (util, max) := sugovGetUtil env (g.tunablesOf env.smpProcessorId) env.smpProcessorId
  sugovIowaitBoost (g.tunablesOf cpu).iowaitBoostMax (g.cpus cpu) util max

/-- `sugov_get_util` follows the `sg_policy` of `cpu`, which is `NULL`. -/
def Gov.utilFaults (env : Env) (cpu : Nat) (g : Gov L) : Bool :=
  env.usePelt && env.pemtEnabled && !(g.cpus cpu).hasPolicy

/-- The branch of `sugov_update_single` that evaluates the utilisation; `none` where it
dereferences `NULL`. -/
def sugovNextFreqSingle (resolve : L → Nat → Nat) (env : Env) (p cpu : Nat) (busy : Bool)
    (g : Gov L) : Option (Gov L × Option FreqCall × Nat) :=
  if g.utilFaults env env.smpProcessorId then none
  else
    let (c, util, max) := g.singleUtil env cpu
    let (call, sg) := getNextFreq resolve env (g.tunablesOf cpu) p (g.policies p)
      env.smpProcessorId util max
    -- not reduced while the CPU has not been idle
    let nextF := if busy ∧ call.freq < sg.nextFreq then sg.nextFreq else call.freq
    some ((g.setCpu cpu c).setPolicy p sg, some call, nextF)

def sugovUpdateSingle (resolve : L → Nat → Nat) (env : Env) (cpu : Nat) (g : Gov L) :
    UpdateResult L :=
  let p := (g.cpus cpu).sgPolicy
  let g := g.enterHook env cpu (g.cpus cpu)
  let (update, g) := g.shouldUpdate p env.time
  if update then
    let (busy, c) := sugovCpuIsBusy env.idleCalls (g.cpus cpu)
    let g := g.setCpu cpu c
    if hasFlag env.flags schedCpufreqDl then
      g.commit p env.time (g.policies p).policy.maxFreq none
    else g.commitNext p env.time (sugovNextFreqSingle resolve env p cpu busy g)
  else ⟨g, none, false⟩

/-- The utilisation a shared policy goes by: whatever the policy, only the work
core is looked at. An idle work core leaves CPU 0 as the one `get_next_freq` sees. -/
def Gov.sharedUtil (env : Env) (g : Gov L) : Nat × SugovCpu × Nat × Nat :=
  let j := workCore
  let util := 0
  let max := 1
  let (jUtil, jMax) := sugovGetUtil env (g.tunablesOf j) j
  let (util, max, newSharedCore) :=
    if u64 (jUtil * max) > u64 (jMax * util) then (jUtil, jMax, j) else (util, max, 0)
  (newSharedCore, sugovIowaitBoost (g.tunablesOf j).iowaitBoostMax (g.cpus j) util max)

/-- `sugov_next_freq_shared`, `none` where it dereferences `NULL`: `sugov_iowait_boost`
reads the tunables of the work core in any case. The settlement of the cycle tracking rides
along. -/
def sugovNextFreqShared (resolve : L → Nat → Nat) (env : Env) (p : Nat) (g : Gov L) :
    Option (Gov L × Option FreqCall × Nat) :=
  let j := workCore
  if hasFlag (g.cpus j).flags schedCpufreqDl then some (g, none, (g.policies p).policy.maxFreq)
  else if !(g.cpus j).hasPolicy then none
  else
    let (newSharedCore, c, util, max) := g.sharedUtil env
    let g := g.setCpu j c
    let (call, sg) := getNextFreq resolve env (g.tunables (g.policies p).tunables) p
      (g.policies p) newSharedCore util max
    let g := g.setPolicy p sg
    let cycles := if env.cycleEnabled
      then g.cycles.settle j (env.rq j).clockTask (env.rq j).scaleFreq else g.cycles
    some ({ g with cycles := cycles }, some call, call.freq)

def sugovUpdateShared (resolve : L → Nat → Nat) (env : Env) (cpu : Nat) (g : Gov L) :
    UpdateResult L :=
  let p := (g.cpus cpu).sgPolicy
  let g := g.enterHook env cpu { g.cpus cpu with flags := env.flags }
  let (update, g) := g.shouldUpdate p env.time
  if update then
    if hasFlag env.flags schedCpufreqDl then
      g.commit p env.time (g.policies p).policy.maxFreq none
    else g.commitNext p env.time (sugovNextFreqShared resolve env p g)
  else ⟨g, none, false⟩

/-- The scheduler calls the hook of a CPU, if it has one. -/
def sugovUpdate (resolve : L → Nat → Nat) (env : Env) (cpu : Nat) (g : Gov L) : UpdateResult L :=
  match g.hooks cpu with
  | none => ⟨g, none, false⟩
  | some true => sugovUpdateShared resolve env cpu g
  | some false => sugovUpdateSingle resolve env cpu g

def policyIsShared (policy : CpufreqPolicy L) : Bool := decide (1 < policy.cpus.card)

/-- `sugov_start`. The hooks of a policy are installed as one step: an update of
a CPU that has its hook already is one after the step. -/
def sugovStart (p : Nat) (g : Gov L) : Gov L :=
  let sg := g.policies p
  let t := g.tunables sg.tunables
  let up := t.upRateLimitUs * nsecPerUsec
  let down := t.downRateLimitUs * nsecPerUsec
  { g with
    policies := Function.update g.policies p { sg with
      upRateDelayNs := up
      downRateDelayNs := down
      minRateLimitNs := min up down
      lastFreqUpdateTime := 0
      nextFreq := uintMax
      workInProgress := false
      needFreqUpdate := false
      cachedRawFreq := 0 }
    tunables := Function.update g.tunables sg.tunables { t with iowaitBoostMax := sg.policy.maxFreq }
    cpus := fun c => if c ∈ sg.policy.cpus then
      { sgPolicy? := some p, iowaitBoost := 0, lastUpdate := 0, flags := schedCpufreqDl
        savedIdleCalls := 0 } else g.cpus c
    hooks := fun c => if c ∈ sg.policy.cpus then some (policyIsShared sg.policy) else g.hooks c }

/-- The part of `sugov_stop` that touches the governor: no hook of the policy is left. -/
def sugovStop (p : Nat) (g : Gov L) : Gov L :=
  { g with hooks := fun c => if c ∈ (g.policies p).policy.cpus then none else g.hooks c }

/-- What `sugov_limits` has `cpufreq_policy_apply_limits` ask `__cpufreq_driver_target` for,
under the lock of `sugov_work` and with the new limits in force. -/
def sugovLimitsTarget (applyLimits : L → Nat → Option Nat) (p : Nat) (limits : L) (g : Gov L) :
    Option Nat :=
  let policy := (g.policies p).policy
  if policy.fastSwitchEnabled then none else applyLimits limits policy.cur

/-- The new limits and the rest of `sugov_limits`, with the frequency that applying them
leads to. -/
def sugovLimits (p : Nat) (limits : L) (cur : Nat) (g : Gov L) : Gov L :=
  let sg := g.policies p
  g.setPolicy p { sg with
    policy := { sg.policy with limits := limits, cur := cur }
    needFreqUpdate := true }

/-- The call of `__cpufreq_driver_target` in `sugov_work`, and the frequency it leads to. -/
def sugovWorkTarget (p cur : Nat) (g : Gov L) : Gov L :=
  let sg := g.policies p
  g.setPolicy p { sg with policy := { sg.policy with cur := cur } }

/-- The end of `sugov_work`. -/
def sugovWorkClear (p : Nat) (g : Gov L) : Gov L :=
  g.setPolicy p { g.policies p with workInProgress := false }

/-- `update_min_rate_limit_us` -/
def updateMinRateLimitUs (sg : SugovPolicy L) : SugovPolicy L :=
  { sg with minRateLimitNs := min sg.upRateDelayNs sg.downRateDelayNs }

/-- The loop of a rate limit store over the policies that use the tunables `t`. -/
def Gov.forEachPolicy (g : Gov L) (t : Nat) (f : SugovPolicy L → SugovPolicy L) : Gov L :=
  { g with policies := fun p =>
      if (g.policies p).tunables = t then updateMinRateLimitUs (f (g.policies p))
      else g.policies p }

def upRateLimitUsStore (t rateLimitUs : Nat) (g : Gov L) : Gov L :=
  (g.setTunables t { g.tunables t with upRateLimitUs := rateLimitUs }).forEachPolicy t
    fun sg => { sg with upRateDelayNs := rateLimitUs * nsecPerUsec }

def downRateLimitUsStore (t rateLimitUs : Nat) (g : Gov L) : Gov L :=
  (g.setTunables t { g.tunables t with downRateLimitUs := rateLimitUs }).forEachPolicy t
    fun sg => { sg with downRateDelayNs := rateLimitUs * nsecPerUsec }

def iowaitBoostMaxStore (t boostMax : Nat) (g : Gov L) : Gov L :=
  g.setTunables t { g.tunables t with iowaitBoostMax := boostMax }

/-- `capacity_margin_store`: a margin above the maximum is refused. -/
def capacityMarginStore (t margin : Nat) (g : Gov L) : Gov L :=
  if margin > capacityMarginMaxValue then g
  else g.setTunables t { g.tunables t with capacityMargin := margin }

inductive GovEvent (L : Type*) where
  | start (p : Nat)
  | stop (p : Nat)
  | update (cpu : Nat) (env : Env)
  | workTarget (p cur : Nat)
  | workClear (p : Nat)
  | limits (p : Nat) (limits : L) (cur : Nat)
  | upRateLimitUs (t us : Nat)
  | downRateLimitUs (t us : Nat)
  | iowaitBoostMax (t boostMax : Nat)
  | capacityMargin (t margin : Nat)

def Gov.next (resolve : L → Nat → Nat) (g : Gov L) : GovEvent L → Gov L
  | .start p => sugovStart p g
  | .stop p => sugovStop p g
  | .update cpu env => (sugovUpdate resolve env cpu g).gov
  | .workTarget p cur => sugovWorkTarget p cur g
  | .workClear p => sugovWorkClear p g
  | .limits p limits cur => sugovLimits p limits cur g
  | .upRateLimitUs t us => upRateLimitUsStore t us g
  | .downRateLimitUs t us => downRateLimitUsStore t us g
  | .iowaitBoostMax t boostMax => iowaitBoostMaxStore t boostMax g
  | .capacityMargin t margin => capacityMarginStore t margin g

/-- No policy has been started. -/
def Gov.Unhooked (g : Gov L) : Prop := ∀ cpu, g.hooks cpu = none

/-- `sugov_policy_alloc` -/
def sugovPolicyAlloc (policy : CpufreqPolicy L) (tunables : Nat) : SugovPolicy L :=
  { policy, tunables, lastFreqUpdateTime := 0, minRateLimitNs := 0, upRateDelayNs := 0
    downRateDelayNs := 0, nextFreq := 0, cachedRawFreq := 0, workInProgress := false
    needFreqUpdate := false }

/-- The governor after `sugov_init` of every policy, with one global set of tunables. -/
def sugovInit (policies : Nat → CpufreqPolicy L) : Gov L where
  policies p := sugovPolicyAlloc (policies p) 0
  tunables _ :=
    { iowaitBoostMax := 0, upRateLimitUs := 500, downRateLimitUs := 2000, capacityMargin := 256 }
  cpus _ := { sgPolicy? := none, iowaitBoost := 0, lastUpdate := 0, flags := 0, savedIdleCalls := 0 }
  hooks _ := none
  cycles := ⟨fun _ => 0, fun _ => 0, 0, 0, 0, 0⟩

theorem sugovInit_unhooked (policies : Nat → CpufreqPolicy L) : (sugovInit policies).Unhooked :=
  fun _ => rfl

end MSchedutil
