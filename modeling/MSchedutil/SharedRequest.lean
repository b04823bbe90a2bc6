import MSchedutil.BoostRatio
import MSchedutil.PerfMargin

/-! The frequency a shared policy asks for. The loop over the policy's CPUs has become a
look at the work core, so this CPU alone is covered, whichever policy it is in. -/

namespace MSchedutil

open Word Transition

variable {L : Type*} {resolve : L → Nat → Nat}

/-- The frequency a request hands to `sugov_update_commit`; a fault leaves the one in place. -/
def Request.freq (resolve : L → Nat → Nat) (sg : SugovPolicy L) : Request → Nat
  | maximum => sg.policy.maxFreq
  | evaluated raw hold =>
    let (_, freq, sg) := cachedOrResolved resolve sg raw
    if hold ∧ freq < sg.nextFreq then sg.nextFreq else freq
  | fault => sg.nextFreq

theorem Request.admitted_sg (resolve : L → Nat → Nat) (time p : Nat) (sg : SugovPolicy L)
    (req : Request) : ∃ raw, (req.admitted resolve time p sg).sg =
      (sugovUpdateCommit { sg with cachedRawFreq := raw } time (req.freq resolve sg)).1 := by
  cases req with
  | maximum => exact ⟨sg.cachedRawFreq, rfl⟩
  | fault => exact ⟨sg.cachedRawFreq, (congrArg Prod.fst (updateCommit_nextFreq sg time)).symm⟩
  | evaluated raw hold =>
    unfold admitted freq cachedOrResolved
    dsimp only
    split
    · exact ⟨sg.cachedRawFreq, rfl⟩
    · exact ⟨raw, rfl⟩

namespace Gov

/-- One turn of the loop over the CPUs of a shared policy, for CPU `j` alone. -/
def loneUtil (env : Env) (j : Nat) (g : Gov L) : Nat × Nat :=
  let (jUtil, jMax) := sugovGetUtil env (g.tunablesOf j) j
  let (util, max) := if u64 (jUtil * 1) > u64 (jMax * 0) then (jUtil, jMax) else (0, 1)
  (sugovIowaitBoost (g.tunablesOf j).iowaitBoostMax (g.cpus j) util max).2

/-- What `get_next_freq` yields for CPU `j` alone at the policy of `cpu`, past the cache. -/
def loneFreq (resolve : L → Nat → Nat) (env : Env) (cpu j : Nat) (g : Gov L) : Nat :=
  let policy := (g.policies (g.cpus cpu).sgPolicy).policy
  resolve policy.limits (rawFreq env (g.tunablesOf cpu).capacityMargin policy j
    (g.loneUtil env j).1 (g.loneUtil env j).2)

/-- The frequency that an update of `cpu` asks for at its shared policy. -/
def requestedFreq (resolve : L → Nat → Nat) (env : Env) (cpu : Nat) (g : Gov L) : Nat :=
  (g.request true env cpu).freq resolve
    (sugovShouldUpdateFreq (g.policies (g.cpus cpu).sgPolicy) env.time).2

theorem sharedUtil_eq_loneUtil (env : Env) (g : Gov L) :
    (g.sharedUtil env).2.2 = g.loneUtil env workCore := by
  unfold sharedUtil loneUtil
  dsimp only
  split <;> rfl

/-- Two states that look the same from the policy of `cpu` and from the work core. -/
structure SameWorkCore (cpu : Nat) (env env' : Env) (g g' : Gov L) : Prop where
  scalars : env' = { env with rq := env'.rq }
  rq : env'.rq MSchedutil.workCore = env.rq MSchedutil.workCore
  sgPolicy : (g'.cpus cpu).sgPolicy = (g.cpus cpu).sgPolicy
  policy : g'.policies (g.cpus cpu).sgPolicy = g.policies (g.cpus cpu).sgPolicy
  tunables : g'.tunablesOf cpu = g.tunablesOf cpu
  workCore : g'.cpus workCore = g.cpus workCore
  workTunables : g'.tunablesOf MSchedutil.workCore = g.tunablesOf MSchedutil.workCore

end Gov

/-- Without the performance margin the raw frequency looks at no CPU. -/
theorem rawFreq_of_not_perf {env env' : Env} (hperf : env.perfEnabled = false)
    (hperf' : env'.perfEnabled = false) (hinv : env'.freqInvariant = env.freqInvariant)
    (margin : Nat) (policy : CpufreqPolicy L) (j j' util max : Nat) :
    rawFreq env' margin policy j' util max = rawFreq env margin policy j util max := by
  have hbase : baseFreq env' policy = baseFreq env policy := by
    unfold baseFreq
    rw [hinv]
  rw [rawFreq_eq, rawFreq_eq, hbase]
  unfold freqMargin
  simp only [hperf, hperf', Bool.false_eq_true, if_false]

theorem sugovGetUtil_congr {env env' : Env} (henv : env' = { env with rq := env'.rq }) {cpu : Nat}
    (hrq : env'.rq cpu = env.rq cpu) (t : SugovTunables) :
    sugovGetUtil env' t cpu = sugovGetUtil env t cpu := by
  rw [henv]
  unfold sugovGetUtil
  dsimp only
  rw [hrq]
  rfl

namespace Gov

variable {g g' : Gov L} {env env' : Env} {cpu : Nat}

theorem SameWorkCore.entered (h : SameWorkCore cpu env env' g g') :
    (g'.entered true env' cpu).cpus MSchedutil.workCore =
      (g.entered true env cpu).cpus MSchedutil.workCore := by
  unfold Gov.entered enterHook hookCpu
  simp only [if_true, setCpu_cpus]
  by_cases hcpu : MSchedutil.workCore = cpu
  · rw [← hcpu, Function.update_self, Function.update_self, h.workCore]
    have htun := h.tunables
    rw [← hcpu] at htun
    rw [htun, h.scalars]
    rfl
  · rw [Function.update_of_ne hcpu, Function.update_of_ne hcpu, h.workCore]

theorem entered_wiring (env : Env) (cpu : Nat) (g : Gov L) :
    SameWiring g (g.entered true env cpu) := SameWiring.enterHook env cpu rfl

theorem SameWorkCore.loneUtil (h : SameWorkCore cpu env env' g g') :
    (g'.entered true env' cpu).loneUtil env' MSchedutil.workCore =
      (g.entered true env cpu).loneUtil env MSchedutil.workCore := by
  unfold Gov.loneUtil
  rw [h.entered, (entered_wiring env' cpu g').tunablesOf, (entered_wiring env cpu g).tunablesOf,
    h.workTunables, sugovGetUtil_congr h.scalars h.rq]

theorem sharedRaw_eq (hperf : env.perfEnabled = false) (cpu j : Nat) (g : Gov L) :
    g.sharedRaw env cpu = rawFreq env (g.tunablesOf cpu).capacityMargin
      (g.policies (g.cpus cpu).sgPolicy).policy j (g.loneUtil env workCore).1
      (g.loneUtil env workCore).2 := by
  unfold sharedRaw
  dsimp only
  rw [sharedUtil_eq_loneUtil]
  exact rawFreq_of_not_perf hperf hperf rfl _ _ _ _ _ _

theorem SameWorkCore.request (h : SameWorkCore cpu env env' g g') (hperf : env.perfEnabled = false) :
    g'.request true env' cpu = g.request true env cpu := by
  have hperf' : env'.perfEnabled = false := by rw [h.scalars]; exact hperf
  have hflags : env'.flags = env.flags := by rw [h.scalars]
  have hinv : env'.freqInvariant = env.freqInvariant := by rw [h.scalars]
  have hraw : (g'.entered true env' cpu).sharedRaw env' cpu =
      (g.entered true env cpu).sharedRaw env cpu := by
    rw [sharedRaw_eq hperf' cpu 0, sharedRaw_eq hperf cpu 0, h.loneUtil,
      (entered_wiring env' cpu g').tunablesOf, (entered_wiring env cpu g).tunablesOf, h.tunables,
      (entered_wiring env' cpu g').sgPolicy, (entered_wiring env cpu g).sgPolicy, h.sgPolicy]
    unfold Gov.entered
    rw [enterHook_policies, enterHook_policies, h.policy]
    exact rawFreq_of_not_perf hperf hperf' hinv _ _ _ _ _ _
  unfold Gov.request
  dsimp only
  simp only [if_true, hflags]
  have hcore := congrArg SugovCpu.flags h.entered
  unfold Gov.entered at hcore hraw
  rw [hcore, hraw, h.workCore]

theorem request_shared (env : Env) (cpu : Nat) (g : Gov L) : g.request true env cpu =
    if hasFlag env.flags schedCpufreqDl = true ∨
        hasFlag ((g.entered true env cpu).cpus MSchedutil.workCore).flags schedCpufreqDl = true
    then .maximum
    else if (g.cpus MSchedutil.workCore).hasPolicy
      then .evaluated ((g.entered true env cpu).sharedRaw env cpu) false else .fault := by
  have hcode : g.request true env cpu = if hasFlag env.flags schedCpufreqDl then .maximum
      else if hasFlag ((g.entered true env cpu).cpus MSchedutil.workCore).flags schedCpufreqDl
      then .maximum
      else if (g.cpus MSchedutil.workCore).hasPolicy
        then .evaluated ((g.entered true env cpu).sharedRaw env cpu) false else .fault := rfl
  rw [hcode]
  cases hasFlag env.flags schedCpufreqDl with
  | true => simp
  | false => simp

end Gov

/-- An update of a shared policy that is let through asks for the maximum on a deadline flag of
its own or of the work core, and otherwise for what the work core alone demands, if the work
core has an `sg_policy`: without one it faults and commits nothing. Whatever the other CPUs do,
in or out of the policy, moves the request only with the performance margin. -/
theorem shared_request_follows_work_core {g : Gov L} {cpu : Nat} (hhook : g.hooks cpu = some true)
    {env : Env} (hallowed :
      (sugovShouldUpdateFreq (g.policies (g.cpus cpu).sgPolicy) env.time).1 = true) :
    let sg := (sugovShouldUpdateFreq (g.policies (g.cpus cpu).sgPolicy) env.time).2
    let entered := g.entered true env cpu
    let deadline := hasFlag env.flags schedCpufreqDl ∨
      hasFlag (entered.cpus workCore).flags schedCpufreqDl
    (deadline ∨ (g.cpus workCore).hasPolicy →
      ∃ raw, (sugovUpdate resolve env cpu g).gov.policies (g.cpus cpu).sgPolicy =
        (sugovUpdateCommit { sg with cachedRawFreq := raw } env.time
          (g.requestedFreq resolve env cpu)).1) ∧
    (¬ deadline → (g.cpus workCore).hasPolicy = false →
      (sugovUpdate resolve env cpu g).gov.policies (g.cpus cpu).sgPolicy = sg ∧
        (sugovUpdate resolve env cpu g).queued = false) ∧
    (deadline → g.requestedFreq resolve env cpu = sg.policy.maxFreq) ∧
    (¬ deadline → (g.cpus workCore).hasPolicy → env.perfEnabled = false → sg.nextFreq = uintMax →
      g.requestedFreq resolve env cpu = entered.loneFreq resolve env cpu workCore) ∧
    ∀ g' env', Gov.SameWorkCore cpu env env' g g' → env.perfEnabled = false →
      g'.requestedFreq resolve env' cpu = g.requestedFreq resolve env cpu := by
  intro sg entered deadline
  refine ⟨fun _ => ?_, fun hdl hnone => ?_, fun hdl => ?_, fun hdl hpol hperf hempty => ?_,
    fun g' env' hsame hperf => ?_⟩
  · obtain ⟨raw, hraw⟩ := Request.admitted_sg resolve env.time (g.cpus cpu).sgPolicy sg
      (g.request true env cpu)
    refine ⟨raw, ?_⟩
    rw [(serves_update resolve env hhook).sg]
    unfold Request.serve
    dsimp only
    rw [if_pos hallowed]
    exact hraw
  · have hfault : g.request true env cpu = .fault := by
      rw [Gov.request_shared, if_neg hdl, hnone]
      rfl
    have hs := serves_update resolve env hhook
    rw [hs.sg, hs.queued, hfault]
    unfold Request.serve
    dsimp only
    rw [if_pos hallowed]
    exact ⟨rfl, rfl⟩
  · unfold Gov.requestedFreq
    rw [Gov.request_shared, if_pos hdl]
    rfl
  · have hpolicy : sg.policy = (entered.policies (entered.cpus cpu).sgPolicy).policy := by
      rw [(Gov.entered_wiring env cpu g).sgPolicy]
      exact shouldUpdate_policy _ _
    unfold Gov.requestedFreq Gov.loneFreq
    rw [Gov.request_shared, if_neg hdl, if_pos hpol, Gov.sharedRaw_eq hperf cpu workCore]
    have hmiss : ∀ raw, cachedOrResolved resolve sg raw =
        (false, resolve sg.policy.limits raw, { sg with cachedRawFreq := raw }) := by
      intro raw
      simp [cachedOrResolved, hempty]
    unfold Request.freq
    dsimp only
    rw [show (sugovShouldUpdateFreq (g.policies (g.cpus cpu).sgPolicy) env.time).2 = sg from rfl, hmiss,
      ← hpolicy]
    simp only [Bool.false_eq_true, false_and, if_false]
    rfl
  · have htime : env'.time = env.time := by rw [hsame.scalars]
    unfold Gov.requestedFreq
    rw [hsame.request hperf, hsame.sgPolicy, hsame.policy, htime]

/-- CPU `cpu` has utilisation `util`, every other CPU none. -/
def loadEnv (time cpu util : Nat) : Env :=
  { busyEnv time 0 1 with
    rq := fun c => if c = cpu then (busyEnv time util 1).rq 0 else (busyEnv time 0 1).rq 0 }

/-- An update of CPU 3, some events, and new limits that make the first policy forget its
frequency. -/
def sharing (events : List (GovEvent (Nat × Nat))) : List (GovEvent (Nat × Nat)) :=
  [.start 0, .update 3 (loadEnv 10000000 0 0), .workTarget 0 300000, .workClear 0] ++ events ++
    [.limits 0 (300000, 2000000) 300000]

/-- The machine on which CPUs 0 and 3 share a policy. -/
def twoCores (es : List (GovEvent (Nat × Nat))) : Gov (Nat × Nat) :=
  run (Gov.next clampFreq) (machine {0, 3}) es

theorem twoClusters_maxFreq_lt : 2000000 < uintMax := by decide

/-- Of two policies the second has the work core; both have been started, and new limits of
the first have made it forget its frequency. -/
def twoClusters : Gov (Nat × Nat) :=
  run (Gov.next clampFreq)
    (sugovInit fun p => ⟨if p = 0 then {0, 1} else {2, 3}, 2000000, 300000, false, (300000, 2000000),
      twoClusters_maxFreq_lt⟩)
    [.start 0, .start 1, .update 3 (loadEnv 10000000 0 0), .workTarget 1 300000, .workClear 1,
      .limits 0 (300000, 2000000) 300000]

theorem shared_request_busy_core :
    (twoCores (sharing [])).requestedFreq clampFreq (loadEnv 20000000 3 512) 0 =
      ((twoCores (sharing [])).entered true (loadEnv 20000000 3 512) 0).loneFreq clampFreq
        (loadEnv 20000000 3 512) 0 workCore := by
  have hhook : (twoCores (sharing [])).hooks 0 = some true := by decide +kernel
  have hallowed : (sugovShouldUpdateFreq ((twoCores (sharing [])).policies
      ((twoCores (sharing [])).cpus 0).sgPolicy) (loadEnv 20000000 3 512).time).1 = true := by
    decide +kernel
  exact (shared_request_follows_work_core hhook hallowed).2.2.2.1 (by decide +kernel)
    (by decide +kernel) rfl (by decide +kernel)

/-- The last update of CPU 0 was for a deadline task. -/
def deadlineShared : Gov (Nat × Nat) :=
  twoCores (sharing
    [.update 0 { loadEnv 15000000 0 1024 with flags := schedCpufreqDl }, .workClear 0])

/-- With CPU 0 fully loaded, or just updated with a deadline flag, and the work core idle the
request is the minimum; and a policy of CPUs 0 and 1 goes by the load of the work core, which
belongs to another. -/
theorem shared_request_misses_other_cpus :
    ((twoCores (sharing [])).requestedFreq clampFreq (loadEnv 20000000 0 1024) 0 = 300000 ∧
      ((twoCores (sharing [])).entered true (loadEnv 20000000 0 1024) 0).loneFreq clampFreq
        (loadEnv 20000000 0 1024) 0 0 = 2000000) ∧
    (hasFlag (deadlineShared.cpus 0).flags schedCpufreqDl = true ∧
      deadlineShared.requestedFreq clampFreq (loadEnv 20000000 0 1024) 3 = 300000) ∧
    ((twoClusters.policies (twoClusters.cpus 1).sgPolicy).policy.cpus = {0, 1} ∧
      (twoClusters.cpus workCore).hasPolicy = true ∧
      twoClusters.requestedFreq clampFreq (loadEnv 20000000 3 0) 1 = 300000 ∧
      twoClusters.requestedFreq clampFreq (loadEnv 20000000 3 1024) 1 = 2000000) ∧
    ¬ ∀ (es : List (GovEvent (Nat × Nat))) (cpu : Nat) (env : Env),
      (twoCores es).hooks cpu = some true →
      (sugovShouldUpdateFreq ((twoCores es).policies ((twoCores es).cpus cpu).sgPolicy) env.time).1 =
        true →
      env.perfEnabled = false →
      (sugovShouldUpdateFreq ((twoCores es).policies ((twoCores es).cpus cpu).sgPolicy)
        env.time).2.nextFreq = uintMax →
      (∀ j ∈ ((twoCores es).policies ((twoCores es).cpus cpu).sgPolicy).policy.cpus,
        hasFlag (((twoCores es).entered true env cpu).cpus j).flags schedCpufreqDl = false) →
      ∀ j ∈ ((twoCores es).policies ((twoCores es).cpus cpu).sgPolicy).policy.cpus,
        ((twoCores es).entered true env cpu).loneFreq clampFreq env cpu j ≤
          (twoCores es).requestedFreq clampFreq env cpu := by
  have hlow : (twoCores (sharing [])).requestedFreq clampFreq (loadEnv 20000000 0 1024) 0 = 300000 := by
    decide +kernel
  have hlone : ((twoCores (sharing [])).entered true (loadEnv 20000000 0 1024) 0).loneFreq clampFreq
      (loadEnv 20000000 0 1024) 0 0 = 2000000 := by decide +kernel
  refine ⟨⟨hlow, hlone⟩, ⟨by decide +kernel, by decide +kernel⟩,
    ⟨by decide +kernel, by decide +kernel, by decide +kernel, by decide +kernel⟩, fun hall => ?_⟩
  have hle := hall (sharing []) 0 (loadEnv 20000000 0 1024) (by decide +kernel)
    (by decide +kernel) rfl (by decide +kernel) (by decide +kernel) 0 (by decide +kernel)
  rw [hlow, hlone] at hle
  exact absurd hle (by decide)

end MSchedutil
