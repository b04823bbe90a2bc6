import MSchedutil.FreqCache

/-! The update a limits change asks for. Forgetting `next_freq` opens the cached
path and the no-change test, but the down rate limit and the busy rule compare
with the sentinel as if it were the highest frequency. -/

namespace MSchedutil

open Transition

variable {L : Type*} {resolve : L → Nat → Nat}

/-- New limits wait for a frequency, and nothing is in flight on the slow path. -/
structure SugovPolicy.ForcePending (sg : SugovPolicy L) : Prop where
  need : sg.needFreqUpdate = true
  idle : sg.workInProgress = false
  slow : sg.policy.fastSwitchEnabled = false

/-- The update committed a frequency and queued the irq work that will set it. -/
def UpdateResult.Commits (p : Nat) (r : UpdateResult L) : Prop :=
  r.queued = true ∧ (r.gov.policies p).nextFreq ≠ uintMax

/-- Without a deadline task an update has to get through its evaluation: on a shared policy
that of the work core, which has an `sg_policy` or a deadline flag of its own, on a policy of
one CPU that of a CPU that has been idle. -/
def Gov.Evaluable (g : Gov L) (shared : Bool) (cpu : Nat) (env : Env) : Prop :=
  if shared then
    hasFlag ((g.entered true env cpu).cpus workCore).flags schedCpufreqDl = true ∨
      (g.cpus workCore).hasPolicy = true
  else env.idleCalls ≠ (g.cpus cpu).savedIdleCalls ∧ g.utilFaults env env.smpProcessorId = false

/-- The pause and the evaluation without which the force request is lost. -/
def Gov.LetsThrough (g : Gov L) (shared : Bool) (cpu : Nat) (env : Env) : Prop :=
  let sg := g.policies (g.cpus cpu).sgPolicy
  sg.downRateDelayNs ≤ deltaNs env.time sg.lastFreqUpdateTime ∧
    (hasFlag env.flags schedCpufreqDl = true ∨ g.Evaluable shared cpu env)

def SugovPolicy.forgotten (sg : SugovPolicy L) : SugovPolicy L :=
  { sg with needFreqUpdate := false, nextFreq := uintMax }

theorem SugovPolicy.ForcePending.shouldUpdate {sg : SugovPolicy L} (h : sg.ForcePending)
    (time : Nat) : sugovShouldUpdateFreq sg time = (true, sg.forgotten) := by
  simp [sugovShouldUpdateFreq, h.idle, h.need, SugovPolicy.forgotten]

/-- Against the sentinel every frequency is a reduction. -/
theorem upDownRateLimit_of_forgotten {sg : SugovPolicy L} (h : sg.nextFreq = uintMax) {f : Nat}
    (hf : f < uintMax) (time : Nat) :
    sugovUpDownRateLimit sg time f = decide (deltaNs time sg.lastFreqUpdateTime <
      sg.downRateDelayNs) := by
  unfold sugovUpDownRateLimit
  rw [h]
  have hnot : ¬ f > uintMax := by omega
  simp [hnot, hf]

theorem grant_forgotten_iff (sg : SugovPolicy L) (h : sg.nextFreq = uintMax)
    (hslow : sg.policy.fastSwitchEnabled = false) {f : Nat} (hf : f < uintMax) (time : Nat)
    (call : Option FreqCall) :
    ((Request.grant time f sg call).queued = true ∧
        (Request.grant time f sg call).sg.nextFreq ≠ uintMax) ↔
      sg.downRateDelayNs ≤ deltaNs time sg.lastFreqUpdateTime := by
  have hlim := upDownRateLimit_of_forgotten h hf time
  rcases updateCommit_cases sg time f with ⟨-, hq, hr | he⟩ | ⟨hn, hq, -, -, -, -, hr, -⟩
  · rw [hlim] at hr
    simp only [Request.grant, hq, Bool.false_eq_true, false_and, false_iff]
    simpa using hr
  · omega
  · rw [hlim] at hr
    simp only [Request.grant, hq, hn, hslow, Bool.not_false, true_and]
    have hdelta : sg.downRateDelayNs ≤ deltaNs time sg.lastFreqUpdateTime := by simpa using hr
    simp [hdelta, hf.ne]

/-- Whether a request gets through once `next_freq` is forgotten. -/
theorem admitted_forgotten_iff (hres : ∀ l f, resolve l f < uintMax) (sg : SugovPolicy L)
    (h : sg.nextFreq = uintMax) (hslow : sg.policy.fastSwitchEnabled = false) (time p : Nat)
    (req : Request) :
    ((req.admitted resolve time p sg).queued = true ∧
        (req.admitted resolve time p sg).sg.nextFreq ≠ uintMax) ↔
      sg.downRateDelayNs ≤ deltaNs time sg.lastFreqUpdateTime ∧
        req ≠ .fault ∧ ∀ raw, req ≠ .evaluated raw true := by
  cases req with
  | fault =>
    rw [show Request.fault.admitted resolve time p sg = ⟨sg, none, false⟩ from rfl]
    simp
  | maximum =>
    rw [show Request.maximum.admitted resolve time p sg =
      Request.grant time sg.policy.maxFreq sg none from rfl,
      grant_forgotten_iff sg h hslow sg.policy.maxFreq_lt]
    simp
  | evaluated raw hold =>
    have hlong : cachedOrResolved resolve sg raw =
        (false, resolve sg.policy.limits raw, { sg with cachedRawFreq := raw }) := by
      simp [cachedOrResolved, h]
    have hlt : resolve sg.policy.limits raw < sg.nextFreq := h ▸ hres _ _
    simp only [Request.admitted, hlong]
    cases hold with
    | false =>
      simp only [Bool.false_eq_true, false_and, if_false]
      have hg := grant_forgotten_iff { sg with cachedRawFreq := raw } h hslow
        (hres sg.policy.limits raw) time
          (some ⟨p, raw, false, resolve sg.policy.limits raw⟩)
      rw [hg]
      simp
    | true =>
      have hq := congrArg Prod.snd (updateCommit_nextFreq { sg with cachedRawFreq := raw } time)
      simp only [true_and, hlt, if_true, Request.grant, hq, Bool.false_eq_true, false_and, false_iff]
      intro hall
      exact hall.2.2 raw rfl

/-- A hook is installed together with the `sg_policy` of its CPU. -/
def Gov.HooksHavePolicy (g : Gov L) : Prop :=
  ∀ cpu, g.hooks cpu ≠ none → (g.cpus cpu).hasPolicy = true

theorem Gov.HooksHavePolicy.next {g : Gov L} (h : g.HooksHavePolicy) (e : GovEvent L) :
    (g.next resolve e).HooksHavePolicy := by
  cases e with
  | start p =>
    intro cpu hc
    by_cases hcpu : cpu ∈ (g.policies p).policy.cpus
    · simp [Gov.next, sugovStart, hcpu, SugovCpu.hasPolicy]
    · simp only [Gov.next, sugovStart, hcpu, if_false] at hc ⊢
      exact h cpu hc
  | stop p =>
    intro cpu hc
    by_cases hcpu : cpu ∈ (g.policies p).policy.cpus
    · simp [Gov.next, sugovStop, hcpu] at hc
    · simp only [Gov.next, sugovStop, hcpu, if_false] at hc
      exact h cpu hc
  | update cpu env =>
    cases hh : g.hooks cpu with
    | none => simpa only [Gov.next, sugovUpdate, hh] using h
    | some shared =>
      have hwire := (serves_update resolve env hh).wiring
      intro c hc
      rw [show (g.next resolve (.update cpu env)).cpus c =
        ((sugovUpdate resolve env cpu g).gov.cpus c) from rfl, hwire.hasPolicy]
      exact h c (by rwa [← hwire.hooks])
  | capacityMargin t margin =>
    unfold Gov.next capacityMarginStore
    dsimp only
    split
    · exact h
    · exact h
  | workTarget p cur | workClear p | limits p limits cur | upRateLimitUs t us
  | downRateLimitUs t us | iowaitBoostMax t boostMax => exact h

/-- A hooked CPU has an `sg_policy` in every run, so an evaluation on this CPU finds one. -/
theorem utilFaults_of_hooked {policies : Nat → CpufreqPolicy L} {es : List (GovEvent L)} {cpu : Nat}
    (h : (run (Gov.next resolve) (sugovInit policies) es).hooks cpu ≠ none) (env : Env) :
    (run (Gov.next resolve) (sugovInit policies) es).utilFaults env cpu = false := by
  have hes : Along (Gov.next resolve) (fun _ _ => True) (sugovInit policies) es :=
    along_of_forall (fun _ _ _ => trivial) _
  have hall := hes.invariant (I := Gov.HooksHavePolicy) (fun _ e h _ => h.next e)
    fun cpu hc => absurd (sugovInit_unhooked policies cpu) hc
  unfold Gov.utilFaults
  rw [hall cpu h, Bool.not_true, Bool.and_false]

theorem letsThrough_request_iff (g : Gov L) (shared : Bool) (cpu : Nat) (env : Env) :
    (g.request shared env cpu ≠ .fault ∧ ∀ raw, g.request shared env cpu ≠ .evaluated raw true) ↔
      hasFlag env.flags schedCpufreqDl = true ∨ g.Evaluable shared cpu env := by
  unfold Gov.request Gov.Evaluable Gov.entered
  dsimp only
  cases hasFlag env.flags schedCpufreqDl with
  | true => simp
  | false =>
    cases shared with
    | true =>
      simp only [Bool.false_eq_true, if_false, if_true, false_or]
      cases hasFlag ((g.enterHook env cpu (g.hookCpu true env cpu)).cpus workCore).flags
        schedCpufreqDl with
      | true => simp
      | false =>
        cases (g.cpus workCore).hasPolicy with
        | true => simp
        | false => simp
    | false =>
      cases g.utilFaults env env.smpProcessorId with
      | true => simp
      | false => simp

/-- A limits change forces the next update exactly if the last frequency is at least the down
rate limit old and the update, unless it is for a deadline task, gets through its evaluation:
on a policy of one CPU the CPU has been idle, on a shared policy the work core has been started. -/
theorem forced_update_commits_iff (hres : ∀ l f, resolve l f < uintMax) {g : Gov L} {cpu : Nat}
    {shared : Bool} (hhook : g.hooks cpu = some shared)
    (hforce : (g.policies (g.cpus cpu).sgPolicy).ForcePending) (env : Env) :
    (sugovUpdate resolve env cpu g).Commits (g.cpus cpu).sgPolicy ↔
      g.LetsThrough shared cpu env := by
  have hs := serves_update resolve env hhook
  have hadm := admitted_forgotten_iff hres (g.policies (g.cpus cpu).sgPolicy).forgotten rfl
    hforce.slow env.time (g.cpus cpu).sgPolicy (g.request shared env cpu)
  unfold UpdateResult.Commits Gov.LetsThrough
  rw [hs.queued, hs.sg]
  simp only [Request.serve, hforce.shouldUpdate, if_true]
  rw [hadm, letsThrough_request_iff]
  exact Iff.rfl

/-- Half load, and new limits after it, on a machine whose CPUs `cpus` form a policy. -/
def limitsChanged (cpus : Finset Nat) : Gov (Nat × Nat) :=
  run (Gov.next clampFreq) (machine cpus) [.start 0, .update 0 (busyEnv 10000000 512 1),
    .workTarget 0 1250000, .workClear 0, .limits 0 (300000, 1000000) 1000000]

theorem limitsChanged_forcePending : ((limitsChanged {0}).policies 0).ForcePending :=
  ⟨by decide +kernel, by decide +kernel, by decide +kernel⟩

theorem forced_update_commits_late :
    (sugovUpdate clampFreq (busyEnv 20000000 512 2) 0 (limitsChanged {0})).Commits 0 ∧
      (sugovUpdate clampFreq (busyEnv 20000000 512 1) 0 (limitsChanged {0, 3})).Commits 0 := by
  have hsingle : (limitsChanged {0}).hooks 0 = some false := by decide +kernel
  have hshared : (limitsChanged {0, 3}).hooks 0 = some true := by decide +kernel
  refine ⟨(forced_update_commits_iff clampFreq_lt hsingle limitsChanged_forcePending _).mpr
    ⟨by decide +kernel, .inr ⟨by decide +kernel, by decide +kernel⟩⟩, ?_⟩
  exact (forced_update_commits_iff clampFreq_lt hshared
    ⟨by decide +kernel, by decide +kernel, by decide +kernel⟩ _).mpr
    ⟨by decide +kernel, .inr (.inr (by decide +kernel))⟩

/-- CPUs 0 and 1 share a policy, the work core has never been started. -/
def withoutWorkCore : Gov (Nat × Nat) :=
  run (Gov.next clampFreq) (machine {0, 1}) [.start 0, .limits 0 (300000, 1000000) 1000000]

/-- The force request is lost when it comes 0.6 ms after the last change, when the CPU has not
been idle, however late it comes, and when there is no work core to look at. -/
theorem forced_update_lost :
    ((sugovUpdate clampFreq (busyEnv 10600000 512 2) 0 (limitsChanged {0})).queued = false ∧
      (sugovUpdate clampFreq (busyEnv 20000000 512 1) 0 (limitsChanged {0})).queued = false ∧
      (sugovUpdate clampFreq (busyEnv 20000000 512 1) 0 withoutWorkCore).queued = false) ∧
    ¬ ∀ (es : List (GovEvent (Nat × Nat))) (cpu : Nat) (env : Env),
      (run (Gov.next clampFreq) (machine {0}) es).hooks cpu ≠ none →
      ((run (Gov.next clampFreq) (machine {0}) es).policies
        ((run (Gov.next clampFreq) (machine {0}) es).cpus cpu).sgPolicy).ForcePending →
      (sugovUpdate clampFreq env cpu (run (Gov.next clampFreq) (machine {0}) es)).Commits
        ((run (Gov.next clampFreq) (machine {0}) es).cpus cpu).sgPolicy := by
  have hsoon : (sugovUpdate clampFreq (busyEnv 10600000 512 2) 0 (limitsChanged {0})).queued = false := by
    decide +kernel
  refine ⟨⟨hsoon, by decide +kernel, by decide +kernel⟩, fun hall => ?_⟩
  have h : (sugovUpdate clampFreq (busyEnv 10600000 512 2) 0 (limitsChanged {0})).queued = true :=
    (hall _ 0 _ (by decide +kernel) limitsChanged_forcePending).1
  rw [hsoon] at h
  cases h

end MSchedutil
