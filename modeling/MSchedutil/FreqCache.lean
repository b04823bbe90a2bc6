import MSchedutil.PolicyRequest
import MSchedutil.Transition

/-! The frequency cache of `get_next_freq`. The shortcut returns `next_freq` for
`cached_raw_freq`; the two agree as long as every frequency that was cached was
also committed, and nothing else was. -/

namespace MSchedutil

open Transition

variable {L : Type*} {resolve : L → Nat → Nat}

/-- `next_freq` is what the driver makes of `cached_raw_freq`, unless it is about to be forgotten. -/
def SugovPolicy.Linked (resolve : L → Nat → Nat) (sg : SugovPolicy L) : Prop :=
  sg.needFreqUpdate = true ∨ sg.nextFreq = uintMax ∨
    sg.nextFreq = resolve sg.policy.limits sg.cachedRawFreq

namespace Request

/-- An admitted request leaves `cached_raw_freq` and `next_freq` in step: a deadline
request asks for what is cached, or for nothing new, or is refused; an evaluation with
an uncached raw frequency is neither refused by a rate limit nor held by a busy CPU; a
fault changes neither. -/
def InStep (resolve : L → Nat → Nat) (time : Nat) (sg : SugovPolicy L) : Request → Prop
  | maximum => sg.policy.maxFreq = resolve sg.policy.limits sg.cachedRawFreq ∨
      sg.nextFreq = sg.policy.maxFreq ∨ sugovUpDownRateLimit sg time sg.policy.maxFreq = true
  | evaluated raw hold => sg.nextFreq = uintMax ∨ raw = sg.cachedRawFreq ∨
      resolve sg.policy.limits raw = sg.nextFreq ∨
      ¬ (hold = true ∧ resolve sg.policy.limits raw < sg.nextFreq) ∧
        sugovUpDownRateLimit sg time (resolve sg.policy.limits raw) = false
  | fault => True

instance (resolve : L → Nat → Nat) (time : Nat) (sg : SugovPolicy L) :
    ∀ req : Request, Decidable (req.InStep resolve time sg)
  | maximum => inferInstanceAs (Decidable (_ ∨ _))
  | evaluated _ _ => inferInstanceAs (Decidable (_ ∨ _))
  | fault => isTrue trivial

def KeepsLink (resolve : L → Nat → Nat) (time : Nat) (sg : SugovPolicy L) (req : Request) : Prop :=
  (sugovShouldUpdateFreq sg time).1 = true →
    req.InStep resolve time (sugovShouldUpdateFreq sg time).2

instance (resolve : L → Nat → Nat) (time : Nat) (sg : SugovPolicy L) (req : Request) :
    Decidable (req.KeepsLink resolve time sg) := inferInstanceAs (Decidable (_ → _))

end Request

theorem updateCommit_cases (sg : SugovPolicy L) (time f : Nat) :
    ((sugovUpdateCommit sg time f).1 = sg ∧ (sugovUpdateCommit sg time f).2 = false ∧
      (sugovUpDownRateLimit sg time f = true ∨ sg.nextFreq = f)) ∨
    ((sugovUpdateCommit sg time f).1.nextFreq = f ∧
      (sugovUpdateCommit sg time f).2 = !sg.policy.fastSwitchEnabled ∧
      (sugovUpdateCommit sg time f).1.workInProgress =
        (sg.workInProgress || !sg.policy.fastSwitchEnabled) ∧
      (sugovUpdateCommit sg time f).1.needFreqUpdate = sg.needFreqUpdate ∧
      (sugovUpdateCommit sg time f).1.cachedRawFreq = sg.cachedRawFreq ∧
      (sugovUpdateCommit sg time f).1.policy.limits = sg.policy.limits ∧
      sugovUpDownRateLimit sg time f = false ∧ sg.nextFreq ≠ f) := by
  unfold sugovUpdateCommit
  split
  · rename_i hr
    exact .inl ⟨rfl, rfl, .inl hr⟩
  · rename_i hr
    split
    · rename_i he
      exact .inl ⟨rfl, rfl, .inr he⟩
    · rename_i he
      right
      dsimp only
      cases hf : sg.policy.fastSwitchEnabled with
      | false => simp [hr, he]
      | true => simp [hr, he, cpufreqDriverFastSwitch, cpufreqEntryInvalid, uintMax]

theorem shouldUpdate_cases (sg : SugovPolicy L) (time : Nat) :
    ((sugovShouldUpdateFreq sg time).1 = false ∧ (sugovShouldUpdateFreq sg time).2 = sg) ∨
    ((sugovShouldUpdateFreq sg time).1 = true ∧ sg.workInProgress = false ∧
      (sugovShouldUpdateFreq sg time).2 = { sg with
        needFreqUpdate := false
        nextFreq := if sg.needFreqUpdate then uintMax else sg.nextFreq }) := by
  unfold sugovShouldUpdateFreq
  cases hw : sg.workInProgress with
  | true => simp
  | false =>
    cases hn : sg.needFreqUpdate with
    | true => simp
    | false =>
      simp only [Bool.false_eq_true, if_false, true_and]
      by_cases hd : deltaNs time sg.lastFreqUpdateTime ≥ sg.minRateLimitNs
      · right
        refine ⟨by simpa using hd, ?_⟩
        cases sg
        simp_all
      · left
        simpa using hd

theorem linked_grant_maximum (time : Nat) {sg : SugovPolicy L} (hn : sg.needFreqUpdate = false)
    (h : sg.Linked resolve) :
    (Request.grant time sg.policy.maxFreq sg none).sg.Linked resolve ↔
      Request.maximum.InStep resolve time sg := by
  have hmax := sg.policy.maxFreq_lt.ne
  rcases updateCommit_cases sg time sg.policy.maxFreq with ⟨hsg, -, hr⟩ | ⟨hf, -, -, hn', hc, hl, hr, he⟩
  · simp only [Request.grant, hsg, h, true_iff]
    exact .inr hr.symm
  · simp only [Request.grant, SugovPolicy.Linked, hf, hn', hn, hc, hl, hmax, Request.InStep, he, hr,
      Bool.false_eq_true, false_or, or_false]

/-- Asking for the frequency in place changes nothing. -/
theorem updateCommit_nextFreq (sg : SugovPolicy L) (time : Nat) :
    sugovUpdateCommit sg time sg.nextFreq = (sg, false) := by
  rcases updateCommit_cases sg time sg.nextFreq with ⟨hsg, hq, -⟩ | ⟨-, -, -, -, -, -, -, he⟩
  · exact Prod.ext hsg hq
  · exact absurd rfl he

theorem linked_admitted_iff (time p : Nat) {sg : SugovPolicy L} (hn : sg.needFreqUpdate = false)
    (h : sg.Linked resolve) (req : Request) :
    (req.admitted resolve time p sg).sg.Linked resolve ↔ req.InStep resolve time sg := by
  cases req with
  | maximum => exact linked_grant_maximum time hn h
  | fault => exact iff_of_true h trivial
  | evaluated raw hold =>
    simp only [Request.admitted, Request.InStep]
    unfold cachedOrResolved
    split
    · rename_i hs
      -- the shortcut asks for `next_freq`, which commits nothing
      simp [Request.grant, updateCommit_nextFreq, h, hs.1]
    · rename_i hs
      have hcached : raw = sg.cachedRawFreq → sg.nextFreq = uintMax := by
        intro hr
        by_contra hne
        exact hs ⟨hr, hne⟩
      simp only [Request.grant]
      generalize hF : (if hold = true ∧ resolve sg.policy.limits raw < sg.nextFreq
        then sg.nextFreq else resolve sg.policy.limits raw) = nextF
      have hlimit : ∀ f, sugovUpDownRateLimit { sg with cachedRawFreq := raw } time f =
        sugovUpDownRateLimit sg time f := fun _ => rfl
      rcases updateCommit_cases { sg with cachedRawFreq := raw } time nextF with
        ⟨hsg, -, hr⟩ | ⟨hf, -, -, hn', hc, hl, hr, he⟩
      · rw [hsg]
        rw [hlimit] at hr
        simp only [SugovPolicy.Linked, hn, Bool.false_eq_true, false_or]
        constructor
        · rintro (hmax | heq)
          · exact .inl hmax
          · exact .inr (.inr (.inl heq.symm))
        · rintro (hmax | hraw | heq | ⟨hhold, hlim⟩)
          · exact .inl hmax
          · exact .inl (hcached hraw)
          · exact .inr heq.symm
          · rw [if_neg hhold] at hF
            rw [← hF, hlim] at hr
            exact .inr (by simpa using hr)
      · rw [hlimit] at hr
        have hhold : ¬ (hold = true ∧ resolve sg.policy.limits raw < sg.nextFreq) := by
          intro hh
          rw [if_pos hh] at hF
          exact he hF
        rw [if_neg hhold] at hF
        subst hF
        simp [SugovPolicy.Linked, hf, hn', hc, hl, hhold, hr]

theorem SugovPolicy.Linked.shouldUpdate {sg : SugovPolicy L} (h : sg.Linked resolve) (time : Nat)
    (hu : (sugovShouldUpdateFreq sg time).1 = true) :
    (sugovShouldUpdateFreq sg time).2.needFreqUpdate = false ∧
      (sugovShouldUpdateFreq sg time).2.Linked resolve := by
  rcases shouldUpdate_cases sg time with ⟨hf, -⟩ | ⟨-, -, hsg⟩
  · rw [hf] at hu
    cases hu
  · rw [hsg]
    refine ⟨rfl, ?_⟩
    rcases h with hn | hmax | heq
    · exact .inr (.inl (if_pos hn))
    · exact .inr (.inl (by simp [hmax]))
    · by_cases hn : sg.needFreqUpdate = true
      · exact .inr (.inl (if_pos hn))
      · exact .inr (.inr (by simpa [hn] using heq))

/-- Serving a request keeps the cache and `next_freq` in step exactly if it is `InStep`. -/
theorem linked_serve_iff (time p : Nat) {sg : SugovPolicy L} (h : sg.Linked resolve)
    (req : Request) :
    (req.serve resolve time p sg).sg.Linked resolve ↔ req.KeepsLink resolve time sg := by
  unfold Request.serve Request.KeepsLink
  dsimp only
  cases hu : (sugovShouldUpdateFreq sg time).1 with
  | false =>
    rcases shouldUpdate_cases sg time with ⟨-, hsg⟩ | ⟨ht, -⟩
    · simp [hsg, h]
    · rw [hu] at ht
      cases ht
  | true =>
    obtain ⟨hn, hl⟩ := h.shouldUpdate time hu
    simpa using linked_admitted_iff time p hn hl req

theorem SugovPolicy.Linked.shortcut {time p : Nat} {sg : SugovPolicy L} (h : sg.Linked resolve)
    {req : Request} {call : FreqCall} (hc : (req.serve resolve time p sg).call = some call)
    (hs : call.shortcut = true) :
    call.policy = p ∧ call.freq = resolve sg.policy.limits call.raw := by
  unfold Request.serve at hc
  dsimp only at hc
  split at hc
  · rename_i hu
    obtain ⟨hn, hl⟩ := h.shouldUpdate time hu
    rw [← shouldUpdate_policy sg time]
    cases req with
    | maximum | fault => cases hc
    | evaluated raw hold =>
      simp only [Request.admitted, Request.grant, Option.some.injEq] at hc
      unfold cachedOrResolved at hc
      split at hc
      · rename_i hcut
        subst hc
        rcases hl with hn' | hmax | heq
        · rw [hn] at hn'
          cases hn'
        · exact absurd hmax hcut.2
        · exact ⟨rfl, by simpa only [hcut.1] using heq⟩
      · subst hc
        cases hs
  · cases hc

theorem SugovPolicy.Linked.congr {sg sg' : SugovPolicy L} (h : sg.Linked resolve)
    (hn : sg'.needFreqUpdate = sg.needFreqUpdate) (hf : sg'.nextFreq = sg.nextFreq)
    (hc : sg'.cachedRawFreq = sg.cachedRawFreq) (hl : sg'.policy.limits = sg.policy.limits) :
    sg'.Linked resolve := by
  unfold SugovPolicy.Linked
  rw [hn, hf, hc, hl]
  exact h

namespace Gov

/-- Every policy that a hook can reach is in step with its cache. -/
def CachesLinked (resolve : L → Nat → Nat) (g : Gov L) : Prop :=
  ∀ cpu, g.hooks cpu ≠ none → (g.policies (g.cpus cpu).sgPolicy).Linked resolve

/-- An update keeps its policy in step with its cache; the other events always do. -/
def KeepsLink (resolve : L → Nat → Nat) (g : Gov L) : GovEvent L → Prop
  | .update cpu env => ∀ shared ∈ g.hooks cpu,
      (g.request shared env cpu).KeepsLink resolve env.time (g.policies (g.cpus cpu).sgPolicy)
  | _ => True

instance (resolve : L → Nat → Nat) (g : Gov L) : ∀ e, Decidable (g.KeepsLink resolve e)
  | .update cpu env => inferInstanceAs (Decidable (∀ shared ∈ g.hooks cpu,
      (g.request shared env cpu).KeepsLink resolve env.time (g.policies (g.cpus cpu).sgPolicy)))
  | .start _ | .stop _ | .workTarget _ _ | .workClear _ | .limits _ _ _ | .upRateLimitUs _ _ | .downRateLimitUs _ _
  | .iowaitBoostMax _ _ | .capacityMargin _ _ => isTrue trivial

theorem Unhooked.cachesLinked {g : Gov L} (h : g.Unhooked) : g.CachesLinked resolve :=
  fun cpu hc => absurd (h cpu) hc

theorem CachesLinked.setPolicy {g : Gov L} (h : g.CachesLinked resolve) {p : Nat}
    {sg : SugovPolicy L} (hsg : (g.policies p).Linked resolve → sg.Linked resolve) :
    (g.setPolicy p sg).CachesLinked resolve := by
  intro cpu hc
  by_cases hp : (g.cpus cpu).sgPolicy = p
  · have := h cpu hc
    rw [hp] at this
    simpa [hp] using hsg this
  · simpa [Function.update_of_ne hp] using h cpu hc

theorem CachesLinked.forEachPolicy {g : Gov L} (h : g.CachesLinked resolve) (t : Nat)
    {f : SugovPolicy L → SugovPolicy L}
    (hf : ∀ sg, sg.Linked resolve → (updateMinRateLimitUs (f sg)).Linked resolve) :
    (g.forEachPolicy t f).CachesLinked resolve := by
  intro cpu hc
  simp only [Gov.forEachPolicy]
  split
  · exact hf _ (h cpu hc)
  · exact h cpu hc

theorem CachesLinked.start {g : Gov L} (h : g.CachesLinked resolve) (p : Nat) :
    (sugovStart p g).CachesLinked resolve := by
  intro cpu hc
  by_cases hcpu : cpu ∈ (g.policies p).policy.cpus
  · simp only [sugovStart, hcpu, if_true, SugovCpu.sgPolicy_mk, Function.update_self]
    exact .inr (.inl rfl)
  · simp only [sugovStart, hcpu, if_false] at hc ⊢
    by_cases hp : (g.cpus cpu).sgPolicy = p
    · rw [hp, Function.update_self]
      exact .inr (.inl rfl)
    · rw [Function.update_of_ne hp]
      exact h cpu hc

theorem CachesLinked.update {g : Gov L} (h : g.CachesLinked resolve) {cpu : Nat} {env : Env}
    (hk : g.KeepsLink resolve (.update cpu env)) :
    (sugovUpdate resolve env cpu g).gov.CachesLinked resolve := by
  cases hh : g.hooks cpu with
  | none => simpa only [sugovUpdate, hh] using h
  | some shared =>
    have hs := serves_update resolve env hh
    intro d hd
    rw [hs.wiring.hooks] at hd
    rw [hs.wiring.sgPolicy]
    by_cases hp : (g.cpus d).sgPolicy = (g.cpus cpu).sgPolicy
    · rw [hp, hs.sg, linked_serve_iff]
      · exact hk shared hh
      · exact h cpu (by simp [hh])
    · rw [hs.others _ hp]
      exact h d hd

theorem CachesLinked.next {g : Gov L} (h : g.CachesLinked resolve) {e : GovEvent L}
    (hk : g.KeepsLink resolve e) : (g.next resolve e).CachesLinked resolve := by
  cases e with
  | start p => exact h.start p
  | stop p =>
    intro cpu hc
    by_cases hcpu : cpu ∈ (g.policies p).policy.cpus
    · simp [Gov.next, sugovStop, hcpu] at hc
    · simp only [Gov.next, sugovStop, hcpu, if_false] at hc ⊢
      exact h cpu hc
  | update cpu env => exact h.update hk
  | workTarget p cur => exact h.setPolicy fun hl => hl.congr rfl rfl rfl rfl
  | workClear p => exact h.setPolicy fun hl => hl.congr rfl rfl rfl rfl
  | limits p limits cur => exact h.setPolicy fun _ => .inl rfl
  | upRateLimitUs t us =>
    have hf : ∀ sg, SugovPolicy.Linked resolve sg → (updateMinRateLimitUs
        { sg with upRateDelayNs := us * nsecPerUsec }).Linked resolve :=
      fun _ hl => hl.congr rfl rfl rfl rfl
    exact CachesLinked.forEachPolicy
      (g := g.setTunables t { g.tunables t with upRateLimitUs := us }) h t hf
  | downRateLimitUs t us =>
    have hf : ∀ sg, SugovPolicy.Linked resolve sg → (updateMinRateLimitUs
        { sg with downRateDelayNs := us * nsecPerUsec }).Linked resolve :=
      fun _ hl => hl.congr rfl rfl rfl rfl
    exact CachesLinked.forEachPolicy
      (g := g.setTunables t { g.tunables t with downRateLimitUs := us }) h t hf
  | iowaitBoostMax t boostMax => exact h
  | capacityMargin t margin =>
    unfold Gov.next capacityMarginStore
    dsimp only
    split
    · exact h
    · exact h

/-- A shortcut taken by an update of `cpu` returns what the long path would. -/
def ShortcutAgrees (resolve : L → Nat → Nat) (g : Gov L) (cpu : Nat) (env : Env) : Prop :=
  ∀ call, (sugovUpdate resolve env cpu g).call = some call → call.shortcut = true →
    call.freq = resolve (g.policies call.policy).policy.limits call.raw

theorem CachesLinked.shortcutAgrees {g : Gov L} (h : g.CachesLinked resolve) (cpu : Nat)
    (env : Env) : g.ShortcutAgrees resolve cpu env := by
  intro call hcall hcut
  cases hh : g.hooks cpu with
  | none => simp [sugovUpdate, hh] at hcall
  | some shared =>
    have hs := serves_update resolve env hh
    obtain ⟨hp, hf⟩ := (h cpu (by simp [hh])).shortcut (hs.call.symm.trans hcall) hcut
    rw [hp, hf]

end Gov

/-- While every update leaves the cache and `next_freq` in step, cached and uncached
frequency selection agree in every state of the run. -/
theorem shortcut_agrees_with_driver {g : Gov L} (h : g.Unhooked) {es : List (GovEvent L)}
    (hk : Along (Gov.next resolve) (Gov.KeepsLink resolve) g es) (cpu : Nat) (env : Env) :
    (run (Gov.next resolve) g es).ShortcutAgrees resolve cpu env := by
  have hl : (run (Gov.next resolve) g es).CachesLinked resolve :=
    hk.invariant (fun _ _ hl hk => hl.next hk) h.cachesLinked
  exact hl.shortcutAgrees cpu env

/-- A driver that offers every frequency up to 2 GHz between the limits. -/
def clampFreq (limits : Nat × Nat) (freq : Nat) : Nat :=
  min 2000000 (max limits.1 (min limits.2 freq))

theorem clampFreq_lt (limits : Nat × Nat) (freq : Nat) : clampFreq limits freq < uintMax := by
  unfold clampFreq uintMax
  omega

/-- A machine whose CPUs `cpus` form its first policy. -/
def machine (cpus : Finset Nat) : Gov (Nat × Nat) :=
  sugovInit fun _ => ⟨cpus, 2000000, 300000, false, (300000, 2000000), by decide⟩

/-- An update of a CPU with utilisation `util` of 1024. -/
def busyEnv (time util idleCalls : Nat) : Env where
  time := time
  flags := 0
  smpProcessorId := 0
  idleCalls := idleCalls
  rq _ := ⟨⟨0, 0, ⟨0, 0⟩, ⟨0, util⟩, ⟨0, 0⟩, 0, ⟨0, 0⟩, ⟨0, 0⟩, ⟨0, 0⟩, ⟨0, 0⟩⟩, 0, 0, time, 1024, 1024, util⟩
  schedAvgPeriod := 1000000000
  tickNsec := 4000000
  usePelt := true
  freqInvariant := true
  pemtEnabled := false
  freqEnabled := false
  perfEnabled := false
  cycleEnabled := false

theorem shortcut_agrees_half_load :
    (run (Gov.next clampFreq) (machine {0}) [.start 0, .update 0 (busyEnv 10000000 512 1),
      .workTarget 0 1250000, .workClear 0]).ShortcutAgrees clampFreq 0 (busyEnv 20000000 512 2) :=
  shortcut_agrees_with_driver (sugovInit_unhooked _) (by decide +kernel) 0 _

/-- Half load, then a quarter 0.6 ms later: the reduction is cached, and refused by
the 2 ms down rate limit. -/
def refusedReduction : Gov (Nat × Nat) :=
  run (Gov.next clampFreq) (machine {0}) [.start 0, .update 0 (busyEnv 10000000 512 1),
    .workTarget 0 1250000, .workClear 0, .update 0 (busyEnv 10600000 256 2)]

/-- The same quarter load then gets the old frequency from the shortcut. -/
theorem shortcut_returns_refused_frequency :
    (sugovUpdate clampFreq (busyEnv 11200000 256 3) 0 refusedReduction).call =
        some ⟨0, 625000, true, 1250000⟩ ∧
      clampFreq (refusedReduction.policies 0).policy.limits 625000 = 625000 ∧
      ¬ ∀ (g : Gov (Nat × Nat)) (es : List (GovEvent (Nat × Nat))) (cpu : Nat) (env : Env),
        g.Unhooked → (run (Gov.next clampFreq) g es).ShortcutAgrees clampFreq cpu env := by
  have hcall : (sugovUpdate clampFreq (busyEnv 11200000 256 3) 0 refusedReduction).call =
      some ⟨0, 625000, true, 1250000⟩ := by decide +kernel
  have hres : clampFreq (refusedReduction.policies 0).policy.limits 625000 = 625000 := by
    decide +kernel
  refine ⟨hcall, hres, fun hall => ?_⟩
  have h : 1250000 = clampFreq (refusedReduction.policies 0).policy.limits 625000 :=
    hall _ _ 0 _ (sugovInit_unhooked _) _ hcall rfl
  omega

end MSchedutil
