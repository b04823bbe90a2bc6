import MSchedutil.FreqCache

/-! The rate limits over a run: a committed frequency stays for the delay of the
direction it is left in, and the combined minimum refuses nothing on its own. -/

namespace MSchedutil

open Word Transition

variable {L : Type*} {resolve : L → Nat → Nat}

namespace Gov

/-- The call of `sugov_update_commit` in an update of `cpu` moves the `next_freq` of its
policy `p` to `f`, from what `sugov_should_update_freq` left in it. -/
structure CommitsFreq (resolve : L → Nat → Nat) (p cpu : Nat) (env : Env) (f : Nat) (g : Gov L) :
    Prop where
  hooked : g.hooks cpu ≠ none
  sgPolicy : (g.cpus cpu).sgPolicy = p
  committed : ((sugovUpdate resolve env cpu g).gov.policies p).nextFreq = f
  moved : (sugovShouldUpdateFreq (g.policies p) env.time).2.nextFreq ≠ f

/-- Neither new limits, nor a restart, nor a commit that moves `next_freq` of the policy. -/
def LeavesFreq (resolve : L → Nat → Nat) (p : Nat) (g : Gov L) : GovEvent L → Prop
  | .start q | .limits q _ _ => q ≠ p
  | .update cpu env => ∀ f, ¬ g.CommitsFreq resolve p cpu env f
  | _ => True

/-- The policy goes by the frequency `f` it took at time `t`. -/
structure Holds (p f t : Nat) (g : Gov L) : Prop where
  need : (g.policies p).needFreqUpdate = false
  nextFreq : (g.policies p).nextFreq = f
  lastUpdate : (g.policies p).lastFreqUpdateTime = t

end Gov

theorem updateCommit_lastFreqUpdateTime {sg : SugovPolicy L} {time f : Nat}
    (h : (sugovUpdateCommit sg time f).1.nextFreq ≠ sg.nextFreq) :
    (sugovUpdateCommit sg time f).1.lastFreqUpdateTime = time := by
  revert h
  unfold sugovUpdateCommit
  split
  · exact fun h => absurd rfl h
  · split
    · exact fun h => absurd rfl h
    · dsimp only
      intro _
      split
      · split <;> rfl
      · rfl

namespace Request

/-- Every admitted request is granted some frequency at a policy that differs from the
one found in `cached_raw_freq` alone; one that faults, as if it were the frequency in place. -/
theorem admitted_grant (resolve : L → Nat → Nat) (time p : Nat) (sg : SugovPolicy L)
    (req : Request) : ∃ f call raw,
      req.admitted resolve time p sg = grant time f { sg with cachedRawFreq := raw } call := by
  cases req with
  | maximum => exact ⟨_, none, sg.cachedRawFreq, rfl⟩
  | fault =>
    refine ⟨sg.nextFreq, none, sg.cachedRawFreq, ?_⟩
    unfold admitted grant
    rw [show { sg with cachedRawFreq := sg.cachedRawFreq } = sg from rfl,
      updateCommit_nextFreq]
  | evaluated raw hold =>
    unfold admitted cachedOrResolved
    dsimp only
    split
    · exact ⟨_, _, sg.cachedRawFreq, rfl⟩
    · exact ⟨_, _, raw, rfl⟩

theorem serve_freq_cases (resolve : L → Nat → Nat) (time p : Nat) (sg : SugovPolicy L)
    (req : Request) :
    ((req.serve resolve time p sg).sg.needFreqUpdate =
        (sugovShouldUpdateFreq sg time).2.needFreqUpdate ∧
      (req.serve resolve time p sg).sg.nextFreq = (sugovShouldUpdateFreq sg time).2.nextFreq ∧
      (req.serve resolve time p sg).sg.lastFreqUpdateTime = sg.lastFreqUpdateTime) ∨
    ((req.serve resolve time p sg).sg.nextFreq ≠ (sugovShouldUpdateFreq sg time).2.nextFreq ∧
      (req.serve resolve time p sg).sg.needFreqUpdate = false ∧
      (req.serve resolve time p sg).sg.lastFreqUpdateTime = time ∧
      sugovUpDownRateLimit (sugovShouldUpdateFreq sg time).2 time
        (req.serve resolve time p sg).sg.nextFreq = false) := by
  rcases shouldUpdate_cases sg time with ⟨hs, hsg⟩ | ⟨hs, -, hsg⟩
  · left
    simp [serve, hs, hsg]
  · obtain ⟨f, call, raw, hadm⟩ := admitted_grant resolve time p (sugovShouldUpdateFreq sg time).2 req
    have hserve : (req.serve resolve time p sg).sg = (sugovUpdateCommit
        { (sugovShouldUpdateFreq sg time).2 with cachedRawFreq := raw } time f).1 := by
      simp [serve, hs, hadm, grant]
    rw [hserve]
    rcases updateCommit_cases { (sugovShouldUpdateFreq sg time).2 with cachedRawFreq := raw } time f
      with ⟨hkeep, -⟩ | ⟨hf, -, -, hneed, -, -, hlim, hne⟩
    · left
      rw [hkeep]
      exact ⟨rfl, rfl, by simp [hsg]⟩
    · right
      refine ⟨?_, ?_, updateCommit_lastFreqUpdateTime ?_, ?_⟩
      · rw [hf]
        exact fun h => hne h.symm
      · rw [hneed]
        simp [hsg]
      · rw [hf]
        exact fun h => hne h.symm
      · rw [hf]
        exact hlim

end Request

namespace Gov

variable {p cpu f t : Nat} {env : Env} {g : Gov L}

theorem Holds.shouldUpdate (h : g.Holds p f t) (time : Nat) :
    (sugovShouldUpdateFreq (g.policies p) time).2 = g.policies p := by
  unfold sugovShouldUpdateFreq
  rw [h.need]
  split <;> rfl

/-- A commit that moves `next_freq` dates the policy, and has passed the rate limit. -/
theorem CommitsFreq.serves (h : g.CommitsFreq resolve p cpu env f) :
    (sugovUpdate resolve env cpu g).gov.Holds p f env.time ∧
      sugovUpDownRateLimit (sugovShouldUpdateFreq (g.policies p) env.time).2 env.time f = false := by
  obtain ⟨hhook, hp, hf, hmoved⟩ := h
  obtain ⟨shared, hshared⟩ := Option.ne_none_iff_exists'.mp hhook
  have hsg := (serves_update resolve env hshared).sg
  rw [hp] at hsg
  rw [hsg] at hf
  rcases Request.serve_freq_cases resolve env.time p (g.policies p) (g.request shared env cpu) with
    ⟨-, hkeep, -⟩ | ⟨-, hneed, hlast, hlim⟩
  · exact absurd (hkeep.symm.trans hf) hmoved
  · rw [hf] at hlim
    exact ⟨⟨hsg ▸ hneed, hsg ▸ hf, hsg ▸ hlast⟩, hlim⟩

theorem Holds.update (h : g.Holds p f t)
    (hnone : ∀ f', ¬ g.CommitsFreq resolve p cpu env f') :
    (sugovUpdate resolve env cpu g).gov.Holds p f t := by
  cases hh : g.hooks cpu with
  | none =>
    have hsame : (sugovUpdate resolve env cpu g).gov = g := by simp only [sugovUpdate, hh]
    rw [hsame]
    exact h
  | some shared =>
    have hs := serves_update resolve env hh
    by_cases hp : (g.cpus cpu).sgPolicy = p
    · have hsg := hs.sg
      rw [hp] at hsg
      have hshould := h.shouldUpdate env.time
      rcases Request.serve_freq_cases resolve env.time p (g.policies p)
          (g.request shared env cpu) with ⟨hneed, hnext, hlast⟩ | ⟨hmoved, -⟩
      · rw [← hsg, hshould] at hneed hnext
        rw [← hsg] at hlast
        exact ⟨hneed.trans h.need, hnext.trans h.nextFreq, hlast.trans h.lastUpdate⟩
      · rw [← hsg] at hmoved
        exact absurd ⟨by simp [hh], hp, rfl, Ne.symm hmoved⟩ (hnone _)
    · have hsame := hs.others p (Ne.symm hp)
      exact ⟨hsame ▸ h.need, hsame ▸ h.nextFreq, hsame ▸ h.lastUpdate⟩

theorem Holds.setPolicy (h : g.Holds p f t) {q : Nat} {sg : SugovPolicy L}
    (hsg : q = p → sg.needFreqUpdate = (g.policies p).needFreqUpdate ∧
      sg.nextFreq = (g.policies p).nextFreq ∧
      sg.lastFreqUpdateTime = (g.policies p).lastFreqUpdateTime) : (g.setPolicy q sg).Holds p f t := by
  by_cases hq : q = p
  · obtain ⟨hneed, hnext, hlast⟩ := hsg hq
    subst hq
    exact ⟨by simpa [hneed] using h.need, by simpa [hnext] using h.nextFreq,
      by simpa [hlast] using h.lastUpdate⟩
  · have hsame : (g.setPolicy q sg).policies p = g.policies p :=
      Function.update_of_ne (Ne.symm hq) _ _
    exact ⟨hsame ▸ h.need, hsame ▸ h.nextFreq, hsame ▸ h.lastUpdate⟩

theorem Holds.forEachPolicy (h : g.Holds p f t) (tun : Nat)
    (change : SugovPolicy L → SugovPolicy L)
    (hchange : ∀ sg, (change sg).needFreqUpdate = sg.needFreqUpdate ∧
      (change sg).nextFreq = sg.nextFreq ∧ (change sg).lastFreqUpdateTime = sg.lastFreqUpdateTime) :
    (g.forEachPolicy tun change).Holds p f t := by
  obtain ⟨hneed, hnext, hlast⟩ := hchange (g.policies p)
  by_cases htun : (g.policies p).tunables = tun
  · have hsg : (g.forEachPolicy tun change).policies p =
        updateMinRateLimitUs (change (g.policies p)) := if_pos htun
    exact ⟨hsg ▸ hneed.trans h.need, hsg ▸ hnext.trans h.nextFreq, hsg ▸ hlast.trans h.lastUpdate⟩
  · have hsg : (g.forEachPolicy tun change).policies p = g.policies p := if_neg htun
    exact ⟨hsg ▸ h.need, hsg ▸ h.nextFreq, hsg ▸ h.lastUpdate⟩

theorem Holds.next (h : g.Holds p f t) {e : GovEvent L} (he : g.LeavesFreq resolve p e) :
    (g.next resolve e).Holds p f t := by
  cases e with
  | start q =>
    have hsame : (sugovStart q g).policies p = g.policies p :=
      Function.update_of_ne (Ne.symm he) _ _
    exact ⟨hsame ▸ h.need, hsame ▸ h.nextFreq, hsame ▸ h.lastUpdate⟩
  | stop q => exact ⟨h.need, h.nextFreq, h.lastUpdate⟩
  | update cpu env => exact h.update he
  | workTarget q cur => exact h.setPolicy (by rintro rfl; exact ⟨rfl, rfl, rfl⟩)
  | workClear q => exact h.setPolicy (by rintro rfl; exact ⟨rfl, rfl, rfl⟩)
  | limits q limits cur => exact h.setPolicy fun hq => absurd hq he
  | upRateLimitUs tun us =>
    have hset : (g.setTunables tun { g.tunables tun with upRateLimitUs := us }).Holds p f t :=
      ⟨h.need, h.nextFreq, h.lastUpdate⟩
    exact hset.forEachPolicy tun (fun sg => { sg with upRateDelayNs := us * nsecPerUsec })
      fun _ => ⟨rfl, rfl, rfl⟩
  | downRateLimitUs tun us =>
    have hset : (g.setTunables tun { g.tunables tun with downRateLimitUs := us }).Holds p f t :=
      ⟨h.need, h.nextFreq, h.lastUpdate⟩
    exact hset.forEachPolicy tun (fun sg => { sg with downRateDelayNs := us * nsecPerUsec })
      fun _ => ⟨rfl, rfl, rfl⟩
  | iowaitBoostMax tun boostMax => exact ⟨h.need, h.nextFreq, h.lastUpdate⟩
  | capacityMargin tun margin =>
    unfold Gov.next capacityMarginStore
    dsimp only
    split
    · exact h
    · exact ⟨h.need, h.nextFreq, h.lastUpdate⟩

end Gov

/-- Two times an `s64` apart. -/
def InRange (time last : Nat) : Prop :=
  time < 2 ^ 64 ∧ last < 2 ^ 64 ∧ -2 ^ 63 ≤ (time : Int) - last ∧ (time : Int) - last < 2 ^ 63

instance (time last : Nat) : Decidable (InRange time last) := inferInstanceAs (Decidable (_ ∧ _))

theorem deltaNs_of_inRange {time last : Nat} (h : InRange time last) :
    deltaNs time last = (time : Int) - last := by
  obtain ⟨ht, hl, hlo, hhi⟩ := h
  unfold deltaNs s64 sub64 u64
  split <;> omega

/-- A direction the rate limit lets through has waited for its delay. -/
theorem upDownRateLimit_eq_false_iff (sg : SugovPolicy L) (time f : Nat) :
    sugovUpDownRateLimit sg time f = false ↔
      (f > sg.nextFreq → sg.upRateDelayNs ≤ deltaNs time sg.lastFreqUpdateTime) ∧
      (f < sg.nextFreq → sg.downRateDelayNs ≤ deltaNs time sg.lastFreqUpdateTime) := by
  unfold sugovUpDownRateLimit
  dsimp only
  split
  · rename_i h
    simp only [Bool.true_eq_false, false_iff]
    exact fun hall => absurd (hall.1 h.1) (not_le.mpr h.2)
  · rename_i hup
    split
    · rename_i h
      simp only [Bool.true_eq_false, false_iff]
      exact fun hall => absurd (hall.2 h.1) (not_le.mpr h.2)
    · rename_i hdown
      simp only [true_iff]
      exact ⟨fun hf => not_lt.mp fun hd => hup ⟨hf, hd⟩, fun hf => not_lt.mp fun hd => hdown ⟨hf, hd⟩⟩

/-- What `sugov_should_update_freq` refuses for its time alone is refused in every direction. -/
theorem upDownRateLimit_of_early {sg : SugovPolicy L}
    (hmin : sg.minRateLimitNs = min sg.upRateDelayNs sg.downRateDelayNs)
    (hwork : sg.workInProgress = false) (hneed : sg.needFreqUpdate = false) {time : Nat}
    (hearly : (sugovShouldUpdateFreq sg time).1 = false) {f : Nat} (hf : f ≠ sg.nextFreq) :
    sugovUpDownRateLimit sg time f = true := by
  have hdelta : deltaNs time sg.lastFreqUpdateTime < sg.minRateLimitNs := by
    simpa [sugovShouldUpdateFreq, hwork, hneed] using hearly
  rw [← Bool.not_eq_false, upDownRateLimit_eq_false_iff]
  intro ⟨hup, hdown⟩
  rcases lt_or_gt_of_ne hf with hlt | hgt
  · have := hdown hlt
    omega
  · have := hup hgt
    omega

/-- Two frequencies committed one after the other are as far apart as the delay of the
direction between them demands, and the early exit costs no change of frequency. -/
theorem rate_limit_sound (resolve : L → Nat → Nat) :
    (∀ (g : Gov L) (es : List (GovEvent L)) (p cpu₁ cpu₂ f₁ f₂ : Nat) (env₁ env₂ : Env),
      g.CommitsFreq resolve p cpu₁ env₁ f₁ →
      Along (Gov.next resolve) (Gov.LeavesFreq resolve p) (g.next resolve (.update cpu₁ env₁)) es →
      let g₂ := run (Gov.next resolve) (g.next resolve (.update cpu₁ env₁)) es
      g₂.CommitsFreq resolve p cpu₂ env₂ f₂ → f₁ ≠ uintMax → InRange env₂.time env₁.time →
      (f₂ > f₁ → ((g₂.policies p).upRateDelayNs : Int) ≤ env₂.time - env₁.time) ∧
        (f₂ < f₁ → ((g₂.policies p).downRateDelayNs : Int) ≤ env₂.time - env₁.time)) ∧
    ∀ (sg : SugovPolicy L) (time : Nat), sg.minRateLimitNs = min sg.upRateDelayNs sg.downRateDelayNs →
      sg.workInProgress = false → sg.needFreqUpdate = false →
      (sugovShouldUpdateFreq sg time).1 = false →
      ∀ f, f ≠ sg.nextFreq → sugovUpDownRateLimit sg time f = true := by
  constructor
  · intro g es p cpu₁ cpu₂ f₁ f₂ env₁ env₂ h₁ hes g₂ h₂ _ htime
    have hholds : g₂.Holds p f₁ env₁.time :=
      hes.invariant (fun _ _ h he => h.next he) h₁.serves.1
    have hlim := h₂.serves.2
    rwa [hholds.shouldUpdate, upDownRateLimit_eq_false_iff, hholds.nextFreq, hholds.lastUpdate,
      deltaNs_of_inRange htime] at hlim
  · intro sg time hmin hwork hneed hearly f hf
    exact upDownRateLimit_of_early hmin hwork hneed hearly hf

/-- Half load on a started policy, and the switch it leads to. -/
def halfLoad : Gov (Nat × Nat) := (machine {0}).next clampFreq (.start 0)

def halfLoadServed : Gov (Nat × Nat) :=
  run (Gov.next clampFreq) (halfLoad.next clampFreq (.update 0 (busyEnv 10000000 512 1)))
    [.workTarget 0 1250000, .workClear 0]

/-- Three quarters 0.6 ms later pass the limit; 0.1 ms later every change is refused. -/
theorem rate_limit_sound_rising_load :
    ((halfLoadServed.policies 0).upRateDelayNs : Int) ≤ (10600000 : Nat) - (10000000 : Nat) ∧
      sugovUpDownRateLimit (halfLoadServed.policies 0) 10100000 1875000 = true :=
  ⟨((rate_limit_sound clampFreq).1 halfLoad [.workTarget 0 1250000, .workClear 0] 0 0 0 1250000
      1875000 (busyEnv 10000000 512 1) (busyEnv 10600000 768 2)
      ⟨by decide +kernel, by decide +kernel, by decide +kernel, by decide +kernel⟩
      ⟨trivial, trivial, trivial⟩
      ⟨by decide +kernel, by decide +kernel, by decide +kernel, by decide +kernel⟩
      (by decide) (by decide)).1 (by decide),
    (rate_limit_sound clampFreq).2 (halfLoadServed.policies 0) 10100000 (by decide +kernel)
      (by decide +kernel) (by decide +kernel) (by decide +kernel) 1875000 (by decide +kernel)⟩

end MSchedutil
