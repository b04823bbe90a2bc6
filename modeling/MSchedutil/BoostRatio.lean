import MSchedutil.FreqCache

/-! What `get_next_freq` is handed. The utilisation is a share of the CPU's capacity; the
iowait boost replaces it by a share of a maximum that may have moved since. -/

namespace MSchedutil

open Word Transition

variable {L : Type*} {resolve : L → Nat → Nat}

/-- A utilisation of at most the full scale, and no smaller a share than the one before. -/
structure Scaled (util max util' max' : Nat) : Prop where
  max_pos : 0 < max'
  le : util' ≤ max'
  no_less : util * max' ≤ util' * max

/-- The boost in `c` is not applied, or is a share of `boostMax` that is no smaller than the
utilisation, so that the wrapped products of `sugov_iowait_boost` compare rightly. -/
def BoostFits (boostMax util max : Nat) (c : SugovCpu) : Prop :=
  c.iowaitBoost = 0 ∨ u64 (max * c.iowaitBoost) ≤ u64 (util * boostMax) ∨
    c.iowaitBoost ≤ boostMax ∧ util * boostMax ≤ c.iowaitBoost * max

instance (boostMax util max : Nat) (c : SugovCpu) : Decidable (BoostFits boostMax util max c) :=
  inferInstanceAs (Decidable (_ ∨ _))

theorem iowaitBoost_cases (boostMax : Nat) (c : SugovCpu) (util max : Nat) :
    (sugovIowaitBoost boostMax c util max).2 =
      if c.iowaitBoost ≠ 0 ∧ u64 (util * boostMax) < u64 (max * c.iowaitBoost)
      then (c.iowaitBoost, boostMax) else (util, max) := by
  unfold sugovIowaitBoost
  by_cases hzero : c.iowaitBoost = 0
  · rw [if_pos hzero, if_neg fun h => h.1 hzero]
  · rw [if_neg hzero]
    by_cases hless : u64 (util * boostMax) < u64 (max * c.iowaitBoost)
    · simp only [hless, if_true, and_true, ne_eq, hzero, not_false_eq_true]
    · simp only [hless, if_false, and_false]

/-- The boost keeps a utilisation to scale exactly if it fits. -/
theorem scaled_iowaitBoost_iff {boostMax util max : Nat} (c : SugovCpu) (hmax : 0 < max)
    (hle : util ≤ max) :
    Scaled util max (sugovIowaitBoost boostMax c util max).2.1
        (sugovIowaitBoost boostMax c util max).2.2 ↔ BoostFits boostMax util max c := by
  rw [iowaitBoost_cases]
  unfold BoostFits
  by_cases hraise : c.iowaitBoost ≠ 0 ∧ u64 (util * boostMax) < u64 (max * c.iowaitBoost)
  · rw [if_pos hraise]
    constructor
    · exact fun h => .inr (.inr ⟨h.le, h.no_less⟩)
    · rintro (hzero | hless | ⟨hfits, hno⟩)
      · exact absurd hzero hraise.1
      · exact absurd hless (not_le.mpr hraise.2)
      · exact ⟨(Nat.pos_of_ne_zero hraise.1).trans_le hfits, hfits, hno⟩
  · rw [if_neg hraise]
    refine iff_of_true ⟨hmax, hle, le_refl _⟩ ?_
    by_cases hzero : c.iowaitBoost = 0
    · exact .inl hzero
    · exact .inr (.inl (not_lt.mp fun hless => hraise ⟨hzero, hless⟩))

theorem pkshinUtil_le (env : Env) (t : SugovTunables) (rq : RqView) (rt : Nat) :
    pkshinUtil env t rq rt ≤ rq.scaleCpu := by
  have hcases : ∀ fixed speed : Nat, (if rq.scaleCpu > fixed then
      if rq.scaleCpu - fixed > rq.avg.coreUtil.avg then min speed rq.scaleCpu else rq.scaleCpu
      else rq.scaleCpu) ≤ rq.scaleCpu := by
    intro fixed speed
    split
    · split
      · exact min_le_right _ _
      · exact le_refl _
    · exact le_refl _
  exact hcases _ _

theorem sugovGetUtil_snd (env : Env) (t : SugovTunables) (cpu : Nat) :
    (sugovGetUtil env t cpu).2 = (env.rq cpu).scaleCpu := by
  unfold sugovGetUtil
  dsimp only
  split
  · split <;> rfl
  · rfl

theorem sugovGetUtil_le (t : SugovTunables) {env : Env} (hpelt : env.usePelt = true) (cpu : Nat) :
    (sugovGetUtil env t cpu).1 ≤ (env.rq cpu).scaleCpu := by
  unfold sugovGetUtil
  dsimp only
  rw [if_pos hpelt]
  split
  · exact pkshinUtil_le _ _ _ _
  · exact min_le_right _ _

namespace Gov

/-- The CPU whose boost an update of `cpu` reads. -/
def boostCpu (shared : Bool) (cpu : Nat) : Nat := if shared then workCore else cpu

/-- The utilisation and its scale before the boost. -/
def plainUtil (shared : Bool) (env : Env) (g : Gov L) : Nat × Nat :=
  if shared then
    let (util, max) := sugovGetUtil env (g.tunablesOf workCore) workCore
    if u64 (util * 1) > u64 (max * 0) then (util, max) else (0, 1)
  else sugovGetUtil env (g.tunablesOf env.smpProcessorId) env.smpProcessorId

/-- What `get_next_freq` is handed. -/
def boostedUtil (shared : Bool) (env : Env) (cpu : Nat) (g : Gov L) : Nat × Nat :=
  if shared then (g.sharedUtil env).2.2 else (g.singleUtil env cpu).2

theorem boostedUtil_eq (shared : Bool) (env : Env) (cpu : Nat) (g : Gov L) :
    g.boostedUtil shared env cpu =
      (sugovIowaitBoost (g.tunablesOf (boostCpu shared cpu)).iowaitBoostMax
        (g.cpus (boostCpu shared cpu)) (g.plainUtil shared env).1 (g.plainUtil shared env).2).2 := by
  cases shared with
  | false => rfl
  | true =>
    unfold boostedUtil sharedUtil plainUtil boostCpu
    simp only [if_true]
    split <;> rfl

theorem request_of_call {shared : Bool} {env : Env} {cpu : Nat} {g : Gov L} {call : FreqCall}
    (hhook : g.hooks cpu = some shared) (hcall : (sugovUpdate resolve env cpu g).call = some call) :
    ∃ hold, g.request shared env cpu = .evaluated call.raw hold := by
  have hs := (serves_update resolve env hhook).call
  rw [hcall] at hs
  cases hreq : g.request shared env cpu with
  | maximum =>
    rw [hreq] at hs
    unfold Request.serve at hs
    dsimp only at hs
    split at hs <;> cases hs
  | fault =>
    rw [hreq] at hs
    unfold Request.serve at hs
    dsimp only at hs
    split at hs <;> cases hs
  | evaluated raw hold =>
    rw [hreq] at hs
    unfold Request.serve at hs
    dsimp only at hs
    split at hs
    · have hsome : call = _ := Option.some.inj hs
      exact ⟨hold, by rw [hsome]⟩
    · cases hs

theorem raw_of_request {shared hold : Bool} {env : Env} {cpu raw : Nat} {g : Gov L}
    (h : g.request shared env cpu = .evaluated raw hold) :
    raw = if shared then (g.entered shared env cpu).sharedRaw env cpu
      else (g.entered shared env cpu).singleRaw env cpu := by
  unfold request at h
  dsimp only at h
  cases shared with
  | true =>
    simp only [if_true] at h ⊢
    split at h
    · cases h
    · split at h
      · cases h
      · split at h
        · exact ((Request.evaluated.injEq _ _ _ _).mp h).1.symm
        · cases h
  | false =>
    simp only [Bool.false_eq_true, if_false] at h ⊢
    split at h
    · cases h
    · split at h
      · cases h
      · exact ((Request.evaluated.injEq _ _ _ _).mp h).1.symm

/-- The raw frequency of an update is made of the boosted utilisation. -/
theorem call_raw {shared : Bool} {env : Env} {cpu : Nat} {g : Gov L} {call : FreqCall}
    (hhook : g.hooks cpu = some shared) (hcall : (sugovUpdate resolve env cpu g).call = some call) :
    ∃ j, call.raw = rawFreq env (g.tunablesOf cpu).capacityMargin
      (g.policies (g.cpus cpu).sgPolicy).policy j
      ((g.entered shared env cpu).boostedUtil shared env cpu).1
      ((g.entered shared env cpu).boostedUtil shared env cpu).2 := by
  have hwire : SameWiring g (g.entered shared env cpu) := by
    refine SameWiring.enterHook env cpu ?_
    unfold hookCpu
    split <;> rfl
  obtain ⟨hold, hreq⟩ := request_of_call hhook hcall
  rw [raw_of_request hreq, ← hwire.tunablesOf, ← hwire.sgPolicy]
  cases shared with
  | false => exact ⟨env.smpProcessorId, rfl⟩
  | true => exact ⟨((g.entered true env cpu).sharedUtil env).1, rfl⟩

/-- An update that evaluates the utilisation hands `get_next_freq` one to scale. -/
def EvaluatesScaled (resolve : L → Nat → Nat) (g : Gov L) : GovEvent L → Prop
  | .update cpu env => ∀ shared, g.hooks cpu = some shared →
      (sugovUpdate resolve env cpu g).call ≠ none →
      let g' := g.entered shared env cpu
      Scaled (g'.plainUtil shared env).1 (g'.plainUtil shared env).2
        (g'.boostedUtil shared env cpu).1 (g'.boostedUtil shared env cpu).2
  | _ => True

/-- The boost that an evaluation finds outstanding fits the maximum in force. -/
def BoostInForce (resolve : L → Nat → Nat) (g : Gov L) : GovEvent L → Prop
  | .update cpu env => ∀ shared, g.hooks cpu = some shared →
      (sugovUpdate resolve env cpu g).call ≠ none →
      let g' := g.entered shared env cpu
      BoostFits (g'.tunablesOf (boostCpu shared cpu)).iowaitBoostMax (g'.plainUtil shared env).1
        (g'.plainUtil shared env).2 (g'.cpus (boostCpu shared cpu))
  | _ => True

/-- `use_pelt()` holds and every CPU has some capacity. -/
def TracksUtil (_ : Gov L) : GovEvent L → Prop
  | .update _ env => env.usePelt = true ∧ ∀ cpu, 0 < (env.rq cpu).scaleCpu
  | _ => True

theorem plainUtil_to_scale (shared : Bool) {env : Env} (hpelt : env.usePelt = true)
    (hcap : ∀ cpu, 0 < (env.rq cpu).scaleCpu) (g : Gov L) :
    0 < (g.plainUtil shared env).2 ∧ (g.plainUtil shared env).1 ≤ (g.plainUtil shared env).2 ∧
      ((g.plainUtil shared env).2 = 1 ∨ ∃ j, (g.plainUtil shared env).2 = (env.rq j).scaleCpu) := by
  have hutil : ∀ t cpu, 0 < (sugovGetUtil env t cpu).2 ∧
      (sugovGetUtil env t cpu).1 ≤ (sugovGetUtil env t cpu).2 ∧
      ((sugovGetUtil env t cpu).2 = 1 ∨ ∃ j, (sugovGetUtil env t cpu).2 = (env.rq j).scaleCpu) := by
    intro t cpu
    rw [sugovGetUtil_snd]
    exact ⟨hcap cpu, sugovGetUtil_le t hpelt cpu, .inr ⟨cpu, rfl⟩⟩
  unfold plainUtil
  split
  · dsimp only
    split
    · exact hutil _ _
    · exact ⟨Nat.one_pos, Nat.zero_le _, .inl rfl⟩
  · exact hutil _ _

theorem evaluatesScaled_iff {g : Gov L} {e : GovEvent L} (h : g.TracksUtil e) :
    g.EvaluatesScaled resolve e ↔ g.BoostInForce resolve e := by
  cases e with
  | update cpu env =>
    refine forall_congr' fun shared => imp_congr_right fun _ => imp_congr_right fun _ => ?_
    dsimp only
    obtain ⟨hmax, hle, -⟩ := plainUtil_to_scale shared h.1 h.2 (g.entered shared env cpu)
    rw [boostedUtil_eq]
    exact scaled_iowaitBoost_iff _ hmax hle
  | _ => exact Iff.rfl

/-- No CPU holds a boost of more than the maximum of its tunables. -/
def BoostsBounded (g : Gov L) : Prop :=
  ∀ c, (g.cpus c).iowaitBoost ≤ (g.tunablesOf c).iowaitBoostMax

/-- Nobody lowers a maximum below a boost that is outstanding under it, and the maximum and
the capacity multiply without wrapping. -/
def KeepsBoosts (g : Gov L) : GovEvent L → Prop
  | .start p => ∀ c, c ∉ (g.policies p).policy.cpus →
      (g.policies (g.cpus c).sgPolicy).tunables = (g.policies p).tunables →
      (g.cpus c).iowaitBoost ≤ (g.policies p).policy.maxFreq
  | .iowaitBoostMax t boostMax => ∀ c, (g.policies (g.cpus c).sgPolicy).tunables = t →
      (g.cpus c).iowaitBoost ≤ boostMax
  | .update _ env => ∀ t c, (g.tunables t).iowaitBoostMax * (env.rq c).scaleCpu < 2 ^ 64 ∧
      (g.tunables t).iowaitBoostMax < 2 ^ 64
  | _ => True

namespace BoostsBounded

variable {g : Gov L}

theorem setCpu (h : g.BoostsBounded) (cpu : Nat) {c : SugovCpu}
    (hp : c.sgPolicy? = (g.cpus cpu).sgPolicy?)
    (hb : c.iowaitBoost ≤ (g.tunablesOf cpu).iowaitBoostMax) : (g.setCpu cpu c).BoostsBounded := by
  intro d
  rw [(SameWiring.setCpu cpu hp).tunablesOf]
  by_cases hd : d = cpu
  · subst hd
    simpa using hb
  · simpa [Function.update_of_ne hd] using h d

theorem setPolicy (h : g.BoostsBounded) {p : Nat} {sg : SugovPolicy L}
    (hsg : sg.tunables = (g.policies p).tunables) : (g.setPolicy p sg).BoostsBounded := by
  intro d
  rw [(SameWiring.setPolicy hsg).tunablesOf]
  exact h d

theorem setTunables (h : g.BoostsBounded) {t : Nat} {tun : SugovTunables}
    (ht : ∀ c, (g.policies (g.cpus c).sgPolicy).tunables = t →
      (g.cpus c).iowaitBoost ≤ tun.iowaitBoostMax) : (g.setTunables t tun).BoostsBounded := by
  intro d
  unfold Gov.setTunables tunablesOf
  dsimp only
  by_cases hd : (g.policies (g.cpus d).sgPolicy).tunables = t
  · rw [hd, Function.update_self]
    exact ht d hd
  · rw [Function.update_of_ne hd]
    exact h d

theorem setIowaitBoost_le (env : Env) {boostMax : Nat} {c : SugovCpu}
    (h : c.iowaitBoost ≤ boostMax) : (sugovSetIowaitBoost env boostMax c).iowaitBoost ≤ boostMax := by
  unfold sugovSetIowaitBoost
  split
  · exact le_refl _
  · split
    · exact Nat.zero_le _
    · exact h

theorem iowaitBoost_halved (boostMax util max : Nat) (c : SugovCpu) :
    (sugovIowaitBoost boostMax c util max).1.iowaitBoost ≤ c.iowaitBoost := by
  unfold sugovIowaitBoost
  split
  · exact le_refl _
  · dsimp only
    rw [Nat.shiftRight_eq_div_pow]
    exact Nat.div_le_self _ _

theorem enterHook (h : g.BoostsBounded) (env : Env) (cpu : Nat) {c : SugovCpu}
    (hp : c.sgPolicy? = (g.cpus cpu).sgPolicy?) (hb : c.iowaitBoost = (g.cpus cpu).iowaitBoost) :
    (g.enterHook env cpu c).BoostsBounded :=
  h.setCpu cpu (by simpa using hp) (setIowaitBoost_le env (hb.trans_le (h cpu)))

theorem shouldUpdate (h : g.BoostsBounded) (p time : Nat) : (g.shouldUpdate p time).2.BoostsBounded :=
  h.setPolicy (shouldUpdate_tunables _ _)

theorem commit (h : g.BoostsBounded) (p time nextF : Nat) (call : Option FreqCall) :
    (g.commit p time nextF call).gov.BoostsBounded :=
  h.setPolicy (updateCommit_tunables _ _ _)

theorem commitNext (h : g.BoostsBounded) (p time : Nat) {o : Option (Gov L × Option FreqCall × Nat)}
    (ho : ∀ r ∈ o, r.1.BoostsBounded) : (g.commitNext p time o).gov.BoostsBounded := by
  cases o with
  | none => exact h
  | some r => exact (ho r rfl).commit _ _ _ _

theorem nextFreqSingle (h : g.BoostsBounded) (env : Env) (p cpu : Nat) (busy : Bool) :
    ∀ r ∈ sugovNextFreqSingle resolve env p cpu busy g, r.1.BoostsBounded := by
  intro r hr
  unfold sugovNextFreqSingle at hr
  dsimp only at hr
  split at hr
  · cases hr
  · cases hr
    refine BoostsBounded.setPolicy (h.setCpu cpu ?_ ?_) ?_
    · exact sugovIowaitBoost_sgPolicy _ _ _ _
    · exact (iowaitBoost_halved _ _ _ _).trans (h cpu)
    · exact cachedOrResolved_tunables _ _ _

theorem nextFreqShared (h : g.BoostsBounded) (env : Env) (p : Nat) :
    ∀ r ∈ sugovNextFreqShared resolve env p g, r.1.BoostsBounded := by
  intro r hr
  unfold sugovNextFreqShared at hr
  dsimp only at hr
  split at hr
  · cases hr
    exact h
  split at hr
  · cases hr
  · cases hr
    have hcpu : (g.setCpu workCore (g.sharedUtil env).2.1).BoostsBounded :=
      h.setCpu workCore (sugovIowaitBoost_sgPolicy _ _ _ _)
        ((iowaitBoost_halved _ _ _ _).trans (h workCore))
    exact hcpu.setPolicy (cachedOrResolved_tunables _ _ _)

theorem update (h : g.BoostsBounded) (env : Env) (cpu : Nat) :
    (sugovUpdate resolve env cpu g).gov.BoostsBounded := by
  unfold sugovUpdate
  split
  · exact h
  · unfold sugovUpdateShared
    have hadm := (h.enterHook env cpu (c := { g.cpus cpu with flags := env.flags }) rfl rfl).shouldUpdate
      (g.cpus cpu).sgPolicy env.time
    dsimp only
    split
    · split
      · exact hadm.commit _ _ _ _
      · exact hadm.commitNext _ _ (hadm.nextFreqShared env _)
    · exact hadm
  · unfold sugovUpdateSingle
    have hadm := (h.enterHook env cpu (c := g.cpus cpu) rfl rfl).shouldUpdate
      (g.cpus cpu).sgPolicy env.time
    dsimp only
    split
    · have hbusy := hadm.setCpu cpu (c := (sugovCpuIsBusy env.idleCalls _).2) rfl (hadm cpu)
      split
      · exact hbusy.commit _ _ _ _
      · exact hbusy.commitNext _ _ (hbusy.nextFreqSingle env _ cpu _)
    · exact hadm

theorem forEachPolicy (h : g.BoostsBounded) (t : Nat) (change : SugovPolicy L → SugovPolicy L)
    (hchange : ∀ sg, (change sg).tunables = sg.tunables) : (g.forEachPolicy t change).BoostsBounded := by
  intro d
  have hsame : (g.forEachPolicy t change).tunablesOf d = g.tunablesOf d := by
    unfold tunablesOf Gov.forEachPolicy
    dsimp only
    split
    · exact congrArg g.tunables (hchange _)
    · rfl
  rw [hsame]
  exact h d

theorem start (h : g.BoostsBounded) {p : Nat} (he : g.KeepsBoosts (.start p)) :
    (sugovStart p g).BoostsBounded := by
  intro c
  by_cases hc : c ∈ (g.policies p).policy.cpus
  · simp [sugovStart, hc]
  · simp only [sugovStart, hc, if_false, tunablesOf]
    by_cases hp : (g.cpus c).sgPolicy = p
    · rw [hp, Function.update_self, Function.update_self]
      exact he c hc (by rw [hp])
    · rw [Function.update_of_ne hp]
      by_cases ht : (g.policies (g.cpus c).sgPolicy).tunables = (g.policies p).tunables
      · rw [ht, Function.update_self]
        exact he c hc ht
      · rw [Function.update_of_ne ht]
        exact h c

theorem next (h : g.BoostsBounded) {e : GovEvent L} (he : g.KeepsBoosts e) :
    (g.next resolve e).BoostsBounded := by
  cases e with
  | start p => exact h.start he
  | stop p => exact h
  | update cpu env => exact h.update env cpu
  | workTarget p cur => exact h.setPolicy rfl
  | workClear p => exact h.setPolicy rfl
  | limits p limits cur => exact h.setPolicy rfl
  | upRateLimitUs t us =>
    have hset : (g.setTunables t { g.tunables t with upRateLimitUs := us }).BoostsBounded :=
      h.setTunables fun c hc => hc ▸ h c
    exact hset.forEachPolicy t (fun sg => { sg with upRateDelayNs := us * nsecPerUsec })
      fun _ => rfl
  | downRateLimitUs t us =>
    have hset : (g.setTunables t { g.tunables t with downRateLimitUs := us }).BoostsBounded :=
      h.setTunables fun c hc => hc ▸ h c
    exact hset.forEachPolicy t (fun sg => { sg with downRateDelayNs := us * nsecPerUsec })
      fun _ => rfl
  | iowaitBoostMax t boostMax => exact h.setTunables he
  | capacityMargin t margin =>
    unfold Gov.next capacityMarginStore
    dsimp only
    split
    · exact h
    · exact h.setTunables fun c hc => hc ▸ h c

/-- A boost below the maximum in force fits, as long as the products do not wrap. -/
theorem boostInForce (h : g.BoostsBounded) {e : GovEvent L} (he : g.KeepsBoosts e)
    (hutil : g.TracksUtil e) : g.BoostInForce resolve e := by
  cases e with
  | update cpu env =>
    intro shared _ _
    dsimp only
    have hentered : (g.entered shared env cpu).BoostsBounded := by
      refine h.enterHook env cpu ?_ ?_
      · unfold hookCpu
        split <;> rfl
      · unfold hookCpu
        split <;> rfl
    obtain ⟨hmax, hle, hscale⟩ := plainUtil_to_scale shared hutil.1 hutil.2 (g.entered shared env cpu)
    have hb := hentered (boostCpu shared cpu)
    obtain ⟨t, ht⟩ : ∃ t, (g.entered shared env cpu).tunablesOf (boostCpu shared cpu) =
      g.tunables t := ⟨_, rfl⟩
    rw [ht] at hb ⊢
    generalize (g.entered shared env cpu).plainUtil shared env = plain at hmax hle hscale ⊢
    have hfit : plain.2 * (g.tunables t).iowaitBoostMax < 2 ^ 64 := by
      rcases hscale with hone | ⟨j, hj⟩
      · rw [hone, Nat.one_mul]
        exact (he t 0).2
      · rw [hj, Nat.mul_comm]
        exact (he t j).1
    have hutil_le : plain.1 * (g.tunables t).iowaitBoostMax ≤
        plain.2 * (g.tunables t).iowaitBoostMax := Nat.mul_le_mul_right _ hle
    have hboost_le := Nat.mul_le_mul_left plain.2 hb
    by_cases hless : plain.2 * ((g.entered shared env cpu).cpus (boostCpu shared cpu)).iowaitBoost ≤
        plain.1 * (g.tunables t).iowaitBoostMax
    · refine .inr (.inl ?_)
      rw [u64_of_lt (by omega), u64_of_lt (by omega)]
      exact hless
    · refine .inr (.inr ⟨hb, ?_⟩)
      rw [Nat.mul_comm _ plain.2]
      omega
  | _ => trivial

end BoostsBounded

end Gov

/-- Runs in which nobody lowers a maximum under an outstanding boost evaluate scaled
utilisations only. -/
theorem evaluations_scaled_of_keepsBoosts {policies : Nat → CpufreqPolicy L}
    {es : List (GovEvent L)}
    (hutil : Along (Gov.next resolve) Gov.TracksUtil (sugovInit policies) es)
    (hkeep : Along (Gov.next resolve) Gov.KeepsBoosts (sugovInit policies) es) :
    Along (Gov.next resolve) (Gov.EvaluatesScaled resolve) (sugovInit policies) es := by
  have hstart : (sugovInit policies).BoostsBounded := fun _ => Nat.zero_le _
  refine (hutil.and hkeep).imp (I := Gov.BoostsBounded) (fun _ _ h he => h.next he.2) ?_ hstart
  intro g e h he
  exact (Gov.evaluatesScaled_iff he.1).mpr (h.boostInForce he.2 he.1)

/-- A run evaluates scaled utilisations only, exactly if no evaluation in it meets a boost
that is more than the maximum in force, or whose comparison wraps. -/
theorem evaluations_scaled_iff {g : Gov L} {es : List (GovEvent L)}
    (h : Along (Gov.next resolve) Gov.TracksUtil g es) :
    Along (Gov.next resolve) (Gov.EvaluatesScaled resolve) g es ↔
      Along (Gov.next resolve) (Gov.BoostInForce resolve) g es :=
  h.iff_of fun _ _ => Gov.evaluatesScaled_iff

/-- An I/O wait of CPU 0, and the switch to the maximum it leads to. -/
def ioWait : List (GovEvent (Nat × Nat)) :=
  [.start 0, .update 0 { busyEnv 10000000 512 1 with flags := schedCpufreqIowait },
    .workTarget 0 2000000, .workClear 0]

theorem evaluations_scaled_io_wait :
    Along (Gov.next clampFreq) (Gov.EvaluatesScaled clampFreq) (machine {0}) ioWait := by
  have hutil : Along (Gov.next clampFreq) Gov.TracksUtil (machine {0}) ioWait :=
    ⟨trivial, ⟨rfl, fun _ => (by decide : 0 < 1024)⟩, trivial, trivial, trivial⟩
  refine (evaluations_scaled_iff hutil).mpr ⟨trivial, fun shared hshared _ => ?_, trivial, trivial, trivial⟩
  have hsingle : shared = false := Option.some.inj (hshared.symm.trans (by decide +kernel))
  subst hsingle
  decide +kernel

/-- The maximum is then set to zero while half the boost is outstanding: the next update
divides by it. Set to a quarter, it makes a utilisation of twice the scale. -/
theorem evaluation_divides_by_zero :
    ((((run (Gov.next clampFreq) (machine {0}) (ioWait ++ [.iowaitBoostMax 0 0])).entered false
        (busyEnv 11000000 512 2) 0).boostedUtil false (busyEnv 11000000 512 2) 0) = (1000000, 0)) ∧
      ((((run (Gov.next clampFreq) (machine {0}) (ioWait ++ [.iowaitBoostMax 0 500000])).entered false
        (busyEnv 11000000 512 2) 0).boostedUtil false (busyEnv 11000000 512 2) 0) = (1000000, 500000)) ∧
      ¬ ∀ es : List (GovEvent (Nat × Nat)), Along (Gov.next clampFreq) Gov.TracksUtil (machine {0}) es →
        Along (Gov.next clampFreq) (Gov.EvaluatesScaled clampFreq) (machine {0}) es := by
  have hzero : (((run (Gov.next clampFreq) (machine {0}) (ioWait ++ [.iowaitBoostMax 0 0])).entered false
      (busyEnv 11000000 512 2) 0).boostedUtil false (busyEnv 11000000 512 2) 0) = (1000000, 0) := by
    decide +kernel
  refine ⟨hzero, by decide +kernel, fun hall => ?_⟩
  have hutil : Along (Gov.next clampFreq) Gov.TracksUtil (machine {0})
      (ioWait ++ [.iowaitBoostMax 0 0, .update 0 (busyEnv 11000000 512 2)]) :=
    ⟨trivial, ⟨rfl, fun _ => (by decide : 0 < 1024)⟩, trivial, trivial, trivial,
      ⟨rfl, fun _ => (by decide : 0 < 1024)⟩, trivial⟩
  obtain ⟨-, -, -, -, -, hlast, -⟩ := hall _ hutil
  have hscaled := hlast false (by decide +kernel) (by decide +kernel)
  have hpos := hscaled.max_pos
  exact absurd (hpos.trans_eq (congrArg Prod.snd hzero)) (by decide)

end MSchedutil
