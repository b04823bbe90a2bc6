import MSchedutil.GovernorUpdate

/-! An update seen from its policy. Whatever a hook reads of runqueues, tunables
and CPUs, it ends in one `Request`, and the policy's record changes only as
serving that request changes it. -/

namespace MSchedutil

variable {L : Type*}

/-- How an update asks for a frequency: the maximum, or what a raw frequency
resolves to, where a reduction is dropped if the update must `hold`; or it faults
on an `sg_policy` that is `NULL` before it asks for any. -/
inductive Request where
  | maximum
  | evaluated (raw : Nat) (hold : Bool)
  | fault
  deriving DecidableEq, Repr

structure Served (L : Type*) where
  sg : SugovPolicy L
  call : Option FreqCall
  queued : Bool

namespace Request

def grant (time nextF : Nat) (sg : SugovPolicy L) (call : Option FreqCall) : Served L :=
  ⟨(sugovUpdateCommit sg time nextF).1, call, (sugovUpdateCommit sg time nextF).2⟩

/-- An admitted request at the policy `sugov_should_update_freq` left. -/
def admitted (resolve : L → Nat → Nat) (time p : Nat) (sg : SugovPolicy L) : Request → Served L
  | maximum => grant time sg.policy.maxFreq sg none
  | evaluated raw hold =>
    let (shortcut, freq, sg) := cachedOrResolved resolve sg raw
    grant time (if hold ∧ freq < sg.nextFreq then sg.nextFreq else freq) sg
      (some ⟨p, raw, shortcut, freq⟩)
  | fault => ⟨sg, none, false⟩

def serve (resolve : L → Nat → Nat) (time p : Nat) (sg : SugovPolicy L) (req : Request) :
    Served L :=
  let (update, sg) := sugovShouldUpdateFreq sg time
  if update then req.admitted resolve time p sg else ⟨sg, none, false⟩

end Request

@[simp] theorem shouldUpdate_tunables (sg : SugovPolicy L) (time : Nat) :
    (sugovShouldUpdateFreq sg time).2.tunables = sg.tunables := by
  unfold sugovShouldUpdateFreq
  split
  · rfl
  · split <;> rfl

@[simp] theorem shouldUpdate_policy (sg : SugovPolicy L) (time : Nat) :
    (sugovShouldUpdateFreq sg time).2.policy = sg.policy := by
  unfold sugovShouldUpdateFreq
  split
  · rfl
  · split <;> rfl

@[simp] theorem cachedOrResolved_tunables (resolve : L → Nat → Nat) (sg : SugovPolicy L)
    (raw : Nat) : (cachedOrResolved resolve sg raw).2.2.tunables = sg.tunables := by
  unfold cachedOrResolved
  split <;> rfl

@[simp] theorem cachedOrResolved_nextFreq (resolve : L → Nat → Nat) (sg : SugovPolicy L)
    (raw : Nat) : (cachedOrResolved resolve sg raw).2.2.nextFreq = sg.nextFreq := by
  unfold cachedOrResolved
  split <;> rfl

@[simp] theorem updateCommit_tunables (sg : SugovPolicy L) (time nextF : Nat) :
    (sugovUpdateCommit sg time nextF).1.tunables = sg.tunables := by
  unfold sugovUpdateCommit
  split
  · rfl
  · split
    · rfl
    · dsimp only
      split
      · split <;> rfl
      · rfl

@[simp] theorem sugovSetIowaitBoost_sgPolicy (env : Env) (boostMax : Nat) (c : SugovCpu) :
    (sugovSetIowaitBoost env boostMax c).sgPolicy? = c.sgPolicy? := by
  unfold sugovSetIowaitBoost
  split
  · rfl
  · split <;> rfl

@[simp] theorem sugovSetIowaitBoost_savedIdleCalls (env : Env) (boostMax : Nat) (c : SugovCpu) :
    (sugovSetIowaitBoost env boostMax c).savedIdleCalls = c.savedIdleCalls := by
  unfold sugovSetIowaitBoost
  split
  · rfl
  · split <;> rfl

@[simp] theorem sugovIowaitBoost_sgPolicy (boostMax : Nat) (c : SugovCpu) (util max : Nat) :
    (sugovIowaitBoost boostMax c util max).1.sgPolicy? = c.sgPolicy? := by
  unfold sugovIowaitBoost
  split <;> rfl

theorem sugovIowaitBoost_snd_congr (boostMax util max : Nat) {c c' : SugovCpu}
    (h : c'.iowaitBoost = c.iowaitBoost) :
    (sugovIowaitBoost boostMax c' util max).2 = (sugovIowaitBoost boostMax c util max).2 := by
  unfold sugovIowaitBoost
  rw [h]
  split <;> rfl

namespace Gov

/-- Two governors whose CPUs belong to the same policies with the same tunables and hooks. -/
structure SameWiring (g g' : Gov L) : Prop where
  sgPolicy? : ∀ c, (g'.cpus c).sgPolicy? = (g.cpus c).sgPolicy?
  tunablesId : ∀ p, (g'.policies p).tunables = (g.policies p).tunables
  tunables : g'.tunables = g.tunables
  hooks : g'.hooks = g.hooks

namespace SameWiring

variable {g g' g'' : Gov L}

theorem refl (g : Gov L) : SameWiring g g := ⟨fun _ => rfl, fun _ => rfl, rfl, rfl⟩

theorem trans (h : SameWiring g g') (h' : SameWiring g' g'') : SameWiring g g'' where
  sgPolicy? c := (h'.sgPolicy? c).trans (h.sgPolicy? c)
  tunablesId p := (h'.tunablesId p).trans (h.tunablesId p)
  tunables := h'.tunables.trans h.tunables
  hooks := h'.hooks.trans h.hooks

theorem sgPolicy (h : SameWiring g g') (c : Nat) : (g'.cpus c).sgPolicy = (g.cpus c).sgPolicy := by
  unfold SugovCpu.sgPolicy
  rw [h.sgPolicy?]

theorem hasPolicy (h : SameWiring g g') (c : Nat) :
    (g'.cpus c).hasPolicy = (g.cpus c).hasPolicy := by
  unfold SugovCpu.hasPolicy
  rw [h.sgPolicy?]

theorem utilFaults (h : SameWiring g g') (env : Env) (c : Nat) :
    g'.utilFaults env c = g.utilFaults env c := by
  unfold Gov.utilFaults
  rw [h.hasPolicy]

theorem setCpu (cpu : Nat) {c : SugovCpu} (hc : c.sgPolicy? = (g.cpus cpu).sgPolicy?) :
    SameWiring g (g.setCpu cpu c) where
  sgPolicy? d := by
    unfold Gov.setCpu
    by_cases hd : d = cpu
    · subst hd
      simpa using hc
    · simp [Function.update_of_ne hd]
  tunablesId _ := rfl
  tunables := rfl
  hooks := rfl

theorem setPolicy {p : Nat} {sg : SugovPolicy L} (hsg : sg.tunables = (g.policies p).tunables) :
    SameWiring g (g.setPolicy p sg) where
  sgPolicy? _ := rfl
  tunablesId q := by
    unfold Gov.setPolicy
    by_cases hq : q = p
    · subst hq
      simpa using hsg
    · simp [Function.update_of_ne hq]
  tunables := rfl
  hooks := rfl

theorem tunablesOf (h : SameWiring g g') (cpu : Nat) : g'.tunablesOf cpu = g.tunablesOf cpu := by
  unfold Gov.tunablesOf
  rw [h.sgPolicy, h.tunablesId, h.tunables]

theorem enterHook (env : Env) (cpu : Nat) {c : SugovCpu}
    (hc : c.sgPolicy? = (g.cpus cpu).sgPolicy?) : SameWiring g (g.enterHook env cpu c) :=
  setCpu cpu (by simpa using hc)

theorem commit (p time nextF : Nat) (call : Option FreqCall) :
    SameWiring g (g.commit p time nextF call).gov :=
  setPolicy (updateCommit_tunables _ _ _)

end SameWiring

/-- What an evaluation reads besides the wiring. -/
structure SameInputs (g g' : Gov L) : Prop extends SameWiring g g' where
  iowaitBoost : ∀ c, (g'.cpus c).iowaitBoost = (g.cpus c).iowaitBoost
  policy : ∀ p, (g'.policies p).policy = (g.policies p).policy

namespace SameInputs

variable {g g' g'' : Gov L}

theorem trans (h : SameInputs g g') (h' : SameInputs g' g'') : SameInputs g g'' where
  toSameWiring := h.toSameWiring.trans h'.toSameWiring
  iowaitBoost c := (h'.iowaitBoost c).trans (h.iowaitBoost c)
  policy p := (h'.policy p).trans (h.policy p)

theorem setPolicy {p : Nat} {sg : SugovPolicy L} (ht : sg.tunables = (g.policies p).tunables)
    (hsg : sg.policy = (g.policies p).policy) : SameInputs g (g.setPolicy p sg) where
  toSameWiring := .setPolicy ht
  iowaitBoost _ := rfl
  policy q := by
    by_cases hq : q = p
    · subst hq
      simpa using hsg
    · simp [Function.update_of_ne hq]

theorem setCpu (cpu : Nat) {c : SugovCpu} (hp : c.sgPolicy? = (g.cpus cpu).sgPolicy?)
    (hb : c.iowaitBoost = (g.cpus cpu).iowaitBoost) : SameInputs g (g.setCpu cpu c) where
  toSameWiring := .setCpu cpu hp
  iowaitBoost d := by
    by_cases hd : d = cpu
    · subst hd
      simpa using hb
    · simp [Function.update_of_ne hd]
  policy _ := rfl

theorem shouldUpdate (g : Gov L) (p time : Nat) : SameInputs g (g.shouldUpdate p time).2 :=
  setPolicy (shouldUpdate_tunables _ _) (shouldUpdate_policy _ _)

end SameInputs

theorem SameInputs.singleUtil {g g' : Gov L} (h : SameInputs g g') (env : Env) (cpu : Nat) :
    (g'.singleUtil env cpu).2 = (g.singleUtil env cpu).2 := by
  unfold Gov.singleUtil
  rw [h.tunablesOf, h.tunablesOf]
  exact sugovIowaitBoost_snd_congr _ _ _ (h.iowaitBoost cpu)

theorem SameInputs.sharedUtil {g g' : Gov L} (h : SameInputs g g') (env : Env) :
    (g'.sharedUtil env).1 = (g.sharedUtil env).1 ∧
      (g'.sharedUtil env).2.2 = (g.sharedUtil env).2.2 := by
  unfold Gov.sharedUtil
  dsimp only
  rw [h.tunablesOf]
  exact ⟨rfl, sugovIowaitBoost_snd_congr _ _ _ (h.iowaitBoost workCore)⟩

/-- The raw frequency an update of `cpu` evaluates for a policy of its own. -/
def singleRaw (env : Env) (cpu : Nat) (g : Gov L) : Nat :=
  let util := (g.singleUtil env cpu).2
  rawFreq env (g.tunablesOf cpu).capacityMargin (g.policies (g.cpus cpu).sgPolicy).policy
    env.smpProcessorId util.1 util.2

/-- The raw frequency an update of `cpu` evaluates for a shared policy. -/
def sharedRaw (env : Env) (cpu : Nat) (g : Gov L) : Nat :=
  let util := (g.sharedUtil env).2.2
  rawFreq env (g.tunablesOf cpu).capacityMargin (g.policies (g.cpus cpu).sgPolicy).policy
    (g.sharedUtil env).1 util.1 util.2

theorem SameInputs.singleRaw {g g' : Gov L} (h : SameInputs g g') (env : Env) (cpu : Nat) :
    g'.singleRaw env cpu = g.singleRaw env cpu := by
  unfold Gov.singleRaw
  rw [h.singleUtil, h.tunablesOf, h.sgPolicy, h.policy]

theorem SameInputs.sharedRaw {g g' : Gov L} (h : SameInputs g g') (env : Env) (cpu : Nat) :
    g'.sharedRaw env cpu = g.sharedRaw env cpu := by
  unfold Gov.sharedRaw
  rw [(h.sharedUtil env).1, (h.sharedUtil env).2, h.tunablesOf, h.sgPolicy, h.policy]

/-- The CPU as the prologue of its hook leaves it. -/
def hookCpu (shared : Bool) (env : Env) (cpu : Nat) (g : Gov L) : SugovCpu :=
  if shared then { g.cpus cpu with flags := env.flags } else g.cpus cpu

/-- The governor behind the prologue of the hook. -/
def entered (shared : Bool) (env : Env) (cpu : Nat) (g : Gov L) : Gov L :=
  g.enterHook env cpu (g.hookCpu shared env cpu)

/-- The request an update of `cpu` makes, from the governor it finds. -/
def request (shared : Bool) (env : Env) (cpu : Nat) (g : Gov L) : Request :=
  let entered := g.enterHook env cpu (g.hookCpu shared env cpu)
  if hasFlag env.flags schedCpufreqDl then .maximum
  else if shared then
    if hasFlag (entered.cpus workCore).flags schedCpufreqDl then .maximum
    else if (g.cpus workCore).hasPolicy then .evaluated (entered.sharedRaw env cpu) false
    else .fault
  else if g.utilFaults env env.smpProcessorId then .fault
  else .evaluated (entered.singleRaw env cpu) (decide (env.idleCalls = (g.cpus cpu).savedIdleCalls))

end Gov

/-- What an evaluation hands to the commit: the policy and frequency with which the
request is granted, and a governor that differs from the old one nowhere else. -/
structure Nominates (resolve : L → Nat → Nat) (p : Nat) (g : Gov L) (req : Request)
    (r : Gov L × Option FreqCall × Nat) : Prop where
  admitted : ∀ time,
    req.admitted resolve time p (g.policies p) = Request.grant time r.2.2 (r.1.policies p) r.2.1
  others : ∀ q ≠ p, r.1.policies q = g.policies q
  wiring : g.SameWiring r.1

/-- An evaluation nominates, or the request it serves is the one of a fault. -/
def Evaluates (resolve : L → Nat → Nat) (p : Nat) (g : Gov L) (req : Request) :
    Option (Gov L × Option FreqCall × Nat) → Prop
  | none => req = .fault
  | some r => Nominates resolve p g req r

theorem evaluates_single (resolve : L → Nat → Nat) (env : Env) (cpu : Nat) (busy : Bool)
    (g : Gov L) : Evaluates resolve (g.cpus cpu).sgPolicy g
      (if g.utilFaults env env.smpProcessorId then .fault
        else .evaluated (g.singleRaw env cpu) busy)
      (sugovNextFreqSingle resolve env (g.cpus cpu).sgPolicy cpu busy g) := by
  unfold sugovNextFreqSingle
  dsimp only
  split
  · exact rfl
  · refine ⟨fun time => ?_, fun q hq => ?_, ?_⟩
    · simp [Request.admitted, getNextFreq, Gov.singleRaw, Gov.setPolicy]
    · simp [Gov.setPolicy, Gov.setCpu, Function.update_of_ne hq]
    · refine Gov.SameWiring.trans (Gov.SameWiring.setCpu cpu ?_) (Gov.SameWiring.setPolicy ?_)
      · exact sugovIowaitBoost_sgPolicy _ _ _ _
      · exact cachedOrResolved_tunables _ _ _

theorem evaluates_shared (resolve : L → Nat → Nat) (env : Env) (cpu : Nat) (g : Gov L) :
    Evaluates resolve (g.cpus cpu).sgPolicy g
      (if hasFlag (g.cpus workCore).flags schedCpufreqDl then .maximum
        else if (g.cpus workCore).hasPolicy then .evaluated (g.sharedRaw env cpu) false
        else .fault)
      (sugovNextFreqShared resolve env (g.cpus cpu).sgPolicy g) := by
  unfold sugovNextFreqShared
  dsimp only
  split
  · exact ⟨fun time => rfl, fun _ _ => rfl, .refl g⟩
  cases hpolicy : (g.cpus workCore).hasPolicy with
  | false => exact rfl
  | true =>
    refine ⟨fun time => ?_, fun q hq => ?_, ?_⟩
    · simp [Request.admitted, getNextFreq, Gov.sharedRaw, Gov.setPolicy, Gov.tunablesOf]
    · simp [Gov.setPolicy, Gov.setCpu, Function.update_of_ne hq]
    · have hcpu : g.SameWiring (g.setCpu workCore (g.sharedUtil env).2.1) :=
        .setCpu workCore (sugovIowaitBoost_sgPolicy _ _ _ _)
      have hsg := hcpu.trans (.setPolicy (p := (g.cpus cpu).sgPolicy)
        (cachedOrResolved_tunables resolve (g.policies (g.cpus cpu).sgPolicy)
          (g.sharedRaw env cpu)))
      exact ⟨hsg.sgPolicy?, hsg.tunablesId, hsg.tunables, hsg.hooks⟩

/-- What an update did: policy `p` served the request, and nothing else of the machine
that another update depends on has moved. -/
structure UpdateResult.Serves (resolve : L → Nat → Nat) (time p : Nat) (g : Gov L) (req : Request)
    (r : UpdateResult L) : Prop where
  served : ⟨r.gov.policies p, r.call, r.queued⟩ = req.serve resolve time p (g.policies p)
  others : ∀ q ≠ p, r.gov.policies q = g.policies q
  wiring : g.SameWiring r.gov

/-- The governor between the admission of an update and its commit. -/
structure Admitted (time p : Nat) (g g' : Gov L) : Prop where
  wiring : g.SameWiring g'
  sg : g'.policies p = (sugovShouldUpdateFreq (g.policies p) time).2
  others : ∀ q ≠ p, g'.policies q = g.policies q

theorem admitted_shouldUpdate {g : Gov L} (env : Env) (p cpu : Nat) {c : SugovCpu}
    (hc : c.sgPolicy? = (g.cpus cpu).sgPolicy?) :
    Admitted env.time p g ((g.enterHook env cpu c).shouldUpdate p env.time).2 where
  wiring := (Gov.SameWiring.enterHook env cpu hc).trans
    (Gov.SameInputs.shouldUpdate _ _ _).toSameWiring
  sg := by simp [Gov.shouldUpdate]
  others q hq := by simp [Gov.shouldUpdate, Function.update_of_ne hq]

namespace UpdateResult.Serves

variable {resolve : L → Nat → Nat} {time p : Nat} {g g' : Gov L} {req : Request}

theorem refused (ha : Admitted time p g g')
    (h : (sugovShouldUpdateFreq (g.policies p) time).1 = false) :
    Serves resolve time p g req ⟨g', none, false⟩ where
  served := by simp [Request.serve, h, ha.sg]
  others := ha.others
  wiring := ha.wiring

/-- A nomination made at a governor that admitted the update is committed. -/
theorem committed {r : Gov L × Option FreqCall × Nat} (ha : Admitted time p g g')
    (h : (sugovShouldUpdateFreq (g.policies p) time).1 = true)
    (hn : Nominates resolve p g' req r) :
    Serves resolve time p g req (r.1.commit p time r.2.2 r.2.1) where
  served := by
    simp [Request.serve, h, ← ha.sg, hn.admitted, Gov.commit, Gov.setPolicy, Request.grant]
  others q hne := by
    simpa [Gov.commit, Gov.setPolicy, Function.update_of_ne hne] using
      (hn.others q hne).trans (ha.others q hne)
  wiring := (ha.wiring.trans hn.wiring).trans (.commit _ _ _ _)

/-- An evaluation made there is committed, unless it faults. -/
theorem evaluated {o : Option (Gov L × Option FreqCall × Nat)} (ha : Admitted time p g g')
    (h : (sugovShouldUpdateFreq (g.policies p) time).1 = true)
    (he : Evaluates resolve p g' req o) : Serves resolve time p g req (g'.commitNext p time o) := by
  cases o with
  | none =>
    have hfault : req = .fault := he
    subst hfault
    exact ⟨by simp [Request.serve, Request.admitted, h, Gov.commitNext, ha.sg], ha.others, ha.wiring⟩
  | some r => exact committed ha h he

variable {r : UpdateResult L}

theorem sg (h : Serves resolve time p g req r) :
    r.gov.policies p = (req.serve resolve time p (g.policies p)).sg := congrArg Served.sg h.served

theorem call (h : Serves resolve time p g req r) :
    r.call = (req.serve resolve time p (g.policies p)).call := congrArg Served.call h.served

theorem queued (h : Serves resolve time p g req r) :
    r.queued = (req.serve resolve time p (g.policies p)).queued :=
  congrArg Served.queued h.served

end UpdateResult.Serves

theorem nominates_maximum (resolve : L → Nat → Nat) (p : Nat) (g : Gov L) :
    Nominates resolve p g .maximum (g, none, (g.policies p).policy.maxFreq) :=
  ⟨fun _ => rfl, fun _ _ => rfl, .refl g⟩

theorem serves_updateSingle (resolve : L → Nat → Nat) (env : Env) (cpu : Nat) (g : Gov L) :
    (sugovUpdateSingle resolve env cpu g).Serves resolve env.time (g.cpus cpu).sgPolicy g
      (g.request false env cpu) := by
  have ha := admitted_shouldUpdate env (g.cpus cpu).sgPolicy cpu (c := g.cpus cpu) rfl
  have hin := Gov.SameInputs.shouldUpdate (g.enterHook env cpu (g.cpus cpu))
    (g.cpus cpu).sgPolicy env.time
  unfold sugovUpdateSingle
  dsimp only
  cases hs : (sugovShouldUpdateFreq (g.policies (g.cpus cpu).sgPolicy) env.time).1 with
  | false =>
    have hs' : ((g.enterHook env cpu (g.cpus cpu)).shouldUpdate (g.cpus cpu).sgPolicy
        env.time).1 = false := hs
    simp only [hs', Bool.false_eq_true, if_false]
    exact .refused ha hs
  | true =>
    have hs' : ((g.enterHook env cpu (g.cpus cpu)).shouldUpdate (g.cpus cpu).sgPolicy
        env.time).1 = true := hs
    have hidle : (((g.enterHook env cpu (g.cpus cpu)).shouldUpdate (g.cpus cpu).sgPolicy
        env.time).2.cpus cpu).savedIdleCalls = (g.cpus cpu).savedIdleCalls := by
      simp [Gov.shouldUpdate, Gov.enterHook]
    simp only [hs', if_true]
    generalize ((g.enterHook env cpu (g.cpus cpu)).shouldUpdate (g.cpus cpu).sgPolicy
        env.time).2 = g' at ha hin hidle ⊢
    have hbusy := hin.trans (.setCpu cpu
      (c := (sugovCpuIsBusy env.idleCalls (g'.cpus cpu)).2) rfl rfl)
    have ha' : Admitted env.time (g.cpus cpu).sgPolicy g
        (g'.setCpu cpu (sugovCpuIsBusy env.idleCalls (g'.cpus cpu)).2) :=
      ⟨ha.wiring.trans (.setCpu cpu rfl), ha.sg, ha.others⟩
    split
    · rename_i hdl
      refine .committed (r := (_, none, _)) ha' hs ?_
      rw [show g.request false env cpu = .maximum by simp [Gov.request, hdl]]
      exact nominates_maximum resolve (g.cpus cpu).sgPolicy _
    · rename_i hdl
      refine .evaluated ha' hs ?_
      have he := evaluates_single resolve env cpu (sugovCpuIsBusy env.idleCalls (g'.cpus cpu)).1
        (g'.setCpu cpu (sugovCpuIsBusy env.idleCalls (g'.cpus cpu)).2)
      rw [hbusy.singleRaw env cpu, ha'.wiring.sgPolicy cpu, ha'.wiring.utilFaults] at he
      have hreq : g.request false env cpu = if g.utilFaults env env.smpProcessorId then .fault
          else .evaluated ((g.enterHook env cpu (g.cpus cpu)).singleRaw env cpu)
            (sugovCpuIsBusy env.idleCalls (g'.cpus cpu)).1 := by
        simp [Gov.request, Gov.hookCpu, hdl, sugovCpuIsBusy, hidle]
      rwa [hreq]

theorem serves_updateShared (resolve : L → Nat → Nat) (env : Env) (cpu : Nat) (g : Gov L) :
    (sugovUpdateShared resolve env cpu g).Serves resolve env.time (g.cpus cpu).sgPolicy g
      (g.request true env cpu) := by
  have ha := admitted_shouldUpdate env (g.cpus cpu).sgPolicy cpu
    (c := { g.cpus cpu with flags := env.flags }) rfl
  have hin := Gov.SameInputs.shouldUpdate
    (g.enterHook env cpu { g.cpus cpu with flags := env.flags }) (g.cpus cpu).sgPolicy env.time
  unfold sugovUpdateShared
  dsimp only
  cases hs : (sugovShouldUpdateFreq (g.policies (g.cpus cpu).sgPolicy) env.time).1 with
  | false =>
    have hs' : ((g.enterHook env cpu { g.cpus cpu with flags := env.flags }).shouldUpdate
        (g.cpus cpu).sgPolicy env.time).1 = false := hs
    simp only [hs', Bool.false_eq_true, if_false]
    exact .refused ha hs
  | true =>
    have hs' : ((g.enterHook env cpu { g.cpus cpu with flags := env.flags }).shouldUpdate
        (g.cpus cpu).sgPolicy env.time).1 = true := hs
    have hcpus : ((g.enterHook env cpu { g.cpus cpu with flags := env.flags }).shouldUpdate
        (g.cpus cpu).sgPolicy env.time).2.cpus =
        (g.enterHook env cpu { g.cpus cpu with flags := env.flags }).cpus := rfl
    simp only [hs', if_true]
    generalize ((g.enterHook env cpu { g.cpus cpu with flags := env.flags }).shouldUpdate
        (g.cpus cpu).sgPolicy env.time).2 = g' at ha hin hcpus ⊢
    split
    · rename_i hdl
      refine .committed (r := (_, none, _)) ha hs ?_
      rw [show g.request true env cpu = .maximum by simp [Gov.request, hdl]]
      exact nominates_maximum resolve (g.cpus cpu).sgPolicy g'
    · rename_i hdl
      refine .evaluated ha hs ?_
      have he := evaluates_shared resolve env cpu g'
      rw [hin.sharedRaw env cpu, ha.wiring.sgPolicy cpu, ha.wiring.hasPolicy, hcpus] at he
      simpa [Gov.request, Gov.hookCpu, hdl] using he

/-- Every update of a hooked CPU serves one request at the CPU's policy. -/
theorem serves_update (resolve : L → Nat → Nat) (env : Env) {cpu : Nat} {g : Gov L} {shared : Bool}
    (h : g.hooks cpu = some shared) :
    (sugovUpdate resolve env cpu g).Serves resolve env.time (g.cpus cpu).sgPolicy g
      (g.request shared env cpu) := by
  unfold sugovUpdate
  cases shared with
  | false => simpa only [h] using serves_updateSingle resolve env cpu g
  | true => simpa only [h] using serves_updateShared resolve env cpu g

end MSchedutil
