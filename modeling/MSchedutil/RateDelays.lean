import MSchedutil.SetupBalance

/-! The delays a policy keeps in nanoseconds and the rate limits in microseconds that they
are made of, while policies join and leave the tunables that hold these limits. -/

namespace MSchedutil

open Word Transition

variable {L : Type*} {A : GovAttrSetOps}

theorem delay_fits {us : Nat} (hus : us < 2 ^ 32) :
    us * nsecPerUsec < 2 ^ 63 ∧ s64 (us * nsecPerUsec) = us * nsecPerUsec := by
  have hlt : us * nsecPerUsec < 2 ^ 63 := by
    unfold nsecPerUsec
    omega
  exact ⟨hlt, by rw [s64_of_lt hlt]; push_cast; rfl⟩

/-- The delays of a policy are those of its tunables, and a signed word holds each of them. -/
structure SugovPolicy.Follows (sg : SugovPolicy L) (t : SugovTunables) : Prop where
  up : sg.upRateDelayNs = 1000 * t.upRateLimitUs
  down : sg.downRateDelayNs = 1000 * t.downRateLimitUs
  min : sg.minRateLimitNs = min sg.upRateDelayNs sg.downRateDelayNs
  upFits : s64 (t.upRateLimitUs * nsecPerUsec) = sg.upRateDelayNs
  downFits : s64 (t.downRateLimitUs * nsecPerUsec) = sg.downRateDelayNs

theorem SugovPolicy.follows_of_delays {sg : SugovPolicy L} {t : SugovTunables}
    (hup : sg.upRateDelayNs = t.upRateLimitUs * nsecPerUsec)
    (hdown : sg.downRateDelayNs = t.downRateLimitUs * nsecPerUsec)
    (hmin : sg.minRateLimitNs = Nat.min sg.upRateDelayNs sg.downRateDelayNs)
    (hupLt : t.upRateLimitUs < 2 ^ 32) (hdownLt : t.downRateLimitUs < 2 ^ 32) : sg.Follows t where
  up := hup.trans (Nat.mul_comm _ _)
  down := hdown.trans (Nat.mul_comm _ _)
  min := hmin
  upFits := by
    rw [(delay_fits hupLt).2, hup]
    push_cast
    rfl
  downFits := by
    rw [(delay_fits hdownLt).2, hdown]
    push_cast
    rfl

theorem SugovPolicy.Follows.congr {sg : SugovPolicy L} {t t' : SugovTunables} (h : sg.Follows t)
    (hup : t'.upRateLimitUs = t.upRateLimitUs) (hdown : t'.downRateLimitUs = t.downRateLimitUs) :
    sg.Follows t' where
  up := by rw [hup, h.up]
  down := by rw [hdown, h.down]
  min := h.min
  upFits := by rw [hup, h.upFits]
  downFits := by rw [hdown, h.downFits]

namespace Setup

theorem foldl_setPolicy {users : List Nat} (hnodup : users.Nodup)
    (change : SugovPolicy L → SugovPolicy L) (g : Gov L) (q : Nat) :
    (users.foldl (fun g p => g.setPolicy p (change (g.policies p))) g).policies q =
      if q ∈ users then change (g.policies q) else g.policies q := by
  induction users generalizing g with
  | nil => rfl
  | cons p users ih =>
    obtain ⟨hp, hrest⟩ := List.nodup_cons.mp hnodup
    rw [List.foldl_cons, ih hrest]
    by_cases hq : q = p
    · subst hq
      simp [hp]
    · simp [hq]

theorem forEachPolicy_tunables_eq (t : Nat) (change : SugovPolicy L → SugovPolicy L) (s : Setup A L) :
    (s.forEachPolicy t change).gov.tunables = s.gov.tunables := by
  unfold Setup.forEachPolicy
  dsimp only
  generalize ((s.attrSets t).map A.policyList).getD [] = users
  generalize s.gov = g
  induction users generalizing g with
  | nil => rfl
  | cons p users ih => exact ih _

variable {perPolicy : Bool} {s : Setup A L}

/-- An initialised policy is reached by the stores into its own tunables and no others. -/
theorem Consistent.forEachPolicy_policies (h : s.Consistent perPolicy) {q : Nat}
    (hdata : s.governorData q = true) (t : Nat) (change : SugovPolicy L → SugovPolicy L) :
    (s.forEachPolicy t change).gov.policies q = (s.gov.forEachPolicy t change).policies q := by
  unfold Setup.forEachPolicy Gov.forEachPolicy
  dsimp only
  cases ha : s.attrSets t with
  | none =>
    have htun : (s.gov.policies q).tunables ≠ t := by
      rintro rfl
      obtain ⟨a, hq, -⟩ := h.used q hdata
      exact Option.some_ne_none a (hq.symm.trans ha)
    rw [if_neg htun]
    rfl
  | some a =>
    have hmem : q ∈ A.policyList a ↔ (s.gov.policies q).tunables = t := by
      refine ⟨fun hq => (h.users t a ha q hq).2, fun htun => ?_⟩
      obtain ⟨b, hb, hq⟩ := h.used q hdata
      rw [htun, ha] at hb
      rwa [Option.some.inj hb]
    have hfold := foldl_setPolicy (h.nodup t a ha) (fun sg => updateMinRateLimitUs (change sg)) s.gov q
    simp only [hmem] at hfold
    exact hfold

/-- On the policies that are there the stores do what those of a fixed set of policies do. -/
theorem Consistent.upRateLimitUsStore (h : s.Consistent perPolicy) {q : Nat}
    (hdata : s.governorData q = true) (t us : Nat) :
    (s.upRateLimitUsStore t us).gov.policies q =
      (MSchedutil.upRateLimitUsStore t us s.gov).policies q := by
  have hset : ({ s with gov := s.gov.setTunables t { s.gov.tunables t with upRateLimitUs := us } } :
      Setup A L).Consistent perPolicy := h.congr rfl rfl rfl fun _ _ => rfl
  exact hset.forEachPolicy_policies hdata t _

theorem Consistent.downRateLimitUsStore (h : s.Consistent perPolicy) {q : Nat}
    (hdata : s.governorData q = true) (t us : Nat) :
    (s.downRateLimitUsStore t us).gov.policies q =
      (MSchedutil.downRateLimitUsStore t us s.gov).policies q := by
  have hset : ({ s with gov := s.gov.setTunables t { s.gov.tunables t with downRateLimitUs := us } } :
      Setup A L).Consistent perPolicy := h.congr rfl rfl rfl fun _ _ => rfl
  exact hset.forEachPolicy_policies hdata t _

/-- The stored limits are accepted ones, and the started policies, all of them initialised,
have their delays from them. -/
structure Cached (perPolicy : Bool) (s : Setup A L) : Prop where
  consistent : s.Consistent perPolicy
  data : ∀ p, s.started p = true → s.governorData p = true
  accepted : ∀ t, s.attrSets t ≠ none →
    (s.gov.tunables t).upRateLimitUs < 2 ^ 32 ∧ (s.gov.tunables t).downRateLimitUs < 2 ^ 32
  follows : ∀ p, s.started p = true →
    (s.gov.policies p).Follows (s.gov.tunables (s.gov.policies p).tunables)

theorem Consistent.tunables_live (h : s.Consistent perPolicy) {p : Nat}
    (hdata : s.governorData p = true) : s.attrSets (s.gov.policies p).tunables ≠ none := by
  obtain ⟨a, ha, -⟩ := h.used p hdata
  rw [ha]
  exact Option.some_ne_none a

theorem Cached.unchanged {s' : Setup A L} (h : s.Cached perPolicy) (hs : Unchanged s s') :
    s'.Cached perPolicy where
  consistent := h.consistent.unchanged hs
  data p hp := by
    rw [hs.started] at hp
    rw [hs.governorData]
    exact h.data p hp
  accepted t ht := by
    rw [hs.attrSets] at ht
    rw [hs.tunables t ht]
    exact h.accepted t ht
  follows p hp := by
    rw [hs.started] at hp
    have hdata := h.data p hp
    rw [hs.policies p hdata, hs.tunables _ (h.consistent.tunables_live hdata)]
    exact h.follows p hp

theorem Cached.ne_of_started (h : s.Cached perPolicy) {p q : Nat} (hdata : s.governorData p = false)
    (hq : s.started q = true) : q ≠ p := by
  rintro rfl
  exact absurd (hdata.symm.trans (h.data q hq)) (by decide)

theorem Cached.joined (h : s.Cached perPolicy) {p t : Nat} (hdata : s.governorData p = false)
    (hglobal : s.globalTunables = some t) (hper : perPolicy = false) :
    (s.joined p t).Cached perPolicy where
  consistent := h.consistent.joined hdata hglobal hper
  data q hq := by
    have hqp := h.ne_of_started hdata hq
    exact (Function.update_of_ne hqp _ _).trans (h.data q hq)
  accepted t' ht' := by
    refine h.accepted t' fun hnone => ht' ?_
    unfold Setup.joined
    by_cases ht : t' = t
    · subst ht
      simp [hnone]
    · simp [ht, hnone]
  follows q hq := by
    have hqp := h.ne_of_started hdata hq
    have hsame : (s.joined p t).gov.policies q = s.gov.policies q := Function.update_of_ne hqp _ _
    rw [hsame]
    exact h.follows q hq

theorem Cached.created (h : s.Cached perPolicy) {p t : Nat} (hdata : s.governorData p = false)
    (hglobal : s.globalTunables = none) (ht : s.attrSets t = none) :
    (s.created perPolicy p t).Cached perPolicy where
  consistent := h.consistent.created hdata hglobal ht
  data q hq := by
    have hqp := h.ne_of_started hdata hq
    exact (Function.update_of_ne hqp _ _).trans (h.data q hq)
  accepted t' ht' := by
    by_cases htt : t' = t
    · subst htt
      have hnew : (s.created perPolicy p t').gov.tunables t' = ⟨0, 500, 2000, 256⟩ :=
        Function.update_self _ _ _
      rw [hnew]
      exact ⟨by norm_num, by norm_num⟩
    · have hold : (s.created perPolicy p t).gov.tunables t' = s.gov.tunables t' :=
        Function.update_of_ne htt _ _
      have hsets : (s.created perPolicy p t).attrSets t' = s.attrSets t' :=
        Function.update_of_ne htt _ _
      rw [hold]
      exact h.accepted t' (hsets ▸ ht')
  follows q hq := by
    have hqp := h.ne_of_started hdata hq
    have hsame : (s.created perPolicy p t).gov.policies q = s.gov.policies q :=
      Function.update_of_ne hqp _ _
    have hqt : (s.gov.policies q).tunables ≠ t := by
      intro hqt
      exact h.consistent.tunables_live (h.data q hq) (hqt ▸ ht)
    have hold : (s.created perPolicy p t).gov.tunables (s.gov.policies q).tunables =
        s.gov.tunables (s.gov.policies q).tunables := Function.update_of_ne hqt _ _
    rw [hsame, hold]
    exact h.follows q hq

theorem Cached.left (h : s.Cached perPolicy) {p : Nat} (hdata : s.governorData p = true)
    {a : A.AttrSet} (ha : s.attrSets (s.gov.policies p).tunables = some a) :
    (s.left perPolicy p (s.gov.policies p).tunables a).Cached perPolicy := by
  have hstarted : ∀ q, (s.left perPolicy p (s.gov.policies p).tunables a).started q = true →
      q ≠ p ∧ s.started q = true := by
    intro q hq
    by_cases hqp : q = p
    · subst hqp
      simp [Setup.left] at hq
    · simp only [Setup.left, Function.update_of_ne hqp] at hq
      exact ⟨hqp, hq⟩
  refine ⟨h.consistent.left hdata ha, fun q hq => ?_, fun t ht => h.accepted t fun hnone => ht ?_,
    fun q hq => h.follows q (hstarted q hq).2⟩
  · obtain ⟨hqp, hq⟩ := hstarted q hq
    exact (Function.update_of_ne hqp _ _).trans (h.data q hq)
  · have hne : t ≠ (s.gov.policies p).tunables := by
      rintro rfl
      exact Option.some_ne_none a (ha.symm.trans hnone)
    exact (Function.update_of_ne hne _ _).trans hnone

theorem Cached.start (h : s.Cached perPolicy) {p : Nat} (hdata : s.governorData p = true) :
    (s.sugovStart p).Cached perPolicy := by
  have hlimits : ∀ t, ((s.sugovStart p).gov.tunables t).upRateLimitUs =
        (s.gov.tunables t).upRateLimitUs ∧
      ((s.sugovStart p).gov.tunables t).downRateLimitUs = (s.gov.tunables t).downRateLimitUs := by
    intro t
    by_cases ht : t = (s.gov.policies p).tunables
    · subst ht
      simp [sugovStart, MSchedutil.sugovStart]
    · simp [sugovStart, MSchedutil.sugovStart, ht]
  have haccepted : ∀ t, s.attrSets t ≠ none →
      ((s.sugovStart p).gov.tunables t).upRateLimitUs < 2 ^ 32 ∧
        ((s.sugovStart p).gov.tunables t).downRateLimitUs < 2 ^ 32 := by
    intro t ht
    rw [(hlimits t).1, (hlimits t).2]
    exact h.accepted t ht
  refine ⟨h.consistent.next (e := .start p) hdata, fun q hq => ?_, haccepted, fun q hq => ?_⟩
  · by_cases hqp : q = p
    · subst hqp
      exact hdata
    · exact h.data q ((Function.update_of_ne hqp _ _).symm.trans hq)
  · by_cases hqp : q = p
    · subst hqp
      have htun : ((s.sugovStart q).gov.policies q).tunables = (s.gov.policies q).tunables := by
        simp [sugovStart, MSchedutil.sugovStart]
      obtain ⟨hup, hdown⟩ := haccepted _ (h.consistent.tunables_live hdata)
      rw [htun]
      refine SugovPolicy.follows_of_delays ?_ ?_ ?_ hup hdown
      all_goals simp [sugovStart, MSchedutil.sugovStart]
    · have hsame : (s.sugovStart p).gov.policies q = s.gov.policies q := Function.update_of_ne hqp _ _
      have hf := h.follows q ((Function.update_of_ne hqp _ _).symm.trans hq)
      obtain ⟨hup, hdown⟩ := hlimits (s.gov.policies q).tunables
      rw [hsame]
      exact hf.congr hup hdown

/-- What a store does to the policies and the tunables that are there. -/
structure Stored (t : Nat) (change : SugovPolicy L → SugovPolicy L)
    (write : SugovTunables → SugovTunables) (s s' : Setup A L) : Prop where
  governorData : s'.governorData = s.governorData
  attrSets : s'.attrSets = s.attrSets
  started : s'.started = s.started
  tunables : s'.gov.tunables = Function.update s.gov.tunables t (write (s.gov.tunables t))
  policies : ∀ q, s.governorData q = true → s'.gov.policies q =
    if (s.gov.policies q).tunables = t then updateMinRateLimitUs (change (s.gov.policies q))
    else s.gov.policies q

theorem Consistent.stored_up (h : s.Consistent perPolicy) (t us : Nat) :
    Stored t (fun sg => { sg with upRateDelayNs := us * nsecPerUsec })
      (fun tun => { tun with upRateLimitUs := us }) s (s.upRateLimitUsStore t us) where
  governorData := rfl
  attrSets := rfl
  started := rfl
  tunables := forEachPolicy_tunables_eq t _ _
  policies _ hq := h.upRateLimitUsStore hq t us

theorem Consistent.stored_down (h : s.Consistent perPolicy) (t us : Nat) :
    Stored t (fun sg => { sg with downRateDelayNs := us * nsecPerUsec })
      (fun tun => { tun with downRateLimitUs := us }) s (s.downRateLimitUsStore t us) where
  governorData := rfl
  attrSets := rfl
  started := rfl
  tunables := forEachPolicy_tunables_eq t _ _
  policies _ hq := h.downRateLimitUsStore hq t us

theorem Cached.stored (h : s.Cached perPolicy) {t : Nat} {change : SugovPolicy L → SugovPolicy L}
    {write : SugovTunables → SugovTunables} {s' : Setup A L} (hs : Stored t change write s s')
    (hc : s'.Consistent perPolicy) (hchange : ∀ sg, (change sg).tunables = sg.tunables)
    (haccepted : ∀ tun : SugovTunables, tun.upRateLimitUs < 2 ^ 32 ∧ tun.downRateLimitUs < 2 ^ 32 →
      (write tun).upRateLimitUs < 2 ^ 32 ∧ (write tun).downRateLimitUs < 2 ^ 32)
    (hfollows : ∀ (sg : SugovPolicy L) tun, sg.Follows tun →
      (updateMinRateLimitUs (change sg)).Follows (write tun)) : s'.Cached perPolicy := by
  have hdata : ∀ q, s'.started q = true → s.governorData q = true ∧ s.started q = true := by
    intro q hq
    rw [hs.started] at hq
    exact ⟨h.data q hq, hq⟩
  refine ⟨hc, fun q hq => ?_, fun t' ht' => ?_, fun q hq => ?_⟩
  · rw [hs.governorData]
    exact (hdata q hq).1
  · rw [hs.attrSets] at ht'
    rw [hs.tunables]
    by_cases ht : t' = t
    · subst ht
      rw [Function.update_self]
      exact haccepted _ (h.accepted t' ht')
    · rw [Function.update_of_ne ht]
      exact h.accepted t' ht'
  · obtain ⟨hd, hq⟩ := hdata q hq
    have hf := h.follows q hq
    rw [hs.policies q hd, hs.tunables]
    by_cases htun : (s.gov.policies q).tunables = t
    · subst htun
      have hsame : (updateMinRateLimitUs (change (s.gov.policies q))).tunables =
        (s.gov.policies q).tunables := hchange _
      rw [if_pos rfl, hsame, Function.update_self]
      exact hfollows _ _ hf
    · rw [if_neg htun, Function.update_of_ne htun]
      exact hf

theorem Cached.next (h : s.Cached perPolicy) {e : SetupEvent} (he : s.Valid e) :
    (s.next perPolicy e).Cached perPolicy := by
  have hc := h.consistent.next he
  cases e with
  | init p f =>
    have hr := sugovInit_result perPolicy p he
    unfold Setup.next call
    dsimp only
    generalize s.sugovInit perPolicy p f = c at hr
    cases hr with
    | failed setup ops ret _ hs => exact h.unchanged hs
    | workerFailed setup ret _ hs => exact h.unchanged hs
    | joined t _ hdata hglobal hper => exact h.joined hdata hglobal hper
    | created t _ hdata hglobal ht => exact h.created hdata hglobal ht
  | exit p =>
    obtain ⟨a, ha, -⟩ := h.consistent.used p he
    unfold Setup.next call
    dsimp only
    rw [sugovExit_eq perPolicy ha]
    exact h.left he ha
  | start p => exact h.start he
  | stop p =>
    have hstarted : ∀ q, (s.sugovStop p).started q = true → s.started q = true := by
      intro q hq
      by_cases hqp : q = p
      · subst hqp
        simp [sugovStop] at hq
      · exact (Function.update_of_ne hqp _ _).symm.trans hq
    exact ⟨hc, fun q hq => h.data q (hstarted q hq), h.accepted, fun q hq => h.follows q (hstarted q hq)⟩
  | upRateLimitUs t us =>
    refine h.stored (h.consistent.stored_up t us) hc (fun _ => rfl) (fun tun htun => ⟨he.2, htun.2⟩) ?_
    intro sg tun hf
    exact ⟨Nat.mul_comm _ _, hf.down, rfl, (delay_fits he.2).2, hf.downFits⟩
  | downRateLimitUs t us =>
    refine h.stored (h.consistent.stored_down t us) hc (fun _ => rfl) (fun tun htun => ⟨htun.1, he.2⟩) ?_
    intro sg tun hf
    exact ⟨hf.up, Nat.mul_comm _ _, rfl, hf.upFits, (delay_fits he.2).2⟩

theorem empty_cached (perPolicy : Bool) (policies : Nat → CpufreqPolicy L) :
    (empty (A := A) policies).Cached perPolicy where
  consistent := empty_consistent perPolicy policies
  data p hp := by cases hp
  accepted t ht := absurd rfl ht
  follows p hp := by cases hp

end Setup

/-- Whatever policies come and go and whatever is stored in their tunables, a started policy
has the delays of the tunables it uses. -/
theorem started_policies_follow {perPolicy : Bool} {policies : Nat → CpufreqPolicy L}
    {es : List SetupEvent}
    (h : Along (Setup.next perPolicy) Setup.Valid (Setup.empty (A := A) policies) es) (p : Nat)
    (hp : (run (Setup.next perPolicy) (Setup.empty (A := A) policies) es).started p = true) :
    let gov := (run (Setup.next perPolicy) (Setup.empty (A := A) policies) es).gov
    (gov.policies p).Follows (gov.tunables (gov.policies p).tunables) := by
  have hcached := h.invariant (I := Setup.Cached perPolicy) (fun _ _ hs he => hs.next he)
    (Setup.empty_cached perPolicy policies)
  exact hcached.follows p hp

/-- Shared tunables change under a started policy, and a policy that joins them later starts
from what they hold by then. -/
theorem started_policies_follow_late_start :
    let es : List SetupEvent := [.init 0 (initWorks 7), .start 0, .upRateLimitUs 7 1000,
      .init 1 (initWorks 8), .downRateLimitUs 7 4294967295, .start 1]
    let gov := (run (Setup.next false) (Setup.empty (A := listAttrSet) lonePolicies) es).gov
    (gov.policies 1).upRateDelayNs = 1000000 ∧ (gov.policies 0).downRateDelayNs = 4294967295000 ∧
      (gov.policies 1).Follows (gov.tunables (gov.policies 1).tunables) := by
  intro es gov
  have hvalid : Along (Setup.next false) Setup.Valid (Setup.empty (A := listAttrSet) lonePolicies) es := by
    refine ⟨fun _ ht => ?_, rfl, ⟨?_, by norm_num⟩, fun _ ht => ?_, ⟨?_, by norm_num⟩, rfl, trivial⟩
    · cases ht
      rfl
    · exact Option.some_ne_none [0]
    · cases ht
      rfl
    · exact Option.some_ne_none [1, 0]
  exact ⟨by decide, by decide, started_policies_follow hvalid 1 rfl⟩

end MSchedutil
