import MSchedutil.GovernorSetup
import MSchedutil.Transition

/-! Whether set-up and tear-down leave things as they should: the lock free, a failed
set-up without a trace, and the shared tunables there as long as somebody uses them. -/

namespace MSchedutil

open Transition

variable {L : Type*} {A : GovAttrSetOps}

namespace Setup

/-- What a failed set-up leaves: everything but memory that nobody owns. -/
structure Unchanged (s s' : Setup A L) : Prop where
  governorData : s'.governorData = s.governorData
  attrSets : s'.attrSets = s.attrSets
  globalTunables : s'.globalTunables = s.globalTunables
  threads : s'.threads = s.threads
  started : s'.started = s.started
  policies : ∀ p, s.governorData p = true → s'.gov.policies p = s.gov.policies p
  policy : ∀ p, (s'.gov.policies p).policy = (s.gov.policies p).policy
  tunables : ∀ t, s.attrSets t ≠ none → s'.gov.tunables t = s.gov.tunables t

theorem Unchanged.refl (s : Setup A L) : Unchanged s s :=
  ⟨rfl, rfl, rfl, rfl, rfl, fun _ _ => rfl, fun _ => rfl, fun _ _ => rfl⟩

/-- The worker thread of a policy that needs one cannot be created or made a real-time task. -/
def WorkerFails (s : Setup A L) : SetupEvent → Prop
  | .init p f => s.governorData p = false ∧ f.policyAlloc = true ∧
      (s.gov.policies p).policy.fastSwitchEnabled = false ∧ (f.kthreadCreate ≠ 0 ∨ f.setScheduler ≠ 0)
  | _ => False

/-- The policy `p` with its worker thread, and a new `sugov_policy` for the tunables `t`. -/
def equipped (p t : Nat) (s : Setup A L) : Setup A L :=
  { s with
    gov := s.gov.setPolicy p (sugovPolicyAlloc (s.gov.policies p).policy t)
    governorData := Function.update s.governorData p true
    threads := if (s.gov.policies p).policy.fastSwitchEnabled then s.threads else p :: s.threads }

def joined (p t : Nat) (s : Setup A L) : Setup A L :=
  { s.equipped p t with
    attrSets := Function.update s.attrSets t ((s.attrSets t).map (A.get · p)) }

/-- `p` is the first user of the tunables `t`. -/
def created (perPolicy : Bool) (p t : Nat) (s : Setup A L) : Setup A L :=
  { (({ s with gov := s.gov.setTunables t ⟨0, 500, 2000, 256⟩ } : Setup A L).equipped p t) with
    attrSets := Function.update s.attrSets t (some (A.init p))
    globalTunables := if perPolicy then s.globalTunables else some t }

end Setup

namespace SetupCall

theorem sugovKthreadCreate_cases (p : Nat) (f : InitOutcome) (c : SetupCall A L) :
    ((c.sugovKthreadCreate p f).ret ≠ 0 ∧ c.fastSwitchEnabled p = false ∧
      (f.kthreadCreate ≠ 0 ∨ f.setScheduler ≠ 0) ∧
      (c.sugovKthreadCreate p f).setup = c.setup ∧ (c.sugovKthreadCreate p f).ops = c.ops) ∨
    ((c.fastSwitchEnabled p = true ∨ ¬ (f.kthreadCreate ≠ 0 ∨ f.setScheduler ≠ 0)) ∧
      c.sugovKthreadCreate p f =
        { c with
          setup := { c.setup with
            threads := if c.fastSwitchEnabled p then c.setup.threads else p :: c.setup.threads }
          ret := 0 }) := by
  unfold sugovKthreadCreate
  cases hfast : c.fastSwitchEnabled p with
  | true => exact .inr ⟨.inl rfl, rfl⟩
  | false =>
    simp only [Bool.false_eq_true, if_false]
    by_cases hcreate : f.kthreadCreate ≠ 0
    · rw [if_pos hcreate]
      exact .inl ⟨hcreate, trivial, .inl hcreate, rfl, rfl⟩
    · rw [if_neg hcreate]
      by_cases hsched : f.setScheduler ≠ 0
      · rw [if_pos hsched]
        refine .inl ⟨hsched, trivial, .inr hsched, ?_, rfl⟩
        simp [kthreadStop, kthreadCreate]
      · rw [if_neg hsched]
        exact .inr ⟨.inr (not_or.mpr ⟨hcreate, hsched⟩), rfl⟩

end SetupCall

namespace Setup

/-- Everything `sugov_init` can do. A failure unlocks what it locked, except on the way out
of a worker thread that did not start: that one has not locked anything. -/
inductive InitResult (perPolicy : Bool) (p : Nat) (f : InitOutcome) (s : Setup A L) :
    SetupCall A L → Prop
  | failed (setup : Setup A L) (ops : List MutexOp) (ret : Nat) : ret ≠ 0 → Unchanged s setup →
      ¬ s.WorkerFails (.init p f) → ops = [] ∨ ops = [.lock, .unlock] →
      InitResult perPolicy p f s ⟨setup, ops, ret⟩
  | workerFailed (setup : Setup A L) (ret : Nat) : ret ≠ 0 → Unchanged s setup →
      s.WorkerFails (.init p f) → InitResult perPolicy p f s ⟨setup, [.unlock], ret⟩
  | joined (t : Nat) : ¬ s.WorkerFails (.init p f) → s.governorData p = false →
      s.globalTunables = some t → perPolicy = false →
      InitResult perPolicy p f s ⟨s.joined p t, [.lock, .unlock], 0⟩
  | created (t : Nat) : ¬ s.WorkerFails (.init p f) → s.governorData p = false →
      s.globalTunables = none → s.attrSets t = none →
      InitResult perPolicy p f s ⟨s.created perPolicy p t, [.lock, .unlock], 0⟩

/-- A policy with its worker thread, before anything is locked. -/
def manned (p : Nat) (s : Setup A L) : Setup A L :=
  { s with threads := if (s.gov.policies p).policy.fastSwitchEnabled then s.threads else p :: s.threads }

theorem stopKthread_manned (p ret : Nat) (s : Setup A L) :
    ((⟨s.manned p, [.lock], 0⟩ : SetupCall A L).stopKthread p ret) = ⟨s, [.lock, .unlock], ret⟩ := by
  unfold SetupCall.stopKthread SetupCall.sugovKthreadStop SetupCall.fastSwitchEnabled manned
  cases hfast : (s.gov.policies p).policy.fastSwitchEnabled with
  | true => simp [SetupCall.freeSgPolicy, SetupCall.disableFastSwitch, SetupCall.mutexUnlock]
  | false =>
    simp [SetupCall.freeSgPolicy, SetupCall.disableFastSwitch, SetupCall.mutexUnlock,
      SetupCall.kthreadStop]

theorem bind_new (perPolicy : Bool) (p t : Nat) (s : Setup A L) :
    ((((⟨s.manned p, [.lock], 0⟩ : SetupCall A L).sugovTunablesAlloc perPolicy p t).setDefaults t).bind
      p t) = ⟨s.created perPolicy p t, [.lock], 0⟩ := by
  unfold SetupCall.bind SetupCall.setGovernorData SetupCall.setDefaults SetupCall.sugovTunablesAlloc
    created equipped manned Gov.setTunables Gov.setPolicy
  simp

theorem fail_created (perPolicy : Bool) {p t : Nat} (ret : Nat) {s : Setup A L}
    (hdata : s.governorData p = false) (hglobal : s.globalTunables = none) (ht : s.attrSets t = none) :
    ∃ setup, ((⟨s.created perPolicy p t, [.lock], 0⟩ : SetupCall A L).fail perPolicy p t ret) =
      ⟨setup, [.lock, .unlock], ret⟩ ∧ Unchanged s setup := by
  have hgd : Function.update (Function.update s.governorData p true) p false = s.governorData := by
    rw [Function.update_idem, ← hdata, Function.update_eq_self]
  have hsets : Function.update (Function.update s.attrSets t (some (A.init p))) t none = s.attrSets := by
    rw [Function.update_idem, ← ht, Function.update_eq_self]
  have hkeep : ∀ q, s.attrSets q ≠ none → q ≠ t := by
    rintro q hq rfl
    exact hq ht
  refine ⟨{ s with gov := (s.created perPolicy p t).gov }, ?_, rfl, rfl, rfl, rfl, rfl,
    fun q hq => ?_, fun q => ?_, fun q hq => ?_⟩
  · unfold SetupCall.fail SetupCall.stopKthread SetupCall.sugovTunablesFree SetupCall.setGovernorData
      SetupCall.sugovKthreadStop SetupCall.fastSwitchEnabled created equipped
    cases hfast : (s.gov.policies p).policy.fastSwitchEnabled <;> cases perPolicy <;>
      simp [SetupCall.freeSgPolicy, SetupCall.disableFastSwitch, SetupCall.mutexUnlock,
        SetupCall.kthreadStop, sugovPolicyAlloc, Gov.setTunables, hfast, hgd, hsets, hglobal]
  · have hqp : q ≠ p := by
      rintro rfl
      exact absurd (hdata.symm.trans hq) (by decide)
    exact Function.update_of_ne hqp _ _
  · by_cases hqp : q = p
    · subst hqp
      simp [created, equipped, sugovPolicyAlloc, Gov.setTunables]
    · simp [created, equipped, Gov.setTunables, hqp]
  · exact Function.update_of_ne (hkeep q hq) _ _

theorem sugovInit_result (perPolicy : Bool) (p : Nat) {f : InitOutcome} {s : Setup A L}
    (hfresh : ∀ t, f.tunablesAlloc = some t → s.attrSets t = none) :
    InitResult perPolicy p f s (s.sugovInit perPolicy p f) := by
  unfold sugovInit
  cases hdata : s.governorData p with
  | true =>
    refine .failed s [] ebusy (by decide) (.refl s) (fun hw => ?_) (.inl rfl)
    exact absurd (hdata.symm.trans hw.1) (by decide)
  | false =>
    simp only [Bool.false_eq_true, if_false]
    cases halloc : f.policyAlloc with
    | false =>
      refine .failed s [] enomem (by decide) (.refl s) (fun hw => ?_) (.inl rfl)
      exact absurd (halloc.symm.trans hw.2.1) (by decide)
    | true =>
      simp only [Bool.true_eq_false, if_false]
      rcases SetupCall.sugovKthreadCreate_cases p f (⟨s, [], 0⟩ : SetupCall A L) with
        ⟨hret, hfast, hfails, hsetup, hops⟩ | ⟨hworks, hcall⟩
      · rw [if_pos hret]
        have hcall : ((⟨s, [], 0⟩ : SetupCall A L).sugovKthreadCreate p f).freeSgPolicy
            ((⟨s, [], 0⟩ : SetupCall A L).sugovKthreadCreate p f).ret =
            ⟨s, [.unlock], ((⟨s, [], 0⟩ : SetupCall A L).sugovKthreadCreate p f).ret⟩ := by
          unfold SetupCall.freeSgPolicy SetupCall.disableFastSwitch SetupCall.mutexUnlock
          rw [hsetup, hops]
          rfl
        rw [hcall]
        exact .workerFailed s _ hret (.refl s) ⟨hdata, halloc, hfast, hfails⟩
      · have hnot : ¬ s.WorkerFails (.init p f) := by
          rintro ⟨-, -, hfast, hfails⟩
          rcases hworks with hyes | hno
          · exact absurd (hfast.symm.trans hyes) (by decide)
          · exact hno hfails
        have hlocked : ((⟨s, [], 0⟩ : SetupCall A L).sugovKthreadCreate p f).mutexLock =
            ⟨s.manned p, [.lock], 0⟩ := by
          rw [hcall]
          rfl
        have hret : ((⟨s, [], 0⟩ : SetupCall A L).sugovKthreadCreate p f).ret = 0 := by rw [hcall]
        rw [if_neg (not_not.mpr hret), hlocked]
        cases hglobal : s.globalTunables with
        | some t =>
          cases perPolicy with
          | true =>
            simp only [if_true]
            rw [stopKthread_manned]
            exact .failed s _ einval (by decide) (.refl s) hnot (.inr rfl)
          | false => exact .joined t hnot hdata hglobal rfl
        | none =>
          cases htun : f.tunablesAlloc with
          | none =>
            simp only
            rw [stopKthread_manned]
            exact .failed s _ enomem (by decide) (.refl s) hnot (.inr rfl)
          | some t =>
            simp only
            rw [bind_new]
            by_cases hkobj : f.kobject ≠ 0
            · rw [if_pos hkobj]
              obtain ⟨setup, hfail, hsame⟩ := fail_created perPolicy f.kobject hdata hglobal (hfresh t htun)
              rw [hfail]
              exact .failed setup _ f.kobject hkobj hsame hnot (.inr rfl)
            · rw [if_neg hkobj]
              exact .created t hnot hdata hglobal (hfresh t htun)

/-- Policies and tunables know each other: an initialised policy is on the list of its
tunables, tunables live as long as the list has policies, and shared ones are the global ones. -/
structure Consistent (perPolicy : Bool) (s : Setup A L) : Prop where
  used : ∀ p, s.governorData p = true →
    ∃ a, s.attrSets (s.gov.policies p).tunables = some a ∧ p ∈ A.policyList a
  users : ∀ t a, s.attrSets t = some a → ∀ p ∈ A.policyList a,
    s.governorData p = true ∧ (s.gov.policies p).tunables = t
  nonempty : ∀ t a, s.attrSets t = some a → A.policyList a ≠ []
  nodup : ∀ t a, s.attrSets t = some a → (A.policyList a).Nodup
  shared : perPolicy = false → ∀ t, s.attrSets t ≠ none ↔ s.globalTunables = some t
  own : perPolicy = true → s.globalTunables = none

variable {perPolicy : Bool} {s : Setup A L}

/-- Without tunables of their own the initialised policies use the global ones, and these are
there exactly while there is such a policy. -/
structure GlobalKept (perPolicy : Bool) (s : Setup A L) : Prop where
  kept : s.globalTunables ≠ none ↔ perPolicy = false ∧ ∃ p, s.governorData p = true
  used : perPolicy = false → ∀ p, s.governorData p = true →
    s.globalTunables = some (s.gov.policies p).tunables

theorem Consistent.globalKept (h : s.Consistent perPolicy) : s.GlobalKept perPolicy := by
  have hused : perPolicy = false → ∀ p, s.governorData p = true →
      s.globalTunables = some (s.gov.policies p).tunables := by
    intro hshared p hdata
    obtain ⟨a, ha, -⟩ := h.used p hdata
    exact (h.shared hshared _).mp (by rw [ha]; exact Option.some_ne_none a)
  refine ⟨⟨fun hglobal => ?_, ?_⟩, hused⟩
  · obtain ⟨t, ht⟩ := Option.ne_none_iff_exists'.mp hglobal
    cases perPolicy with
    | true => exact absurd (h.own rfl) hglobal
    | false =>
      obtain ⟨a, ha⟩ := Option.ne_none_iff_exists'.mp ((h.shared rfl t).mpr ht)
      obtain ⟨p, hp⟩ := List.exists_mem_of_ne_nil _ (h.nonempty t a ha)
      exact ⟨rfl, p, (h.users t a ha p hp).1⟩
  · rintro ⟨hshared, p, hdata⟩
    rw [hused hshared p hdata]
    exact Option.some_ne_none _

theorem Consistent.congr {s' : Setup A L} (h : s.Consistent perPolicy)
    (hdata : s'.governorData = s.governorData) (hsets : s'.attrSets = s.attrSets)
    (hglobal : s'.globalTunables = s.globalTunables)
    (htun : ∀ p, s.governorData p = true →
      (s'.gov.policies p).tunables = (s.gov.policies p).tunables) : s'.Consistent perPolicy where
  used p hp := by
    rw [hdata] at hp
    rw [hsets, htun p hp]
    exact h.used p hp
  users t a ha p hp := by
    rw [hsets] at ha
    obtain ⟨hd, ht⟩ := h.users t a ha p hp
    exact ⟨by rw [hdata]; exact hd, by rw [htun p hd]; exact ht⟩
  nonempty t a ha := h.nonempty t a (by rw [← hsets]; exact ha)
  nodup t a ha := h.nodup t a (by rw [← hsets]; exact ha)
  shared hp t := by
    rw [hsets, hglobal]
    exact h.shared hp t
  own hp := by
    rw [hglobal]
    exact h.own hp

theorem Consistent.unchanged {s' : Setup A L} (h : s.Consistent perPolicy) (hs : Unchanged s s') :
    s'.Consistent perPolicy :=
  h.congr hs.governorData hs.attrSets hs.globalTunables fun p hp => by rw [hs.policies p hp]

theorem equipped_tunables (p t : Nat) (s : Setup A L) (q : Nat) :
    ((s.equipped p t).gov.policies q).tunables = if q = p then t else (s.gov.policies q).tunables := by
  by_cases hq : q = p
  · subst hq
    simp [equipped, sugovPolicyAlloc]
  · simp [equipped, hq]

theorem Consistent.not_listed (h : s.Consistent perPolicy) {p : Nat} (hdata : s.governorData p = false)
    {t : Nat} {a : A.AttrSet} (ha : s.attrSets t = some a) : p ∉ A.policyList a := by
  intro hp
  exact absurd (hdata.symm.trans (h.users t a ha p hp).1) (by decide)

/-- `p` has become a user of the tunables `t`, whose set is now `a`. -/
structure Enrolled (p t : Nat) (a : A.AttrSet) (s s' : Setup A L) : Prop where
  governorData : s'.governorData = Function.update s.governorData p true
  tunables : ∀ q, (s'.gov.policies q).tunables = if q = p then t else (s.gov.policies q).tunables
  attrSets : s'.attrSets = Function.update s.attrSets t (some a)
  mem : ∀ q, q ∈ A.policyList a ↔ q = p ∨ ∃ b, s.attrSets t = some b ∧ q ∈ A.policyList b
  nodup : (A.policyList a).Nodup

theorem Enrolled.attrSets_cases {p t : Nat} {a : A.AttrSet} {s' : Setup A L}
    (he : Enrolled p t a s s') {t' : Nat} {a' : A.AttrSet} (ha' : s'.attrSets t' = some a') :
    (t' = t ∧ a' = a) ∨ (t' ≠ t ∧ s.attrSets t' = some a') := by
  rw [he.attrSets] at ha'
  by_cases ht : t' = t
  · rw [ht, Function.update_self] at ha'
    exact .inl ⟨ht, (Option.some.inj ha').symm⟩
  · rw [Function.update_of_ne ht] at ha'
    exact .inr ⟨ht, ha'⟩

theorem Enrolled.governorData_iff {p t : Nat} {a : A.AttrSet} {s' : Setup A L}
    (he : Enrolled p t a s s') (q : Nat) :
    s'.governorData q = true ↔ q = p ∨ s.governorData q = true := by
  rw [he.governorData]
  by_cases hq : q = p
  · subst hq
    simp
  · simp [hq]

theorem Consistent.enrolled (h : s.Consistent perPolicy) {p t : Nat} {a : A.AttrSet}
    {s' : Setup A L} (hdata : s.governorData p = false) (he : Enrolled p t a s s')
    (hshared : perPolicy = false → ∀ t', s'.attrSets t' ≠ none ↔ s'.globalTunables = some t')
    (hown : perPolicy = true → s'.globalTunables = none) : s'.Consistent perPolicy := by
  refine ⟨fun q hq => ?_, fun t' a' ha' q hq => ?_, fun t' a' ha' => ?_, fun t' a' ha' => ?_,
    hshared, hown⟩
  · rw [he.attrSets, he.tunables]
    by_cases hqp : q = p
    · rw [if_pos hqp, Function.update_self]
      exact ⟨a, rfl, (he.mem q).mpr (.inl hqp)⟩
    · rw [if_neg hqp]
      obtain ⟨b, hb, hqb⟩ := h.used q (((he.governorData_iff q).mp hq).resolve_left hqp)
      by_cases ht : (s.gov.policies q).tunables = t
      · rw [ht] at hb ⊢
        rw [Function.update_self]
        exact ⟨a, rfl, (he.mem q).mpr (.inr ⟨b, hb, hqb⟩)⟩
      · rw [Function.update_of_ne ht]
        exact ⟨b, hb, hqb⟩
  · have hold : ∀ b, s.attrSets t' = some b → q ∈ A.policyList b →
        s'.governorData q = true ∧ (s'.gov.policies q).tunables = t' := by
      intro b hb hqb
      obtain ⟨hd, hqt⟩ := h.users t' b hb q hqb
      have hqp : q ≠ p := by
        rintro rfl
        exact h.not_listed hdata hb hqb
      exact ⟨(he.governorData_iff q).mpr (.inr hd), by rw [he.tunables, if_neg hqp, hqt]⟩
    rcases he.attrSets_cases ha' with ⟨rfl, rfl⟩ | ⟨-, hb⟩
    · rcases (he.mem q).mp hq with hqp | ⟨b, hb, hqb⟩
      · exact ⟨(he.governorData_iff q).mpr (.inl hqp), by rw [he.tunables, if_pos hqp]⟩
      · exact hold b hb hqb
    · exact hold a' hb hq
  · rcases he.attrSets_cases ha' with ⟨-, rfl⟩ | ⟨-, hb⟩
    · exact List.ne_nil_of_mem ((he.mem p).mpr (.inl rfl))
    · exact h.nonempty t' a' hb
  · rcases he.attrSets_cases ha' with ⟨-, rfl⟩ | ⟨-, hb⟩
    · exact he.nodup
    · exact h.nodup t' a' hb

theorem Consistent.joined (h : s.Consistent perPolicy) {p t : Nat} (hdata : s.governorData p = false)
    (hglobal : s.globalTunables = some t) (hper : perPolicy = false) :
    (s.joined p t).Consistent perPolicy := by
  obtain ⟨a, ha⟩ := Option.ne_none_iff_exists'.mp ((h.shared hper t).mpr hglobal)
  have hget := A.policyList_get a p
  have hsets : (s.joined p t).attrSets = Function.update s.attrSets t (some (A.get a p)) := by
    unfold Setup.joined
    rw [ha]
    rfl
  have he : Enrolled p t (A.get a p) s (s.joined p t) := by
    refine ⟨rfl, equipped_tunables p t s, hsets, fun q => ?_, ?_⟩
    · rw [hget.mem_iff, List.mem_cons, ha]
      simp
    · rw [hget.nodup_iff, List.nodup_cons]
      exact ⟨h.not_listed hdata ha, h.nodup t a ha⟩
  refine h.enrolled hdata he (fun _ t' => ?_) fun hp => absurd (hper.symm.trans hp) (by decide)
  have hsame : (s.joined p t).globalTunables = s.globalTunables := rfl
  rw [hsets, hsame, ← h.shared hper t']
  by_cases ht : t' = t
  · subst ht
    rw [Function.update_self, ha]
    exact iff_of_true (Option.some_ne_none _) (Option.some_ne_none _)
  · rw [Function.update_of_ne ht]

theorem Consistent.created (h : s.Consistent perPolicy) {p t : Nat} (hdata : s.governorData p = false)
    (hglobal : s.globalTunables = none) (ht : s.attrSets t = none) :
    (s.created perPolicy p t).Consistent perPolicy := by
  have he : Enrolled p t (A.init p) s (s.created perPolicy p t) := by
    refine ⟨rfl, equipped_tunables p t { s with gov := s.gov.setTunables t ⟨0, 500, 2000, 256⟩ }, rfl,
      fun q => ?_, ?_⟩
    · rw [A.policyList_init, List.mem_singleton, ht]
      simp
    · rw [A.policyList_init]
      exact List.nodup_singleton p
  refine h.enrolled hdata he (fun hper t' => ?_) fun hper => ?_
  · have hnone : s.attrSets t' = none := by
      by_contra hne
      exact absurd ((h.shared hper t').mp hne) (by rw [hglobal]; exact (Option.some_ne_none t').symm)
    unfold Setup.created
    dsimp only
    rw [hper]
    by_cases htt : t' = t
    · subst htt
      simp
    · simp [htt, hnone, Ne.symm htt]
  · unfold Setup.created
    dsimp only
    rw [hper]
    exact hglobal

/-- `p` leaves the tunables `t`, whose set is `a`; the last one takes them along. -/
def left (perPolicy : Bool) (p t : Nat) (a : A.AttrSet) (s : Setup A L) : Setup A L :=
  { s with
    governorData := Function.update s.governorData p false
    attrSets := Function.update s.attrSets t (if (A.put a p).1 = 0 then none else some (A.put a p).2)
    globalTunables := if (A.put a p).1 = 0 ∧ perPolicy = false then none else s.globalTunables
    threads := if (s.gov.policies p).policy.fastSwitchEnabled then s.threads else s.threads.erase p
    started := Function.update s.started p false }

theorem sugovExit_eq (perPolicy : Bool) {p : Nat} {a : A.AttrSet} {s : Setup A L}
    (ha : s.attrSets (s.gov.policies p).tunables = some a) :
    s.sugovExit perPolicy p =
      ⟨s.left perPolicy p (s.gov.policies p).tunables a, [.lock, .unlock], 0⟩ := by
  unfold sugovExit SetupCall.govAttrSetPut SetupCall.setGovernorData SetupCall.sugovTunablesFree
    SetupCall.sugovKthreadStop SetupCall.fastSwitchEnabled left
  by_cases hcount : (A.put a p).1 = 0 <;> cases perPolicy <;>
    cases hfast : (s.gov.policies p).policy.fastSwitchEnabled <;>
      simp [SetupCall.mutexLock, SetupCall.mutexUnlock, SetupCall.kthreadStop, ha, hcount, hfast]

theorem mem_put {a : A.AttrSet} (hnodup : (A.policyList a).Nodup) (p q : Nat) :
    q ∈ A.policyList (A.put a p).2 ↔ q ≠ p ∧ q ∈ A.policyList a := by
  rw [(A.policyList_put a p).mem_iff, hnodup.mem_erase_iff]

theorem count_put_eq_zero_iff (a : A.AttrSet) (p : Nat) :
    (A.put a p).1 = 0 ↔ ∀ q, q ∉ A.policyList (A.put a p).2 := by
  rw [A.count_put, ← (A.policyList_put a p).length_eq, List.length_eq_zero_iff,
    List.eq_nil_iff_forall_not_mem]

theorem left_governorData (perPolicy : Bool) (p t : Nat) (a : A.AttrSet) (s : Setup A L) (q : Nat) :
    (s.left perPolicy p t a).governorData q = true ↔ q ≠ p ∧ s.governorData q = true := by
  by_cases hq : q = p
  · subst hq
    simp [Setup.left]
  · simp [Setup.left, hq]

theorem left_attrSets {p t t' : Nat} {a a' : A.AttrSet}
    (ha' : (s.left perPolicy p t a).attrSets t' = some a') :
    (t' = t ∧ (A.put a p).1 ≠ 0 ∧ a' = (A.put a p).2) ∨ (t' ≠ t ∧ s.attrSets t' = some a') := by
  unfold Setup.left at ha'
  dsimp only at ha'
  by_cases ht : t' = t
  · rw [ht, Function.update_self] at ha'
    split at ha'
    · cases ha'
    · rename_i hc
      exact .inl ⟨ht, hc, (Option.some.inj ha').symm⟩
  · rw [Function.update_of_ne ht] at ha'
    exact .inr ⟨ht, ha'⟩

theorem Consistent.left (h : s.Consistent perPolicy) {p : Nat} (hdata : s.governorData p = true)
    {a : A.AttrSet} (ha : s.attrSets (s.gov.policies p).tunables = some a) :
    (s.left perPolicy p (s.gov.policies p).tunables a).Consistent perPolicy := by
  have hnodup := h.nodup _ a ha
  have hmem := mem_put hnodup p
  have hcount := count_put_eq_zero_iff a p
  have hgd := left_governorData perPolicy p (s.gov.policies p).tunables a s
  refine ⟨fun q hq => ?_, fun t' a' ha' q hq => ?_, fun t' a' ha' => ?_, fun t' a' ha' => ?_,
    fun hper t' => ?_, fun hper => ?_⟩
  · obtain ⟨hqp, hqd⟩ := (hgd q).mp hq
    obtain ⟨b, hb, hqb⟩ := h.used q hqd
    have htun : ((s.left perPolicy p (s.gov.policies p).tunables a).gov.policies q).tunables =
      (s.gov.policies q).tunables := rfl
    rw [htun]
    unfold Setup.left
    dsimp only
    by_cases ht : (s.gov.policies q).tunables = (s.gov.policies p).tunables
    · rw [ht] at hb ⊢
      have hab : a = b := Option.some.inj (ha.symm.trans hb)
      subst hab
      have hq' := (hmem q).mpr ⟨hqp, hqb⟩
      rw [Function.update_self, if_neg fun hc => hcount.mp hc q hq']
      exact ⟨_, rfl, hq'⟩
    · rw [Function.update_of_ne ht]
      exact ⟨b, hb, hqb⟩
  · rw [hgd]
    rcases left_attrSets ha' with ⟨rfl, -, rfl⟩ | ⟨ht, hb⟩
    · obtain ⟨hqp, hqa⟩ := (hmem q).mp hq
      obtain ⟨hd, hqt⟩ := h.users _ a ha q hqa
      exact ⟨⟨hqp, hd⟩, hqt⟩
    · obtain ⟨hd, hqt⟩ := h.users t' a' hb q hq
      refine ⟨⟨?_, hd⟩, hqt⟩
      rintro rfl
      exact ht hqt.symm
  · rcases left_attrSets ha' with ⟨-, hc, rfl⟩ | ⟨-, hb⟩
    · intro hnil
      exact hc (hcount.mpr fun q => by rw [hnil]; exact List.not_mem_nil)
    · exact h.nonempty t' a' hb
  · rcases left_attrSets ha' with ⟨-, -, rfl⟩ | ⟨-, hb⟩
    · rw [(A.policyList_put a p).nodup_iff]
      exact hnodup.erase p
    · exact h.nodup t' a' hb
  · have hglobal : s.globalTunables = some (s.gov.policies p).tunables := by
      rw [← h.shared hper, ha]
      exact Option.some_ne_none _
    have hother : t' ≠ (s.gov.policies p).tunables → s.attrSets t' = none := by
      intro ht
      by_contra hne
      exact ht (Option.some.inj (((h.shared hper t').mp hne).symm.trans hglobal))
    unfold Setup.left
    dsimp only
    by_cases ht : t' = (s.gov.policies p).tunables
    · subst ht
      by_cases hc : (A.put a p).1 = 0
      · simp [hc, hper]
      · simp [hc, hglobal]
    · rw [Function.update_of_ne ht, hother ht]
      refine iff_of_false (fun hne => hne rfl) fun hsome => ?_
      split at hsome
      · cases hsome
      · exact ht (Option.some.inj (hsome.symm.trans hglobal))
  · unfold Setup.left
    dsimp only
    rw [hper]
    simpa using h.own hper

theorem forEachPolicy_tunables (t : Nat) (change : SugovPolicy L → SugovPolicy L)
    (hchange : ∀ sg, (change sg).tunables = sg.tunables) (s : Setup A L) (q : Nat) :
    ((s.forEachPolicy t change).gov.policies q).tunables = (s.gov.policies q).tunables := by
  unfold forEachPolicy
  dsimp only
  generalize ((s.attrSets t).map A.policyList).getD [] = users
  generalize s.gov = g
  induction users generalizing g with
  | nil => rfl
  | cons p users ih =>
    rw [List.foldl_cons, ih]
    by_cases hq : q = p
    · subst hq
      simpa [updateMinRateLimitUs] using hchange _
    · simp [hq]

theorem Consistent.next (h : s.Consistent perPolicy) {e : SetupEvent} (he : s.Valid e) :
    (s.next perPolicy e).Consistent perPolicy := by
  cases e with
  | init p f =>
    have hr := sugovInit_result perPolicy p he
    unfold Setup.next call
    dsimp only
    generalize s.sugovInit perPolicy p f = c at hr
    cases hr with
    | failed setup ops ret _ hs => exact h.unchanged hs
    | workerFailed setup ret _ hs => exact h.unchanged hs
    | joined t _ hdata hglobal hper => exact h.joined hdata hglobal hper
    | created t _ hdata hglobal ht => exact h.created hdata hglobal ht
  | exit p =>
    obtain ⟨a, ha, -⟩ := h.used p he
    unfold Setup.next call
    dsimp only
    rw [sugovExit_eq perPolicy ha]
    exact h.left he ha
  | start p =>
    refine h.congr rfl rfl rfl fun q _ => ?_
    by_cases hq : q = p
    · subst hq
      simp [Setup.next, call, sugovStart, MSchedutil.sugovStart]
    · simp [Setup.next, call, sugovStart, MSchedutil.sugovStart, hq]
  | stop p => exact h.congr rfl rfl rfl fun _ _ => rfl
  | upRateLimitUs t us =>
    refine h.congr rfl rfl rfl fun q _ => ?_
    exact forEachPolicy_tunables t (fun sg => { sg with upRateDelayNs := us * nsecPerUsec })
      (fun _ => rfl) { s with gov := s.gov.setTunables t { s.gov.tunables t with upRateLimitUs := us } } q
  | downRateLimitUs t us =>
    refine h.congr rfl rfl rfl fun q _ => ?_
    exact forEachPolicy_tunables t (fun sg => { sg with downRateDelayNs := us * nsecPerUsec })
      (fun _ => rfl) { s with gov := s.gov.setTunables t { s.gov.tunables t with downRateLimitUs := us } } q

theorem empty_consistent (perPolicy : Bool) (policies : Nat → CpufreqPolicy L) :
    (empty (A := A) policies).Consistent perPolicy where
  used p hp := by cases hp
  users t a ha := by cases ha
  nonempty t a ha := by cases ha
  nodup t a ha := by cases ha
  shared _ t := iff_of_false (fun hne => hne rfl) (Option.some_ne_none t).symm
  own _ := rfl

/-- A call is in order: it leaves the lock as it found it, a failed `sugov_init` leaves the
policies, the tunables and the threads as it found them, and the global tunables are kept. -/
structure InOrder (perPolicy : Bool) (s : Setup A L) (e : SetupEvent) : Prop where
  balanced : MutexOp.replay false (s.call perPolicy e).ops = some false
  atomic : (s.call perPolicy e).ret ≠ 0 → Unchanged s (s.next perPolicy e)
  global : (s.next perPolicy e).GlobalKept perPolicy

theorem inOrder_iff (h : s.Consistent perPolicy) {e : SetupEvent} (he : s.Valid e) :
    s.InOrder perPolicy e ↔ ¬ s.WorkerFails e := by
  have hglobal := (h.next he).globalKept
  cases e with
  | init p f =>
    have hr := sugovInit_result perPolicy p he
    have hcall : s.call perPolicy (.init p f) = s.sugovInit perPolicy p f := rfl
    have hnext : s.next perPolicy (.init p f) = (s.sugovInit perPolicy p f).setup := rfl
    rw [hnext] at hglobal
    constructor
    · intro horder hfails
      have hbalanced := horder.balanced
      rw [hcall] at hbalanced
      generalize s.sugovInit perPolicy p f = c at hr hbalanced
      cases hr with
      | failed setup ops ret _ _ hnot => exact hnot hfails
      | workerFailed setup ret => cases hbalanced
      | joined t hnot => exact hnot hfails
      | created t hnot => exact hnot hfails
    · intro hnot
      have hgoal : MutexOp.replay false (s.sugovInit perPolicy p f).ops = some false ∧
          ((s.sugovInit perPolicy p f).ret ≠ 0 → Unchanged s (s.sugovInit perPolicy p f).setup) := by
        generalize s.sugovInit perPolicy p f = c at hr
        cases hr with
        | failed setup ops ret _ hs _ hops =>
          refine ⟨?_, fun _ => hs⟩
          rcases hops with rfl | rfl <;> rfl
        | workerFailed setup ret _ _ hfails => exact absurd hfails hnot
        | joined t => exact ⟨rfl, fun hret => absurd rfl hret⟩
        | created t => exact ⟨rfl, fun hret => absurd rfl hret⟩
      exact ⟨hgoal.1, hgoal.2, hglobal⟩
  | exit p =>
    obtain ⟨a, ha, -⟩ := h.used p he
    have hcall : s.call perPolicy (.exit p) = _ := sugovExit_eq perPolicy ha
    refine iff_of_true ⟨?_, fun hret => ?_, hglobal⟩ id
    · rw [hcall]
      rfl
    · rw [hcall] at hret
      exact absurd rfl hret
  | start p | stop p => exact iff_of_true ⟨rfl, fun hret => absurd rfl hret, hglobal⟩ id
  | upRateLimitUs t us | downRateLimitUs t us =>
    exact iff_of_true ⟨rfl, fun hret => absurd rfl hret, hglobal⟩ id

end Setup

/-- The calls of a run are in order exactly if no worker thread fails to start: that way out
of `sugov_init` unlocks what it never locked. All the other failures unwind as they should. -/
theorem setup_in_order_iff {perPolicy : Bool} {policies : Nat → CpufreqPolicy L}
    {es : List SetupEvent}
    (h : Along (Setup.next perPolicy) Setup.Valid (Setup.empty (A := A) policies) es) :
    Along (Setup.next perPolicy) (Setup.InOrder perPolicy) (Setup.empty (A := A) policies) es ↔
      Along (Setup.next perPolicy) (fun s e => ¬ s.WorkerFails e) (Setup.empty (A := A) policies) es := by
  have hrun : Along (Setup.next perPolicy) (fun s e => s.Consistent perPolicy ∧ s.Valid e)
      (Setup.empty (A := A) policies) es :=
    h.imp (I := Setup.Consistent perPolicy) (fun _ _ hs he => hs.next he) (fun _ _ hs he => ⟨hs, he⟩)
      (Setup.empty_consistent perPolicy policies)
  exact hrun.iff_of fun _ _ hs => Setup.inOrder_iff hs.1 hs.2

/-- Nothing fails, with memory for new tunables at `t`. -/
def initWorks (t : Nat) : InitOutcome := ⟨true, 0, 0, some t, 0⟩

theorem lonePolicies_maxFreq_lt : 2000000 < uintMax := by decide

/-- Policies of one CPU each, without fast switching. -/
def lonePolicies (p : Nat) : CpufreqPolicy (Nat × Nat) :=
  ⟨{p}, 2000000, 300000, false, (300000, 2000000), lonePolicies_maxFreq_lt⟩

/-- Two policies share tunables, one of three set-ups finds no memory, and one policy leaves. -/
theorem setup_in_order_two_policies :
    Along (Setup.next false) (Setup.InOrder false) (Setup.empty (A := listAttrSet) lonePolicies)
      [.init 0 ⟨true, 0, 0, none, 0⟩, .init 0 (initWorks 7), .init 1 (initWorks 8), .exit 0] := by
  have hvalid : Along (Setup.next false) Setup.Valid (Setup.empty (A := listAttrSet) lonePolicies)
      [.init 0 ⟨true, 0, 0, none, 0⟩, .init 0 (initWorks 7), .init 1 (initWorks 8), .exit 0] := by
    refine ⟨fun _ ht => ?_, fun _ ht => ?_, fun _ ht => ?_, rfl, trivial⟩
    · cases ht
    · cases ht
      rfl
    · cases ht
      rfl
  refine (setup_in_order_iff hvalid).mpr ⟨fun hw => ?_, fun hw => ?_, fun hw => ?_, id, trivial⟩
  · simp [Setup.WorkerFails] at hw
  · simp [Setup.WorkerFails, initWorks] at hw
  · simp [Setup.WorkerFails, initWorks] at hw

/-- A worker thread that cannot be created: `sugov_init` unlocks a mutex that it does not hold. -/
theorem setup_unlocks_unheld :
    ((Setup.empty (A := listAttrSet) lonePolicies).call false (.init 0 ⟨true, enomem, 0, some 7, 0⟩)).ops =
        [.unlock] ∧
      ¬ ∀ es : List SetupEvent,
        Along (Setup.next false) Setup.Valid (Setup.empty (A := listAttrSet) lonePolicies) es →
        Along (Setup.next false) (Setup.InOrder false) (Setup.empty (A := listAttrSet) lonePolicies) es := by
  have hops : ((Setup.empty (A := listAttrSet) lonePolicies).call false
      (.init 0 ⟨true, enomem, 0, some 7, 0⟩)).ops = [.unlock] := by decide
  refine ⟨hops, fun hall => ?_⟩
  obtain ⟨horder, -⟩ := hall [.init 0 ⟨true, enomem, 0, some 7, 0⟩] ⟨fun _ _ => rfl, trivial⟩
  have hbalanced := horder.balanced
  rw [hops] at hbalanced
  cases hbalanced

end MSchedutil
