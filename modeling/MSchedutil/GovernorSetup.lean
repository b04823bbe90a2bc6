import MSchedutil.GovernorUpdate

/-! Set-up and tear-down of the governor: policies that come and go, the tunables they
share or own, the worker threads and the lock over them. What can fail in `sugov_init` is
an argument; the labels it unwinds through are definitions of their own. -/

namespace MSchedutil

variable {L : Type*}

def enomem : Nat := 12
def ebusy : Nat := 16
def einval : Nat := 22

/-- `struct gov_attr_set` and its functions, which the kernel has elsewhere: a count of
the policies that use the tunables, and their list. -/
structure GovAttrSetOps where
  AttrSet : Type
  init : Nat → AttrSet
  get : AttrSet → Nat → AttrSet
  put : AttrSet → Nat → Nat × AttrSet
  policyList : AttrSet → List Nat
  policyList_init : ∀ p, policyList (init p) = [p]
  policyList_get : ∀ s p, (policyList (get s p)).Perm (p :: policyList s)
  policyList_put : ∀ s p, (policyList (put s p).2).Perm ((policyList s).erase p)
  count_put : ∀ s p, (put s p).1 = ((policyList s).erase p).length

/-- A list of policies is such a set. -/
def listAttrSet : GovAttrSetOps where
  AttrSet := List Nat
  init p := [p]
  get s p := p :: s
  put s p := ((s.erase p).length, s.erase p)
  policyList s := s
  policyList_init _ := rfl
  policyList_get _ _ := .refl _
  policyList_put _ _ := .refl _
  count_put _ _ := rfl

inductive MutexOp
  | lock
  | unlock
  deriving DecidableEq, Repr

/-- Whether a mutex is held after some operations, if each finds it as it must. -/
def MutexOp.replay : Bool → List MutexOp → Option Bool
  | held, [] => some held
  | false, .lock :: ops => replay true ops
  | true, .unlock :: ops => replay false ops
  | _, _ => none

/-- What may go wrong in `sugov_init`: `sugov_policy_alloc`, the two steps of the worker thread
and `kobject_init_and_add` with their error, and the memory for the tunables, if any. -/
structure InitOutcome where
  policyAlloc : Bool
  kthreadCreate : Nat
  setScheduler : Nat
  tunablesAlloc : Option Nat
  kobject : Nat
  deriving DecidableEq, Repr

/-- The governor with what surrounds it. `governorData p` says that policy `p` has a
`sugov_policy`, the one in `gov`; `attrSets t` is there while the tunables `t` are. -/
structure Setup (A : GovAttrSetOps) (L : Type*) where
  gov : Gov L
  governorData : Nat → Bool
  attrSets : Nat → Option A.AttrSet
  globalTunables : Option Nat
  threads : List Nat
  started : Nat → Bool

/-- A call under way: its operations on `global_tunables_lock` and its return value. -/
structure SetupCall (A : GovAttrSetOps) (L : Type*) where
  setup : Setup A L
  ops : List MutexOp
  ret : Nat

variable {A : GovAttrSetOps}

namespace SetupCall

def mutexLock (c : SetupCall A L) : SetupCall A L := { c with ops := c.ops ++ [.lock] }

def mutexUnlock (c : SetupCall A L) : SetupCall A L := { c with ops := c.ops ++ [.unlock] }

def fastSwitchEnabled (c : SetupCall A L) (p : Nat) : Bool :=
  (c.setup.gov.policies p).policy.fastSwitchEnabled

/-- `kthread_create` and `kthread_stop` of the worker thread of policy `p`. -/
def kthreadCreate (p : Nat) (c : SetupCall A L) : SetupCall A L :=
  { c with setup := { c.setup with threads := p :: c.setup.threads } }

def kthreadStop (p : Nat) (c : SetupCall A L) : SetupCall A L :=
  { c with setup := { c.setup with threads := c.setup.threads.erase p } }

def sugovKthreadCreate (p : Nat) (f : InitOutcome) (c : SetupCall A L) : SetupCall A L :=
  if c.fastSwitchEnabled p then { c with ret := 0 }
  else if f.kthreadCreate ≠ 0 then { c with ret := f.kthreadCreate }
  else
    let c := c.kthreadCreate p
    if f.setScheduler ≠ 0 then { c.kthreadStop p with ret := f.setScheduler }
    else { c with ret := 0 }

def sugovKthreadStop (p : Nat) (c : SetupCall A L) : SetupCall A L :=
  if c.fastSwitchEnabled p then c else c.kthreadStop p

/-- The tunables `t`, zeroed, for policy `p`. -/
def sugovTunablesAlloc (perPolicy : Bool) (p t : Nat) (c : SetupCall A L) : SetupCall A L :=
  { c with
    setup := { c.setup with
      gov := c.setup.gov.setTunables t ⟨0, 0, 0, 0⟩
      attrSets := Function.update c.setup.attrSets t (some (A.init p))
      globalTunables := if perPolicy then c.setup.globalTunables else some t } }

def sugovTunablesFree (perPolicy : Bool) (t : Nat) (c : SetupCall A L) : SetupCall A L :=
  { c with
    setup := { c.setup with
      attrSets := Function.update c.setup.attrSets t none
      globalTunables := if perPolicy then c.setup.globalTunables else none } }

def setGovernorData (p : Nat) (b : Bool) (c : SetupCall A L) : SetupCall A L :=
  { c with setup := { c.setup with governorData := Function.update c.setup.governorData p b } }

/-- `policy->governor_data` and the tunables of the new `sugov_policy`. -/
def bind (p t : Nat) (c : SetupCall A L) : SetupCall A L :=
  let c := c.setGovernorData p true
  { c with
    setup := { c.setup with
      gov := c.setup.gov.setPolicy p (sugovPolicyAlloc (c.setup.gov.policies p).policy t) } }

-- the labels of `sugov_init`, from the last to the first

def disableFastSwitch (ret : Nat) (c : SetupCall A L) : SetupCall A L := { c with ret := ret }

def freeSgPolicy (ret : Nat) (c : SetupCall A L) : SetupCall A L :=
  c.mutexUnlock.disableFastSwitch ret

def stopKthread (p ret : Nat) (c : SetupCall A L) : SetupCall A L :=
  (c.sugovKthreadStop p).freeSgPolicy ret

def fail (perPolicy : Bool) (p t ret : Nat) (c : SetupCall A L) : SetupCall A L :=
  ((c.setGovernorData p false).sugovTunablesFree perPolicy t).stopKthread p ret

def out (c : SetupCall A L) : SetupCall A L := { c.mutexUnlock with ret := 0 }

/-- The values of new tunables; the ones made of the transition latency are overwritten. -/
def setDefaults (t : Nat) (c : SetupCall A L) : SetupCall A L :=
  { c with
    setup := { c.setup with
      gov := c.setup.gov.setTunables t
        { c.setup.gov.tunables t with
          upRateLimitUs := 500
          downRateLimitUs := 2000
          capacityMargin := 256 } } }

def govAttrSetGet (p t : Nat) (c : SetupCall A L) : SetupCall A L :=
  { c with
    setup := { c.setup with
      attrSets := Function.update c.setup.attrSets t ((c.setup.attrSets t).map (A.get · p)) } }

/-- `gov_attr_set_put` on the tunables `t`; the return value is the count that is left. -/
def govAttrSetPut (p t : Nat) (c : SetupCall A L) : SetupCall A L :=
  let put := (c.setup.attrSets t).map (A.put · p)
  { c with
    setup := { c.setup with
      attrSets := Function.update c.setup.attrSets t (put.map Prod.snd) }
    ret := (put.map Prod.fst).getD 0 }

end SetupCall

namespace Setup

def sugovInit (perPolicy : Bool) (p : Nat) (f : InitOutcome) (s : Setup A L) : SetupCall A L :=
  if s.governorData p then ⟨s, [], ebusy⟩
  else
    let c : SetupCall A L := ⟨s, [], 0⟩
    if f.policyAlloc = false then c.disableFastSwitch enomem
    else
      let c := c.sugovKthreadCreate p f
      if c.ret ≠ 0 then c.freeSgPolicy c.ret
      else
        let c := c.mutexLock
        match s.globalTunables, f.tunablesAlloc with
        | some t, _ =>
          if perPolicy then c.stopKthread p einval else ((c.bind p t).govAttrSetGet p t).out
        | none, none => c.stopKthread p enomem
        | none, some t =>
          let c := ((c.sugovTunablesAlloc perPolicy p t).setDefaults t).bind p t
          if f.kobject ≠ 0 then c.fail perPolicy p t f.kobject else c.out

def sugovExit (perPolicy : Bool) (p : Nat) (s : Setup A L) : SetupCall A L :=
  let t := (s.gov.policies p).tunables
  let c := ((⟨s, [], 0⟩ : SetupCall A L).mutexLock.govAttrSetPut p t).setGovernorData p false
  let c := if c.ret = 0 then c.sugovTunablesFree perPolicy t else c
  let c := c.mutexUnlock.sugovKthreadStop p
  { c with setup := { c.setup with started := Function.update c.setup.started p false }, ret := 0 }

def sugovStart (p : Nat) (s : Setup A L) : Setup A L :=
  { s with
    gov := MSchedutil.sugovStart p s.gov
    started := Function.update s.started p true }

def sugovStop (p : Nat) (s : Setup A L) : Setup A L :=
  { s with
    gov := MSchedutil.sugovStop p s.gov
    started := Function.update s.started p false }

/-- The loop of a rate limit store over the policy list of the tunables `t`. -/
def forEachPolicy (t : Nat) (change : SugovPolicy L → SugovPolicy L) (s : Setup A L) : Setup A L :=
  { s with
    gov := (((s.attrSets t).map A.policyList).getD []).foldl
      (fun g p => g.setPolicy p (updateMinRateLimitUs (change (g.policies p)))) s.gov }

def upRateLimitUsStore (t rateLimitUs : Nat) (s : Setup A L) : Setup A L :=
  { s with
    gov := s.gov.setTunables t { s.gov.tunables t with upRateLimitUs := rateLimitUs } }.forEachPolicy t
      fun sg => { sg with upRateDelayNs := rateLimitUs * nsecPerUsec }

def downRateLimitUsStore (t rateLimitUs : Nat) (s : Setup A L) : Setup A L :=
  { s with
    gov := s.gov.setTunables t { s.gov.tunables t with downRateLimitUs := rateLimitUs } }.forEachPolicy t
      fun sg => { sg with downRateDelayNs := rateLimitUs * nsecPerUsec }

end Setup

inductive SetupEvent
  | init (p : Nat) (f : InitOutcome)
  | exit (p : Nat)
  | start (p : Nat)
  | stop (p : Nat)
  | upRateLimitUs (t us : Nat)
  | downRateLimitUs (t us : Nat)
  deriving DecidableEq, Repr

namespace Setup

/-- One call; only `sugov_init` and `sugov_exit` take the lock. -/
def call (perPolicy : Bool) (s : Setup A L) : SetupEvent → SetupCall A L
  | .init p f => s.sugovInit perPolicy p f
  | .exit p => s.sugovExit perPolicy p
  | .start p => ⟨s.sugovStart p, [], 0⟩
  | .stop p => ⟨s.sugovStop p, [], 0⟩
  | .upRateLimitUs t us => ⟨s.upRateLimitUsStore t us, [], 0⟩
  | .downRateLimitUs t us => ⟨s.downRateLimitUsStore t us, [], 0⟩

def next (perPolicy : Bool) (s : Setup A L) (e : SetupEvent) : Setup A L := (s.call perPolicy e).setup

/-- No policy has a governor yet. -/
def empty (policies : Nat → CpufreqPolicy L) : Setup A L where
  gov := MSchedutil.sugovInit policies
  governorData _ := false
  attrSets _ := none
  globalTunables := none
  threads := []
  started _ := false

/-- New tunables are put where there are none; the core stops and tears down only what
was set up; an attribute is written while its tunables are there, as an `unsigned int`. -/
def Valid (s : Setup A L) : SetupEvent → Prop
  | .init _ f => ∀ t, f.tunablesAlloc = some t → s.attrSets t = none
  | .exit p | .start p | .stop p => s.governorData p = true
  | .upRateLimitUs t us | .downRateLimitUs t us => s.attrSets t ≠ none ∧ us < 2 ^ 32

end Setup

end MSchedutil
