import MSchedutil.Bandwidth
import MSchedutil.CalcDelta
import Mathlib.Logic.Function.Basic

/-! The queues of the fair class on one CPU: the `cfs_rq` of every task group with its
timeline, the entities on them, and what `update_curr` and the accounting do to one queue. -/

namespace MSchedutil

open Word

/-- A `sched_entity`: that of a task, or the one that stands for the `cfs_rq` of a group. -/
inductive Ent
  | task (p : Nat)
  | group (q : Nat)
  deriving DecidableEq, Repr

/-- The `cfs_rq`s of the task groups, numbered as they were created from the root `0` on;
the entity of `q` goes on `parent q`. -/
structure Groups where
  size : Nat
  parent : Nat → Nat
  size_pos : 0 < size
  parent_lt : ∀ q, q ≠ 0 → parent q < q

namespace Groups

variable (g : Groups)

def climb : Nat → Nat → List Nat
  | 0, _ => []
  | n + 1, q => if q = 0 then [] else q :: climb n (g.parent q)

/-- The queues from `q` up to the child of the root. -/
def above (q : Nat) : List Nat := g.climb q q

/-- The entities from that of `q` upwards, as `for_each_sched_entity` visits them. -/
def entities (q : Nat) : List Ent := (g.above q).map .group

theorem climb_eq {n q : Nat} (h : q ≤ n) : g.climb n q = g.climb q q := by
  induction q using Nat.strong_induction_on generalizing n with
  | _ q ih =>
    cases n with
    | zero => rw [Nat.le_zero.mp h]
    | succ n =>
      rcases q.eq_zero_or_pos with rfl | hpos
      · simp [climb]
      · obtain ⟨m, rfl⟩ := Nat.exists_eq_succ_of_ne_zero hpos.ne'
        have hlt := g.parent_lt (m + 1) (by omega)
        simp only [climb, Nat.succ_eq_add_one, Nat.add_eq_zero_iff, one_ne_zero, and_false, if_false]
        rw [ih _ hlt (by omega), ih _ hlt (n := m) (by omega)]

@[simp] theorem above_zero : g.above 0 = [] := rfl

theorem above_of_ne {q : Nat} (h : q ≠ 0) : g.above q = q :: g.above (g.parent q) := by
  obtain ⟨m, rfl⟩ := Nat.exists_eq_succ_of_ne_zero h
  have hlt := g.parent_lt (m + 1) h
  simp only [above, Nat.succ_eq_add_one, climb, Nat.add_eq_zero_iff, one_ne_zero, and_false, if_false]
  rw [g.climb_eq (by omega)]

@[simp] theorem entities_zero : g.entities 0 = [] := rfl

theorem entities_of_ne {q : Nat} (h : q ≠ 0) :
    g.entities q = .group q :: g.entities (g.parent q) := by
  simp [entities, g.above_of_ne h]

end Groups

structure FairTunables where
  schedLatency : Nat
  minGranularity : Nat
  wakeupGranularity : Nat
  nrLatency : Nat
  childRunsFirst : Bool
  startDebit : Bool
  gentleFairSleepers : Bool
  nextBuddy : Bool
  lastBuddy : Bool
  wakeupPreemption : Bool
  cfsBandwidthUsed : Bool
  cfsBandwidthSlice : Nat
  tickNsec : Nat

/-- A `sched_entity` as the queues see it. A virtual runtime is a `u64` of which the code only
ever looks at the signed difference from another; the integer here is the sum of all that was
added to it and taken from it, and the `u64` is the residue of that. -/
structure FairEntity where
  load : LoadWeight
  vruntime : Int
  onRq : Bool
  execStart : Nat
  sumExecRuntime : Nat
  prevSumExecRuntime : Nat
  deriving DecidableEq, Repr

/-- A `cfs_rq` without its averages; `timeline` is the tree in order, the leftmost first. -/
structure FairCfsRq where
  load : LoadWeight
  nrRunning : Nat
  hNrRunning : Nat
  minVruntime : Int
  timeline : List Ent
  curr : Option Ent
  next : Option Ent
  last : Option Ent
  skip : Option Ent
  runtime : CfsRuntime
  throttled : Bool
  throttleCount : Nat
  throttledClock : Nat
  throttledClockTask : Nat
  throttledClockTaskTime : Nat
  deriving DecidableEq, Repr

/-- What `calc_cfs_shares` reads besides the weight of the group's queue; a group has shares. -/
structure ShareInputs where
  shares : Nat
  loadAvg : Nat
  tgLoadAvgContrib : Nat
  shares_pos : 0 < shares
  deriving DecidableEq

/-- The fair part of an `rq`. `taskCfs` is the `se.cfs_rq` of a task, `idlePolicy` tells the
`SCHED_IDLE` tasks, `curr` is `rq->curr` when that is a fair task. The code has no `strayed`,
and nothing here reads it: it records that two virtual runtimes met that were too far apart for
the sign of their difference to tell which is ahead. -/
structure FairRq where
  cpu : Nat
  ses : Ent → FairEntity
  cfs : Nat → FairCfsRq
  taskCfs : Nat → Nat
  idlePolicy : Nat → Bool
  curr : Option Nat
  nrRunning : Nat
  load : LoadWeight
  clock : Nat
  clockTask : Nat
  needResched : Bool
  cfsTasks : List Nat
  leafCfsRqList : List Nat
  tmpAloneBranch : Option Nat
  pools : Nat → CfsBandwidth
  inputs : Nat → ShareInputs
  strayed : Bool

/-- `calc_cfs_shares`, given the weight of the group's queue. -/
def calcCfsShares (r : ShareInputs) (weight : Nat) : Nat :=
  let load := scaleLoadDown weight
  let tgWeight := s64 (sub64 r.loadAvg r.tgLoadAvgContrib + load)
  let shares := s64 (u64 (r.shares * load))
  let shares := ofInt64 (if tgWeight ≠ 0 then Int.tdiv shares tgWeight else shares)
  let shares := if shares < 2 then 2 else shares
  if shares > r.shares then r.shares else shares

/-- The `s64` of the difference of the `u64`s of two virtual runtimes. -/
def vruntimeDelta (a b : Int) : Int := s64 (sub64 (ofInt64 a) (ofInt64 b))

/-- Whether two virtual runtimes are too far apart for an `s64`. -/
def farApart (a b : Int) : Bool := decide (2 ^ 63 ≤ (a - b).natAbs)

/-- Only what the `u64`s keep is compared. -/
theorem vruntimeDelta_congr {a b x y : Int} (ha : a % 2 ^ 64 = x % 2 ^ 64)
    (hb : b % 2 ^ 64 = y % 2 ^ 64) : vruntimeDelta a b = vruntimeDelta x y := by
  rw [vruntimeDelta, vruntimeDelta, ofInt64, ofInt64, ofInt64, ofInt64, ha, hb]

theorem vruntimeDelta_of_near {a b : Int} (h : farApart a b = false) : vruntimeDelta a b = a - b := by
  have hnear : (a - b).natAbs < 2 ^ 63 := by simpa [farApart] using h
  rw [vruntimeDelta, s64, sub64, ofInt64, ofInt64, u64, u64, u64]
  split <;> omega

def maxVruntime (maxVruntime vruntime : Int) : Int :=
  if vruntimeDelta vruntime maxVruntime > 0 then vruntime else maxVruntime

def minVruntime (minVruntime vruntime : Int) : Int :=
  if vruntimeDelta vruntime minVruntime < 0 then vruntime else minVruntime

/-- `__enqueue_entity`: in order, behind the entries of the same key. This is where the walk down
the tree ends as long as no two virtual runtimes are far apart. -/
def enqueueTimeline (vruntime : Ent → Int) (se : Ent) : List Ent → List Ent
  | [] => [se]
  | entry :: rest =>
    if vruntimeDelta (vruntime se) (vruntime entry) < 0 then se :: entry :: rest
    else entry :: enqueueTimeline vruntime se rest

def insertBefore (x y : Nat) : List Nat → List Nat
  | [] => [y]
  | z :: zs => if z = x then y :: z :: zs else z :: insertBefore x y zs

def insertAfter (x y : Nat) : List Nat → List Nat
  | [] => [y]
  | z :: zs => if z = x then z :: y :: zs else z :: insertAfter x y zs

namespace FairRq

variable (g : Groups) (t : FairTunables)

/-- After `sched_init`: the queues as `init_cfs_rq`, `init_tg_cfs_entry` and `init_cfs_bandwidth`
leave them, and no task queued yet. -/
def init (cpu : Nat) (inputs : Nat → ShareInputs) : FairRq where
  cpu := cpu
  ses _ := ⟨.set nice0Load, 0, false, 0, 0, 0⟩
  cfs _ :=
    { load := ⟨0, 0⟩
      nrRunning := 0
      hNrRunning := 0
      minVruntime := -(2 ^ 20)
      timeline := []
      curr := none
      next := none
      last := none
      skip := none
      runtime := ⟨false, 0, 0⟩
      throttled := false
      throttleCount := 0
      throttledClock := 0
      throttledClockTask := 0
      throttledClockTaskTime := 0 }
  taskCfs _ := 0
  idlePolicy _ := false
  curr := none
  nrRunning := 0
  load := ⟨0, 0⟩
  clock := 0
  clockTask := 0
  needResched := false
  cfsTasks := []
  leafCfsRqList := []
  tmpAloneBranch := none
  pools _ := .init
  inputs := inputs
  strayed := false

def setSe (e : Ent) (f : FairEntity → FairEntity) (s : FairRq) : FairRq :=
  { s with ses := Function.update s.ses e (f (s.ses e)) }

def setCfs (q : Nat) (f : FairCfsRq → FairCfsRq) (s : FairRq) : FairRq :=
  { s with cfs := Function.update s.cfs q (f (s.cfs q)) }

/-- Makes a note of virtual runtimes that are far apart. -/
def stray (far : Bool) (s : FairRq) : FairRq := { s with strayed := s.strayed || far }

/-- `cfs_rq_of` -/
def cfsRqOf (s : FairRq) : Ent → Nat
  | .task p => s.taskCfs p
  | .group q => g.parent q

/-- An entity and those above it. -/
def path (s : FairRq) (e : Ent) : List Ent := e :: g.entities (s.cfsRqOf g e)

def reschedCurr (s : FairRq) : FairRq := { s with needResched := true }

def vruntime (s : FairRq) (e : Ent) : Int := (s.ses e).vruntime

def entityBefore (s : FairRq) (a b : Ent) : Bool :=
  decide (vruntimeDelta (s.vruntime a) (s.vruntime b) < 0)

/-- `cfs_rq->curr` while it is on the queue. -/
def currOnRq (s : FairRq) (q : Nat) : Option Ent := (s.cfs q).curr.filter (fun e => (s.ses e).onRq)

/-- What is on a queue: its timeline and its current entity. -/
def queued (s : FairRq) (q : Nat) : List Ent := (s.cfs q).timeline ++ (s.currOnRq q).toList

def updateMinVruntime (q : Nat) (s : FairRq) : FairRq :=
  let old := (s.cfs q).minVruntime
  let vruntime := match s.currOnRq q, (s.cfs q).timeline.head? with
    | none, none => old
    | some e, none => s.vruntime e
    | none, some left => s.vruntime left
    | some e, some left => minVruntime (s.vruntime e) (s.vruntime left)
  (s.setCfs q (fun c => { c with minVruntime := maxVruntime old vruntime })).stray
    (farApart vruntime old)

/-- `account_cfs_rq_runtime` -/
def accountCfsRqRuntime (q deltaExec : Nat) (s : FairRq) : FairRq :=
  let c := s.cfs q
  if t.cfsBandwidthUsed && c.runtime.runtimeEnabled then
    let r := chargeCfsRqRuntime t.cfsBandwidthSlice t.tickNsec s.clock deltaExec (s.pools q) c.runtime
    let s := { s.setCfs q (fun c => { c with runtime := r.2 }) with
      pools := Function.update s.pools q r.1 }
    if r.2.runtimeRemaining ≤ 0 ∧ c.curr ≠ none then s.reschedCurr else s
  else s

def updateCurr (q : Nat) (s : FairRq) : FairRq :=
  match (s.cfs q).curr with
  | none => s
  | some e =>
    let deltaExec := sub64 s.clockTask (s.ses e).execStart
    if s64 deltaExec ≤ 0 then s
    else
      let s := s.setSe e (fun se => { se with
        execStart := s.clockTask
        sumExecRuntime := u64 (se.sumExecRuntime + deltaExec)
        vruntime := se.vruntime + calcDeltaFair deltaExec se.load })
      (s.updateMinVruntime q).accountCfsRqRuntime t q deltaExec

def accountEntityEnqueue (q : Nat) (e : Ent) (s : FairRq) : FairRq :=
  let w := (s.ses e).load.weight
  let s := s.setCfs q (fun c => { c with load := c.load.add w, nrRunning := c.nrRunning + 1 })
  { s with
    load := if q = 0 then s.load.add w else s.load
    cfsTasks := match e with | .task p => p :: s.cfsTasks | .group _ => s.cfsTasks }

def accountEntityDequeue (q : Nat) (e : Ent) (s : FairRq) : FairRq :=
  let w := (s.ses e).load.weight
  let s := s.setCfs q (fun c => { c with load := c.load.sub w, nrRunning := c.nrRunning - 1 })
  { s with
    load := if q = 0 then s.load.sub w else s.load
    cfsTasks := match e with | .task p => s.cfsTasks.erase p | .group _ => s.cfsTasks }

/-- `throttled_hierarchy` -/
def throttledHierarchy (s : FairRq) (q : Nat) : Bool :=
  t.cfsBandwidthUsed && decide ((s.cfs q).throttleCount ≠ 0)

/-- `cfs_rq_throttled` -/
def cfsRqThrottled (s : FairRq) (q : Nat) : Bool := t.cfsBandwidthUsed && (s.cfs q).throttled

def reweightEntity (q : Nat) (e : Ent) (weight : Nat) (s : FairRq) : FairRq :=
  let onRq := (s.ses e).onRq
  let s := if onRq then
      (if (s.cfs q).curr = some e then s.updateCurr t q else s).accountEntityDequeue q e
    else s
  let s := s.setSe e (fun se => { se with load := .set weight })
  if onRq then s.accountEntityEnqueue q e else s

def updateCfsShares (e : Ent) (s : FairRq) : FairRq :=
  match e with
  | .task _ => s
  | .group c =>
    if s.throttledHierarchy t c then s
    else s.reweightEntity t (g.parent c) e (calcCfsShares (s.inputs c) (s.cfs c).load.weight)

/-- `__sched_period` -/
def schedPeriod (nrRunning : Nat) : Nat :=
  if nrRunning > t.nrLatency then u64 (nrRunning * t.minGranularity) else t.schedLatency

/-- One turn of the loop of `sched_slice`. -/
def sliceLevel (s : FairRq) (slice : Nat) (e : Ent) : Nat :=
  let se := s.ses e
  let load := (s.cfs (s.cfsRqOf g e)).load
  calcDelta slice se.load.weight (if se.onRq then load else load.add se.load.weight)

def schedSlice (s : FairRq) (q : Nat) (e : Ent) : Nat :=
  (s.path g e).foldl (s.sliceLevel g)
    (schedPeriod t ((s.cfs q).nrRunning + if (s.ses e).onRq then 0 else 1))

def schedVslice (s : FairRq) (q : Nat) (e : Ent) : Nat :=
  calcDeltaFair (s.schedSlice g t q e) (s.ses e).load

def placeEntity (q : Nat) (e : Ent) (initial : Bool) (s : FairRq) : FairRq :=
  let vruntime := (s.cfs q).minVruntime
  let vruntime := if initial && t.startDebit then vruntime + s.schedVslice g t q e else vruntime
  let vruntime := if initial then vruntime
    else vruntime - (if t.gentleFairSleepers then t.schedLatency >>> 1 else t.schedLatency : Nat)
  s.setSe e (fun se => { se with vruntime := maxVruntime se.vruntime vruntime })

/-- `__enqueue_entity` -/
def linkEntity (q : Nat) (e : Ent) (s : FairRq) : FairRq :=
  (s.setCfs q (fun c => { c with timeline := enqueueTimeline s.vruntime e c.timeline })).stray
    ((s.cfs q).timeline.any (fun entry => farApart (s.vruntime e) (s.vruntime entry)))

/-- `__dequeue_entity` -/
def unlinkEntity (q : Nat) (e : Ent) (s : FairRq) : FairRq :=
  s.setCfs q (fun c => { c with timeline := c.timeline.erase e })

/-- `__clear_buddies_last`, and so on: upwards for as long as the entity is the one. -/
def clearUp (get : FairCfsRq → Option Ent) (clear : FairCfsRq → FairCfsRq) :
    List Ent → FairRq → FairRq
  | [], s => s
  | e :: rest, s =>
    let q := s.cfsRqOf g e
    if get (s.cfs q) = some e then clearUp get clear rest (s.setCfs q clear) else s

def clearBuddies (q : Nat) (e : Ent) (s : FairRq) : FairRq :=
  let s := if (s.cfs q).last = some e then
    s.clearUp g (·.last) (fun c => { c with last := none }) (s.path g e) else s
  let s := if (s.cfs q).next = some e then
    s.clearUp g (·.next) (fun c => { c with next := none }) (s.path g e) else s
  if (s.cfs q).skip = some e then
    s.clearUp g (·.skip) (fun c => { c with skip := none }) (s.path g e) else s

/-- `return_cfs_rq_runtime` -/
def returnCfsRqRuntime (q : Nat) (s : FairRq) : FairRq :=
  let c := s.cfs q
  if t.cfsBandwidthUsed && c.runtime.runtimeEnabled && decide (c.nrRunning = 0) then
    let r := giveBackCfsRqRuntime (s.pools q) c.runtime
    { s.setCfs q (fun c => { c with runtime := r.2 }) with pools := Function.update s.pools q r.1 }
  else s

/-- `list_add_leaf_cfs_rq`; no `tmp_alone_branch` means that it points to the list itself. -/
def listAddLeafCfsRq (q : Nat) (s : FairRq) : FairRq :=
  if q ∈ s.leafCfsRqList then s
  else if q ≠ 0 ∧ g.parent q ∈ s.leafCfsRqList then
    { s with
      leafCfsRqList := insertBefore (g.parent q) q s.leafCfsRqList
      tmpAloneBranch := none }
  else if q = 0 then
    { s with leafCfsRqList := s.leafCfsRqList ++ [q], tmpAloneBranch := none }
  else
    { s with
      leafCfsRqList := match s.tmpAloneBranch with
        | none => q :: s.leafCfsRqList
        | some b => insertAfter b q s.leafCfsRqList
      tmpAloneBranch := some q }

end FairRq

end MSchedutil
