import MSchedutil.FairRq

/-! The operations of the fair class on one CPU: entities and tasks joining and leaving the
hierarchy of queues, throttling, picking and putting, the tick, preemption and the runs of all
of these in any order. -/

namespace MSchedutil

open Word

structure EnqueueFlags where
  wakeup : Bool
  migrated : Bool
  deriving DecidableEq, Repr

structure DequeueFlags where
  sleep : Bool
  save : Bool
  move : Bool
  deriving DecidableEq, Repr

/-- `ENQUEUE_WAKEUP` -/
def EnqueueFlags.wake : EnqueueFlags := ⟨true, false⟩

/-- `DEQUEUE_SLEEP` -/
def DequeueFlags.asleep : DequeueFlags := ⟨true, false, false⟩

namespace FairRq

variable (g : Groups) (t : FairTunables)

def dequeueEntity (q : Nat) (e : Ent) (flags : DequeueFlags) (s : FairRq) : FairRq :=
  let s := s.updateCurr t q
  let s := s.clearBuddies g q e
  let s := if (s.cfs q).curr = some e then s else s.unlinkEntity q e
  let s := s.setSe e (fun se => { se with onRq := false })
  let s := s.accountEntityDequeue q e
  let s := if flags.sleep then s
    else s.setSe e (fun se => { se with vruntime := se.vruntime - (s.cfs q).minVruntime })
  let s := s.returnCfsRqRuntime t q
  let s := s.updateCfsShares g t e
  if flags.save && !flags.move then s.updateMinVruntime q else s

/-- `tg_throttle_down` and `tg_unthrottle_up` on the queues at and below `q`. -/
def walkTgTree (q : Nat) (f : FairCfsRq → FairCfsRq) (s : FairRq) : FairRq :=
  { s with cfs := fun c => if q ∈ g.above c then f (s.cfs c) else s.cfs c }

def tgThrottleDown (clockTask : Nat) (c : FairCfsRq) : FairCfsRq :=
  { c with
    throttledClockTask := if c.throttleCount = 0 then clockTask else c.throttledClockTask
    throttleCount := c.throttleCount + 1 }

def tgUnthrottleUp (clockTask : Nat) (c : FairCfsRq) : FairCfsRq :=
  { c with
    throttleCount := c.throttleCount - 1
    throttledClockTaskTime := if c.throttleCount - 1 = 0
      then u64 (c.throttledClockTaskTime + sub64 clockTask c.throttledClockTask)
      else c.throttledClockTaskTime }

/-- The loop of `throttle_cfs_rq`, and whether it got past the root. -/
def throttleUp (taskDelta : Nat) : List Ent → Bool → FairRq → FairRq × Bool
  | [], _, s => (s, true)
  | e :: rest, dequeue, s =>
    if (s.ses e).onRq then
      let q := s.cfsRqOf g e
      let s := if dequeue then s.dequeueEntity g t q e .asleep else s
      let s := s.setCfs q (fun c => { c with hNrRunning := c.hNrRunning - taskDelta })
      throttleUp taskDelta rest (dequeue && decide ((s.cfs q).load.weight = 0)) s
    else (s, false)

def throttleCfsRq (q : Nat) (s : FairRq) : FairRq :=
  let s := s.walkTgTree g q (tgThrottleDown s.clockTask)
  let taskDelta := (s.cfs q).hNrRunning
  let r := s.throttleUp g t taskDelta (g.entities q) true
  let s := if r.2 then { r.1 with nrRunning := r.1.nrRunning - taskDelta } else r.1
  let s := s.setCfs q (fun c => { c with throttled := true, throttledClock := s.clock })
  let b := s.pools q
  let b := if b.throttledCfsRq = [] then b.start else b
  { s with
    pools := Function.update s.pools q ({ b with throttledCfsRq := s.cpu :: b.throttledCfsRq }) }

def checkEnqueueThrottle (q : Nat) (s : FairRq) : FairRq :=
  let c := s.cfs q
  if !t.cfsBandwidthUsed || !c.runtime.runtimeEnabled || c.curr.isSome || s.cfsRqThrottled t q then s
  else
    let s := s.accountCfsRqRuntime t q 0
    if (s.cfs q).runtime.runtimeRemaining ≤ 0 then s.throttleCfsRq g t q else s

/-- `enqueue_entity` up to its last test -/
def joinEntity (q : Nat) (e : Ent) (flags : EnqueueFlags) (s : FairRq) : FairRq :=
  let renorm := !flags.wakeup || flags.migrated
  let curr := decide ((s.cfs q).curr = some e)
  let add := fun (s : FairRq) =>
    s.setSe e (fun se => { se with vruntime := se.vruntime + (s.cfs q).minVruntime })
  let s := if renorm && curr then add s else s
  let s := s.updateCurr t q
  let s := if renorm && !curr then add s else s
  let s := s.updateCfsShares g t e
  let s := s.accountEntityEnqueue q e
  let s := if flags.wakeup then s.placeEntity g t q e false else s
  let s := if curr then s else s.linkEntity q e
  s.setSe e (fun se => { se with onRq := true })

def enqueueEntity (q : Nat) (e : Ent) (flags : EnqueueFlags) (s : FairRq) : FairRq :=
  let s := s.joinEntity g t q e flags
  if (s.cfs q).nrRunning = 1 then (s.listAddLeafCfsRq g q).checkEnqueueThrottle g t q else s

/-- The loop of `unthrottle_cfs_rq`, and whether it got past the root. -/
def unthrottleUp (taskDelta : Nat) : List Ent → Bool → FairRq → FairRq × Bool
  | [], _, s => (s, true)
  | e :: rest, enqueue, s =>
    let enqueue := enqueue && !(s.ses e).onRq
    let q := s.cfsRqOf g e
    let s := if enqueue then s.enqueueEntity g t q e .wake else s
    let s := s.setCfs q (fun c => { c with hNrRunning := c.hNrRunning + taskDelta })
    if s.cfsRqThrottled t q then (s, false) else unthrottleUp taskDelta rest enqueue s

/-- `unthrottle_cfs_rq` up to the walk over the groups below. -/
def unthrottleDown (q : Nat) (s : FairRq) : FairRq :=
  let s := s.setCfs q (fun c => { c with throttled := false })
  let b := s.pools q
  let b := { b with
    throttledTime := u64 (b.throttledTime + sub64 s.clock (s.cfs q).throttledClock)
    throttledCfsRq := b.throttledCfsRq.erase s.cpu }
  { s with pools := Function.update s.pools q b }.walkTgTree g q (tgUnthrottleUp s.clockTask)

def unthrottleCfsRq (q : Nat) (s : FairRq) : FairRq :=
  let s := s.unthrottleDown g q
  if (s.cfs q).load.weight = 0 then s
  else
    let taskDelta := (s.cfs q).hNrRunning
    let r := s.unthrottleUp g t taskDelta (g.entities q) true
    let s := if r.2 then { r.1 with nrRunning := r.1.nrRunning + taskDelta } else r.1
    if s.curr = none ∧ (s.cfs 0).nrRunning ≠ 0 then s.reschedCurr else s

/-- The turn of `distribute_cfs_runtime` that has come to the queue on this CPU. -/
def distributeCfsRuntime (q runtime expires : Nat) (s : FairRq) : FairRq :=
  if s.cfsRqThrottled t q then
    let s := s.setCfs q (fun c => { c with runtime := { c.runtime with
      runtimeRemaining := c.runtime.runtimeRemaining + runtime
      runtimeExpires := expires } })
    if (s.cfs q).runtime.runtimeRemaining > 0 then s.unthrottleCfsRq g t q else s
  else s

/-- The first loop of `enqueue_task_fair`, and what is left of the path. -/
def enqueueUp : List Ent → EnqueueFlags → FairRq → FairRq × List Ent
  | [], _, s => (s, [])
  | e :: rest, flags, s =>
    if (s.ses e).onRq then (s, e :: rest)
    else
      let q := s.cfsRqOf g e
      let s := s.enqueueEntity g t q e flags
      if s.cfsRqThrottled t q then (s, e :: rest)
      else
        enqueueUp rest .wake (s.setCfs q (fun c => { c with hNrRunning := c.hNrRunning + 1 }))

/-- The second loop of `enqueue_task_fair` and of `dequeue_task_fair`, and whether it got past
the root. -/
def countUp (f : Nat → Nat) : List Ent → FairRq → FairRq × Bool
  | [], s => (s, true)
  | e :: rest, s =>
    let q := s.cfsRqOf g e
    let s := s.setCfs q (fun c => { c with hNrRunning := f c.hNrRunning })
    if s.cfsRqThrottled t q then (s, false) else countUp f rest (s.updateCfsShares g t e)

def enqueueTaskFair (p : Nat) (flags : EnqueueFlags) (s : FairRq) : FairRq :=
  let r := s.enqueueUp g t (s.path g (.task p)) flags
  let r := r.1.countUp g t (· + 1) r.2
  if r.2 then { r.1 with nrRunning := r.1.nrRunning + 1 } else r.1

/-- `set_next_buddy`, and so on: the entity and those above it. -/
def setBuddies (set : Ent → FairCfsRq → FairCfsRq) : List Ent → FairRq → FairRq
  | [], s => s
  | e :: rest, s => setBuddies set rest (s.setCfs (s.cfsRqOf g e) (set e))

/-- Whether the entity is a task with the policy `SCHED_IDLE`. -/
def isIdleTask (s : FairRq) : Ent → Bool
  | .task p => s.idlePolicy p
  | .group _ => false

def setNextBuddy (e : Ent) (s : FairRq) : FairRq :=
  if s.isIdleTask e then s else s.setBuddies g (fun e c => { c with next := some e }) (s.path g e)

def setLastBuddy (e : Ent) (s : FairRq) : FairRq :=
  if s.isIdleTask e then s else s.setBuddies g (fun e c => { c with last := some e }) (s.path g e)

def setSkipBuddy (e : Ent) (s : FairRq) : FairRq :=
  s.setBuddies g (fun e c => { c with skip := some e }) (s.path g e)

/-- The first loop of `dequeue_task_fair`, and what is left of the path. -/
def dequeueUp (taskSleep : Bool) : List Ent → DequeueFlags → FairRq → FairRq × List Ent
  | [], _, s => (s, [])
  | e :: rest, flags, s =>
    let q := s.cfsRqOf g e
    let s := s.dequeueEntity g t q e flags
    if s.cfsRqThrottled t q then (s, e :: rest)
    else
      let s := s.setCfs q (fun c => { c with hNrRunning := c.hNrRunning - 1 })
      if (s.cfs q).load.weight ≠ 0 then
        match rest with
        | [] => (s, [])
        | parent :: _ =>
          (if taskSleep && !s.throttledHierarchy t q then s.setNextBuddy g parent else s, rest)
      else dequeueUp taskSleep rest { flags with sleep := true } s

def dequeueTaskFair (p : Nat) (flags : DequeueFlags) (s : FairRq) : FairRq :=
  let r := s.dequeueUp g t flags.sleep (s.path g (.task p)) flags
  let r := r.1.countUp g t (· - 1) r.2
  if r.2 then { r.1 with nrRunning := r.1.nrRunning - 1 } else r.1

def wakeupGran (s : FairRq) (e : Ent) : Nat := calcDeltaFair t.wakeupGranularity (s.ses e).load

def wakeupPreemptEntity (s : FairRq) (curr e : Ent) : Int :=
  let vdiff := vruntimeDelta (s.vruntime curr) (s.vruntime e)
  if vdiff ≤ 0 then -1 else if vdiff > s64 (s.wakeupGran t e) then 1 else 0

def setNextEntity (q : Nat) (e : Ent) (s : FairRq) : FairRq :=
  let s := if (s.ses e).onRq then s.unlinkEntity q e else s
  let s := s.setCfs q (fun c => { c with curr := some e })
  s.setSe e (fun se => { se with
    execStart := s.clockTask
    prevSumExecRuntime := se.sumExecRuntime })

/-- The leftmost of the timeline and `curr`; `curr` only when it is strictly before. -/
def leftmost (s : FairRq) (head curr : Option Ent) : Option Ent :=
  match head, curr with
  | none, curr => curr
  | some e, none => some e
  | some e, some curr => if s.entityBefore curr e then some curr else some e

/-- `__pick_next_entity` -/
def nextInTimeline (e : Ent) (timeline : List Ent) : Option Ent :=
  (timeline.dropWhile (· ≠ e)).tail.head?

/-- One of the tests of `pick_next_entity`: the buddy instead of `e`, unless that gets too
unfair to the leftmost. -/
def prefer (s : FairRq) (left : Ent) (buddy : Option Ent) (e : Ent) : Ent :=
  match buddy with
  | none => e
  | some b => if s.wakeupPreemptEntity t b left < 1 then b else e

/-- The choice of `pick_next_entity` -/
def choose (s : FairRq) (q : Nat) (curr : Option Ent) : Option Ent :=
  let c := s.cfs q
  match s.leftmost c.timeline.head? curr with
  | none => none
  | some left =>
    let second := if curr = some left then c.timeline.head?
      else s.leftmost (nextInTimeline left c.timeline) curr
    some (s.prefer t left c.next (s.prefer t left c.last
      (if c.skip = some left then s.prefer t left second left else left)))

def pickNextEntity (q : Nat) (curr : Option Ent) (s : FairRq) : Option Ent × FairRq :=
  match s.choose t q curr with
  | none => (none, s)
  | some e => (some e, s.clearBuddies g q e)

/-- `check_cfs_rq_runtime` -/
def checkCfsRqRuntime (q : Nat) (s : FairRq) : FairRq × Bool :=
  let c := s.cfs q
  if !t.cfsBandwidthUsed then (s, false)
  else if !c.runtime.runtimeEnabled || decide (c.runtime.runtimeRemaining > 0) then (s, false)
  else if s.cfsRqThrottled t q then (s, true)
  else (s.throttleCfsRq g t q, true)

def putPrevEntity (q : Nat) (prev : Ent) (s : FairRq) : FairRq :=
  let s := if (s.ses prev).onRq then s.updateCurr t q else s
  let s := (s.checkCfsRqRuntime g t q).1
  let s := if (s.ses prev).onRq then s.linkEntity q prev else s
  s.setCfs q (fun c => { c with curr := none })

/-- The loop of `put_prev_task_fair` -/
def putUp : List Ent → FairRq → FairRq
  | [], s => s
  | e :: rest, s => putUp rest (s.putPrevEntity g t (s.cfsRqOf g e) e)

def putPrevTaskFair (s : FairRq) : FairRq :=
  match s.curr with
  | none => s
  | some prev => s.putUp g t (s.path g (.task prev))

/-- The loop after `simple` in `pick_next_task_fair`; on an empty queue, which the code does not
test for, it follows a null pointer. -/
def pickSimple : Nat → Nat → FairRq → Option (Nat × FairRq)
  | 0, _, _ => none
  | turns + 1, q, s =>
    match s.pickNextEntity g t q none with
    | (none, _) => none
    | (some (.task p), s) => some (p, s.setNextEntity q (.task p))
    | (some (.group c), s) => pickSimple turns c (s.setNextEntity q (.group c))

/-- The first loop of `pick_next_task_fair`: no task is `goto simple`, no result a null pointer. -/
def pickFast : Nat → Nat → FairRq → Option (Option Nat × FairRq)
  | 0, _, _ => none
  | turns + 1, q, s =>
    let curr := s.currOnRq q
    let s := if curr.isSome then s.updateCurr t q else s
    let r := if (s.cfs q).curr.isSome then s.checkCfsRqRuntime g t q else (s, false)
    if r.2 then some (none, r.1)
    else
      match r.1.pickNextEntity g t q curr with
      | (none, _) => none
      | (some (.task p), s) => some (some p, s)
      | (some (.group c), s) => pickFast turns c s

def depth (s : FairRq) (e : Ent) : Nat := (g.above (s.cfsRqOf g e)).length

/-- The parts of the two paths that differ are put and set, up to the common queue. -/
def switchPath : Nat → Ent → Ent → FairRq → FairRq
  | 0, _, _, s => s
  | turns + 1, se, pse, s =>
    let q := s.cfsRqOf g se
    let pq := s.cfsRqOf g pse
    if q = pq then (s.putPrevEntity g t q pse).setNextEntity q se
    else
      let seDepth := s.depth g se
      let pseDepth := s.depth g pse
      let s := if seDepth ≤ pseDepth then s.putPrevEntity g t pq pse else s
      let s := if seDepth ≥ pseDepth then s.setNextEntity q se else s
      switchPath turns (if seDepth ≥ pseDepth then .group q else se)
        (if seDepth ≤ pseDepth then .group pq else pse) s

/-- `pick_next_task_fair` from `simple` on -/
def pickFromRoot (s : FairRq) : Option (Option Nat × FairRq) :=
  if (s.cfs 0).nrRunning = 0 then some (none, s)
  else ((s.putPrevTaskFair g t).pickSimple g t g.size 0).map (fun r => (some r.1, r.2))

/-- `pick_next_task_fair` up to `idle`, which no task stands for. -/
def pickNextTaskFair (s : FairRq) : Option (Option Nat × FairRq) :=
  if (s.cfs 0).nrRunning = 0 then some (none, s)
  else
    match s.curr with
    | none => s.pickFromRoot g t
    | some prev =>
      match s.pickFast g t g.size 0 with
      | none => none
      | some (none, s) => s.pickFromRoot g t
      | some (some p, s) =>
        some (some p, if prev = p then s
          else s.switchPath g t (g.size + g.size) (.task p) (.task prev))

/-- `schedule` as far as it concerns the class: without a fair task to pick, the class picked
instead puts the previous one. -/
def schedule (s : FairRq) : Option FairRq :=
  match s.pickNextTaskFair g t with
  | none => none
  | some (some p, s) => some { s with curr := some p, needResched := false }
  | some (none, s) => some { s.putPrevTaskFair g t with curr := none, needResched := false }

/-- The loop of `set_curr_task_fair` -/
def setUp : List Ent → FairRq → FairRq
  | [], s => s
  | e :: rest, s =>
    let q := s.cfsRqOf g e
    setUp rest ((s.setNextEntity q e).accountCfsRqRuntime t q 0)

def setCurrTaskFair (p : Nat) (s : FairRq) : FairRq :=
  { s with curr := some p }.setUp g t (s.path g (.task p))

def checkPreemptTick (q : Nat) (curr : Ent) (s : FairRq) : FairRq :=
  let se := s.ses curr
  let idealRuntime := s.schedSlice g t q curr
  let deltaExec := sub64 se.sumExecRuntime se.prevSumExecRuntime
  if deltaExec > idealRuntime then s.reschedCurr.clearBuddies g q curr
  else if deltaExec < t.minGranularity then s
  else
    match (s.cfs q).timeline.head? with
    | none => s
    | some left =>
      let delta := vruntimeDelta se.vruntime (s.vruntime left)
      if delta < 0 then s else if delta > idealRuntime then s.reschedCurr else s

def entityTick (q : Nat) (curr : Ent) (s : FairRq) : FairRq :=
  let s := (s.updateCurr t q).updateCfsShares g t curr
  if (s.cfs q).nrRunning > 1 then s.checkPreemptTick g t q curr else s

/-- The loop of `task_tick_fair` -/
def tickUp : List Ent → FairRq → FairRq
  | [], s => s
  | e :: rest, s => tickUp rest (s.entityTick g t (s.cfsRqOf g e) e)

def taskTickFair (s : FairRq) : FairRq :=
  match s.curr with
  | none => s
  | some p => s.tickUp g t (s.path g (.task p))

/-- `find_matching_se` -/
def findMatchingSe (s : FairRq) : Nat → Ent → Ent → Ent × Ent
  | 0, se, pse => (se, pse)
  | turns + 1, se, pse =>
    let q := s.cfsRqOf g se
    let pq := s.cfsRqOf g pse
    if s.depth g se > s.depth g pse then findMatchingSe s turns (.group q) pse
    else if s.depth g pse > s.depth g se then findMatchingSe s turns se (.group pq)
    else if q = pq then (se, pse)
    else findMatchingSe s turns (.group q) (.group pq)

/-- `check_preempt_wakeup`; the policy of a task is `SCHED_IDLE` or `SCHED_NORMAL`, batch tasks
behave as `batch` says. -/
def checkPreemptWakeup (p : Nat) (batch fork : Bool) (s : FairRq) : FairRq :=
  match s.curr with
  | none => s
  | some curr =>
    let scale := decide ((s.cfs (s.taskCfs curr)).nrRunning ≥ t.nrLatency)
    if curr = p then s
    else if s.throttledHierarchy t (s.taskCfs p) then s
    else
      let marked := t.nextBuddy && scale && !fork
      let s := if marked then s.setNextBuddy g (.task p) else s
      let preempt := fun (se : Ent) (s : FairRq) =>
        let s := s.reschedCurr
        if t.lastBuddy && scale && (s.ses se).onRq && decide (se = .task curr)
        then s.setLastBuddy g se else s
      if s.needResched then s
      else if s.idlePolicy curr && !s.idlePolicy p then preempt (.task curr) s
      else if s.idlePolicy p || batch || !t.wakeupPreemption then s
      else
        let m := s.findMatchingSe g (g.size + g.size) (.task curr) (.task p)
        let s := s.updateCurr t (s.cfsRqOf g m.1)
        if s.wakeupPreemptEntity t m.1 m.2 = 1 then
          preempt m.1 (if marked then s else s.setNextBuddy g m.2)
        else s

/-- `yield_task_fair`; `others` runnable tasks are of other classes. -/
def yieldTaskFair (others : Nat) (batch : Bool) (s : FairRq) : FairRq :=
  match s.curr with
  | none => s
  | some curr =>
    let q := s.taskCfs curr
    if s.nrRunning + others = 1 then s
    else
      let s := s.clearBuddies g q (.task curr)
      let s := if batch then s else s.updateCurr t q
      s.setSkipBuddy g (.task curr)

def yieldToTaskFair (p others : Nat) (batch : Bool) (s : FairRq) : FairRq :=
  if !(s.ses (.task p)).onRq || s.throttledHierarchy t (s.taskCfs p) then s
  else (s.setNextBuddy g (.task p)).yieldTaskFair g t others batch

/-- `task_fork_fair` of the child `p` of the current task. -/
def taskForkFair (p : Nat) (s : FairRq) : FairRq :=
  match s.curr with
  | none => s
  | some parent =>
    let q := s.taskCfs parent
    let curr := (s.cfs q).curr
    let s := match curr with
      | none => s
      | some c =>
        let s := s.updateCurr t q
        s.setSe (.task p) (fun se => { se with vruntime := s.vruntime c })
    let s := s.placeEntity g t q (.task p) true
    let s := match curr with
      | none => s
      | some c =>
        if t.childRunsFirst && s.entityBefore c (.task p) then
          let vc := s.vruntime c
          let vp := s.vruntime (.task p)
          ((s.setSe c (fun se => { se with vruntime := vp })).setSe (.task p)
            (fun se => { se with vruntime := vc })).reschedCurr
        else s
    s.setSe (.task p) (fun se => { se with vruntime := se.vruntime - (s.cfs q).minVruntime })

/-- `migrate_task_rq_fair`, as far as the queues go. -/
def migrateTaskRqFair (p : Nat) (waking : Bool) (s : FairRq) : FairRq :=
  let min := (s.cfs (s.taskCfs p)).minVruntime
  s.setSe (.task p) (fun se => { se with
    vruntime := if waking then se.vruntime - min else se.vruntime
    execStart := 0 })

/-- `vruntime_normalized`, given `p->on_rq` and whether the state is `TASK_WAKING`. -/
def vruntimeNormalized (s : FairRq) (p : Nat) (onRq waking : Bool) : Bool :=
  onRq || decide ((s.ses (.task p)).sumExecRuntime = 0) || waking

/-- `detach_task_cfs_rq`, as far as the queues go. -/
def detachTaskCfsRq (p : Nat) (onRq waking : Bool) (s : FairRq) : FairRq :=
  let q := s.taskCfs p
  if s.vruntimeNormalized p onRq waking then s
  else
    let s := s.placeEntity g t q (.task p) false
    s.setSe (.task p) (fun se => { se with vruntime := se.vruntime - (s.cfs q).minVruntime })

/-- `attach_task_cfs_rq`, as far as the queues go. -/
def attachTaskCfsRq (p : Nat) (onRq waking : Bool) (s : FairRq) : FairRq :=
  let q := s.taskCfs p
  if s.vruntimeNormalized p onRq waking then s
  else s.setSe (.task p) (fun se => { se with vruntime := se.vruntime + (s.cfs q).minVruntime })

/-- `set_task_rq` -/
def setTaskRq (p q : Nat) (s : FairRq) : FairRq := { s with taskCfs := Function.update s.taskCfs p q }

/-- `task_move_group_fair` -/
def taskMoveGroupFair (p q : Nat) (onRq waking : Bool) (s : FairRq) : FairRq :=
  ((s.detachTaskCfsRq g t p onRq waking).setTaskRq p q).attachTaskCfsRq p onRq waking

/-- What `sched_group_set_shares` does on this CPU. -/
def sharesUp : List Ent → FairRq → FairRq
  | [], s => s
  | e :: rest, s => sharesUp rest (s.updateCfsShares g t e)

def schedGroupSetShares (q shares : Nat) (s : FairRq) : FairRq :=
  let r : ShareInputs := { s.inputs q with
    shares := min (max shares (2 <<< 10)) (2 ^ 18 <<< 10)
    shares_pos := lt_min (lt_max_of_lt_right (by norm_num)) (by norm_num) }
  { s with inputs := Function.update s.inputs q r }.sharesUp g t (g.entities q)

/-- `unthrottle_offline_cfs_rqs`, for one queue. -/
def unthrottleOffline (q : Nat) (s : FairRq) : FairRq :=
  if !(s.cfs q).runtime.runtimeEnabled then s
  else
    let s := s.setCfs q (fun c => { c with runtime := { c.runtime with
      runtimeRemaining := 1
      runtimeEnabled := false } })
    if s.cfsRqThrottled t q then s.unthrottleCfsRq g t q else s

/-- `update_runtime_enabled`, for one queue. -/
def updateRuntimeEnabled (q : Nat) (s : FairRq) : FairRq :=
  s.setCfs q (fun c => { c with runtime := { c.runtime with
    runtimeEnabled := decide ((s.pools q).quota ≠ runtimeInf) } })

end FairRq

end MSchedutil
