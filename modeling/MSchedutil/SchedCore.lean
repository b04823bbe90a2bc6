import MSchedutil.Governor
import MSchedutil.TrackStep

/-! The fair class at work on every CPU: switches, ticks, enqueues and dequeues, as far
as they move the counter baselines of `pkshin_pmu_get`, the clocks of the tasks and the
execution times of the cycle tracking. Group entities and the averages of the runqueues
touch none of these and are left out; of a `cfs_rq` only the clock is kept. -/

namespace MSchedutil

open Word Transition

inductive PmuEvent
  | cycles
  | frontendStall
  | backendStall
  | instRetired
  | mispredicted
  deriving DecidableEq, Repr

/-- What the code finds on the machine: the event counters, which never go back, the
capacity scales and the two module flags. -/
structure Hardware where
  counter : Nat → PmuEvent → Nat → Nat
  counter_mono : ∀ cpu e, Monotone (counter cpu e)
  scaleFreq : Nat → Nat
  scaleCpu : Nat → Nat
  pemt : Bool
  cycle : Bool

/-- The five counters as the `msr`/`mrs` pairs read them into `u32`s. -/
def Hardware.read (hw : Hardware) (cpu t : Nat) (e : PmuEvent) : Nat := u32 (hw.counter cpu e t)

/-- The count of an event since a baseline; a zero baseline counts as none taken. -/
def pmuCount (base reading : PmuEvent → Nat) (e : PmuEvent) : Nat :=
  if base e ≠ 0 then sub32 (reading e) (base e) else 0

/-- The ratio `pkshin_pmu_get` makes of the counts; a division by zero yields zero. -/
def pmuRatio (base reading : PmuEvent → Nat) : Nat :=
  let count := pmuCount base reading
  let stalls := 1426 * count .backendStall / count .cycles +
    415 * count .frontendStall / count .cycles + 2395 * count .mispredicted / count .instRetired
  if stalls > 213 then min (u32 (stalls - 213)) 1024 else 0

/-- A task's `sched_entity`, with the CPU and the `cfs_rq` it is on. -/
structure RqTask where
  avg : SchedAvg
  weight : Nat
  onRq : Bool
  cpu : Nat
  cfsRq : Nat
  deriving DecidableEq, Repr

/-- One call of `pkshin_pmu_get`: where it ran, for which runqueue and task, the
interval it is charged to, the baseline it took off, and when that was due. -/
structure Charge where
  here : Nat
  cpu : Nat
  task : Nat
  lastUpdateTime : Nat
  now : Nat
  base : PmuEvent → Nat
  since : Nat

/-- The state of the fair class. From `charges` on the fields only record the run:
`sampledAt` is when the baseline of a CPU was taken (zero for never), `since` when its current
task was switched in or last charged, `touched` the clock of its last update. Since
`windowStart`, `calls` counts the updates on a CPU, `late` the switch-ins that left a task's
clock behind, and `idle` the time without a fair task. -/
structure SchedCore where
  tasks : Nat → RqTask
  curr : Nat → Option Nat
  now : Nat
  clock : Nat → Nat
  cfsClock : Nat → Nat
  prev : Nat → PmuEvent → Nat
  cycles : CycleStats
  charges : List Charge
  sampledAt : Nat → Nat
  since : Nat → Nat
  touched : Nat → Nat
  calls : Nat → Nat
  late : Nat → Nat
  idle : Nat → Nat
  windowStart : Nat

/-- The `exec_time` lines of `__update_load_avg`. -/
def CycleStats.chargeExec (c : CycleStats) (cpu now lastUpdateTime delta : Nat) : CycleStats :=
  let exec := if lastUpdateTime > c.execClearTime cpu then delta
    else sub64 now (c.execClearTime cpu) >>> 10
  { c with execTime := Function.update c.execTime cpu (c.execTime cpu + exec) }

/-- The clock of a `sched_avg` after `__update_load_avg`. -/
def clockAfter (now lastUpdateTime : Nat) : Nat :=
  if elapsed now lastUpdateTime = .tooShort then lastUpdateTime else now

namespace SchedCore

/-- Whether a fair task runs on a CPU: it is current and has not been dequeued. -/
def fairRunning (s : SchedCore) (cpu : Nat) : Bool :=
  match s.curr cpu with
  | some i => (s.tasks i).onRq
  | none => false

def updateRqClock (cpu t : Nat) (s : SchedCore) : SchedCore :=
  { s with
    now := t
    clock := Function.update s.clock cpu t
    idle := Function.update s.idle cpu
      (s.idle cpu + if s.fairRunning cpu then 0 else t - s.clock cpu) }

def pkshinPmuUpdate (hw : Hardware) (here : Nat) (s : SchedCore) : SchedCore :=
  { s with
    prev := Function.update s.prev here (hw.read here s.now)
    sampledAt := Function.update s.sampledAt here s.now }

/-- The calls of `pkshin_pmu_get`; the ratio it returns is `pmuRatio` of the old baseline. -/
def pkshinPmuGet (hw : Hardware) (here i : Nat) (s : SchedCore) : SchedCore :=
  let se := s.tasks i
  { s.pkshinPmuUpdate hw here with
    charges := s.charges ++
      [⟨here, se.cpu, i, se.avg.lastUpdateTime, s.now, s.prev here, s.since se.cpu⟩]
    since := Function.update s.since se.cpu s.now }

/-- `__update_load_avg(cfs_rq_clock_task(..), cpu, &se->avg, .., cfs_rq->curr == se, NULL)` of
a task, executed on the CPU `here`. -/
def updateTaskAvg (hw : Hardware) (here i : Nat) (s : SchedCore) : SchedCore :=
  let se := s.tasks i
  let now := s.clock se.cpu
  let running := decide (s.curr se.cpu = some i)
  let ratio := if hw.pemt && running then pmuRatio (s.prev here) (hw.read here s.now) else 0
  let c : UpdateCall := ⟨now, if se.onRq then scaleLoadDown se.weight else 0, running, hw.pemt,
    ratio, hw.scaleFreq se.cpu, hw.scaleCpu se.cpu⟩
  let s := { s with
    calls := Function.update s.calls se.cpu (s.calls se.cpu + 1)
    touched := if running then Function.update s.touched se.cpu now else s.touched }
  let s := match elapsed now se.avg.lastUpdateTime with
    | .units delta =>
      let s := if hw.pemt && running then s.pkshinPmuGet hw here i else s
      if hw.cycle && running then
        { s with cycles := s.cycles.chargeExec se.cpu now se.avg.lastUpdateTime delta }
      else s
    | _ => s
  { s with
    tasks := Function.update s.tasks i
      { se with avg := (c.updateLoadAvg (c.recorded se.avg)).1 } }

/-- `update_load_avg` of a task. -/
def updateLoadAvg (hw : Hardware) (here i : Nat) (s : SchedCore) : SchedCore :=
  let se := s.tasks i
  let s := if se.avg.lastUpdateTime ≠ 0 then s.updateTaskAvg hw here i else s
  { s with
    cfsClock := Function.update s.cfsClock se.cfsRq
      (clockAfter (s.clock se.cpu) (s.cfsClock se.cfsRq)) }

def putPrevEntity (hw : Hardware) (cpu i : Nat) (s : SchedCore) : SchedCore :=
  let s := if (s.tasks i).onRq then s.updateLoadAvg hw cpu i else s
  { s with curr := Function.update s.curr cpu none }

def setNextEntity (hw : Hardware) (cpu i : Nat) (s : SchedCore) : SchedCore :=
  let s := if (s.tasks i).onRq then s.updateLoadAvg hw cpu i else s
  { s with
    curr := Function.update s.curr cpu (some i)
    since := Function.update s.since cpu s.now
    touched := Function.update s.touched cpu (s.clock cpu)
    late := if (s.tasks i).avg.lastUpdateTime = s.clock cpu then s.late
      else Function.update s.late cpu (s.late cpu + 1) }

def entityTick (hw : Hardware) (cpu i : Nat) (s : SchedCore) : SchedCore := s.updateLoadAvg hw cpu i

/-- `enqueue_entity`; a task without a clock is attached with that of its `cfs_rq`. -/
def enqueueEntity (hw : Hardware) (here i : Nat) (s : SchedCore) : SchedCore :=
  let s := s.updateLoadAvg hw here i
  let se := s.tasks i
  let clock := if se.avg.lastUpdateTime = 0 then s.cfsClock se.cfsRq else se.avg.lastUpdateTime
  { s with
    tasks := Function.update s.tasks i
      { se with avg := { se.avg with lastUpdateTime := clock }, onRq := true } }

def dequeueEntity (hw : Hardware) (here i : Nat) (s : SchedCore) : SchedCore :=
  let s := s.updateLoadAvg hw here i
  { s with tasks := Function.update s.tasks i { s.tasks i with onRq := false } }

/-- `pick_next_task_fair` from `again` on, given the task that `pick_next_entity` arrives at,
if any. The idle path leaves putting the previous task to the class that is picked. -/
def pickAgain (hw : Hardware) (cpu : Nat) (next : Option Nat) (s : SchedCore) : SchedCore :=
  match next, s.curr cpu with
  | none, _ => s
  | some p, none => s.setNextEntity hw cpu p
  | some p, some prev =>
    if prev = p then s else (s.putPrevEntity hw cpu prev).setNextEntity hw cpu p

def pickNextTaskFair (hw : Hardware) (cpu : Nat) (next : Option Nat) (s : SchedCore) : SchedCore :=
  (if hw.pemt then s.pkshinPmuUpdate hw cpu else s).pickAgain hw cpu next

def putPrevTaskFair (hw : Hardware) (cpu : Nat) (s : SchedCore) : SchedCore :=
  match s.curr cpu with
  | some prev => s.putPrevEntity hw cpu prev
  | none => s

def taskTickFair (hw : Hardware) (cpu : Nat) (s : SchedCore) : SchedCore :=
  match s.curr cpu with
  | some i => s.entityTick hw cpu i
  | none => s

/-- `sync_entity_load_avg`: a dequeued task catches up with its `cfs_rq`. -/
def syncEntityLoadAvg (hw : Hardware) (i : Nat) (s : SchedCore) : SchedCore :=
  let se := s.tasks i
  let c : UpdateCall :=
    ⟨s.cfsClock se.cfsRq, 0, false, hw.pemt, 0, hw.scaleFreq se.cpu, hw.scaleCpu se.cpu⟩
  { s with
    tasks := Function.update s.tasks i { se with avg := (c.updateLoadAvg se.avg).1 } }

/-- `set_task_cpu`, with `migrate_task_rq_fair`. -/
def setTaskCpu (hw : Hardware) (i cpu cfsRq : Nat) (s : SchedCore) : SchedCore :=
  let s := s.syncEntityLoadAvg hw i
  let se := s.tasks i
  { s with
    tasks := Function.update s.tasks i
      { se with avg := { se.avg with lastUpdateTime := 0 }, cpu := cpu, cfsRq := cfsRq } }

/-- The settlement in `sugov_next_freq_shared`, at the clock it finds. -/
def settle (hw : Hardware) (s : SchedCore) : SchedCore :=
  let now := s.clock workCore
  if hw.cycle ∧ sub64 now (s.cycles.execClearTime workCore) >>> 10 ≠ 0 then
    { s with
      cycles := s.cycles.settle workCore now (hw.scaleFreq workCore)
      calls := Function.update s.calls workCore 0
      late := Function.update s.late workCore 0
      idle := Function.update s.idle workCore 0
      windowStart := now }
  else s

/-- `sysfs_show` and `sysfs_store` of `cycle_module` -/
def clearTotals (s : SchedCore) : SchedCore :=
  { s with
    cycles := { s.cycles with
      totalIdleTimeSum := 0
      totalBusyTimeSum := 0
      totalIdleCycleSum := 0
      totalBusyCycleSum := 0 } }

end SchedCore

/-- What can happen, at which time, and where it runs. A settlement that an update calls is
the next event; the one of `put_prev_entity` parts a switch into a put and a pick. A pick
that finds nothing and goes `again` when `idle_balance` has pulled tasks is two events. -/
inductive SchedEvent
  | tick (cpu t : Nat)
  | pick (cpu t : Nat) (next : Option Nat)
  | again (cpu t p : Nat)
  | putPrev (cpu t : Nat)
  | enqueue (here t i : Nat)
  | dequeue (here t i : Nat)
  | update (here t i : Nat)
  | sync (i : Nat)
  | migrate (i cpu cfsRq : Nat)
  | settle
  | clearTotals
  deriving DecidableEq, Repr

namespace SchedCore

def next (hw : Hardware) (s : SchedCore) : SchedEvent → SchedCore
  | .tick cpu t => (s.updateRqClock cpu t).taskTickFair hw cpu
  | .pick cpu t next => (s.updateRqClock cpu t).pickNextTaskFair hw cpu next
  | .again cpu t p => (s.updateRqClock cpu t).pickAgain hw cpu (some p)
  | .putPrev cpu t => (s.updateRqClock cpu t).putPrevTaskFair hw cpu
  | .enqueue here t i => (s.updateRqClock (s.tasks i).cpu t).enqueueEntity hw here i
  | .dequeue here t i => (s.updateRqClock (s.tasks i).cpu t).dequeueEntity hw here i
  | .update here t i => (s.updateRqClock (s.tasks i).cpu t).updateLoadAvg hw here i
  | .sync i => s.syncEntityLoadAvg hw i
  | .migrate i cpu cfsRq => s.setTaskCpu hw i cpu cfsRq
  | .settle => s.settle hw
  | .clearTotals => s.clearTotals

/-- Time does not go back and stays a positive `s64`. -/
def InTime (s : SchedCore) (t : Nat) : Prop := s.now ≤ t ∧ t < 2 ^ 63

/-- What the core scheduler sees to: it picks tasks that are on the runqueue, enqueues,
synchronizes or migrates only those that are neither on a runqueue nor current, and switches
a current task that left the runqueue before anything else looks at it. -/
def Valid (s : SchedCore) : SchedEvent → Prop
  | .tick cpu t => s.InTime t ∧ (s.curr cpu ≠ none → s.fairRunning cpu = true)
  | .update _ t i => s.InTime t ∧ (s.curr (s.tasks i).cpu = some i → (s.tasks i).onRq = true)
  | .putPrev _ t | .pick _ t none => s.InTime t
  | .pick cpu t (some p) | .again cpu t p =>
      s.InTime t ∧ (s.tasks p).onRq = true ∧ (s.tasks p).cpu = cpu
  | .enqueue _ t i => s.InTime t ∧ (s.tasks i).onRq = false ∧ s.curr (s.tasks i).cpu ≠ some i
  | .dequeue _ t i => s.InTime t ∧ (s.tasks i).onRq = true
  | .sync i | .migrate i _ _ => (s.tasks i).onRq = false ∧ s.curr (s.tasks i).cpu ≠ some i
  | .settle | .clearTotals => True

instance (s : SchedCore) (t : Nat) : Decidable (s.InTime t) := inferInstanceAs (Decidable (_ ∧ _))

instance (s : SchedCore) : ∀ e, Decidable (s.Valid e)
  | .tick _ _ | .update _ _ _ => inferInstanceAs (Decidable (_ ∧ (_ → _)))
  | .putPrev _ _ | .pick _ _ none => inferInstanceAs (Decidable (s.InTime _))
  | .pick _ _ (some _) | .again _ _ _ | .enqueue _ _ _ => inferInstanceAs (Decidable (_ ∧ _ ∧ _))
  | .dequeue _ _ _ | .sync _ | .migrate _ _ _ => inferInstanceAs (Decidable (_ ∧ _))
  | .settle | .clearTotals => inferInstanceAs (Decidable True)

end SchedCore

end MSchedutil
