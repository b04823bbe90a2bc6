import MSchedutil.PolicyRequest
import MSchedutil.Transition

/-! Frequency transitions on the slow path as an interleaving: the update hooks,
the irq work, the worker thread and the start and stop of the policies, each step
of which finds the state the others left. -/

namespace MSchedutil

variable {L : Type*}

/-- How far `sugov_stop` has come: hooks removed and `synchronize_sched` done,
`irq_work_sync` done, the work cancelled but not yet waited for. -/
inductive Phase where
  | stopped
  | started
  | unhooked
  | synced
  | cancelled
  deriving DecidableEq, Repr

/-- Where the worker thread is in `sugov_work`. -/
inductive Worker where
  | idle
  | taken
  | targeted
  deriving DecidableEq, Repr

/-- What became of a frequency: committed, passed to `__cpufreq_driver_target` by
`sugov_work` or, to apply new limits, by `sugov_limits`, or taken back by
`kthread_cancel_work_sync`. -/
inductive FreqLog where
  | commit (freq : Nat)
  | target (freq : Nat)
  | limits (freq : Nat)
  | cancel
  deriving DecidableEq, Repr

/-- The deferred work of one policy. -/
structure Lane where
  phase : Phase
  irqPending : Bool
  workQueued : Bool
  worker : Worker
  log : List FreqLog
  deriving DecidableEq, Repr

namespace Lane

def new : Lane := ⟨.stopped, false, false, .idle, []⟩

/-- `irq_work_queue` for a committed frequency; a pending item is not queued again. -/
def queue (l : Lane) (freq : Nat) : Lane :=
  { l with irqPending := true, log := l.log ++ [.commit freq] }

/-- The items of a policy that are pending or running. -/
def inFlight (l : Lane) : Nat :=
  l.irqPending.toNat + l.workQueued.toNat + (if l.worker = .idle then 0 else 1)

/-- Some item has yet to read `next_freq`. -/
def Unread (l : Lane) : Prop :=
  l.irqPending = true ∨ l.workQueued = true ∨ l.worker = .taken

instance (l : Lane) : Decidable l.Unread := inferInstanceAs (Decidable (_ ∨ _))

end Lane

namespace FreqLog

/-- The targets `sugov_work` passes to the driver. -/
def targets (log : List FreqLog) : List Nat :=
  log.filterMap fun
    | target f => some f
    | _ => none

/-- All the targets passed to the driver. -/
def driverTargets (log : List FreqLog) : List Nat :=
  log.filterMap fun
    | target f | limits f => some f
    | _ => none

def surviveStep (acc : List Nat) : FreqLog → List Nat
  | commit f => acc ++ [f]
  | target _ | limits _ => acc
  | cancel => acc.dropLast

/-- The committed frequencies in order, without those a stop took back. -/
def survivors (log : List FreqLog) : List Nat := log.foldl surviveStep []

@[simp] theorem targets_append (l₁ l₂ : List FreqLog) :
    targets (l₁ ++ l₂) = targets l₁ ++ targets l₂ := List.filterMap_append ..

@[simp] theorem survivors_concat (log : List FreqLog) (e : FreqLog) :
    survivors (log ++ [e]) = surviveStep (survivors log) e := by
  simp [survivors]

end FreqLog

structure FreqSys (L : Type*) where
  gov : Gov L
  lanes : Nat → Lane

inductive FreqEvent (L : Type*) where
  | start (p : Nat)
  | update (cpu : Nat) (env : Env)
  | irqWork (p : Nat)
  | take (p : Nat)
  | target (p cur : Nat)
  | clear (p : Nat)
  | limits (p : Nat) (limits : L) (cur : Nat)
  | removeHooks (p : Nat)
  | irqWorkSync (p : Nat)
  | cancelWork (p : Nat)
  | cancelDone (p : Nat)

namespace FreqSys

def setLane (s : FreqSys L) (p : Nat) (l : Lane) : FreqSys L :=
  { s with lanes := Function.update s.lanes p l }

def boot (g : Gov L) : FreqSys L := ⟨g, fun _ => .new⟩

/-- The current frequency moves only if the driver is asked for another. -/
def limitsCur (applyLimits : L → Nat → Option Nat) (s : FreqSys L) (p : Nat) (limits : L)
    (cur : Nat) : Nat :=
  if (sugovLimitsTarget applyLimits p limits s.gov).isSome then cur else (s.gov.policies p).policy.cur

/-- One step; an event that is not enabled leaves the state as it is. The two functions of the
cpufreq core are `cpufreq_driver_resolve_freq` and `cpufreq_policy_apply_limits`. -/
def next (resolve : L → Nat → Nat) (applyLimits : L → Nat → Option Nat) (s : FreqSys L) :
    FreqEvent L → FreqSys L
  | .start p =>
    let l := s.lanes p
    if l.phase = .stopped then
      { s with gov := sugovStart p s.gov }.setLane p { l with phase := .started }
    else s
  | .update cpu env =>
    let p := (s.gov.cpus cpu).sgPolicy
    let r := sugovUpdate resolve env cpu s.gov
    let s := { s with gov := r.gov }
    if r.queued then s.setLane p ((s.lanes p).queue (r.gov.policies p).nextFreq) else s
  | .irqWork p =>
    let l := s.lanes p
    if l.irqPending then s.setLane p { l with irqPending := false, workQueued := true } else s
  | .take p =>
    let l := s.lanes p
    if l.workQueued ∧ l.worker = .idle then
      s.setLane p { l with workQueued := false, worker := .taken }
    else s
  | .target p cur =>
    let l := s.lanes p
    if l.worker = .taken then
      { s with gov := sugovWorkTarget p cur s.gov }.setLane p
        { l with worker := .targeted, log := l.log ++ [FreqLog.target (s.gov.policies p).nextFreq] }
    else s
  | .clear p =>
    let l := s.lanes p
    if l.worker = .targeted then
      { s with gov := sugovWorkClear p s.gov }.setLane p { l with worker := .idle }
    else s
  | .limits p limits cur =>
    let l := s.lanes p
    { s with gov := sugovLimits p limits (s.limitsCur applyLimits p limits cur) s.gov }.setLane p
      { l with log := l.log ++ ((sugovLimitsTarget applyLimits p limits s.gov).map FreqLog.limits).toList }
  | .removeHooks p =>
    let l := s.lanes p
    if l.phase = .started then
      { s with gov := sugovStop p s.gov }.setLane p { l with phase := .unhooked }
    else s
  | .irqWorkSync p =>
    let l := s.lanes p
    if l.phase = .unhooked ∧ l.irqPending = false then s.setLane p { l with phase := .synced }
    else s
  | .cancelWork p =>
    let l := s.lanes p
    if l.phase = .synced then
      s.setLane p { l with
        phase := .cancelled
        workQueued := false
        log := if l.workQueued then l.log ++ [.cancel] else l.log }
    else s
  | .cancelDone p =>
    let l := s.lanes p
    if l.phase = .cancelled ∧ l.worker = .idle then s.setLane p { l with phase := .stopped } else s

/-- The governor event an enabled step amounts to. -/
def govEvent (applyLimits : L → Nat → Option Nat) (s : FreqSys L) : FreqEvent L → List (GovEvent L)
  | .start p => if (s.lanes p).phase = .stopped then [.start p] else []
  | .update cpu env => [.update cpu env]
  | .target p cur => if (s.lanes p).worker = .taken then [.workTarget p cur] else []
  | .clear p => if (s.lanes p).worker = .targeted then [.workClear p] else []
  | .limits p limits cur => [.limits p limits (s.limitsCur applyLimits p limits cur)]
  | .removeHooks p => if (s.lanes p).phase = .started then [.stop p] else []
  | .irqWork _ | .take _ | .irqWorkSync _ | .cancelWork _ | .cancelDone _ => []

theorem next_gov (resolve : L → Nat → Nat) (applyLimits : L → Nat → Option Nat) (s : FreqSys L)
    (e : FreqEvent L) : (s.next resolve applyLimits e).gov =
      Transition.run (Gov.next resolve) s.gov (s.govEvent applyLimits e) := by
  cases e with
  | limits p limits cur => rfl
  | _ => simp only [next, govEvent]; split <;> rfl

/-- What the governor does in the interleaving is one of its sequential runs. -/
theorem run_gov (resolve : L → Nat → Nat) (applyLimits : L → Nat → Option Nat) (s : FreqSys L)
    (es : List (FreqEvent L)) : ∃ gs, (Transition.run (next resolve applyLimits) s es).gov =
      Transition.run (Gov.next resolve) s.gov gs := by
  induction es generalizing s with
  | nil => exact ⟨[], rfl⟩
  | cons e es ih =>
    obtain ⟨gs, h⟩ := ih (s.next resolve applyLimits e)
    refine ⟨s.govEvent applyLimits e ++ gs, ?_⟩
    rw [Transition.run_cons, h, Transition.run_append, next_gov]

end FreqSys

end MSchedutil
