import MSchedutil.TrackOps
import MSchedutil.Transition

/-! The operations of the load tracking as one event type, and the calls of
`__update_load_avg` they make. -/

namespace MSchedutil

open Word Transition

inductive LoadOp
  | move (i q : Nat)
  | setCurr (q : Nat) (curr : Option Nat)
  | updateEntity (now cpu weight : Nat) (running : Bool) (i : Nat)
  | attach (i : Nat)
  | detach (i : Nat)
  | remove (i : Nat)
  | updateCfs (now q : Nat) (updateFreq : Bool)
  | propagate (i : Nat)
  deriving DecidableEq, Repr

namespace Heap

/-- One operation and what it returns; `move` is `set_task_rq`, `setCurr` what a
switch leaves in `cfs_rq->curr`. -/
def apply (w : World) (h : Heap) : LoadOp → Heap × Bool
  | .move i q => (h.setSe i { h.ses i with cfsRq := q }, false)
  | .setCurr q curr => (h.setCfs q { h.cfs q with curr := curr }, false)
  | .updateEntity now cpu weight running i => h.updateEntityLoadAvg w now cpu weight running i
  | .attach i => (h.attachEntityLoadAvg w i, false)
  | .detach i => (h.detachEntityLoadAvg w i, false)
  | .remove i => (h.removeEntityLoadAvg w i, false)
  | .updateCfs now q updateFreq => h.updateCfsRqLoadAvg w now q updateFreq
  | .propagate i => h.propagateEntityLoadAvg w i

/-- The call of `__update_load_avg` made for an entity. -/
def entityCall (w : World) (now cpu weight : Nat) (running : Bool) (i : Nat) (h : Heap) :
    UpdateCall :=
  ⟨now, weight, running, w.pemt, if w.pemt && running then h.entityRatio w i else 0,
    w.scaleFreq cpu, w.scaleCpu cpu⟩

/-- The call of `__update_load_avg` made for a runqueue. -/
def cfsCall (w : World) (now q : Nat) (h : Heap) : UpdateCall :=
  ⟨now, scaleLoadDown (h.cfs q).weight, (h.cfs q).curr.isSome, w.pemt,
    if w.pemt && (h.cfs q).curr.isSome then h.cfsRatio q else 0,
    w.scaleFreq (h.cfs q).cpu, w.scaleCpu (h.cfs q).cpu⟩

end Heap

/-- Whether a call at `now` crosses a period boundary. -/
def SchedAvg.decaysAt (now : Nat) (sa : SchedAvg) : Bool :=
  match elapsed now sa.lastUpdateTime with
  | .units delta => decide (delta + sa.periodContrib ≥ 1024)
  | _ => false

namespace UpdateCall

theorem updateLoadAvg_snd (c : UpdateCall) (sa : SchedAvg) :
    (c.updateLoadAvg sa).2 = sa.decaysAt c.now := by
  unfold updateLoadAvg SchedAvg.decaysAt
  cases elapsed c.now sa.lastUpdateTime with
  | units delta =>
    unfold accrueDelta
    dsimp only
    split <;> simp_all
  | _ => rfl

/-- Whether the call records its ratio in the `sched_avg`. -/
def records (c : UpdateCall) (sa : SchedAvg) : Bool :=
  match elapsed c.now sa.lastUpdateTime with
  | .units _ => c.pemt && c.running
  | _ => false

def recorded (c : UpdateCall) (sa : SchedAvg) : SchedAvg :=
  if c.records sa then { sa with memoryCycleRatio := c.memoryCycleRatio } else sa

theorem updateLoadAvg_early (c c' : UpdateCall) (sa : SchedAvg) (hnow : c.now = c'.now)
    (h : ∀ delta, elapsed c.now sa.lastUpdateTime ≠ .units delta) :
    c.updateLoadAvg sa = ((c'.updateLoadAvg sa).1, false) := by
  unfold updateLoadAvg
  rw [← hnow]
  cases hel : elapsed c.now sa.lastUpdateTime with
  | units delta => exact absurd hel (h delta)
  | _ => rfl

end UpdateCall

namespace Heap

variable (w : World) (h : Heap)

@[simp] theorem setSe_setSe (i : Nat) (se se' : SchedEntity) :
    (h.setSe i se).setSe i se' = h.setSe i se' := by
  simp [setSe]

theorem setCfs_setSe (q i : Nat) (cfs : CfsRq) (se : SchedEntity) :
    (h.setCfs q cfs).setSe i se = (h.setSe i se).setCfs q cfs := rfl

/-- A task hands the ratio it has read on to its runqueue. -/
def ratioToCfs (c : UpdateCall) (i : Nat) (h : Heap) : Heap :=
  if c.records (h.ses i).avg ∧ (h.ses i).myQ = none then
    let cfs := h.cfsRqOf i
    h.setCfs (h.ses i).cfsRq
      { cfs with avg := { cfs.avg with memoryCycleRatio := c.memoryCycleRatio } }
  else h

theorem updateEntityLoadAvg_eq (now cpu weight : Nat) (running : Bool) (i : Nat) :
    h.updateEntityLoadAvg w now cpu weight running i =
      let c := h.entityCall w now cpu weight running i
      let result := c.updateLoadAvg (c.recorded (h.ses i).avg)
      ((h.ratioToCfs c i).setSe i { h.ses i with avg := result.1 }, result.2) := by
  unfold updateEntityLoadAvg UpdateCall.recorded ratioToCfs UpdateCall.records entityCall
  cases hel : elapsed now (h.ses i).avg.lastUpdateTime with
  | units delta =>
    dsimp only
    rw [hel]
    cases hread : w.pemt && running
    · simp
    · by_cases hq : (h.ses i).myQ = none
      · simp [recordRatio, hq, cfsRqOf, setCfs_setSe]
      · simp [recordRatio, hq]
  | _ =>
    dsimp only
    rw [hel]
    have hearly := UpdateCall.updateLoadAvg_early (h.entityCall w now cpu weight running i)
      ⟨now, weight, running, w.pemt, 0, w.scaleFreq cpu, w.scaleCpu cpu⟩ (h.ses i).avg rfl
      (by simp [entityCall, hel])
    unfold entityCall at hearly
    simp only [Bool.false_eq_true, false_and, if_false, hearly]

theorem updateCfsLoadAvg_eq (now q : Nat) : h.updateCfsLoadAvg w now q =
    let c := h.cfsCall w now q
    let result := c.updateLoadAvg (c.recorded (h.cfs q).avg)
    (h.setCfs q { h.cfs q with
      avg := result.1
      runnable := (c.updateLoadAvg { c.recorded (h.cfs q).avg with
        load := (h.cfs q).runnable }).1.load }, result.2) := by
  unfold updateCfsLoadAvg UpdateCall.recorded UpdateCall.records cfsCall
  dsimp only
  cases hel : elapsed now (h.cfs q).avg.lastUpdateTime with
  | units delta => rfl
  | _ => rfl

/-- The runqueue after the exchanges of `update_cfs_rq_load_avg`. -/
def drained (pemt : Bool) (q : Nat) (h : Heap) : Heap :=
  h.setCfs q { h.cfs q with
    avg := (h.cfs q).avg.drain pemt (h.cfs q).removed
    removed := (h.cfs q).removed.taken pemt
    propagateAvg := (h.cfs q).propagateAvg || (h.cfs q).removed.propagates pemt }

theorem updateCfsRqLoadAvg_eq (now q : Nat) (updateFreq : Bool) :
    h.updateCfsRqLoadAvg w now q updateFreq =
      let result := (h.drained w.pemt q).updateCfsLoadAvg w now q
      (if updateFreq && (result.2 || (h.cfs q).removed.removedUtil w.pemt)
        then result.1.cfsRqUtilChange q else result.1,
        result.2 || (h.cfs q).removed.load != 0) := by
  unfold updateCfsRqLoadAvg drained
  dsimp only

theorem updateCfsLoadAvg_snd (now q : Nat) :
    (h.updateCfsLoadAvg w now q).2 = (h.cfs q).avg.decaysAt now := by
  rw [updateCfsLoadAvg_eq]
  dsimp only
  rw [UpdateCall.updateLoadAvg_snd]
  unfold UpdateCall.recorded
  split <;> rfl

theorem drained_decaysAt (pemt : Bool) (now q : Nat) :
    ((h.drained pemt q).cfs q).avg.decaysAt now = (h.cfs q).avg.decaysAt now := by
  unfold drained SchedAvg.decaysAt
  cases pemt <;> simp [SchedAvg.drain]

theorem updateCfsLoadAvg_isRoot (now q : Nat) :
    ((h.updateCfsLoadAvg w now q).1.cfs q).isRoot = (h.cfs q).isRoot := by
  rw [updateCfsLoadAvg_eq]
  simp

end Heap

end MSchedutil
