import MSchedutil.Track

/-! Runqueues and entities: the operations that keep the signals of a `cfs_rq`
the sum of the signals of its entities. Each of the parallel signals has a line
of its own in every operation, as in the source. -/

namespace MSchedutil

open Word

/-- `sub_positive` on an `unsigned long` or `u64` field. -/
def subPositive64 (var val : Nat) : Nat :=
  let res := sub64 var val
  if res > var then 0 else res

/-- `sub_positive` on a `u32` field, to which the value is cut down first. -/
def subPositive32 (var val : Nat) : Nat :=
  let res := sub32 var val
  if res > var then 0 else res

/-- `add_positive` of a signed 64-bit value. -/
def addPositive (var val : Nat) : Nat :=
  let res := u64 (var + val)
  if s64 val < 0 ∧ res > var then 0 else res

/-- The `removed_*_avg` counters. -/
structure Removed where
  load : Nat
  util : Nat
  utilFast : Nat
  coreUtil : Nat
  memoryUtil : Nat
  coreUtilFast : Nat
  memoryUtilFast : Nat
  deriving DecidableEq, Repr

/-- `struct sched_entity`; `myQ` is the runqueue of a group entity. -/
structure SchedEntity where
  avg : SchedAvg
  weight : Nat
  onRq : Bool
  cfsRq : Nat
  myQ : Option Nat
  deriving DecidableEq, Repr

structure CfsRq where
  avg : SchedAvg
  weight : Nat
  runnable : Signal
  tgLoadAvgContrib : Nat
  propagateAvg : Bool
  removed : Removed
  curr : Option Nat
  cpu : Nat
  isRoot : Bool
  tg : Nat
  deriving DecidableEq, Repr

structure TaskGroup where
  loadAvg : Nat
  shares : Nat
  isRoot : Bool
  deriving DecidableEq, Repr

/-- All entities and runqueues; `depth` is the number of group levels, and `notices`
records for which CPUs `cfs_rq_util_change` has called the governor. -/
structure Heap where
  ses : Nat → SchedEntity
  cfs : Nat → CfsRq
  tgs : Nat → TaskGroup
  depth : Nat
  notices : List Nat

/-- What an operation finds outside the heap: the module flag, the ratio
`pkshin_pmu_get` would return, and the capacity scales of the CPUs. -/
structure World where
  pemt : Bool
  pmuRatio : Nat
  scaleFreq : Nat → Nat
  scaleCpu : Nat → Nat

namespace Signal

def plus32 (s t : Signal) : Signal := ⟨u32 (s.sum + t.sum), u64 (s.avg + t.avg)⟩

def plus64 (s t : Signal) : Signal := ⟨u64 (s.sum + t.sum), u64 (s.avg + t.avg)⟩

def minus32 (s t : Signal) : Signal := ⟨subPositive32 s.sum t.sum, subPositive64 s.avg t.avg⟩

def minus64 (s t : Signal) : Signal := ⟨subPositive64 s.sum t.sum, subPositive64 s.avg t.avg⟩

/-- A drained `removed_*` counter with a `u32` sum behind it. -/
def drain32 (max r : Nat) (s : Signal) : Signal :=
  if r ≠ 0 then ⟨subPositive32 s.sum (r * max), subPositive64 s.avg r⟩ else s

def drain64 (max r : Nat) (s : Signal) : Signal :=
  if r ≠ 0 then ⟨subPositive64 s.sum (r * max), subPositive64 s.avg r⟩ else s

/-- An average set from outside, and the `u32` sum that goes with it. -/
def ofAvg32 (max avg : Nat) : Signal := ⟨u32 (avg * max), avg⟩

def ofAvg64 (max avg : Nat) : Signal := ⟨u64 (avg * max), avg⟩

/-- One signal of `update_tg_cfs_util`: the entity takes over the average of its
group, and the parent runqueue the difference. -/
def propagateSelf (max : Nat) (group se : Signal) : Signal :=
  if sub64 group.avg se.avg ≠ 0 then ofAvg32 max group.avg else se

def propagateParent (max : Nat) (group se parent : Signal) : Signal :=
  let delta := sub64 group.avg se.avg
  if delta ≠ 0 then ofAvg32 max (addPositive parent.avg delta) else parent

end Signal

namespace SchedAvg

def attach (pemt : Bool) (cfs se : SchedAvg) : SchedAvg :=
  let cfs := { cfs with
    load := cfs.load.plus64 se.load
    util := cfs.util.plus32 se.util
    utilFast := cfs.utilFast.plus32 se.utilFast }
  if pemt then
    { cfs with
      coreUtil := cfs.coreUtil.plus32 se.coreUtil
      memoryUtil := cfs.memoryUtil.plus32 se.memoryUtil
      coreUtilFast := cfs.coreUtilFast.plus32 se.coreUtilFast
      memoryUtilFast := cfs.memoryUtilFast.plus32 se.memoryUtilFast }
  else cfs

def detach (pemt : Bool) (cfs se : SchedAvg) : SchedAvg :=
  let cfs := { cfs with
    load := cfs.load.minus64 se.load
    util := cfs.util.minus32 se.util
    utilFast := cfs.utilFast.minus32 se.utilFast }
  if pemt then
    { cfs with
      coreUtil := cfs.coreUtil.minus32 se.coreUtil
      memoryUtil := cfs.memoryUtil.minus32 se.memoryUtil
      coreUtilFast := cfs.coreUtilFast.minus32 se.coreUtilFast
      memoryUtilFast := cfs.memoryUtilFast.minus32 se.memoryUtilFast }
  else cfs

/-- The subtractions of `update_cfs_rq_load_avg`. -/
def drain (pemt : Bool) (r : Removed) (sa : SchedAvg) : SchedAvg :=
  let sa := { sa with
    load := sa.load.drain64 loadAvgMax r.load
    util := sa.util.drain32 loadAvgMax r.util
    utilFast := sa.utilFast.drain32 loadAvgFastMax r.utilFast }
  if pemt then
    { sa with
      coreUtil := sa.coreUtil.drain32 loadAvgMax r.coreUtil
      memoryUtil := sa.memoryUtil.drain32 loadAvgMax r.memoryUtil
      coreUtilFast := sa.coreUtilFast.drain32 loadAvgFastMax r.coreUtilFast
      memoryUtilFast := sa.memoryUtilFast.drain32 loadAvgFastMax r.memoryUtilFast }
  else sa

/-- The entity's side of `update_tg_cfs_util`. -/
def propagateSelf (pemt : Bool) (group se : SchedAvg) : SchedAvg :=
  let sa := { se with
    util := .propagateSelf loadAvgMax group.util se.util
    utilFast := .propagateSelf loadAvgFastMax group.utilFast se.utilFast }
  if pemt then
    { sa with
      coreUtil := .propagateSelf loadAvgMax group.coreUtil se.coreUtil
      memoryUtil := .propagateSelf loadAvgMax group.memoryUtil se.memoryUtil
      coreUtilFast := .propagateSelf loadAvgFastMax group.coreUtilFast se.coreUtilFast
      memoryUtilFast := .propagateSelf loadAvgFastMax group.memoryUtilFast se.memoryUtilFast }
  else sa

/-- The parent runqueue's side of `update_tg_cfs_util`. -/
def propagateParent (pemt : Bool) (group se parent : SchedAvg) : SchedAvg :=
  let sa := { parent with
    util := .propagateParent loadAvgMax group.util se.util parent.util
    utilFast := .propagateParent loadAvgFastMax group.utilFast se.utilFast parent.utilFast }
  if pemt then
    { sa with
      coreUtil := .propagateParent loadAvgMax group.coreUtil se.coreUtil parent.coreUtil
      memoryUtil := .propagateParent loadAvgMax group.memoryUtil se.memoryUtil parent.memoryUtil
      coreUtilFast :=
        .propagateParent loadAvgFastMax group.coreUtilFast se.coreUtilFast parent.coreUtilFast
      memoryUtilFast :=
        .propagateParent loadAvgFastMax group.memoryUtilFast se.memoryUtilFast parent.memoryUtilFast }
  else sa

end SchedAvg

namespace Removed

def add (pemt : Bool) (r : Removed) (se : SchedAvg) : Removed :=
  let r := { r with
    load := u64 (r.load + se.load.avg)
    util := u64 (r.util + se.util.avg)
    utilFast := u64 (r.utilFast + se.utilFast.avg) }
  if pemt then
    { r with
      coreUtil := u64 (r.coreUtil + se.coreUtil.avg)
      memoryUtil := u64 (r.memoryUtil + se.memoryUtil.avg)
      coreUtilFast := u64 (r.coreUtilFast + se.coreUtilFast.avg)
      memoryUtilFast := u64 (r.memoryUtilFast + se.memoryUtilFast.avg) }
  else r

/-- The counters after the exchanges of `update_cfs_rq_load_avg`. -/
def taken (pemt : Bool) (r : Removed) : Removed :=
  let r := { r with load := 0, util := 0, utilFast := 0 }
  if pemt then
    { r with coreUtil := 0, memoryUtil := 0, coreUtilFast := 0, memoryUtilFast := 0 }
  else r

def removedUtil (pemt : Bool) (r : Removed) : Bool :=
  r.util != 0 || r.utilFast != 0 || (pemt && (r.coreUtil != 0 || r.memoryUtil != 0 ||
    r.coreUtilFast != 0 || r.memoryUtilFast != 0))

/-- Whether some branch calls `set_tg_cfs_propagate`; those of the fast signals do not. -/
def propagates (pemt : Bool) (r : Removed) : Bool :=
  r.load != 0 || r.util != 0 || (pemt && (r.coreUtil != 0 || r.memoryUtil != 0))

end Removed

namespace Heap

def setSe (h : Heap) (i : Nat) (se : SchedEntity) : Heap :=
  { h with ses := Function.update h.ses i se }

def setCfs (h : Heap) (q : Nat) (cfs : CfsRq) : Heap :=
  { h with cfs := Function.update h.cfs q cfs }

def cfsRqOf (h : Heap) (i : Nat) : CfsRq := h.cfs (h.ses i).cfsRq

/-- `cfs_rq_util_change`: only the root runqueue of a CPU calls the governor. -/
def cfsRqUtilChange (q : Nat) (h : Heap) : Heap :=
  if (h.cfs q).isRoot then { h with notices := h.notices ++ [(h.cfs q).cpu] } else h

/-- The walk of `__update_load_avg` to the leaf below a group entity. -/
def leafRatio (h : Heap) : Nat → Nat → Nat
  | 0, i => (h.ses i).avg.memoryCycleRatio
  | fuel + 1, i =>
    match (h.ses i).myQ with
    | none => (h.ses i).avg.memoryCycleRatio
    | some g =>
      match (h.cfs g).curr with
      | none => (h.cfs g).avg.memoryCycleRatio
      | some j => h.leafRatio fuel j

/-- The memory cycle ratio of an entity, as far as `__update_load_avg` reads it. -/
def entityRatio (w : World) (i : Nat) (h : Heap) : Nat :=
  if (h.ses i).myQ = none then w.pmuRatio else h.leafRatio (h.depth + 1) i

/-- The ratio is recorded with the entity, and for a task with its runqueue too. -/
def recordRatio (i ratio : Nat) (h : Heap) : Heap :=
  let se := h.ses i
  let h := h.setSe i { se with avg := { se.avg with memoryCycleRatio := ratio } }
  if se.myQ = none then
    let cfs := h.cfs se.cfsRq
    h.setCfs se.cfsRq { cfs with avg := { cfs.avg with memoryCycleRatio := ratio } }
  else h

/-- `__update_load_avg(now, cpu, &se->avg, weight, running, NULL)` -/
def updateEntityLoadAvg (w : World) (now cpu weight : Nat) (running : Bool) (i : Nat) (h : Heap) :
    Heap × Bool :=
  match elapsed now (h.ses i).avg.lastUpdateTime with
  | .units _ =>
    let reads := w.pemt && running
    let ratio := if reads then h.entityRatio w i else 0
    let h := if reads then h.recordRatio i ratio else h
    let c : UpdateCall := ⟨now, weight, running, w.pemt, ratio, w.scaleFreq cpu, w.scaleCpu cpu⟩
    let result := c.updateLoadAvg (h.ses i).avg
    (h.setSe i { h.ses i with avg := result.1 }, result.2)
  | _ =>
    let c : UpdateCall := ⟨now, weight, running, w.pemt, 0, w.scaleFreq cpu, w.scaleCpu cpu⟩
    (h.setSe i { h.ses i with avg := (c.updateLoadAvg (h.ses i).avg).1 }, false)

/-- The memory cycle ratio of a runqueue: that of its current entity if it has one. -/
def cfsRatio (h : Heap) (q : Nat) : Nat :=
  match (h.cfs q).curr with
  | some j => (h.ses j).avg.memoryCycleRatio
  | none => (h.cfs q).avg.memoryCycleRatio

/-- `__update_load_avg(now, cpu, &cfs_rq->avg, .., cfs_rq)`. The runnable load is
updated by the lines that update the load, so by the same function. -/
def updateCfsLoadAvg (w : World) (now q : Nat) (h : Heap) : Heap × Bool :=
  let cfs := h.cfs q
  let running := cfs.curr.isSome
  let ratio := if w.pemt && running then h.cfsRatio q else 0
  let c : UpdateCall := ⟨now, scaleLoadDown cfs.weight, running, w.pemt, ratio,
    w.scaleFreq cfs.cpu, w.scaleCpu cfs.cpu⟩
  let sa := match elapsed now cfs.avg.lastUpdateTime with
    | .units _ => if w.pemt && running then { cfs.avg with memoryCycleRatio := ratio } else cfs.avg
    | _ => cfs.avg
  let result := c.updateLoadAvg sa
  (h.setCfs q { cfs with
    avg := result.1
    runnable := (c.updateLoadAvg { sa with load := cfs.runnable }).1.load }, result.2)

def updateCfsRqLoadAvg (w : World) (now q : Nat) (updateFreq : Bool) (h : Heap) : Heap × Bool :=
  let cfs := h.cfs q
  let removedLoad := cfs.removed.load != 0
  let removedUtil := cfs.removed.removedUtil w.pemt
  let h := h.setCfs q { cfs with
    avg := cfs.avg.drain w.pemt cfs.removed
    removed := cfs.removed.taken w.pemt
    propagateAvg := cfs.propagateAvg || cfs.removed.propagates w.pemt }
  let (h, decayed) := h.updateCfsLoadAvg w now q
  let h := if updateFreq && (decayed || removedUtil) then h.cfsRqUtilChange q else h
  (h, decayed || removedLoad)

def attachEntityLoadAvg (w : World) (i : Nat) (h : Heap) : Heap :=
  let se := h.ses i
  let q := se.cfsRq
  let cfs := h.cfs q
  let h := h.setSe i { se with avg := { se.avg with lastUpdateTime := cfs.avg.lastUpdateTime } }
  let h := h.setCfs q { cfs with avg := cfs.avg.attach w.pemt se.avg, propagateAvg := true }
  h.cfsRqUtilChange q

def detachEntityLoadAvg (w : World) (i : Nat) (h : Heap) : Heap :=
  let se := h.ses i
  let q := se.cfsRq
  let cfs := h.cfs q
  let h := h.setCfs q { cfs with avg := cfs.avg.detach w.pemt se.avg, propagateAvg := true }
  h.cfsRqUtilChange q

def syncEntityLoadAvg (w : World) (i : Nat) (h : Heap) : Heap :=
  (h.updateEntityLoadAvg w (h.cfsRqOf i).avg.lastUpdateTime (h.cfsRqOf i).cpu 0 false i).1

def removeEntityLoadAvg (w : World) (i : Nat) (h : Heap) : Heap :=
  let h := h.syncEntityLoadAvg w i
  let se := h.ses i
  let cfs := h.cfs se.cfsRq
  h.setCfs se.cfsRq { cfs with removed := cfs.removed.add w.pemt se.avg }

def updateTgCfsUtil (w : World) (i g : Nat) (h : Heap) : Heap :=
  let se := h.ses i
  let q := se.cfsRq
  let parent := h.cfs q
  let group := (h.cfs g).avg
  let h := h.setSe i { se with avg := .propagateSelf w.pemt group se.avg }
  h.setCfs q { parent with avg := .propagateParent w.pemt group se.avg parent.avg }

/-- The load `update_tg_cfs_load` gives a group entity: that of its runqueue, scaled
into the shares of the group where the group as a whole exceeds them. -/
def groupLoad (g : Nat) (h : Heap) : Nat :=
  let gcfs := h.cfs g
  let load := gcfs.avg.load.avg
  if load ≠ 0 then
    let tg := h.tgs gcfs.tg
    let tgLoad := u64 (sub64 (u64 (tg.loadAvg + 1)) gcfs.tgLoadAvgContrib + load)
    if tgLoad > scaleLoadDown tg.shares then
      ofInt64 (Int.tdiv (s64 (u64 (load * scaleLoadDown tg.shares))) (s64 tgLoad))
    else load
  else load

def updateTgCfsLoad (i g : Nat) (h : Heap) : Heap :=
  let se := h.ses i
  let q := se.cfsRq
  let parent := h.cfs q
  let load := h.groupLoad g
  let delta := sub64 load se.avg.load.avg
  if delta = 0 then h
  else
    let h := h.setSe i { se with avg := { se.avg with load := .ofAvg64 loadAvgMax load } }
    h.setCfs q { parent with
      avg := { parent.avg with
        load := .ofAvg64 loadAvgMax (addPositive parent.avg.load.avg delta) }
      runnable := if se.onRq then .ofAvg64 loadAvgMax (addPositive parent.runnable.avg delta)
        else parent.runnable }

def propagateEntityLoadAvg (w : World) (i : Nat) (h : Heap) : Heap × Bool :=
  match (h.ses i).myQ with
  | none => (h, false)
  | some g =>
    if (h.cfs g).propagateAvg then
      let h := h.setCfs g { h.cfs g with propagateAvg := false }
      let q := (h.ses i).cfsRq
      let h := h.setCfs q { h.cfs q with propagateAvg := true }
      let h := h.updateTgCfsUtil w i g
      (h.updateTgCfsLoad i g, true)
    else (h, false)

end Heap

end MSchedutil
