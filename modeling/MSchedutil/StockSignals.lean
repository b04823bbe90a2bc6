import MSchedutil.Governor
import MSchedutil.LoadOps

/-! The stock scheduler behind the extension. Forgetting the core and memory signals
turns every operation with the flag set into the same operation with the flag clear,
up to the draining of removals that the stock scheduler has none of. -/

namespace MSchedutil

open Word Transition

/-- The `sched_avg` without the fields the extension adds. -/
def SchedAvg.stock (sa : SchedAvg) : SchedAvg :=
  { sa with
    memoryCycleRatio := 0
    coreUtil := ⟨0, 0⟩
    memoryUtil := ⟨0, 0⟩
    coreUtilFast := ⟨0, 0⟩
    memoryUtilFast := ⟨0, 0⟩ }

def Removed.stock (r : Removed) : Removed :=
  { r with coreUtil := 0, memoryUtil := 0, coreUtilFast := 0, memoryUtilFast := 0 }

def SchedEntity.stock (se : SchedEntity) : SchedEntity := { se with avg := se.avg.stock }

def CfsRq.stock (cfs : CfsRq) : CfsRq :=
  { cfs with avg := cfs.avg.stock, removed := cfs.removed.stock }

def Heap.stock (h : Heap) : Heap :=
  { h with ses := fun i => (h.ses i).stock, cfs := fun q => (h.cfs q).stock }

def World.stock (w : World) : World := { w with pemt := false }

namespace UpdateCall

def stock (c : UpdateCall) : UpdateCall := { c with pemt := false, memoryCycleRatio := 0 }

variable (c : UpdateCall) (sa : SchedAvg)

theorem stock_accrue (slow scaledSlow fast scaledFast : Nat) :
    (c.accrue slow scaledSlow fast scaledFast sa).stock =
      c.stock.accrue slow scaledSlow fast scaledFast sa.stock := by
  unfold accrue stock
  cases c.running <;> cases c.pemt <;> by_cases hw : c.weight = 0 <;> simp [hw, SchedAvg.stock]

theorem stock_decay (n : Nat) : (c.decay n sa).stock = c.stock.decay n sa.stock := by
  unfold decay stock
  cases c.pemt <;> rfl

theorem stock_averages : (c.averages sa).stock = c.stock.averages sa.stock := by
  unfold averages stock
  cases c.pemt <;> rfl

theorem stock_remainder (delta : Nat) :
    (c.remainder delta sa).stock = c.stock.remainder delta sa.stock := by
  unfold remainder
  dsimp only
  rw [← stock_accrue]
  rfl

theorem stock_crossPeriod (delta : Nat) :
    (c.crossPeriod delta sa).stock = c.stock.crossPeriod delta sa.stock := by
  unfold crossPeriod completePeriod wholePeriods
  dsimp only
  rw [stock_averages, stock_remainder, stock_accrue, stock_decay, stock_accrue]
  rfl

theorem stock_accrueDelta (delta : Nat) :
    (c.accrueDelta delta sa).1.stock = (c.stock.accrueDelta delta sa.stock).1 ∧
      (c.accrueDelta delta sa).2 = (c.stock.accrueDelta delta sa.stock).2 := by
  unfold accrueDelta
  by_cases hcross : delta + sa.periodContrib ≥ 1024
  · have hcross' : delta + sa.stock.periodContrib ≥ 1024 := hcross
    dsimp only
    rw [if_pos hcross, if_pos hcross']
    exact ⟨stock_crossPeriod _ _ _, rfl⟩
  · have hcross' : ¬ delta + sa.stock.periodContrib ≥ 1024 := hcross
    dsimp only
    rw [if_neg hcross, if_neg hcross']
    exact ⟨stock_remainder _ _ _, rfl⟩

/-- The stock part of `__update_load_avg` knows nothing of the flag. -/
theorem stock_updateLoadAvg :
    (c.updateLoadAvg sa).1.stock = (c.stock.updateLoadAvg sa.stock).1 ∧
      (c.updateLoadAvg sa).2 = (c.stock.updateLoadAvg sa.stock).2 := by
  have hel : elapsed c.stock.now sa.stock.lastUpdateTime = elapsed c.now sa.lastUpdateTime := rfl
  unfold updateLoadAvg
  rw [hel]
  cases elapsed c.now sa.lastUpdateTime with
  | units delta => exact stock_accrueDelta c sa delta
  | _ => exact ⟨rfl, rfl⟩

theorem stock_records : c.stock.records sa = false := by
  unfold records stock
  split <;> rfl

theorem stock_recorded : (c.recorded sa).stock = sa.stock := by
  unfold recorded
  split <;> rfl

theorem recorded_stock : c.stock.recorded sa = sa := by
  unfold recorded
  rw [stock_records]
  rfl

theorem stock_updateLoadAvg_recorded :
    (c.updateLoadAvg (c.recorded sa)).1.stock =
        (c.stock.updateLoadAvg (c.stock.recorded sa.stock)).1 ∧
      (c.updateLoadAvg (c.recorded sa)).2 =
        (c.stock.updateLoadAvg (c.stock.recorded sa.stock)).2 := by
  rw [recorded_stock, ← c.stock_recorded sa]
  exact c.stock_updateLoadAvg _

end UpdateCall

namespace SchedAvg

variable (pemt : Bool) (cfs se group parent : SchedAvg)

theorem stock_attach : (cfs.attach pemt se).stock = cfs.stock.attach false se.stock := by
  cases pemt <;> rfl

theorem stock_detach : (cfs.detach pemt se).stock = cfs.stock.detach false se.stock := by
  cases pemt <;> rfl

theorem stock_drain (r : Removed) : (cfs.drain pemt r).stock = cfs.stock.drain false r.stock := by
  cases pemt <;> rfl

theorem stock_propagateSelf :
    (propagateSelf pemt group se).stock = propagateSelf false group.stock se.stock := by
  cases pemt <;> rfl

theorem stock_propagateParent : (propagateParent pemt group se parent).stock =
    propagateParent false group.stock se.stock parent.stock := by
  cases pemt <;> rfl

end SchedAvg

namespace Removed

theorem stock_add (pemt : Bool) (r : Removed) (se : SchedAvg) :
    (r.add pemt se).stock = r.stock.add false se.stock := by
  cases pemt <;> rfl

theorem stock_taken (pemt : Bool) (r : Removed) : (r.taken pemt).stock = r.stock.taken false := by
  cases pemt <;> rfl

end Removed

namespace Heap

variable (w : World) (h : Heap)

theorem stock_setSe (i : Nat) (se : SchedEntity) :
    (h.setSe i se).stock = h.stock.setSe i se.stock := by
  unfold stock setSe
  congr
  funext j
  by_cases hj : j = i <;> simp [hj]

theorem stock_setCfs (q : Nat) (cfs : CfsRq) :
    (h.setCfs q cfs).stock = h.stock.setCfs q cfs.stock := by
  unfold stock setCfs
  congr
  funext j
  by_cases hj : j = q <;> simp [hj]

theorem stock_cfsRqUtilChange (q : Nat) :
    (h.cfsRqUtilChange q).stock = h.stock.cfsRqUtilChange q := by
  unfold cfsRqUtilChange
  change _ = if (h.cfs q).isRoot then _ else _
  split <;> rfl

theorem stock_ratioToCfs (c : UpdateCall) (i : Nat) : (h.ratioToCfs c i).stock = h.stock := by
  unfold ratioToCfs
  split
  · rw [stock_setCfs]
    exact setCfs_self h.stock _
  · rfl

theorem stock_updateEntity (now cpu weight : Nat) (running : Bool) (i : Nat) :
    (h.updateEntityLoadAvg w now cpu weight running i).1.stock =
        (h.stock.updateEntityLoadAvg w.stock now cpu weight running i).1 ∧
      (h.updateEntityLoadAvg w now cpu weight running i).2 =
        (h.stock.updateEntityLoadAvg w.stock now cpu weight running i).2 := by
  obtain ⟨havg, hret⟩ := (h.entityCall w now cpu weight running i).stock_updateLoadAvg_recorded
    (h.ses i).avg
  have hcall : h.stock.entityCall w.stock now cpu weight running i =
      (h.entityCall w now cpu weight running i).stock := rfl
  have hkeep : h.stock.ratioToCfs (h.entityCall w now cpu weight running i).stock i = h.stock := by
    unfold ratioToCfs
    simp [UpdateCall.stock_records]
  rw [updateEntityLoadAvg_eq, updateEntityLoadAvg_eq]
  dsimp only
  rw [hcall, hkeep]
  refine ⟨?_, hret⟩
  rw [stock_setSe, stock_ratioToCfs]
  exact congrArg (fun sa => h.stock.setSe i { h.stock.ses i with avg := sa }) havg

theorem stock_attachEntity (i : Nat) :
    (h.attachEntityLoadAvg w i).stock = h.stock.attachEntityLoadAvg w.stock i := by
  unfold attachEntityLoadAvg
  dsimp only
  rw [stock_cfsRqUtilChange, stock_setCfs, stock_setSe]
  refine congrArg (fun sa => (Heap.setCfs _ _ { (h.cfs (h.ses i).cfsRq).stock with
    avg := sa, propagateAvg := true }).cfsRqUtilChange _) ?_
  exact SchedAvg.stock_attach _ _ _

theorem stock_detachEntity (i : Nat) :
    (h.detachEntityLoadAvg w i).stock = h.stock.detachEntityLoadAvg w.stock i := by
  unfold detachEntityLoadAvg
  dsimp only
  rw [stock_cfsRqUtilChange, stock_setCfs]
  refine congrArg (fun sa => (Heap.setCfs _ _ { (h.cfs (h.ses i).cfsRq).stock with
    avg := sa, propagateAvg := true }).cfsRqUtilChange _) ?_
  exact SchedAvg.stock_detach _ _ _

theorem stock_syncEntity (i : Nat) :
    (h.syncEntityLoadAvg w i).stock = h.stock.syncEntityLoadAvg w.stock i :=
  (h.stock_updateEntity w _ _ 0 false i).1

theorem stock_removeEntity (i : Nat) :
    (h.removeEntityLoadAvg w i).stock = h.stock.removeEntityLoadAvg w.stock i := by
  unfold removeEntityLoadAvg
  dsimp only
  rw [stock_setCfs, ← stock_syncEntity]
  generalize h.syncEntityLoadAvg w i = synced
  refine congrArg (fun r => Heap.setCfs _ _ { CfsRq.stock _ with removed := r }) ?_
  exact Removed.stock_add _ _ _

theorem stock_updateTgCfsUtil (i g : Nat) :
    (h.updateTgCfsUtil w i g).stock = h.stock.updateTgCfsUtil w.stock i g := by
  unfold updateTgCfsUtil
  dsimp only
  rw [stock_setCfs, stock_setSe]
  refine congrArg₂ (fun sa sb => (h.stock.setSe i { h.stock.ses i with avg := sa }).setCfs _
    { h.stock.cfs (h.ses i).cfsRq with avg := sb }) ?_ ?_
  · exact SchedAvg.stock_propagateSelf _ _ _
  · exact SchedAvg.stock_propagateParent _ _ _ _

theorem stock_setLoads (i q : Nat) (load load' runnable : Signal) :
    ((h.setSe i { h.ses i with avg := { (h.ses i).avg with load := load } }).setCfs q
        { h.cfs q with avg := { (h.cfs q).avg with load := load' }, runnable := runnable }).stock =
      (h.stock.setSe i
        { h.stock.ses i with avg := { (h.stock.ses i).avg with load := load } }).setCfs q
        { h.stock.cfs q with
          avg := { (h.stock.cfs q).avg with load := load' }, runnable := runnable } := by
  rw [stock_setCfs, stock_setSe]
  rfl

theorem stock_updateTgCfsLoad (i g : Nat) :
    (h.updateTgCfsLoad i g).stock = h.stock.updateTgCfsLoad i g := by
  have hload : h.stock.groupLoad g = h.groupLoad g := rfl
  have havg : (h.stock.ses i).avg.load = (h.ses i).avg.load := rfl
  unfold updateTgCfsLoad
  dsimp only
  rw [hload, havg]
  split
  · rfl
  · exact stock_setLoads _ _ _ _ _ _

theorem stock_setPropagate (b : Bool) (q : Nat) :
    (h.setPropagate b q).stock = h.stock.setPropagate b q := stock_setCfs _ _ _

theorem stock_propagateEntity (i : Nat) :
    (h.propagateEntityLoadAvg w i).1.stock = (h.stock.propagateEntityLoadAvg w.stock i).1 ∧
      (h.propagateEntityLoadAvg w i).2 = (h.stock.propagateEntityLoadAvg w.stock i).2 := by
  obtain hidle | ⟨g, hm, hf⟩ := h.propagate_cases i
  · rw [propagate_idle hidle, propagate_idle (h := h.stock) hidle]
    exact ⟨rfl, rfl⟩
  · rw [propagate_fired hm hf, propagate_fired (h := h.stock) hm hf]
    refine ⟨?_, rfl⟩
    dsimp only
    rw [stock_updateTgCfsLoad, stock_updateTgCfsUtil, flagsMoved, stock_setPropagate,
      stock_setPropagate]
    rfl

theorem stock_updateCfs (now q : Nat) :
    (h.updateCfsLoadAvg w now q).1.stock = (h.stock.updateCfsLoadAvg w.stock now q).1 ∧
      (h.updateCfsLoadAvg w now q).2 = (h.stock.updateCfsLoadAvg w.stock now q).2 := by
  have hcall : h.stock.cfsCall w.stock now q = (h.cfsCall w now q).stock := rfl
  obtain ⟨havg, hret⟩ := (h.cfsCall w now q).stock_updateLoadAvg_recorded (h.cfs q).avg
  have hrun := congrArg SchedAvg.load ((h.cfsCall w now q).stock_updateLoadAvg
    { (h.cfsCall w now q).recorded (h.cfs q).avg with load := (h.cfs q).runnable }).1
  have hload : ({ (h.cfsCall w now q).recorded (h.cfs q).avg with
      load := (h.cfs q).runnable } : SchedAvg).stock =
      { (h.cfsCall w now q).stock.recorded (h.stock.cfs q).avg with
        load := (h.stock.cfs q).runnable } := by
    rw [UpdateCall.recorded_stock]
    unfold UpdateCall.recorded
    split <;> rfl
  rw [hload] at hrun
  rw [updateCfsLoadAvg_eq, updateCfsLoadAvg_eq]
  dsimp only
  rw [hcall]
  refine ⟨?_, hret⟩
  rw [stock_setCfs]
  exact congrArg₂ (fun sa run => h.stock.setCfs q { h.stock.cfs q with avg := sa, runnable := run })
    havg hrun

/-- A drain takes out core or memory removals only where the stock scheduler would
raise the propagation flag and the notification as well. -/
def StockDrain (h : Heap) : LoadOp → Prop
  | .updateCfs now q updateFreq =>
    ((h.cfs q).removed.propagates true →
      (h.cfs q).propagateAvg ∨ (h.cfs q).removed.propagates false) ∧
    (updateFreq → (h.cfs q).isRoot → (h.cfs q).removed.removedUtil true →
      (h.cfs q).avg.decaysAt now ∨ (h.cfs q).removed.removedUtil false)
  | _ => True

theorem stock_drained {pemt : Bool} {q : Nat}
    (hd : (h.cfs q).removed.propagates pemt →
      (h.cfs q).propagateAvg ∨ (h.cfs q).removed.propagates false) :
    (h.drained pemt q).stock = h.stock.drained false q := by
  have hflag : ((h.cfs q).propagateAvg || (h.cfs q).removed.propagates pemt) =
      ((h.cfs q).propagateAvg || (h.cfs q).removed.propagates false) := by
    cases hp : (h.cfs q).removed.propagates pemt with
    | false =>
      have hp' : (h.cfs q).removed.propagates false = false :=
        Bool.eq_false_iff.mpr fun hf => by simp [Removed.propagates_mono hf] at hp
      rw [hp']
    | true =>
      rcases hd hp with hflag | hprop
      · simp [hflag]
      · simp [hprop]
  unfold drained
  rw [stock_setCfs, hflag]
  unfold CfsRq.stock
  dsimp only
  rw [SchedAvg.stock_drain, Removed.stock_taken]
  rfl

instance StockDrain.decidable (h : Heap) : (op : LoadOp) → Decidable (h.StockDrain op)
  | .updateCfs _ _ _ => inferInstanceAs (Decidable (_ ∧ _))
  | .move _ _ | .setCurr _ _ | .updateEntity _ _ _ _ _ | .attach _ | .detach _ | .remove _
  | .propagate _ => isTrue trivial

theorem stock_updateCfsRq {now q : Nat} {updateFreq : Bool}
    (hd : w.pemt = true → h.StockDrain (.updateCfs now q updateFreq)) :
    (h.updateCfsRqLoadAvg w now q updateFreq).1.stock =
        (h.stock.updateCfsRqLoadAvg w.stock now q updateFreq).1 ∧
      (h.updateCfsRqLoadAvg w now q updateFreq).2 =
        (h.stock.updateCfsRqLoadAvg w.stock now q updateFreq).2 := by
  have hdrain : (h.drained w.pemt q).stock = h.stock.drained w.stock.pemt q := by
    refine h.stock_drained fun hp => ?_
    cases hw : w.pemt with
    | false => exact .inr (by rwa [hw] at hp)
    | true => exact (hd hw).1 (by rwa [hw] at hp)
  obtain ⟨hheap, hret⟩ := (h.drained w.pemt q).stock_updateCfs w now q
  have hdecayed : ((h.drained w.pemt q).updateCfsLoadAvg w now q).2 =
      (h.cfs q).avg.decaysAt now := by
    rw [updateCfsLoadAvg_snd, drained_decaysAt]
  rw [updateCfsRqLoadAvg_eq, updateCfsRqLoadAvg_eq]
  dsimp only
  rw [← hdrain, ← hheap, ← hret, hdecayed]
  refine ⟨?_, rfl⟩
  cases hroot : (h.cfs q).isRoot with
  | false =>
    have hquiet := cfsRqUtilChange_of_not_root (q := q)
      (h := ((h.drained w.pemt q).updateCfsLoadAvg w now q).1)
      (by rw [updateCfsLoadAvg_isRoot]; simpa [drained] using hroot)
    rw [← stock_cfsRqUtilChange, hquiet, ite_self, ite_self]
  | true =>
    have hnotify : (updateFreq && ((h.cfs q).avg.decaysAt now ||
        (h.cfs q).removed.removedUtil w.pemt)) = (updateFreq && ((h.cfs q).avg.decaysAt now ||
        (h.stock.cfs q).removed.removedUtil w.stock.pemt)) := by
      change _ = (updateFreq && ((h.cfs q).avg.decaysAt now || (h.cfs q).removed.removedUtil false))
      cases hw : w.pemt with
      | false => rfl
      | true =>
        have hstep := (hd hw).2
        have hmono := (h.cfs q).removed.removedUtil_mono true
        revert hstep hmono
        cases updateFreq <;> cases (h.cfs q).avg.decaysAt now <;>
          cases (h.cfs q).removed.removedUtil true <;>
          cases (h.cfs q).removed.removedUtil false <;> simp [hroot]
    rw [hnotify]
    split
    · exact stock_cfsRqUtilChange _ _
    · rfl

end Heap

/-- Forgetting the extension turns an operation into the stock operation. -/
theorem Heap.stock_apply {w : World} {h : Heap} {op : LoadOp}
    (hd : w.pemt = true → h.StockDrain op) :
    (h.apply w op).1.stock = (h.stock.apply w.stock op).1 ∧
      (h.apply w op).2 = (h.stock.apply w.stock op).2 := by
  cases op with
  | move i q => exact ⟨h.stock_setSe _ _, rfl⟩
  | setCurr q curr => exact ⟨h.stock_setCfs _ _, rfl⟩
  | updateEntity now cpu weight running i => exact h.stock_updateEntity w now cpu weight running i
  | attach i => exact ⟨h.stock_attachEntity w i, rfl⟩
  | detach i => exact ⟨h.stock_detachEntity w i, rfl⟩
  | remove i => exact ⟨h.stock_removeEntity w i, rfl⟩
  | updateCfs now q updateFreq => exact h.stock_updateCfsRq w hd
  | propagate i => exact h.stock_propagateEntity w i

structure LoadRun where
  heap : Heap
  returns : List Bool

namespace LoadRun

/-- One operation in the world it finds, with the flag as given. -/
def next (pemt : Bool) (s : LoadRun) (e : World × LoadOp) : LoadRun :=
  let result := s.heap.apply { e.1 with pemt := pemt } e.2
  ⟨result.1, s.returns ++ [result.2]⟩

def stock (s : LoadRun) : LoadRun := { s with heap := s.heap.stock }

theorem stock_next {pemt : Bool} {s : LoadRun} {e : World × LoadOp}
    (hd : pemt = true → s.heap.StockDrain e.2) : (s.next pemt e).stock = s.stock.next false e := by
  obtain ⟨hheap, hret⟩ := Heap.stock_apply (w := { e.1 with pemt := pemt }) hd
  unfold next stock
  dsimp only
  rw [hheap, hret]
  rfl

/-- Behind a run with the flag set stands the stock run. -/
theorem stock_run_tracking {s : LoadRun} {es : List (World × LoadOp)}
    (hes : Along (next true) (fun s e => s.heap.StockDrain e.2) s es) :
    (run (next true) s es).stock = run (next false) s.stock es :=
  hes.simulation (R := fun s t => s.stock = t)
    (fun _ _ _ hrel hd => by rw [stock_next fun _ => hd, hrel]) rfl

theorem stock_run_plain (s : LoadRun) (es : List (World × LoadOp)) :
    (run (next false) s es).stock = run (next false) s.stock es :=
  (along_of_forall (P := fun _ _ => True) (f := next false) (fun _ _ _ => trivial) s).simulation
    (R := fun s t => s.stock = t)
    (fun _ _ _ hrel _ => by rw [stock_next (by simp), hrel]) rfl

end LoadRun

/-- The world of a governor call on a CPU whose root runqueue has the signals `sa`. -/
def Env.watching (env : Env) (pemt : Bool) (cpu : Nat) (sa : SchedAvg) : Env :=
  { env with
    pemtEnabled := pemt
    rq := Function.update env.rq cpu { env.rq cpu with avg := sa } }

/-- Without `pkshin_freq_enabled` the governor reads stock signals only. -/
theorem sugovGetUtil_stock {env : Env} (hfreq : env.freqEnabled = false) (t : SugovTunables)
    (cpu : Nat) {pemt pemt' : Bool} {sa sb : SchedAvg} (hs : sa.stock = sb.stock) :
    sugovGetUtil (env.watching pemt cpu sa) t cpu =
      sugovGetUtil (env.watching pemt' cpu sb) t cpu := by
  have hutil : sa.stock.util = sb.stock.util := congrArg SchedAvg.util hs
  change sa.util = sb.util at hutil
  simp [sugovGetUtil, Env.watching, hfreq, hutil]

open LoadRun in
/-- Switching the tracking on leaves the stock signals, the return values, the
notifications and the utilisation the governor reads as they are, as long as every
drain of core and memory removals comes with one the stock scheduler reports too. -/
theorem tracking_keeps_stock_signals {h h' : Heap} (hh : h.stock = h'.stock)
    {es : List (World × LoadOp)}
    (hes : Along (next true) (fun s e => s.heap.StockDrain e.2) ⟨h, []⟩ es) :
    (run (next true) ⟨h, []⟩ es).heap.stock = (run (next false) ⟨h', []⟩ es).heap.stock ∧
    (run (next true) ⟨h, []⟩ es).returns = (run (next false) ⟨h', []⟩ es).returns ∧
    ∀ (env : Env) (t : SugovTunables) (cpu q : Nat), env.freqEnabled = false →
      sugovGetUtil (env.watching true cpu ((run (next true) ⟨h, []⟩ es).heap.cfs q).avg) t cpu =
      sugovGetUtil (env.watching false cpu ((run (next false) ⟨h', []⟩ es).heap.cfs q).avg) t cpu := by
  have hruns : (run (next true) ⟨h, []⟩ es).stock = (run (next false) ⟨h', []⟩ es).stock := by
    rw [stock_run_tracking hes, stock_run_plain]
    exact congrArg (fun g => run (next false) ⟨g, []⟩ es) hh
  obtain ⟨hheap, hret⟩ := LoadRun.mk.inj hruns
  refine ⟨hheap, hret, fun env t cpu q hfreq => sugovGetUtil_stock hfreq t cpu ?_⟩
  exact congrArg CfsRq.avg (congrFun (congrArg Heap.cfs hheap) q)

/-- A task with nothing accrued, just short of a period boundary, alone on a CPU. -/
def loneTask : Heap where
  ses _ := ⟨{ idleAvg with lastUpdateTime := 1000000, periodContrib := 1020 }, 1048576, true, 0, none⟩
  cfs _ := ⟨{ idleAvg with lastUpdateTime := 1006144 }, 1048576, ⟨0, 0⟩, 0, false,
    ⟨0, 0, 0, 0, 0, 0, 0⟩, none, 0, true, 0⟩
  tgs _ := ⟨0, 0, true⟩
  depth := 0
  notices := []

/-- A sixth of the highest frequency, and a task that only waits for memory. -/
def stalledWorld : World := ⟨true, 1024, fun _ => 170, fun _ => 1024⟩

/-- The task runs for some microseconds, blocks and is migrated away. -/
def shortRun (elapsed : Nat) : List (World × LoadOp) := [
  (stalledWorld, .setCurr 0 (some 0)),
  (stalledWorld, .updateEntity (1000000 + elapsed * 1024) 0 1024 true 0),
  (stalledWorld, .updateCfs (1000000 + elapsed * 1024) 0 true),
  (stalledWorld, .setCurr 0 none),
  (stalledWorld, .remove 0),
  (stalledWorld, .updateCfs (1000000 + elapsed * 1024) 0 true)]

theorem tracking_keeps_stock_signals_short_run :
    (run (LoadRun.next true) ⟨loneTask, []⟩ (shortRun 1500)).heap.stock =
      (run (LoadRun.next false) ⟨loneTask, []⟩ (shortRun 1500)).heap.stock :=
  (tracking_keeps_stock_signals (h := loneTask) rfl (by decide +kernel)).1

/-- A fast memory average the stock scheduler has no counterpart of raises a
notification of its own when it is drained. -/
theorem tracking_adds_notification : ¬ ∀ (h h' : Heap) (es : List (World × LoadOp)),
    h.stock = h'.stock → (run (LoadRun.next true) ⟨h, []⟩ es).heap.stock =
      (run (LoadRun.next false) ⟨h', []⟩ es).heap.stock := by
  intro hclaim
  have hnotices := congrArg Heap.notices (hclaim loneTask loneTask (shortRun 6) rfl)
  have hon : (run (LoadRun.next true) ⟨loneTask, []⟩ (shortRun 6)).heap.stock.notices = [0] := by
    decide +kernel
  have hoff : (run (LoadRun.next false) ⟨loneTask, []⟩ (shortRun 6)).heap.stock.notices = [] := by
    decide +kernel
  rw [hon, hoff] at hnotices
  exact List.cons_ne_nil _ _ hnotices

end MSchedutil
