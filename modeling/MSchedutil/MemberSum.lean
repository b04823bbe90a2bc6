import MSchedutil.Ledger
import MSchedutil.TrackOps
import MSchedutil.Transition

/-! Runqueue operations at one instant as a transition system, and what each of them
does to the totals of the runqueues, the shares of the entities and the pending
removals. -/

namespace MSchedutil

open Word Transition

/-- The heap and the entities attached to their runqueue. -/
structure AttachSys where
  heap : Heap
  attached : Finset Nat

inductive AttachEvent where
  | move (i q : Nat)
  | attach (i : Nat)
  | detach (i : Nat)
  | remove (i : Nat)
  | updateCfs (q : Nat) (updateFreq : Bool)
  | propagate (i : Nat)
  deriving DecidableEq, Repr

namespace AttachSys

/-- One operation at the instant `t`; `move` is `set_task_rq`. -/
def next (w : World) (t : Nat) (s : AttachSys) : AttachEvent → AttachSys
  | .move i q => { s with heap := s.heap.setSe i { s.heap.ses i with cfsRq := q } }
  | .attach i => ⟨s.heap.attachEntityLoadAvg w i, insert i s.attached⟩
  | .detach i => ⟨s.heap.detachEntityLoadAvg w i, s.attached.erase i⟩
  | .remove i => ⟨s.heap.removeEntityLoadAvg w i, s.attached.erase i⟩
  | .updateCfs q updateFreq => { s with heap := (s.heap.updateCfsRqLoadAvg w t q updateFreq).1 }
  | .propagate i => { s with heap := (s.heap.propagateEntityLoadAvg w i).1 }

def members (s : AttachSys) (q : Nat) : Finset Nat :=
  s.attached.filter fun i => (s.heap.ses i).cfsRq = q

def total (s : AttachSys) (k : Track) (q : Nat) : Signal := (s.heap.cfs q).avg.signal k

def share (s : AttachSys) (k : Track) (i : Nat) : Signal := (s.heap.ses i).avg.signal k

def pending (s : AttachSys) (k : Track) (q : Nat) : Nat := (s.heap.cfs q).removed.amount k

/-- Every average is its base, its members' averages and the pending removals. -/
def AddsUp (base : Nat → Track → Nat) (s : AttachSys) : Prop :=
  ∀ q k, Ledger.Balanced (s.total k q).avg (base q k) (s.members q) (fun i => (s.share k i).avg)
    (s.pending k q)

/-- Only entities that are not attached are moved or attached, and only attached ones
leave; the group entities of the hierarchy are attached when they propagate. -/
def Allowed (s : AttachSys) : AttachEvent → Prop
  | .move i q => i ∉ s.attached ∧ (s.heap.ses i).myQ ≠ some q
  | .attach i => i ∉ s.attached
  | .detach i | .remove i => i ∈ s.attached
  | .updateCfs _ _ => True
  | .propagate i => (s.heap.ses i).myQ ≠ none → i ∈ s.attached

/-- The new averages fit a `long`. -/
def Fits (s : AttachSys) : AttachEvent → Prop
  | .attach i => ∀ k, (s.total k (s.heap.ses i).cfsRq).avg + (s.share k i).avg < 2 ^ 63
  | .propagate i => ∀ g, (s.heap.ses i).myQ = some g → (s.heap.cfs g).propagateAvg = true → ∀ k,
      (s.total k (s.heap.ses i).cfsRq).avg - (s.share k i).avg + (s.total k g).avg < 2 ^ 63
  | _ => True

/-- All clocks stand at `t`, all averages fit, and no group contains itself. -/
structure Still (t : Nat) (s : AttachSys) : Prop where
  cfs_clock : ∀ q, (s.heap.cfs q).avg.lastUpdateTime = t
  se_clock : ∀ i ∈ s.attached, (s.heap.ses i).avg.lastUpdateTime = t
  fits : ∀ q k, (s.total k q).avg < 2 ^ 63
  hierarchy : ∀ i g, (s.heap.ses i).myQ = some g → (s.heap.ses i).cfsRq ≠ g

theorem mem_members {s : AttachSys} {q i : Nat} :
    i ∈ s.members q ↔ i ∈ s.attached ∧ (s.heap.ses i).cfsRq = q := Finset.mem_filter

theorem members_congr {s t : AttachSys} (ha : t.attached = s.attached)
    (hq : ∀ i ∈ s.attached, (t.heap.ses i).cfsRq = (s.heap.ses i).cfsRq) (q : Nat) :
    t.members q = s.members q := by
  ext i
  simp only [mem_members, ha]
  refine and_congr_right fun hi => ?_
  rw [hq i hi]

theorem members_insert {s s' : AttachSys} {i : Nat} (ha : s'.attached = insert i s.attached)
    (hq : ∀ j, (s'.heap.ses j).cfsRq = (s.heap.ses j).cfsRq) (q : Nat) :
    s'.members q = if (s.heap.ses i).cfsRq = q then insert i (s.members q) else s.members q := by
  ext j
  by_cases hj : j = i
  · subst hj
    split <;> rename_i h <;> simp [mem_members, ha, hq, h]
  · split <;> simp [mem_members, ha, hq, hj]

theorem members_erase {s s' : AttachSys} {i : Nat} (ha : s'.attached = s.attached.erase i)
    (hq : ∀ j, (s'.heap.ses j).cfsRq = (s.heap.ses j).cfsRq) (q : Nat) :
    s'.members q = if (s.heap.ses i).cfsRq = q then (s.members q).erase i else s.members q := by
  ext j
  by_cases hj : j = i
  · subst hj
    split <;> rename_i h <;> simp [mem_members, ha, hq, h]
  · split <;> simp [mem_members, ha, hq, hj]

/-- The entities keep their signals and their place. -/
structure SameEntities (s s' : AttachSys) : Prop where
  share : ∀ k i, s'.share k i = s.share k i
  cfsRq : ∀ i, (s'.heap.ses i).cfsRq = (s.heap.ses i).cfsRq
  myQ : ∀ i, (s'.heap.ses i).myQ = (s.heap.ses i).myQ

variable {w : World} {t : Nat} {s : AttachSys}

section Effects

variable (hw : w.pemt = true)

include hw

theorem attach_total (i : Nat) (k : Track) (q : Nat) : (s.next w t (.attach i)).total k q =
    if q = (s.heap.ses i).cfsRq then (s.total k q).plus32 (s.share k i) else s.total k q := by
  by_cases hq : q = (s.heap.ses i).cfsRq
  · subst hq
    simp [next, total, share, Heap.attachEntityLoadAvg, SchedAvg.signal_attach, hw]
  · simp [next, total, Heap.attachEntityLoadAvg, hq]

theorem detach_total (i : Nat) (k : Track) (q : Nat) : (s.next w t (.detach i)).total k q =
    if q = (s.heap.ses i).cfsRq then (s.total k q).minus32 (s.share k i) else s.total k q := by
  by_cases hq : q = (s.heap.ses i).cfsRq
  · subst hq
    simp [next, total, share, Heap.detachEntityLoadAvg, SchedAvg.signal_detach, hw]
  · simp [next, total, Heap.detachEntityLoadAvg, hq]

end Effects

theorem updateCfs_ses (hs : s.Still t) (q : Nat) (b : Bool) :
    (s.next w t (.updateCfs q b)).heap.ses = s.heap.ses := by
  simp only [next, Heap.updateCfsRqLoadAvg]
  rw [Heap.updateCfsLoadAvg_now (by simpa using hs.cfs_clock q)]
  dsimp only
  split <;> simp

theorem updateCfs_cfs (hs : s.Still t) (q : Nat) (b : Bool) :
    (s.next w t (.updateCfs q b)).heap.cfs = Function.update s.heap.cfs q { s.heap.cfs q with
      avg := (s.heap.cfs q).avg.drain w.pemt (s.heap.cfs q).removed
      removed := (s.heap.cfs q).removed.taken w.pemt
      propagateAvg := (s.heap.cfs q).propagateAvg ||
        (s.heap.cfs q).removed.propagates w.pemt } := by
  simp only [next, Heap.updateCfsRqLoadAvg]
  rw [Heap.updateCfsLoadAvg_now (by simpa using hs.cfs_clock q)]
  dsimp only
  split <;> simp

theorem updateCfs_total (hw : w.pemt = true) (hs : s.Still t) (q : Nat) (b : Bool) (k : Track)
    (q' : Nat) : (s.next w t (.updateCfs q b)).total k q' =
      if q' = q then (s.total k q').drain32 k.max (s.pending k q') else s.total k q' := by
  unfold total
  rw [updateCfs_cfs hs]
  by_cases hq : q' = q
  · subst hq
    simp [pending, SchedAvg.signal_drain, hw]
  · simp [hq]

theorem updateCfs_pending (hw : w.pemt = true) (hs : s.Still t) (q : Nat) (b : Bool) (k : Track)
    (q' : Nat) :
    (s.next w t (.updateCfs q b)).pending k q' = if q' = q then 0 else s.pending k q' := by
  unfold pending
  rw [updateCfs_cfs hs]
  by_cases hq : q' = q
  · subst hq
    simp [Removed.amount_taken, hw]
  · simp [hq]

theorem remove_heap (hs : s.Still t) {i : Nat} (hi : i ∈ s.attached) :
    (s.next w t (.remove i)).heap = s.heap.setCfs (s.heap.ses i).cfsRq
      { s.heap.cfsRqOf i with removed :=
          (s.heap.cfsRqOf i).removed.add w.pemt (s.heap.ses i).avg } := by
  have hsync : s.heap.syncEntityLoadAvg w i = s.heap := by
    unfold Heap.syncEntityLoadAvg Heap.cfsRqOf
    rw [hs.cfs_clock, Heap.updateEntityLoadAvg_now (hs.se_clock i hi)]
  simp only [next, Heap.removeEntityLoadAvg, hsync, Heap.cfsRqOf]

theorem remove_pending (hw : w.pemt = true) (hs : s.Still t) {i : Nat} (hi : i ∈ s.attached)
    (k : Track) (q : Nat) : (s.next w t (.remove i)).pending k q =
      if q = (s.heap.ses i).cfsRq then u64 (s.pending k q + (s.share k i).avg)
      else s.pending k q := by
  unfold pending
  rw [remove_heap hs hi]
  by_cases hq : q = (s.heap.ses i).cfsRq
  · subst hq
    simp [share, Heap.cfsRqOf, Removed.amount_add, hw]
  · simp [hq]

theorem sameEntities_attach (i : Nat) : SameEntities s (s.next w t (.attach i)) := by
  refine ⟨fun k j => ?_, fun j => ?_, fun j => ?_⟩ <;> by_cases hj : j = i
  all_goals first
    | subst hj; cases k <;> simp [next, share, Heap.attachEntityLoadAvg, SchedAvg.signal]
    | simp [next, share, Heap.attachEntityLoadAvg, hj]

theorem sameEntities_of_ses {s' : AttachSys} (h : s'.heap.ses = s.heap.ses) : SameEntities s s' :=
  ⟨fun k i => by unfold share; rw [h], fun i => by rw [h], fun i => by rw [h]⟩

theorem detach_ses (i : Nat) : (s.next w t (.detach i)).heap.ses = s.heap.ses := by
  simp [next, Heap.detachEntityLoadAvg]

end AttachSys

namespace Heap

variable {w : World} {h : Heap} {i g : Nat}

/-- `update_tg_cfs_load` leaves everything but the load alone. -/
structure SameButLoad (h h' : Heap) : Prop where
  se_signal : ∀ j k, (h'.ses j).avg.signal k = (h.ses j).avg.signal k
  se_clock : ∀ j, (h'.ses j).avg.lastUpdateTime = (h.ses j).avg.lastUpdateTime
  cfsRq : ∀ j, (h'.ses j).cfsRq = (h.ses j).cfsRq
  myQ : ∀ j, (h'.ses j).myQ = (h.ses j).myQ
  cfs_signal : ∀ q k, (h'.cfs q).avg.signal k = (h.cfs q).avg.signal k
  cfs_clock : ∀ q, (h'.cfs q).avg.lastUpdateTime = (h.cfs q).avg.lastUpdateTime
  removed : ∀ q, (h'.cfs q).removed = (h.cfs q).removed

theorem sameButLoad_setLoads (q : Nat) (load load' runnable : Signal) :
    SameButLoad h ((h.setSe i { h.ses i with avg := { (h.ses i).avg with load := load } }).setCfs q
      { h.cfs q with avg := { (h.cfs q).avg with load := load' }, runnable := runnable }) where
  se_signal := forall_setSe (P := fun j s => ∀ k, s.avg.signal k = (h.ses j).avg.signal k)
    (fun k => by cases k <;> rfl) fun _ _ => rfl
  se_clock := forall_setSe (P := fun j s => s.avg.lastUpdateTime = (h.ses j).avg.lastUpdateTime)
    rfl fun _ => rfl
  cfsRq := forall_setSe (P := fun j s => s.cfsRq = (h.ses j).cfsRq) rfl fun _ => rfl
  myQ := forall_setSe (P := fun j s => s.myQ = (h.ses j).myQ) rfl fun _ => rfl
  cfs_signal := forall_setCfs (P := fun q c => ∀ k, c.avg.signal k = (h.cfs q).avg.signal k)
    (fun k => by cases k <;> rfl) fun _ _ => rfl
  cfs_clock := forall_setCfs (P := fun q c => c.avg.lastUpdateTime = (h.cfs q).avg.lastUpdateTime)
    rfl fun _ => rfl
  removed := forall_setCfs (P := fun q c => c.removed = (h.cfs q).removed) rfl fun _ => rfl

theorem sameButLoad_updateTgCfsLoad : SameButLoad h (h.updateTgCfsLoad i g) := by
  simp only [updateTgCfsLoad]
  split
  · exact ⟨fun _ _ => rfl, fun _ => rfl, fun _ => rfl, fun _ => rfl, fun _ _ => rfl, fun _ => rfl,
      fun _ => rfl⟩
  · exact sameButLoad_setLoads _ _ _ _

end Heap

namespace AttachSys

variable {w : World} {t : Nat} {s : AttachSys} {i g : Nat}

theorem propagate_total (hw : w.pemt = true) (hm : (s.heap.ses i).myQ = some g)
    (hf : (s.heap.cfs g).propagateAvg = true) (k : Track) (q : Nat) :
    (s.next w t (.propagate i)).total k q = if q = (s.heap.ses i).cfsRq
      then .propagateParent k.max (s.total k g) (s.share k i) (s.total k q)
      else s.total k q := by
  unfold total share
  rw [next, Heap.propagate_fired hm hf, Heap.sameButLoad_updateTgCfsLoad.cfs_signal]
  unfold Heap.updateTgCfsUtil
  by_cases hq : q = (s.heap.ses i).cfsRq
  · simp [hq, Heap.flagsMoved_ses, Heap.flagsMoved_cfs, SchedAvg.signal_propagateParent, hw]
  · simp [hq, Heap.flagsMoved_ses, Heap.flagsMoved_cfs]

theorem propagate_share (hw : w.pemt = true) (hm : (s.heap.ses i).myQ = some g)
    (hf : (s.heap.cfs g).propagateAvg = true) (k : Track) (j : Nat) :
    (s.next w t (.propagate i)).share k j = if j = i
      then .propagateSelf k.max (s.total k g) (s.share k i) else s.share k j := by
  unfold total share
  rw [next, Heap.propagate_fired hm hf, Heap.sameButLoad_updateTgCfsLoad.se_signal]
  unfold Heap.updateTgCfsUtil
  by_cases hj : j = i
  · simp [hj, Heap.flagsMoved_ses, Heap.flagsMoved_cfs, SchedAvg.signal_propagateSelf, hw]
  · simp [hj, Heap.flagsMoved_ses]

theorem propagate_pending (k : Track) (q : Nat) :
    (s.next w t (.propagate i)).pending k q = s.pending k q := by
  obtain hidle | ⟨g, hm, hf⟩ := s.heap.propagate_cases i
  · rw [next, Heap.propagate_idle hidle]
  · unfold pending
    rw [next, Heap.propagate_fired hm hf, Heap.sameButLoad_updateTgCfsLoad.removed]
    unfold Heap.updateTgCfsUtil
    by_cases hq : q = (s.heap.ses i).cfsRq
    · simp [hq, Heap.flagsMoved_ses, Heap.flagsMoved_cfs]
    · simp [hq, Heap.flagsMoved_ses, Heap.flagsMoved_cfs]

theorem propagate_clocks : (∀ q, ((s.next w t (.propagate i)).heap.cfs q).avg.lastUpdateTime =
      (s.heap.cfs q).avg.lastUpdateTime) ∧
    (∀ j, ((s.next w t (.propagate i)).heap.ses j).avg.lastUpdateTime =
      (s.heap.ses j).avg.lastUpdateTime) ∧
    (∀ j, ((s.next w t (.propagate i)).heap.ses j).cfsRq = (s.heap.ses j).cfsRq) ∧
    ∀ j, ((s.next w t (.propagate i)).heap.ses j).myQ = (s.heap.ses j).myQ := by
  obtain hidle | ⟨g, hm, hf⟩ := s.heap.propagate_cases i
  · simp [next, Heap.propagate_idle hidle]
  · have hload := Heap.sameButLoad_updateTgCfsLoad (i := i) (g := g)
      (h := (s.heap.flagsMoved i g).updateTgCfsUtil w i g)
    simp only [next, Heap.propagate_fired hm hf, hload.cfs_clock, hload.se_clock, hload.cfsRq,
      hload.myQ]
    unfold Heap.updateTgCfsUtil
    refine ⟨fun q => ?_, fun j => ?_, fun j => ?_, fun j => ?_⟩
    · by_cases hq : q = (s.heap.ses i).cfsRq
      · simp [hq, Heap.flagsMoved_ses, Heap.flagsMoved_cfs]
      · simp [hq, Heap.flagsMoved_ses, Heap.flagsMoved_cfs]
    all_goals by_cases hj : j = i
    all_goals simp [hj, Heap.flagsMoved_ses]

end AttachSys

end MSchedutil
