import MSchedutil.CfsRq

/-! The runqueue operations seen from one signal: every operation does the same to
each of the six, and to the four tracked ones only under the flag. -/

namespace MSchedutil

open Word

def Removed.amount (r : Removed) : Track → Nat
  | .util => r.util
  | .utilFast => r.utilFast
  | .coreUtil => r.coreUtil
  | .memoryUtil => r.memoryUtil
  | .coreUtilFast => r.coreUtilFast
  | .memoryUtilFast => r.memoryUtilFast

/-- Whether the operations maintain a signal. -/
def Track.active (k : Track) (pemt : Bool) : Bool := pemt || !k.tracked

@[simp] theorem Track.active_true (k : Track) : k.active true = true := rfl

namespace SchedAvg

variable (pemt : Bool) (cfs se group parent : SchedAvg) (k : Track)

theorem signal_attach : (cfs.attach pemt se).signal k =
    if k.active pemt then (cfs.signal k).plus32 (se.signal k) else cfs.signal k := by
  cases k <;> cases pemt <;> rfl

theorem signal_detach : (cfs.detach pemt se).signal k =
    if k.active pemt then (cfs.signal k).minus32 (se.signal k) else cfs.signal k := by
  cases k <;> cases pemt <;> rfl

theorem signal_drain (r : Removed) : (cfs.drain pemt r).signal k =
    if k.active pemt then (cfs.signal k).drain32 k.max (r.amount k) else cfs.signal k := by
  cases k <;> cases pemt <;> rfl

theorem signal_propagateSelf : (propagateSelf pemt group se).signal k =
    if k.active pemt then .propagateSelf k.max (group.signal k) (se.signal k)
    else se.signal k := by
  cases k <;> cases pemt <;> rfl

theorem signal_propagateParent : (propagateParent pemt group se parent).signal k =
    if k.active pemt then .propagateParent k.max (group.signal k) (se.signal k) (parent.signal k)
    else parent.signal k := by
  cases k <;> cases pemt <;> rfl

@[simp] theorem attach_lastUpdateTime :
    (cfs.attach pemt se).lastUpdateTime = cfs.lastUpdateTime := by cases pemt <;> rfl

@[simp] theorem detach_lastUpdateTime :
    (cfs.detach pemt se).lastUpdateTime = cfs.lastUpdateTime := by cases pemt <;> rfl

@[simp] theorem drain_lastUpdateTime (r : Removed) :
    (cfs.drain pemt r).lastUpdateTime = cfs.lastUpdateTime := by cases pemt <;> rfl

@[simp] theorem propagateSelf_lastUpdateTime :
    (propagateSelf pemt group se).lastUpdateTime = se.lastUpdateTime := by cases pemt <;> rfl

@[simp] theorem propagateParent_lastUpdateTime :
    (propagateParent pemt group se parent).lastUpdateTime = parent.lastUpdateTime := by
  cases pemt <;> rfl

end SchedAvg

theorem Removed.amount_add (pemt : Bool) (r : Removed) (se : SchedAvg) (k : Track) :
    (r.add pemt se).amount k =
      if k.active pemt then u64 (r.amount k + (se.signal k).avg) else r.amount k := by
  cases k <;> cases pemt <;> rfl

theorem Removed.amount_taken (pemt : Bool) (r : Removed) (k : Track) :
    (r.taken pemt).amount k = if k.active pemt then 0 else r.amount k := by
  cases k <;> cases pemt <;> rfl

theorem Removed.propagates_mono {pemt : Bool} {r : Removed} (h : r.propagates false) :
    r.propagates pemt := by
  unfold propagates at h ⊢
  cases pemt <;> simp_all

theorem Removed.removedUtil_mono (pemt : Bool) {r : Removed} (h : r.removedUtil false) :
    r.removedUtil pemt := by
  unfold removedUtil at h ⊢
  cases pemt <;> simp_all

namespace Heap

variable (w : World) (h : Heap)

theorem cfsRqUtilChange_of_not_root {q : Nat} (hq : (h.cfs q).isRoot = false) :
    h.cfsRqUtilChange q = h := by
  unfold cfsRqUtilChange
  rw [hq]
  rfl

@[simp] theorem cfsRqUtilChange_ses (q : Nat) : (h.cfsRqUtilChange q).ses = h.ses := by
  unfold cfsRqUtilChange
  split <;> rfl

@[simp] theorem cfsRqUtilChange_cfs (q : Nat) : (h.cfsRqUtilChange q).cfs = h.cfs := by
  unfold cfsRqUtilChange
  split <;> rfl

@[simp] theorem setSe_self (i : Nat) : h.setSe i (h.ses i) = h := by
  simp [setSe]

@[simp] theorem setCfs_self (q : Nat) : h.setCfs q (h.cfs q) = h := by
  simp [setCfs]

@[simp] theorem setSe_ses (i : Nat) (se : SchedEntity) :
    (h.setSe i se).ses = Function.update h.ses i se := rfl

@[simp] theorem setSe_cfs (i : Nat) (se : SchedEntity) : (h.setSe i se).cfs = h.cfs := rfl

@[simp] theorem setCfs_cfs (q : Nat) (cfs : CfsRq) :
    (h.setCfs q cfs).cfs = Function.update h.cfs q cfs := rfl

@[simp] theorem setCfs_ses (q : Nat) (cfs : CfsRq) : (h.setCfs q cfs).ses = h.ses := rfl

variable {h}

theorem forall_setSe {P : Nat → SchedEntity → Prop} {i : Nat} {se : SchedEntity}
    (hi : P i se) (hrest : ∀ j, P j (h.ses j)) : ∀ j, P j ((h.setSe i se).ses j) :=
  (Function.forall_update_iff h.ses P).mpr ⟨hi, fun j _ => hrest j⟩

theorem forall_setCfs {P : Nat → CfsRq → Prop} {q : Nat} {cfs : CfsRq}
    (hq : P q cfs) (hrest : ∀ p, P p (h.cfs p)) : ∀ p, P p ((h.setCfs q cfs).cfs p) :=
  (Function.forall_update_iff h.cfs P).mpr ⟨hq, fun p _ => hrest p⟩

end Heap

theorem elapsed_self (t : Nat) : elapsed t t = .tooShort := by
  have hz : sub64 t t = 0 := by
    unfold sub64 u64
    omega
  simp [elapsed, hz, s64, u64]

namespace UpdateCall

theorem updateLoadAvg_now (c : UpdateCall) {sa : SchedAvg} (h : sa.lastUpdateTime = c.now) :
    c.updateLoadAvg sa = (sa, false) := by
  unfold updateLoadAvg
  rw [h, elapsed_self]

end UpdateCall

namespace Heap

variable {w : World} {h : Heap} {t : Nat}

theorem updateEntityLoadAvg_now {i : Nat} (hi : (h.ses i).avg.lastUpdateTime = t)
    (cpu weight : Nat) (running : Bool) :
    h.updateEntityLoadAvg w t cpu weight running i = (h, false) := by
  unfold updateEntityLoadAvg
  rw [hi, elapsed_self]
  dsimp only
  rw [UpdateCall.updateLoadAvg_now _ hi]
  exact congrArg (·, false) (setSe_self h i)

theorem updateCfsLoadAvg_now {q : Nat} (hq : (h.cfs q).avg.lastUpdateTime = t) :
    h.updateCfsLoadAvg w t q = (h, false) := by
  unfold updateCfsLoadAvg
  dsimp only
  rw [hq, elapsed_self]
  dsimp only
  rw [UpdateCall.updateLoadAvg_now _ hq, UpdateCall.updateLoadAvg_now _ hq]
  exact congrArg (·, false) (setCfs_self h q)

end Heap

namespace Heap

variable (h : Heap)

/-- `set_tg_cfs_propagate`, and the clearing that goes with it. -/
def setPropagate (b : Bool) (q : Nat) (h : Heap) : Heap :=
  h.setCfs q { h.cfs q with propagateAvg := b }

/-- The pending propagation of a group is handed up to the runqueue of its entity. -/
def flagsMoved (i g : Nat) (h : Heap) : Heap :=
  (h.setPropagate false g).setPropagate true (h.ses i).cfsRq

theorem flagsMoved_ses (i g : Nat) : (h.flagsMoved i g).ses = h.ses := rfl

theorem flagsMoved_cfs (i g q : Nat) : ((h.flagsMoved i g).cfs q).avg = (h.cfs q).avg ∧
    ((h.flagsMoved i g).cfs q).removed = (h.cfs q).removed := by
  by_cases hq : q = (h.ses i).cfsRq <;> by_cases hg : q = g <;>
    simp [flagsMoved, setPropagate, Function.update_apply, hq, hg]
  all_goals split <;> simp_all

theorem propagate_idle {w : World} {h : Heap} {i : Nat}
    (hidle : ∀ g, (h.ses i).myQ = some g → (h.cfs g).propagateAvg = false) :
    h.propagateEntityLoadAvg w i = (h, false) := by
  unfold propagateEntityLoadAvg
  cases hm : (h.ses i).myQ with
  | none => rfl
  | some g => simp [hidle g hm]

theorem propagate_fired {w : World} {h : Heap} {i g : Nat} (hm : (h.ses i).myQ = some g)
    (hf : (h.cfs g).propagateAvg = true) : h.propagateEntityLoadAvg w i =
      (((h.flagsMoved i g).updateTgCfsUtil w i g).updateTgCfsLoad i g, true) := by
  unfold propagateEntityLoadAvg
  simp [hm, hf, flagsMoved, setPropagate]

/-- Either nothing is pending for the group of an entity, or the group is known. -/
theorem propagate_cases (i : Nat) :
    (∀ g, (h.ses i).myQ = some g → (h.cfs g).propagateAvg = false) ∨
      ∃ g, (h.ses i).myQ = some g ∧ (h.cfs g).propagateAvg = true := by
  by_cases hfire : ∃ g, (h.ses i).myQ = some g ∧ (h.cfs g).propagateAvg = true
  · exact .inr hfire
  · refine .inl fun g hm => ?_
    by_contra hne
    exact hfire ⟨g, hm, by simpa using hne⟩

end Heap

end MSchedutil
