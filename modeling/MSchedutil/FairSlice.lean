import MSchedutil.FairReach
import Mathlib.Algebra.BigOperators.Ring.List

/-! The slices of `sched_slice`: no entity gets more than its part of the period by weight, and
together the entities of a queue get no more than the period. -/

namespace MSchedutil

open Word Reciprocal

theorem scaleLoadDown_mono {v w : Nat} (h : v ≤ w) : scaleLoadDown v ≤ scaleLoadDown w := by
  rw [scaleLoadDown, scaleLoadDown, Nat.shiftRight_eq_div_pow, Nat.shiftRight_eq_div_pow]
  exact Nat.div_le_div_right h

theorem sum_scaleLoadDown (ws : List Nat) : (ws.map scaleLoadDown).sum ≤ scaleLoadDown ws.sum := by
  induction ws with
  | nil => exact Nat.zero_le _
  | cons w ws ih =>
    rw [List.map_cons, List.sum_cons, List.sum_cons]
    refine (Nat.add_le_add_left ih _).trans ?_
    simp only [scaleLoadDown, Nat.shiftRight_eq_div_pow]
    exact Nat.div_add_div_le_add_div

theorem calcDelta_zero {x w : Nat} {lw : LoadWeight} (hw : scaleLoadDown w = 0) :
    calcDelta x w lw = 0 := by
  have hshrink : shrink 32 wmultShift 0 = (0, 0) := shrink_of_lt (by norm_num)
  simp [calcDelta, calcFactor, hw, hshrink, u32, u64, mulU64U32Shr]

/-- The part of one entity, by weight. -/
theorem calcDelta_le {x w : Nat} {lw : LoadWeight} (hinv : lw.invWeight = 0)
    (hfit : scaleLoadDown lw.weight ≤ wmultConst) (hw : w ≤ lw.weight) :
    calcDelta x w lw * scaleLoadDown lw.weight ≤ x * scaleLoadDown w := by
  rcases Nat.eq_zero_or_pos (scaleLoadDown lw.weight) with hzero | hpos
  · rw [hzero, Nat.mul_zero]
    exact Nat.zero_le _
  · have hd : lw.Divides := ⟨hpos, hfit⟩
    have hle := (scaleLoadDown_mono hw).trans hfit
    have hlt : scaleLoadDown w < 2 ^ 32 := by
      simp only [wmultConst] at hle
      omega
    obtain ⟨k, hk, hfact, -⟩ := calcFactor_eq (.inl hinv) hd hlt
    have hquot : calcDelta x w lw ≤
        x * (scaleLoadDown w * lw.updateInvWeight.invWeight / 2 ^ k) / 2 ^ (wmultShift - k) := by
      simp only [calcDelta, hfact, mulU64U32Shr, Nat.shiftRight_eq_div_pow]
      exact Nat.mod_le _ _
    exact (Nat.mul_le_mul_right _ hquot).trans
      (quotient_le (LoadWeight.of_updateInvWeight (.inl hinv) hd) x (scaleLoadDown w) k hk)

theorem calcDelta_le_self {x w : Nat} {lw : LoadWeight} (hinv : lw.invWeight = 0)
    (hfit : scaleLoadDown lw.weight ≤ wmultConst) (hw : w ≤ lw.weight) : calcDelta x w lw ≤ x := by
  rcases Nat.eq_zero_or_pos (scaleLoadDown lw.weight) with hzero | hpos
  · have hscaled := scaleLoadDown_mono hw
    rw [hzero] at hscaled
    rw [calcDelta_zero (Nat.le_zero.mp hscaled)]
    exact Nat.zero_le x
  · have hpart := calcDelta_le (x := x) hinv hfit hw
    exact Nat.le_of_mul_le_mul_right
      (hpart.trans (Nat.mul_le_mul_left x (scaleLoadDown_mono hw))) hpos

/-- The parts of all entities of a queue. -/
theorem sum_calcDelta_le {x : Nat} {lw : LoadWeight} {ws : List Nat} (hinv : lw.invWeight = 0)
    (hfit : scaleLoadDown lw.weight ≤ wmultConst) (hws : ws.sum = lw.weight) :
    (ws.map fun w => calcDelta x w lw).sum ≤ x := by
  have hw : ∀ w ∈ ws, w ≤ lw.weight := fun w hmem => hws ▸ List.le_sum_of_mem hmem
  rcases Nat.eq_zero_or_pos (scaleLoadDown lw.weight) with hzero | hpos
  · have hnil : (ws.map fun w => calcDelta x w lw).sum = 0 := by
      rw [List.sum_eq_zero_iff]
      intro d hd
      obtain ⟨w, hmem, rfl⟩ := List.mem_map.mp hd
      have hscaled := scaleLoadDown_mono (hw w hmem)
      rw [hzero] at hscaled
      exact calcDelta_zero (Nat.le_zero.mp hscaled)
    rw [hnil]
    exact Nat.zero_le x
  · refine Nat.le_of_mul_le_mul_right ?_ hpos
    calc (ws.map fun w => calcDelta x w lw).sum * scaleLoadDown lw.weight
        = (ws.map fun w => calcDelta x w lw * scaleLoadDown lw.weight).sum := by
          rw [List.sum_map_mul_right]
      _ ≤ (ws.map fun w => x * scaleLoadDown w).sum :=
          List.sum_le_sum fun w hmem => calcDelta_le hinv hfit (hw w hmem)
      _ = x * (ws.map scaleLoadDown).sum := by rw [List.sum_map_mul_left]
      _ ≤ x * scaleLoadDown ws.sum := Nat.mul_le_mul_left x (sum_scaleLoadDown ws)
      _ = x * scaleLoadDown lw.weight := by rw [hws]

namespace FairRq

variable {g : Groups} {t : FairTunables} {cpu : Nat} {inputs : Nat → ShareInputs} {s : FairRq}

/-- No weight is too large for the reciprocal of the queue, counting one that is about to join. -/
def Fits (g : Groups) (s : FairRq) : Prop :=
  ∀ e, scaleLoadDown ((s.cfs (s.cfsRqOf g e)).load.weight + (s.ses e).load.weight) ≤ wmultConst

theorem sliceLevel_le (hs : (s.shape g t).Queues) (h : s.Ranked g) (hfit : s.Fits g) (x : Nat)
    (e : Ent) : s.sliceLevel g x e ≤ x := by
  simp only [sliceLevel]
  split
  · rename_i hon
    have hload := hs.load (s.cfsRqOf g e)
    have hw : (s.ses e).load.weight ≤ (s.cfs (s.cfsRqOf g e)).load.weight :=
      (List.le_sum_of_mem (List.mem_map_of_mem (hs.mem_home hon))).trans_eq hload.symm
    exact calcDelta_le_self (h.fresh _) ((scaleLoadDown_mono (Nat.le_add_right _ _)).trans (hfit e)) hw
  · exact calcDelta_le_self rfl (hfit e) (Nat.le_add_left _ _)

theorem foldl_sliceLevel_le (hs : (s.shape g t).Queues) (h : s.Ranked g) (hfit : s.Fits g)
    (es : List Ent) (x : Nat) : es.foldl (s.sliceLevel g) x ≤ x := by
  induction es generalizing x with
  | nil => exact le_rfl
  | cons e es ih => exact (ih _).trans (sliceLevel_le hs h hfit x e)

theorem twoTasks_weight : ∀ e, ((twoTasks true).ses e).load.weight = nice0Load
  | .task 0 => rfl
  | .task 1 => rfl
  | .task (_ + 2) => rfl
  | .group 0 => rfl
  | .group 1 => rfl
  | .group (_ + 2) => rfl

theorem twoTasks_home :
    ∀ e, (twoTasks true).cfsRqOf oneGroup e = 0 ∨ (twoTasks true).cfsRqOf oneGroup e = 1
  | .task 0 => .inl rfl
  | .task 1 => .inr rfl
  | .task (_ + 2) => .inl rfl
  | .group _ => .inl rfl

theorem twoTasks_fits : (twoTasks true).Fits oneGroup := by
  have hroot : ((twoTasks true).cfs 0).load.weight = 2 * nice0Load := rfl
  have hgroup : ((twoTasks true).cfs 1).load.weight = nice0Load := rfl
  intro e
  rw [twoTasks_weight]
  rcases twoTasks_home e with he | he
  · rw [he, hroot]
    decide
  · rw [he, hgroup]
    decide

end FairRq

end MSchedutil
