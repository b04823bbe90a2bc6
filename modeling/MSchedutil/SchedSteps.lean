import MSchedutil.SchedCore

/-! What the operations of the fair class do to the fields they share: the equation of
the task update, the clocks it leaves, and the frame of everything else. -/

namespace MSchedutil

open Word Transition

theorem elapsed_of_le {now last : Nat} (h : last ≤ now) (hnow : now < 2 ^ 63) :
    elapsed now last = if (now - last) / 1024 = 0 then .tooShort else .units ((now - last) / 1024) := by
  have hsub : sub64 now last = now - last := sub64_of_le h (by omega)
  unfold elapsed
  dsimp only
  rw [hsub, s64_of_lt (by omega), if_neg (by omega), Nat.shiftRight_eq_div_pow]

theorem elapsed_backwards {now last : Nat} (h : now < last) (hlast : last < 2 ^ 63) :
    elapsed now last = .backwards := by
  have hneg : s64 (sub64 now last) < 0 := by
    rw [← not_le, s64_nonneg_iff]
    unfold sub64 u64
    omega
  unfold elapsed
  dsimp only
  rw [if_pos hneg]

/-- An update leaves the clock alone for less than a unit, or sets it. -/
theorem clockAfter_cases {now last : Nat} (hnow : now < 2 ^ 63) (hlast : last < 2 ^ 63) :
    (clockAfter now last = last ∧ last ≤ now ∧ now < last + 1024) ∨ clockAfter now last = now := by
  unfold clockAfter
  rcases le_or_gt last now with hle | hgt
  · rw [elapsed_of_le hle hnow]
    by_cases hshort : (now - last) / 1024 = 0
    · rw [if_pos hshort, if_pos rfl]
      exact .inl ⟨rfl, hle, by omega⟩
    · rw [if_neg hshort, if_neg (by simp)]
      exact .inr rfl
  · rw [elapsed_backwards hgt hlast, if_neg (by simp)]
    exact .inr rfl

namespace SchedCore

variable (hw : Hardware) (here i : Nat) (s : SchedCore)

def isCurr (s : SchedCore) (i : Nat) : Bool := decide (s.curr (s.tasks i).cpu = some i)

/-- At least one unit has passed since the task's last update. -/
def overdue (s : SchedCore) (i : Nat) : Bool :=
  match elapsed (s.clock (s.tasks i).cpu) (s.tasks i).avg.lastUpdateTime with
  | .units _ => true
  | _ => false

/-- The task's `sched_avg` after a call. -/
def avgAfter (hw : Hardware) (here i : Nat) (s : SchedCore) : SchedAvg :=
  let se := s.tasks i
  let ratio := if hw.pemt && s.isCurr i then pmuRatio (s.prev here) (hw.read here s.now) else 0
  let c : UpdateCall := ⟨s.clock se.cpu, if se.onRq then scaleLoadDown se.weight else 0,
    s.isCurr i, hw.pemt, ratio, hw.scaleFreq se.cpu, hw.scaleCpu se.cpu⟩
  (c.updateLoadAvg (c.recorded se.avg)).1

theorem updateTaskAvg_eq : s.updateTaskAvg hw here i =
    { s with
      tasks := Function.update s.tasks i { s.tasks i with avg := s.avgAfter hw here i }
      prev := if hw.pemt && s.isCurr i && s.overdue i
        then Function.update s.prev here (hw.read here s.now) else s.prev
      sampledAt := if hw.pemt && s.isCurr i && s.overdue i
        then Function.update s.sampledAt here s.now else s.sampledAt
      cycles := if hw.cycle && s.isCurr i && s.overdue i
        then s.cycles.chargeExec (s.tasks i).cpu (s.clock (s.tasks i).cpu)
          (s.tasks i).avg.lastUpdateTime
          (sub64 (s.clock (s.tasks i).cpu) (s.tasks i).avg.lastUpdateTime >>> 10)
        else s.cycles
      charges := if hw.pemt && s.isCurr i && s.overdue i
        then s.charges ++ [⟨here, (s.tasks i).cpu, i, (s.tasks i).avg.lastUpdateTime, s.now,
          s.prev here, s.since (s.tasks i).cpu⟩]
        else s.charges
      since := if hw.pemt && s.isCurr i && s.overdue i
        then Function.update s.since (s.tasks i).cpu s.now else s.since
      touched := if s.isCurr i
        then Function.update s.touched (s.tasks i).cpu (s.clock (s.tasks i).cpu) else s.touched
      calls := Function.update s.calls (s.tasks i).cpu (s.calls (s.tasks i).cpu + 1) } := by
  unfold updateTaskAvg avgAfter overdue isCurr
  cases hel : elapsed (s.clock (s.tasks i).cpu) (s.tasks i).avg.lastUpdateTime with
  | units delta =>
    have hdelta : delta = sub64 (s.clock (s.tasks i).cpu) (s.tasks i).avg.lastUpdateTime >>> 10 := by
      unfold elapsed at hel
      dsimp only at hel
      split at hel
      · cases hel
      · split at hel
        · cases hel
        · exact (Elapsed.units.inj hel).symm
    simp only [hel, ← hdelta]
    cases hw.pemt <;> cases hw.cycle <;> cases decide (s.curr (s.tasks i).cpu = some i) <;> rfl
  | _ =>
    simp only [hel]
    cases hw.pemt <;> cases hw.cycle <;> cases decide (s.curr (s.tasks i).cpu = some i) <;> rfl

theorem avgAfter_lastUpdateTime : (s.avgAfter hw here i).lastUpdateTime =
    clockAfter (s.clock (s.tasks i).cpu) (s.tasks i).avg.lastUpdateTime := by
  unfold avgAfter clockAfter
  dsimp only
  rw [UpdateCall.updateLoadAvg_lastUpdateTime, UpdateCall.recorded_lastUpdateTime]

/-- With a clock that has not passed the task's, an overdue task is a unit behind. -/
theorem overdue_iff {s : SchedCore} {i : Nat}
    (hle : (s.tasks i).avg.lastUpdateTime ≤ s.clock (s.tasks i).cpu)
    (hclock : s.clock (s.tasks i).cpu < 2 ^ 63) :
    s.overdue i = true ↔ 1024 ≤ s.clock (s.tasks i).cpu - (s.tasks i).avg.lastUpdateTime := by
  unfold overdue
  rw [elapsed_of_le hle hclock]
  split
  · rename_i h
    split at h
    · cases h
    · simp only [true_iff]
      omega
  · rename_i h
    split at h
    · simp only [Bool.false_eq_true, false_iff]
      omega
    · exact absurd rfl (h _)

theorem clockAfter_of_overdue {s : SchedCore} {i : Nat} (h : s.overdue i = true) :
    clockAfter (s.clock (s.tasks i).cpu) (s.tasks i).avg.lastUpdateTime =
      s.clock (s.tasks i).cpu := by
  unfold overdue at h
  unfold clockAfter
  rw [if_neg]
  intro hshort
  rw [hshort] at h
  cases h

theorem clockAfter_of_not_overdue {s : SchedCore} {i : Nat}
    (hle : (s.tasks i).avg.lastUpdateTime ≤ s.clock (s.tasks i).cpu)
    (hclock : s.clock (s.tasks i).cpu < 2 ^ 63) (h : s.overdue i = false) :
    clockAfter (s.clock (s.tasks i).cpu) (s.tasks i).avg.lastUpdateTime =
      (s.tasks i).avg.lastUpdateTime := by
  have hshort : ¬ 1024 ≤ s.clock (s.tasks i).cpu - (s.tasks i).avg.lastUpdateTime := by
    rw [← overdue_iff hle hclock, h]
    exact Bool.false_ne_true
  unfold clockAfter
  have hunits : (s.clock (s.tasks i).cpu - (s.tasks i).avg.lastUpdateTime) / 1024 = 0 := by omega
  rw [elapsed_of_le hle hclock, if_pos (if_pos hunits)]

section Fields

variable {hw : Hardware} {here i : Nat} {s : SchedCore}

/-- `update_load_avg` without the runqueue's own average. -/
def updateTask (hw : Hardware) (here i : Nat) (s : SchedCore) : SchedCore :=
  if (s.tasks i).avg.lastUpdateTime ≠ 0 then s.updateTaskAvg hw here i else s

theorem updateLoadAvg_eq : s.updateLoadAvg hw here i =
    { s.updateTask hw here i with
      cfsClock := Function.update s.cfsClock (s.tasks i).cfsRq
        (clockAfter (s.clock (s.tasks i).cpu) (s.cfsClock (s.tasks i).cfsRq)) } := by
  unfold updateLoadAvg updateTask
  dsimp only
  split
  · rw [updateTaskAvg_eq]
  · rfl

theorem updateLoadAvg_curr : (s.updateLoadAvg hw here i).curr = s.curr := by
  rw [updateLoadAvg_eq, updateTask, updateTaskAvg_eq]
  split <;> rfl

theorem updateLoadAvg_now : (s.updateLoadAvg hw here i).now = s.now := by
  rw [updateLoadAvg_eq, updateTask, updateTaskAvg_eq]
  split <;> rfl

theorem updateLoadAvg_clock : (s.updateLoadAvg hw here i).clock = s.clock := by
  rw [updateLoadAvg_eq, updateTask, updateTaskAvg_eq]
  split <;> rfl

theorem updateLoadAvg_other {j : Nat} (hj : j ≠ i) :
    (s.updateLoadAvg hw here i).tasks j = s.tasks j := by
  rw [updateLoadAvg_eq, updateTask, updateTaskAvg_eq]
  split
  · exact Function.update_of_ne hj _ _
  · rfl

theorem updateLoadAvg_task (hw : Hardware) (here i : Nat) (s : SchedCore) :
    ∃ sa, (s.updateLoadAvg hw here i).tasks i = { s.tasks i with avg := sa } ∧
    sa.lastUpdateTime = if (s.tasks i).avg.lastUpdateTime = 0 then 0
      else clockAfter (s.clock (s.tasks i).cpu) (s.tasks i).avg.lastUpdateTime := by
  rw [updateLoadAvg_eq, updateTask, updateTaskAvg_eq]
  by_cases h : (s.tasks i).avg.lastUpdateTime = 0
  · exact ⟨(s.tasks i).avg, by simp [h], by simp [h]⟩
  · exact ⟨s.avgAfter hw here i, by simp [h], by simp [h, avgAfter_lastUpdateTime]⟩

end Fields

end SchedCore

end MSchedutil
