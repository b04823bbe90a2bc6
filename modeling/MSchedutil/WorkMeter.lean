import MSchedutil.Meter
import MSchedutil.SchedClocks

/-! The work core as a meter of running time: every event of the fair class is some steps of
the meter, and a settlement finds its account. -/

namespace MSchedutil

open Word Transition Relation Metering

namespace SchedCore

variable {hw : Hardware} {s : SchedCore} {here i : Nat}

/-- What the cycle tracking keeps of the work core, in units of 1024 ns. -/
def meter (s : SchedCore) : Meter where
  clock := s.clock workCore
  clear := s.cycles.execClearTime workCore
  exec := s.cycles.execTime workCore
  last := (s.curr workCore).map fun i => (s.tasks i).avg.lastUpdateTime
  running := s.fairRunning workCore
  touched := s.touched workCore
  late := s.late workCore
  calls := s.calls workCore
  idle := s.idle workCore
  since := s.windowStart

theorem meter_last (hi : s.curr workCore = some i) :
    s.meter.last = some (s.tasks i).avg.lastUpdateTime := by
  unfold meter
  dsimp only
  rw [hi]
  rfl

theorem fairRunning_eq {cpu : Nat} (hi : s.curr cpu = some i) : s.fairRunning cpu = (s.tasks i).onRq := by
  unfold fairRunning
  rw [hi]

theorem fairRunning_congr {s' : SchedCore} {cpu : Nat} (hcurr : s'.curr cpu = s.curr cpu)
    (hon : ∀ i, s.curr cpu = some i → (s'.tasks i).onRq = (s.tasks i).onRq) :
    s'.fairRunning cpu = s.fairRunning cpu := by
  unfold fairRunning
  rw [hcurr]
  cases hi : s.curr cpu with
  | none => rfl
  | some i => exact hon i hi

theorem updateLoadAvg_fairRunning (cpu : Nat) :
    (s.updateLoadAvg hw here i).fairRunning cpu = s.fairRunning cpu :=
  fairRunning_congr (by rw [updateLoadAvg_curr]) fun j _ => (updateLoadAvg_same j).1

/-- Time goes by on every CPU, and the meter sees that of the work core. -/
theorem meter_updateRqClock {cpu t : Nat} (h : s.Clocked) (ht : s.InTime t) :
    ReflTransGen (Meter.Step 1024) s.meter (s.updateRqClock cpu t).meter := by
  by_cases hcpu : cpu = workCore
  · subst hcpu
    have hstep := Meter.Step.advance (u := 1024) s.meter t ((h.clock_le workCore).trans ht.1)
    have hmeter : (s.updateRqClock workCore t).meter = { s.meter with
        clock := t
        idle := s.meter.idle + if s.meter.running then 0 else t - s.meter.clock } := by
      unfold meter updateRqClock
      simp only [Function.update_self]
      rfl
    rw [hmeter]
    exact .single hstep
  · have hmeter : (s.updateRqClock cpu t).meter = s.meter := by
      unfold meter updateRqClock
      simp only [Function.update_of_ne (Ne.symm hcpu)]
      rfl
    rw [hmeter]

/-- A task update, field by field, as far as the meter looks. -/
structure Updated (hw : Hardware) (i : Nat) (s s' : SchedCore) : Prop where
  clock : s'.clock = s.clock
  curr : s'.curr = s.curr
  running : s'.fairRunning workCore = s.fairRunning workCore
  late : s'.late = s.late
  idle : s'.idle = s.idle
  since : s'.windowStart = s.windowStart
  other : ∀ j, j ≠ i → s'.tasks j = s.tasks j
  last : (s'.tasks i).avg.lastUpdateTime = if (s.tasks i).avg.lastUpdateTime = 0 then 0
    else clockAfter (s.clock (s.tasks i).cpu) (s.tasks i).avg.lastUpdateTime
  calls : s'.calls = if (s.tasks i).avg.lastUpdateTime = 0 then s.calls
    else Function.update s.calls (s.tasks i).cpu (s.calls (s.tasks i).cpu + 1)
  touched : s'.touched = if (s.tasks i).avg.lastUpdateTime ≠ 0 ∧ s.isCurr i = true
    then Function.update s.touched (s.tasks i).cpu (s.clock (s.tasks i).cpu) else s.touched
  clear : s'.cycles.execClearTime = s.cycles.execClearTime
  exec : s'.cycles.execTime =
    if (s.tasks i).avg.lastUpdateTime ≠ 0 ∧ hw.cycle = true ∧ s.isCurr i = true ∧ s.overdue i = true
    then Function.update s.cycles.execTime (s.tasks i).cpu (s.cycles.execTime (s.tasks i).cpu +
      (if (s.tasks i).avg.lastUpdateTime > s.cycles.execClearTime (s.tasks i).cpu
        then sub64 (s.clock (s.tasks i).cpu) (s.tasks i).avg.lastUpdateTime >>> 10
        else sub64 (s.clock (s.tasks i).cpu) (s.cycles.execClearTime (s.tasks i).cpu) >>> 10))
    else s.cycles.execTime

theorem updateLoadAvg_updated (hw : Hardware) (here i : Nat) (s : SchedCore) :
    Updated hw i s (s.updateLoadAvg hw here i) := by
  have hlast : ((s.updateLoadAvg hw here i).tasks i).avg.lastUpdateTime =
      if (s.tasks i).avg.lastUpdateTime = 0 then 0
      else clockAfter (s.clock (s.tasks i).cpu) (s.tasks i).avg.lastUpdateTime := by
    obtain ⟨sa, hsa, hsa'⟩ := updateLoadAvg_task hw here i s
    rw [hsa]
    exact hsa'
  refine ⟨updateLoadAvg_clock, updateLoadAvg_curr, updateLoadAvg_fairRunning _, ?_, ?_, ?_,
    fun j hj => updateLoadAvg_other hj, hlast, ?_, ?_, ?_, ?_⟩
  all_goals rw [updateLoadAvg_eq, updateTask, updateTaskAvg_eq]
  all_goals by_cases hzero : (s.tasks i).avg.lastUpdateTime = 0
  all_goals simp only [hzero, ne_eq, not_true_eq_false, not_false_eq_true, if_false, if_true, true_and,
    false_and]
  · cases hw.cycle <;> cases s.isCurr i <;> cases s.overdue i <;> rfl
  · cases hw.cycle <;> cases s.isCurr i <;> cases s.overdue i <;> simp [CycleStats.chargeExec]

/-- The account of the work core goes back to a time it has had. -/
structure Metered (s : SchedCore) : Prop where
  clocked : s.Clocked
  clear_le : s.cycles.execClearTime workCore ≤ s.clock workCore

theorem Metered.last_le (h : s.Metered) {last : Nat} (hl : s.meter.last = some last) :
    last ≤ s.meter.clock := by
  unfold meter at hl
  dsimp only at hl
  obtain ⟨i, hi, rfl⟩ := Option.map_eq_some_iff.mp hl
  exact h.clocked.curr_le workCore i hi

theorem Updated.meter_eq {s' : SchedCore} (hu : Updated hw i s s') : s'.meter = { s.meter with
    exec := s'.cycles.execTime workCore
    last := (s.curr workCore).map fun j => (s'.tasks j).avg.lastUpdateTime
    touched := s'.touched workCore
    calls := s'.calls workCore } := by
  unfold meter
  rw [hu.clock, hu.curr, hu.running, hu.late, hu.idle, hu.since, hu.clear]

theorem Updated.last_of_ne {s' : SchedCore} (hu : Updated hw i s s') (hi : s.curr workCore ≠ some i) :
    ((s.curr workCore).map fun j => (s'.tasks j).avg.lastUpdateTime) = s.meter.last := by
  unfold meter
  dsimp only
  cases hj : s.curr workCore with
  | none => rfl
  | some j =>
    have hji : j ≠ i := by
      rintro rfl
      exact hi hj
    rw [Option.map_some, Option.map_some, hu.other j hji]

theorem Updated.meter_detached {s' : SchedCore} (hu : Updated hw i s s')
    (hzero : (s.tasks i).avg.lastUpdateTime = 0) : s'.meter = s.meter := by
  have hexec := hu.exec
  have htouched := hu.touched
  have hcalls := hu.calls
  simp only [hzero, ne_eq, not_true_eq_false, false_and, if_false, if_true] at hexec htouched hcalls
  have hlast : ((s.curr workCore).map fun j => (s'.tasks j).avg.lastUpdateTime) = s.meter.last := by
    by_cases hi : s.curr workCore = some i
    · have hsame := hu.last
      rw [if_pos hzero] at hsame
      rw [hi, Option.map_some, meter_last hi, hsame, hzero]
    · exact hu.last_of_ne hi
  rw [hu.meter_eq, hexec, htouched, hcalls, hlast]
  rfl

theorem Updated.meter_elsewhere {s' : SchedCore} (hu : Updated hw i s s') (h : s.Clocked)
    (hcpu : (s.tasks i).cpu ≠ workCore) : s'.meter = s.meter := by
  have hi : s.curr workCore ≠ some i := fun hi => hcpu (h.seat workCore i hi)
  have hother : ∀ f : Nat → Nat, ∀ v, Function.update f (s.tasks i).cpu v workCore = f workCore :=
    fun _ _ => Function.update_of_ne (Ne.symm hcpu) _ _
  have hexec : s'.cycles.execTime workCore = s.cycles.execTime workCore := by
    rw [hu.exec]
    split
    · exact hother _ _
    · rfl
  have htouched : s'.touched workCore = s.touched workCore := by
    rw [hu.touched]
    split
    · exact hother _ _
    · rfl
  have hcalls : s'.calls workCore = s.calls workCore := by
    rw [hu.calls]
    split
    · rfl
    · exact hother _ _
  rw [hu.meter_eq, hexec, htouched, hcalls, hu.last_of_ne hi]
  rfl

/-- A task of the work core that does not run is looked at and no more. -/
theorem Updated.meter_look {s' : SchedCore} (hu : Updated hw i s s')
    (hzero : (s.tasks i).avg.lastUpdateTime ≠ 0) (hcpu : (s.tasks i).cpu = workCore)
    (hi : s.curr workCore ≠ some i) : s'.meter = { s.meter with calls := s.meter.calls + 1 } := by
  have hcurr : s.isCurr i = false := decide_eq_false (by rw [hcpu]; exact hi)
  have hexec := hu.exec
  have htouched := hu.touched
  have hcalls := hu.calls
  simp only [hcurr, Bool.false_eq_true, false_and, and_false, if_false] at hexec htouched
  rw [if_neg hzero, hcpu] at hcalls
  rw [hu.meter_eq, hexec, htouched, hcalls, hu.last_of_ne hi, Function.update_self]
  rfl

theorem Updated.meter_wait {s' : SchedCore} (hu : Updated hw i s s') (h : s.Clocked)
    (hzero : (s.tasks i).avg.lastUpdateTime ≠ 0) (hi : s.curr workCore = some i)
    (hdue : s.overdue i = false) :
    s'.meter = { s.meter with calls := s.meter.calls + 1, touched := s.meter.clock } := by
  have hcpu := h.seat workCore i hi
  have hcurr : s.isCurr i = true := decide_eq_true (by rw [hcpu]; exact hi)
  have hexec := hu.exec
  have htouched := hu.touched
  have hcalls := hu.calls
  have hlast := hu.last
  simp only [hdue, Bool.false_eq_true, and_false, if_false] at hexec
  rw [if_pos ⟨hzero, hcurr⟩, hcpu] at htouched
  rw [if_neg hzero, hcpu] at hcalls
  rw [if_neg hzero, clockAfter_of_not_overdue (by rw [hcpu]; exact h.curr_le workCore i hi)
    (h.clock_lt _) hdue] at hlast
  rw [hu.meter_eq, hexec, htouched, hcalls, Function.update_self, Function.update_self, hi,
    Option.map_some, hlast, ← meter_last hi]
  rfl

/-- The running task is charged from its mark on, or from where the account begins. -/
theorem Updated.meter_charge {s' : SchedCore} (hu : Updated hw i s s') (hc : hw.cycle = true)
    (h : s.Metered) (hzero : (s.tasks i).avg.lastUpdateTime ≠ 0) (hi : s.curr workCore = some i)
    (hdue : s.overdue i = true) :
    s'.meter = { s.meter with
      exec := s.meter.exec + (s.meter.clock - max (s.tasks i).avg.lastUpdateTime s.meter.clear) / 1024
      last := some s.meter.clock
      calls := s.meter.calls + 1
      touched := s.meter.clock } := by
  obtain ⟨hs, hclear⟩ := h
  have hcpu := hs.seat workCore i hi
  have hcurr : s.isCurr i = true := decide_eq_true (by rw [hcpu]; exact hi)
  have hle := hs.curr_le workCore i hi
  have hclock := hs.clock_lt workCore
  have hamount : (if (s.tasks i).avg.lastUpdateTime > s.cycles.execClearTime workCore
      then sub64 (s.clock workCore) (s.tasks i).avg.lastUpdateTime >>> 10
      else sub64 (s.clock workCore) (s.cycles.execClearTime workCore) >>> 10) =
      (s.clock workCore - max (s.tasks i).avg.lastUpdateTime
        (s.cycles.execClearTime workCore)) / 1024 := by
    split
    · rename_i hgt
      rw [sub64_of_le hle (by omega), Nat.shiftRight_eq_div_pow, max_eq_left hgt.le]
    · rename_i hngt
      rw [sub64_of_le hclear (by omega), Nat.shiftRight_eq_div_pow, max_eq_right (by omega)]
  have hexec := hu.exec
  have htouched := hu.touched
  have hcalls := hu.calls
  have hlast := hu.last
  rw [if_pos ⟨hzero, hc, hcurr, hdue⟩, hcpu, hamount] at hexec
  rw [if_pos ⟨hzero, hcurr⟩, hcpu] at htouched
  rw [if_neg hzero, hcpu] at hcalls
  rw [if_neg hzero, clockAfter_of_overdue hdue, hcpu] at hlast
  rw [hu.meter_eq, hexec, htouched, hcalls, Function.update_self, Function.update_self,
    Function.update_self, hi, Option.map_some, hlast]
  rfl

theorem meter_updateLoadAvg (hc : hw.cycle = true) (h : s.Metered) (here i : Nat) :
    ReflTransGen (Meter.Step 1024) s.meter (s.updateLoadAvg hw here i).meter := by
  have hu := updateLoadAvg_updated hw here i s
  by_cases hzero : (s.tasks i).avg.lastUpdateTime = 0
  · rw [hu.meter_detached hzero]
  · by_cases hcpu : (s.tasks i).cpu = workCore
    · by_cases hi : s.curr workCore = some i
      · have hle := h.clocked.curr_le workCore i hi
        have hiff := overdue_iff (by rw [hcpu]; exact hle) (h.clocked.clock_lt (s.tasks i).cpu)
        have hclock : s.meter.clock = s.clock workCore := rfl
        rw [hcpu] at hiff
        cases hdue : s.overdue i with
        | false =>
          rw [hdue] at hiff
          rw [hu.meter_wait h.clocked hzero hi hdue]
          refine .single (.wait _ _ (meter_last hi) ?_)
          have : ¬ 1024 ≤ s.clock workCore - (s.tasks i).avg.lastUpdateTime := by
            rw [← hiff]
            exact Bool.false_ne_true
          omega
        | true =>
          have hwhole := hiff.mp hdue
          rw [hu.meter_charge hc h hzero hi hdue]
          exact .single (.charge _ _ (meter_last hi) (by omega))
      · rw [hu.meter_look hzero hcpu hi]
        exact .single (.look _)
    · rw [hu.meter_elsewhere h.clocked hcpu]

theorem updateLoadAvg_touched (h : s.Clocked) (hi : s.curr workCore = some i)
    (hon : (s.tasks i).onRq = true) :
    (s.updateLoadAvg hw here i).meter.touched = (s.updateLoadAvg hw here i).meter.clock := by
  have hu := updateLoadAvg_updated hw here i s
  have hcpu := h.seat workCore i hi
  have hcurr : s.isCurr i = true := decide_eq_true (by rw [hcpu]; exact hi)
  have htouched := hu.touched
  rw [if_pos ⟨h.attached i hon, hcurr⟩, hcpu] at htouched
  unfold meter
  rw [htouched, hu.clock, Function.update_self]

theorem meter_unseat {cpu : Nat} (hlooked : cpu = workCore → s.meter.running = true →
    s.meter.touched = s.meter.clock) :
    ReflTransGen (Meter.Step 1024) s.meter (s.unseat cpu).meter := by
  by_cases hcpu : cpu = workCore
  · subst hcpu
    have hmeter : (s.unseat workCore).meter = { s.meter with last := none, running := false } := by
      unfold unseat meter fairRunning
      dsimp only
      rw [Function.update_self]
      rfl
    rw [hmeter]
    exact .single (.stop _ (hlooked rfl))
  · have hmeter : (s.unseat cpu).meter = s.meter := by
      unfold unseat meter fairRunning
      dsimp only
      rw [Function.update_of_ne (Ne.symm hcpu)]
    rw [hmeter]

theorem meter_putPrevEntity (hc : hw.cycle = true) (h : s.Metered) {cpu : Nat}
    (hi : s.curr cpu = some i) :
    ReflTransGen (Meter.Step 1024) s.meter (s.putPrevEntity hw cpu i).meter := by
  rw [putPrevEntity_eq]
  cases hon : (s.tasks i).onRq with
  | true =>
    rw [if_pos rfl]
    refine (meter_updateLoadAvg hc h cpu i).trans (meter_unseat fun hcpu _ => ?_)
    rw [hcpu] at hi ⊢
    exact updateLoadAvg_touched h.clocked hi hon
  | false =>
    rw [if_neg Bool.false_ne_true]
    refine meter_unseat fun hcpu hrun => ?_
    rw [hcpu] at hi
    have hidle : s.fairRunning workCore = false := (fairRunning_eq hi).trans hon
    exact absurd (hidle.symm.trans hrun) (by decide)

theorem meter_seatAt {cpu : Nat} (hnone : cpu = workCore → s.meter.last = none)
    (hon : (s.tasks i).onRq = true) (hle : (s.tasks i).avg.lastUpdateTime ≤ s.clock cpu)
    (hlt : s.clock cpu < (s.tasks i).avg.lastUpdateTime + 1024) :
    ReflTransGen (Meter.Step 1024) s.meter (s.seatAt cpu i).meter := by
  have hlate : (s.seatAt cpu i).late = if (s.tasks i).avg.lastUpdateTime = s.clock cpu then s.late
    else Function.update s.late cpu (s.late cpu + 1) := rfl
  by_cases hcpu : cpu = workCore
  · subst hcpu
    have hcurr : (s.seatAt workCore i).curr workCore = some i := by
      unfold seatAt
      dsimp only
      rw [Function.update_self]
    have hrun : (s.seatAt workCore i).fairRunning workCore = true := (fairRunning_eq hcurr).trans hon
    have htouched : (s.seatAt workCore i).touched workCore = s.clock workCore := by
      unfold seatAt
      dsimp only
      rw [Function.update_self]
    have hlate' : (s.seatAt workCore i).late workCore =
        if (s.tasks i).avg.lastUpdateTime = s.clock workCore then s.late workCore
        else s.late workCore + 1 := by
      rw [hlate]
      split
      · rfl
      · exact Function.update_self _ _ _
    have hmeter : (s.seatAt workCore i).meter = { s.meter with
        last := some (s.tasks i).avg.lastUpdateTime
        running := true
        touched := s.meter.clock
        late := if (s.tasks i).avg.lastUpdateTime = s.meter.clock then s.meter.late
          else s.meter.late + 1 } := by
      unfold meter
      rw [hcurr, hrun, htouched, hlate']
      rfl
    rw [hmeter]
    exact .single (.begin _ _ (hnone rfl) hle hlt)
  · have hcurr : (s.seatAt cpu i).curr workCore = s.curr workCore :=
      Function.update_of_ne (Ne.symm hcpu) _ _
    have hrun : (s.seatAt cpu i).fairRunning workCore = s.fairRunning workCore :=
      fairRunning_congr hcurr fun _ _ => rfl
    have htouched : (s.seatAt cpu i).touched workCore = s.touched workCore :=
      Function.update_of_ne (Ne.symm hcpu) _ _
    have hlate' : (s.seatAt cpu i).late workCore = s.late workCore := by
      rw [hlate]
      split
      · rfl
      · exact Function.update_of_ne (Ne.symm hcpu) _ _
    have hmeter : (s.seatAt cpu i).meter = s.meter := by
      unfold meter
      rw [hcurr, hrun, htouched, hlate']
      rfl
    rw [hmeter]

theorem meter_setNextEntity (hc : hw.cycle = true) (h : s.Metered) {cpu : Nat}
    (hnone : s.curr cpu = none) (hon : (s.tasks i).onRq = true) (hcpu : (s.tasks i).cpu = cpu) :
    ReflTransGen (Meter.Step 1024) s.meter (s.setNextEntity hw cpu i).meter := by
  subst hcpu
  rw [setNextEntity_eq, if_pos hon]
  have hlast := h.clocked.updated_last hw (s.tasks i).cpu hon
  refine (meter_updateLoadAvg hc h _ i).trans (meter_seatAt (fun hwork => ?_) ?_ ?_ ?_)
  · rw [hwork] at hnone
    unfold meter
    rw [updateLoadAvg_curr, hnone]
    rfl
  · rw [(updateLoadAvg_same i).1]
    exact hon
  · rw [updateLoadAvg_clock]
    exact hlast.1
  · rw [updateLoadAvg_clock]
    exact hlast.2

theorem meter_setTask {se : RqTask} (hi : s.curr workCore ≠ some i) :
    (s.setTask i se).meter = s.meter := by
  have hother : ∀ j, s.curr workCore = some j → (s.setTask i se).tasks j = s.tasks j := by
    intro j hj
    have hji : j ≠ i := by
      rintro rfl
      exact hi hj
    exact Function.update_of_ne hji _ _
  have hrun : (s.setTask i se).fairRunning workCore = s.fairRunning workCore :=
    fairRunning_congr rfl fun j hj => by rw [hother j hj]
  have hlast : ((s.curr workCore).map fun j => ((s.setTask i se).tasks j).avg.lastUpdateTime) =
      (s.curr workCore).map fun j => (s.tasks j).avg.lastUpdateTime := by
    cases hj : s.curr workCore with
    | none => rfl
    | some j => rw [Option.map_some, Option.map_some, hother j hj]
  unfold meter
  rw [hrun, ← hlast]
  rfl

theorem meter_dequeueEntity (hc : hw.cycle = true) (h : s.Metered) (hon : (s.tasks i).onRq = true) :
    ReflTransGen (Meter.Step 1024) s.meter (s.dequeueEntity hw here i).meter := by
  refine (meter_updateLoadAvg hc h here i).trans ?_
  rw [dequeueEntity_eq]
  by_cases hi : s.curr workCore = some i
  · have hi' : (s.updateLoadAvg hw here i).curr workCore = some i := by rw [updateLoadAvg_curr, hi]
    have hmeter : ((s.updateLoadAvg hw here i).setTask i
        { (s.updateLoadAvg hw here i).tasks i with onRq := false }).meter =
        { (s.updateLoadAvg hw here i).meter with running := false } := by
      unfold setTask meter fairRunning
      simp [hi']
    rw [hmeter]
    exact .single (.leave _ fun _ => updateLoadAvg_touched h.clocked hi hon)
  · rw [meter_setTask (by rw [updateLoadAvg_curr]; exact hi)]

/-- A settlement of the work core, where there is something to settle. -/
def Settles (hw : Hardware) (s : SchedCore) : Prop :=
  hw.cycle = true ∧ sub64 (s.clock workCore) (s.cycles.execClearTime workCore) >>> 10 ≠ 0

instance (hw : Hardware) (s : SchedCore) : Decidable (s.Settles hw) :=
  inferInstanceAs (Decidable (_ ∧ _))

theorem settle_eq (h : s.Settles hw) : s.settle hw = { s with
    cycles := s.cycles.settle workCore (s.clock workCore) (hw.scaleFreq workCore)
    calls := Function.update s.calls workCore 0
    late := Function.update s.late workCore 0
    idle := Function.update s.idle workCore 0
    windowStart := s.clock workCore } := if_pos h

theorem meter_settle : ReflTransGen (Meter.Step 1024) s.meter (s.settle hw).meter := by
  by_cases h : s.Settles hw
  · have hmeter : (s.settle hw).meter = { s.meter with
        clear := s.meter.clock, exec := 0, late := 0, calls := 0, idle := 0, since := s.meter.clock } := by
      rw [settle_eq h]
      unfold meter CycleStats.settle
      dsimp only
      rw [if_neg h.2]
      simp only [Function.update_self]
      rfl
    rw [hmeter]
    exact .single (.settle _)
  · have hsame : s.settle hw = s := if_neg h
    rw [hsame]

theorem Metered.of_steps {s' : SchedCore} (h : s.Metered) (hs' : s'.Clocked)
    (hsteps : ReflTransGen (Meter.Step 1024) s.meter s'.meter) : s'.Metered :=
  ⟨hs', Meter.clear_le_steps (m := s.meter) h.clear_le hsteps⟩

/-- Every event of the fair class is a number of steps of the meter. -/
theorem keeps_metered (hc : hw.cycle = true) (m : Meter) :
    Keeps hw fun s => s.Metered ∧ ReflTransGen (Meter.Step 1024) m s.meter := by
  have hstep : ∀ s s' : SchedCore, s.Metered ∧ ReflTransGen (Meter.Step 1024) m s.meter → s'.Clocked →
      ReflTransGen (Meter.Step 1024) s.meter s'.meter →
      s'.Metered ∧ ReflTransGen (Meter.Step 1024) m s'.meter :=
    fun s s' h hs' hsteps => ⟨h.1.of_steps hs' hsteps, h.2.trans hsteps⟩
  have hk := keeps_clocked hw
  constructor
  case clock =>
    intro s cpu t h ht
    exact hstep s _ h (hk.clock s cpu t h.1.clocked ht) (meter_updateRqClock h.1.clocked ht)
  case baseline =>
    intro s cpu h
    refine hstep s _ h (hk.baseline s cpu h.1.clocked) ?_
    split <;> exact .refl
  case update =>
    intro s here i h
    exact hstep s _ h (hk.update s here i h.1.clocked) (meter_updateLoadAvg hc h.1 here i)
  case put =>
    intro s cpu i h hi
    exact hstep s _ h (hk.put s cpu i h.1.clocked hi) (meter_putPrevEntity hc h.1 hi)
  case setNext =>
    intro s cpu i h hnone hon hcpu
    exact hstep s _ h (hk.setNext s cpu i h.1.clocked hnone hon hcpu)
      (meter_setNextEntity hc h.1 hnone hon hcpu)
  case enqueue =>
    intro s here i h hi
    refine hstep s _ h (hk.enqueue s here i h.1.clocked hi) ?_
    have hnot : (s.updateLoadAvg hw here i).curr workCore ≠ some i := by
      rw [updateLoadAvg_curr]
      exact h.1.clocked.not_curr hi workCore
    rw [enqueueEntity_eq]
    dsimp only
    rw [meter_setTask hnot]
    exact meter_updateLoadAvg hc h.1 here i
  case dequeue =>
    intro s here i h hon
    exact hstep s _ h (hk.dequeue s here i h.1.clocked hon) (meter_dequeueEntity hc h.1 hon)
  case sync =>
    intro s i h hoff hi
    refine hstep s _ h (hk.sync s i h.1.clocked hoff hi) ?_
    obtain ⟨sa, hsync, -⟩ := syncEntityLoadAvg_eq hw i s
    rw [hsync, meter_setTask (h.1.clocked.not_curr hi workCore)]
  case migrate =>
    intro s i cpu cfsRq h hoff hi
    refine hstep s _ h (hk.migrate s i cpu cfsRq h.1.clocked hoff hi) ?_
    obtain ⟨sa, -, hmigrated⟩ := setTaskCpu_eq hw i cpu cfsRq s
    rw [hmigrated, meter_setTask (h.1.clocked.not_curr hi workCore)]
  case settle =>
    intro s h
    exact hstep s _ h (hk.settle s h.1.clocked) meter_settle
  case clearTotals =>
    intro s h
    exact hstep s _ h (hk.clearTotals s h.1.clocked) .refl

theorem meter_next (hc : hw.cycle = true) (h : s.Metered) {e : SchedEvent} (he : s.Valid e) :
    (s.next hw e).Metered ∧ ReflTransGen (Meter.Step 1024) s.meter (s.next hw e).meter :=
  (keeps_metered hc s.meter).next ⟨h, .refl⟩ he

end SchedCore

end MSchedutil
