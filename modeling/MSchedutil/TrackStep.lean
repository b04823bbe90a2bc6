import MSchedutil.LoadOps

/-! What one call of `__update_load_avg` makes of one signal, as a function of the
call, of the clock of the `sched_avg`, and of that signal alone. -/

namespace MSchedutil

open Word

namespace UpdateCall

/-- One accrual site, seen from one signal. -/
def accrueSignal (c : UpdateCall) (k : Track) (slow scaledSlow fast scaledFast : Nat) (s : Signal) :
    Signal :=
  if c.running then s.add32 (c.gain (k.pick slow fast) (k.pick scaledSlow scaledFast) k) else s

/-- The branch that crosses a period boundary, seen from one signal. -/
def crossSignal (c : UpdateCall) (k : Track) (delta contrib : Nat) (s : Signal) : Signal :=
  let deltaW := sub32 1024 contrib
  let scaledDeltaW := u32 (capScale deltaW c.scaleFreq)
  let delta := sub64 delta deltaW
  let slow := computeRunnableContrib (delta / 1024)
  let fast := computeRunnableContribFast (delta / 1024)
  let rest := delta % 1024
  let s := c.accrueSignal k deltaW scaledDeltaW deltaW scaledDeltaW s
  let s := s.decay k.decay (delta / 1024 + 1)
  let s := c.accrueSignal k slow (u32 (capScale slow c.scaleFreq)) fast
    (u32 (capScale fast c.scaleFreq)) s
  (c.accrueSignal k rest (capScale rest c.scaleFreq) rest (capScale rest c.scaleFreq) s).average
    k.max

/-- The whole call, seen from one signal. -/
def updateSignal (c : UpdateCall) (k : Track) (sa : SchedAvg) (s : Signal) : Signal :=
  match elapsed c.now sa.lastUpdateTime with
  | .units delta =>
    if delta + sa.periodContrib ≥ 1024 then c.crossSignal k delta sa.periodContrib s
    else c.accrueSignal k delta (capScale delta c.scaleFreq) delta (capScale delta c.scaleFreq) s
  | _ => s

variable {c : UpdateCall} {k : Track}

theorem signal_accrue_active (hk : k.active c.pemt = true) (slow scaledSlow fast scaledFast : Nat)
    (sa : SchedAvg) : (c.accrue slow scaledSlow fast scaledFast sa).signal k =
      c.accrueSignal k slow scaledSlow fast scaledFast (sa.signal k) := by
  unfold Track.active at hk
  rw [signal_accrue, hk, Bool.and_true]
  rfl

theorem signal_remainder (hk : k.active c.pemt = true) (delta : Nat) (sa : SchedAvg) :
    (c.remainder delta sa).signal k =
      c.accrueSignal k delta (capScale delta c.scaleFreq) delta (capScale delta c.scaleFreq)
        (sa.signal k) := by
  rw [← signal_accrue_active hk]
  cases k <;> rfl

theorem signal_crossPeriod (hk : k.active c.pemt = true) (delta : Nat) (sa : SchedAvg) :
    (c.crossPeriod delta sa).signal k =
      c.crossSignal k delta sa.periodContrib (sa.signal k) := by
  have hreset : ({ sa with periodContrib := 0 } : SchedAvg).signal k = sa.signal k := by
    cases k <;> rfl
  have hk' : (c.pemt || !k.tracked) = true := hk
  unfold crossPeriod completePeriod wholePeriods crossSignal
  dsimp only
  rw [signal_averages, signal_remainder hk, signal_accrue_active hk, signal_decay,
    signal_accrue_active hk, hreset, hk', if_pos rfl, if_pos rfl]

theorem signal_updateLoadAvg (hk : k.active c.pemt = true) (sa : SchedAvg) :
    (c.updateLoadAvg sa).1.signal k = c.updateSignal k sa (sa.signal k) := by
  have hclock : ∀ t, ({ sa with lastUpdateTime := t } : SchedAvg).signal k = sa.signal k := by
    intro t
    cases k <;> rfl
  unfold updateLoadAvg updateSignal
  cases elapsed c.now sa.lastUpdateTime with
  | units delta =>
    unfold accrueDelta
    dsimp only
    split
    · rw [← hclock c.now]
      exact signal_crossPeriod hk _ _
    · rw [← hclock c.now]
      exact signal_remainder hk _ _
  | backwards => exact hclock _
  | tooShort => rfl

theorem signal_accrue_inactive (hk : k.active c.pemt = false)
    (slow scaledSlow fast scaledFast : Nat) (sa : SchedAvg) :
    (c.accrue slow scaledSlow fast scaledFast sa).signal k = sa.signal k := by
  unfold Track.active at hk
  rw [signal_accrue, hk, Bool.and_false]
  rfl

theorem signal_updateLoadAvg_inactive (hk : k.active c.pemt = false) (sa : SchedAvg) :
    (c.updateLoadAvg sa).1.signal k = sa.signal k := by
  have hk' : (c.pemt || !k.tracked) = false := hk
  have hclock : ∀ t n, ({ sa with lastUpdateTime := t, periodContrib := n } : SchedAvg).signal k =
      sa.signal k := by
    intro t n
    cases k <;> rfl
  have hrest : ∀ delta sa, (c.remainder delta sa).signal k = sa.signal k := by
    intro delta sa
    rw [← signal_accrue_inactive hk delta (capScale delta c.scaleFreq) delta
      (capScale delta c.scaleFreq) sa]
    cases k <;> rfl
  unfold updateLoadAvg
  cases elapsed c.now sa.lastUpdateTime with
  | units delta =>
    unfold accrueDelta
    dsimp only
    split
    · unfold crossPeriod completePeriod wholePeriods
      dsimp only
      rw [signal_averages, hrest, signal_accrue_inactive hk, signal_decay,
        signal_accrue_inactive hk, hk']
      exact hclock _ _
    · rw [hrest]
      exact hclock _ _
  | backwards => exact hclock _ _
  | tooShort => rfl

/-- What a call leaves in `period_contrib`. -/
def contribAfter (now : Nat) (sa : SchedAvg) : Nat :=
  match elapsed now sa.lastUpdateTime with
  | .units delta =>
    if delta + sa.periodContrib ≥ 1024
      then u32 (sub64 delta (sub32 1024 sa.periodContrib) % 1024)
      else u32 (sa.periodContrib + delta)
  | _ => sa.periodContrib

theorem updateLoadAvg_periodContrib (c : UpdateCall) (sa : SchedAvg) :
    (c.updateLoadAvg sa).1.periodContrib = contribAfter c.now sa := by
  unfold updateLoadAvg contribAfter
  cases elapsed c.now sa.lastUpdateTime with
  | units delta =>
    unfold accrueDelta
    dsimp only
    split
    · simp [crossPeriod, completePeriod, wholePeriods, remainder]
    · simp [remainder]
  | _ => rfl

theorem updateLoadAvg_lastUpdateTime (c : UpdateCall) (sa : SchedAvg) :
    (c.updateLoadAvg sa).1.lastUpdateTime =
      if elapsed c.now sa.lastUpdateTime = .tooShort then sa.lastUpdateTime else c.now := by
  unfold updateLoadAvg
  cases elapsed c.now sa.lastUpdateTime with
  | units delta =>
    unfold accrueDelta
    dsimp only
    split
    · simp [crossPeriod, completePeriod, wholePeriods, remainder]
    · simp [remainder]
  | _ => rfl

@[simp] theorem accrue_memoryCycleRatio (c : UpdateCall)
    (slow scaledSlow fast scaledFast : Nat) (sa : SchedAvg) :
    (c.accrue slow scaledSlow fast scaledFast sa).memoryCycleRatio = sa.memoryCycleRatio := by
  unfold accrue
  cases c.running <;> cases c.pemt <;> simp [apply_ite]

@[simp] theorem decay_memoryCycleRatio (c : UpdateCall) (n : Nat) (sa : SchedAvg) :
    (c.decay n sa).memoryCycleRatio = sa.memoryCycleRatio := by
  unfold decay
  cases c.pemt <;> rfl

@[simp] theorem averages_memoryCycleRatio (c : UpdateCall) (sa : SchedAvg) :
    (c.averages sa).memoryCycleRatio = sa.memoryCycleRatio := by
  unfold averages
  cases c.pemt <;> rfl

theorem updateLoadAvg_memoryCycleRatio (c : UpdateCall) (sa : SchedAvg) :
    (c.updateLoadAvg sa).1.memoryCycleRatio = sa.memoryCycleRatio := by
  unfold updateLoadAvg
  cases elapsed c.now sa.lastUpdateTime with
  | units delta =>
    unfold accrueDelta
    dsimp only
    split
    · simp [crossPeriod, completePeriod, wholePeriods, remainder]
    · simp [remainder]
  | _ => rfl

end UpdateCall

/-- Whether a call at `now` decays the old sums of all signals to nothing. -/
def SchedAvg.wipesAt (now : Nat) (sa : SchedAvg) : Bool :=
  match elapsed now sa.lastUpdateTime with
  | .units delta => decide (delta + sa.periodContrib ≥ 1024 ∧
      2016 ≤ sub64 delta (sub32 1024 sa.periodContrib) / 1024)
  | _ => false

/-- Every half-life is short against 2016 periods. -/
theorem Track.decay_long (k : Track) {n : Nat} (hn : 2016 < n) (val : Nat) : k.decay val n = 0 := by
  have hlong : ∀ period inv, period ≤ 32 → decayBy period inv val n = 0 := by
    intro period inv hp
    unfold decayBy
    rw [if_neg (by omega), if_pos (by omega)]
  exact k.pick_cases (p := fun f : Nat → Nat → Nat => f val n = 0) (hlong _ _ (by decide))
    (hlong _ _ (by decide))

/-- Sums and averages are words. -/
def Signal.InWord (s : Signal) : Prop := s.sum < 2 ^ 32 ∧ s.avg < 2 ^ 64

namespace UpdateCall

variable {c : UpdateCall} {k : Track} {sa sb : SchedAvg}

theorem updateSignal_congr (ht : sa.lastUpdateTime = sb.lastUpdateTime)
    (hp : sa.periodContrib = sb.periodContrib) (s : Signal) :
    c.updateSignal k sa s = c.updateSignal k sb s := by
  unfold updateSignal
  rw [ht, hp]

theorem updateSignal_quiet (hr : c.running = false) (hd : sa.decaysAt c.now = false) (s : Signal) :
    c.updateSignal k sa s = s := by
  unfold SchedAvg.decaysAt at hd
  unfold updateSignal
  cases hel : elapsed c.now sa.lastUpdateTime with
  | units delta =>
    rw [hel] at hd
    dsimp only at hd ⊢
    rw [if_neg (of_decide_eq_false hd), accrueSignal, hr]
    rfl
  | _ => rfl

theorem updateSignal_nothing (hr : c.running = false) :
    c.updateSignal k sa ⟨0, 0⟩ = ⟨0, 0⟩ := by
  have hdecay : ∀ n, k.decay 0 n = 0 := fun n => Nat.le_zero.mp ((k.floorDecay n).le_self 0)
  have hacc : ∀ slow scaledSlow fast scaledFast s,
      c.accrueSignal k slow scaledSlow fast scaledFast s = s := by
    intro slow scaledSlow fast scaledFast s
    rw [accrueSignal, hr]
    rfl
  unfold updateSignal crossSignal
  simp [hacc, Signal.decay, Signal.average, hdecay]
  cases elapsed c.now sa.lastUpdateTime <;> simp

theorem accrueSignal_sum_congr {slow scaledSlow fast scaledFast : Nat} {s s' : Signal}
    (h : s.sum = s'.sum) : (c.accrueSignal k slow scaledSlow fast scaledFast s).sum =
      (c.accrueSignal k slow scaledSlow fast scaledFast s').sum := by
  unfold accrueSignal Signal.add32
  split
  · exact congrArg (fun x => u32 (x + _)) h
  · exact h

theorem average_congr {s s' : Signal} {max : Nat} (h : s.sum = s'.sum) :
    s.average max = s'.average max := by
  unfold Signal.average
  rw [h]

theorem updateSignal_wiped (hw : sa.wipesAt c.now = true) (s s' : Signal) :
    c.updateSignal k sa s = c.updateSignal k sa s' := by
  unfold SchedAvg.wipesAt at hw
  unfold updateSignal
  cases hel : elapsed c.now sa.lastUpdateTime with
  | units delta =>
    rw [hel] at hw
    obtain ⟨hcross, hlong⟩ := of_decide_eq_true hw
    dsimp only
    rw [if_pos hcross, if_pos hcross]
    refine average_congr (accrueSignal_sum_congr (accrueSignal_sum_congr ?_))
    unfold Signal.decay
    dsimp only
    rw [k.decay_long (Nat.lt_succ_of_le hlong), k.decay_long (Nat.lt_succ_of_le hlong)]
  | _ => simp [hel] at hw

theorem accrueSignal_inWord {slow scaledSlow fast scaledFast : Nat} {s : Signal}
    (hs : s.InWord) : (c.accrueSignal k slow scaledSlow fast scaledFast s).InWord := by
  unfold accrueSignal
  split
  · exact ⟨u32_lt _, hs.2⟩
  · exact hs

theorem updateSignal_inWord {s : Signal} (hs : s.InWord) : (c.updateSignal k sa s).InWord := by
  have hdecay : ∀ {s : Signal} n, s.InWord → (s.decay k.decay n).InWord :=
    fun n hs => ⟨((k.floorDecay n).le_self _).trans_lt hs.1, hs.2⟩
  have haverage : ∀ {s : Signal}, s.InWord → (s.average k.max).InWord :=
    fun hs => ⟨hs.1, (Nat.div_le_self _ _).trans_lt (hs.1.trans (by norm_num))⟩
  unfold updateSignal
  split
  · split
    · exact haverage (accrueSignal_inWord (accrueSignal_inWord (hdecay _ (accrueSignal_inWord hs))))
    · exact accrueSignal_inWord hs
  · exact hs

@[simp] theorem signal_recorded (c : UpdateCall) (sa : SchedAvg) (k : Track) :
    (c.recorded sa).signal k = sa.signal k := by
  unfold recorded
  split
  · cases k <;> rfl
  · rfl

@[simp] theorem recorded_lastUpdateTime (c : UpdateCall) (sa : SchedAvg) :
    (c.recorded sa).lastUpdateTime = sa.lastUpdateTime := by
  unfold recorded
  split <;> rfl

@[simp] theorem recorded_periodContrib (c : UpdateCall) (sa : SchedAvg) :
    (c.recorded sa).periodContrib = sa.periodContrib := by
  unfold recorded
  split <;> rfl

theorem records_of_idle {c : UpdateCall} (h : (c.pemt && c.running) = false) (sa : SchedAvg) :
    c.records sa = false := by
  unfold records
  rw [h]
  split <;> rfl

theorem recorded_of_idle {c : UpdateCall} (h : (c.pemt && c.running) = false) (sa : SchedAvg) :
    c.recorded sa = sa := by
  unfold recorded
  rw [records_of_idle h]
  rfl

end UpdateCall

end MSchedutil
