import MSchedutil.SumBound

/-! Splitting utilisation into a core and a memory part. A second run of the
same calls at full frequency is the yardstick for the two parts together. -/

namespace MSchedutil

open Word Transition

/-- The three tracks of one time constant: utilisation, its core and its memory part. -/
inductive Split : Track → Track → Track → Prop
  | slow : Split .util .coreUtil .memoryUtil
  | fast : Split .utilFast .coreUtilFast .memoryUtilFast

/-- A sequence of calls on one `sched_avg`. -/
abbrev runCalls (sa : SchedAvg) (calls : List UpdateCall) : SchedAvg :=
  run (fun sa c => (c.updateLoadAvg sa).1) sa calls

namespace UpdateCall

/-- The same call at full frequency. -/
def atFullFreq (c : UpdateCall) : UpdateCall := { c with scaleFreq := 1024 }

theorem InRange.atFullFreq {c : UpdateCall} (h : c.InRange) : c.atFullFreq.InRange :=
  ⟨h.pemt, h.ratio, le_rfl, h.scaleCpu⟩

theorem charge_core_le {c : UpdateCall} {u k m : Track} (hs : Split u k m) (amount : Nat) :
    c.charge amount k ≤ c.charge amount u := by
  have hle := (FloorDecay.mul_div (Nat.sub_le 1024 c.memoryCycleRatio)).le_self
    (amount * c.scaleFreq / 1024 * c.scaleCpu)
  cases hs <;> unfold charge <;> split <;> first | exact hle | exact le_rfl

/-- The core part, scaled by frequency, and the unscaled memory part together
stay within the time at full frequency. -/
theorem charge_core_add_memory_le {c : UpdateCall} (h : c.InRange) {u k m : Track}
    (hs : Split u k m) (amount : Nat) :
    c.charge amount k + c.charge amount m ≤ c.atFullFreq.charge amount u := by
  have hscaled := Nat.mul_le_mul_right c.scaleCpu (h.scaled_le amount)
  have hcore := (FloorDecay.mul_div (Nat.sub_le 1024 c.memoryCycleRatio)).mono hscaled
  have hsplit : amount * c.scaleCpu * (1024 - c.memoryCycleRatio) / 1024 +
      amount * c.scaleCpu * c.memoryCycleRatio / 1024 ≤ amount * c.scaleCpu := by
    calc amount * c.scaleCpu * (1024 - c.memoryCycleRatio) / 1024 +
          amount * c.scaleCpu * c.memoryCycleRatio / 1024
        ≤ (amount * c.scaleCpu * (1024 - c.memoryCycleRatio) +
            amount * c.scaleCpu * c.memoryCycleRatio) / 1024 := Nat.div_add_div_le_add_div
      _ = amount * c.scaleCpu * 1024 / 1024 := by
          rw [← Nat.mul_add, Nat.sub_add_cancel h.ratio]
      _ = amount * c.scaleCpu := Nat.mul_div_cancel _ (by norm_num)
  have hfull : c.atFullFreq.charge amount u = if c.running then amount * c.scaleCpu else 0 := by
    cases hs <;> simp [charge, UpdateCall.atFullFreq]
  rw [hfull]
  cases hs <;> unfold charge <;> split <;>
    first | exact (Nat.add_le_add_right hcore _).trans hsplit | exact le_rfl

end UpdateCall

/-- What the core and memory parts of one time constant satisfy against the
utilisation `util` tracked with them and `full` tracked at full frequency. -/
structure PartsWithin (u k m : Track) (sa full : SchedAvg) : Prop where
  core_le : (sa.signal k).sum ≤ (sa.signal u).sum
  parts_le : (sa.signal k).sum + (sa.signal m).sum ≤ (full.signal u).sum

/-- The two runs side by side. -/
structure SideBySide (sa full : SchedAvg) : Prop where
  bounded : sa.Bounded UpdateCall.anyGap 1024
  full_bounded : full.Bounded UpdateCall.anyGap 1024
  same_time : full.lastUpdateTime = sa.lastUpdateTime
  same_contrib : full.periodContrib = sa.periodContrib
  within : ∀ {u k m}, Split u k m → PartsWithin u k m sa full

namespace UpdateCall

variable {c : UpdateCall}

theorem Bounded.fits {sa : SchedAvg} (h : c.InRange) (hb : sa.Bounded anyGap 1024) (k : Track) :
    (sa.signal k).sum + c.charge (1024 - sa.periodContrib) k < 2 ^ 32 := by
  have hle := completed_le h h.scaleCpu hb k
  have hM := anyGap_le k
  omega

theorem Bounded.crossed_fits {sa : SchedAvg} (h : c.InRange) (hb : sa.Bounded anyGap 1024)
    {delta : Nat} (hx : 1024 ≤ delta + sa.periodContrib) (k : Track) :
    c.crossedSum sa.periodContrib delta k (sa.signal k).sum < 2 ^ 32 := by
  have hn : crossed sa.periodContrib delta ≠ 0 := by unfold crossed; omega
  have hle := crossedSum_le h h.scaleCpu hb (room_anyGap (C := 1024) c hn k)
  have hM := anyGap_le k
  omega

theorem sum_accrueDelta {sa : SchedAvg} (h : c.InRange) (hb : sa.Bounded anyGap 1024) {delta : Nat}
    (hd : delta < 2 ^ 53) (k : Track) :
    ((c.accrueDelta delta sa).1.signal k).sum =
      if 1024 ≤ delta + sa.periodContrib then
        c.crossedSum sa.periodContrib delta k (sa.signal k).sum
      else (sa.signal k).sum + c.charge delta k := by
  have hpc := hb.contrib_lt
  by_cases hx : 1024 ≤ delta + sa.periodContrib
  · simp only [accrueDelta, ge_iff_le, hx, if_true]
    simpa only [signal_with_lastUpdateTime] using
      sum_crossPeriod h { sa with lastUpdateTime := c.now } k hpc hd hx
        (by simpa only [signal_with_lastUpdateTime] using Bounded.fits h hb k)
        (by simpa only [signal_with_lastUpdateTime] using Bounded.crossed_fits h hb hx k)
  · have hfit : (sa.signal k).sum + c.charge delta k < 2 ^ 32 := by
      have hs := hb.sum_le k
      have hch := charge_le_mul h h.scaleCpu delta k
      have hM := anyGap_le k
      omega
    simp only [accrueDelta, ge_iff_le, hx, if_false]
    simpa only [signal_with_lastUpdateTime] using
      sum_remainder h (d := delta) (by omega) { sa with lastUpdateTime := c.now } k
        (by simpa only [signal_with_lastUpdateTime] using hfit)

theorem accrueDelta_time (c : UpdateCall) (delta : Nat) (sa : SchedAvg) :
    (c.accrueDelta delta sa).1.lastUpdateTime = c.now := by
  unfold accrueDelta
  dsimp only
  split <;> simp [crossPeriod, remainder, wholePeriods, completePeriod]

theorem accrueDelta_contrib {sa : SchedAvg} (hpc : sa.periodContrib < 1024) {delta : Nat}
    (hd : delta < 2 ^ 53) :
    (c.accrueDelta delta sa).1.periodContrib = (sa.periodContrib + delta) % 1024 := by
  by_cases hx : 1024 ≤ delta + sa.periodContrib
  · simp only [accrueDelta, ge_iff_le, hx, if_true]
    exact crossPeriod_periodContrib c hpc hd hx
  · simp only [accrueDelta, ge_iff_le, hx, if_false]
    rw [remainder_periodContrib c (by dsimp only; omega)]
    dsimp only
    omega

/-- Decay and accrual keep the parts within their yardsticks. -/
theorem PartsWithin.accrueDelta {u k m : Track} (hs : Split u k m) {sa full : SchedAvg}
    (h : c.InRange) (hr : SideBySide sa full) {delta : Nat} (hd : delta < 2 ^ 53) :
    PartsWithin u k m (c.accrueDelta delta sa).1 (c.atFullFreq.accrueDelta delta full).1 := by
  have hw := hr.within hs
  have hdecay : k.decay = u.decay ∧ m.decay = u.decay := by cases hs <;> exact ⟨rfl, rfl⟩
  have hcontrib : k.contrib = u.contrib ∧ m.contrib = u.contrib := by cases hs <;> exact ⟨rfl, rfl⟩
  have hcore : ∀ a, c.charge a k ≤ c.charge a u := fun a => charge_core_le hs a
  have hparts : ∀ a, c.charge a k + c.charge a m ≤ c.atFullFreq.charge a u :=
    fun a => charge_core_add_memory_le h hs a
  have hsum := fun t => sum_accrueDelta h hr.bounded hd t
  have hfull := sum_accrueDelta h.atFullFreq hr.full_bounded hd u
  rw [hr.same_contrib] at hfull
  have hfd := u.floorDecay (crossed sa.periodContrib delta)
  constructor
  · rw [hsum k, hsum u]
    split
    · have hdec := hfd.mono (Nat.add_le_add hw.core_le (hcore (1024 - sa.periodContrib)))
      have hc₁ := hcore (u.contrib (crossed sa.periodContrib delta - 1))
      have hc₂ := hcore ((sa.periodContrib + delta) % 1024)
      simp only [crossedSum, hdecay.1, hcontrib.1]
      exact Nat.add_le_add (Nat.add_le_add hdec hc₁) hc₂
    · exact Nat.add_le_add hw.core_le (hcore delta)
  · rw [hsum k, hsum m, hfull]
    split
    · have hc₀ := hparts (1024 - sa.periodContrib)
      have hp := hw.parts_le
      have hdec := hfd.add_le
        (x := (sa.signal k).sum + c.charge (1024 - sa.periodContrib) k)
        (y := (sa.signal m).sum + c.charge (1024 - sa.periodContrib) m)
        (z := (full.signal u).sum + c.atFullFreq.charge (1024 - sa.periodContrib) u) (by omega)
      have hc₁ := hparts (u.contrib (crossed sa.periodContrib delta - 1))
      have hc₂ := hparts ((sa.periodContrib + delta) % 1024)
      simp only [crossedSum, hdecay.1, hdecay.2, hcontrib.1, hcontrib.2]
      omega
    · have hp := hw.parts_le
      have hc := hparts delta
      omega

theorem SideBySide.step {sa full : SchedAvg} (h : c.InRange) (hr : SideBySide sa full) :
    SideBySide (c.updateLoadAvg sa).1 (c.atFullFreq.updateLoadAvg full).1 := by
  have hb := bounded_anyGap h hr.bounded
  have hfb := bounded_anyGap h.atFullFreq hr.full_bounded
  have hnow : c.atFullFreq.now = c.now := rfl
  revert hb hfb
  unfold updateLoadAvg
  rw [hnow, hr.same_time]
  cases he : elapsed c.now sa.lastUpdateTime with
  | backwards =>
    intro hb hfb
    exact ⟨hb, hfb, rfl, hr.same_contrib, fun hs =>
      ⟨by simpa using (hr.within hs).core_le, by simpa using (hr.within hs).parts_le⟩⟩
  | tooShort => exact fun _ _ => hr
  | units delta =>
    intro hb hfb
    have hd := (elapsed_units he).2.1
    refine ⟨hb, hfb, ?_, ?_, fun hs => PartsWithin.accrueDelta hs h hr hd⟩
    · simp only [accrueDelta_time, hnow]
    · simp only [accrueDelta_contrib hr.bounded.contrib_lt hd,
        accrueDelta_contrib hr.full_bounded.contrib_lt hd, hr.same_contrib]

/-- At one accrual site no sum passes 32 bits. -/
def SiteFits (c : UpdateCall) (slow scaledSlow fast scaledFast : Nat) (sa : SchedAvg) : Prop :=
  c.running = true → ∀ k,
    (sa.signal k).sum + c.gain (k.pick slow fast) (k.pick scaledSlow scaledFast) k < 2 ^ 32

/-- At every accrual site of a call, in the state it meets, no sum passes 32 bits. -/
def SumsFit (sa : SchedAvg) (c : UpdateCall) : Prop :=
  match elapsed c.now sa.lastUpdateTime with
  | .units delta =>
    if delta + sa.periodContrib ≥ 1024 then
      let deltaW := sub32 1024 sa.periodContrib
      let periods := sub64 delta deltaW / 1024
      let rest := sub64 delta deltaW % 1024
      let contrib := computeRunnableContrib periods
      let contribFast := computeRunnableContribFast periods
      let scaledW := u32 (capScale deltaW c.scaleFreq)
      let decayed := c.decay (periods + 1) (c.completePeriod deltaW { sa with periodContrib := 0 })
      c.SiteFits deltaW scaledW deltaW scaledW sa ∧
        c.SiteFits contrib (u32 (capScale contrib c.scaleFreq))
          contribFast (u32 (capScale contribFast c.scaleFreq)) decayed ∧
        c.SiteFits rest (capScale rest c.scaleFreq) rest (capScale rest c.scaleFreq)
          (c.wholePeriods periods decayed)
    else
      c.SiteFits delta (capScale delta c.scaleFreq) delta (capScale delta c.scaleFreq) sa
  | _ => True

theorem siteFits_of_charge (h : c.InRange) {slow scaledSlow fast scaledFast : Nat}
    (hslow : slow ≤ 50000) (hfast : fast ≤ 50000)
    (hs : scaledSlow = slow * c.scaleFreq / 1024) (hf : scaledFast = fast * c.scaleFreq / 1024)
    {sa : SchedAvg} (hfit : ∀ k, (sa.signal k).sum + c.charge (k.pick slow fast) k < 2 ^ 32) :
    c.SiteFits slow scaledSlow fast scaledFast sa := by
  intro hr k
  have hp : k.pick scaledSlow scaledFast = k.pick slow fast * c.scaleFreq / 1024 := by
    subst hs hf
    unfold Track.pick
    split <;> rfl
  have ha : k.pick slow fast ≤ 50000 := k.pick_cases (p := (· ≤ 50000)) hslow hfast
  rw [hp, gain_eq_charge h hr ha]
  exact hfit k

theorem pick_self {α : Type*} (k : Track) (a : α) : k.pick a a = a := by
  unfold Track.pick
  split <;> rfl

theorem sumsFit (h : c.InRange) {sa : SchedAvg} (hb : sa.Bounded anyGap 1024) : SumsFit sa c := by
  have hpc := hb.contrib_lt
  unfold SumsFit
  cases he : elapsed c.now sa.lastUpdateTime with
  | backwards => trivial
  | tooShort => trivial
  | units delta =>
    have hd := (elapsed_units he).2.1
    dsimp only
    split
    · rename_i hx
      have hw : sub32 1024 sa.periodContrib = 1024 - sa.periodContrib :=
        sub32_of_le hpc.le (by norm_num)
      have hr : sub64 delta (1024 - sa.periodContrib) = delta - (1024 - sa.periodContrib) :=
        sub64_of_le (by omega) (by omega)
      have hp : (delta - (1024 - sa.periodContrib)) / 1024 = crossed sa.periodContrib delta - 1 := by
        unfold crossed; omega
      have hp1 : crossed sa.periodContrib delta - 1 + 1 = crossed sa.periodContrib delta := by
        unfold crossed; omega
      have hm : (delta - (1024 - sa.periodContrib)) % 1024 = (sa.periodContrib + delta) % 1024 := by
        omega
      rw [hw, hr, hp, hp1, hm]
      have hcontrib := contrib_le .util (crossed sa.periodContrib delta - 1)
      have hcontribFast := contrib_le .utilFast (crossed sa.periodContrib delta - 1)
      change computeRunnableContrib _ ≤ _ at hcontrib
      change computeRunnableContribFast _ ≤ _ at hcontribFast
      have hfits := fun k => Bounded.fits h hb k
      have hcross := fun k => Bounded.crossed_fits h hb hx k
      have hdec : ∀ k, ((c.decay (crossed sa.periodContrib delta)
          (c.completePeriod (1024 - sa.periodContrib) { sa with periodContrib := 0 })).signal k).sum =
          k.decay ((sa.signal k).sum + c.charge (1024 - sa.periodContrib) k)
            (crossed sa.periodContrib delta) := fun k => by
        rw [sum_decay h, sum_completePeriod h (by omega) _ k
          (by simpa only [signal_with_periodContrib] using hfits k), signal_with_periodContrib]
      have hwhole : ∀ k, ((c.wholePeriods (crossed sa.periodContrib delta - 1)
          (c.decay (crossed sa.periodContrib delta) (c.completePeriod (1024 - sa.periodContrib)
            { sa with periodContrib := 0 }))).signal k).sum =
          k.decay ((sa.signal k).sum + c.charge (1024 - sa.periodContrib) k)
            (crossed sa.periodContrib delta) +
            c.charge (k.contrib (crossed sa.periodContrib delta - 1)) k := fun k => by
        rw [sum_wholePeriods h _ _ k (by
          rw [hdec k]; exact (Nat.le_add_right _ _).trans_lt (hcross k)), hdec k]
      refine ⟨?_, ?_, ?_⟩
      · exact siteFits_of_charge h (by omega) (by omega) (u32_capScale_eq h (by omega))
          (u32_capScale_eq h (by omega)) (fun k => by rw [pick_self]; exact hfits k)
      · refine siteFits_of_charge h (by omega) (by omega) (u32_capScale_eq h (by omega))
          (u32_capScale_eq h (by omega)) (fun k => ?_)
        have hk : k.pick (computeRunnableContrib (crossed sa.periodContrib delta - 1))
            (computeRunnableContribFast (crossed sa.periodContrib delta - 1)) =
            k.contrib (crossed sa.periodContrib delta - 1) := by
          unfold Track.contrib Track.pick
          split <;> rfl
        rw [hk, hdec k]
        exact (Nat.le_add_right _ _).trans_lt (hcross k)
      · exact siteFits_of_charge h (by omega) (by omega) (capScale_eq h (by omega))
          (capScale_eq h (by omega)) (fun k => by rw [pick_self, hwhole k]; exact hcross k)
    · rename_i hx
      refine siteFits_of_charge h (by omega) (by omega) (capScale_eq h (by omega))
        (capScale_eq h (by omega)) (fun k => ?_)
      have hs := hb.sum_le k
      have hch := charge_le_mul h h.scaleCpu delta k
      have hM := anyGap_le k
      rw [pick_self]
      omega

/-- A decaying call leaves every average at its sum over the maximum. -/
theorem avg_of_decayed (hp : c.pemt = true) {sa : SchedAvg} (h : (c.updateLoadAvg sa).2 = true)
    (k : Track) :
    ((c.updateLoadAvg sa).1.signal k).avg = ((c.updateLoadAvg sa).1.signal k).sum / k.max := by
  unfold updateLoadAvg at h ⊢
  cases he : elapsed c.now sa.lastUpdateTime with
  | backwards => simp [he] at h
  | tooShort => simp [he] at h
  | units delta =>
    simp only [he] at h ⊢
    unfold accrueDelta at h ⊢
    dsimp only at h ⊢
    split at h
    · rename_i hx
      simp only [hx, if_true, crossPeriod, signal_averages, hp, Bool.true_or, Signal.average]
    · simp at h

end UpdateCall

/-- Zeroed sums and less than a period accrued, as `init_entity_runnable_average` leaves them. -/
structure SchedAvg.Fresh (sa : SchedAvg) : Prop where
  sum_zero : ∀ k, (sa.signal k).sum = 0
  contrib_lt : sa.periodContrib < 1024

theorem fresh_initEntityRunnableAverage (sa : SchedAvg) (isTask : Bool) (weight : Nat)
    (initialTaskUtil : Option Nat) :
    (initEntityRunnableAverage sa isTask weight initialTaskUtil).Fresh :=
  ⟨fun k => by cases k <;> rfl, by simp [initEntityRunnableAverage]⟩

theorem SchedAvg.Fresh.bounded {sa : SchedAvg} (h : sa.Fresh) (M : Track → Nat) (C : Nat) :
    sa.Bounded M C :=
  ⟨h.contrib_lt, fun k => by rw [h.sum_zero k]; exact Nat.zero_le _⟩

theorem SchedAvg.Fresh.sideBySide {sa : SchedAvg} (h : sa.Fresh) : SideBySide sa sa where
  bounded := h.bounded _ _
  full_bounded := h.bounded _ _
  same_time := rfl
  same_contrib := rfl
  within := fun _ => ⟨by simp [h.sum_zero], by simp [h.sum_zero]⟩

theorem runCalls_snoc (sa : SchedAvg) (calls : List UpdateCall) (c : UpdateCall) :
    runCalls sa (calls ++ [c]) = (c.updateLoadAvg (runCalls sa calls)).1 := by
  rw [runCalls, run_append]
  rfl

theorem sideBySide_run {sa full : SchedAvg} {calls : List UpdateCall} (hr : SideBySide sa full)
    (h : ∀ c ∈ calls, c.InRange) :
    SideBySide (runCalls sa calls) (runCalls full (calls.map UpdateCall.atFullFreq)) := by
  induction calls generalizing sa full with
  | nil => exact hr
  | cons c calls ih =>
    exact ih (UpdateCall.SideBySide.step (h c (by simp)) hr) (fun d hd => h d (by simp [hd]))

theorem map_atFullFreq_of_full {calls : List UpdateCall} (h : ∀ c ∈ calls, c.scaleFreq = 1024) :
    calls.map UpdateCall.atFullFreq = calls := by
  refine (List.map_congr_left fun c hc => ?_).trans (List.map_id calls)
  have hf := h c hc
  cases c
  cases hf
  rfl

/-- What the split of one time constant satisfies after a run of calls. -/
structure SplitWithin (u k m : Track) (sa₀ : SchedAvg) (calls : List UpdateCall) : Prop where
  core_le : ((runCalls sa₀ calls).signal k).sum ≤ ((runCalls sa₀ calls).signal u).sum
  parts_le_full : ((runCalls sa₀ calls).signal k).sum + ((runCalls sa₀ calls).signal m).sum ≤
    ((runCalls sa₀ (calls.map UpdateCall.atFullFreq)).signal u).sum
  parts_le : (∀ c ∈ calls, c.scaleFreq = 1024) →
    ((runCalls sa₀ calls).signal k).sum + ((runCalls sa₀ calls).signal m).sum ≤
      ((runCalls sa₀ calls).signal u).sum
  avg_parts_le : (∀ c ∈ calls, c.scaleFreq = 1024) →
    ∀ before last, calls = before ++ [last] →
      (last.updateLoadAvg (runCalls sa₀ before)).2 = true →
      ((runCalls sa₀ calls).signal k).avg + ((runCalls sa₀ calls).signal m).avg ≤
        ((runCalls sa₀ calls).signal u).avg

/-- The split never creates utilisation, and its arithmetic never leaves its words. -/
structure SplitSound (sa₀ : SchedAvg) (calls : List UpdateCall) : Prop where
  slow : SplitWithin .util .coreUtil .memoryUtil sa₀ calls
  fast : SplitWithin .utilFast .coreUtilFast .memoryUtilFast sa₀ calls
  sums_fit : Along (fun sa c => (c.updateLoadAvg sa).1) UpdateCall.SumsFit sa₀ calls
  ratio_fits : ∀ c ∈ calls, sub32 1024 c.memoryCycleRatio + c.memoryCycleRatio = 1024

theorem splitWithin {sa₀ : SchedAvg} (h₀ : sa₀.Fresh) {calls : List UpdateCall}
    (h : ∀ c ∈ calls, c.InRange) {u k m : Track} (hs : Split u k m) :
    SplitWithin u k m sa₀ calls := by
  have hw := (sideBySide_run h₀.sideBySide h).within hs
  have hparts : (∀ c ∈ calls, c.scaleFreq = 1024) →
      ((runCalls sa₀ calls).signal k).sum + ((runCalls sa₀ calls).signal m).sum ≤
        ((runCalls sa₀ calls).signal u).sum := by
    intro hf
    have hp := hw.parts_le
    rwa [map_atFullFreq_of_full hf] at hp
  refine ⟨hw.core_le, hw.parts_le, hparts, ?_⟩
  intro hf before last he hdec
  have hpemt : last.pemt = true := (h last (by simp [he])).pemt
  have havg := fun t => UpdateCall.avg_of_decayed hpemt hdec t
  have hmax : k.max = u.max ∧ m.max = u.max := by cases hs <;> exact ⟨rfl, rfl⟩
  have hp := hparts hf
  subst he
  rw [runCalls_snoc] at hp ⊢
  rw [havg k, havg m, havg u, hmax.1, hmax.2]
  exact Nat.div_add_div_le_add_div.trans (Nat.div_le_div_right hp)

/-- Splitting utilisation into a core and a memory part never creates utilisation,
over any calls with any timestamps. -/
theorem split_creates_no_utilisation {sa₀ : SchedAvg} (h₀ : sa₀.Fresh) {calls : List UpdateCall}
    (h : ∀ c ∈ calls, c.InRange) : SplitSound sa₀ calls where
  slow := splitWithin h₀ h .slow
  fast := splitWithin h₀ h .fast
  sums_fit := by
    have hrange : Along (fun sa c => (c.updateLoadAvg sa).1) (fun _ c => c.InRange) sa₀ calls :=
      along_of_forall (fun _ c hc => h c hc) sa₀
    exact hrange.imp (I := fun sa => sa.Bounded UpdateCall.anyGap 1024)
      (fun _ _ hb hc => UpdateCall.bounded_anyGap hc hb) (fun _ _ hb hc => UpdateCall.sumsFit hc hb)
      (h₀.bounded _ _)
  ratio_fits := fun c hc => by
    have hr := (h c hc).ratio
    rw [sub32_of_le hr (by norm_num)]
    omega

/-- A running stretch at half frequency with a third of the cycles stalled, then a
call whose clock went back. -/
theorem split_creates_no_utilisation_two_calls :
    SplitSound (initEntityRunnableAverage ⟨0, 0, ⟨0, 0⟩, ⟨0, 0⟩, ⟨0, 0⟩, 0, ⟨0, 0⟩, ⟨0, 0⟩, ⟨0, 0⟩, ⟨0, 0⟩⟩
        true (1024 * 1024) none)
      [⟨5000000, 1024, true, true, 341, 512, 1024⟩, ⟨4000000, 1024, true, true, 341, 512, 1024⟩] :=
  split_creates_no_utilisation (fresh_initEntityRunnableAverage _ _ _ _) (by
    intro c hc
    simp only [List.mem_cons, List.not_mem_nil, or_false] at hc
    rcases hc with rfl | rfl <;> exact ⟨rfl, by decide, by decide, by decide⟩)

end MSchedutil
