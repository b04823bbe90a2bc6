import MSchedutil.PeriodCounter
import MSchedutil.PeriodSum
import MSchedutil.TrackStep

/-! The period bookkeeping of `__update_load_avg` in exact arithmetic, for one call and
for an elapsed time divided among calls. -/

namespace MSchedutil

open Word
open Transition (run run_cons)

/-- What the three accrual sites do to one sum: the time that completes a period,
whole periods, and the remainder. -/
structure Accruals where
  complete : Nat → Signal → Signal
  whole : Nat → Signal → Signal
  rest : Nat → Signal → Signal

/-- One sum carried over `delta` units that start `contrib` units into a period. -/
def Accruals.carry (a : Accruals) (decay : Nat → Nat → Nat) (contrib delta : Nat) (s : Signal) :
    Signal :=
  let total := contrib + delta
  if total < 1024 then a.rest delta s
  else
    a.rest (total % 1024) (a.whole (total / 1024 - 1)
      ((a.complete (1024 - contrib) s).decay decay (total / 1024)))

namespace UpdateCall

/-- One accrual site, seen from the load or from the runnable load. -/
def accrueLoad (c : UpdateCall) (scaled : Nat) (s : Signal) : Signal :=
  if c.weight ≠ 0 then s.add64 (c.weight * scaled) else s

def loadAccruals (c : UpdateCall) : Accruals where
  complete d := c.accrueLoad (u32 (capScale d c.scaleFreq))
  whole periods := c.accrueLoad (u32 (capScale (computeRunnableContrib periods) c.scaleFreq))
  rest d := c.accrueLoad (capScale d c.scaleFreq)

def trackAccruals (c : UpdateCall) (k : Track) : Accruals where
  complete d :=
    let scaled := u32 (capScale d c.scaleFreq)
    c.accrueSignal k d scaled d scaled
  whole periods :=
    let slow := computeRunnableContrib periods
    let fast := computeRunnableContribFast periods
    c.accrueSignal k slow (u32 (capScale slow c.scaleFreq)) fast (u32 (capScale fast c.scaleFreq))
  rest d :=
    let scaled := capScale d c.scaleFreq
    c.accrueSignal k d scaled d scaled

/-- The exponent `periods + 1` of the decay a call makes, 0 if it makes none. -/
def decayExponent (c : UpdateCall) (sa : SchedAvg) : Nat :=
  match elapsed c.now sa.lastUpdateTime with
  | .units delta =>
    if delta + sa.periodContrib ≥ 1024
      then sub64 delta (sub32 1024 sa.periodContrib) / 1024 + 1 else 0
  | _ => 0

/-- The books of a call that finds `delta` whole units elapsed. -/
structure ExactPeriods (c : UpdateCall) (delta : Nat) (sa : SchedAvg) : Prop where
  complete : (sub32 1024 sa.periodContrib : Int) = 1024 - sa.periodContrib
  left : 1024 ≤ sa.periodContrib + delta →
    (sub64 delta (sub32 1024 sa.periodContrib) : Int) = delta - (1024 - sa.periodContrib)
  split : 1024 ≤ sa.periodContrib + delta →
    delta = sub32 1024 sa.periodContrib +
      1024 * (sub64 delta (sub32 1024 sa.periodContrib) / 1024) +
      sub64 delta (sub32 1024 sa.periodContrib) % 1024
  exponent : c.decayExponent sa = (sa.periodContrib + delta) / 1024
  contrib_lt : (c.updateLoadAvg sa).1.periodContrib < 1024
  contrib_eq : (c.updateLoadAvg sa).1.periodContrib = (sa.periodContrib + delta) % 1024
  load : (c.updateLoadAvg sa).1.load.sum =
    (c.loadAccruals.carry decayLoad sa.periodContrib delta sa.load).sum
  tracks : ∀ k : Track, k.active c.pemt = true → ((c.updateLoadAvg sa).1.signal k).sum =
    ((c.trackAccruals k).carry k.decay sa.periodContrib delta (sa.signal k)).sum
  untracked : ∀ k : Track, k.active c.pemt = false →
    (c.updateLoadAvg sa).1.signal k = sa.signal k

variable {c : UpdateCall}

@[simp] theorem load_accrue (slow scaledSlow fast scaledFast : Nat) (sa : SchedAvg) :
    (c.accrue slow scaledSlow fast scaledFast sa).load = c.accrueLoad scaledSlow sa.load := by
  simp only [accrue, accrueLoad]
  by_cases hw : c.weight = 0 <;> cases c.running <;> cases c.pemt <;> simp [hw]

@[simp] theorem load_decay (n : Nat) (sa : SchedAvg) :
    (c.decay n sa).load = sa.load.decay decayLoad n := by
  simp only [decay]
  cases c.pemt <;> rfl

@[simp] theorem load_averages (sa : SchedAvg) :
    (c.averages sa).load = sa.load.average loadAvgMax := by
  simp only [averages]
  cases c.pemt <;> rfl

theorem updateLoadAvg_units {delta : Nat} {sa : SchedAvg}
    (hel : elapsed c.now sa.lastUpdateTime = .units delta) :
    (c.updateLoadAvg sa).1 =
      if 1024 ≤ delta + sa.periodContrib then c.crossPeriod delta { sa with lastUpdateTime := c.now }
      else c.remainder delta { sa with lastUpdateTime := c.now } := by
  simp only [updateLoadAvg, hel, accrueDelta]
  split <;> rfl

theorem decayExponent_units {delta : Nat} {sa : SchedAvg} (hpc : sa.periodContrib < 1024)
    (hel : elapsed c.now sa.lastUpdateTime = .units delta) :
    c.decayExponent sa = (sa.periodContrib + delta) / 1024 := by
  obtain ⟨-, hlt, -⟩ := elapsed_units hel
  have hw : sub32 1024 sa.periodContrib = 1024 - sa.periodContrib :=
    sub32_of_le hpc.le (by norm_num)
  simp only [decayExponent, hel, hw]
  by_cases hx : delta + sa.periodContrib ≥ 1024
  · rw [if_pos hx, sub64_of_le (by omega) (by omega)]
    omega
  · rw [if_neg hx]
    omega

theorem periodContrib_units {delta : Nat} {sa : SchedAvg} (hpc : sa.periodContrib < 1024)
    (hel : elapsed c.now sa.lastUpdateTime = .units delta) :
    (c.updateLoadAvg sa).1.periodContrib = (sa.periodContrib + delta) % 1024 := by
  obtain ⟨-, hlt, -⟩ := elapsed_units hel
  rw [updateLoadAvg_units hel]
  by_cases hx : 1024 ≤ delta + sa.periodContrib
  · rw [if_pos hx]
    exact crossPeriod_periodContrib c hpc hlt hx
  · have hfit : sa.periodContrib + delta < 1024 := by omega
    rw [if_neg hx, remainder_periodContrib c (by simp only; omega), Nat.mod_eq_of_lt hfit]

theorem load_updateLoadAvg {delta : Nat} {sa : SchedAvg} (hpc : sa.periodContrib < 1024)
    (hel : elapsed c.now sa.lastUpdateTime = .units delta) :
    (c.updateLoadAvg sa).1.load.sum =
      (c.loadAccruals.carry decayLoad sa.periodContrib delta sa.load).sum := by
  obtain ⟨-, hlt, -⟩ := elapsed_units hel
  rw [updateLoadAvg_units hel]
  by_cases hx : 1024 ≤ delta + sa.periodContrib
  · have hnot : ¬ sa.periodContrib + delta < 1024 := by omega
    have hclock : ({ sa with lastUpdateTime := c.now } : SchedAvg).periodContrib < 1024 := hpc
    rw [if_pos hx, crossPeriod_eq c hclock hlt hx, load_averages]
    simp [Accruals.carry, loadAccruals, hnot, remainder, wholePeriods, completePeriod, crossed,
      Signal.average]
  · have hfit : sa.periodContrib + delta < 1024 := by omega
    rw [if_neg hx]
    simp [Accruals.carry, loadAccruals, hfit, remainder]

theorem track_updateLoadAvg {delta : Nat} {sa : SchedAvg} {k : Track}
    (hpc : sa.periodContrib < 1024) (hel : elapsed c.now sa.lastUpdateTime = .units delta)
    (hk : k.active c.pemt = true) :
    ((c.updateLoadAvg sa).1.signal k).sum =
      ((c.trackAccruals k).carry k.decay sa.periodContrib delta (sa.signal k)).sum := by
  obtain ⟨-, hlt, -⟩ := elapsed_units hel
  have hk' : (c.pemt || !k.tracked) = true := hk
  have hkeep : ({ sa with lastUpdateTime := c.now, periodContrib := 0 } : SchedAvg).signal k =
      sa.signal k := by cases k <;> rfl
  rw [updateLoadAvg_units hel]
  by_cases hx : 1024 ≤ delta + sa.periodContrib
  · have hnot : ¬ sa.periodContrib + delta < 1024 := by omega
    have hclock : ({ sa with lastUpdateTime := c.now } : SchedAvg).periodContrib < 1024 := hpc
    rw [if_pos hx, crossPeriod_eq c hclock hlt hx, signal_averages, if_pos hk', signal_remainder hk,
      wholePeriods, signal_accrue_active hk, signal_decay, if_pos hk', completePeriod,
      signal_accrue_active hk]
    simp only [Accruals.carry, trackAccruals, hnot, if_false, crossed, Signal.average, hkeep]
  · have hfit : sa.periodContrib + delta < 1024 := by omega
    rw [if_neg hx, signal_remainder hk]
    simp only [Accruals.carry, trackAccruals, hfit, if_true, signal_with_lastUpdateTime]

theorem exactPeriods {delta : Nat} {sa : SchedAvg} (hpc : sa.periodContrib < 1024)
    (hel : elapsed c.now sa.lastUpdateTime = .units delta) : c.ExactPeriods delta sa := by
  obtain ⟨-, hlt, -⟩ := elapsed_units hel
  have hw : sub32 1024 sa.periodContrib = 1024 - sa.periodContrib :=
    sub32_of_le hpc.le (by norm_num)
  have hleft : 1024 ≤ sa.periodContrib + delta →
      sub64 delta (1024 - sa.periodContrib) = delta - (1024 - sa.periodContrib) :=
    fun hx => sub64_of_le (by omega) (by omega)
  have hcontrib := periodContrib_units hpc hel
  constructor
  case complete => rw [hw]; omega
  case left =>
    intro hx
    rw [hw, hleft hx]
    omega
  case split =>
    intro hx
    rw [hw, hleft hx]
    omega
  case exponent => exact decayExponent_units hpc hel
  case contrib_lt => rw [hcontrib]; exact Nat.mod_lt _ (by norm_num)
  case contrib_eq => exact hcontrib
  case load => exact load_updateLoadAvg hpc hel
  case tracks => exact fun k hk => track_updateLoadAvg hpc hel hk
  case untracked => exact fun k hk => signal_updateLoadAvg_inactive hk sa

end UpdateCall

/-- The runnable load of a runqueue keeps the same books as its load. -/
theorem runnable_updateCfsLoadAvg (w : World) {now q delta : Nat} {h : Heap}
    (hpc : (h.cfs q).avg.periodContrib < 1024)
    (hel : elapsed now (h.cfs q).avg.lastUpdateTime = .units delta) :
    ((h.updateCfsLoadAvg w now q).1.cfs q).runnable.sum =
      ((h.cfsCall w now q).loadAccruals.carry decayLoad (h.cfs q).avg.periodContrib delta
        (h.cfs q).runnable).sum := by
  have hsame : ∀ c : UpdateCall,
      (c.recorded (h.cfs q).avg).periodContrib = (h.cfs q).avg.periodContrib ∧
        (c.recorded (h.cfs q).avg).lastUpdateTime = (h.cfs q).avg.lastUpdateTime := by
    intro c
    simp only [UpdateCall.recorded]
    split <;> exact ⟨rfl, rfl⟩
  obtain ⟨hcontrib, hlast⟩ := hsame (h.cfsCall w now q)
  rw [Heap.updateCfsLoadAvg_eq]
  simp only [Heap.setCfs, Function.update_self]
  rw [← hcontrib] at hpc ⊢
  rw [← hlast] at hel
  exact UpdateCall.load_updateLoadAvg hpc hel

/-! An elapsed time divided among calls. -/

/-- The clock readings of calls that follow one another at these gaps. -/
def callTimes : Nat → List Nat → List Nat
  | _, [] => []
  | t, m :: ms => u64 (t + 1024 * m) :: callTimes (u64 (t + 1024 * m)) ms

/-- A `sched_avg` and the sum of the decay exponents its calls have applied. -/
structure DecayBook where
  sa : SchedAvg
  exponent : Nat
  deriving DecidableEq, Repr

namespace DecayBook

def call (b : DecayBook) (c : UpdateCall) : DecayBook :=
  ⟨(c.updateLoadAvg b.sa).1, b.exponent + c.decayExponent b.sa⟩

def counter (b : DecayBook) : PeriodCounter := ⟨b.sa.periodContrib, b.exponent⟩

variable {b : DecayBook} {c : UpdateCall}

theorem elapsed_gap {t m : Nat} (ht : t < 2 ^ 64) (hm : 1024 * m < 2 ^ 63) :
    elapsed (u64 (t + 1024 * m)) t = if m = 0 then .tooShort else .units m := by
  have hsub : sub64 (u64 (t + 1024 * m)) t = 1024 * m := by
    simp only [sub64, u64]
    omega
  have hunits : (1024 * m) >>> 10 = m := by
    rw [Nat.shiftRight_eq_div_pow]
    omega
  simp only [elapsed, hsub, s64_of_lt hm, hunits]
  rw [if_neg (by omega)]

/-- A call moves the book as the elapsed units move the counter. -/
theorem counter_call {m : Nat} (hpc : b.sa.periodContrib < 1024)
    (hlast : b.sa.lastUpdateTime < 2 ^ 64) (hm : 1024 * m < 2 ^ 63)
    (hnow : c.now = u64 (b.sa.lastUpdateTime + 1024 * m)) :
    (b.call c).counter = b.counter.advance 1024 m := by
  have hel := elapsed_gap hlast hm
  rw [← hnow] at hel
  by_cases hz : m = 0
  · rw [if_pos hz] at hel
    rw [hz, PeriodCounter.advance_zero hpc]
    simp [call, counter, UpdateCall.updateLoadAvg, UpdateCall.decayExponent, hel]
  · rw [if_neg hz] at hel
    have hbooks := UpdateCall.exactPeriods hpc hel
    simp [call, counter, PeriodCounter.advance, hbooks.contrib_eq, hbooks.exponent]

theorem lastUpdateTime_call {m : Nat} (hlast : b.sa.lastUpdateTime < 2 ^ 64)
    (hm : 1024 * m < 2 ^ 63) (hnow : c.now = u64 (b.sa.lastUpdateTime + 1024 * m)) :
    (b.call c).sa.lastUpdateTime = c.now := by
  have hel := elapsed_gap hlast hm
  rw [← hnow] at hel
  rw [call, UpdateCall.updateLoadAvg_lastUpdateTime, hel]
  by_cases hz : m = 0
  · rw [if_pos hz, if_pos rfl, hnow, hz, Nat.mul_zero, Nat.add_zero, u64_of_lt hlast]
  · rw [if_neg hz, if_neg (by simp)]

theorem run_calls {cs : List UpdateCall} {ms : List Nat} (hpc : b.sa.periodContrib < 1024)
    (hlast : b.sa.lastUpdateTime < 2 ^ 64) (hms : 1024 * ms.sum < 2 ^ 63)
    (hnow : cs.map UpdateCall.now = callTimes b.sa.lastUpdateTime ms) :
    (run call b cs).counter = run (PeriodCounter.advance 1024) b.counter ms ∧
      (run call b cs).sa.lastUpdateTime = u64 (b.sa.lastUpdateTime + 1024 * ms.sum) := by
  induction ms generalizing b cs with
  | nil =>
    obtain rfl : cs = [] := by simpa [callTimes] using hnow
    simp [u64_of_lt hlast]
  | cons m ms ih =>
    cases cs with
    | nil => simp [callTimes] at hnow
    | cons c cs =>
      simp only [List.map_cons, callTimes, List.cons.injEq] at hnow
      obtain ⟨hfirst, hrest⟩ := hnow
      simp only [List.sum_cons] at hms ⊢
      have hm : 1024 * m < 2 ^ 63 := by omega
      have hcount := counter_call hpc hlast hm hfirst
      have hclock := lastUpdateTime_call hlast hm hfirst
      have hpc' : (b.call c).sa.periodContrib < 1024 := by
        have hpos := PeriodCounter.advance_pos_lt (P := 1024) (by norm_num) b.counter m
        rwa [← hcount] at hpos
      have hlast' : (b.call c).sa.lastUpdateTime < 2 ^ 64 := by
        rw [hclock, hfirst]
        exact u64_lt _
      rw [← hfirst, ← hclock] at hrest
      obtain ⟨hrun, htime⟩ := ih hpc' hlast' (by omega) hrest
      rw [run_cons, run_cons]
      refine ⟨by rw [hrun, hcount], ?_⟩
      rw [htime, hclock, hfirst]
      simp only [u64]
      omega

theorem counter_inj {b b' : DecayBook} (h : b.counter = b'.counter) :
    b.sa.periodContrib = b'.sa.periodContrib ∧ b.exponent = b'.exponent := by
  simpa [counter] using h

/-- Divided among calls or spent in one, a time leaves the same clock and exponent. -/
theorem run_calls_eq_call {cs : List UpdateCall} {ms : List Nat} (hpc : b.sa.periodContrib < 1024)
    (hlast : b.sa.lastUpdateTime < 2 ^ 64) (hms : 1024 * ms.sum < 2 ^ 63)
    (hnow : cs.map UpdateCall.now = callTimes b.sa.lastUpdateTime ms)
    (hc : c.now = u64 (b.sa.lastUpdateTime + 1024 * ms.sum)) :
    (run call b cs).sa.lastUpdateTime = (b.call c).sa.lastUpdateTime ∧
      (run call b cs).sa.periodContrib = (b.call c).sa.periodContrib ∧
      (run call b cs).exponent = (b.call c).exponent := by
  obtain ⟨hrun, htime⟩ := run_calls hpc hlast hms hnow
  have hone := counter_call hpc hlast hms hc
  rw [PeriodCounter.run_advance (by norm_num) hpc, ← hone] at hrun
  exact ⟨by rw [htime, lastUpdateTime_call hlast hms hc, hc], counter_inj hrun⟩

end DecayBook

theorem periods_exact {sa : SchedAvg} (hpc : sa.periodContrib < 1024) :
    (∀ (c : UpdateCall) (delta : Nat), elapsed c.now sa.lastUpdateTime = .units delta →
      c.ExactPeriods delta sa) ∧
    (∀ c : UpdateCall, elapsed c.now sa.lastUpdateTime = .tooShort →
      (c.updateLoadAvg sa).1 = sa ∧ c.decayExponent sa = 0) ∧
    (∀ c : UpdateCall, elapsed c.now sa.lastUpdateTime = .backwards →
      (c.updateLoadAvg sa).1 = { sa with lastUpdateTime := c.now } ∧ c.decayExponent sa = 0) ∧
    (∀ (w : World) (now q delta : Nat) (h : Heap), (h.cfs q).avg = sa →
      elapsed now sa.lastUpdateTime = .units delta →
      ((h.updateCfsLoadAvg w now q).1.cfs q).runnable.sum =
        ((h.cfsCall w now q).loadAccruals.carry decayLoad sa.periodContrib delta
          (h.cfs q).runnable).sum) ∧
    ∀ (cs : List UpdateCall) (ms : List Nat) (c : UpdateCall) (n : Nat),
      sa.lastUpdateTime < 2 ^ 64 → 1024 * ms.sum < 2 ^ 63 →
      cs.map UpdateCall.now = callTimes sa.lastUpdateTime ms →
      c.now = u64 (sa.lastUpdateTime + 1024 * ms.sum) →
      (run DecayBook.call ⟨sa, n⟩ cs).sa.lastUpdateTime =
          ((⟨sa, n⟩ : DecayBook).call c).sa.lastUpdateTime ∧
        (run DecayBook.call ⟨sa, n⟩ cs).sa.periodContrib =
          ((⟨sa, n⟩ : DecayBook).call c).sa.periodContrib ∧
        (run DecayBook.call ⟨sa, n⟩ cs).exponent = ((⟨sa, n⟩ : DecayBook).call c).exponent := by
  refine ⟨?_, ?_, ?_, ?_, ?_⟩
  · exact fun c delta hel => UpdateCall.exactPeriods hpc hel
  · intro c hel
    simp [UpdateCall.updateLoadAvg, UpdateCall.decayExponent, hel]
  · intro c hel
    simp [UpdateCall.updateLoadAvg, UpdateCall.decayExponent, hel]
  · rintro w now q delta h rfl hel
    exact runnable_updateCfsLoadAvg w hpc hel
  · intro cs ms c n hlast hms hnow hc
    exact DecayBook.run_calls_eq_call (b := ⟨sa, n⟩) hpc hlast hms hnow hc

/-- A call that finds `now` on an idle CPU, without per-entity memory tracking. -/
def untrackedCall (now : Nat) : UpdateCall := ⟨now, 0, false, false, 0, 1024, 1024⟩

/-- A call that finds `now` under a task that runs with the tracking on and stalls in half of its
cycles. -/
def trackedCall (now : Nat) : UpdateCall := ⟨now, 1024, true, true, 512, 1024, 1024⟩

theorem periods_exact_at_start :
    (untrackedCall 2048).ExactPeriods 2 (initEntityRunnableAverage idleAvg true 1048576 none) ∧
      (trackedCall (5 * 2 ^ 20)).ExactPeriods 5120
        (initEntityRunnableAverage idleAvg true 1048576 none) ∧
      (run DecayBook.call ⟨initEntityRunnableAverage idleAvg true 1048576 none, 0⟩
          [untrackedCall 1024, untrackedCall 2048]).exponent =
        ((⟨initEntityRunnableAverage idleAvg true 1048576 none, 0⟩ : DecayBook).call
          (untrackedCall 2048)).exponent :=
  ⟨(periods_exact (by decide)).1 (untrackedCall 2048) 2 (by decide),
    (periods_exact (by decide)).1 (trackedCall (5 * 2 ^ 20)) 5120 (by decide),
    ((periods_exact (by decide)).2.2.2.2 [untrackedCall 1024, untrackedCall 2048] [1, 1]
      (untrackedCall 2048) 0 (by decide) (by decide) (by decide) (by decide)).2.2⟩

/-- With the flag off a core sum keeps its value over a whole period; a clock that
went back changes no position; and 2^63 ns in one piece read as a clock that went back. -/
theorem periods_not_exact :
    (¬ ∀ (c : UpdateCall) (sa : SchedAvg) (delta : Nat) (k : Track), sa.periodContrib < 1024 →
      elapsed c.now sa.lastUpdateTime = .units delta →
      ((c.updateLoadAvg sa).1.signal k).sum =
        ((c.trackAccruals k).carry k.decay sa.periodContrib delta (sa.signal k)).sum) ∧
    (¬ ∀ (c : UpdateCall) (sa : SchedAvg), sa.periodContrib < 1024 →
      (c.updateLoadAvg sa).1.periodContrib =
        (sa.periodContrib + sub64 c.now sa.lastUpdateTime / 1024) % 1024) ∧
    ¬ ∀ (sa : SchedAvg) (cs : List UpdateCall) (ms : List Nat) (c : UpdateCall),
      sa.periodContrib < 1024 → sa.lastUpdateTime < 2 ^ 64 →
      cs.map UpdateCall.now = callTimes sa.lastUpdateTime ms →
      c.now = u64 (sa.lastUpdateTime + 1024 * ms.sum) →
      (run DecayBook.call ⟨sa, 0⟩ cs).exponent = ((⟨sa, 0⟩ : DecayBook).call c).exponent := by
  refine ⟨?_, ?_, ?_⟩
  · intro h
    have hcore := h (untrackedCall (2 ^ 20)) { idleAvg with coreUtil := ⟨1000, 0⟩ } 1024 .coreUtil
      (by decide) (by decide)
    exact absurd hcore (by decide)
  · intro h
    exact absurd (h (untrackedCall 0) { idleAvg with lastUpdateTime := 1024 } (by decide)) (by decide)
  · intro h
    have hcalls := h idleAvg [untrackedCall (2 ^ 62), untrackedCall (2 ^ 63)] [2 ^ 52, 2 ^ 52]
      (untrackedCall (2 ^ 63)) (by decide) (by decide) (by decide) (by decide)
    exact absurd hcalls (by decide)

end MSchedutil
