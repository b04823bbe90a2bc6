import MSchedutil.WorkMeter

/-! What a settlement books as busy and as idle. The charges of different tasks overlap only
where a task was switched in with its clock left behind. -/

namespace MSchedutil

open Word Transition Metering

namespace SchedCore

variable {hw : Hardware} {s : SchedCore}

/-- The settled interval, in units of 1024 ns. -/
def interval (s : SchedCore) : Nat :=
  sub64 (s.clock workCore) (s.cycles.execClearTime workCore) >>> 10

/-- The totals of `s'` are those of `s` and `idle` and `busy` units more, at the work core's
frequency. -/
structure Books (hw : Hardware) (s s' : SchedCore) (idle busy : Nat) : Prop where
  idleTime : s'.cycles.totalIdleTimeSum = u64 (s.cycles.totalIdleTimeSum + idle)
  busyTime : s'.cycles.totalBusyTimeSum = u64 (s.cycles.totalBusyTimeSum + busy)
  idleCycles : s'.cycles.totalIdleCycleSum =
    u64 (s.cycles.totalIdleCycleSum + u64 (idle * hw.scaleFreq workCore))
  busyCycles : s'.cycles.totalBusyCycleSum =
    u64 (s.cycles.totalBusyCycleSum + u64 (busy * hw.scaleFreq workCore))

theorem settle_books (h : s.Settles hw) : s.Books hw (s.settle hw)
    (s.interval - s.cycles.execTime workCore) (s.cycles.execTime workCore) := by
  rw [settle_eq h]
  unfold CycleStats.settle
  dsimp only
  rw [if_neg h.2]
  exact ⟨rfl, rfl, rfl, rfl⟩

/-- The execution time exceeds the interval by the late switch-ins at most, and idle and busy
time make up the larger of the two. -/
def Partitioned (hw : Hardware) (s : SchedCore) : Prop :=
  s.Settles hw → s.cycles.execTime workCore < 2 ^ 63 ∧
    s.cycles.execTime workCore ≤ s.interval + s.late workCore ∧
    ∃ idle busy, s.Books hw (s.settle hw) idle busy ∧
      idle + busy = max s.interval (s.cycles.execTime workCore) ∧
      (s.late workCore = 0 → idle + busy = s.interval)

theorem Metered.interval_eq (h : s.Metered) : s.interval = (s.meter.clock - s.meter.clear) / 1024 := by
  have hclock := h.clocked.clock_lt workCore
  unfold interval
  rw [sub64_of_le h.clear_le (by omega), Nat.shiftRight_eq_div_pow]
  rfl

theorem Metered.partitioned (h : s.Metered) (hb : s.meter.Bounded 1024) : s.Partitioned hw := by
  intro hset
  obtain ⟨hlate, hspan⟩ := hb.exec_le (by decide)
  rw [← h.interval_eq] at hlate
  have hexec : s.meter.exec = s.cycles.execTime workCore := rfl
  have hclock : s.meter.clock < 2 ^ 63 := h.clocked.clock_lt workCore
  have hover : s.cycles.execTime workCore ≤ s.interval + s.late workCore := hlate
  refine ⟨by omega, hover, _, _, settle_books hset, by omega, fun hnone => by omega⟩

theorem Metered.bounded (h : s.Metered) (hexec : s.cycles.execTime workCore = 0) :
    s.meter.Bounded 1024 := by
  have hzero : s.meter.exec = 0 := hexec
  refine ⟨s.meter.clear, le_refl _, h.clear_le, by omega,
    fun last hl => ⟨h.last_le hl, by omega⟩, ?_⟩
  cases hl : s.meter.last with
  | none => simp [hzero]
  | some last =>
    dsimp only [Option.elim_some]
    omega

end SchedCore

/-- Counters that stand still, and only the cycle tracking enabled. -/
def plainHardware : Hardware where
  counter _ _ _ := 0
  counter_mono _ _ := monotone_const
  scaleFreq _ := 1024
  scaleCpu _ := 1024
  pemt := false
  cycle := true

theorem restingCore_metered : restingCore.Metered := ⟨restingCore_clocked, le_refl _⟩

/-- A task runs for two units and is preempted by one that woke up 1023 ns ago. -/
def latePreemption : List SchedEvent :=
  [.enqueue 3 4096 0, .pick 3 4096 (some 0), .enqueue 3 5121 1, .pick 3 6144 (some 1), .tick 3 6145,
    .settle]

theorem latePreemption_valid :
    Along (SchedCore.next plainHardware) SchedCore.Valid restingCore latePreemption := by decide +kernel

end MSchedutil
