import MSchedutil.BusyTime

/-! What a settlement books as idle against the time in which the work core had nothing to
run. Only a settlement that finds all that ran accounted for keeps the two apart. -/

namespace MSchedutil

open Word Transition Metering

namespace SchedCore

variable {hw : Hardware} {s : SchedCore}

/-- `cycle_module` has just enabled the tracking: the counts of the window begin. -/
structure TrackingStarts (s : SchedCore) : Prop where
  windowStart : s.windowStart = s.clock workCore
  calls : s.calls workCore = 0
  idle : s.idle workCore = 0
  touched_le : s.touched workCore ≤ s.clock workCore

/-- The amount that a settlement adds to `total_idle_time_sum`. -/
def bookedIdle (s : SchedCore) : Nat := s.interval - s.cycles.execTime workCore

/-- It is, in nanoseconds, at most the time without a fair task since the tracking started
or the last settlement, and a unit for each update since then. -/
def BooksIdle (hw : Hardware) (s : SchedCore) : Prop :=
  s.Settles hw →
    (s.settle hw).cycles.totalIdleTimeSum = u64 (s.cycles.totalIdleTimeSum + s.bookedIdle) ∧
      1024 * s.bookedIdle ≤ s.idle workCore + 1024 * s.calls workCore

instance (hw : Hardware) (s : SchedCore) : Decidable (s.BooksIdle hw) :=
  inferInstanceAs (Decidable (_ → _))

/-- The account begins no earlier than the window, and a running task was updated or
switched in at the clock that the settlement reads. -/
def AccountedFor (s : SchedCore) : Prop :=
  s.cycles.execClearTime workCore = s.windowStart ∧
    (s.fairRunning workCore = true → s.touched workCore = s.clock workCore)

instance : Decidable s.AccountedFor := inferInstanceAs (Decidable (_ ∧ _))

theorem Metered.covered (h : s.Metered) (hs : s.TrackingStarts) : s.meter.Covered 1024 := by
  have hsince : s.meter.since = s.meter.clock := hs.windowStart
  refine ⟨hsince ▸ h.clear_le, hsince.le, hs.touched_le, fun _ => h.last_le, fun hrun => ?_, fun _ => ?_⟩
  · have hrun' : s.fairRunning workCore = true := hrun
    unfold fairRunning at hrun'
    split at hrun'
    · rename_i i hi
      exact ⟨_, meter_last hi, by omega⟩
    · cases hrun'
  · omega

theorem Metered.booksIdle (h : s.Metered) (hcov : s.meter.Covered 1024) (hs : s.AccountedFor) :
    s.BooksIdle hw := by
  intro hset
  have hidle := hcov.idle_le hs.1 hs.2
  rw [← h.interval_eq] at hidle
  exact ⟨(settle_books hset).idleTime, hidle⟩

end SchedCore

/-- A task runs, is ticked and settled, sleeps, and the idle time after it is settled. -/
def runAndSleep : List SchedEvent :=
  [.enqueue 3 6000 0, .pick 3 6000 (some 0), .tick 3 9000, .settle, .dequeue 3 12000 0,
    .putPrev 3 12000, .pick 3 20000 none, .settle]

/-- A task has run for 10240 ns when another one wakes up. -/
def wakeUpBesides : List SchedEvent :=
  [.enqueue 3 4096 0, .pick 3 4096 (some 0), .enqueue 3 14336 1, .settle]

/-- The tracking has never been enabled before. -/
def unsettledCore : SchedCore := { restingCore with cycles := ⟨fun _ => 0, fun _ => 0, 0, 0, 0, 0⟩ }

end MSchedutil
