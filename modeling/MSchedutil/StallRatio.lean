import MSchedutil.SchedCore

/-! What `pkshin_pmu_get` makes of the event counters: the counts since the last sample,
of which a sample that read zero is taken for none, and the score computed from them. -/

namespace MSchedutil

open Word Transition

/-- The counters of a CPU: the events since the reset, and the baselines. -/
structure Pmu where
  total : PmuEvent → Nat
  prev : PmuEvent → Nat

/-- The two functions that sample the counters, after some more events. -/
inductive PmuSample
  | update (events : PmuEvent → Nat)
  | get (events : PmuEvent → Nat)

namespace Pmu

/-- `enable_pmu_want` resets the counters and zeroes the baselines. -/
def enablePmuWant : Pmu := ⟨fun _ => 0, fun _ => 0⟩

/-- What the counters read: 32 bits of the events since the reset. -/
def reading (s : Pmu) (events : PmuEvent → Nat) (e : PmuEvent) : Nat := u32 (s.total e + events e)

def sample (s : Pmu) (events : PmuEvent → Nat) : Pmu :=
  ⟨fun e => s.total e + events e, s.reading events⟩

def next (s : Pmu) : PmuSample → Pmu
  | .update events => s.sample events
  | .get events => s.sample events

end Pmu

/-- The stall score of the counts, in whole units. -/
def stallScore (count : PmuEvent → Nat) : Nat :=
  1426 * count .backendStall / count .cycles + 415 * count .frontendStall / count .cycles +
    2395 * count .mispredicted / count .instRetired

theorem pmuRatio_eq (base reading : PmuEvent → Nat) : pmuRatio base reading =
    if stallScore (pmuCount base reading) > 213
      then min (u32 (stallScore (pmuCount base reading) - 213)) 1024 else 0 := rfl

/-- The counts are the events, nothing is divided by zero, and the score is not truncated. -/
structure PmuExact (base reading events : PmuEvent → Nat) : Prop where
  counts : ∀ e, pmuCount base reading e = events e
  cycles : pmuCount base reading .cycles ≠ 0
  instRetired : pmuCount base reading .instRetired ≠ 0
  ratio : pmuRatio base reading = min 1024 (stallScore events - 213)

/-- Every event that happened has a baseline, and the score fits 32 bits or is no less than
full after losing the bits above. -/
structure PmuReadable (base events : PmuEvent → Nat) : Prop where
  baseline : ∀ e, base e ≠ 0 ∨ events e = 0
  fits : stallScore events - 213 < 2 ^ 32 ∨ 1024 ≤ u32 (stallScore events - 213)

/-- A difference of readings is the number of events, also across a wrap. -/
theorem pmuCount_sampled (total : PmuEvent → Nat) {events : PmuEvent → Nat} {e : PmuEvent}
    (h : events e < 2 ^ 32) :
    pmuCount (fun e => u32 (total e)) (fun e => u32 (total e + events e)) e =
      if u32 (total e) ≠ 0 then events e else 0 := by
  have hdiff : sub32 (u32 (total e + events e)) (u32 (total e)) = events e := by
    unfold sub32 u32
    omega
  unfold pmuCount
  rw [hdiff]

theorem min_u32_iff (score : Nat) : min (u32 score) 1024 = min 1024 score ↔
    score < 2 ^ 32 ∨ 1024 ≤ u32 score := by
  unfold u32
  omega

/-- A sample of at least one cycle and one instruction is exact if and only if it is readable. -/
theorem pmuExact_iff {total events : PmuEvent → Nat} (hlt : ∀ e, events e < 2 ^ 32)
    (hcycles : 0 < events .cycles) (hinst : 0 < events .instRetired) :
    PmuExact (fun e => u32 (total e)) (fun e => u32 (total e + events e)) events ↔
      PmuReadable (fun e => u32 (total e)) events := by
  have hcount := fun e => pmuCount_sampled total (hlt e)
  have hratio : (∀ e, pmuCount (fun e => u32 (total e)) (fun e => u32 (total e + events e)) e =
      events e) → (pmuRatio (fun e => u32 (total e)) (fun e => u32 (total e + events e)) =
        min 1024 (stallScore events - 213) ↔
          stallScore events - 213 < 2 ^ 32 ∨ 1024 ≤ u32 (stallScore events - 213)) := by
    intro hcounts
    rw [pmuRatio_eq, funext hcounts]
    split
    · exact min_u32_iff _
    · have hzero : stallScore events - 213 = 0 := by omega
      simp [hzero]
  constructor
  · intro h
    refine ⟨fun e => ?_, (hratio h.counts).mp h.ratio⟩
    by_cases hbase : u32 (total e) = 0
    · have hnone := h.counts e
      rw [hcount, if_neg (not_not.mpr hbase)] at hnone
      exact .inr hnone.symm
    · exact .inl hbase
  · intro h
    have hcounts : ∀ e, pmuCount (fun e => u32 (total e)) (fun e => u32 (total e + events e)) e =
        events e := by
      intro e
      rw [hcount]
      rcases h.baseline e with hbase | hnone
      · exact if_pos hbase
      · rw [hnone]
        split <;> rfl
    exact ⟨hcounts, by rw [hcounts]; omega, by rw [hcounts]; omega, (hratio hcounts).mpr h.fits⟩

namespace Pmu

/-- Between two samples every counter advances by less than its width, and the CPU runs. -/
def Advances (_ : Pmu) : PmuSample → Prop
  | .update events | .get events =>
    (∀ e, events e < 2 ^ 32) ∧ 0 < events .cycles ∧ 0 < events .instRetired

/-- A call of `pkshin_pmu_get` uses the events since the last sample. -/
def GetsExact (s : Pmu) : PmuSample → Prop
  | .update _ => True
  | .get events => PmuExact s.prev (s.reading events) events

/-- No counter that advances read zero at the last sample, and the score is not cut. -/
def GetsReadable (s : Pmu) : PmuSample → Prop
  | .update _ => True
  | .get events => PmuReadable s.prev events

/-- The baselines are the last readings. -/
def Sampled (s : Pmu) : Prop := s.prev = fun e => u32 (s.total e)

theorem Sampled.next {s : Pmu} (e : PmuSample) : (s.next e).Sampled := by
  cases e <;> rfl

end Pmu

/-- The estimates of a run are exact if and only if none of them meets a baseline that reads
zero, as the first after the reset does, or a score cut to 32 bits. -/
theorem stall_ratio_exact_iff {samples : List PmuSample}
    (h : Along Pmu.next Pmu.Advances Pmu.enablePmuWant samples) :
    Along Pmu.next Pmu.GetsExact Pmu.enablePmuWant samples ↔
      Along Pmu.next Pmu.GetsReadable Pmu.enablePmuWant samples := by
  have hsampled : Along Pmu.next (fun s e => s.Sampled ∧ s.Advances e) Pmu.enablePmuWant samples :=
    h.imp (I := Pmu.Sampled) (fun _ e _ _ => Pmu.Sampled.next e) (fun _ _ hs he => ⟨hs, he⟩) rfl
  refine hsampled.iff_of fun s e hs => ?_
  obtain ⟨hs, he⟩ := hs
  cases e with
  | update events => exact Iff.rfl
  | get events =>
    obtain ⟨hlt, hcycles, hinst⟩ := he
    unfold Pmu.GetsExact Pmu.GetsReadable
    unfold Pmu.Sampled at hs
    dsimp only
    rw [hs]
    exact pmuExact_iff hlt hcycles hinst

/-- Events between two samples of a CPU, by kind. -/
def events (cycles frontend backend inst mispredicted : Nat) : PmuEvent → Nat
  | .cycles => cycles
  | .frontendStall => frontend
  | .backendStall => backend
  | .instRetired => inst
  | .mispredicted => mispredicted

theorem events_lt {cycles frontend backend inst mispredicted : Nat} (hcycles : cycles < 2 ^ 32)
    (hfrontend : frontend < 2 ^ 32) (hbackend : backend < 2 ^ 32) (hinst : inst < 2 ^ 32)
    (hmispredicted : mispredicted < 2 ^ 32) (e : PmuEvent) :
    events cycles frontend backend inst mispredicted e < 2 ^ 32 := by
  cases e
  · exact hcycles
  · exact hfrontend
  · exact hbackend
  · exact hinst
  · exact hmispredicted

/-- A sample at the switch-in, and an estimate after 2000 cycles. -/
def switchedIn : List PmuSample :=
  [.update (events 500 10 20 300 1), .get (events 2000 100 600 1500 4)]

theorem stall_ratio_exact_switched_in :
    Along Pmu.next Pmu.GetsExact Pmu.enablePmuWant switchedIn := by
  have hadvances : Along Pmu.next Pmu.Advances Pmu.enablePmuWant switchedIn :=
    ⟨⟨events_lt (by decide) (by decide) (by decide) (by decide) (by decide), by decide, by decide⟩,
      ⟨events_lt (by decide) (by decide) (by decide) (by decide) (by decide), by decide, by decide⟩,
      trivial⟩
  refine (stall_ratio_exact_iff hadvances).mpr ⟨trivial, ⟨fun e => ?_, .inl (by decide)⟩, trivial⟩
  cases e <;> decide

/-- The first estimate after the reset counts nothing and divides by zero, and so does one
whose baseline read zero at a wrap. A score of 2^32 + 678 passes for 465. -/
theorem stall_ratio_loses_events :
    pmuCount Pmu.enablePmuWant.prev (Pmu.enablePmuWant.reading (events 2000 100 600 1500 4)) .cycles = 0 ∧
      (let s := run Pmu.next Pmu.enablePmuWant
        [.update (events (2 ^ 32 - 1) 10 20 300 1), .update (events 1 1 1 1 1)]
      pmuCount s.prev (s.reading (events 2000 100 600 1500 4)) .cycles = 0) ∧
      (let s := run Pmu.next Pmu.enablePmuWant [.update (events 1 1 1 1 1)]
      pmuRatio s.prev (s.reading (events 1 0 3011899 1 0)) = 465) ∧
      ¬ ∀ samples : List PmuSample, Along Pmu.next Pmu.Advances Pmu.enablePmuWant samples →
        Along Pmu.next Pmu.GetsExact Pmu.enablePmuWant samples := by
  refine ⟨by decide, by decide, by decide, fun hall => ?_⟩
  have hadvances : Along Pmu.next Pmu.Advances Pmu.enablePmuWant [.get (events 2000 100 600 1500 4)] :=
    ⟨⟨events_lt (by decide) (by decide) (by decide) (by decide) (by decide), by decide, by decide⟩, trivial⟩
  obtain ⟨hexact, -⟩ := hall _ hadvances
  exact hexact.cycles (by decide)

end MSchedutil
