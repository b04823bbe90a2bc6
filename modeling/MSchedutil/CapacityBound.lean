import MSchedutil.CoreMemorySplit

/-! The averages against the capacity of the CPU. The contribution of a gap that
saturates the tables counts the current period a second time, so the averages
stay within capacity only while no running call spans such a gap. -/

namespace MSchedutil

open Word Transition

/-- No average exceeds the capacity `C`. -/
def SchedAvg.AveragesWithin (C : Nat) (sa : SchedAvg) : Prop := ∀ k, (sa.signal k).avg ≤ C

/-- The gap from which the contribution of a time constant is saturated. -/
def Track.maxN (k : Track) : Nat := k.pick loadAvgMaxN loadAvgFastMaxN

namespace UpdateCall

variable {c : UpdateCall} {C : Nat}

/-- A running call crosses at most `n` period boundaries. -/
def GapWithin (n : Nat) (sa : SchedAvg) (c : UpdateCall) : Prop :=
  c.running = true → ∀ delta, elapsed c.now sa.lastUpdateTime = .units delta →
    crossed sa.periodContrib delta ≤ n

/-- The history that unsaturated gaps can build up. -/
def tight (k : Track) : Nat := k.pick 46765 3940

/-- The tight history for the tracks with the time constant of `k`, any history for the others. -/
def tightFor (k t : Track) : Nat := if t.fast = k.fast then tight t else anyGap t

theorem tightFor_le (k t : Track) : tightFor k t ≤ 50000 := by cases k <;> cases t <;> decide

theorem room_tight {n : Nat} (hn : n ≠ 0) {k : Track} (hr : c.running = true → n ≤ k.maxN) :
    c.Room (tight k) C n k := by
  obtain ⟨p, rfl⟩ := Nat.exists_eq_succ_of_ne_zero hn
  unfold Room
  rw [Nat.succ_sub_one]
  cases hrun : c.running
  · have hs := decayLoad_le (M := 46765) p C le_rfl
    have hf := decayFastLoad_le (M := 3940) p C le_rfl
    have hk : k.decay ((tight k + 1024) * C) (p + 1) ≤ tight k * C := by cases k <;> assumption
    simpa using hk
  · have hlt : p < k.maxN := hr hrun
    simp only [if_true]
    cases hfast : k.fast
    · simp only [Track.maxN, Track.pick, hfast, Bool.false_eq_true, if_false] at hlt
      have hs := decayLoad_add_contrib_le (M := 46765) C hlt le_rfl
      cases k <;> first | exact hs | cases hfast
    · simp only [Track.maxN, Track.pick, hfast, if_true] at hlt
      have hf := decayFastLoad_add_contrib_le (M := 3940) C hlt le_rfl
      cases k <;> first | exact hf | cases hfast

theorem room_tightFor {n : Nat} (hn : n ≠ 0) {k : Track} (hr : c.running = true → n ≤ k.maxN)
    (t : Track) : c.Room (tightFor k t) C n t := by
  unfold tightFor
  split
  · rename_i ht
    have hmax : t.maxN = k.maxN := by unfold Track.maxN Track.pick; rw [ht]
    exact room_tight hn (by rwa [hmax])
  · exact room_anyGap c hn t

/-- A tight history and the accrued part of a period average to at most the capacity. -/
theorem avg_le_of_tight {k : Track} (hC : C ≤ 1024) {s d : Nat} (hd : d < 1024)
    (hs : s ≤ (tight k + d) * C) : s / k.max ≤ C := by
  have hle : s ≤ (tight k + 1023) * C := hs.trans (Nat.mul_le_mul_right C (by omega))
  rw [← Nat.lt_succ_iff, Nat.div_lt_iff_lt_mul k.max_pos]
  refine hle.trans_lt ?_
  have h₁ : tight k + 1023 ≤ k.max + 46 := by cases k <;> decide
  have h₂ : 46 * C < k.max ∨ tight k + 1023 ≤ k.max + 4 := by
    cases k <;> first | (left; simp [Track.max, Track.pick, Track.fast, loadAvgMax]; omega) |
      (right; decide)
  have h₃ : 4 * C < k.max := by
    have : 4959 ≤ k.max := by cases k <;> decide
    omega
  rcases h₂ with h₂ | h₂
  · calc (tight k + 1023) * C ≤ (k.max + 46) * C := Nat.mul_le_mul_right C h₁
      _ = C * k.max + 46 * C := by ring
      _ < C * k.max + k.max := by omega
      _ = C.succ * k.max := by rw [Nat.succ_mul]
  · calc (tight k + 1023) * C ≤ (k.max + 4) * C := Nat.mul_le_mul_right C h₂
      _ = C * k.max + 4 * C := by ring
      _ < C * k.max + k.max := by omega
      _ = C.succ * k.max := by rw [Nat.succ_mul]

theorem avg_of_not_decayed {sa : SchedAvg} (h : (c.updateLoadAvg sa).2 = false) (k : Track) :
    ((c.updateLoadAvg sa).1.signal k).avg = (sa.signal k).avg := by
  unfold updateLoadAvg at h ⊢
  cases he : elapsed c.now sa.lastUpdateTime with
  | backwards => simp
  | tooShort => rfl
  | units delta =>
    simp only [he] at h ⊢
    unfold accrueDelta at h ⊢
    dsimp only at h ⊢
    split at h
    · simp at h
    · rename_i hx
      simp only [hx, if_false, remainder, signal_with_periodContrib, signal_accrue,
        signal_with_lastUpdateTime, Signal.add32]
      split <;> rfl

/-- What the calls on one track keep: its tight bound, and with it its average. -/
structure WithinCapacity (C : Nat) (k : Track) (sa : SchedAvg) : Prop where
  bounded : sa.Bounded (tightFor k) C
  avg_le : (sa.signal k).avg ≤ C

theorem WithinCapacity.step (h : c.InRange) (hC : c.scaleCpu = C) {sa : SchedAvg} {k : Track}
    (hw : WithinCapacity C k sa) (hgap : GapWithin k.maxN sa c) :
    WithinCapacity C k (c.updateLoadAvg sa).1 := by
  have hC' : C ≤ 1024 := hC ▸ h.scaleCpu
  have hb : (c.updateLoadAvg sa).1.Bounded (tightFor k) C := by
    refine bounded_updateLoadAvg h hC.le hC' (tightFor_le k) hw.bounded ?_
    intro delta he hx t
    exact room_tightFor (by unfold crossed; omega) (fun hr => hgap hr delta he) t
  refine ⟨hb, ?_⟩
  cases hdec : (c.updateLoadAvg sa).2
  · rw [avg_of_not_decayed hdec]
    exact hw.avg_le
  · rw [avg_of_decayed h.pemt hdec]
    have hs := hb.sum_le k
    simp only [tightFor, if_true] at hs
    exact avg_le_of_tight hC' hb.contrib_lt hs

end UpdateCall

/-- One track stays within capacity while no running call saturates its time constant. -/
theorem avg_within_capacity {C : Nat} {sa₀ : SchedAvg} (h₀ : sa₀.Fresh) {k : Track}
    (havg : (sa₀.signal k).avg ≤ C) {calls : List UpdateCall}
    (h : ∀ c ∈ calls, c.InRange ∧ c.scaleCpu = C)
    (hgap : Along (fun sa c => (c.updateLoadAvg sa).1) (UpdateCall.GapWithin k.maxN) sa₀ calls) :
    ((runCalls sa₀ calls).signal k).avg ≤ C := by
  have hrange : Along (fun sa c => (c.updateLoadAvg sa).1)
      (fun _ c => c.InRange ∧ c.scaleCpu = C) sa₀ calls := along_of_forall (fun _ c hc => h c hc) sa₀
  have hw : UpdateCall.WithinCapacity C k (runCalls sa₀ calls) :=
    (hrange.and hgap).invariant (fun _ _ hw hc => hw.step hc.1.1 hc.1.2 hc.2)
      ⟨h₀.bounded _ _, havg⟩
  exact hw.avg_le

/-- Averages stay within the capacity in every run in which no running call
crosses more than 31 period boundaries, the first gap that saturates a table. -/
theorem averages_within_capacity {C : Nat} {sa₀ : SchedAvg} (h₀ : sa₀.Fresh)
    (havg : sa₀.AveragesWithin C) {calls : List UpdateCall}
    (h : ∀ c ∈ calls, c.InRange ∧ c.scaleCpu = C)
    (hgap : Along (fun sa c => (c.updateLoadAvg sa).1) (UpdateCall.GapWithin loadAvgFastMaxN)
      sa₀ calls) :
    (runCalls sa₀ calls).AveragesWithin C := by
  intro k
  have hmax : loadAvgFastMaxN ≤ k.maxN := by cases k <;> decide
  have hgap' : Along (fun sa c => (c.updateLoadAvg sa).1) (UpdateCall.GapWithin k.maxN) sa₀ calls :=
    hgap.imp (I := fun _ => True) (fun _ _ _ _ => trivial)
      (fun _ _ _ hg hr delta he => (hg hr delta he).trans hmax) trivial
  exact avg_within_capacity h₀ (havg k) h hgap'

theorem fresh_idleAvg : idleAvg.Fresh := ⟨fun k => by cases k <;> rfl, by decide⟩

/-- Two ticks 4 ms apart, half of the cycles stalled. -/
theorem averages_within_capacity_two_ticks :
    (runCalls idleAvg [⟨4096000, 1024, true, true, 512, 1024, 1024⟩,
      ⟨8192000, 1024, true, true, 512, 1024, 1024⟩]).AveragesWithin 1024 :=
  averages_within_capacity fresh_idleAvg (fun k => by cases k <;> decide)
    (by
      intro c hc
      simp only [List.mem_cons, List.not_mem_nil, or_false] at hc
      rcases hc with rfl | rfl <;> exact ⟨⟨rfl, by decide, by decide, by decide⟩, rfl⟩)
    ⟨fun _ delta he => by cases he; decide, fun _ delta he => by cases he; decide, trivial⟩

/-- A running call after 400 periods and 1023 units at full speed: the slow
average reaches 1045 and the fast one 1235, of a capacity of 1024. -/
def longGap : UpdateCall := ⟨(400 * 1024 + 1023) * 1024, 1024, true, true, 0, 1024, 1024⟩

theorem averages_exceed_capacity :
    ((runCalls idleAvg [longGap]).util.avg = 1045 ∧ (runCalls idleAvg [longGap]).utilFast.avg = 1235) ∧
    ¬ ∀ (C : Nat) (sa₀ : SchedAvg) (calls : List UpdateCall), sa₀.Fresh → sa₀.AveragesWithin C →
      (∀ c ∈ calls, c.InRange ∧ c.scaleCpu = C) → (runCalls sa₀ calls).AveragesWithin C := by
  have hval : (runCalls idleAvg [longGap]).util.avg = 1045 ∧
      (runCalls idleAvg [longGap]).utilFast.avg = 1235 := by decide +kernel
  refine ⟨hval, fun hall => ?_⟩
  have hle := hall 1024 idleAvg [longGap] fresh_idleAvg (fun k => by cases k <;> decide)
    (by
      intro c hc
      obtain rfl : c = longGap := by simpa using hc
      exact ⟨⟨rfl, by decide, by decide, by decide⟩, rfl⟩) .util
  have hutil : (runCalls idleAvg [longGap]).util.avg ≤ 1024 := hle
  omega

end MSchedutil
