import MSchedutil.TouchesOnly
import MSchedutil.Aggregation

/-! New tasks: `post_init_entity_util_avg` gives each signal of a task a share of what its
runqueue has left, and attaches it; no number of tasks takes the runqueue over capacity. -/

namespace MSchedutil

open Word
open Transition (run run_nil run_cons Along)

/-- The cap of a new average, `num / den` of the capacity that is left. -/
def startCap (num den avg : Nat) : Int :=
  Int.tdiv (s64 (ofInt64 (s64 (sub64 schedCapacityScale avg) * num))) den

/-- Extrapolated from an average of the runqueue and its load. A quotient by zero is zero,
as on arm64. -/
def startAvg (cap avg loadAvg weight : Nat) : Nat :=
  if avg ≠ 0 then
    let start := u64 (avg * weight) / u64 (loadAvg + 1)
    if start > cap then cap else start
  else cap

/-- One signal of `post_init_entity_util_avg`; `avg` is the slow average of the runqueue. -/
def Signal.start (num den max avg loadAvg weight : Nat) (s : Signal) : Signal :=
  let cap := startCap num den avg
  if cap > 0 then .ofAvg32 max (startAvg (ofInt64 cap) avg loadAvg weight) else s

namespace SchedAvg

/-- The signals `post_init_entity_util_avg` gives an entity of that weight on a runqueue. -/
def postInit (pemt : Bool) (weight : Nat) (sa cfs : SchedAvg) : SchedAvg :=
  let sa := { sa with
    util := sa.util.start 1 2 loadAvgMax cfs.util.avg cfs.load.avg weight
    utilFast := sa.utilFast.start 1 2 loadAvgFastMax cfs.util.avg cfs.load.avg weight }
  if pemt then
    { sa with
      coreUtil := sa.coreUtil.start 4 13 loadAvgMax cfs.coreUtil.avg cfs.load.avg weight
      coreUtilFast := sa.coreUtilFast.start 4 13 loadAvgFastMax cfs.coreUtil.avg cfs.load.avg weight
      memoryUtil := sa.memoryUtil.start 4 13 loadAvgMax cfs.memoryUtil.avg cfs.load.avg weight
      memoryUtilFast :=
        sa.memoryUtilFast.start 4 13 loadAvgFastMax cfs.memoryUtil.avg cfs.load.avg weight }
  else sa

end SchedAvg

namespace Heap

/-- `propagate_entity_cfs_rq` over the entities it visits, from the parent up. -/
def propagateEntityCfsRq (w : World) (clock : Nat → Nat) (above : List Nat) (h : Heap) : Heap :=
  run (fun h i => h.updateLoadAvg w (clock (h.ses i).cfsRq) ⟨true, false⟩ i) h above

/-- `attach_entity_cfs_rq`; `ageLoad` is the feature `ATTACH_AGE_LOAD`. -/
def attachEntityCfsRq (w : World) (clock : Nat → Nat) (ageLoad : Bool) (above : List Nat) (i : Nat)
    (h : Heap) : Heap :=
  let q := (h.ses i).cfsRq
  let h := h.updateLoadAvg w (clock q) ⟨false, !ageLoad⟩ i
  let h := h.attachEntityLoadAvg w i
  let h := h.updateTgLoadAvg q false
  h.propagateEntityCfsRq w clock above

/-- `post_init_entity_util_avg`; a task of another class is not attached. -/
def postInitEntityUtilAvg (w : World) (clock : Nat → Nat) (ageLoad fair : Bool) (above : List Nat)
    (i : Nat) (h : Heap) : Heap :=
  let se := h.ses i
  let avg := se.avg.postInit w.pemt se.weight (h.cfsRqOf i).avg
  if se.myQ = none ∧ ¬ fair then
    h.setSe i { se with avg := { avg with lastUpdateTime := clock se.cfsRq } }
  else (h.setSe i { se with avg := avg }).attachEntityCfsRq w clock ageLoad above i

end Heap

/-- A task that is forked: its entity, its weight, and the averages its parent left in it. -/
structure NewTask where
  entity : Nat
  weight : Nat
  inherited : SchedAvg

/-- What all forks onto a runqueue have in common: the runqueue, the entities over it, and
what the load tracking reads besides the heap. -/
structure ForkSite where
  world : World
  clock : Nat → Nat
  ageLoad : Bool
  cfsRq : Nat
  above : List Nat

/-- A new task of the fair class on that runqueue, with `sched_freq()` false. -/
def ForkSite.fork (f : ForkSite) (h : Heap) (t : NewTask) : Heap :=
  let sa := initEntityRunnableAverage t.inherited true t.weight none
  let h := h.setSe t.entity ⟨sa, t.weight, false, f.cfsRq, none⟩
  h.postInitEntityUtilAvg f.world f.clock f.ageLoad true f.above t.entity

structure SchedAvg.WithinCapacity (sa : SchedAvg) : Prop where
  util : sa.util.avg ≤ schedCapacityScale
  core : sa.coreUtil.avg ≤ schedCapacityScale
  memory : sa.memoryUtil.avg ≤ schedCapacityScale

structure SchedAvg.Grown (sa sa' : SchedAvg) : Prop where
  util : sa.util.avg ≤ sa'.util.avg
  core : sa.coreUtil.avg ≤ sa'.coreUtil.avg
  memory : sa.memoryUtil.avg ≤ sa'.memoryUtil.avg

/-- No sum of the entity has wrapped. The weights of tasks are 32-bit ones scaled up by ten
bits; the load of one from `2 ^ 58` on may not fit its sum. -/
structure SchedEntity.ExactSums (se : SchedEntity) : Prop where
  signals : ∀ k, (se.avg.signal k).sum = (se.avg.signal k).avg * k.max
  load : se.weight < 2 ^ 58 → se.avg.load.sum = se.avg.load.avg * loadAvgMax

/-- Nothing is pending, and no whole unit of time has passed since the last update. -/
structure CfsRq.UpToDate (now : Nat) (cfs : CfsRq) : Prop where
  current : ∀ delta, elapsed now cfs.avg.lastUpdateTime ≠ .units delta
  drained : cfs.removed = ⟨0, 0, 0, 0, 0, 0, 0⟩

/-- What forks keep: the runqueue is up to date and within capacity, and the entities over
it are on other runqueues. -/
structure ForkSite.Ready (f : ForkSite) (h : Heap) : Prop where
  upToDate : (h.cfs f.cfsRq).UpToDate (f.clock f.cfsRq)
  capacity : (h.cfs f.cfsRq).avg.WithinCapacity
  above : ∀ i ∈ f.above, (h.ses i).cfsRq ≠ f.cfsRq

def ForkSite.newEntity (f : ForkSite) (h : Heap) (t : NewTask) : SchedEntity :=
  ⟨(initEntityRunnableAverage t.inherited true t.weight none).postInit f.world.pemt t.weight
    (h.cfs f.cfsRq).avg, t.weight, false, f.cfsRq, none⟩

section Start

variable {num den max avg loadAvg weight : Nat}

theorem ofInt64_natCast {n : Nat} (hn : n < 2 ^ 64) : ofInt64 (n : Int) = n := by
  simp only [ofInt64]
  omega

theorem startCap_eq (havg : avg ≤ schedCapacityScale) (hnum : num ≤ 1024) :
    startCap num den avg = ((schedCapacityScale - avg) * num / den : Nat) := by
  have hscale : schedCapacityScale = 1024 := rfl
  have hleft : sub64 schedCapacityScale avg = schedCapacityScale - avg :=
    sub64_of_le havg (by rw [hscale]; norm_num)
  have hprod : (schedCapacityScale - avg) * num ≤ 1024 * 1024 :=
    Nat.mul_le_mul (by omega) hnum
  have hsigned : s64 (schedCapacityScale - avg) * num = ((schedCapacityScale - avg) * num : Nat) := by
    rw [s64_of_lt (by omega), Int.natCast_mul]
  rw [startCap, hleft, hsigned, ofInt64_natCast (by omega), s64_of_lt (by omega)]
  exact (Int.ofNat_tdiv _ _).symm

example : [0, 512, 768, 896].map (startCap 1 2) = [512, 256, 128, 64] := by decide

theorem startAvg_le (cap avg loadAvg weight : Nat) : startAvg cap avg loadAvg weight ≤ cap := by
  simp only [startAvg]
  split
  · split <;> omega
  · omega

/-- A signal started from zero fits in what its runqueue has left, and its sum is exact. -/
theorem Signal.start_fits (havg : avg ≤ schedCapacityScale) (hnum : num ≤ 1024) (hle : num ≤ den)
    (hmax : max ≤ loadAvgMax) :
    avg + (Signal.start num den max avg loadAvg weight ⟨0, 0⟩).avg ≤ schedCapacityScale ∧
      (Signal.start num den max avg loadAvg weight ⟨0, 0⟩).sum =
        (Signal.start num den max avg loadAvg weight ⟨0, 0⟩).avg * max := by
  have hscale : schedCapacityScale = 1024 := rfl
  have hcap : (schedCapacityScale - avg) * num / den ≤ schedCapacityScale - avg := by
    refine Nat.div_le_of_le_mul ?_
    rw [Nat.mul_comm]
    exact Nat.mul_le_mul_right _ hle
  simp only [Signal.start, startCap_eq havg hnum]
  rw [ofInt64_natCast (by omega)]
  have hstart := startAvg_le ((schedCapacityScale - avg) * num / den) avg loadAvg weight
  split
  · refine ⟨by simp only [ofAvg32]; omega, ?_⟩
    refine u32_of_lt ?_
    calc startAvg _ avg loadAvg weight * max ≤ 1024 * loadAvgMax :=
          Nat.mul_le_mul (by omega) hmax
      _ < 2 ^ 32 := by decide
  · exact ⟨by simpa using havg, by simp⟩

end Start

namespace Track

def slow : Track → Track
  | .util | .utilFast => .util
  | .coreUtil | .coreUtilFast => .coreUtil
  | .memoryUtil | .memoryUtilFast => .memoryUtil

theorem max_le (k : Track) : k.max ≤ loadAvgMax := by cases k <;> decide

end Track

theorem SchedAvg.signal_postInit (pemt : Bool) (weight : Nat) (sa cfs : SchedAvg) (k : Track) :
    (postInit pemt weight sa cfs).signal k = if k.active pemt then
      (sa.signal k).start (if k.tracked then 4 else 1) (if k.tracked then 13 else 2) k.max
        (cfs.signal k.slow).avg cfs.load.avg weight
    else sa.signal k := by
  cases k <;> cases pemt <;> rfl

theorem SchedAvg.postInit_load (pemt : Bool) (weight : Nat) (sa cfs : SchedAvg) :
    (postInit pemt weight sa cfs).load = sa.load := by
  cases pemt <;> rfl

theorem SchedAvg.WithinCapacity.slow {sa : SchedAvg} (hs : sa.WithinCapacity) (k : Track) :
    (sa.signal k.slow).avg ≤ schedCapacityScale := by
  cases k with
  | util | utilFast => exact hs.util
  | coreUtil | coreUtilFast => exact hs.core
  | memoryUtil | memoryUtilFast => exact hs.memory

section NewEntity

variable {f : ForkSite} {h : Heap} {t : NewTask}

theorem newEntity_signal (hw : f.world.pemt = true)
    (hcap : (h.cfs f.cfsRq).avg.WithinCapacity) (k : Track) :
    ((h.cfs f.cfsRq).avg.signal k.slow).avg + ((f.newEntity h t).avg.signal k).avg ≤
        schedCapacityScale ∧
      ((f.newEntity h t).avg.signal k).sum = ((f.newEntity h t).avg.signal k).avg * k.max := by
  have hzero : (initEntityRunnableAverage t.inherited true t.weight none).signal k = ⟨0, 0⟩ := by
    cases k <;> rfl
  simp only [ForkSite.newEntity]
  rw [SchedAvg.signal_postInit, hw, Track.active_true, if_pos rfl, hzero]
  refine Signal.start_fits (hcap.slow k) ?_ ?_ k.max_le
  · split <;> omega
  · split <;> omega

theorem newEntity_exact (hw : f.world.pemt = true)
    (hcap : (h.cfs f.cfsRq).avg.WithinCapacity) : (f.newEntity h t).ExactSums := by
  refine ⟨fun k => (newEntity_signal hw hcap k).2, fun hweight => ?_⟩
  change t.weight < 2 ^ 58 at hweight
  have hdown : scaleLoadDown t.weight < 2 ^ 48 := by
    rw [scaleLoadDown, Nat.shiftRight_eq_div_pow]
    omega
  simp only [ForkSite.newEntity, SchedAvg.postInit_load]
  refine u64_of_lt ?_
  calc scaleLoadDown t.weight * loadAvgMax < 2 ^ 48 * loadAvgMax :=
        Nat.mul_lt_mul_of_pos_right hdown (by decide)
    _ < 2 ^ 64 := by decide

theorem fork_eq : f.fork h t = (h.setSe t.entity (f.newEntity h t)).attachEntityCfsRq f.world f.clock
    f.ageLoad f.above t.entity := by
  simp only [ForkSite.fork, Heap.postInitEntityUtilAvg, Heap.cfsRqOf,
    Heap.setSe_setSe, Heap.setSe_ses, Heap.setSe_cfs, Function.update_self]
  rfl

end NewEntity

section Attach

variable {w : World} {h : Heap} {i q now : Nat}

theorem UpdateCall.updateLoadAvg_upToDate (c : UpdateCall) {sa : SchedAvg}
    (hel : ∀ delta, elapsed c.now sa.lastUpdateTime ≠ .units delta) :
    ∃ last, c.updateLoadAvg sa = ({ sa with lastUpdateTime := last }, false) ∧
      ∀ delta, elapsed c.now last ≠ .units delta := by
  simp only [UpdateCall.updateLoadAvg]
  cases he : elapsed c.now sa.lastUpdateTime with
  | backwards => exact ⟨c.now, rfl, by simp [elapsed_self]⟩
  | tooShort => exact ⟨sa.lastUpdateTime, rfl, by simp [he]⟩
  | units delta => exact absurd he (hel delta)

theorem UpdateCall.recorded_upToDate (c : UpdateCall) {sa : SchedAvg}
    (hel : ∀ delta, elapsed c.now sa.lastUpdateTime ≠ .units delta) : c.recorded sa = sa := by
  simp only [UpdateCall.recorded, UpdateCall.records]
  cases he : elapsed c.now sa.lastUpdateTime with
  | backwards => rfl
  | tooShort => rfl
  | units delta => exact absurd he (hel delta)

namespace Heap

theorem drained_upToDate (pemt : Bool) (hup : (h.cfs q).removed = ⟨0, 0, 0, 0, 0, 0, 0⟩) :
    h.drained pemt q = h := by
  have hcfs : { h.cfs q with
      avg := (h.cfs q).avg.drain pemt (h.cfs q).removed
      removed := (h.cfs q).removed.taken pemt
      propagateAvg := (h.cfs q).propagateAvg || (h.cfs q).removed.propagates pemt } = h.cfs q := by
    rw [hup]
    cases hcfs : h.cfs q with
    | mk avg weight runnable contrib flag removed curr cpu isRoot tg =>
      rw [hcfs] at hup
      change removed = _ at hup
      subst hup
      cases pemt <;> simp [SchedAvg.drain, Signal.drain32, Signal.drain64, Removed.taken,
        Removed.propagates]
  rw [drained, hcfs, setCfs_self]

theorem updateCfs_upToDate (hup : (h.cfs q).UpToDate now) (updateFreq : Bool) :
    (∀ k, (((h.updateCfsRqLoadAvg w now q updateFreq).1.cfs q).avg.signal k) =
        (h.cfs q).avg.signal k) ∧
      ((h.updateCfsRqLoadAvg w now q updateFreq).1.cfs q).UpToDate now := by
  have hel : ∀ delta, elapsed (h.cfsCall w now q).now (h.cfs q).avg.lastUpdateTime ≠ .units delta :=
    hup.current
  obtain ⟨last, hlast, hcurrent⟩ := UpdateCall.updateLoadAvg_upToDate (h.cfsCall w now q) hel
  have hsame : ((h.updateCfsLoadAvg w now q).1.cfs q).avg =
      { (h.cfs q).avg with lastUpdateTime := last } := by
    rw [updateCfsLoadAvg_eq]
    simp only [setCfs_cfs, Function.update_self]
    rw [UpdateCall.recorded_upToDate (h.cfsCall w now q) hel, hlast]
  have hremoved : ((h.updateCfsLoadAvg w now q).1.cfs q).removed = (h.cfs q).removed := by
    rw [updateCfsLoadAvg_eq]
    simp
  have hcfs : ((h.updateCfsRqLoadAvg w now q updateFreq).1.cfs q) =
      ((h.updateCfsLoadAvg w now q).1.cfs q) := by
    rw [updateCfsRqLoadAvg_eq, drained_upToDate _ hup.drained]
    dsimp only
    split
    · rw [cfsRqUtilChange_cfs]
    · rfl
  rw [hcfs]
  refine ⟨fun k => ?_, ?_, hremoved.trans hup.drained⟩
  · rw [hsame, UpdateCall.signal_with_lastUpdateTime]
  · rw [hsame]
    exact hcurrent

/-- A new task is not aged, has nothing to propagate, and finds its runqueue up to date. -/
theorem updateLoadAvg_newTask (hm : (h.ses i).myQ = none) (hlast : (h.ses i).avg.lastUpdateTime = 0)
    (skip : Bool) : h.updateLoadAvg w now ⟨false, skip⟩ i =
      (h.updateCfsRqLoadAvg w now (h.ses i).cfsRq true).1 := by
  have hage : h.ageEntity w now ⟨false, skip⟩ i = h := by
    simp only [ageEntity]
    rw [if_neg (by simp [hlast])]
  have htask : ((h.updateCfsRqLoadAvg w now (h.ses i).cfsRq true).1.ses i).myQ = none := by
    rw [updateCfs_ses]
    exact hm
  simp only [updateLoadAvg, hage, propagateEntityLoadAvg, htask]
  simp

theorem updateTg_removed (force : Bool) (p : Nat) :
    ((h.updateTgLoadAvg q force).cfs p).removed = (h.cfs p).removed := by
  obtain ⟨contrib, he⟩ := updateTg_cfs (h := h) q force p
  rw [he]

/-- The updates of the entities over a runqueue leave it and everything else below alone. -/
theorem propagateEntityCfsRq_touches (w : World) (clock : Nat → Nat) (above : List Nat) (q : Nat)
    (h : Heap) :
    (∀ j, ((h.propagateEntityCfsRq w clock above).ses j).cfsRq = (h.ses j).cfsRq) ∧
      (∀ j, j ∉ above → (h.propagateEntityCfsRq w clock above).ses j = h.ses j) ∧
      ((∀ j ∈ above, (h.ses j).cfsRq ≠ q) →
        ((h.propagateEntityCfsRq w clock above).cfs q).avg = (h.cfs q).avg ∧
        ((h.propagateEntityCfsRq w clock above).cfs q).removed = (h.cfs q).removed) := by
  induction above generalizing h with
  | nil => exact ⟨fun _ => rfl, fun _ _ => rfl, fun _ => ⟨rfl, rfl⟩⟩
  | cons i above ih =>
    have hs := touchesOnly_updateLoadAvg (w := w) (h := h) (i := i) (clock (h.ses i).cfsRq)
      ⟨true, false⟩ rfl
    obtain ⟨hseats, hses, hcfs⟩ := ih (h.updateLoadAvg w (clock (h.ses i).cfsRq) ⟨true, false⟩ i)
    refine ⟨fun j => (hseats j).trans (hs.seats j), fun j hj => ?_, fun habove => ?_⟩
    · rw [List.mem_cons, not_or] at hj
      exact (hses j hj.2).trans (hs.ses j hj.1)
    · have hq : q ≠ (h.ses i).cfsRq := (habove i List.mem_cons_self).symm
      obtain ⟨havg, hremoved⟩ := hcfs fun j hj => by
        rw [hs.seats]
        exact habove j (List.mem_cons_of_mem i hj)
      exact ⟨havg.trans (hs.avg q hq), hremoved.trans (hs.removed q hq)⟩

theorem attach_ses : (h.attachEntityLoadAvg w i).ses = Function.update h.ses i
    { h.ses i with avg := { (h.ses i).avg with
      lastUpdateTime := (h.cfs (h.ses i).cfsRq).avg.lastUpdateTime } } := by
  simp [attachEntityLoadAvg]

theorem attach_upToDate (hup : (h.cfs (h.ses i).cfsRq).UpToDate now) :
    ((h.attachEntityLoadAvg w i).cfs (h.ses i).cfsRq).UpToDate now := by
  refine ⟨?_, ?_⟩
  · simpa [attachEntityLoadAvg] using hup.current
  · simpa [attachEntityLoadAvg] using hup.drained

theorem attach_signal (hw : w.pemt = true) (k : Track) :
    ((h.attachEntityLoadAvg w i).cfs (h.ses i).cfsRq).avg.signal k =
      ((h.cfs (h.ses i).cfsRq).avg.signal k).plus32 ((h.ses i).avg.signal k) := by
  simp only [attachEntityLoadAvg, cfsRqUtilChange_cfs, setCfs_cfs, Function.update_self]
  rw [SchedAvg.signal_attach, hw, Track.active_true, if_pos rfl]

/-- `attach_entity_cfs_rq` of a new task: its averages are added, and nothing else reaches
its runqueue. -/
theorem attachEntityCfsRq_newTask (clock : Nat → Nat) (above : List Nat) (hw : w.pemt = true)
    (hm : (h.ses i).myQ = none) (hlast : (h.ses i).avg.lastUpdateTime = 0)
    (hup : (h.cfs (h.ses i).cfsRq).UpToDate (clock (h.ses i).cfsRq))
    (habove : ∀ j ∈ above, (h.ses j).cfsRq ≠ (h.ses i).cfsRq) (ageLoad : Bool) :
    let h' := h.attachEntityCfsRq w clock ageLoad above i
    (∀ k, (h'.cfs (h.ses i).cfsRq).avg.signal k =
        ((h.cfs (h.ses i).cfsRq).avg.signal k).plus32 ((h.ses i).avg.signal k)) ∧
      (h'.cfs (h.ses i).cfsRq).UpToDate (clock (h.ses i).cfsRq) ∧
      (∀ j, (h'.ses j).cfsRq = (h.ses j).cfsRq) ∧
      ∀ j, j ∉ above → ∃ last, h'.ses j =
        { h.ses j with avg := { (h.ses j).avg with lastUpdateTime := last } } := by
  intro h'
  obtain ⟨hsignal, hcurrent⟩ := updateCfs_upToDate (w := w) hup true
  have hses := updateCfs_ses (w := w) (h := h) (q := (h.ses i).cfsRq) (clock (h.ses i).cfsRq) true
  generalize hg : (h.updateCfsRqLoadAvg w (clock (h.ses i).cfsRq) (h.ses i).cfsRq true).1 = g at *
  have hstart : h' = ((g.attachEntityLoadAvg w i).updateTgLoadAvg (h.ses i).cfsRq
      false).propagateEntityCfsRq w clock above := by
    simp only [h', attachEntityCfsRq]
    rw [updateLoadAvg_newTask hm hlast, hg]
  have hseat : (g.ses i).cfsRq = (h.ses i).cfsRq := by rw [hses]
  have hseats : ∀ j, (((g.attachEntityLoadAvg w i).updateTgLoadAvg (h.ses i).cfsRq
      false).ses j).cfsRq = (h.ses j).cfsRq := by
    intro j
    rw [updateTg_ses, attach_ses, hses]
    by_cases hj : j = i
    · subst hj
      simp
    · simp [hj]
  obtain ⟨htop, hothers, hqueue⟩ := propagateEntityCfsRq_touches w clock above
    (h.ses i).cfsRq ((g.attachEntityLoadAvg w i).updateTgLoadAvg (h.ses i).cfsRq false)
  obtain ⟨havg, hremoved⟩ := hqueue fun j hj => by
    rw [hseats]
    exact habove j hj
  rw [updateTg_avg] at havg
  rw [updateTg_removed] at hremoved
  rw [← hseat] at hcurrent
  have hattached := attach_upToDate (w := w) (i := i) hcurrent
  rw [hseat] at hattached
  rw [hstart]
  refine ⟨fun k => ?_, ⟨?_, ?_⟩, fun j => (htop j).trans (hseats j), fun j hj => ?_⟩
  · have hadded := attach_signal (h := g) (i := i) hw k
    rw [hseat, hsignal k, hses] at hadded
    rw [havg]
    exact hadded
  · rw [havg]
    exact hattached.current
  · rw [hremoved]
    exact hattached.drained
  · rw [hothers j hj, updateTg_ses, attach_ses, hses]
    by_cases hji : j = i
    · subst hji
      exact ⟨_, by rw [Function.update_self]⟩
    · exact ⟨(h.ses j).avg.lastUpdateTime, by rw [Function.update_of_ne hji]⟩

end Heap

end Attach

section Fork

variable {f : ForkSite} {h : Heap} {t : NewTask}

theorem fork_spec (hw : f.world.pemt = true) (hr : f.Ready h) (ht : t.entity ∉ f.above) :
    (∀ k, ((f.fork h t).cfs f.cfsRq).avg.signal k =
        ((h.cfs f.cfsRq).avg.signal k).plus32 ((f.newEntity h t).avg.signal k)) ∧
      ((f.fork h t).cfs f.cfsRq).UpToDate (f.clock f.cfsRq) ∧
      (∀ j ∈ f.above, ((f.fork h t).ses j).cfsRq = (h.ses j).cfsRq) ∧
      ∀ j, j ∉ f.above → ∃ last, (f.fork h t).ses j =
        let se := if j = t.entity then f.newEntity h t else h.ses j
        { se with avg := { se.avg with lastUpdateTime := last } } := by
  have hnew : (h.setSe t.entity (f.newEntity h t)).ses t.entity = f.newEntity h t := by simp
  have hlast : (f.newEntity h t).avg.lastUpdateTime = 0 := by
    simp [ForkSite.newEntity, SchedAvg.postInit, hw, initEntityRunnableAverage]
  have habove : ∀ j ∈ f.above, (h.setSe t.entity (f.newEntity h t)).ses j = h.ses j := by
    intro j hj
    have hne : j ≠ t.entity := fun he => ht (he ▸ hj)
    simp [hne]
  have hattach := Heap.attachEntityCfsRq_newTask (h := h.setSe t.entity (f.newEntity h t))
    (i := t.entity) f.clock f.above hw (by rw [hnew]; rfl) (by rw [hnew, hlast])
    (by rw [hnew]; exact hr.upToDate)
    (fun j hj => by rw [hnew, habove j hj]; exact hr.above j hj) f.ageLoad
  dsimp only at hattach
  rw [hnew, ← fork_eq] at hattach
  obtain ⟨hsignal, hup, hseats, hses⟩ := hattach
  refine ⟨hsignal, hup, fun j hj => ?_, fun j hj => ?_⟩
  · rw [hseats, habove j hj]
  · obtain ⟨last, hse⟩ := hses j hj
    refine ⟨last, ?_⟩
    by_cases hje : j = t.entity
    · rw [hse, hje, hnew, if_pos rfl]
    · rw [hse, if_neg hje, Heap.setSe_ses, Function.update_of_ne hje]

theorem exactSums_of_time {se : SchedEntity} {last : Nat} (hs : se.ExactSums) :
    ({ se with avg := { se.avg with lastUpdateTime := last } } : SchedEntity).ExactSums := by
  refine ⟨fun k => ?_, hs.load⟩
  simp only [UpdateCall.signal_with_lastUpdateTime]
  exact hs.signals k

theorem fork_exactSums (hw : f.world.pemt = true) (hr : f.Ready h) (ht : t.entity ∉ f.above) {j : Nat}
    (hj : j ∉ f.above) (hs : j = t.entity ∨ (h.ses j).ExactSums) : ((f.fork h t).ses j).ExactSums := by
  obtain ⟨-, -, -, hses⟩ := fork_spec hw hr ht
  obtain ⟨last, hse⟩ := hses j hj
  rw [hse]
  refine exactSums_of_time ?_
  by_cases hje : j = t.entity
  · rw [if_pos hje]
    exact newEntity_exact hw hr.capacity
  · rw [if_neg hje]
    exact hs.resolve_left hje

theorem fork_avg (hw : f.world.pemt = true) (hr : f.Ready h) (ht : t.entity ∉ f.above) {k : Track}
    (hk : k.slow = k) :
    ((h.cfs f.cfsRq).avg.signal k).avg ≤ (((f.fork h t).cfs f.cfsRq).avg.signal k).avg ∧
      (((f.fork h t).cfs f.cfsRq).avg.signal k).avg ≤ schedCapacityScale := by
  obtain ⟨hsignal, -⟩ := fork_spec hw hr ht
  obtain ⟨hfits, -⟩ := newEntity_signal (t := t) hw hr.capacity k
  rw [hk] at hfits
  have hscale : schedCapacityScale = 1024 := rfl
  rw [hsignal, Signal.plus32_avg (by omega)]
  exact ⟨by omega, hfits⟩

theorem fork_grown (hw : f.world.pemt = true) (hr : f.Ready h) (ht : t.entity ∉ f.above) :
    (h.cfs f.cfsRq).avg.Grown ((f.fork h t).cfs f.cfsRq).avg :=
  ⟨(fork_avg (k := .util) hw hr ht rfl).1, (fork_avg (k := .coreUtil) hw hr ht rfl).1,
    (fork_avg (k := .memoryUtil) hw hr ht rfl).1⟩

theorem fork_ready (hw : f.world.pemt = true) (hr : f.Ready h) (ht : t.entity ∉ f.above) :
    f.Ready (f.fork h t) := by
  obtain ⟨-, hup, hseats, -⟩ := fork_spec hw hr ht
  refine ⟨hup, ⟨?_, ?_, ?_⟩, fun j hj => ?_⟩
  · exact (fork_avg (k := .util) hw hr ht rfl).2
  · exact (fork_avg (k := .coreUtil) hw hr ht rfl).2
  · exact (fork_avg (k := .memoryUtil) hw hr ht rfl).2
  · rw [hseats j hj]
    exact hr.above j hj

theorem run_fork_exactSums (hw : f.world.pemt = true) {ts : List NewTask} (hr : f.Ready h)
    (hts : ∀ t ∈ ts, t.entity ∉ f.above) {j : Nat} (hj : j ∉ f.above)
    (hs : (∃ t ∈ ts, t.entity = j) ∨ (h.ses j).ExactSums) :
    ((run f.fork h ts).ses j).ExactSums := by
  induction ts generalizing h with
  | nil =>
    rcases hs with ⟨t, ht, -⟩ | hs
    · cases ht
    · exact hs
  | cons t ts ih =>
    have ht := hts t List.mem_cons_self
    refine ih (fork_ready hw hr ht) (fun u hu => hts u (List.mem_cons_of_mem t hu)) ?_
    rcases hs with ⟨u, hu, rfl⟩ | hs
    · rcases List.mem_cons.mp hu with rfl | hu
      · exact .inr (fork_exactSums hw hr ht hj (.inl rfl))
      · exact .inl ⟨u, hu, rfl⟩
    · exact .inr (fork_exactSums hw hr ht hj (.inr hs))

/-- Any number of new tasks of any weights: at every fork none of the three averages of the
runqueue decreases or passes the capacity, and no sum of a new task has wrapped, at its fork
or at the end. -/
theorem ForkSite.forks_within_capacity (f : ForkSite) (h : Heap) (ts : List NewTask)
    (hw : f.world.pemt = true) (hup : (h.cfs f.cfsRq).UpToDate (f.clock f.cfsRq))
    (hcap : (h.cfs f.cfsRq).avg.WithinCapacity) (habove : ∀ i ∈ f.above, (h.ses i).cfsRq ≠ f.cfsRq)
    (hts : ∀ t ∈ ts, t.entity ∉ f.above) :
    Along f.fork (fun h t => (h.cfs f.cfsRq).avg.Grown ((f.fork h t).cfs f.cfsRq).avg ∧
        ((f.fork h t).cfs f.cfsRq).avg.WithinCapacity ∧
        ((f.fork h t).ses t.entity).ExactSums) h ts ∧
      ∀ t ∈ ts, ((run f.fork h ts).ses t.entity).ExactSums := by
  have hr : f.Ready h := ⟨hup, hcap, habove⟩
  refine ⟨?_, fun t ht => run_fork_exactSums hw hr hts (hts t ht) (.inl ⟨t, ht, rfl⟩)⟩
  clear hup hcap habove
  induction ts generalizing h with
  | nil => trivial
  | cons t ts ih =>
    have ht := hts t List.mem_cons_self
    have hnext := fork_ready hw hr ht
    refine ⟨⟨fork_grown hw hr ht, hnext.capacity, fork_exactSums hw hr ht ht (.inl rfl)⟩, ?_⟩
    exact ih (f.fork h t) (fun u hu => hts u (List.mem_cons_of_mem t hu)) hnext

end Fork

/-- Forks into the group of a `groupRemoval` heap, whose entity 0 is over the runqueue. -/
def groupSite : ForkSite := ⟨removalWorld, fun _ => 1024, true, 1, [0]⟩

theorem groupSite_upToDate : ((groupRemoval ⟨0, 0, 0, 0, 0, 0, 0⟩).cfs 1).UpToDate 1024 := by
  refine ⟨fun delta => ?_, rfl⟩
  show elapsed 1024 1024 ≠ .units delta
  simp [elapsed_self]

theorem groupSite_forks_within_capacity :
    let h := groupRemoval ⟨0, 0, 0, 0, 0, 0, 0⟩
    let ts : List NewTask := [⟨2, 1048576, idleAvg⟩, ⟨3, 15360, briefAvg⟩]
    Along groupSite.fork (fun h t => (h.cfs 1).avg.Grown ((groupSite.fork h t).cfs 1).avg ∧
        ((groupSite.fork h t).cfs 1).avg.WithinCapacity ∧
        ((groupSite.fork h t).ses t.entity).ExactSums) h ts ∧
      ∀ t ∈ ts, ((run groupSite.fork h ts).ses t.entity).ExactSums :=
  groupSite.forks_within_capacity (groupRemoval ⟨0, 0, 0, 0, 0, 0, 0⟩)
    [⟨2, 1048576, idleAvg⟩, ⟨3, 15360, briefAvg⟩] rfl groupSite_upToDate
    ⟨by decide, by decide, by decide⟩ (by decide) (by decide)

end MSchedutil
