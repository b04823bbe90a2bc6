import MSchedutil.TrackStep

/-! Windows in which the tracking is switched off. The run with the windows is compared
with the same run with the flag on throughout; `Stale` follows the amounts that the
operations inside a window have passed over. -/

namespace MSchedutil

open Word Transition

/-- Which entities, runqueues and removal counters may have missed an operation. -/
structure Stale where
  ses : Nat → Bool
  cfs : Nat → Bool
  removed : Nat → Bool

/-- The run with windows: the flag, the heap, and what has gone stale. -/
structure FlagRun where
  enabled : Bool
  heap : Heap
  stale : Stale

inductive FlagEvent
  | switch (on : Bool)
  | op (w : World) (op : LoadOp)

/-- Whether any core or memory amount is left in a `sched_avg`. -/
def SchedAvg.laden (sa : SchedAvg) : Bool :=
  decide (sa.coreUtil ≠ ⟨0, 0⟩ ∨ sa.memoryUtil ≠ ⟨0, 0⟩ ∨ sa.coreUtilFast ≠ ⟨0, 0⟩ ∨
    sa.memoryUtilFast ≠ ⟨0, 0⟩)

def Removed.laden (r : Removed) : Bool :=
  decide (r.coreUtil ≠ 0 ∨ r.memoryUtil ≠ 0 ∨ r.coreUtilFast ≠ 0 ∨ r.memoryUtilFast ≠ 0)

/-- Staleness after a call at `now`: with the flag on a long decay forgets it, with the
flag off a decay that is passed over creates it. -/
def lagAfter (enabled : Bool) (now : Nat) (sa : SchedAvg) (lag : Bool) : Bool :=
  if enabled then lag && !sa.wipesAt now else lag || (sa.decaysAt now && sa.laden)

/-- Staleness of what an amount is moved to. -/
def lagMoved (enabled : Bool) (laden lag target : Bool) : Bool :=
  target || lag || (!enabled && laden)

namespace Stale

def fresh : Stale := ⟨fun _ => false, fun _ => false, fun _ => false⟩

def setSe (st : Stale) (i : Nat) (lag : Bool) : Stale :=
  { st with ses := Function.update st.ses i lag }

def setCfs (st : Stale) (q : Nat) (lag : Bool) : Stale :=
  { st with cfs := Function.update st.cfs q lag }

def setRemoved (st : Stale) (q : Nat) (lag : Bool) : Stale :=
  { st with removed := Function.update st.removed q lag }

/-- What an operation on the heap `h` does to the staleness. -/
def after (enabled : Bool) (h : Heap) (st : Stale) : LoadOp → Stale
  | .move _ _ | .setCurr _ _ | .propagate _ => st
  | .updateEntity now _ _ _ i => st.setSe i (lagAfter enabled now (h.ses i).avg (st.ses i))
  | .attach i | .detach i =>
    let q := (h.ses i).cfsRq
    st.setCfs q (lagMoved enabled (h.ses i).avg.laden (st.ses i) (st.cfs q))
  | .remove i =>
    let q := (h.ses i).cfsRq
    let lag := lagAfter enabled (h.cfs q).avg.lastUpdateTime (h.ses i).avg (st.ses i)
    (st.setSe i lag).setRemoved q (lagMoved enabled (h.ses i).avg.laden lag (st.removed q))
  | .updateCfs now q _ =>
    let r := (h.cfs q).removed
    let lag := lagMoved enabled r.laden (st.removed q) (st.cfs q)
    (st.setCfs q (lagAfter enabled now (h.cfs q).avg lag)).setRemoved q (!enabled && r.laden)

end Stale

namespace FlagRun

def next (s : FlagRun) : FlagEvent → FlagRun
  | .switch on => { s with enabled := on }
  | .op w op =>
    { s with
      heap := (s.heap.apply { w with pemt := s.enabled } op).1
      stale := s.stale.after s.enabled s.heap op }

/-- The same run with the flag on throughout. -/
def steady (h : Heap) : FlagEvent → Heap
  | .switch _ => h
  | .op w op => (h.apply { w with pemt := true } op).1

/-- Nothing runs while the flag is off, and no group is propagated. -/
def Allowed (s : FlagRun) : FlagEvent → Prop
  | .switch _ => True
  | .op _ (.updateEntity _ _ _ running _) => s.enabled = false → running = false
  | .op _ (.updateCfs _ q _) => s.enabled = false → (s.heap.cfs q).curr = .none
  | .op _ (.propagate _) => False
  | .op _ _ => True

end FlagRun

structure SameClock (full sa : SchedAvg) : Prop where
  lastUpdateTime : full.lastUpdateTime = sa.lastUpdateTime
  periodContrib : full.periodContrib = sa.periodContrib
  ratio : full.memoryCycleRatio = sa.memoryCycleRatio

/-- The core and memory signals agree unless they lag. -/
structure Tracks (lag : Bool) (full sa : SchedAvg) : Prop where
  clock : SameClock full sa
  signal : lag = false → ∀ k : Track, k.tracked = true → full.signal k = sa.signal k

theorem SchedAvg.signal_of_not_laden {sa : SchedAvg} (h : sa.laden = false) {k : Track}
    (hk : k.tracked = true) : sa.signal k = ⟨0, 0⟩ := by
  unfold laden at h
  have hz := of_decide_eq_false h
  simp only [ne_eq, not_or, not_not] at hz
  obtain ⟨hcore, hmemory, hcoreFast, hmemoryFast⟩ := hz
  cases k with
  | util | utilFast => simp [Track.tracked] at hk
  | coreUtil => exact hcore
  | memoryUtil => exact hmemory
  | coreUtilFast => exact hcoreFast
  | memoryUtilFast => exact hmemoryFast

theorem SchedAvg.laden_congr {sa sb : SchedAvg}
    (h : ∀ k : Track, k.tracked = true → sa.signal k = sb.signal k) : sa.laden = sb.laden := by
  have hcore : sa.coreUtil = sb.coreUtil := h .coreUtil rfl
  have hmemory : sa.memoryUtil = sb.memoryUtil := h .memoryUtil rfl
  have hcoreFast : sa.coreUtilFast = sb.coreUtilFast := h .coreUtilFast rfl
  have hmemoryFast : sa.memoryUtilFast = sb.memoryUtilFast := h .memoryUtilFast rfl
  unfold laden
  rw [hcore, hmemory, hcoreFast, hmemoryFast]

theorem Removed.amount_of_not_laden {r : Removed} (h : r.laden = false) {k : Track}
    (hk : k.tracked = true) : r.amount k = 0 := by
  unfold laden at h
  have hz := of_decide_eq_false h
  simp only [ne_eq, not_or, not_not] at hz
  obtain ⟨hcore, hmemory, hcoreFast, hmemoryFast⟩ := hz
  cases k with
  | util | utilFast => simp [Track.tracked] at hk
  | coreUtil => exact hcore
  | memoryUtil => exact hmemory
  | coreUtilFast => exact hcoreFast
  | memoryUtilFast => exact hmemoryFast

theorem Track.active_of_tracked {k : Track} (hk : k.tracked = true) (pemt : Bool) :
    k.active pemt = pemt := by
  simp [Track.active, hk]

section Calls

variable {lag : Bool} {full sa : SchedAvg} {c c' : UpdateCall}

theorem SameClock.update (h : SameClock full sa) (hnow : c.now = c'.now)
    (hratio : (c.recorded full).memoryCycleRatio = (c'.recorded sa).memoryCycleRatio) :
    SameClock (c.updateLoadAvg (c.recorded full)).1 (c'.updateLoadAvg (c'.recorded sa)).1 where
  lastUpdateTime := by
    simp only [UpdateCall.updateLoadAvg_lastUpdateTime, UpdateCall.recorded_lastUpdateTime,
      h.lastUpdateTime, hnow]
  periodContrib := by
    simp only [UpdateCall.updateLoadAvg_periodContrib, UpdateCall.contribAfter,
      UpdateCall.recorded_lastUpdateTime, UpdateCall.recorded_periodContrib, h.lastUpdateTime,
      h.periodContrib, hnow]
  ratio := by simp only [UpdateCall.updateLoadAvg_memoryCycleRatio, hratio]

theorem SameClock.records (h : SameClock full sa) (c : UpdateCall) :
    c.records full = c.records sa := by
  unfold UpdateCall.records
  rw [h.lastUpdateTime]

theorem UpdateCall.signal_update_recorded (hc : c.pemt = true) (sa : SchedAvg) (k : Track) :
    (c.updateLoadAvg (c.recorded sa)).1.signal k = c.updateSignal k sa (sa.signal k) := by
  have hk : k.active c.pemt = true := by rw [hc]; rfl
  rw [UpdateCall.signal_updateLoadAvg hk, UpdateCall.signal_recorded]
  exact UpdateCall.updateSignal_congr (c.recorded_lastUpdateTime sa) (c.recorded_periodContrib sa) _

theorem Tracks.update_on (h : Tracks lag full sa) (hc : c.pemt = true) :
    Tracks (lagAfter true c.now sa lag) (c.updateLoadAvg (c.recorded full)).1
      (c.updateLoadAvg (c.recorded sa)).1 := by
  have hratio : (c.recorded full).memoryCycleRatio = (c.recorded sa).memoryCycleRatio := by
    unfold UpdateCall.recorded
    rw [h.clock.records]
    split
    · rfl
    · exact h.clock.ratio
  refine ⟨h.clock.update rfl hratio, fun hlag k hk => ?_⟩
  have hstep : ∀ s, c.updateSignal k full s = c.updateSignal k sa s :=
    UpdateCall.updateSignal_congr h.clock.lastUpdateTime h.clock.periodContrib
  rw [UpdateCall.signal_update_recorded hc, UpdateCall.signal_update_recorded hc, hstep]
  rcases Bool.and_eq_false_iff.mp hlag with hfresh | hwipe
  · rw [h.signal hfresh k hk]
  · exact UpdateCall.updateSignal_wiped (by simpa using hwipe) _ _

/-- A call in a window, where nothing runs. -/
theorem Tracks.update_off (h : Tracks lag full sa) (c c' : UpdateCall) (hc : c.pemt = true)
    (hc' : c'.pemt = false)
    (hnow : c.now = c'.now) (hr : c.running = false) :
    Tracks (lagAfter false c.now sa lag) (c.updateLoadAvg (c.recorded full)).1
      (c'.updateLoadAvg (c'.recorded sa)).1 := by
  have hratio : (c.recorded full).memoryCycleRatio = (c'.recorded sa).memoryCycleRatio := by
    rw [UpdateCall.recorded_of_idle (by simp [hr]), UpdateCall.recorded_of_idle (by simp [hc'])]
    exact h.clock.ratio
  refine ⟨h.clock.update hnow hratio, fun hlag k hk => ?_⟩
  have hstep : ∀ s, c.updateSignal k full s = c.updateSignal k sa s :=
    UpdateCall.updateSignal_congr h.clock.lastUpdateTime h.clock.periodContrib
  have hk' : k.active c'.pemt = false := by simp [Track.active, hc', hk]
  obtain ⟨hfresh, hquiet⟩ := Bool.or_eq_false_iff.mp hlag
  rw [UpdateCall.signal_update_recorded hc, UpdateCall.signal_updateLoadAvg_inactive hk',
    UpdateCall.signal_recorded, hstep, h.signal hfresh k hk]
  rcases Bool.and_eq_false_iff.mp hquiet with hshort | hempty
  · exact UpdateCall.updateSignal_quiet hr hshort _
  · rw [SchedAvg.signal_of_not_laden hempty hk]
    exact UpdateCall.updateSignal_nothing hr

end Calls

section Moves

variable {lag lag' enabled laden : Bool} {full sa full' sa' : SchedAvg}

/-- An amount goes into, or out of, two `sched_avg`s of which the second only notices
while the flag is on. -/
theorem Tracks.pour (h : Tracks lag full sa) (hw : ∀ k, (full.signal k).InWord)
    (hclock : SameClock full' sa') {f g : Track → Signal → Signal}
    (hf : ∀ k : Track, k.tracked = true → full'.signal k = f k (full.signal k))
    (hg : ∀ k : Track, k.tracked = true →
      sa'.signal k = if enabled then g k (sa.signal k) else sa.signal k)
    (hsame : lag' = false → ∀ k : Track, k.tracked = true → f k = g k)
    (hnone : laden = false → ∀ k : Track, k.tracked = true → ∀ s : Signal, s.InWord → g k s = s) :
    Tracks (lagMoved enabled laden lag' lag) full' sa' := by
  refine ⟨hclock, fun hlag k hk => ?_⟩
  obtain ⟨hlags, hskipped⟩ := Bool.or_eq_false_iff.mp hlag
  obtain ⟨htarget, hsource⟩ := Bool.or_eq_false_iff.mp hlags
  rw [hf k hk, hg k hk, hsame hsource k hk]
  cases henabled : enabled with
  | true => rw [if_pos rfl, h.signal htarget k hk]
  | false =>
    have hempty : laden = false := by simpa [henabled] using hskipped
    rw [if_neg Bool.false_ne_true, hnone hempty k hk _ (hw k), h.signal htarget k hk]

theorem Signal.plus32_zero {s : Signal} (hs : s.InWord) : s.plus32 ⟨0, 0⟩ = s := by
  unfold plus32
  simp [u32_of_lt hs.1, u64_of_lt hs.2]

theorem Signal.minus32_zero {s : Signal} (hs : s.InWord) : s.minus32 ⟨0, 0⟩ = s := by
  unfold minus32 subPositive32 subPositive64
  simp [sub32_of_le (Nat.zero_le _) hs.1, sub64_of_le (Nat.zero_le _) hs.2]

variable {fse se : SchedAvg}

theorem Tracks.attach (h : Tracks lag full sa) (hse : Tracks lag' fse se)
    (hw : ∀ k, (full.signal k).InWord) :
    Tracks (lagMoved enabled se.laden lag' lag) (full.attach true fse) (sa.attach enabled se) := by
  refine h.pour hw (f := fun k s => s.plus32 (fse.signal k)) (g := fun k s => s.plus32 (se.signal k))
    ?_ (fun k _ => ?_) (fun k hk => ?_) (fun hl k hk => ?_) (fun hl k hk s hs => ?_)
  · obtain ⟨ht, hp, hr⟩ := h.clock
    cases enabled <;> exact ⟨ht, hp, hr⟩
  · rw [SchedAvg.signal_attach, Track.active_true, if_pos rfl]
  · rw [SchedAvg.signal_attach, Track.active_of_tracked hk]
  · rw [hse.signal hl k hk]
  · rw [SchedAvg.signal_of_not_laden hl hk]
    exact Signal.plus32_zero hs

theorem Tracks.detach (h : Tracks lag full sa) (hse : Tracks lag' fse se)
    (hw : ∀ k, (full.signal k).InWord) :
    Tracks (lagMoved enabled se.laden lag' lag) (full.detach true fse) (sa.detach enabled se) := by
  refine h.pour hw (f := fun k s => s.minus32 (fse.signal k))
    (g := fun k s => s.minus32 (se.signal k))
    ?_ (fun k _ => ?_) (fun k hk => ?_) (fun hl k hk => ?_) (fun hl k hk s hs => ?_)
  · obtain ⟨ht, hp, hr⟩ := h.clock
    cases enabled <;> exact ⟨ht, hp, hr⟩
  · rw [SchedAvg.signal_detach, Track.active_true, if_pos rfl]
  · rw [SchedAvg.signal_detach, Track.active_of_tracked hk]
  · rw [hse.signal hl k hk]
  · rw [SchedAvg.signal_of_not_laden hl hk]
    exact Signal.minus32_zero hs

/-- The core and memory counters agree unless they lag. -/
def Removed.Tracks (lag : Bool) (full r : Removed) : Prop :=
  lag = false → ∀ k : Track, k.tracked = true → full.amount k = r.amount k

theorem Tracks.drain {fr r : Removed} (h : Tracks lag full sa) (hr : Removed.Tracks lag' fr r)
    (hw : ∀ k, (full.signal k).InWord) :
    Tracks (lagMoved enabled r.laden lag' lag) (full.drain true fr) (sa.drain enabled r) := by
  refine h.pour hw (f := fun k s => s.drain32 k.max (fr.amount k))
    (g := fun k s => s.drain32 k.max (r.amount k))
    ?_ (fun k _ => ?_) (fun k hk => ?_) (fun hl k hk => ?_) (fun hl k hk s _ => ?_)
  · obtain ⟨ht, hp, hr⟩ := h.clock
    cases enabled <;> exact ⟨ht, hp, hr⟩
  · rw [SchedAvg.signal_drain, Track.active_true, if_pos rfl]
  · rw [SchedAvg.signal_drain, Track.active_of_tracked hk]
  · rw [hr hl k hk]
  · rw [Removed.amount_of_not_laden hl hk]
    rfl

theorem Removed.Tracks.add (enabled : Bool) {fr r : Removed} (h : Removed.Tracks lag fr r)
    (hse : MSchedutil.Tracks lag' fse se) (hw : ∀ k, fr.amount k < 2 ^ 64) :
    Removed.Tracks (lagMoved enabled se.laden lag' lag) (fr.add true fse) (r.add enabled se) := by
  intro hlag k hk
  obtain ⟨hlags, hskipped⟩ := Bool.or_eq_false_iff.mp hlag
  obtain ⟨htarget, hsource⟩ := Bool.or_eq_false_iff.mp hlags
  rw [Removed.amount_add, Removed.amount_add, Track.active_true, if_pos rfl,
    Track.active_of_tracked hk, hse.signal hsource k hk]
  cases henabled : enabled with
  | true => rw [if_pos rfl, h htarget k hk]
  | false =>
    have hempty : se.laden = false := by simpa [henabled] using hskipped
    rw [if_neg Bool.false_ne_true, SchedAvg.signal_of_not_laden hempty hk, Nat.add_zero,
      u64_of_lt (hw k), h htarget k hk]

theorem Removed.Tracks.taken (fr r : Removed) :
    Removed.Tracks (!enabled && r.laden) (fr.taken true) (r.taken enabled) := by
  intro hlag k hk
  rw [Removed.amount_taken, Removed.amount_taken, Track.active_true, if_pos rfl,
    Track.active_of_tracked hk]
  cases henabled : enabled with
  | true => rfl
  | false =>
    have hempty : r.laden = false := by simpa [henabled] using hlag
    exact (Removed.amount_of_not_laden hempty hk).symm

end Moves

section Words

theorem subPositive32_lt (var val : Nat) : subPositive32 var val < 2 ^ 32 := by
  have h : sub32 var val < 2 ^ 32 := u32_lt _
  unfold subPositive32
  dsimp only
  split
  · norm_num
  · exact h

theorem subPositive64_lt (var val : Nat) : subPositive64 var val < 2 ^ 64 := by
  have h : sub64 var val < 2 ^ 64 := u64_lt _
  unfold subPositive64
  dsimp only
  split
  · norm_num
  · exact h

variable {full : SchedAvg} (k : Track)

theorem SchedAvg.attach_inWord (se : SchedAvg) : ((full.attach true se).signal k).InWord := by
  rw [signal_attach]
  exact ⟨u32_lt _, u64_lt _⟩

theorem SchedAvg.detach_inWord (se : SchedAvg) : ((full.detach true se).signal k).InWord := by
  rw [signal_detach]
  exact ⟨subPositive32_lt _ _, subPositive64_lt _ _⟩

theorem SchedAvg.drain_inWord (r : Removed) (h : (full.signal k).InWord) :
    ((full.drain true r).signal k).InWord := by
  rw [signal_drain, Track.active_true, if_pos rfl]
  unfold Signal.drain32
  split
  · exact ⟨subPositive32_lt _ _, subPositive64_lt _ _⟩
  · exact h

end Words

structure SeAgrees (lag : Bool) (x y : SchedEntity) : Prop where
  avg : Tracks lag x.avg y.avg
  cfsRq : x.cfsRq = y.cfsRq
  myQ : x.myQ = y.myQ

structure CfsAgrees (lag lagRemoved : Bool) (x y : CfsRq) : Prop where
  avg : Tracks lag x.avg y.avg
  removed : Removed.Tracks lagRemoved x.removed y.removed
  curr : x.curr = y.curr
  cpu : x.cpu = y.cpu
  weight : x.weight = y.weight
  words : ∀ k, (x.avg.signal k).InWord
  room : ∀ k, x.removed.amount k < 2 ^ 64

/-- The heap `g` of the steady run and the heap `h` of the run with windows agree on
everything that is not stale. -/
structure Agrees (st : Stale) (g h : Heap) : Prop where
  ses : ∀ i, SeAgrees (st.ses i) (g.ses i) (h.ses i)
  cfs : ∀ q, CfsAgrees (st.cfs q) (st.removed q) (g.cfs q) (h.cfs q)
  depth : g.depth = h.depth

namespace Agrees

variable {st : Stale} {g h : Heap}

theorem setSe (hs : Agrees st g h) {i : Nat} {lag : Bool} {x y : SchedEntity}
    (hxy : SeAgrees lag x y) : Agrees (st.setSe i lag) (g.setSe i x) (h.setSe i y) := by
  refine ⟨fun j => ?_, hs.cfs, hs.depth⟩
  by_cases hj : j = i
  · subst hj
    simpa [Stale.setSe] using hxy
  · simpa [Stale.setSe, hj] using hs.ses j

theorem setCfs (hs : Agrees st g h) {q q' : Nat} (hq : q' = q) {lag lagRemoved : Bool}
    {x y : CfsRq} (hxy : CfsAgrees lag lagRemoved x y) :
    Agrees ((st.setCfs q lag).setRemoved q lagRemoved) (g.setCfs q' x) (h.setCfs q y) := by
  subst hq
  refine ⟨hs.ses, fun j => ?_, hs.depth⟩
  by_cases hj : j = q'
  · subst hj
    simpa [Stale.setCfs, Stale.setRemoved] using hxy
  · simpa [Stale.setCfs, Stale.setRemoved, hj] using hs.cfs j

theorem setSe_same (hs : Agrees st g h) {i : Nat} {x y : SchedEntity}
    (hxy : SeAgrees (st.ses i) x y) : Agrees st (g.setSe i x) (h.setSe i y) := by
  have := hs.setSe (i := i) hxy
  simpa [Stale.setSe] using this

theorem setCfs_same (hs : Agrees st g h) {q q' : Nat} (hq : q' = q) {x y : CfsRq}
    (hxy : CfsAgrees (st.cfs q) (st.removed q) x y) :
    Agrees st (g.setCfs q' x) (h.setCfs q y) := by
  have := hs.setCfs hq hxy
  simpa [Stale.setCfs, Stale.setRemoved] using this

theorem setCfs_avg (hs : Agrees st g h) {q q' : Nat} (hq : q' = q) {lag : Bool} {x y : CfsRq}
    (hxy : CfsAgrees lag (st.removed q) x y) :
    Agrees (st.setCfs q lag) (g.setCfs q' x) (h.setCfs q y) := by
  have := hs.setCfs hq hxy
  simpa [Stale.setCfs, Stale.setRemoved] using this

theorem setCfs_removed (hs : Agrees st g h) {q q' q'' : Nat} (hq' : q' = q) (hq'' : q'' = q)
    {lag : Bool} {x y : CfsRq} (hxy : CfsAgrees (st.cfs q) lag x y) :
    Agrees (st.setRemoved q lag) (g.setCfs q' x) (h.setCfs q'' y) := by
  subst hq''
  have := hs.setCfs hq' hxy
  simpa [Stale.setCfs, Stale.setRemoved] using this

theorem cfsRqOf (hs : Agrees st g h) (i : Nat) : CfsAgrees (st.cfs (h.ses i).cfsRq)
    (st.removed (h.ses i).cfsRq) (g.cfs (g.ses i).cfsRq) (h.cfs (h.ses i).cfsRq) := by
  rw [(hs.ses i).cfsRq]
  exact hs.cfs _

theorem notified (hs : Agrees st g h) (q q' : Nat) (b b' : Bool) :
    Agrees st (if b then g.cfsRqUtilChange q else g) (if b' then h.cfsRqUtilChange q' else h) := by
  have hdepth : ∀ (q : Nat) (b : Bool) (g : Heap),
      (if b then g.cfsRqUtilChange q else g).depth = g.depth := by
    intro q b g
    unfold Heap.cfsRqUtilChange
    split
    · split <;> rfl
    · rfl
  have hses : ∀ (q : Nat) (b : Bool) (g : Heap),
      (if b then g.cfsRqUtilChange q else g).ses = g.ses := by
    intro q b g
    split <;> simp
  have hcfs : ∀ (q : Nat) (b : Bool) (g : Heap),
      (if b then g.cfsRqUtilChange q else g).cfs = g.cfs := by
    intro q b g
    split <;> simp
  refine ⟨fun i => ?_, fun q => ?_, ?_⟩
  · rw [hses, hses]
    exact hs.ses i
  · rw [hcfs, hcfs]
    exact hs.cfs q
  · rw [hdepth, hdepth]
    exact hs.depth

theorem leafRatio (hs : Agrees st g h) (fuel i : Nat) : g.leafRatio fuel i = h.leafRatio fuel i := by
  induction fuel generalizing i with
  | zero => exact (hs.ses i).avg.clock.ratio
  | succ fuel ih =>
    unfold Heap.leafRatio
    rw [(hs.ses i).myQ]
    cases (h.ses i).myQ with
    | none => exact (hs.ses i).avg.clock.ratio
    | some q =>
      dsimp only
      rw [(hs.cfs q).curr]
      cases (h.cfs q).curr with
      | none => exact (hs.cfs q).avg.clock.ratio
      | some j => exact ih j

theorem entityRatio (hs : Agrees st g h) (w : World) (i : Nat) :
    g.entityRatio w i = h.entityRatio w i := by
  unfold Heap.entityRatio
  rw [(hs.ses i).myQ, hs.leafRatio, hs.depth]

theorem cfsRatio (hs : Agrees st g h) (q : Nat) : g.cfsRatio q = h.cfsRatio q := by
  unfold Heap.cfsRatio
  rw [(hs.cfs q).curr]
  cases (h.cfs q).curr with
  | none => exact (hs.cfs q).avg.clock.ratio
  | some j => exact (hs.ses j).avg.clock.ratio

variable {enabled : Bool} {w : World}

theorem ratioToCfs (hs : Agrees st g h) (c : UpdateCall) (i : Nat) :
    Agrees st (g.ratioToCfs c i) (h.ratioToCfs c i) := by
  unfold Heap.ratioToCfs
  rw [(hs.ses i).avg.clock.records, (hs.ses i).myQ]
  split
  · obtain ⟨⟨⟨ht, hp, -⟩, hsig⟩, hrem, hcurr, hcpu, hweight, hwords, hroom⟩ := hs.cfsRqOf i
    refine hs.setCfs_same (hs.ses i).cfsRq
      ⟨⟨⟨ht, hp, rfl⟩, fun hl k hk => ?_⟩, hrem, hcurr, hcpu, hweight, fun k => ?_, hroom⟩
    · have := hsig hl k hk
      cases k <;> exact this
    · have := hwords k
      cases k <;> exact this
  · exact hs

theorem updateEntity (hs : Agrees st g h) {now cpu weight : Nat} {running : Bool} {i : Nat}
    (hr : enabled = false → running = false) :
    Agrees (st.setSe i (lagAfter enabled now (h.ses i).avg (st.ses i)))
      (g.updateEntityLoadAvg { w with pemt := true } now cpu weight running i).1
      (h.updateEntityLoadAvg { w with pemt := enabled } now cpu weight running i).1 := by
  obtain ⟨havg, hq, hm⟩ := hs.ses i
  rw [Heap.updateEntityLoadAvg_eq, Heap.updateEntityLoadAvg_eq]
  dsimp only
  cases henabled : enabled with
  | true =>
    have hcall : g.entityCall { w with pemt := true } now cpu weight running i =
        h.entityCall { w with pemt := true } now cpu weight running i := by
      unfold Heap.entityCall
      rw [hs.entityRatio]
    have hupd := havg.update_on
      (c := h.entityCall { w with pemt := true } now cpu weight running i) rfl
    rw [hcall]
    exact (hs.ratioToCfs _ i).setSe ⟨hupd, hq, hm⟩
  | false =>
    have hidle := hr henabled
    subst hidle
    have hkeep : ∀ (h : Heap) (b : Bool),
        h.ratioToCfs (h.entityCall { w with pemt := b } now cpu weight false i) i = h := by
      intro h b
      unfold Heap.ratioToCfs
      rw [UpdateCall.records_of_idle (by simp [Heap.entityCall])]
      simp
    have hupd := havg.update_off
      (g.entityCall { w with pemt := true } now cpu weight false i)
      (h.entityCall { w with pemt := false } now cpu weight false i) rfl rfl rfl rfl
    rw [hkeep, hkeep]
    exact hs.setSe ⟨hupd, hq, hm⟩

theorem attach (hs : Agrees st g h) (i : Nat) :
    Agrees (st.after enabled h (.attach i)) (g.attachEntityLoadAvg { w with pemt := true } i)
      (h.attachEntityLoadAvg { w with pemt := enabled } i) := by
  obtain ⟨havg, hq, hm⟩ := hs.ses i
  have hcfs := hs.cfsRqOf i
  have hclock : SeAgrees (st.ses i)
      { g.ses i with avg := { (g.ses i).avg with
          lastUpdateTime := (g.cfs (g.ses i).cfsRq).avg.lastUpdateTime } }
      { h.ses i with avg := { (h.ses i).avg with
          lastUpdateTime := (h.cfs (h.ses i).cfsRq).avg.lastUpdateTime } } := by
    refine ⟨⟨⟨hcfs.avg.clock.lastUpdateTime, havg.clock.periodContrib, havg.clock.ratio⟩,
      fun hl k hk => ?_⟩, hq, hm⟩
    have := havg.signal hl k hk
    cases k <;> exact this
  have hmoved : CfsAgrees (lagMoved enabled (h.ses i).avg.laden (st.ses i)
        (st.cfs (h.ses i).cfsRq)) (st.removed (h.ses i).cfsRq)
      { g.cfs (g.ses i).cfsRq with
        avg := (g.cfs (g.ses i).cfsRq).avg.attach true (g.ses i).avg, propagateAvg := true }
      { h.cfs (h.ses i).cfsRq with
        avg := (h.cfs (h.ses i).cfsRq).avg.attach enabled (h.ses i).avg, propagateAvg := true } :=
    ⟨hcfs.avg.attach havg hcfs.words, hcfs.removed, hcfs.curr, hcfs.cpu, hcfs.weight,
      fun k => SchedAvg.attach_inWord k _, hcfs.room⟩
  exact ((hs.setSe_same hclock).setCfs_avg hq hmoved).notified _ _ true true

theorem detach (hs : Agrees st g h) (i : Nat) :
    Agrees (st.after enabled h (.detach i)) (g.detachEntityLoadAvg { w with pemt := true } i)
      (h.detachEntityLoadAvg { w with pemt := enabled } i) := by
  obtain ⟨havg, hq, -⟩ := hs.ses i
  have hcfs := hs.cfsRqOf i
  have hmoved : CfsAgrees (lagMoved enabled (h.ses i).avg.laden (st.ses i)
        (st.cfs (h.ses i).cfsRq)) (st.removed (h.ses i).cfsRq)
      { g.cfs (g.ses i).cfsRq with
        avg := (g.cfs (g.ses i).cfsRq).avg.detach true (g.ses i).avg, propagateAvg := true }
      { h.cfs (h.ses i).cfsRq with
        avg := (h.cfs (h.ses i).cfsRq).avg.detach enabled (h.ses i).avg, propagateAvg := true } :=
    ⟨hcfs.avg.detach havg hcfs.words, hcfs.removed, hcfs.curr, hcfs.cpu, hcfs.weight,
      fun k => SchedAvg.detach_inWord k _, hcfs.room⟩
  exact (hs.setCfs_avg hq hmoved).notified _ _ true true

theorem sync (hs : Agrees st g h) (i : Nat) :
    Agrees (st.setSe i (lagAfter enabled (h.cfs (h.ses i).cfsRq).avg.lastUpdateTime
      (h.ses i).avg (st.ses i))) (g.syncEntityLoadAvg { w with pemt := true } i)
      (h.syncEntityLoadAvg { w with pemt := enabled } i) := by
  have hcfs := hs.cfsRqOf i
  unfold Heap.syncEntityLoadAvg Heap.cfsRqOf
  rw [hcfs.avg.clock.lastUpdateTime, hcfs.cpu]
  exact hs.updateEntity fun _ => rfl

theorem sync_seat (w : World) (h : Heap) (i : Nat) :
    ((h.syncEntityLoadAvg w i).ses i).cfsRq = (h.ses i).cfsRq := by
  unfold Heap.syncEntityLoadAvg
  rw [Heap.updateEntityLoadAvg_eq]
  simp

theorem sync_laden {w : World} (hw : w.pemt = false) (h : Heap) (i : Nat) :
    ((h.syncEntityLoadAvg w i).ses i).avg.laden = (h.ses i).avg.laden := by
  unfold Heap.syncEntityLoadAvg
  rw [Heap.updateEntityLoadAvg_eq]
  refine SchedAvg.laden_congr fun k hk => ?_
  simp only [Heap.setSe_ses, Function.update_self]
  rw [UpdateCall.signal_updateLoadAvg_inactive, UpdateCall.signal_recorded]
  exact (Track.active_of_tracked hk _).trans hw

theorem remove (hs : Agrees st g h) (i : Nat) :
    Agrees (st.after enabled h (.remove i)) (g.removeEntityLoadAvg { w with pemt := true } i)
      (h.removeEntityLoadAvg { w with pemt := enabled } i) := by
  have hsync : Agrees (st.setSe i (lagAfter enabled (h.cfs (h.ses i).cfsRq).avg.lastUpdateTime
      (h.ses i).avg (st.ses i))) (g.syncEntityLoadAvg { w with pemt := true } i)
      (h.syncEntityLoadAvg { w with pemt := enabled } i) := hs.sync i
  have hseat := sync_seat { w with pemt := enabled } h i
  generalize hg : g.syncEntityLoadAvg { w with pemt := true } i = g' at hsync
  have hcfs : CfsAgrees (st.cfs (h.ses i).cfsRq) (st.removed (h.ses i).cfsRq)
      (g'.cfs (g'.ses i).cfsRq) ((h.syncEntityLoadAvg { w with pemt := enabled } i).cfs
        ((h.syncEntityLoadAvg { w with pemt := enabled } i).ses i).cfsRq) := by
    have := hsync.cfsRqOf i
    rw [hseat] at this ⊢
    exact this
  have hladen : (!enabled && ((h.syncEntityLoadAvg { w with pemt := enabled } i).ses i).avg.laden) =
      (!enabled && (h.ses i).avg.laden) := by
    cases henabled : enabled with
    | true => rfl
    | false => rw [sync_laden rfl]
  have hadd := hcfs.removed.add enabled (hsync.ses i).avg hcfs.room
  unfold lagMoved at hadd
  rw [hladen] at hadd
  simp only [Stale.setSe, Function.update_self] at hadd
  subst hg
  exact hsync.setCfs_removed ((hsync.ses i).cfsRq.trans hseat) hseat
    ⟨hcfs.avg, hadd, hcfs.curr, hcfs.cpu, hcfs.weight, hcfs.words, fun k => by
      rw [Removed.amount_add]
      exact u64_lt _⟩

theorem drained (hs : Agrees st g h) (enabled : Bool) (q : Nat) :
    Agrees ((st.setCfs q (lagMoved enabled (h.cfs q).removed.laden (st.removed q) (st.cfs q))).setRemoved q
        (!enabled && (h.cfs q).removed.laden)) (g.drained true q) (h.drained enabled q) := by
  have hcfs := hs.cfs q
  exact hs.setCfs rfl ⟨hcfs.avg.drain hcfs.removed hcfs.words, Removed.Tracks.taken _ _, hcfs.curr,
    hcfs.cpu, hcfs.weight, fun k => SchedAvg.drain_inWord k _ (hcfs.words k), fun k => by
      rw [Removed.amount_taken]
      norm_num⟩

theorem updateLoad (hs : Agrees st g h) (w : World) (now q : Nat)
    (hr : enabled = false → (h.cfs q).curr = none) :
    Agrees (st.setCfs q (lagAfter enabled now (h.cfs q).avg (st.cfs q)))
      (g.updateCfsLoadAvg { w with pemt := true } now q).1
      (h.updateCfsLoadAvg { w with pemt := enabled } now q).1 := by
  have hcfs := hs.cfs q
  have hwords : ∀ k, (((g.cfsCall { w with pemt := true } now q).updateLoadAvg
      ((g.cfsCall { w with pemt := true } now q).recorded (g.cfs q).avg)).1.signal k).InWord := by
    intro k
    rw [UpdateCall.signal_update_recorded rfl]
    exact UpdateCall.updateSignal_inWord (hcfs.words k)
  have hupd : Tracks (lagAfter enabled now (h.cfs q).avg (st.cfs q))
      ((g.cfsCall { w with pemt := true } now q).updateLoadAvg
        ((g.cfsCall { w with pemt := true } now q).recorded (g.cfs q).avg)).1
      ((h.cfsCall { w with pemt := enabled } now q).updateLoadAvg
        ((h.cfsCall { w with pemt := enabled } now q).recorded (h.cfs q).avg)).1 := by
    cases henabled : enabled with
    | true =>
      have hcall : g.cfsCall { w with pemt := true } now q =
          h.cfsCall { w with pemt := true } now q := by
        unfold Heap.cfsCall
        rw [hs.cfsRatio, hcfs.curr, hcfs.cpu, hcfs.weight]
      rw [hcall]
      exact hcfs.avg.update_on (c := h.cfsCall { w with pemt := true } now q) rfl
    | false =>
      have hidle : (g.cfsCall { w with pemt := true } now q).running = false := by
        change (g.cfs q).curr.isSome = false
        rw [hcfs.curr, hr henabled]
        rfl
      exact hcfs.avg.update_off (g.cfsCall { w with pemt := true } now q)
        (h.cfsCall { w with pemt := false } now q) rfl rfl rfl hidle
  rw [Heap.updateCfsLoadAvg_eq, Heap.updateCfsLoadAvg_eq]
  exact hs.setCfs_avg rfl
    ⟨hupd, hcfs.removed, hcfs.curr, hcfs.cpu, hcfs.weight, hwords, hcfs.room⟩

theorem lagAfter_drained (h : Heap) (now q : Nat) (lag : Bool) :
    lagAfter enabled now ((h.drained enabled q).cfs q).avg lag =
      lagAfter enabled now (h.cfs q).avg lag := by
  have hdecays := h.drained_decaysAt enabled now q
  cases enabled with
  | true =>
    unfold lagAfter SchedAvg.wipesAt Heap.drained
    simp [SchedAvg.drain]
  | false =>
    unfold lagAfter
    rw [hdecays]
    unfold Heap.drained SchedAvg.laden
    simp [SchedAvg.drain]

theorem updateCfs (hs : Agrees st g h) {now q : Nat} {updateFreq : Bool}
    (hr : enabled = false → (h.cfs q).curr = none) :
    Agrees (st.after enabled h (.updateCfs now q updateFreq))
      (g.updateCfsRqLoadAvg { w with pemt := true } now q updateFreq).1
      (h.updateCfsRqLoadAvg { w with pemt := enabled } now q updateFreq).1 := by
  have hload := (hs.drained enabled q).updateLoad w now q
    (by simpa [Heap.drained] using hr)
  rw [lagAfter_drained] at hload
  rw [Heap.updateCfsRqLoadAvg_eq, Heap.updateCfsRqLoadAvg_eq]
  have hstale : st.after enabled h (.updateCfs now q updateFreq) =
      ((st.setCfs q (lagMoved enabled (h.cfs q).removed.laden (st.removed q) (st.cfs q))).setRemoved
        q (!enabled && (h.cfs q).removed.laden)).setCfs q (lagAfter enabled now (h.cfs q).avg
          (((st.setCfs q (lagMoved enabled (h.cfs q).removed.laden (st.removed q)
            (st.cfs q))).setRemoved q (!enabled && (h.cfs q).removed.laden)).cfs q)) := by
    simp [Stale.after, Stale.setCfs, Stale.setRemoved]
  rw [hstale]
  exact hload.notified _ _ _ _

theorem apply (hs : Agrees st g h) {op : LoadOp}
    (hop : FlagRun.Allowed ⟨enabled, h, st⟩ (.op w op)) :
    Agrees (st.after enabled h op) (g.apply { w with pemt := true } op).1
      (h.apply { w with pemt := enabled } op).1 := by
  cases op with
  | move i q =>
    obtain ⟨havg, -, hm⟩ := hs.ses i
    exact hs.setSe_same ⟨havg, rfl, hm⟩
  | setCurr q curr =>
    have hcfs := hs.cfs q
    exact hs.setCfs_same rfl
      ⟨hcfs.avg, hcfs.removed, rfl, hcfs.cpu, hcfs.weight, hcfs.words, hcfs.room⟩
  | updateEntity now cpu weight running i => exact hs.updateEntity hop
  | attach i => exact hs.attach i
  | detach i => exact hs.detach i
  | remove i => exact hs.remove i
  | updateCfs now q updateFreq => exact hs.updateCfs hop
  | propagate i => exact hop.elim

end Agrees

open FlagRun in
/-- Switching the tracking off and on leaves a `sched_avg` as the run without windows
has it, unless it is stale. -/
theorem flag_windows_agree_unless_stale {h : Heap}
    (hwords : ∀ q k, ((h.cfs q).avg.signal k).InWord ∧ (h.cfs q).removed.amount k < 2 ^ 64)
    {es : List FlagEvent} (hes : Along next Allowed ⟨true, h, .fresh⟩ es) :
    (∀ i, (run next ⟨true, h, .fresh⟩ es).stale.ses i = false → ∀ k : Track, k.tracked = true →
      ((run next ⟨true, h, .fresh⟩ es).heap.ses i).avg.signal k =
        ((run steady h es).ses i).avg.signal k) ∧
    ∀ q, (run next ⟨true, h, .fresh⟩ es).stale.cfs q = false → ∀ k : Track, k.tracked = true →
      ((run next ⟨true, h, .fresh⟩ es).heap.cfs q).avg.signal k =
        ((run steady h es).cfs q).avg.signal k := by
  have hstart : Agrees .fresh h h :=
    ⟨fun i => ⟨⟨⟨rfl, rfl, rfl⟩, fun _ _ _ => rfl⟩, rfl, rfl⟩,
      fun q => ⟨⟨⟨rfl, rfl, rfl⟩, fun _ _ _ => rfl⟩, fun _ _ _ => rfl, rfl, rfl, rfl,
        fun k => (hwords q k).1, fun k => (hwords q k).2⟩, rfl⟩
  have hend : Agrees (run next ⟨true, h, .fresh⟩ es).stale (run steady h es)
      (run next ⟨true, h, .fresh⟩ es).heap := by
    refine hes.simulation (g := steady) (R := fun s g => Agrees s.stale g s.heap)
      (fun s g e hrel hallowed => ?_) hstart
    cases e with
    | switch on => exact hrel
    | op w op => exact hrel.apply hallowed
  exact ⟨fun i hi k hk => ((hend.ses i).avg.signal hi k hk).symm,
    fun q hq k hk => ((hend.cfs q).avg.signal hq k hk).symm⟩

/-- A task that has run for a while and sleeps now, on an otherwise empty CPU. -/
def sleepingTask : Heap where
  ses _ := ⟨{ idleAvg with coreUtil := ⟨500 * loadAvgMax, 500⟩ }, 1024, false, 0, none⟩
  cfs _ := ⟨idleAvg, 0, ⟨0, 0⟩, 0, false, ⟨0, 0, 0, 0, 0, 0, 0⟩, none, 0, true, 0⟩
  tgs _ := ⟨0, 0, true⟩
  depth := 0
  notices := []

theorem sleepingTask_words (q : Nat) (k : Track) :
    ((sleepingTask.cfs q).avg.signal k).InWord ∧ (sleepingTask.cfs q).removed.amount k < 2 ^ 64 := by
  have hsignal : (sleepingTask.cfs q).avg.signal k = ⟨0, 0⟩ := by cases k <;> rfl
  have hamount : (sleepingTask.cfs q).removed.amount k = 0 := by cases k <;> rfl
  rw [hsignal, hamount]
  exact ⟨⟨by norm_num, by norm_num⟩, by norm_num⟩

def plainWorld : World := ⟨true, 0, fun _ => 1024, fun _ => 1024⟩

/-- The task is brought up to date in a window and, `periods` after the start, behind it. -/
def windowRun (periods : Nat) : List FlagEvent := [
  .switch false,
  .op plainWorld (.updateEntity (5 * 1024 * 1024) 0 0 false 0),
  .switch true,
  .op plainWorld (.updateEntity (periods * 1024 * 1024) 0 0 false 0)]

theorem windowRun_allowed (periods : Nat) :
    Along FlagRun.next FlagRun.Allowed ⟨true, sleepingTask, .fresh⟩ (windowRun periods) :=
  ⟨trivial, fun _ => rfl, trivial, fun _ => rfl, trivial⟩

theorem flag_windows_agree_long_sleep :
    ((run FlagRun.next ⟨true, sleepingTask, .fresh⟩ (windowRun 3000)).heap.ses 0).avg.signal
        .coreUtil =
      ((run FlagRun.steady sleepingTask (windowRun 3000)).ses 0).avg.signal .coreUtil :=
  (flag_windows_agree_unless_stale sleepingTask_words (windowRun_allowed 3000)).1 0
    (by decide +kernel) .coreUtil rfl

/-- The decay that a window skips is missing for good. -/
theorem flag_window_leaves_stale_signal : ¬ ∀ (h : Heap) (es : List FlagEvent) (w : World)
    (now cpu weight i : Nat) (k : Track),
    (∀ q k, ((h.cfs q).avg.signal k).InWord ∧ (h.cfs q).removed.amount k < 2 ^ 64) →
    Along FlagRun.next FlagRun.Allowed ⟨true, h, .fresh⟩ es →
    (run FlagRun.next ⟨true, h, .fresh⟩ es).enabled = true →
    ((run FlagRun.next ⟨true, h, .fresh⟩ es).heap.ses i).avg.decaysAt now = true →
    k.tracked = true →
    ((run FlagRun.next ⟨true, h, .fresh⟩
        (es ++ [.op w (.updateEntity now cpu weight false i)])).heap.ses i).avg.signal k =
      ((run FlagRun.steady h
        (es ++ [.op w (.updateEntity now cpu weight false i)])).ses i).avg.signal k := by
  intro hclaim
  have h := hclaim sleepingTask ((windowRun 10).take 3) plainWorld (10 * 1024 * 1024) 0 0 0 .coreUtil
    sleepingTask_words ⟨trivial, fun _ => rfl, trivial, trivial⟩ rfl (by decide +kernel) rfl
  revert h
  decide +kernel

end MSchedutil
