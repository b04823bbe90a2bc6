import MSchedutil.UpdateLoad

/-! A removal drained from the runqueue of a group, and the updates of the entities over
it. A pending propagation is carried up level by level, whatever comes between; the
counters of the fast signals do not raise one. -/

namespace MSchedutil

open Word
open Transition (run run_nil run_cons Along)

/-- One level of the way up: what happens before the entity is updated, and that update. -/
structure Leg where
  entity : Nat
  events : List LoadEvent
  world : World
  now : Nat
  flags : UpdateFlags

namespace Heap

/-- The entities over a runqueue, from that of its group up to one on a root. -/
def PathUp (h : Heap) : Nat → List Nat → Prop
  | g, [] => (h.cfs g).isRoot = true
  | g, i :: is => (h.ses i).myQ = some g ∧ (∀ j, (h.ses j).myQ = some g → j = i) ∧
      (h.ses i).cfsRq ≠ g ∧ h.PathUp (h.ses i).cfsRq is

/-- The heap in which `update_load_avg` calls `propagate_entity_load_avg`. -/
def aged (w : World) (now : Nat) (flags : UpdateFlags) (i : Nat) (h : Heap) : Heap :=
  ((h.ageEntity w now flags i).updateCfsRqLoadAvg w now (h.ses i).cfsRq true).1

end Heap

namespace Leg

open Heap

def before (l : Leg) (h : Heap) : Heap := run next h l.events

def after (l : Leg) (h : Heap) : Heap :=
  (l.before h).updateLoadAvg l.world l.now l.flags l.entity

/-- An event before the next update of the entity. -/
def Quiet (l : Leg) (h : Heap) (e : LoadEvent) : Prop :=
  h.TasksMove e ∧ ∀ w, e ≠ .op w (.propagate l.entity)

/-- The update propagates: the entity takes over the averages of its group, and its
runqueue loses what the entity loses. -/
structure Propagated (l : Leg) (g : Nat) (h : Heap) : Prop where
  fired : ((h.aged l.world l.now l.flags l.entity).propagateEntityLoadAvg l.world l.entity).2 = true
  follows : ∀ k, (((h.updateLoadAvg l.world l.now l.flags l.entity).ses l.entity).avg.signal k).avg =
    (((h.updateLoadAvg l.world l.now l.flags l.entity).cfs g).avg.signal k).avg
  shows : ∀ k, let a := h.aged l.world l.now l.flags l.entity
    ((a.cfs g).avg.signal k).avg ≤ ((a.ses l.entity).avg.signal k).avg →
    ((a.ses l.entity).avg.signal k).avg - ((a.cfs g).avg.signal k).avg ≤ 2 ^ 63 →
    (((h.updateLoadAvg l.world l.now l.flags l.entity).cfs (h.ses l.entity).cfsRq).avg.signal k).avg =
      ((a.cfs (h.ses l.entity).cfsRq).avg.signal k).avg -
        (((a.ses l.entity).avg.signal k).avg - ((a.cfs g).avg.signal k).avg)

end Leg

namespace Heap

/-- Level by level, each update comes with tracking on and is the next one of its entity. -/
def Scheduled : Heap → List Leg → Prop
  | _, [] => True
  | h, l :: ls => l.world.pemt = true ∧ Along next l.Quiet h l.events ∧ (l.after h).Scheduled ls

def Climbs : Heap → Nat → List Leg → Prop
  | _, _, [] => True
  | h, g, l :: ls => l.Propagated g (l.before h) ∧ (l.after h).Climbs (h.ses l.entity).cfsRq ls

/-- What is drained from `g` reaches every entity of the path and the runqueue it is on. -/
def DrainReaches (w : World) (now : Nat) (updateFreq : Bool) (g : Nat) (path : List Nat) (h : Heap) :
    Prop :=
  (∃ k, (h.cfs g).removed.amount k ≠ 0) → ∀ ls : List Leg, ls.map Leg.entity = path →
    (h.updateCfsRqLoadAvg w now g updateFreq).1.Scheduled ls →
    (h.updateCfsRqLoadAvg w now g updateFreq).1.Climbs g ls

variable {w : World} {h h' : Heap} {g i : Nat}

theorem PathUp.evolves {P : Nat → Prop} (hs : Evolves P h h') {is : List Nat} (hp : h.PathUp g is) :
    h'.PathUp g is := by
  induction is generalizing g with
  | nil => exact (hs.isRoot g).trans hp
  | cons i is ih =>
    obtain ⟨hm, hown, hne, hrest⟩ := hp
    have hq : (h'.ses i).cfsRq = (h.ses i).cfsRq := hs.cfsRq i (by simp [hm])
    refine ⟨(hs.myQ i).trans hm, fun j hj => hown j (by rwa [← hs.myQ j]), by rwa [hq], ?_⟩
    rw [hq]
    exact ih hrest

theorem evolves_run {l : Leg} {es : List LoadEvent}
    (hown : ∀ j, (h.ses j).myQ = some g → j = l.entity) (hes : Along next l.Quiet h es) :
    Evolves (· = g) h (run next h es) := by
  induction es generalizing h with
  | nil => exact Evolves.refl h
  | cons e es ih =>
    obtain ⟨⟨hmove, hquiet⟩, hrest⟩ := hes
    have hstep : Evolves (· = g) h (h.next e) := by
      refine evolves_next hmove fun w i g' he hm hg => ?_
      subst hg
      rw [hown i hm] at he
      exact hquiet w he
    exact hstep.trans (ih (fun j hj => hown j (by rwa [← hstep.myQ j])) hrest)

theorem Words.run (hs : h.Words) (es : List LoadEvent) : (Transition.run Heap.next h es).Words := by
  induction es generalizing h with
  | nil => exact hs
  | cons e es ih => exact ih (hs.next e)

theorem evolves_aged {P : Nat → Prop} (now : Nat) (flags : UpdateFlags) :
    Evolves P h (h.aged w now flags i) :=
  (evolves_ageEntity now flags i).trans (evolves_updateCfs _ _ _)

theorem Words.aged (hs : h.Words) (now : Nat) (flags : UpdateFlags) (i : Nat) :
    (h.aged w now flags i).Words := (hs.ageEntity now flags i).updateCfs _ _ _

theorem updateCfs_other {now q p : Nat} {updateFreq : Bool} (hp : p ≠ q) :
    (h.updateCfsRqLoadAvg w now q updateFreq).1.cfs p = h.cfs p := by
  rw [updateCfsRqLoadAvg_eq, updateCfsLoadAvg_eq]
  dsimp only
  split <;> simp [drained, hp]

theorem updateEntity_pending (now cpu weight : Nat) (running : Bool) (i q : Nat) :
    ((h.updateEntityLoadAvg w now cpu weight running i).1.cfs q).propagateAvg =
      (h.cfs q).propagateAvg := by
  rw [updateEntityLoadAvg_eq]
  simp only [setSe_cfs, ratioToCfs]
  split
  · by_cases hq : q = (h.ses i).cfsRq
    · simp [hq, cfsRqOf]
    · simp [hq]
  · rfl

theorem aged_pending (now : Nat) (flags : UpdateFlags) (hne : (h.ses i).cfsRq ≠ g) :
    ((h.aged w now flags i).cfs g).propagateAvg = (h.cfs g).propagateAvg := by
  rw [aged, updateCfs_other hne.symm]
  simp only [ageEntity]
  split
  · exact updateEntity_pending _ _ _ _ _ _
  · rfl

theorem drain_pending (now : Nat) (updateFreq : Bool) (g : Nat) :
    ((h.updateCfsRqLoadAvg w now g updateFreq).1.cfs g).propagateAvg =
      ((h.cfs g).propagateAvg || (h.cfs g).removed.propagates w.pemt) := by
  rw [updateCfsRqLoadAvg_eq, updateCfsLoadAvg_eq]
  dsimp only
  split <;> simp [drained]

theorem updateTg_cfs (q : Nat) (force : Bool) (p : Nat) : ∃ contrib,
    (h.updateTgLoadAvg q force).cfs p = { h.cfs p with tgLoadAvgContrib := contrib } := by
  simp only [updateTgLoadAvg]
  split
  · exact ⟨(h.cfs p).tgLoadAvgContrib, rfl⟩
  · split
    · exact forall_setCfs (P := fun p c => ∃ contrib, c = { h.cfs p with tgLoadAvgContrib := contrib })
        ⟨_, rfl⟩ (fun p => ⟨(h.cfs p).tgLoadAvgContrib, rfl⟩) p
    · exact ⟨(h.cfs p).tgLoadAvgContrib, rfl⟩

theorem updateTg_avg (q : Nat) (force : Bool) (p : Nat) :
    ((h.updateTgLoadAvg q force).cfs p).avg = (h.cfs p).avg := by
  obtain ⟨contrib, he⟩ := updateTg_cfs (h := h) q force p
  rw [he]

theorem updateTg_ses (q : Nat) (force : Bool) : (h.updateTgLoadAvg q force).ses = h.ses := by
  simp only [updateTgLoadAvg]
  split
  · rfl
  · split <;> rfl

/-- Up to the bookkeeping of the task group, an update is a propagation from the aged heap. -/
theorem updateLoadAvg_eq (now : Nat) (flags : UpdateFlags) (i : Nat) :
    h.updateLoadAvg w now flags i = ((h.aged w now flags i).propagateEntityLoadAvg w i).1 ∨
      h.updateLoadAvg w now flags i =
        ((h.aged w now flags i).propagateEntityLoadAvg w i).1.updateTgLoadAvg (h.ses i).cfsRq false := by
  simp only [updateLoadAvg, aged]
  split
  · exact .inr rfl
  · exact .inl rfl

theorem updateLoadAvg_avg (now : Nat) (flags : UpdateFlags) (i : Nat) :
    (∀ q, ((h.updateLoadAvg w now flags i).cfs q).avg =
      (((h.aged w now flags i).propagateEntityLoadAvg w i).1.cfs q).avg) ∧
    (h.updateLoadAvg w now flags i).ses =
      ((h.aged w now flags i).propagateEntityLoadAvg w i).1.ses := by
  rcases updateLoadAvg_eq (w := w) (h := h) now flags i with he | he
  · rw [he]
    exact ⟨fun _ => rfl, rfl⟩
  · rw [he]
    exact ⟨fun q => updateTg_avg _ _ q, updateTg_ses _ _⟩

theorem evolves_updateLoadAvg {P : Nat → Prop} (now : Nat) (flags : UpdateFlags)
    (hP : ∀ g, (h.ses i).myQ = some g → ¬ P g) : Evolves P h (h.updateLoadAvg w now flags i) := by
  have haged : Evolves P h (h.aged w now flags i) := evolves_aged now flags
  have hprop : Evolves P h ((h.aged w now flags i).propagateEntityLoadAvg w i).1 :=
    haged.trans (evolves_propagate fun g hm => hP g (by rwa [← haged.myQ i]))
  rcases updateLoadAvg_eq (w := w) (h := h) now flags i with he | he
  · rw [he]
    exact hprop
  · rw [he]
    exact hprop.trans (evolves_updateTg _ _)

theorem Words.updateLoadAvg (hs : h.Words) (now : Nat) (flags : UpdateFlags) (i : Nat) :
    (h.updateLoadAvg w now flags i).Words := by
  have hprop : ((h.aged w now flags i).propagateEntityLoadAvg w i).1.Words :=
    (hs.aged now flags i).propagate i
  rcases updateLoadAvg_eq (w := w) (h := h) now flags i with he | he
  · rw [he]
    exact hprop
  · rw [he]
    exact hprop.updateTg _ _

end Heap

/-! One propagation, seen from the averages. -/

namespace Signal

theorem propagateSelf_avg_word {max : Nat} {group se : Signal} (hg : group.avg < 2 ^ 64)
    (hs : se.avg < 2 ^ 64) : (propagateSelf max group se).avg = group.avg := by
  simp only [propagateSelf]
  split
  · rfl
  · rename_i h
    simp only [sub64, u64] at h
    omega

/-- A fall of the group's average below the entity's is taken off the parent. -/
theorem propagateParent_avg_word {max : Nat} {group se parent : Signal} (hle : group.avg ≤ se.avg)
    (hfall : se.avg - group.avg ≤ 2 ^ 63) (hs : se.avg < 2 ^ 64) (hp : parent.avg < 2 ^ 64) :
    (propagateParent max group se parent).avg = parent.avg - (se.avg - group.avg) := by
  simp only [propagateParent]
  rcases Nat.eq_zero_or_pos (se.avg - group.avg) with hzero | hpos
  · have hsame : sub64 group.avg se.avg = 0 := by
      simp only [sub64, u64]
      omega
    simp [hsame, hzero]
  · have hdelta : sub64 group.avg se.avg = 2 ^ 64 - (se.avg - group.avg) := by
      simp only [sub64, u64]
      omega
    have hneg : s64 (2 ^ 64 - (se.avg - group.avg)) < 0 := by
      rw [← not_le, s64_nonneg_iff, u64_of_lt (by omega)]
      omega
    rw [hdelta, if_pos (by omega)]
    simp only [ofAvg32, addPositive, hneg, true_and, u64]
    split <;> omega

end Signal

namespace Heap

variable {w : World} {h : Heap} {g i : Nat}

theorem propagate_raises (hm : (h.ses i).myQ = some g) (hf : (h.cfs g).propagateAvg = true) :
    ((h.propagateEntityLoadAvg w i).1.cfs (h.ses i).cfsRq).propagateAvg = true := by
  rw [propagate_fired hm hf]
  have hflags : ((h.flagsMoved i g).cfs (h.ses i).cfsRq).propagateAvg = true := by
    simp [flagsMoved, setPropagate]
  have hutil := (evolves_updateTgCfsUtil (P := fun _ => True) (w := w) (h := h.flagsMoved i g) i g)
  have hload := (evolves_updateTgCfsLoad (P := fun _ => True)
    (h := (h.flagsMoved i g).updateTgCfsUtil w i g) i g)
  exact hload.pending _ trivial (hutil.pending _ trivial hflags)

theorem propagate_signals (hw : w.pemt = true) (hm : (h.ses i).myQ = some g)
    (hf : (h.cfs g).propagateAvg = true) (k : Track) :
    ((h.propagateEntityLoadAvg w i).1.ses i).avg.signal k =
        .propagateSelf k.max ((h.cfs g).avg.signal k) ((h.ses i).avg.signal k) ∧
      ∀ q, ((h.propagateEntityLoadAvg w i).1.cfs q).avg.signal k =
        if q = (h.ses i).cfsRq then
          .propagateParent k.max ((h.cfs g).avg.signal k) ((h.ses i).avg.signal k)
            ((h.cfs q).avg.signal k)
        else (h.cfs q).avg.signal k := by
  have hshare := AttachSys.propagate_share (t := 0) (s := ⟨h, ∅⟩) hw hm hf k i
  rw [if_pos rfl] at hshare
  exact ⟨hshare, fun q => AttachSys.propagate_total (t := 0) (s := ⟨h, ∅⟩) hw hm hf k q⟩

/-- A pending propagation is performed by the next update of the entity. -/
theorem propagated_of_pending {l : Leg} (hw : l.world.pemt = true) (hs : h.Words)
    (hm : (h.ses l.entity).myQ = some g) (hne : (h.ses l.entity).cfsRq ≠ g)
    (hf : (h.cfs g).propagateAvg = true) : l.Propagated g h := by
  have hev : Evolves (fun _ => True) h (h.aged l.world l.now l.flags l.entity) :=
    evolves_aged l.now l.flags
  have hwords := hs.aged (w := l.world) l.now l.flags l.entity
  have hma := (hev.myQ l.entity).trans hm
  have hfa := hev.pending g trivial hf
  have hqa : ((h.aged l.world l.now l.flags l.entity).ses l.entity).cfsRq =
      (h.ses l.entity).cfsRq := hev.cfsRq l.entity (by simp [hm])
  obtain ⟨havg, hses⟩ := updateLoadAvg_avg (w := l.world) (h := h) l.now l.flags l.entity
  have hshare : ∀ k, (((h.updateLoadAvg l.world l.now l.flags l.entity).ses l.entity).avg.signal k) =
      .propagateSelf k.max (((h.aged l.world l.now l.flags l.entity).cfs g).avg.signal k)
        (((h.aged l.world l.now l.flags l.entity).ses l.entity).avg.signal k) := by
    intro k
    rw [hses]
    exact (propagate_signals hw hma hfa k).1
  have htotal : ∀ k q, (((h.updateLoadAvg l.world l.now l.flags l.entity).cfs q).avg.signal k) =
      if q = (h.ses l.entity).cfsRq then
        .propagateParent k.max (((h.aged l.world l.now l.flags l.entity).cfs g).avg.signal k)
          (((h.aged l.world l.now l.flags l.entity).ses l.entity).avg.signal k)
          (((h.aged l.world l.now l.flags l.entity).cfs q).avg.signal k)
      else ((h.aged l.world l.now l.flags l.entity).cfs q).avg.signal k := by
    intro k q
    rw [havg, ← hqa]
    exact (propagate_signals hw hma hfa k).2 q
  constructor
  case fired => rw [propagate_fired hma hfa]
  case follows =>
    intro k
    rw [hshare, htotal, if_neg hne.symm]
    exact Signal.propagateSelf_avg_word (hwords.cfs g k).2 (hwords.ses l.entity k).2
  case shows =>
    intro k a hle hfall
    rw [htotal, if_pos rfl]
    exact Signal.propagateParent_avg_word hle hfall (hwords.ses l.entity k).2 (hwords.cfs _ k).2

theorem updateLoadAvg_raises (now : Nat) (flags : UpdateFlags) (hm : (h.ses i).myQ = some g)
    (hf : (h.cfs g).propagateAvg = true) :
    ((h.updateLoadAvg w now flags i).cfs (h.ses i).cfsRq).propagateAvg = true := by
  have hev : Evolves (fun _ => True) h (h.aged w now flags i) := evolves_aged now flags
  have hraised := propagate_raises (w := w) ((hev.myQ i).trans hm) (hev.pending g trivial hf)
  rw [hev.cfsRq i (by simp [hm])] at hraised
  rcases updateLoadAvg_eq (w := w) (h := h) now flags i with he | he
  · rw [he]
    exact hraised
  · rw [he]
    exact (evolves_updateTg (P := fun _ => True) _ _).pending _ trivial hraised

theorem climbs_of_pending {ls : List Leg} (hs : h.Words) (hpath : h.PathUp g (ls.map Leg.entity))
    (hf : (h.cfs g).propagateAvg = true) (hsched : h.Scheduled ls) : h.Climbs g ls := by
  induction ls generalizing h g with
  | nil => trivial
  | cons l ls ih =>
    obtain ⟨hm, hown, hne, hrest⟩ := hpath
    obtain ⟨hw, hquiet, hsched⟩ := hsched
    have hev : Evolves (· = g) h (l.before h) := evolves_run hown hquiet
    have hwords : (l.before h).Words := hs.run l.events
    have hmb := (hev.myQ l.entity).trans hm
    have hqb : ((l.before h).ses l.entity).cfsRq = (h.ses l.entity).cfsRq :=
      hev.cfsRq l.entity (by simp [hm])
    have hfb := hev.pending g rfl hf
    have hlinks : Evolves (fun _ => False) (l.before h) (l.after h) :=
      evolves_updateLoadAvg l.now l.flags fun _ _ => id
    have hraised := updateLoadAvg_raises (w := l.world) l.now l.flags hmb hfb
    rw [hqb] at hraised
    refine ⟨propagated_of_pending hw hwords hmb (by rwa [hqb]) hfb, ?_⟩
    exact ih (hwords.updateLoadAvg _ _ _) ((hrest.evolves hev).evolves hlinks) hraised hsched

/-- Without events in between, the first update propagates only what is pending. -/
theorem pending_of_fired {l : Leg} (hm : (h.ses l.entity).myQ = some g)
    (hne : (h.ses l.entity).cfsRq ≠ g) (hfired : l.Propagated g h) :
    (h.cfs g).propagateAvg = true := by
  have hev : Evolves (fun _ => True) h (h.aged l.world l.now l.flags l.entity) :=
    evolves_aged l.now l.flags
  have hma := (hev.myQ l.entity).trans hm
  have hp := hfired.fired
  rcases (h.aged l.world l.now l.flags l.entity).propagate_cases l.entity with hidle | ⟨g', hm', hf'⟩
  · rw [propagate_idle hidle] at hp
    cases hp
  · obtain rfl : g = g' := Option.some.inj (hma.symm.trans hm')
    rwa [aged_pending l.now l.flags hne] at hf'

def directLegs (w : World) (now : Nat) (path : List Nat) : List Leg :=
  path.map fun i => ⟨i, [], w, now, ⟨false, false⟩⟩

theorem directLegs_entity (w : World) (now : Nat) (path : List Nat) :
    (directLegs w now path).map Leg.entity = path := by
  rw [directLegs, List.map_map]
  exact List.map_id path

theorem directLegs_scheduled (hw : w.pemt = true) (now : Nat) (path : List Nat) :
    h.Scheduled (directLegs w now path) := by
  induction path generalizing h with
  | nil => trivial
  | cons i path ih => exact ⟨hw, trivial, ih⟩

/-- A drained removal reaches the parents exactly when it finds the flag set or is one of
those that set it; a removal of fast averages alone is not. -/
theorem drain_reaches_iff (hw : w.pemt = true) (hs : h.Words) {path : List Nat}
    (hpath : h.PathUp g (i :: path)) (now : Nat) (updateFreq : Bool) :
    h.DrainReaches w now updateFreq g (i :: path) ↔
      (h.cfs g).propagateAvg = true ∨ (h.cfs g).removed.propagates w.pemt = true ∨
        ∀ k, (h.cfs g).removed.amount k = 0 := by
  have hdrain := drain_pending (w := w) (h := h) now updateFreq g
  have hev : Evolves (fun _ => True) h (h.updateCfsRqLoadAvg w now g updateFreq).1 :=
    evolves_updateCfs now g updateFreq
  constructor
  · intro hreach
    by_cases hall : ∀ k, (h.cfs g).removed.amount k = 0
    · exact .inr (.inr hall)
    · obtain ⟨hm, -, hne, -⟩ := hpath.evolves hev
      have hclimb := hreach (by simpa using hall) _ (directLegs_entity w now (i :: path))
        (directLegs_scheduled hw now (i :: path))
      have hpend : ((h.updateCfsRqLoadAvg w now g updateFreq).1.cfs g).propagateAvg = true :=
        pending_of_fired hm hne hclimb.1
      rw [hdrain, Bool.or_eq_true] at hpend
      rcases hpend with hf | hf
      · exact .inl hf
      · exact .inr (.inl hf)
  · rintro hcond ⟨k, hk⟩ ls hls hsched
    have hf : ((h.updateCfsRqLoadAvg w now g updateFreq).1.cfs g).propagateAvg = true := by
      rw [hdrain]
      rcases hcond with hf | hf | hall
      · rw [hf, Bool.true_or]
      · rw [hf, Bool.or_true]
      · exact absurd (hall k) hk
    have hup := hpath.evolves hev
    rw [← hls] at hup
    exact climbs_of_pending (hs.updateCfs _ _ _) hup hf hsched

end Heap

/-- What a short run leaves in the averages: the fast signals see it, the others hardly. -/
def briefAvg : SchedAvg :=
  { idleAvg with
    lastUpdateTime := 1024
    util := ⟨1 * loadAvgMax, 1⟩
    utilFast := ⟨9 * loadAvgFastMax, 9⟩
    coreUtilFast := ⟨9 * loadAvgFastMax, 9⟩ }

/-- A group with runqueue 1 and entity 0 on the root runqueue 0, and a removal pending in it. -/
def groupRemoval (r : Removed) : Heap where
  ses i := if i = 0 then ⟨briefAvg, 1024, false, 0, some 1⟩ else ⟨idleAvg, 1024, false, 1, none⟩
  cfs q := ⟨briefAvg, 0, ⟨0, 0⟩, 0, false, if q = 1 then r else ⟨0, 0, 0, 0, 0, 0, 0⟩, none, 0,
    decide (q = 0), q⟩
  tgs q := ⟨0, 1024, decide (q = 0)⟩
  depth := 1
  notices := []

def removalWorld : World := ⟨true, 0, fun _ => 1024, fun _ => 1024⟩

theorem briefAvg_inWord (k : Track) : (briefAvg.signal k).InWord := by
  cases k <;> exact ⟨by decide, by decide⟩

theorem groupRemoval_words (r : Removed) : (groupRemoval r).Words := by
  refine ⟨fun i k => ?_, fun q k => briefAvg_inWord k⟩
  by_cases hi : i = 0
  · simpa [groupRemoval, hi] using briefAvg_inWord k
  · cases k <;> simp [groupRemoval, hi, idleAvg, SchedAvg.signal, Signal.InWord]

theorem groupRemoval_pathUp (r : Removed) : (groupRemoval r).PathUp 1 [0] := by
  refine ⟨rfl, fun j hj => ?_, by simp [groupRemoval], rfl⟩
  by_contra hne
  simp [groupRemoval, hne] at hj

/-- A task that leaves some `util_avg` behind with its fast averages is propagated. -/
theorem drain_reaches_with_util : (groupRemoval ⟨0, 1, 9, 0, 0, 9, 0⟩).DrainReaches removalWorld
    1024 true 1 [0] :=
  (Heap.drain_reaches_iff rfl (groupRemoval_words _) (groupRemoval_pathUp _) 1024 true).mpr
    (.inr (.inl rfl))

/-- One that leaves only fast averages is drained from its group, and stays in the entity
of the group and in the root runqueue. -/
theorem fast_removal_stays :
    let h := groupRemoval ⟨0, 0, 9, 0, 0, 9, 0⟩
    let drained := (h.updateCfsRqLoadAvg removalWorld 1024 1 true).1
    let updated := drained.updateLoadAvg removalWorld 1024 ⟨true, false⟩ 0
    (drained.cfs 1).avg.utilFast.avg = 0 ∧ (updated.ses 0).avg.utilFast.avg = 9 ∧
      (updated.cfs 0).avg.utilFast.avg = 9 ∧
      ¬ ∀ (w : World) (h : Heap) (g i : Nat) (path : List Nat) (now : Nat) (updateFreq : Bool),
        w.pemt = true → h.Words → h.PathUp g (i :: path) →
        h.DrainReaches w now updateFreq g (i :: path) := by
  refine ⟨by decide, by decide, by decide, fun hall => ?_⟩
  have hreach := hall removalWorld (groupRemoval ⟨0, 0, 9, 0, 0, 9, 0⟩) 1 0 [] 1024 true rfl
    (groupRemoval_words _) (groupRemoval_pathUp _)
  have hclimb := hreach ⟨.utilFast, by decide⟩ (Heap.directLegs removalWorld 1024 [0]) rfl
    (Heap.directLegs_scheduled rfl 1024 [0])
  exact absurd hclimb.1.fired (by decide)

end MSchedutil
