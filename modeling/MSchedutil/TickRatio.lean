import MSchedutil.TaskTick

/-! One tick brings the memory cycle ratio of the running task to every entity and every
runqueue above it, reading the counters once. -/

namespace MSchedutil

open Word
open Transition (run run_nil run_cons)

namespace Heap

/-- Following `my_q` and `curr` leads from an entity to a task in `n` links. -/
inductive LeadsDown (h : Heap) : Nat → Nat → Nat → Prop
  | task {i : Nat} : (h.ses i).myQ = none → LeadsDown h i i 0
  | group {i g j t n : Nat} : (h.ses i).myQ = some g → (h.cfs g).curr = some j →
      LeadsDown h j t n → LeadsDown h i t (n + 1)

/-- From the entity over runqueue `below` up to the root: every entity is the current one
of its runqueue, and the parent of each is the one whose group that runqueue is. -/
def CurrPath (parent : Nat → Option Nat) (h : Heap) : Option Nat → List Nat → Prop
  | _, [] => True
  | below, i :: is => (h.ses i).myQ = below ∧ (h.cfs (h.ses i).cfsRq).curr = some i ∧
      parent i = is.head? ∧ h.CurrPath parent (some (h.ses i).cfsRq) is

/-- The entity and its runqueue were updated at a non-zero time at least 1024 ns ago. -/
structure Fresh (clock : Nat → Nat) (h : Heap) (i : Nat) : Prop where
  se_time : (h.ses i).avg.lastUpdateTime ≠ 0
  se_ago : 1024 ≤ s64 (sub64 (clock (h.ses i).cfsRq) (h.ses i).avg.lastUpdateTime)
  cfs_time : (h.cfs (h.ses i).cfsRq).avg.lastUpdateTime ≠ 0
  cfs_ago : 1024 ≤ s64 (sub64 (clock (h.ses i).cfsRq) (h.cfs (h.ses i).cfsRq).avg.lastUpdateTime)

def HasRatio (h : Heap) (r i : Nat) : Prop :=
  (h.ses i).avg.memoryCycleRatio = r ∧ (h.cfs (h.ses i).cfsRq).avg.memoryCycleRatio = r

/-- What the tick of entity `i` finds, `n` links above task `t` and below the entities `is`. -/
structure Ready (parent : Nat → Option Nat) (clock : Nat → Nat) (h : Heap) (t n i : Nat)
    (is : List Nat) : Prop where
  leads : h.LeadsDown i t n
  curr : (h.cfs (h.ses i).cfsRq).curr = some i
  up : parent i = is.head?
  above : h.CurrPath parent (some (h.ses i).cfsRq) is
  fresh : ∀ j ∈ i :: is, h.Fresh clock j
  depth : n + is.length ≤ h.depth + 1

structure KeepsRatios (h h' : Heap) : Prop where
  ses : ∀ i, (h'.ses i).avg.memoryCycleRatio = (h.ses i).avg.memoryCycleRatio
  cfs : ∀ q, (h'.cfs q).avg.memoryCycleRatio = (h.cfs q).avg.memoryCycleRatio

end Heap

theorem elapsed_of_ago {now last : Nat} (h : 1024 ≤ s64 (sub64 now last)) :
    ∃ delta, elapsed now last = .units delta := by
  have hpos : 0 ≤ s64 (sub64 now last) := by omega
  have hword : u64 (sub64 now last) = sub64 now last := u64_of_lt (u64_lt _)
  have hlt := (s64_nonneg_iff _).mp hpos
  rw [hword] at hlt
  rw [s64_of_lt hlt] at h
  refine ⟨sub64 now last >>> 10, ?_⟩
  simp only [elapsed]
  rw [if_neg (by omega), if_neg (by rw [Nat.shiftRight_eq_div_pow]; omega)]

namespace Heap

section Leaf

variable {h h' : Heap} {i t n : Nat}

theorem LeadsDown.steps_eq {t' n' : Nat} (hd : h.LeadsDown i t n) (hd' : h.LeadsDown i t' n') :
    n = n' := by
  induction hd generalizing t' n' with
  | task hm =>
    cases hd' with
    | task => rfl
    | group hm' => rw [hm] at hm'; cases hm'
  | group hm hc _ ih =>
    cases hd' with
    | task hm' => rw [hm] at hm'; cases hm'
    | group hm' hc' hrest =>
      rw [hm] at hm'
      cases hm'
      rw [hc] at hc'
      cases hc'
      rw [ih hrest]

theorem LeadsDown.leafSearch_eq (hd : h.LeadsDown i t n) {turns : Nat} (hn : n < turns) :
    h.leafSearch turns i = some (h.ses t).avg.memoryCycleRatio := by
  induction hd generalizing turns with
  | task hm =>
    obtain ⟨turns, rfl⟩ := Nat.exists_eq_add_of_lt hn
    simp [leafSearch, hm]
  | group hm hc _ ih =>
    cases turns with
    | zero => omega
    | succ turns =>
      rw [leafSearch, hm]
      simp only [hc]
      exact ih (by omega)

theorem LeadsDown.leafRatio_eq (hd : h.LeadsDown i t n) {fuel : Nat} (hn : n ≤ fuel) :
    h.leafRatio fuel i = (h.ses t).avg.memoryCycleRatio := by
  induction hd generalizing fuel with
  | task hm =>
    cases fuel with
    | zero => rfl
    | succ fuel => simp [leafRatio, hm]
  | group hm hc _ ih =>
    cases fuel with
    | zero => omega
    | succ fuel =>
      rw [leafRatio, hm]
      simp only [hc]
      exact ih (by omega)

theorem LeadsDown.congr (hm : ∀ j, (h'.ses j).myQ = (h.ses j).myQ)
    (hc : ∀ p, (h'.cfs p).curr = (h.cfs p).curr) (hd : h.LeadsDown i t n) : h'.LeadsDown i t n := by
  induction hd with
  | task hnone => exact .task ((hm _).trans hnone)
  | group hsome hcurr _ ih => exact .group ((hm _).trans hsome) ((hc _).trans hcurr) ih

variable {parent : Nat → Option Nat} {below : Option Nat} {is : List Nat}

theorem CurrPath.congr (hm : ∀ j, (h'.ses j).myQ = (h.ses j).myQ)
    (hq : ∀ j, (h'.ses j).cfsRq = (h.ses j).cfsRq) (hc : ∀ p, (h'.cfs p).curr = (h.cfs p).curr)
    (hp : h.CurrPath parent below is) : h'.CurrPath parent below is := by
  induction is generalizing below with
  | nil => trivial
  | cons i is ih =>
    obtain ⟨hmi, hci, hparent, hrest⟩ := hp
    refine ⟨(hm i).trans hmi, by rw [hq, hc]; exact hci, hparent, ?_⟩
    rw [hq]
    exact ih hrest

theorem CurrPath.curr_eq (hp : h.CurrPath parent below is) :
    ∀ j ∈ is, (h.cfs (h.ses j).cfsRq).curr = some j := by
  induction is generalizing below with
  | nil => simp
  | cons i is ih =>
    intro j hj
    rcases List.mem_cons.mp hj with rfl | hj
    · exact hp.2.1
    · exact ih hp.2.2.2 j hj

/-- Higher entities are more links away from the task. -/
theorem CurrPath.leadsDown (hd : h.LeadsDown i t n) (hc : (h.cfs (h.ses i).cfsRq).curr = some i)
    (hp : h.CurrPath parent (some (h.ses i).cfsRq) is) :
    ∀ j ∈ is, ∃ m, n < m ∧ h.LeadsDown j t m := by
  induction is generalizing i n with
  | nil => simp
  | cons k is ih =>
    obtain ⟨hm, hck, -, hrest⟩ := hp
    have hk : h.LeadsDown k t (n + 1) := .group hm hc hd
    intro j hj
    rcases List.mem_cons.mp hj with rfl | hj
    · exact ⟨n + 1, by omega, hk⟩
    · obtain ⟨m, hm', hj'⟩ := ih hk hck hrest j hj
      exact ⟨m, by omega, hj'⟩

/-- The entities above one are others, on other runqueues. -/
theorem CurrPath.apart (hd : h.LeadsDown i t n) (hc : (h.cfs (h.ses i).cfsRq).curr = some i)
    (hp : h.CurrPath parent (some (h.ses i).cfsRq) is) :
    ∀ j ∈ is, j ≠ i ∧ (h.ses j).cfsRq ≠ (h.ses i).cfsRq := by
  intro j hj
  obtain ⟨m, hlt, hj'⟩ := hp.leadsDown hd hc j hj
  have hne : j ≠ i := by
    rintro rfl
    have := hd.steps_eq hj'
    omega
  refine ⟨hne, fun hq => hne ?_⟩
  have hcj := hp.curr_eq j hj
  rw [hq, hc] at hcj
  exact (Option.some.inj hcj).symm

end Leaf

section Ratios

variable {w : World} {h h' h'' : Heap} {i q : Nat}

theorem KeepsRatios.refl (h : Heap) : KeepsRatios h h := ⟨fun _ => rfl, fun _ => rfl⟩

theorem KeepsRatios.trans (h₁ : KeepsRatios h h') (h₂ : KeepsRatios h' h'') : KeepsRatios h h'' :=
  ⟨fun i => (h₂.ses i).trans (h₁.ses i), fun q => (h₂.cfs q).trans (h₁.cfs q)⟩

theorem KeepsRatios.setSe {se : SchedEntity} (hs : KeepsRatios h h')
    (hse : se.avg.memoryCycleRatio = (h'.ses i).avg.memoryCycleRatio) :
    KeepsRatios h (h'.setSe i se) := by
  refine hs.trans ⟨?_, fun _ => rfl⟩
  exact forall_setSe
    (P := fun j s => s.avg.memoryCycleRatio = (h'.ses j).avg.memoryCycleRatio) hse fun _ => rfl

theorem KeepsRatios.setCfs {cfs : CfsRq} (hs : KeepsRatios h h')
    (hcfs : cfs.avg.memoryCycleRatio = (h'.cfs q).avg.memoryCycleRatio) :
    KeepsRatios h (h'.setCfs q cfs) := by
  refine hs.trans ⟨fun _ => rfl, ?_⟩
  exact forall_setCfs
    (P := fun p c => c.avg.memoryCycleRatio = (h'.cfs p).avg.memoryCycleRatio) hcfs fun _ => rfl

theorem KeepsRatios.setLoads (hs : KeepsRatios h h') (load load' runnable : Signal) :
    KeepsRatios h ((h'.setSe i { h'.ses i with avg := { (h'.ses i).avg with load := load } }).setCfs q
      { h'.cfs q with avg := { (h'.cfs q).avg with load := load' }, runnable := runnable }) :=
  KeepsRatios.setCfs (KeepsRatios.setSe hs rfl) rfl

theorem propagateSelf_ratio (pemt : Bool) (group se : SchedAvg) :
    (SchedAvg.propagateSelf pemt group se).memoryCycleRatio = se.memoryCycleRatio := by
  cases pemt <;> rfl

theorem propagateParent_ratio (pemt : Bool) (group se parent : SchedAvg) :
    (SchedAvg.propagateParent pemt group se parent).memoryCycleRatio = parent.memoryCycleRatio := by
  cases pemt <;> rfl

theorem keepsRatios_propagate : KeepsRatios h (h.propagateEntityLoadAvg w i).1 := by
  rcases h.propagate_cases i with hidle | ⟨g, hm, hf⟩
  · rw [propagate_idle hidle]
    exact KeepsRatios.refl h
  · rw [propagate_fired hm hf]
    have hflags : KeepsRatios h (h.flagsMoved i g) :=
      KeepsRatios.setCfs (KeepsRatios.setCfs (KeepsRatios.refl h) rfl) rfl
    have hutil : KeepsRatios h ((h.flagsMoved i g).updateTgCfsUtil w i g) := by
      simp only [updateTgCfsUtil]
      exact KeepsRatios.setCfs (KeepsRatios.setSe hflags (propagateSelf_ratio _ _ _))
        (propagateParent_ratio _ _ _ _)
    simp only [updateTgCfsLoad]
    split
    · exact hutil
    · exact hutil.setLoads _ _ _

theorem keepsRatios_updateTg (force : Bool) : KeepsRatios h (h.updateTgLoadAvg q force) :=
  ⟨fun i => by rw [updateTg_ses], fun p => by rw [updateTg_avg]⟩

theorem keepsRatios_updateCfsShares : KeepsRatios h (h.updateCfsShares i) := by
  simp only [updateCfsShares]
  split
  · exact KeepsRatios.refl h
  · simp only [reweightEntity]
    split
    · exact KeepsRatios.setCfs (KeepsRatios.setSe (KeepsRatios.refl h) rfl) rfl
    · exact KeepsRatios.setSe (KeepsRatios.refl h) rfl

end Ratios

section Level

variable {w : World} {h : Heap} {i q : Nat}

theorem recorded_ratio {c : UpdateCall} {sa : SchedAvg} (hp : c.pemt = true) (hr : c.running = true)
    (hel : ∃ delta, elapsed c.now sa.lastUpdateTime = .units delta) :
    (c.recorded sa).memoryCycleRatio = c.memoryCycleRatio := by
  obtain ⟨delta, hel⟩ := hel
  simp [UpdateCall.recorded, UpdateCall.records, hel, hp, hr]

theorem updateEntity_ratio (hw : w.pemt = true) {now cpu weight : Nat}
    (hel : ∃ delta, elapsed now (h.ses i).avg.lastUpdateTime = .units delta) :
    ((h.updateEntityLoadAvg w now cpu weight true i).1.ses i).avg.memoryCycleRatio =
      h.entityRatio w i := by
  have hrec : ((h.entityCall w now cpu weight true i).recorded (h.ses i).avg).memoryCycleRatio =
      (h.entityCall w now cpu weight true i).memoryCycleRatio := recorded_ratio hw rfl hel
  rw [updateEntityLoadAvg_eq]
  simp only [setSe_ses, Function.update_self, UpdateCall.updateLoadAvg_memoryCycleRatio]
  rw [hrec, entityCall, hw]
  rfl

theorem ageEntity_ratio (hw : w.pemt = true) {now : Nat} {flags : UpdateFlags}
    (hskip : flags.skipAgeLoad = false) (hcurr : (h.cfs (h.ses i).cfsRq).curr = some i)
    (hlast : (h.ses i).avg.lastUpdateTime ≠ 0)
    (hel : ∃ delta, elapsed now (h.ses i).avg.lastUpdateTime = .units delta) :
    ((h.ageEntity w now flags i).ses i).avg.memoryCycleRatio = h.entityRatio w i := by
  simp only [ageEntity]
  rw [if_pos ⟨hlast, by simp [hskip]⟩, decide_eq_true hcurr]
  exact updateEntity_ratio hw hel

theorem ratioToCfs_time (c : UpdateCall) (q : Nat) :
    ((h.ratioToCfs c i).cfs q).avg.lastUpdateTime = (h.cfs q).avg.lastUpdateTime := by
  rw [ratioToCfs]
  split
  · by_cases hq : q = (h.ses i).cfsRq
    · simp [hq, cfsRqOf]
    · simp [hq]
  · rfl

theorem ageEntity_cfs_time (now : Nat) (flags : UpdateFlags) (q : Nat) :
    ((h.ageEntity w now flags i).cfs q).avg.lastUpdateTime = (h.cfs q).avg.lastUpdateTime := by
  rw [ageEntity]
  by_cases hage : (h.ses i).avg.lastUpdateTime ≠ 0 ∧ ¬ flags.skipAgeLoad
  · rw [if_pos hage, updateEntityLoadAvg_eq]
    exact ratioToCfs_time _ q
  · rw [if_neg hage]

theorem updateCfs_ratio (hw : w.pemt = true) {now : Nat} (hcurr : (h.cfs q).curr = some i)
    (hel : ∃ delta, elapsed now (h.cfs q).avg.lastUpdateTime = .units delta) (updateFreq : Bool) :
    ((h.updateCfsRqLoadAvg w now q updateFreq).1.cfs q).avg.memoryCycleRatio =
      (h.ses i).avg.memoryCycleRatio := by
  have hc : ((h.drained w.pemt q).cfs q).curr = some i := by simp [drained, hcurr]
  have hel' : ∃ delta, elapsed now ((h.drained w.pemt q).cfs q).avg.lastUpdateTime =
      .units delta := by simpa [drained] using hel
  have hrec : (((h.drained w.pemt q).cfsCall w now q).recorded
      ((h.drained w.pemt q).cfs q).avg).memoryCycleRatio =
        ((h.drained w.pemt q).cfsCall w now q).memoryCycleRatio :=
    recorded_ratio hw (by simp [cfsCall, hc]) hel'
  have hratio : ((((h.drained w.pemt q).updateCfsLoadAvg w now q).1).cfs q).avg.memoryCycleRatio =
      (h.ses i).avg.memoryCycleRatio := by
    rw [updateCfsLoadAvg_eq]
    simp only [setCfs_cfs, Function.update_self, UpdateCall.updateLoadAvg_memoryCycleRatio]
    rw [hrec]
    simp [cfsCall, hw, hcurr, cfsRatio, drained]
  rw [updateCfsRqLoadAvg_eq]
  dsimp only
  split
  · rw [cfsRqUtilChange_cfs]
    exact hratio
  · exact hratio

theorem updateLoadAvg_ratio (hw : w.pemt = true) {clock : Nat → Nat} (flags : UpdateFlags)
    (hskip : flags.skipAgeLoad = false) (hcurr : (h.cfs (h.ses i).cfsRq).curr = some i)
    (hf : h.Fresh clock i) :
    ((h.updateLoadAvg w (clock (h.ses i).cfsRq) flags i).ses i).avg.memoryCycleRatio =
        h.entityRatio w i ∧
      ((h.updateLoadAvg w (clock (h.ses i).cfsRq) flags i).cfs (h.ses i).cfsRq).avg.memoryCycleRatio =
        h.entityRatio w i := by
  have hse := elapsed_of_ago hf.se_ago
  have hcfs := elapsed_of_ago hf.cfs_ago
  have hentity := ageEntity_ratio hw hskip hcurr hf.se_time hse
  have honly := touchesOnly_ageEntity (w := w) (clock (h.ses i).cfsRq) flags rfl (h := h) (i := i)
  rw [← ageEntity_cfs_time (w := w) (i := i) (clock (h.ses i).cfsRq) flags] at hcfs
  have hqueue := updateCfs_ratio hw ((honly.curr _).trans hcurr) hcfs true
  have haged : ((h.aged w (clock (h.ses i).cfsRq) flags i).ses i).avg.memoryCycleRatio =
        h.entityRatio w i ∧
      ((h.aged w (clock (h.ses i).cfsRq) flags i).cfs (h.ses i).cfsRq).avg.memoryCycleRatio =
        h.entityRatio w i := by
    rw [aged, updateCfs_ses]
    exact ⟨hentity, hqueue.trans hentity⟩
  have hkeeps : KeepsRatios (h.aged w (clock (h.ses i).cfsRq) flags i)
      (h.updateLoadAvg w (clock (h.ses i).cfsRq) flags i) := by
    rcases updateLoadAvg_eq (w := w) (h := h) (clock (h.ses i).cfsRq) flags i with he | he
    · rw [he]
      exact keepsRatios_propagate
    · rw [he]
      exact keepsRatios_propagate.trans (keepsRatios_updateTg false)
  exact ⟨(hkeeps.ses i).trans haged.1, (hkeeps.cfs _).trans haged.2⟩

end Level

section Ready

variable {parent : Nat → Option Nat} {clock : Nat → Nat} {h h' : Heap} {t n i : Nat}

theorem Fresh.congr {j : Nat} (hf : h.Fresh clock j) (hse : h'.ses j = h.ses j)
    (hcfs : (h'.cfs (h.ses j).cfsRq).avg = (h.cfs (h.ses j).cfsRq).avg) : h'.Fresh clock j := by
  refine ⟨?_, ?_, ?_, ?_⟩
  · rw [hse]
    exact hf.se_time
  · rw [hse]
    exact hf.se_ago
  · rw [hse, hcfs]
    exact hf.cfs_time
  · rw [hse, hcfs]
    exact hf.cfs_ago

theorem Ready.next {k : Nat} {is : List Nat} (hr : h.Ready parent clock t n i (k :: is))
    (hs : TouchesOnly i (h.ses i).cfsRq h h') : h'.Ready parent clock t (n + 1) k is := by
  obtain ⟨hm, hcurr, hup, habove⟩ := hr.above
  have hapart := hr.above.apart hr.leads hr.curr
  have hdepth := hr.depth
  have hpath : h'.CurrPath parent (some (h.ses k).cfsRq) is :=
    habove.congr hs.groups hs.seats hs.curr
  refine ⟨?_, ?_, hup, ?_, fun j hj => ?_, ?_⟩
  · exact LeadsDown.congr hs.groups hs.curr (.group hm hr.curr hr.leads)
  · rw [hs.seats, hs.curr]
    exact hcurr
  · rw [hs.seats]
    exact hpath
  · obtain ⟨hne, hq⟩ := hapart j hj
    exact (hr.fresh j (List.mem_cons_of_mem i hj)).congr (hs.ses j hne) (hs.avg _ hq)
  · rw [hs.depth]
    simp only [List.length_cons] at hdepth
    omega

end Ready

end Heap

section Tick

open Heap

variable {w : World} {pmu clock : Nat → Nat} {parent : Nat → Option Nat} {s : TickState}
  {i t n : Nat}

theorem tickLevel_touchesOnly (w : World) (pmu clock : Nat → Nat) (s : TickState) (i : Nat) :
    TouchesOnly i (s.heap.ses i).cfsRq s.heap (tickLevel w pmu clock s i).heap :=
  (touchesOnly_updateLoadAvg _ _ rfl).trans touchesOnly_updateCfsShares

theorem tickLevel_ratio (pmu : Nat → Nat) (hw : w.pemt = true)
    (hcurr : (s.heap.cfs (s.heap.ses i).cfsRq).curr = some i) (hf : s.heap.Fresh clock i) :
    ((tickLevel w pmu clock s i).heap.ses i).avg.memoryCycleRatio =
        s.heap.entityRatio { w with pmuRatio := pmu s.calls } i ∧
      ((tickLevel w pmu clock s i).heap.cfs (s.heap.ses i).cfsRq).avg.memoryCycleRatio =
        s.heap.entityRatio { w with pmuRatio := pmu s.calls } i := by
  have hlevel := updateLoadAvg_ratio (w := { w with pmuRatio := pmu s.calls }) hw ⟨true, false⟩ rfl
    hcurr hf
  have hkeeps := keepsRatios_updateCfsShares (i := i)
    (h := s.heap.updateLoadAvg { w with pmuRatio := pmu s.calls } (clock (s.heap.ses i).cfsRq)
      ⟨true, false⟩ i)
  exact ⟨(hkeeps.ses i).trans hlevel.1, (hkeeps.cfs _).trans hlevel.2⟩

theorem asksRatio_of_fresh (hw : w.pemt = true)
    (hcurr : (s.heap.cfs (s.heap.ses i).cfsRq).curr = some i) (hf : s.heap.Fresh clock i) :
    s.heap.asksRatio w (clock (s.heap.ses i).cfsRq) i = true := by
  obtain ⟨delta, hel⟩ := elapsed_of_ago hf.se_ago
  simp [asksRatio, hel, hw, hcurr, hf.se_time]

theorem tickLevel_calls (hw : w.pemt = true)
    (hcurr : (s.heap.cfs (s.heap.ses i).cfsRq).curr = some i) (hf : s.heap.Fresh clock i) :
    (tickLevel w pmu clock s i).calls =
      if (s.heap.ses i).myQ = none then s.calls + 1 else s.calls := by
  have hasks := asksRatio_of_fresh (w := { w with pmuRatio := pmu s.calls }) hw hcurr hf
  simp only [tickLevel, hasks, true_and]

theorem entityTick_eq (hd : s.heap.LeadsDown i t n) {turns : Nat} (hn : n < turns) :
    entityTick w pmu clock turns i s = some (tickLevel w pmu clock s i) := by
  simp only [entityTick, hd.leafSearch_eq hn, Option.map_some]
  split <;> rfl

theorem run_seats (is : List Nat) (s : TickState) (j : Nat) :
    ((run (tickLevel w pmu clock) s is).heap.ses j).cfsRq = (s.heap.ses j).cfsRq := by
  induction is generalizing s with
  | nil => rfl
  | cons i is ih => exact (ih _).trans ((tickLevel_touchesOnly w pmu clock s i).seats j)

theorem run_others (w : World) (pmu clock : Nat → Nat) (is : List Nat) (s : TickState) :
    (∀ j, j ∉ is → (run (tickLevel w pmu clock) s is).heap.ses j = s.heap.ses j) ∧
      (∀ q, (∀ j ∈ is, (s.heap.ses j).cfsRq ≠ q) →
        ((run (tickLevel w pmu clock) s is).heap.cfs q).avg = (s.heap.cfs q).avg) := by
  induction is generalizing s with
  | nil => exact ⟨fun _ _ => rfl, fun _ _ => rfl⟩
  | cons i is ih =>
    have hs := tickLevel_touchesOnly w pmu clock s i
    obtain ⟨hses, havg⟩ := ih (tickLevel w pmu clock s i)
    refine ⟨fun j hj => ?_, fun q hq => ?_⟩
    · rw [run_cons, hses j fun hmem => hj (List.mem_cons_of_mem i hmem)]
      exact hs.ses j fun he => hj (he ▸ List.mem_cons_self)
    · rw [run_cons, havg q fun j hj => by
        rw [hs.seats]
        exact hq j (List.mem_cons_of_mem i hj)]
      exact hs.avg q fun he => hq i List.mem_cons_self he.symm

theorem taskTickFair_eq_run {is : List Nat} (hr : s.heap.Ready parent clock t n i is)
    {turns fuel : Nat} (hturns : n + is.length < turns) (hfuel : is.length < fuel) :
    taskTickFair w pmu clock parent turns fuel i s =
      some (run (tickLevel w pmu clock) s (i :: is)) := by
  induction is generalizing s i n fuel with
  | nil =>
    obtain ⟨fuel, rfl⟩ := Nat.exists_eq_add_of_lt hfuel
    simp [taskTickFair, entityTick_eq hr.leads hturns, hr.up]
  | cons k is ih =>
    cases fuel with
    | zero => omega
    | succ fuel =>
      simp only [List.length_cons] at hturns hfuel
      have hs := tickLevel_touchesOnly w pmu clock s i
      have hnext := hr.next hs
      rw [taskTickFair, entityTick_eq hr.leads (by omega), Option.bind_some, hr.up, run_cons]
      simp only [List.head?_cons]
      exact ih hnext (by omega) (by omega)

/-- The running task's ratio reaches every level, each through the leaf search. -/
theorem run_hasRatio (hw : w.pemt = true) {r : Nat} {is : List Nat}
    (hr : s.heap.Ready parent clock t n i is)
    (hratio : s.heap.entityRatio { w with pmuRatio := pmu s.calls } i = r)
    (hleaf : t ≠ i → (s.heap.ses t).avg.memoryCycleRatio = r) :
    ∀ j ∈ i :: is, (run (tickLevel w pmu clock) s (i :: is)).heap.HasRatio r j := by
  induction is generalizing s i n with
  | nil =>
    intro j hj
    obtain rfl := List.mem_singleton.mp hj
    have hlevel := tickLevel_ratio pmu hw hr.curr (hr.fresh j List.mem_cons_self)
    rw [hratio] at hlevel
    refine ⟨hlevel.1, ?_⟩
    rw [run_cons, run_nil, (tickLevel_touchesOnly w pmu clock s j).seats]
    exact hlevel.2
  | cons k is ih =>
    have hs := tickLevel_touchesOnly w pmu clock s i
    have hlevel := tickLevel_ratio pmu hw hr.curr (hr.fresh i List.mem_cons_self)
    rw [hratio] at hlevel
    have hnext := hr.next hs
    have htask : ((tickLevel w pmu clock s i).heap.ses t).avg.memoryCycleRatio = r := by
      by_cases hti : t = i
      · rw [hti]
        exact hlevel.1
      · rw [hs.ses t hti]
        exact hleaf hti
    have hgroup : ((tickLevel w pmu clock s i).heap.ses k).myQ ≠ none := by
      rw [hs.groups, hr.above.1]
      simp
    have hnextRatio : (tickLevel w pmu clock s i).heap.entityRatio
        { w with pmuRatio := pmu (tickLevel w pmu clock s i).calls } k = r := by
      have hdepth := hnext.depth
      rw [entityRatio, if_neg hgroup, hnext.leads.leafRatio_eq (by omega)]
      exact htask
    have hrest := ih hnext hnextRatio fun _ => htask
    intro j hj
    rcases List.mem_cons.mp hj with rfl | hj
    · have hapart := hr.above.apart hr.leads hr.curr
      obtain ⟨hses, havg⟩ := run_others w pmu clock (k :: is)
        (tickLevel w pmu clock s j)
      have hse := hses j fun hmem => (hapart j hmem).1 rfl
      have hcfs := havg (s.heap.ses j).cfsRq fun m hm => by
        rw [hs.seats]
        exact (hapart m hm).2
      refine ⟨?_, ?_⟩
      · rw [run_cons, hse]
        exact hlevel.1
      · rw [run_cons, hse, hs.seats, hcfs]
        exact hlevel.2
    · rw [run_cons]
      exact hrest j hj

theorem run_calls (hw : w.pemt = true) {is : List Nat} (hr : s.heap.Ready parent clock t n i is) :
    (run (tickLevel w pmu clock) s (i :: is)).calls =
      if (s.heap.ses i).myQ = none then s.calls + 1 else s.calls := by
  induction is generalizing s i n with
  | nil => exact tickLevel_calls hw hr.curr (hr.fresh i List.mem_cons_self)
  | cons k is ih =>
    have hs := tickLevel_touchesOnly w pmu clock s i
    have hnext := hr.next hs
    have hgroup : ((tickLevel w pmu clock s i).heap.ses k).myQ ≠ none := by
      rw [hs.groups, hr.above.1]
      simp
    rw [run_cons, ih hnext, if_neg hgroup]
    exact tickLevel_calls hw hr.curr (hr.fresh i List.mem_cons_self)

/-- One tick: the search for the leaf ends on every level, the counters are read once, and
the value read is then the ratio of every entity and every runqueue from the task to the root. -/
theorem taskTickFair_ratio (w : World) (pmu clock : Nat → Nat) (parent : Nat → Option Nat)
    (s : TickState) (task : Nat) (path : List Nat) (hw : w.pemt = true)
    (hpath : s.heap.CurrPath parent none (task :: path)) (hdepth : path.length ≤ s.heap.depth)
    (hfresh : ∀ i ∈ task :: path, s.heap.Fresh clock i) :
    ∃ s', (∀ turns fuel, path.length < turns → path.length < fuel →
        taskTickFair w pmu clock parent turns fuel task s = some s') ∧
      s'.calls = s.calls + 1 ∧
      ∀ i ∈ task :: path, (s'.heap.ses i).avg.memoryCycleRatio = pmu s.calls ∧
        (s'.heap.cfs (s.heap.ses i).cfsRq).avg.memoryCycleRatio = pmu s.calls := by
  obtain ⟨htask, hcurr, hup, habove⟩ := hpath
  have hr : s.heap.Ready parent clock task 0 task path :=
    ⟨.task htask, hcurr, hup, habove, hfresh, by omega⟩
  refine ⟨run (tickLevel w pmu clock) s (task :: path), fun turns fuel hturns hfuel => ?_, ?_, ?_⟩
  · exact taskTickFair_eq_run hr (by omega) hfuel
  · rw [run_calls hw hr, if_pos htask]
  · have hratio : s.heap.entityRatio { w with pmuRatio := pmu s.calls } task = pmu s.calls :=
      if_pos htask
    have hrun := run_hasRatio hw hr hratio fun hne => absurd rfl hne
    intro i hi
    obtain ⟨hse, hcfs⟩ := hrun i hi
    rw [run_seats] at hcfs
    exact ⟨hse, hcfs⟩

end Tick

/-- Task 0 in a group in a group: entity `i` is current on runqueue `i`, whose entity is the
next one. -/
def nestedTask : Heap where
  ses i := ⟨{ idleAvg with lastUpdateTime := 1 }, 1024, true, i, if i = 0 then none else some (i - 1)⟩
  cfs q := ⟨{ idleAvg with lastUpdateTime := 1 }, 1024, ⟨0, 0⟩, 0, false, ⟨0, 0, 0, 0, 0, 0, 0⟩,
    some q, 0, decide (q = 2), q⟩
  tgs q := ⟨0, 1024, decide (q = 2)⟩
  depth := 2
  notices := []

def nestedParent (i : Nat) : Option Nat := if i < 2 then some (i + 1) else none

theorem nestedTask_fresh (i : Nat) : nestedTask.Fresh (fun _ => 4096) i := by
  refine ⟨?_, ?_, ?_, ?_⟩
  · simp [nestedTask]
  · show (1024 : Int) ≤ s64 (sub64 4096 1)
    decide
  · simp [nestedTask]
  · show (1024 : Int) ≤ s64 (sub64 4096 1)
    decide

theorem taskTickFair_ratio_nested :
    ∃ s', (∀ turns fuel, 2 < turns → 2 < fuel →
        taskTickFair removalWorld (fun _ => 300) (fun _ => 4096) nestedParent turns fuel 0
          ⟨nestedTask, 0⟩ = some s') ∧
      s'.calls = 1 ∧
      ∀ i ∈ [0, 1, 2], (s'.heap.ses i).avg.memoryCycleRatio = 300 ∧
        (s'.heap.cfs (nestedTask.ses i).cfsRq).avg.memoryCycleRatio = 300 :=
  taskTickFair_ratio removalWorld (fun _ => 300) (fun _ => 4096) nestedParent ⟨nestedTask, 0⟩ 0
    [1, 2] rfl ⟨rfl, rfl, rfl, rfl, rfl, rfl, rfl, rfl, rfl, trivial⟩ (by decide)
    fun i _ => nestedTask_fresh i

end MSchedutil
