import MSchedutil.SchedSteps

/-! The clocks of the fair class: every operation leaves current tasks on their CPU, tasks on
a runqueue with a clock, and no running task ahead of its CPU. -/

namespace MSchedutil

open Word Transition

namespace SchedCore

variable {hw : Hardware} {s : SchedCore} {here i : Nat}

theorem updateLoadAvg_cfsClock : (s.updateLoadAvg hw here i).cfsClock =
    Function.update s.cfsClock (s.tasks i).cfsRq
      (clockAfter (s.clock (s.tasks i).cpu) (s.cfsClock (s.tasks i).cfsRq)) := by
  rw [updateLoadAvg_eq]

theorem updateLoadAvg_same (j : Nat) :
    ((s.updateLoadAvg hw here i).tasks j).onRq = (s.tasks j).onRq ∧
      ((s.updateLoadAvg hw here i).tasks j).cpu = (s.tasks j).cpu ∧
      ((s.updateLoadAvg hw here i).tasks j).cfsRq = (s.tasks j).cfsRq := by
  by_cases hj : j = i
  · subst hj
    obtain ⟨sa, hsa, -⟩ := updateLoadAvg_task hw here j s
    rw [hsa]
    exact ⟨rfl, rfl, rfl⟩
  · rw [updateLoadAvg_other hj]
    exact ⟨rfl, rfl, rfl⟩

/-- `cfs_rq->curr` of a CPU is cleared. -/
def unseat (cpu : Nat) (s : SchedCore) : SchedCore :=
  { s with curr := Function.update s.curr cpu none }

/-- The end of `set_next_entity`. -/
def seatAt (cpu i : Nat) (s : SchedCore) : SchedCore :=
  { s with
    curr := Function.update s.curr cpu (some i)
    since := Function.update s.since cpu s.now
    touched := Function.update s.touched cpu (s.clock cpu)
    late := if (s.tasks i).avg.lastUpdateTime = s.clock cpu then s.late
      else Function.update s.late cpu (s.late cpu + 1) }

def setTask (i : Nat) (se : RqTask) (s : SchedCore) : SchedCore :=
  { s with tasks := Function.update s.tasks i se }

theorem putPrevEntity_eq (cpu : Nat) : s.putPrevEntity hw cpu i =
    (if (s.tasks i).onRq then s.updateLoadAvg hw cpu i else s).unseat cpu := rfl

theorem setNextEntity_eq (cpu : Nat) : s.setNextEntity hw cpu i =
    (if (s.tasks i).onRq then s.updateLoadAvg hw cpu i else s).seatAt cpu i := rfl

theorem enqueueEntity_eq : s.enqueueEntity hw here i =
    let s := s.updateLoadAvg hw here i
    let se := s.tasks i
    let clock := if se.avg.lastUpdateTime = 0 then s.cfsClock se.cfsRq else se.avg.lastUpdateTime
    s.setTask i { se with avg := { se.avg with lastUpdateTime := clock }, onRq := true } := rfl

theorem dequeueEntity_eq : s.dequeueEntity hw here i =
    (s.updateLoadAvg hw here i).setTask i { (s.updateLoadAvg hw here i).tasks i with onRq := false } :=
  rfl

/-- Current tasks sit on their CPU, tasks on a runqueue have a clock, and no task is ahead
of the CPU it runs on. -/
structure Clocked (s : SchedCore) : Prop where
  seat : ∀ cpu i, s.curr cpu = some i → (s.tasks i).cpu = cpu
  up : ∀ cpu, 1024 ≤ s.clock cpu
  clock_le : ∀ cpu, s.clock cpu ≤ s.now
  now_lt : s.now < 2 ^ 63
  task_lt : ∀ i, (s.tasks i).avg.lastUpdateTime < 2 ^ 63
  cfs_lt : ∀ q, s.cfsClock q < 2 ^ 63
  attached : ∀ i, (s.tasks i).onRq = true → (s.tasks i).avg.lastUpdateTime ≠ 0
  curr_le : ∀ cpu i, s.curr cpu = some i → (s.tasks i).avg.lastUpdateTime ≤ s.clock cpu

theorem Clocked.clock_lt (h : s.Clocked) (cpu : Nat) : s.clock cpu < 2 ^ 63 :=
  (h.clock_le cpu).trans_lt h.now_lt

theorem Clocked.updateRqClock (h : s.Clocked) {t : Nat} (ht : s.InTime t) (cpu : Nat) :
    (s.updateRqClock cpu t).Clocked where
  seat := h.seat
  up c := by
    unfold SchedCore.updateRqClock
    by_cases hc : c = cpu
    · subst hc
      simpa using (h.up c).trans ((h.clock_le c).trans ht.1)
    · simpa [hc] using h.up c
  clock_le c := by
    unfold SchedCore.updateRqClock
    by_cases hc : c = cpu
    · simp [hc]
    · simpa [hc] using (h.clock_le c).trans ht.1
  now_lt := ht.2
  task_lt := h.task_lt
  cfs_lt := h.cfs_lt
  attached := h.attached
  curr_le c i hi := by
    have hle := h.curr_le c i hi
    unfold SchedCore.updateRqClock
    by_cases hc : c = cpu
    · subst hc
      simpa using hle.trans ((h.clock_le c).trans ht.1)
    · simpa [hc] using hle

theorem Clocked.clockAfter (h : s.Clocked) (cpu : Nat) {last : Nat} (hlast : last < 2 ^ 63) :
    MSchedutil.clockAfter (s.clock cpu) last ≤ s.clock cpu ∧
      s.clock cpu < MSchedutil.clockAfter (s.clock cpu) last + 1024 ∧
      MSchedutil.clockAfter (s.clock cpu) last ≠ 0 := by
  have hup := h.up cpu
  rcases clockAfter_cases (h.clock_lt cpu) hlast with ⟨heq, hle, hlt⟩ | heq
  · rw [heq]
    omega
  · rw [heq]
    omega

theorem Clocked.updateLoadAvg (h : s.Clocked) : (s.updateLoadAvg hw here i).Clocked := by
  obtain ⟨sa, hsa, hlast⟩ := updateLoadAvg_task hw here i s
  have hafter := h.clockAfter (s.tasks i).cpu (h.task_lt i)
  refine ⟨fun cpu j hj => ?_, fun cpu => ?_, fun cpu => ?_, ?_, fun j => ?_, fun q => ?_,
    fun j hj => ?_, fun cpu j hj => ?_⟩
  · rw [updateLoadAvg_curr] at hj
    rw [(updateLoadAvg_same j).2.1]
    exact h.seat cpu j hj
  · rw [updateLoadAvg_clock]
    exact h.up cpu
  · rw [updateLoadAvg_clock, updateLoadAvg_now]
    exact h.clock_le cpu
  · rw [updateLoadAvg_now]
    exact h.now_lt
  · by_cases hji : j = i
    · subst hji
      rw [hsa]
      dsimp only
      rw [hlast]
      split
      · norm_num
      · exact hafter.1.trans_lt (h.clock_lt _)
    · rw [updateLoadAvg_other hji]
      exact h.task_lt j
  · rw [updateLoadAvg_cfsClock]
    by_cases hq : q = (s.tasks i).cfsRq
    · subst hq
      rw [Function.update_self]
      exact (h.clockAfter _ (h.cfs_lt _)).1.trans_lt (h.clock_lt _)
    · rw [Function.update_of_ne hq]
      exact h.cfs_lt q
  · rw [(updateLoadAvg_same j).1] at hj
    have hne := h.attached j hj
    by_cases hji : j = i
    · subst hji
      rw [hsa]
      dsimp only
      rw [hlast, if_neg hne]
      exact hafter.2.2
    · rw [updateLoadAvg_other hji]
      exact hne
  · rw [updateLoadAvg_curr] at hj
    rw [updateLoadAvg_clock]
    by_cases hji : j = i
    · subst hji
      rw [hsa]
      dsimp only
      rw [hlast]
      have hcpu := h.seat cpu j hj
      subst hcpu
      split
      · exact Nat.zero_le _
      · exact hafter.1
    · rw [updateLoadAvg_other hji]
      exact h.curr_le cpu j hj

theorem Clocked.unseat (h : s.Clocked) (cpu : Nat) : (s.unseat cpu).Clocked := by
  have hold : ∀ c j, (s.unseat cpu).curr c = some j → s.curr c = some j := by
    intro c j hj
    by_cases hc : c = cpu
    · subst hc
      simp [SchedCore.unseat] at hj
    · simpa [SchedCore.unseat, hc] using hj
  exact ⟨fun c j hj => h.seat c j (hold c j hj), h.up, h.clock_le, h.now_lt, h.task_lt, h.cfs_lt,
    h.attached, fun c j hj => h.curr_le c j (hold c j hj)⟩

theorem Clocked.seatAt (h : s.Clocked) {cpu : Nat} (hcpu : (s.tasks i).cpu = cpu)
    (hle : (s.tasks i).avg.lastUpdateTime ≤ s.clock cpu) : (s.seatAt cpu i).Clocked := by
  have hold : ∀ c j, (s.seatAt cpu i).curr c = some j → c = cpu ∧ j = i ∨ s.curr c = some j := by
    intro c j hj
    by_cases hc : c = cpu
    · subst hc
      simp only [SchedCore.seatAt, Function.update_self, Option.some.injEq] at hj
      exact .inl ⟨rfl, hj.symm⟩
    · simp only [SchedCore.seatAt, Function.update_of_ne hc] at hj
      exact .inr hj
  refine ⟨fun c j hj => ?_, h.up, h.clock_le, h.now_lt, h.task_lt, h.cfs_lt, h.attached,
    fun c j hj => ?_⟩
  · rcases hold c j hj with ⟨rfl, rfl⟩ | hj
    · exact hcpu
    · exact h.seat c j hj
  · rcases hold c j hj with ⟨rfl, rfl⟩ | hj
    · exact hle
    · exact h.curr_le c j hj

/-- A task that is not current may change at will, as long as it has a clock on the runqueue. -/
theorem Clocked.setTask (h : s.Clocked) {se : RqTask}
    (hcurr : ∀ cpu, s.curr cpu = some i → se.cpu = (s.tasks i).cpu ∧
      se.avg.lastUpdateTime = (s.tasks i).avg.lastUpdateTime)
    (hlt : se.avg.lastUpdateTime < 2 ^ 63) (hon : se.onRq = true → se.avg.lastUpdateTime ≠ 0) :
    (s.setTask i se).Clocked := by
  unfold SchedCore.setTask
  refine ⟨fun cpu j hj => ?_, h.up, h.clock_le, h.now_lt, fun j => ?_, h.cfs_lt, fun j hj => ?_,
    fun cpu j hj => ?_⟩
  · by_cases hji : j = i
    · subst hji
      simpa [(hcurr cpu hj).1] using h.seat cpu j hj
    · simpa [hji] using h.seat cpu j hj
  · by_cases hji : j = i
    · subst hji
      simpa using hlt
    · simpa [hji] using h.task_lt j
  · by_cases hji : j = i
    · subst hji
      simpa using hon (by simpa using hj)
    · simpa [hji] using h.attached j (by simpa [hji] using hj)
  · by_cases hji : j = i
    · subst hji
      simpa [(hcurr cpu hj).2] using h.curr_le cpu j hj
    · simpa [hji] using h.curr_le cpu j hj

theorem Clocked.congr {s' : SchedCore} (h : s.Clocked) (htasks : s'.tasks = s.tasks)
    (hcurr : s'.curr = s.curr) (hnow : s'.now = s.now) (hclock : s'.clock = s.clock)
    (hcfs : s'.cfsClock = s.cfsClock) : s'.Clocked := by
  obtain ⟨h1, h2, h3, h4, h5, h6, h7, h8⟩ := h
  rw [← htasks, ← hcurr] at h1
  rw [← hclock] at h2
  rw [← hclock, ← hnow] at h3
  rw [← hnow] at h4
  rw [← htasks] at h5 h7
  rw [← hcfs] at h6
  rw [← htasks, ← hcurr, ← hclock] at h8
  exact ⟨h1, h2, h3, h4, h5, h6, h7, h8⟩

theorem Clocked.not_curr (h : s.Clocked) (hi : s.curr (s.tasks i).cpu ≠ some i) (cpu : Nat) :
    s.curr cpu ≠ some i := by
  intro hcurr
  rw [h.seat cpu i hcurr] at hi
  exact hi hcurr

theorem Clocked.putPrevEntity (h : s.Clocked) (cpu : Nat) : (s.putPrevEntity hw cpu i).Clocked := by
  rw [putPrevEntity_eq]
  split
  · exact h.updateLoadAvg.unseat cpu
  · exact h.unseat cpu

/-- The task that is switched in has a clock less than a unit old. -/
theorem Clocked.updated_last (h : s.Clocked) (hw : Hardware) (here : Nat)
    (hon : (s.tasks i).onRq = true) :
    ((s.updateLoadAvg hw here i).tasks i).avg.lastUpdateTime ≤ s.clock (s.tasks i).cpu ∧
      s.clock (s.tasks i).cpu < ((s.updateLoadAvg hw here i).tasks i).avg.lastUpdateTime + 1024 := by
  obtain ⟨sa, hsa, hlast⟩ := updateLoadAvg_task hw here i s
  have hafter := h.clockAfter (s.tasks i).cpu (h.task_lt i)
  rw [hsa]
  dsimp only
  rw [hlast, if_neg (h.attached i hon)]
  exact ⟨hafter.1, hafter.2.1⟩

theorem Clocked.setNextEntity (h : s.Clocked) {cpu : Nat} (hon : (s.tasks i).onRq = true)
    (hcpu : (s.tasks i).cpu = cpu) : (s.setNextEntity hw cpu i).Clocked := by
  rw [setNextEntity_eq, if_pos hon]
  refine h.updateLoadAvg.seatAt ?_ ?_
  · rw [(updateLoadAvg_same i).2.1]
    exact hcpu
  · rw [updateLoadAvg_clock, ← hcpu]
    exact (h.updated_last hw (s.tasks i).cpu hon).1

theorem Clocked.enqueueEntity (h : s.Clocked) (hi : s.curr (s.tasks i).cpu ≠ some i) :
    (s.enqueueEntity hw here i).Clocked := by
  have hupdated : (s.updateLoadAvg hw here i).Clocked := h.updateLoadAvg
  have hcfs := h.clockAfter (s.tasks i).cpu (h.cfs_lt (s.tasks i).cfsRq)
  have hclock : (s.updateLoadAvg hw here i).cfsClock ((s.updateLoadAvg hw here i).tasks i).cfsRq =
      MSchedutil.clockAfter (s.clock (s.tasks i).cpu) (s.cfsClock (s.tasks i).cfsRq) := by
    rw [(updateLoadAvg_same i).2.2, updateLoadAvg_cfsClock, Function.update_self]
  rw [enqueueEntity_eq]
  refine hupdated.setTask (fun cpu hcurr => ?_) ?_ fun _ => ?_
  · rw [updateLoadAvg_curr] at hcurr
    exact absurd hcurr (h.not_curr hi cpu)
  · dsimp only
    split
    · rw [hclock]
      exact hcfs.1.trans_lt (h.clock_lt _)
    · exact hupdated.task_lt i
  · dsimp only
    split
    · rw [hclock]
      exact hcfs.2.2
    · assumption

theorem Clocked.dequeueEntity (h : s.Clocked) : (s.dequeueEntity hw here i).Clocked := by
  have hupdated : (s.updateLoadAvg hw here i).Clocked := h.updateLoadAvg
  rw [dequeueEntity_eq]
  exact hupdated.setTask (fun _ _ => ⟨rfl, rfl⟩) (hupdated.task_lt i) fun hon => by cases hon

/-- A dequeued task has its `cfs_rq`'s clock afterwards, or keeps its own. -/
theorem syncEntityLoadAvg_eq (hw : Hardware) (i : Nat) (s : SchedCore) :
    ∃ sa, s.syncEntityLoadAvg hw i = s.setTask i { s.tasks i with avg := sa } ∧
      sa.lastUpdateTime =
        MSchedutil.clockAfter (s.cfsClock (s.tasks i).cfsRq) (s.tasks i).avg.lastUpdateTime :=
  ⟨_, rfl, UpdateCall.updateLoadAvg_lastUpdateTime _ _⟩

theorem setTaskCpu_eq (hw : Hardware) (i cpu cfsRq : Nat) (s : SchedCore) :
    ∃ sa, sa.lastUpdateTime = 0 ∧ s.setTaskCpu hw i cpu cfsRq =
      s.setTask i { s.tasks i with avg := sa, cpu := cpu, cfsRq := cfsRq } := by
  obtain ⟨sa, hsync, -⟩ := syncEntityLoadAvg_eq hw i s
  refine ⟨{ sa with lastUpdateTime := 0 }, rfl, ?_⟩
  unfold setTaskCpu
  rw [hsync]
  simp [SchedCore.setTask]

theorem Clocked.syncEntityLoadAvg (h : s.Clocked) (hoff : (s.tasks i).onRq = false)
    (hi : s.curr (s.tasks i).cpu ≠ some i) : (s.syncEntityLoadAvg hw i).Clocked := by
  obtain ⟨sa, hsync, hlast⟩ := syncEntityLoadAvg_eq hw i s
  rw [hsync]
  refine h.setTask (fun c hcurr => absurd hcurr (h.not_curr hi c)) ?_ fun hon => ?_
  · dsimp only
    rw [hlast]
    rcases clockAfter_cases (h.cfs_lt (s.tasks i).cfsRq) (h.task_lt i) with ⟨heq, -⟩ | heq
    · rw [heq]
      exact h.task_lt i
    · rw [heq]
      exact h.cfs_lt _
  · exact absurd (hoff.symm.trans hon) (by decide)

theorem Clocked.setTaskCpu (h : s.Clocked) (hoff : (s.tasks i).onRq = false)
    (hi : s.curr (s.tasks i).cpu ≠ some i) (cpu cfsRq : Nat) :
    (s.setTaskCpu hw i cpu cfsRq).Clocked := by
  obtain ⟨sa, hlast, hmigrated⟩ := setTaskCpu_eq hw i cpu cfsRq s
  rw [hmigrated]
  refine h.setTask (fun c hcurr => absurd hcurr (h.not_curr hi c)) ?_ fun hon => ?_
  · dsimp only
    rw [hlast]
    norm_num
  · exact absurd (hoff.symm.trans hon) (by decide)

theorem Clocked.settle (h : s.Clocked) : (s.settle hw).Clocked := by
  unfold SchedCore.settle
  dsimp only
  split
  · exact h.congr rfl rfl rfl rfl rfl
  · exact h

theorem Clocked.baseline (h : s.Clocked) (cpu : Nat) :
    (if hw.pemt then s.pkshinPmuUpdate hw cpu else s).Clocked := by
  split
  · exact h.congr rfl rfl rfl rfl rfl
  · exact h

/-- What the operations of the fair class keep, each where the events call it. -/
structure Keeps (hw : Hardware) (Inv : SchedCore → Prop) : Prop where
  clock : ∀ s cpu t, Inv s → s.InTime t → Inv (s.updateRqClock cpu t)
  baseline : ∀ s cpu, Inv s → Inv (if hw.pemt then s.pkshinPmuUpdate hw cpu else s)
  update : ∀ s here i, Inv s → Inv (s.updateLoadAvg hw here i)
  put : ∀ s cpu i, Inv s → s.curr cpu = some i → Inv (s.putPrevEntity hw cpu i)
  setNext : ∀ s cpu i, Inv s → s.curr cpu = none → (s.tasks i).onRq = true →
    (s.tasks i).cpu = cpu → Inv (s.setNextEntity hw cpu i)
  enqueue : ∀ s here i, Inv s → s.curr (s.tasks i).cpu ≠ some i → Inv (s.enqueueEntity hw here i)
  dequeue : ∀ s here i, Inv s → (s.tasks i).onRq = true → Inv (s.dequeueEntity hw here i)
  sync : ∀ s i, Inv s → (s.tasks i).onRq = false → s.curr (s.tasks i).cpu ≠ some i →
    Inv (s.syncEntityLoadAvg hw i)
  migrate : ∀ s i cpu cfsRq, Inv s → (s.tasks i).onRq = false → s.curr (s.tasks i).cpu ≠ some i →
    Inv (s.setTaskCpu hw i cpu cfsRq)
  settle : ∀ s, Inv s → Inv (s.settle hw)
  clearTotals : ∀ s, Inv s → Inv s.clearTotals

theorem putPrevEntity_tasks {cpu j : Nat} (hj : j ≠ i) :
    (s.putPrevEntity hw cpu i).tasks j = s.tasks j := by
  rw [putPrevEntity_eq]
  split
  · exact updateLoadAvg_other hj
  · rfl

theorem baseline_tasks (hw : Hardware) (cpu : Nat) (s : SchedCore) :
    (if hw.pemt then s.pkshinPmuUpdate hw cpu else s).tasks = s.tasks := by
  split <;> rfl

theorem Keeps.pickAgain {Inv : SchedCore → Prop} (hk : Keeps hw Inv) (h : Inv s) {cpu p : Nat}
    (hon : (s.tasks p).onRq = true) (hcpu : (s.tasks p).cpu = cpu) :
    Inv (s.pickAgain hw cpu (some p)) := by
  unfold SchedCore.pickAgain
  cases hprev : s.curr cpu with
  | none => exact hk.setNext s cpu p h hprev hon hcpu
  | some prev =>
    dsimp only
    split
    · exact h
    · rename_i hne
      have hsame : (s.putPrevEntity hw cpu prev).tasks p = s.tasks p :=
        putPrevEntity_tasks (Ne.symm hne)
      have hnone : (s.putPrevEntity hw cpu prev).curr cpu = none := Function.update_self _ _ _
      refine hk.setNext _ cpu p (hk.put s cpu prev h hprev) hnone ?_ ?_
      · rw [hsame]
        exact hon
      · rw [hsame]
        exact hcpu

theorem Keeps.next {Inv : SchedCore → Prop} (hk : Keeps hw Inv) (h : Inv s) {e : SchedEvent}
    (he : s.Valid e) : Inv (s.next hw e) := by
  cases e with
  | tick cpu t =>
    have hclock := hk.clock s cpu t h he.1
    unfold SchedCore.next taskTickFair
    dsimp only
    split
    · exact hk.update _ cpu _ hclock
    · exact hclock
  | pick cpu t next =>
    cases next with
    | none => exact hk.baseline _ cpu (hk.clock s cpu t h he)
    | some p =>
      have htasks := baseline_tasks hw cpu (s.updateRqClock cpu t)
      refine hk.pickAgain (hk.baseline _ cpu (hk.clock s cpu t h he.1)) ?_ ?_
      · rw [htasks]
        exact he.2.1
      · rw [htasks]
        exact he.2.2
  | again cpu t p => exact hk.pickAgain (hk.clock s cpu t h he.1) he.2.1 he.2.2
  | putPrev cpu t =>
    have hclock := hk.clock s cpu t h he
    unfold SchedCore.next putPrevTaskFair
    dsimp only
    split
    · rename_i i hi
      exact hk.put _ cpu i hclock hi
    · exact hclock
  | enqueue here t i => exact hk.enqueue _ here i (hk.clock s _ t h he.1) he.2.2
  | dequeue here t i => exact hk.dequeue _ here i (hk.clock s _ t h he.1) he.2
  | update here t i => exact hk.update _ here i (hk.clock s _ t h he.1)
  | sync i => exact hk.sync s i h he.1 he.2
  | migrate i cpu cfsRq => exact hk.migrate s i cpu cfsRq h he.1 he.2
  | settle => exact hk.settle s h
  | clearTotals => exact hk.clearTotals s h

theorem keeps_clocked (hw : Hardware) : Keeps hw Clocked where
  clock _ cpu _ h ht := h.updateRqClock ht cpu
  baseline _ cpu h := h.baseline cpu
  update _ _ _ h := h.updateLoadAvg
  put _ cpu _ h _ := h.putPrevEntity cpu
  setNext _ _ _ h _ hon hcpu := h.setNextEntity hon hcpu
  enqueue _ _ _ h hi := h.enqueueEntity hi
  dequeue _ _ _ h _ := h.dequeueEntity
  sync _ _ h hoff hi := h.syncEntityLoadAvg hoff hi
  migrate _ _ cpu cfsRq h hoff hi := h.setTaskCpu hoff hi cpu cfsRq
  settle _ h := h.settle
  clearTotals _ h := h.congr rfl rfl rfl rfl rfl

end SchedCore

/-- A machine at rest, 4096 ns after its start; its account is clear. -/
def restingCore : SchedCore where
  tasks _ := ⟨⟨0, 0, ⟨0, 0⟩, ⟨0, 0⟩, ⟨0, 0⟩, 0, ⟨0, 0⟩, ⟨0, 0⟩, ⟨0, 0⟩, ⟨0, 0⟩⟩, 1024, false, workCore, 0⟩
  curr _ := none
  now := 4096
  clock _ := 4096
  cfsClock _ := 4096
  prev _ _ := 0
  cycles := ⟨fun _ => 0, fun _ => 4096, 0, 0, 0, 0⟩
  charges := []
  sampledAt _ := 0
  since _ := 0
  touched _ := 0
  calls _ := 0
  late _ := 0
  idle _ := 0
  windowStart := 4096

theorem restingCore_clocked : restingCore.Clocked where
  seat _ _ hi := by cases hi
  up _ := (by decide : 1024 ≤ 4096)
  clock_le _ := le_refl _
  now_lt := by decide
  task_lt _ := (by decide : 0 < 2 ^ 63)
  cfs_lt _ := (by decide : 4096 < 2 ^ 63)
  attached _ hon := by cases hon
  curr_le _ _ hi := by cases hi

end MSchedutil
