import MSchedutil.SchedClocks

/-! Which window `pkshin_pmu_get` measures. As long as nobody moves a baseline under a
running task, the counts it takes off were sampled on the task's CPU where the interval
it charges began. -/

namespace MSchedutil

open Word Transition

/-- The ratio is measured over the interval it is charged to, on the CPU where it ran;
the interval begins less than a unit before the sample, at a switch-in. -/
structure Charge.Aligned (hw : Hardware) (ch : Charge) : Prop where
  on_cpu : ch.here = ch.cpu
  sampled : ch.base = hw.read ch.cpu ch.since
  start_le : ch.lastUpdateTime ≤ ch.since
  start_lt : ch.since < ch.lastUpdateTime + 1024
  since_le : ch.since ≤ ch.now

namespace SchedCore

/-- An update of the task at `t` has nothing to charge. -/
def NothingDue (s : SchedCore) (i t : Nat) : Prop :=
  (s.tasks i).avg.lastUpdateTime = 0 ∨ t < (s.tasks i).avg.lastUpdateTime + 1024

/-- No baseline is moved before what it stands for has been charged: a pick finds the
current task off the runqueue, or charged at that instant, or puts it with nothing due, and one
that goes again has just sampled. What is due is charged on the task's own CPU, and there only
once a baseline has been taken. -/
def Undisturbed (s : SchedCore) : SchedEvent → Prop
  | .tick cpu t | .putPrev cpu t => ∀ i ∈ s.curr cpu, (s.tasks i).onRq = true →
      s.sampledAt cpu ≠ 0 ∨ s.NothingDue i t
  | .pick cpu t next => ∀ prev ∈ s.curr cpu, (s.tasks prev).onRq = true →
      s.since cpu = t ∨ next ≠ none ∧ next ≠ some prev ∧ s.NothingDue prev t
  | .again cpu t _ => s.sampledAt cpu = t
  | .dequeue here t i | .update here t i => s.curr (s.tasks i).cpu = some i →
      here = (s.tasks i).cpu ∧ s.sampledAt here ≠ 0 ∨ s.NothingDue i t
  | _ => True

instance (s : SchedCore) (i t : Nat) : Decidable (s.NothingDue i t) :=
  inferInstanceAs (Decidable (_ ∨ _))

instance (s : SchedCore) : ∀ e, Decidable (s.Undisturbed e)
  | .tick cpu _ | .putPrev cpu _ => inferInstanceAs (Decidable (∀ i ∈ s.curr cpu, _ → _ ∨ _))
  | .pick cpu _ _ => inferInstanceAs (Decidable (∀ prev ∈ s.curr cpu, _ → _ ∨ _ ∧ _ ∧ _))
  | .again _ _ _ => inferInstanceAs (Decidable (_ = _))
  | .dequeue _ _ _ | .update _ _ _ => inferInstanceAs (Decidable (_ → _ ∧ _ ∨ _))
  | .enqueue _ _ _ | .sync _ | .migrate _ _ _ | .settle | .clearTotals =>
    inferInstanceAs (Decidable True)

/-- The baseline of a CPU, if there is one, was taken when its current task was last charged
or switched in, less than a unit after the interval that the next charge is for began. -/
structure Window (s : SchedCore) (cpu i : Nat) : Prop where
  sampled : s.sampledAt cpu ≠ 0 → s.sampledAt cpu = s.since cpu
  le : (s.tasks i).avg.lastUpdateTime ≤ s.since cpu
  lt : s.since cpu < (s.tasks i).avg.lastUpdateTime + 1024

/-- The windows of the CPUs in `P` are in order, and all the charges made were. -/
structure Windows (hw : Hardware) (P : Nat → Prop) (s : SchedCore) : Prop where
  clocked : s.Clocked
  prev : ∀ cpu, s.sampledAt cpu ≠ 0 → s.prev cpu = hw.read cpu (s.sampledAt cpu)
  window : ∀ cpu, P cpu → ∀ i, s.curr cpu = some i → (s.tasks i).onRq = true → s.Window cpu i
  since_le : ∀ cpu, s.since cpu ≤ s.now
  aligned : ∀ ch ∈ s.charges, ch.Aligned hw

variable {hw : Hardware} {P : Nat → Prop} {s : SchedCore} {here i : Nat}

theorem Clocked.now_ne_zero (h : s.Clocked) : s.now ≠ 0 := by
  have hup := (h.up 0).trans (h.clock_le 0)
  omega

theorem Windows.mono {Q : Nat → Prop} (h : Windows hw Q s) (hPQ : ∀ cpu, P cpu → Q cpu) :
    Windows hw P s :=
  ⟨h.clocked, h.prev, fun cpu hcpu => h.window cpu (hPQ cpu hcpu), h.since_le, h.aligned⟩

theorem Windows.updateRqClock (h : Windows hw P s) {t : Nat} (ht : s.InTime t) (cpu : Nat) :
    Windows hw P (s.updateRqClock cpu t) where
  clocked := h.clocked.updateRqClock ht cpu
  prev := h.prev
  window c hc i hi hon :=
    have hwin := h.window c hc i hi hon
    ⟨hwin.sampled, hwin.le, hwin.lt⟩
  since_le c := (h.since_le c).trans ht.1
  aligned := h.aligned

/-- A new baseline spoils the window of a task that was not charged just now. -/
theorem Windows.baseline (h : Windows hw P s) (cpu : Nat) :
    Windows hw (fun c => P c ∧ (c = cpu → ∀ i, s.curr cpu = some i → (s.tasks i).onRq = true →
      s.since cpu = s.now)) (s.pkshinPmuUpdate hw cpu) := by
  unfold pkshinPmuUpdate
  refine ⟨h.clocked.congr rfl rfl rfl rfl rfl, fun c => ?_, fun c hc i hi hon => ?_, h.since_le,
    h.aligned⟩
  · by_cases hcpu : c = cpu
    · simp [hcpu]
    · simpa [hcpu] using h.prev c
  · have hwin := h.window c hc.1 i hi hon
    refine ⟨?_, hwin.le, hwin.lt⟩
    by_cases hcpu : c = cpu
    · subst hcpu
      exact fun _ => (Function.update_self _ _ _).trans (hc.2 rfl i hi hon).symm
    · simpa [hcpu] using hwin.sampled

theorem Windows.unseat {cpu : Nat} (h : Windows hw (fun c => P c ∧ c ≠ cpu) s) :
    Windows hw P (s.unseat cpu) := by
  refine ⟨h.clocked.unseat cpu, h.prev, fun c hc i hi hon => ?_, h.since_le, h.aligned⟩
  by_cases hcpu : c = cpu
  · subst hcpu
    simp [SchedCore.unseat] at hi
  · have hi' : s.curr c = some i := by simpa [SchedCore.unseat, hcpu] using hi
    have hwin := h.window c ⟨hc, hcpu⟩ i hi' hon
    exact ⟨hwin.sampled, hwin.le, hwin.lt⟩

/-- A task that is switched in right after its CPU's baseline was taken. -/
theorem Windows.seatAt (h : Windows hw P s) {cpu : Nat} (hcpu : (s.tasks i).cpu = cpu)
    (hsampled : s.sampledAt cpu = s.now) (hclock : s.clock cpu = s.now)
    (hle : (s.tasks i).avg.lastUpdateTime ≤ s.clock cpu)
    (hlt : s.clock cpu < (s.tasks i).avg.lastUpdateTime + 1024) :
    Windows hw P (s.seatAt cpu i) := by
  refine ⟨h.clocked.seatAt hcpu hle, h.prev, fun c hc j hj hon => ?_, fun c => ?_, h.aligned⟩
  · by_cases hc' : c = cpu
    · subst hc'
      have hj' : i = j := by simpa [SchedCore.seatAt] using hj
      subst hj'
      have hsince : (s.seatAt c i).since c = s.now := by simp [SchedCore.seatAt]
      rw [hclock] at hle hlt
      exact ⟨fun _ => hsampled.trans hsince.symm, hsince ▸ hle, hsince ▸ hlt⟩
    · have hj' : s.curr c = some j := by simpa [SchedCore.seatAt, hc'] using hj
      have hsince : (s.seatAt cpu i).since c = s.since c := by simp [SchedCore.seatAt, hc']
      have hwin := h.window c hc j hj' hon
      exact ⟨fun hne => (hwin.sampled hne).trans hsince.symm, hsince ▸ hwin.le, hsince ▸ hwin.lt⟩
  · by_cases hc' : c = cpu
    · simp [SchedCore.seatAt, hc']
    · simpa [SchedCore.seatAt, hc'] using h.since_le c

theorem Windows.setTask (h : Windows hw P s) {se : RqTask} (hc : (s.setTask i se).Clocked)
    (hi : se.onRq = true → ∀ cpu, s.curr cpu ≠ some i) : Windows hw P (s.setTask i se) := by
  refine ⟨hc, h.prev, fun cpu hcpu j hj hon => ?_, h.since_le, h.aligned⟩
  by_cases hji : j = i
  · subst hji
    have hon' : se.onRq = true := by simpa [SchedCore.setTask] using hon
    exact absurd hj (hi hon' cpu)
  · have hsame : (s.setTask i se).tasks j = s.tasks j := Function.update_of_ne hji _ _
    have hwin := h.window cpu hcpu j hj (hsame ▸ hon)
    exact ⟨hwin.sampled, by rw [hsame]; exact hwin.le, by rw [hsame]; exact hwin.lt⟩

/-- A running task of which at least a unit is to be charged. -/
def Due (s : SchedCore) (i : Nat) : Prop :=
  (s.tasks i).avg.lastUpdateTime ≠ 0 ∧ s.isCurr i = true ∧ s.overdue i = true

theorem updateLoadAvg_quiet (hw : Hardware) (here : Nat) (hdue : ¬ s.Due i) :
    (s.updateLoadAvg hw here i).prev = s.prev ∧ (s.updateLoadAvg hw here i).sampledAt = s.sampledAt ∧
      (s.updateLoadAvg hw here i).since = s.since ∧
      (s.updateLoadAvg hw here i).charges = s.charges := by
  rw [updateLoadAvg_eq, updateTask, updateTaskAvg_eq]
  by_cases hzero : (s.tasks i).avg.lastUpdateTime = 0
  · simp [hzero]
  · have hoff : (s.isCurr i && s.overdue i) = false := by
      rw [← Bool.not_eq_true, Bool.and_eq_true]
      exact fun hon => hdue ⟨hzero, hon⟩
    simp [hzero, Bool.and_assoc, hoff]

/-- An update without anything due moves no baseline, and no mark of a running task. -/
theorem Windows.quiet (h : Windows hw P s) (hdue : ¬ s.Due i) :
    Windows hw P (s.updateLoadAvg hw here i) := by
  obtain ⟨hprev, hsampled, hsince, hcharges⟩ := updateLoadAvg_quiet hw here hdue
  have hlast : ∀ cpu j, s.curr cpu = some j →
      ((s.updateLoadAvg hw here i).tasks j).avg.lastUpdateTime = (s.tasks j).avg.lastUpdateTime := by
    intro cpu j hj
    by_cases hji : j = i
    · subst hji
      have hcpu := h.clocked.seat cpu j hj
      subst hcpu
      obtain ⟨sa, hsa, hsa'⟩ := updateLoadAvg_task hw here j s
      rw [hsa]
      dsimp only
      rw [hsa']
      split
      · exact Eq.symm (by assumption)
      · rename_i hzero
        have hnot : s.overdue j = false := by
          rw [← Bool.not_eq_true]
          exact fun hover => hdue ⟨hzero, decide_eq_true hj, hover⟩
        exact clockAfter_of_not_overdue (h.clocked.curr_le _ j hj) (h.clocked.clock_lt _) hnot
    · rw [updateLoadAvg_other hji]
  refine ⟨h.clocked.updateLoadAvg, fun cpu => ?_, fun cpu hcpu j hj hon => ?_, fun cpu => ?_, ?_⟩
  · rw [hprev, hsampled]
    exact h.prev cpu
  · rw [updateLoadAvg_curr] at hj
    rw [(updateLoadAvg_same j).1] at hon
    have hwin := h.window cpu hcpu j hj hon
    refine ⟨?_, ?_, ?_⟩
    · rw [hsampled, hsince]
      exact hwin.sampled
    · rw [hsince, hlast cpu j hj]
      exact hwin.le
    · rw [hsince, hlast cpu j hj]
      exact hwin.lt
  · rw [hsince, updateLoadAvg_now]
    exact h.since_le cpu
  · rw [hcharges]
    exact h.aligned

theorem updateLoadAvg_charge (here : Nat) (hp : hw.pemt = true) (hdue : s.Due i) :
    (s.updateLoadAvg hw here i).prev = Function.update s.prev here (hw.read here s.now) ∧
      (s.updateLoadAvg hw here i).sampledAt = Function.update s.sampledAt here s.now ∧
      (s.updateLoadAvg hw here i).since = Function.update s.since (s.tasks i).cpu s.now ∧
      (s.updateLoadAvg hw here i).charges = s.charges ++ [⟨here, (s.tasks i).cpu, i,
        (s.tasks i).avg.lastUpdateTime, s.now, s.prev here, s.since (s.tasks i).cpu⟩] := by
  obtain ⟨hzero, hcurr, hover⟩ := hdue
  rw [updateLoadAvg_eq, updateTask, updateTaskAvg_eq]
  simp [hzero, hp, hcurr, hover]

theorem Windows.charge (h : Windows hw P s) (hp : hw.pemt = true) (hdue : s.Due i)
    (hP : P (s.tasks i).cpu) (hon : (s.tasks i).onRq = true)
    (hclock : s.clock (s.tasks i).cpu = s.now) (htaken : s.sampledAt (s.tasks i).cpu ≠ 0) :
    Windows hw P (s.updateLoadAvg hw (s.tasks i).cpu i) := by
  obtain ⟨hprev, hsampled, hsince, hcharges⟩ :=
    updateLoadAvg_charge (s.tasks i).cpu hp hdue
  have hi : s.curr (s.tasks i).cpu = some i := of_decide_eq_true hdue.2.1
  have hwin := h.window _ hP i hi hon
  have hlast : ((s.updateLoadAvg hw (s.tasks i).cpu i).tasks i).avg.lastUpdateTime = s.now := by
    obtain ⟨sa, hsa, hsa'⟩ :=
      updateLoadAvg_task hw (s.tasks i).cpu i s
    rw [hsa]
    dsimp only
    rw [hsa', if_neg hdue.1, clockAfter_of_overdue hdue.2.2, hclock]
  refine ⟨h.clocked.updateLoadAvg, fun cpu => ?_, fun cpu hcpu j hj hjon => ?_, fun cpu => ?_,
    fun ch hch => ?_⟩
  · rw [hprev, hsampled]
    by_cases hc : cpu = (s.tasks i).cpu
    · simp [hc]
    · simpa [hc] using h.prev cpu
  · rw [updateLoadAvg_curr] at hj
    rw [(updateLoadAvg_same j).1] at hjon
    by_cases hc : cpu = (s.tasks i).cpu
    · subst hc
      have hji : i = j := Option.some.inj (hi.symm.trans hj)
      subst hji
      refine ⟨fun _ => ?_, ?_, ?_⟩
      · rw [hsampled, hsince, Function.update_self, Function.update_self]
      · rw [hsince, hlast, Function.update_self]
      · rw [hsince, hlast, Function.update_self]
        omega
    · have hji : j ≠ i := by
        rintro rfl
        exact hc (h.clocked.seat cpu j hj).symm
      have hold := h.window cpu hcpu j hj hjon
      refine ⟨?_, ?_, ?_⟩
      · rw [hsampled, hsince, Function.update_of_ne hc, Function.update_of_ne hc]
        exact hold.sampled
      · rw [hsince, updateLoadAvg_other hji, Function.update_of_ne hc]
        exact hold.le
      · rw [hsince, updateLoadAvg_other hji, Function.update_of_ne hc]
        exact hold.lt
  · rw [hsince, updateLoadAvg_now]
    by_cases hc : cpu = (s.tasks i).cpu
    · simp [hc]
    · simpa [hc] using h.since_le cpu
  · rw [hcharges] at hch
    rcases List.mem_append.mp hch with hold | hnew
    · exact h.aligned ch hold
    · rw [List.mem_singleton.mp hnew]
      refine ⟨rfl, ?_, hwin.le, hwin.lt, h.since_le _⟩
      rw [h.prev _ htaken, hwin.sampled htaken]

/-- A running task may be updated on its own CPU, or where nothing is due. -/
theorem Windows.updateLoadAvg (h : Windows hw P s) (hp : hw.pemt = true)
    (hdue : s.Due i → here = (s.tasks i).cpu ∧ P (s.tasks i).cpu ∧ (s.tasks i).onRq = true ∧
      s.clock (s.tasks i).cpu = s.now ∧ s.sampledAt (s.tasks i).cpu ≠ 0) :
    Windows hw P (s.updateLoadAvg hw here i) := by
  by_cases hd : s.Due i
  · obtain ⟨rfl, hP, hon, hclock, htaken⟩ := hdue hd
    exact h.charge hp hd hP hon hclock htaken
  · exact h.quiet hd

theorem not_due_of_not_curr (hi : s.curr (s.tasks i).cpu ≠ some i) : ¬ s.Due i :=
  fun hdue => hi (of_decide_eq_true hdue.2.1)

theorem Clocked.not_due (h : s.Clocked) (hn : s.curr (s.tasks i).cpu = some i →
    s.NothingDue i (s.clock (s.tasks i).cpu)) : ¬ s.Due i := by
  rintro ⟨hzero, hcurr, hover⟩
  have hi : s.curr (s.tasks i).cpu = some i := of_decide_eq_true hcurr
  have hunit := (overdue_iff (h.curr_le _ i hi) (h.clock_lt _)).mp hover
  rcases hn hi with hzero' | hlt
  · exact hzero hzero'
  · omega

theorem updateLoadAvg_sampledAt (hp : hw.pemt = true) {cpu : Nat} (hs : s.sampledAt cpu = s.now) :
    (s.updateLoadAvg hw here i).sampledAt cpu = s.now := by
  by_cases hdue : s.Due i
  · rw [(updateLoadAvg_charge here hp hdue).2.1]
    by_cases hcpu : cpu = here
    · simp [hcpu]
    · simpa [hcpu] using hs
  · rw [(updateLoadAvg_quiet hw here hdue).2.1, hs]

/-- The task that leaves the CPU is charged first, unless nothing is due. -/
theorem Windows.putPrevEntity {Q : Nat → Prop} (h : Windows hw Q s) (hp : hw.pemt = true) {cpu : Nat}
    (hi : s.curr cpu = some i) (hclock : s.clock cpu = s.now)
    (hQ : (s.tasks i).onRq = true → s.Due i → Q cpu ∧ s.sampledAt cpu ≠ 0)
    (hPQ : ∀ c, P c → c ≠ cpu → Q c) : Windows hw P (s.putPrevEntity hw cpu i) := by
  have hcpu := h.clocked.seat cpu i hi
  subst hcpu
  rw [putPrevEntity_eq]
  split
  · rename_i hon
    have hup : Windows hw Q (s.updateLoadAvg hw (s.tasks i).cpu i) :=
      h.updateLoadAvg hp fun hdue => ⟨rfl, (hQ hon hdue).1, hon, hclock, (hQ hon hdue).2⟩
    exact (hup.mono fun c hc => hPQ c hc.1 hc.2).unseat
  · exact (h.mono fun c hc => hPQ c hc.1 hc.2).unseat

theorem Windows.setNextEntity (h : Windows hw P s) (hp : hw.pemt = true) {cpu : Nat}
    (hnone : s.curr cpu = none) (hon : (s.tasks i).onRq = true) (hcpu : (s.tasks i).cpu = cpu)
    (hclock : s.clock cpu = s.now) (hsampled : s.sampledAt cpu = s.now) :
    Windows hw P (s.setNextEntity hw cpu i) := by
  subst hcpu
  have hlast := h.clocked.updated_last hw (s.tasks i).cpu hon
  have hquiet : Windows hw P (s.updateLoadAvg hw (s.tasks i).cpu i) := h.quiet
    (not_due_of_not_curr (by rw [hnone]; exact (Option.some_ne_none i).symm))
  rw [setNextEntity_eq, if_pos hon]
  refine hquiet.seatAt (updateLoadAvg_same i).2.1 ?_ ?_ ?_ ?_
  · rw [updateLoadAvg_now]
    exact updateLoadAvg_sampledAt hp hsampled
  · rw [updateLoadAvg_clock, updateLoadAvg_now]
    exact hclock
  · rw [updateLoadAvg_clock]
    exact hlast.1
  · rw [updateLoadAvg_clock]
    exact hlast.2

def WindowInv (hw : Hardware) (s : SchedCore) : Prop := Windows hw (fun _ => True) s

/-- A switch right after the baseline was taken, which spoils at most the window of a task
that has nothing to be charged for. -/
theorem Windows.pickAgain {Q : Nat → Prop} (h : Windows hw Q s) (hp : hw.pemt = true) {cpu p : Nat}
    (hon : (s.tasks p).onRq = true) (hcpu : (s.tasks p).cpu = cpu) (hclock : s.clock cpu = s.now)
    (hsampled : s.sampledAt cpu = s.now) (hother : ∀ c, c ≠ cpu → Q c)
    (hQ : Q cpu ∨ ∃ prev, s.curr cpu = some prev ∧ p ≠ prev ∧ ¬ s.Due prev) :
    WindowInv hw (s.pickAgain hw cpu (some p)) := by
  have hall : Q cpu → WindowInv hw s := fun hcpu => h.mono fun c _ => by
    by_cases hc : c = cpu
    · exact hc ▸ hcpu
    · exact hother c hc
  unfold SchedCore.pickAgain
  cases hprev : s.curr cpu with
  | none =>
    have hQ' : Q cpu := by
      rcases hQ with hQ | ⟨prev, hprev', -⟩
      · exact hQ
      · cases hprev.symm.trans hprev'
    exact (hall hQ').setNextEntity hp hprev hon hcpu hclock hsampled
  | some prev =>
    dsimp only
    split
    · rename_i hsame
      refine hall ?_
      rcases hQ with hQ | ⟨prev', hprev', hne, -⟩
      · exact hQ
      · exact absurd (Option.some.inj (hprev'.symm.trans (hprev.trans (congrArg some hsame)))).symm hne
    · rename_i hne
      have hdue : s.Due prev → Q cpu ∧ s.sampledAt cpu ≠ 0 := by
        intro hdue
        rcases hQ with hQ | ⟨prev', hprev', -, hnot⟩
        · exact ⟨hQ, hsampled ▸ h.clocked.now_ne_zero⟩
        · cases hprev.symm.trans hprev'
          exact absurd hdue hnot
      have hput : WindowInv hw (s.putPrevEntity hw cpu prev) :=
        h.putPrevEntity hp hprev hclock (fun _ => hdue) fun c _ hc => hother c hc
      have hsame : (s.putPrevEntity hw cpu prev).tasks p = s.tasks p :=
        putPrevEntity_tasks (Ne.symm hne)
      have hfields : (s.putPrevEntity hw cpu prev).clock = s.clock ∧
          (s.putPrevEntity hw cpu prev).now = s.now ∧
          (s.putPrevEntity hw cpu prev).sampledAt cpu = s.now := by
        rw [putPrevEntity_eq]
        split
        · exact ⟨updateLoadAvg_clock, updateLoadAvg_now, updateLoadAvg_sampledAt hp hsampled⟩
        · exact ⟨rfl, rfl, hsampled⟩
      obtain ⟨hc, hn, hsam⟩ := hfields
      refine hput.setNextEntity hp (Function.update_self _ _ _) ?_ ?_ ?_ ?_
      · rw [hsame]
        exact hon
      · rw [hsame]
        exact hcpu
      · rw [hc, hn]
        exact hclock
      · rw [hn]
        exact hsam

/-- `pemt_module` has just enabled the tracking: no baseline has been taken and nothing
charged, and what runs was updated or switched in less than a unit after its clock. -/
structure PemtStarts (s : SchedCore) : Prop where
  sampledAt : ∀ cpu, s.sampledAt cpu = 0
  charges : s.charges = []
  since_le : ∀ cpu, s.since cpu ≤ s.now
  near : ∀ cpu i, s.curr cpu = some i → (s.tasks i).onRq = true →
    (s.tasks i).avg.lastUpdateTime ≤ s.since cpu ∧
      s.since cpu < (s.tasks i).avg.lastUpdateTime + 1024

theorem Clocked.windowInv (h : s.Clocked) (hs : s.PemtStarts) : WindowInv hw s where
  clocked := h
  prev cpu hne := absurd (hs.sampledAt cpu) hne
  window cpu _ i hi hon :=
    have hnear := hs.near cpu i hi hon
    ⟨fun hne => absurd (hs.sampledAt cpu) hne, hnear.1, hnear.2⟩
  since_le := hs.since_le
  aligned ch hch := by
    rw [hs.charges] at hch
    cases hch

theorem WindowInv.pickNextTaskFair (h : WindowInv hw s) (hp : hw.pemt = true) {cpu : Nat}
    {next : Option Nat} (hclock : s.clock cpu = s.now)
    (hnext : ∀ p, next = some p → (s.tasks p).onRq = true ∧ (s.tasks p).cpu = cpu)
    (hu : ∀ prev, s.curr cpu = some prev → (s.tasks prev).onRq = true →
      s.since cpu = s.now ∨ next ≠ none ∧ next ≠ some prev ∧ s.NothingDue prev s.now) :
    WindowInv hw (s.pickNextTaskFair hw cpu next) := by
  have hbase := Windows.baseline h cpu
  have hfree : (∀ prev, s.curr cpu = some prev → (s.tasks prev).onRq = true → s.since cpu = s.now) →
      WindowInv hw (s.pkshinPmuUpdate hw cpu) :=
    fun hsince => hbase.mono fun c _ => ⟨trivial, fun _ => hsince⟩
  unfold SchedCore.pickNextTaskFair
  rw [if_pos hp]
  cases next with
  | none =>
    refine hfree fun prev hprev hon => ?_
    rcases hu prev hprev hon with hsince | ⟨hsome, -⟩
    · exact hsince
    · exact absurd rfl hsome
  | some p =>
    obtain ⟨hon, hcpu⟩ := hnext p rfl
    have hsampled : (s.pkshinPmuUpdate hw cpu).sampledAt cpu = s.now := Function.update_self _ _ _
    refine hbase.pickAgain hp hon hcpu hclock hsampled (fun c hc => ⟨trivial, fun hc' => absurd hc' hc⟩) ?_
    by_cases hsince : ∀ prev, s.curr cpu = some prev → (s.tasks prev).onRq = true → s.since cpu = s.now
    · exact .inl ⟨trivial, fun _ => hsince⟩
    · push Not at hsince
      obtain ⟨prev, hprev, hprevon, hne⟩ := hsince
      obtain ⟨-, hpne, hnothing⟩ := (hu prev hprev hprevon).resolve_left hne
      refine .inr ⟨prev, hprev, fun hsame => hpne (congrArg some hsame), ?_⟩
      have hbased : (s.pkshinPmuUpdate hw cpu).Clocked := hbase.clocked
      refine hbased.not_due fun _ => ?_
      have hseat : (s.tasks prev).cpu = cpu := h.clocked.seat cpu prev hprev
      have hnow : (s.pkshinPmuUpdate hw cpu).clock ((s.pkshinPmuUpdate hw cpu).tasks prev).cpu = s.now := by
        rw [← hclock, ← hseat]
        rfl
      rw [hnow]
      exact hnothing

theorem WindowInv.settle (h : WindowInv hw s) : WindowInv hw (s.settle hw) := by
  have hc : (s.settle hw).Clocked := h.clocked.settle
  unfold SchedCore.settle at hc ⊢
  dsimp only at hc ⊢
  split
  · rename_i hset
    rw [if_pos hset] at hc
    exact ⟨hc, h.prev, fun cpu hcpu i hi hon =>
      have hwin := h.window cpu hcpu i hi hon
      ⟨hwin.sampled, hwin.le, hwin.lt⟩, h.since_le, h.aligned⟩
  · exact h

theorem updateRqClock_clock (cpu t : Nat) (s : SchedCore) : (s.updateRqClock cpu t).clock cpu = t :=
  Function.update_self _ _ _

theorem not_due_of_nothingDue {cpu t : Nat} (h : (s.updateRqClock cpu t).Clocked)
    (hcpu : (s.tasks i).cpu = cpu) (hnothing : s.NothingDue i t) : ¬ (s.updateRqClock cpu t).Due i := by
  subst hcpu
  refine h.not_due fun _ => ?_
  have hclock : (s.updateRqClock (s.tasks i).cpu t).clock (s.tasks i).cpu = t :=
    updateRqClock_clock _ t s
  have hnothing' : (s.updateRqClock (s.tasks i).cpu t).NothingDue i t := hnothing
  rw [← hclock] at hnothing'
  exact hnothing'

/-- What is due is charged on the task's own CPU. -/
theorem here_of_due {t : Nat} (h : (s.updateRqClock (s.tasks i).cpu t).Clocked)
    (hu : s.curr (s.tasks i).cpu = some i →
      here = (s.tasks i).cpu ∧ s.sampledAt here ≠ 0 ∨ s.NothingDue i t)
    (hdue : (s.updateRqClock (s.tasks i).cpu t).Due i) :
    here = (s.tasks i).cpu ∧ s.curr (s.tasks i).cpu = some i ∧
      s.sampledAt (s.tasks i).cpu ≠ 0 := by
  have hcurr : s.curr (s.tasks i).cpu = some i := of_decide_eq_true hdue.2.1
  obtain ⟨rfl, htaken⟩ := (hu hcurr).resolve_right fun hnothing =>
    not_due_of_nothingDue h rfl hnothing hdue
  exact ⟨rfl, hcurr, htaken⟩

theorem WindowInv.taskTickFair (h : WindowInv hw s) (hp : hw.pemt = true) {cpu t : Nat}
    (ht : s.InTime t) (hrun : s.curr cpu ≠ none → s.fairRunning cpu = true)
    (hu : ∀ i ∈ s.curr cpu, (s.tasks i).onRq = true → s.sampledAt cpu ≠ 0 ∨ s.NothingDue i t) :
    WindowInv hw ((s.updateRqClock cpu t).taskTickFair hw cpu) := by
  have hs := Windows.updateRqClock h ht cpu
  unfold SchedCore.taskTickFair
  split
  · rename_i i hi
    have hi' : s.curr cpu = some i := hi
    have hseat : (s.tasks i).cpu = cpu := h.clocked.seat cpu i hi'
    have hon : (s.tasks i).onRq = true := by
      have hfair := hrun (by rw [hi']; exact Option.some_ne_none i)
      unfold fairRunning at hfair
      rwa [hi'] at hfair
    have hclock : (s.updateRqClock cpu t).clock (s.tasks i).cpu = t := by
      rw [hseat]
      exact updateRqClock_clock cpu t s
    refine Windows.updateLoadAvg hs hp fun hdue => ⟨hseat.symm, trivial, hon, hclock, ?_⟩
    have htaken : s.sampledAt cpu ≠ 0 := (hu i hi' hon).resolve_right fun hnothing =>
      not_due_of_nothingDue hs.clocked hseat hnothing hdue
    rw [← hseat] at htaken
    exact htaken
  · exact hs

theorem WindowInv.putPrevTaskFair (h : WindowInv hw s) (hp : hw.pemt = true) {cpu t : Nat}
    (ht : s.InTime t)
    (hu : ∀ i ∈ s.curr cpu, (s.tasks i).onRq = true → s.sampledAt cpu ≠ 0 ∨ s.NothingDue i t) :
    WindowInv hw ((s.updateRqClock cpu t).putPrevTaskFair hw cpu) := by
  have hs := Windows.updateRqClock h ht cpu
  unfold SchedCore.putPrevTaskFair
  split
  · rename_i i hi
    have hi' : s.curr cpu = some i := hi
    have hseat : (s.tasks i).cpu = cpu := h.clocked.seat cpu i hi'
    refine Windows.putPrevEntity hs hp hi (updateRqClock_clock cpu t s)
      (fun hon hdue => ⟨trivial, ?_⟩) fun _ _ _ => trivial
    exact (hu i hi' hon).resolve_right fun hnothing =>
      not_due_of_nothingDue hs.clocked hseat hnothing hdue
  · exact hs

theorem WindowInv.enqueueEntity (h : WindowInv hw s) (hi : s.curr (s.tasks i).cpu ≠ some i) :
    WindowInv hw (s.enqueueEntity hw here i) := by
  have hquiet : WindowInv hw (s.updateLoadAvg hw here i) := Windows.quiet h (not_due_of_not_curr hi)
  have hc : (s.enqueueEntity hw here i).Clocked := h.clocked.enqueueEntity hi
  rw [enqueueEntity_eq] at hc ⊢
  refine Windows.setTask hquiet hc fun _ cpu => ?_
  rw [updateLoadAvg_curr]
  exact h.clocked.not_curr hi cpu

theorem WindowInv.dequeueEntity (h : WindowInv hw s) (hp : hw.pemt = true)
    (hon : (s.tasks i).onRq = true) (hclock : s.clock (s.tasks i).cpu = s.now)
    (hdue : s.Due i → here = (s.tasks i).cpu ∧ s.sampledAt (s.tasks i).cpu ≠ 0) :
    WindowInv hw (s.dequeueEntity hw here i) := by
  have hup : WindowInv hw (s.updateLoadAvg hw here i) :=
    Windows.updateLoadAvg h hp fun hd => ⟨(hdue hd).1, trivial, hon, hclock, (hdue hd).2⟩
  have hc : (s.dequeueEntity hw here i).Clocked := h.clocked.dequeueEntity
  rw [dequeueEntity_eq] at hc ⊢
  exact Windows.setTask hup hc fun hoff => by cases hoff

theorem WindowInv.syncEntityLoadAvg (h : WindowInv hw s) (hoff : (s.tasks i).onRq = false)
    (hi : s.curr (s.tasks i).cpu ≠ some i) : WindowInv hw (s.syncEntityLoadAvg hw i) := by
  have hc : (s.syncEntityLoadAvg hw i).Clocked := h.clocked.syncEntityLoadAvg hoff hi
  obtain ⟨sa, hsync, -⟩ := syncEntityLoadAvg_eq hw i s
  rw [hsync] at hc ⊢
  exact Windows.setTask h hc fun _ => h.clocked.not_curr hi

theorem WindowInv.setTaskCpu (h : WindowInv hw s) (hoff : (s.tasks i).onRq = false)
    (hi : s.curr (s.tasks i).cpu ≠ some i) (cpu cfsRq : Nat) :
    WindowInv hw (s.setTaskCpu hw i cpu cfsRq) := by
  have hc : (s.setTaskCpu hw i cpu cfsRq).Clocked := h.clocked.setTaskCpu hoff hi cpu cfsRq
  obtain ⟨sa, -, hmigrated⟩ := setTaskCpu_eq hw i cpu cfsRq s
  rw [hmigrated] at hc ⊢
  exact Windows.setTask h hc fun _ => h.clocked.not_curr hi

theorem WindowInv.clearTotals (h : WindowInv hw s) : WindowInv hw s.clearTotals :=
  ⟨h.clocked.congr rfl rfl rfl rfl rfl, h.prev, fun cpu hcpu i hi hon =>
    have hwin := h.window cpu hcpu i hi hon
    ⟨hwin.sampled, hwin.le, hwin.lt⟩, h.since_le, h.aligned⟩

theorem WindowInv.next (h : WindowInv hw s) (hp : hw.pemt = true) {e : SchedEvent} (he : s.Valid e)
    (hu : s.Undisturbed e) : WindowInv hw (s.next hw e) := by
  cases e with
  | tick cpu t => exact h.taskTickFair hp he.1 he.2 hu
  | pick cpu t next =>
    cases next with
    | none =>
      have hs := Windows.updateRqClock h he cpu
      exact WindowInv.pickNextTaskFair hs hp (updateRqClock_clock cpu t s) (fun p hp' => by cases hp') hu
    | some p =>
      have hs := Windows.updateRqClock h he.1 cpu
      refine WindowInv.pickNextTaskFair hs hp (updateRqClock_clock cpu t s) (fun p' hp' => ?_) hu
      cases hp'
      exact he.2
  | again cpu t p =>
    have hs := Windows.updateRqClock h he.1 cpu
    exact Windows.pickAgain hs hp he.2.1 he.2.2 (updateRqClock_clock cpu t s) hu (fun _ _ => trivial)
      (.inl trivial)
  | putPrev cpu t => exact h.putPrevTaskFair hp he hu
  | enqueue here t i =>
    have hs : WindowInv hw (s.updateRqClock (s.tasks i).cpu t) := Windows.updateRqClock h he.1 _
    exact hs.enqueueEntity he.2.2
  | dequeue here t i =>
    have hs : WindowInv hw (s.updateRqClock (s.tasks i).cpu t) := Windows.updateRqClock h he.1 _
    refine hs.dequeueEntity hp he.2 (updateRqClock_clock _ t s) fun hdue => ?_
    obtain ⟨hhere, -, htaken⟩ := here_of_due hs.clocked hu hdue
    exact ⟨hhere, htaken⟩
  | update here t i =>
    have hs := Windows.updateRqClock h he.1 (s.tasks i).cpu
    refine Windows.updateLoadAvg hs hp fun hdue => ?_
    obtain ⟨hhere, hcurr, htaken⟩ := here_of_due hs.clocked hu hdue
    exact ⟨hhere, trivial, he.2 hcurr, updateRqClock_clock _ t s, htaken⟩
  | sync i => exact h.syncEntityLoadAvg he.1 he.2
  | migrate i cpu cfsRq => exact h.setTaskCpu he.1 he.2 cpu cfsRq
  | settle => exact h.settle
  | clearTotals => exact h.clearTotals

end SchedCore

/-- As long as no baseline is moved under a running task that has not been charged, every
stall ratio is measured over the interval it is charged to, on the CPU where that ran. -/
theorem ratio_measured_over_interval {hw : Hardware} (hp : hw.pemt = true) {s : SchedCore}
    (hs : s.Clocked) (hstart : s.PemtStarts) {es : List SchedEvent}
    (h : Along (SchedCore.next hw) (fun s e => s.Valid e ∧ s.Undisturbed e) s es) :
    ∀ ch ∈ (run (SchedCore.next hw) s es).charges, ch.Aligned hw := by
  have hinv := h.invariant (I := SchedCore.WindowInv hw) (fun _ _ hs he => hs.next hp he.1 he.2)
    (hs.windowInv hstart)
  exact hinv.aligned

/-- Counters that go with the time, and the memory tracking enabled. -/
def steadyHardware : Hardware where
  counter _ _ t := t
  counter_mono _ _ := monotone_id
  scaleFreq _ := 1024
  scaleCpu _ := 1024
  pemt := true
  cycle := false

/-- A task is preempted at its tick, and the next one goes to sleep. -/
def tickedPreemption : List SchedEvent :=
  [.enqueue 3 4096 0, .pick 3 4096 (some 0), .enqueue 3 5120 1, .tick 3 8192, .pick 3 8192 (some 1),
    .tick 3 12288, .dequeue 3 14336 1, .pick 3 14336 (some 0), .tick 3 16384]

theorem restingCore_pemtStarts : restingCore.PemtStarts where
  sampledAt _ := rfl
  charges := rfl
  since_le _ := Nat.zero_le _
  near _ _ hi := by cases hi

theorem ratio_measured_over_interval_ticked_preemption :
    (run (SchedCore.next steadyHardware) restingCore tickedPreemption).charges.length = 4 ∧
      ∀ ch ∈ (run (SchedCore.next steadyHardware) restingCore tickedPreemption).charges,
        ch.Aligned steadyHardware := by
  exact ⟨by decide +kernel, ratio_measured_over_interval rfl restingCore_clocked
    restingCore_pemtStarts (by decide +kernel)⟩

/-- A task is preempted by one that woke up between two ticks. -/
def wakeUpPreemption : List SchedEvent :=
  [.enqueue 3 4096 0, .pick 3 4096 (some 0), .enqueue 3 5120 1, .pick 3 8192 (some 1)]

/-- The running task is dequeued from CPU 0. -/
def remoteDequeue : List SchedEvent :=
  [.enqueue 3 4096 0, .pick 3 4096 (some 0), .dequeue 0 8192 0]

/-- The pick takes a new baseline, and `put_prev_entity` charges the time since 4096 with it;
a remote dequeue charges the time on CPU 3 with the counters of CPU 0. -/
theorem preemption_discards_counts :
    (∃ ch ∈ (run (SchedCore.next steadyHardware) restingCore wakeUpPreemption).charges,
      ch.lastUpdateTime = 4096 ∧ ch.now = 8192 ∧ ch.since = 4096 ∧ ch.cpu = 3 ∧ ch.base .cycles = 8192) ∧
    (∃ ch ∈ (run (SchedCore.next steadyHardware) restingCore remoteDequeue).charges,
      ch.here = 0 ∧ ch.cpu = 3) ∧
    ¬ ∀ (hw : Hardware) (s : SchedCore) (es : List SchedEvent), hw.pemt = true → s.Clocked →
      s.PemtStarts → Along (SchedCore.next hw) SchedCore.Valid s es →
      ∀ ch ∈ (run (SchedCore.next hw) s es).charges, ch.Aligned hw := by
  have hlost : ∃ ch ∈ (run (SchedCore.next steadyHardware) restingCore wakeUpPreemption).charges,
      ch.lastUpdateTime = 4096 ∧ ch.now = 8192 ∧ ch.since = 4096 ∧ ch.cpu = 3 ∧
        ch.base .cycles = 8192 := by decide +kernel
  refine ⟨hlost, by decide +kernel, fun hall => ?_⟩
  obtain ⟨ch, hch, -, -, hsince, hcpu, hbase⟩ := hlost
  have haligned := hall steadyHardware restingCore wakeUpPreemption rfl restingCore_clocked
    restingCore_pemtStarts (by decide +kernel) ch hch
  have hsampled := congrFun haligned.sampled .cycles
  rw [hbase, hsince, hcpu] at hsampled
  exact absurd hsampled (by decide)

end MSchedutil
