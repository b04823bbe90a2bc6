import MSchedutil.Counts
import MSchedutil.FairRun

/-! What holds in every state that the fair class of a CPU can get into from its first one. -/

namespace MSchedutil

namespace FairRq

open Shape

variable {g : Groups} {t : FairTunables} {cpu : Nat} {inputs : Nat → ShareInputs} {s : FairRq}

variable {s₁ s₂ : FairRq} {q : Nat}

/-- A task that is not queued changes its queue. -/
theorem ranked_setTaskRq {p : Nat} (hs : (s.shape g t).Sound g) (h : s.Ranked g)
    (hoff : (s.ses (.task p)).onRq = false) (hcurr : s.curr ≠ some p) :
    (s.setTaskRq p q).Ranked g := by
  have hhome : ∀ x, x ≠ .task p → (s.setTaskRq p q).cfsRqOf g x = s.cfsRqOf g x := by
    intro x hx
    cases x with
    | task r =>
      have hr : r ≠ p := by
        rintro rfl
        exact hx rfl
      exact Function.update_of_ne hr _ _
    | group c => rfl
  refine ⟨h.nodup, fun c x hx => ⟨(h.linked c x hx).1, ?_⟩, fun c x hx => ?_, h.apart, h.sorted, h.fresh⟩
  · rw [hhome x, (h.linked c x hx).2]
    rintro rfl
    exact h.loose_off hoff c hx
  · rw [hhome x, h.home_curr c x hx]
    rintro rfl
    obtain ⟨⟨r, hr, hmem⟩, -⟩ := (hs.held c (.task p)).mp hx
    rcases List.mem_cons.mp hmem with heq | hmem
    · exact hcurr (hr.trans (by rw [Ent.task.inj heq]))
    · obtain ⟨b, -, hb⟩ := List.mem_map.mp hmem
      cases hb

/-- Every event that may happen keeps the order, and the minimum of no queue goes back unless
virtual runtimes that are far apart have met. -/
theorem ranked_next {ev : FairEvent} (hs : (s₁.shape g t).Sound g) (h : s₁.Ranked g)
    (ha : s₁.Allowed g ev) (hn : s₁.next g t ev = some s₂) :
    s₂.Ranked g ∧ (s₂.strayed = false → s₁.strayed = false ∧
      ∀ q, (s₁.cfs q).minVruntime ≤ (s₂.cfs q).minVruntime) := by
  have hlater : ∀ {s' : FairRq}, some s' = some s₂ → s₁.Later g s' → s₂.Ranked g ∧
      (s₂.strayed = false → s₁.strayed = false ∧
        ∀ q, (s₁.cfs q).minVruntime ≤ (s₂.cfs q).minVruntime) := by
    rintro _ ⟨⟩ hl
    exact ⟨hl.ranked, fun hb => ⟨hl.strayed hb, hl.ages hb⟩⟩
  have hsame : ∀ {s' : FairRq}, some s' = some s₂ → s'.ses = s₁.ses → s'.cfs = s₁.cfs →
      s'.taskCfs = s₁.taskCfs → s'.strayed = s₁.strayed → s₂.Ranked g ∧
      (s₂.strayed = false → s₁.strayed = false ∧
        ∀ q, (s₁.cfs q).minVruntime ≤ (s₂.cfs q).minVruntime) :=
    fun hn hses hcfs htask hstray => hlater hn (still_of_eq h hses hcfs htask hstray).toLater
  cases ev with
  | schedule =>
    obtain ⟨s', hsched, -, -, -, hl⟩ := sound_schedule hs
    rw [next, hsched] at hn
    exact hlater hn (hl h)
  | clock clock clockTask => exact hsame hn rfl rfl rfl rfl
  | enqueue p flags => exact hlater hn (calm_enqueueTaskFair h).toLater
  | dequeue p flags => exact hlater hn (calm_dequeueTaskFair h).toLater
  | putPrev => exact hlater hn ((later_putPrevTaskFair h (heldByCurr hs)).same rfl rfl rfl rfl)
  | setCurr p =>
    have h₁ : s₁.Still g { s₁ with curr := some p } := still_of_eq h rfl rfl rfl rfl
    exact hlater hn (h₁.toLater.trans (later_setUp h₁.ranked))
  | tick => exact hlater hn (still_taskTickFair h).toLater
  | checkPreempt p batch fork => exact hlater hn (still_checkPreemptWakeup h).toLater
  | yield others batch => exact hlater hn (still_yieldTaskFair h).toLater
  | yieldTo p others batch => exact hlater hn (still_yieldToTaskFair h).toLater
  | fork p => exact hlater hn (still_taskForkFair h ha).toLater
  | migrate p waking => exact hlater hn (still_migrateTaskRqFair h ha).toLater
  | setTaskRq p q =>
    cases hn
    exact ⟨ranked_setTaskRq hs h ha.1 ha.2.1, fun hb => ⟨hb, fun _ => le_rfl⟩⟩
  | moveGroup p q onRq waking =>
    cases hn
    have h₁ : s₁.Still g (s₁.detachTaskCfsRq g t p onRq waking) := still_detachTaskCfsRq h fun _ => ha.1
    have hs₁ : ((s₁.detachTaskCfsRq g t p onRq waking).shape g t) = s₁.shape g t := shape_detachTaskCfsRq
    have hoff : ((s₁.detachTaskCfsRq g t p onRq waking).shape g t).onRq (.task p) = false := by
      rw [hs₁]
      exact ha.1
    have hcurr : ((s₁.detachTaskCfsRq g t p onRq waking).shape g t).running ≠ some p := by
      rw [hs₁]
      exact ha.2.1
    have h₂ := ranked_setTaskRq (q := q) (sound_shape hs hs₁) h₁.ranked hoff hcurr
    have h₃ : (((s₁.detachTaskCfsRq g t p onRq waking).setTaskRq p q)).Still g
        (((s₁.detachTaskCfsRq g t p onRq waking).setTaskRq p q).attachTaskCfsRq p onRq waking) :=
      still_attachTaskCfsRq h₂ fun _ => hoff
    exact ⟨h₃.ranked, fun hb => ⟨h₁.strayed (h₃.strayed hb),
      fun c => (h₁.ages (h₃.strayed hb) c).trans (h₃.ages hb c)⟩⟩
  | switchedFrom p onRq waking => exact hlater hn (still_detachTaskCfsRq h ha).toLater
  | switchedTo p onRq waking => exact hlater hn (still_attachTaskCfsRq h ha).toLater
  | resched => exact hsame hn rfl rfl rfl rfl
  | setLoadWeight p load idle =>
    have h₁ : s₁.Still g (s₁.setSe (.task p) (fun se => { se with load := load })) :=
      still_setSe h rfl rfl
    exact hlater hn (h₁.toLater.same rfl rfl rfl rfl)
  | setShares q shares => exact hlater hn (still_schedGroupSetShares h).toLater
  | averages q loadAvg contrib => exact hsame hn rfl rfl rfl rfl
  | pool q b => exact hsame hn rfl rfl rfl rfl
  | distribute q runtime expires => exact hlater hn (calm_distributeCfsRuntime h).toLater
  | online q =>
    have h₁ : s₁.Still g (s₁.updateRuntimeEnabled q) := still_setCfs h rfl rfl (h.fresh q) le_rfl
    exact hlater hn h₁.toLater
  | offline q => exact hlater hn (calm_unthrottleOffline h).toLater

theorem sound_init : ((init cpu inputs).shape g t).Sound g where
  balanced :=
    { queues :=
        { nodup := fun _ => List.nodup_nil
          mem := by simp [shape, init, Shape.queued]
          home_curr := nofun
          nr := fun _ => rfl
          load := fun _ => rfl
          weight_pos := fun _ => by simp [shape, init, LoadWeight.set, nice0Load]
          next := nofun
          last := nofun
          tasks_nodup := List.nodup_nil
          tasks := by simp [shape, init]
          rootLoad := rfl }
      home_group := fun _ => rfl
      home_task := fun _ => g.size_pos
      bound := nofun
      group0 := rfl
      root := by simp [shape, init, cfsRqThrottled]
      linked := by simp [shape, init, Wants, Shape.queued]
      off := by simp [shape, init, below, Shape.queued] }
  total := rfl
  counted c := by simp [shape, init, cfsRqThrottled]
  root := rfl
  uncapped := by simp [shape, init, CfsBandwidth.init]
  held q e := by simp [shape, init]

theorem reaches_sound (h : Reaches g t (init cpu inputs) s) : (s.shape g t).Sound g := by
  induction h with
  | refl => exact sound_init
  | step _ ha hn ih => exact sound_next ih ha hn

theorem ranked_init : (init cpu inputs).Ranked g where
  nodup _ := List.nodup_nil
  linked := nofun
  home_curr := nofun
  apart := nofun
  sorted _ _ := List.Pairwise.nil
  fresh _ := rfl

theorem reaches_ranked (h : Reaches g t (init cpu inputs) s) : s.Ranked g := by
  induction h with
  | refl => exact ranked_init
  | step hr ha hn ih => exact (ranked_next (reaches_sound hr) ih ha hn).1

theorem reaches_trans {s' s'' : FairRq} (h : Reaches g t s s') (h' : Reaches g t s' s'') :
    Reaches g t s s'' := by
  induction h' with
  | refl => exact h
  | step _ ha hn ih => exact .step ih ha hn

/-- A group below the root. -/
def oneGroup : Groups := ⟨2, fun _ => 0, by decide, fun _ => Nat.pos_of_ne_zero⟩

/-- The tunables as they are set at first, with bandwidth control or without. -/
def stockTunables (cfsBandwidthUsed : Bool) : FairTunables where
  schedLatency := 6000000
  minGranularity := 750000
  wakeupGranularity := 1000000
  nrLatency := 8
  childRunsFirst := false
  startDebit := true
  gentleFairSleepers := true
  nextBuddy := false
  lastBuddy := true
  wakeupPreemption := true
  cfsBandwidthUsed := cfsBandwidthUsed
  cfsBandwidthSlice := 5000000
  tickNsec := 10000000

def equalShares : Nat → ShareInputs := fun _ => ⟨nice0Load, 0, 0, by decide⟩

/-- Task 0 waits at the root while task 1 runs in the group. -/
def twoTasks (used : Bool) : FairRq :=
  let t := stockTunables used
  let s := (init 0 equalShares).setTaskRq 1 1
  let s := (s.enqueueTaskFair oneGroup t 1 .wake).enqueueTaskFair oneGroup t 0 .wake
  s.setCurrTaskFair oneGroup t 1

theorem taskMoved_reached (t : FairTunables) : Reaches oneGroup t (init 0 equalShares)
    ((init 0 equalShares).setTaskRq 1 1) := by
  have hmoved : (init 0 equalShares).Allowed oneGroup (.setTaskRq 1 1) := ⟨rfl, nofun, by decide⟩
  exact .step .refl hmoved rfl

theorem twoTasks_reached (used : Bool) :
    Reaches oneGroup (stockTunables used) (init 0 equalShares) (twoTasks used) := by
  have h₂ := Reaches.step (taskMoved_reached (stockTunables used))
    (show FairRq.Allowed oneGroup _ (.enqueue 1 .wake) from rfl) rfl
  cases used with
  | false =>
    have h₃ := Reaches.step h₂ (show FairRq.Allowed oneGroup _ (.enqueue 0 .wake) from rfl) rfl
    exact .step h₃ (show FairRq.Allowed oneGroup _ (.setCurr 1) from rfl) rfl
  | true =>
    have h₃ := Reaches.step h₂ (show FairRq.Allowed oneGroup _ (.enqueue 0 .wake) from rfl) rfl
    exact .step h₃ (show FairRq.Allowed oneGroup _ (.setCurr 1) from rfl) rfl

/-- Besides, task 2 has joined task 0 at the root. -/
def threeTasks : FairRq := (twoTasks true).enqueueTaskFair oneGroup (stockTunables true) 2 .wake

theorem threeTasks_reached :
    Reaches oneGroup (stockTunables true) (init 0 equalShares) threeTasks :=
  .step (twoTasks_reached true) (show FairRq.Allowed oneGroup _ (.enqueue 2 .wake) from rfl) rfl

/-- Task 0 waits at the root and task 1 in the group, which is throttled: it is limited, and its
pool has not been filled yet. -/
def throttledGroup : FairRq :=
  let t := stockTunables true
  let s := (init 0 equalShares).setTaskRq 1 1
  let s := { s with
    pools := Function.update s.pools 1 ({ CfsBandwidth.init with quota := 50000000 }) }
  let s := s.updateRuntimeEnabled 1
  (s.enqueueTaskFair oneGroup t 1 .wake).enqueueTaskFair oneGroup t 0 .wake

theorem throttledGroup_reached :
    Reaches oneGroup (stockTunables true) (init 0 equalShares) throttledGroup := by
  have hpool : ((init 0 equalShares).setTaskRq 1 1).Allowed oneGroup
      (.pool 1 { CfsBandwidth.init with quota := 50000000 }) := fun h => absurd h (by decide)
  have h₂ := Reaches.step (taskMoved_reached (stockTunables true)) hpool rfl
  have h₃ := Reaches.step h₂ (show FairRq.Allowed oneGroup _ (.online 1) from trivial) rfl
  have h₄ := Reaches.step h₃ (show FairRq.Allowed oneGroup _ (.enqueue 1 .wake) from rfl) rfl
  exact .step h₄ (show FairRq.Allowed oneGroup _ (.enqueue 0 .wake) from rfl) rfl

/-- With more than one entity on a queue there is one in its timeline. -/
theorem timeline_ne_nil (h : (s.shape g t).Queues) (hnr : 1 < (s.cfs q).nrRunning) :
    (s.cfs q).timeline ≠ [] := by
  have hlen : (s.cfs q).nrRunning = ((s.cfs q).timeline ++ (s.currOnRq q).toList).length := h.nr q
  intro hnil
  rw [hnil, List.nil_append] at hlen
  cases hcurr : s.currOnRq q with
  | none =>
    rw [hcurr, Option.toList_none, List.length_nil] at hlen
    omega
  | some e =>
    rw [hcurr, Option.toList_some, List.length_singleton] at hlen
    omega

/-- On no level of the tick does `check_preempt_tick`, which does not test for it, find an empty
timeline. -/
def TickFinds (g : Groups) (t : FairTunables) : List Ent → FairRq → Prop
  | [], _ => True
  | e :: rest, s =>
    let q := s.cfsRqOf g e
    let s' := (s.updateCurr t q).updateCfsShares g t e
    (1 < (s'.cfs q).nrRunning → (s'.cfs q).timeline ≠ []) ∧ TickFinds g t rest (s.entityTick g t q e)

theorem tickFinds {es : List Ent} (h : (s.shape g t).Sound g) : TickFinds g t es s := by
  induction es generalizing s with
  | nil => exact trivial
  | cons e es ih =>
    have h₁ : ((s.updateCurr t (s.cfsRqOf g e)).shape g t).Sound g := sound_shape h shape_updateCurr
    have h₂ := (sound_updateCfsShares h₁ e).1.balanced.queues
    exact ⟨timeline_ne_nil h₂, ih (sound_entityTick h rfl).1⟩

end FairRq

end MSchedutil
