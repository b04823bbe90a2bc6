import MSchedutil.FairPick

/-! The runs of the fair class on one CPU: whatever comes in which order, the queues stay in
order. -/

namespace MSchedutil

/-- What happens to the fair class of a CPU, each with the lock of the `rq` held. The averages of
groups, their pools and tasks that are not queued may be changed from elsewhere. -/
inductive FairEvent
  | clock (clock clockTask : Nat)
  | enqueue (p : Nat) (flags : EnqueueFlags)
  | dequeue (p : Nat) (flags : DequeueFlags)
  | schedule
  | putPrev
  | setCurr (p : Nat)
  | tick
  | checkPreempt (p : Nat) (batch fork : Bool)
  | yield (others : Nat) (batch : Bool)
  | yieldTo (p others : Nat) (batch : Bool)
  | fork (p : Nat)
  | migrate (p : Nat) (waking : Bool)
  | setTaskRq (p q : Nat)
  | moveGroup (p q : Nat) (onRq waking : Bool)
  | switchedFrom (p : Nat) (onRq waking : Bool)
  | switchedTo (p : Nat) (onRq waking : Bool)
  | resched
  | setLoadWeight (p : Nat) (load : LoadWeight) (idle : Bool)
  | setShares (q shares : Nat)
  | averages (q loadAvg tgLoadAvgContrib : Nat)
  | pool (q : Nat) (b : CfsBandwidth)
  | distribute (q runtime expires : Nat)
  | online (q : Nat)
  | offline (q : Nat)

theorem Shape.Sound.of_same {g : Groups} {a b : Shape} (h : a.Sound g) (hsums : b.Sums g)
    (hhome : b.home = a.home) (hcurr : b.curr = a.curr) (hrunning : b.running = a.running)
    (hlimited : b.limited 0 = false) (hcapped : b.capped 0 = false) (hcounted : b.Counted g) :
    b.Sound g where
  toSums := hsums
  counted := hcounted
  root := hlimited
  uncapped := hcapped
  held := by
    have := h.held.congr hhome hcurr
    rwa [← hrunning, ← hhome] at this

namespace FairRq

open Shape

/-- The averages of a group as `calc_cfs_shares` will read them. -/
def setAverages (q loadAvg tgLoadAvgContrib : Nat) (s : FairRq) : FairRq :=
  let r := { s.inputs q with loadAvg := loadAvg, tgLoadAvgContrib := tgLoadAvgContrib }
  { s with inputs := Function.update s.inputs q r }

/-- The state after an event; none is a null pointer. -/
def next (g : Groups) (t : FairTunables) : FairEvent → FairRq → Option FairRq
  | .clock clock clockTask, s => some { s with clock := clock, clockTask := clockTask }
  | .enqueue p flags, s => some (s.enqueueTaskFair g t p flags)
  | .dequeue p flags, s => some (s.dequeueTaskFair g t p flags)
  | .schedule, s => s.schedule g t
  | .putPrev, s => some { s.putPrevTaskFair g t with curr := none }
  | .setCurr p, s => some (s.setCurrTaskFair g t p)
  | .tick, s => some (s.taskTickFair g t)
  | .checkPreempt p batch fork, s => some (s.checkPreemptWakeup g t p batch fork)
  | .yield others batch, s => some (s.yieldTaskFair g t others batch)
  | .yieldTo p others batch, s => some (s.yieldToTaskFair g t p others batch)
  | .fork p, s => some (s.taskForkFair g t p)
  | .migrate p waking, s => some (s.migrateTaskRqFair p waking)
  | .setTaskRq p q, s => some (s.setTaskRq p q)
  | .moveGroup p q onRq waking, s => some (s.taskMoveGroupFair g t p q onRq waking)
  | .switchedFrom p onRq waking, s => some (s.detachTaskCfsRq g t p onRq waking)
  | .switchedTo p onRq waking, s => some (s.attachTaskCfsRq p onRq waking)
  | .resched, s => some s.reschedCurr
  | .setLoadWeight p load idle, s => some { s.setSe (.task p) (fun se => { se with load := load }) with
      idlePolicy := Function.update s.idlePolicy p idle }
  | .setShares q shares, s => some (s.schedGroupSetShares g t q shares)
  | .averages q loadAvg contrib, s => some (s.setAverages q loadAvg contrib)
  | .pool q b, s => some { s with pools := Function.update s.pools q b }
  | .distribute q runtime expires, s => some (s.distributeCfsRuntime g t q runtime expires)
  | .online q, s => some (s.updateRuntimeEnabled q)
  | .offline q, s => some (s.unthrottleOffline g t q)

/-- When the callers let it happen. The group of the root has no quota. -/
def Allowed (g : Groups) (s : FairRq) : FairEvent → Prop
  | .enqueue p _ => (s.ses (.task p)).onRq = false
  | .dequeue p _ => (s.ses (.task p)).onRq = true
  | .setCurr _ => s.curr = none
  | .checkPreempt p _ _ => (s.ses (.task p)).onRq = true
  | .fork p => (s.ses (.task p)).onRq = false
  | .migrate p _ => (s.ses (.task p)).onRq = false
  | .switchedFrom p onRq _ => onRq = false → (s.ses (.task p)).onRq = false
  | .switchedTo p onRq _ => onRq = false → (s.ses (.task p)).onRq = false
  | .setTaskRq p q => (s.ses (.task p)).onRq = false ∧ s.curr ≠ some p ∧ q < g.size
  | .moveGroup p q _ _ => (s.ses (.task p)).onRq = false ∧ s.curr ≠ some p ∧ q < g.size
  | .setLoadWeight p load _ => (s.ses (.task p)).onRq = false ∧ 0 < load.weight
  | .pool q b => q = 0 → b.quota = runtimeInf
  | _ => True

/-- The states that can be reached from a state. -/
inductive Reaches (g : Groups) (t : FairTunables) (s : FairRq) : FairRq → Prop
  | refl : Reaches g t s s
  | step {s₁ s₂ : FairRq} {ev : FairEvent} (h : Reaches g t s s₁) (ha : s₁.Allowed g ev)
      (hn : s₁.next g t ev = some s₂) : Reaches g t s s₂

variable {g : Groups} {t : FairTunables} {s s' : FairRq} {q : Nat} {e : Ent}

/-- Operations that switch nothing. -/
theorem sound_onward (h : (s.shape g t).Sound g) (hsums : (s'.shape g t).Sums g)
    (ho : (s.shape g t).Onward g (s'.shape g t)) : (s'.shape g t).Sound g :=
  h.of_same hsums ho.home ho.curr ho.running (by rw [ho.limited, h.root])
    (by rw [ho.capped, h.uncapped]) (ho.counted h.counted)

theorem sound_shape (h : (s.shape g t).Sound g) (hs : s'.shape g t = s.shape g t) :
    (s'.shape g t).Sound g := hs ▸ h

theorem sound_settled (h : (s.shape g t).Sound g) (hs : (s.shape g t).Settled (s'.shape g t))
    (hcurr : (s'.shape g t).curr = (s.shape g t).curr) : (s'.shape g t).Sound g :=
  sound_onward h (h.toSums.settled hs) (hs.toFrame.onward hcurr)

theorem sound_enqueue {p : Nat} {flags : EnqueueFlags} (h : (s.shape g t).Sound g)
    (hoff : (s.ses (.task p)).onRq = false) :
    ((s.enqueueTaskFair g t p flags).shape g t).Sound g := by
  obtain ⟨hsums, ho⟩ := enqueueTaskFair_sums h.toSums hoff h.root flags
  exact sound_onward h hsums ho

theorem sound_dequeue {p : Nat} {flags : DequeueFlags} (h : (s.shape g t).Sound g)
    (hon : (s.ses (.task p)).onRq = true) :
    ((s.dequeueTaskFair g t p flags).shape g t).Sound g := by
  obtain ⟨hsums, ho⟩ := dequeueTaskFair_sums h.toSums hon h.counted flags
  exact sound_onward h hsums ho

theorem heldByCurr (h : (s.shape g t).Sound g) : HeldByCurr g t s := h.held

theorem sums_setRunning {b : Shape} (h : b.Sums g) (curr : Option Nat) :
    { b with running := curr }.Sums g where
  balanced :=
    { queues := ⟨h.balanced.queues.nodup, h.balanced.queues.mem, h.balanced.queues.home_curr,
        h.balanced.queues.nr, h.balanced.queues.load, h.balanced.queues.weight_pos,
        h.balanced.queues.next, h.balanced.queues.last, h.balanced.queues.tasks_nodup,
        h.balanced.queues.tasks, h.balanced.queues.rootLoad⟩
      home_group := h.balanced.home_group
      home_task := h.balanced.home_task
      bound := h.balanced.bound
      group0 := h.balanced.group0
      root := h.balanced.root
      linked := h.balanced.linked
      off := h.balanced.off }
  total := h.total

/-- Another task has been chosen, or none. -/
theorem sound_switch {a b : Shape} (h : a.Sound g) (hsums : b.Sums g) (hm : a.Moves g b)
    {curr : Option Nat}
    (hheld : b.Held {x | ∃ p, curr = some p ∧ x ∈ .task p :: g.entities (b.home (.task p))}) :
    { b with running := curr }.Sound g where
  toSums := sums_setRunning hsums curr
  counted := hm.counted h.counted
  root := by rw [hm.limited, h.root]
  uncapped := by rw [hm.capped, h.uncapped]
  held := hheld

/-- `schedule` always succeeds. A task it picks is queued, with all groups above it; without one
nothing is left at the root. -/
theorem sound_schedule (h : (s.shape g t).Sound g) :
    ∃ s', s.schedule g t = some s' ∧ (s'.shape g t).Sound g ∧
      (∀ p, s'.curr = some p → (s'.shape g t).Firm g (.task p)) ∧
      (s'.curr = none → (s'.shape g t).queued 0 = []) ∧ (s.Ranked g → s.Later g s') := by
  obtain ⟨r, s₁, hpick, hsums, hmoves, hsome, hnone, hlater⟩ :=
    pickNextTaskFair_spec h.toSums h.root h.held
  simp only [schedule, hpick]
  cases r with
  | some p =>
    obtain ⟨hpath, hfirm⟩ := hsome p rfl
    refine ⟨_, rfl, sound_switch h hsums hmoves ?_, ?_, (fun hcurr => by cases hcurr),
      fun hranked => (hlater hranked).same rfl rfl rfl rfl⟩
    · convert hpath using 1
      ext x
      simp [path, shape]
    · rintro _ ⟨⟩
      exact hfirm
  | none =>
    obtain ⟨hheld, hnil⟩ := hnone rfl
    obtain ⟨hsums₂, hmoves₂, hheld₂, hfewer, -⟩ := putPrevTaskFair_sums hsums
      (by rw [hmoves.limited, h.root]) hheld
    refine ⟨_, rfl, sound_switch h hsums₂ (hmoves.trans hmoves₂) ?_, (fun p hp => by cases hp), fun _ => ?_,
      fun hranked => ?_⟩
    · convert hheld₂ using 1
      ext x
      simp
    · rw [List.eq_nil_iff_forall_not_mem]
      intro x hx
      have hmem : x ∈ ((s₁.putPrevTaskFair g t).shape g t).queued 0 := hx
      have hhome := hsums₂.balanced.queues.home_of_mem hmem
      rw [hmoves₂.home] at hhome
      have hin := hsums.balanced.queues.mem_home (hfewer x (hsums₂.balanced.queues.onRq_of_mem hmem))
      rw [hhome, hnil] at hin
      cases hin
    · have hput := later_putPrevTaskFair (hlater hranked).ranked hheld
      exact ((hlater hranked).trans hput).same rfl rfl rfl rfl

theorem sound_putPrev (h : (s.shape g t).Sound g) :
    ({ s.putPrevTaskFair g t with curr := none }.shape g t).Sound g := by
  obtain ⟨hsums, hmoves, hheld, -, -⟩ := putPrevTaskFair_sums h.toSums h.root h.held
  refine sound_switch h hsums hmoves ?_
  convert hheld using 1
  ext x
  simp

/-- The loop of `set_curr_task_fair`. -/
theorem setUp_sums {l : Set Ent} (h : (s.shape g t).Sums g) (hq : s.cfsRqOf g e = q)
    (hheld : (s.shape g t).Held l) (hl : ∀ x ∈ l, q < s.cfsRqOf g x) :
    ((s.setUp g t (e :: g.entities q)).shape g t).Sums g ∧
      (s.shape g t).Moves g ((s.setUp g t (e :: g.entities q)).shape g t) ∧
      ((s.setUp g t (e :: g.entities q)).shape g t).Held (l ∪ {x | x ∈ e :: g.entities q}) := by
  induction q using Nat.strong_induction_on generalizing s e l with
  | _ q ih =>
    obtain ⟨hsums, hmoves, hheld₁, -⟩ := setNextEntity_sums h hheld hq fun x hx => (hl x hx).ne'
    have hset : l ∪ {x | x ∈ e :: g.entities q} = insert e l ∪ {x | x ∈ g.entities q} := by
      ext x
      simp only [Set.mem_union, Set.mem_ofPred_eq, List.mem_cons, Set.mem_insert_iff]
      tauto
    simp only [setUp, hq]
    rw [hset]
    set s₁ := (s.setNextEntity q e).accountCfsRqRuntime t q 0
    have hs₁ : s₁.shape g t = (s.setNextEntity q e).shape g t := shape_accountCfsRqRuntime 0
    rw [← hs₁] at hsums hmoves hheld₁
    by_cases hq0 : q = 0
    · subst hq0
      refine ⟨hsums, hmoves, ?_⟩
      simpa [setUp] using hheld₁
    · have hcfs : ∀ x, s₁.cfsRqOf g x = s.cfsRqOf g x := congrFun hmoves.home
      have hlt := g.parent_lt q hq0
      rw [g.entities_of_ne hq0]
      obtain ⟨hsums₂, hmoves₂, hheld₂⟩ := ih (g.parent q) hlt (e := .group q) hsums rfl hheld₁ (by
        rintro x (rfl | hx)
        · rw [hcfs, hq]
          exact hlt
        · rw [hcfs]
          exact hlt.trans (hl x hx))
      exact ⟨hsums₂, hmoves.trans hmoves₂, hheld₂⟩

theorem sound_setCurr {p : Nat} (h : (s.shape g t).Sound g) (hnone : s.curr = none) :
    ((s.setCurrTaskFair g t p).shape g t).Sound g := by
  set s₁ : FairRq := { s with curr := some p }
  have hsums₁ : (s₁.shape g t).Sums g := sums_setRunning h.toSums (some p)
  have hempty : (s₁.shape g t).Held ∅ := (heldByCurr h).of_none hnone
  obtain ⟨hsums, hmoves, hheld⟩ := setUp_sums (e := .task p) hsums₁ rfl hempty nofun
  set s₂ := s₁.setUp g t (.task p :: g.entities (s₁.cfsRqOf g (.task p)))
  have hcurr : (s₂.shape g t).running = some p := hmoves.running
  show (s₂.shape g t).Sound g
  refine ⟨hsums, hmoves.counted h.counted, by rw [hmoves.limited]; exact h.root,
    by rw [hmoves.capped]; exact h.uncapped, ?_⟩
  convert hheld using 1
  ext x
  simp only [hcurr, Option.some.injEq, exists_eq_left', Set.mem_ofPred_eq, hmoves.home,
    Set.empty_union]
  rfl

theorem settled_clearBuddies (h : (s.shape g t).Queues) (hq : s.cfsRqOf g e = q) :
    (s.shape g t).Settled ((s.clearBuddies g q e).shape g t) ∧
      ((s.clearBuddies g q e).shape g t).curr = (s.shape g t).curr := by
  obtain ⟨next, last, hforget, -, -, hs⟩ := shape_clearBuddies (t := t) hq
  have hforgotten := h.forget hforget
  rw [hs]
  exact ⟨settled_buddies h hforgotten.next hforgotten.last, rfl⟩

theorem sound_clearBuddies (h : (s.shape g t).Sound g) (hq : s.cfsRqOf g e = q) :
    ((s.clearBuddies g q e).shape g t).Sound g := by
  obtain ⟨hset, hcurr⟩ := settled_clearBuddies h.balanced.queues hq
  exact sound_settled h hset hcurr

theorem sound_updateCfsShares (h : (s.shape g t).Sound g) (e : Ent) :
    ((s.updateCfsShares g t e).shape g t).Sound g ∧
      ((s.updateCfsShares g t e).shape g t).home = (s.shape g t).home := by
  obtain ⟨hset, hpass⟩ := settled_updateCfsShares (d := 0) h.balanced.queues e
  exact ⟨sound_settled h hset hpass.onward.curr, hset.home⟩

theorem sound_entityTick (h : (s.shape g t).Sound g) (hq : s.cfsRqOf g e = q) :
    ((s.entityTick g t q e).shape g t).Sound g ∧
      ((s.entityTick g t q e).shape g t).home = (s.shape g t).home := by
  have h₁ : ((s.updateCurr t q).shape g t).Sound g := sound_shape h shape_updateCurr
  obtain ⟨h₂, hhome⟩ := sound_updateCfsShares h₁ e
  rw [shape_updateCurr] at hhome
  simp only [entityTick]
  set s₂ := (s.updateCurr t q).updateCfsShares g t e
  have hq₂ : s₂.cfsRqOf g e = q := (congrFun hhome e).trans hq
  split
  · simp only [checkPreemptTick]
    split
    · have hq₃ : s₂.reschedCurr.cfsRqOf g e = q := hq₂
      have h₃ : (s₂.reschedCurr.shape g t).Sound g := h₂
      exact ⟨sound_clearBuddies h₃ hq₃, (settled_clearBuddies h₃.balanced.queues hq₃).1.home.trans hhome⟩
    · split
      · exact ⟨h₂, hhome⟩
      · split
        · exact ⟨h₂, hhome⟩
        · split
          · exact ⟨h₂, hhome⟩
          · split
            · exact ⟨h₂, hhome⟩
            · exact ⟨h₂, hhome⟩
  · exact ⟨h₂, hhome⟩

theorem sound_tickUp {es : List Ent} (h : (s.shape g t).Sound g) : ((s.tickUp g t es).shape g t).Sound g := by
  induction es generalizing s with
  | nil => exact h
  | cons e es ih => exact ih (sound_entityTick h rfl).1

theorem sound_tick (h : (s.shape g t).Sound g) : ((s.taskTickFair g t).shape g t).Sound g := by
  simp only [taskTickFair]
  split
  · exact h
  · exact sound_tickUp h

theorem sound_yield {others : Nat} {batch : Bool} (h : (s.shape g t).Sound g) :
    ((s.yieldTaskFair g t others batch).shape g t).Sound g := by
  simp only [yieldTaskFair]
  split
  · exact h
  · split
    · exact h
    · rename_i curr _ _
      have h₁ : ((s.clearBuddies g (s.taskCfs curr) (.task curr)).shape g t).Sound g :=
        sound_clearBuddies h rfl
      split
      · exact sound_shape h₁ (shape_setSkipBuddy _)
      · exact sound_shape (sound_shape h₁ shape_updateCurr) (shape_setSkipBuddy _)

theorem path_group_subset (hq : s.cfsRqOf g e ≠ 0) {x : Ent}
    (hx : x ∈ s.path g (.group (s.cfsRqOf g e))) : x ∈ s.path g e :=
  (mem_path_group rfl hq).mpr (.inr hx)

/-- `find_matching_se` ends on one queue, with entities that the two are at or below. -/
theorem findMatchingSe_spec (turns : Nat) (se pse : Ent)
    (hturns : s.depth g se + s.depth g pse < turns) :
    s.cfsRqOf g (s.findMatchingSe g turns se pse).1 = s.cfsRqOf g (s.findMatchingSe g turns se pse).2 ∧
      ∀ x ∈ s.path g (s.findMatchingSe g turns se pse).2, x ∈ s.path g pse := by
  induction turns generalizing se pse with
  | zero => omega
  | succ turns ih =>
    have hzero : ∀ x : Ent, s.cfsRqOf g x = 0 → s.depth g x = 0 := by
      intro x hx
      rw [depth, hx]
      rfl
    have hup : ∀ x : Ent, s.cfsRqOf g x ≠ 0 → s.depth g x = s.depth g (.group (s.cfsRqOf g x)) + 1 :=
      fun x hx => length_above hx
    simp only [findMatchingSe]
    split
    · have hse := hup se fun h0 => by have := hzero se h0; omega
      exact ih _ _ (by omega)
    · split
      · have hq : s.cfsRqOf g pse ≠ 0 := fun h0 => by have := hzero pse h0; omega
        have hpse := hup pse hq
        obtain ⟨hsame, hsub⟩ := ih se (.group (s.cfsRqOf g pse)) (by omega)
        exact ⟨hsame, fun x hx => path_group_subset hq (hsub x hx)⟩
      · split
        · rename_i heq
          exact ⟨heq, fun _ => id⟩
        · rename_i hne
          have heq : s.depth g se = s.depth g pse := by omega
          have hq : s.cfsRqOf g pse ≠ 0 := by
            intro h0
            have hd : s.depth g se = 0 := heq.trans (hzero pse h0)
            exact hne ((length_above_eq_zero hd).trans h0.symm)
          have hpse := hup pse hq
          have hse := hup se fun h0 => by have := hzero se h0; omega
          obtain ⟨hsame, hsub⟩ := ih (.group (s.cfsRqOf g se)) (.group (s.cfsRqOf g pse)) (by omega)
          exact ⟨hsame, fun x hx => path_group_subset hq (hsub x hx)⟩

/-- A task on its queue outside of a throttled hierarchy has all above it on their queues. -/
theorem onRq_path_task {p : Nat} (h : (s.shape g t).Sound g) (hon : (s.ses (.task p)).onRq = true)
    (hth : s.throttledHierarchy t (s.taskCfs p) = false) :
    ∀ x ∈ s.path g (.task p), (s.shape g t).onRq x = true :=
  onRq_path hon (h.balanced.on_above hon (unthrottled_of_hierarchy h.counted hth))

theorem sound_setNextBuddy (h : (s.shape g t).Sound g)
    (hpath : ∀ x ∈ s.path g e, (s.shape g t).onRq x = true) :
    ((s.setNextBuddy g e).shape g t).Sound g ∧
      ((s.setNextBuddy g e).shape g t).home = (s.shape g t).home ∧
      ((s.setNextBuddy g e).shape g t).onRq = (s.shape g t).onRq := by
  obtain ⟨hset, hpass⟩ := settled_setNextBuddy (d := 0) h.balanced.queues hpath
  exact ⟨sound_settled h hset hpass.onward.curr, hset.home, hset.onRq⟩

/-- The end of `check_preempt_wakeup`. -/
theorem sound_preempt {c : Prop} [Decidable c] (h : (s.shape g t).Sound g)
    (hpath : c → s.isIdleTask e = true ∨ ∀ x ∈ s.path g e, (s.shape g t).onRq x = true) :
    ((if c then s.reschedCurr.setLastBuddy g e else s.reschedCurr).shape g t).Sound g := by
  split
  · rename_i hc
    rcases hpath hc with hidle | hpath
    · rw [setLastBuddy, if_pos (show s.reschedCurr.isIdleTask e = true from hidle)]
      exact h
    · have h' : (s.reschedCurr.shape g t).Sound g := h
      obtain ⟨hset, hpass⟩ := settled_setLastBuddy (d := 0) (e := e) h'.balanced.queues hpath
      exact sound_settled h' hset hpass.onward.curr
  · exact h

theorem sound_checkPreempt {p : Nat} {batch fork : Bool} (h : (s.shape g t).Sound g)
    (hon : (s.ses (.task p)).onRq = true) :
    ((s.checkPreemptWakeup g t p batch fork).shape g t).Sound g := by
  simp only [checkPreemptWakeup]
  split
  · exact h
  rename_i curr hcurr
  split
  · exact h
  split
  · exact h
  rename_i hth
  have hpath := onRq_path_task h hon (by simpa using hth)
  generalize hmark : (t.nextBuddy && decide ((s.cfs (s.taskCfs curr)).nrRunning ≥ t.nrLatency) && !fork)
    = marked
  generalize hs₁ : (if marked = true then s.setNextBuddy g (.task p) else s) = s₁
  have h₁ : (s₁.shape g t).Sound g ∧ (s₁.shape g t).home = (s.shape g t).home ∧
      (s₁.shape g t).onRq = (s.shape g t).onRq := by
    rw [← hs₁]
    split
    · exact sound_setNextBuddy h hpath
    · exact ⟨h, rfl, rfl⟩
  obtain ⟨h₁, hhome₁, hon₁⟩ := h₁
  split
  · exact h₁
  split
  · rename_i hidle
    refine sound_preempt h₁ fun _ => .inl ?_
    rw [Bool.and_eq_true] at hidle
    exact hidle.1
  split
  · exact h₁
  have hturns : s₁.depth g (.task curr) + s₁.depth g (.task p) < g.size + g.size := by
    have hle : ∀ p, s₁.depth g (.task p) < g.size := fun p =>
      (length_above_le _).trans_lt (h₁.balanced.home_task p)
    have := hle curr
    have := hle p
    omega
  obtain ⟨hsame, hsub⟩ := findMatchingSe_spec _ (.task curr) (.task p) hturns
  set m := s₁.findMatchingSe g (g.size + g.size) (.task curr) (.task p)
  have hpath₁ : ∀ x ∈ s₁.path g m.2, (s₁.shape g t).onRq x = true := by
    intro x hx
    have hmem := hsub x hx
    rw [path_congr hhome₁] at hmem
    rw [hon₁]
    exact hpath x hmem
  generalize hs₂ : s₁.updateCurr t (s₁.cfsRqOf g m.1) = s₂
  have hshape₂ : s₂.shape g t = s₁.shape g t := hs₂ ▸ shape_updateCurr
  have hhome₂ : (s₂.shape g t).home = (s₁.shape g t).home := by rw [hshape₂]
  have h₂ : (s₂.shape g t).Sound g := sound_shape h₁ hshape₂
  have hpath₂ : ∀ x ∈ s₂.path g m.2, (s₂.shape g t).onRq x = true := by
    intro x hx
    rw [path_congr hhome₂] at hx
    rw [hshape₂]
    exact hpath₁ x hx
  split
  · generalize hs₃ : (if marked = true then s₂ else s₂.setNextBuddy g m.2) = s₃
    have h₃ : (s₃.shape g t).Sound g ∧ (s₃.shape g t).home = (s₂.shape g t).home ∧
        (s₃.shape g t).onRq = (s₂.shape g t).onRq := by
      rw [← hs₃]
      split
      · exact ⟨h₂, rfl, rfl⟩
      · exact sound_setNextBuddy h₂ hpath₂
    obtain ⟨h₃, hhome₃, hon₃⟩ := h₃
    refine sound_preempt h₃ fun hc => .inr fun x hx => ?_
    -- `m.1` is on the queue of `m.2`, and above that all are on theirs
    rw [path_congr hhome₃, path_congr hhome₂] at hx
    rcases List.mem_cons.mp hx with rfl | hx
    · simp only [Bool.and_eq_true] at hc
      exact hc.1.2
    · rw [hsame] at hx
      rw [hon₃, hshape₂]
      exact hpath₁ x (List.mem_cons_of_mem _ hx)
  · exact h₂

theorem sound_yieldTo {p others : Nat} {batch : Bool} (h : (s.shape g t).Sound g) :
    ((s.yieldToTaskFair g t p others batch).shape g t).Sound g := by
  simp only [yieldToTaskFair]
  split
  · exact h
  · rename_i hcond
    rw [Bool.or_eq_true, not_or, Bool.not_eq_true', Bool.not_eq_false] at hcond
    exact sound_yield (sound_setNextBuddy h (onRq_path_task h hcond.1 (by simpa using hcond.2))).1

theorem shape_setVruntime (v : Int) :
    (s.setSe e (fun se => { se with vruntime := v })).shape g t = s.shape g t :=
  shape_setSe (fun _ => rfl) fun _ => rfl

theorem shape_taskForkFair {p : Nat} : (s.taskForkFair g t p).shape g t = s.shape g t := by
  simp only [taskForkFair]
  split
  · rfl
  rename_i parent _
  refine Eq.trans (shape_setSe (by intro x; rfl) (by intro x; rfl)) ?_
  cases (s.cfs (s.taskCfs parent)).curr with
  | none => exact shape_placeEntity true
  | some c =>
    have hplace : ∀ (s' : FairRq) (q : Nat) (v : Int),
        ((s'.setSe (.task p) (fun se => { se with vruntime := v })).placeEntity g t q (.task p)
          true).shape g t = s'.shape g t := by
      intro s' q v
      rw [shape_placeEntity, shape_setVruntime]
    dsimp only
    split
    · rw [shape_reschedCurr, shape_setVruntime, shape_setVruntime, hplace, shape_updateCurr]
    · rw [hplace, shape_updateCurr]

theorem shape_migrateTaskRqFair {p : Nat} {waking : Bool} :
    (s.migrateTaskRqFair p waking).shape g t = s.shape g t := by
  simp only [migrateTaskRqFair]
  exact shape_setSe (by intro x; rfl) (by intro x; rfl)

theorem shape_detachTaskCfsRq {p : Nat} {onRq waking : Bool} :
    (s.detachTaskCfsRq g t p onRq waking).shape g t = s.shape g t := by
  simp only [detachTaskCfsRq]
  split
  · rfl
  · exact (shape_setVruntime _).trans (shape_placeEntity _)

theorem shape_attachTaskCfsRq {p : Nat} {onRq waking : Bool} :
    (s.attachTaskCfsRq p onRq waking).shape g t = s.shape g t := by
  simp only [attachTaskCfsRq]
  split
  · rfl
  · exact shape_setSe (fun _ => rfl) fun _ => rfl

theorem shape_setTaskRq {p : Nat} : (s.setTaskRq p q).shape g t =
    { s.shape g t with home := Function.update (s.shape g t).home (.task p) q } := by
  have hhome : (s.setTaskRq p q).cfsRqOf g = Function.update (s.cfsRqOf g) (.task p) q := by
    funext x
    cases x with
    | task r =>
      by_cases hr : r = p
      · subst hr
        simp [setTaskRq, cfsRqOf]
      · have hne : Ent.task r ≠ .task p := by simpa using hr
        rw [Function.update_of_ne hne]
        simp [setTaskRq, cfsRqOf, hr]
    | group c =>
      have hne : Ent.group c ≠ .task p := fun h => by cases h
      rw [Function.update_of_ne hne]
      rfl
  rw [shape, hhome]
  rfl

/-- A task that is not queued changes its queue. -/
theorem sound_setTaskRq {p : Nat} (h : (s.shape g t).Sound g) (hoff : (s.ses (.task p)).onRq = false)
    (hcurr : s.curr ≠ some p) (hq : q < g.size) : ((s.setTaskRq p q).shape g t).Sound g := by
  have hne : ∀ x, (s.shape g t).onRq x = true → x ≠ .task p := by
    rintro x hx rfl
    rw [show (s.shape g t).onRq (.task p) = false from hoff] at hx
    cases hx
  rw [shape_setTaskRq]
  set a := s.shape g t
  set home := Function.update a.home (.task p) q
  have hgroup : ∀ c, home (.group c) = a.home (.group c) := by
    intro c
    have hne : Ent.group c ≠ .task p := fun h => by cases h
    exact Function.update_of_ne hne _ _
  have hsame : ∀ x, a.onRq x = true → home x = a.home x := fun x hx =>
    Function.update_of_ne (hne x hx) _ _
  have hbelow : ∀ r, a.running = some r → home (.task r) = a.home (.task r) := by
    intro r hr
    apply Function.update_of_ne
    rintro ⟨⟩
    exact hcurr hr
  have hheld : { a with home := home }.Held
      {x | ∃ r, a.running = some r ∧ x ∈ Ent.task r :: g.entities (home (.task r))} := by
    intro c x
    refine (h.held c x).trans ⟨?_, ?_⟩
    all_goals
      rintro ⟨⟨r, hr, hx⟩, hxq⟩
      have hx' : home x = a.home x := by
        rcases List.mem_cons.mp hx with rfl | hx
        · exact hbelow r hr
        · obtain ⟨b, -, rfl⟩ := List.mem_map.mp hx
          exact hgroup b
    · exact ⟨⟨r, hr, by rwa [hbelow r hr]⟩, hx'.trans hxq⟩
    · exact ⟨⟨r, hr, by rwa [hbelow r hr] at hx⟩, hx'.symm.trans hxq⟩
  have hqueues : { a with home := home }.Queues :=
    { h.balanced.queues with
      mem := fun c x => (h.balanced.queues.mem c x).trans
        ⟨fun hx => ⟨hx.1, (hsame x hx.1).trans hx.2⟩, fun hx => ⟨hx.1, (hsame x hx.1).symm.trans hx.2⟩⟩
      home_curr := fun c x hx => ((hheld c x).mp hx).2 }
  exact
    { balanced :=
        { h.balanced with
          queues := hqueues
          home_group := fun c => (hgroup c).trans (h.balanced.home_group c)
          home_task := fun r => by
            by_cases hr : r = p
            · subst hr
              exact (Function.update_self (Ent.task r) q a.home).trans_lt hq
            · have hner : Ent.task r ≠ .task p := by simpa using hr
              exact (Function.update_of_ne hner q a.home).trans_lt (h.balanced.home_task r)
          bound := fun x hx => (hsame x hx).trans_lt (h.balanced.bound x hx) }
      total := h.total
      counted := h.counted
      root := h.root
      uncapped := h.uncapped
      held := hheld }

theorem sound_moveGroup {p : Nat} {onRq waking : Bool} (h : (s.shape g t).Sound g)
    (hoff : (s.ses (.task p)).onRq = false) (hcurr : s.curr ≠ some p) (hq : q < g.size) :
    ((s.taskMoveGroupFair g t p q onRq waking).shape g t).Sound g := by
  simp only [taskMoveGroupFair]
  refine sound_shape ?_ shape_attachTaskCfsRq
  set s₁ := s.detachTaskCfsRq g t p onRq waking
  have hs₁ : s₁.shape g t = s.shape g t := shape_detachTaskCfsRq
  have hoff₁ : (s₁.shape g t).onRq (.task p) = false := by rw [hs₁]; exact hoff
  have hcurr₁ : (s₁.shape g t).running ≠ some p := by rw [hs₁]; exact hcurr
  exact sound_setTaskRq (sound_shape h hs₁) hoff₁ hcurr₁ hq

theorem sound_setLoadWeight {p : Nat} {load : LoadWeight} {idlePolicy : Nat → Bool}
    (h : (s.shape g t).Sound g) (hoff : (s.ses (.task p)).onRq = false) (hw : 0 < load.weight) :
    ({ s.setSe (.task p) (fun se => { se with load := load }) with
      idlePolicy := idlePolicy }.shape g t).Sound g := by
  have hs : ({ s.setSe (.task p) (fun se => { se with load := load }) with
      idlePolicy := idlePolicy } : FairRq).shape g t = (s.shape g t).reweigh (.task p) load.weight := by
    show (s.setSe (.task p) (fun se => { se with load := load })).shape g t = _
    rw [shape_setSe_eq]
    simp [reweigh, hoff, shape]
  refine sound_settled h (hs ▸ settled_reweigh h.balanced.queues hw) ?_
  rw [hs]
  rfl

theorem sound_setShares {shares : Nat} (h : (s.shape g t).Sound g) :
    ((s.schedGroupSetShares g t q shares).shape g t).Sound g := by
  have hup : ∀ (es : List Ent) (s : FairRq), (s.shape g t).Sound g →
      ((s.sharesUp g t es).shape g t).Sound g := by
    intro es
    induction es with
    | nil => exact fun _ h => h
    | cons e es ih => exact fun s h => ih _ (sound_updateCfsShares h e).1
  exact hup _ _ h

theorem sound_pool {b : CfsBandwidth} (h : (s.shape g t).Sound g) (hroot : q = 0 → b.quota = runtimeInf) :
    ({ s with pools := Function.update s.pools q b }.shape g t).Sound g where
  toSums := ⟨{ h.balanced with queues := { h.balanced.queues with } }, h.total⟩
  counted := h.counted
  root := h.root
  uncapped := by
    by_cases hq : q = 0
    · subst hq
      simp [shape, hroot rfl]
    · have := h.uncapped
      simpa [shape, Function.update_of_ne (Ne.symm hq)] using this
  held := h.held

/-- Whether a queue is limited matters to nothing but the root. -/
theorem sound_setRuntime {r : CfsRuntime} (h : (s.shape g t).Sound g)
    (hroot : q = 0 → r.runtimeEnabled = false) :
    ((s.setCfs q (fun c => { c with runtime := r })).shape g t).Sound g := by
  have hs : (s.setCfs q (fun c => { c with runtime := r })).shape g t =
      { s.shape g t with limited := Function.update (s.shape g t).limited q r.runtimeEnabled } := by
    rw [shape_setCfs_eq]
    simp [shape, cfsRqThrottled]
  rw [hs]
  exact
    { toSums := ⟨{ h.balanced with queues := { h.balanced.queues with } }, h.total⟩
      counted := h.counted
      root := by
        by_cases hq : q = 0
        · subst hq
          show Function.update (s.shape g t).limited 0 r.runtimeEnabled 0 = false
          rw [Function.update_self, hroot rfl]
        · exact (Function.update_of_ne (Ne.symm hq) _ _).trans h.root
      uncapped := h.uncapped
      held := h.held }

theorem sound_unthrottle (h : (s.shape g t).Sound g) (hth : (s.shape g t).throttled q = true) :
    ((s.unthrottleCfsRq g t q).shape g t).Sound g := by
  obtain ⟨hsums, ho⟩ := unthrottleCfsRq_sums h.toSums hth h.root
  exact h.of_same hsums ho.home ho.curr ho.running (by rw [ho.limited]; exact h.root)
    (by rw [ho.capped]; exact h.uncapped) (ho.counted (h.counted.unpark hth))

theorem sound_distribute {runtime expires : Nat} (h : (s.shape g t).Sound g) :
    ((s.distributeCfsRuntime g t q runtime expires).shape g t).Sound g := by
  simp only [distributeCfsRuntime]
  split
  · rename_i hth
    generalize hs₁ : s.setCfs q (fun c => { c with runtime := { c.runtime with
      runtimeRemaining := c.runtime.runtimeRemaining + runtime
      runtimeExpires := expires } }) = s₁
    have hshape : s₁.shape g t = s.shape g t := by
      rw [← hs₁]
      exact shape_setCfs rfl
    have h₁ := sound_shape h hshape
    split
    · refine sound_unthrottle h₁ ?_
      rw [hshape]
      exact hth
    · exact h₁
  · exact h

theorem sound_offline (h : (s.shape g t).Sound g) : ((s.unthrottleOffline g t q).shape g t).Sound g := by
  simp only [unthrottleOffline]
  split
  · exact h
  · generalize hs₁ : s.setCfs q (fun c => { c with runtime := { c.runtime with
      runtimeRemaining := 1
      runtimeEnabled := false } }) = s₁
    have h₁ : (s₁.shape g t).Sound g := by
      rw [← hs₁]
      exact sound_setRuntime (r := { (s.cfs q).runtime with
        runtimeRemaining := 1
        runtimeEnabled := false }) h fun _ => rfl
    split
    · rename_i hth
      exact sound_unthrottle h₁ hth
    · exact h₁

theorem sound_online (h : (s.shape g t).Sound g) : ((s.updateRuntimeEnabled q).shape g t).Sound g := by
  refine sound_setRuntime (r := { (s.cfs q).runtime with
    runtimeEnabled := decide ((s.pools q).quota ≠ runtimeInf) }) h fun hq => ?_
  subst hq
  exact h.uncapped

/-- Every event that may happen leaves the queues in order. -/
theorem sound_next {ev : FairEvent} (h : (s.shape g t).Sound g) (ha : s.Allowed g ev)
    (hn : s.next g t ev = some s') : (s'.shape g t).Sound g := by
  cases ev with
  | schedule =>
    obtain ⟨s₁, hsched, hsound, -⟩ := sound_schedule h
    rw [next, hsched, Option.some.injEq] at hn
    exact hn ▸ hsound
  | clock clock clockTask => exact Option.some.inj hn ▸ h
  | enqueue p flags => exact Option.some.inj hn ▸ sound_enqueue h ha
  | dequeue p flags => exact Option.some.inj hn ▸ sound_dequeue h ha
  | putPrev => exact Option.some.inj hn ▸ sound_putPrev h
  | setCurr p => exact Option.some.inj hn ▸ sound_setCurr h ha
  | tick => exact Option.some.inj hn ▸ sound_tick h
  | checkPreempt p batch fork => exact Option.some.inj hn ▸ sound_checkPreempt h ha
  | yield others batch => exact Option.some.inj hn ▸ sound_yield h
  | yieldTo p others batch => exact Option.some.inj hn ▸ sound_yieldTo h
  | fork p => exact Option.some.inj hn ▸ sound_shape h shape_taskForkFair
  | migrate p waking => exact Option.some.inj hn ▸ sound_shape h shape_migrateTaskRqFair
  | setTaskRq p q => exact Option.some.inj hn ▸ sound_setTaskRq h ha.1 ha.2.1 ha.2.2
  | moveGroup p q onRq waking => exact Option.some.inj hn ▸ sound_moveGroup h ha.1 ha.2.1 ha.2.2
  | switchedFrom p onRq waking => exact Option.some.inj hn ▸ sound_shape h shape_detachTaskCfsRq
  | switchedTo p onRq waking => exact Option.some.inj hn ▸ sound_shape h shape_attachTaskCfsRq
  | resched => exact Option.some.inj hn ▸ h
  | setLoadWeight p load idle => exact Option.some.inj hn ▸ sound_setLoadWeight h ha.1 ha.2
  | setShares q shares => exact Option.some.inj hn ▸ sound_setShares h
  | averages q loadAvg contrib => exact Option.some.inj hn ▸ h
  | pool q b => exact Option.some.inj hn ▸ sound_pool h ha
  | distribute q runtime expires => exact Option.some.inj hn ▸ sound_distribute h
  | online q => exact Option.some.inj hn ▸ sound_online h
  | offline q => exact Option.some.inj hn ▸ sound_offline h

/-- None of them finds a queue without an entity where it needs one. -/
theorem next_isSome (h : (s.shape g t).Sound g) (ev : FairEvent) : (s.next g t ev).isSome = true := by
  cases ev with
  | schedule =>
    obtain ⟨s₁, hsched, -⟩ := sound_schedule h
    rw [next, hsched]
    rfl
  | _ => rfl

end FairRq

end MSchedutil
