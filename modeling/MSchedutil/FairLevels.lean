import MSchedutil.Climb
import MSchedutil.FairShape

/-! The loops of the fair class up the hierarchy: whoever comes or goes, every queue counts the
tasks below it at the end, and the entities of the groups are where they belong. -/

namespace MSchedutil

namespace FairRq

open Shape

variable {g : Groups} {t : FairTunables} {s : FairRq} {q : Nat} {e : Ent} {d : Int}

theorem arrives_joinEntity (h : (s.shape g t).Queues) (hq : (s.shape g t).home e = q)
    (hoff : (s.shape g t).onRq e = false) (flags : EnqueueFlags) :
    (s.shape g t).Arrives ((s.joinEntity g t q e flags).shape g t) e := by
  subst hq
  obtain ⟨w, tl, hw, htl, hs⟩ := shape_joinEntity h.weight_pos rfl hoff flags
  rw [hs]
  exact arrives_join h hoff hw htl

theorem departs_dequeueEntity (h : (s.shape g t).Queues) (hq : (s.shape g t).home e = q)
    (hon : (s.shape g t).onRq e = true) (flags : DequeueFlags) :
    (s.shape g t).Departs ((s.dequeueEntity g t q e flags).shape g t) e := by
  subst hq
  obtain ⟨next, last, w, hforget, hnext, hlast, hw, hs⟩ :=
    shape_dequeueEntity h.weight_pos rfl flags
  rw [hs]
  exact departs_leave h hon hforget hnext hlast hw

theorem settled_updateCfsShares (h : (s.shape g t).Queues) (e : Ent) :
    (s.shape g t).Settled ((s.updateCfsShares g t e).shape g t) ∧
      (s.shape g t).Passes g ((s.updateCfsShares g t e).shape g t) d false := by
  obtain ⟨w, hw, hs⟩ := shape_updateCfsShares h e
  have hset := settled_reweigh h (e := e) hw
  rw [hs]
  exact ⟨hset, hset.toFrame.passes rfl rfl⟩

theorem shape_count (f : Nat → Nat) :
    (s.setCfs q (fun c => { c with hNrRunning := f c.hNrRunning })).shape g t =
      (s.shape g t).setCount q (f ((s.shape g t).hNrRunning q)) :=
  shape_setCfs_hNrRunning f

/-- The second loop of `enqueue_task_fair` and of `dequeue_task_fair`. -/
theorem countUp_levels {f : Nat → Nat} (hf : ∀ n : Nat, d ≤ n → (f n : Int) = n - d)
    (hq : (s.shape g t).home e = q) (h : (s.shape g t).Levels g ∅ q d)
    (hup : (s.shape g t).Upright q) :
    ((s.countUp g t f (e :: g.entities q)).1.shape g t).Balanced g ∧
      (s.shape g t).Passes g ((s.countUp g t f (e :: g.entities q)).1.shape g t) (-d)
        (s.countUp g t f (e :: g.entities q)).2 := by
  induction q using Nat.strong_induction_on generalizing s e with
  | _ q ih =>
    have hn : (f ((s.shape g t).hNrRunning q) : Int) = (s.shape g t).hNrRunning q - d := by
      apply hf
      rw [h.off_self]
      omega
    have hcfs : s.cfsRqOf g e = q := hq
    simp only [countUp, hcfs]
    set s₁ := s.setCfs q (fun c => { c with hNrRunning := f c.hNrRunning })
    have hs₁ : s₁.shape g t = (s.shape g t).setCount q (f ((s.shape g t).hNrRunning q)) :=
      shape_count f
    have hth₁ : s₁.cfsRqThrottled t q = (s.shape g t).throttled q :=
      congrFun (congrArg Shape.throttled hs₁) q
    have hpass : q ≠ 0 → (s.shape g t).Passes g (s₁.shape g t) (-d) false := by
      intro hq0
      rw [hs₁]
      exact Passes.setCount_of_ne hq0 _
    rw [hth₁]
    rcases h.count hup hn with ⟨hend, hlev⟩ | ⟨hq0, hth, hon, hlev⟩
    · rw [← hs₁] at hlev
      by_cases hq0 : q = 0
      · subst hq0
        have hzero : (s.shape g t).Passes g (s₁.shape g t) (-d) true := by
          rw [hs₁]
          exact Passes.setCount_root rfl (by rw [hn]; ring)
        have hset := settled_updateCfsShares (d := -d) hlev.queues e
        rw [if_neg (by simp [h.root])]
        exact ⟨hlev.settled hset.1, hzero.trans' hset.2⟩
      · rw [if_pos (hend.resolve_left hq0)]
        exact ⟨hlev, hpass hq0⟩
    · rw [← hs₁] at hlev
      have hset := settled_updateCfsShares (d := -d) hlev.queues e
      rw [if_neg (by simp [hth]), g.entities_of_ne hq0]
      set s₂ := s₁.updateCfsShares g t e
      have hlev₂ := hlev.settled hset.1
      have hon₂ : (s₂.shape g t).onRq (.group q) = true := by
        rw [hset.1.onRq, hs₁]
        exact hon
      have hne := hlev₂.queued_ne_nil hon₂
      rw [hlev₂.home_group] at hne
      obtain ⟨hbal, hrest⟩ := ih (g.parent q) (g.parent_lt q hq0) (hlev₂.home_group q) hlev₂
        (hlev₂.upright hne (Set.notMem_empty _))
      exact ⟨hbal, ((hpass hq0).trans hset.2).trans hrest⟩

theorem shape_setThrottled (hused : t.cfsBandwidthUsed = true) (b : Bool) (clock : FairCfsRq → Nat) :
    (s.setCfs q (fun c => { c with throttled := b, throttledClock := clock c })).shape g t =
      { s.shape g t with throttled := Function.update (s.shape g t).throttled q b } := by
  rw [shape_setCfs_eq]
  simp only [shape, cfsRqThrottled, hused, Bool.true_and, Function.update_eq_self]

/-- `throttle_cfs_rq` from the counts below to the flag. -/
theorem shape_throttleCfsRq (hused : t.cfsBandwidthUsed = true) :
    let s₁ := s.walkTgTree g q (tgThrottleDown s.clockTask)
    let r := s₁.throttleUp g t (s₁.cfs q).hNrRunning (g.entities q) true
    (s.throttleCfsRq g t q).shape g t =
      { r.1.shape g t with
        throttled := Function.update (r.1.shape g t).throttled q true
        total := (r.1.shape g t).total - if r.2 then (s.shape g t).hNrRunning q else 0 } := by
  intro s₁ r
  set s₂ := if r.2 then { r.1 with nrRunning := r.1.nrRunning - (s₁.cfs q).hNrRunning } else r.1
    with hs₂
  set b := s₂.pools q
  set b' := if b.throttledCfsRq = [] then b.start else b
  have hquota : b'.quota = b.quota := by
    simp only [b']
    split <;> rfl
  have hcount : (s₁.cfs q).hNrRunning = (s.shape g t).hNrRunning q := by
    simp only [s₁, walkTgTree]
    split <;> rfl
  have hshape₂ : s₂.shape g t = { r.1.shape g t with
      total := (r.1.shape g t).total - if r.2 then (s.shape g t).hNrRunning q else 0 } := by
    rw [hs₂]
    cases r.2 with
    | false => rfl
    | true =>
      rw [← hcount]
      rfl
  have hfinal : (s.throttleCfsRq g t q).shape g t =
      (s₂.setCfs q (fun c => { c with throttled := true, throttledClock := s₂.clock })).shape g t :=
    shape_pools (s := s₂.setCfs q (fun c => { c with throttled := true, throttledClock := s₂.clock }))
      (b := { b' with throttledCfsRq := s₂.cpu :: b'.throttledCfsRq }) hquota
  rw [hfinal, shape_setThrottled hused true (fun _ => s₂.clock), hshape₂]

/-- Parking sets the flag last; with the entity of the queue off nothing else is to be done. -/
theorem shape_throttleCfsRq_off (hused : t.cfsBandwidthUsed = true) (hq : q ≠ 0)
    (hoff : (s.shape g t).onRq (.group q) = false) :
    (s.throttleCfsRq g t q).shape g t = (s.shape g t).park g q := by
  have hwalk := shape_walkTgTree (s := s) (g := g) (t := t) (q := q) (k := (· + 1))
    (f := tgThrottleDown s.clockTask) fun _ => rfl
  have hup : ∀ taskDelta, (s.walkTgTree g q (tgThrottleDown s.clockTask)).throttleUp g t taskDelta
      (g.entities q) true = (s.walkTgTree g q (tgThrottleDown s.clockTask), false) := by
    intro taskDelta
    have hses : ((s.walkTgTree g q (tgThrottleDown s.clockTask)).ses (.group q)).onRq = false := hoff
    rw [g.entities_of_ne hq]
    simp only [throttleUp, hses, Bool.false_eq_true, if_false]
  rw [shape_throttleCfsRq hused, hup, hwalk]
  rfl

/-- `check_enqueue_throttle` throttles nothing or parks the queue. -/
theorem shape_checkEnqueueThrottle (hoff : (s.shape g t).onRq (.group q) = false)
    (hroot : (s.shape g t).limited 0 = false) :
    (s.checkEnqueueThrottle g t q).shape g t = s.shape g t ∨
      (q ≠ 0 ∧ (s.shape g t).throttled q = false ∧
        (s.checkEnqueueThrottle g t q).shape g t = (s.shape g t).park g q) := by
  by_cases hguard : (!t.cfsBandwidthUsed || !(s.cfs q).runtime.runtimeEnabled ||
      (s.cfs q).curr.isSome || s.cfsRqThrottled t q) = true
  · left
    simp only [checkEnqueueThrottle, hguard, if_true]
  · have hacc : (s.accountCfsRqRuntime t q 0).shape g t = s.shape g t := shape_accountCfsRqRuntime 0
    rw [Bool.not_eq_true] at hguard
    simp only [checkEnqueueThrottle, hguard, Bool.false_eq_true, if_false]
    simp only [Bool.or_eq_false_iff, Bool.not_eq_false'] at hguard
    obtain ⟨⟨⟨hused, hlimited⟩, -⟩, hth⟩ := hguard
    split
    · right
      have hq : q ≠ 0 := by
        rintro rfl
        exact absurd hlimited (by simpa [shape] using hroot)
      refine ⟨hq, hth, ?_⟩
      rw [shape_throttleCfsRq_off hused hq (by rwa [hacc]), hacc]
    · left
      exact hacc

/-- `enqueue_entity` of an entity that is overdue. -/
theorem enqueueEntity_landed {n : Nat} (h : (s.shape g t).Rising g e n)
    (hoff : (s.shape g t).onRq e = false) (hq : (s.shape g t).home e = q)
    (hroot : (s.shape g t).limited 0 = false) (flags : EnqueueFlags) :
    ((s.enqueueEntity g t q e flags).shape g t).Landed g q n ∧
      (s.shape g t).Passes g ((s.enqueueEntity g t q e flags).shape g t) d false := by
  subst hq
  set q := (s.shape g t).home e with hq
  have hqueues := (h.overdue hoff).1.queues
  have harr := arrives_joinEntity hqueues rfl hoff flags
  have hland := h.landed hoff harr
  simp only [enqueueEntity]
  set s₁ := s.joinEntity g t q e flags
  split
  · rename_i hone
    have hleaf : (s₁.listAddLeafCfsRq g q).shape g t = s₁.shape g t := shape_listAddLeafCfsRq
    have hlen : ((s₁.shape g t).queued q).length = 1 := (harr.queues.nr q).symm.trans hone
    have hnil : (s.shape g t).queued q = [] := by
      have hperm := (harr.queued q).length_eq
      rw [if_pos rfl, hlen, List.length_cons] at hperm
      exact List.length_eq_zero_iff.mp (by omega)
    have hoff₁ := h.above_off hoff harr hnil
    rcases shape_checkEnqueueThrottle (s := s₁.listAddLeafCfsRq g q) (by rwa [hleaf])
      (by rw [hleaf, harr.limited]; exact hroot) with hs | ⟨hq0, hth, hs⟩
    · rw [hs, hleaf]
      exact ⟨hland, harr.passes⟩
    · rw [hs, hleaf]
      rw [hleaf] at hth
      exact ⟨hland.park hq0 hoff₁, harr.passes.trans (Passes.park hth)⟩
  · exact ⟨hland, harr.passes⟩

/-- The first loop of `enqueue_task_fair` gets to the root, or leaves the rest to the second. -/
theorem enqueueUp_levels (hq : (s.shape g t).home e = q) (h : (s.shape g t).Rising g e 1)
    (hroot : (s.shape g t).limited 0 = false) (flags : EnqueueFlags) :
    ((s.enqueueUp g t (e :: g.entities q) flags).2 = [] ∧
        ((s.enqueueUp g t (e :: g.entities q) flags).1.shape g t).Balanced g ∧
        (s.shape g t).Passes g ((s.enqueueUp g t (e :: g.entities q) flags).1.shape g t) 1 true) ∨
      ∃ e' q', (s.enqueueUp g t (e :: g.entities q) flags).2 = e' :: g.entities q' ∧
        ((s.enqueueUp g t (e :: g.entities q) flags).1.shape g t).home e' = q' ∧
        ((s.enqueueUp g t (e :: g.entities q) flags).1.shape g t).Levels g ∅ q' (-1) ∧
        ((s.enqueueUp g t (e :: g.entities q) flags).1.shape g t).Upright q' ∧
        (s.shape g t).Passes g ((s.enqueueUp g t (e :: g.entities q) flags).1.shape g t) 1 false := by
  induction q using Nat.strong_induction_on generalizing s e flags with
  | _ q ih =>
    have hcfs : s.cfsRqOf g e = q := hq
    by_cases hon : (s.ses e).onRq = true
    · right
      simp only [enqueueUp, hon, if_true]
      rcases h with ⟨-, hlev⟩ | ⟨hoff, -⟩
      · have hne := hlev.queued_ne_nil hon
        have hup := hlev.upright hne (Set.notMem_empty _)
        rw [hq] at hlev hup
        exact ⟨e, q, rfl, hq, hlev, hup, .refl _ _⟩
      · exact absurd hoff (by simpa [shape] using hon)
    · have hoff : (s.shape g t).onRq e = false := by simpa [shape] using hon
      obtain ⟨hland, hpass⟩ := enqueueEntity_landed (d := 1) h hoff hq hroot flags
      simp only [enqueueUp, hon, Bool.false_eq_true, if_false, hcfs]
      set s₁ := s.enqueueEntity g t q e flags
      by_cases hth : s₁.cfsRqThrottled t q = true
      · right
        have hshape : (s₁.shape g t).throttled q = true := hth
        obtain ⟨hlev, hup⟩ := hland.throttled hshape
        rw [if_pos hth]
        refine ⟨e, q, rfl, ?_, hlev, hup, hpass⟩
        rw [hpass.onward.home, hq]
      · rw [if_neg hth]
        set s₂ := s₁.setCfs q (fun c => { c with hNrRunning := c.hNrRunning + 1 })
        have hs₂ : s₂.shape g t = (s₁.shape g t).setCount q ((s₁.shape g t).hNrRunning q + 1) :=
          shape_count (· + 1)
        rcases hland.count with ⟨hend, hbal⟩ | ⟨hq0, -, hrise⟩
        · left
          have hq0 : q = 0 := hend.resolve_right hth
          subst hq0
          rw [← hs₂] at hbal
          refine ⟨rfl, hbal, hpass.trans ?_⟩
          show (s₁.shape g t).Passes g (s₂.shape g t) 1 true
          rw [hs₂]
          exact Passes.setCount_root rfl rfl
        · have hpass₂ : (s.shape g t).Passes g (s₂.shape g t) 1 false := by
            rw [hs₂]
            exact hpass.trans (Passes.setCount_of_ne hq0 _)
          have hroot₂ : (s₂.shape g t).limited 0 = false := by rw [hpass₂.onward.limited, hroot]
          rw [← hs₂] at hrise
          rw [g.entities_of_ne hq0]
          rcases ih (g.parent q) (g.parent_lt q hq0) rfl hrise hroot₂ .wake with
            ⟨hnil, hbal, hrest⟩ | ⟨e', q', hlist, hhome, hlev, hup, hrest⟩
          · exact .inl ⟨hnil, hbal, hpass₂.trans hrest⟩
          · exact .inr ⟨e', q', hlist, hhome, hlev, hup, hpass₂.trans hrest⟩

theorem rising_task {p : Nat} (h : (s.shape g t).Balanced g)
    (hoff : (s.shape g t).onRq (.task p) = false) : (s.shape g t).Rising g (.task p) 1 :=
  .inr ⟨hoff, h.mono (Set.empty_subset _), rfl, nofun⟩

/-- A task comes. -/
theorem enqueueTaskFair_sums {p : Nat} (h : (s.shape g t).Sums g)
    (hoff : (s.shape g t).onRq (.task p) = false) (hroot : (s.shape g t).limited 0 = false)
    (flags : EnqueueFlags) :
    ((s.enqueueTaskFair g t p flags).shape g t).Sums g ∧
      (s.shape g t).Onward g ((s.enqueueTaskFair g t p flags).shape g t) := by
  have hpath : s.path g (.task p) = .task p :: g.entities ((s.shape g t).home (.task p)) := rfl
  have hup := enqueueUp_levels rfl (rising_task h.balanced hoff) hroot flags
  simp only [enqueueTaskFair, hpath]
  set r := s.enqueueUp g t (.task p :: g.entities ((s.shape g t).home (.task p))) flags
  obtain ⟨hbal, hpass⟩ : ((r.1.countUp g t (· + 1) r.2).1.shape g t).Balanced g ∧
      (s.shape g t).Passes g ((r.1.countUp g t (· + 1) r.2).1.shape g t) 1
        (r.1.countUp g t (· + 1) r.2).2 := by
    rcases hup with ⟨hnil, hbal, hpass⟩ | ⟨e, q, hlist, hq, hlev, hupright, hpass⟩
    · rw [hnil]
      exact ⟨hbal, hpass⟩
    · obtain ⟨hbal, hrest⟩ := countUp_levels (f := (· + 1)) (by intro n _; push_cast; ring) hq hlev
        hupright
      rw [hlist]
      exact ⟨hbal, hpass.trans hrest⟩
  set r₂ := r.1.countUp g t (· + 1) r.2
  have htotal : r₂.1.nrRunning = (s.shape g t).total := hpass.total
  cases hr : r₂.2 with
  | false => exact hpass.finish h.total hbal (n := r₂.1.nrRunning) (by simp [hr, htotal])
  | true => exact hpass.finish h.total hbal (n := r₂.1.nrRunning + 1) (by simp [hr, htotal])

theorem onRq_path (hon : (s.shape g t).onRq e = true)
    (hup : ∀ c ∈ g.above ((s.shape g t).home e), (s.shape g t).onRq (.group c) = true) :
    ∀ x ∈ s.path g e, (s.shape g t).onRq x = true := by
  intro x hx
  rcases List.mem_cons.mp hx with rfl | hx
  · exact hon
  · obtain ⟨c, hc, rfl⟩ := List.mem_map.mp hx
    exact hup c hc

/-- Buddies are set where all entities of the path are on their queues. -/
theorem settled_setNextBuddy (h : (s.shape g t).Queues)
    (hpath : ∀ x ∈ s.path g e, (s.shape g t).onRq x = true) :
    (s.shape g t).Settled ((s.setNextBuddy g e).shape g t) ∧
      (s.shape g t).Passes g ((s.setNextBuddy g e).shape g t) d false := by
  obtain ⟨next, hnext, hs⟩ := shape_setNextBuddy (g := g) (t := t) (s := s) e
  have hset : (s.shape g t).Settled { s.shape g t with next := next } := by
    refine settled_buddies h (fun q x hx => ?_) h.last
    rcases hnext q x hx with hold | ⟨hmem, hq⟩
    · exact h.next q x hold
    · exact (h.mem q x).mpr ⟨hpath x hmem, hq⟩
  rw [hs]
  exact ⟨hset, hset.toFrame.passes rfl rfl⟩

theorem settled_setLastBuddy (h : (s.shape g t).Queues)
    (hpath : ∀ x ∈ s.path g e, (s.shape g t).onRq x = true) :
    (s.shape g t).Settled ((s.setLastBuddy g e).shape g t) ∧
      (s.shape g t).Passes g ((s.setLastBuddy g e).shape g t) d false := by
  obtain ⟨last, hlast, hs⟩ := shape_setLastBuddy (g := g) (t := t) (s := s) e
  have hset : (s.shape g t).Settled { s.shape g t with last := last } := by
    refine settled_buddies h h.next (fun q x hx => ?_)
    rcases hlast q x hx with hold | ⟨hmem, hq⟩
    · exact h.last q x hold
    · exact (h.mem q x).mpr ⟨hpath x hmem, hq⟩
  rw [hs]
  exact ⟨hset, hset.toFrame.passes rfl rfl⟩

/-- Outside of a throttled hierarchy nothing above is throttled. -/
theorem unthrottled_of_hierarchy (hcount : (s.shape g t).Counted g)
    (h : s.throttledHierarchy t q = false) :
    ∀ c ∈ g.above q, (s.shape g t).throttled c = false := by
  intro c hc
  by_cases hused : t.cfsBandwidthUsed = true
  · have hzero : (s.cfs q).throttleCount = 0 := by simpa [throttledHierarchy, hused] using h
    exact hcount.unthrottled hzero hc
  · simp [shape, cfsRqThrottled, hused]

/-- The buddy that `dequeue_task_fair` may leave behind on a queue that still has something. -/
theorem settled_parentBuddy (h : (s.shape g t).Levels g ∅ (g.parent q) 1)
    (hcounted : (s.shape g t).Counted g) (hq0 : q ≠ 0) (hon : (s.shape g t).onRq (.group q) = true)
    {set : Bool} (hset : (set && !s.throttledHierarchy t q) = true) :
    (s.shape g t).Settled ((s.setNextBuddy g (.group q)).shape g t) ∧
      (s.shape g t).Passes g ((s.setNextBuddy g (.group q)).shape g t) (-1) false := by
  simp only [Bool.and_eq_true, Bool.not_eq_true'] at hset
  have hfree := unthrottled_of_hierarchy hcounted hset.2
  have habove : ∀ c ∈ g.above (g.parent q), (s.shape g t).throttled c = false := by
    intro c hc
    refine hfree c ?_
    rw [g.above_of_ne hq0]
    exact List.mem_cons_of_mem _ hc
  exact settled_setNextBuddy h.queues (onRq_path hon (h.on_above hon habove))

/-- The first loop of `dequeue_task_fair` gets to the root, or leaves the rest to the second. -/
theorem dequeueUp_levels (hq : (s.shape g t).home e = q) (h : (s.shape g t).Sinking g ∅ e 1)
    (hcounted : (s.shape g t).Counted g) (taskSleep : Bool) (flags : DequeueFlags) :
    ((s.dequeueUp g t taskSleep (e :: g.entities q) flags).2 = [] ∧
        ((s.dequeueUp g t taskSleep (e :: g.entities q) flags).1.shape g t).Balanced g ∧
        (s.shape g t).Passes g
          ((s.dequeueUp g t taskSleep (e :: g.entities q) flags).1.shape g t) (-1) true) ∨
      ∃ e' q', (s.dequeueUp g t taskSleep (e :: g.entities q) flags).2 = e' :: g.entities q' ∧
        ((s.dequeueUp g t taskSleep (e :: g.entities q) flags).1.shape g t).home e' = q' ∧
        ((s.dequeueUp g t taskSleep (e :: g.entities q) flags).1.shape g t).Levels g ∅ q' 1 ∧
        ((s.dequeueUp g t taskSleep (e :: g.entities q) flags).1.shape g t).Upright q' ∧
        (s.shape g t).Passes g
          ((s.dequeueUp g t taskSleep (e :: g.entities q) flags).1.shape g t) (-1) false := by
  induction q using Nat.strong_induction_on generalizing s e flags with
  | _ q ih =>
    have hcfs : s.cfsRqOf g e = q := hq
    have hdep := departs_dequeueEntity h.2.1.queues hq h.1 flags
    have hleft := h.left hdep (Set.notMem_empty _)
    have hpass : (s.shape g t).Passes g ((s.dequeueEntity g t q e flags).shape g t) (-1) false :=
      hdep.passes
    rw [hq] at hleft
    obtain ⟨hlev, hup⟩ := hleft
    simp only [dequeueUp, hcfs]
    set s₁ := s.dequeueEntity g t q e flags
    have hn : (((s₁.shape g t).hNrRunning q - 1 : Nat) : Int) = (s₁.shape g t).hNrRunning q - 1 := by
      have := hlev.off_self
      omega
    set s₂ := s₁.setCfs q (fun c => { c with hNrRunning := c.hNrRunning - 1 })
    have hs₂ : s₂.shape g t = (s₁.shape g t).setCount q ((s₁.shape g t).hNrRunning q - 1) :=
      shape_count (· - 1)
    have hth₁ : s₁.cfsRqThrottled t q = (s₁.shape g t).throttled q := rfl
    rw [hth₁]
    rcases hlev.count_due hup hn with ⟨hend, hbal⟩ | ⟨hq0, hth, hon, hlev₂⟩
    · rw [← hs₂] at hbal
      by_cases hq0 : q = 0
      · left
        subst hq0
        have hth : (s₁.shape g t).throttled 0 = false := hlev.root
        have hpass₂ : (s.shape g t).Passes g (s₂.shape g t) (-1) true := by
          rw [hs₂]
          exact hpass.trans (Passes.setCount_root rfl (by rw [hn]; ring))
        rw [hth, if_neg Bool.false_ne_true]
        simp only [Groups.entities_zero, dequeueUp, ite_self]
        exact ⟨trivial, hbal, hpass₂⟩
      · right
        have hth := hend.resolve_left hq0
        rw [if_pos hth]
        refine ⟨e, q, rfl, ?_, ?_, hup, hpass⟩
        · rw [hpass.onward.home, hq]
        · rcases hup with rfl | ⟨-, hth'⟩ | ⟨hoff, -⟩
          · exact absurd rfl hq0
          · rw [hth] at hth'
            cases hth'
          · exact hlev.due_throttled hth hoff
    · rw [← hs₂] at hlev₂
      have hpass₂ : (s.shape g t).Passes g (s₂.shape g t) (-1) false := by
        rw [hs₂]
        exact hpass.trans (Passes.setCount_of_ne hq0 _)
      have hon₂ : (s₂.shape g t).onRq (.group q) = true := by
        rw [hs₂]
        exact hon
      have hth₂ : (s₂.shape g t).throttled q = false := by
        rw [hs₂]
        exact hth
      have hload : (s₂.shape g t).load q = 0 ↔ (s₂.shape g t).queued q = [] :=
        hlev₂.queues.load_eq_zero q
      rw [if_neg (by simp [hth]), g.entities_of_ne hq0]
      by_cases hw : (s₂.cfs q).load.weight = 0
      · rw [if_neg (by simp [hw])]
        have hsink := hlev₂.sinking hon₂ (hload.mp hw)
        rcases ih (g.parent q) (g.parent_lt q hq0) rfl hsink (hpass₂.onward.counted hcounted)
          { flags with sleep := true } with ⟨hnil, hbal, hrest⟩ | ⟨e', q', hlist, hhome, hlev, hup, hrest⟩
        · exact .inl ⟨hnil, hbal, hpass₂.trans hrest⟩
        · exact .inr ⟨e', q', hlist, hhome, hlev, hup, hpass₂.trans hrest⟩
      · rw [if_pos hw]
        have hlev₃ := hlev₂.due_on hth₂ (fun hnil => hw (hload.mpr hnil)) hon₂
        have hne := hlev₃.queued_ne_nil hon₂
        have hup₃ := hlev₃.upright hne (Set.notMem_empty _)
        rw [hlev₃.home_group] at hup₃
        right
        dsimp only
        by_cases hbuddy : (taskSleep && !s₂.throttledHierarchy t q) = true
        · rw [if_pos hbuddy]
          have hset := settled_parentBuddy hlev₃ (hpass₂.onward.counted hcounted) hq0 hon₂ hbuddy
          refine ⟨.group q, g.parent q, rfl, rfl, hlev₃.settled hset.1, ?_, hpass₂.trans hset.2⟩
          rwa [Upright, hset.1.onRq, hset.1.throttled]
        · rw [if_neg hbuddy]
          exact ⟨.group q, g.parent q, rfl, rfl, hlev₃, hup₃, hpass₂⟩

theorem sinking_task {p : Nat} (h : (s.shape g t).Balanced g)
    (hon : (s.shape g t).onRq (.task p) = true) : (s.shape g t).Sinking g ∅ (.task p) 1 := by
  refine ⟨hon, ?_, nofun⟩
  rw [show (1 : Int) - (s.shape g t).cnt (.task p) = 0 from rfl]
  exact (h.even _).mono (Set.empty_subset _)

/-- A task goes. -/
theorem dequeueTaskFair_sums {p : Nat} (h : (s.shape g t).Sums g)
    (hon : (s.shape g t).onRq (.task p) = true) (hcounted : (s.shape g t).Counted g)
    (flags : DequeueFlags) :
    ((s.dequeueTaskFair g t p flags).shape g t).Sums g ∧
      (s.shape g t).Onward g ((s.dequeueTaskFair g t p flags).shape g t) := by
  have hpath : s.path g (.task p) = .task p :: g.entities ((s.shape g t).home (.task p)) := rfl
  have hup := dequeueUp_levels rfl (sinking_task h.balanced hon) hcounted flags.sleep flags
  simp only [dequeueTaskFair, hpath]
  set r := s.dequeueUp g t flags.sleep (.task p :: g.entities ((s.shape g t).home (.task p))) flags
  obtain ⟨hbal, hpass⟩ : ((r.1.countUp g t (· - 1) r.2).1.shape g t).Balanced g ∧
      (s.shape g t).Passes g ((r.1.countUp g t (· - 1) r.2).1.shape g t) (-1)
        (r.1.countUp g t (· - 1) r.2).2 := by
    rcases hup with ⟨hnil, hbal, hpass⟩ | ⟨e, q, hlist, hq, hlev, hupright, hpass⟩
    · rw [hnil]
      exact ⟨hbal, hpass⟩
    · obtain ⟨hbal, hrest⟩ := countUp_levels (f := (· - 1)) (by intro n hn; omega) hq hlev hupright
      rw [hlist]
      exact ⟨hbal, hpass.trans hrest⟩
  set r₂ := r.1.countUp g t (· - 1) r.2
  have htotal : r₂.1.nrRunning = (s.shape g t).total := hpass.total
  have hcount := hpass.count
  have hsum := h.total
  cases hr : r₂.2 with
  | false => exact hpass.finish h.total hbal (n := r₂.1.nrRunning) (by simp [hr, htotal])
  | true =>
    rw [hr, if_pos rfl] at hcount
    exact hpass.finish h.total hbal (n := r₂.1.nrRunning - 1) (by rw [hr, htotal, if_pos rfl]; omega)

/-- What the loop of `throttle_cfs_rq` does for `q₀`: entities of groups that are emptied go, but
no task loses one above it unless it is below `q₀`. -/
structure Sheds (g : Groups) (q₀ : Nat) (a b : Shape) (d : Int) (passed : Bool) : Prop where
  levels : b.Levels g {q₀} 0 0
  passes : a.Passes g b (-d) passed
  throttled : b.throttled = a.throttled
  throttleCount : b.throttleCount = a.throttleCount
  fewer : ∀ x, b.onRq x = true → a.onRq x = true
  firm : ∀ p, q₀ ∉ g.above (a.home (.task p)) → a.Firm g (.task p) → b.Firm g (.task p)

/-- Where that loop is at the entity of `c`: the entity is off already, is to go, or has stayed with
the tasks of `q₀` still counted above. -/
def Shedding (g : Groups) (q₀ : Nat) (a : Shape) (c taskDelta : Nat) (dequeue : Bool) : Prop :=
  (a.onRq (.group c) = false ∧ a.Levels g {q₀} 0 0) ∨
    (dequeue = true ∧ a.Sinking g {q₀} (.group c) taskDelta) ∨
    (dequeue = false ∧ a.onRq (.group c) = true ∧ a.Levels g {q₀} (g.parent c) taskDelta)

/-- A turn of the loop before it counts: the entity of `c` has gone or stays. -/
structure Turned (g : Groups) (q₀ : Nat) (a b : Shape) (c taskDelta : Nat) (dequeue : Bool) : Prop where
  levels : b.Levels g (insert (g.parent c) {q₀}) (g.parent c) taskDelta
  upright : b.Upright (g.parent c)
  passes : a.Passes g b (-taskDelta) false
  throttled : b.throttled = a.throttled
  throttleCount : b.throttleCount = a.throttleCount
  fewer : ∀ x, b.onRq x = true → a.onRq x = true
  gone : dequeue = true → b.onRq (.group c) = false
  firm : ∀ p, q₀ ∉ g.above (a.home (.task p)) → a.Firm g (.task p) → b.Firm g (.task p)
  kept : dequeue = false → b.queued (g.parent c) ≠ []

theorem turned_dequeue {c q₀ taskDelta : Nat} (hc : c ≠ 0) (hle : c ≤ q₀)
    (h : (s.shape g t).Sinking g {q₀} (.group c) taskDelta) :
    Turned g q₀ (s.shape g t) ((s.dequeueEntity g t (g.parent c) (.group c) .asleep).shape g t)
      c taskDelta true := by
  have hlt := g.parent_lt c hc
  have hhome : (s.shape g t).home (.group c) = g.parent c := rfl
  have hdep := departs_dequeueEntity h.2.1.queues hhome h.1 .asleep
  have hleft := h.left hdep (by
    show g.parent c ≠ q₀
    omega)
  refine ⟨hleft.1, hleft.2, hdep.passes, hdep.throttled, hdep.throttleCount, fun x hx => ?_,
    fun _ => ?_, fun p hp hf => ?_, nofun⟩
  · by_cases hxc : x = .group c
    · rw [hxc]
      exact h.1
    · rwa [hdep.onRq, Function.update_of_ne hxc] at hx
  · rw [hdep.onRq, Function.update_self]
  · refine hf.depart hdep nofun fun hmem => ?_
    rcases h.2.2 c rfl with heq | hnil
    · exact hp (heq ▸ hmem)
    · exact hf.queued_ne_nil h.2.1.queues h.2.1.home_group (.inr hmem) hnil

theorem turned_stay {a : Shape} {c q₀ taskDelta : Nat} (hc : c ≠ 0) (hle : c ≤ q₀)
    (hon : a.onRq (.group c) = true) (h : a.Levels g {q₀} (g.parent c) taskDelta) :
    Turned g q₀ a a c taskDelta false := by
  have hlt := g.parent_lt c hc
  have hne := h.queued_ne_nil hon
  rw [h.home_group] at hne
  have hnot : g.parent c ∉ ({q₀} : Set Nat) := by
    show g.parent c ≠ q₀
    omega
  exact ⟨h.mono (Set.subset_insert _ _), h.upright hne hnot, .refl _ _, rfl, rfl, fun _ => id, nofun,
    fun _ _ => id, fun _ => hne⟩

namespace Turned

variable {a b : Shape} {c q₀ taskDelta : Nat} {dequeue : Bool}

/-- What the queue above counts once the tasks of `q₀` are taken off. -/
theorem count_eq (h : Turned g q₀ a b c taskDelta dequeue) :
    ((b.hNrRunning (g.parent c) - taskDelta : Nat) : Int) = b.hNrRunning (g.parent c) - taskDelta := by
  have := h.levels.off_self
  omega

/-- At the root the loop has got through. -/
theorem root (h : Turned g q₀ a b c taskDelta dequeue) (hq0 : g.parent c = 0) :
    Sheds g q₀ a (b.setCount (g.parent c) (b.hNrRunning (g.parent c) - taskDelta)) taskDelta true where
  levels := by
    rcases h.levels.count_due h.upright h.count_eq with hend | ⟨hne, -⟩
    · exact hend.2
    · exact absurd hq0 hne
  passes := h.passes.trans (Passes.setCount_root hq0 (by rw [h.count_eq]; ring))
  throttled := h.throttled
  throttleCount := h.throttleCount
  fewer := h.fewer
  firm p hp hf := (h.firm p hp hf).congr rfl rfl

/-- Below it the loop goes on with the entity of the queue, which is to go when nothing is left. -/
theorem shedding {e : Shape} (h : Turned g q₀ a b c taskDelta dequeue) (hq0 : g.parent c ≠ 0)
    (he : e = b.setCount (g.parent c) (b.hNrRunning (g.parent c) - taskDelta)) :
    Shedding g q₀ e (g.parent c) taskDelta (dequeue && decide (e.load (g.parent c) = 0)) := by
  have hload : e.load (g.parent c) = 0 ↔ b.queued (g.parent c) = [] := by
    rw [he]
    exact (h.levels.queues.setCount _ _).load_eq_zero _
  have hon : e.onRq = b.onRq := by rw [he]; rfl
  have hqueued : e.queued (g.parent c) = b.queued (g.parent c) := by rw [he]; rfl
  have hnext := h.levels.count_due h.upright h.count_eq
  rw [← he] at hnext
  rcases hnext with ⟨hend, hlev⟩ | ⟨-, hth, hon', hlev⟩
  · refine .inl ⟨?_, hlev⟩
    have hth := hend.resolve_left hq0
    rcases h.upright with h0 | ⟨-, hth'⟩ | ⟨hoff, -⟩
    · exact absurd h0 hq0
    · rw [hth] at hth'
      cases hth'
    · rw [hon, hoff]
  · right
    have hon'' : e.onRq (.group (g.parent c)) = true := by rw [hon, hon']
    by_cases hw : e.load (g.parent c) = 0
    · left
      have hd : dequeue = true := by
        by_contra hd
        rw [Bool.not_eq_true] at hd
        exact h.kept hd (hload.mp hw)
      exact ⟨by simp [hd, hw], hlev.sinking hon'' (hqueued.trans (hload.mp hw))⟩
    · right
      have hth' : e.throttled (g.parent c) = false := by rw [he]; exact hth
      exact ⟨by simp [hw], hon'',
        hlev.due_on hth' (fun hnil => hw (hload.mpr (hqueued.symm.trans hnil))) hon''⟩

end Turned

theorem throttleUp_levels {c q₀ taskDelta : Nat} (hc : c ≠ 0) (hle : c ≤ q₀) (dequeue : Bool)
    (h : Shedding g q₀ (s.shape g t) c taskDelta dequeue) :
    Sheds g q₀ (s.shape g t) ((s.throttleUp g t taskDelta (g.entities c) dequeue).1.shape g t)
        taskDelta (s.throttleUp g t taskDelta (g.entities c) dequeue).2 ∧
      (dequeue = true →
        ((s.throttleUp g t taskDelta (g.entities c) dequeue).1.shape g t).onRq (.group c) = false) := by
  induction c using Nat.strong_induction_on generalizing s dequeue with
  | _ c ih =>
    have hlt := g.parent_lt c hc
    rw [g.entities_of_ne hc]
    rcases h with ⟨hoff, hlev⟩ | h
    · have hses : (s.ses (.group c)).onRq = false := hoff
      simp only [throttleUp, hses, Bool.false_eq_true, if_false]
      exact ⟨⟨hlev, .refl _ _, rfl, rfl, fun _ => id, fun _ _ => id⟩, fun _ => hoff⟩
    have hon : (s.ses (.group c)).onRq = true := by
      rcases h with ⟨-, h⟩ | ⟨-, h, -⟩
      · exact h.1
      · exact h
    simp only [throttleUp, hon, if_true]
    set q := g.parent c with hq
    have hcfs : s.cfsRqOf g (.group c) = q := rfl
    rw [hcfs]
    set s₁ := if dequeue = true then s.dequeueEntity g t q (.group c) .asleep else s with hs₁
    have hturned : Turned g q₀ (s.shape g t) (s₁.shape g t) c taskDelta dequeue := by
      rcases h with ⟨rfl, hsink⟩ | ⟨rfl, -, hlev⟩
      · exact turned_dequeue hc hle hsink
      · exact turned_stay hc hle hon hlev
    set s₂ := s₁.setCfs q (fun c => { c with hNrRunning := c.hNrRunning - taskDelta })
    have hs₂ : s₂.shape g t = (s₁.shape g t).setCount q ((s₁.shape g t).hNrRunning q - taskDelta) :=
      shape_count (· - taskDelta)
    have hon₂ : (s₂.shape g t).onRq = (s₁.shape g t).onRq := by rw [hs₂]; rfl
    by_cases hq0 : q = 0
    · have hnil : g.entities q = [] := by rw [hq0, Groups.entities_zero]
      rw [hnil, throttleUp, hon₂, hs₂]
      exact ⟨hturned.root hq0, hturned.gone⟩
    · obtain ⟨hrest, -⟩ := ih q hlt (s := s₂) hq0 (by omega)
        (dequeue && decide ((s₂.cfs q).load.weight = 0)) (hturned.shedding hq0 hs₂)
      have hpass₂ : (s.shape g t).Passes g (s₂.shape g t) (-taskDelta) false := by
        rw [hs₂]
        exact hturned.passes.trans (Passes.setCount_of_ne hq0 _)
      have hsame : (s₂.shape g t).home = (s₁.shape g t).home ∧
          (s₂.shape g t).throttled = (s₁.shape g t).throttled ∧
          (s₂.shape g t).throttleCount = (s₁.shape g t).throttleCount := by
        rw [hs₂]
        exact ⟨rfl, rfl, rfl⟩
      have hfewer : ∀ x, ((s₂.throttleUp g t taskDelta (g.entities q)
          (dequeue && decide ((s₂.cfs q).load.weight = 0))).1.shape g t).onRq x = true →
          (s₁.shape g t).onRq x = true := fun x hx => hon₂ ▸ hrest.fewer x hx
      refine ⟨⟨hrest.levels, hpass₂.trans hrest.passes, hrest.throttled.trans ?_,
        hrest.throttleCount.trans ?_, fun x hx => hturned.fewer x (hfewer x hx),
        fun p hp hf => hrest.firm p ?_ ?_⟩, fun hd => ?_⟩
      · exact hsame.2.1.trans hturned.throttled
      · exact hsame.2.2.trans hturned.throttleCount
      · rwa [hpass₂.onward.home]
      · exact (hturned.firm p hp hf).congr hsame.1 hon₂
      · by_contra hx
        rw [Bool.not_eq_false] at hx
        have hback := hfewer _ hx
        rw [hturned.gone hd] at hback
        cases hback

theorem shedding_start {a : Shape} (h : a.Balanced g) : Shedding g q a q (a.hNrRunning q) true := by
  by_cases hon : a.onRq (.group q) = true
  · refine .inr (.inl ⟨rfl, hon, ?_, ?_⟩)
    · rw [show (a.hNrRunning q : Int) - a.cnt (.group q) = 0 from sub_self _]
      exact (h.even _).mono (Set.empty_subset _)
    · rintro c ⟨⟩
      exact .inl rfl
  · exact .inl ⟨by simpa using hon, h.mono (Set.empty_subset _)⟩

/-- A queue is throttled: its entity goes, and those above that are left without any. -/
theorem throttleCfsRq_sums (h : (s.shape g t).Sums g) (hused : t.cfsBandwidthUsed = true)
    (hq : q ≠ 0) (hth : (s.shape g t).throttled q = false) :
    ((s.throttleCfsRq g t q).shape g t).Sums g ∧
      (s.shape g t).Onward g ((s.throttleCfsRq g t q).shape g t) ∧
      ((s.throttleCfsRq g t q).shape g t).throttled q = true ∧
      (∀ x, ((s.throttleCfsRq g t q).shape g t).onRq x = true → (s.shape g t).onRq x = true) ∧
      ∀ p, q ∉ g.above ((s.shape g t).home (.task p)) → (s.shape g t).Firm g (.task p) →
        ((s.throttleCfsRq g t q).shape g t).Firm g (.task p) := by
  set s₁ := s.walkTgTree g q (tgThrottleDown s.clockTask) with hs₁
  have hshape := shape_throttleCfsRq (s := s) (g := g) (q := q) hused
  rw [← hs₁] at hshape
  set taskDelta := (s₁.cfs q).hNrRunning
  have hwalk : s₁.shape g t = { s.shape g t with
      throttleCount := fun c => if q ∈ g.above c then (s.shape g t).throttleCount c + 1
        else (s.shape g t).throttleCount c } :=
    shape_walkTgTree (k := (· + 1)) fun _ => rfl
  have hlev₁ : (s₁.shape g t).Balanced g := by
    rw [hwalk]
    exact h.balanced.setThrottleCount _
  have hdelta : (s.shape g t).hNrRunning q = taskDelta := by
    have := congrFun (congrArg Shape.hNrRunning hwalk) q
    exact this.symm
  have hstart : Shedding g q (s₁.shape g t) q taskDelta true := shedding_start hlev₁
  obtain ⟨hshed, hgone⟩ := throttleUp_levels hq le_rfl true hstart
  set r := s₁.throttleUp g t taskDelta (g.entities q) true
  set b : Shape := { r.1.shape g t with
    throttled := Function.update (r.1.shape g t).throttled q true } with hb
  have hthrottled : b.throttled = ((s.shape g t).park g q).throttled := by
    rw [hb, hshed.throttled, hwalk]
    rfl
  have hcount : b.throttleCount = ((s.shape g t).park g q).throttleCount := by
    rw [hb, hshed.throttleCount, hwalk]
    rfl
  have hbal : b.Balanced g :=
    (Levels.park (by rw [insert_empty_eq]; exact hshed.levels) hq (hgone rfl)).setThrottleCount
      (r.1.shape g t).throttleCount
  have honward := hshed.passes.onward
  rw [hwalk] at honward
  have hpark := Onward.park (g := g) hth
  have hpass : (s.shape g t).Passes g b (-taskDelta) r.2 := by
    refine ⟨⟨⟨honward.home, honward.running, honward.limited, honward.capped, fun c hc => ?_,
      fun hc c => ?_⟩, honward.curr⟩, ?_, ?_⟩
    · rw [hthrottled]
      exact hpark.throttled c hc
    · rw [hcount, hthrottled]
      exact hpark.counted hc c
    · have := hshed.passes.total
      rw [hwalk] at this
      exact this
    · have := hshed.passes.count
      rw [hwalk] at this
      exact this
  have hfinish := hpass.finish h.total hbal
    (n := b.total - if r.2 then (s.shape g t).hNrRunning q else 0) (by
      have h1 := hpass.total
      have h2 := hpass.count
      have h3 := h.total
      rw [hdelta, h1]
      cases hr : r.2 with
      | false => simp
      | true =>
        rw [hr, if_pos rfl] at h2
        rw [if_pos rfl, if_pos rfl]
        omega)
  rw [hshape]
  have honRq : (s₁.shape g t).onRq = (s.shape g t).onRq := by rw [hwalk]
  refine ⟨hfinish.1, hfinish.2, Function.update_self .., fun x hx => ?_, fun p hp hf => ?_⟩
  · rw [← honRq]
    exact hshed.fewer x hx
  have hf₁ : (s₁.shape g t).Firm g (.task p) := hf.congr (by rw [hwalk]) (by rw [hwalk])
  have hhome : (s₁.shape g t).home = (s.shape g t).home := by rw [hwalk]
  exact (hshed.firm p (by rwa [hhome]) hf₁).congr rfl rfl

/-- The loop of `unthrottle_cfs_rq`. -/
theorem unthrottleUp_levels {c n : Nat} (hc : c ≠ 0) (h : (s.shape g t).Rising g (.group c) n)
    (enqueue : Bool) (henqueue : (s.shape g t).onRq (.group c) = false → enqueue = true)
    (hroot : (s.shape g t).limited 0 = false) :
    ((s.unthrottleUp g t n (g.entities c) enqueue).1.shape g t).Balanced g ∧
      (s.shape g t).Passes g ((s.unthrottleUp g t n (g.entities c) enqueue).1.shape g t) n
        (s.unthrottleUp g t n (g.entities c) enqueue).2 := by
  induction c using Nat.strong_induction_on generalizing s enqueue with
  | _ c ih =>
    rw [g.entities_of_ne hc]
    simp only [unthrottleUp]
    set q := g.parent c with hq
    have hcfs : s.cfsRqOf g (.group c) = q := rfl
    have hhome : (s.shape g t).home (.group c) = q := rfl
    rw [hcfs]
    set s₁ := if (enqueue && !(s.ses (.group c)).onRq) = true
      then s.enqueueEntity g t q (.group c) .wake else s with hs₁
    set s₂ := s₁.setCfs q (fun c => { c with hNrRunning := c.hNrRunning + n })
    have hs₂ : s₂.shape g t = (s₁.shape g t).setCount q ((s₁.shape g t).hNrRunning q + n) :=
      shape_count (· + n)
    obtain ⟨hpass, hnext⟩ : (s.shape g t).Passes g (s₁.shape g t) n false ∧
        (((q = 0 ∨ (s₁.shape g t).throttled q = true) ∧ (s₂.shape g t).Balanced g) ∨
          (q ≠ 0 ∧ (s₁.shape g t).throttled q = false ∧ (s₂.shape g t).Rising g (.group q) n ∧
            ((s₂.shape g t).onRq (.group q) = false →
              (enqueue && !(s.ses (.group c)).onRq) = true))) := by
      rw [hs₂]
      by_cases hon : (s.ses (.group c)).onRq = true
      · rw [if_neg (by simp [hon])] at hs₁
        rw [hs₁]
        refine ⟨.refl _ _, ?_⟩
        rcases h with ⟨-, hlev⟩ | ⟨hoff, -⟩
        · have hup := hlev.upright (hlev.queued_ne_nil hon) (Set.notMem_empty _)
          rw [hhome] at hlev hup
          rcases hlev.count hup (n := (s.shape g t).hNrRunning q + n) (by push_cast; ring) with
            ⟨hend, hbal⟩ | ⟨hq0, hth, hon', hlev'⟩
          · exact .inl ⟨hend, hbal⟩
          · exact .inr ⟨hq0, hth, .inl ⟨hon', hlev'⟩, fun hoff => absurd hoff (by simp [Shape.setCount, hon'])⟩
        · exact absurd hoff (by simp [shape, hon])
      · have hoff : (s.shape g t).onRq (.group c) = false := by simpa [shape] using hon
        have henq : (enqueue && !(s.ses (.group c)).onRq) = true := by simp [hon, henqueue hoff]
        obtain ⟨hland, hpass⟩ := enqueueEntity_landed (d := n) h hoff hhome hroot .wake
        rw [if_pos henq] at hs₁
        rw [hs₁]
        refine ⟨hpass, ?_⟩
        rcases hland.count with hend | ⟨hq0, hth, hrise⟩
        · exact .inl hend
        · exact .inr ⟨hq0, hth, hrise, fun _ => henq⟩
    have hth₂ : s₂.cfsRqThrottled t q = (s₁.shape g t).throttled q :=
      congrFun (congrArg Shape.throttled hs₂) q
    rw [hth₂]
    rcases hnext with ⟨hend, hbal⟩ | ⟨hq0, hth, hrise, henq⟩
    · by_cases hq0 : q = 0
      · have hpass₂ : (s.shape g t).Passes g (s₂.shape g t) n true := by
          rw [hs₂]
          exact hpass.trans (Passes.setCount_root hq0 (by push_cast; ring))
        have hth : (s₁.shape g t).throttled q = false := by
          have := hbal.root
          rw [hs₂] at this
          rw [hq0]
          exact this
        have hnil : g.entities q = [] := by rw [hq0, Groups.entities_zero]
        rw [if_neg (by simp [hth]), hnil, unthrottleUp]
        exact ⟨hbal, hpass₂⟩
      · rw [if_pos (hend.resolve_left hq0)]
        refine ⟨hbal, ?_⟩
        show (s.shape g t).Passes g (s₂.shape g t) n false
        rw [hs₂]
        exact hpass.trans (Passes.setCount_of_ne hq0 _)
    · have hpass₂ : (s.shape g t).Passes g (s₂.shape g t) n false := by
        rw [hs₂]
        exact hpass.trans (Passes.setCount_of_ne hq0 _)
      rw [if_neg (by simp [hth])]
      obtain ⟨hbal, hrest⟩ := ih q (g.parent_lt c hc) hq0 hrise _ henq
        (by rw [hpass₂.onward.limited, hroot])
      exact ⟨hbal, hpass₂.trans hrest⟩

theorem shape_unthrottleDown (hused : t.cfsBandwidthUsed = true) :
    (s.unthrottleDown g q).shape g t = (s.shape g t).unpark g q := by
  simp only [unthrottleDown]
  rw [shape_walkTgTree (k := (· - 1)) fun _ => rfl]
  have hflag := shape_setThrottled (s := s) (g := g) (q := q) hused false (·.throttledClock)
  have hshape : ∀ b : CfsBandwidth, b.quota = (s.pools q).quota →
      { s.setCfs q (fun c => { c with throttled := false }) with
        pools := Function.update (s.setCfs q (fun c => { c with throttled := false })).pools q b }.shape g t =
        { s.shape g t with throttled := Function.update (s.shape g t).throttled q false } :=
    fun b hb => (shape_pools (s := s.setCfs q (fun c => { c with throttled := false })) hb).trans hflag
  rw [hshape]
  · rfl
  · rfl

/-- A queue is no longer throttled: its entity comes back, if anything is there. -/
theorem unthrottleCfsRq_sums (h : (s.shape g t).Sums g) (hth : (s.shape g t).throttled q = true)
    (hroot : (s.shape g t).limited 0 = false) :
    ((s.unthrottleCfsRq g t q).shape g t).Sums g ∧
      ((s.shape g t).unpark g q).Onward g ((s.unthrottleCfsRq g t q).shape g t) := by
  have hused : t.cfsBandwidthUsed = true := by
    by_contra hused
    simp [shape, cfsRqThrottled, hused] at hth
  have hq : q ≠ 0 := by
    rintro rfl
    rw [h.balanced.root] at hth
    cases hth
  have hs₁ := shape_unthrottleDown (g := g) (s := s) (q := q) hused
  have hlev := h.balanced.unpark q
  have hoff := h.balanced.group_off (Set.notMem_empty q) hth
  have hunpark : ((s.shape g t).unpark g q).throttled q = false := Function.update_self ..
  simp only [unthrottleCfsRq]
  set s₁ := s.unthrottleDown g q
  have hload : (s₁.cfs q).load.weight = 0 ↔ (s.shape g t).queued q = [] := by
    rw [← h.balanced.queues.load_eq_zero, show (s₁.cfs q).load.weight = (s₁.shape g t).load q from rfl,
      hs₁]
    rfl
  by_cases hw : (s₁.cfs q).load.weight = 0
  · rw [if_pos hw, hs₁]
    refine ⟨⟨hlev.due fun _ => ⟨fun hon => ?_, fun hw' => absurd (hload.mp hw) hw'.1⟩, h.total⟩,
      .refl _⟩
    rw [show ((s.shape g t).unpark g q).onRq (.group q) = _ from hoff] at hon
    cases hon
  · rw [if_neg hw]
    set taskDelta := (s₁.cfs q).hNrRunning
    have hcnt : (s₁.shape g t).cnt (.group q) = taskDelta := rfl
    have hrise : (s₁.shape g t).Rising g (.group q) taskDelta := by
      rw [hs₁] at hcnt ⊢
      refine .inr ⟨hoff, hlev.mono ?_, hcnt, ?_⟩
      · rintro c (rfl | ⟨⟨⟩⟩)
        rfl
      · rintro c ⟨⟩
        exact ⟨hq, fun hnil => hw (hload.mpr hnil), hunpark⟩
    obtain ⟨hbal, hpass⟩ := unthrottleUp_levels hq hrise true (fun _ => rfl) (by rw [hs₁]; exact hroot)
    set r := s₁.unthrottleUp g t taskDelta (g.entities q) true
    have htotal : r.1.nrRunning = (s.shape g t).total := by
      rw [show r.1.nrRunning = (r.1.shape g t).total from rfl, hpass.total, hs₁]
      rfl
    have hsum : (s₁.shape g t).total = (s₁.shape g t).hNrRunning 0 := by
      rw [hs₁]
      exact h.total
    have hsame : (s₁.shape g t).total = (s.shape g t).total := by rw [hs₁]; rfl
    rw [← hs₁]
    set s₂ := if r.2 = true then { r.1 with nrRunning := r.1.nrRunning + taskDelta } else r.1 with hs₂
    have hfinish : (s₂.shape g t).Sums g ∧ (s₁.shape g t).Onward g (s₂.shape g t) := by
      rw [hs₂]
      cases hr : r.2 with
      | false => exact hpass.finish hsum hbal (n := r.1.nrRunning) (by simp [hr, htotal, hsame])
      | true =>
        exact hpass.finish hsum hbal (n := r.1.nrRunning + taskDelta) (by simp [hr, htotal, hsame])
    split
    · exact hfinish
    · exact hfinish

end FairRq

end MSchedutil
