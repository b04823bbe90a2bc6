import MSchedutil.Shape

/-! What the operations on one queue do to its shape: most only move times, the rest are the
operations of `Shape`. -/

namespace MSchedutil

namespace FairRq

def shape (g : Groups) (t : FairTunables) (s : FairRq) : Shape where
  home := s.cfsRqOf g
  onRq e := (s.ses e).onRq
  weight e := (s.ses e).load.weight
  timeline q := (s.cfs q).timeline
  curr q := (s.cfs q).curr
  next q := (s.cfs q).next
  last q := (s.cfs q).last
  load q := (s.cfs q).load.weight
  nrRunning q := (s.cfs q).nrRunning
  hNrRunning q := (s.cfs q).hNrRunning
  throttled q := s.cfsRqThrottled t q
  throttleCount q := (s.cfs q).throttleCount
  limited q := (s.cfs q).runtime.runtimeEnabled
  capped q := decide ((s.pools q).quota ≠ runtimeInf)
  total := s.nrRunning
  rootLoad := s.load.weight
  tasks := s.cfsTasks
  running := s.curr

variable {g : Groups} {t : FairTunables} {s : FairRq} {q : Nat} {e : Ent}

section Fields

variable (f : FairEntity → FairEntity) (k : FairCfsRq → FairCfsRq)

@[simp] theorem setSe_ses_self : (s.setSe e f).ses e = f (s.ses e) := Function.update_self ..

@[simp] theorem setSe_cfs : (s.setSe e f).cfs = s.cfs := rfl

@[simp] theorem setCfs_ses : (s.setCfs q k).ses = s.ses := rfl

@[simp] theorem setCfs_cfs_self : (s.setCfs q k).cfs q = k (s.cfs q) := Function.update_self ..

theorem setCfs_cfs_of_ne {c : Nat} (h : c ≠ q) : (s.setCfs q k).cfs c = s.cfs c :=
  Function.update_of_ne h ..

theorem setSe_ses_of_ne {x : Ent} (h : x ≠ e) : (s.setSe e f).ses x = s.ses x :=
  Function.update_of_ne h ..

@[simp] theorem stray_ses (far : Bool) : (s.stray far).ses = s.ses := rfl

@[simp] theorem stray_cfs (far : Bool) : (s.stray far).cfs = s.cfs := rfl

theorem setSe_ses (x : Ent) :
    (s.setSe e f).ses x = if x = e then f (s.ses x) else s.ses x := by
  by_cases h : x = e
  · subst h
    simp
  · rw [setSe_ses_of_ne f h, if_neg h]

theorem setCfs_cfs (c : Nat) :
    (s.setCfs q k).cfs c = if c = q then k (s.cfs c) else s.cfs c := by
  by_cases h : c = q
  · subst h
    simp
  · rw [setCfs_cfs_of_ne k h, if_neg h]

end Fields

/-- An entity keeps its shape when it stays on or off its queue with its weight. -/
theorem shape_setSe {f : FairEntity → FairEntity} (hon : ∀ x, (f x).onRq = x.onRq)
    (hw : ∀ x, (f x).load.weight = x.load.weight) : (s.setSe e f).shape g t = s.shape g t := by
  have hses : ∀ x, ((s.setSe e f).ses x).onRq = (s.ses x).onRq ∧
      ((s.setSe e f).ses x).load.weight = (s.ses x).load.weight := by
    intro x
    rw [setSe_ses]
    split
    · exact ⟨hon _, hw _⟩
    · exact ⟨rfl, rfl⟩
  simp only [shape, hses, setSe_cfs]
  rfl

/-- The shape after a change of one queue, field by field. -/
theorem shape_setCfs_eq (k : FairCfsRq → FairCfsRq) : (s.setCfs q k).shape g t =
    { s.shape g t with
      timeline := Function.update (s.shape g t).timeline q (k (s.cfs q)).timeline
      curr := Function.update (s.shape g t).curr q (k (s.cfs q)).curr
      next := Function.update (s.shape g t).next q (k (s.cfs q)).next
      last := Function.update (s.shape g t).last q (k (s.cfs q)).last
      load := Function.update (s.shape g t).load q (k (s.cfs q)).load.weight
      nrRunning := Function.update (s.shape g t).nrRunning q (k (s.cfs q)).nrRunning
      hNrRunning := Function.update (s.shape g t).hNrRunning q (k (s.cfs q)).hNrRunning
      throttled := Function.update (s.shape g t).throttled q
        (t.cfsBandwidthUsed && (k (s.cfs q)).throttled)
      throttleCount := Function.update (s.shape g t).throttleCount q (k (s.cfs q)).throttleCount
      limited := Function.update (s.shape g t).limited q (k (s.cfs q)).runtime.runtimeEnabled } := by
  have hfield : ∀ {α : Type} (f : FairCfsRq → α),
      (fun c => f ((s.setCfs q k).cfs c)) = Function.update (fun c => f (s.cfs c)) q (f (k (s.cfs q))) := by
    intro α f
    funext c
    by_cases hc : c = q
    · subst hc
      simp
    · rw [setCfs_cfs_of_ne k hc, Function.update_of_ne hc]
  simp only [shape, cfsRqThrottled, hfield, hfield (fun c => c.load.weight),
    hfield (fun c => t.cfsBandwidthUsed && c.throttled), hfield (fun c => c.runtime.runtimeEnabled)]
  rfl

/-- A queue keeps its shape when only its times and runtimes change. -/
theorem shape_setCfs {k : FairCfsRq → FairCfsRq}
    (hk : k (s.cfs q) = { s.cfs q with
      minVruntime := (k (s.cfs q)).minVruntime
      skip := (k (s.cfs q)).skip
      runtime := { (k (s.cfs q)).runtime with runtimeEnabled := (s.cfs q).runtime.runtimeEnabled }
      throttledClock := (k (s.cfs q)).throttledClock
      throttledClockTask := (k (s.cfs q)).throttledClockTask
      throttledClockTaskTime := (k (s.cfs q)).throttledClockTaskTime }) :
    (s.setCfs q k).shape g t = s.shape g t := by
  rw [shape_setCfs_eq, hk]
  simp only [shape, cfsRqThrottled, Function.update_eq_self]

@[simp] theorem shape_reschedCurr : s.reschedCurr.shape g t = s.shape g t := rfl

@[simp] theorem shape_stray (far : Bool) : (s.stray far).shape g t = s.shape g t := rfl

theorem shape_pools {b : CfsBandwidth} (hb : b.quota = (s.pools q).quota) :
    { s with pools := Function.update s.pools q b }.shape g t = s.shape g t := by
  have hcapped : (fun c => decide ((Function.update s.pools q b c).quota ≠ runtimeInf)) =
      fun c => decide ((s.pools c).quota ≠ runtimeInf) := by
    funext c
    by_cases hc : c = q
    · subst hc
      rw [Function.update_self, hb]
    · rw [Function.update_of_ne hc]
  simp only [shape, cfsRqThrottled, hcapped]
  rfl

/-- Runtime moves between the pool and the queue. -/
theorem shape_setRuntime {r : CfsBandwidth × CfsRuntime} (hquota : r.1.quota = (s.pools q).quota)
    (henabled : r.2.runtimeEnabled = (s.cfs q).runtime.runtimeEnabled) :
    { s.setCfs q (fun c => { c with runtime := r.2 }) with
      pools := Function.update s.pools q r.1 }.shape g t = s.shape g t := by
  refine (shape_pools (s := s.setCfs q (fun c => { c with runtime := r.2 })) hquota).trans ?_
  apply shape_setCfs
  rw [← henabled]

@[simp] theorem shape_updateMinVruntime : (s.updateMinVruntime q).shape g t = s.shape g t := by
  simp only [updateMinVruntime, shape_stray]
  exact shape_setCfs rfl

@[simp] theorem shape_accountCfsRqRuntime (deltaExec : Nat) :
    (s.accountCfsRqRuntime t q deltaExec).shape g t = s.shape g t := by
  obtain ⟨hquota, henabled⟩ := chargeCfsRqRuntime_same t.cfsBandwidthSlice t.tickNsec s.clock
    deltaExec (s.pools q) (s.cfs q).runtime
  have hcharge := shape_setRuntime (g := g) (t := t) hquota henabled
  simp only [accountCfsRqRuntime]
  split
  · split
    · exact hcharge
    · exact hcharge
  · rfl

@[simp] theorem shape_updateCurr : (s.updateCurr t q).shape g t = s.shape g t := by
  simp only [updateCurr]
  split
  · rfl
  · split
    · rfl
    · rw [shape_accountCfsRqRuntime, shape_updateMinVruntime]
      exact shape_setSe (fun _ => rfl) (fun _ => rfl)

@[simp] theorem shape_placeEntity (initial : Bool) :
    (s.placeEntity g t q e initial).shape g t = s.shape g t := by
  simp only [placeEntity]
  exact shape_setSe (fun _ => rfl) (fun _ => rfl)

@[simp] theorem shape_returnCfsRqRuntime : (s.returnCfsRqRuntime t q).shape g t = s.shape g t := by
  obtain ⟨hquota, henabled⟩ := giveBackCfsRqRuntime_same (s.pools q) (s.cfs q).runtime
  simp only [returnCfsRqRuntime]
  split
  · exact shape_setRuntime hquota henabled
  · rfl

@[simp] theorem shape_listAddLeafCfsRq : (s.listAddLeafCfsRq g q).shape g t = s.shape g t := by
  simp only [listAddLeafCfsRq]
  split
  · rfl
  · split
    · rfl
    · split
      · rfl
      · rfl

theorem calcCfsShares_pos (r : ShareInputs) (weight : Nat) : 0 < calcCfsShares r weight := by
  have hclamp : ∀ x, 0 < if (if x < 2 then 2 else x) > r.shares then r.shares
      else if x < 2 then 2 else x := by
    intro x
    have hr := r.shares_pos
    split_ifs <;> omega
  exact hclamp _

section Accounts

theorem shape_accountEntityDequeue : (s.accountEntityDequeue q e).shape g t =
    { s.shape g t with
      load := Function.update (s.shape g t).load q ((s.shape g t).load q - (s.shape g t).weight e)
      nrRunning := Function.update (s.shape g t).nrRunning q ((s.shape g t).nrRunning q - 1)
      rootLoad := if q = 0 then (s.shape g t).rootLoad - (s.shape g t).weight e
        else (s.shape g t).rootLoad
      tasks := Shape.tasksWithout (s.shape g t).tasks e } := by
  have hacc : (s.accountEntityDequeue q e).shape g t =
      { (s.setCfs q (fun c => { c with
          load := c.load.sub (s.ses e).load.weight
          nrRunning := c.nrRunning - 1 })).shape g t with
        rootLoad := if q = 0 then s.load.weight - (s.ses e).load.weight else s.load.weight
        tasks := (s.accountEntityDequeue q e).cfsTasks } := by
    by_cases hq : q = 0
    · simp only [accountEntityDequeue, shape, hq, if_true]
      rfl
    · simp only [accountEntityDequeue, shape, hq, if_false]
      rfl
  rw [hacc, shape_setCfs_eq]
  simp only [shape, cfsRqThrottled, Function.update_eq_self]
  rfl

theorem shape_accountEntityEnqueue : (s.accountEntityEnqueue q e).shape g t =
    { s.shape g t with
      load := Function.update (s.shape g t).load q ((s.shape g t).load q + (s.shape g t).weight e)
      nrRunning := Function.update (s.shape g t).nrRunning q ((s.shape g t).nrRunning q + 1)
      rootLoad := if q = 0 then (s.shape g t).rootLoad + (s.shape g t).weight e
        else (s.shape g t).rootLoad
      tasks := Shape.tasksWith (s.shape g t).tasks e } := by
  have hacc : (s.accountEntityEnqueue q e).shape g t =
      { (s.setCfs q (fun c => { c with
          load := c.load.add (s.ses e).load.weight
          nrRunning := c.nrRunning + 1 })).shape g t with
        rootLoad := if q = 0 then s.load.weight + (s.ses e).load.weight else s.load.weight
        tasks := (s.accountEntityEnqueue q e).cfsTasks } := by
    by_cases hq : q = 0
    · simp only [accountEntityEnqueue, shape, hq, if_true]
      rfl
    · simp only [accountEntityEnqueue, shape, hq, if_false]
      rfl
  rw [hacc, shape_setCfs_eq]
  simp only [shape, cfsRqThrottled, Function.update_eq_self]
  rfl

/-- The shape after a change of one entity that keeps its place. -/
theorem shape_setSe_eq (f : FairEntity → FairEntity) : (s.setSe e f).shape g t =
    { s.shape g t with
      onRq := Function.update (s.shape g t).onRq e (f (s.ses e)).onRq
      weight := Function.update (s.shape g t).weight e (f (s.ses e)).load.weight } := by
  have hfield : ∀ {α : Type} (k : FairEntity → α),
      (fun x => k ((s.setSe e f).ses x)) = Function.update (fun x => k (s.ses x)) e (k (f (s.ses e))) := by
    intro α k
    funext x
    by_cases hx : x = e
    · subst hx
      simp
    · rw [setSe_ses_of_ne f hx, Function.update_of_ne hx]
  simp only [shape, hfield, hfield (fun x => x.load.weight)]
  rfl

theorem shape_setSe_weight (w : Nat) :
    (s.setSe e (fun se => { se with load := .set w })).shape g t =
      { s.shape g t with weight := Function.update (s.shape g t).weight e w } := by
  rw [shape_setSe_eq]
  simp only [shape, cfsRqThrottled, Function.update_eq_self]
  rfl

theorem shape_setSe_onRq (b : Bool) :
    (s.setSe e (fun se => { se with onRq := b })).shape g t =
      { s.shape g t with onRq := Function.update (s.shape g t).onRq e b } := by
  rw [shape_setSe_eq]
  simp only [shape, cfsRqThrottled, Function.update_eq_self]

/-- Reweighing takes the entity out of the account and puts it back. -/
theorem shape_reweightEntity {c w : Nat} (hq : g.parent c = q)
    (hnr : (s.shape g t).onRq (.group c) = true → 0 < (s.shape g t).nrRunning q) :
    (s.reweightEntity t q (.group c) w).shape g t = (s.shape g t).reweigh (.group c) w := by
  have hhome : (s.shape g t).home (.group c) = q := hq
  by_cases hon : (s.ses (.group c)).onRq = true
  · have hmid : (if (s.cfs q).curr = some (Ent.group c) then s.updateCurr t q else s).shape g t =
        s.shape g t := by
      split
      · exact shape_updateCurr
      · rfl
    have hshape : (s.shape g t).onRq (.group c) = true := hon
    have hback : (s.shape g t).nrRunning q - 1 + 1 = (s.shape g t).nrRunning q := by
      have := hnr hon
      omega
    simp only [reweightEntity, hon, if_true, shape_accountEntityEnqueue, shape_setSe_weight,
      shape_accountEntityDequeue, hmid, Shape.reweigh, hshape, hhome, Function.update_idem,
      Function.update_self, hback, Function.update_eq_self, true_and, Shape.tasksWith,
      Shape.tasksWithout]
    by_cases h0 : q = 0
    · simp only [h0, if_true]
    · simp only [h0, if_false]
  · have hshape : (s.shape g t).onRq (.group c) = false := by simpa [shape] using hon
    simp only [reweightEntity, hon, Bool.false_eq_true, if_false, shape_setSe_weight, Shape.reweigh,
      hshape, false_and]

/-- `update_cfs_shares` reweighs the entity of a group, with a weight that is not zero. -/
theorem shape_updateCfsShares_of (hw : ∀ x, 0 < (s.shape g t).weight x)
    (hself : (s.shape g t).reweigh e ((s.shape g t).weight e) = s.shape g t)
    (hnr : (s.shape g t).onRq e = true → 0 < (s.shape g t).nrRunning ((s.shape g t).home e)) :
    ∃ w, 0 < w ∧ (s.updateCfsShares g t e).shape g t = (s.shape g t).reweigh e w := by
  cases e with
  | task p => exact ⟨_, hw _, hself.symm⟩
  | group c =>
    by_cases hth : s.throttledHierarchy t c = true
    · exact ⟨_, hw _, by simpa only [updateCfsShares, hth, if_true] using hself.symm⟩
    · refine ⟨calcCfsShares (s.inputs c) (s.cfs c).load.weight, calcCfsShares_pos _ _, ?_⟩
      simp only [updateCfsShares, hth]
      exact shape_reweightEntity rfl hnr

theorem shape_updateCfsShares (h : (s.shape g t).Queues) (e : Ent) :
    ∃ w, 0 < w ∧ (s.updateCfsShares g t e).shape g t = (s.shape g t).reweigh e w :=
  shape_updateCfsShares_of h.weight_pos (Shape.reweigh_self h e) h.nr_pos

theorem shape_updateCfsShares_off (hw : ∀ x, 0 < (s.shape g t).weight x)
    (hoff : (s.shape g t).onRq e = false) :
    ∃ w, 0 < w ∧ (s.updateCfsShares g t e).shape g t = (s.shape g t).reweigh e w :=
  shape_updateCfsShares_of hw (Shape.reweigh_self_off hoff)
    (fun hon => absurd hon (by simp [hoff]))

end Accounts

theorem perm_enqueueTimeline (v : Ent → Int) (e : Ent) (tl : List Ent) :
    (enqueueTimeline v e tl).Perm (e :: tl) := by
  induction tl with
  | nil => exact List.Perm.refl _
  | cons x tl ih =>
    simp only [enqueueTimeline]
    split
    · exact List.Perm.refl _
    · exact (ih.cons x).trans (List.Perm.swap e x tl)

theorem shape_linkEntity : (s.linkEntity q e).shape g t =
    { s.shape g t with
      timeline := Function.update (s.shape g t).timeline q
        (enqueueTimeline s.vruntime e ((s.shape g t).timeline q)) } := by
  simp only [linkEntity, shape_stray, shape_setCfs_eq]
  simp only [shape, cfsRqThrottled, Function.update_eq_self]

theorem shape_unlinkEntity : (s.unlinkEntity q e).shape g t =
    { s.shape g t with
      timeline := Function.update (s.shape g t).timeline q (((s.shape g t).timeline q).erase e) } := by
  simp only [unlinkEntity, shape_setCfs_eq]
  simp only [shape, cfsRqThrottled, Function.update_eq_self]

/-- `enqueue_entity` up to its last test: the entity is reweighed and joins. -/
theorem shape_joinEntity (hw : ∀ x, 0 < (s.shape g t).weight x) (hq : (s.shape g t).home e = q)
    (hoff : (s.shape g t).onRq e = false) (flags : EnqueueFlags) :
    ∃ w tl, 0 < w ∧ tl.Perm (e :: (s.shape g t).timeline q) ∧
      (s.joinEntity g t q e flags).shape g t = ((s.shape g t).reweigh e w).join e tl := by
  simp only [joinEntity]
  set add := fun (s : FairRq) =>
    s.setSe e (fun se => { se with vruntime := se.vruntime + (s.cfs q).minVruntime })
  have hadd : ∀ (s : FairRq), (add s).shape g t = s.shape g t :=
    fun _ => shape_setSe (fun _ => rfl) (fun _ => rfl)
  set renorm := !flags.wakeup || flags.migrated
  set curr := decide ((s.cfs q).curr = some e) with hcurr
  set s₁ := if renorm && curr then add s else s
  set s₂ := if renorm && !curr then add (s₁.updateCurr t q) else s₁.updateCurr t q
  have hs₁ : s₁.shape g t = s.shape g t := by
    simp only [s₁]
    split
    · exact hadd s
    · rfl
  have hs₂ : s₂.shape g t = s.shape g t := by
    simp only [s₂]
    split
    · rw [hadd, shape_updateCurr, hs₁]
    · rw [shape_updateCurr, hs₁]
  have hoff₂ : (s₂.shape g t).onRq e = false := by rwa [hs₂]
  obtain ⟨w, hwpos, hw₂⟩ := shape_updateCfsShares_off (t := t) (by rwa [hs₂]) hoff₂
  set s₃ := (s₂.updateCfsShares g t e).accountEntityEnqueue q e
  set s₄ := if flags.wakeup then s₃.placeEntity g t q e false else s₃
  have hs₃ : s₄.shape g t = s₃.shape g t := by
    simp only [s₄]
    split
    · exact shape_placeEntity false
    · rfl
  have hcurr' : curr = decide ((s.shape g t).curr q = some e) := hcurr
  refine ⟨w, enqueueTimeline s₄.vruntime e ((s.shape g t).timeline q), hwpos,
    perm_enqueueTimeline _ _ _, ?_⟩
  by_cases hc : (s.shape g t).curr q = some e
  · simp only [hcurr', hc, decide_true, if_true, shape_setSe_onRq, hs₃, s₃,
      shape_accountEntityEnqueue, hw₂, hs₂, Shape.join, Shape.reweigh, hq, hoff, Bool.false_eq_true,
      if_false, false_and]
  · simp only [hcurr', hc, decide_false, Bool.false_eq_true, if_false, shape_setSe_onRq,
      shape_linkEntity, hs₃, s₃, shape_accountEntityEnqueue, hw₂, hs₂, Shape.join, Shape.reweigh, hq,
      hoff, false_and]

section Buddies

@[simp] theorem cfsRqOf_setCfs (k : FairCfsRq → FairCfsRq) (x : Ent) :
    (s.setCfs q k).cfsRqOf g x = s.cfsRqOf g x := by
  cases x <;> rfl

@[simp] theorem cfsRqOf_cfs (cfs : Nat → FairCfsRq) (x : Ent) :
    { s with cfs := cfs }.cfsRqOf g x = s.cfsRqOf g x := by
  cases x <;> rfl

/-- The queues differ from those of the state in their buddies only. -/
def OnlyBuddies (s : FairRq) (cfs : Nat → FairCfsRq) : Prop :=
  ∀ c, cfs c = { s.cfs c with next := (cfs c).next, last := (cfs c).last, skip := (cfs c).skip }

theorem OnlyBuddies.shape {cfs : Nat → FairCfsRq} (h : s.OnlyBuddies cfs) :
    { s with cfs := cfs }.shape g t =
      { s.shape g t with next := fun c => (cfs c).next, last := fun c => (cfs c).last } := by
  have hfield : ∀ {α : Type} (f : FairCfsRq → α),
      (∀ c (next last skip : Option Ent), f { c with next, last, skip } = f c) →
        (fun c => f (cfs c)) = fun c => f (s.cfs c) := by
    intro α f hf
    funext c
    rw [h c, hf]
  simp only [FairRq.shape, cfsRqThrottled, hfield (·.timeline) (fun _ _ _ _ => rfl),
    hfield (·.curr) (fun _ _ _ _ => rfl), hfield (·.load.weight) (fun _ _ _ _ => rfl),
    hfield (·.nrRunning) (fun _ _ _ _ => rfl), hfield (·.hNrRunning) (fun _ _ _ _ => rfl),
    hfield (fun c => t.cfsBandwidthUsed && c.throttled) (fun _ _ _ _ => rfl),
    hfield (·.throttleCount) (fun _ _ _ _ => rfl),
    hfield (fun c => c.runtime.runtimeEnabled) (fun _ _ _ _ => rfl)]
  rfl

/-- Clearing upwards clears the queues it meets and leaves the others. -/
theorem clearUp_eq (get : FairCfsRq → Option Ent) (clear : FairCfsRq → FairCfsRq)
    (hclear : ∀ c, clear (clear c) = clear c) (es : List Ent) :
    ∃ cfs, (∀ c, cfs c = s.cfs c ∨ cfs c = clear (s.cfs c)) ∧
      s.clearUp g get clear es = { s with cfs := cfs } := by
  induction es generalizing s with
  | nil => exact ⟨_, fun _ => .inl rfl, rfl⟩
  | cons x es ih =>
    simp only [clearUp]
    split
    · obtain ⟨cfs, hcfs, heq⟩ := ih (s := s.setCfs (s.cfsRqOf g x) clear)
      refine ⟨cfs, fun c => ?_, heq⟩
      have := hcfs c
      rw [setCfs_cfs] at this
      split at this
      · rw [hclear] at this
        exact .inr (this.elim id id)
      · exact this
    · exact ⟨_, fun _ => .inl rfl, rfl⟩

/-- An entity that is the buddy of its queue is forgotten there. -/
theorem clearUp_head (get : FairCfsRq → Option Ent) (clear : FairCfsRq → FairCfsRq)
    (hclear : ∀ c, clear (clear c) = clear c) (es : List Ent)
    (hget : get (s.cfs (s.cfsRqOf g e)) = some e) :
    (s.clearUp g get clear (e :: es)).cfs (s.cfsRqOf g e) = clear (s.cfs (s.cfsRqOf g e)) := by
  simp only [clearUp, hget, if_true]
  obtain ⟨cfs, hcfs, heq⟩ := clearUp_eq (g := g) get clear hclear es
    (s := s.setCfs (s.cfsRqOf g e) clear)
  rw [heq]
  have := hcfs (s.cfsRqOf g e)
  rw [setCfs_cfs_self, hclear] at this
  exact this.elim id id

/-- One of the three parts of `clear_buddies`. -/
theorem clearBuddy (get : FairCfsRq → Option Ent) (clear : FairCfsRq → FairCfsRq)
    (hclear : ∀ c, clear (clear c) = clear c) (hnone : ∀ c, get (clear c) = none)
    (hq : s.cfsRqOf g e = q) :
    ∃ cfs, (∀ c, cfs c = s.cfs c ∨ cfs c = clear (s.cfs c)) ∧ get (cfs q) ≠ some e ∧
      (if get (s.cfs q) = some e then s.clearUp g get clear (s.path g e) else s) =
        { s with cfs := cfs } := by
  by_cases hget : get (s.cfs q) = some e
  · subst hq
    obtain ⟨cfs, hcfs, heq⟩ := clearUp_eq (g := g) get clear hclear (s.path g e) (s := s)
    have hhead := clearUp_head get clear hclear (g.entities (s.cfsRqOf g e)) hget
    refine ⟨cfs, hcfs, ?_, by rw [if_pos hget, heq]⟩
    rw [← path, heq] at hhead
    dsimp only at hhead
    rw [hhead, hnone]
    exact nofun
  · exact ⟨s.cfs, fun _ => .inl rfl, hget, if_neg hget⟩

/-- `clear_buddies` only forgets, and at least the entity on its own queue. -/
theorem clearBuddies_eq (hq : s.cfsRqOf g e = q) :
    ∃ cfs, s.OnlyBuddies cfs ∧ (∀ c, (cfs c).next = (s.cfs c).next ∨ (cfs c).next = none) ∧
      (∀ c, (cfs c).last = (s.cfs c).last ∨ (cfs c).last = none) ∧ (cfs q).next ≠ some e ∧
      (cfs q).last ≠ some e ∧ s.clearBuddies g q e = { s with cfs := cfs } := by
  obtain ⟨cfs₁, h₁, hlast, heq₁⟩ := clearBuddy (fun c => c.last) (fun c => { c with last := none })
    (s := s) (fun _ => rfl) (fun _ => rfl) hq
  obtain ⟨cfs₂, h₂, hnext, heq₂⟩ := clearBuddy (fun c => c.next) (fun c => { c with next := none })
    (s := { s with cfs := cfs₁ }) (fun _ => rfl) (fun _ => rfl) ((cfsRqOf_cfs cfs₁ e).trans hq)
  obtain ⟨cfs₃, h₃, -, heq₃⟩ := clearBuddy (fun c => c.skip) (fun c => { c with skip := none })
    (s := { s with cfs := cfs₂ }) (fun _ => rfl) (fun _ => rfl) ((cfsRqOf_cfs cfs₂ e).trans hq)
  have hnext₃ : ∀ c, (cfs₃ c).next = (cfs₂ c).next := fun c => by rcases h₃ c with h | h <;> rw [h]
  have hlast₃ : ∀ c, (cfs₃ c).last = (cfs₁ c).last := fun c => by
    rcases h₃ c with h | h <;> rcases h₂ c with h' | h' <;> rw [h] <;> simp [h']
  have honly : s.OnlyBuddies cfs₃ := fun c => by
    rcases h₃ c with h | h <;> rcases h₂ c with h' | h' <;> rcases h₁ c with h'' | h'' <;>
      rw [h] <;> simp [h', h'']
  refine ⟨cfs₃, honly, fun c => ?_, fun c => ?_, ?_, ?_, ?_⟩
  · rw [hnext₃]
    rcases h₂ c with h | h <;> rcases h₁ c with h' | h' <;> simp [h, h']
  · rw [hlast₃]
    rcases h₁ c with h | h <;> simp [h]
  · rw [hnext₃]
    exact hnext
  · rw [hlast₃]
    exact hlast
  · simp only [clearBuddies]
    rw [heq₁, heq₂, heq₃]

theorem shape_clearBuddies (hq : s.cfsRqOf g e = q) :
    ∃ next last, (s.shape g t).Forgets next last ∧ next q ≠ some e ∧ last q ≠ some e ∧
      (s.clearBuddies g q e).shape g t = { s.shape g t with next := next, last := last } := by
  obtain ⟨cfs, honly, hnext, hlast, hnextq, hlastq, heq⟩ := clearBuddies_eq hq
  exact ⟨fun c => (cfs c).next, fun c => (cfs c).last, ⟨hnext, hlast⟩, hnextq, hlastq, by
    rw [heq, honly.shape]⟩

/-- Setting buddies upwards puts entities of the path on their own queues. -/
theorem setBuddies_eq (set : Ent → FairCfsRq → FairCfsRq)
    (hset : ∀ x y c, set x (set y c) = set x c) (es : List Ent) :
    ∃ cfs, (∀ c, cfs c = s.cfs c ∨ ∃ x ∈ es, s.cfsRqOf g x = c ∧ cfs c = set x (s.cfs c)) ∧
      s.setBuddies g set es = { s with cfs := cfs } := by
  induction es generalizing s with
  | nil => exact ⟨_, fun _ => .inl rfl, rfl⟩
  | cons y es ih =>
    simp only [setBuddies]
    obtain ⟨cfs, hcfs, heq⟩ := ih (s := s.setCfs (s.cfsRqOf g y) (set y))
    refine ⟨cfs, fun c => ?_, heq⟩
    rcases hcfs c with hc | ⟨x, hx, hxc, hc⟩
    · by_cases hyc : c = s.cfsRqOf g y
      · subst hyc
        exact .inr ⟨y, List.mem_cons_self, rfl, by rw [hc, setCfs_cfs_self]⟩
      · exact .inl (by rw [hc, setCfs_cfs_of_ne _ hyc])
    · rw [cfsRqOf_setCfs] at hxc
      refine .inr ⟨x, List.mem_cons_of_mem _ hx, hxc, ?_⟩
      rw [hc, setCfs_cfs]
      split
      · exact hset x y _
      · rfl

/-- The buddies after `set_next_buddy`: old ones, or the entities of the path. -/
theorem shape_setNextBuddy (e : Ent) : ∃ next,
    (∀ q x, next q = some x → (s.shape g t).next q = some x ∨ (x ∈ s.path g e ∧ s.cfsRqOf g x = q)) ∧
      (s.setNextBuddy g e).shape g t = { s.shape g t with next := next } := by
  simp only [setNextBuddy]
  split
  · exact ⟨_, fun _ _ h => .inl h, rfl⟩
  · obtain ⟨cfs, hcfs, heq⟩ := setBuddies_eq (g := g) (s := s)
      (fun e c => { c with next := some e }) (fun _ _ _ => rfl) (s.path g e)
    have honly : s.OnlyBuddies cfs := fun c => by
      rcases hcfs c with h | ⟨x, -, -, h⟩ <;> rw [h]
    have hlast : (fun c => (cfs c).last) = (s.shape g t).last := by
      funext c
      rcases hcfs c with h | ⟨x, -, -, h⟩ <;> rw [h] <;> rfl
    refine ⟨fun c => (cfs c).next, fun q x (hx : (cfs q).next = some x) => ?_, by rw [heq, honly.shape, hlast]⟩
    rcases hcfs q with h | ⟨y, hy, hyq, h⟩
    · rw [h] at hx
      exact .inl hx
    · rw [h, Option.some.injEq] at hx
      exact .inr ⟨hx ▸ hy, hx ▸ hyq⟩

theorem shape_setLastBuddy (e : Ent) : ∃ last,
    (∀ q x, last q = some x → (s.shape g t).last q = some x ∨ (x ∈ s.path g e ∧ s.cfsRqOf g x = q)) ∧
      (s.setLastBuddy g e).shape g t = { s.shape g t with last := last } := by
  simp only [setLastBuddy]
  split
  · exact ⟨_, fun _ _ h => .inl h, rfl⟩
  · obtain ⟨cfs, hcfs, heq⟩ := setBuddies_eq (g := g) (s := s)
      (fun e c => { c with last := some e }) (fun _ _ _ => rfl) (s.path g e)
    have honly : s.OnlyBuddies cfs := fun c => by
      rcases hcfs c with h | ⟨x, -, -, h⟩ <;> rw [h]
    have hnext : (fun c => (cfs c).next) = (s.shape g t).next := by
      funext c
      rcases hcfs c with h | ⟨x, -, -, h⟩ <;> rw [h] <;> rfl
    refine ⟨fun c => (cfs c).last, fun q x (hx : (cfs q).last = some x) => ?_, by rw [heq, honly.shape, hnext]⟩
    rcases hcfs q with h | ⟨y, hy, hyq, h⟩
    · rw [h] at hx
      exact .inl hx
    · rw [h, Option.some.injEq] at hx
      exact .inr ⟨hx ▸ hy, hx ▸ hyq⟩

theorem shape_setSkipBuddy (e : Ent) : (s.setSkipBuddy g e).shape g t = s.shape g t := by
  simp only [setSkipBuddy]
  obtain ⟨cfs, hcfs, heq⟩ := setBuddies_eq (g := g) (s := s)
      (fun e c => { c with skip := some e }) (fun _ _ _ => rfl) (s.path g e)
  have honly : s.OnlyBuddies cfs := fun c => by
    rcases hcfs c with h | ⟨x, -, -, h⟩ <;> rw [h]
  have hnext : (fun c => (cfs c).next) = (s.shape g t).next := by
    funext c
    rcases hcfs c with h | ⟨x, -, -, h⟩ <;> rw [h] <;> rfl
  have hlast : (fun c => (cfs c).last) = (s.shape g t).last := by
    funext c
    rcases hcfs c with h | ⟨x, -, -, h⟩ <;> rw [h] <;> rfl
  rw [heq, honly.shape, hnext, hlast]

end Buddies

/-- `dequeue_entity`: buddies are forgotten, the entity leaves and is reweighed. -/
theorem shape_dequeueEntity (hw : ∀ x, 0 < (s.shape g t).weight x) (hq : (s.shape g t).home e = q)
    (flags : DequeueFlags) :
    ∃ next last w, (s.shape g t).Forgets next last ∧ next q ≠ some e ∧ last q ≠ some e ∧ 0 < w ∧
      (s.dequeueEntity g t q e flags).shape g t =
        ({ s.shape g t with next := next, last := last }.leave e).reweigh e w := by
  simp only [dequeueEntity]
  set s₁ := s.updateCurr t q
  have hs₁ : s₁.shape g t = s.shape g t := shape_updateCurr
  obtain ⟨next, last, hforget, hnext, hlast, hs₂⟩ :=
    shape_clearBuddies (s := s₁) (g := g) (e := e) (q := q) (congrFun (congrArg Shape.home hs₁) e |>.trans hq)
  rw [hs₁] at hforget hs₂
  set s₂ := s₁.clearBuddies g q e
  set s₃ := if (s₂.cfs q).curr = some e then s₂ else s₂.unlinkEntity q e
  set s₄ := (s₃.setSe e (fun se => { se with onRq := false })).accountEntityDequeue q e
  set s₅ := if flags.sleep then s₄
    else s₄.setSe e (fun se => { se with vruntime := se.vruntime - (s₄.cfs q).minVruntime })
  have hs₅ : s₅.shape g t = s₄.shape g t := by
    simp only [s₅]
    split
    · rfl
    · exact shape_setSe (fun _ => rfl) (fun _ => rfl)
  have hs₄ : s₄.shape g t = { s.shape g t with next := next, last := last }.leave e := by
    have hcurr : (s₂.cfs q).curr = (s.shape g t).curr q := congrFun (congrArg Shape.curr hs₂) q
    by_cases hc : (s.shape g t).curr q = some e
    · have hs₃ : s₃ = s₂ := if_pos (hcurr.trans hc)
      simp only [s₄, hs₃, shape_accountEntityDequeue, shape_setSe_onRq, hs₂, Shape.leave, hq, hc,
        if_true]
    · have hs₃ : s₃ = s₂.unlinkEntity q e := if_neg (by rwa [hcurr])
      simp only [s₄, hs₃, shape_accountEntityDequeue, shape_setSe_onRq, shape_unlinkEntity, hs₂,
        Shape.leave, hq, hc, if_false]
  have hs₆ : (s₅.returnCfsRqRuntime t q).shape g t = { s.shape g t with next := next, last := last }.leave e := by
    rw [shape_returnCfsRqRuntime, hs₅, hs₄]
  obtain ⟨w, hwpos, hs₇⟩ := shape_updateCfsShares_off (t := t) (g := g) (e := e)
    (s := s₅.returnCfsRqRuntime t q) (by rw [hs₆]; exact hw)
    (by rw [hs₆]; exact Function.update_self ..)
  refine ⟨next, last, w, hforget, hnext, hlast, hwpos, ?_⟩
  split
  · rw [shape_updateMinVruntime, hs₇, hs₆]
  · rw [hs₇, hs₆]

theorem shape_setCfs_curr (curr : Option Ent) :
    (s.setCfs q (fun c => { c with curr := curr })).shape g t =
      { s.shape g t with curr := Function.update (s.shape g t).curr q curr } := by
  rw [shape_setCfs_eq]
  simp only [shape, cfsRqThrottled, Function.update_eq_self]

theorem shape_setCfs_hNrRunning (f : Nat → Nat) :
    (s.setCfs q (fun c => { c with hNrRunning := f c.hNrRunning })).shape g t =
      { s.shape g t with
        hNrRunning := Function.update (s.shape g t).hNrRunning q (f ((s.shape g t).hNrRunning q)) } := by
  rw [shape_setCfs_eq]
  simp only [shape, cfsRqThrottled, Function.update_eq_self]

theorem shape_setNextEntity (hq : (s.shape g t).home e = q) :
    (s.setNextEntity q e).shape g t = (s.shape g t).hold e := by
  simp only [setNextEntity]
  refine Eq.trans (shape_setSe ?_ ?_) ?_
  · exact fun _ => rfl
  · exact fun _ => rfl
  rw [shape_setCfs_curr]
  by_cases hon : (s.ses e).onRq = true
  · have hshape : (s.shape g t).onRq e = true := hon
    simp only [hon, if_true, shape_unlinkEntity, Shape.hold, hshape, hq]
  · have hshape : (s.shape g t).onRq e = false := by simpa [shape] using hon
    simp only [hon, if_false, Shape.hold, hshape, hq, Bool.false_eq_true]

/-- `put_prev_entity` from its last step back to the throttling. -/
theorem shape_linkPrev (hq : (s.shape g t).home e = q) :
    ∃ tl, tl.Perm (e :: (s.shape g t).timeline q) ∧
      ((if (s.ses e).onRq then s.linkEntity q e else s).setCfs q
        (fun c => { c with curr := none })).shape g t = (s.shape g t).release e tl := by
  refine ⟨_, perm_enqueueTimeline s.vruntime e _, ?_⟩
  rw [shape_setCfs_curr]
  by_cases hon : (s.ses e).onRq = true
  · have hshape : (s.shape g t).onRq e = true := hon
    simp only [hon, if_true, shape_linkEntity, Shape.release, hshape, hq]
  · have hshape : (s.shape g t).onRq e = false := by simpa [shape] using hon
    simp only [hon, if_false, Shape.release, hshape, hq, Bool.false_eq_true]

/-- The walks over the groups below move the throttle counts. -/
theorem shape_walkTgTree {f : FairCfsRq → FairCfsRq} {k : Nat → Nat}
    (hf : ∀ c, f c = { c with
      throttleCount := k c.throttleCount
      throttledClockTask := (f c).throttledClockTask
      throttledClockTaskTime := (f c).throttledClockTaskTime }) :
    (s.walkTgTree g q f).shape g t =
      { s.shape g t with
        throttleCount := fun c => if q ∈ g.above c then k ((s.shape g t).throttleCount c)
          else (s.shape g t).throttleCount c } := by
  have hfield : ∀ {α : Type} (h : FairCfsRq → α), (∀ c, h (f c) = h c) →
      (fun c => h ((s.walkTgTree g q f).cfs c)) = fun c => h (s.cfs c) := by
    intro α h hh
    funext c
    simp only [walkTgTree]
    split
    · exact hh _
    · rfl
  have hcount : (fun c => ((s.walkTgTree g q f).cfs c).throttleCount) = fun c =>
      if q ∈ g.above c then k (s.cfs c).throttleCount else (s.cfs c).throttleCount := by
    funext c
    simp only [walkTgTree]
    split
    · rw [hf]
    · rfl
  simp only [shape, cfsRqThrottled, hcount, hfield (·.timeline) (fun c => by rw [hf c]),
    hfield (·.curr) (fun c => by rw [hf c]), hfield (·.next) (fun c => by rw [hf c]),
    hfield (·.last) (fun c => by rw [hf c]), hfield (·.load.weight) (fun c => by rw [hf c]),
    hfield (·.nrRunning) (fun c => by rw [hf c]), hfield (·.hNrRunning) (fun c => by rw [hf c]),
    hfield (fun c => t.cfsBandwidthUsed && c.throttled) (fun c => by rw [hf c]),
    hfield (fun c => c.runtime.runtimeEnabled) (fun c => by rw [hf c])]
  rfl

end FairRq

end MSchedutil
