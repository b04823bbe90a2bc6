import MSchedutil.FairChoice

/-! The two ways of `pick_next_task_fair`: going down with the previous task still current on its
queues finds the task that is found after putting all of them back. -/

namespace MSchedutil

open Word

namespace FairRq

variable {g : Groups} {t : FairTunables} {a b c s : FairRq} {q q' : Nat} {e : Ent}

/-- Whether the current entity is linked into the timeline first makes no difference. -/
theorem choose_linkEntity (he : e ∉ (s.cfs q).timeline) :
    (s.linkEntity q e).choose t q none = s.choose t q (some e) := by
  have hbefore : ∀ x y, (vruntimeDelta (s.vruntime x) (s.vruntime y) < 0) ↔
      s.entityBefore x y = true := fun x y => by rw [entityBefore, decide_eq_true_eq]
  have hprefer : ∀ left buddy x, (s.linkEntity q e).prefer t left buddy x = s.prefer t left buddy x :=
    fun _ _ _ => rfl
  have hcfs : (s.linkEntity q e).cfs q =
      { s.cfs q with timeline := enqueueTimeline s.vruntime e (s.cfs q).timeline } := by
    rw [linkEntity, stray_cfs, setCfs_cfs_self]
  have hnone : ∀ head, (s.linkEntity q e).leftmost head none = head := by
    intro head
    cases head <;> rfl
  have hself : ∀ (x : Ent) (tl : List Ent), nextInTimeline x (x :: tl) = tl.head? := by
    intro x tl
    simp [nextInTimeline]
  have hhead : ∀ tl : List Ent, (enqueueTimeline s.vruntime e tl).head? = s.leftmost tl.head? (some e) := by
    intro tl
    cases tl with
    | nil => rfl
    | cons x tl =>
      simp only [enqueueTimeline, hbefore, leftmost, List.head?_cons]
      split <;> rfl
  simp only [choose, hcfs, hnone, hprefer, hhead]
  cases htl : (s.cfs q).timeline with
  | nil => simp [leftmost, enqueueTimeline, hself]
  | cons x tl =>
    rw [htl] at he
    have hne : e ≠ x := fun heq => he (heq ▸ List.mem_cons_self)
    by_cases hlt : s.entityBefore e x = true
    · simp [leftmost, enqueueTimeline, hbefore, hlt, hself]
    · simp [leftmost, enqueueTimeline, hbefore, hlt, hself, hhead, hne]

/-- The same queue in two states, with all that is on it. -/
structure AgreeAt (g : Groups) (q : Nat) (a b : FairRq) : Prop where
  cfs : a.cfs q = b.cfs q
  ses : ∀ x, b.cfsRqOf g x = q → a.ses x = b.ses x
  taskCfs : a.taskCfs = b.taskCfs
  clockTask : a.clockTask = b.clockTask

/-- The runtime of the queue is not accounted. -/
def Unlimited (t : FairTunables) (s : FairRq) (q : Nat) : Prop :=
  (t.cfsBandwidthUsed && (s.cfs q).runtime.runtimeEnabled) = false

namespace AgreeAt

theorem refl (s : FairRq) (q : Nat) : AgreeAt g q s s := ⟨rfl, fun _ _ => rfl, rfl, rfl⟩

theorem cfsRqOf (h : AgreeAt g q a b) (x : Ent) : a.cfsRqOf g x = b.cfsRqOf g x :=
  congrFun (cfsRqOf_taskCfs h.taskCfs) x

theorem trans (hab : AgreeAt g q a b) (hbc : AgreeAt g q b c) : AgreeAt g q a c where
  cfs := hab.cfs.trans hbc.cfs
  ses x hx := (hab.ses x ((hbc.cfsRqOf x).trans hx)).trans (hbc.ses x hx)
  taskCfs := hab.taskCfs.trans hbc.taskCfs
  clockTask := hab.clockTask.trans hbc.clockTask

theorem symm (h : AgreeAt g q a b) : AgreeAt g q b a where
  cfs := h.cfs.symm
  ses x hx := (h.ses x ((h.cfsRqOf x).symm.trans hx)).symm
  taskCfs := h.taskCfs.symm
  clockTask := h.clockTask.symm

theorem setCfs (h : AgreeAt g q a b) (k : FairCfsRq → FairCfsRq) :
    AgreeAt g q (a.setCfs q k) (b.setCfs q k) where
  cfs := by rw [setCfs_cfs_self, setCfs_cfs_self, h.cfs]
  ses := h.ses
  taskCfs := h.taskCfs
  clockTask := h.clockTask

theorem setCfs_of_ne (h : AgreeAt g q a b) (hq : q ≠ q') (k : FairCfsRq → FairCfsRq) :
    AgreeAt g q (a.setCfs q' k) b where
  cfs := by rw [setCfs_cfs_of_ne _ hq, h.cfs]
  ses := h.ses
  taskCfs := h.taskCfs
  clockTask := h.clockTask

theorem stray (h : AgreeAt g q a b) (far : Bool) : AgreeAt g q (a.stray far) b :=
  ⟨h.cfs, h.ses, h.taskCfs, h.clockTask⟩

theorem setSe (h : AgreeAt g q a b) (f : FairEntity → FairEntity) :
    AgreeAt g q (a.setSe e f) (b.setSe e f) where
  cfs := h.cfs
  ses x hx := by
    rw [setSe_ses, setSe_ses, h.ses x hx]
  taskCfs := h.taskCfs
  clockTask := h.clockTask

theorem setSe_of_ne (h : AgreeAt g q a b) (he : b.cfsRqOf g e ≠ q) (f : FairEntity → FairEntity) :
    AgreeAt g q (a.setSe e f) b where
  cfs := h.cfs
  ses x hx := by
    rw [setSe_ses_of_ne f, h.ses x hx]
    rintro rfl
    exact he hx
  taskCfs := h.taskCfs
  clockTask := h.clockTask

end AgreeAt

theorem accountCfsRqRuntime_unlimited (h : Unlimited t s q) (deltaExec : Nat) :
    s.accountCfsRqRuntime t q deltaExec = s := by
  rw [Unlimited] at h
  simp only [accountCfsRqRuntime, h, Bool.false_eq_true, if_false]

theorem checkCfsRqRuntime_unlimited (h : Unlimited t s q) :
    s.checkCfsRqRuntime g t q = (s, false) := by
  rw [Unlimited, Bool.and_eq_false_iff] at h
  rcases h with h | h
  · simp [checkCfsRqRuntime, h]
  · simp [checkCfsRqRuntime, h]

theorem Unlimited.congr (h : Unlimited t b q) (hcfs : (a.cfs q).runtime = (b.cfs q).runtime) :
    Unlimited t a q := by rwa [Unlimited, hcfs]

/-- On a queue whose runtime is not accounted `update_curr` moves the current entity and
`min_vruntime` only. -/
theorem updateCurr_unlimited (h : Unlimited t s q) : s.updateCurr t q =
    match (s.cfs q).curr with
    | none => s
    | some e =>
      if s64 (sub64 s.clockTask (s.ses e).execStart) ≤ 0 then s
      else (s.setSe e (fun se => { se with
        execStart := s.clockTask
        sumExecRuntime := u64 (se.sumExecRuntime + sub64 s.clockTask (s.ses e).execStart)
        vruntime := se.vruntime +
          calcDeltaFair (sub64 s.clockTask (s.ses e).execStart) se.load })).updateMinVruntime q := by
  cases hc : (s.cfs q).curr with
  | none => simp only [updateCurr, hc]
  | some e =>
    simp only [updateCurr, hc]
    split
    · rfl
    · refine accountCfsRqRuntime_unlimited (h.congr ?_) _
      simp only [updateMinVruntime]
      rw [stray_cfs, setCfs_cfs_self, setSe_cfs]

theorem agree_updateMinVruntime (h : AgreeAt g q a b)
    (hcurr : ∀ x, (b.cfs q).curr = some x → b.cfsRqOf g x = q)
    (hlinked : ∀ x ∈ (b.cfs q).timeline, b.cfsRqOf g x = q) :
    AgreeAt g q (a.updateMinVruntime q) (b.updateMinVruntime q) := by
  have hon : a.currOnRq q = b.currOnRq q := by
    rw [currOnRq, currOnRq, h.cfs]
    cases hc : (b.cfs q).curr with
    | none => rfl
    | some x => simp only [Option.filter, h.ses x (hcurr x hc)]
  have hv : ∀ x, b.cfsRqOf g x = q → a.vruntime x = b.vruntime x := by
    intro x hx
    rw [vruntime, vruntime, h.ses x hx]
  have hmin : (a.updateMinVruntime q).cfs q = (b.updateMinVruntime q).cfs q := by
    simp only [updateMinVruntime, stray_cfs, setCfs_cfs_self, hon, h.cfs]
    cases hc : b.currOnRq q with
    | none =>
      cases hh : (b.cfs q).timeline.head? with
      | none => rfl
      | some left => simp only [hv left (hlinked left (List.mem_of_mem_head? hh))]
    | some x =>
      have hx := hv x (hcurr x (Option.filter_eq_some_iff.mp hc).1)
      cases hh : (b.cfs q).timeline.head? with
      | none => simp only [hx]
      | some left => simp only [hx, hv left (hlinked left (List.mem_of_mem_head? hh))]
  exact ⟨hmin, h.ses, h.taskCfs, h.clockTask⟩

theorem agree_updateCurr (h : AgreeAt g q a b) (hfree : Unlimited t b q)
    (hcurr : ∀ x, (b.cfs q).curr = some x → b.cfsRqOf g x = q)
    (hlinked : ∀ x ∈ (b.cfs q).timeline, b.cfsRqOf g x = q) :
    AgreeAt g q (a.updateCurr t q) (b.updateCurr t q) := by
  rw [updateCurr_unlimited hfree, updateCurr_unlimited (hfree.congr (by rw [h.cfs])), h.cfs]
  cases hc : (b.cfs q).curr with
  | none => exact h
  | some e =>
    simp only [h.clockTask, h.ses e (hcurr e hc)]
    split
    · exact h
    · exact agree_updateMinVruntime (h.setSe _) hcurr hlinked

/-- Another queue does not notice. -/
theorem agree_updateCurr_of_ne (hq : q ≠ q') (hfree : Unlimited t s q')
    (hcurr : ∀ x, (s.cfs q').curr = some x → s.cfsRqOf g x = q') :
    AgreeAt g q (s.updateCurr t q') s := by
  rw [updateCurr_unlimited hfree]
  split
  · exact .refl s q
  · rename_i e hc
    split
    · exact .refl s q
    · have hne : s.cfsRqOf g e ≠ q := fun heq => hq (heq.symm.trans (hcurr e hc))
      simp only [updateMinVruntime]
      exact (((AgreeAt.refl s q).setSe_of_ne hne _).setCfs_of_ne hq _).stray _

theorem agree_clearUp_of_lt {get : FairCfsRq → Option Ent} {clear : FairCfsRq → FairCfsRq}
    {es : List Ent} (h : AgreeAt g q a b) (hes : ∀ x ∈ es, b.cfsRqOf g x < q) :
    AgreeAt g q (a.clearUp g get clear es) b := by
  induction es generalizing a with
  | nil => exact h
  | cons e es ih =>
    simp only [clearUp]
    split
    · have hlt := hes e List.mem_cons_self
      rw [← h.cfsRqOf] at hlt
      exact ih (h.setCfs_of_ne hlt.ne' clear) fun x hx => hes x (List.mem_cons_of_mem _ hx)
    · exact h

/-- Buddies are cleared on the queue and above. -/
theorem agree_clearBuddies_of_lt (h : AgreeAt g q a b) (hq : b.cfsRqOf g e = q') (hlt : q' < q) :
    AgreeAt g q (a.clearBuddies g q' e) b := by
  have hpath : ∀ a' : FairRq, AgreeAt g q a' b → ∀ x ∈ a'.path g e, b.cfsRqOf g x < q := by
    intro a' h' x hx
    rw [path, h'.cfsRqOf, hq] at hx
    rcases List.mem_cons.mp hx with rfl | hx
    · rwa [hq]
    · obtain ⟨c, rfl, -, hparent⟩ := Groups.parent_lt_of_mem hx
      exact hparent.trans hlt
  have hup : ∀ (get : FairCfsRq → Option Ent) (clear : FairCfsRq → FairCfsRq) (a' : FairRq),
      AgreeAt g q a' b → AgreeAt g q
        (if get (a'.cfs q') = some e then a'.clearUp g get clear (a'.path g e) else a') b := by
    intro get clear a' h'
    split
    · exact agree_clearUp_of_lt h' (hpath a' h')
    · exact h'
  exact hup (·.skip) _ _ (hup (·.next) _ _ (hup (·.last) _ _ h))

theorem enqueueTimeline_congr {v w : Ent → Int} {tl : List Ent} (he : v e = w e)
    (htl : ∀ x ∈ tl, v x = w x) : enqueueTimeline v e tl = enqueueTimeline w e tl := by
  induction tl with
  | nil => rfl
  | cons x tl ih =>
    rw [enqueueTimeline, enqueueTimeline, he, htl x List.mem_cons_self,
      ih fun y hy => htl y (List.mem_cons_of_mem _ hy)]

theorem agree_linkEntity (h : AgreeAt g q a b) (he : b.cfsRqOf g e = q)
    (hlinked : ∀ x ∈ (b.cfs q).timeline, b.cfsRqOf g x = q) :
    AgreeAt g q (a.linkEntity q e) (b.linkEntity q e) := by
  have hv : ∀ x, b.cfsRqOf g x = q → a.vruntime x = b.vruntime x := by
    intro x hx
    rw [vruntime, vruntime, h.ses x hx]
  refine ⟨?_, h.ses, h.taskCfs, h.clockTask⟩
  simp only [linkEntity, stray_cfs, setCfs_cfs_self, h.cfs]
  rw [enqueueTimeline_congr (hv e he) fun x hx => hv x (hlinked x hx)]

theorem runtime_updateCurr (h : Unlimited t s q) :
    ((s.updateCurr t q).cfs q).runtime = (s.cfs q).runtime := by
  rw [updateCurr_unlimited h]
  split
  · rfl
  · split
    · rfl
    · simp only [updateMinVruntime]
      rw [stray_cfs, setCfs_cfs_self, setSe_cfs]

/-- `put_prev_entity` without runtime to account. -/
theorem putPrevEntity_unlimited (h : Unlimited t s q) : s.putPrevEntity g t q e =
    (if (s.ses e).onRq then (s.updateCurr t q).linkEntity q e else s).setCfs q
      (fun c => { c with curr := none }) := by
  have honRq : ∀ x, ((s.updateCurr t q).ses x).onRq = (s.ses x).onRq := by
    intro x
    have := congrFun (congrArg Shape.onRq (shape_updateCurr (g := g) (t := t) (s := s) (q := q))) x
    exact this
  simp only [putPrevEntity]
  by_cases hon : (s.ses e).onRq = true
  · rw [if_pos hon, checkCfsRqRuntime_unlimited (h.congr (runtime_updateCurr h)), if_pos hon]
    simp only [honRq, hon, if_true]
  · rw [if_neg hon, checkCfsRqRuntime_unlimited h, if_neg hon, if_neg hon]

theorem agree_putPrevEntity (h : AgreeAt g q a b) (hb : b.Ranked g) (hfree : Unlimited t b q)
    (he : b.cfsRqOf g e = q) : AgreeAt g q (a.putPrevEntity g t q e) (b.putPrevEntity g t q e) := by
  have hstill := still_updateCurr (t := t) (q := q) hb
  have hlinked : ∀ x ∈ (b.cfs q).timeline, b.cfsRqOf g x = q := fun x hx => (hb.linked q x hx).2
  have hupdate := agree_updateCurr h hfree (hb.home_curr q) hlinked
  have hlink := agree_linkEntity hupdate ((hstill.cfsRqOf e).trans he) fun x hx => by
    rw [hstill.timeline] at hx
    exact (hstill.cfsRqOf x).trans (hlinked x hx)
  rw [putPrevEntity_unlimited hfree, putPrevEntity_unlimited (hfree.congr (by rw [h.cfs])), h.ses e he]
  split
  · exact hlink.setCfs _
  · exact h.setCfs _

theorem agree_putPrevEntity_of_ne (hq : q ≠ q') (hs : s.Ranked g) (hfree : Unlimited t s q') :
    AgreeAt g q (s.putPrevEntity g t q' e) s := by
  rw [putPrevEntity_unlimited hfree]
  refine AgreeAt.setCfs_of_ne ?_ hq _
  split
  · exact ((agree_updateCurr_of_ne hq hfree (hs.home_curr q')).setCfs_of_ne hq _).stray _
  · exact .refl s q

/-- Putting the whole path back changes every queue on it as putting its entity does. -/
theorem agree_putUp {es : List Ent} (hs : s.Ranked g)
    (hes : es.Pairwise fun x y => s.cfsRqOf g y < s.cfsRqOf g x)
    (hcurr : ∀ x ∈ es, (s.cfs (s.cfsRqOf g x)).curr = some x)
    (hfree : ∀ x ∈ es, Unlimited t s (s.cfsRqOf g x)) :
    (∀ q, (∀ x ∈ es, s.cfsRqOf g x ≠ q) → AgreeAt g q (s.putUp g t es) s) ∧
      ∀ x ∈ es, AgreeAt g (s.cfsRqOf g x) (s.putUp g t es)
        (s.putPrevEntity g t (s.cfsRqOf g x) x) := by
  induction es generalizing s with
  | nil => exact ⟨fun q _ => .refl s q, nofun⟩
  | cons e es ih =>
    obtain ⟨hbelow, hes⟩ := List.pairwise_cons.mp hes
    have hlater := later_putPrevEntity (t := t) hs (hcurr e List.mem_cons_self)
    have hput : ∀ q, q ≠ s.cfsRqOf g e →
        AgreeAt g q (s.putPrevEntity g t (s.cfsRqOf g e) e) s := fun q hq =>
      agree_putPrevEntity_of_ne hq hs (hfree e List.mem_cons_self)
    have hne : ∀ x ∈ es, s.cfsRqOf g x ≠ s.cfsRqOf g e := fun x hx => (hbelow x hx).ne
    obtain ⟨hother, hself⟩ := ih hlater.ranked (by simpa only [hlater.cfsRqOf] using hes)
      (fun x hx => by
        rw [hlater.cfsRqOf, (hput _ (hne x hx)).cfs]
        exact hcurr x (List.mem_cons_of_mem _ hx))
      (fun x hx => by
        rw [hlater.cfsRqOf]
        exact (hfree x (List.mem_cons_of_mem _ hx)).congr (by rw [(hput _ (hne x hx)).cfs]))
    simp only [hlater.cfsRqOf] at hother hself
    refine ⟨fun q hq => ?_, fun x hx => ?_⟩
    · exact (hother q fun x hx => hq x (List.mem_cons_of_mem _ hx)).trans
        (hput q (hq e List.mem_cons_self).symm)
    · rcases List.mem_cons.mp hx with rfl | hx
      · exact hother _ hne
      · exact (hself x hx).trans (agree_putPrevEntity (hput _ (hne x hx)) hs
          (hfree x (List.mem_cons_of_mem _ hx)) rfl)

/-- The state in which the fast path chooses on a queue. -/
def updated (t : FairTunables) (s : FairRq) (q : Nat) : FairRq :=
  if (s.currOnRq q).isSome then s.updateCurr t q else s

theorem still_updated (h : s.Ranked g) : s.Still g (updated t s q) := by
  rw [updated]
  split
  · exact still_updateCurr h
  · exact .refl h

theorem shape_updated : (updated t s q).shape g t = s.shape g t := by
  rw [updated]
  split
  · exact shape_updateCurr
  · rfl

theorem choose_setCurr {curr curr' : Option Ent} :
    (s.setCfs q (fun c => { c with curr := curr' })).choose t q curr = s.choose t q curr := by
  simp only [choose, setCfs_cfs_self]
  rfl

/-- The choice depends on the queue alone. -/
theorem choose_of_agree {curr : Option Ent} (h : AgreeAt g q a b) (ha : a.Ranked g)
    (hq : (a.shape g t).Queues) (hcurr : ∀ x, curr = some x → a.cfsRqOf g x = q) :
    a.choose t q curr = b.choose t q curr := by
  refine choose_congr (g := g) ?_ ?_ ?_ ?_ (fun x hx => h.ses x ((h.cfsRqOf x).symm.trans hx))
    (fun x hx => (ha.linked q x hx).2) (fun x hx => ?_) hcurr
  · rw [h.cfs]
  · rw [h.cfs]
  · rw [h.cfs]
  · rw [h.cfs]
  · rcases hx with hx | hx
    · exact hq.home_of_mem (hq.next q x hx)
    · exact hq.home_of_mem (hq.last q x hx)

/-- On every queue the choice is the same. -/
theorem choose_agrees (hs : (s.shape g t).Sound g) (h : s.Ranked g) (hfree : ∀ q, Unlimited t s q) :
    (updated t s q).choose t q (s.currOnRq q) = (s.putPrevTaskFair g t).choose t q none := by
  have hbase := heldByCurr hs
  have hranked := (later_putPrevTaskFair (t := t) h hbase).ranked
  obtain ⟨hsums, -⟩ := putPrevTaskFair_sums hs.toSums hs.root hbase
  have hread : ∀ s', AgreeAt g q (s.putPrevTaskFair g t) s' →
      (s.putPrevTaskFair g t).choose t q none = s'.choose t q none :=
    fun s' h' => choose_of_agree h' hranked hsums.balanced.queues nofun
  cases hprev : s.curr with
  | none =>
    have hnone : (s.cfs q).curr = none := (hbase.of_none hprev).curr_none nofun
    simp only [putPrevTaskFair, hprev, updated, currOnRq, hnone]
    rfl
  | some prev =>
    have hheld := hbase.of_some hprev
    have hput : s.putPrevTaskFair g t = s.putUp g t (s.path g (.task prev)) := by
      simp only [putPrevTaskFair, hprev]
    obtain ⟨hother, hself⟩ := agree_putUp (t := t) h path_pairwise (fun x hx => hheld.curr_eq hx)
      fun x _ => hfree (s.cfsRqOf g x)
    rw [← hput] at hother hself
    cases hc : (s.cfs q).curr with
    | none =>
      rw [hread s (hother q fun x hx hxq => by
        rw [← hxq, show (s.cfs (s.cfsRqOf g x)).curr = some x from hheld.curr_eq hx] at hc
        cases hc)]
      simp only [updated, currOnRq, hc]
      rfl
    | some x =>
      obtain ⟨hx, hxq⟩ := (hheld q x).mp hc
      have hxq' : s.cfsRqOf g x = q := hxq
      have hagree := hself x hx
      rw [hxq', putPrevEntity_unlimited (hfree q)] at hagree
      rw [hread _ hagree, choose_setCurr]
      by_cases hon : (s.ses x).onRq = true
      · have hcurr : s.currOnRq q = some x := by simp [currOnRq, hc, hon]
        have hloose : x ∉ ((s.updateCurr t q).cfs q).timeline := by
          rw [(still_updateCurr (t := t) (q := q) h).timeline]
          exact h.apart q x hc
        rw [if_pos hon, choose_linkEntity hloose, hcurr, updated, hcurr]
        rfl
      · have hcurr : s.currOnRq q = none := by simp [currOnRq, hc, hon]
        rw [if_neg hon, hcurr, updated, hcurr]
        rfl

theorem agree_currOnRq (h : AgreeAt g q a s) (hcurr : ∀ x, (s.cfs q).curr = some x → s.cfsRqOf g x = q) :
    a.currOnRq q = s.currOnRq q := by
  rw [currOnRq, currOnRq, h.cfs]
  cases hc : (s.cfs q).curr with
  | none => rfl
  | some x => simp only [Option.filter, h.ses x (hcurr x hc)]

theorem agree_setNextEntity_of_ne (h : AgreeAt g q a b) (hq : q ≠ q') (he : b.cfsRqOf g e = q') :
    AgreeAt g q (a.setNextEntity q' e) b := by
  have hne : b.cfsRqOf g e ≠ q := fun heq => hq (heq.symm.trans he)
  simp only [setNextEntity]
  refine AgreeAt.setSe_of_ne (AgreeAt.setCfs_of_ne ?_ hq _) hne _
  split
  · exact h.setCfs_of_ne hq _
  · exact h

theorem choose_mem {curr : Option Ent} (h : (s.shape g t).Queues) (hcurr : curr = s.currOnRq q)
    (he : s.choose t q curr = some e) : e ∈ s.queued q := by
  obtain ⟨left, hleft, -⟩ := choose_lag he
  have hmem : left ∈ s.queued q := by
    subst hcurr
    exact leftmost_mem (fun x hx => List.mem_append_left _ (List.mem_of_mem_head? hx))
      (fun x hx => List.mem_append_right _ (Option.mem_toList.mpr hx)) hleft
  obtain ⟨e', he', hmem'⟩ := choose_spec h (List.ne_nil_of_mem hmem) hcurr
  rw [he, Option.some.injEq] at he'
  exact he' ▸ hmem'

/-- From a queue downwards both ways lead to the same task. -/
theorem pick_agrees {turns : Nat} (hs : (s.shape g t).Sound g) (h : s.Ranked g)
    (hfree : ∀ q, Unlimited t s q) (ha : ∀ c, q ≤ c → AgreeAt g c a s)
    (hb : ∀ c, q ≤ c → AgreeAt g c b (s.putPrevTaskFair g t)) :
    (a.pickFast g t turns q).map Prod.fst = (b.pickSimple g t turns q).map (fun r => some r.1) := by
  induction turns generalizing q a b with
  | zero => rfl
  | succ turns ih =>
    have hq := ha q le_rfl
    have hcurr : a.currOnRq q = s.currOnRq q := agree_currOnRq hq (h.home_curr q)
    have hfree' : Unlimited t a q := (hfree q).congr (by rw [hq.cfs])
    have hhome : ∀ x, (a.cfs q).curr = some x → a.cfsRqOf g x = q := by
      intro x hx
      rw [hq.cfsRqOf]
      exact h.home_curr q x (hq.cfs ▸ hx)
    generalize ha₁ : (if (s.currOnRq q).isSome then a.updateCurr t q else a) = a₁
    have hq₁ : AgreeAt g q a₁ (updated t s q) := by
      rw [← ha₁, updated]
      split
      · exact agree_updateCurr hq (hfree q) (h.home_curr q) fun x hx => (h.linked q x hx).2
      · exact hq
    have hlow₁ : ∀ c, q < c → AgreeAt g c a₁ s := by
      intro c hc
      rw [← ha₁]
      split
      · exact (agree_updateCurr_of_ne hc.ne' hfree' hhome).trans (ha c hc.le)
      · exact ha c hc.le
    have hstill := still_updated (t := t) (q := q) h
    have hqueues : ((updated t s q).shape g t).Queues := by
      rw [shape_updated]
      exact hs.balanced.queues
    have hcurrq : ∀ x, s.currOnRq q = some x → (updated t s q).cfsRqOf g x = q := fun x hx =>
      (hstill.cfsRqOf x).trans (h.home_curr q x (Option.filter_eq_some_iff.mp hx).1)
    have hcheck : (if (a₁.cfs q).curr.isSome then a₁.checkCfsRqRuntime g t q else (a₁, false)) =
        (a₁, false) := by
      split
      · refine checkCfsRqRuntime_unlimited ?_
        rw [← ha₁]
        split
        · exact hfree'.congr (runtime_updateCurr hfree')
        · exact hfree'
      · rfl
    have hchoose : a₁.choose t q (s.currOnRq q) = b.choose t q none := by
      rw [← choose_of_agree hq₁.symm hstill.ranked hqueues hcurrq, choose_agrees hs h hfree]
      exact choose_of_agree (hb q le_rfl).symm (later_putPrevTaskFair h (heldByCurr hs)).ranked
        (putPrevTaskFair_sums hs.toSums hs.root (heldByCurr hs)).1.balanced.queues nofun
    simp only [pickFast, hcurr, ha₁, hcheck, Bool.false_eq_true, if_false, pickSimple, pickNextEntity,
      hchoose]
    cases he : b.choose t q none with
    | none => rfl
    | some e =>
      cases e with
      | task p => rfl
      | group c =>
        have hcurr' : s.currOnRq q = (updated t s q).currOnRq q := by
          rw [currOnRq_congr (shape_updated (g := g))]
        have hchosen : (updated t s q).choose t q (s.currOnRq q) = some (.group c) := by
          rw [choose_of_agree hq₁.symm hstill.ranked hqueues hcurrq, hchoose, he]
        have hmem := choose_mem hqueues hcurr' hchosen
        have hparent : g.parent c = q := hqueues.home_of_mem hmem
        have hon := hqueues.onRq_of_mem hmem
        rw [shape_updated] at hon
        have hlt := g.parent_lt c (hs.balanced.group_ne_zero hon)
        rw [hparent] at hlt
        dsimp only
        refine ih (fun c' hc' => ?_) fun c' hc' => ?_
        · exact agree_clearBuddies_of_lt (hlow₁ c' (hlt.trans_le hc')) hparent (hlt.trans_le hc')
        · exact agree_setNextEntity_of_ne
            (agree_clearBuddies_of_lt (hb c' (hlt.le.trans hc')) hparent (hlt.trans_le hc'))
            (hlt.trans_le hc').ne' hparent

end FairRq

end MSchedutil
