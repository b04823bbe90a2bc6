import MSchedutil.FairShape

/-! The order of the queues: every timeline is sorted by virtual runtime whatever happens, and the
minimum of no queue goes back. -/

namespace MSchedutil

open Word

theorem mem_enqueueTimeline {v : Ent → Int} {e x : Ent} {tl : List Ent} :
    x ∈ enqueueTimeline v e tl ↔ x = e ∨ x ∈ tl := by
  rw [(FairRq.perm_enqueueTimeline v e tl).mem_iff, List.mem_cons]

/-- An entity that is far from none of the timeline is put in order. -/
theorem sorted_enqueueTimeline {v : Ent → Int} {e : Ent} {tl : List Ent}
    (h : tl.Pairwise fun a b => v a ≤ v b) (hnear : ∀ x ∈ tl, farApart (v e) (v x) = false) :
    (enqueueTimeline v e tl).Pairwise fun a b => v a ≤ v b := by
  induction tl with
  | nil => exact List.pairwise_singleton _ e
  | cons x tl ih =>
    obtain ⟨hx, htl⟩ := List.pairwise_cons.mp h
    have hdelta := vruntimeDelta_of_near (hnear x List.mem_cons_self)
    have hnear' : ∀ y ∈ tl, farApart (v e) (v y) = false :=
      fun y hy => hnear y (List.mem_cons_of_mem x hy)
    by_cases hlt : vruntimeDelta (v e) (v x) < 0
    · rw [enqueueTimeline, if_pos hlt]
      rw [hdelta] at hlt
      refine List.pairwise_cons.mpr ⟨fun y hy => ?_, h⟩
      rcases List.mem_cons.mp hy with rfl | hy
      · omega
      · have := hx y hy
        omega
    · rw [enqueueTimeline, if_neg hlt]
      rw [hdelta] at hlt
      refine List.pairwise_cons.mpr ⟨fun y hy => ?_, ih htl hnear'⟩
      rcases mem_enqueueTimeline.mp hy with rfl | hy
      · omega
      · exact hx y hy

namespace FairRq

/-- The timelines hold queued entities only, apart from those that are current, and are sorted as
long as no two virtual runtimes that met were far apart; the reciprocals of the weights of queues
are yet to be computed. -/
structure Ranked (g : Groups) (s : FairRq) : Prop where
  nodup : ∀ q, (s.cfs q).timeline.Nodup
  linked : ∀ q, ∀ e ∈ (s.cfs q).timeline, (s.ses e).onRq = true ∧ s.cfsRqOf g e = q
  home_curr : ∀ q e, (s.cfs q).curr = some e → s.cfsRqOf g e = q
  apart : ∀ q e, (s.cfs q).curr = some e → e ∉ (s.cfs q).timeline
  sorted : s.strayed = false → ∀ q, (s.cfs q).timeline.Pairwise fun a b => s.vruntime a ≤ s.vruntime b
  fresh : ∀ q, (s.cfs q).load.invWeight = 0

/-- Not in any timeline. -/
def Loose (s : FairRq) (e : Ent) : Prop := ∀ q, e ∉ (s.cfs q).timeline

/-- The order has been kept, and the minimum of no queue has gone back unless it met a virtual
runtime far from it. -/
structure Later (g : Groups) (a b : FairRq) : Prop where
  ranked : b.Ranked g
  strayed : b.strayed = false → a.strayed = false
  ages : b.strayed = false → ∀ q, (a.cfs q).minVruntime ≤ (b.cfs q).minVruntime
  taskCfs : b.taskCfs = a.taskCfs

/-- Besides, nothing has been switched. -/
structure Calm (g : Groups) (a b : FairRq) : Prop extends a.Later g b where
  curr : ∀ q, (b.cfs q).curr = (a.cfs q).curr

/-- Besides, the timelines are as they were. -/
structure Still (g : Groups) (a b : FairRq) : Prop extends a.Calm g b where
  timeline : ∀ q, (b.cfs q).timeline = (a.cfs q).timeline

variable {g : Groups} {t : FairTunables} {a b c s s' : FairRq} {q : Nat} {e : Ent}

theorem cfsRqOf_taskCfs (h : b.taskCfs = a.taskCfs) : b.cfsRqOf g = a.cfsRqOf g := by
  funext x
  cases x with
  | task p => exact congrFun h p
  | group c => rfl

namespace Later

theorem refl (h : s.Ranked g) : s.Later g s := ⟨h, id, fun _ _ => le_rfl, rfl⟩

theorem trans (hab : a.Later g b) (hbc : b.Later g c) : a.Later g c where
  ranked := hbc.ranked
  strayed hc := hab.strayed (hbc.strayed hc)
  ages hc q := (hab.ages (hbc.strayed hc) q).trans (hbc.ages hc q)
  taskCfs := hbc.taskCfs.trans hab.taskCfs

theorem cfsRqOf (h : a.Later g b) (x : Ent) : b.cfsRqOf g x = a.cfsRqOf g x :=
  congrFun (cfsRqOf_taskCfs h.taskCfs) x

end Later

theorem Calm.refl (h : s.Ranked g) : s.Calm g s := ⟨.refl h, fun _ => rfl⟩

theorem Calm.trans (hab : a.Calm g b) (hbc : b.Calm g c) : a.Calm g c :=
  ⟨hab.toLater.trans hbc.toLater, fun q => (hbc.curr q).trans (hab.curr q)⟩

theorem Still.refl (h : s.Ranked g) : s.Still g s := ⟨.refl h, fun _ => rfl⟩

theorem Still.trans (hab : a.Still g b) (hbc : b.Still g c) : a.Still g c :=
  ⟨hab.toCalm.trans hbc.toCalm, fun q => (hbc.timeline q).trans (hab.timeline q)⟩

theorem Still.loose (h : a.Still g b) (he : a.Loose e) : b.Loose e := by
  intro q
  rw [h.timeline]
  exact he q

theorem Ranked.loose_off (h : s.Ranked g) (hoff : (s.ses e).onRq = false) : s.Loose e := by
  intro q hmem
  rw [(h.linked q e hmem).1] at hoff
  cases hoff

theorem Ranked.loose_curr (h : s.Ranked g) (hcurr : (s.cfs q).curr = some e) : s.Loose e := by
  intro c hmem
  have hc := (h.linked c e hmem).2
  rw [h.home_curr q e hcurr] at hc
  exact h.apart q e hcurr (hc ▸ hmem)

section Steps

/-- What holds between the queue that changes and its new form, and of every queue and itself,
holds between the old and the new form of every queue. -/
theorem setCfs_rel {k : FairCfsRq → FairCfsRq} {P : FairCfsRq → FairCfsRq → Prop}
    (hself : P (s.cfs q) (k (s.cfs q))) (hother : ∀ c, P (s.cfs c) (s.cfs c)) (c : Nat) :
    P (s.cfs c) ((s.setCfs q k).cfs c) := by
  by_cases hc : c = q
  · subst hc
    rwa [setCfs_cfs_self]
  · rw [setCfs_cfs_of_ne _ hc]
    exact hother c

/-- Only what does not matter to the order has changed. -/
theorem still_of (h : a.Ranked g) (hses : b.ses = a.ses) (htask : b.taskCfs = a.taskCfs)
    (hstray : b.strayed = false → a.strayed = false)
    (htimeline : ∀ q, (b.cfs q).timeline = (a.cfs q).timeline)
    (hcurr : ∀ q, (b.cfs q).curr = (a.cfs q).curr) (hinv : ∀ q, (b.cfs q).load.invWeight = 0)
    (hmin : b.strayed = false → ∀ q, (a.cfs q).minVruntime ≤ (b.cfs q).minVruntime) :
    a.Still g b := by
  have hhome := cfsRqOf_taskCfs (g := g) htask
  refine ⟨⟨⟨⟨?_, ?_, ?_, ?_, fun hb => ?_, hinv⟩, hstray, hmin, htask⟩, hcurr⟩, htimeline⟩
  · simpa only [htimeline] using h.nodup
  · simpa only [htimeline, hses, hhome] using h.linked
  · simpa only [hcurr, hhome] using h.home_curr
  · simpa only [hcurr, htimeline] using h.apart
  · simpa only [htimeline, vruntime, hses] using h.sorted (hstray hb)

theorem still_of_eq (h : a.Ranked g) (hses : b.ses = a.ses) (hcfs : b.cfs = a.cfs)
    (htask : b.taskCfs = a.taskCfs) (hstray : b.strayed = a.strayed) : a.Still g b := by
  refine still_of h hses htask hstray.symm.trans ?_ ?_ ?_ fun _ => ?_
  all_goals intro q
  all_goals rw [hcfs]
  exact h.fresh q

theorem Calm.same (h : a.Calm g b) (hses : c.ses = b.ses) (hcfs : c.cfs = b.cfs)
    (htask : c.taskCfs = b.taskCfs) (hstray : c.strayed = b.strayed) : a.Calm g c :=
  h.trans (still_of_eq h.ranked hses hcfs htask hstray).toCalm

theorem Later.same (h : a.Later g b) (hses : c.ses = b.ses) (hcfs : c.cfs = b.cfs)
    (htask : c.taskCfs = b.taskCfs) (hstray : c.strayed = b.strayed) : a.Later g c :=
  h.trans (still_of_eq h.ranked hses hcfs htask hstray).toLater

theorem Still.same (h : a.Still g b) (hses : c.ses = b.ses) (hcfs : c.cfs = b.cfs)
    (htask : c.taskCfs = b.taskCfs) (hstray : c.strayed = b.strayed) : a.Still g c :=
  h.trans (still_of_eq h.ranked hses hcfs htask hstray)

theorem still_setCfs {k : FairCfsRq → FairCfsRq} (h : s.Ranked g)
    (htimeline : (k (s.cfs q)).timeline = (s.cfs q).timeline)
    (hcurr : (k (s.cfs q)).curr = (s.cfs q).curr) (hinv : (k (s.cfs q)).load.invWeight = 0)
    (hmin : (s.cfs q).minVruntime ≤ (k (s.cfs q)).minVruntime) : s.Still g (s.setCfs q k) :=
  still_of h rfl rfl id
    (setCfs_rel (P := fun x y => y.timeline = x.timeline) htimeline fun _ => rfl)
    (setCfs_rel (P := fun x y => y.curr = x.curr) hcurr fun _ => rfl)
    (setCfs_rel (P := fun _ y => y.load.invWeight = 0) hinv h.fresh)
    fun _ => setCfs_rel (P := fun x y => x.minVruntime ≤ y.minVruntime) hmin fun _ => le_rfl

/-- An entity in no timeline may change in any way. -/
theorem still_setSe_loose {f : FairEntity → FairEntity} (h : s.Ranked g) (he : s.Loose e) :
    s.Still g (s.setSe e f) := by
  have hne : ∀ q, ∀ x ∈ (s.cfs q).timeline, x ≠ e := by
    rintro q x hx rfl
    exact he q hx
  refine ⟨⟨⟨⟨h.nodup, fun q x hx => ?_, h.home_curr, h.apart, fun hs q => ?_, h.fresh⟩,
    id, fun _ _ => le_rfl, rfl⟩, fun _ => rfl⟩, fun _ => rfl⟩
  · rw [setSe_ses_of_ne f (hne q x hx)]
    exact h.linked q x hx
  · refine (h.sorted hs q).imp_of_mem fun {x y} hx hy hxy => ?_
    simp only [vruntime]
    rwa [setSe_ses_of_ne f (hne q x hx), setSe_ses_of_ne f (hne q y hy)]

/-- Any entity may change but for its virtual runtime and where it is. -/
theorem still_setSe {f : FairEntity → FairEntity} (h : s.Ranked g)
    (hon : (f (s.ses e)).onRq = (s.ses e).onRq) (hv : (f (s.ses e)).vruntime = (s.ses e).vruntime) :
    s.Still g (s.setSe e f) := by
  have hv' : (s.setSe e f).vruntime = s.vruntime := by
    funext x
    by_cases hx : x = e
    · subst hx
      simpa only [vruntime, setSe_ses_self] using hv
    · simp only [vruntime, setSe_ses_of_ne f hx]
  refine ⟨⟨⟨⟨h.nodup, fun q x hx => ?_, h.home_curr, h.apart, fun hs q => ?_, h.fresh⟩,
    id, fun _ _ => le_rfl, rfl⟩, fun _ => rfl⟩, fun _ => rfl⟩
  · refine ⟨?_, (h.linked q x hx).2⟩
    by_cases hxe : x = e
    · subst hxe
      rw [setSe_ses_self, hon]
      exact (h.linked q x hx).1
    · rw [setSe_ses_of_ne f hxe]
      exact (h.linked q x hx).1
  · rw [hv']
    exact h.sorted hs q

end Steps

theorem le_maxVruntime {a b : Int} (h : farApart b a = false) : a ≤ maxVruntime a b := by
  rw [maxVruntime]
  split
  · rename_i hlt
    rw [vruntimeDelta_of_near h] at hlt
    omega
  · exact le_rfl

theorem strayed_stray {far : Bool} (h : (s.stray far).strayed = false) :
    s.strayed = false ∧ far = false := by
  simpa [stray] using h

theorem still_updateMinVruntime (h : s.Ranked g) : s.Still g (s.updateMinVruntime q) := by
  simp only [updateMinVruntime]
  refine still_of h rfl rfl (fun hs => (strayed_stray hs).1) ?_ ?_ ?_ fun hs => ?_
  all_goals rw [stray_cfs]
  · exact setCfs_rel (P := fun x y => y.timeline = x.timeline) rfl fun _ => rfl
  · exact setCfs_rel (P := fun x y => y.curr = x.curr) rfl fun _ => rfl
  · exact setCfs_rel (P := fun _ y => y.load.invWeight = 0) (h.fresh q) h.fresh
  · exact setCfs_rel (P := fun x y => x.minVruntime ≤ y.minVruntime)
      (le_maxVruntime (strayed_stray hs).2) fun _ => le_rfl

theorem still_accountCfsRqRuntime (h : s.Ranked g) (deltaExec : Nat) :
    s.Still g (s.accountCfsRqRuntime t q deltaExec) := by
  simp only [accountCfsRqRuntime]
  split
  · have hpools : ∀ (r : CfsBandwidth × CfsRuntime), s.Still g
        { s.setCfs q (fun c => { c with runtime := r.2 }) with
          pools := Function.update s.pools q r.1 } := by
      intro r
      have hset : s.Still g (s.setCfs q (fun c => { c with runtime := r.2 })) :=
        still_setCfs h rfl rfl (h.fresh q) le_rfl
      exact hset.trans (still_of_eq hset.ranked rfl rfl rfl rfl)
    split
    · exact (hpools _).trans (still_of_eq (hpools _).ranked rfl rfl rfl rfl)
    · exact hpools _
  · exact .refl h

theorem still_updateCurr (h : s.Ranked g) : s.Still g (s.updateCurr t q) := by
  simp only [updateCurr]
  split
  · exact .refl h
  · rename_i e hcurr
    split
    · exact .refl h
    · have h₁ := still_setSe_loose (f := fun se => { se with
        execStart := s.clockTask
        sumExecRuntime := u64 (se.sumExecRuntime + sub64 s.clockTask (s.ses e).execStart)
        vruntime := se.vruntime + calcDeltaFair (sub64 s.clockTask (s.ses e).execStart) se.load })
        h (h.loose_curr hcurr)
      have h₂ := still_updateMinVruntime (q := q) h₁.ranked
      exact (h₁.trans h₂).trans (still_accountCfsRqRuntime h₂.ranked _)

theorem still_accountEntityEnqueue (h : s.Ranked g) : s.Still g (s.accountEntityEnqueue q e) := by
  have h₁ : s.Still g (s.setCfs q (fun c => { c with
      load := c.load.add (s.ses e).load.weight
      nrRunning := c.nrRunning + 1 })) := still_setCfs h rfl rfl rfl le_rfl
  exact h₁.trans (still_of_eq h₁.ranked rfl rfl rfl rfl)

theorem still_accountEntityDequeue (h : s.Ranked g) : s.Still g (s.accountEntityDequeue q e) := by
  have h₁ : s.Still g (s.setCfs q (fun c => { c with
      load := c.load.sub (s.ses e).load.weight
      nrRunning := c.nrRunning - 1 })) := still_setCfs h rfl rfl rfl le_rfl
  exact h₁.trans (still_of_eq h₁.ranked rfl rfl rfl rfl)

theorem still_reweightEntity (h : s.Ranked g) (weight : Nat) :
    s.Still g (s.reweightEntity t q e weight) := by
  have hset : ∀ s : FairRq, s.Ranked g →
      s.Still g (s.setSe e (fun se => { se with load := .set weight })) :=
    fun s h => still_setSe h rfl rfl
  simp only [reweightEntity]
  split
  · generalize hs₁ : (if (s.cfs q).curr = some e then s.updateCurr t q else s) = s₁
    have h₁ : s.Still g s₁ := by
      rw [← hs₁]
      split
      · exact still_updateCurr h
      · exact .refl h
    have h₂ := h₁.trans (still_accountEntityDequeue (q := q) (e := e) h₁.ranked)
    have h₃ := h₂.trans (hset _ h₂.ranked)
    exact h₃.trans (still_accountEntityEnqueue h₃.ranked)
  · exact hset s h

theorem still_updateCfsShares (h : s.Ranked g) : s.Still g (s.updateCfsShares g t e) := by
  simp only [updateCfsShares]
  split
  · exact .refl h
  · split
    · exact .refl h
    · exact still_reweightEntity h _

theorem still_placeEntity (h : s.Ranked g) (he : s.Loose e) (initial : Bool) :
    s.Still g (s.placeEntity g t q e initial) := by
  simp only [placeEntity]
  exact still_setSe_loose h he

theorem still_clearUp {get : FairCfsRq → Option Ent} {clear : FairCfsRq → FairCfsRq}
    (hclear : ∀ c, (clear c).timeline = c.timeline ∧ (clear c).curr = c.curr ∧
      (clear c).load = c.load ∧ (clear c).minVruntime = c.minVruntime) (es : List Ent)
    (h : s.Ranked g) : s.Still g (s.clearUp g get clear es) := by
  induction es generalizing s with
  | nil => exact .refl h
  | cons e es ih =>
    simp only [clearUp]
    split
    · obtain ⟨htimeline, hcurr, hload, hmin⟩ := hclear (s.cfs (s.cfsRqOf g e))
      have h₁ : s.Still g (s.setCfs (s.cfsRqOf g e) clear) :=
        still_setCfs h htimeline hcurr (by rw [hload]; exact h.fresh _) hmin.ge
      exact h₁.trans (ih h₁.ranked)
    · exact .refl h

theorem still_clearBuddies (h : s.Ranked g) : s.Still g (s.clearBuddies g q e) := by
  have hup : ∀ (get : FairCfsRq → Option Ent) (clear : FairCfsRq → FairCfsRq),
      (∀ c, (clear c).timeline = c.timeline ∧ (clear c).curr = c.curr ∧ (clear c).load = c.load ∧
        (clear c).minVruntime = c.minVruntime) → ∀ s : FairRq, s.Ranked g →
      s.Still g (if get (s.cfs q) = some e then s.clearUp g get clear (s.path g e) else s) := by
    intro get clear hclear s h
    split
    · exact still_clearUp hclear _ h
    · exact .refl h
  have h₁ := hup (·.last) (fun c => { c with last := none }) (fun _ => ⟨rfl, rfl, rfl, rfl⟩) s h
  have h₂ := h₁.trans (hup (·.next) (fun c => { c with next := none })
    (fun _ => ⟨rfl, rfl, rfl, rfl⟩) _ h₁.ranked)
  exact h₂.trans (hup (·.skip) (fun c => { c with skip := none }) (fun _ => ⟨rfl, rfl, rfl, rfl⟩) _
    h₂.ranked)

theorem still_setBuddies {set : Ent → FairCfsRq → FairCfsRq}
    (hset : ∀ x c, (set x c).timeline = c.timeline ∧ (set x c).curr = c.curr ∧
      (set x c).load = c.load ∧ (set x c).minVruntime = c.minVruntime) (es : List Ent)
    (h : s.Ranked g) : s.Still g (s.setBuddies g set es) := by
  induction es generalizing s with
  | nil => exact .refl h
  | cons e es ih =>
    obtain ⟨htimeline, hcurr, hload, hmin⟩ := hset e (s.cfs (s.cfsRqOf g e))
    have h₁ : s.Still g (s.setCfs (s.cfsRqOf g e) (set e)) :=
      still_setCfs h htimeline hcurr (by rw [hload]; exact h.fresh _) hmin.ge
    exact h₁.trans (ih h₁.ranked)

theorem still_setNextBuddy (h : s.Ranked g) : s.Still g (s.setNextBuddy g e) := by
  simp only [setNextBuddy]
  split
  · exact .refl h
  · refine still_setBuddies ?_ _ h
    exact fun _ _ => ⟨rfl, rfl, rfl, rfl⟩

theorem still_setLastBuddy (h : s.Ranked g) : s.Still g (s.setLastBuddy g e) := by
  simp only [setLastBuddy]
  split
  · exact .refl h
  · refine still_setBuddies ?_ _ h
    exact fun _ _ => ⟨rfl, rfl, rfl, rfl⟩

theorem still_setSkipBuddy (h : s.Ranked g) : s.Still g (s.setSkipBuddy g e) := by
  simp only [setSkipBuddy]
  refine still_setBuddies ?_ _ h
  exact fun _ _ => ⟨rfl, rfl, rfl, rfl⟩

theorem still_returnCfsRqRuntime (h : s.Ranked g) : s.Still g (s.returnCfsRqRuntime t q) := by
  simp only [returnCfsRqRuntime]
  split
  · have h₁ : s.Still g (s.setCfs q (fun c => { c with
        runtime := (giveBackCfsRqRuntime (s.pools q) (s.cfs q).runtime).2 })) :=
      still_setCfs h rfl rfl (h.fresh q) le_rfl
    exact h₁.trans (still_of_eq h₁.ranked rfl rfl rfl rfl)
  · exact .refl h

theorem still_listAddLeafCfsRq (h : s.Ranked g) : s.Still g (s.listAddLeafCfsRq g q) := by
  simp only [listAddLeafCfsRq]
  split
  · exact .refl h
  · split
    · exact still_of_eq h rfl rfl rfl rfl
    · split
      · exact still_of_eq h rfl rfl rfl rfl
      · exact still_of_eq h rfl rfl rfl rfl

theorem still_walkTgTree {f : FairCfsRq → FairCfsRq}
    (hf : ∀ c, (f c).timeline = c.timeline ∧ (f c).curr = c.curr ∧ (f c).load = c.load ∧
      (f c).minVruntime = c.minVruntime) (h : s.Ranked g) : s.Still g (s.walkTgTree g q f) := by
  have hcfs : ∀ c, (if q ∈ g.above c then f (s.cfs c) else s.cfs c) = f (s.cfs c) ∨
      (if q ∈ g.above c then f (s.cfs c) else s.cfs c) = s.cfs c := by
    intro c
    split
    · exact .inl rfl
    · exact .inr rfl
  refine still_of h rfl rfl id (fun c => ?_) (fun c => ?_) (fun c => ?_) fun _ c => ?_
  all_goals rw [walkTgTree]
  all_goals dsimp only
  all_goals rcases hcfs c with hc | hc
  all_goals rw [hc]
  · exact (hf _).1
  · exact (hf _).2.1
  · rw [(hf _).2.2.1]
    exact h.fresh c
  · exact h.fresh c
  · exact (hf _).2.2.2.ge

/-- A timeline is replaced by another in order. -/
theorem calm_setTimeline {tl : List Ent} (h : s.Ranked g)
    (hcfs : b.cfs = (s.setCfs q (fun c => { c with timeline := tl })).cfs) (hses : b.ses = s.ses)
    (htask : b.taskCfs = s.taskCfs) (hstray : b.strayed = false → s.strayed = false)
    (hnodup : tl.Nodup) (hlinked : ∀ x ∈ tl, (s.ses x).onRq = true ∧ s.cfsRqOf g x = q)
    (hapart : ∀ x, (s.cfs q).curr = some x → x ∉ tl)
    (hsorted : b.strayed = false → tl.Pairwise fun a b => s.vruntime a ≤ s.vruntime b) :
    s.Calm g b := by
  have hhome := cfsRqOf_taskCfs (g := g) htask
  have hcfs : ∀ c, b.cfs c =
      { s.cfs c with timeline := if c = q then tl else (s.cfs c).timeline } := by
    intro c
    rw [hcfs, setCfs_cfs]
    split
    · rfl
    · rfl
  refine ⟨⟨⟨?_, ?_, ?_, ?_, ?_, ?_⟩, hstray, fun _ c => ?_, htask⟩, fun c => ?_⟩
  · intro c
    rw [hcfs]
    dsimp only
    split
    · exact hnodup
    · exact h.nodup c
  · intro c
    rw [hcfs, hses, hhome]
    dsimp only
    split
    · rename_i hc
      subst hc
      exact hlinked
    · exact h.linked c
  · intro c
    rw [hcfs, hhome]
    exact h.home_curr c
  · intro c
    rw [hcfs]
    dsimp only
    split
    · rename_i hc
      subst hc
      exact hapart
    · exact h.apart c
  · intro hb c
    simp only [hcfs, vruntime, hses]
    split
    · exact hsorted hb
    · exact h.sorted (hstray hb) c
  · intro c
    rw [hcfs]
    exact h.fresh c
  · rw [hcfs]
  · rw [hcfs]

theorem calm_linkEntity (h : s.Ranked g) (he : s.Loose e) (hon : (s.ses e).onRq = true)
    (hq : s.cfsRqOf g e = q) (hcurr : (s.cfs q).curr ≠ some e) : s.Calm g (s.linkEntity q e) := by
  refine calm_setTimeline h rfl rfl rfl (fun hs => (strayed_stray hs).1) ?_ (fun x hx => ?_)
    (fun x hx hmem => ?_) fun hs => ?_
  · rw [(perm_enqueueTimeline _ _ _).nodup_iff]
    exact List.nodup_cons.mpr ⟨he q, h.nodup q⟩
  · rcases mem_enqueueTimeline.mp hx with rfl | hx
    · exact ⟨hon, hq⟩
    · exact h.linked q x hx
  · rcases mem_enqueueTimeline.mp hmem with rfl | hmem
    · exact hcurr hx
    · exact h.apart q x hx hmem
  · obtain ⟨hs, hnear⟩ := strayed_stray hs
    exact sorted_enqueueTimeline (h.sorted hs q) (by simpa using hnear)

theorem calm_unlinkEntity (h : s.Ranked g) : s.Calm g (s.unlinkEntity q e) :=
  calm_setTimeline h rfl rfl rfl id ((h.nodup q).erase e)
    (fun x hx => h.linked q x (List.mem_of_mem_erase hx))
    (fun x hx hmem => h.apart q x hx (List.mem_of_mem_erase hmem))
    fun hs => (h.sorted hs q).sublist List.erase_sublist

theorem loose_unlinkEntity (h : s.Ranked g) (hq : s.cfsRqOf g e = q) : (s.unlinkEntity q e).Loose e := by
  intro c hmem
  by_cases hc : c = q
  · subst hc
    rw [unlinkEntity, setCfs_cfs_self] at hmem
    exact (h.nodup c).not_mem_erase hmem
  · rw [unlinkEntity, setCfs_cfs_of_ne _ hc] at hmem
    exact hc ((h.linked c e hmem).2.symm.trans hq)

/-- An entity that is in no timeline may become current on its queue, and any may cease to be. -/
theorem later_setCurr {curr : Option Ent} (h : s.Ranked g)
    (hcurr : ∀ x, curr = some x → s.cfsRqOf g x = q ∧ x ∉ (s.cfs q).timeline) :
    s.Later g (s.setCfs q (fun c => { c with curr := curr })) := by
  have hcfs : ∀ c, ((s.setCfs q (fun c => { c with curr := curr })).cfs c) =
      { s.cfs c with curr := if c = q then curr else (s.cfs c).curr } := by
    intro c
    by_cases hc : c = q
    · subst hc
      rw [setCfs_cfs_self, if_pos rfl]
    · rw [setCfs_cfs_of_ne _ hc, if_neg hc]
  refine ⟨⟨?_, ?_, ?_, ?_, fun hs => ?_, ?_⟩, id, fun _ => ?_, rfl⟩
  all_goals intro c
  all_goals rw [hcfs]
  · exact h.nodup c
  · exact h.linked c
  · intro x hx
    dsimp only at hx
    split at hx
    · rename_i hc
      exact (hcurr x hx).1.trans hc.symm
    · exact h.home_curr c x hx
  · intro x hx
    dsimp only at hx
    split at hx
    · rename_i hc
      subst hc
      exact (hcurr x hx).2
    · exact h.apart c x hx
  · exact h.sorted hs c
  · exact h.fresh c

/-- An entity that is not queued joins its queue. -/
theorem calm_joinEntity {flags : EnqueueFlags} (h : s.Ranked g) (hoff : (s.ses e).onRq = false)
    (hq : s.cfsRqOf g e = q) : s.Calm g (s.joinEntity g t q e flags) := by
  have hadd : ∀ (s' : FairRq) (c : Prop) [Decidable c], s.Still g s' → s.Still g
      (if c then s'.setSe e (fun se => { se with vruntime := se.vruntime + (s'.cfs q).minVruntime })
        else s') := by
    intro s' c _ hs
    split
    · exact hs.trans (still_setSe_loose hs.ranked (hs.loose (h.loose_off hoff)))
    · exact hs
  simp only [joinEntity]
  generalize hs₁ : (if (!flags.wakeup || flags.migrated) && decide ((s.cfs q).curr = some e) then
    s.setSe e (fun se => { se with vruntime := se.vruntime + (s.cfs q).minVruntime }) else s) = s₁
  have h₁ : s.Still g s₁ := hs₁ ▸ hadd s _ (.refl h)
  have h₂ := h₁.trans (still_updateCurr (t := t) (q := q) h₁.ranked)
  generalize s₁.updateCurr t q = s₂ at h₂
  generalize hs₃ : (if (!flags.wakeup || flags.migrated) && !decide ((s.cfs q).curr = some e) then
    s₂.setSe e (fun se => { se with vruntime := se.vruntime + (s₂.cfs q).minVruntime }) else s₂) = s₃
  have h₃ : s.Still g s₃ := hs₃ ▸ hadd s₂ _ h₂
  have h₄ := h₃.trans (still_updateCfsShares (t := t) (e := e) h₃.ranked)
  have h₅ := h₄.trans (still_accountEntityEnqueue (q := q) (e := e) h₄.ranked)
  generalize (s₃.updateCfsShares g t e).accountEntityEnqueue q e = s₅ at h₅
  have hloose₅ := h₅.loose (h.loose_off hoff)
  generalize hs₆ : (if flags.wakeup then s₅.placeEntity g t q e false else s₅) = s₆
  have h₆ : s.Still g s₆ := by
    rw [← hs₆]
    split
    · exact h₅.trans (still_placeEntity h₅.ranked hloose₅ false)
    · exact h₅
  have hloose₆ := h₆.loose (h.loose_off hoff)
  have h₇ := h₆.trans (still_setSe_loose (f := fun se => { se with onRq := true }) h₆.ranked hloose₆)
  split
  · exact h₇.toCalm
  · rename_i hcurr
    have hcomm : (s₆.linkEntity q e).setSe e (fun se => { se with onRq := true }) =
        (s₆.setSe e (fun se => { se with onRq := true })).linkEntity q e := by
      have hv : (s₆.setSe e (fun se => { se with onRq := true })).vruntime = s₆.vruntime := by
        funext x
        by_cases hx : x = e
        · subst hx
          simp only [vruntime, setSe_ses_self]
        · simp only [vruntime, setSe_ses_of_ne _ hx]
      rw [linkEntity, linkEntity, hv]
      rfl
    rw [hcomm]
    refine h₇.toCalm.trans (calm_linkEntity h₇.ranked (h₇.loose (h.loose_off hoff)) ?_ ?_ ?_)
    · rw [setSe_ses_self]
    · rw [h₇.cfsRqOf, hq]
    · rw [h₇.curr]
      simpa using hcurr

/-- An entity leaves its queue. -/
theorem calm_dequeueEntity {flags : DequeueFlags} (h : s.Ranked g) (hq : s.cfsRqOf g e = q) :
    s.Calm g (s.dequeueEntity g t q e flags) := by
  simp only [dequeueEntity]
  have h₁ := still_updateCurr (t := t) (q := q) h
  have h₂ := h₁.trans (still_clearBuddies (q := q) (e := e) h₁.ranked)
  generalize (s.updateCurr t q).clearBuddies g q e = s₂ at h₂
  generalize hs₃ : (if (s₂.cfs q).curr = some e then s₂ else s₂.unlinkEntity q e) = s₃
  have h₃ : s.Calm g s₃ ∧ s₃.Loose e := by
    rw [← hs₃]
    split
    · rename_i hcurr
      exact ⟨h₂.toCalm, h₂.ranked.loose_curr hcurr⟩
    · exact ⟨h₂.toCalm.trans (calm_unlinkEntity h₂.ranked),
        loose_unlinkEntity h₂.ranked ((h₂.cfsRqOf e).trans hq)⟩
  obtain ⟨h₃, hloose₃⟩ := h₃
  have h₄ := still_setSe_loose (f := fun se => { se with onRq := false }) h₃.ranked hloose₃
  have h₅ := h₄.trans (still_accountEntityDequeue (q := q) (e := e) h₄.ranked)
  have hloose₅ := h₅.loose hloose₃
  generalize (s₃.setSe e (fun se => { se with onRq := false })).accountEntityDequeue q e = s₅ at h₅ hloose₅
  generalize hs₆ : (if flags.sleep then s₅ else
    s₅.setSe e (fun se => { se with vruntime := se.vruntime - (s₅.cfs q).minVruntime })) = s₆
  have h₆ : s₃.Still g s₆ := by
    rw [← hs₆]
    split
    · exact h₅
    · exact h₅.trans (still_setSe_loose h₅.ranked hloose₅)
  have h₇ := h₆.trans (still_returnCfsRqRuntime (t := t) (q := q) h₆.ranked)
  have h₈ := h₇.trans (still_updateCfsShares (t := t) (e := e) h₇.ranked)
  split
  · exact h₃.trans (h₈.trans (still_updateMinVruntime h₈.ranked)).toCalm
  · exact h₃.trans h₈.toCalm

theorem still_setCount (h : s.Ranked g) (f : Nat → Nat) :
    s.Still g (s.setCfs q (fun c => { c with hNrRunning := f c.hNrRunning })) :=
  still_setCfs h rfl rfl (h.fresh q) le_rfl

theorem calm_throttleUp {taskDelta : Nat} {es : List Ent} {dequeue : Bool} (h : s.Ranked g) :
    s.Calm g (s.throttleUp g t taskDelta es dequeue).1 := by
  induction es generalizing s dequeue with
  | nil => exact .refl h
  | cons e es ih =>
    simp only [throttleUp]
    split
    · generalize hs₁ : (if dequeue then s.dequeueEntity g t (s.cfsRqOf g e) e .asleep else s) = s₁
      have h₁ : s.Calm g s₁ := by
        rw [← hs₁]
        split
        · exact calm_dequeueEntity h rfl
        · exact .refl h
      have h₂ := h₁.trans (still_setCount (q := s.cfsRqOf g e) h₁.ranked (· - taskDelta)).toCalm
      exact h₂.trans (ih h₂.ranked)
    · exact .refl h

theorem still_tgThrottleDown (h : s.Ranked g) :
    s.Still g (s.walkTgTree g q (tgThrottleDown s.clockTask)) :=
  still_walkTgTree (fun _ => ⟨rfl, rfl, rfl, rfl⟩) h

theorem calm_throttleCfsRq (h : s.Ranked g) : s.Calm g (s.throttleCfsRq g t q) := by
  simp only [throttleCfsRq]
  have h₁ := still_tgThrottleDown (q := q) h
  generalize s.walkTgTree g q (tgThrottleDown s.clockTask) = s₁ at h₁
  have hup : s₁.Calm g (s₁.throttleUp g t (s₁.cfs q).hNrRunning (g.entities q) true).1 :=
    calm_throttleUp h₁.ranked
  have h₂ := h₁.toCalm.trans hup
  generalize s₁.throttleUp g t (s₁.cfs q).hNrRunning (g.entities q) true = r at h₂
  generalize hs₃ : (if r.2 then { r.1 with nrRunning := r.1.nrRunning - (s₁.cfs q).hNrRunning }
    else r.1) = s₃
  have h₃ : s.Calm g s₃ := by
    rw [← hs₃]
    split
    · exact h₂.same rfl rfl rfl rfl
    · exact h₂
  have h₄ : s₃.Still g (s₃.setCfs q (fun c => { c with throttled := true, throttledClock := s₃.clock })) :=
    still_setCfs h₃.ranked rfl rfl (h₃.ranked.fresh q) le_rfl
  exact (h₃.trans h₄.toCalm).same rfl rfl rfl rfl

theorem calm_checkEnqueueThrottle (h : s.Ranked g) : s.Calm g (s.checkEnqueueThrottle g t q) := by
  simp only [checkEnqueueThrottle]
  split
  · exact .refl h
  · have h₁ := (still_accountCfsRqRuntime (t := t) (q := q) h 0).toCalm
    split
    · exact h₁.trans (calm_throttleCfsRq h₁.ranked)
    · exact h₁

theorem calm_enqueueEntity {flags : EnqueueFlags} (h : s.Ranked g) (hoff : (s.ses e).onRq = false)
    (hq : s.cfsRqOf g e = q) : s.Calm g (s.enqueueEntity g t q e flags) := by
  simp only [enqueueEntity]
  have h₁ : s.Calm g (s.joinEntity g t q e flags) := calm_joinEntity h hoff hq
  split
  · have h₂ := h₁.trans (still_listAddLeafCfsRq (q := q) h₁.ranked).toCalm
    exact h₂.trans (calm_checkEnqueueThrottle h₂.ranked)
  · exact h₁

theorem calm_unthrottleUp {taskDelta : Nat} {es : List Ent} {enqueue : Bool} (h : s.Ranked g) :
    s.Calm g (s.unthrottleUp g t taskDelta es enqueue).1 := by
  induction es generalizing s enqueue with
  | nil => exact .refl h
  | cons e es ih =>
    simp only [unthrottleUp]
    generalize hs₁ : (if enqueue && !(s.ses e).onRq then
      s.enqueueEntity g t (s.cfsRqOf g e) e .wake else s) = s₁
    have h₁ : s.Calm g s₁ := by
      rw [← hs₁]
      split
      · rename_i hcond
        rw [Bool.and_eq_true, Bool.not_eq_true'] at hcond
        exact calm_enqueueEntity h hcond.2 rfl
      · exact .refl h
    have h₂ := h₁.trans (still_setCount (q := s.cfsRqOf g e) h₁.ranked (· + taskDelta)).toCalm
    split
    · exact h₂
    · exact h₂.trans (ih h₂.ranked)

theorem still_unthrottleDown (h : s.Ranked g) : s.Still g (s.unthrottleDown g q) := by
  simp only [unthrottleDown]
  have h₁ : s.Still g (s.setCfs q (fun c => { c with throttled := false })) :=
    still_setCfs h rfl rfl (h.fresh q) le_rfl
  generalize s.setCfs q (fun c => { c with throttled := false }) = s₁ at h₁
  have hwalk : ∀ pools, s.Still g
      ({ s₁ with pools := pools }.walkTgTree g q (tgUnthrottleUp s₁.clockTask)) := by
    intro pools
    have h₂ : s.Still g { s₁ with pools := pools } := h₁.same rfl rfl rfl rfl
    exact h₂.trans (still_walkTgTree (fun _ => ⟨rfl, rfl, rfl, rfl⟩) h₂.ranked)
  exact hwalk _

theorem calm_unthrottleCfsRq (h : s.Ranked g) : s.Calm g (s.unthrottleCfsRq g t q) := by
  simp only [unthrottleCfsRq]
  have h₁ := (still_unthrottleDown (q := q) h).toCalm
  generalize s.unthrottleDown g q = s₁ at h₁
  split
  · exact h₁
  · have hup : s₁.Calm g (s₁.unthrottleUp g t (s₁.cfs q).hNrRunning (g.entities q) true).1 :=
      calm_unthrottleUp h₁.ranked
    have h₂ := h₁.trans hup
    generalize s₁.unthrottleUp g t (s₁.cfs q).hNrRunning (g.entities q) true = r at h₂
    generalize hs₃ : (if r.2 then { r.1 with nrRunning := r.1.nrRunning + (s₁.cfs q).hNrRunning }
      else r.1) = s₃
    have h₃ : s.Calm g s₃ := by
      rw [← hs₃]
      split
      · exact h₂.same rfl rfl rfl rfl
      · exact h₂
    split
    · exact h₃.same rfl rfl rfl rfl
    · exact h₃

theorem calm_enqueueUp {es : List Ent} {flags : EnqueueFlags} (h : s.Ranked g) :
    s.Calm g (s.enqueueUp g t es flags).1 := by
  induction es generalizing s flags with
  | nil => exact .refl h
  | cons e es ih =>
    simp only [enqueueUp]
    split
    · exact .refl h
    · rename_i hoff
      have h₁ : s.Calm g (s.enqueueEntity g t (s.cfsRqOf g e) e flags) :=
        calm_enqueueEntity h (by simpa using hoff) rfl
      split
      · exact h₁
      · have h₂ := h₁.trans (still_setCount (q := s.cfsRqOf g e) h₁.ranked (· + 1)).toCalm
        exact h₂.trans (ih h₂.ranked)

theorem calm_countUp {f : Nat → Nat} {es : List Ent} (h : s.Ranked g) :
    s.Calm g (s.countUp g t f es).1 := by
  induction es generalizing s with
  | nil => exact .refl h
  | cons e es ih =>
    simp only [countUp]
    have h₁ := (still_setCount (q := s.cfsRqOf g e) h f).toCalm
    split
    · exact h₁
    · have h₂ := h₁.trans (still_updateCfsShares (t := t) (e := e) h₁.ranked).toCalm
      exact h₂.trans (ih h₂.ranked)

theorem calm_enqueueTaskFair {p : Nat} {flags : EnqueueFlags} (h : s.Ranked g) :
    s.Calm g (s.enqueueTaskFair g t p flags) := by
  simp only [enqueueTaskFair]
  have h₁ : s.Calm g (s.enqueueUp g t (s.path g (.task p)) flags).1 := calm_enqueueUp h
  generalize s.enqueueUp g t (s.path g (.task p)) flags = r at h₁
  have hup : r.1.Calm g (r.1.countUp g t (· + 1) r.2).1 := calm_countUp h₁.ranked
  have h₂ := h₁.trans hup
  split
  · exact h₂.same rfl rfl rfl rfl
  · exact h₂

theorem calm_dequeueUp {taskSleep : Bool} {es : List Ent} {flags : DequeueFlags} (h : s.Ranked g) :
    s.Calm g (s.dequeueUp g t taskSleep es flags).1 := by
  induction es generalizing s flags with
  | nil => exact .refl h
  | cons e es ih =>
    simp only [dequeueUp]
    have h₁ : s.Calm g (s.dequeueEntity g t (s.cfsRqOf g e) e flags) := calm_dequeueEntity h rfl
    split
    · exact h₁
    · have h₂ := h₁.trans (still_setCount (q := s.cfsRqOf g e) h₁.ranked (· - 1)).toCalm
      split
      · split
        · exact h₂
        · split
          · exact h₂.trans (still_setNextBuddy h₂.ranked).toCalm
          · exact h₂
      · exact h₂.trans (ih h₂.ranked)

theorem calm_dequeueTaskFair {p : Nat} {flags : DequeueFlags} (h : s.Ranked g) :
    s.Calm g (s.dequeueTaskFair g t p flags) := by
  simp only [dequeueTaskFair]
  have h₁ : s.Calm g (s.dequeueUp g t flags.sleep (s.path g (.task p)) flags).1 := calm_dequeueUp h
  generalize s.dequeueUp g t flags.sleep (s.path g (.task p)) flags = r at h₁
  have hup : r.1.Calm g (r.1.countUp g t (· - 1) r.2).1 := calm_countUp h₁.ranked
  have h₂ := h₁.trans hup
  split
  · exact h₂.same rfl rfl rfl rfl
  · exact h₂

theorem calm_distributeCfsRuntime {runtime expires : Nat} (h : s.Ranked g) :
    s.Calm g (s.distributeCfsRuntime g t q runtime expires) := by
  simp only [distributeCfsRuntime]
  split
  · have h₁ : s.Still g (s.setCfs q (fun c => { c with runtime := { c.runtime with
        runtimeRemaining := c.runtime.runtimeRemaining + runtime
        runtimeExpires := expires } })) := still_setCfs h rfl rfl (h.fresh q) le_rfl
    split
    · exact h₁.toCalm.trans (calm_unthrottleCfsRq h₁.ranked)
    · exact h₁.toCalm
  · exact .refl h

theorem calm_unthrottleOffline (h : s.Ranked g) : s.Calm g (s.unthrottleOffline g t q) := by
  simp only [unthrottleOffline]
  split
  · exact .refl h
  · have h₁ : s.Still g (s.setCfs q (fun c => { c with runtime := { c.runtime with
        runtimeRemaining := 1
        runtimeEnabled := false } })) := still_setCfs h rfl rfl (h.fresh q) le_rfl
    split
    · exact h₁.toCalm.trans (calm_unthrottleCfsRq h₁.ranked)
    · exact h₁.toCalm

theorem calm_checkCfsRqRuntime (h : s.Ranked g) : s.Calm g (s.checkCfsRqRuntime g t q).1 := by
  simp only [checkCfsRqRuntime]
  split
  · exact .refl h
  · split
    · exact .refl h
    · split
      · exact .refl h
      · exact calm_throttleCfsRq h

theorem still_pickNextEntity {curr : Option Ent} (h : s.Ranked g) :
    s.Still g (s.pickNextEntity g t q curr).2 := by
  simp only [pickNextEntity]
  split
  · exact .refl h
  · exact still_clearBuddies h

theorem later_setNextEntity (h : s.Ranked g) (hq : s.cfsRqOf g e = q) :
    s.Later g (s.setNextEntity q e) := by
  simp only [setNextEntity]
  generalize hs₁ : (if (s.ses e).onRq then s.unlinkEntity q e else s) = s₁
  have h₁ : s.Calm g s₁ ∧ s₁.Loose e := by
    rw [← hs₁]
    split
    · exact ⟨calm_unlinkEntity h, loose_unlinkEntity h hq⟩
    · rename_i hoff
      exact ⟨.refl h, h.loose_off (by simpa using hoff)⟩
  obtain ⟨h₁, hloose⟩ := h₁
  have h₂ : s₁.Later g (s₁.setCfs q (fun c => { c with curr := some e })) := by
    refine later_setCurr h₁.ranked ?_
    rintro _ ⟨⟩
    exact ⟨(h₁.cfsRqOf e).trans hq, hloose q⟩
  exact (h₁.toLater.trans h₂).trans (still_setSe h₂.ranked rfl rfl).toLater

/-- The current entity goes back. -/
theorem later_putPrevEntity (h : s.Ranked g) (hcurr : (s.cfs q).curr = some e) :
    s.Later g (s.putPrevEntity g t q e) := by
  simp only [putPrevEntity]
  generalize hs₁ : (if (s.ses e).onRq then s.updateCurr t q else s) = s₁
  have h₁ : s.Still g s₁ := by
    rw [← hs₁]
    split
    · exact still_updateCurr h
    · exact .refl h
  have h₂ := h₁.toCalm.trans (calm_checkCfsRqRuntime (t := t) (q := q) h₁.ranked)
  generalize (s₁.checkCfsRqRuntime g t q).1 = s₂ at h₂
  have hcurr₂ : (s₂.cfs q).curr = some e := (h₂.curr q).trans hcurr
  have h₃ : s₂.Later g (s₂.setCfs q (fun c => { c with curr := none })) := by
    refine later_setCurr h₂.ranked fun _ he => ?_
    cases he
  have hloose₃ : (s₂.setCfs q (fun c => { c with curr := none })).Loose e := by
    intro c
    have hloose := h₂.ranked.loose_curr hcurr₂ c
    by_cases hc : c = q
    · subst hc
      rwa [setCfs_cfs_self]
    · rwa [setCfs_cfs_of_ne _ hc]
  split
  · rename_i hon
    have hcomm : (s₂.linkEntity q e).setCfs q (fun c => { c with curr := none }) =
        (s₂.setCfs q (fun c => { c with curr := none })).linkEntity q e := by
      simp only [linkEntity, setCfs, stray, Function.update_self, Function.update_idem]
      rfl
    rw [hcomm]
    refine h₂.toLater.trans (h₃.trans (calm_linkEntity h₃.ranked hloose₃ hon ?_ ?_).toLater)
    · rw [h₃.cfsRqOf]
      exact h₂.ranked.home_curr q e hcurr₂
    · rw [setCfs_cfs_self]
      intro he
      cases he
  · exact h₂.toLater.trans h₃

theorem curr_putPrevEntity (h : s.Ranked g) {c : Nat} (hc : c ≠ q) :
    ((s.putPrevEntity g t q e).cfs c).curr = (s.cfs c).curr := by
  simp only [putPrevEntity]
  generalize hs₁ : (if (s.ses e).onRq then s.updateCurr t q else s) = s₁
  have h₁ : s.Still g s₁ := by
    rw [← hs₁]
    split
    · exact still_updateCurr h
    · exact .refl h
  have h₂ := h₁.toCalm.trans (calm_checkCfsRqRuntime (t := t) (q := q) h₁.ranked)
  rw [setCfs_cfs_of_ne _ hc]
  split
  · rw [linkEntity, stray_cfs, setCfs_cfs_of_ne _ hc, h₂.curr]
  · rw [h₂.curr]

/-- The entities of a path are on different queues. -/
theorem path_pairwise : (s.path g e).Pairwise fun x y => s.cfsRqOf g y < s.cfsRqOf g x := by
  generalize hq : s.cfsRqOf g e = q
  induction q using Nat.strong_induction_on generalizing e with
  | _ q ih =>
    rw [path, hq]
    by_cases hq0 : q = 0
    · subst hq0
      exact List.pairwise_singleton _ e
    · have hlt := g.parent_lt q hq0
      have hih := ih _ hlt (e := .group q) rfl
      rw [g.entities_of_ne hq0]
      refine List.pairwise_cons.mpr ⟨fun x hx => ?_, hih⟩
      rw [hq]
      rcases List.mem_cons.mp hx with rfl | hx
      · exact hlt
      · exact ((List.pairwise_cons.mp hih).1 x hx).trans hlt

theorem later_putUp {es : List Ent} (h : s.Ranked g)
    (hes : es.Pairwise fun x y => s.cfsRqOf g y < s.cfsRqOf g x)
    (hcurr : ∀ x ∈ es, (s.cfs (s.cfsRqOf g x)).curr = some x) : s.Later g (s.putUp g t es) := by
  induction es generalizing s with
  | nil => exact .refl h
  | cons e es ih =>
    obtain ⟨hbelow, hes⟩ := List.pairwise_cons.mp hes
    have h₁ := later_putPrevEntity (t := t) h (hcurr e List.mem_cons_self)
    refine h₁.trans (ih h₁.ranked (by simpa only [h₁.cfsRqOf] using hes) fun x hx => ?_)
    rw [h₁.cfsRqOf, curr_putPrevEntity h (hbelow x hx).ne]
    exact hcurr x (List.mem_cons_of_mem _ hx)

theorem later_setUp {es : List Ent} (h : s.Ranked g) : s.Later g (s.setUp g t es) := by
  induction es generalizing s with
  | nil => exact .refl h
  | cons e es ih =>
    have h₁ := later_setNextEntity h (rfl : s.cfsRqOf g e = s.cfsRqOf g e)
    have h₂ := h₁.trans (still_accountCfsRqRuntime (t := t) (q := s.cfsRqOf g e) h₁.ranked 0).toLater
    exact h₂.trans (ih h₂.ranked)

theorem calm_pickFast {turns : Nat} {r : Option Nat} (h : s.Ranked g)
    (hpick : s.pickFast g t turns q = some (r, s')) : s.Calm g s' := by
  induction turns generalizing s q with
  | zero => cases hpick
  | succ turns ih =>
    simp only [pickFast] at hpick
    generalize hs₁ : (if (s.currOnRq q).isSome then s.updateCurr t q else s) = s₁ at hpick
    have h₁ : s.Calm g s₁ := by
      rw [← hs₁]
      split
      · exact (still_updateCurr h).toCalm
      · exact .refl h
    generalize hr : (if (s₁.cfs q).curr.isSome then s₁.checkCfsRqRuntime g t q else (s₁, false)) = r₂
      at hpick
    have h₂ : s.Calm g r₂.1 := by
      rw [← hr]
      split
      · exact h₁.trans (calm_checkCfsRqRuntime h₁.ranked)
      · exact h₁
    split at hpick
    · cases hpick
      exact h₂
    · have hnext : r₂.1.Still g (r₂.1.pickNextEntity g t q (s.currOnRq q)).2 :=
        still_pickNextEntity h₂.ranked
      have h₃ := h₂.trans hnext.toCalm
      split at hpick
      · cases hpick
      · rename_i heq
        cases hpick
        rw [heq] at h₃
        exact h₃
      · rename_i heq
        rw [heq] at h₃
        exact h₃.trans (ih h₃.ranked hpick)

theorem still_entityTick (h : s.Ranked g) : s.Still g (s.entityTick g t q e) := by
  simp only [entityTick]
  have h₁ := still_updateCurr (t := t) (q := q) h
  have h₂ := h₁.trans (still_updateCfsShares (t := t) (e := e) h₁.ranked)
  generalize (s.updateCurr t q).updateCfsShares g t e = s₂ at h₂
  split
  · simp only [checkPreemptTick]
    have h₃ : s.Still g s₂.reschedCurr := h₂.same rfl rfl rfl rfl
    split
    · exact h₃.trans (still_clearBuddies h₃.ranked)
    · split
      · exact h₂
      · split
        · exact h₂
        · split
          · exact h₂
          · split
            · exact h₃
            · exact h₂
  · exact h₂

theorem still_taskTickFair (h : s.Ranked g) : s.Still g (s.taskTickFair g t) := by
  have hup : ∀ (es : List Ent) (s : FairRq), s.Ranked g → s.Still g (s.tickUp g t es) := by
    intro es
    induction es with
    | nil => exact fun _ h => .refl h
    | cons e es ih =>
      intro s h
      have h₁ := still_entityTick (t := t) (q := s.cfsRqOf g e) (e := e) h
      exact h₁.trans (ih _ h₁.ranked)
  simp only [taskTickFair]
  split
  · exact .refl h
  · exact hup _ s h

theorem still_checkPreemptWakeup {p : Nat} {batch fork : Bool} (h : s.Ranked g) :
    s.Still g (s.checkPreemptWakeup g t p batch fork) := by
  have hlast : ∀ (s' : FairRq) (se : Ent) (c : Prop) [Decidable c], s.Still g s' → s.Still g
      (if c then s'.reschedCurr.setLastBuddy g se else s'.reschedCurr) := by
    intro s' se c _ hs
    have hs' : s.Still g s'.reschedCurr := hs.same rfl rfl rfl rfl
    split
    · exact hs'.trans (still_setLastBuddy hs'.ranked)
    · exact hs'
  simp only [checkPreemptWakeup]
  split
  · exact .refl h
  split
  · exact .refl h
  split
  · exact .refl h
  rename_i curr _ _ _
  generalize (t.nextBuddy && decide ((s.cfs (s.taskCfs curr)).nrRunning ≥ t.nrLatency) && !fork) = marked
  generalize hs₁ : (if marked = true then s.setNextBuddy g (.task p) else s) = s₁
  have h₁ : s.Still g s₁ := by
    rw [← hs₁]
    split
    · exact still_setNextBuddy h
    · exact .refl h
  split
  · exact h₁
  split
  · exact hlast _ _ _ h₁
  split
  · exact h₁
  generalize s₁.findMatchingSe g (g.size + g.size) (.task curr) (.task p) = m
  have h₂ := h₁.trans (still_updateCurr (t := t) (q := s₁.cfsRqOf g m.1) h₁.ranked)
  generalize s₁.updateCurr t (s₁.cfsRqOf g m.1) = s₂ at h₂
  split
  · generalize hs₃ : (if marked = true then s₂ else s₂.setNextBuddy g m.2) = s₃
    have h₃ : s.Still g s₃ := by
      rw [← hs₃]
      split
      · exact h₂
      · exact h₂.trans (still_setNextBuddy h₂.ranked)
    exact hlast _ _ _ h₃
  · exact h₂

theorem still_yieldTaskFair {others : Nat} {batch : Bool} (h : s.Ranked g) :
    s.Still g (s.yieldTaskFair g t others batch) := by
  simp only [yieldTaskFair]
  split
  · exact .refl h
  · split
    · exact .refl h
    · rename_i curr _ _
      have h₁ := still_clearBuddies (q := s.taskCfs curr) (e := .task curr) h
      split
      · exact h₁.trans (still_setSkipBuddy h₁.ranked)
      · have h₂ := h₁.trans (still_updateCurr (t := t) (q := s.taskCfs curr) h₁.ranked)
        exact h₂.trans (still_setSkipBuddy h₂.ranked)

theorem still_yieldToTaskFair {p others : Nat} {batch : Bool} (h : s.Ranked g) :
    s.Still g (s.yieldToTaskFair g t p others batch) := by
  simp only [yieldToTaskFair]
  split
  · exact .refl h
  · have h₁ := still_setNextBuddy (e := .task p) h
    exact h₁.trans (still_yieldTaskFair h₁.ranked)

theorem still_taskForkFair {p : Nat} (h : s.Ranked g) (hoff : (s.ses (.task p)).onRq = false) :
    s.Still g (s.taskForkFair g t p) := by
  simp only [taskForkFair]
  split
  · exact .refl h
  rename_i parent _
  have hp := h.loose_off hoff
  cases hc : (s.cfs (s.taskCfs parent)).curr with
  | none =>
    have h₁ := still_placeEntity (t := t) (q := s.taskCfs parent) h hp true
    exact h₁.trans (still_setSe_loose h₁.ranked (h₁.loose hp))
  | some c =>
    have hloose := h.loose_curr hc
    have h₁ := still_updateCurr (t := t) (q := s.taskCfs parent) h
    have h₂ := h₁.trans (still_setSe_loose (f := fun se => { se with
      vruntime := (s.updateCurr t (s.taskCfs parent)).vruntime c }) h₁.ranked (h₁.loose hp))
    have h₃ := h₂.trans (still_placeEntity (t := t) (q := s.taskCfs parent) h₂.ranked (h₂.loose hp) true)
    dsimp only
    generalize ((s.updateCurr t (s.taskCfs parent)).setSe (.task p) (fun se => { se with
      vruntime := (s.updateCurr t (s.taskCfs parent)).vruntime c })).placeEntity g t (s.taskCfs parent)
      (.task p) true = s₃ at h₃
    split
    · have h₄ := h₃.trans (still_setSe_loose (f := fun se => { se with vruntime := s₃.vruntime (.task p) })
        h₃.ranked (h₃.loose hloose))
      have h₅ := h₄.trans (still_setSe_loose (f := fun se => { se with vruntime := s₃.vruntime c })
        h₄.ranked (h₄.loose hp))
      have h₆ : s.Still g ((s₃.setSe c (fun se => { se with vruntime := s₃.vruntime (.task p) })).setSe
          (.task p) (fun se => { se with vruntime := s₃.vruntime c })).reschedCurr :=
        h₅.same rfl rfl rfl rfl
      exact h₆.trans (still_setSe_loose h₆.ranked (h₆.loose hp))
    · exact h₃.trans (still_setSe_loose h₃.ranked (h₃.loose hp))

theorem still_migrateTaskRqFair {p : Nat} {waking : Bool} (h : s.Ranked g)
    (hoff : (s.ses (.task p)).onRq = false) : s.Still g (s.migrateTaskRqFair p waking) := by
  simp only [migrateTaskRqFair]
  exact still_setSe_loose h (h.loose_off hoff)

theorem still_detachTaskCfsRq {p : Nat} {onRq waking : Bool} (h : s.Ranked g)
    (hoff : onRq = false → (s.ses (.task p)).onRq = false) :
    s.Still g (s.detachTaskCfsRq g t p onRq waking) := by
  simp only [detachTaskCfsRq]
  split
  · exact .refl h
  · rename_i hcond
    have hp := h.loose_off (hoff (by simp [vruntimeNormalized] at hcond; simp [hcond]))
    have h₁ := still_placeEntity (t := t) (q := s.taskCfs p) h hp false
    exact h₁.trans (still_setSe_loose h₁.ranked (h₁.loose hp))

theorem still_attachTaskCfsRq {p : Nat} {onRq waking : Bool} (h : s.Ranked g)
    (hoff : onRq = false → (s.ses (.task p)).onRq = false) :
    s.Still g (s.attachTaskCfsRq p onRq waking) := by
  simp only [attachTaskCfsRq]
  split
  · exact .refl h
  · rename_i hcond
    exact still_setSe_loose h (h.loose_off (hoff (by simp [vruntimeNormalized] at hcond; simp [hcond])))

theorem still_schedGroupSetShares {shares : Nat} (h : s.Ranked g) :
    s.Still g (s.schedGroupSetShares g t q shares) := by
  have hup : ∀ (es : List Ent) (s : FairRq), s.Ranked g → s.Still g (s.sharesUp g t es) := by
    intro es
    induction es with
    | nil => exact fun _ h => .refl h
    | cons e es ih =>
      intro s h
      have h₁ := still_updateCfsShares (t := t) (e := e) h
      exact h₁.trans (ih _ h₁.ranked)
  simp only [schedGroupSetShares]
  generalize Function.update s.inputs q _ = inputs
  have h₁ : s.Still g { s with inputs := inputs } := still_of_eq h rfl rfl rfl rfl
  exact h₁.trans (hup _ _ h₁.ranked)

end FairRq

end MSchedutil
