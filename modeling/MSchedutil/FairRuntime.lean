import MSchedutil.FairShape

/-! A queue that has been charged up to now and has runtime left: it is not throttled before the
clock moves, whatever is taken from the queues around it. -/

namespace MSchedutil

open Word

namespace FairRq

variable {g : Groups} {t : FairTunables} {s s' : FairRq} {q c : Nat} {e : Ent}

/-- `update_curr` has nothing to charge the queue for. -/
def Charged (s : FairRq) (c : Nat) : Prop :=
  ∀ e, s.currOnRq c = some e → s64 (sub64 s.clockTask (s.ses e).execStart) ≤ 0

/-- The queue would not be throttled. -/
def Paid (t : FairTunables) (s : FairRq) (c : Nat) : Prop :=
  t.cfsBandwidthUsed = false ∨ (s.cfs c).runtime.runtimeEnabled = false ∨
    (0 < (s.cfs c).runtime.runtimeRemaining ∧ s.Charged c)

theorem s64_sub64_self (x : Nat) : s64 (sub64 x x) ≤ 0 := by
  have hzero : sub64 x x = 0 := by
    simp only [sub64, u64]
    omega
  rw [hzero]
  rfl

theorem currOnRq_eq_some : s.currOnRq q = some e ↔ (s.cfs q).curr = some e ∧ (s.ses e).onRq = true :=
  Option.filter_eq_some_iff

/-- Entities are charged, if anything, up to now. -/
theorem Charged.mono (h : s.Charged c) (hclock : s'.clockTask = s.clockTask)
    (hcurr : ∀ e, s'.currOnRq c = some e → s.currOnRq c = some e)
    (hexec : ∀ e, (s'.ses e).execStart = (s.ses e).execStart ∨
      (s'.ses e).execStart = s.clockTask) : s'.Charged c := by
  intro e he
  rw [hclock]
  rcases hexec e with heq | heq
  · rw [heq]
    exact h e (hcurr e he)
  · rw [heq]
    exact s64_sub64_self _

theorem Paid.mono (h : s.Paid t c) (hruntime : (s'.cfs c).runtime = (s.cfs c).runtime)
    (hclock : s'.clockTask = s.clockTask)
    (hcurr : ∀ e, s'.currOnRq c = some e → s.currOnRq c = some e)
    (hexec : ∀ e, (s'.ses e).execStart = (s.ses e).execStart ∨
      (s'.ses e).execStart = s.clockTask) : s'.Paid t c := by
  rcases h with hused | hlimited | ⟨hpos, hcharged⟩
  · exact .inl hused
  · exact .inr (.inl (by rwa [hruntime]))
  · exact .inr (.inr ⟨by rwa [hruntime], hcharged.mono hclock hcurr hexec⟩)

theorem Paid.setCfs (h : s.Paid t c) {k : FairCfsRq → FairCfsRq}
    (hruntime : (k (s.cfs q)).runtime = (s.cfs q).runtime)
    (hcurr : (k (s.cfs q)).curr = (s.cfs q).curr ∨ (k (s.cfs q)).curr = none) :
    (s.setCfs q k).Paid t c := by
  refine h.mono ?_ rfl (fun e he => ?_) fun e => .inl rfl
  · by_cases hc : c = q
    · subst hc
      rw [setCfs_cfs_self, hruntime]
    · rw [setCfs_cfs_of_ne k hc]
  · rw [currOnRq_eq_some] at he ⊢
    by_cases hc : c = q
    · subst hc
      rw [setCfs_cfs_self] at he
      rcases hcurr with heq | heq
      · rwa [heq] at he
      · rw [heq] at he
        cases he.1
    · rwa [setCfs_cfs_of_ne k hc] at he

theorem Paid.setSe (h : s.Paid t c) {f : FairEntity → FairEntity}
    (hon : (f (s.ses e)).onRq = true → (s.ses e).onRq = true)
    (hexec : (f (s.ses e)).execStart = (s.ses e).execStart ∨ (f (s.ses e)).execStart = s.clockTask) :
    (s.setSe e f).Paid t c := by
  refine h.mono rfl rfl (fun x hx => ?_) fun x => ?_
  · rw [currOnRq_eq_some] at hx ⊢
    by_cases hxe : x = e
    · subst hxe
      rw [setSe_ses_self] at hx
      exact ⟨hx.1, hon hx.2⟩
    · rwa [setSe_ses_of_ne f hxe] at hx
  · by_cases hxe : x = e
    · subst hxe
      rw [setSe_ses_self]
      exact hexec
    · exact .inl (by rw [setSe_ses_of_ne f hxe])

theorem Paid.stray (h : s.Paid t c) (far : Bool) : (s.stray far).Paid t c := h

theorem Paid.updateMinVruntime (h : s.Paid t c) : (s.updateMinVruntime q).Paid t c := by
  simp only [FairRq.updateMinVruntime]
  apply Paid.stray
  exact h.setCfs rfl (.inl rfl)

theorem Paid.linkEntity (h : s.Paid t c) : (s.linkEntity q e).Paid t c := by
  simp only [FairRq.linkEntity]
  apply Paid.stray
  exact h.setCfs rfl (.inl rfl)

theorem Paid.setRuntime (h : s.Paid t c) {rt : CfsRuntime}
    (henabled : c = q → rt.runtimeEnabled = (s.cfs c).runtime.runtimeEnabled)
    (hpos : c = q → 0 < (s.cfs c).runtime.runtimeRemaining → 0 < rt.runtimeRemaining) :
    (s.setCfs q (fun c => { c with runtime := rt })).Paid t c := by
  have hcurr : ∀ e, (s.setCfs q (fun c => { c with runtime := rt })).currOnRq c = some e →
      s.currOnRq c = some e := by
    intro e he
    rw [currOnRq_eq_some, setCfs_cfs] at he
    refine currOnRq_eq_some.mpr ⟨?_, he.2⟩
    rw [← he.1]
    split <;> rfl
  by_cases hc : c = q
  · subst hc
    rcases h with hused | hlimited | ⟨hleft, hcharged⟩
    · exact .inl hused
    · exact .inr (.inl (by rw [setCfs_cfs_self, henabled rfl, hlimited]))
    · refine .inr (.inr ⟨?_, hcharged.mono rfl hcurr fun _ => .inl rfl⟩)
      rw [setCfs_cfs_self]
      exact hpos rfl hleft
  · exact h.mono (by rw [setCfs_cfs_of_ne _ hc]) rfl hcurr fun _ => .inl rfl

/-- What is charged to another queue is charged to its own runtime. -/
theorem Paid.accountCfsRqRuntime (h : s.Paid t c)
    (hc : c ≠ q ∨ t.cfsBandwidthUsed = false ∨ (s.cfs c).runtime.runtimeEnabled = false)
    (deltaExec : Nat) : (s.accountCfsRqRuntime t q deltaExec).Paid t c := by
  simp only [FairRq.accountCfsRqRuntime]
  split
  · rename_i hlimited
    rw [Bool.and_eq_true] at hlimited
    have hne : c ≠ q := by
      rintro rfl
      rcases hc with hne | hused | henabled
      · exact hne rfl
      · rw [hlimited.1] at hused
        cases hused
      · rw [hlimited.2] at henabled
        cases henabled
    have hset : ∀ rt, (s.setCfs q (fun c => { c with runtime := rt })).Paid t c := fun rt =>
      h.setRuntime (fun heq => absurd heq hne) fun heq => absurd heq hne
    split
    · exact hset _
    · exact hset _
  · exact h

theorem updateCurr_of_charged (h : s.Charged q) (hon : ∀ e, (s.cfs q).curr = some e →
    (s.ses e).onRq = true) : s.updateCurr t q = s := by
  simp only [updateCurr]
  split
  · rfl
  · rename_i e he
    rw [if_pos (h e (currOnRq_eq_some.mpr ⟨he, hon e he⟩))]

/-- `update_curr` of a queue whose current entity is queued. -/
theorem Paid.updateCurr (h : s.Paid t c) (hon : ∀ e, (s.cfs q).curr = some e →
    (s.ses e).onRq = true) : (s.updateCurr t q).Paid t c := by
  by_cases hfree : c ≠ q ∨ t.cfsBandwidthUsed = false ∨ (s.cfs c).runtime.runtimeEnabled = false
  · simp only [FairRq.updateCurr]
    split
    · exact h
    · split
      · exact h
      · apply Paid.accountCfsRqRuntime
        · apply Paid.updateMinVruntime
          exact h.setSe id (.inr rfl)
        · refine hfree.imp id (Or.imp id fun henabled => ?_)
          simp only [FairRq.updateMinVruntime, stray_cfs, setCfs_cfs]
          split
          · exact henabled
          · exact henabled
  · rw [not_or, not_or, not_not] at hfree
    obtain ⟨rfl, hused, henabled⟩ := hfree
    rcases h with hused' | henabled' | ⟨hpos, hcharged⟩
    · exact absurd hused' hused
    · exact absurd henabled' henabled
    · rw [updateCurr_of_charged hcharged hon]
      exact .inr (.inr ⟨hpos, hcharged⟩)

theorem Paid.clearBuddies (h : s.Paid t c) (hq : s.cfsRqOf g e = q) :
    (s.clearBuddies g q e).Paid t c := by
  obtain ⟨cfs, honly, -, -, -, -, heq⟩ := clearBuddies_eq hq
  rw [heq]
  refine h.mono ?_ rfl (fun e he => ?_) fun e => .inl rfl
  · show (cfs c).runtime = _
    rw [honly c]
  · rw [currOnRq_eq_some] at he ⊢
    refine ⟨?_, he.2⟩
    rw [← he.1]
    show _ = (cfs c).curr
    rw [honly c]

/-- A queue that gives back keeps a millisecond. -/
theorem giveBackCfsRqRuntime_pos {b : CfsBandwidth} {rt : CfsRuntime} (h : 0 < rt.runtimeRemaining) :
    0 < (giveBackCfsRqRuntime b rt).2.runtimeRemaining := by
  simp only [giveBackCfsRqRuntime]
  split_ifs <;> simp only [minCfsRqRuntime] at * <;> omega

theorem Paid.returnCfsRqRuntime (h : s.Paid t c) : (s.returnCfsRqRuntime t q).Paid t c := by
  have hsame := giveBackCfsRqRuntime_same (s.pools q) (s.cfs q).runtime
  have hset : (s.setCfs q (fun c => { c with
      runtime := (giveBackCfsRqRuntime (s.pools q) (s.cfs q).runtime).2 })).Paid t c := by
    refine h.setRuntime ?_ ?_
    · rintro rfl
      exact hsame.2
    · rintro rfl
      exact giveBackCfsRqRuntime_pos
  simp only [FairRq.returnCfsRqRuntime]
  split
  · exact hset
  · exact h

theorem Paid.accountEntityDequeue (h : s.Paid t c) : (s.accountEntityDequeue q e).Paid t c := by
  have hset : (s.setCfs q (fun c => { c with
      load := c.load.sub (s.ses e).load.weight
      nrRunning := c.nrRunning - 1 })).Paid t c := h.setCfs rfl (.inl rfl)
  exact hset

theorem Paid.updateCfsShares_off (h : s.Paid t c) (hoff : (s.ses e).onRq = false) :
    (s.updateCfsShares g t e).Paid t c := by
  cases e with
  | task p => exact h
  | group c' =>
    simp only [updateCfsShares]
    split
    · exact h
    · simp only [reweightEntity, hoff, Bool.false_eq_true, if_false]
      exact h.setSe id (.inl rfl)

/-- `dequeue_entity` of the current entity, which is queued. -/
theorem Paid.dequeueEntity (h : s.Paid t c) (hq : s.cfsRqOf g e = q) (hcurr : (s.cfs q).curr = some e)
    (hon : (s.ses e).onRq = true) (flags : DequeueFlags) :
    (s.dequeueEntity g t q e flags).Paid t c := by
  simp only [FairRq.dequeueEntity]
  set s₁ := s.updateCurr t q
  have h₁ : s₁.Paid t c := h.updateCurr fun x hx => by
    rw [hcurr, Option.some.injEq] at hx
    rwa [← hx]
  have hq₁ : s₁.cfsRqOf g e = q := by
    have := congrFun (congrArg Shape.home (shape_updateCurr (s := s) (g := g) (t := t) (q := q))) e
    exact this.trans hq
  set s₂ := s₁.clearBuddies g q e
  have h₂ : s₂.Paid t c := h₁.clearBuddies hq₁
  set s₃ := if (s₂.cfs q).curr = some e then s₂ else s₂.unlinkEntity q e
  have h₃ : s₃.Paid t c := by
    simp only [s₃]
    split
    · exact h₂
    · exact h₂.setCfs rfl (.inl rfl)
  set s₄ := (s₃.setSe e (fun se => { se with onRq := false })).accountEntityDequeue q e
  have h₄ : s₄.Paid t c := (h₃.setSe (fun hx => absurd hx Bool.false_ne_true) (.inl rfl)).accountEntityDequeue
  have hoff₄ : (s₄.ses e).onRq = false := by
    show ((s₃.setSe e (fun se => { se with onRq := false })).ses e).onRq = false
    rw [setSe_ses_self]
  set s₅ := if flags.sleep then s₄
    else s₄.setSe e (fun se => { se with vruntime := se.vruntime - (s₄.cfs q).minVruntime })
  have h₅ : s₅.Paid t c ∧ (s₅.ses e).onRq = false := by
    simp only [s₅]
    split
    · exact ⟨h₄, hoff₄⟩
    · refine ⟨h₄.setSe id (.inl rfl), ?_⟩
      rw [setSe_ses_self]
      exact hoff₄
  have h₆ : ((s₅.returnCfsRqRuntime t q).updateCfsShares g t e).Paid t c := by
    refine h₅.1.returnCfsRqRuntime.updateCfsShares_off ?_
    have := congrFun (congrArg Shape.onRq (shape_returnCfsRqRuntime (s := s₅) (g := g) (t := t) (q := q))) e
    exact this.trans h₅.2
  split
  · exact h₆.updateMinVruntime
  · exact h₆

theorem Paid.setCount (h : s.Paid t c) (f : Nat → Nat) :
    (s.setCfs q (fun c => { c with hNrRunning := f c.hNrRunning })).Paid t c :=
  h.setCfs rfl (.inl rfl)

/-- The loop of `throttle_cfs_rq` along current entities. -/
theorem Paid.throttleUp {taskDelta : Nat} {es : List Ent} (h : s.Paid t c)
    (hw : ∀ x, 0 < (s.shape g t).weight x)
    (hcurr : ∀ x ∈ es, (s.shape g t).curr ((s.shape g t).home x) = some x) (dequeue : Bool) :
    (s.throttleUp g t taskDelta es dequeue).1.Paid t c := by
  induction es generalizing s dequeue with
  | nil => exact h
  | cons e es ih =>
    simp only [FairRq.throttleUp]
    split
    · rename_i hon
      set s₁ := if dequeue = true then s.dequeueEntity g t (s.cfsRqOf g e) e .asleep else s with hs₁
      obtain ⟨h₁, hw₁, hhome₁, hcurr₁⟩ : s₁.Paid t c ∧ (∀ x, 0 < (s₁.shape g t).weight x) ∧
          (s₁.shape g t).home = (s.shape g t).home ∧ (s₁.shape g t).curr = (s.shape g t).curr := by
        cases dequeue with
        | false => exact ⟨h, hw, rfl, rfl⟩
        | true =>
          obtain ⟨next, last, w, -, -, -, hwpos, hs⟩ :=
            shape_dequeueEntity (t := t) (q := s.cfsRqOf g e) hw rfl .asleep
          rw [if_pos rfl] at hs₁
          rw [hs₁, hs]
          refine ⟨h.dequeueEntity rfl (hcurr e List.mem_cons_self) hon _, fun x => ?_, rfl, rfl⟩
          show 0 < Function.update (s.shape g t).weight e w x
          by_cases hx : x = e
          · subst hx
            rwa [Function.update_self]
          · rw [Function.update_of_ne hx]
            exact hw x
      refine ih (h₁.setCount (· - taskDelta)) ?_ ?_ _
      · rw [shape_setCfs_hNrRunning (· - taskDelta)]
        exact hw₁
      · rw [shape_setCfs_hNrRunning (· - taskDelta)]
        intro x hx
        show (s₁.shape g t).curr ((s₁.shape g t).home x) = some x
        rw [hhome₁, hcurr₁]
        exact hcurr x (List.mem_cons_of_mem _ hx)
    · exact h

/-- `throttle_cfs_rq` of a queue whose entities upwards are current. -/
theorem Paid.throttleCfsRq (h : s.Paid t c) (hw : ∀ x, 0 < (s.shape g t).weight x)
    (hcurr : ∀ x ∈ g.entities q, (s.shape g t).curr ((s.shape g t).home x) = some x) :
    (s.throttleCfsRq g t q).Paid t c := by
  simp only [FairRq.throttleCfsRq]
  set s₁ := s.walkTgTree g q (tgThrottleDown s.clockTask)
  have hwalk : s₁.shape g t = { s.shape g t with
      throttleCount := fun c => if q ∈ g.above c then (s.shape g t).throttleCount c + 1
        else (s.shape g t).throttleCount c } :=
    shape_walkTgTree (k := (· + 1)) fun _ => rfl
  have hfield : ∀ c, (s₁.cfs c).runtime = (s.cfs c).runtime ∧ (s₁.cfs c).curr = (s.cfs c).curr := by
    intro c
    simp only [s₁, walkTgTree]
    split
    · exact ⟨rfl, rfl⟩
    · exact ⟨rfl, rfl⟩
  have h₁ : s₁.Paid t c := by
    refine h.mono (hfield c).1 rfl (fun e he => ?_) fun e => .inl rfl
    rw [currOnRq_eq_some] at he ⊢
    rwa [(hfield c).2] at he
  have hup : (s₁.throttleUp g t (s₁.cfs q).hNrRunning (g.entities q) true).1.Paid t c :=
    h₁.throttleUp (by rwa [hwalk]) (by rwa [hwalk]) true
  set r := s₁.throttleUp g t (s₁.cfs q).hNrRunning (g.entities q) true
  set s₂ := if r.2 = true then { r.1 with nrRunning := r.1.nrRunning - (s₁.cfs q).hNrRunning } else r.1
  have h₂ : s₂.Paid t c := by
    simp only [s₂]
    split
    · exact hup
    · exact hup
  have h₃ : (s₂.setCfs q (fun c => { c with throttled := true, throttledClock := s₂.clock })).Paid t c :=
    h₂.setCfs rfl (.inl rfl)
  exact h₃

theorem Paid.checkCfsRqRuntime (h : s.Paid t c) (hw : ∀ x, 0 < (s.shape g t).weight x)
    (hcurr : ∀ x ∈ g.entities q, (s.shape g t).curr ((s.shape g t).home x) = some x) :
    (s.checkCfsRqRuntime g t q).1.Paid t c := by
  simp only [FairRq.checkCfsRqRuntime]
  split
  · exact h
  · split
    · exact h
    · split
      · exact h
      · exact h.throttleCfsRq hw hcurr

/-- `put_prev_entity` of the current entity of a queue, all above it being current. -/
theorem Paid.putPrevEntity (h : s.Paid t c) (hw : ∀ x, 0 < (s.shape g t).weight x)
    (hq : (s.cfs q).curr = some e)
    (hcurr : ∀ x ∈ g.entities q, (s.shape g t).curr ((s.shape g t).home x) = some x) :
    (s.putPrevEntity g t q e).Paid t c := by
  simp only [FairRq.putPrevEntity]
  set s₁ := if (s.ses e).onRq = true then s.updateCurr t q else s with hs₁
  have hshape : s₁.shape g t = s.shape g t := by
    simp only [s₁]
    split
    · exact shape_updateCurr
    · rfl
  have h₁ : s₁.Paid t c := by
    simp only [s₁]
    split
    · rename_i hon
      refine h.updateCurr fun x hx => ?_
      rw [hq, Option.some.injEq] at hx
      rwa [← hx]
    · exact h
  have h₂ := h₁.checkCfsRqRuntime (g := g) (q := q) (by rwa [hshape]) (by rwa [hshape])
  set s₂ := (s₁.checkCfsRqRuntime g t q).1
  have h₃ : (if (s₂.ses e).onRq = true then s₂.linkEntity q e else s₂).Paid t c := by
    split
    · exact h₂.linkEntity
    · exact h₂
  exact h₃.setCfs rfl (.inr rfl)

theorem Paid.setNextEntity (h : s.Paid t c) (hc : c ≠ q) : (s.setNextEntity q e).Paid t c := by
  simp only [FairRq.setNextEntity]
  set s₁ := if (s.ses e).onRq = true then s.unlinkEntity q e else s
  have h₁ : s₁.Paid t c := by
    simp only [s₁]
    split
    · exact h.setCfs rfl (.inl rfl)
    · exact h
  have h₂ : (s₁.setCfs q (fun c => { c with curr := some e })).Paid t c := by
    refine h₁.mono (by rw [setCfs_cfs_of_ne _ hc]) rfl (fun x hx => ?_) fun x => .inl rfl
    rw [currOnRq_eq_some, setCfs_cfs_of_ne _ hc] at hx
    exact currOnRq_eq_some.mpr hx
  exact h₂.setSe id (.inr rfl)

/-- A queue that has been charged and not been throttled is not throttled again. -/
theorem checkCfsRqRuntime_of_paid (h : s.Paid t q) : s.checkCfsRqRuntime g t q = (s, false) := by
  simp only [checkCfsRqRuntime]
  rcases h with hused | henabled | ⟨hpos, -⟩
  · simp [hused]
  · simp [henabled]
  · simp [hpos]

theorem paid_of_check (h : (s.checkCfsRqRuntime g t q).2 = false) (hcharged : s.Charged q) :
    s.Paid t q := by
  simp only [checkCfsRqRuntime] at h
  split at h
  · rename_i hused
    exact .inl (by simpa using hused)
  · split at h
    · rename_i hguard
      rw [Bool.or_eq_true, Bool.not_eq_true', decide_eq_true_iff] at hguard
      exact hguard.elim (fun hlimited => .inr (.inl hlimited)) fun hpos => .inr (.inr ⟨hpos, hcharged⟩)
    · split at h
      · cases h
      · cases h

theorem accountCfsRqRuntime_same (deltaExec : Nat) :
    (s.accountCfsRqRuntime t q deltaExec).ses = s.ses ∧
      (s.accountCfsRqRuntime t q deltaExec).clockTask = s.clockTask ∧
      ((s.accountCfsRqRuntime t q deltaExec).cfs q).curr = (s.cfs q).curr := by
  have hcurr : ∀ rt, ((s.setCfs q (fun c => { c with runtime := rt })).cfs q).curr = (s.cfs q).curr := by
    intro rt
    rw [setCfs_cfs_self]
  simp only [accountCfsRqRuntime]
  split
  · split
    · exact ⟨rfl, rfl, hcurr _⟩
    · exact ⟨rfl, rfl, hcurr _⟩
  · exact ⟨rfl, rfl, rfl⟩

theorem currOnRq_congr (h : s'.shape g t = s.shape g t) : s'.currOnRq q = s.currOnRq q := by
  have hcurr : (s'.cfs q).curr = (s.cfs q).curr := congrFun (congrArg Shape.curr h) q
  have hon : (fun e => (s'.ses e).onRq) = fun e => (s.ses e).onRq := congrArg Shape.onRq h
  rw [currOnRq, currOnRq, hcurr, hon]

/-- `update_curr` charges up to now. -/
theorem charged_updateCurr : (s.updateCurr t q).Charged q := by
  simp only [updateCurr]
  split
  · rename_i hnone
    intro e he
    rw [currOnRq, hnone] at he
    cases he
  · rename_i x hx
    split
    · rename_i hle
      intro e he
      rw [currOnRq_eq_some, hx, Option.some.injEq] at he
      rw [← he.1]
      exact hle
    · set s₁ := s.setSe x (fun se => { se with
        execStart := s.clockTask
        sumExecRuntime := u64 (se.sumExecRuntime + sub64 s.clockTask (s.ses x).execStart)
        vruntime := se.vruntime + calcDeltaFair (sub64 s.clockTask (s.ses x).execStart) se.load })
      obtain ⟨hses, hclock, hcurr⟩ := accountCfsRqRuntime_same (t := t) (q := q)
        (s := s₁.updateMinVruntime q) (sub64 s.clockTask (s.ses x).execStart)
      intro e he
      have hmin : ((s₁.updateMinVruntime q).cfs q).curr = some x := by
        rw [updateMinVruntime, stray_cfs, setCfs_cfs_self]
        exact hx
      rw [currOnRq_eq_some, hcurr, hmin, Option.some.injEq] at he
      rw [hclock, hses, ← he.1]
      have hstart : ((s₁.updateMinVruntime q).ses x).execStart = s.clockTask := by
        show (s₁.ses x).execStart = s.clockTask
        rw [setSe_ses_self]
      rw [hstart]
      exact s64_sub64_self _

end FairRq

end MSchedutil
