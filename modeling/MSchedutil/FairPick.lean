import MSchedutil.FairLevels
import MSchedutil.FairOrder
import MSchedutil.FairRuntime

/-! Switching: the current entities of the queues, putting them back and choosing others. From a
queue that has something a task is always found, with all above it on their queues. -/

namespace MSchedutil

namespace Shape

variable {g : Groups} {a b : Shape} {e : Ent} {q : Nat} {l l' : Set Ent}

/-- The current entities of the queues are those of the set. -/
def Held (a : Shape) (l : Set Ent) : Prop := ∀ q e, a.curr q = some e ↔ e ∈ l ∧ a.home e = q

theorem Held.curr_eq (h : a.Held l) (he : e ∈ l) : a.curr (a.home e) = some e := (h _ e).mpr ⟨he, rfl⟩

theorem Held.curr_none (h : a.Held l) (hq : ∀ e ∈ l, a.home e ≠ q) : a.curr q = none := by
  rw [Option.eq_none_iff_forall_not_mem]
  intro e he
  obtain ⟨hmem, hhome⟩ := (h q e).mp he
  exact hq e hmem hhome

theorem Held.congr (h : a.Held l) (hhome : b.home = a.home) (hcurr : b.curr = a.curr) : b.Held l := by
  intro q e
  rw [hcurr, hhome]
  exact h q e

theorem Held.hold (h : a.Held l) (hc : a.curr (a.home e) = none) : (a.hold e).Held (insert e l) := by
  intro q x
  show Function.update a.curr (a.home e) (some e) q = some x ↔ (x = e ∨ x ∈ l) ∧ a.home x = q
  by_cases hq : q = a.home e
  · subst hq
    rw [Function.update_self, Option.some.injEq]
    constructor
    · rintro rfl
      exact ⟨.inl rfl, rfl⟩
    · rintro ⟨rfl | hx, hhome⟩
      · rfl
      · have := (h _ x).mpr ⟨hx, hhome⟩
        rw [hc] at this
        cases this
  · rw [Function.update_of_ne hq, h q x]
    constructor
    · exact fun hx => ⟨.inr hx.1, hx.2⟩
    · rintro ⟨rfl | hx, hhome⟩
      · exact absurd hhome.symm hq
      · exact ⟨hx, hhome⟩

theorem Held.release (h : a.Held (insert e l)) (he : e ∉ l) (tl : List Ent) : (a.release e tl).Held l := by
  intro q x
  show Function.update a.curr (a.home e) none q = some x ↔ x ∈ l ∧ a.home x = q
  have hcurr := h.curr_eq (Set.mem_insert e l)
  by_cases hq : q = a.home e
  · subst hq
    rw [Function.update_self]
    constructor
    · exact nofun
    · rintro ⟨hx, hhome⟩
      have := (h _ x).mpr ⟨.inr hx, hhome⟩
      rw [hcurr, Option.some.injEq] at this
      exact absurd hx (this ▸ he)
  · rw [Function.update_of_ne hq, h q x]
    constructor
    · rintro ⟨rfl | hx, hhome⟩
      · exact absurd hhome.symm hq
      · exact ⟨hx, hhome⟩
    · exact fun hx => ⟨.inr hx.1, hx.2⟩

/-- What holds of every state: the queues and the total are in order, so are the counts of
throttled queues, the root is not limited, and current are the running task and all above it. -/
structure Sound (g : Groups) (a : Shape) : Prop extends a.Sums g where
  counted : a.Counted g
  root : a.limited 0 = false
  uncapped : a.capped 0 = false
  held : a.Held {x | ∃ p, a.running = some p ∧ x ∈ .task p :: g.entities (a.home (.task p))}

theorem Sums.settled (h : a.Sums g) (hs : a.Settled b) : b.Sums g :=
  ⟨h.balanced.settled hs, by rw [hs.total, hs.hNrRunning, h.total]⟩

theorem Firm.settled (h : a.Firm g e) (hs : a.Settled b) : b.Firm g e := h.congr hs.home hs.onRq

end Shape

/-- The entities above are on smaller queues. -/
theorem Groups.parent_lt_of_mem {g : Groups} {q : Nat} {x : Ent} (hx : x ∈ g.entities q) :
    ∃ c, x = .group c ∧ c ∈ g.above q ∧ g.parent c < q := by
  obtain ⟨c, hc, rfl⟩ := List.mem_map.mp hx
  have hlt := g.parent_lt c (above_pos hc)
  have hle := above_le hc
  exact ⟨c, rfl, hc, by omega⟩

namespace FairRq

open Shape

variable {g : Groups} {t : FairTunables} {s : FairRq} {q : Nat} {e : Ent}

/-- `check_cfs_rq_runtime` throttles the queue, unless it does nothing. -/
theorem checkCfsRqRuntime_sums (h : (s.shape g t).Sums g) (hroot : (s.shape g t).limited 0 = false) :
    ((s.checkCfsRqRuntime g t q).1.shape g t).Sums g ∧
      (s.shape g t).Onward g ((s.checkCfsRqRuntime g t q).1.shape g t) ∧
      ((s.checkCfsRqRuntime g t q).2 = true →
        q ≠ 0 ∧ ((s.checkCfsRqRuntime g t q).1.shape g t).throttled q = true) ∧
      ((s.checkCfsRqRuntime g t q).2 = false → (s.checkCfsRqRuntime g t q).1 = s) ∧
      (∀ x, ((s.checkCfsRqRuntime g t q).1.shape g t).onRq x = true → (s.shape g t).onRq x = true) ∧
      ∀ p, q ∉ g.above ((s.shape g t).home (.task p)) → (s.shape g t).Firm g (.task p) →
        ((s.checkCfsRqRuntime g t q).1.shape g t).Firm g (.task p) := by
  simp only [checkCfsRqRuntime]
  split
  · exact ⟨h, .refl _, (fun hf => by cases hf), fun _ => rfl, fun _ => id, fun _ _ => id⟩
  · rename_i hused
    split
    · exact ⟨h, .refl _, (fun hf => by cases hf), fun _ => rfl, fun _ => id, fun _ _ => id⟩
    · rename_i hlimited
      have hq : q ≠ 0 := by
        rintro rfl
        have : (s.cfs 0).runtime.runtimeEnabled = false := hroot
        simp [this] at hlimited
      split
      · rename_i hth
        exact ⟨h, .refl _, fun _ => ⟨hq, hth⟩, (fun hf => by cases hf), fun _ => id, fun _ _ => id⟩
      · rename_i hth
        have hth' : (s.shape g t).throttled q = false := by simpa [shape] using hth
        obtain ⟨hsums, honward, hnow, hkeep⟩ := throttleCfsRq_sums h (by simpa using hused) hq hth'
        exact ⟨hsums, honward, fun _ => ⟨hq, hnow⟩, (fun hf => by cases hf), hkeep⟩

/-- `put_prev_entity`; a task keeps what is above it, unless a queue is throttled that it is
below. -/
theorem putPrevEntity_sums {l : Set Ent} (h : (s.shape g t).Sums g)
    (hroot : (s.shape g t).limited 0 = false) (hq : (s.shape g t).home e = q)
    (hheld : (s.shape g t).Held (insert e l)) (he : e ∉ l) :
    ((s.putPrevEntity g t q e).shape g t).Sums g ∧
      (s.shape g t).Moves g ((s.putPrevEntity g t q e).shape g t) ∧
      ((s.putPrevEntity g t q e).shape g t).Held l ∧
      (∀ x, ((s.putPrevEntity g t q e).shape g t).onRq x = true → (s.shape g t).onRq x = true) ∧
      ∀ p, (q ∉ g.above ((s.shape g t).home (.task p)) ∨ s.Paid t q) → (s.shape g t).Firm g (.task p) →
        ((s.putPrevEntity g t q e).shape g t).Firm g (.task p) := by
  have hcurr : (s.shape g t).curr q = some e := hq ▸ hheld.curr_eq (Set.mem_insert e l)
  simp only [putPrevEntity]
  set s₁ := if (s.ses e).onRq = true then s.updateCurr t q else s with hs₁
  have hshape : s₁.shape g t = s.shape g t := by
    simp only [s₁]
    split
    · exact shape_updateCurr
    · rfl
  have hpaid₁ : s.Paid t q → s₁.Paid t q := by
    intro hpaid
    simp only [s₁]
    split
    · rename_i hon
      refine hpaid.updateCurr fun x hx => ?_
      rw [show (s.cfs q).curr = some e from hcurr, Option.some.injEq] at hx
      rwa [← hx]
    · exact hpaid
  rw [← hshape] at h hroot hq hheld hcurr ⊢
  obtain ⟨hsums, honward, -, hsame, hfewer, hfirm⟩ := checkCfsRqRuntime_sums (q := q) h hroot
  have hpaid₂ : s₁.Paid t q → (s₁.checkCfsRqRuntime g t q).1 = s₁ := by
    intro hpaid
    rw [checkCfsRqRuntime_of_paid hpaid]
  set s₂ := (s₁.checkCfsRqRuntime g t q).1
  have hq₂ : (s₂.shape g t).home e = q := by rw [honward.home, hq]
  have hheld₂ : (s₂.shape g t).Held (insert e l) := hheld.congr honward.home honward.curr
  obtain ⟨tl, htl, hlink⟩ := shape_linkPrev (t := t) (g := g) (s := s₂) hq₂
  have hset : (s₂.shape g t).Settled ((s₂.shape g t).release e tl) := by
    refine settled_release hsums.balanced.queues ?_ ?_
    · exact hheld₂.curr_eq (Set.mem_insert e l)
    · rwa [hq₂]
  rw [hlink]
  refine ⟨hsums.settled hset, honward.toMoves.trans hset.toFrame.moves, hheld₂.release he tl,
    fun x hx => hfewer x hx, fun p hp hf => Firm.settled ?_ hset⟩
  rcases hp with hp | hp
  · exact hfirm p hp hf
  · rwa [hpaid₂ (hpaid₁ hp)]

theorem curr_above {l : Set Ent} (hheld : (s.shape g t).Held l) (hl : ∀ x ∈ g.entities q, x ∈ l) :
    ∀ x ∈ g.entities q, (s.shape g t).curr ((s.shape g t).home x) = some x :=
  fun x hx => hheld.curr_eq (hl x hx)

theorem mem_entities_home {x : Ent} (hx : x ∈ g.entities q) : (s.shape g t).home x < q := by
  obtain ⟨c, rfl, -, hlt⟩ := Groups.parent_lt_of_mem hx
  exact hlt

/-- `put_prev_task_fair` from an entity upwards: no queue has a current entity then. -/
theorem putUp_sums (h : (s.shape g t).Sums g) (hroot : (s.shape g t).limited 0 = false)
    (hq : (s.shape g t).home e = q) (hheld : (s.shape g t).Held {x | x ∈ e :: g.entities q}) :
    ((s.putUp g t (e :: g.entities q)).shape g t).Sums g ∧
      (s.shape g t).Moves g ((s.putUp g t (e :: g.entities q)).shape g t) ∧
      ((s.putUp g t (e :: g.entities q)).shape g t).Held ∅ ∧
      (∀ x, ((s.putUp g t (e :: g.entities q)).shape g t).onRq x = true →
        (s.shape g t).onRq x = true) ∧
      ∀ p, (∀ c ∈ g.above q, c ∉ g.above ((s.shape g t).home (.task p)) ∨ s.Paid t c) →
        (s.shape g t).Firm g (.task p) →
          ((s.putUp g t (e :: g.entities q)).shape g t).Firm g (.task p) := by
  induction q using Nat.strong_induction_on generalizing s e with
  | _ q ih =>
    have hne : e ∉ {x | x ∈ g.entities q} := by
      intro hmem
      have := mem_entities_home (s := s) (t := t) hmem
      omega
    have hset : {x | x ∈ e :: g.entities q} = insert e {x | x ∈ g.entities q} := by
      ext x
      exact List.mem_cons
    rw [hset] at hheld
    obtain ⟨hsums, hmoves, hheld₁, hfewer, hfirm⟩ := putPrevEntity_sums h hroot hq hheld hne
    have hcfs : s.cfsRqOf g e = q := hq
    have hcurr := curr_above (q := q) hheld fun x hx => .inr hx
    have hpaid : ∀ c, s.Paid t c → (s.putPrevEntity g t q e).Paid t c := fun c hc =>
      hc.putPrevEntity h.balanced.queues.weight_pos (hq ▸ hheld.curr_eq (Set.mem_insert e _)) hcurr
    simp only [putUp, hcfs]
    set s₁ := s.putPrevEntity g t q e
    by_cases hq0 : q = 0
    · subst hq0
      refine ⟨hsums, hmoves, ?_, hfewer, fun p hp => hfirm p (.inl ?_)⟩
      · simpa [putUp] using hheld₁
      · exact fun hmem => absurd rfl (Groups.above_pos hmem)
    · rw [g.entities_of_ne hq0] at hheld₁ ⊢
      obtain ⟨hsums₂, hmoves₂, hheld₂, hfewer₂, hfirm₂⟩ := ih (g.parent q) (g.parent_lt q hq0)
        (s := s₁) hsums (by rw [hmoves.limited, hroot]) rfl hheld₁
      refine ⟨hsums₂, hmoves.trans hmoves₂, hheld₂, fun x hx => hfewer x (hfewer₂ x hx),
        fun p hp hf => ?_⟩
      rw [g.above_of_ne hq0] at hp
      refine hfirm₂ p (fun c hc => ?_) (hfirm p (hp q List.mem_cons_self) hf)
      rw [hmoves.home]
      exact (hp c (List.mem_cons_of_mem _ hc)).imp id (hpaid c)

section Choice

variable {curr : Option Ent}

theorem leftmost_eq_none {head : Option Ent} (h : s.leftmost head curr = none) :
    head = none ∧ curr = none := by
  cases head with
  | none => exact ⟨rfl, h⟩
  | some x =>
    cases curr with
    | none => cases h
    | some y =>
      simp only [leftmost] at h
      split at h
      all_goals cases h

theorem leftmost_mem {head : Option Ent} {tl : List Ent} (hhead : ∀ x, head = some x → x ∈ tl)
    (hcurr : ∀ x, curr = some x → x ∈ tl) (h : s.leftmost head curr = some e) : e ∈ tl := by
  cases head with
  | none => exact hcurr e h
  | some x =>
    cases curr with
    | none => exact hhead e h
    | some y =>
      simp only [leftmost] at h
      split at h
      · exact hcurr e h
      · exact hhead e h

theorem nextInTimeline_mem {x : Ent} {tl : List Ent} (h : nextInTimeline x tl = some e) : e ∈ tl :=
  (List.dropWhile_sublist _).subset (List.mem_of_mem_tail (List.mem_of_mem_head? h))

theorem prefer_cases (left : Ent) (buddy : Option Ent) (x : Ent) :
    s.prefer t left buddy x = x ∨
      ∃ b, buddy = some b ∧ s.prefer t left buddy x = b ∧ s.wakeupPreemptEntity t b left < 1 := by
  cases buddy with
  | none => exact .inl rfl
  | some b =>
    simp only [prefer]
    split
    · rename_i hlt
      exact .inr ⟨b, rfl, rfl, hlt⟩
    · exact .inl rfl

/-- `pick_next_entity` finds an entity that is on the queue, if there is one. -/
theorem choose_spec (h : (s.shape g t).Queues) (hne : (s.shape g t).queued q ≠ [])
    (hcurr : curr = s.currOnRq q) : ∃ e, s.choose t q curr = some e ∧ e ∈ (s.shape g t).queued q := by
  have hqueued : (s.shape g t).queued q = (s.cfs q).timeline ++ curr.toList := by
    rw [hcurr]
    rfl
  have hmem_curr : ∀ x, curr = some x → x ∈ (s.shape g t).queued q := by
    rintro x rfl
    rw [hqueued]
    exact List.mem_append_right _ (List.mem_singleton_self x)
  have hmem_head : ∀ x, (s.cfs q).timeline.head? = some x → x ∈ (s.shape g t).queued q := by
    intro x hx
    rw [hqueued]
    exact List.mem_append_left _ (List.mem_of_mem_head? hx)
  have hmem_next : ∀ x y, nextInTimeline y (s.cfs q).timeline = some x →
      x ∈ (s.shape g t).queued q := by
    intro x y hx
    rw [hqueued]
    exact List.mem_append_left _ (nextInTimeline_mem hx)
  cases hleft : s.leftmost (s.cfs q).timeline.head? curr with
  | none =>
    obtain ⟨hnil, hnone⟩ := leftmost_eq_none hleft
    rw [hqueued, hnone, List.head?_eq_none_iff.mp hnil] at hne
    exact absurd rfl hne
  | some left =>
    have hmem_left := leftmost_mem hmem_head hmem_curr hleft
    have hpick : ∀ (buddy : Option Ent) (x : Ent), (∀ b, buddy = some b → b ∈ (s.shape g t).queued q) →
        x ∈ (s.shape g t).queued q → s.prefer t left buddy x ∈ (s.shape g t).queued q := by
      intro buddy x hb hx
      rcases prefer_cases (t := t) (s := s) left buddy x with heq | ⟨b, rfl, heq, -⟩
      · rwa [heq]
      · rw [heq]
        exact hb b rfl
    have hmem_second : ∀ x, (if curr = some left then (s.cfs q).timeline.head?
        else s.leftmost (nextInTimeline left (s.cfs q).timeline) curr) = some x →
        x ∈ (s.shape g t).queued q := by
      intro x hx
      split at hx
      · exact hmem_head x hx
      · exact leftmost_mem (fun y hy => hmem_next y left hy) hmem_curr hx
    simp only [choose, hleft, Option.some.injEq, exists_eq_left']
    refine hpick _ _ (h.next q) (hpick _ _ (h.last q) ?_)
    split
    · exact hpick _ _ hmem_second hmem_left
    · exact hmem_left

end Choice

/-- `pick_next_entity` on a queue that has something. -/
theorem pickNextEntity_spec (h : (s.shape g t).Queues) (hne : (s.shape g t).queued q ≠ []) :
    ∃ e s', s.pickNextEntity g t q (s.currOnRq q) = (some e, s') ∧ e ∈ (s.shape g t).queued q ∧
      (s.shape g t).Settled (s'.shape g t) ∧ (s'.shape g t).curr = (s.shape g t).curr ∧
      ∀ c, s.Paid t c → s'.Paid t c := by
  obtain ⟨e, he, hmem⟩ := choose_spec h hne rfl
  have hq : s.cfsRqOf g e = q := h.home_of_mem hmem
  obtain ⟨next, last, hforget, -, -, hs⟩ := shape_clearBuddies (t := t) hq
  refine ⟨e, s.clearBuddies g q e, by simp only [pickNextEntity, he], hmem, ?_, ?_,
    fun c hc => hc.clearBuddies hq⟩
  · have hforgotten := h.forget hforget
    rw [hs]
    exact settled_buddies h hforgotten.next hforgotten.last
  · rw [hs]

/-- The entity of a group on the queue under it: one level down. -/
theorem firm_of_mem (h : (s.shape g t).Queues) (hup : q = 0 ∨ (s.shape g t).Firm g (.group q))
    (he : e ∈ (s.shape g t).queued q) : (s.shape g t).Firm g e := by
  refine ⟨h.onRq_of_mem he, fun c hc => ?_⟩
  rw [h.home_of_mem he] at hc
  rcases hup with rfl | hfirm
  · simp at hc
  · by_cases hq0 : q = 0
    · subst hq0
      simp at hc
    rw [g.above_of_ne hq0] at hc
    rcases List.mem_cons.mp hc with rfl | hc
    · exact hfirm.1
    · exact hfirm.2 c hc

/-- A queue whose entity is on has something. -/
theorem group_nonempty (h : (s.shape g t).Balanced g) {c : Nat}
    (hon : (s.shape g t).onRq (.group c) = true) : (s.shape g t).queued c ≠ [] :=
  ((h.linked c (h.group_ne_zero hon) (Set.notMem_empty _)).mp hon).1

/-- The loop after `simple` finds a task. -/
theorem pickSimple_spec (turns : Nat) (h : (s.shape g t).Sums g)
    (hheld : (s.shape g t).Held {x | x ∈ g.entities q}) (hup : q = 0 ∨ (s.shape g t).Firm g (.group q))
    (hne : (s.shape g t).queued q ≠ []) (hturns : g.size ≤ turns + q) :
    ∃ p s', s.pickSimple g t turns q = some (p, s') ∧ (s'.shape g t).Sums g ∧
      (s.shape g t).Moves g (s'.shape g t) ∧
      (s'.shape g t).Held {x | x ∈ s'.path g (.task p)} ∧ (s'.shape g t).Firm g (.task p) ∧
      (s.Ranked g → s.Later g s') := by
  induction turns generalizing s q with
  | zero =>
    obtain ⟨x, hx⟩ := List.exists_mem_of_ne_nil _ hne
    have hlt := h.balanced.bound x (h.balanced.queues.onRq_of_mem hx)
    rw [h.balanced.queues.home_of_mem hx] at hlt
    omega
  | succ turns ih =>
    have hnone : (s.cfs q).curr = none := by
      refine hheld.curr_none fun x hx => ?_
      have := mem_entities_home (s := s) (t := t) hx
      omega
    have hcurr : s.currOnRq q = none := by rw [currOnRq, hnone]; rfl
    obtain ⟨e, s₁, hpick, hmem, hset, hcurr₁, -⟩ := pickNextEntity_spec h.balanced.queues hne
    rw [hcurr] at hpick
    have hhome : (s.shape g t).home e = q := h.balanced.queues.home_of_mem hmem
    have hhome₁ : (s₁.shape g t).home e = q := by rw [hset.home, hhome]
    have hfirm : (s.shape g t).Firm g e := firm_of_mem h.balanced.queues hup hmem
    have hsums₁ := h.settled hset
    have hheld₁ : (s₁.shape g t).Held {x | x ∈ g.entities q} := hheld.congr hset.home hcurr₁
    have hnone₁ : (s₁.shape g t).curr ((s₁.shape g t).home e) = none := by
      rw [hhome₁, hcurr₁]
      exact hnone
    have hs₂ : (s₁.setNextEntity q e).shape g t = (s₁.shape g t).hold e := shape_setNextEntity hhome₁
    have hset₂ := settled_hold hsums₁.balanced.queues hnone₁
    have hheld₂ := hheld₁.hold hnone₁
    rw [← hs₂] at hset₂ hheld₂
    have hsums₂ := hsums₁.settled hset₂
    have hmoves₂ : (s.shape g t).Moves g ((s₁.setNextEntity q e).shape g t) :=
      hset.toFrame.moves.trans hset₂.toFrame.moves
    have hfirm₂ := (hfirm.settled hset).settled hset₂
    have hlater₂ : s.Ranked g → s.Later g (s₁.setNextEntity q e) := by
      intro hranked
      have hstill : s.Still g (s.pickNextEntity g t q none).2 := still_pickNextEntity hranked
      rw [hpick] at hstill
      exact hstill.toLater.trans (later_setNextEntity hstill.ranked hhome₁)
    cases e with
    | task p =>
      refine ⟨p, s₁.setNextEntity q (.task p), by simp only [pickSimple, hpick], hsums₂, hmoves₂, ?_,
        hfirm₂, hlater₂⟩
      have hpath : (s₁.setNextEntity q (.task p)).path g (.task p) = .task p :: g.entities q := by
        have hcfs : (s₁.setNextEntity q (.task p)).cfsRqOf g (.task p) = q := by
          have := congrFun hmoves₂.home (.task p)
          exact this.trans hhome
        rw [path, hcfs]
      rw [hpath]
      convert hheld₂ using 1
      ext x
      exact List.mem_cons
    | group c =>
      have hc : c ≠ 0 := hsums₂.balanced.group_ne_zero hfirm₂.1
      have hparent : g.parent c = q := hhome
      have hlt := g.parent_lt c hc
      have hheld₃ : ((s₁.setNextEntity q (.group c)).shape g t).Held {x | x ∈ g.entities c} := by
        rw [g.entities_of_ne hc, hparent]
        convert hheld₂ using 1
        ext x
        exact List.mem_cons
      obtain ⟨p, s', hres, hsums₃, hmoves₃, hheld₄, hfirm₃, hlater₃⟩ := ih hsums₂ hheld₃ (.inr hfirm₂)
        (group_nonempty hsums₂.balanced hfirm₂.1) (by omega)
      exact ⟨p, s', by simp only [pickSimple, hpick, hres], hsums₃, hmoves₂.trans hmoves₃, hheld₄, hfirm₃,
        fun hranked => (hlater₂ hranked).trans (hlater₃ (hlater₂ hranked).ranked)⟩

/-- Below a queue that has something there is a task. -/
theorem exists_firm (h : (s.shape g t).Balanced g) (hup : q = 0 ∨ (s.shape g t).Firm g (.group q))
    (hne : (s.shape g t).queued q ≠ []) : ∃ p, (s.shape g t).Firm g (.task p) := by
  obtain ⟨n, hn⟩ : ∃ n, g.size ≤ n + q := ⟨g.size, by omega⟩
  induction n generalizing q with
  | zero =>
    obtain ⟨x, hx⟩ := List.exists_mem_of_ne_nil _ hne
    have hlt := h.bound x (h.queues.onRq_of_mem hx)
    rw [h.queues.home_of_mem hx] at hlt
    omega
  | succ n ih =>
    obtain ⟨x, hx⟩ := List.exists_mem_of_ne_nil _ hne
    have hfirm := firm_of_mem h.queues hup hx
    cases x with
    | task p => exact ⟨p, hfirm⟩
    | group c =>
      have hlt := g.parent_lt c (h.group_ne_zero hfirm.1)
      have hparent : g.parent c = q := h.queues.home_of_mem hx
      exact ih (.inr hfirm) (group_nonempty h hfirm.1) (by omega)

/-- What is above a queue on the path of a task is above the task. -/
theorem above_of_mem_path {prev : Nat} {x : Ent} (hx : x ∈ s.path g (.task prev)) :
    (s.cfsRqOf g x = 0 ∨ s.cfsRqOf g x ∈ g.above (s.cfsRqOf g (.task prev))) ∧
      (∀ c ∈ g.above (s.cfsRqOf g x), c ∈ g.above (s.cfsRqOf g (.task prev))) ∧
      ∀ y ∈ g.entities (s.cfsRqOf g x), y ∈ s.path g (.task prev) := by
  obtain ⟨hself, habove⟩ : (s.cfsRqOf g x = 0 ∨ s.cfsRqOf g x ∈ g.above (s.cfsRqOf g (.task prev))) ∧
      ∀ c ∈ g.above (s.cfsRqOf g x), c ∈ g.above (s.cfsRqOf g (.task prev)) := by
    rcases List.mem_cons.mp hx with rfl | hx
    · by_cases hq : s.cfsRqOf g (.task prev) = 0
      · exact ⟨.inl hq, fun _ => id⟩
      · exact ⟨.inr (Groups.mem_above_self hq), fun _ => id⟩
    · obtain ⟨c, hc, rfl⟩ := List.mem_map.mp hx
      have hmem : ∀ b ∈ g.above (g.parent c), b ∈ g.above c := by
        intro b hb
        rw [g.above_of_ne (Groups.above_pos hc)]
        exact List.mem_cons_of_mem _ hb
      refine ⟨?_, fun b hb => Groups.mem_above_trans (hmem b hb) hc⟩
      by_cases hq : g.parent c = 0
      · exact .inl hq
      · exact .inr (Groups.mem_above_trans (hmem _ (Groups.mem_above_self hq)) hc)
  refine ⟨hself, habove, fun y hy => ?_⟩
  obtain ⟨c, hc, rfl⟩ := List.mem_map.mp hy
  exact List.mem_cons_of_mem _ (List.mem_map.mpr ⟨c, habove c hc, rfl⟩)

/-- The part of `pick_next_task_fair` that looks at the current entity of a queue. -/
theorem pickCheck_spec {prev : Nat} (h : (s.shape g t).Sums g)
    (hroot : (s.shape g t).limited 0 = false)
    (hheld : (s.shape g t).Held {x | x ∈ s.path g (.task prev)}) :
    let s₁ := if (s.currOnRq q).isSome then s.updateCurr t q else s
    let r := if (s₁.cfs q).curr.isSome then s₁.checkCfsRqRuntime g t q else (s₁, false)
    (r.1.shape g t).Sums g ∧ (s.shape g t).Onward g (r.1.shape g t) ∧
      (∀ c, s.Paid t c → r.1.Paid t c) ∧
      (r.2 = true → q ∈ g.above ((s.shape g t).home (.task prev)) ∧
        (r.1.shape g t).throttled q = true) ∧
      (r.2 = false → r.1.shape g t = s.shape g t ∧
        (q ∈ g.above ((s.shape g t).home (.task prev)) → r.1.Paid t q)) := by
  intro s₁ r
  have hshape : s₁.shape g t = s.shape g t := by
    simp only [s₁]
    split
    · exact shape_updateCurr
    · rfl
  have hpaid₁ : ∀ c, s.Paid t c → s₁.Paid t c := by
    intro c hc
    simp only [s₁]
    split
    · rename_i hsome
      refine hc.updateCurr fun x hx => ?_
      obtain ⟨y, hy⟩ := Option.isSome_iff_exists.mp hsome
      obtain ⟨hy, hon⟩ := currOnRq_eq_some.mp hy
      rw [hx, Option.some.injEq] at hy
      rwa [hy]
    · exact hc
  have hcharged : s₁.Charged q := by
    simp only [s₁]
    split
    · exact charged_updateCurr
    · rename_i hnone
      rw [Bool.not_eq_true, Option.isSome_eq_false_iff, Option.isNone_iff_eq_none] at hnone
      intro e he
      rw [hnone] at he
      cases he
  have hcurr : (s₁.cfs q).curr = (s.cfs q).curr := congrFun (congrArg Shape.curr hshape) q
  by_cases hsome : (s₁.cfs q).curr.isSome = true
  · have hr : r = s₁.checkCfsRqRuntime g t q := if_pos hsome
    obtain ⟨x, hx⟩ := Option.isSome_iff_exists.mp hsome
    rw [hcurr] at hx
    obtain ⟨hmem, hq⟩ := (hheld q x).mp hx
    obtain ⟨hself, -, hpath⟩ := above_of_mem_path hmem
    rw [show s.cfsRqOf g x = q from hq] at hself hpath
    rw [hr]
    have hsums := h
    have hlimited := hroot
    rw [← hshape] at hsums hlimited
    obtain ⟨hsums₂, honward, hnow, hsame, -⟩ := checkCfsRqRuntime_sums (q := q) hsums hlimited
    rw [hshape] at honward
    refine ⟨hsums₂, honward, fun c hc => (hpaid₁ c hc).checkCfsRqRuntime ?_ ?_, fun hr => ?_,
      fun hr => ⟨by rw [hsame hr, hshape], fun _ => by rw [hsame hr]; exact paid_of_check hr hcharged⟩⟩
    · rw [hshape]
      exact h.balanced.queues.weight_pos
    · rw [hshape]
      exact curr_above hheld hpath
    · obtain ⟨hq0, hth⟩ := hnow hr
      exact ⟨hself.resolve_left hq0, hth⟩
  · have hr : r = (s₁, false) := if_neg hsome
    rw [hr]
    refine ⟨hshape ▸ h, hshape ▸ .refl _, hpaid₁, nofun, fun _ => ⟨hshape, fun hmem => ?_⟩⟩
    obtain ⟨x, hx, hq⟩ : ∃ x ∈ s.path g (.task prev), (s.shape g t).home x = q := by
      rcases Groups.eq_or_parent hmem with hq | ⟨b, hb, hq⟩
      · exact ⟨.task prev, List.mem_cons_self, hq.symm⟩
      · exact ⟨.group b, List.mem_cons_of_mem _ (List.mem_map.mpr ⟨b, hb, rfl⟩), hq⟩
    have hx' : (s.cfs q).curr = some x := (hheld q x).mpr ⟨hx, hq⟩
    rw [hcurr, hx'] at hsome
    exact absurd rfl hsome

/-- The first loop of `pick_next_task_fair` finds a task, or has throttled a queue above `prev`
that is at least paid for from there on. -/
theorem pickFast_spec {prev : Nat} (turns : Nat) (h : (s.shape g t).Sums g)
    (hroot : (s.shape g t).limited 0 = false)
    (hheld : (s.shape g t).Held {x | x ∈ s.path g (.task prev)})
    (hup : q = 0 ∨ (s.shape g t).Firm g (.group q)) (hne : (s.shape g t).queued q ≠ [])
    (hturns : g.size ≤ turns + q)
    (hpaid : ∀ c ∈ g.above q, c ≠ q → c ∈ g.above ((s.shape g t).home (.task prev)) → s.Paid t c) :
    ∃ r s', s.pickFast g t turns q = some (r, s') ∧ (s'.shape g t).Sums g ∧
      (s.shape g t).Onward g (s'.shape g t) ∧
      (∀ p, r = some p → (s'.shape g t).Firm g (.task p) ∧
        ∀ c ∈ g.above ((s.shape g t).home (.task p)),
          c ∈ g.above ((s.shape g t).home (.task prev)) → s'.Paid t c) ∧
      (r = none → ∃ a ∈ g.above ((s.shape g t).home (.task prev)),
        (s'.shape g t).throttled a = true ∧ ∀ c ∈ g.above a, c ≠ a → s'.Paid t c) := by
  induction turns generalizing s q with
  | zero =>
    obtain ⟨x, hx⟩ := List.exists_mem_of_ne_nil _ hne
    have hlt := h.balanced.bound x (h.balanced.queues.onRq_of_mem hx)
    rw [h.balanced.queues.home_of_mem hx] at hlt
    omega
  | succ turns ih =>
    obtain ⟨hsums, honward, hkeep, hgo, hstay⟩ := pickCheck_spec (q := q) h hroot hheld
    simp only [pickFast]
    set s₁ := if (s.currOnRq q).isSome = true then s.updateCurr t q else s
    set r := if (s₁.cfs q).curr.isSome = true then s₁.checkCfsRqRuntime g t q else (s₁, false)
    by_cases hr : r.2 = true
    · obtain ⟨hmem, hth⟩ := hgo hr
      refine ⟨none, r.1, by rw [if_pos hr], hsums, honward, (fun p hp => by cases hp),
        fun _ => ⟨q, hmem, hth, fun c hc hcq => ?_⟩⟩
      exact hkeep c (hpaid c hc hcq (Groups.mem_above_trans hc hmem))
    · rw [Bool.not_eq_true] at hr
      obtain ⟨hshape, hpaidq⟩ := hstay hr
      rw [← hshape] at hup hne
      obtain ⟨e, s₂, hpick, hmem, hset, hcurr₂, hkeep₂⟩ := pickNextEntity_spec hsums.balanced.queues hne
      rw [currOnRq_congr hshape] at hpick
      have hfirm : (r.1.shape g t).Firm g e := firm_of_mem hsums.balanced.queues hup hmem
      have hsums₂ := hsums.settled hset
      have honward₂ := honward.trans (hset.toFrame.onward hcurr₂)
      have hfirm₂ := hfirm.settled hset
      have hhome : (r.1.shape g t).home e = q := hsums.balanced.queues.home_of_mem hmem
      rw [honward.home] at hhome
      have hpaid₂ : ∀ c, c = q ∨ c ∈ g.above q → c ∈ g.above ((s.shape g t).home (.task prev)) →
          s₂.Paid t c := by
        intro c hc hprev
        refine hkeep₂ c ?_
        by_cases hcq : c = q
        · rw [hcq] at hprev ⊢
          exact hpaidq hprev
        · exact hkeep c (hpaid c (hc.resolve_left hcq) hcq hprev)
      simp only [hr, Bool.false_eq_true, if_false, hpick]
      cases e with
      | task p =>
        refine ⟨some p, s₂, rfl, hsums₂, honward₂, ?_, fun hnone => by cases hnone⟩
        rintro _ ⟨⟩
        refine ⟨hfirm₂, fun c hc => hpaid₂ c ?_⟩
        rw [hhome] at hc
        exact .inr hc
      | group c =>
        have hc : c ≠ 0 := hsums₂.balanced.group_ne_zero hfirm₂.1
        have hparent : g.parent c = q := hhome
        have hlt := g.parent_lt c hc
        have hpath : s₂.path g (.task prev) = s.path g (.task prev) := by
          have hcfs : s₂.cfsRqOf g (.task prev) = s.cfsRqOf g (.task prev) :=
            congrFun honward₂.home (.task prev)
          rw [path, path, hcfs]
        have hheld₂ : (s₂.shape g t).Held {x | x ∈ s₂.path g (.task prev)} := by
          rw [hpath]
          exact hheld.congr honward₂.home honward₂.curr
        obtain ⟨r', s', hres, hsums₃, honward₃, hsome, hnone⟩ := ih hsums₂
          (by rw [honward₂.limited, hroot]) hheld₂ (.inr hfirm₂) (group_nonempty hsums₂.balanced hfirm₂.1)
          (by omega) (fun b hb hbc hprev => by
            rw [honward₂.home] at hprev
            rw [g.above_of_ne hc, hparent, List.mem_cons] at hb
            exact hpaid₂ b (.inr (hb.resolve_left hbc)) hprev)
        rw [honward₂.home] at hsome hnone
        exact ⟨r', s', hres, hsums₃, honward₂.trans honward₃, hsome, hnone⟩

theorem length_above (hq : q ≠ 0) : (g.above q).length = (g.above (g.parent q)).length + 1 := by
  rw [g.above_of_ne hq, List.length_cons]

theorem length_above_le (q : Nat) : (g.above q).length ≤ q := by
  induction q using Nat.strong_induction_on with
  | _ q ih =>
    by_cases hq : q = 0
    · subst hq
      exact le_rfl
    · have hlt := g.parent_lt q hq
      have := ih _ hlt
      rw [length_above hq]
      omega

theorem length_above_eq_zero (h : (g.above q).length = 0) : q = 0 := by
  by_contra hq
  rw [length_above hq] at h
  omega

theorem length_above_mono {c : Nat} (h : c ∈ g.above q) : (g.above c).length ≤ (g.above q).length := by
  induction q using Nat.strong_induction_on with
  | _ q ih =>
    have hq : q ≠ 0 := by
      rintro rfl
      simp at h
    have hself := length_above (g := g) hq
    rw [g.above_of_ne hq, List.mem_cons] at h
    rcases h with rfl | h
    · exact le_rfl
    · have := ih _ (g.parent_lt q hq) h
      omega

/-- Entities above are on queues of smaller depth. -/
theorem depth_lt {x : Ent} (hx : x ∈ g.entities q) : s.depth g x < (g.above q).length := by
  induction q using Nat.strong_induction_on with
  | _ q ih =>
    have hq : q ≠ 0 := by
      rintro rfl
      simp at hx
    rw [g.entities_of_ne hq, List.mem_cons] at hx
    rw [length_above hq]
    rcases hx with rfl | hx
    · exact Nat.lt_succ_self _
    · have := ih _ (g.parent_lt q hq) hx
      omega

theorem depth_congr {s' : FairRq} (h : (s'.shape g t).home = (s.shape g t).home) (x : Ent) :
    s'.depth g x = s.depth g x := by
  have hcfs : s'.cfsRqOf g x = s.cfsRqOf g x := congrFun h x
  rw [depth, depth, hcfs]

theorem path_congr {s' : FairRq} (h : (s'.shape g t).home = (s.shape g t).home) (x : Ent) :
    s'.path g x = s.path g x := by
  have hcfs : s'.cfsRqOf g x = s.cfsRqOf g x := congrFun h x
  rw [path, path, hcfs]

theorem setNextEntity_sums {l : Set Ent} (h : (s.shape g t).Sums g) (hheld : (s.shape g t).Held l)
    (hq : s.cfsRqOf g e = q) (hl : ∀ x ∈ l, s.cfsRqOf g x ≠ q) :
    ((s.setNextEntity q e).shape g t).Sums g ∧
      (s.shape g t).Moves g ((s.setNextEntity q e).shape g t) ∧
      ((s.setNextEntity q e).shape g t).Held (insert e l) ∧
      ∀ x, (s.shape g t).Firm g x → ((s.setNextEntity q e).shape g t).Firm g x := by
  have hhome : (s.shape g t).home e = q := hq
  have hnone : (s.shape g t).curr ((s.shape g t).home e) = none := by
    rw [hhome]
    exact hheld.curr_none hl
  have hset := settled_hold h.balanced.queues hnone
  have hheld' := hheld.hold hnone
  rw [← shape_setNextEntity hhome] at hset hheld'
  exact ⟨h.settled hset, hset.toFrame.moves, hheld', fun x hx => hx.settled hset⟩

/-- On the way from the path of the previous task to that of `p`: what is above `pse` is current
still, and the entities `l` of the path of `p` below `se` are already. -/
structure Switching (g : Groups) (t : FairTunables) (s : FairRq) (p : Nat) (l : Set Ent)
    (se pse : Ent) : Prop where
  sums : (s.shape g t).Sums g
  root : (s.shape g t).limited 0 = false
  held : (s.shape g t).Held (l ∪ {x | x ∈ s.path g pse})
  path : {x | x ∈ s.path g (.task p)} = l ∪ {x | x ∈ s.path g se}
  low : ∀ x ∈ l, s.depth g se < s.depth g x
  start : s.depth g se < s.depth g pse → l = ∅
  firm : (s.shape g t).Firm g (.task p)
  paid : ∀ c ∈ g.above ((s.shape g t).home (.task p)),
    c = s.cfsRqOf g pse ∨ c ∈ g.above (s.cfsRqOf g pse) → s.Paid t c

theorem mem_path_group {x : Ent} (hq : s.cfsRqOf g e = q) (hq0 : q ≠ 0) :
    x ∈ s.path g e ↔ x = e ∨ x ∈ s.path g (.group q) := by
  rw [path, hq, g.entities_of_ne hq0]
  exact List.mem_cons

section Switching

variable {p : Nat} {l : Set Ent} {se pse : Ent}

/-- The last entity of the previous path is put. -/
theorem Switching.putPrev (h : Switching g t s p l se pse) :
    ((s.putPrevEntity g t (s.cfsRqOf g pse) pse).shape g t).Sums g ∧
      (s.shape g t).Moves g ((s.putPrevEntity g t (s.cfsRqOf g pse) pse).shape g t) ∧
      ((s.putPrevEntity g t (s.cfsRqOf g pse) pse).shape g t).Held
        (l ∪ {x | x ∈ g.entities (s.cfsRqOf g pse)}) ∧
      ((s.putPrevEntity g t (s.cfsRqOf g pse) pse).shape g t).Firm g (.task p) ∧
      ∀ c, s.Paid t c → (s.putPrevEntity g t (s.cfsRqOf g pse) pse).Paid t c := by
  set pq := s.cfsRqOf g pse with hpq
  have hsplit : l ∪ {x | x ∈ s.path g pse} = insert pse (l ∪ {x | x ∈ g.entities pq}) := by
    rw [← Set.union_insert]
    congr 1
    ext x
    exact List.mem_cons
  have hnot : pse ∉ l ∪ {x | x ∈ g.entities pq} := by
    rintro (hmem | hmem)
    · have hlt := h.low pse hmem
      rw [h.start hlt] at hmem
      exact hmem
    · have := mem_entities_home (s := s) (t := t) hmem
      exact absurd (this.trans_eq hpq) (lt_irrefl _)
  have hheld := hsplit ▸ h.held
  obtain ⟨hsums, hmoves, hheld', -, hfirm⟩ := putPrevEntity_sums h.sums h.root hpq.symm hheld hnot
  refine ⟨hsums, hmoves, hheld', hfirm p ?_ h.firm, fun c hc => ?_⟩
  · by_cases hmem : pq ∈ g.above ((s.shape g t).home (.task p))
    · exact .inr (h.paid pq hmem (.inl rfl))
    · exact .inl hmem
  · exact hc.putPrevEntity h.sums.balanced.queues.weight_pos
      (hheld.curr_eq (Set.mem_insert pse _)) (curr_above hheld fun x hx => .inr (.inr hx))

/-- Nothing current is on the queue of `se`, when that is deeper than what is left. -/
theorem Switching.free (h : Switching g t s p l se pse) :
    (∀ x ∈ l, s.cfsRqOf g x ≠ s.cfsRqOf g se) ∧
      ∀ x ∈ g.entities (s.cfsRqOf g pse), s.depth g pse ≤ s.depth g se →
        s.cfsRqOf g x ≠ s.cfsRqOf g se := by
  constructor
  · intro x hx heq
    have := h.low x hx
    rw [depth, depth, heq] at this
    omega
  · intro x hx hle heq
    have := depth_lt (s := s) hx
    rw [depth, depth] at hle
    rw [depth, heq] at this
    omega

theorem Switching.put (h : Switching g t s p l se pse) (hpq : s.cfsRqOf g pse ≠ 0) :
    Switching g t (s.putPrevEntity g t (s.cfsRqOf g pse) pse) p l se (.group (s.cfsRqOf g pse)) := by
  obtain ⟨hsums, hmoves, hheld, hfirm, hpaid⟩ := h.putPrev
  set pq := s.cfsRqOf g pse
  have hhome := hmoves.home
  have hshort : s.depth g pse = s.depth g (.group pq) + 1 := length_above hpq
  refine ⟨hsums, by rw [hmoves.limited, h.root], ?_, ?_, fun x hx => ?_, fun hlt => ?_, hfirm,
    fun c hc hor => hpaid c (h.paid c ?_ ?_)⟩
  · rw [path_congr hhome]
    rwa [g.entities_of_ne hpq] at hheld
  · rw [path_congr hhome, path_congr hhome]
    exact h.path
  · rw [depth_congr hhome, depth_congr hhome]
    exact h.low x hx
  · rw [depth_congr hhome, depth_congr hhome] at hlt
    exact h.start (by omega)
  · rwa [hhome] at hc
  · right
    show c ∈ g.above pq
    rw [g.above_of_ne hpq]
    refine List.mem_cons_of_mem _ ?_
    rcases hor with rfl | hor
    · exact Groups.mem_above_self (Groups.above_pos hc)
    · exact hor

theorem Switching.set (h : Switching g t s p l se pse) (hlt : s.depth g pse < s.depth g se) :
    Switching g t (s.setNextEntity (s.cfsRqOf g se) se) p (insert se l) (.group (s.cfsRqOf g se)) pse ∧
      (s.shape g t).Moves g ((s.setNextEntity (s.cfsRqOf g se) se).shape g t) := by
  obtain ⟨hlow, hhigh⟩ := h.free
  obtain ⟨hsums, hmoves, hheld, hfirm⟩ := setNextEntity_sums (e := se) h.sums h.held rfl (by
    rintro x (hx | hx)
    · exact hlow x hx
    · rcases List.mem_cons.mp hx with rfl | hx
      · intro heq
        rw [depth, depth, heq] at hlt
        omega
      · exact hhigh x hx hlt.le)
  set q := s.cfsRqOf g se with hq
  have hhome := hmoves.home
  have hq0 : q ≠ 0 := by
    intro h0
    rw [depth, depth, ← hq, h0] at hlt
    simp at hlt
  have hshort : s.depth g se = s.depth g (.group q) + 1 := length_above hq0
  refine ⟨⟨hsums, by rw [hmoves.limited, h.root], ?_, ?_, ?_, fun hlt' => ?_, hfirm _ h.firm,
    fun c hc hor => ?_⟩, hmoves⟩
  · rw [path_congr hhome, Set.insert_union]
    exact hheld
  · rw [path_congr hhome, path_congr hhome, h.path, Set.insert_union, ← Set.union_insert]
    congr 1
    ext x
    exact mem_path_group hq.symm hq0
  · rintro x (rfl | hx)
    · rw [depth_congr hhome, depth_congr hhome]
      omega
    · rw [depth_congr hhome, depth_congr hhome]
      have := h.low x hx
      omega
  · rw [depth_congr hhome, depth_congr hhome] at hlt'
    omega
  · have hcfs : (s.setNextEntity q se).cfsRqOf g pse = s.cfsRqOf g pse := congrFun hhome pse
    rw [hcfs] at hor
    rw [hhome] at hc
    refine (h.paid c hc hor).setNextEntity ?_
    rintro rfl
    rw [depth, depth] at hlt
    rcases hor with heq | hmem
    · rw [← hq, heq] at hlt
      omega
    · have := length_above_mono hmem
      rw [← hq] at hlt
      omega

/-- The two paths meet. -/
theorem Switching.meet (h : Switching g t s p l se pse) (hsame : s.cfsRqOf g se = s.cfsRqOf g pse) :
    let s' := (s.putPrevEntity g t (s.cfsRqOf g se) pse).setNextEntity (s.cfsRqOf g se) se
    (s'.shape g t).Sums g ∧ (s.shape g t).Moves g (s'.shape g t) ∧
      (s'.shape g t).Held {x | x ∈ s.path g (.task p)} ∧ (s'.shape g t).Firm g (.task p) := by
  obtain ⟨hlow, hhigh⟩ := h.free
  obtain ⟨hsums, hmoves, hheld, hfirm, -⟩ := h.putPrev
  have hcfs : ∀ x, (s.putPrevEntity g t (s.cfsRqOf g pse) pse).cfsRqOf g x = s.cfsRqOf g x :=
    congrFun hmoves.home
  obtain ⟨hsums', hmoves', hheld', hfirm'⟩ := setNextEntity_sums hsums hheld (hcfs se) (by
    rintro x (hx | hx)
    · rw [hcfs]
      exact hlow x hx
    · rw [hcfs]
      exact hhigh x hx (by rw [depth, depth, hsame]))
  intro s'
  simp only [s']
  rw [hsame] at hsums' hmoves' hheld' hfirm' ⊢
  refine ⟨hsums', hmoves.trans hmoves', ?_, hfirm' _ hfirm⟩
  convert hheld' using 1
  rw [← Set.union_insert, h.path, FairRq.path, hsame]
  congr 1
  ext x
  exact List.mem_cons

/-- Two paths are put and set in turn, up to the queue they share. -/
theorem switchPath_spec (turns : Nat) (h : Switching g t s p l se pse)
    (hturns : s.depth g se + s.depth g pse < turns) :
    ((s.switchPath g t turns se pse).shape g t).Sums g ∧
      (s.shape g t).Moves g ((s.switchPath g t turns se pse).shape g t) ∧
      ((s.switchPath g t turns se pse).shape g t).Held {x | x ∈ s.path g (.task p)} ∧
      ((s.switchPath g t turns se pse).shape g t).Firm g (.task p) ∧
      (s.Ranked g → s.Later g (s.switchPath g t turns se pse)) := by
  induction turns generalizing s se pse l with
  | zero => omega
  | succ turns ih =>
    have hcurr : (s.cfs (s.cfsRqOf g pse)).curr = some pse := h.held.curr_eq (.inr List.mem_cons_self)
    by_cases hsame : s.cfsRqOf g se = s.cfsRqOf g pse
    · simp only [switchPath, if_pos hsame]
      obtain ⟨hsums, hmoves, hheld, hfirm⟩ := h.meet hsame
      refine ⟨hsums, hmoves, hheld, hfirm, fun hranked => ?_⟩
      rw [← hsame] at hcurr
      have hput := later_putPrevEntity (t := t) hranked hcurr
      exact hput.trans (later_setNextEntity hput.ranked (hput.cfsRqOf se))
    · have hpq : s.depth g se ≤ s.depth g pse → s.cfsRqOf g pse ≠ 0 := by
        intro hle h0
        have hpse : s.depth g pse = 0 := by rw [depth, h0]; rfl
        have hse : (g.above (s.cfsRqOf g se)).length = 0 := Nat.le_zero.mp (hle.trans_eq hpse)
        exact hsame ((length_above_eq_zero hse).trans h0.symm)
      have hpshort : s.cfsRqOf g pse ≠ 0 → s.depth g pse = s.depth g (.group (s.cfsRqOf g pse)) + 1 :=
        length_above
      have hshort : s.cfsRqOf g se ≠ 0 → s.depth g se = s.depth g (.group (s.cfsRqOf g se)) + 1 :=
        length_above
      have hq : s.depth g se ≠ 0 → s.cfsRqOf g se ≠ 0 := by
        intro hd h0
        exact hd (by rw [depth, h0]; rfl)
      simp only [switchPath, if_neg hsame]
      rcases lt_trichotomy (s.depth g se) (s.depth g pse) with hlt | heq | hgt
      · have hput := h.put (hpq hlt.le)
        obtain ⟨-, hmoves, -⟩ := h.putPrev
        have := hpshort (hpq hlt.le)
        simp only [hlt.le, if_true, ge_iff_le, not_le.mpr hlt, if_false]
        set s₁ := s.putPrevEntity g t (s.cfsRqOf g pse) pse
        obtain ⟨hsums₂, hmoves₂, hheld₂, hfirm₂, hlater₂⟩ := ih hput (by
          rw [depth_congr hmoves.home, depth_congr hmoves.home]
          omega)
        rw [path_congr hmoves.home] at hheld₂
        refine ⟨hsums₂, hmoves.trans hmoves₂, hheld₂, hfirm₂, fun hranked => ?_⟩
        have hlater := later_putPrevEntity (t := t) hranked hcurr
        exact hlater.trans (hlater₂ hlater.ranked)
      · have hput := h.put (hpq heq.le)
        obtain ⟨-, hmoves, -⟩ := h.putPrev
        have hpd := hpshort (hpq heq.le)
        have hd := hshort (hq (by omega))
        simp only [heq.le, heq.ge, if_true]
        set s₁ := s.putPrevEntity g t (s.cfsRqOf g pse) pse
        have hcfs : s₁.cfsRqOf g se = s.cfsRqOf g se := congrFun hmoves.home se
        have hset := hput.set (by
          rw [depth_congr hmoves.home, depth_congr hmoves.home]
          omega)
        rw [hcfs] at hset
        set s₂ := s₁.setNextEntity (s.cfsRqOf g se) se
        have hmoves₂ := hmoves.trans hset.2
        obtain ⟨hsums₃, hmoves₃, hheld₃, hfirm₃, hlater₃⟩ := ih hset.1 (by
          rw [depth_congr hmoves₂.home, depth_congr hmoves₂.home]
          omega)
        rw [path_congr hmoves₂.home] at hheld₃
        refine ⟨hsums₃, hmoves₂.trans hmoves₃, hheld₃, hfirm₃, fun hranked => ?_⟩
        have hlater := later_putPrevEntity (t := t) hranked hcurr
        have hlater₂ := hlater.trans (later_setNextEntity hlater.ranked hcfs)
        exact hlater₂.trans (hlater₃ hlater₂.ranked)
      · have hset := h.set hgt
        have := hshort (hq (by omega))
        simp only [hgt.le, if_true, not_le.mpr hgt, if_false]
        set s₁ := s.setNextEntity (s.cfsRqOf g se) se
        obtain ⟨hsums₂, hmoves₂, hheld₂, hfirm₂, hlater₂⟩ := ih hset.1 (by
          rw [depth_congr hset.2.home, depth_congr hset.2.home]
          omega)
        rw [path_congr hset.2.home] at hheld₂
        refine ⟨hsums₂, hset.2.trans hmoves₂, hheld₂, hfirm₂, fun hranked => ?_⟩
        have hlater := later_setNextEntity hranked (rfl : s.cfsRqOf g se = s.cfsRqOf g se)
        exact hlater.trans (hlater₂ hlater.ranked)

end Switching

/-- What is current belongs to `rq->curr`. -/
abbrev HeldByCurr (g : Groups) (t : FairTunables) (s : FairRq) : Prop :=
  (s.shape g t).Held {x | ∃ p, s.curr = some p ∧ x ∈ s.path g (.task p)}

theorem HeldByCurr.of_some {prev : Nat} (h : HeldByCurr g t s) (hcurr : s.curr = some prev) :
    (s.shape g t).Held {x | x ∈ s.path g (.task prev)} := by
  convert h using 1
  ext x
  simp [hcurr]

theorem HeldByCurr.of_none (h : HeldByCurr g t s) (hcurr : s.curr = none) : (s.shape g t).Held ∅ := by
  convert h using 1
  ext x
  simp [hcurr]

theorem putPrevTaskFair_sums (h : (s.shape g t).Sums g) (hroot : (s.shape g t).limited 0 = false)
    (hheld : HeldByCurr g t s) :
    ((s.putPrevTaskFair g t).shape g t).Sums g ∧
      (s.shape g t).Moves g ((s.putPrevTaskFair g t).shape g t) ∧
      ((s.putPrevTaskFair g t).shape g t).Held ∅ ∧
      (∀ x, ((s.putPrevTaskFair g t).shape g t).onRq x = true → (s.shape g t).onRq x = true) ∧
      ∀ p, (∀ prev, s.curr = some prev → ∀ c ∈ g.above ((s.shape g t).home (.task prev)),
          c ∉ g.above ((s.shape g t).home (.task p)) ∨ s.Paid t c) →
        (s.shape g t).Firm g (.task p) → ((s.putPrevTaskFair g t).shape g t).Firm g (.task p) := by
  cases hcurr : s.curr with
  | none =>
    have hput : s.putPrevTaskFair g t = s := by simp only [putPrevTaskFair, hcurr]
    rw [hput]
    exact ⟨h, .refl _, hheld.of_none hcurr, fun _ => id, fun _ _ => id⟩
  | some prev =>
    have hput : s.putPrevTaskFair g t = s.putUp g t (s.path g (.task prev)) := by
      simp only [putPrevTaskFair, hcurr]
    obtain ⟨hsums, hmoves, hnone, hfewer, hkeep⟩ := putUp_sums h hroot rfl (hheld.of_some hcurr)
    rw [hput]
    exact ⟨hsums, hmoves, hnone, hfewer, fun p hp => hkeep p (hp prev rfl)⟩

theorem later_putPrevTaskFair (h : s.Ranked g) (hheld : HeldByCurr g t s) :
    s.Later g (s.putPrevTaskFair g t) := by
  simp only [putPrevTaskFair]
  split
  · exact .refl h
  · rename_i prev hcurr
    exact later_putUp h path_pairwise fun x hx => (hheld.of_some hcurr).curr_eq hx

/-- `pick_next_task_fair` from `simple` on: a task is found if any is left after all above `prev`
has been put. -/
theorem pickFromRoot_spec (h : (s.shape g t).Sums g) (hroot : (s.shape g t).limited 0 = false)
    (hheld : HeldByCurr g t s)
    (hpaid : ∀ prev, s.curr = some prev → ∃ a ∈ g.above ((s.shape g t).home (.task prev)),
      (s.shape g t).throttled a = true ∧ ∀ c ∈ g.above a, c ≠ a → s.Paid t c) :
    (s.pickFromRoot g t = some (none, s) ∧ (s.shape g t).queued 0 = []) ∨
      ∃ p s', s.pickFromRoot g t = some (some p, s') ∧ (s'.shape g t).Sums g ∧
        (s.shape g t).Moves g (s'.shape g t) ∧ (s'.shape g t).Held {x | x ∈ s'.path g (.task p)} ∧
        (s'.shape g t).Firm g (.task p) ∧ (s.Ranked g → s.Later g s') := by
  have hnr : (s.cfs 0).nrRunning = 0 ↔ (s.shape g t).queued 0 = [] := h.balanced.queues.nr_eq_zero 0
  by_cases hzero : (s.cfs 0).nrRunning = 0
  · exact .inl ⟨by simp only [pickFromRoot, hzero, if_true], hnr.mp hzero⟩
  right
  simp only [pickFromRoot, hzero, if_false]
  have hne : (s.shape g t).queued 0 ≠ [] := fun hnil => hzero (hnr.mpr hnil)
  obtain ⟨p₀, hp₀⟩ := exists_firm h.balanced (.inl rfl) hne
  obtain ⟨hsums, hmoves, hnone, -, hkeep⟩ := putPrevTaskFair_sums h hroot hheld
  have hp₁ := hkeep p₀ (fun prev hcurr c hc => by
    obtain ⟨a, ha, hth, hpaid⟩ := hpaid prev hcurr
    have hnot : a ∉ g.above ((s.shape g t).home (.task p₀)) := by
      intro hin
      rw [h.balanced.unthrottled (Set.notMem_empty a) (hp₀.2 a hin)] at hth
      cases hth
    by_cases hmem : c ∈ g.above ((s.shape g t).home (.task p₀))
    · right
      rcases Groups.above_total ha hc with hac | hca
      · exact absurd (Groups.mem_above_trans hac hmem) hnot
      · refine hpaid c hca ?_
        rintro rfl
        exact hnot hmem
    · exact .inl hmem) hp₀
  have hne₁ := hp₁.queued_ne_nil hsums.balanced.queues hsums.balanced.home_group (.inl rfl)
  obtain ⟨p, s', hpick, hsums', hmoves', hheld', hfirm, hlater⟩ := pickSimple_spec g.size hsums
    (by simpa using hnone) (.inl rfl) hne₁ (Nat.le_add_right _ 0)
  refine ⟨p, s', by rw [hpick]; rfl, hsums', hmoves.trans hmoves', hheld', hfirm, fun hranked => ?_⟩
  have hput := later_putPrevTaskFair hranked hheld
  exact hput.trans (hlater hput.ranked)

/-- `pick_next_task_fair` never follows a null pointer. It goes idle only when nothing is left at
the root; otherwise it finds a task that is queued with all above it. -/
theorem pickNextTaskFair_spec (h : (s.shape g t).Sums g) (hroot : (s.shape g t).limited 0 = false)
    (hheld : HeldByCurr g t s) :
    ∃ r s', s.pickNextTaskFair g t = some (r, s') ∧ (s'.shape g t).Sums g ∧
      (s.shape g t).Moves g (s'.shape g t) ∧
      (∀ p, r = some p → (s'.shape g t).Held {x | x ∈ s'.path g (.task p)} ∧
        (s'.shape g t).Firm g (.task p)) ∧
      (r = none → HeldByCurr g t s' ∧ (s'.shape g t).queued 0 = []) ∧
      (s.Ranked g → s.Later g s') := by
  have hnr : (s.cfs 0).nrRunning = 0 ↔ (s.shape g t).queued 0 = [] := h.balanced.queues.nr_eq_zero 0
  by_cases hzero : (s.cfs 0).nrRunning = 0
  · exact ⟨none, s, by simp only [pickNextTaskFair, hzero, if_true], h, .refl _, nofun,
      fun _ => ⟨hheld, hnr.mp hzero⟩, .refl⟩
  have hne : (s.shape g t).queued 0 ≠ [] := fun hnil => hzero (hnr.mpr hnil)
  simp only [pickNextTaskFair, hzero, if_false]
  cases hcurr : s.curr with
  | none =>
    rcases pickFromRoot_spec h hroot hheld (fun prev hprev => by rw [hcurr] at hprev; cases hprev) with
      ⟨hpick, hnil⟩ | ⟨p, s', hpick, hsums, hmoves, hpath, hfirm, hlater⟩
    · exact absurd hnil hne
    · refine ⟨some p, s', hpick, hsums, hmoves, ?_, nofun, hlater⟩
      rintro _ ⟨⟩
      exact ⟨hpath, hfirm⟩
  | some prev =>
    obtain ⟨r, s₁, hfast, hsums, honward, hsome, hnone⟩ := pickFast_spec g.size h hroot
      (hheld.of_some hcurr) (.inl rfl) hne (Nat.le_add_right _ 0) nofun
    have hpath₁ : ∀ x, s₁.path g x = s.path g x := path_congr honward.home
    have hheld₁ : (s₁.shape g t).Held {x | x ∈ s₁.path g (.task prev)} := by
      rw [hpath₁]
      exact (hheld.of_some hcurr).congr honward.home honward.curr
    have hcurr₁ : s₁.curr = some prev := honward.running.trans hcurr
    have hroot₁ : (s₁.shape g t).limited 0 = false := by rw [honward.limited, hroot]
    have hcalm : s.Ranked g → s.Later g s₁ := fun hranked => (calm_pickFast hranked hfast).toLater
    rw [hfast]
    cases r with
    | none =>
      have hby : HeldByCurr g t s₁ := by
        convert hheld₁ using 1
        ext x
        simp [hcurr₁]
      rcases pickFromRoot_spec hsums hroot₁ hby (fun p hp => by
          rw [hcurr₁, Option.some.injEq] at hp
          rw [← hp, honward.home]
          exact hnone rfl) with ⟨hpick, hnil⟩ | ⟨p, s', hpick, hsums', hmoves, hpath, hfirm, hlater⟩
      · exact ⟨none, s₁, hpick, hsums, honward.toMoves, nofun, fun _ => ⟨hby, hnil⟩, hcalm⟩
      · refine ⟨some p, s', hpick, hsums', honward.toMoves.trans hmoves, ?_, nofun, fun hranked =>
          (hcalm hranked).trans (hlater (hcalm hranked).ranked)⟩
        rintro _ ⟨⟩
        exact ⟨hpath, hfirm⟩
    | some p =>
      obtain ⟨hfirm, hpaid⟩ := hsome p rfl
      by_cases hp : prev = p
      · simp only [hp, if_true]
        rw [hp] at hheld₁
        refine ⟨some p, s₁, rfl, hsums, honward.toMoves, ?_, nofun, hcalm⟩
        rintro _ ⟨⟩
        exact ⟨hheld₁, hfirm⟩
      · simp only [hp, if_false]
        have hswitch : Switching g t s₁ p ∅ (.task p) (.task prev) := by
          refine ⟨hsums, hroot₁, by simpa using hheld₁, by simp, nofun, fun _ => rfl, hfirm,
            fun c hc hor => hpaid c ?_ ?_⟩
          · rwa [honward.home] at hc
          · rw [show s₁.cfsRqOf g (.task prev) = s.cfsRqOf g (.task prev) from
              congrFun honward.home (.task prev)] at hor
            rcases hor with rfl | hor
            · exact Groups.mem_above_self (Groups.above_pos hc)
            · exact hor
        have hdepth : ∀ p, s₁.depth g (.task p) < g.size := fun p =>
          (length_above_le _).trans_lt (hsums.balanced.home_task p)
        obtain ⟨hsums', hmoves, hpath, hfirm', hlater⟩ := switchPath_spec (g.size + g.size) hswitch (by
          have := hdepth p
          have := hdepth prev
          omega)
        refine ⟨some p, _, rfl, hsums', honward.toMoves.trans hmoves, ?_, nofun, fun hranked =>
          (hcalm hranked).trans (hlater (hcalm hranked).ranked)⟩
        rintro _ ⟨⟩
        rw [path_congr hmoves.home]
        exact ⟨hpath, hfirm'⟩

end FairRq

end MSchedutil
