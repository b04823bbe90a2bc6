import MSchedutil.FairOps
import Mathlib.Algebra.BigOperators.Group.List.Basic
import Mathlib.Tactic.Ring
import Mathlib.Tactic.Linarith

/-! What the counters of the queues count: the state without its times, the entities that are
on a queue, and how joining, leaving, running and reweighing move them. -/

namespace MSchedutil

/-- The queues without times and runtimes; `home` is `cfs_rq_of`, `running` is `rq->curr`. A
queue is `limited` when its runtime is accounted, `capped` when its group has a quota. -/
structure Shape where
  home : Ent → Nat
  onRq : Ent → Bool
  weight : Ent → Nat
  timeline : Nat → List Ent
  curr : Nat → Option Ent
  next : Nat → Option Ent
  last : Nat → Option Ent
  load : Nat → Nat
  nrRunning : Nat → Nat
  hNrRunning : Nat → Nat
  throttled : Nat → Bool
  throttleCount : Nat → Nat
  limited : Nat → Bool
  capped : Nat → Bool
  total : Nat
  rootLoad : Nat
  tasks : List Nat
  running : Option Nat

namespace Shape

variable {a : Shape} {e : Ent} {q : Nat}

/-- The entities on a queue: those in the timeline, and the current one while it is on. -/
def queued (a : Shape) (q : Nat) : List Ent := a.timeline q ++ ((a.curr q).filter a.onRq).toList

/-- The bookkeeping of every queue: the counters, weights and lists agree with what is on it. -/
structure Queues (a : Shape) : Prop where
  nodup : ∀ q, (a.queued q).Nodup
  mem : ∀ q e, e ∈ a.queued q ↔ a.onRq e = true ∧ a.home e = q
  home_curr : ∀ q e, a.curr q = some e → a.home e = q
  nr : ∀ q, a.nrRunning q = (a.queued q).length
  load : ∀ q, a.load q = ((a.queued q).map a.weight).sum
  weight_pos : ∀ e, 0 < a.weight e
  next : ∀ q e, a.next q = some e → e ∈ a.queued q
  last : ∀ q e, a.last q = some e → e ∈ a.queued q
  tasks_nodup : a.tasks.Nodup
  tasks : ∀ p, p ∈ a.tasks ↔ a.onRq (.task p) = true
  rootLoad : a.rootLoad = a.load 0

/-- The tasks once an entity has joined. -/
@[simp] def tasksWith (tasks : List Nat) : Ent → List Nat
  | .task p => p :: tasks
  | .group _ => tasks

/-- The tasks once an entity has left. -/
@[simp] def tasksWithout (tasks : List Nat) : Ent → List Nat
  | .task p => tasks.erase p
  | .group _ => tasks

/-- An entity joins its queue: into the timeline, unless it is running. -/
def join (a : Shape) (e : Ent) (tl : List Ent) : Shape :=
  { a with
    onRq := Function.update a.onRq e true
    timeline := if a.curr (a.home e) = some e then a.timeline
      else Function.update a.timeline (a.home e) tl
    load := Function.update a.load (a.home e) (a.load (a.home e) + a.weight e)
    nrRunning := Function.update a.nrRunning (a.home e) (a.nrRunning (a.home e) + 1)
    rootLoad := if a.home e = 0 then a.rootLoad + a.weight e else a.rootLoad
    tasks := tasksWith a.tasks e }

/-- An entity leaves its queue. -/
def leave (a : Shape) (e : Ent) : Shape :=
  { a with
    onRq := Function.update a.onRq e false
    timeline := if a.curr (a.home e) = some e then a.timeline
      else Function.update a.timeline (a.home e) ((a.timeline (a.home e)).erase e)
    load := Function.update a.load (a.home e) (a.load (a.home e) - a.weight e)
    nrRunning := Function.update a.nrRunning (a.home e) (a.nrRunning (a.home e) - 1)
    rootLoad := if a.home e = 0 then a.rootLoad - a.weight e else a.rootLoad
    tasks := tasksWithout a.tasks e }

/-- The weight of an entity changes, and with it that of the queue it is on. -/
def reweigh (a : Shape) (e : Ent) (w : Nat) : Shape :=
  { a with
    weight := Function.update a.weight e w
    load := if a.onRq e then
      Function.update a.load (a.home e) (a.load (a.home e) - a.weight e + w) else a.load
    rootLoad := if a.onRq e = true ∧ a.home e = 0 then a.rootLoad - a.weight e + w
      else a.rootLoad }

/-- An entity is made the current one of its queue. -/
def hold (a : Shape) (e : Ent) : Shape :=
  { a with
    timeline := if a.onRq e then
      Function.update a.timeline (a.home e) ((a.timeline (a.home e)).erase e) else a.timeline
    curr := Function.update a.curr (a.home e) (some e) }

/-- The current entity goes back into the timeline, if it is still on the queue. -/
def release (a : Shape) (e : Ent) (tl : List Ent) : Shape :=
  { a with
    timeline := if a.onRq e then Function.update a.timeline (a.home e) tl else a.timeline
    curr := Function.update a.curr (a.home e) none }

/-- Buddies are only forgotten. -/
structure Forgets (a : Shape) (next last : Nat → Option Ent) : Prop where
  next : ∀ q, next q = a.next q ∨ next q = none
  last : ∀ q, last q = a.last q ∨ last q = none

namespace Queues

theorem onRq_of_mem (h : a.Queues) (he : e ∈ a.queued q) : a.onRq e = true := ((h.mem q e).mp he).1

theorem home_of_mem (h : a.Queues) (he : e ∈ a.queued q) : a.home e = q := ((h.mem q e).mp he).2

theorem mem_home (h : a.Queues) (he : a.onRq e = true) : e ∈ a.queued (a.home e) :=
  (h.mem _ e).mpr ⟨he, rfl⟩

theorem mem_timeline (h : a.Queues) (he : a.onRq e = true) (hc : a.curr (a.home e) ≠ some e) :
    e ∈ a.timeline (a.home e) := by
  have hmem := h.mem_home he
  rw [queued, List.mem_append] at hmem
  rcases hmem with hmem | hmem
  · exact hmem
  · rw [Option.mem_toList, Option.filter_eq_some_iff] at hmem
    exact absurd hmem.1 hc

theorem curr_not_mem (h : a.Queues) (hc : a.curr q = some e) : e ∉ a.timeline q := by
  intro hmem
  have hon := h.onRq_of_mem (q := q) (List.mem_append_left _ hmem)
  have hnodup := h.nodup q
  rw [queued, hc, Option.filter_some, if_pos hon, Option.toList_some] at hnodup
  exact (List.nodup_append.mp hnodup).2.2 e hmem e (List.mem_singleton_self e) rfl

theorem nr_pos (h : a.Queues) (he : a.onRq e = true) : 0 < a.nrRunning (a.home e) := by
  rw [h.nr]
  exact List.length_pos_of_mem (h.mem_home he)

theorem load_eq_zero (h : a.Queues) (q : Nat) : a.load q = 0 ↔ a.queued q = [] := by
  rw [h.load]
  constructor
  · intro hsum
    rw [List.eq_nil_iff_forall_not_mem]
    intro e he
    have := List.sum_eq_zero_iff.mp hsum (a.weight e) (List.mem_map_of_mem he)
    have := h.weight_pos e
    omega
  · intro hnil
    simp [hnil]

theorem nr_eq_zero (h : a.Queues) (q : Nat) : a.nrRunning q = 0 ↔ a.queued q = [] := by
  rw [h.nr, List.length_eq_zero_iff]

end Queues

/-- Only the current entity matters besides the timeline. -/
theorem queued_congr {b : Shape} (htl : b.timeline q = a.timeline q) (hc : b.curr q = a.curr q)
    (hon : ∀ e, a.curr q = some e → b.onRq e = a.onRq e) : b.queued q = a.queued q := by
  rw [queued, queued, htl, hc]
  cases hcq : a.curr q with
  | none => rfl
  | some e => simp only [Option.filter_some, hon e hcq]

section Operations

variable {tl : List Ent}

theorem queued_join (h : a.Queues) (hoff : a.onRq e = false)
    (htl : tl.Perm (e :: a.timeline (a.home e))) (q : Nat) :
    ((a.join e tl).queued q).Perm (if q = a.home e then e :: a.queued q else a.queued q) := by
  by_cases hq : q = a.home e
  · subst hq
    rw [if_pos rfl]
    by_cases hc : a.curr (a.home e) = some e
    · simp only [queued, join, hc, if_true, Option.filter_some, Function.update_self, hoff,
        Bool.false_eq_true, if_false, Option.toList_some, Option.toList_none, List.append_nil]
      exact List.perm_append_singleton _ _
    · have hfilter : (a.curr (a.home e)).filter (Function.update a.onRq e true) =
          (a.curr (a.home e)).filter a.onRq := by
        cases hx : a.curr (a.home e) with
        | none => rfl
        | some x =>
          have hne : x ≠ e := fun hxe => hc (by rw [hx, hxe])
          simp [Option.filter_some, hne]
      simp only [queued, join, hc, if_false, Function.update_self, hfilter]
      exact htl.append_right _
  · rw [if_neg hq, queued_congr (a := a)]
    · simp only [join]
      split
      · rfl
      · exact Function.update_of_ne hq _ _
    · rfl
    · intro x hx
      have hne : x ≠ e := fun hxe => hq (by rw [← hxe, h.home_curr q x hx])
      exact Function.update_of_ne hne _ _

theorem queued_leave (h : a.Queues) (hon : a.onRq e = true) (q : Nat) :
    ((a.leave e).queued q).Perm (if q = a.home e then (a.queued q).erase e else a.queued q) := by
  by_cases hq : q = a.home e
  · subst hq
    rw [if_pos rfl]
    by_cases hc : a.curr (a.home e) = some e
    · have hnot := h.curr_not_mem hc
      simp only [queued, leave, hc, if_true, Option.filter_some, Function.update_self, hon,
        Bool.false_eq_true, if_false, Option.toList_some, Option.toList_none, List.append_nil]
      rw [List.erase_append_right _ hnot]
      simp
    · have hfilter : (a.curr (a.home e)).filter (Function.update a.onRq e false) =
          (a.curr (a.home e)).filter a.onRq := by
        cases hx : a.curr (a.home e) with
        | none => rfl
        | some x =>
          have hne : x ≠ e := fun hxe => hc (by rw [hx, hxe])
          simp [Option.filter_some, hne]
      simp only [queued, leave, hc, if_false, Function.update_self, hfilter]
      rw [List.erase_append_left _ (h.mem_timeline hon hc)]
  · rw [if_neg hq, queued_congr (a := a)]
    · simp only [leave]
      split
      · rfl
      · exact Function.update_of_ne hq _ _
    · rfl
    · intro x hx
      have hne : x ≠ e := fun hxe => hq (by rw [← hxe, h.home_curr q x hx])
      exact Function.update_of_ne hne _ _

theorem queued_hold (h : a.Queues) (hc : a.curr (a.home e) = none) (q : Nat) :
    ((a.hold e).queued q).Perm (a.queued q) := by
  by_cases hq : q = a.home e
  · subst hq
    by_cases hon : a.onRq e = true
    · have hmem := h.mem_timeline hon (by simp [hc])
      simp only [queued, hold, hon, if_true, Function.update_self, Option.filter_some,
        Option.toList_some, hc, Option.filter_none, Option.toList_none, List.append_nil]
      exact (List.perm_append_singleton _ _).trans (List.perm_cons_erase hmem).symm
    · simp only [Bool.not_eq_true] at hon
      simp [queued, hold, hon, hc, Option.filter_some]
  · rw [queued_congr (a := a)]
    · simp only [hold]
      split
      · exact Function.update_of_ne hq _ _
      · rfl
    · exact Function.update_of_ne hq _ _
    · exact fun _ _ => rfl

theorem queued_release (hc : a.curr (a.home e) = some e)
    (htl : a.onRq e = true → tl.Perm (e :: a.timeline (a.home e))) (q : Nat) :
    ((a.release e tl).queued q).Perm (a.queued q) := by
  by_cases hq : q = a.home e
  · subst hq
    by_cases hon : a.onRq e = true
    · simp only [queued, release, hon, if_true, Function.update_self, Option.filter_some,
        Option.toList_some, hc, Option.filter_none, Option.toList_none, List.append_nil]
      exact (htl hon).trans (List.perm_append_singleton _ _).symm
    · simp only [Bool.not_eq_true] at hon
      simp [queued, release, hon, hc, Option.filter_some]
  · rw [queued_congr (a := a)]
    · simp only [release]
      split
      · exact Function.update_of_ne hq _ _
      · rfl
    · exact Function.update_of_ne hq _ _
    · exact fun _ _ => rfl

theorem Queues.join (h : a.Queues) (hoff : a.onRq e = false)
    (htl : tl.Perm (e :: a.timeline (a.home e))) : (a.join e tl).Queues := by
  have hperm := queued_join h hoff htl
  have hnot : e ∉ a.queued (a.home e) := by
    intro hmem
    simp [h.onRq_of_mem hmem] at hoff
  have hmono : ∀ q x, x ∈ a.queued q → x ∈ (a.join e tl).queued q := by
    intro q x hx
    rw [(hperm q).mem_iff]
    split
    · exact List.mem_cons_of_mem _ hx
    · exact hx
  constructor
  · intro q
    rw [(hperm q).nodup_iff]
    split
    · rename_i hq
      exact List.nodup_cons.mpr ⟨hq ▸ hnot, h.nodup q⟩
    · exact h.nodup q
  · intro q x
    rw [(hperm q).mem_iff]
    by_cases hx : x = e
    · subst hx
      by_cases hq : q = a.home x
      · simp [hq, Shape.join]
      · simp [hq, Shape.join, h.mem, Ne.symm hq]
    · simp only [Shape.join, Function.update_of_ne hx]
      split
      · rw [List.mem_cons, or_iff_right hx, h.mem]
      · exact h.mem q x
  · exact h.home_curr
  · intro q
    rw [(hperm q).length_eq]
    by_cases hq : q = a.home e
    · subst hq
      simp [Shape.join, h.nr]
    · simp [Shape.join, hq, h.nr]
  · intro q
    rw [((hperm q).map _).sum_eq]
    by_cases hq : q = a.home e
    · subst hq
      simp [Shape.join, h.load, Nat.add_comm]
    · simp [Shape.join, hq, h.load]
  · exact h.weight_pos
  · exact fun q x hx => hmono q x (h.next q x hx)
  · exact fun q x hx => hmono q x (h.last q x hx)
  · cases e with
    | group c => exact h.tasks_nodup
    | task p =>
      refine List.nodup_cons.mpr ⟨?_, h.tasks_nodup⟩
      rw [h.tasks, hoff]
      exact Bool.false_ne_true
  · intro p
    cases e with
    | group c => simp [Shape.join, h.tasks]
    | task p' =>
      by_cases hp : p = p'
      · simp [Shape.join, hp]
      · simp [Shape.join, hp, h.tasks]
  · by_cases hq : a.home e = 0
    · simp [Shape.join, hq, h.rootLoad]
    · simp [Shape.join, hq, Ne.symm hq, h.rootLoad]

/-- An entity that leaves must not be remembered as a buddy. -/
theorem Queues.leave (h : a.Queues) (hon : a.onRq e = true) (hnext : a.next (a.home e) ≠ some e)
    (hlast : a.last (a.home e) ≠ some e) : (a.leave e).Queues := by
  have hperm := queued_leave h hon
  have hmem := h.mem_home hon
  have hkeep : ∀ q x, x ∈ a.queued q → x ≠ e → x ∈ (a.leave e).queued q := by
    intro q x hx hne
    rw [(hperm q).mem_iff]
    split
    · exact (List.mem_erase_of_ne hne).mpr hx
    · exact hx
  constructor
  · intro q
    rw [(hperm q).nodup_iff]
    split
    · exact (h.nodup q).erase e
    · exact h.nodup q
  · intro q x
    rw [(hperm q).mem_iff]
    by_cases hx : x = e
    · subst hx
      by_cases hq : q = a.home x
      · simp [hq, Shape.leave, (h.nodup _).not_mem_erase]
      · simp [hq, Shape.leave, h.mem, Ne.symm hq]
    · simp only [Shape.leave, Function.update_of_ne hx]
      split
      · rw [List.mem_erase_of_ne hx, h.mem]
      · exact h.mem q x
  · exact h.home_curr
  · intro q
    rw [(hperm q).length_eq]
    by_cases hq : q = a.home e
    · subst hq
      simp [Shape.leave, h.nr, List.length_erase_of_mem hmem]
    · simp [Shape.leave, hq, h.nr]
  · intro q
    rw [((hperm q).map _).sum_eq]
    by_cases hq : q = a.home e
    · subst hq
      have hsum := ((List.perm_cons_erase hmem).map a.weight).sum_eq
      simp only [List.map_cons, List.sum_cons] at hsum
      simp only [Shape.leave, Function.update_self, if_true, h.load, hsum]
      omega
    · simp [Shape.leave, hq, h.load]
  · exact h.weight_pos
  · intro q x hx
    refine hkeep q x (h.next q x hx) ?_
    rintro rfl
    rw [h.home_of_mem (h.next q x hx)] at hnext
    exact hnext hx
  · intro q x hx
    refine hkeep q x (h.last q x hx) ?_
    rintro rfl
    rw [h.home_of_mem (h.last q x hx)] at hlast
    exact hlast hx
  · cases e with
    | group c => exact h.tasks_nodup
    | task p => exact h.tasks_nodup.erase p
  · intro p
    cases e with
    | group c => simp [Shape.leave, h.tasks]
    | task p' =>
      by_cases hp : p = p'
      · simp [Shape.leave, hp, h.tasks_nodup.not_mem_erase]
      · simp [Shape.leave, hp, h.tasks, List.mem_erase_of_ne]
  · by_cases hq : a.home e = 0
    · simp [Shape.leave, hq, h.rootLoad]
    · simp [Shape.leave, hq, Ne.symm hq, h.rootLoad]

/-- Whatever keeps the entities of every queue keeps its bookkeeping. -/
theorem Queues.of_perm (h : a.Queues) {b : Shape} (hperm : ∀ q, (b.queued q).Perm (a.queued q))
    (hcurr : ∀ q e, b.curr q = some e → a.home e = q)
    (hsame : b = { a with timeline := b.timeline, curr := b.curr }) : b.Queues := by
  rw [hsame] at hperm ⊢
  constructor
  · exact fun q => (hperm q).nodup_iff.mpr (h.nodup q)
  · exact fun q x => ((hperm q).mem_iff).trans (h.mem q x)
  · exact hcurr
  · exact fun q => (h.nr q).trans (hperm q).length_eq.symm
  · exact fun q => (h.load q).trans ((hperm q).map _).sum_eq.symm
  · exact h.weight_pos
  · exact fun q x hx => (hperm q).mem_iff.mpr (h.next q x hx)
  · exact fun q x hx => (hperm q).mem_iff.mpr (h.last q x hx)
  · exact h.tasks_nodup
  · exact h.tasks
  · exact h.rootLoad

theorem Queues.hold (h : a.Queues) (hc : a.curr (a.home e) = none) : (a.hold e).Queues := by
  refine h.of_perm (queued_hold h hc) ?_ rfl
  intro q x hx
  by_cases hq : q = a.home e
  · subst hq
    simp only [Shape.hold, Function.update_self, Option.some.injEq] at hx
    rw [hx]
  · simp only [Shape.hold, Function.update_of_ne hq] at hx
    exact h.home_curr q x hx

theorem Queues.release (h : a.Queues) (hc : a.curr (a.home e) = some e)
    (htl : a.onRq e = true → tl.Perm (e :: a.timeline (a.home e))) : (a.release e tl).Queues := by
  refine h.of_perm (queued_release hc htl) ?_ rfl
  intro q x hx
  by_cases hq : q = a.home e
  · subst hq
    simp [Shape.release] at hx
  · simp only [Shape.release, Function.update_of_ne hq] at hx
    exact h.home_curr q x hx

theorem Queues.reweigh (h : a.Queues) {w : Nat} (hw : 0 < w) : (a.reweigh e w).Queues := by
  have hload : ∀ q, (a.reweigh e w).load q = ((a.queued q).map (a.reweigh e w).weight).sum := by
    intro q
    by_cases hmem : e ∈ a.queued q
    · obtain ⟨hon, hq⟩ := (h.mem q e).mp hmem
      subst hq
      have hperm := List.perm_cons_erase hmem
      have hrest : ((a.queued (a.home e)).erase e).map (Function.update a.weight e w) =
          ((a.queued (a.home e)).erase e).map a.weight := by
        apply List.map_congr_left
        intro x hx
        exact Function.update_of_ne (fun hxe => (h.nodup _).not_mem_erase (hxe ▸ hx)) _ _
      have hold := (hperm.map a.weight).sum_eq
      have hnew := (hperm.map (Function.update a.weight e w)).sum_eq
      rw [List.map_cons, List.sum_cons] at hold hnew
      rw [hrest, Function.update_self] at hnew
      simp only [Shape.reweigh, hon, if_true, Function.update_self, h.load, hold, hnew]
      omega
    · have hmap : (a.queued q).map (Function.update a.weight e w) = (a.queued q).map a.weight := by
        apply List.map_congr_left
        intro x hx
        have hne : x ≠ e := by
          rintro rfl
          exact hmem hx
        exact Function.update_of_ne hne _ _
      rw [Shape.reweigh, hmap, ← h.load]
      dsimp only
      by_cases hon : a.onRq e = true
      · have hne : q ≠ a.home e := by
          rintro rfl
          exact hmem (h.mem_home hon)
        rw [if_pos hon]
        exact Function.update_of_ne hne _ _
      · rw [if_neg hon]
  refine ⟨h.nodup, h.mem, h.home_curr, h.nr, hload, ?_, h.next, h.last, h.tasks_nodup, h.tasks, ?_⟩
  · intro x
    by_cases hx : x = e
    · subst hx
      simpa [Shape.reweigh] using hw
    · simpa [Shape.reweigh, hx] using h.weight_pos x
  · by_cases hon : a.onRq e = true
    · by_cases hq : a.home e = 0
      · simp [Shape.reweigh, hon, hq, h.rootLoad]
      · simp [Shape.reweigh, hon, hq, Ne.symm hq, h.rootLoad]
    · simp [Shape.reweigh, hon, h.rootLoad]

/-- The weight an entity already has changes nothing. -/
theorem reweigh_self (h : a.Queues) (e : Ent) : a.reweigh e (a.weight e) = a := by
  have hle : a.onRq e = true → a.weight e ≤ a.load (a.home e) := by
    intro hon
    rw [h.load]
    exact List.le_sum_of_mem (List.mem_map_of_mem (h.mem_home hon))
  have hroot : a.onRq e = true ∧ a.home e = 0 → a.rootLoad - a.weight e + a.weight e = a.rootLoad := by
    rintro ⟨hon, hq⟩
    have := hle hon
    rw [h.rootLoad, ← hq]
    omega
  cases a with
  | mk home onRq weight timeline curr next last load =>
    simp only [Shape.reweigh, Function.update_eq_self, Shape.mk.injEq, true_and, and_true]
    refine ⟨?_, ?_⟩
    · split
      · rename_i hon
        have := hle hon
        dsimp only at this
        rw [Nat.sub_add_cancel this, Function.update_eq_self]
      · rfl
    · split
      · rename_i hon
        exact hroot hon
      · rfl

theorem reweigh_self_off (hoff : a.onRq e = false) :
    a.reweigh e (a.weight e) = a := by
  simp [Shape.reweigh, hoff]

/-- Buddies may be any entities on the queue. -/
theorem Queues.buddies (h : a.Queues) {next last : Nat → Option Ent}
    (hnext : ∀ q e, next q = some e → e ∈ a.queued q)
    (hlast : ∀ q e, last q = some e → e ∈ a.queued q) :
    { a with next := next, last := last }.Queues :=
  ⟨h.nodup, h.mem, h.home_curr, h.nr, h.load, h.weight_pos, hnext, hlast, h.tasks_nodup, h.tasks,
    h.rootLoad⟩

theorem Queues.forget (h : a.Queues) {next last : Nat → Option Ent} (hf : a.Forgets next last) :
    { a with next := next, last := last }.Queues := by
  apply h.buddies
  · intro q x hx
    rcases hf.next q with heq | heq
    · exact h.next q x (heq ▸ hx)
    · rw [heq] at hx
      cases hx
  · intro q x hx
    rcases hf.last q with heq | heq
    · exact h.last q x (heq ▸ hx)
    · rw [heq] at hx
      cases hx

end Operations

end Shape

end MSchedutil
