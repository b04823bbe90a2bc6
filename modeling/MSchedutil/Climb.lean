import MSchedutil.Levels

/-! One turn of a loop up the hierarchy, and throttling: what an entity that has come or gone
leaves to be done at the queue above, and the counts of throttled queues. -/

namespace MSchedutil

namespace Groups

variable {g : Groups}

theorem nodup_above (g : Groups) (q : Nat) : (g.above q).Nodup := by
  induction q using Nat.strong_induction_on with
  | _ q ih =>
    by_cases hq : q = 0
    · subst hq
      exact List.nodup_nil
    · have hlt := g.parent_lt q hq
      rw [g.above_of_ne hq]
      refine List.nodup_cons.mpr ⟨fun hmem => ?_, ih _ hlt⟩
      have := above_le hmem
      omega

theorem mem_above_trans {b c q : Nat} (hbc : b ∈ g.above c) (hcq : c ∈ g.above q) :
    b ∈ g.above q := by
  induction q using Nat.strong_induction_on with
  | _ q ih =>
    have hq : q ≠ 0 := by
      rintro rfl
      simp at hcq
    rw [g.above_of_ne hq, List.mem_cons] at hcq
    rcases hcq with rfl | hcq
    · exact hbc
    · rw [g.above_of_ne hq]
      exact List.mem_cons_of_mem _ (ih _ (g.parent_lt q hq) hcq)

/-- A queue above another is that queue, or the parent of one above it. -/
theorem eq_or_parent {c q : Nat} (h : c ∈ g.above q) : c = q ∨ ∃ b ∈ g.above q, g.parent b = c := by
  induction q using Nat.strong_induction_on with
  | _ q ih =>
    have hq : q ≠ 0 := by
      rintro rfl
      simp at h
    rw [g.above_of_ne hq] at h ⊢
    rcases List.mem_cons.mp h with rfl | h
    · exact .inl rfl
    · rcases ih _ (g.parent_lt q hq) h with rfl | ⟨b, hb, hbc⟩
      · exact .inr ⟨q, List.mem_cons_self, rfl⟩
      · exact .inr ⟨b, List.mem_cons_of_mem _ hb, hbc⟩

/-- Two queues above a third are above one another. -/
theorem above_total {b c q : Nat} (hb : b ∈ g.above q) (hc : c ∈ g.above q) :
    b ∈ g.above c ∨ c ∈ g.above b := by
  induction q using Nat.strong_induction_on with
  | _ q ih =>
    by_cases hq : q = 0
    · subst hq
      simp at hb
    · have hself := hb
      have hself' := hc
      rw [g.above_of_ne hq, List.mem_cons] at hb hc
      rcases hb with rfl | hb
      · exact .inr hself'
      · rcases hc with rfl | hc
        · exact .inl hself
        · exact ih _ (g.parent_lt q hq) hb hc

end Groups

theorem countP_update {l : List Nat} (hl : l.Nodup) {f : Nat → Bool} {q : Nat} (hf : f q = false) :
    l.countP (Function.update f q true) = l.countP f + if q ∈ l then 1 else 0 := by
  induction l with
  | nil => rfl
  | cons c l ih =>
    obtain ⟨hc, hl⟩ := List.nodup_cons.mp hl
    rw [List.countP_cons, List.countP_cons, ih hl]
    by_cases hcq : c = q
    · subst hcq
      simp [hc, hf]
    · simp only [Function.update_of_ne hcq, List.mem_cons, Ne.symm hcq, false_or]
      omega

namespace Shape

variable {g : Groups} {a b : Shape} {e : Ent} {q : Nat} {x y : Set Nat} {d : Int}

/-- `throttle_count` counts the throttled queues at and above a queue. -/
def Counted (g : Groups) (a : Shape) : Prop :=
  ∀ c, a.throttleCount c = (g.above c).countP a.throttled

/-- A queue whose entity is not queued is throttled. -/
def park (g : Groups) (a : Shape) (q : Nat) : Shape :=
  { a with
    throttled := Function.update a.throttled q true
    throttleCount := fun c => if q ∈ g.above c then a.throttleCount c + 1 else a.throttleCount c }

/-- The queue is no longer throttled; its entity has yet to follow. -/
def unpark (g : Groups) (a : Shape) (q : Nat) : Shape :=
  { a with
    throttled := Function.update a.throttled q false
    throttleCount := fun c => if q ∈ g.above c then a.throttleCount c - 1 else a.throttleCount c }

theorem Counted.park (h : a.Counted g) (hq : a.throttled q = false) : (a.park g q).Counted g := by
  intro c
  show (if q ∈ g.above c then a.throttleCount c + 1 else a.throttleCount c) =
    (g.above c).countP (Function.update a.throttled q true)
  rw [countP_update (g.nodup_above c) hq, ← h c]
  split <;> rfl

theorem Counted.unpark (h : a.Counted g) (hq : a.throttled q = true) : (a.unpark g q).Counted g := by
  intro c
  have hback : Function.update (Function.update a.throttled q false) q true = a.throttled := by
    rw [Function.update_idem, ← hq, Function.update_eq_self]
  have hcount := countP_update (g.nodup_above c) (f := Function.update a.throttled q false)
    (Function.update_self ..)
  rw [hback, ← h c] at hcount
  show (if q ∈ g.above c then a.throttleCount c - 1 else a.throttleCount c) =
    (g.above c).countP (Function.update a.throttled q false)
  split at hcount
  · rename_i hmem
    rw [if_pos hmem]
    omega
  · rename_i hmem
    rw [if_neg hmem]
    omega

theorem Counted.unthrottled (h : a.Counted g) {c : Nat} (hc : a.throttleCount c = 0)
    (hq : q ∈ g.above c) : a.throttled q = false := by
  have := List.countP_eq_zero.mp ((h c).symm.trans hc) q hq
  simpa using this

/-- An entity and all above it are on their queues. -/
def Firm (g : Groups) (a : Shape) (e : Ent) : Prop :=
  a.onRq e = true ∧ ∀ c ∈ g.above (a.home e), a.onRq (.group c) = true

/-- No queue above it is empty. -/
theorem Firm.queued_ne_nil (h : a.Firm g e) (ha : a.Queues)
    (hgroup : ∀ c, a.home (.group c) = g.parent c) {c : Nat} (hc : c = 0 ∨ c ∈ g.above (a.home e)) :
    a.queued c ≠ [] := by
  generalize hp : a.home e = p at hc
  induction p using Nat.strong_induction_on generalizing e with
  | _ p ih =>
    have hmem : a.queued p ≠ [] := hp ▸ List.ne_nil_of_mem (ha.mem_home h.1)
    by_cases hp0 : p = 0
    · subst hp0
      rcases hc with rfl | hc
      · exact hmem
      · simp at hc
    have hon : a.onRq (.group p) = true := by
      apply h.2
      rw [hp]
      exact Groups.mem_above_self hp0
    have hfirm : a.Firm g (.group p) := by
      refine ⟨hon, fun c hc => h.2 c ?_⟩
      rw [hgroup] at hc
      rw [hp, g.above_of_ne hp0]
      exact List.mem_cons_of_mem _ hc
    by_cases hcp : c = p
    · rw [hcp]
      exact hmem
    · refine ih (g.parent p) (g.parent_lt p hp0) hfirm (hgroup p) ?_
      rw [g.above_of_ne hp0, List.mem_cons] at hc
      exact hc.imp id fun hc => hc.resolve_left hcp

/-- The entity of another group does not matter to it. -/
theorem Firm.depart (h : a.Firm g e) (hb : a.Departs b (.group q)) (he : e ≠ .group q)
    (hq : q ∉ g.above (a.home e)) : b.Firm g e := by
  rw [Firm, hb.onRq, hb.home, Function.update_of_ne he]
  refine ⟨h.1, fun c hc => ?_⟩
  have hne : Ent.group c ≠ .group q := by
    rintro ⟨⟩
    exact hq hc
  rw [Function.update_of_ne hne]
  exact h.2 c hc

theorem Firm.congr (h : a.Firm g e) (hhome : b.home = a.home) (hon : b.onRq = a.onRq) :
    b.Firm g e := by rwa [Firm, hhome, hon]

/-- How the entity of a queue stands that has something on it. -/
def Upright (a : Shape) (q : Nat) : Prop :=
  q = 0 ∨ (a.onRq (.group q) = true ∧ a.throttled q = false) ∨
    (a.onRq (.group q) = false ∧ a.throttled q = true)

/-- On the way up with `n` tasks that the queue of `e` does not count yet: `e` is queued
already, or is overdue and stands for them. -/
def Rising (g : Groups) (a : Shape) (e : Ent) (n : Nat) : Prop :=
  (a.onRq e = true ∧ a.Levels g ∅ (a.home e) (-n)) ∨
    (a.onRq e = false ∧ a.Levels g {c | e = .group c} 0 0 ∧ a.cnt e = n ∧
      ∀ c, e = .group c → c ≠ 0 ∧ a.Wants c)

/-- The queue has the entity and does not count its tasks yet. -/
def Landed (g : Groups) (a : Shape) (q n : Nat) : Prop :=
  (a.Levels g ∅ q (-n) ∧ a.Upright q) ∨
    (a.Levels g {q} q (-n) ∧ q ≠ 0 ∧ a.onRq (.group q) = false ∧ a.throttled q = false ∧
      a.below q = n ∧ a.queued q ≠ [])

/-- On the way up with `d` tasks that the queue of `e` will count in excess once `e` is gone,
which stands for nothing unless it is that of a group in `y`. -/
def Sinking (g : Groups) (y : Set Nat) (a : Shape) (e : Ent) (d : Int) : Prop :=
  a.onRq e = true ∧ a.Levels g ({c | e = .group c} ∪ y) (a.home e) (d - a.cnt e) ∧
    ∀ c, e = .group c → c ∈ y ∨ a.queued c = []

/-- What every operation but unthrottling leaves as it is, or throttles in good order. -/
structure Moves (g : Groups) (a b : Shape) : Prop where
  home : b.home = a.home
  running : b.running = a.running
  limited : b.limited = a.limited
  capped : b.capped = a.capped
  throttled : ∀ q, a.throttled q = true → b.throttled q = true
  counted : a.Counted g → b.Counted g

theorem Moves.refl (a : Shape) : a.Moves g a := ⟨rfl, rfl, rfl, rfl, fun _ => id, id⟩

theorem Moves.trans {c : Shape} (hab : a.Moves g b) (hbc : b.Moves g c) : a.Moves g c where
  home := hbc.home.trans hab.home
  running := hbc.running.trans hab.running
  limited := hbc.limited.trans hab.limited
  capped := hbc.capped.trans hab.capped
  throttled q hq := hbc.throttled q (hab.throttled q hq)
  counted h := hbc.counted (hab.counted h)

/-- Besides, nothing is switched. -/
structure Onward (g : Groups) (a b : Shape) : Prop extends a.Moves g b where
  curr : b.curr = a.curr

namespace Onward

theorem refl (a : Shape) : a.Onward g a := ⟨.refl a, rfl⟩

theorem trans {c : Shape} (hab : a.Onward g b) (hbc : b.Onward g c) : a.Onward g c :=
  ⟨hab.toMoves.trans hbc.toMoves, hbc.curr.trans hab.curr⟩

theorem setCount (a : Shape) (q n : Nat) : a.Onward g (a.setCount q n) :=
  ⟨⟨rfl, rfl, rfl, rfl, fun _ => id, id⟩, rfl⟩

theorem park (hq : a.throttled q = false) : a.Onward g (a.park g q) where
  home := rfl
  curr := rfl
  running := rfl
  limited := rfl
  capped := rfl
  throttled c hc := by
    by_cases hcq : c = q
    · subst hcq
      exact Function.update_self ..
    · exact (Function.update_of_ne hcq _ _).trans hc
  counted h := h.park hq

end Onward

theorem Frame.moves (h : a.Frame b) : a.Moves g b where
  home := h.home
  running := h.running
  limited := h.limited
  capped := h.capped
  throttled q hq := by rwa [h.throttled]
  counted hc c := by rw [h.throttleCount, h.throttled, hc c]

theorem Frame.onward (h : a.Frame b) (hcurr : b.curr = a.curr) : a.Onward g b := ⟨h.moves, hcurr⟩

/-- What a loop has done so far: the root counts `d` tasks more once it has got past it. -/
structure Passes (g : Groups) (a b : Shape) (d : Int) (passed : Bool) : Prop where
  onward : a.Onward g b
  total : b.total = a.total
  count : (b.hNrRunning 0 : Int) = a.hNrRunning 0 + if passed then d else 0

namespace Passes

theorem refl (a : Shape) (d : Int) : a.Passes g a d false := ⟨.refl a, rfl, by simp⟩

theorem trans {c : Shape} {passed : Bool} (hab : a.Passes g b d false) (hbc : b.Passes g c d passed) :
    a.Passes g c d passed where
  onward := hab.onward.trans hbc.onward
  total := hbc.total.trans hab.total
  count := by rw [hbc.count, hab.count, if_neg Bool.false_ne_true, add_zero]

/-- What follows the count of the root does not change it. -/
theorem trans' {c : Shape} {passed : Bool} (hab : a.Passes g b d passed) (hbc : b.Passes g c d false) :
    a.Passes g c d passed where
  onward := hab.onward.trans hbc.onward
  total := hbc.total.trans hab.total
  count := by rw [hbc.count, hab.count, if_neg Bool.false_ne_true, add_zero]

theorem park (hq : a.throttled q = false) : a.Passes g (a.park g q) d false :=
  ⟨.park hq, rfl, by rw [if_neg Bool.false_ne_true, add_zero]; rfl⟩

theorem setCount_of_ne (hq : q ≠ 0) (n : Nat) : a.Passes g (a.setCount q n) d false where
  onward := .setCount a q n
  total := rfl
  count := by rw [Shape.setCount_of_ne hq.symm, if_neg Bool.false_ne_true, add_zero]

theorem setCount_root {n : Nat} (hq : q = 0) (hn : (n : Int) = a.hNrRunning q + d) :
    a.Passes g (a.setCount q n) d true := by
  subst hq
  exact ⟨.setCount a 0 n, rfl, by rw [setCount_self, hn, if_pos rfl]⟩

end Passes

theorem Queues.setThrottleCount (h : a.Queues) (f : Nat → Nat) :
    { a with throttleCount := f }.Queues :=
  ⟨h.nodup, h.mem, h.home_curr, h.nr, h.load, h.weight_pos, h.next, h.last, h.tasks_nodup, h.tasks,
    h.rootLoad⟩

theorem Levels.setThrottleCount (h : a.Levels g x q d) (f : Nat → Nat) :
    { a with throttleCount := f }.Levels g x q d :=
  ⟨h.queues.setThrottleCount f, h.home_group, h.home_task, h.bound, h.group0, h.root, h.linked, h.off⟩

theorem Queues.setTotal (h : a.Queues) (n : Nat) : { a with total := n }.Queues :=
  ⟨h.nodup, h.mem, h.home_curr, h.nr, h.load, h.weight_pos, h.next, h.last, h.tasks_nodup, h.tasks,
    h.rootLoad⟩

/-- The queues are in order and `rq->nr_running` is what the root counts. -/
structure Sums (g : Groups) (a : Shape) : Prop where
  balanced : a.Balanced g
  total : a.total = a.hNrRunning 0

/-- A loop is over and what it has counted is added to the total. -/
theorem Passes.finish {passed : Bool} (h : a.Passes g b d passed) (hsum : a.total = a.hNrRunning 0)
    (hbal : b.Balanced g) {n : Nat} (hn : (n : Int) = a.total + if passed then d else 0) :
    { b with total := n }.Sums g ∧ a.Onward g { b with total := n } where
  left :=
    { balanced := ⟨hbal.queues.setTotal n, hbal.home_group, hbal.home_task, hbal.bound, hbal.group0,
        hbal.root, hbal.linked, hbal.off⟩
      total := by
        have := h.count
        show n = b.hNrRunning 0
        omega }
  right := ⟨⟨h.onward.home, h.onward.running, h.onward.limited, h.onward.capped, h.onward.throttled,
    h.onward.counted⟩, h.onward.curr⟩

theorem Frame.passes (h : a.Frame b) (hcurr : b.curr = a.curr) (hcount : b.hNrRunning = a.hNrRunning) :
    a.Passes g b d false :=
  ⟨h.onward hcurr, h.total, by rw [hcount, if_neg Bool.false_ne_true, add_zero]⟩

theorem Arrives.passes (h : a.Arrives b e) : a.Passes g b d false := h.toFrame.passes h.curr h.hNrRunning

theorem Departs.passes (h : a.Departs b e) : a.Passes g b d false := h.toFrame.passes h.curr h.hNrRunning

theorem Queues.park (h : a.Queues) (q : Nat) : (a.park g q).Queues :=
  ⟨h.nodup, h.mem, h.home_curr, h.nr, h.load, h.weight_pos, h.next, h.last, h.tasks_nodup, h.tasks,
    h.rootLoad⟩

theorem Queues.unpark (h : a.Queues) (q : Nat) : (a.unpark g q).Queues :=
  ⟨h.nodup, h.mem, h.home_curr, h.nr, h.load, h.weight_pos, h.next, h.last, h.tasks_nodup, h.tasks,
    h.rootLoad⟩

namespace Levels

/-- Throttling puts a queue right whose entity was taken off for it. -/
theorem park (h : a.Levels g (insert q x) q' d) (hq : q ≠ 0) (hoff : a.onRq (.group q) = false) :
    (a.park g q).Levels g x q' d where
  queues := h.queues.park q
  home_group := h.home_group
  home_task := h.home_task
  bound := h.bound
  group0 := h.group0
  root := (Function.update_of_ne hq.symm _ _).trans h.root
  linked c hc hx := by
    by_cases hcq : c = q
    · subst hcq
      have hth : (a.park g c).throttled c = true := Function.update_self ..
      refine ⟨fun hon => ?_, fun hw => ?_⟩
      · rw [show (a.park g c).onRq = a.onRq from rfl, hoff] at hon
        cases hon
      · rw [hw.2] at hth
        cases hth
    · have hth : (a.park g q).throttled c = a.throttled c := Function.update_of_ne hcq _ _
      rw [Wants, hth]
      exact h.linked c hc fun hmem => hmem.elim hcq hx
  off := h.off

theorem unpark (h : a.Levels g x q' d) (q : Nat) : (a.unpark g q).Levels g (insert q x) q' d where
  queues := h.queues.unpark q
  home_group := h.home_group
  home_task := h.home_task
  bound := h.bound
  group0 := h.group0
  root := by
    show Function.update a.throttled q false 0 = false
    by_cases hq : 0 = q
    · subst hq
      exact Function.update_self ..
    · exact (Function.update_of_ne hq _ _).trans h.root
  linked c hc hx := by
    have hcq : c ≠ q := fun heq => hx (.inl heq)
    have hth : (a.unpark g q).throttled c = a.throttled c := Function.update_of_ne hcq _ _
    rw [Wants, hth]
    exact h.linked c hc fun hmem => hx (.inr hmem)
  off := h.off

theorem unthrottled (h : a.Levels g x q d) {c : Nat} (hx : c ∉ x)
    (hon : a.onRq (.group c) = true) : a.throttled c = false :=
  ((h.linked c (h.group_ne_zero hon) hx).mp hon).2

theorem group_off (h : a.Levels g x q d) {c : Nat} (hx : c ∉ x) (hth : a.throttled c = true) :
    a.onRq (.group c) = false := by
  by_contra hon
  rw [Bool.not_eq_false] at hon
  rw [h.unthrottled hx hon] at hth
  cases hth

/-- The entity of a queue that has something is on, unless the queue is throttled. -/
theorem upright (h : a.Levels g x q d) {c : Nat} (hc : a.queued c ≠ []) (hx : c ∉ x) :
    a.Upright c := by
  by_cases hc0 : c = 0
  · exact .inl hc0
  · by_cases hth : a.throttled c = true
    · exact .inr (.inr ⟨h.group_off hx hth, hth⟩)
    · rw [Bool.not_eq_true] at hth
      exact .inr (.inl ⟨(h.linked c hc0 hx).mpr ⟨hc, hth⟩, hth⟩)

/-- From an entity on its queue with nothing throttled above, all above are on. -/
theorem on_above (h : a.Levels g ∅ q d) (hon : a.onRq e = true)
    (hth : ∀ c ∈ g.above (a.home e), a.throttled c = false) :
    ∀ c ∈ g.above (a.home e), a.onRq (.group c) = true := by
  generalize hp : a.home e = p at hth ⊢
  induction p using Nat.strong_induction_on generalizing e with
  | _ p ih =>
    by_cases hp0 : p = 0
    · subst hp0
      simp
    have hne : a.queued p ≠ [] := hp ▸ List.ne_nil_of_mem (h.queues.mem_home hon)
    have hmem : p ∈ g.above p := Groups.mem_above_self hp0
    have honp : a.onRq (.group p) = true :=
      (h.linked p hp0 (Set.notMem_empty _)).mpr ⟨hne, hth p hmem⟩
    rw [g.above_of_ne hp0] at hth ⊢
    intro c hc
    rcases List.mem_cons.mp hc with rfl | hc
    · exact honp
    · exact ih (g.parent p) (g.parent_lt p hp0) honp (h.home_group p)
        (fun c hc => hth c (List.mem_cons_of_mem _ hc)) c hc

theorem queued_ne_nil (h : a.Levels g x q d) (hon : a.onRq e = true) : a.queued (a.home e) ≠ [] :=
  List.ne_nil_of_mem (h.queues.mem_home hon)

/-- A throttled queue whose entity is off is in order. -/
theorem due_throttled (h : a.Levels g (insert q x) q' d) (hth : a.throttled q = true)
    (hoff : a.onRq (.group q) = false) : a.Levels g x q' d := by
  refine h.due fun _ => ⟨fun hon => ?_, fun hw => ?_⟩
  · rw [hoff] at hon
    cases hon
  · rw [hw.2] at hth
    cases hth

/-- A queue with something on it that is not throttled is in order when its entity is on. -/
theorem due_on (h : a.Levels g (insert q x) q' d) (hth : a.throttled q = false)
    (hne : a.queued q ≠ []) (hon : a.onRq (.group q) = true) : a.Levels g x q' d :=
  h.due fun _ => ⟨fun _ => ⟨hne, hth⟩, fun _ => hon⟩

/-- The root has no entity. -/
theorem due_root (h : a.Levels g (insert 0 x) q' d) : a.Levels g x q' d :=
  h.due fun h0 => absurd rfl h0

theorem home_ne (h : a.Levels g x q d) (hon : a.onRq e = true) : e ≠ .group (a.home e) := by
  intro he
  rw [he] at hon
  have hne := h.group_ne_zero hon
  have hlt := g.parent_lt _ hne
  have hhome := h.home_group (a.home e)
  rw [← he] at hhome
  omega

end Levels

/-- The entity of a queue that has been emptied is next. -/
theorem Levels.sinking (h : a.Levels g (insert q y) (g.parent q) d)
    (hon : a.onRq (.group q) = true) (hnil : a.queued q = []) : a.Sinking g y (.group q) d := by
  have hne : q ≠ g.parent q := by
    have := g.parent_lt q (h.group_ne_zero hon)
    omega
  have hcnt : a.cnt (.group q) = 0 := by
    show a.hNrRunning q = 0
    rw [h.off_of_ne hne, below, hnil]
    rfl
  refine ⟨hon, ?_, ?_⟩
  · rw [hcnt, Nat.cast_zero, sub_zero, h.home_group]
    apply h.mono
    rintro c (rfl | hc)
    · exact .inl rfl
    · exact .inr hc
  · rintro c ⟨⟩
    exact .inr hnil

/-- An entity has left, and the queue above counts what it stood for in excess. -/
theorem Sinking.left (h : a.Sinking g y e d) (hb : a.Departs b e) (hy : a.home e ∉ y) :
    b.Levels g (insert (a.home e) y) (a.home e) d ∧ b.Upright (a.home e) := by
  obtain ⟨hon, hlev, hempty⟩ := h
  have hne := hlev.home_ne hon
  constructor
  · have hleft := hlev.depart hon hb fun c hc => .inl hc
    rw [sub_add_cancel] at hleft
    cases e with
    | task p => exact hleft.mono (Set.insert_subset_insert (by rintro c (⟨⟨⟩⟩ | hc); exact hc))
    | group c =>
      rcases hempty c rfl with hc | hnil
      · refine hleft.mono (Set.insert_subset_insert ?_)
        rintro c' (⟨⟨⟩⟩ | hc')
        · exact hc
        · exact hc'
      · have hset : insert (a.home (.group c)) ({c' | Ent.group c = .group c'} ∪ y) ⊆
            insert c (insert (a.home (.group c)) y) := by
          rintro c' (rfl | ⟨⟨⟩⟩ | hc')
          · exact .inr (.inl rfl)
          · exact .inl rfl
          · exact .inr (.inr hc')
        refine (hleft.mono hset).due fun _ => ?_
        have hoff : b.onRq (.group c) = false := by rw [hb.onRq, Function.update_self]
        have hperm := hb.queued c
        rw [if_neg fun heq => hne (congrArg Ent.group heq), hnil] at hperm
        exact ⟨fun hon' => absurd hon' (by simp [hoff]), fun hw => absurd hperm.eq_nil hw.1⟩
  · have hup := hlev.upright (hlev.queued_ne_nil hon) (c := a.home e)
      (by rintro (heq | hmem); exacts [hne heq, hy hmem])
    rwa [Upright, hb.onRq, Function.update_of_ne hne.symm, hb.throttled]

section Counting

/-- The queue counts what has come or gone, and the one above it is next, if its entity is on. -/
theorem Levels.count (h : a.Levels g x q d) (hup : a.Upright q) {n : Nat}
    (hn : (n : Int) = a.hNrRunning q - d) :
    ((q = 0 ∨ a.throttled q = true) ∧ (a.setCount q n).Levels g x 0 0) ∨
      (q ≠ 0 ∧ a.throttled q = false ∧ a.onRq (.group q) = true ∧
        (a.setCount q n).Levels g x (g.parent q) d) := by
  rcases hup with rfl | ⟨hon, hth⟩ | ⟨hoff, hth⟩
  · exact .inl ⟨.inl rfl, h.settle_off hn h.group0 0⟩
  · exact .inr ⟨h.group_ne_zero hon, hth, hon, h.settle_on hn hon⟩
  · exact .inl ⟨.inr hth, h.settle_off hn hoff 0⟩

/-- The same where its entity may be overdue. -/
theorem Levels.count_due (h : a.Levels g (insert q x) q d) (hup : a.Upright q) {n : Nat}
    (hn : (n : Int) = a.hNrRunning q - d) :
    ((q = 0 ∨ a.throttled q = true) ∧ (a.setCount q n).Levels g x 0 0) ∨
      (q ≠ 0 ∧ a.throttled q = false ∧ a.onRq (.group q) = true ∧
        (a.setCount q n).Levels g (insert q x) (g.parent q) d) := by
  rcases h.count hup hn with ⟨hq, hlev⟩ | h
  · refine .inl ⟨hq, ?_⟩
    rcases hup with rfl | ⟨-, hth⟩ | ⟨hoff, hth⟩
    · exact hlev.due_root
    · rcases hq with rfl | hth'
      · exact hlev.due_root
      · rw [hth] at hth'
        cases hth'
    · exact hlev.due_throttled hth hoff
  · exact .inr h

theorem Landed.throttled {n : Nat} (h : a.Landed g q n) (hth : a.throttled q = true) :
    a.Levels g ∅ q (-n) ∧ a.Upright q := by
  rcases h with h | ⟨-, -, -, hth', -⟩
  · exact h
  · rw [hth] at hth'
    cases hth'

theorem Landed.count {n : Nat} (h : a.Landed g q n) :
    ((q = 0 ∨ a.throttled q = true) ∧ (a.setCount q (a.hNrRunning q + n)).Balanced g) ∨
      (q ≠ 0 ∧ a.throttled q = false ∧
        (a.setCount q (a.hNrRunning q + n)).Rising g (.group q) n) := by
  have hn : ((a.hNrRunning q + n : Nat) : Int) = a.hNrRunning q - -(n : Int) := by
    push_cast
    ring
  rcases h with ⟨hlev, hup⟩ | ⟨hlev, hq, hoff, hth, hbelow, hne⟩
  · rcases hlev.count hup hn with h | ⟨hq, hth, hon, h⟩
    · exact .inl h
    · refine .inr ⟨hq, hth, .inl ⟨hon, ?_⟩⟩
      rwa [show (a.setCount q (a.hNrRunning q + n)).home (.group q) = g.parent q from
        hlev.home_group q]
  · refine .inr ⟨hq, hth, .inr ⟨hoff, ?_, ?_, ?_⟩⟩
    · refine (hlev.settle_off hn hoff 0).mono ?_
      rintro c rfl
      rfl
    · have hself := hlev.off_self
      show Function.update a.hNrRunning q (a.hNrRunning q + n) q = n
      rw [Function.update_self]
      omega
    · rintro c ⟨⟩
      exact ⟨hq, hne, hth⟩

theorem Rising.overdue {n : Nat} (h : a.Rising g e n) (hoff : a.onRq e = false) :
    a.Levels g {c | e = .group c} 0 0 ∧ a.cnt e = n ∧ (∀ c, e = .group c → c ≠ 0 ∧ a.Wants c) ∧
      e ≠ .group (a.home e) := by
  rcases h with ⟨hon, -⟩ | ⟨-, hlev, hcnt, hgroup⟩
  · rw [hoff] at hon
    cases hon
  refine ⟨hlev, hcnt, hgroup, fun he => ?_⟩
  have hlt := g.parent_lt _ (hgroup _ he).1
  have hhome := hlev.home_group (a.home e)
  rw [← he] at hhome
  omega

/-- The entity of a queue that has been empty is off. -/
theorem Rising.above_off {n : Nat} (h : a.Rising g e n) (hoff : a.onRq e = false)
    (hb : a.Arrives b e) (hnil : a.queued (a.home e) = []) : b.onRq (.group (a.home e)) = false := by
  obtain ⟨hlev, -, -, hne⟩ := h.overdue hoff
  rw [hb.onRq, Function.update_of_ne hne.symm]
  by_contra hon
  rw [Bool.not_eq_false] at hon
  exact ((hlev.linked _ (hlev.group_ne_zero hon) hne).mp hon).1 hnil

/-- An overdue entity has come onto its queue. -/
theorem Rising.landed {n : Nat} (h : a.Rising g e n) (hoff : a.onRq e = false) (hb : a.Arrives b e) :
    b.Landed g (a.home e) n := by
  obtain ⟨hlev, hcnt, hgroup, hne⟩ := h.overdue hoff
  have hlev' : b.Levels g {a.home e} (a.home e) (-n) := by
    rw [← hcnt]
    refine (hlev.arrive hb hgroup).mono ?_
    rintro c (rfl | ⟨hc, hc'⟩)
    · rfl
    · exact absurd hc hc'
  have hmem : b.queued (a.home e) ≠ [] := by
    have hperm := hb.queued (a.home e)
    rw [if_pos rfl] at hperm
    exact List.ne_nil_of_mem (hperm.mem_iff.mpr List.mem_cons_self)
  have hins : b.Levels g (insert (a.home e) ∅) (a.home e) (-n) := by rwa [insert_empty_eq]
  have hland : b.Upright (a.home e) → b.Landed g (a.home e) n := by
    intro hup
    refine .inl ⟨?_, hup⟩
    rcases hup with h0 | ⟨hon, hth⟩ | ⟨hoff', hth⟩
    · rw [h0] at hins ⊢
      exact hins.due_root
    · exact hins.due_on hth hmem hon
    · exact hins.due_throttled hth hoff'
  by_cases hnil : a.queued (a.home e) = []
  · have hoff' := h.above_off hoff hb hnil
    by_cases h0 : a.home e = 0
    · exact hland (.inl h0)
    by_cases hth : b.throttled (a.home e) = true
    · exact hland (.inr (.inr ⟨hoff', hth⟩))
    · rw [Bool.not_eq_true] at hth
      refine .inr ⟨hlev', h0, hoff', hth, ?_, hmem⟩
      rw [hb.below, if_pos rfl, hcnt, below, hnil]
      simp
  · apply hland
    rw [Upright, hb.onRq, Function.update_of_ne hne.symm, hb.throttled]
    exact hlev.upright hnil hne

/-- A queue that has been empty may be throttled before it is counted. -/
theorem Landed.park {n : Nat} (h : a.Landed g q n) (hq : q ≠ 0) (hoff : a.onRq (.group q) = false) :
    (a.park g q).Landed g q n := by
  have hth : (a.park g q).throttled q = true := Function.update_self ..
  refine .inl ⟨Levels.park ?_ hq hoff, .inr (.inr ⟨hoff, hth⟩)⟩
  rcases h with ⟨hlev, -⟩ | ⟨hlev, -⟩
  · exact hlev.mono (Set.empty_subset _)
  · rwa [insert_empty_eq]

end Counting

end Shape

end MSchedutil
