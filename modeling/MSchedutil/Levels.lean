import MSchedutil.Shape

/-! The levels of the hierarchy: how many tasks stand under each queue, when the entity of a
group is queued, and what is amiss while a loop is on its way up. -/

namespace MSchedutil

namespace Groups

variable {g : Groups}

theorem above_pos {q c : Nat} (h : q ∈ g.above c) : q ≠ 0 := by
  induction c using Nat.strong_induction_on with
  | _ c ih =>
    by_cases hc : c = 0
    · simp [hc] at h
    · rw [g.above_of_ne hc, List.mem_cons] at h
      rcases h with rfl | h
      · exact hc
      · exact ih _ (g.parent_lt c hc) h

theorem above_le {q c : Nat} (h : q ∈ g.above c) : q ≤ c := by
  induction c using Nat.strong_induction_on with
  | _ c ih =>
    by_cases hc : c = 0
    · simp [hc] at h
    · rw [g.above_of_ne hc, List.mem_cons] at h
      rcases h with rfl | h
      · exact le_rfl
      · exact (ih _ (g.parent_lt c hc) h).trans (g.parent_lt c hc).le

theorem mem_above_self {q : Nat} (h : q ≠ 0) : q ∈ g.above q := by
  rw [g.above_of_ne h]
  exact List.mem_cons_self

end Groups

namespace Shape

variable {g : Groups} {a b : Shape} {e : Ent} {q : Nat} {x : Set Nat} {d : Int}

/-- How many tasks an entity stands for. -/
def cnt (a : Shape) : Ent → Nat
  | .task _ => 1
  | .group c => a.hNrRunning c

/-- How many tasks the entities of a queue stand for. -/
def below (a : Shape) (q : Nat) : Nat := ((a.queued q).map a.cnt).sum

/-- The entity of a group belongs on its queue. -/
def Wants (a : Shape) (c : Nat) : Prop := a.queued c ≠ [] ∧ a.throttled c = false

/-- The entity of a group is queued exactly while its own queue has something and is not
throttled, and `h_nr_running` counts what is below. Halfway through a loop the entities of some
groups `x` may be overdue, and the count of one queue `q` off by `d`. -/
structure Levels (g : Groups) (a : Shape) (x : Set Nat) (q : Nat) (d : Int) : Prop where
  queues : a.Queues
  home_group : ∀ c, a.home (.group c) = g.parent c
  home_task : ∀ p, a.home (.task p) < g.size
  bound : ∀ e, a.onRq e = true → a.home e < g.size
  group0 : a.onRq (.group 0) = false
  root : a.throttled 0 = false
  linked : ∀ c, c ≠ 0 → c ∉ x → (a.onRq (.group c) = true ↔ a.Wants c)
  off : ∀ c, (a.hNrRunning c : Int) = a.below c + if c = q then d else 0

/-- Nothing is amiss. -/
abbrev Balanced (g : Groups) (a : Shape) : Prop := a.Levels g ∅ 0 0

/-- What neither moving entities nor switching touches. -/
structure Frame (a b : Shape) : Prop where
  home : b.home = a.home
  running : b.running = a.running
  throttled : b.throttled = a.throttled
  throttleCount : b.throttleCount = a.throttleCount
  limited : b.limited = a.limited
  capped : b.capped = a.capped
  total : b.total = a.total

/-- An entity has come onto its queue. -/
structure Arrives (a b : Shape) (e : Ent) : Prop extends a.Frame b where
  curr : b.curr = a.curr
  queues : b.Queues
  onRq : b.onRq = Function.update a.onRq e true
  hNrRunning : b.hNrRunning = a.hNrRunning
  queued : ∀ q, (b.queued q).Perm (if q = a.home e then e :: a.queued q else a.queued q)

/-- An entity has left its queue. -/
structure Departs (a b : Shape) (e : Ent) : Prop extends a.Frame b where
  curr : b.curr = a.curr
  queues : b.Queues
  onRq : b.onRq = Function.update a.onRq e false
  hNrRunning : b.hNrRunning = a.hNrRunning
  queued : ∀ q, (b.queued q).Perm (if q = a.home e then (a.queued q).erase e else a.queued q)

/-- The entities are where they were; weights, buddies and the current entities may differ. -/
structure Settled (a b : Shape) : Prop extends a.Frame b where
  queues : b.Queues
  onRq : b.onRq = a.onRq
  hNrRunning : b.hNrRunning = a.hNrRunning
  queued : ∀ q, (b.queued q).Perm (a.queued q)

theorem arrives_join (h : a.Queues) (hoff : a.onRq e = false) {w : Nat} (hw : 0 < w) {tl : List Ent}
    (htl : tl.Perm (e :: a.timeline (a.home e))) : a.Arrives ((a.reweigh e w).join e tl) e where
  toFrame := ⟨rfl, rfl, rfl, rfl, rfl, rfl, rfl⟩
  curr := rfl
  queues := (h.reweigh hw).join hoff htl
  onRq := rfl
  hNrRunning := rfl
  queued := queued_join (h.reweigh hw) hoff htl

theorem departs_leave (h : a.Queues) (hon : a.onRq e = true) {next last : Nat → Option Ent}
    (hforget : a.Forgets next last) (hnext : next (a.home e) ≠ some e)
    (hlast : last (a.home e) ≠ some e) {w : Nat} (hw : 0 < w) :
    a.Departs (({ a with next := next, last := last }.leave e).reweigh e w) e where
  toFrame := ⟨rfl, rfl, rfl, rfl, rfl, rfl, rfl⟩
  curr := rfl
  queues := ((h.forget hforget).leave hon hnext hlast).reweigh hw
  onRq := rfl
  hNrRunning := rfl
  queued := queued_leave (h.forget hforget) hon

theorem settled_reweigh (h : a.Queues) {w : Nat} (hw : 0 < w) : a.Settled (a.reweigh e w) :=
  ⟨⟨rfl, rfl, rfl, rfl, rfl, rfl, rfl⟩, h.reweigh hw, rfl, rfl, fun _ => List.Perm.refl _⟩

theorem settled_hold (h : a.Queues) (hc : a.curr (a.home e) = none) : a.Settled (a.hold e) :=
  ⟨⟨rfl, rfl, rfl, rfl, rfl, rfl, rfl⟩, h.hold hc, rfl, rfl, queued_hold h hc⟩

theorem settled_release (h : a.Queues) (hc : a.curr (a.home e) = some e) {tl : List Ent}
    (htl : tl.Perm (e :: a.timeline (a.home e))) : a.Settled (a.release e tl) :=
  ⟨⟨rfl, rfl, rfl, rfl, rfl, rfl, rfl⟩, h.release hc fun _ => htl, rfl, rfl, queued_release hc fun _ => htl⟩

theorem settled_buddies (h : a.Queues) {next last : Nat → Option Ent}
    (hnext : ∀ q e, next q = some e → e ∈ a.queued q)
    (hlast : ∀ q e, last q = some e → e ∈ a.queued q) :
    a.Settled { a with next := next, last := last } :=
  ⟨⟨rfl, rfl, rfl, rfl, rfl, rfl, rfl⟩, h.buddies hnext hlast, rfl, rfl, fun _ => List.Perm.refl _⟩

theorem cnt_congr (h : b.hNrRunning = a.hNrRunning) : b.cnt = a.cnt := by
  funext e
  cases e with
  | task p => rfl
  | group c => exact congrFun h c

theorem Arrives.below (h : a.Arrives b e) (q : Nat) :
    b.below q = a.below q + if q = a.home e then a.cnt e else 0 := by
  rw [Shape.below, cnt_congr h.hNrRunning, ((h.queued q).map _).sum_eq]
  split
  · simp [Shape.below, Nat.add_comm]
  · rfl

theorem Departs.below (h : a.Departs b e) (ha : a.Queues) (hon : a.onRq e = true) (q : Nat) :
    a.below q = b.below q + if q = a.home e then a.cnt e else 0 := by
  rw [Shape.below, Shape.below, cnt_congr h.hNrRunning, ((h.queued q).map _).sum_eq]
  split
  · rename_i hq
    subst hq
    rw [((List.perm_cons_erase (ha.mem_home hon)).map a.cnt).sum_eq, List.map_cons, List.sum_cons,
      Nat.add_comm]
  · rfl

theorem Settled.below (h : a.Settled b) (q : Nat) : b.below q = a.below q := by
  rw [Shape.below, Shape.below, cnt_congr h.hNrRunning]
  exact ((h.queued q).map _).sum_eq

/-- `h_nr_running` of one queue is set. -/
def setCount (a : Shape) (q n : Nat) : Shape :=
  { a with hNrRunning := Function.update a.hNrRunning q n }

@[simp] theorem setCount_self (n : Nat) : (a.setCount q n).hNrRunning q = n := Function.update_self ..

theorem setCount_of_ne {c : Nat} (h : c ≠ q) (n : Nat) :
    (a.setCount q n).hNrRunning c = a.hNrRunning c := Function.update_of_ne h _ _

theorem Queues.setCount (h : a.Queues) (q n : Nat) : (a.setCount q n).Queues :=
  ⟨h.nodup, h.mem, h.home_curr, h.nr, h.load, h.weight_pos, h.next, h.last, h.tasks_nodup, h.tasks,
    h.rootLoad⟩

/-- The count of one queue goes up to the queue its entity is on. -/
theorem below_setCount (h : a.Queues) (c n q : Nat) :
    (a.setCount c n).below q +
        (if a.onRq (.group c) = true ∧ a.home (.group c) = q then a.hNrRunning c else 0) =
      a.below q + if a.onRq (.group c) = true ∧ a.home (.group c) = q then n else 0 := by
  set b := a.setCount c n
  have hother : ∀ l : List Ent, Ent.group c ∉ l → l.map b.cnt = l.map a.cnt := by
    intro l hl
    apply List.map_congr_left
    intro e he
    cases e with
    | task p => rfl
    | group c' =>
      have hne : c' ≠ c := by
        rintro rfl
        exact hl he
      exact Function.update_of_ne hne _ _
  show ((a.queued q).map b.cnt).sum + _ = ((a.queued q).map a.cnt).sum + _
  by_cases hmem : a.onRq (.group c) = true ∧ a.home (.group c) = q
  · have hin := (h.mem q _).mpr hmem
    have hperm := List.perm_cons_erase hin
    rw [if_pos hmem, if_pos hmem, (hperm.map b.cnt).sum_eq, (hperm.map a.cnt).sum_eq, List.map_cons,
      List.map_cons, List.sum_cons, List.sum_cons, hother _ (h.nodup q).not_mem_erase]
    have hb : b.cnt (.group c) = n := Function.update_self ..
    have ha : a.cnt (.group c) = a.hNrRunning c := rfl
    omega
  · have hnot : Ent.group c ∉ a.queued q := fun hin => hmem ((h.mem q _).mp hin)
    rw [if_neg hmem, if_neg hmem, hother _ hnot]

theorem nonempty_iff (hperm : (b.queued q).Perm (a.queued q)) : b.queued q ≠ [] ↔ a.queued q ≠ [] := by
  rw [not_iff_not, ← List.length_eq_zero_iff, ← List.length_eq_zero_iff, hperm.length_eq]

theorem wants_congr (hperm : (b.queued q).Perm (a.queued q)) (hth : b.throttled q = a.throttled q) :
    b.Wants q ↔ a.Wants q := by
  rw [Wants, Wants, nonempty_iff hperm, hth]

namespace Levels

theorem off_self (h : a.Levels g x q d) : (a.hNrRunning q : Int) = a.below q + d := by
  simpa using h.off q

theorem off_of_ne (h : a.Levels g x q d) {c : Nat} (hc : c ≠ q) : a.hNrRunning c = a.below c := by
  have := h.off c
  rw [if_neg hc, add_zero] at this
  exact_mod_cast this

theorem off_zero (h : a.Levels g x q 0) (c : Nat) : a.hNrRunning c = a.below c := by
  have := h.off c
  rw [ite_self, add_zero] at this
  exact_mod_cast this

theorem group_ne_zero (h : a.Levels g x q d) {c : Nat} (hon : a.onRq (.group c) = true) : c ≠ 0 := by
  rintro rfl
  rw [h.group0] at hon
  cases hon

/-- A queue that is off by nothing is as good as any other. -/
theorem even (h : a.Levels g x q 0) (q' : Nat) : a.Levels g x q' 0 where
  queues := h.queues
  home_group := h.home_group
  home_task := h.home_task
  bound := h.bound
  group0 := h.group0
  root := h.root
  linked := h.linked
  off c := by rw [h.off_zero, ite_self, add_zero]

theorem mono (h : a.Levels g x q d) {y : Set Nat} (hxy : x ⊆ y) : a.Levels g y q d where
  queues := h.queues
  home_group := h.home_group
  home_task := h.home_task
  bound := h.bound
  group0 := h.group0
  root := h.root
  linked c hc hy := h.linked c hc fun hx => hy (hxy hx)
  off := h.off

/-- An overdue entity that is where it belongs is no longer overdue. -/
theorem due {c : Nat} (h : a.Levels g (insert c x) q d)
    (hc : c ≠ 0 → (a.onRq (.group c) = true ↔ a.Wants c)) : a.Levels g x q d where
  queues := h.queues
  home_group := h.home_group
  home_task := h.home_task
  bound := h.bound
  group0 := h.group0
  root := h.root
  linked c' hc' hx := by
    by_cases hcc : c' = c
    · subst hcc
      exact hc hc'
    · exact h.linked c' hc' fun hmem => hmem.elim hcc hx
  off := h.off

/-- Changes that leave the entities where they are. -/
theorem settled (h : a.Levels g x q d) (hs : a.Settled b) : b.Levels g x q d where
  queues := hs.queues
  home_group c := by rw [hs.home, h.home_group]
  home_task p := by rw [hs.home]; exact h.home_task p
  bound e he := by
    rw [hs.onRq] at he
    rw [hs.home]
    exact h.bound e he
  group0 := by rw [hs.onRq, h.group0]
  root := by rw [hs.throttled, h.root]
  linked c hc hx := by
    rw [hs.onRq, h.linked c hc hx, wants_congr (hs.queued c) (congrFun hs.throttled c)]
  off c := by rw [hs.hNrRunning, hs.below, h.off]

/-- Only the counts have changed. -/
theorem recount (h : a.Levels g x q d) {c n q' : Nat} {d' : Int}
    (hoff : ∀ c', ((a.setCount c n).hNrRunning c' : Int) =
      (a.setCount c n).below c' + if c' = q' then d' else 0) :
    (a.setCount c n).Levels g x q' d' where
  queues := h.queues.setCount c n
  home_group := h.home_group
  home_task := h.home_task
  bound := h.bound
  group0 := h.group0
  root := h.root
  linked := h.linked
  off := hoff

/-- Setting the count of the queue right passes what it was off by to the queue above. -/
theorem settle_on (h : a.Levels g x q d) {n : Nat} (hn : (n : Int) = a.hNrRunning q - d)
    (hon : a.onRq (.group q) = true) : (a.setCount q n).Levels g x (g.parent q) d := by
  have hlt := g.parent_lt q (h.group_ne_zero hon)
  refine h.recount fun c => ?_
  have hbelow := below_setCount h.queues q n c
  rw [h.home_group] at hbelow
  by_cases hc : c = q
  · subst hc
    rw [if_neg (by omega), if_neg (by omega)] at hbelow
    have hself := h.off_self
    rw [if_neg (by omega)]
    simp only [setCount, Function.update_self] at hbelow ⊢
    omega
  · have hcount : (a.setCount q n).hNrRunning c = a.hNrRunning c := Function.update_of_ne hc _ _
    rw [hcount, h.off_of_ne hc]
    have hself := h.off_self
    by_cases hp : c = g.parent q
    · subst hp
      rw [if_pos ⟨hon, rfl⟩, if_pos ⟨hon, rfl⟩] at hbelow
      rw [if_pos rfl]
      omega
    · rw [if_neg (fun hx => hp hx.2.symm), if_neg (fun hx => hp hx.2.symm)] at hbelow
      rw [if_neg hp]
      omega

/-- Above a queue whose entity is not queued nothing notices. -/
theorem settle_off (h : a.Levels g x q d) {n : Nat} (hn : (n : Int) = a.hNrRunning q - d)
    (hoff : a.onRq (.group q) = false) (q' : Nat) : (a.setCount q n).Levels g x q' 0 := by
  refine h.recount fun c => ?_
  have hbelow := below_setCount h.queues q n c
  rw [if_neg (by simp [hoff]), if_neg (by simp [hoff])] at hbelow
  have hself := h.off_self
  by_cases hc : c = q
  · subst hc
    simp only [setCount, Function.update_self, ite_self] at hbelow ⊢
    omega
  · have hcount : (a.setCount q n).hNrRunning c = a.hNrRunning c := Function.update_of_ne hc _ _
    rw [hcount, h.off_of_ne hc, ite_self]
    omega

/-- An overdue entity comes onto its queue, which is then short of what it stands for. -/
theorem arrive (h : a.Levels g x q 0) (hb : a.Arrives b e)
    (hgroup : ∀ c, e = .group c → c ≠ 0 ∧ a.Wants c) :
    b.Levels g (insert (a.home e) (x \ {c | e = .group c})) (a.home e) (-a.cnt e) where
  queues := hb.queues
  home_group c := by rw [hb.home, h.home_group]
  home_task p := by rw [hb.home]; exact h.home_task p
  bound e' he' := by
    rw [hb.home]
    by_cases he : e' = e
    · subst he
      cases e' with
      | task p => exact h.home_task p
      | group c =>
        obtain ⟨hc, hne, -⟩ := hgroup c rfl
        obtain ⟨y, hy⟩ := List.exists_mem_of_ne_nil _ hne
        have hlt := h.bound y (h.queues.onRq_of_mem hy)
        rw [h.queues.home_of_mem hy] at hlt
        rw [h.home_group]
        exact (g.parent_lt c hc).trans hlt
    · rw [hb.onRq, Function.update_of_ne he] at he'
      exact h.bound e' he'
  group0 := by
    have hne : Ent.group 0 ≠ e := fun heq => (hgroup 0 heq.symm).1 rfl
    rw [hb.onRq, Function.update_of_ne hne, h.group0]
  root := by rw [hb.throttled, h.root]
  linked c hc hx := by
    have hcq : c ≠ a.home e := fun heq => hx (.inl heq)
    have hperm := hb.queued c
    rw [if_neg hcq] at hperm
    rw [wants_congr hperm (congrFun hb.throttled c), hb.onRq]
    by_cases he : e = .group c
    · rw [he, Function.update_self]
      exact ⟨fun _ => (hgroup c he).2, fun _ => rfl⟩
    · rw [Function.update_of_ne (Ne.symm he), h.linked c hc fun hmem => hx (.inr ⟨hmem, he⟩)]
  off c := by
    rw [hb.hNrRunning, h.off_zero, hb.below]
    split <;> push_cast <;> ring

/-- An entity leaves its queue, which then counts what the entity stood for in excess. -/
theorem depart (h : a.Levels g x (a.home e) d) (hon : a.onRq e = true) (hb : a.Departs b e)
    (hgroup : ∀ c, e = .group c → c ∈ x) :
    b.Levels g (insert (a.home e) x) (a.home e) (d + a.cnt e) where
  queues := hb.queues
  home_group c := by rw [hb.home, h.home_group]
  home_task p := by rw [hb.home]; exact h.home_task p
  bound e' he' := by
    rw [hb.home]
    by_cases he : e' = e
    · subst he
      exact h.bound e' hon
    · rw [hb.onRq, Function.update_of_ne he] at he'
      exact h.bound e' he'
  group0 := by
    rw [hb.onRq]
    by_cases he : Ent.group 0 = e
    · rw [he, Function.update_self]
    · rw [Function.update_of_ne he, h.group0]
  root := by rw [hb.throttled, h.root]
  linked c hc hx := by
    have hcq : c ≠ a.home e := fun heq => hx (.inl heq)
    have hcx : c ∉ x := fun hmem => hx (.inr hmem)
    have hperm := hb.queued c
    rw [if_neg hcq] at hperm
    have he : Ent.group c ≠ e := fun heq => hcx (hgroup c heq.symm)
    rw [wants_congr hperm (congrFun hb.throttled c), hb.onRq, Function.update_of_ne he,
      h.linked c hc hcx]
  off c := by
    rw [hb.hNrRunning, h.off c, hb.below h.queues hon]
    split <;> push_cast <;> ring

end Levels

end Shape

end MSchedutil
