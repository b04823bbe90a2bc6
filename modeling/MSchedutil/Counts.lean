import MSchedutil.Climb

/-! Which tasks a queue counts: exactly those at or below it with no throttled queue between. -/

namespace MSchedutil

theorem sum_countP_comm {α β : Type} (r : α → β → Bool) (xs : List α) (ys : List β) :
    (xs.map fun x => ys.countP (r x)).sum = (ys.map fun y => xs.countP (r · y)).sum := by
  induction xs with
  | nil => simp
  | cons x xs ih =>
    have hcons : ∀ zs : List β, (zs.map fun y => (x :: xs).countP (r · y)).sum =
        zs.countP (r x) + (zs.map fun y => xs.countP (r · y)).sum := by
      intro zs
      induction zs with
      | nil => rfl
      | cons z zs ihz =>
        rw [List.map_cons, List.sum_cons, ihz, List.map_cons, List.sum_cons, List.countP_cons,
          List.countP_cons]
        omega
    rw [List.map_cons, List.sum_cons, ih, hcons]

/-- When each `y` is related to one `x` or none, it is counted once or not at all. -/
theorem sum_countP_eq {α β : Type} {r : α → β → Bool} {f : β → Bool} {xs : List α} {ys : List β}
    (h : ∀ y ∈ ys, xs.countP (r · y) = if f y then 1 else 0) :
    (xs.map fun x => ys.countP (r x)).sum = ys.countP f := by
  rw [sum_countP_comm]
  induction ys with
  | nil => rfl
  | cons y ys ih =>
    rw [List.map_cons, List.sum_cons, h y List.mem_cons_self,
      ih fun z hz => h z (List.mem_cons_of_mem _ hz), List.countP_cons, Nat.add_comm]

theorem countP_eq_one {α : Type} [DecidableEq α] {f : α → Bool} {xs : List α} {x : α}
    (hnodup : xs.Nodup) (hx : x ∈ xs) (h : ∀ y ∈ xs, f y = true ↔ y = x) : xs.countP f = 1 := by
  have hcongr : xs.countP f = xs.count x :=
    List.countP_congr fun y hy => by rw [h y hy, beq_iff_eq]
  rw [hcongr, List.count_eq_one_of_mem hnodup hx]

namespace Groups

variable {g : Groups}

/-- Above a queue there is a child of every other that is above it. -/
theorem exists_child {q c : Nat} (hne : q ≠ c) (h : q = 0 ∨ q ∈ g.above c) :
    ∃ b ∈ g.above c, g.parent b = q := by
  rcases h with rfl | h
  · induction c using Nat.strong_induction_on with
    | _ c ih =>
      have hlt := g.parent_lt c hne.symm
      rw [g.above_of_ne hne.symm]
      by_cases hp : g.parent c = 0
      · exact ⟨c, List.mem_cons_self, hp⟩
      · obtain ⟨b, hb, hbp⟩ := ih _ hlt (Ne.symm hp)
        exact ⟨b, List.mem_cons_of_mem _ hb, hbp⟩
  · exact (eq_or_parent h).resolve_left hne

/-- Two children of one queue are not above the same. -/
theorem child_unique {b c q : Nat} (hb : b ∈ g.above q) (hc : c ∈ g.above q)
    (hp : g.parent b = g.parent c) : b = c := by
  have hself : ∀ x y, x ∈ g.above y → x ∈ g.above q → g.parent x = g.parent y → x = y := by
    intro x y hxy hx hxp
    have hy0 : y ≠ 0 := by
      rintro rfl
      simp at hxy
    rw [g.above_of_ne hy0, List.mem_cons] at hxy
    refine hxy.resolve_right fun hmem => ?_
    have hle := above_le hmem
    have hlt := g.parent_lt x (above_pos hx)
    omega
  rcases above_total hb hc with h | h
  · exact hself b c h hb hp
  · exact (hself c b h hc hp.symm).symm

end Groups

namespace Shape

variable {g : Groups} {a : Shape} {q p : Nat}

/-- Whether a queue counts a task: it is that of the task or above it, and none of those below
it on the way is throttled. -/
def Counts (g : Groups) (a : Shape) (q p : Nat) : Prop :=
  (q = a.home (.task p) ∨ q = 0 ∨ q ∈ g.above (a.home (.task p))) ∧
    ∀ c ∈ g.above (a.home (.task p)), c ∉ g.above q → a.throttled c = false

instance : Decidable (a.Counts g q p) :=
  inferInstanceAs (Decidable ((q = a.home (.task p) ∨ q = 0 ∨ q ∈ g.above (a.home (.task p))) ∧
    ∀ c ∈ g.above (a.home (.task p)), c ∉ g.above q → a.throttled c = false))

theorem Counts.mem_above (h : a.Counts g q p) (hq : q ≠ 0) : q ∈ g.above (a.home (.task p)) := by
  rcases h.1 with rfl | h0 | hmem
  · exact Groups.mem_above_self hq
  · exact absurd h0 hq
  · exact hmem

/-- A task is counted at its queue, and wherever a child that is not throttled counts it. -/
theorem counts_iff : a.Counts g q p ↔ a.home (.task p) = q ∨
    ∃ c, c ≠ 0 ∧ g.parent c = q ∧ a.throttled c = false ∧ a.Counts g c p := by
  constructor
  · rintro ⟨hpos, hth⟩
    by_cases hq : q = a.home (.task p)
    · exact .inl hq.symm
    · obtain ⟨c, hc, hcq⟩ := Groups.exists_child hq (hpos.resolve_left hq)
      have hc0 := Groups.above_pos hc
      have hlt := g.parent_lt c hc0
      refine .inr ⟨c, hc0, hcq, hth c hc fun hmem => ?_, .inr (.inr hc), fun b hb hbc => hth b hb ?_⟩
      · have := Groups.above_le hmem
        omega
      · rw [g.above_of_ne hc0, hcq] at hbc
        exact fun hmem => hbc (List.mem_cons_of_mem _ hmem)
  · rintro (rfl | ⟨c, hc0, rfl, hthc, hcounts⟩)
    · exact ⟨.inl rfl, fun c hc hnot => absurd hc hnot⟩
    · have hmem := hcounts.mem_above hc0
      refine ⟨.inr ?_, fun b hb hnot => ?_⟩
      · by_cases hp0 : g.parent c = 0
        · exact .inl hp0
        · refine .inr (Groups.mem_above_trans ?_ hmem)
          rw [g.above_of_ne hc0]
          exact List.mem_cons_of_mem _ (Groups.mem_above_self hp0)
      · by_cases hbc : b = c
        · rw [hbc, hthc]
        · refine hcounts.2 b hb fun hmem' => ?_
          rw [g.above_of_ne hc0, List.mem_cons] at hmem'
          exact hnot (hmem'.resolve_left hbc)

/-- Whether an entity stands for a task. -/
def standsFor (g : Groups) (a : Shape) : Ent → Nat → Bool
  | .task r, p => r == p
  | .group c, p => decide (a.Counts g c p)

/-- On one queue only one entity stands for a task. -/
theorem standsFor_unique (h : a.Balanced g) {e e' : Ent} (he : e ∈ a.queued q) (he' : e' ∈ a.queued q)
    (hp : a.standsFor g e p = true) (hp' : a.standsFor g e' p = true) : e = e' := by
  have hgroup : ∀ c, Ent.group c ∈ a.queued q → a.standsFor g (.group c) p = true →
      c ∈ g.above (a.home (.task p)) ∧ g.parent c = q := by
    intro c hc hcp
    have hon := h.queues.onRq_of_mem hc
    exact ⟨(of_decide_eq_true hcp : a.Counts g c p).mem_above (h.group_ne_zero hon),
      (h.home_group c).symm.trans (h.queues.home_of_mem hc)⟩
  have hmixed : ∀ c, Ent.group c ∈ a.queued q → a.standsFor g (.group c) p = true →
      Ent.task p ∉ a.queued q := by
    intro c hc hcp htask
    obtain ⟨hmem, hparent⟩ := hgroup c hc hcp
    rw [h.queues.home_of_mem htask] at hmem
    have hle := Groups.above_le hmem
    have hlt := g.parent_lt c (Groups.above_pos hmem)
    omega
  cases e with
  | task r =>
    have hr : r = p := by simpa [standsFor] using hp
    subst hr
    cases e' with
    | task r' =>
      have hr' : r' = r := by simpa [standsFor] using hp'
      rw [hr']
    | group c => exact absurd he (hmixed c he' hp')
  | group c =>
    obtain ⟨hmem, hparent⟩ := hgroup c he hp
    cases e' with
    | task r' =>
      have hr' : r' = p := by simpa [standsFor] using hp'
      subst hr'
      exact absurd he' (hmixed c he hp)
    | group c' =>
      obtain ⟨hmem', hparent'⟩ := hgroup c' he' hp'
      rw [Groups.child_unique hmem hmem' (hparent.trans hparent'.symm)]

/-- `h_nr_running` is the number of queued tasks that the queue counts. -/
theorem hNrRunning_eq (h : a.Balanced g) (q : Nat) :
    a.hNrRunning q = a.tasks.countP (fun p => decide (a.Counts g q p)) := by
  obtain ⟨n, hn⟩ : ∃ n, g.size ≤ n + q := ⟨g.size, Nat.le_add_right _ _⟩
  induction n generalizing q with
  | zero =>
    have hnil : a.queued q = [] := by
      rw [List.eq_nil_iff_forall_not_mem]
      intro e he
      have hlt := h.bound e (h.queues.onRq_of_mem he)
      rw [h.queues.home_of_mem he] at hlt
      omega
    have hnone : ∀ p ∈ a.tasks, ¬ a.Counts g q p := by
      rintro p - hcounts
      have hlt := h.home_task p
      have hq : q ≠ 0 := by
        rintro rfl
        omega
      have hle := Groups.above_le (hcounts.mem_above hq)
      omega
    rw [h.off_zero, below, hnil, eq_comm]
    simpa [List.countP_eq_zero] using hnone
  | succ n ih =>
    have hcnt : ∀ e ∈ a.queued q, a.cnt e = a.tasks.countP (a.standsFor g e) := by
      intro e he
      have hon := h.queues.onRq_of_mem he
      cases e with
      | task r =>
        refine (countP_eq_one h.queues.tasks_nodup ((h.queues.tasks r).mpr hon) fun p _ => ?_).symm
        rw [standsFor, beq_iff_eq, eq_comm]
      | group c =>
        have hlt := g.parent_lt c (h.group_ne_zero hon)
        rw [← h.home_group, h.queues.home_of_mem he] at hlt
        exact ih c (by omega)
    rw [h.off_zero, below, List.map_congr_left hcnt]
    refine sum_countP_eq fun p hp => ?_
    have hon := (h.queues.tasks p).mp hp
    by_cases hcounts : a.Counts g q p
    · rw [if_pos (decide_eq_true hcounts)]
      obtain ⟨e, he, hep⟩ : ∃ e ∈ a.queued q, a.standsFor g e p = true := by
        rcases counts_iff.mp hcounts with hq | ⟨c, hc0, hcq, hth, hcp⟩
        · exact ⟨.task p, hq ▸ h.queues.mem_home hon, by simp [standsFor]⟩
        · have hlt := g.parent_lt c hc0
          have hpos : 0 < a.hNrRunning c := by
            rw [ih c (by omega), List.countP_pos_iff]
            exact ⟨p, hp, decide_eq_true hcp⟩
          have hne : a.queued c ≠ [] := by
            intro hnil
            rw [h.off_zero, below, hnil] at hpos
            exact absurd hpos (Nat.lt_irrefl 0)
          have honc := (h.linked c hc0 (Set.notMem_empty c)).mpr ⟨hne, hth⟩
          refine ⟨.group c, ?_, decide_eq_true hcp⟩
          rw [← hcq, ← h.home_group]
          exact h.queues.mem_home honc
      refine countP_eq_one (h.queues.nodup q) he fun e' he' => ⟨fun hep' => ?_, ?_⟩
      · exact standsFor_unique h he' he hep' hep
      · rintro rfl
        exact hep
    · rw [if_neg (by simpa using hcounts), List.countP_eq_zero]
      intro e he hep
      refine hcounts (counts_iff.mpr ?_)
      cases e with
      | task r =>
        have hr : r = p := by simpa [standsFor] using hep
        exact .inl (hr ▸ h.queues.home_of_mem he)
      | group c =>
        have honc := h.queues.onRq_of_mem he
        have hc0 := h.group_ne_zero honc
        have hwants := (h.linked c hc0 (Set.notMem_empty c)).mp honc
        exact .inr ⟨c, hc0, (h.home_group c).symm.trans (h.queues.home_of_mem he), hwants.2,
          of_decide_eq_true hep⟩

end Shape

end MSchedutil
