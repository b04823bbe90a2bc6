import MSchedutil.FairReach

/-! What `pick_next_entity` chooses: an entity that is not further ahead of any other than the
wakeup granularity allows, and the same one whether the current entity is in the timeline or not. -/

namespace MSchedutil

open Word

namespace FairRq

variable {g : Groups} {t : FairTunables} {a b s : FairRq} {q : Nat} {e left : Ent} {curr : Option Ent}

/-- No two virtual runtimes on the queue are far apart. -/
def NearAt (s : FairRq) (q : Nat) : Prop :=
  ∀ x ∈ s.queued q, ∀ y ∈ s.queued q, farApart (s.vruntime x) (s.vruntime y) = false

instance : Decidable (s.NearAt q) :=
  inferInstanceAs (Decidable (∀ x ∈ s.queued q, ∀ y ∈ s.queued q,
    farApart (s.vruntime x) (s.vruntime y) = false))

theorem wakeupPreemptEntity_lt {x y : Ent} (hnear : farApart (s.vruntime x) (s.vruntime y) = false)
    (h : s.wakeupPreemptEntity t x y < 1) :
    s.vruntime x ≤ s.vruntime y ∨ s.vruntime x - s.vruntime y ≤ s64 (s.wakeupGran t y) := by
  by_cases hle : s.vruntime x ≤ s.vruntime y
  · exact .inl hle
  · refine .inr (not_lt.mp fun hgt => ?_)
    have hone : s.wakeupPreemptEntity t x y = 1 := by
      rw [wakeupPreemptEntity, vruntimeDelta_of_near hnear, if_neg (by omega), if_pos hgt]
    omega

theorem entityBefore_iff {x y : Ent} (hnear : farApart (s.vruntime x) (s.vruntime y) = false) :
    s.entityBefore x y = true ↔ s.vruntime x < s.vruntime y := by
  rw [entityBefore, decide_eq_true_eq, vruntimeDelta_of_near hnear]
  omega

/-- The leftmost entity is chosen, or one that would not be preempted by it. -/
theorem choose_lag (h : s.choose t q curr = some e) :
    ∃ left, s.leftmost (s.cfs q).timeline.head? curr = some left ∧
      (e = left ∨ s.wakeupPreemptEntity t e left < 1) := by
  simp only [choose] at h
  split at h
  · cases h
  rename_i left hleft
  have hprefer : ∀ (buddy : Option Ent) (x : Ent), (x = left ∨ s.wakeupPreemptEntity t x left < 1) →
      s.prefer t left buddy x = left ∨ s.wakeupPreemptEntity t (s.prefer t left buddy x) left < 1 := by
    intro buddy x hx
    rcases prefer_cases (t := t) (s := s) left buddy x with heq | ⟨b, -, heq, hlt⟩
    · rwa [heq]
    · rw [heq]
      exact .inr hlt
  refine ⟨left, hleft, ?_⟩
  rw [← Option.some.inj h]
  refine hprefer _ _ (hprefer _ _ ?_)
  split
  · exact hprefer _ _ (.inl rfl)
  · exact .inl rfl

/-- Nothing on the queue has a smaller virtual runtime than the leftmost. -/
theorem leftmost_le (h : s.Ranked g) (hstray : s.strayed = false) (hnear : s.NearAt q)
    (hcurr : curr = s.currOnRq q)
    (hleft : s.leftmost (s.cfs q).timeline.head? curr = some left) :
    ∀ x ∈ s.queued q, s.vruntime left ≤ s.vruntime x := by
  have hhead : ∀ y, (s.cfs q).timeline.head? = some y → ∀ x ∈ (s.cfs q).timeline,
      s.vruntime y ≤ s.vruntime x := by
    intro y hy x hx
    obtain ⟨tl, htl⟩ := List.head?_eq_some_iff.mp hy
    have hsorted := h.sorted hstray q
    rw [htl] at hsorted hx
    rcases List.mem_cons.mp hx with rfl | hx
    · exact le_rfl
    · exact (List.pairwise_cons.mp hsorted).1 x hx
  have hnone : (s.cfs q).timeline.head? = none → (s.cfs q).timeline = [] := List.head?_eq_none_iff.mp
  intro x hx
  rw [queued, ← hcurr, List.mem_append, Option.mem_toList] at hx
  cases hh : (s.cfs q).timeline.head? with
  | none =>
    rw [hnone hh] at hx
    rw [hh] at hleft
    rcases hx with hx | hx
    · cases hx
    · rw [hx] at hleft
      rw [Option.some.inj hleft]
  | some y =>
    rw [hh] at hleft
    cases curr with
    | none =>
      rw [← Option.some.inj hleft]
      exact hhead y hh x (hx.resolve_right nofun)
    | some c =>
      have hc : c ∈ s.queued q := by
        rw [queued, ← hcurr]
        exact List.mem_append_right _ (Option.mem_toList.mpr rfl)
      have hy : y ∈ s.queued q := List.mem_append_left _ (List.mem_of_mem_head? hh)
      simp only [leftmost, entityBefore_iff (hnear c hc y hy)] at hleft
      split at hleft
      · rename_i hlt
        rw [← Option.some.inj hleft]
        rcases hx with hx | hx
        · have := hhead y hh x hx
          omega
        · rw [Option.some.inj hx]
      · rename_i hlt
        rw [← Option.some.inj hleft]
        rcases hx with hx | hx
        · exact hhead y hh x hx
        · rw [← Option.some.inj hx]
          omega

/-- What the choice looks at: the entities on the queue and the buddies. -/
theorem choose_congr (htimeline : (a.cfs q).timeline = (b.cfs q).timeline)
    (hnext : (a.cfs q).next = (b.cfs q).next) (hlast : (a.cfs q).last = (b.cfs q).last)
    (hskip : (a.cfs q).skip = (b.cfs q).skip) (hses : ∀ x, a.cfsRqOf g x = q → a.ses x = b.ses x)
    (hlinked : ∀ x ∈ (a.cfs q).timeline, a.cfsRqOf g x = q)
    (hbuddies : ∀ x, (a.cfs q).next = some x ∨ (a.cfs q).last = some x → a.cfsRqOf g x = q)
    (hcurr : ∀ x, curr = some x → a.cfsRqOf g x = q) :
    a.choose t q curr = b.choose t q curr := by
  have hv : ∀ x, a.cfsRqOf g x = q → a.vruntime x = b.vruntime x := by
    intro x hx
    rw [vruntime, vruntime, hses x hx]
  have hleftmost : ∀ head : Option Ent, (∀ x, head = some x → a.cfsRqOf g x = q) →
      a.leftmost head curr = b.leftmost head curr := by
    intro head hhead
    cases head with
    | none => rfl
    | some x =>
      cases curr with
      | none => rfl
      | some y =>
        rw [leftmost, leftmost, entityBefore, entityBefore, hv x (hhead x rfl), hv y (hcurr y rfl)]
  have hhead : ∀ x, (a.cfs q).timeline.head? = some x → a.cfsRqOf g x = q :=
    fun x hx => hlinked x (List.mem_of_mem_head? hx)
  have hafter : ∀ left x, nextInTimeline left (a.cfs q).timeline = some x → a.cfsRqOf g x = q :=
    fun left x hx => hlinked x (nextInTimeline_mem hx)
  have hmem : ∀ head left, (∀ x, head = some x → a.cfsRqOf g x = q) →
      a.leftmost head curr = some left → a.cfsRqOf g left = q := by
    intro head left hhead hleft
    cases head with
    | none => exact hcurr left hleft
    | some x =>
      cases curr with
      | none => exact hhead left hleft
      | some y =>
        simp only [leftmost] at hleft
        split at hleft
        · exact hcurr left hleft
        · exact hhead left hleft
  simp only [choose, ← htimeline, ← hnext, ← hlast, ← hskip, ← hleftmost _ hhead]
  cases hleft : a.leftmost (a.cfs q).timeline.head? curr with
  | none => rfl
  | some left =>
    have hprefer : ∀ (buddy : Option Ent) (x : Ent), (∀ y, buddy = some y → a.cfsRqOf g y = q) →
        a.prefer t left buddy x = b.prefer t left buddy x := by
      intro buddy x hy
      cases buddy with
      | none => rfl
      | some y =>
        have hl := hmem _ left hhead hleft
        rw [prefer, prefer, wakeupPreemptEntity, wakeupPreemptEntity, wakeupGran, wakeupGran,
          hv y (hy y rfl), hv left hl, hses left hl]
    simp only [← hleftmost _ (hafter left)]
    rw [hprefer _ _ fun y hy => hbuddies y (.inl hy), hprefer _ _ fun y hy => hbuddies y (.inr hy),
      hprefer _ left fun y hy => ?_]
    split at hy
    · exact hhead y hy
    · exact hmem _ y (hafter left) hy

end FairRq

end MSchedutil
