import Mathlib.Logic.Relation
import Mathlib.Tactic.Ring

/-! A meter of running time in whole units: what runs is charged from its last mark on when
it is looked at, a look that finds less than a unit moves no mark, and a settlement clears
the account. -/

namespace Metering

open Relation

/-- `last` is the mark of what sits on the processor, `running` whether it still runs, and
`touched` the time of the last look at it. The account goes back to `clear`; `late` starts
came with a mark in the past, `calls` looks were taken and `idle` time went by since `since`. -/
structure Meter where
  clock : Nat
  clear : Nat
  exec : Nat
  last : Option Nat
  running : Bool
  touched : Nat
  late : Nat
  calls : Nat
  idle : Nat
  since : Nat

namespace Meter

variable {u : Nat} {m m' : Meter}

/-- A charge never begins before the account does. -/
inductive Step (u : Nat) : Meter → Meter → Prop
  | advance (m : Meter) (t : Nat) : m.clock ≤ t →
      Step u m { m with clock := t, idle := m.idle + if m.running then 0 else t - m.clock }
  | look (m : Meter) : Step u m { m with calls := m.calls + 1 }
  | wait (m : Meter) (last : Nat) : m.last = some last → m.clock < last + u →
      Step u m { m with calls := m.calls + 1, touched := m.clock }
  | charge (m : Meter) (last : Nat) : m.last = some last → last + u ≤ m.clock →
      Step u m { m with
        exec := m.exec + (m.clock - max last m.clear) / u
        last := some m.clock
        calls := m.calls + 1
        touched := m.clock }
  | leave (m : Meter) : (m.running = true → m.touched = m.clock) → Step u m { m with running := false }
  | stop (m : Meter) : (m.running = true → m.touched = m.clock) →
      Step u m { m with last := none, running := false }
  | begin (m : Meter) (last : Nat) : m.last = none → last ≤ m.clock → m.clock < last + u →
      Step u m { m with
        last := some last
        running := true
        touched := m.clock
        late := if last = m.clock then m.late else m.late + 1 }
  | settle (m : Meter) :
      Step u m { m with clear := m.clock, exec := 0, late := 0, calls := 0, idle := 0, since := m.clock }

theorem Step.clear_le (h : m.clear ≤ m.clock) (hs : Step u m m') : m'.clear ≤ m'.clock := by
  cases hs with
  | advance t ht => exact h.trans ht
  | settle => exact le_refl _
  | look | wait | charge | leave | stop | begin => exact h

theorem clear_le_steps (h : m.clear ≤ m.clock) (hs : ReflTransGen (Step u) m m') :
    m'.clear ≤ m'.clock := by
  induction hs with
  | refl => exact h
  | tail _ hlast ih => exact hlast.clear_le ih

/-- The charges reach up to `f`. The mark of what sits on the processor lies before `f` only
by what its late start has been allowed for. -/
structure BoundedTo (u : Nat) (m : Meter) (f : Nat) : Prop where
  clear_le : m.clear ≤ f
  le_clock : f ≤ m.clock
  exec_le : m.exec ≤ f - m.clear
  last_le : ∀ last, m.last = some last → last ≤ m.clock ∧ f < max last m.clear + u
  charged : u * m.exec + (m.last.elim 0 fun last => f - max last m.clear) ≤
    f - m.clear + (u - 1) * m.late

/-- Charges overlap by less than a unit for each late start. -/
def Bounded (u : Nat) (m : Meter) : Prop := ∃ f, m.BoundedTo u f

/-- A charge that begins less than a unit before `f` spans no more units than time from there. -/
theorem units_le {f start clock : Nat} (hu : 0 < u) (hf : f ≤ clock) (hnear : f < start + u) :
    (clock - start) / u ≤ clock - f := by
  have hfloor : u * ((clock - start) / u) ≤ clock - start := Nat.mul_div_le _ _
  cases hq : (clock - start) / u with
  | zero => exact Nat.zero_le _
  | succ q =>
    have hq' : q ≤ u * q := Nat.le_mul_of_pos_left q hu
    rw [hq, Nat.mul_add_one] at hfloor
    omega

theorem Bounded.step (hu : 0 < u) (h : m.Bounded u) (hs : Step u m m') : m'.Bounded u := by
  obtain ⟨f, hf⟩ := h
  have hcharged := hf.charged
  have hclear := hf.clear_le
  have hclock := hf.le_clock
  have hexec := hf.exec_le
  cases hs with
  | advance t ht =>
    exact ⟨f, hclear, hclock.trans ht, hexec, fun last hl =>
      ⟨(hf.last_le last hl).1.trans ht, (hf.last_le last hl).2⟩, hcharged⟩
  | look => exact ⟨f, hclear, hclock, hexec, hf.last_le, hcharged⟩
  | wait last hl hdue => exact ⟨f, hclear, hclock, hexec, hf.last_le, hcharged⟩
  | leave hrun => exact ⟨f, hclear, hclock, hexec, hf.last_le, hcharged⟩
  | stop hrun =>
    refine ⟨f, hclear, hclock, hexec, fun last hl => (by cases hl), ?_⟩
    exact (Nat.add_le_add_left (Nat.zero_le _) _).trans hcharged
  | begin last hl hle hlt =>
    rw [hl] at hcharged
    refine ⟨f, hclear, hclock, hexec, fun last' hl' => ?_, ?_⟩
    · cases hl'
      exact ⟨hle, by dsimp only; omega⟩
    · dsimp only [Option.elim_some, Option.elim_none] at hcharged ⊢
      by_cases hmark : last = m.clock
      · rw [if_pos hmark]
        omega
      · rw [if_neg hmark, Nat.mul_add_one]
        omega
  | charge last hl hdue =>
    obtain ⟨hle, hnear⟩ := hf.last_le last hl
    rw [hl, Option.elim_some] at hcharged
    have hfloor : u * ((m.clock - max last m.clear) / u) ≤ m.clock - max last m.clear :=
      Nat.mul_div_le _ _
    refine ⟨m.clock, hclear.trans hclock, le_refl _, ?_, fun last' hl' => ?_, ?_⟩
    · have hunits := units_le hu hclock hnear
      dsimp only
      omega
    · cases hl'
      exact ⟨le_refl _, by dsimp only; omega⟩
    · dsimp only [Option.elim_some]
      rw [Nat.mul_add]
      omega
  | settle =>
    refine ⟨m.clock, le_refl _, le_refl _, Nat.zero_le _, fun last hl => ?_, ?_⟩
    · obtain ⟨hle, -⟩ := hf.last_le last hl
      exact ⟨hle, by dsimp only; omega⟩
    · cases hl : m.last with
      | none => simp
      | some last => simp

/-- The account holds no more units than it spans, and one for each late start. -/
theorem Bounded.exec_le (hu : 0 < u) (h : m.Bounded u) :
    m.exec ≤ (m.clock - m.clear) / u + m.late ∧ m.exec ≤ m.clock - m.clear := by
  obtain ⟨f, hf⟩ := h
  have hclear := hf.clear_le
  have hclock := hf.le_clock
  have hexec := hf.exec_le
  refine ⟨?_, by omega⟩
  have hlate : (u - 1) * m.late + m.late = u * m.late := by
    rw [← Nat.succ_mul, Nat.succ_eq_add_one, Nat.sub_add_cancel hu]
  have hcharged : u * m.exec ≤ m.clock - m.clear + (u - 1) * m.late := by
    have := hf.charged
    omega
  by_contra hlt
  have hone : u * ((m.clock - m.clear) / u + m.late + 1) ≤ u * m.exec :=
    Nat.mul_le_mul_left u (by omega)
  have hdiv := Nat.lt_mul_div_succ (m.clock - m.clear) hu
  rw [Nat.mul_add_one] at hdiv
  rw [Nat.mul_add_one, Nat.mul_add] at hone
  omega

/-- All the time since `since` went by idle, was charged, was lost to a look or, while
something runs, lies between its mark and now. -/
structure Covered (u : Nat) (m : Meter) : Prop where
  clear_le : m.clear ≤ m.since
  since_le : m.since ≤ m.clock
  touched_le : m.touched ≤ m.clock
  last_le : ∀ last, m.last = some last → last ≤ m.clock
  running : m.running = true → ∃ last, m.last = some last ∧
    m.clock - m.since ≤ m.idle + u * (m.exec + m.calls) + (m.clock - max last m.clear)
  looked : (m.running = true → m.touched = m.clock) → m.clock - m.since ≤ m.idle + u * (m.exec + m.calls)

/-- Whether it still runs or not, what is not accounted for comes after the mark. -/
theorem Covered.tail_le (h : m.Covered u) {last : Nat} (hl : m.last = some last) :
    m.clock - m.since ≤ m.idle + u * (m.exec + m.calls) + (m.clock - max last m.clear) := by
  cases hrun : m.running with
  | true =>
    obtain ⟨last', hl', htail⟩ := h.running hrun
    cases hl.symm.trans hl'
    exact htail
  | false =>
    have hidle := h.looked fun hyes => absurd (hrun.symm.trans hyes) (by decide)
    exact hidle.trans (Nat.le_add_right _ _)

theorem Covered.step (hu : 0 < u) (h : m.Covered u) (hs : Step u m m') : m'.Covered u := by
  have hclear := h.clear_le
  have hsince := h.since_le
  cases hs with
  | advance t ht =>
    cases hrun : m.running with
    | true =>
      obtain ⟨last, hl, htail⟩ := h.running hrun
      have hle := h.last_le last hl
      refine ⟨hclear, hsince.trans ht, h.touched_le.trans ht, fun l hl' => (h.last_le l hl').trans ht,
        fun _ => ⟨last, hl, ?_⟩, fun htouched => ?_⟩
      · dsimp only
        omega
      · have hsame : m.touched = t := htouched rfl
        have hclock : m.clock = t := ht.antisymm (hsame ▸ h.touched_le)
        have := h.looked fun _ => hsame.trans hclock.symm
        simpa [hclock] using this
    | false =>
      have hidle := h.looked fun hyes => absurd (hrun.symm.trans hyes) (by decide)
      refine ⟨hclear, hsince.trans ht, h.touched_le.trans ht, fun l hl' => (h.last_le l hl').trans ht,
        fun hyes => (by cases hyes), fun _ => ?_⟩
      dsimp only
      rw [if_neg Bool.false_ne_true]
      omega
  | look =>
    refine ⟨hclear, hsince, h.touched_le, h.last_le, fun hrun => ?_, fun htouched => ?_⟩
    · obtain ⟨last, hl, htail⟩ := h.running hrun
      exact ⟨last, hl, by dsimp only; rw [← Nat.add_assoc, Nat.mul_add_one]; omega⟩
    · have := h.looked htouched
      dsimp only
      rw [← Nat.add_assoc, Nat.mul_add_one]
      omega
  | wait last hl hdue =>
    have hbound : m.clock - m.since ≤ m.idle + u * (m.exec + (m.calls + 1)) := by
      have htail := h.tail_le hl
      rw [← Nat.add_assoc, Nat.mul_add_one]
      omega
    exact ⟨hclear, hsince, le_refl _, h.last_le, fun _ => ⟨last, hl, hbound.trans (Nat.le_add_right _ _)⟩,
      fun _ => hbound⟩
  | charge last hl hdue =>
    have hbound : m.clock - m.since ≤
        m.idle + u * (m.exec + (m.clock - max last m.clear) / u + (m.calls + 1)) := by
      have htail := h.tail_le hl
      have hfloor := Nat.lt_mul_div_succ (m.clock - max last m.clear) hu
      rw [Nat.mul_add_one] at hfloor
      have hsum : u * (m.exec + (m.clock - max last m.clear) / u + (m.calls + 1)) =
          u * (m.exec + m.calls) + u * ((m.clock - max last m.clear) / u) + u := by ring
      rw [hsum]
      omega
    refine ⟨hclear, hsince, le_refl _, fun l hl' => ?_, fun _ => ⟨m.clock, rfl, ?_⟩, fun _ => hbound⟩
    · cases hl'
      exact le_refl _
    · exact hbound.trans (Nat.le_add_right _ _)
  | leave hrun =>
    exact ⟨hclear, hsince, h.touched_le, h.last_le, fun hyes => (by cases hyes), fun _ => h.looked hrun⟩
  | stop hrun =>
    exact ⟨hclear, hsince, h.touched_le, fun l hl => (by cases hl), fun hyes => (by cases hyes),
      fun _ => h.looked hrun⟩
  | begin last hl hle hlt =>
    have hbound : m.clock - m.since ≤ m.idle + u * (m.exec + m.calls) := by
      refine h.looked fun hrun => ?_
      obtain ⟨last', hl', -⟩ := h.running hrun
      cases hl.symm.trans hl'
    refine ⟨hclear, hsince, le_refl _, fun l hl' => ?_, fun _ => ⟨last, rfl, ?_⟩, fun _ => hbound⟩
    · cases hl'
      exact hle
    · exact hbound.trans (Nat.le_add_right _ _)
  | settle =>
    refine ⟨le_refl _, le_refl _, h.touched_le, h.last_le, fun hrun => ?_, fun _ => ?_⟩
    · obtain ⟨last, hl, -⟩ := h.running hrun
      exact ⟨last, hl, by simp⟩
    · simp

/-- What a settlement takes for idle was idle, but for a unit for each look, if nothing
runs that has not been looked at and the account does not go back beyond `since`. -/
theorem Covered.idle_le (h : m.Covered u) (hclear : m.clear = m.since)
    (hlooked : m.running = true → m.touched = m.clock) :
    u * ((m.clock - m.clear) / u - m.exec) ≤ m.idle + u * m.calls := by
  have hbound := h.looked hlooked
  have hfloor : u * ((m.clock - m.clear) / u) ≤ m.clock - m.clear := Nat.mul_div_le _ _
  rw [Nat.mul_sub, hclear] at *
  rw [Nat.mul_add] at hbound
  omega

theorem Bounded.steps (hu : 0 < u) (h : m.Bounded u) (hs : ReflTransGen (Step u) m m') :
    m'.Bounded u := by
  induction hs with
  | refl => exact h
  | tail _ hlast ih => exact ih.step hu hlast

theorem Covered.steps (hu : 0 < u) (h : m.Covered u) (hs : ReflTransGen (Step u) m m') :
    m'.Covered u := by
  induction hs with
  | refl => exact h
  | tail _ hlast ih => exact ih.step hu hlast

end Meter

end Metering
