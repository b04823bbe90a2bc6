import MSchedutil.Transition
import Mathlib.Tactic.Ring

/-! A position inside a period of fixed length and the number of period ends
passed. An amount of time moves it the same in one piece or in parts. -/

structure PeriodCounter where
  pos : ℕ
  passed : ℕ

namespace PeriodCounter

open Transition

variable {P : ℕ} {s : PeriodCounter}

def advance (P : ℕ) (s : PeriodCounter) (d : ℕ) : PeriodCounter :=
  ⟨(s.pos + d) % P, s.passed + (s.pos + d) / P⟩

theorem advance_zero (hs : s.pos < P) : s.advance P 0 = s := by
  simp [advance, Nat.mod_eq_of_lt hs, Nat.div_eq_of_lt hs]

theorem advance_pos_lt (hP : 0 < P) (s : PeriodCounter) (d : ℕ) : (s.advance P d).pos < P :=
  Nat.mod_lt _ hP

theorem advance_advance (hP : 0 < P) (s : PeriodCounter) (d e : ℕ) :
    (s.advance P d).advance P e = s.advance P (d + e) := by
  have hsplit : s.pos + (d + e) = (s.pos + d) % P + e + P * ((s.pos + d) / P) := by
    have h := Nat.mod_add_div (s.pos + d) P
    omega
  have hquot : (s.pos + (d + e)) / P = ((s.pos + d) % P + e) / P + (s.pos + d) / P := by
    rw [hsplit, Nat.add_mul_div_left _ _ hP]
  have hrest : (s.pos + (d + e)) % P = ((s.pos + d) % P + e) % P := by
    rw [hsplit, Nat.add_mul_mod_self_left]
  simp only [advance, hquot, hrest]
  congr 1
  omega

theorem run_advance (hP : 0 < P) (hs : s.pos < P) (ds : List ℕ) :
    run (advance P) s ds = s.advance P ds.sum := by
  induction ds generalizing s with
  | nil => exact (advance_zero hs).symm
  | cons d ds ih =>
    rw [run_cons, ih (advance_pos_lt hP s d), advance_advance hP, List.sum_cons]

end PeriodCounter
