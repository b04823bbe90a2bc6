import Mathlib.Tactic.Ring
import Mathlib.Tactic.Linarith

/-! The speed at which a load fits a capacity. Of the load one part shrinks as the speed
grows and one does not; at full speed the speed is the capacity itself. -/

namespace Balance

/-- The speed at which `core` takes the time that `fixed` leaves: the solution `u` of
`core / (u / cap) + fixed = cap`, rounded down, or full speed if there is none. -/
def speed (cap core fixed : Nat) : Nat :=
  if fixed < cap ∧ core < cap - fixed then cap * core / (cap - fixed) else cap

/-- `speed` is the greatest speed that the core load still keeps busy. -/
theorem le_speed_iff {cap core fixed u : Nat} :
    u ≤ speed cap core fixed ↔ u ≤ cap ∧ u * (cap - fixed) ≤ cap * core := by
  unfold speed
  split
  · rename_i h
    have hpos : 0 < cap - fixed := by omega
    rw [Nat.le_div_iff_mul_le hpos]
    constructor
    · intro hu
      refine ⟨?_, hu⟩
      have hcap : u * (cap - fixed) ≤ cap * (cap - fixed) :=
        hu.trans (Nat.mul_le_mul_left cap h.2.le)
      exact Nat.le_of_mul_le_mul_right hcap hpos
    · exact fun hu => hu.2
  · rename_i h
    constructor
    · intro hu
      refine ⟨hu, ?_⟩
      have hle : cap - fixed ≤ core := by omega
      exact Nat.mul_le_mul hu hle
    · exact fun hu => hu.1

/-- No speed at all is needed for no core load in a capacity that the rest does not fill. -/
theorem speed_pos_iff {cap core fixed : Nat} :
    0 < speed cap core fixed ↔ 0 < cap ∧ (0 < core ∨ cap ≤ fixed) := by
  rw [← Nat.one_le_iff_ne_zero.trans Nat.pos_iff_ne_zero.symm, le_speed_iff, Nat.one_mul]
  refine and_congr_right fun hcap => ?_
  rcases Nat.eq_zero_or_pos core with hzero | hpos
  · rw [hzero, Nat.mul_zero]
    omega
  · have hle : cap ≤ cap * core := Nat.le_mul_of_pos_right cap hpos
    exact iff_of_true (by omega) (.inl hpos)

theorem speed_le (cap core fixed : Nat) : speed cap core fixed ≤ cap := (le_speed_iff.mp le_rfl).1

theorem core_le_speed (cap core fixed : Nat) : min core cap ≤ speed cap core fixed := by
  refine le_speed_iff.mpr ⟨min_le_right _ _, ?_⟩
  calc min core cap * (cap - fixed)
      ≤ core * cap := Nat.mul_le_mul (min_le_left _ _) (Nat.sub_le _ _)
    _ = cap * core := Nat.mul_comm _ _

theorem speed_mono {cap core core' fixed fixed' : Nat} (hcore : core ≤ core')
    (hfixed : fixed ≤ fixed') : speed cap core fixed ≤ speed cap core' fixed' := by
  obtain ⟨hle, hbusy⟩ := le_speed_iff.mp (le_refl (speed cap core fixed))
  refine le_speed_iff.mpr ⟨hle, ?_⟩
  calc speed cap core fixed * (cap - fixed')
      ≤ speed cap core fixed * (cap - fixed) := Nat.mul_le_mul_left _ (by omega)
    _ ≤ cap * core := hbusy
    _ ≤ cap * core' := Nat.mul_le_mul_left _ hcore

/-- Where the load fits, the equation is solved to one unit. -/
theorem speed_solves {cap core fixed : Nat} (h : core < cap - fixed) :
    speed cap core fixed * (cap - fixed) ≤ cap * core ∧
      cap * core < (speed cap core fixed + 1) * (cap - fixed) := by
  refine ⟨(le_speed_iff.mp le_rfl).2, ?_⟩
  unfold speed
  rw [if_pos ⟨by omega, h⟩, Nat.mul_comm _ (cap - fixed)]
  exact Nat.lt_mul_div_succ _ (by omega)

end Balance
