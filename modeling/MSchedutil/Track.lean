import MSchedutil.DecayLoad

/-! The six utilisation signals of a `sched_avg` under one index, and what a
call of `__update_load_avg` does to each of their sums when no sum wraps. -/

namespace MSchedutil

open Word

inductive Track
  | util
  | utilFast
  | coreUtil
  | memoryUtil
  | coreUtilFast
  | memoryUtilFast
  deriving DecidableEq, Repr

namespace Track

def fast : Track → Bool
  | .utilFast | .coreUtilFast | .memoryUtilFast => true
  | _ => false

/-- The signals that `pkshin_pemt_enabled` guards. -/
def tracked : Track → Bool
  | .util | .utilFast => false
  | _ => true

def pick {α : Type*} (k : Track) (slow fast : α) : α := if k.fast then fast else slow

def decay (k : Track) (val n : Nat) : Nat := k.pick decayLoad decayFastLoad val n

def contrib (k : Track) (n : Nat) : Nat := k.pick computeRunnableContrib computeRunnableContribFast n

def max (k : Track) : Nat := k.pick loadAvgMax loadAvgFastMax

theorem pick_cases {α : Type*} {p : α → Prop} (k : Track) {slow fast : α} (hs : p slow)
    (hf : p fast) : p (k.pick slow fast) := by
  unfold pick
  split <;> assumption

theorem floorDecay (k : Track) (n : Nat) : FloorDecay (fun val => k.decay val n) :=
  k.pick_cases (p := fun f : Nat → Nat → Nat => FloorDecay (fun val => f val n)) (floorDecay_decayLoad n)
    (floorDecay_decayFastLoad n)

theorem max_pos (k : Track) : 0 < k.max := by cases k <;> decide

end Track

def SchedAvg.signal (sa : SchedAvg) : Track → Signal
  | .util => sa.util
  | .utilFast => sa.utilFast
  | .coreUtil => sa.coreUtil
  | .memoryUtil => sa.memoryUtil
  | .coreUtilFast => sa.coreUtilFast
  | .memoryUtilFast => sa.memoryUtilFast

namespace UpdateCall

/-- What one accrual adds to a signal, as the code computes it. -/
def gain (c : UpdateCall) (amount scaled : Nat) : Track → Nat
  | .util | .utilFast => scaled * c.scaleCpu
  | .coreUtil | .coreUtilFast => c.coreShare scaled
  | .memoryUtil | .memoryUtilFast => c.memoryShare amount

@[simp] theorem signal_accrue (c : UpdateCall) (slow scaledSlow fast scaledFast : Nat)
    (sa : SchedAvg) (k : Track) :
    (c.accrue slow scaledSlow fast scaledFast sa).signal k =
      if c.running && (c.pemt || !k.tracked) then
        (sa.signal k).add32 (c.gain (k.pick slow fast) (k.pick scaledSlow scaledFast) k)
      else sa.signal k := by
  unfold accrue
  cases k <;> cases c.running <;> cases c.pemt <;>
    simp [SchedAvg.signal, Track.tracked, Track.pick, Track.fast, gain, apply_ite]

@[simp] theorem accrue_periodContrib (c : UpdateCall) (slow scaledSlow fast scaledFast : Nat)
    (sa : SchedAvg) :
    (c.accrue slow scaledSlow fast scaledFast sa).periodContrib = sa.periodContrib := by
  unfold accrue
  cases c.running <;> cases c.pemt <;> simp [apply_ite]

@[simp] theorem accrue_lastUpdateTime (c : UpdateCall) (slow scaledSlow fast scaledFast : Nat)
    (sa : SchedAvg) :
    (c.accrue slow scaledSlow fast scaledFast sa).lastUpdateTime = sa.lastUpdateTime := by
  unfold accrue
  cases c.running <;> cases c.pemt <;> simp [apply_ite]

@[simp] theorem signal_decay (c : UpdateCall) (n : Nat) (sa : SchedAvg) (k : Track) :
    (c.decay n sa).signal k =
      if c.pemt || !k.tracked then (sa.signal k).decay k.decay n else sa.signal k := by
  unfold decay
  cases k <;> cases c.pemt <;> rfl

@[simp] theorem decay_periodContrib (c : UpdateCall) (n : Nat) (sa : SchedAvg) :
    (c.decay n sa).periodContrib = sa.periodContrib := by
  unfold decay
  cases c.pemt <;> rfl

@[simp] theorem decay_lastUpdateTime (c : UpdateCall) (n : Nat) (sa : SchedAvg) :
    (c.decay n sa).lastUpdateTime = sa.lastUpdateTime := by
  unfold decay
  cases c.pemt <;> rfl

@[simp] theorem signal_averages (c : UpdateCall) (sa : SchedAvg) (k : Track) :
    (c.averages sa).signal k =
      if c.pemt || !k.tracked then (sa.signal k).average k.max else sa.signal k := by
  unfold averages
  cases k <;> cases c.pemt <;> rfl

@[simp] theorem averages_periodContrib (c : UpdateCall) (sa : SchedAvg) :
    (c.averages sa).periodContrib = sa.periodContrib := by
  unfold averages
  cases c.pemt <;> rfl

@[simp] theorem averages_lastUpdateTime (c : UpdateCall) (sa : SchedAvg) :
    (c.averages sa).lastUpdateTime = sa.lastUpdateTime := by
  unfold averages
  cases c.pemt <;> rfl

/-- The call is made with the flag set and with scales and a ratio within their
documented ranges. -/
structure InRange (c : UpdateCall) : Prop where
  pemt : c.pemt = true
  ratio : c.memoryCycleRatio ≤ 1024
  scaleFreq : c.scaleFreq ≤ 1024
  scaleCpu : c.scaleCpu ≤ 1024

/-- What an amount of running time adds to a signal, in exact arithmetic. -/
def charge (c : UpdateCall) (amount : Nat) (k : Track) : Nat :=
  if c.running then
    match k with
    | .util | .utilFast => amount * c.scaleFreq / 1024 * c.scaleCpu
    | .coreUtil | .coreUtilFast =>
      amount * c.scaleFreq / 1024 * c.scaleCpu * (1024 - c.memoryCycleRatio) / 1024
    | .memoryUtil | .memoryUtilFast => amount * c.scaleCpu * c.memoryCycleRatio / 1024
  else 0

theorem InRange.scaled_le {c : UpdateCall} (h : c.InRange) (amount : Nat) :
    amount * c.scaleFreq / 1024 ≤ amount :=
  Nat.div_le_of_le_mul (by rw [Nat.mul_comm 1024]; exact Nat.mul_le_mul_left amount h.scaleFreq)

theorem charge_le {c : UpdateCall} (h : c.InRange) (amount : Nat) (k : Track) :
    c.charge amount k ≤ (if c.running then amount else 0) * c.scaleCpu := by
  have hs := Nat.mul_le_mul_right c.scaleCpu (h.scaled_le amount)
  have hc := (FloorDecay.mul_div (Nat.sub_le 1024 c.memoryCycleRatio)).le_self
    (amount * c.scaleFreq / 1024 * c.scaleCpu)
  have hm := (FloorDecay.mul_div h.ratio).le_self (amount * c.scaleCpu)
  unfold charge
  cases c.running
  · simp
  · cases k <;> simp only [if_true] <;> first | exact hs | exact hc.trans hs | exact hm

/-- Within range a scaled amount fits its word at every accrual site. -/
theorem capScale_eq {c : UpdateCall} (h : c.InRange) {amount : Nat} (ha : amount ≤ 50000) :
    capScale amount c.scaleFreq = amount * c.scaleFreq / 1024 := by
  have hm : amount * c.scaleFreq ≤ 50000 * 1024 := Nat.mul_le_mul ha h.scaleFreq
  rw [capScale, schedCapacityShift, u64_of_lt (by omega), Nat.shiftRight_eq_div_pow]

theorem u32_capScale_eq {c : UpdateCall} (h : c.InRange) {amount : Nat} (ha : amount ≤ 50000) :
    u32 (capScale amount c.scaleFreq) = amount * c.scaleFreq / 1024 := by
  rw [capScale_eq h ha, u32_of_lt ((h.scaled_le amount).trans_lt (by omega))]

theorem gain_eq_charge {c : UpdateCall} (h : c.InRange) (hr : c.running = true) {amount : Nat}
    (ha : amount ≤ 50000) (k : Track) :
    c.gain amount (amount * c.scaleFreq / 1024) k = c.charge amount k := by
  have hs : amount * c.scaleFreq / 1024 * c.scaleCpu ≤ 50000 * 1024 :=
    Nat.mul_le_mul ((h.scaled_le amount).trans ha) h.scaleCpu
  have ha' : amount * c.scaleCpu ≤ 50000 * 1024 := Nat.mul_le_mul ha h.scaleCpu
  have hcore := Nat.mul_le_mul hs (Nat.sub_le 1024 c.memoryCycleRatio)
  have hmem := Nat.mul_le_mul ha' h.ratio
  unfold gain charge coreShare memoryShare
  rw [if_pos hr, sub32_of_le h.ratio (by norm_num), u64_of_lt (by omega), u64_of_lt (by omega),
    Nat.shiftRight_eq_div_pow, Nat.shiftRight_eq_div_pow]

theorem sum_accrue {c : UpdateCall} (h : c.InRange) {slow fast : Nat} (hslow : slow ≤ 50000)
    (hfast : fast ≤ 50000) (sa : SchedAvg) (k : Track)
    (hfit : (sa.signal k).sum + c.charge (k.pick slow fast) k < 2 ^ 32) :
    ((c.accrue slow (slow * c.scaleFreq / 1024) fast (fast * c.scaleFreq / 1024) sa).signal k).sum =
      (sa.signal k).sum + c.charge (k.pick slow fast) k := by
  rw [signal_accrue, h.pemt]
  cases hr : c.running
  · simp [charge, hr]
  · have hp : k.pick (slow * c.scaleFreq / 1024) (fast * c.scaleFreq / 1024) =
        k.pick slow fast * c.scaleFreq / 1024 := by unfold Track.pick; split <;> rfl
    have ha : k.pick slow fast ≤ 50000 := k.pick_cases (p := (· ≤ 50000)) hslow hfast
    simp only [Bool.true_or, Bool.and_true, if_true, Signal.add32, hp, gain_eq_charge h hr ha]
    exact u32_of_lt hfit

end UpdateCall

end MSchedutil
