import MSchedutil.Word

/-! Per-entity load tracking: `struct sched_avg`, the decay tables and the
arithmetic of `__update_load_avg`. Which memory cycle ratio a call charges is
decided by its callers; here it is an argument. -/

namespace MSchedutil

open Word

/-- One tracked signal: the decaying sum and the average last taken from it. -/
structure Signal where
  sum : Nat
  avg : Nat
  deriving DecidableEq, Repr

structure SchedAvg where
  lastUpdateTime : Nat
  periodContrib : Nat
  load : Signal
  util : Signal
  utilFast : Signal
  memoryCycleRatio : Nat
  coreUtil : Signal
  memoryUtil : Signal
  coreUtilFast : Signal
  memoryUtilFast : Signal
  deriving DecidableEq, Repr

/-- A `sched_avg` with nothing accrued. -/
def idleAvg : SchedAvg := ⟨0, 0, ⟨0, 0⟩, ⟨0, 0⟩, ⟨0, 0⟩, 0, ⟨0, 0⟩, ⟨0, 0⟩, ⟨0, 0⟩, ⟨0, 0⟩⟩

def loadAvgPeriod : Nat := 32
def loadAvgMax : Nat := 47742
def loadAvgMaxN : Nat := 345

def loadAvgFastPeriod : Nat := 3
def loadAvgFastMax : Nat := 4959
def loadAvgFastMaxN : Nat := 31

def schedCapacityShift : Nat := 10
def schedCapacityScale : Nat := 1024

def runnableAvgYNInv : List Nat := [
  0xffffffff, 0xfa83b2da, 0xf5257d14, 0xefe4b99a, 0xeac0c6e6, 0xe5b906e6,
  0xe0ccdeeb, 0xdbfbb796, 0xd744fcc9, 0xd2a81d91, 0xce248c14, 0xc9b9bd85,
  0xc5672a10, 0xc12c4cc9, 0xbd08a39e, 0xb8fbaf46, 0xb504f333, 0xb123f581,
  0xad583ee9, 0xa9a15ab4, 0xa5fed6a9, 0xa2704302, 0x9ef5325f, 0x9b8d39b9,
  0x9837f050, 0x94f4efa8, 0x91c3d373, 0x8ea4398a, 0x8b95c1e3, 0x88980e80,
  0x85aac367, 0x82cd8698]

def runnableAvgYNSum : List Nat := [
  0, 1002, 1982, 2941, 3880, 4798, 5697, 6576, 7437, 8279, 9103,
  9909, 10698, 11470, 12226, 12966, 13690, 14398, 15091, 15769, 16433, 17082,
  17718, 18340, 18949, 19545, 20128, 20698, 21256, 21802, 22336, 22859, 23371]

def runnableAvgFastYNInv : List Nat := [0xffffffff, 0xcb2ff529, 0xa14517cb, 0x7fffffff]

def runnableAvgFastYNSum : List Nat := [0, 812, 1457, 1969]

def accumulatedSumN32 : List Nat := [
  0, 23371, 35056, 40899, 43820, 45281, 46011, 46376, 46559, 46650, 46696, 46719]

/-- `mul_u64_u32_shr`: the exact product, shifted right. -/
def mulU64U32Shr (a mul shift : Nat) : Nat := (a * mul) >>> shift

/-- The common body of `decay_load` and `decay_fast_load`: whole half-lives by
shifting, the rest by the inverse table. -/
def decayBy (period : Nat) (inv : List Nat) (val n : Nat) : Nat :=
  if n = 0 then val
  else if n > period * 63 then 0
  else
    let (val, n) := if n ≥ period then (val >>> (n / period), n % period) else (val, n)
    mulU64U32Shr val (inv.getD n 0) 32

def decayLoad (val n : Nat) : Nat := decayBy loadAvgPeriod runnableAvgYNInv val n

def decayFastLoad (val n : Nat) : Nat := decayBy loadAvgFastPeriod runnableAvgFastYNInv val n

def computeRunnableContrib (n : Nat) : Nat :=
  if n ≤ loadAvgPeriod then runnableAvgYNSum.getD n 0
  else if n ≥ loadAvgMaxN then loadAvgMax
  else
    let contrib := accumulatedSumN32.getD (n / loadAvgPeriod) 0
    let n := n % loadAvgPeriod
    decayLoad contrib n + runnableAvgYNSum.getD n 0

/-- The `do … while (n > LOAD_AVG_FAST_PERIOD)` loop. Every turn lowers `n`, so
`n` itself is fuel enough. -/
def fastContribLoop : Nat → Nat → Nat → Nat × Nat
  | 0, contrib, n => (contrib, n)
  | fuel + 1, contrib, n =>
    let contrib := contrib / 2 + runnableAvgFastYNSum.getD loadAvgFastPeriod 0
    let n := n - loadAvgFastPeriod
    if n > loadAvgFastPeriod then fastContribLoop fuel contrib n else (contrib, n)

def computeRunnableContribFast (n : Nat) : Nat :=
  if n ≤ loadAvgFastPeriod then runnableAvgFastYNSum.getD n 0
  else if n ≥ loadAvgFastMaxN then loadAvgFastMax
  else
    let (contrib, n) := fastContribLoop n 0 n
    decayFastLoad contrib n + runnableAvgFastYNSum.getD n 0

def capScale (v s : Nat) : Nat := u64 (v * s) >>> schedCapacityShift

/-- The macro `scale_load_down` of a 64-bit kernel. -/
def scaleLoadDown (w : Nat) : Nat := w >>> 10

/-- `init_entity_runnable_average`: a task starts with full load, a group entity
keeps the load it has; `initialTaskUtil` is what `sched_freq()` selects. -/
def initEntityRunnableAverage (sa : SchedAvg) (isTask : Bool) (weight : Nat)
    (initialTaskUtil : Option Nat) : SchedAvg :=
  let loadAvg := if isTask then scaleLoadDown weight else sa.load.avg
  { lastUpdateTime := 0
    periodContrib := 1023
    load := ⟨u64 (loadAvg * loadAvgMax), loadAvg⟩
    util := ⟨0, initialTaskUtil.getD 0⟩
    utilFast := ⟨0, 0⟩
    memoryCycleRatio := 0
    coreUtil := ⟨0, 0⟩
    memoryUtil := ⟨0, 0⟩
    coreUtilFast := ⟨0, 0⟩
    memoryUtilFast := ⟨0, 0⟩ }

namespace Signal

def add32 (s : Signal) (x : Nat) : Signal := { s with sum := u32 (s.sum + x) }

def add64 (s : Signal) (x : Nat) : Signal := { s with sum := u64 (s.sum + x) }

def decay (f : Nat → Nat → Nat) (n : Nat) (s : Signal) : Signal := { s with sum := f s.sum n }

def average (max : Nat) (s : Signal) : Signal := { s with avg := s.sum / max }

end Signal

/-- What a call of `__update_load_avg` reads besides the `sched_avg`: its
arguments, the flag `pkshin_pemt_enabled`, the memory cycle ratio it charges
and the two capacity scales. -/
structure UpdateCall where
  now : Nat
  weight : Nat
  running : Bool
  pemt : Bool
  memoryCycleRatio : Nat
  scaleFreq : Nat
  scaleCpu : Nat
  deriving DecidableEq, Repr

/-- What the head of `__update_load_avg` makes of the time since the last
update: the clock went back, less than one 1024 ns unit passed, or a number of
whole units. -/
inductive Elapsed
  | backwards
  | tooShort
  | units (delta : Nat)
  deriving DecidableEq, Repr

def elapsed (now lastUpdateTime : Nat) : Elapsed :=
  let delta := sub64 now lastUpdateTime
  if s64 delta < 0 then .backwards
  else if delta >>> 10 = 0 then .tooShort
  else .units (delta >>> 10)

namespace UpdateCall

/-- The core share of an amount already scaled by frequency. -/
def coreShare (c : UpdateCall) (scaled : Nat) : Nat :=
  u64 (scaled * c.scaleCpu * sub32 1024 c.memoryCycleRatio) >>> 10

/-- The memory share of an amount; memory stalls do not scale with frequency. -/
def memoryShare (c : UpdateCall) (amount : Nat) : Nat :=
  u64 (amount * c.scaleCpu * c.memoryCycleRatio) >>> 10

/-- Accrual at one of the three sites of `__update_load_avg`: an amount of time
for the slow and one for the fast signals, each also scaled by frequency. -/
def accrue (c : UpdateCall) (slow scaledSlow fast scaledFast : Nat) (sa : SchedAvg) : SchedAvg :=
  let sa := if c.weight ≠ 0 then { sa with load := sa.load.add64 (c.weight * scaledSlow) } else sa
  if c.running then
    let sa := { sa with
      util := sa.util.add32 (scaledSlow * c.scaleCpu)
      utilFast := sa.utilFast.add32 (scaledFast * c.scaleCpu) }
    if c.pemt then
      { sa with
        coreUtil := sa.coreUtil.add32 (c.coreShare scaledSlow)
        memoryUtil := sa.memoryUtil.add32 (c.memoryShare slow)
        coreUtilFast := sa.coreUtilFast.add32 (c.coreShare scaledFast)
        memoryUtilFast := sa.memoryUtilFast.add32 (c.memoryShare fast) }
    else sa
  else sa

/-- The part of the elapsed time that completes the current period. -/
def completePeriod (c : UpdateCall) (deltaW : Nat) (sa : SchedAvg) : SchedAvg :=
  let scaledDeltaW := u32 (capScale deltaW c.scaleFreq)
  c.accrue deltaW scaledDeltaW deltaW scaledDeltaW sa

def decay (c : UpdateCall) (n : Nat) (sa : SchedAvg) : SchedAvg :=
  let sa := { sa with
    load := sa.load.decay decayLoad n
    util := sa.util.decay decayLoad n
    utilFast := sa.utilFast.decay decayFastLoad n }
  if c.pemt then
    { sa with
      coreUtil := sa.coreUtil.decay decayLoad n
      memoryUtil := sa.memoryUtil.decay decayLoad n
      coreUtilFast := sa.coreUtilFast.decay decayFastLoad n
      memoryUtilFast := sa.memoryUtilFast.decay decayFastLoad n }
  else sa

/-- The contribution of the whole periods that passed. -/
def wholePeriods (c : UpdateCall) (periods : Nat) (sa : SchedAvg) : SchedAvg :=
  let contrib := computeRunnableContrib periods
  let contribFast := computeRunnableContribFast periods
  c.accrue contrib (u32 (capScale contrib c.scaleFreq))
    contribFast (u32 (capScale contribFast c.scaleFreq)) sa

/-- The remainder, accrued against the new current period. -/
def remainder (c : UpdateCall) (delta : Nat) (sa : SchedAvg) : SchedAvg :=
  let scaledDelta := capScale delta c.scaleFreq
  let sa := c.accrue delta scaledDelta delta scaledDelta sa
  { sa with periodContrib := u32 (sa.periodContrib + delta) }

def averages (c : UpdateCall) (sa : SchedAvg) : SchedAvg :=
  let sa := { sa with
    load := sa.load.average loadAvgMax
    util := sa.util.average loadAvgMax
    utilFast := sa.utilFast.average loadAvgFastMax }
  if c.pemt then
    { sa with
      coreUtil := sa.coreUtil.average loadAvgMax
      memoryUtil := sa.memoryUtil.average loadAvgMax
      coreUtilFast := sa.coreUtilFast.average loadAvgFastMax
      memoryUtilFast := sa.memoryUtilFast.average loadAvgFastMax }
  else sa

/-- The branch `delta + delta_w >= 1024`: at least one period boundary is crossed. -/
def crossPeriod (c : UpdateCall) (delta : Nat) (sa : SchedAvg) : SchedAvg :=
  let deltaW := sub32 1024 sa.periodContrib
  let sa := c.completePeriod deltaW { sa with periodContrib := 0 }
  let delta := sub64 delta deltaW
  let periods := delta / 1024
  let sa := c.decay (periods + 1) sa
  let sa := c.wholePeriods periods sa
  c.averages (c.remainder (delta % 1024) sa)

/-- `__update_load_avg` past its early returns, and whether it decayed. -/
def accrueDelta (c : UpdateCall) (delta : Nat) (sa : SchedAvg) : SchedAvg × Bool :=
  let sa := { sa with lastUpdateTime := c.now }
  if delta + sa.periodContrib ≥ 1024 then (c.crossPeriod delta sa, true)
  else (c.remainder delta sa, false)

def updateLoadAvg (c : UpdateCall) (sa : SchedAvg) : SchedAvg × Bool :=
  match elapsed c.now sa.lastUpdateTime with
  | .backwards => ({ sa with lastUpdateTime := c.now }, false)
  | .tooShort => (sa, false)
  | .units delta => c.accrueDelta delta sa

end UpdateCall

end MSchedutil
