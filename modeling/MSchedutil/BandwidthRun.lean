import MSchedutil.Bandwidth
import Mathlib.Algebra.BigOperators.Fin
import Mathlib.Algebra.Order.BigOperators.Group.Finset
import Mathlib.Tactic.Linarith

/-! The pool of a task group and its `cfs_rq`s on all CPUs. The timers give runtime to throttled
queues without holding the lock of the pool, so that others may take from it meanwhile. -/

namespace MSchedutil

open Word

/-- A call of `distribute_cfs_runtime`; `taken` and `refilled` only record what became of the
pool meanwhile: how much was taken from it, and what was left at the first refill. -/
structure Distribution where
  starting : Nat
  remaining : Nat
  expires : Nat
  taken : Nat
  refilled : Option Nat
  deriving DecidableEq, Repr

namespace Distribution

def start (b : CfsBandwidth) (expires : Nat) : Distribution := ⟨b.runtime, b.runtime, expires, 0, none⟩

/-- What the call returns. -/
def given (d : Distribution) : Nat := d.starting - d.remaining

/-- One turn of the loop, at a throttled queue. -/
def turn (d : Distribution) (rt : CfsRuntime) : Distribution × CfsRuntime :=
  let runtime := min (ofInt64 (-rt.runtimeRemaining + 1)) d.remaining
  ({ d with remaining := d.remaining - runtime },
    { rt with
      runtimeRemaining := rt.runtimeRemaining + runtime
      runtimeExpires := d.expires })

def watch (amount : Nat) (d : Distribution) : Distribution := { d with taken := d.taken + amount }

def noteRefill (left : Nat) (d : Distribution) : Distribution :=
  { d with refilled := some (d.refilled.getD left) }

end Distribution

namespace CfsBandwidth

/-- The end of a round: what was given is taken from the pool. -/
def deduct (amount : Nat) (b : CfsBandwidth) : CfsBandwidth :=
  { b with runtime := b.runtime - min amount b.runtime }

/-- The condition of the loop of `do_sched_cfs_period_timer`, and what follows the loop. -/
def round (expires : Nat) (b : CfsBandwidth) : CfsBandwidth × Option Distribution :=
  if b.throttledCfsRq ≠ [] ∧ b.runtime > 0 then (b, some (.start b expires))
  else ({ b with idle := false }, none)

/-- `do_sched_cfs_period_timer` up to its loop, and whether it has refilled the pool. -/
def periodTimer (now overrun : Nat) (b : CfsBandwidth) : CfsBandwidth × Option Distribution × Bool :=
  if b.quota = runtimeInf then ({ b with periodActive := false }, none, false)
  else
    let b := { b with nrPeriods := b.nrPeriods + overrun }
    if b.idle ∧ b.throttledCfsRq = [] then ({ b with periodActive := false }, none, false)
    else
      let b := b.refill now
      if b.throttledCfsRq = [] then ({ b with idle := true }, none, true)
      else
        let r := { b with nrThrottled := b.nrThrottled + overrun }.round b.runtimeExpires
        (r.1, r.2, true)

/-- `do_sched_cfs_slack_timer` up to the distribution. -/
def slackTimer (slice : Nat) (b : CfsBandwidth) : Option Distribution :=
  if b.quota ≠ runtimeInf ∧ b.runtime > slice then some (.start b b.runtimeExpires) else none

end CfsBandwidth

/-- The last three only record: refills so far, time charged, and what others took from the pool
while distributions that have ended were under way. -/
structure BandwidthRun (n : Nat) where
  pool : CfsBandwidth
  queues : Fin n → CfsRuntime
  period : Option Distribution
  slack : Option Distribution
  refills : Nat
  charged : Nat
  raced : Nat

/-- What happens to the pool, with its lock held or that of the `rq` of a CPU. -/
inductive BandwidthEvent (n : Nat)
  | charge (c : Fin n) (clock deltaExec : Nat)
  | giveBack (c : Fin n)
  | throttle (c : Fin n)
  | periodTimer (now overrun : Nat)
  | periodTurn (c : Fin n)
  | periodRound
  | slackTimer
  | slackTurn (c : Fin n)
  | slackEnd

namespace BandwidthRun

variable {n : Nat}

/-- The pool after a step that holds its lock. -/
def setPool (b : CfsBandwidth) (s : BandwidthRun n) : BandwidthRun n :=
  let amount := s.pool.runtime - b.runtime
  { s with
    pool := b
    period := s.period.map (Distribution.watch amount)
    slack := s.slack.map (Distribution.watch amount) }

def setQueue (c : Fin n) (rt : CfsRuntime) (s : BandwidthRun n) : BandwidthRun n :=
  { s with queues := Function.update s.queues c rt }

/-- Runtime for the queue of a CPU, which is unthrottled once it has any left. -/
def turn (c : Fin n) (d : Distribution) (s : BandwidthRun n) : Option (Distribution × BandwidthRun n) :=
  if c.val ∈ s.pool.throttledCfsRq ∧ d.remaining ≠ 0 then
    let r := d.turn (s.queues c)
    let s := s.setQueue c r.2
    some (r.1, if r.2.runtimeRemaining > 0
      then { s with pool := { s.pool with throttledCfsRq := s.pool.throttledCfsRq.erase c.val } }
      else s)
  else none

/-- A refill, when the pool has had one. -/
def refilled (left : Nat) (s : BandwidthRun n) : BandwidthRun n :=
  { s with slack := s.slack.map (Distribution.noteRefill left), refills := s.refills + 1 }

def next (slice tick : Nat) : BandwidthEvent n → BandwidthRun n → Option (BandwidthRun n)
  | .charge c clock deltaExec, s =>
    let r := chargeCfsRqRuntime slice tick clock deltaExec s.pool (s.queues c)
    some { (s.setPool r.1).setQueue c r.2 with charged := s.charged + deltaExec }
  | .giveBack c, s =>
    let r := giveBackCfsRqRuntime s.pool (s.queues c)
    some ((s.setPool r.1).setQueue c r.2)
  | .throttle c, s =>
    if c.val ∈ s.pool.throttledCfsRq then none
    else
      let b := if s.pool.throttledCfsRq = [] then s.pool.start else s.pool
      some (s.setPool { b with throttledCfsRq := c.val :: b.throttledCfsRq })
  | .periodTimer now overrun, s =>
    match s.period with
    | some _ => none
    | none =>
      let r := s.pool.periodTimer now overrun
      let s' := { s with pool := r.1, period := r.2.1 }
      some (if r.2.2 then s'.refilled s.pool.runtime else s')
  | .periodTurn c, s => s.period.bind fun d =>
    (s.turn c d).map fun r => { r.2 with period := some r.1 }
  | .periodRound, s => s.period.map fun d =>
    let s := { s with period := none, raced := s.raced + d.taken }.setPool (s.pool.deduct d.given)
    let r := s.pool.round d.expires
    { s with pool := r.1, period := r.2 }
  | .slackTimer, s =>
    match s.period, s.slack with
    | none, none => some { s with slack := s.pool.slackTimer slice }
    | _, _ => none
  | .slackTurn c, s => s.slack.bind fun d =>
    (s.turn c d).map fun r => { r.2 with slack := some r.1 }
  | .slackEnd, s => s.slack.map fun d =>
    let s := { s with slack := none, raced := s.raced + d.taken }
    if d.expires = s.pool.runtimeExpires then s.setPool (s.pool.deduct d.given) else s

/-- The quota has just been set, and the pool refilled. -/
def init (quota period now : Nat) : BandwidthRun n where
  pool := { CfsBandwidth.init with quota := quota, period := period }.refill now
  queues _ := ⟨true, 0, 0⟩
  period := none
  slack := none
  refills := 1
  charged := 0
  raced := 0

inductive Reaches (slice tick : Nat) (s : BandwidthRun n) : BandwidthRun n → Prop
  | refl : Reaches slice tick s s
  | step {s₁ s₂ : BandwidthRun n} {ev : BandwidthEvent n} (h : Reaches slice tick s s₁)
      (hn : s₁.next slice tick ev = some s₂) : Reaches slice tick s s₂

variable {s s' : BandwidthRun n} {slice tick : Nat}

/-- The pool holds what a round began with, but for what was taken meanwhile. -/
def Backed (runtime : Nat) (d : Distribution) : Prop :=
  d.remaining ≤ d.starting ∧ d.starting ≤ runtime + d.taken

/-- As long as it has not been refilled; else what was left then did. -/
def BackedSlack (b : CfsBandwidth) (d : Distribution) : Prop :=
  match d.refilled with
  | none => Backed b.runtime d ∧ d.expires = b.runtimeExpires
  | some left => Backed left d

def givenBy : Option Distribution → Nat
  | none => 0
  | some d => d.given

/-- What was left at a refill while the slack was distributed. -/
def leftAt : Option Distribution → Nat
  | none => 0
  | some d => d.refilled.getD 0

@[simp] theorem givenBy_none : givenBy none = 0 := rfl

@[simp] theorem givenBy_some (d : Distribution) : givenBy (some d) = d.given := rfl

@[simp] theorem leftAt_none : leftAt none = 0 := rfl

@[simp] theorem leftAt_some (d : Distribution) : leftAt (some d) = d.refilled.getD 0 := rfl

@[simp] theorem given_start (b : CfsBandwidth) (expires : Nat) :
    (Distribution.start b expires).given = 0 := Nat.sub_self _

/-- What the queues hold, less what they owe. -/
def held (s : BandwidthRun n) : Int := ∑ c, (s.queues c).runtimeRemaining

/-- Nothing is charged or kept that was not refilled, given ahead or raced for. -/
structure Accounted (quota : Nat) (s : BandwidthRun n) : Prop where
  same : s.pool.quota = quota
  total : s.charged + s.held + s.pool.runtime + leftAt s.slack ≤
    (quota * s.refills + givenBy s.period + givenBy s.slack + s.raced : Nat)
  period : ∀ d, s.period = some d → Backed s.pool.runtime d
  slack : ∀ d, s.slack = some d → BackedSlack s.pool d

theorem sum_setQueue (f : CfsRuntime → Int) (c : Fin n) (rt : CfsRuntime) (s : BandwidthRun n) :
    ∑ i, f ((s.setQueue c rt).queues i) = ∑ i, f (s.queues i) + (f rt - f (s.queues c)) := by
  have hsplit : ∀ queues : Fin n → CfsRuntime,
      ∑ i, f (queues i) = f (queues c) + ∑ i ∈ Finset.univ.erase c, f (queues i) :=
    fun queues => (Finset.add_sum_erase Finset.univ (fun i => f (queues i)) (Finset.mem_univ c)).symm
  have hself : (s.setQueue c rt).queues c = rt := by simp [setQueue]
  have hrest : ∑ i ∈ Finset.univ.erase c, f ((s.setQueue c rt).queues i) =
      ∑ i ∈ Finset.univ.erase c, f (s.queues i) := by
    refine Finset.sum_congr rfl fun i hi => ?_
    have hne : (s.setQueue c rt).queues i = s.queues i := by
      simp [setQueue, Finset.ne_of_mem_erase hi]
    rw [hne]
  rw [hsplit, hsplit s.queues, hrest, hself]
  omega

theorem held_setQueue (c : Fin n) (rt : CfsRuntime) (s : BandwidthRun n) :
    (s.setQueue c rt).held = s.held + (rt.runtimeRemaining - (s.queues c).runtimeRemaining) :=
  sum_setQueue (·.runtimeRemaining) c rt s

theorem Backed.watch {runtime runtime' : Nat} {d : Distribution} (h : Backed runtime d) :
    Backed runtime' (d.watch (runtime - runtime')) := by
  obtain ⟨hle, hback⟩ := h
  refine ⟨hle, ?_⟩
  simp only [Distribution.watch]
  omega

theorem BackedSlack.watch {b b' : CfsBandwidth} {d : Distribution} (h : BackedSlack b d)
    (hexpires : b'.runtimeExpires = b.runtimeExpires) :
    BackedSlack b' (d.watch (b.runtime - b'.runtime)) := by
  cases hr : d.refilled with
  | none =>
    simp only [BackedSlack, Distribution.watch, hr] at h ⊢
    exact ⟨h.1.watch, h.2.trans hexpires.symm⟩
  | some left =>
    simp only [BackedSlack, Distribution.watch, hr] at h ⊢
    obtain ⟨hle, hback⟩ := h
    exact ⟨hle, by simp only; omega⟩

theorem givenBy_watch (amount : Nat) (d : Option Distribution) :
    givenBy (d.map (Distribution.watch amount)) = givenBy d := by
  cases d <;> rfl

theorem leftAt_watch (amount : Nat) (d : Option Distribution) :
    leftAt (d.map (Distribution.watch amount)) = leftAt d := by
  cases d <;> rfl

/-- A step that holds the lock of the pool and may change the runtime of one queue. -/
theorem Accounted.setPool {quota : Nat} {b : CfsBandwidth} (h : s.Accounted quota)
    (hquota : b.quota = s.pool.quota) (hexpires : b.runtimeExpires = s.pool.runtimeExpires)
    (htotal : s'.charged + s'.held + b.runtime ≤ s.charged + s.held + s.pool.runtime)
    (hpool : s'.pool = b) (hrefills : s'.refills = s.refills) (hraced : s'.raced = s.raced)
    (hperiod : s'.period = (s.setPool b).period) (hslack : s'.slack = (s.setPool b).slack) :
    s'.Accounted quota where
  same := by rw [hpool, hquota, h.same]
  total := by
    have htot := h.total
    rw [hpool, hrefills, hraced, hperiod, hslack, BandwidthRun.setPool, givenBy_watch, givenBy_watch,
      leftAt_watch]
    omega
  period d hd := by
    rw [hperiod, BandwidthRun.setPool, Option.map_eq_some_iff] at hd
    obtain ⟨d, hd, rfl⟩ := hd
    rw [hpool]
    exact (h.period d hd).watch
  slack d hd := by
    rw [hslack, BandwidthRun.setPool, Option.map_eq_some_iff] at hd
    obtain ⟨d, hd, rfl⟩ := hd
    rw [hpool]
    exact (h.slack d hd).watch hexpires

/-- What a turn does: the queue gets what the distribution has left less, and the pool stays. -/
theorem turn_spec {c : Fin n} {d : Distribution} {r : Distribution × BandwidthRun n}
    (h : s.turn c d = some r) (hle : d.remaining ≤ d.starting) :
    ∃ x ≤ d.remaining, r.1 = { d with remaining := d.remaining - x } ∧
      ((r.1.given : Int) = d.given + x ∧ r.2.held = s.held + x) ∧
      r.2.pool.quota = s.pool.quota ∧ r.2.pool.runtime = s.pool.runtime ∧
      r.2.pool.runtimeExpires = s.pool.runtimeExpires ∧ r.2.charged = s.charged ∧
      r.2.refills = s.refills ∧ r.2.raced = s.raced ∧ r.2.period = s.period ∧ r.2.slack = s.slack := by
  simp only [turn] at h
  split at h
  · cases h
    set x := min (ofInt64 (-(s.queues c).runtimeRemaining + 1)) d.remaining
    have hx : x ≤ d.remaining := min_le_right _ _
    have hgiven : ((d.turn (s.queues c)).1.given : Int) = d.given + x := by
      simp only [Distribution.turn, Distribution.given]
      omega
    have hheld : (s.setQueue c (d.turn (s.queues c)).2).held = s.held + x := by
      rw [held_setQueue]
      simp only [Distribution.turn]
      omega
    refine ⟨x, hx, rfl, ⟨hgiven, ?_⟩, ?_⟩
    · split
      · exact hheld
      · exact hheld
    · split
      · exact ⟨rfl, rfl, rfl, rfl, rfl, rfl, rfl, rfl⟩
      · exact ⟨rfl, rfl, rfl, rfl, rfl, rfl, rfl, rfl⟩
  · cases h

theorem assignCfsRqRuntime_total {b : CfsBandwidth} {rt : CfsRuntime} (hquota : b.quota ≠ runtimeInf) :
    (assignCfsRqRuntime slice b rt).1.runtime + (assignCfsRqRuntime slice b rt).2.runtimeRemaining =
        b.runtime + rt.runtimeRemaining ∧
      (assignCfsRqRuntime slice b rt).1.runtimeExpires = b.runtimeExpires := by
  by_cases hpos : 0 < b.runtime
  · simp only [assignCfsRqRuntime, hquota, if_false, CfsBandwidth.start, gt_iff_lt, hpos, if_true]
    exact ⟨by omega, trivial⟩
  · simp only [assignCfsRqRuntime, hquota, if_false, CfsBandwidth.start, gt_iff_lt, hpos]
    exact ⟨by omega, trivial⟩

theorem expireCfsRqRuntime_le {clock : Nat} {b : CfsBandwidth} {rt : CfsRuntime} :
    (expireCfsRqRuntime tick clock b rt).runtimeRemaining ≤ rt.runtimeRemaining := by
  simp only [expireCfsRqRuntime]
  split
  · exact le_rfl
  · split
    · exact le_rfl
    · rename_i hneg
      split
      · exact le_rfl
      · exact not_lt.mp hneg

theorem chargeCfsRqRuntime_total {b : CfsBandwidth} (hquota : b.quota ≠ runtimeInf)
    (slice tick clock deltaExec : Nat) (rt : CfsRuntime) :
    deltaExec + (chargeCfsRqRuntime slice tick clock deltaExec b rt).1.runtime +
          (chargeCfsRqRuntime slice tick clock deltaExec b rt).2.runtimeRemaining ≤
        b.runtime + rt.runtimeRemaining ∧
      (chargeCfsRqRuntime slice tick clock deltaExec b rt).1.runtimeExpires = b.runtimeExpires := by
  simp only [chargeCfsRqRuntime]
  have hexpire : (expireCfsRqRuntime tick clock b
      { rt with runtimeRemaining := rt.runtimeRemaining - deltaExec }).runtimeRemaining ≤
      rt.runtimeRemaining - deltaExec := expireCfsRqRuntime_le
  generalize expireCfsRqRuntime tick clock b
    { rt with runtimeRemaining := rt.runtimeRemaining - deltaExec } = rt' at hexpire
  split
  · exact ⟨by simp only; omega, rfl⟩
  · have hassign : (assignCfsRqRuntime slice b rt').1.runtime +
        (assignCfsRqRuntime slice b rt').2.runtimeRemaining = b.runtime + rt'.runtimeRemaining :=
      (assignCfsRqRuntime_total hquota).1
    exact ⟨by omega, (assignCfsRqRuntime_total hquota).2⟩

theorem giveBackCfsRqRuntime_total (b : CfsBandwidth) (rt : CfsRuntime) :
    (giveBackCfsRqRuntime b rt).1.runtime + (giveBackCfsRqRuntime b rt).2.runtimeRemaining ≤
        b.runtime + rt.runtimeRemaining ∧
      (giveBackCfsRqRuntime b rt).1.runtimeExpires = b.runtimeExpires := by
  simp only [giveBackCfsRqRuntime]
  split
  · exact ⟨le_rfl, rfl⟩
  · split
    · refine ⟨?_, rfl⟩
      have hle := u64_le (b.runtime + (rt.runtimeRemaining - minCfsRqRuntime).toNat)
      simp only
      omega
    · refine ⟨?_, rfl⟩
      simp only
      omega

theorem round_spec (b : CfsBandwidth) (expires : Nat) :
    (b.round expires).1.quota = b.quota ∧ (b.round expires).1.runtime = b.runtime ∧
      (b.round expires).1.runtimeExpires = b.runtimeExpires ∧
      ∀ d, (b.round expires).2 = some d → d = .start b expires := by
  simp only [CfsBandwidth.round]
  split
  · refine ⟨rfl, rfl, rfl, ?_⟩
    rintro _ ⟨⟩
    rfl
  · refine ⟨rfl, rfl, rfl, ?_⟩
    rintro _ ⟨⟩

/-- The period timer either leaves the runtime of the pool alone or makes it the quota. -/
theorem periodTimer_spec {b : CfsBandwidth} (hquota : b.quota ≠ runtimeInf) (now overrun : Nat) :
    (b.periodTimer now overrun).1.quota = b.quota ∧
      (((b.periodTimer now overrun).2.2 = false ∧ (b.periodTimer now overrun).2.1 = none ∧
          (b.periodTimer now overrun).1.runtime = b.runtime ∧
          (b.periodTimer now overrun).1.runtimeExpires = b.runtimeExpires) ∨
        ((b.periodTimer now overrun).2.2 = true ∧ (b.periodTimer now overrun).1.runtime = b.quota ∧
          ∀ d, (b.periodTimer now overrun).2.1 = some d →
            d.remaining = d.starting ∧ d.starting = b.quota)) := by
  simp only [CfsBandwidth.periodTimer, if_neg hquota]
  split
  · exact ⟨rfl, .inl ⟨rfl, rfl, rfl, rfl⟩⟩
  · simp only [CfsBandwidth.refill, if_neg hquota]
    split
    · refine ⟨rfl, .inr ⟨rfl, rfl, ?_⟩⟩
      rintro _ ⟨⟩
    · obtain ⟨hsame, hruntime, -, hstart⟩ := round_spec
        { b with
          nrPeriods := b.nrPeriods + overrun
          runtime := b.quota
          runtimeExpires := u64 (now + b.period)
          nrThrottled := b.nrThrottled + overrun } (u64 (now + b.period))
      refine ⟨hsame, .inr ⟨rfl, hruntime, fun d hd => ?_⟩⟩
      rw [hstart d hd]
      exact ⟨rfl, rfl⟩

theorem accounted_init {quota period now : Nat} (hquota : quota ≠ runtimeInf) :
    (init quota period now : BandwidthRun n).Accounted quota where
  same := by simp [init, CfsBandwidth.refill, hquota]
  total := by simp [init, CfsBandwidth.refill, hquota, held, leftAt, givenBy]
  period := nofun
  slack := nofun

theorem accounted_charge {quota clock deltaExec : Nat} {c : Fin n} (h : s.Accounted quota)
    (hquota : quota ≠ runtimeInf) (hn : s.next slice tick (.charge c clock deltaExec) = some s') :
    s'.Accounted quota := by
  cases hn
  have hfinite : s.pool.quota ≠ runtimeInf := h.same ▸ hquota
  obtain ⟨htotal, hexpires⟩ :=
    chargeCfsRqRuntime_total hfinite slice tick clock deltaExec (s.queues c)
  obtain ⟨hsame, -⟩ := chargeCfsRqRuntime_same slice tick clock deltaExec s.pool (s.queues c)
  refine h.setPool hsame hexpires ?_ rfl rfl rfl rfl rfl
  have hheld := held_setQueue c (chargeCfsRqRuntime slice tick clock deltaExec s.pool (s.queues c)).2
    (s.setPool (chargeCfsRqRuntime slice tick clock deltaExec s.pool (s.queues c)).1)
  simp only [held, setQueue, BandwidthRun.setPool] at hheld ⊢
  omega

theorem accounted_giveBack {quota : Nat} {c : Fin n} (h : s.Accounted quota)
    (hn : s.next slice tick (.giveBack c) = some s') : s'.Accounted quota := by
  cases hn
  obtain ⟨htotal, hexpires⟩ := giveBackCfsRqRuntime_total s.pool (s.queues c)
  obtain ⟨hsame, -⟩ := giveBackCfsRqRuntime_same s.pool (s.queues c)
  refine h.setPool hsame hexpires ?_ rfl rfl rfl rfl rfl
  have hheld := held_setQueue c (giveBackCfsRqRuntime s.pool (s.queues c)).2
    (s.setPool (giveBackCfsRqRuntime s.pool (s.queues c)).1)
  simp only [held, setQueue, BandwidthRun.setPool] at hheld ⊢
  omega

theorem accounted_throttle {quota : Nat} {c : Fin n} (h : s.Accounted quota)
    (hn : s.next slice tick (.throttle c) = some s') : s'.Accounted quota := by
  simp only [next] at hn
  split at hn
  · cases hn
  · cases hn
    refine h.setPool ?_ ?_ ?_ rfl rfl rfl rfl rfl
    · simp only [CfsBandwidth.start]
      split <;> rfl
    · simp only [CfsBandwidth.start]
      split <;> rfl
    · simp only [CfsBandwidth.start, held, BandwidthRun.setPool]
      split <;> exact le_rfl

theorem BackedSlack.congr {b b' : CfsBandwidth} {d : Distribution} (h : BackedSlack b d)
    (hruntime : b'.runtime = b.runtime) (hexpires : b'.runtimeExpires = b.runtimeExpires) :
    BackedSlack b' d := by
  rw [BackedSlack] at h ⊢
  rwa [hruntime, hexpires]

theorem BackedSlack.le {b : CfsBandwidth} {d : Distribution} (h : BackedSlack b d) :
    d.remaining ≤ d.starting := by
  cases hr : d.refilled with
  | none =>
    simp only [BackedSlack, hr] at h
    exact h.1.1
  | some left =>
    simp only [BackedSlack, hr] at h
    exact h.1

/-- At a refill what is left in the pool is kept for the slack that is being distributed. -/
theorem BackedSlack.noteRefill {b b' : CfsBandwidth} {d : Distribution} (h : BackedSlack b d) :
    BackedSlack b' (d.noteRefill b.runtime) := by
  cases hr : d.refilled with
  | none =>
    simp only [BackedSlack, hr] at h
    simp only [BackedSlack, Distribution.noteRefill, hr, Option.getD_none]
    exact h.1
  | some left =>
    simp only [BackedSlack, hr] at h
    simp only [BackedSlack, Distribution.noteRefill, hr, Option.getD_some]
    exact h

theorem leftAt_noteRefill (left : Nat) (d : Option Distribution) :
    leftAt (d.map (Distribution.noteRefill left)) ≤ left + leftAt d := by
  cases d with
  | none => exact Nat.zero_le _
  | some d =>
    simp only [Option.map_some, leftAt, Distribution.noteRefill, Option.getD_some]
    cases d.refilled with
    | none => exact Nat.le_add_right _ _
    | some p => exact Nat.le_add_left _ _

theorem givenBy_noteRefill (left : Nat) (d : Option Distribution) :
    givenBy (d.map (Distribution.noteRefill left)) = givenBy d := by
  cases d <;> rfl

theorem accounted_periodTimer {quota now overrun : Nat} (h : s.Accounted quota)
    (hquota : quota ≠ runtimeInf) (hn : s.next slice tick (.periodTimer now overrun) = some s') :
    s'.Accounted quota := by
  have hfinite : s.pool.quota ≠ runtimeInf := h.same ▸ hquota
  obtain ⟨hsame, hspec⟩ := periodTimer_spec hfinite now overrun
  have htot := h.total
  simp only [next] at hn
  cases hperiod : s.period with
  | some d =>
    rw [hperiod] at hn
    cases hn
  | none =>
    rw [hperiod] at hn htot
    rcases hspec with ⟨hno, hnone, hruntime, hexpires⟩ | ⟨hyes, hruntime, hstart⟩
    · simp only [hno, hnone, Bool.false_eq_true, if_false] at hn
      cases hn
      refine ⟨hsame.trans h.same, ?_, nofun, fun d hd => (h.slack d hd).congr hruntime hexpires⟩
      simpa only [held, hruntime] using htot
    · simp only [hyes, if_true] at hn
      cases hn
      refine ⟨hsame.trans h.same, ?_, fun d hd => ?_, fun d hd => ?_⟩
      · have hgiven : givenBy (s.pool.periodTimer now overrun).2.1 = 0 := by
          cases hd : (s.pool.periodTimer now overrun).2.1 with
          | none => rfl
          | some d =>
            rw [givenBy, Distribution.given, (hstart d hd).1, Nat.sub_self]
        have hleft := leftAt_noteRefill s.pool.runtime s.slack
        simp only [refilled, givenBy_noteRefill, hgiven, hruntime, h.same, Nat.mul_add, Nat.mul_one]
        simp only [held, givenBy] at htot ⊢
        omega
      · have hpair := hstart d hd
        rw [Backed]
        simp only [refilled, hruntime]
        omega
      · simp only [refilled, Option.map_eq_some_iff] at hd
        obtain ⟨d, hd, rfl⟩ := hd
        exact (h.slack d hd).noteRefill

/-- A turn for either timer. -/
theorem accounted_turn {quota : Nat} {c : Fin n} {d : Distribution} {r : Distribution × BandwidthRun n}
    (h : s.Accounted quota) (hturn : s.turn c d = some r) :
    (s.period = some d → { r.2 with period := some r.1 }.Accounted quota) ∧
      (s.slack = some d → { r.2 with slack := some r.1 }.Accounted quota) := by
  have htot := h.total
  refine ⟨fun hd => ?_, fun hd => ?_⟩
  · obtain ⟨hle, hback⟩ := h.period d hd
    obtain ⟨x, hx, heq, ⟨hgiven, hheld⟩, hquota, hruntime, hexpires, hcharged, hrefills, hraced, -,
      hslack⟩ := turn_spec hturn hle
    refine ⟨hquota.trans h.same, ?_, ?_, fun d' hd' => ?_⟩
    · rw [hd] at htot
      simp only [held, givenBy, hcharged, hrefills, hraced, hruntime, hslack] at hheld htot ⊢
      push_cast at htot ⊢
      omega
    · rintro _ ⟨⟩
      rw [heq, Backed]
      simp only [hruntime]
      omega
    · rw [hslack] at hd'
      exact (h.slack d' hd').congr hruntime hexpires
  · have hback := h.slack d hd
    obtain ⟨x, hx, heq, ⟨hgiven, hheld⟩, hquota, hruntime, hexpires, hcharged, hrefills, hraced,
      hperiod, -⟩ := turn_spec hturn hback.le
    refine ⟨hquota.trans h.same, ?_, fun d' hd' => ?_, ?_⟩
    · have hleft : leftAt (some r.1) = leftAt (some d) := by rw [heq]; rfl
      rw [hd] at htot
      simp only [held, givenBy, hcharged, hrefills, hraced, hruntime, hperiod, hleft] at hheld htot ⊢
      push_cast at htot ⊢
      omega
    · rw [hperiod] at hd'
      rw [hruntime]
      exact h.period d' hd'
    · rintro _ ⟨⟩
      have hback' := hback.congr hruntime hexpires
      rw [heq]
      cases hr : d.refilled with
      | none =>
        simp only [BackedSlack, hr, Backed] at hback' ⊢
        omega
      | some left =>
        simp only [BackedSlack, hr, Backed] at hback' ⊢
        omega

/-- The end of a round: what the pool lacks of what was given has been taken by others. -/
theorem Backed.deduct {b : CfsBandwidth} {d : Distribution} (h : Backed b.runtime d) :
    (b.deduct d.given).runtime + d.given ≤ b.runtime + d.taken := by
  obtain ⟨hle, hback⟩ := h
  simp only [CfsBandwidth.deduct, Distribution.given]
  omega

theorem accounted_periodRound {quota : Nat} (h : s.Accounted quota)
    (hn : s.next slice tick .periodRound = some s') : s'.Accounted quota := by
  have htot := h.total
  simp only [next, Option.map_eq_some_iff] at hn
  obtain ⟨d, hd, rfl⟩ := hn
  have hdeduct := (h.period d hd).deduct
  obtain ⟨hsame, hruntime, hexpires, hstart⟩ := round_spec (s.pool.deduct d.given) d.expires
  refine ⟨hsame.trans h.same, ?_, fun d' hd' => ?_, fun d' hd' => ?_⟩
  · have hgiven : givenBy ((s.pool.deduct d.given).round d.expires).2 = 0 := by
      cases hr : ((s.pool.deduct d.given).round d.expires).2 with
      | none => rfl
      | some d' => rw [hstart d' hr, givenBy_some, given_start]
    rw [hd] at htot
    simp only [BandwidthRun.setPool, givenBy_watch, leftAt_watch, hgiven, hruntime]
    simp only [held, givenBy_some] at htot ⊢
    push_cast at htot ⊢
    omega
  · rw [hstart d' hd', Distribution.start]
    simp only [BandwidthRun.setPool]
    exact ⟨le_rfl, hruntime.ge⟩
  · simp only [BandwidthRun.setPool, Option.map_eq_some_iff] at hd'
    obtain ⟨d', hd', rfl⟩ := hd'
    have hwatched : BackedSlack (s.pool.deduct d.given)
        (d'.watch (s.pool.runtime - (s.pool.deduct d.given).runtime)) := (h.slack d' hd').watch rfl
    exact hwatched.congr hruntime hexpires

theorem accounted_slackTimer {quota : Nat} (h : s.Accounted quota)
    (hn : s.next slice tick .slackTimer = some s') : s'.Accounted quota := by
  have htot := h.total
  simp only [next] at hn
  split at hn
  · rename_i hperiod hslack
    cases hn
    rw [hslack] at htot
    refine ⟨h.same, ?_, h.period, fun d hd => ?_⟩
    · have hgiven : givenBy (s.pool.slackTimer slice) = 0 ∧ leftAt (s.pool.slackTimer slice) = 0 := by
        simp only [CfsBandwidth.slackTimer]
        split
        · exact ⟨given_start _ _, rfl⟩
        · exact ⟨rfl, rfl⟩
      simp only [held, hgiven, givenBy_none, leftAt_none] at htot ⊢
      exact htot
    · simp only [CfsBandwidth.slackTimer] at hd
      split at hd
      · cases hd
        exact ⟨⟨le_rfl, le_rfl⟩, rfl⟩
      · cases hd
  · cases hn

theorem accounted_slackEnd {quota : Nat} (h : s.Accounted quota)
    (hn : s.next slice tick .slackEnd = some s') : s'.Accounted quota := by
  have htot := h.total
  simp only [next, Option.map_eq_some_iff] at hn
  obtain ⟨d, hd, rfl⟩ := hn
  have hback := h.slack d hd
  rw [hd, givenBy_some, leftAt_some] at htot
  split
  · -- the deadline of the pool is still the one the slack began with
    refine ⟨h.same, ?_, fun d' hd' => ?_, nofun⟩
    · have hdeduct : (s.pool.deduct d.given).runtime + d.given ≤
          s.pool.runtime + d.refilled.getD 0 + d.taken := by
        cases hr : d.refilled with
        | none =>
          simp only [BackedSlack, hr] at hback
          exact hback.1.deduct
        | some left =>
          simp only [BackedSlack, hr, Backed] at hback
          simp only [CfsBandwidth.deduct, Distribution.given, Option.getD_some]
          omega
      simp only [BandwidthRun.setPool, givenBy_watch, Option.map_none, givenBy_none, leftAt_none]
      simp only [held] at htot ⊢
      push_cast at htot ⊢
      omega
    · simp only [BandwidthRun.setPool, Option.map_eq_some_iff] at hd'
      obtain ⟨d', hd', rfl⟩ := hd'
      exact (h.period d' hd').watch
  · rename_i hexpires
    refine ⟨h.same, ?_, h.period, nofun⟩
    cases hr : d.refilled with
    | none =>
      simp only [BackedSlack, hr] at hback
      exact absurd hback.2 hexpires
    | some left =>
      simp only [BackedSlack, hr, Backed] at hback
      simp only [hr, Option.getD_some, Distribution.given] at htot
      simp only [held, givenBy_none, leftAt_none] at htot ⊢
      push_cast at htot ⊢
      omega

theorem accounted_next {quota : Nat} {ev : BandwidthEvent n} (h : s.Accounted quota)
    (hquota : quota ≠ runtimeInf) (hn : s.next slice tick ev = some s') : s'.Accounted quota := by
  cases ev with
  | charge c clock deltaExec => exact accounted_charge h hquota hn
  | giveBack c => exact accounted_giveBack h hn
  | throttle c => exact accounted_throttle h hn
  | periodTimer now overrun => exact accounted_periodTimer h hquota hn
  | periodTurn c =>
    simp only [next, Option.bind_eq_some_iff, Option.map_eq_some_iff] at hn
    obtain ⟨d, hd, r, hr, rfl⟩ := hn
    exact (accounted_turn h hr).1 hd
  | periodRound => exact accounted_periodRound h hn
  | slackTimer => exact accounted_slackTimer h hn
  | slackTurn c =>
    simp only [next, Option.bind_eq_some_iff, Option.map_eq_some_iff] at hn
    obtain ⟨d, hd, r, hr, rfl⟩ := hn
    exact (accounted_turn h hr).2 hd
  | slackEnd => exact accounted_slackEnd h hn

theorem reaches_accounted {quota period now : Nat} (hquota : quota ≠ runtimeInf)
    (h : Reaches slice tick (init quota period now) s) : s.Accounted quota := by
  induction h with
  | refl => exact accounted_init hquota
  | step _ hn ih => exact accounted_next ih hquota hn

/-- In any interleaving of the CPUs and the timers the time charged exceeds the refilled quotas by
no more than what the queues owe, what the distributions under way have given, and what others
took from the pool during distributions. -/
theorem charged_le_quota {quota period now : Nat} (hquota : quota ≠ runtimeInf)
    (h : Reaches slice tick (init quota period now) s) :
    s.charged + ∑ c, (s.queues c).runtimeRemaining + s.pool.runtime ≤
      (quota * s.refills + givenBy s.period + givenBy s.slack + s.raced : Nat) := by
  have htot := (reaches_accounted hquota h).total
  rw [held] at htot
  omega

/-- What the queues owe, as a number that is not positive. -/
def owed (s : BandwidthRun n) : Int := ∑ c, min (s.queues c).runtimeRemaining 0

theorem owed_setQueue (c : Fin n) (rt : CfsRuntime) (s : BandwidthRun n) :
    (s.setQueue c rt).owed =
      s.owed + (min rt.runtimeRemaining 0 - min (s.queues c).runtimeRemaining 0) :=
  sum_setQueue (fun rt => min rt.runtimeRemaining 0) c rt s

theorem owed_of_queues (h : s'.queues = s.queues) : s'.owed = s.owed := by rw [owed, h, owed]

/-- A queue comes to owe no more than it is charged for. -/
theorem chargeCfsRqRuntime_owed (slice tick clock deltaExec : Nat) (b : CfsBandwidth)
    (rt : CfsRuntime) : min rt.runtimeRemaining 0 - deltaExec ≤
      min (chargeCfsRqRuntime slice tick clock deltaExec b rt).2.runtimeRemaining 0 := by
  have hexpire : min rt.runtimeRemaining 0 - deltaExec ≤ min (expireCfsRqRuntime tick clock b
      { rt with runtimeRemaining := rt.runtimeRemaining - deltaExec }).runtimeRemaining 0 := by
    simp only [expireCfsRqRuntime]
    split_ifs
    all_goals dsimp only at *
    all_goals omega
  simp only [chargeCfsRqRuntime]
  generalize expireCfsRqRuntime tick clock b
    { rt with runtimeRemaining := rt.runtimeRemaining - deltaExec } = rt' at hexpire
  split
  · exact hexpire
  · simp only [assignCfsRqRuntime]
    omega

theorem giveBackCfsRqRuntime_owed (b : CfsBandwidth) (rt : CfsRuntime) :
    min rt.runtimeRemaining 0 ≤ min (giveBackCfsRqRuntime b rt).2.runtimeRemaining 0 := by
  simp only [giveBackCfsRqRuntime]
  by_cases hslack : rt.runtimeRemaining - minCfsRqRuntime ≤ 0
  · rw [if_pos hslack]
  · rw [if_neg hslack]
    dsimp only
    omega

theorem turn_owed {c : Fin n} {d : Distribution} {r : Distribution × BandwidthRun n}
    (h : s.turn c d = some r) : r.2.charged = s.charged ∧ s.owed ≤ r.2.owed := by
  simp only [turn] at h
  split at h
  · cases h
    have howed : s.owed ≤ (s.setQueue c (d.turn (s.queues c)).2).owed := by
      rw [owed_setQueue]
      simp only [Distribution.turn]
      omega
    split
    · exact ⟨rfl, howed⟩
    · exact ⟨rfl, howed⟩
  · cases h

/-- No step makes the queues owe more than it charges them for. -/
theorem owed_next {ev : BandwidthEvent n} (h : -(s.charged : Int) ≤ s.owed)
    (hn : s.next slice tick ev = some s') : -(s'.charged : Int) ≤ s'.owed := by
  have hqueues : ∀ {a : BandwidthRun n}, a.charged = s.charged → a.queues = s.queues →
      -(a.charged : Int) ≤ a.owed := by
    intro a hcharged hqueues
    rwa [owed_of_queues hqueues, hcharged]
  cases ev with
  | charge c clock deltaExec =>
    cases hn
    have hcharge := chargeCfsRqRuntime_owed slice tick clock deltaExec s.pool (s.queues c)
    have howed := owed_setQueue c (chargeCfsRqRuntime slice tick clock deltaExec s.pool (s.queues c)).2
      (s.setPool (chargeCfsRqRuntime slice tick clock deltaExec s.pool (s.queues c)).1)
    simp only [owed, setQueue, BandwidthRun.setPool] at h howed ⊢
    push_cast
    omega
  | giveBack c =>
    cases hn
    have hgive := giveBackCfsRqRuntime_owed s.pool (s.queues c)
    have howed := owed_setQueue c (giveBackCfsRqRuntime s.pool (s.queues c)).2
      (s.setPool (giveBackCfsRqRuntime s.pool (s.queues c)).1)
    simp only [owed, setQueue, BandwidthRun.setPool] at h howed ⊢
    omega
  | throttle c =>
    simp only [next] at hn
    split at hn
    · cases hn
    · cases hn
      exact hqueues rfl rfl
  | periodTimer now overrun =>
    simp only [next] at hn
    split at hn
    · cases hn
    · cases hn
      split
      · exact hqueues rfl rfl
      · exact hqueues rfl rfl
  | periodTurn c =>
    simp only [next, Option.bind_eq_some_iff, Option.map_eq_some_iff] at hn
    obtain ⟨d, -, r, hr, rfl⟩ := hn
    obtain ⟨hcharged, howed⟩ := turn_owed hr
    simp only [owed, hcharged] at h howed ⊢
    omega
  | periodRound =>
    simp only [next, Option.map_eq_some_iff] at hn
    obtain ⟨d, -, rfl⟩ := hn
    exact hqueues rfl rfl
  | slackTimer =>
    simp only [next] at hn
    split at hn
    · cases hn
      exact hqueues rfl rfl
    · cases hn
  | slackTurn c =>
    simp only [next, Option.bind_eq_some_iff, Option.map_eq_some_iff] at hn
    obtain ⟨d, -, r, hr, rfl⟩ := hn
    obtain ⟨hcharged, howed⟩ := turn_owed hr
    simp only [owed, hcharged] at h howed ⊢
    omega
  | slackEnd =>
    simp only [next, Option.map_eq_some_iff] at hn
    obtain ⟨d, -, rfl⟩ := hn
    split
    · exact hqueues rfl rfl
    · exact hqueues rfl rfl

theorem reaches_owed {quota period now : Nat}
    (h : Reaches slice tick (init quota period now) s) : -(s.charged : Int) ≤ s.owed := by
  induction h with
  | refl => simp [init, owed]
  | step _ hn ih => exact owed_next ih hn

/-- No queue owes more than has been charged, and none has more than was refilled, given ahead or
raced for. -/
theorem runtimeRemaining_bounds {quota period now : Nat} (hquota : quota ≠ runtimeInf)
    (h : Reaches slice tick (init quota period now) s) (c : Fin n) :
    -(s.charged : Int) ≤ (s.queues c).runtimeRemaining ∧ (s.queues c).runtimeRemaining ≤
      (quota * s.refills + givenBy s.period + givenBy s.slack + s.raced : Nat) := by
  have howed := reaches_owed h
  have htot := (reaches_accounted hquota h).total
  have hsum := Finset.add_sum_erase Finset.univ (fun c => (s.queues c).runtimeRemaining)
    (Finset.mem_univ c)
  have hsum' := Finset.add_sum_erase Finset.univ (fun c => min (s.queues c).runtimeRemaining 0)
    (Finset.mem_univ c)
  have hothers : ∑ i ∈ Finset.univ.erase c, min (s.queues i).runtimeRemaining 0 ≤
      ∑ i ∈ Finset.univ.erase c, (s.queues i).runtimeRemaining :=
    Finset.sum_le_sum fun i _ => min_le_left _ _
  have hneg : ∑ i ∈ Finset.univ.erase c, min (s.queues i).runtimeRemaining 0 ≤ 0 :=
    Finset.sum_nonpos fun i _ => min_le_right _ _
  rw [owed] at howed
  rw [held] at htot
  constructor
  · omega
  · omega

/-- An `s64` holds every `runtime_remaining` until `2 ^ 63` ns have been charged or handed out. -/
theorem runtimeRemaining_fits {quota period now : Nat} (hquota : quota ≠ runtimeInf)
    (h : Reaches slice tick (init quota period now) s) (hcharged : s.charged ≤ 2 ^ 63)
    (hout : quota * s.refills + givenBy s.period + givenBy s.slack + s.raced < 2 ^ 63) (c : Fin n) :
    -(2 ^ 63) ≤ (s.queues c).runtimeRemaining ∧ (s.queues c).runtimeRemaining < 2 ^ 63 := by
  obtain ⟨hlow, hhigh⟩ := runtimeRemaining_bounds hquota h c
  constructor
  · omega
  · omega

/-- Of a quota of 20 ms CPU 0 uses all in the first period, and CPU 1 another 10 ms that it owes.
In the second period CPU 1 gets these from the timer, and takes the whole pool before CPU 0 gets
its share and the round ends. -/
def overuse : List (BandwidthEvent 2) :=
  [.charge 0 0 20000000, .throttle 0, .charge 1 0 10000000, .throttle 1, .periodTimer 100000000 1,
    .periodTurn 1, .charge 1 100000000 20000000, .periodTurn 0, .periodRound]

/-- The state after some events, each of which happens. -/
def after (slice tick : Nat) (evs : List (BandwidthEvent n)) (s : BandwidthRun n) :
    Option (BandwidthRun n) :=
  evs.foldlM (fun s ev => s.next slice tick ev) s

theorem reaches_after {evs : List (BandwidthEvent n)} {a : BandwidthRun n}
    (ha : Reaches slice tick a s) (h : s.after slice tick evs = some s') : Reaches slice tick a s' := by
  induction evs generalizing s with
  | nil => exact Option.some.inj h ▸ ha
  | cons ev evs ih =>
    rw [after, List.foldlM_cons, Option.bind_eq_bind, Option.bind_eq_some_iff] at h
    obtain ⟨s₁, hn, hrest⟩ := h
    exact ih (ha.step hn) hrest

theorem charged_le_quota_overdrawn : ∃ s : BandwidthRun 2,
    (init 20000000 100000000 0).after 5000000 10000000 overuse = some s ∧
      s.charged = 50000000 ∧ s.refills = 2 ∧ s.raced = 20000000 ∧
      s.charged + ∑ c, (s.queues c).runtimeRemaining + s.pool.runtime ≤
        (20000000 * s.refills + givenBy s.period + givenBy s.slack + s.raced : Nat) := by
  have hreach : ∀ s : BandwidthRun 2,
      (init 20000000 100000000 0).after 5000000 10000000 overuse = some s →
      Reaches 5000000 10000000 (init 20000000 100000000 0) s := fun _ => reaches_after .refl
  exact ⟨_, rfl, rfl, rfl, rfl, charged_le_quota (by decide) (hreach _ rfl)⟩

end BandwidthRun

end MSchedutil
