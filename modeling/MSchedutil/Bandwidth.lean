import MSchedutil.Word

/-! CFS bandwidth control: the pool of a task group, the runtime that one `cfs_rq` has
drawn from it, and the functions by which they are drawn, charged, expired and given back. -/

namespace MSchedutil

open Word

/-- `RUNTIME_INF` -/
def runtimeInf : Nat := 2 ^ 64 - 1

/-- `min_cfs_rq_runtime` -/
def minCfsRqRuntime : Nat := 1000000

/-- The pool; of the throttled `cfs_rq`s it lists the CPUs, the latest first. -/
structure CfsBandwidth where
  period : Nat
  quota : Nat
  runtime : Nat
  runtimeExpires : Nat
  idle : Bool
  periodActive : Bool
  throttledCfsRq : List Nat
  nrPeriods : Nat
  nrThrottled : Nat
  throttledTime : Nat
  deriving DecidableEq, Repr

/-- The bandwidth fields of a `cfs_rq`. -/
structure CfsRuntime where
  runtimeEnabled : Bool
  runtimeExpires : Nat
  runtimeRemaining : Int
  deriving DecidableEq, Repr

namespace CfsBandwidth

/-- `init_cfs_bandwidth` -/
def init : CfsBandwidth := ⟨100000000, runtimeInf, 0, 0, false, false, [], 0, 0, 0⟩

/-- `__refill_cfs_bandwidth_runtime`; `now` is what `sched_clock_cpu` reads. -/
def refill (now : Nat) (b : CfsBandwidth) : CfsBandwidth :=
  if b.quota = runtimeInf then b
  else { b with runtime := b.quota, runtimeExpires := u64 (now + b.period) }

/-- `start_cfs_bandwidth`, less the arming of the timer. -/
def start (b : CfsBandwidth) : CfsBandwidth := { b with periodActive := true }

end CfsBandwidth

/-- `assign_cfs_rq_runtime`; whether it succeeded is the sign of the runtime it leaves. -/
def assignCfsRqRuntime (slice : Nat) (b : CfsBandwidth) (rt : CfsRuntime) :
    CfsBandwidth × CfsRuntime :=
  let minAmount := ofInt64 (slice - rt.runtimeRemaining)
  let taken : Nat × CfsBandwidth :=
    if b.quota = runtimeInf then (minAmount, b)
    else
      let b := b.start
      if b.runtime > 0 then
        let amount := min b.runtime minAmount
        (amount, { b with runtime := b.runtime - amount, idle := false })
      else (0, b)
  (taken.2,
    { rt with
      runtimeRemaining := rt.runtimeRemaining + taken.1
      runtimeExpires :=
        if s64 (sub64 taken.2.runtimeExpires rt.runtimeExpires) > 0 then taken.2.runtimeExpires
        else rt.runtimeExpires })

/-- `expire_cfs_rq_runtime` at `rq_clock`. -/
def expireCfsRqRuntime (tick clock : Nat) (b : CfsBandwidth) (rt : CfsRuntime) : CfsRuntime :=
  if s64 (sub64 clock rt.runtimeExpires) < 0 then rt
  else if rt.runtimeRemaining < 0 then rt
  else if rt.runtimeExpires ≠ b.runtimeExpires then
    { rt with runtimeExpires := u64 (rt.runtimeExpires + tick) }
  else { rt with runtimeRemaining := 0 }

/-- `__account_cfs_rq_runtime`, less the call of `resched_curr`. -/
def chargeCfsRqRuntime (slice tick clock deltaExec : Nat) (b : CfsBandwidth) (rt : CfsRuntime) :
    CfsBandwidth × CfsRuntime :=
  let rt := { rt with runtimeRemaining := rt.runtimeRemaining - deltaExec }
  let rt := expireCfsRqRuntime tick clock b rt
  if rt.runtimeRemaining > 0 then (b, rt) else assignCfsRqRuntime slice b rt

/-- `__return_cfs_rq_runtime`, less the arming of the slack timer. -/
def giveBackCfsRqRuntime (b : CfsBandwidth) (rt : CfsRuntime) : CfsBandwidth × CfsRuntime :=
  let slackRuntime := rt.runtimeRemaining - minCfsRqRuntime
  if slackRuntime ≤ 0 then (b, rt)
  else
    (if b.quota ≠ runtimeInf ∧ rt.runtimeExpires = b.runtimeExpires then
        { b with runtime := u64 (b.runtime + slackRuntime.toNat) }
      else b,
      { rt with runtimeRemaining := rt.runtimeRemaining - slackRuntime })

theorem assignCfsRqRuntime_quota (slice : Nat) (b : CfsBandwidth) (rt : CfsRuntime) :
    (assignCfsRqRuntime slice b rt).1.quota = b.quota := by
  simp only [assignCfsRqRuntime]
  split
  · rfl
  · split <;> rfl

theorem expireCfsRqRuntime_runtimeEnabled (tick clock : Nat) (b : CfsBandwidth) (rt : CfsRuntime) :
    (expireCfsRqRuntime tick clock b rt).runtimeEnabled = rt.runtimeEnabled := by
  simp only [expireCfsRqRuntime]
  split_ifs <;> rfl

/-- Accounting changes neither the quota of the pool nor whether a queue is limited by it. -/
theorem chargeCfsRqRuntime_same (slice tick clock deltaExec : Nat) (b : CfsBandwidth)
    (rt : CfsRuntime) :
    (chargeCfsRqRuntime slice tick clock deltaExec b rt).1.quota = b.quota ∧
      (chargeCfsRqRuntime slice tick clock deltaExec b rt).2.runtimeEnabled = rt.runtimeEnabled := by
  have hexpire := expireCfsRqRuntime_runtimeEnabled tick clock b
    { rt with runtimeRemaining := rt.runtimeRemaining - deltaExec }
  simp only [chargeCfsRqRuntime]
  split
  · exact ⟨rfl, hexpire⟩
  · exact ⟨assignCfsRqRuntime_quota _ _ _, hexpire⟩

theorem giveBackCfsRqRuntime_same (b : CfsBandwidth) (rt : CfsRuntime) :
    (giveBackCfsRqRuntime b rt).1.quota = b.quota ∧
      (giveBackCfsRqRuntime b rt).2.runtimeEnabled = rt.runtimeEnabled := by
  simp only [giveBackCfsRqRuntime]
  split_ifs <;> exact ⟨rfl, rfl⟩

end MSchedutil
