import MSchedutil.TouchesOnly

/-! The tick of the fair class: `entity_tick` on every level from the running task to the
root, with the calls of `pkshin_pmu_get` counted. -/

namespace MSchedutil

open Word

def minShares : Nat := 2

namespace Heap

/-- The `while` loop of `__update_load_avg` below a group entity, for that many turns. -/
def leafSearch (h : Heap) : Nat → Nat → Option Nat
  | 0, _ => none
  | turns + 1, i =>
    match (h.ses i).myQ with
    | none => some (h.ses i).avg.memoryCycleRatio
    | some g =>
      match (h.cfs g).curr with
      | none => some (h.cfs g).avg.memoryCycleRatio
      | some j => h.leafSearch turns j

/-- `calc_cfs_shares`; both comparisons are made with unsigned words. -/
def calcCfsShares (g : Nat) (h : Heap) : Nat :=
  let gcfs := h.cfs g
  let tg := h.tgs gcfs.tg
  let load := scaleLoadDown gcfs.weight
  let tgWeight := s64 (sub64 tg.loadAvg gcfs.tgLoadAvgContrib + load)
  let shares := s64 (u64 (tg.shares * load))
  let shares := ofInt64 (if tgWeight ≠ 0 then Int.tdiv shares tgWeight else shares)
  let shares := if shares < minShares then minShares else shares
  if shares > tg.shares then tg.shares else shares

/-- `reweight_entity`: a queued entity is taken off the weight of its runqueue and put back. -/
def reweightEntity (i weight : Nat) (h : Heap) : Heap :=
  let se := h.ses i
  let cfs := h.cfs se.cfsRq
  let h := h.setSe i { se with weight := weight }
  if se.onRq then h.setCfs se.cfsRq { cfs with weight := u64 (sub64 cfs.weight se.weight + weight) }
  else h

/-- `update_cfs_shares` of an entity whose group is not throttled. -/
def updateCfsShares (i : Nat) (h : Heap) : Heap :=
  match (h.ses i).myQ with
  | none => h
  | some g => h.reweightEntity i (h.calcCfsShares g)

/-- Whether the update of an entity goes as far as to ask for its memory cycle ratio. -/
def asksRatio (w : World) (now : Nat) (i : Nat) (h : Heap) : Bool :=
  let se := h.ses i
  match elapsed now se.avg.lastUpdateTime with
  | .units _ => se.avg.lastUpdateTime != 0 && w.pemt && decide ((h.cfs se.cfsRq).curr = some i)
  | _ => false

end Heap

/-- The heap, and how often `pkshin_pmu_get` has been called. -/
structure TickState where
  heap : Heap
  calls : Nat

/-- The load tracking of `entity_tick`, where `pmu n` is what call `n` of `pkshin_pmu_get`
returns and `clock q` what `cfs_rq_clock_task` does. -/
def tickLevel (w : World) (pmu clock : Nat → Nat) (s : TickState) (i : Nat) : TickState :=
  let h := s.heap
  let w := { w with pmuRatio := pmu s.calls }
  let now := clock (h.ses i).cfsRq
  ⟨(h.updateLoadAvg w now ⟨true, false⟩ i).updateCfsShares i,
    if h.asksRatio w now i ∧ (h.ses i).myQ = none then s.calls + 1 else s.calls⟩

/-- `entity_tick`. `none`: the search for the leaf has not ended after that many turns. -/
def entityTick (w : World) (pmu clock : Nat → Nat) (turns i : Nat) (s : TickState) :
    Option TickState :=
  if s.heap.asksRatio w (clock (s.heap.ses i).cfsRq) i ∧ (s.heap.ses i).myQ ≠ none then
    (s.heap.leafSearch turns i).map fun _ => tickLevel w pmu clock s i
  else some (tickLevel w pmu clock s i)

/-- The loop `for_each_sched_entity` of `task_tick_fair` over the pointers `parent`. -/
def taskTickFair (w : World) (pmu clock : Nat → Nat) (parent : Nat → Option Nat) (turns : Nat) :
    Nat → Nat → TickState → Option TickState
  | 0, _, _ => none
  | fuel + 1, i, s =>
    (entityTick w pmu clock turns i s).bind fun s =>
      match parent i with
      | none => some s
      | some j => taskTickFair w pmu clock parent turns fuel j s

namespace Heap

theorem touchesOnly_updateCfsShares {h : Heap} {i q : Nat} :
    TouchesOnly i q h (h.updateCfsShares i) := by
  simp only [updateCfsShares]
  split
  · exact TouchesOnly.refl h
  · simp only [reweightEntity]
    split
    · exact TouchesOnly.setCfs (TouchesOnly.setSe (TouchesOnly.refl h) rfl rfl) rfl
        fun _ => ⟨rfl, rfl⟩
    · exact TouchesOnly.setSe (TouchesOnly.refl h) rfl rfl

end Heap

end MSchedutil
