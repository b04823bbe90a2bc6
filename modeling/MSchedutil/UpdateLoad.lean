import MSchedutil.FlagWindows
import MSchedutil.MemberSum
import MSchedutil.PeriodSum

/-! `update_load_avg`, the step by which every level of a hierarchy ages its entity and
its runqueue, and what no load-tracking step changes: the links of the hierarchy, a
pending propagation, and the word sizes of the signals. -/

namespace MSchedutil

open Word

/-- The flags `UPDATE_TG` and `SKIP_AGE_LOAD`. -/
structure UpdateFlags where
  updateTg : Bool
  skipAgeLoad : Bool
  deriving DecidableEq, Repr

/-- What happens to the load tracking: one of its operations, `update_tg_load_avg`, or the
bookkeeping of enqueueing and reweighting. -/
inductive LoadEvent
  | op (w : World) (op : LoadOp)
  | updateTg (q : Nat) (force : Bool)
  | entityState (i weight : Nat) (onRq : Bool)
  | queueState (q weight : Nat) (runnable : Signal)

namespace Heap

def updateTgLoadAvg (q : Nat) (force : Bool) (h : Heap) : Heap :=
  let cfs := h.cfs q
  let tg := h.tgs cfs.tg
  let delta := s64 (sub64 cfs.avg.load.avg cfs.tgLoadAvgContrib)
  if tg.isRoot then h
  else if force ∨ delta.natAbs > cfs.tgLoadAvgContrib / 64 then
    let h := { h with
      tgs := Function.update h.tgs cfs.tg { tg with loadAvg := u64 (tg.loadAvg + ofInt64 delta) } }
    h.setCfs q { cfs with tgLoadAvgContrib := cfs.avg.load.avg }
  else h

/-- The call of `__update_load_avg` for the entity itself, where it is made. -/
def ageEntity (w : World) (now : Nat) (flags : UpdateFlags) (i : Nat) (h : Heap) : Heap :=
  let se := h.ses i
  let cfs := h.cfs se.cfsRq
  if se.avg.lastUpdateTime ≠ 0 ∧ ¬ flags.skipAgeLoad then
    (h.updateEntityLoadAvg w now cfs.cpu (if se.onRq then scaleLoadDown se.weight else 0)
      (cfs.curr = some i) i).1
  else h

/-- `update_load_avg(se, flags)` at the time `now` of the clock of its runqueue. -/
def updateLoadAvg (w : World) (now : Nat) (flags : UpdateFlags) (i : Nat) (h : Heap) : Heap :=
  let q := (h.ses i).cfsRq
  let h := h.ageEntity w now flags i
  let (h, decayed) := h.updateCfsRqLoadAvg w now q true
  let (h, propagated) := h.propagateEntityLoadAvg w i
  if (decayed || propagated) && flags.updateTg then h.updateTgLoadAvg q false else h

def next (h : Heap) : LoadEvent → Heap
  | .op w op => (h.apply w op).1
  | .updateTg q force => h.updateTgLoadAvg q force
  | .entityState i weight onRq => h.setSe i { h.ses i with weight := weight, onRq := onRq }
  | .queueState q weight runnable => h.setCfs q { h.cfs q with weight := weight, runnable := runnable }

def TasksMove (h : Heap) : LoadEvent → Prop
  | .op _ (.move i _) => (h.ses i).myQ = none
  | _ => True

/-- The links of the hierarchy stay, and a propagation pending where `P` stays pending. -/
structure Evolves (P : Nat → Prop) (h h' : Heap) : Prop where
  myQ : ∀ i, (h'.ses i).myQ = (h.ses i).myQ
  cfsRq : ∀ i, (h.ses i).myQ ≠ none → (h'.ses i).cfsRq = (h.ses i).cfsRq
  isRoot : ∀ q, (h'.cfs q).isRoot = (h.cfs q).isRoot
  pending : ∀ q, P q → (h.cfs q).propagateAvg = true → (h'.cfs q).propagateAvg = true

structure Words (h : Heap) : Prop where
  ses : ∀ i k, ((h.ses i).avg.signal k).InWord
  cfs : ∀ q k, ((h.cfs q).avg.signal k).InWord

section Evolves

variable {P : Nat → Prop} {h h' h'' : Heap} {w : World}

theorem Evolves.refl (h : Heap) : Evolves P h h :=
  ⟨fun _ => rfl, fun _ _ => rfl, fun _ => rfl, fun _ _ hf => hf⟩

theorem Evolves.trans (h₁ : Evolves P h h') (h₂ : Evolves P h' h'') : Evolves P h h'' where
  myQ i := (h₂.myQ i).trans (h₁.myQ i)
  cfsRq i hi := (h₂.cfsRq i (by rwa [h₁.myQ])).trans (h₁.cfsRq i hi)
  isRoot q := (h₂.isRoot q).trans (h₁.isRoot q)
  pending q hq hf := h₂.pending q hq (h₁.pending q hq hf)

theorem Evolves.setSe {i : Nat} {se : SchedEntity} (hs : Evolves P h h')
    (hm : se.myQ = (h'.ses i).myQ) (hc : (h'.ses i).myQ ≠ none → se.cfsRq = (h'.ses i).cfsRq) :
    Evolves P h (h'.setSe i se) := by
  refine hs.trans ⟨?_, ?_, fun _ => rfl, fun _ _ hf => hf⟩
  · exact forall_setSe (P := fun j s => s.myQ = (h'.ses j).myQ) hm fun _ => rfl
  · exact forall_setSe (P := fun j s => (h'.ses j).myQ ≠ none → s.cfsRq = (h'.ses j).cfsRq) hc
      fun _ _ => rfl

theorem Evolves.setCfs {q : Nat} {cfs : CfsRq} (hs : Evolves P h h')
    (hr : cfs.isRoot = (h'.cfs q).isRoot)
    (hf : P q → (h'.cfs q).propagateAvg = true → cfs.propagateAvg = true) :
    Evolves P h (h'.setCfs q cfs) := by
  refine hs.trans ⟨fun _ => rfl, fun _ _ => rfl, ?_, ?_⟩
  · exact forall_setCfs (P := fun p c => c.isRoot = (h'.cfs p).isRoot) hr fun _ => rfl
  · exact forall_setCfs
      (P := fun p c => P p → (h'.cfs p).propagateAvg = true → c.propagateAvg = true) hf
      fun _ _ hpend => hpend

theorem Evolves.cfsRqUtilChange (hs : Evolves P h h') (q : Nat) :
    Evolves P h (h'.cfsRqUtilChange q) :=
  hs.trans ⟨by simp, by simp, by simp, by simp⟩

theorem evolves_updateEntity (now cpu weight : Nat) (running : Bool) (i : Nat) :
    Evolves P h (h.updateEntityLoadAvg w now cpu weight running i).1 := by
  rw [updateEntityLoadAvg_eq]
  refine Evolves.setSe ?_ ?_ ?_
  · rw [ratioToCfs]
    split
    · exact Evolves.setCfs (Evolves.refl h) rfl fun _ hf => hf
    · exact Evolves.refl h
  all_goals
    rw [ratioToCfs]
    split <;> simp

theorem evolves_updateCfs (now q : Nat) (updateFreq : Bool) :
    Evolves P h (h.updateCfsRqLoadAvg w now q updateFreq).1 := by
  rw [updateCfsRqLoadAvg_eq]
  have hdrained : Evolves P h (h.drained w.pemt q) :=
    Evolves.setCfs (Evolves.refl h) rfl fun _ hf => by simp [hf]
  have hupdated : Evolves P h ((h.drained w.pemt q).updateCfsLoadAvg w now q).1 := by
    rw [updateCfsLoadAvg_eq]
    exact Evolves.setCfs hdrained rfl fun _ hf => hf
  dsimp only
  split
  · exact hupdated.cfsRqUtilChange q
  · exact hupdated

theorem evolves_attach (i : Nat) : Evolves P h (h.attachEntityLoadAvg w i) := by
  simp only [attachEntityLoadAvg]
  refine Evolves.cfsRqUtilChange (Evolves.setCfs ?_ ?_ ?_) _
  · exact Evolves.setSe (Evolves.refl h) rfl fun _ => rfl
  · rfl
  · exact fun _ _ => rfl

theorem evolves_detach (i : Nat) : Evolves P h (h.detachEntityLoadAvg w i) := by
  simp only [detachEntityLoadAvg]
  refine Evolves.cfsRqUtilChange (Evolves.setCfs (Evolves.refl h) ?_ ?_) _
  · rfl
  · exact fun _ _ => rfl

theorem evolves_remove (i : Nat) : Evolves P h (h.removeEntityLoadAvg w i) := by
  simp only [removeEntityLoadAvg, syncEntityLoadAvg]
  exact Evolves.setCfs (evolves_updateEntity _ _ _ _ i) rfl fun _ hf => hf

theorem evolves_updateTgCfsUtil (i g : Nat) : Evolves P h (h.updateTgCfsUtil w i g) := by
  simp only [updateTgCfsUtil]
  exact Evolves.setCfs (Evolves.setSe (Evolves.refl h) rfl fun _ => rfl) rfl fun _ hf => hf

theorem evolves_updateTgCfsLoad (i g : Nat) : Evolves P h (h.updateTgCfsLoad i g) := by
  simp only [updateTgCfsLoad]
  split
  · exact Evolves.refl h
  · exact Evolves.setCfs (Evolves.setSe (Evolves.refl h) rfl fun _ => rfl) rfl fun _ hf => hf

/-- A propagation clears the flag of its own group only. -/
theorem evolves_propagate {i : Nat} (hP : ∀ g, (h.ses i).myQ = some g → ¬ P g) :
    Evolves P h (h.propagateEntityLoadAvg w i).1 := by
  rcases h.propagate_cases i with hidle | ⟨g, hm, hf⟩
  · rw [propagate_idle hidle]
    exact Evolves.refl h
  · rw [propagate_fired hm hf]
    have hflags : Evolves P h (h.flagsMoved i g) :=
      Evolves.setCfs (Evolves.setCfs (Evolves.refl h) rfl fun hg _ => absurd hg (hP g hm)) rfl
        fun _ _ => rfl
    exact (hflags.trans (evolves_updateTgCfsUtil i g)).trans (evolves_updateTgCfsLoad i g)

theorem evolves_updateTg (q : Nat) (force : Bool) : Evolves P h (h.updateTgLoadAvg q force) := by
  simp only [updateTgLoadAvg]
  split
  · exact Evolves.refl h
  · split
    · refine Evolves.setCfs ?_ rfl fun _ hf => hf
      exact ⟨fun _ => rfl, fun _ _ => rfl, fun _ => rfl, fun _ _ hf => hf⟩
    · exact Evolves.refl h

theorem evolves_next {e : LoadEvent} (hmove : h.TasksMove e)
    (hP : ∀ w i g, e = .op w (.propagate i) → (h.ses i).myQ = some g → ¬ P g) :
    Evolves P h (h.next e) := by
  cases e with
  | op w op =>
    cases op with
    | move i q => exact Evolves.setSe (Evolves.refl h) rfl fun hi => absurd hmove hi
    | setCurr q curr => exact Evolves.setCfs (Evolves.refl h) rfl fun _ hf => hf
    | updateEntity now cpu weight running i => exact evolves_updateEntity now cpu weight running i
    | attach i => exact evolves_attach i
    | detach i => exact evolves_detach i
    | remove i => exact evolves_remove i
    | updateCfs now q updateFreq => exact evolves_updateCfs now q updateFreq
    | propagate i => exact evolves_propagate (hP w i · rfl)
  | updateTg q force => exact evolves_updateTg q force
  | entityState i weight onRq => exact Evolves.setSe (Evolves.refl h) rfl fun _ => rfl
  | queueState q weight runnable => exact Evolves.setCfs (Evolves.refl h) rfl fun _ hf => hf

theorem evolves_ageEntity (now : Nat) (flags : UpdateFlags) (i : Nat) :
    Evolves P h (h.ageEntity w now flags i) := by
  simp only [ageEntity]
  split
  · exact evolves_updateEntity _ _ _ _ i
  · exact Evolves.refl h

end Evolves

section Words

variable {h : Heap} {w : World}

theorem Words.setSe (hs : h.Words) {i : Nat} {se : SchedEntity}
    (hse : ∀ k, (se.avg.signal k).InWord) : (h.setSe i se).Words := by
  exact ⟨forall_setSe (P := fun _ s => ∀ k, (s.avg.signal k).InWord) hse hs.ses, hs.cfs⟩

theorem Words.setCfs (hs : h.Words) {q : Nat} {cfs : CfsRq}
    (hcfs : ∀ k, (cfs.avg.signal k).InWord) : (h.setCfs q cfs).Words := by
  exact ⟨hs.ses, forall_setCfs (P := fun _ c => ∀ k, (c.avg.signal k).InWord) hcfs hs.cfs⟩

theorem Words.cfsRqUtilChange (hs : h.Words) (q : Nat) : (h.cfsRqUtilChange q).Words :=
  ⟨by simpa using hs.ses, by simpa using hs.cfs⟩

theorem updateLoadAvg_inWord {c : UpdateCall} {sa : SchedAvg} (hs : ∀ k, (sa.signal k).InWord)
    (k : Track) : ((c.updateLoadAvg (c.recorded sa)).1.signal k).InWord := by
  cases hk : k.active c.pemt with
  | true =>
    rw [UpdateCall.signal_updateLoadAvg hk, UpdateCall.signal_recorded]
    exact UpdateCall.updateSignal_inWord (hs k)
  | false =>
    rw [UpdateCall.signal_updateLoadAvg_inactive hk, UpdateCall.signal_recorded]
    exact hs k

theorem Words.updateEntity (hs : h.Words) (now cpu weight : Nat) (running : Bool) (i : Nat) :
    (h.updateEntityLoadAvg w now cpu weight running i).1.Words := by
  rw [updateEntityLoadAvg_eq]
  refine Words.setSe ?_ (updateLoadAvg_inWord (hs.ses i))
  rw [ratioToCfs]
  split
  · refine Words.setCfs hs fun k => ?_
    have hsame : ∀ (sa : SchedAvg) ratio, ({ sa with memoryCycleRatio := ratio } : SchedAvg).signal k =
        sa.signal k := by intro sa ratio; cases k <;> rfl
    rw [hsame]
    exact hs.cfs _ k
  · exact hs

theorem Words.updateCfs (hs : h.Words) (now q : Nat) (updateFreq : Bool) :
    (h.updateCfsRqLoadAvg w now q updateFreq).1.Words := by
  have hdrain : ∀ k, (((h.cfs q).avg.drain w.pemt (h.cfs q).removed).signal k).InWord := by
    intro k
    rw [SchedAvg.signal_drain]
    split
    · rw [Signal.drain32]
      split
      · exact ⟨subPositive32_lt _ _, subPositive64_lt _ _⟩
      · exact hs.cfs q k
    · exact hs.cfs q k
  have hdrained : (h.drained w.pemt q).Words := Words.setCfs hs hdrain
  have hupdated : ((h.drained w.pemt q).updateCfsLoadAvg w now q).1.Words := by
    rw [updateCfsLoadAvg_eq]
    exact Words.setCfs hdrained (updateLoadAvg_inWord (hdrained.cfs q))
  rw [updateCfsRqLoadAvg_eq]
  dsimp only
  split
  · exact hupdated.cfsRqUtilChange q
  · exact hupdated

theorem Words.attach (hs : h.Words) (i : Nat) : (h.attachEntityLoadAvg w i).Words := by
  simp only [attachEntityLoadAvg]
  refine Words.cfsRqUtilChange (Words.setCfs (Words.setSe hs fun k => ?_) fun k => ?_) _
  · rw [UpdateCall.signal_with_lastUpdateTime]
    exact hs.ses i k
  · rw [SchedAvg.signal_attach]
    split
    · exact ⟨u32_lt _, u64_lt _⟩
    · exact hs.cfs _ k

theorem Words.detach (hs : h.Words) (i : Nat) : (h.detachEntityLoadAvg w i).Words := by
  simp only [detachEntityLoadAvg]
  refine Words.cfsRqUtilChange (Words.setCfs hs fun k => ?_) _
  rw [SchedAvg.signal_detach]
  split
  · exact ⟨subPositive32_lt _ _, subPositive64_lt _ _⟩
  · exact hs.cfs _ k

theorem Words.remove (hs : h.Words) (i : Nat) : (h.removeEntityLoadAvg w i).Words := by
  have hsync : (h.syncEntityLoadAvg w i).Words := Words.updateEntity hs _ _ _ _ i
  exact Words.setCfs hsync (hsync.cfs _)

theorem addPositive_lt (var val : Nat) : addPositive var val < 2 ^ 64 := by
  simp only [addPositive]
  split
  · norm_num
  · exact u64_lt _

theorem Words.updateTgCfsUtil (hs : h.Words) (i g : Nat) : (h.updateTgCfsUtil w i g).Words := by
  simp only [Heap.updateTgCfsUtil]
  refine Words.setCfs (Words.setSe hs fun k => ?_) fun k => ?_
  · rw [SchedAvg.signal_propagateSelf]
    split
    · rw [Signal.propagateSelf]
      split
      · exact ⟨u32_lt _, (hs.cfs g k).2⟩
      · exact hs.ses i k
    · exact hs.ses i k
  · rw [SchedAvg.signal_propagateParent]
    split
    · simp only [Signal.propagateParent]
      split
      · exact ⟨u32_lt _, addPositive_lt _ _⟩
      · exact hs.cfs _ k
    · exact hs.cfs _ k

theorem Words.propagate (hs : h.Words) (i : Nat) : (h.propagateEntityLoadAvg w i).1.Words := by
  rcases h.propagate_cases i with hidle | ⟨g, hm, hf⟩
  · rw [propagate_idle hidle]
    exact hs
  · have hcleared : (h.setPropagate false g).Words := Words.setCfs hs (hs.cfs g)
    have hflags : (h.flagsMoved i g).Words := Words.setCfs hcleared (hcleared.cfs _)
    have hutil := Words.updateTgCfsUtil (w := w) hflags i g
    rw [propagate_fired hm hf]
    exact ⟨fun j k => by rw [sameButLoad_updateTgCfsLoad.se_signal]; exact hutil.ses j k,
      fun q k => by rw [sameButLoad_updateTgCfsLoad.cfs_signal]; exact hutil.cfs q k⟩

theorem Words.updateTg (hs : h.Words) (q : Nat) (force : Bool) : (h.updateTgLoadAvg q force).Words := by
  simp only [updateTgLoadAvg]
  split
  · exact hs
  · split
    · refine Words.setCfs ?_ ?_
      · exact ⟨hs.ses, hs.cfs⟩
      · exact hs.cfs q
    · exact hs

theorem Words.next (hs : h.Words) (e : LoadEvent) : (h.next e).Words := by
  cases e with
  | op w op =>
    cases op with
    | move i q => exact Words.setSe hs (hs.ses i)
    | setCurr q curr => exact Words.setCfs hs (hs.cfs q)
    | updateEntity now cpu weight running i => exact Words.updateEntity hs now cpu weight running i
    | attach i => exact Words.attach hs i
    | detach i => exact Words.detach hs i
    | remove i => exact Words.remove hs i
    | updateCfs now q updateFreq => exact Words.updateCfs hs now q updateFreq
    | propagate i => exact Words.propagate hs i
  | updateTg q force => exact Words.updateTg hs q force
  | entityState i weight onRq => exact Words.setSe hs (hs.ses i)
  | queueState q weight runnable => exact Words.setCfs hs (hs.cfs q)

theorem Words.ageEntity (hs : h.Words) (now : Nat) (flags : UpdateFlags) (i : Nat) :
    (h.ageEntity w now flags i).Words := by
  simp only [Heap.ageEntity]
  split
  · exact Words.updateEntity hs _ _ _ _ i
  · exact hs

end Words

end Heap

end MSchedutil
