import MSchedutil.RemovalReach

/-! What `update_load_avg` of an entity leaves alone: every link of the hierarchy, every
other entity, and the averages and removals of every other runqueue. -/

namespace MSchedutil

open Word

namespace Heap

/-- Of the load tracking nothing changes but entity `i` and runqueue `q`; the links stay. -/
structure TouchesOnly (i q : Nat) (h h' : Heap) : Prop where
  ses : ∀ j, j ≠ i → h'.ses j = h.ses j
  myQ : (h'.ses i).myQ = (h.ses i).myQ
  cfsRq : (h'.ses i).cfsRq = (h.ses i).cfsRq
  avg : ∀ p, p ≠ q → (h'.cfs p).avg = (h.cfs p).avg
  removed : ∀ p, p ≠ q → (h'.cfs p).removed = (h.cfs p).removed
  curr : ∀ p, (h'.cfs p).curr = (h.cfs p).curr
  depth : h'.depth = h.depth

section TouchesOnly

variable {w : World} {h h' h'' : Heap} {i q : Nat}

theorem TouchesOnly.refl (h : Heap) : TouchesOnly i q h h :=
  ⟨fun _ _ => rfl, rfl, rfl, fun _ _ => rfl, fun _ _ => rfl, fun _ => rfl, rfl⟩

theorem TouchesOnly.trans (h₁ : TouchesOnly i q h h') (h₂ : TouchesOnly i q h' h'') :
    TouchesOnly i q h h'' where
  ses j hj := (h₂.ses j hj).trans (h₁.ses j hj)
  myQ := h₂.myQ.trans h₁.myQ
  cfsRq := h₂.cfsRq.trans h₁.cfsRq
  avg p hp := (h₂.avg p hp).trans (h₁.avg p hp)
  removed p hp := (h₂.removed p hp).trans (h₁.removed p hp)
  curr p := (h₂.curr p).trans (h₁.curr p)
  depth := h₂.depth.trans h₁.depth

theorem TouchesOnly.same {α : Type} (f : SchedEntity → α) (hs : TouchesOnly i q h h')
    (hi : f (h'.ses i) = f (h.ses i)) (j : Nat) : f (h'.ses j) = f (h.ses j) := by
  by_cases hj : j = i
  · rw [hj, hi]
  · rw [hs.ses j hj]

theorem TouchesOnly.seats (hs : TouchesOnly i q h h') (j : Nat) :
    (h'.ses j).cfsRq = (h.ses j).cfsRq := hs.same SchedEntity.cfsRq hs.cfsRq j

theorem TouchesOnly.groups (hs : TouchesOnly i q h h') (j : Nat) :
    (h'.ses j).myQ = (h.ses j).myQ := hs.same SchedEntity.myQ hs.myQ j

theorem TouchesOnly.setSe {se : SchedEntity} (hs : TouchesOnly i q h h')
    (hm : se.myQ = (h'.ses i).myQ) (hc : se.cfsRq = (h'.ses i).cfsRq) :
    TouchesOnly i q h (h'.setSe i se) :=
  hs.trans ⟨fun j hj => by simp [hj], by simpa using hm, by simpa using hc, fun _ _ => rfl,
    fun _ _ => rfl, fun _ => rfl, rfl⟩

theorem TouchesOnly.setCfs {p : Nat} {cfs : CfsRq} (hs : TouchesOnly i q h h')
    (hc : cfs.curr = (h'.cfs p).curr)
    (ha : p ≠ q → cfs.avg = (h'.cfs p).avg ∧ cfs.removed = (h'.cfs p).removed) :
    TouchesOnly i q h (h'.setCfs p cfs) := by
  refine hs.trans ⟨fun _ _ => rfl, rfl, rfl, ?_, ?_, ?_, rfl⟩
  · exact forall_setCfs (P := fun p c => p ≠ q → c.avg = (h'.cfs p).avg) (fun hp => (ha hp).1)
      fun _ _ => rfl
  · exact forall_setCfs (P := fun p c => p ≠ q → c.removed = (h'.cfs p).removed)
      (fun hp => (ha hp).2) fun _ _ => rfl
  · exact forall_setCfs (P := fun p c => c.curr = (h'.cfs p).curr) hc fun _ => rfl

theorem TouchesOnly.cfsRqUtilChange (hs : TouchesOnly i q h h') (p : Nat) :
    TouchesOnly i q h (h'.cfsRqUtilChange p) := by
  refine hs.trans ⟨by simp, by simp, by simp, by simp, by simp, by simp, ?_⟩
  simp only [Heap.cfsRqUtilChange]
  split <;> rfl

theorem touchesOnly_updateEntity (now cpu weight : Nat) (running : Bool) (hq : q = (h.ses i).cfsRq) :
    TouchesOnly i q h (h.updateEntityLoadAvg w now cpu weight running i).1 := by
  rw [updateEntityLoadAvg_eq]
  have hratio : TouchesOnly i q h (h.ratioToCfs (h.entityCall w now cpu weight running i) i) := by
    rw [ratioToCfs]
    split
    · exact TouchesOnly.setCfs (TouchesOnly.refl h) rfl fun hne => absurd hq.symm hne
    · exact TouchesOnly.refl h
  exact TouchesOnly.setSe hratio hratio.myQ.symm hratio.cfsRq.symm

theorem touchesOnly_updateCfs (now : Nat) (updateFreq : Bool) :
    TouchesOnly i q h (h.updateCfsRqLoadAvg w now q updateFreq).1 := by
  rw [updateCfsRqLoadAvg_eq]
  have hdrained : TouchesOnly i q h (h.drained w.pemt q) :=
    TouchesOnly.setCfs (TouchesOnly.refl h) rfl fun hne => absurd rfl hne
  have hupdated : TouchesOnly i q h ((h.drained w.pemt q).updateCfsLoadAvg w now q).1 := by
    rw [updateCfsLoadAvg_eq]
    exact TouchesOnly.setCfs hdrained rfl fun hne => absurd rfl hne
  dsimp only
  split
  · exact hupdated.cfsRqUtilChange q
  · exact hupdated

theorem updateCfs_ses (now : Nat) (updateFreq : Bool) :
    (h.updateCfsRqLoadAvg w now q updateFreq).1.ses = h.ses := by
  rw [updateCfsRqLoadAvg_eq, updateCfsLoadAvg_eq]
  dsimp only
  split <;> simp [drained]

theorem touchesOnly_ageEntity (now : Nat) (flags : UpdateFlags) (hq : q = (h.ses i).cfsRq) :
    TouchesOnly i q h (h.ageEntity w now flags i) := by
  simp only [ageEntity]
  split
  · exact touchesOnly_updateEntity _ _ _ _ hq
  · exact TouchesOnly.refl h

theorem touchesOnly_propagate (hq : q = (h.ses i).cfsRq) :
    TouchesOnly i q h (h.propagateEntityLoadAvg w i).1 := by
  rcases h.propagate_cases i with hidle | ⟨g, hm, hf⟩
  · rw [propagate_idle hidle]
    exact TouchesOnly.refl h
  · rw [propagate_fired hm hf]
    have hflags : TouchesOnly i q h (h.flagsMoved i g) :=
      TouchesOnly.setCfs (TouchesOnly.setCfs (TouchesOnly.refl h) rfl fun _ => ⟨rfl, rfl⟩) rfl
        fun _ => ⟨rfl, rfl⟩
    have hutil : TouchesOnly i q h ((h.flagsMoved i g).updateTgCfsUtil w i g) := by
      simp only [updateTgCfsUtil]
      exact TouchesOnly.setCfs (TouchesOnly.setSe hflags rfl rfl) rfl fun hne => absurd hq.symm hne
    have hseat := hutil.cfsRq
    simp only [updateTgCfsLoad]
    split
    · exact hutil
    · refine TouchesOnly.setCfs (TouchesOnly.setSe hutil rfl rfl) rfl fun hne => absurd ?_ hne
      exact hseat.trans hq.symm

theorem touchesOnly_updateTg (p : Nat) (force : Bool) : TouchesOnly i q h (h.updateTgLoadAvg p force) := by
  simp only [updateTgLoadAvg]
  split
  · exact TouchesOnly.refl h
  · split
    · refine TouchesOnly.setCfs ?_ rfl fun _ => ⟨rfl, rfl⟩
      exact ⟨fun _ _ => rfl, rfl, rfl, fun _ _ => rfl, fun _ _ => rfl, fun _ => rfl, rfl⟩
    · exact TouchesOnly.refl h

theorem touchesOnly_aged (now : Nat) (flags : UpdateFlags) (hq : q = (h.ses i).cfsRq) :
    TouchesOnly i q h (h.aged w now flags i) := by
  rw [aged, ← hq]
  exact (touchesOnly_ageEntity now flags hq).trans (touchesOnly_updateCfs now true)

theorem touchesOnly_updateLoadAvg (now : Nat) (flags : UpdateFlags) (hq : q = (h.ses i).cfsRq) :
    TouchesOnly i q h (h.updateLoadAvg w now flags i) := by
  have haged := touchesOnly_aged (w := w) now flags hq
  have hprop := haged.trans (touchesOnly_propagate (w := w) (hq.trans haged.cfsRq.symm))
  rcases updateLoadAvg_eq (w := w) (h := h) now flags i with he | he
  · rw [he]
    exact hprop
  · rw [he]
    exact hprop.trans (touchesOnly_updateTg _ _)

end TouchesOnly

end Heap

end MSchedutil
