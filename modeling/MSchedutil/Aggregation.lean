import MSchedutil.MemberSum

/-! Aggregation. At one instant the average of every signal of a runqueue is the sum
of those of its entities, what is pending removal, and the part that was unattributed
at the start, and no clamp fires; the 32-bit sums keep up as long as they do not wrap. -/

namespace MSchedutil

open Word Transition

/-- `sub_positive` would set the field to zero. -/
def SubClamps (var val : Nat) : Prop := sub64 var val > var

/-- `add_positive` would set the field to zero. -/
def AddClamps (var val : Nat) : Prop := s64 val < 0 ∧ u64 (var + val) > var

theorem not_subClamps {var val : Nat} (hval : val ≤ var) (hvar : var < 2 ^ 64) :
    ¬ SubClamps var val := by
  unfold SubClamps
  rw [sub64_of_le hval hvar]
  omega

theorem subPositive64_of_le {var val : Nat} (hval : val ≤ var) (hvar : var < 2 ^ 64) :
    subPositive64 var val = var - val := by
  have h := not_subClamps hval hvar
  unfold SubClamps at h
  unfold subPositive64
  rw [if_neg h, sub64_of_le hval hvar]

theorem subPositive32_of_le {var val : Nat} (hval : val ≤ var) (hvar : var < 2 ^ 32) :
    subPositive32 var val = var - val := by
  have h := sub32_of_le hval hvar
  unfold subPositive32
  dsimp only
  rw [h, if_neg (by omega)]

/-- A signed delta between two `long`s that leaves the sum within a `long`. -/
theorem addPositive_delta {var old new : Nat} (hold : old ≤ var)
    (hnew : new < 2 ^ 63) (hsum : var - old + new < 2 ^ 63) :
    ¬ AddClamps var (sub64 new old) ∧ addPositive var (sub64 new old) = var - old + new := by
  have hres : u64 (var + sub64 new old) = var - old + new := by
    unfold sub64 u64
    omega
  have hclamp : ¬ AddClamps var (sub64 new old) := by
    rintro ⟨hneg, hgt⟩
    rw [hres] at hgt
    rw [← not_le, s64_nonneg_iff] at hneg
    have hd : sub64 new old = new - old := sub64_of_le (by omega) (by omega)
    rw [hd, u64_of_lt (by omega)] at hneg
    omega
  refine ⟨hclamp, ?_⟩
  exact (if_neg hclamp).trans hres

namespace Signal

theorem plus32_avg {s t : Signal} (h : s.avg + t.avg < 2 ^ 64) :
    (s.plus32 t).avg = s.avg + t.avg := u64_of_lt h

theorem minus32_avg {s t : Signal} (h : t.avg ≤ s.avg) (hs : s.avg < 2 ^ 64) :
    (s.minus32 t).avg = s.avg - t.avg := subPositive64_of_le h hs

theorem drain32_avg {s : Signal} {max r : Nat} (h : r ≤ s.avg) (hs : s.avg < 2 ^ 64) :
    (s.drain32 max r).avg = s.avg - r := by
  unfold drain32
  split
  · exact subPositive64_of_le h hs
  · omega

theorem sub64_eq_zero_iff {a b : Nat} (ha : a < 2 ^ 63) (hb : b < 2 ^ 63) :
    sub64 a b = 0 ↔ a = b := by
  unfold sub64 u64
  omega

theorem propagateSelf_avg {max : Nat} {group se : Signal} (hg : group.avg < 2 ^ 63)
    (hs : se.avg < 2 ^ 63) : (propagateSelf max group se).avg = group.avg := by
  unfold propagateSelf
  split
  · rfl
  · rename_i h
    exact ((sub64_eq_zero_iff hg hs).mp (by simpa using h)).symm

theorem propagateParent_avg {max : Nat} {group se parent : Signal} (hg : group.avg < 2 ^ 63)
    (hs : se.avg ≤ parent.avg) (hp : parent.avg < 2 ^ 63)
    (hsum : parent.avg - se.avg + group.avg < 2 ^ 63) :
    (propagateParent max group se parent).avg = parent.avg - se.avg + group.avg := by
  unfold propagateParent
  dsimp only
  split
  · exact (addPositive_delta hs hg hsum).2
  · rename_i h
    have := (sub64_eq_zero_iff hg (hs.trans_lt hp)).mp (by simpa using h)
    omega

end Signal

namespace AttachSys

/-- No clamp fires on an average. -/
def ClampFree (s : AttachSys) : AttachEvent → Prop
  | .detach i => ∀ k, ¬ SubClamps (s.total k (s.heap.ses i).cfsRq).avg (s.share k i).avg
  | .updateCfs q _ => ∀ k, ¬ SubClamps (s.total k q).avg (s.pending k q)
  | .propagate i => ∀ g, (s.heap.ses i).myQ = some g → (s.heap.cfs g).propagateAvg = true → ∀ k,
      ¬ AddClamps (s.total k (s.heap.ses i).cfsRq).avg (sub64 (s.total k g).avg (s.share k i).avg)
  | _ => True

/-- A group entity that is propagated ends with the averages of its runqueue. -/
def GroupFollows (w : World) (t : Nat) (s : AttachSys) : AttachEvent → Prop
  | .propagate i => ∀ g, (s.heap.ses i).myQ = some g → (s.heap.cfs g).propagateAvg = true → ∀ k,
      ((s.next w t (.propagate i)).share k i).avg = ((s.next w t (.propagate i)).total k g).avg
  | _ => True

variable {w : World} {t : Nat} {base : Nat → Track → Nat} {s : AttachSys}

theorem AddsUp.share_le (h : AddsUp base s) {i : Nat} (hi : i ∈ s.attached) (k : Track) :
    (s.share k i).avg ≤ (s.total k (s.heap.ses i).cfsRq).avg :=
  (h _ k).share_le (mem_members.mpr ⟨hi, rfl⟩)

theorem attach_pending (i : Nat) (k : Track) (q : Nat) :
    (s.next w t (.attach i)).pending k q = s.pending k q := by
  unfold pending
  by_cases hq : q = (s.heap.ses i).cfsRq
  · simp [next, Heap.attachEntityLoadAvg, hq]
  · simp [next, Heap.attachEntityLoadAvg, hq]

theorem detach_pending (i : Nat) (k : Track) (q : Nat) :
    (s.next w t (.detach i)).pending k q = s.pending k q := by
  unfold pending
  by_cases hq : q = (s.heap.ses i).cfsRq
  · simp [next, Heap.detachEntityLoadAvg, hq]
  · simp [next, Heap.detachEntityLoadAvg, hq]

theorem remove_total (hs : s.Still t) {i : Nat} (hi : i ∈ s.attached) (k : Track) (q : Nat) :
    (s.next w t (.remove i)).total k q = s.total k q := by
  unfold total
  rw [remove_heap hs hi]
  by_cases hq : q = (s.heap.ses i).cfsRq
  · simp [Heap.cfsRqOf, hq]
  · simp [hq]

theorem remove_ses (hs : s.Still t) {i : Nat} (hi : i ∈ s.attached) :
    (s.next w t (.remove i)).heap.ses = s.heap.ses := by
  rw [remove_heap hs hi]
  rfl

theorem SameEntities.share_avg {s' : AttachSys} (h : SameEntities s s') (k : Track) :
    (fun i => (s'.share k i).avg) = fun i => (s.share k i).avg :=
  funext fun i => congrArg Signal.avg (h.share k i)

theorem AddsUp.attach (h : AddsUp base s) (hw : w.pemt = true) {i : Nat} (hi : i ∉ s.attached)
    (hf : s.Fits (.attach i)) : AddsUp base (s.next w t (.attach i)) := by
  intro q k
  have hsame := sameEntities_attach (s := s) (w := w) (t := t) i
  rw [attach_total hw, members_insert rfl hsame.cfsRq, hsame.share_avg, attach_pending]
  by_cases hq : q = (s.heap.ses i).cfsRq
  · subst hq
    have hmem : i ∉ s.members (s.heap.ses i).cfsRq := fun hm => hi (mem_members.mp hm).1
    have hfit := hf k
    rw [if_pos rfl, if_pos rfl, Signal.plus32_avg (by omega)]
    exact (h _ k).join hmem
  · rw [if_neg hq, if_neg (Ne.symm hq)]
    exact h q k

theorem AddsUp.detach (h : AddsUp base s) (hw : w.pemt = true) (hs : s.Still t) {i : Nat}
    (hi : i ∈ s.attached) : AddsUp base (s.next w t (.detach i)) := by
  intro q k
  have hsame := sameEntities_of_ses (detach_ses (s := s) (w := w) (t := t) i)
  rw [detach_total hw, members_erase rfl hsame.cfsRq, hsame.share_avg, detach_pending]
  by_cases hq : q = (s.heap.ses i).cfsRq
  · subst hq
    have hfits := hs.fits (s.heap.ses i).cfsRq k
    rw [if_pos rfl, if_pos rfl, Signal.minus32_avg (h.share_le hi k) (by omega)]
    exact (h _ k).leave (mem_members.mpr ⟨hi, rfl⟩)
  · rw [if_neg hq, if_neg (Ne.symm hq)]
    exact h q k

theorem AddsUp.remove (h : AddsUp base s) (hw : w.pemt = true) (hs : s.Still t) {i : Nat}
    (hi : i ∈ s.attached) : AddsUp base (s.next w t (.remove i)) := by
  intro q k
  have hsame := sameEntities_of_ses (remove_ses (w := w) hs hi)
  rw [remove_total hs hi, members_erase rfl hsame.cfsRq, hsame.share_avg, remove_pending hw hs hi]
  by_cases hq : q = (s.heap.ses i).cfsRq
  · subst hq
    have hb := (h _ k).defer (mem_members.mpr ⟨hi, rfl⟩)
    have hle := hb.pending_le
    have hfits := hs.fits (s.heap.ses i).cfsRq k
    rw [if_pos rfl, if_pos rfl, u64_of_lt (by omega)]
    exact hb
  · rw [if_neg hq, if_neg (Ne.symm hq)]
    exact h q k

theorem AddsUp.updateCfs (h : AddsUp base s) (hw : w.pemt = true) (hs : s.Still t) (q' : Nat)
    (b : Bool) : AddsUp base (s.next w t (.updateCfs q' b)) := by
  intro q k
  have hsame := sameEntities_of_ses (updateCfs_ses (w := w) hs q' b)
  rw [updateCfs_total hw hs, members_congr (s := s)
    (t := s.next w t (.updateCfs q' b)) rfl fun i _ => hsame.cfsRq i, hsame.share_avg,
    updateCfs_pending hw hs]
  by_cases hq : q = q'
  · subst hq
    have hfits := hs.fits q k
    rw [if_pos rfl, if_pos rfl, Signal.drain32_avg (h q k).pending_le (by omega)]
    exact (h q k).settle
  · rw [if_neg hq, if_neg hq]
    exact h q k

theorem AddsUp.move (h : AddsUp base s) {i : Nat} (hi : i ∉ s.attached) (q' : Nat) :
    AddsUp base (s.next w t (.move i q')) := by
  intro q k
  have hne : ∀ j ∈ s.attached, j ≠ i := fun j hj hji => hi (hji ▸ hj)
  have hm : (s.next w t (.move i q')).members q = s.members q :=
    members_congr (s := s) (t := s.next w t (.move i q')) rfl
      (fun j hj => by simp [next, hne j hj]) q
  rw [hm]
  refine (h q k).congr fun j hj => ?_
  have hj' := hne j (mem_members.mp hj).1
  simp [next, AttachSys.share, hj']

theorem AddsUp.propagate (h : AddsUp base s) (hw : w.pemt = true) (hs : s.Still t) {i : Nat}
    (ha : s.Allowed (.propagate i)) (hf : s.Fits (.propagate i)) :
    AddsUp base (s.next w t (.propagate i)) := by
  obtain hidle | ⟨g, hm, hp⟩ := s.heap.propagate_cases i
  · rw [next, Heap.propagate_idle hidle]
    exact h
  · have hi : i ∈ s.attached := ha (by rw [hm]; exact Option.some_ne_none g)
    obtain ⟨-, -, hcfs, -⟩ := propagate_clocks (s := s) (w := w) (t := t) (i := i)
    intro q k
    have hg := hs.fits g k
    have hq' := hs.fits (s.heap.ses i).cfsRq k
    have hle := h.share_le hi k
    have hsum := hf g hm hp k
    have hshare : (fun j => ((s.next w t (.propagate i)).share k j).avg) =
        Function.update (fun j => (s.share k j).avg) i (s.total k g).avg := by
      funext j
      rw [propagate_share hw hm hp]
      by_cases hj : j = i
      · rw [if_pos hj, hj, Function.update_self, Signal.propagateSelf_avg hg (by omega)]
      · rw [if_neg hj, Function.update_of_ne hj]
    rw [propagate_total hw hm hp, propagate_pending,
      members_congr (s := s) (t := s.next w t (.propagate i)) rfl fun j _ => hcfs j, hshare]
    by_cases hq : q = (s.heap.ses i).cfsRq
    · subst hq
      rw [if_pos rfl, Signal.propagateParent_avg hg hle hq' hsum]
      exact (h _ k).revise (mem_members.mpr ⟨hi, rfl⟩) _
    · rw [if_neg hq]
      refine (h q k).congr fun j hj => ?_
      have hji : j ≠ i := by
        rintro rfl
        exact hq (mem_members.mp hj).2.symm
      rw [Function.update_of_ne hji]

theorem Still.attach (hs : s.Still t) (hw : w.pemt = true) {i : Nat} (hf : s.Fits (.attach i)) :
    (s.next w t (.attach i)).Still t := by
  have hsame := sameEntities_attach (s := s) (w := w) (t := t) i
  refine ⟨fun q => ?_, fun j hj => ?_, fun q k => ?_, fun j g hm => ?_⟩
  · by_cases hq : q = (s.heap.ses i).cfsRq
    · simpa [next, Heap.attachEntityLoadAvg, hq] using hs.cfs_clock (s.heap.ses i).cfsRq
    · simpa [next, Heap.attachEntityLoadAvg, hq] using hs.cfs_clock q
  · by_cases hji : j = i
    · simpa [next, Heap.attachEntityLoadAvg, hji] using hs.cfs_clock (s.heap.ses i).cfsRq
    · have hj' : j ∈ s.attached := by simpa [next, hji] using hj
      simpa [next, Heap.attachEntityLoadAvg, hji] using hs.se_clock j hj'
  · rw [attach_total hw]
    split
    · rename_i hq
      have hfit := hf k
      rw [hq, Signal.plus32_avg (by omega)]
      exact hfit
    · exact hs.fits q k
  · rw [hsame.cfsRq]
    exact hs.hierarchy j g (by rw [← hsame.myQ]; exact hm)

theorem Still.detach (hs : s.Still t) (hw : w.pemt = true) (h : AddsUp base s) {i : Nat}
    (hi : i ∈ s.attached) : (s.next w t (.detach i)).Still t := by
  have hses := detach_ses (s := s) (w := w) (t := t) i
  refine ⟨fun q => ?_, fun j hj => ?_, fun q k => ?_, fun j g hm => ?_⟩
  · by_cases hq : q = (s.heap.ses i).cfsRq
    · simpa [next, Heap.detachEntityLoadAvg, hq] using hs.cfs_clock (s.heap.ses i).cfsRq
    · simpa [next, Heap.detachEntityLoadAvg, hq] using hs.cfs_clock q
  · rw [hses]
    exact hs.se_clock j (Finset.mem_of_mem_erase hj)
  · have hfits := hs.fits q k
    rw [detach_total hw]
    split
    · rename_i hq
      subst hq
      rw [Signal.minus32_avg (h.share_le hi k) (by omega)]
      omega
    · exact hfits
  · rw [hses] at hm ⊢
    exact hs.hierarchy j g hm

theorem Still.remove (hs : s.Still t) {i : Nat} (hi : i ∈ s.attached) :
    (s.next w t (.remove i)).Still t := by
  have hses := remove_ses (w := w) hs hi
  refine ⟨fun q => ?_, fun j hj => ?_, fun q k => ?_, fun j g hm => ?_⟩
  · rw [remove_heap hs hi]
    by_cases hq : q = (s.heap.ses i).cfsRq
    · simpa [Heap.cfsRqOf, hq] using hs.cfs_clock (s.heap.ses i).cfsRq
    · simpa [hq] using hs.cfs_clock q
  · rw [hses]
    exact hs.se_clock j (Finset.mem_of_mem_erase hj)
  · rw [remove_total hs hi]
    exact hs.fits q k
  · rw [hses] at hm ⊢
    exact hs.hierarchy j g hm

theorem Still.updateCfs (hs : s.Still t) (hw : w.pemt = true) (h : AddsUp base s) (q' : Nat)
    (b : Bool) : (s.next w t (.updateCfs q' b)).Still t := by
  have hses := updateCfs_ses (w := w) hs q' b
  refine ⟨fun q => ?_, fun j hj => ?_, fun q k => ?_, fun j g hm => ?_⟩
  · rw [updateCfs_cfs hs]
    by_cases hq : q = q'
    · simpa [hq] using hs.cfs_clock q'
    · simpa [hq] using hs.cfs_clock q
  · rw [hses]
    exact hs.se_clock j hj
  · have hfits := hs.fits q k
    rw [updateCfs_total hw hs]
    split
    · rw [Signal.drain32_avg (h q k).pending_le (by omega)]
      omega
    · exact hfits
  · rw [hses] at hm ⊢
    exact hs.hierarchy j g hm

theorem Still.move (hs : s.Still t) {i q' : Nat} (ha : s.Allowed (.move i q')) :
    (s.next w t (.move i q')).Still t := by
  refine ⟨hs.cfs_clock, fun j hj => ?_, hs.fits, fun j g hm => ?_⟩
  · have hji : j ≠ i := fun hji => ha.1 (hji ▸ hj)
    simpa [next, hji] using hs.se_clock j hj
  · by_cases hji : j = i
    · subst hji
      simp only [next, Heap.setSe_ses, Function.update_self] at hm ⊢
      rintro rfl
      exact ha.2 hm
    · simp only [next, Heap.setSe_ses, Function.update_of_ne hji] at hm ⊢
      exact hs.hierarchy j g hm

theorem Still.propagate (hs : s.Still t) (hw : w.pemt = true) (h : AddsUp base s) {i : Nat}
    (ha : s.Allowed (.propagate i)) (hf : s.Fits (.propagate i)) :
    (s.next w t (.propagate i)).Still t := by
  obtain ⟨hcfs, hse, hrq, hmy⟩ := propagate_clocks (s := s) (w := w) (t := t) (i := i)
  refine ⟨fun q => ?_, fun j hj => ?_, fun q k => ?_, fun j g hm => ?_⟩
  · rw [hcfs]
    exact hs.cfs_clock q
  · rw [hse]
    exact hs.se_clock j hj
  · obtain hidle | ⟨g, hm, hp⟩ := s.heap.propagate_cases i
    · rw [next, Heap.propagate_idle hidle]
      exact hs.fits q k
    · have hi : i ∈ s.attached := ha (by rw [hm]; exact Option.some_ne_none g)
      have hsum := hf g hm hp k
      rw [propagate_total hw hm hp]
      split
      · rename_i hq
        subst hq
        rw [Signal.propagateParent_avg (hs.fits g k) (h.share_le hi k) (hs.fits _ k) hsum]
        exact hsum
      · exact hs.fits q k
  · rw [hrq]
    exact hs.hierarchy j g (by rw [← hmy]; exact hm)

/-- What every operation of a run preserves. -/
structure Sound (t : Nat) (base : Nat → Track → Nat) (s : AttachSys) : Prop where
  still : s.Still t
  addsUp : AddsUp base s

theorem Sound.next (h : Sound t base s) (hw : w.pemt = true) {e : AttachEvent}
    (ha : s.Allowed e) (hf : s.Fits e) : Sound t base (s.next w t e) := by
  obtain ⟨hs, hadd⟩ := h
  cases e with
  | move i q => exact ⟨hs.move ha, hadd.move ha.1 q⟩
  | attach i => exact ⟨hs.attach hw hf, hadd.attach hw ha hf⟩
  | detach i => exact ⟨hs.detach hw hadd ha, hadd.detach hw hs ha⟩
  | remove i => exact ⟨hs.remove ha, hadd.remove hw hs ha⟩
  | updateCfs q b => exact ⟨hs.updateCfs hw hadd q b, hadd.updateCfs hw hs q b⟩
  | propagate i => exact ⟨hs.propagate hw hadd ha hf, hadd.propagate hw hs ha hf⟩

theorem Sound.clampFree (h : Sound t base s) {e : AttachEvent} (ha : s.Allowed e)
    (hf : s.Fits e) : s.ClampFree e := by
  obtain ⟨hs, hadd⟩ := h
  cases e with
  | detach i =>
    intro k
    have hfits := hs.fits (s.heap.ses i).cfsRq k
    exact not_subClamps (hadd.share_le ha k) (by omega)
  | updateCfs q b =>
    intro k
    have hfits := hs.fits q k
    exact not_subClamps (hadd q k).pending_le (by omega)
  | propagate i =>
    intro g hm hp k
    have hi : i ∈ s.attached := ha (by rw [hm]; exact Option.some_ne_none g)
    exact (addPositive_delta (hadd.share_le hi k) (hs.fits g k) (hf g hm hp k)).1
  | _ => trivial

theorem Sound.groupFollows (h : Sound t base s) (hw : w.pemt = true) {e : AttachEvent}
    (ha : s.Allowed e) : s.GroupFollows w t e := by
  obtain ⟨hs, hadd⟩ := h
  cases e with
  | propagate i =>
    intro g hm hp k
    have hi : i ∈ s.attached := ha (by rw [hm]; exact Option.some_ne_none g)
    have hle := hadd.share_le hi k
    have hfits := hs.fits (s.heap.ses i).cfsRq k
    have hne : g ≠ (s.heap.ses i).cfsRq := (hs.hierarchy i g hm).symm
    rw [propagate_share hw hm hp, if_pos rfl, propagate_total hw hm hp, if_neg hne,
      Signal.propagateSelf_avg (hs.fits g k) (by omega)]
  | _ => trivial

/-- The new 32-bit sums do not wrap. -/
def SumFits (s : AttachSys) : AttachEvent → Prop
  | .attach i => ∀ k, (s.total k (s.heap.ses i).cfsRq).sum + (s.share k i).sum < 2 ^ 32
  | _ => True

def NoPropagation : AttachEvent → Prop
  | .propagate _ => False
  | _ => True

/-- The sums of a runqueue cover those of its entities and the pending removals, and
no entity's average promises more than its sum holds. -/
structure SumsCover (s : AttachSys) : Prop where
  covers : ∀ q k, Ledger.Covers (s.total k q).sum (s.members q) (fun i => (s.share k i).sum)
    (s.pending k q * k.max)
  sum_lt : ∀ q k, (s.total k q).sum < 2 ^ 32
  avg_le : ∀ i k, (s.share k i).avg * k.max ≤ (s.share k i).sum

theorem SameEntities.share_sum {s' : AttachSys} (h : SameEntities s s') (k : Track) :
    (fun i => (s'.share k i).sum) = fun i => (s.share k i).sum :=
  funext fun i => congrArg Signal.sum (h.share k i)

theorem SameEntities.avg_le {s' : AttachSys} (h : SameEntities s s') (hc : s.SumsCover)
    (i : Nat) (k : Track) : (s'.share k i).avg * k.max ≤ (s'.share k i).sum := by
  rw [h.share]
  exact hc.avg_le i k

theorem SumsCover.attach (hc : s.SumsCover) (hw : w.pemt = true) {i : Nat} (hi : i ∉ s.attached)
    (hf : s.SumFits (.attach i)) : (s.next w t (.attach i)).SumsCover := by
  have hsame := sameEntities_attach (s := s) (w := w) (t := t) i
  have hsum : ∀ k, ((s.total k (s.heap.ses i).cfsRq).plus32 (s.share k i)).sum =
      (s.total k (s.heap.ses i).cfsRq).sum + (s.share k i).sum := fun k => u32_of_lt (hf k)
  refine ⟨fun q k => ?_, fun q k => ?_, hsame.avg_le hc⟩
  · rw [attach_total hw, members_insert rfl hsame.cfsRq, hsame.share_sum, attach_pending]
    by_cases hq : q = (s.heap.ses i).cfsRq
    · subst hq
      have hmem : i ∉ s.members (s.heap.ses i).cfsRq := fun hm => hi (mem_members.mp hm).1
      rw [if_pos rfl, if_pos rfl, hsum]
      exact (hc.covers _ k).join hmem
    · rw [if_neg hq, if_neg (Ne.symm hq)]
      exact hc.covers q k
  · rw [attach_total hw]
    split
    · rename_i hq
      rw [hq, hsum]
      exact hf k
    · exact hc.sum_lt q k

theorem SumsCover.detach (hc : s.SumsCover) (hw : w.pemt = true) {i : Nat} (hi : i ∈ s.attached) :
    (s.next w t (.detach i)).SumsCover := by
  have hsame := sameEntities_of_ses (detach_ses (s := s) (w := w) (t := t) i)
  have hle : ∀ k, (s.share k i).sum ≤ (s.total k (s.heap.ses i).cfsRq).sum :=
    fun k => (hc.covers _ k).share_le (mem_members.mpr ⟨hi, rfl⟩)
  have hsum : ∀ k, ((s.total k (s.heap.ses i).cfsRq).minus32 (s.share k i)).sum =
      (s.total k (s.heap.ses i).cfsRq).sum - (s.share k i).sum :=
    fun k => subPositive32_of_le (hle k) (hc.sum_lt _ k)
  refine ⟨fun q k => ?_, fun q k => ?_, hsame.avg_le hc⟩
  · rw [detach_total hw, members_erase rfl hsame.cfsRq, hsame.share_sum, detach_pending]
    by_cases hq : q = (s.heap.ses i).cfsRq
    · subst hq
      rw [if_pos rfl, if_pos rfl, hsum]
      exact (hc.covers _ k).leave (mem_members.mpr ⟨hi, rfl⟩)
    · rw [if_neg hq, if_neg (Ne.symm hq)]
      exact hc.covers q k
  · have hlt := hc.sum_lt q k
    rw [detach_total hw]
    split
    · rename_i hq
      subst hq
      rw [hsum]
      omega
    · exact hlt

theorem SumsCover.remove (hc : s.SumsCover) (hw : w.pemt = true) (h : Sound t base s) {i : Nat}
    (hi : i ∈ s.attached) : (s.next w t (.remove i)).SumsCover := by
  have hsame := sameEntities_of_ses (remove_ses (w := w) h.still hi)
  refine ⟨fun q k => ?_, fun q k => ?_, hsame.avg_le hc⟩
  · rw [remove_total h.still hi, members_erase rfl hsame.cfsRq, hsame.share_sum,
      remove_pending hw h.still hi]
    by_cases hq : q = (s.heap.ses i).cfsRq
    · subst hq
      have hle := ((h.addsUp (s.heap.ses i).cfsRq k).defer (mem_members.mpr ⟨hi, rfl⟩)).pending_le
      have hfits := h.still.fits (s.heap.ses i).cfsRq k
      rw [if_pos rfl, if_pos rfl, u64_of_lt (by omega), Nat.add_mul]
      exact (hc.covers _ k).defer (mem_members.mpr ⟨hi, rfl⟩) (hc.avg_le i k)
    · rw [if_neg hq, if_neg (Ne.symm hq)]
      exact hc.covers q k
  · rw [remove_total h.still hi]
    exact hc.sum_lt q k

theorem SumsCover.updateCfs (hc : s.SumsCover) (hw : w.pemt = true) (hs : s.Still t) (q' : Nat)
    (b : Bool) : (s.next w t (.updateCfs q' b)).SumsCover := by
  have hsame := sameEntities_of_ses (updateCfs_ses (w := w) hs q' b)
  have hsum : ∀ k, ((s.total k q').drain32 k.max (s.pending k q')).sum =
      (s.total k q').sum - s.pending k q' * k.max := by
    intro k
    unfold Signal.drain32
    split
    · exact subPositive32_of_le (hc.covers q' k).pending_le (hc.sum_lt q' k)
    · rename_i hz
      rw [show s.pending k q' = 0 by omega]
      simp
  refine ⟨fun q k => ?_, fun q k => ?_, hsame.avg_le hc⟩
  · rw [updateCfs_total hw hs, members_congr (s := s) (t := s.next w t (.updateCfs q' b)) rfl
      fun i _ => hsame.cfsRq i, hsame.share_sum, updateCfs_pending hw hs]
    by_cases hq : q = q'
    · subst hq
      rw [if_pos rfl, if_pos rfl, hsum, Nat.zero_mul]
      exact (hc.covers q k).settle
    · rw [if_neg hq, if_neg hq]
      exact hc.covers q k
  · have hlt := hc.sum_lt q k
    rw [updateCfs_total hw hs]
    split
    · rename_i hq
      subst hq
      rw [hsum]
      omega
    · exact hlt

theorem SumsCover.move (hc : s.SumsCover) {i : Nat} (hi : i ∉ s.attached) (q' : Nat) :
    (s.next w t (.move i q')).SumsCover := by
  have hne : ∀ j ∈ s.attached, j ≠ i := fun j hj hji => hi (hji ▸ hj)
  have hshare : ∀ k j, (s.next w t (.move i q')).share k j = s.share k j := by
    intro k j
    by_cases hj : j = i
    · simp [next, AttachSys.share, hj]
    · simp [next, AttachSys.share, hj]
  refine ⟨fun q k => ?_, hc.sum_lt, fun j k => ?_⟩
  · have hm : (s.next w t (.move i q')).members q = s.members q :=
      members_congr (s := s) (t := s.next w t (.move i q')) rfl
        (fun j hj => by simp [next, hne j hj]) q
    rw [hm]
    exact (hc.covers q k).congr fun j _ => congrArg Signal.sum (hshare k j)
  · rw [hshare]
    exact hc.avg_le j k

theorem SumsCover.next (hc : s.SumsCover) (hw : w.pemt = true) (h : Sound t base s)
    {e : AttachEvent} (ha : s.Allowed e) (hn : NoPropagation e) (hf : s.SumFits e) :
    (s.next w t e).SumsCover := by
  cases e with
  | move i q => exact hc.move ha.1 q
  | attach i => exact hc.attach hw ha hf
  | detach i => exact hc.detach hw ha
  | remove i => exact hc.remove hw h ha
  | updateCfs q b => exact hc.updateCfs hw h.still q b
  | propagate i => exact hn.elim

end AttachSys

open AttachSys in
/-- At one instant the averages of a runqueue add up over every run, no clamp fires on
them, propagated groups follow their runqueue, and without propagation the sums keep
covering their entities as long as no 32-bit sum wraps. -/
theorem members_add_up {w : World} (hw : w.pemt = true) {t : Nat} {base : Nat → Track → Nat}
    {s : AttachSys} (hs : s.Still t) (hadd : AddsUp base s) {es : List AttachEvent}
    (hes : Along (next w t) (fun s e => s.Allowed e ∧ s.Fits e) s es) :
    AddsUp base (run (next w t) s es) ∧
      Along (next w t) (fun s e => s.ClampFree e ∧ s.GroupFollows w t e) s es ∧
      (s.SumsCover → Along (next w t) (fun s e => NoPropagation e ∧ s.SumFits e) s es →
        (run (next w t) s es).SumsCover) := by
  have h : Sound t base s := ⟨hs, hadd⟩
  have hstep : ∀ s e, Sound t base s → s.Allowed e ∧ s.Fits e → Sound t base (s.next w t e) :=
    fun _ _ h he => h.next hw he.1 he.2
  refine ⟨(hes.invariant hstep h).addsUp, ?_, fun hc hno => ?_⟩
  · exact hes.imp hstep (fun _ _ h he => ⟨h.clampFree he.1 he.2, h.groupFollows hw he.1⟩) h
  · have hinv := (hes.and hno).invariant (I := fun s => Sound t base s ∧ s.SumsCover)
      (fun _ _ h he => ⟨h.1.next hw he.1.1 he.1.2, h.2.next hw h.1 he.1.1 he.2.1 he.2.2⟩) ⟨h, hc⟩
    exact hinv.2

section Crowd

open AttachSys

/-- A runqueue with nothing in it, and any number of tasks, all fully used. -/
def crowd : AttachSys where
  heap := {
    ses := fun _ => ⟨{ idleAvg with util := ⟨1024 * loadAvgMax, 1024⟩ }, 1024, true, 0, none⟩
    cfs := fun _ => ⟨idleAvg, 0, ⟨0, 0⟩, 0, false, ⟨0, 0, 0, 0, 0, 0, 0⟩, none, 0, true, 0⟩
    tgs := fun _ => ⟨0, 0, true⟩
    depth := 0
    notices := [] }
  attached := ∅

def crowdWorld : World := ⟨true, 0, fun _ => 1024, fun _ => 1024⟩

theorem crowd_total (k : Track) (q : Nat) : crowd.total k q = ⟨0, 0⟩ := by cases k <;> rfl

theorem crowd_share (k : Track) (i : Nat) : crowd.share k i =
    if k = .util then ⟨1024 * loadAvgMax, 1024⟩ else ⟨0, 0⟩ := by cases k <;> rfl

theorem crowd_pending (k : Track) (q : Nat) : crowd.pending k q = 0 := by cases k <;> rfl

theorem crowd_members (q : Nat) : crowd.members q = ∅ := Finset.filter_empty _

theorem crowd_still : crowd.Still 0 where
  cfs_clock _ := rfl
  se_clock _ hi := absurd hi (Finset.notMem_empty _)
  fits q k := by simp [crowd_total]
  hierarchy _ _ hm := absurd hm (by simp [crowd])

theorem crowd_addsUp : AddsUp (fun _ _ => 0) crowd := by
  intro q k
  simp [Ledger.Balanced, crowd_total, crowd_pending, crowd_members]

theorem crowd_sumsCover : crowd.SumsCover where
  covers q k := by simp [Ledger.Covers, crowd_total, crowd_pending, crowd_members]
  sum_lt q k := by simp [crowd_total]
  avg_le i k := by
    rw [crowd_share]
    cases k <;> simp [Track.max, Track.pick, Track.fast]

/-- Entity 0 stands on the runqueue 0 for a group with the runqueue 1, where all tasks are that
stall in half of their cycles. -/
def family : AttachSys where
  heap := { crowd.heap with
    ses := fun i => if i = 0 then ⟨idleAvg, 1024, true, 0, some 1⟩
      else ⟨{ idleAvg with
        util := ⟨1024 * loadAvgMax, 1024⟩
        utilFast := ⟨1024 * loadAvgFastMax, 1024⟩
        coreUtil := ⟨512 * loadAvgMax, 512⟩
        memoryUtil := ⟨512 * loadAvgMax, 512⟩
        coreUtilFast := ⟨512 * loadAvgFastMax, 512⟩
        memoryUtilFast := ⟨512 * loadAvgFastMax, 512⟩ }, 1024, true, 1, none⟩
    cfs := fun q => { crowd.heap.cfs q with isRoot := decide (q = 0) } }
  attached := ∅

theorem family_total (k : Track) (q : Nat) : family.total k q = ⟨0, 0⟩ := by cases k <;> rfl

theorem family_still : family.Still 0 where
  cfs_clock _ := rfl
  se_clock _ hi := absurd hi (Finset.notMem_empty _)
  fits q k := by simp [family_total]
  hierarchy i g hm := by
    simp only [family] at hm ⊢
    split at hm
    · cases hm
      rw [if_pos ‹_›]
      decide
    · cases hm

theorem family_addsUp : AddsUp (fun _ _ => 0) family := by
  intro q k
  have hpending : family.pending k q = 0 := by cases k <;> rfl
  have hmembers : family.members q = ∅ := Finset.filter_empty _
  simp [Ledger.Balanced, family_total, hpending, hmembers]

def departure : List AttachEvent :=
  [.attach 0, .attach 1, .propagate 0, .remove 1, .updateCfs 1 true, .propagate 0]

theorem departure_valid :
    Along (next crowdWorld 0) (fun s e => s.Allowed e ∧ s.Fits e) family departure := by
  have hnew : 1 ∉ insert 0 (∅ : Finset Nat) := by decide
  refine ⟨⟨Finset.notMem_empty _, fun k => by cases k <;> decide⟩,
    ⟨hnew, fun k => by cases k <;> decide⟩, ⟨fun _ => by decide, ?_⟩,
    ⟨Finset.mem_insert_self _ _, trivial⟩, ⟨trivial, trivial⟩, ⟨fun _ => by decide, ?_⟩, trivial⟩
  · rintro g hg - k
    cases hg
    cases k <;> decide
  · rintro g hg - k
    cases hg
    cases k <;> decide

/-- The departure of a task reaches the entity of its group in every signal; and without groups a
task is taken off its runqueue and put back while its departure is pending. -/
theorem members_add_up_migration :
    (((run (next crowdWorld 0) family (departure.take 3)).share .memoryUtilFast 0).avg = 512 ∧
      ((run (next crowdWorld 0) family departure).share .memoryUtilFast 0).avg = 0 ∧
      AddsUp (fun _ _ => 0) (run (next crowdWorld 0) family departure) ∧
      Along (next crowdWorld 0) (fun s e => s.ClampFree e ∧ s.GroupFollows crowdWorld 0 e) family
        departure) ∧
    AddsUp (fun _ _ => 0) (run (next crowdWorld 0) crowd
      [.attach 0, .remove 0, .attach 0, .updateCfs 0 true]) ∧
    (run (next crowdWorld 0) crowd
      [.attach 0, .remove 0, .attach 0, .updateCfs 0 true]).SumsCover := by
  have hfamily := members_add_up (w := crowdWorld) rfl family_still family_addsUp departure_valid
  refine ⟨⟨by decide, by decide, hfamily.1, hfamily.2.1⟩, ?_⟩
  have hvalid : Along (next crowdWorld 0) (fun s e => s.Allowed e ∧ s.Fits e) crowd
      [.attach 0, .remove 0, .attach 0, .updateCfs 0 true] :=
    ⟨⟨Finset.notMem_empty _, fun k => by cases k <;> decide⟩, ⟨Finset.mem_insert_self _ _, trivial⟩,
      ⟨Finset.notMem_erase _ _, fun k => by cases k <;> decide⟩, ⟨trivial, trivial⟩, trivial⟩
  have h := members_add_up (w := crowdWorld) rfl crowd_still crowd_addsUp hvalid
  exact ⟨h.1, h.2.2 crowd_sumsCover ⟨⟨trivial, fun k => by cases k <;> decide⟩, ⟨trivial, trivial⟩,
    ⟨trivial, fun k => by cases k <;> decide⟩, ⟨trivial, trivial⟩, trivial⟩⟩

/-- The first `n` tasks are on the runqueue `0`. -/
structure Queued (n : Nat) (s : AttachSys) : Prop where
  attached : s.attached = Finset.range n
  entities : SameEntities crowd s
  total : ∀ k, s.total k 0 =
    ⟨u32 (n * (crowd.share k 0).sum), u64 (n * (crowd.share k 0).avg)⟩

theorem Queued.attach {n : Nat} {s : AttachSys} (h : Queued n s) :
    Queued (n + 1) (s.next crowdWorld 0 (.attach n)) := by
  have hsame := sameEntities_attach (s := s) (w := crowdWorld) (t := 0) n
  have hq : (s.heap.ses n).cfsRq = 0 := h.entities.cfsRq n
  have hshare : ∀ k, s.share k n = crowd.share k 0 := fun k => by
    rw [h.entities.share, crowd_share, crowd_share]
  refine ⟨?_, ⟨fun k i => ?_, fun i => ?_, fun i => ?_⟩, fun k => ?_⟩
  · rw [Finset.range_add_one, ← h.attached]
    rfl
  · rw [hsame.share, h.entities.share]
  · rw [hsame.cfsRq, h.entities.cfsRq]
  · rw [hsame.myQ, h.entities.myQ]
  · rw [attach_total rfl, hq, if_pos rfl, hshare, h.total, Nat.add_mul, Nat.add_mul]
    simp only [Signal.plus32, u32, u64, Nat.one_mul, Nat.mod_add_mod]

theorem Queued.attach_fits {n : Nat} {s : AttachSys} (h : Queued n s) (hn : n < 2 ^ 32) :
    s.Allowed (.attach n) ∧ s.Fits (.attach n) := by
  have hq : (s.heap.ses n).cfsRq = 0 := h.entities.cfsRq n
  refine ⟨?_, fun k => ?_⟩
  · change n ∉ s.attached
    simp [h.attached]
  · have havg : (crowd.share k n).avg ≤ 1024 := by
      rw [crowd_share]
      split <;> simp
    have hle := u64_le (n * (crowd.share k n).avg)
    have hmul := Nat.mul_le_mul hn.le havg
    rw [hq, h.entities.share, h.total]
    dsimp only
    rw [crowd_share k 0, ← crowd_share k n]
    omega

theorem Queued.attach_all {n m : Nat} {s : AttachSys} (h : Queued n s) (hm : n + m ≤ 2 ^ 32) :
    Along (next crowdWorld 0) (fun s e => s.Allowed e ∧ s.Fits e) s
      ((List.range' n m).map .attach) ∧
    Queued (n + m) (run (next crowdWorld 0) s ((List.range' n m).map .attach)) := by
  induction m generalizing n s with
  | zero => exact ⟨trivial, h⟩
  | succ m ih =>
    obtain ⟨halong, hend⟩ := ih h.attach (by omega)
    refine ⟨⟨h.attach_fits (by omega), halong⟩, ?_⟩
    rw [← Nat.add_assoc, Nat.add_right_comm]
    exact hend

/-- Eighty-eight fully used tasks are more than a `u32` sum can cover. -/
theorem members_sum_wraps : ¬ ∀ (w : World) (t : Nat) (base : Nat → Track → Nat) (s : AttachSys)
    (es : List AttachEvent), w.pemt = true → s.Still t → AddsUp base s →
    Along (next w t) (fun s e => s.Allowed e ∧ s.Fits e) s es → s.SumsCover →
    Along (next w t) (fun _ e => NoPropagation e) s es → (run (next w t) s es).SumsCover := by
  intro hclaim
  have hempty : Queued 0 crowd :=
    ⟨rfl, ⟨fun _ _ => rfl, fun _ => rfl, fun _ => rfl⟩, fun k => by cases k <;> rfl⟩
  obtain ⟨halong, hend⟩ := hempty.attach_all (m := 88) (by norm_num)
  have hcover := hclaim crowdWorld 0 _ crowd _ rfl crowd_still crowd_addsUp halong crowd_sumsCover
    (along_of_forall (by simp [NoPropagation]) _)
  have hmem : 0 ∈ (run (next crowdWorld 0) crowd ((List.range' 0 88).map .attach)).members 0 :=
    mem_members.mpr ⟨by rw [hend.attached]; decide, hend.entities.cfsRq 0⟩
  have hle := (hcover.covers 0 .util).share_le hmem
  rw [hend.entities.share, hend.total, crowd_share] at hle
  simp [loadAvgMax, u32] at hle

end Crowd

end MSchedutil
