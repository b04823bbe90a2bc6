import Mathlib.Algebra.BigOperators.Group.Finset.Basic
import Mathlib.Algebra.Order.BigOperators.Group.Finset

/-! Running totals. A total is kept as the sum of a base, the shares of its members
and an amount that is still to be taken out; members join, leave at once, leave with
the withdrawal deferred, or change their share. -/

namespace Ledger

variable {ι : Type*}

def Balanced (total base : Nat) (members : Finset ι) (share : ι → Nat) (pending : Nat) : Prop :=
  total = base + ∑ i ∈ members, share i + pending

namespace Balanced

variable {total base pending : Nat} {members : Finset ι} {share share' : ι → Nat}

theorem congr (h : Balanced total base members share pending)
    (hs : ∀ i ∈ members, share' i = share i) : Balanced total base members share' pending := by
  unfold Balanced at h ⊢
  rw [Finset.sum_congr rfl hs]
  exact h

theorem share_le (h : Balanced total base members share pending) {i : ι} (hi : i ∈ members) :
    share i ≤ total := by
  have := Finset.single_le_sum (f := share) (fun _ _ => Nat.zero_le _) hi
  unfold Balanced at h
  omega

theorem pending_le (h : Balanced total base members share pending) : pending ≤ total := by
  unfold Balanced at h
  omega

theorem settle (h : Balanced total base members share pending) :
    Balanced (total - pending) base members share 0 := by
  unfold Balanced at h ⊢
  omega

variable [DecidableEq ι]

theorem join (h : Balanced total base members share pending) {i : ι} (hi : i ∉ members) :
    Balanced (total + share i) base (insert i members) share pending := by
  unfold Balanced at h ⊢
  rw [Finset.sum_insert hi]
  omega

theorem leave (h : Balanced total base members share pending) {i : ι} (hi : i ∈ members) :
    Balanced (total - share i) base (members.erase i) share pending := by
  have := Finset.add_sum_erase members share hi
  unfold Balanced at h ⊢
  omega

theorem defer (h : Balanced total base members share pending) {i : ι} (hi : i ∈ members) :
    Balanced total base (members.erase i) share (pending + share i) := by
  have := Finset.add_sum_erase members share hi
  unfold Balanced at h ⊢
  omega

theorem revise (h : Balanced total base members share pending) {i : ι} (hi : i ∈ members)
    (v : Nat) : Balanced (total - share i + v) base members (Function.update share i v) pending := by
  have hsum := Finset.add_sum_erase members share hi
  have hsum' := Finset.add_sum_erase members (Function.update share i v) hi
  rw [Function.update_self, Finset.sum_congr rfl fun j hj =>
    Function.update_of_ne (Finset.ne_of_mem_erase hj) _ _] at hsum'
  unfold Balanced at h ⊢
  omega

end Balanced

/-- The weaker account in which the total may exceed what it is made of. -/
def Covers (total : Nat) (members : Finset ι) (share : ι → Nat) (pending : Nat) : Prop :=
  ∑ i ∈ members, share i + pending ≤ total

namespace Covers

variable {total pending : Nat} {members : Finset ι} {share share' : ι → Nat}

theorem congr (h : Covers total members share pending)
    (hs : ∀ i ∈ members, share' i = share i) : Covers total members share' pending := by
  unfold Covers at h ⊢
  rw [Finset.sum_congr rfl hs]
  exact h

theorem share_le (h : Covers total members share pending) {i : ι} (hi : i ∈ members) :
    share i ≤ total := by
  have := Finset.single_le_sum (f := share) (fun _ _ => Nat.zero_le _) hi
  unfold Covers at h
  omega

theorem pending_le (h : Covers total members share pending) : pending ≤ total := by
  unfold Covers at h
  omega

theorem settle (h : Covers total members share pending) :
    Covers (total - pending) members share 0 := by
  unfold Covers at h ⊢
  omega

variable [DecidableEq ι]

theorem join (h : Covers total members share pending) {i : ι} (hi : i ∉ members) :
    Covers (total + share i) (insert i members) share pending := by
  unfold Covers at h ⊢
  rw [Finset.sum_insert hi]
  omega

theorem leave (h : Covers total members share pending) {i : ι} (hi : i ∈ members) :
    Covers (total - share i) (members.erase i) share pending := by
  have := Finset.add_sum_erase members share hi
  unfold Covers at h ⊢
  omega

/-- A deferred withdrawal may be smaller than the share it stands for. -/
theorem defer (h : Covers total members share pending) {i : ι} (hi : i ∈ members) {v : Nat}
    (hv : v ≤ share i) : Covers total (members.erase i) share (pending + v) := by
  have := Finset.add_sum_erase members share hi
  unfold Covers at h ⊢
  omega

end Covers

end Ledger
