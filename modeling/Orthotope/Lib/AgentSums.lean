import Mathlib.Algebra.BigOperators.Group.Finset.Basic
import Mathlib.Algebra.Order.BigOperators.Group.Finset
import Mathlib.Data.Fintype.BigOperators

/-! Sums over the agents of a system in which one agent moves at a time.  `sum_move` says what a
move does to such a sum.  `Pledged` is the rule for a stock that agents may only extend after they
have found it used up: what an agent may still add is its pledge, and as the stock is small whenever
a pledge is made, it stays small. -/

namespace AgentSums

variable {K : Type*} [Fintype K]

section Moves

variable [DecidableEq K] {M : Type*} [AddCommMonoid M] {f g : K → M} {k : K}

/-- One agent moves. -/
theorem sum_move (h : ∀ j, j ≠ k → g j = f j) : ∑ j, g j + f k = ∑ j, f j + g k := by
  have hrest : ∑ j ∈ Finset.univ.erase k, g j = ∑ j ∈ Finset.univ.erase k, f j :=
    Finset.sum_congr rfl fun j hj => h j (Finset.ne_of_mem_erase hj)
  rw [← Finset.sum_erase_add _ _ (Finset.mem_univ k), hrest,
    ← Finset.sum_erase_add Finset.univ f (Finset.mem_univ k)]
  exact add_right_comm ..

end Moves

section Pledges

theorem sum_le_card_mul {f : K → Nat} {n : Nat} (h : ∀ k, f k ≤ n) :
    ∑ k, f k ≤ Fintype.card K * n := by
  calc ∑ k, f k ≤ ∑ _k : K, n := Finset.sum_le_sum fun k _ => h k
    _ = Fintype.card K * n := by rw [Finset.sum_const, Finset.card_univ, Nat.nsmul_eq_mul]

/-- Only the agents that are active count. -/
theorem sum_le_card_filter_mul {f : K → Nat} {n : Nat} {active : K → Bool} (h : ∀ k, f k ≤ n)
    (hactive : ∀ k, active k = false → f k = 0) :
    ∑ k, f k ≤ (Finset.univ.filter fun k => active k = true).card * n := by
  calc ∑ k, f k = ∑ k with active k = true, f k := by
        refine (Finset.sum_filter_of_ne fun k _ hne => ?_).symm
        by_contra hk
        exact hne (hactive k (Bool.eq_false_iff.mpr hk))
    _ ≤ ∑ k with active k = true, n := Finset.sum_le_sum fun k _ => h k
    _ = _ := by rw [Finset.sum_const, Nat.nsmul_eq_mul]

/-- The stock and all that is pledged, of which `r` is allowed over the bound. -/
def Pledged (bound r stock : Nat) (pledge : K → Nat) : Prop :=
  stock + ∑ k, pledge k ≤ bound + r

variable {bound r stock stock' : Nat} {pledge pledge' : K → Nat}

theorem Pledged.stock_le (h : Pledged bound r stock pledge) : stock ≤ bound + r :=
  le_trans (Nat.le_add_right _ _) h

theorem Pledged.of_stock (hr : ∑ k, pledge k ≤ r) (h : stock ≤ bound) :
    Pledged bound r stock pledge :=
  Nat.add_le_add h hr

/-- A step adds no more than is redeemed of the pledges, or finds the stock small. -/
theorem Pledged.step (h : Pledged bound r stock pledge) (hr : ∑ k, pledge' k ≤ r)
    (hstep : stock' + ∑ k, pledge' k ≤ stock + ∑ k, pledge k ∨ stock' ≤ bound) :
    Pledged bound r stock' pledge' := by
  rcases hstep with hstep | hstep
  · exact hstep.trans h
  · exact .of_stock hr hstep

end Pledges

end AgentSums
