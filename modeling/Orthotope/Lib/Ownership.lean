import Mathlib.Algebra.BigOperators.Group.Finset.Basic
import Mathlib.Algebra.Order.BigOperators.Group.Finset
import Mathlib.Algebra.Order.Group.Multiset
import Mathlib.Data.Multiset.Pairwise

/-! Exclusive ownership.  Each of a family of holders has a multiset of resources, and any two
resources held anywhere are apart in the sense of a symmetric relation.  The family may be infinite,
so apartness is stated for the total of every finite set of holders.  The rules say which changes of
the holdings keep it: redistributing what a few holders have between them, and adding resources that
are apart from everything held. -/

namespace Ownership

variable {β : Type*} {R : β → β → Prop} [Std.Symm R]

omit [Std.Symm R] in
theorem pairwise_of_le_coe {l : List β} {s : Multiset β} (h : s ≤ (l : Multiset β))
    (hl : l.Pairwise R) : s.Pairwise R := by
  induction s using Quotient.inductionOn with
  | h t =>
    obtain ⟨t', hperm, hsub⟩ := Multiset.coe_le.mp h
    exact ⟨t', Multiset.coe_eq_coe.mpr hperm.symm, hl.sublist hsub⟩

omit [Std.Symm R] in
theorem pairwise_mono {s t : Multiset β} (h : s ≤ t) (ht : t.Pairwise R) : s.Pairwise R := by
  obtain ⟨l, rfl, hl⟩ := ht
  exact pairwise_of_le_coe h hl

theorem pairwise_add {s t : Multiset β} :
    (s + t).Pairwise R ↔ s.Pairwise R ∧ t.Pairwise R ∧ ∀ x ∈ s, ∀ y ∈ t, R x y := by
  induction s, t using Quotient.inductionOn₂ with
  | h a b =>
    simp only [Multiset.quot_mk_to_coe, Multiset.coe_add, Multiset.pairwise_coe_iff_pairwise,
      List.pairwise_append, Multiset.mem_coe]

variable {H : Type*}

/-- Everything held by a finite set of holders is pairwise apart. -/
def Apart (R : β → β → Prop) (own : H → Multiset β) : Prop :=
  ∀ S : Finset H, (∑ h ∈ S, own h).Pairwise R

namespace Apart

variable {own own' : H → Multiset β}

omit [Std.Symm R] in
theorem of_empty (h : ∀ h, own h = 0) : Apart R own := by
  intro S
  simp only [h, Finset.sum_const_zero]
  exact Multiset.pairwise_zero R

omit [Std.Symm R] in
theorem holder (ha : Apart R own) (h : H) : (own h).Pairwise R := by
  simpa using ha {h}

theorem of_ne [DecidableEq H] (ha : Apart R own) {g h : H} (hne : g ≠ h) {x y : β}
    (hx : x ∈ own g) (hy : y ∈ own h) : R x y := by
  have := ha {g, h}
  rw [Finset.sum_pair hne] at this
  exact (pairwise_add.mp this).2.2 x hx y hy

/-- Any two things held are the same or apart. -/
theorem eq_or [DecidableEq H] (ha : Apart R own) {g h : H} {x y : β} (hx : x ∈ own g)
    (hy : y ∈ own h) : x = y ∨ R x y := by
  by_cases hne : g = h
  · subst hne
    obtain ⟨l, hl, hpw⟩ := ha.holder g
    rw [hl] at hx hy
    by_cases heq : x = y
    · exact Or.inl heq
    · exact Or.inr (hpw.forall hx hy heq)
  · exact Or.inr (ha.of_ne hne hx hy)

omit [Std.Symm R] in
/-- The holdings of `T ∪ S` are those of `S` and those of the others. -/
theorem sum_union_eq [DecidableEq H] (S T : Finset H) (f : H → Multiset β) :
    ∑ h ∈ T ∪ S, f h = ∑ h ∈ T \ S, f h + ∑ h ∈ S, f h := by
  rw [← Finset.sdiff_union_self_eq_union, Finset.sum_union Finset.sdiff_disjoint]

/-- The holders in `S` exchange `old` for `new`, and keep or drop the `rest`.  The members of `new`
are apart from each other, and each one from everything that some member of `old` is apart from. -/
theorem exchange [DecidableEq H] (ha : Apart R own) (S : Finset H) {rest old new : Multiset β}
    (hout : ∀ h ∉ S, own' h = own h) (hold : rest + old ≤ ∑ h ∈ S, own h)
    (hnew : ∑ h ∈ S, own' h ≤ rest + new) (hpw : new.Pairwise R)
    (hsub : ∀ x ∈ new, ∃ o ∈ old, ∀ y, R o y → R x y) : Apart R own' := by
  intro T
  have hle : ∑ h ∈ T, own' h ≤ (∑ h ∈ T \ S, own h + rest) + new := by
    calc ∑ h ∈ T, own' h ≤ ∑ h ∈ T ∪ S, own' h :=
          Finset.sum_le_sum_of_subset Finset.subset_union_left
      _ = ∑ h ∈ T \ S, own' h + ∑ h ∈ S, own' h := sum_union_eq S T own'
      _ = ∑ h ∈ T \ S, own h + ∑ h ∈ S, own' h := by
          rw [Finset.sum_congr rfl fun h hh => hout h (Finset.mem_sdiff.mp hh).2]
      _ ≤ ∑ h ∈ T \ S, own h + (rest + new) := by gcongr
      _ = (∑ h ∈ T \ S, own h + rest) + new := (add_assoc _ _ _).symm
  have hbefore : ((∑ h ∈ T \ S, own h + rest) + old).Pairwise R := by
    refine pairwise_mono ?_ (ha (T ∪ S))
    rw [sum_union_eq, add_assoc]
    gcongr
  obtain ⟨hkeep, _, hcross⟩ := pairwise_add.mp hbefore
  refine pairwise_mono hle (pairwise_add.mpr ⟨hkeep, hpw, fun x hx y hy => ?_⟩)
  obtain ⟨o, ho, hsub⟩ := hsub y hy
  exact Std.Symm.symm _ _ (hsub x (Std.Symm.symm _ _ (hcross x hx o ho)))

/-- Holders outside `S` keep what they have, and those in `S` together end up with no more than they
had: the holdings stay apart. -/
theorem redistribute [DecidableEq H] (ha : Apart R own) (S : Finset H)
    (hout : ∀ h ∉ S, own' h = own h) (hin : ∑ h ∈ S, own' h ≤ ∑ h ∈ S, own h) :
    Apart R own' :=
  ha.exchange S hout (by rw [add_zero]) (by rwa [add_zero]) (Multiset.pairwise_zero R) (by simp)

/-- The holders in `S` gain `new`, whose members are apart from each other and from everything
held. -/
theorem grow [DecidableEq H] (ha : Apart R own) (S : Finset H) {new : Multiset β}
    (hout : ∀ h ∉ S, own' h = own h) (hin : ∑ h ∈ S, own' h ≤ ∑ h ∈ S, own h + new)
    (hnew : new.Pairwise R) (hfresh : ∀ x ∈ new, ∀ h, ∀ y ∈ own h, R x y) : Apart R own' := by
  intro T
  have hle : ∑ h ∈ T, own' h ≤ ∑ h ∈ T ∪ S, own h + new := by
    calc ∑ h ∈ T, own' h ≤ ∑ h ∈ T ∪ S, own' h :=
          Finset.sum_le_sum_of_subset Finset.subset_union_left
      _ = ∑ h ∈ T \ S, own' h + ∑ h ∈ S, own' h := sum_union_eq S T own'
      _ = ∑ h ∈ T \ S, own h + ∑ h ∈ S, own' h := by
          rw [Finset.sum_congr rfl fun h hh => hout h (Finset.mem_sdiff.mp hh).2]
      _ ≤ ∑ h ∈ T \ S, own h + (∑ h ∈ S, own h + new) := by gcongr
      _ = ∑ h ∈ T ∪ S, own h + new := by rw [sum_union_eq S T own, add_assoc]
  refine pairwise_mono hle (pairwise_add.mpr ⟨ha _, hnew, fun x hx y hy => ?_⟩)
  obtain ⟨h, _, hxh⟩ := Multiset.mem_sum.mp hx
  exact Std.Symm.symm _ _ (hfresh y hy h x hxh)

end Apart

/-- What is held somewhere, after a change of the holdings of `S`. -/
theorem exists_mem_iff [DecidableEq H] {own own' : H → Multiset β} (S : Finset H)
    (hout : ∀ h ∉ S, own' h = own h) {x : β} {P : Prop}
    (hin : x ∈ ∑ h ∈ S, own' h ↔ x ∈ ∑ h ∈ S, own h ∨ P) :
    (∃ h, x ∈ own' h) ↔ (∃ h, x ∈ own h) ∨ P := by
  have hmem : ∀ f : H → Multiset β, (∃ h, x ∈ f h) ↔ (∃ h ∉ S, x ∈ f h) ∨ x ∈ ∑ h ∈ S, f h := by
    intro f
    constructor
    · rintro ⟨h, hx⟩
      by_cases hS : h ∈ S
      · exact Or.inr (Multiset.mem_sum.mpr ⟨h, hS, hx⟩)
      · exact Or.inl ⟨h, hS, hx⟩
    · rintro (⟨h, _, hx⟩ | hx)
      · exact ⟨h, hx⟩
      · obtain ⟨h, _, hx⟩ := Multiset.mem_sum.mp hx
        exact ⟨h, hx⟩
  have hsame : (∃ h ∉ S, x ∈ own' h) ↔ ∃ h ∉ S, x ∈ own h :=
    exists_congr fun h => and_congr_right fun hS => by rw [hout h hS]
  rw [hmem own, hmem own', hsame, hin, or_assoc]

end Ownership
