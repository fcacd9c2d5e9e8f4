import Orthotope.CentralPoolInvariant
import Mathlib.Order.Interval.Set.LinearOrder

/-! The range that a sweep gives up.  `page_aligned_inner_range` rounds the start of a span up and
its end down; what is left is the whole pages inside the span, and nothing of any other span. -/

namespace Orthotope

/-- The bytes of page `k`. -/
def page (pageSize k : Nat) : Set Nat := Set.Ico (k * pageSize) ((k + 1) * pageSize)

/-- The bytes of a span. -/
def span (start len : Nat) : Set Nat := Set.Ico start (start + len)

/-- Rounding down gives the greatest multiple that is not larger. -/
theorem le_alignDown_iff {value alignment m : Nat} (hm : alignment ∣ m) :
    m ≤ alignDown value alignment ↔ m ≤ value := by
  have heq : alignDown value alignment = alignment * (value / alignment) := by
    have := Nat.div_add_mod value alignment
    unfold alignDown
    omega
  constructor
  · intro h
    exact h.trans (Nat.sub_le _ _)
  · intro h
    rw [heq]
    obtain ⟨j, rfl⟩ := hm
    rcases Nat.eq_zero_or_pos alignment with rfl | hpos
    · omega
    · exact Nat.mul_le_mul_left _ ((Nat.le_div_iff_mul_le hpos).mpr (Nat.mul_comm alignment j ▸ h))

theorem dvd_alignDown (value alignment : Nat) : alignment ∣ alignDown value alignment :=
  Nat.dvd_sub_mod value

section Range

variable {pageSize start len : Nat}

/-- A page lies in a span exactly when it lies between the rounded ends. -/
theorem page_subset_span_iff (hpage : 0 < pageSize) {k : Nat} :
    page pageSize k ⊆ span start len ↔ alignUp start pageSize ≤ k * pageSize ∧
      (k + 1) * pageSize ≤ alignDown (start + len) pageSize := by
  have hlt : k * pageSize < (k + 1) * pageSize := by
    rw [Nat.succ_mul]
    omega
  rw [page, span, Set.Ico_subset_Ico_iff hlt, alignUp_le_iff hpage (Nat.dvd_mul_left ..),
    le_alignDown_iff (Nat.dvd_mul_left ..)]

theorem exists_page_iff (hpage : 0 < pageSize) : (∃ k, page pageSize k ⊆ span start len) ↔
    alignUp start pageSize < alignDown (start + len) pageSize := by
  constructor
  · rintro ⟨k, hk⟩
    obtain ⟨h1, h2⟩ := (page_subset_span_iff hpage).mp hk
    rw [Nat.succ_mul] at h2
    omega
  · intro hlt
    have hup : pageSize ∣ alignUp start pageSize := dvd_alignUp hpage
    obtain ⟨i, hi⟩ := hup
    obtain ⟨j, hj⟩ := dvd_alignDown (start + len) pageSize
    have hij : i + 1 ≤ j := by
      rw [hi, hj] at hlt
      exact Nat.lt_of_mul_lt_mul_left hlt
    refine ⟨i, (page_subset_span_iff hpage).mpr ⟨?_, ?_⟩⟩
    · rw [hi, Nat.mul_comm]
    · rw [hj, Nat.mul_comm]
      exact Nat.mul_le_mul_left _ hij

/-- The checks of the source leave the rounded ends, if there is a page between them. -/
theorem pageAlignedInnerRange_eq : pageAlignedInnerRange pageSize start len =
    if usizeLimit ≤ start + len ∨
        alignDown (start + len) pageSize ≤ alignUp start pageSize then none
    else some (alignUp start pageSize,
      alignDown (start + len) pageSize - alignUp start pageSize) := by
  have hup := le_alignUp start pageSize
  have hdown : alignDown (start + len) pageSize ≤ start + len := Nat.sub_le _ _
  unfold pageAlignedInnerRange
  by_cases hlen : len = 0
  · rw [if_pos hlen, if_pos (Or.inr (by omega))]
  by_cases hend : start + len < usizeLimit
  · have hchecked : checkedAdd start len = some (start + len) := if_pos hend
    rw [if_neg hlen, hchecked]
    by_cases hstart : alignUp start pageSize < usizeLimit
    · rw [alignUpChecked_of_lt hstart]
      by_cases hle : alignDown (start + len) pageSize ≤ alignUp start pageSize
      · rw [if_pos (Or.inr hle)]
        exact if_pos hle
      · rw [if_neg (by omega)]
        exact if_neg hle
    · rw [if_pos (Or.inr (by omega))]
      cases hchecked' : alignUpChecked start pageSize with
      | none => rfl
      | some result =>
        apply if_pos
        rw [alignUpChecked_eq_some hchecked']
        omega
  · have hchecked : checkedAdd start len = none := if_neg hend
    rw [if_neg hlen, hchecked, if_pos (Or.inl (by omega))]

theorem pageAlignedInnerRange_spec {addr n : Nat}
    (h : pageAlignedInnerRange pageSize start len = some (addr, n)) :
    addr = alignUp start pageSize ∧ addr + n = alignDown (start + len) pageSize ∧
      span addr n ⊆ span start len := by
  have hb := ClassPool.pageAlignedInnerRange_bounds h
  rw [pageAlignedInnerRange_eq] at h
  split at h
  · cases h
  · rename_i hsome
    obtain ⟨rfl, rfl⟩ := Prod.mk.inj (Option.some.inj h)
    exact ⟨rfl, by omega, Set.Ico_subset_Ico hb.1 hb.2⟩

theorem pageAlignedInnerRange_eq_none (hpage : 0 < pageSize) :
    pageAlignedInnerRange pageSize start len = none ↔
      (∀ k, ¬page pageSize k ⊆ span start len) ∨ usizeLimit ≤ start + len ∨
        usizeLimit ≤ alignUp start pageSize := by
  have hdown : alignDown (start + len) pageSize ≤ start + len := Nat.sub_le _ _
  rw [← not_exists, exists_page_iff hpage, pageAlignedInnerRange_eq]
  split
  · rename_i hnone
    exact iff_of_true rfl (by omega)
  · rename_i hsome
    exact iff_of_false (Option.some_ne_none _) (by omega)

end Range

/-! ### The sweep -/

/-- A sweep gives up the whole pages inside one slab. -/
theorem ClassPool.sweepScan_range {L : Type} {pageSize total budget : Nat} {advised : Bool}
    {pool : ClassPool L} {range : Nat × Nat}
    (h : (pool.sweepScan pageSize advised total budget).2 = some range) :
    ∃ slab ∈ pool.slabs, pageAlignedInnerRange pageSize slab.start slab.spanLen = some range := by
  induction budget generalizing pool with
  | zero => cases h
  | succ budget ih =>
    unfold sweepScan at h
    simp only at h
    have hrest := @ih { pool with sweepCursor := (pool.sweepCursor % total + 1) % total }
    split at h
    · cases h
    · split at h
      · cases h
      · rename_i slab hslab
        split at h
        · exact hrest h
        · split at h
          · exact hrest h
          · rename_i range' hrange
            split at h
            · obtain rfl := Option.some.inj h
              exact ⟨slab, List.mem_of_getElem? hslab, hrange⟩
            · cases h

theorem ClassPool.maybeSweep_range {L : Type} {pageSize : Nat} {advised : Bool}
    {pool : ClassPool L} {range : Nat × Nat}
    (h : (pool.maybeSweep pageSize advised).2 = some range) :
    ∃ slab ∈ pool.slabs, pageAlignedInnerRange pageSize slab.start slab.spanLen = some range := by
  unfold maybeSweep at h
  split at h
  · cases h
  · exact sweepScan_range h

/-- The reclaim range of a span is exactly the whole pages inside it. -/
theorem reclaim_range_exact {pageSize : Nat} (hpage : 0 < pageSize) :
    (∀ start len, pageAlignedInnerRange pageSize start len = none ↔
      (∀ k, ¬page pageSize k ⊆ span start len) ∨ usizeLimit ≤ start + len ∨
        usizeLimit ≤ alignUp start pageSize) ∧
    (∀ start len addr n, pageAlignedInnerRange pageSize start len = some (addr, n) →
      pageSize ∣ addr ∧ pageSize ∣ n ∧
        ∀ k, page pageSize k ⊆ span addr n ↔ page pageSize k ⊆ span start len) ∧
    (∀ start len start' len', span start len ∩ span start' len' = ∅ → ∀ addr n,
      pageAlignedInnerRange pageSize start len = some (addr, n) →
        span addr n ∩ span start' len' = ∅ ∧ ∀ addr' n',
          pageAlignedInnerRange pageSize start' len' = some (addr', n') →
            span addr n ∩ span addr' n' = ∅) ∧
    ∀ (L : Type) (pool : ClassPool L) advised range,
      (pool.maybeSweep pageSize advised).2 = some range →
        ∃ slab ∈ pool.slabs,
          pageAlignedInnerRange pageSize slab.start slab.spanLen = some range := by
  refine ⟨fun start len => pageAlignedInnerRange_eq_none hpage, fun start len addr n h => ?_,
    fun start len start' len' hdisjoint addr n h => ?_,
    fun L pool advised range h => pool.maybeSweep_range h⟩
  · obtain ⟨haddr, hend, -⟩ := pageAlignedInnerRange_spec h
    have hdvd : pageSize ∣ addr := haddr ▸ dvd_alignUp hpage
    have hdvd' : pageSize ∣ addr + n := hend ▸ dvd_alignDown ..
    refine ⟨hdvd, (Nat.dvd_add_right hdvd).mp hdvd', fun k => ?_⟩
    rw [page_subset_span_iff hpage, page_subset_span_iff hpage, hend,
      alignUp_of_dvd hdvd, haddr]
    have hrounded : alignDown (alignDown (start + len) pageSize) pageSize =
        alignDown (start + len) pageSize := by
      refine Nat.le_antisymm (Nat.sub_le _ _) ?_
      exact (le_alignDown_iff (dvd_alignDown ..)).mpr (Nat.le_refl _)
    rw [hrounded]
  · obtain ⟨-, -, hsub⟩ := pageAlignedInnerRange_spec h
    have hother : span addr n ∩ span start' len' = ∅ :=
      Set.subset_eq_empty (Set.inter_subset_inter_left _ hsub) hdisjoint
    refine ⟨hother, fun addr' n' h' => ?_⟩
    obtain ⟨-, -, hsub'⟩ := pageAlignedInnerRange_spec h'
    exact Set.subset_eq_empty (Set.inter_subset_inter_right _ hsub') hother

/-- A span of two pages that begins in the middle of one has one whole page inside. -/
theorem reclaim_range_sample : pageAlignedInnerRange 4096 6144 8192 = some (8192, 4096) ∧
    ∀ k, page 4096 k ⊆ span 8192 4096 ↔ page 4096 k ⊆ span 6144 8192 := by
  have h : pageAlignedInnerRange 4096 6144 8192 = some (8192, 4096) := by decide
  have hpage : 0 < 4096 := by decide
  exact ⟨h, ((reclaim_range_exact hpage).2.1 6144 8192 8192 4096 h).2.2⟩

end Orthotope
