import Mathlib.Algebra.BigOperators.Group.List.Basic
import Mathlib.Algebra.Order.Group.Multiset
import Mathlib.Data.Multiset.AddSub

/-! The total of a vector of bags: what replacing one entry does to it, and its members. -/

namespace BagSum

variable {α β : Type*}

section Total

variable {M : Type*} [AddCommMonoid M]

/-- The total of `f` over the entries of `l`. -/
def total (f : α → M) (l : List α) : M := (l.map f).sum

@[simp] theorem total_nil (f : α → M) : total f [] = 0 := rfl

@[simp] theorem total_cons (f : α → M) (x : α) (l : List α) :
    total f (x :: l) = f x + total f l := by
  simp [total]

@[simp] theorem total_append (f : α → M) (l l' : List α) :
    total f (l ++ l') = total f l + total f l' := by
  simp [total]

/-- Replacing entry `i` exchanges its share of the total. -/
theorem total_set {f : α → M} {l : List α} {i : Nat} {x y : α} (h : l[i]? = some x) :
    total f (l.set i y) + f x = total f l + f y := by
  induction l generalizing i with
  | nil => simp at h
  | cons z l ih =>
    cases i with
    | zero =>
      obtain rfl : z = x := by simpa using h
      rw [List.set_cons_zero, total_cons, total_cons, add_right_comm, add_comm (f y),
        add_right_comm]
    | succ i =>
      rw [List.set_cons_succ, total_cons, total_cons, add_assoc, ih (by simpa using h), add_assoc]

theorem total_congr {f g : α → M} {l : List α} (h : ∀ x ∈ l, f x = g x) :
    total f l = total g l := by
  rw [total, total, List.map_congr_left h]

theorem total_add (f g : α → M) (l : List α) :
    total (fun x => f x + g x) l = total f l + total g l := by
  induction l with
  | nil => simp
  | cons x l ih =>
    simp only [total_cons, ih]
    exact add_add_add_comm _ _ _ _

end Total

theorem mem_total {f : α → Multiset β} {l : List α} {b : β} :
    b ∈ total f l ↔ ∃ x ∈ l, b ∈ f x := by
  induction l with
  | nil => simp
  | cons x l ih => simp [ih]

theorem card_total (f : α → Multiset β) (l : List α) :
    (total f l).card = total (fun x => (f x).card) l := by
  induction l with
  | nil => simp
  | cons x l ih => simp [ih]

theorem le_total {f : α → Multiset β} {l : List α} {x : α} (h : x ∈ l) : f x ≤ total f l := by
  induction l with
  | nil => simp at h
  | cons y l ih =>
    rw [total_cons]
    rcases List.mem_cons.mp h with rfl | h
    · exact Multiset.le_add_right _ _
    · exact (ih h).trans (Multiset.le_add_left _ _)

theorem total_eq_zero {f : α → Multiset β} {l : List α} :
    total f l = 0 ↔ ∀ x ∈ l, f x = 0 := by
  simp only [Multiset.eq_zero_iff_forall_notMem, mem_total, not_exists, not_and]
  exact forall_comm.trans (forall_congr' fun x => forall_comm)

/-- Bags without repetitions that share nothing have a total without repetitions. -/
theorem total_nodup {f : α → Multiset β} {l : List α} (h : ∀ x ∈ l, (f x).Nodup)
    (hd : l.Pairwise fun x y => ∀ b ∈ f x, b ∉ f y) : (total f l).Nodup := by
  induction l with
  | nil => exact Multiset.nodup_zero
  | cons x l ih =>
    obtain ⟨hx, hl⟩ := List.pairwise_cons.mp hd
    rw [total_cons]
    refine Multiset.nodup_add.mpr ⟨h x List.mem_cons_self,
      ih (fun y hy => h y (List.mem_cons_of_mem x hy)) hl, ?_⟩
    refine Multiset.disjoint_left.mpr fun hb hmem => ?_
    obtain ⟨y, hy, hby⟩ := mem_total.mp hmem
    exact hx y hy _ hb hby

/-- The elements of the lists of all entries. -/
theorem coe_flatten_map {α β : Type*} (f : α → List β) (l : List α) :
    ((l.map f).flatten : Multiset β) = total (fun a => (f a : Multiset β)) l := by
  induction l with
  | nil => rfl
  | cons a l ih => rw [List.map_cons, List.flatten_cons, ← Multiset.coe_add, ih, total_cons]

end BagSum
