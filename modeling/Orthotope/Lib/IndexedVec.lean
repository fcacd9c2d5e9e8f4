import Mathlib.Data.List.Basic
import Mathlib.Data.List.TakeWhile
import Mathlib.Data.List.InsertIdx
import Mathlib.Data.List.Pairwise

/-! Two ways in which a program indexes the entries of a growing vector by their position: a vector
of positions with back pointers, from which entries leave by `swap_remove`, and a vector of
positions sorted by a key, searched by bisection.  `Slots` and `SortedIndex` are the invariants, and
the lemmas say that insertion, removal and search keep and use them. -/

namespace IndexedVec

variable {α : Type*}

/-- Removes entry `i` and puts the last entry in its place. -/
def swapRemove (v : List α) (i : Nat) : List α :=
  match v.getLast? with
  | some x => (v.set i x).dropLast
  | none => v

/-- The number of leading entries that satisfy `p`. -/
def partitionPoint (p : α → Bool) (xs : List α) : Nat := (xs.takeWhile p).length

/-- Bisection of `xs` for the entry with key `k`: its place, or the place to insert one at. -/
def binarySearchByKey (key : α → Nat) (k : Nat) (xs : List α) : Except Nat Nat :=
  let i := partitionPoint (fun x => decide (key x < k)) xs
  match xs[i]? with
  | some x => if key x = k then .ok i else .error i
  | none => .error i

theorem modify_map {β : Type*} {f : α → β} {g : β → β} {g' : α → α} (h : ∀ x, g (f x) = f (g' x))
    (l : List α) (i : Nat) : (l.map f).modify i g = (l.modify i g').map f := by
  refine List.ext_getElem? fun j => ?_
  simp only [List.getElem?_modify, List.getElem?_map]
  cases l[j]? with
  | none => rfl
  | some x => by_cases hj : i = j <;> simp [hj, h]

/-- The list around entry `i`, and what it becomes when the entry is taken out or replaced. -/
theorem getElem?_split {l : List α} {i : Nat} {x : α} (h : l[i]? = some x) :
    ∃ pre post, l = pre ++ x :: post ∧ l.eraseIdx i = pre ++ post ∧
      ∀ y, l.set i y = pre ++ y :: post := by
  obtain ⟨hi, rfl⟩ := List.getElem?_eq_some_iff.mp h
  refine ⟨l.take i, l.drop (i + 1), ?_, List.eraseIdx_eq_take_drop_succ .., fun y => ?_⟩
  · rw [List.getElem_cons_drop, List.take_append_drop]
  · rw [List.set_eq_take_append_cons_drop, if_pos hi]

/-! ### Back pointers -/

/-- `slot` says for each entry at which place of `v` it stands, if it stands in it. -/
def Slots (v : List Nat) (slot : Nat → Option Nat) : Prop :=
  ∀ i id, v[i]? = some id ↔ slot id = some i

theorem getElem?_swapRemove {v : List α} {i : Nat} (h : i < v.length) (j : Nat) :
    (swapRemove v i)[j]? =
      if j < v.length - 1 then (if j = i then v.getLast? else v[j]?) else none := by
  cases hv : v.getLast? with
  | none => simp [List.getLast?_eq_none_iff.mp hv] at h
  | some x =>
    simp only [swapRemove, hv, List.getElem?_dropLast, List.length_set, List.getElem?_set]
    by_cases hj : j < v.length - 1
    · by_cases hji : j = i
      · subst hji
        simp [hj, h]
      · simp [hj, hji, Ne.symm hji]
    · simp [hj]

theorem mem_of_mem_swapRemove {v : List α} {i : Nat} {x : α} (h : x ∈ swapRemove v i) : x ∈ v := by
  unfold swapRemove at h
  split at h
  · rename_i last hlast
    rcases List.mem_or_eq_of_mem_set (List.dropLast_subset _ h) with h | rfl
    · exact h
    · exact List.mem_of_getLast? hlast
  · exact h

namespace Slots

variable {v : List Nat} {slot slot' : Nat → Option Nat}

theorem congr (hs : Slots v slot) (h : ∀ id, slot' id = slot id) : Slots v slot' :=
  fun i id => by rw [h id]; exact hs i id

theorem nil (h : ∀ id, slot id = none) : Slots [] slot := fun i id => by simp [h id]

theorem mem_iff (hs : Slots v slot) {id : Nat} : id ∈ v ↔ ∃ i, slot id = some i := by
  rw [List.mem_iff_getElem?]
  exact exists_congr fun i => hs i id

theorem lt_length (hs : Slots v slot) {id i : Nat} (h : slot id = some i) : i < v.length :=
  (List.getElem?_eq_some_iff.mp ((hs i id).mpr h)).1

theorem push (hs : Slots v slot) {id : Nat} (hid : slot id = none) :
    Slots (v ++ [id]) (Function.update slot id (some v.length)) := by
  intro i j
  by_cases hj : j = id
  · subst hj
    have hnot : ∀ i : Nat, v[i]? ≠ some j := fun i hi => by simp [(hs i j).mp hi] at hid
    rw [Function.update_self, List.getElem?_append, Option.some_inj]
    by_cases hi : i < v.length
    · simp only [hi, if_true, hnot i, false_iff]
      omega
    · simp only [hi, if_false, List.getElem?_singleton]
      split <;> simp <;> omega
  · rw [Function.update_of_ne hj, ← hs i j, List.getElem?_append]
    split
    · rfl
    · rename_i hi
      rw [List.getElem?_eq_none (by omega : v.length ≤ i), List.getElem?_singleton]
      split <;> simp [Ne.symm hj]

/-- Removing the entry `id` from its place moves the last entry there. -/
theorem swapRemove (hs : Slots v slot) {id i : Nat} (hid : slot id = some i) :
    Slots (swapRemove v i) (fun j =>
      if j = id then none else if (IndexedVec.swapRemove v i)[i]? = some j then some i
        else slot j) := by
  have hlt := hs.lt_length hid
  have hvi := (hs i id).mpr hid
  have hlast : v.getLast? = v[v.length - 1]? := List.getLast?_eq_getElem?
  intro j id'
  rw [getElem?_swapRemove hlt, getElem?_swapRemove hlt]
  by_cases hid' : id' = id
  · -- `id` stood at `i` only, and nothing else is moved onto its number
    subst hid'
    have hone : ∀ k, v[k]? = some id' → k = i := fun k hk => by
      have := (hs k id').mp hk
      rw [hid] at this
      exact (Option.some.inj this).symm
    simp only [if_true, reduceCtorEq, iff_false]
    split
    · rename_i hj
      split
      · intro h
        rw [hlast] at h
        have := hone _ h
        omega
      · intro h
        have := hone _ h
        omega
    · simp
  · simp only [hid', if_false]
    by_cases hlastid : v[v.length - 1]? = some id'
    · -- `id'` is the last entry, moved to `i` unless it is removed with it
      have hil : i < v.length - 1 := by
        by_contra hcon
        have : i = v.length - 1 := by omega
        rw [← this, hvi] at hlastid
        exact hid' (Option.some.inj hlastid).symm
      simp only [hlast, hlastid, hil, if_true, Option.some_inj]
      have hone : ∀ k, v[k]? = some id' → k = v.length - 1 := fun k hk => by
        have h1 := (hs k id').mp hk
        rw [(hs _ id').mp hlastid] at h1
        exact (Option.some.inj h1).symm
      constructor
      · intro h
        split at h
        · split at h
          · omega
          · have := hone _ h
            omega
        · simp at h
      · rintro rfl
        simp [hil]
    · have hnm : ¬((if i < v.length - 1 then v.getLast? else none) = some id') := by
        rw [hlast]
        split
        · exact hlastid
        · simp
      simp only [if_true, hnm, if_false]
      rw [← hs j id']
      by_cases hj : j < v.length - 1
      · simp only [hj, if_true]
        by_cases hji : j = i
        · subst hji
          simp only [if_true, hlast, hlastid, false_iff, hvi]
          exact fun h => hid' (Option.some.inj h).symm
        · simp [hji]
      · simp only [hj, if_false, reduceCtorEq, false_iff]
        intro h
        have hjl : j < v.length := (List.getElem?_eq_some_iff.mp h).1
        have : j = v.length - 1 := by omega
        exact hlastid (this ▸ h)

end Slots

/-! ### Sorted positions -/

/-- `xs` lists the positions below `n`, by increasing key. -/
structure SortedIndex (key : Nat → Nat) (n : Nat) (xs : List Nat) : Prop where
  sorted : xs.Pairwise fun i j => key i < key j
  mem : ∀ i, i ∈ xs ↔ i < n

theorem insertIdx_append_length (l₁ l₂ : List α) (a : α) :
    (l₁ ++ l₂).insertIdx l₁.length a = l₁ ++ a :: l₂ := by
  induction l₁ with
  | nil => simp
  | cons x l₁ ih => simp [ih]

theorem takeWhile_dropWhile_sorted {key : Nat → Nat} {xs : List Nat}
    (h : xs.Pairwise fun i j => key i < key j) (p : Nat → Bool) :
    (∀ x ∈ xs.takeWhile p, p x = true) ∧
    (∀ x ∈ xs.dropWhile p, ∃ d ∈ xs.dropWhile p, p d = false ∧ key d ≤ key x) := by
  refine ⟨fun x hx => List.mem_takeWhile_imp hx, fun x hx => ?_⟩
  cases hd : xs.dropWhile p with
  | nil => simp [hd] at hx
  | cons d rest =>
    have hpd : p d = false := by
      have := List.head?_dropWhile_not p xs
      rw [hd] at this
      simpa using this
    refine ⟨d, by simp, hpd, ?_⟩
    have hsub : (xs.dropWhile p).Pairwise fun i j => key i < key j :=
      h.sublist (List.dropWhile_sublist p)
    rw [hd] at hsub hx
    rcases List.mem_cons.mp hx with rfl | hx
    · exact Nat.le_refl _
    · exact Nat.le_of_lt ((List.pairwise_cons.mp hsub).1 x hx)

namespace SortedIndex

variable {key : Nat → Nat} {n : Nat} {xs : List Nat}

theorem nil (key : Nat → Nat) : SortedIndex key 0 [] := ⟨List.Pairwise.nil, by simp⟩

theorem congr {key' : Nat → Nat} (h : SortedIndex key n xs) (hk : ∀ i < n, key' i = key i) :
    SortedIndex key' n xs := by
  refine ⟨h.sorted.imp_of_mem fun {i j} hi hj hlt => ?_, h.mem⟩
  rwa [hk i ((h.mem i).mp hi), hk j ((h.mem j).mp hj)]

theorem key_injective (h : SortedIndex key n xs) {i j : Nat} (hi : i < n) (hj : j < n)
    (hk : key i = key j) : i = j := by
  obtain ⟨a, ha, rfl⟩ := List.mem_iff_getElem.mp ((h.mem i).mpr hi)
  obtain ⟨b, hb, rfl⟩ := List.mem_iff_getElem.mp ((h.mem j).mpr hj)
  have hlt := List.pairwise_iff_getElem.mp h.sorted
  rcases Nat.lt_trichotomy a b with hab | rfl | hab
  · exact absurd hk (Nat.ne_of_lt (hlt a b ha hb hab))
  · rfl
  · exact absurd hk (Nat.ne_of_gt (hlt b a hb ha hab))

/-- A successful search returns the place of an entry with the key. -/
theorem search_ok {k i : Nat} (hs : binarySearchByKey key k xs = .ok i) :
    ∃ id, xs[i]? = some id ∧ key id = k := by
  simp only [binarySearchByKey] at hs
  split at hs
  · rename_i x hx
    split at hs
    · rename_i hk
      obtain rfl : _ = i := by simpa using hs
      exact ⟨x, hx, hk⟩
    · simp at hs
  · simp at hs

/-- Where the search fails no entry has the key, and inserting a new position there keeps the
order. -/
theorem search_error (h : SortedIndex key n xs) {k i : Nat}
    (hs : binarySearchByKey key k xs = .error i) :
    (∀ j < n, key j ≠ k) ∧ ∀ key' : Nat → Nat, (∀ j < n, key' j = key j) → key' n = k →
      SortedIndex key' (n + 1) (xs.insertIdx i n) := by
  let p : Nat → Bool := fun x => decide (key x < k)
  have hi : i = (xs.takeWhile p).length := by
    simp only [binarySearchByKey, partitionPoint] at hs
    split at hs
    · split at hs
      · simp at hs
      · simpa using hs.symm
    · simpa using hs.symm
  have hsplit : xs.takeWhile p ++ xs.dropWhile p = xs := List.takeWhile_append_dropWhile
  obtain ⟨htake, hdrop⟩ := takeWhile_dropWhile_sorted h.sorted p
  have hget : xs[i]? = (xs.dropWhile p)[0]? := by
    rw [← Nat.sub_self (xs.takeWhile p).length, hi,
      ← List.getElem?_append_right (Nat.le_refl _), hsplit]
  -- no key equals `k`: those taken are below it, and the first one left is not it
  have hlarge : ∀ x ∈ xs.dropWhile p, k < key x := by
    intro x hx
    cases hd : xs.dropWhile p with
    | nil => simp [hd] at hx
    | cons d rest =>
      have hne : key d ≠ k := by
        rw [hd] at hget
        simp only [binarySearchByKey, partitionPoint] at hs
        rw [← hi, hget] at hs
        intro hk
        simp [hk] at hs
      have hpd : p d = false := by
        have := List.head?_dropWhile_not p xs
        rw [hd] at this
        simpa using this
      have hge : ¬key d < k := by simpa [p] using hpd
      have hsub : (xs.dropWhile p).Pairwise fun i j => key i < key j :=
        h.sorted.sublist (List.dropWhile_sublist p)
      rw [hd] at hsub hx
      rcases List.mem_cons.mp hx with rfl | hx
      · omega
      · have := (List.pairwise_cons.mp hsub).1 x hx
        omega
  have hsmall : ∀ x ∈ xs.takeWhile p, key x < k := fun x hx => by simpa [p] using htake x hx
  have hmem : ∀ j < n, j ∈ xs.takeWhile p ∨ j ∈ xs.dropWhile p := fun j hj => by
    rw [← List.mem_append, hsplit]
    exact (h.mem j).mpr hj
  refine ⟨fun j hj => ?_, fun key' hk' hkn => ?_⟩
  · rcases hmem j hj with hj | hj
    · exact Nat.ne_of_lt (hsmall j hj)
    · exact Nat.ne_of_gt (hlarge j hj)
  · have hins : xs.insertIdx i n = xs.takeWhile p ++ n :: xs.dropWhile p := by
      rw [hi, ← insertIdx_append_length, hsplit]
    have hlt : ∀ x ∈ xs, x < n := fun x hx => (h.mem x).mp hx
    have hsorted := (h.congr hk').sorted
    rw [← hsplit] at hsorted
    obtain ⟨h1, h2, h3⟩ := List.pairwise_append.mp hsorted
    have hin1 : ∀ x ∈ xs.takeWhile p, x < n := fun x hx => hlt x (List.takeWhile_subset p hx)
    have hin2 : ∀ x ∈ xs.dropWhile p, x < n := fun x hx => hlt x (List.dropWhile_subset p hx)
    refine ⟨?_, fun j => ?_⟩
    · rw [hins]
      refine List.pairwise_append.mpr ⟨h1, List.pairwise_cons.mpr ⟨fun x hx => ?_, h2⟩,
        fun x hx y hy => ?_⟩
      · rw [hkn, hk' x (hin2 x hx)]
        exact hlarge x hx
      · rcases List.mem_cons.mp hy with rfl | hy
        · rw [hkn, hk' x (hin1 x hx)]
          exact hsmall x hx
        · exact h3 x hx y hy
    · have := h.mem j
      rw [← hsplit, List.mem_append] at this
      rw [hins]
      simp only [List.mem_append, List.mem_cons]
      by_cases hj : j = n
      · simp [hj]
      · simp only [hj, false_or]
        rw [this]
        omega

/-- The entry with the greatest key up to `a` stands right before the first one above `a`. -/
theorem before_partitionPoint (h : SortedIndex key n xs) {a id : Nat} (hid : id < n)
    (hle : key id ≤ a) (hmax : ∀ j < n, key j ≤ a → key j ≤ key id) :
    0 < partitionPoint (fun x => decide (key x ≤ a)) xs ∧
      xs[partitionPoint (fun x => decide (key x ≤ a)) xs - 1]? = some id := by
  let p : Nat → Bool := fun x => decide (key x ≤ a)
  have hsplit : xs.takeWhile p ++ xs.dropWhile p = xs := List.takeWhile_append_dropWhile
  obtain ⟨htake, hdrop⟩ := takeWhile_dropWhile_sorted h.sorted p
  have hmemid : id ∈ xs.takeWhile p := by
    have hx : id ∈ xs.takeWhile p ++ xs.dropWhile p := by
      rw [hsplit]
      exact (h.mem id).mpr hid
    rcases List.mem_append.mp hx with hx | hx
    · exact hx
    · obtain ⟨d, _, hpd, hkd⟩ := hdrop id hx
      have : ¬key d ≤ a := by simpa [p] using hpd
      omega
  have hne : xs.takeWhile p ≠ [] := List.ne_nil_of_mem hmemid
  have hlen : 0 < (xs.takeWhile p).length := List.length_pos_of_mem hmemid
  obtain ⟨init, last, hlast⟩ : ∃ init last, xs.takeWhile p = init ++ [last] :=
    ⟨_, _, (List.dropLast_append_getLast hne).symm⟩
  have hlastmem : last ∈ xs.takeWhile p := by simp [hlast]
  have hlastn : last < n := (h.mem last).mp (List.takeWhile_subset p hlastmem)
  have hkle : key id ≤ key last := by
    have hsub : (xs.takeWhile p).Pairwise fun i j => key i < key j :=
      h.sorted.sublist (List.takeWhile_sublist p)
    rw [hlast] at hsub hmemid
    rcases List.mem_append.mp hmemid with hx | hx
    · exact Nat.le_of_lt ((List.pairwise_append.mp hsub).2.2 id hx last (by simp))
    · simp only [List.mem_singleton] at hx
      rw [hx]
  have hlastle : key last ≤ a := by simpa [p] using htake last hlastmem
  have heq : last = id := h.key_injective hlastn hid
    (Nat.le_antisymm (hmax last hlastn hlastle) hkle)
  refine ⟨hlen, ?_⟩
  have hget : (xs.takeWhile p ++ xs.dropWhile p)[(xs.takeWhile p).length - 1]? =
      (xs.takeWhile p)[(xs.takeWhile p).length - 1]? := List.getElem?_append_left (by omega)
  rw [hsplit] at hget
  show xs[(xs.takeWhile p).length - 1]? = some id
  rw [hget, hlast, ← heq]
  simp

/-- Where the entries are intervals that begin at their keys and do not meet, the one that contains
`a` stands right before the first one above `a`. -/
theorem before_partitionPoint_of_interval (h : SortedIndex key n xs) (stop : Nat → Nat)
    (hle : ∀ i < n, key i ≤ stop i)
    (hapart : ∀ i < n, ∀ j < n, i ≠ j → stop i ≤ key j ∨ stop j ≤ key i) {a id : Nat}
    (hid : id < n) (hlo : key id ≤ a) (hhi : a < stop id) :
    0 < partitionPoint (fun x => decide (key x ≤ a)) xs ∧
      xs[partitionPoint (fun x => decide (key x ≤ a)) xs - 1]? = some id := by
  apply h.before_partitionPoint hid hlo
  intro j hj hja
  by_contra hlt
  -- an interval that begins between `key id` and `a` would meet that of `id`
  have hne : id ≠ j := by
    rintro rfl
    exact hlt (Nat.le_refl _)
  have hend := hle j hj
  have := hapart id hid j hj hne
  omega

end SortedIndex

/-! ### Search from the front -/

section FindIdx

variable {α : Type} {p : α → Bool} {xs : List α}

theorem exists_of_findIdx? {i : Nat} (h : xs.findIdx? p = some i) :
    ∃ x, xs[i]? = some x ∧ p x = true := by
  obtain ⟨hi, hp, -⟩ := List.findIdx?_eq_some_iff_getElem.mp h
  exact ⟨xs[i], List.getElem?_eq_getElem hi, hp⟩

/-- Where one place at most is right, the search from the front finds the one that is. -/
theorem findIdx?_of_unique
    (hunique : ∀ (i j : Nat) (x y : α), xs[i]? = some x → xs[j]? = some y → p x = true →
      p y = true → i = j)
    {i : Nat} {x : α} (hi : xs[i]? = some x) (hp : p x = true) : xs.findIdx? p = some i := by
  cases hfind : xs.findIdx? p with
  | none =>
    have hfalse := List.findIdx?_eq_none_iff.mp hfind x (List.mem_of_getElem? hi)
    rw [hp] at hfalse
    cases hfalse
  | some j =>
    obtain ⟨y, hj, hq⟩ := exists_of_findIdx? hfind
    rw [hunique i j x y hi hj hp hq]

end FindIdx

end IndexedVec
