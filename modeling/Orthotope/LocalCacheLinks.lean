import Orthotope.LocalCache
import Orthotope.Links
import Orthotope.LocalCacheInvariant

/-! The local cache of the code against the one over plain sequences.  `map` changes the
representation of the free lists; what does not look into a list commutes with it, and the other
operations do so in a memory where the lists of the cache are linked. -/

namespace Orthotope

open ByteMemory LinkedChain IndexedVec

/-! ### Changing the representation -/

section Map

variable {L L' : Type} (f : L → L')

def LocalSlab.map (slab : LocalSlab L) : LocalSlab L' := { slab with free := f slab.free }

def LocalClassCache.map (cache : LocalClassCache L) : LocalClassCache L' :=
  { cache with slabs := cache.slabs.map (LocalSlab.map f), shared := f cache.shared }

namespace LocalClassCache

variable (cache : LocalClassCache L) (id block : Nat)

@[simp] theorem getElem?_map_slabs :
    (cache.map f).slabs[id]? = cache.slabs[id]?.map (LocalSlab.map f) := List.getElem?_map

@[simp] theorem slabStart_map : (cache.map f).slabStart id = cache.slabStart id := by
  simp [slabStart, Function.comp_def, LocalSlab.map]

@[simp] theorem availableSlot_map :
    (cache.map f).availableSlot id = cache.availableSlot id := by
  simp [availableSlot, Option.bind_map, Function.comp_def, LocalSlab.map]

@[simp] theorem setAvailableSlot_map (slot : Option Nat) :
    (cache.map f).setAvailableSlot id slot = (cache.setAvailableSlot id slot).map f :=
  congrArg (fun slabs => { cache.map f with slabs })
    (modify_map (f := LocalSlab.map f) (fun _ => rfl) cache.slabs id)

@[simp] theorem markSlabAvailable_map :
    (cache.map f).markSlabAvailable id = (cache.markSlabAvailable id).map f := by
  simp only [markSlabAvailable, availableSlot_map, setAvailableSlot_map]
  split <;> rfl

@[simp] theorem markSlabUnavailable_map :
    (cache.map f).markSlabUnavailable id = (cache.markSlabUnavailable id).map f := by
  have hids : (cache.map f).availableSlabs = cache.availableSlabs := rfl
  have hmid : ∀ (mid : LocalClassCache L) (rest : List Nat),
      { mid.map f with availableSlabs := rest } = { mid with availableSlabs := rest }.map f :=
    fun _ _ => rfl
  simp only [markSlabUnavailable, availableSlot_map, setAvailableSlot_map, hids]
  cases cache.availableSlot id with
  | none => rfl
  | some slot =>
    simp only [hmid, setAvailableSlot_map]
    cases (swapRemove cache.availableSlabs slot)[slot]? <;> rfl

theorem contains_map (debug : Bool) :
    ((cache.map f).slabs[id]?.map fun slab => slab.contains debug block) =
      cache.slabs[id]?.map fun slab => slab.contains debug block := by
  rw [getElem?_map_slabs, Option.map_map]
  rfl

@[simp] theorem homeSlab_map (debug : Bool) :
    (cache.map f).homeSlab debug block = cache.homeSlab debug block := by
  simp only [homeSlab, findSlab, contains_map, slabStart_map]
  rfl

end LocalClassCache

end Map

namespace LocalSlab

variable (slab : LocalSlab (List Nat))

@[simp] theorem hasAvailableBlocks_map :
    (slab.map FreeList.ofSeq).hasAvailableBlocks = slab.hasAvailableBlocks := by
  simp only [hasAvailableBlocks, map, isEmpty_ofSeq, seq_isEmpty]
  rfl

end LocalSlab

namespace LocalSlab

variable {slab slab' : LocalSlab (List Nat)} {mF mS : Mem}

theorem popBlockUnchecked_map {block : Nat} {reuse : BlockReuse} (h : Linked mF slab.free)
    (hpop : slab.popBlockUnchecked mS = some (block, reuse, slab')) :
    (slab.map FreeList.ofSeq).popBlockUnchecked mF =
        some (block, reuse, slab'.map FreeList.ofSeq) ∧
      Linked mF slab'.free ∧ slab'.free.Sublist slab.free := by
  obtain ⟨start, endAddr, blockSize, capacity, nextFresh, free, slot⟩ := slab
  cases free with
  | nil =>
    obtain ⟨rfl, rfl, rfl⟩ : _ = block ∧ _ = reuse ∧ _ = slab' := by
      simpa [popBlockUnchecked] using hpop
    exact ⟨rfl, trivial, List.Sublist.refl _⟩
  | cons b free =>
    obtain ⟨rfl, rfl, rfl⟩ : b = block ∧ _ = reuse ∧ _ = slab' := by
      simpa [popBlockUnchecked] using hpop
    refine ⟨?_, h.2, List.sublist_cons_self _ _⟩
    simp only [popBlockUnchecked, map, isEmpty_ofSeq, List.isEmpty_cons, Bool.not_false, if_true,
      popBlockUnchecked_ofSeq h, Option.map_some]

/-- Reclaimed blocks move one by one; each is unlinked before its link is written. -/
theorem drainReclaimed_map (mS : Mem) (n : Nat) {free list : List Nat} (hn : n ≤ free.length)
    (hfree : Linked mF free) (hlist : Linked mF list) (hnodup : (free ++ list).Nodup)
    (hgood : ∀ b ∈ free ++ list, Linkable b) :
    ∃ mF', drainReclaimed mF n (FreeList.ofSeq free) (FreeList.ofSeq list) =
        some (mF', FreeList.ofSeq (free.drop n),
          FreeList.ofSeq ((free.take n).reverse ++ list)) ∧
      Linked mF' (free.drop n) ∧ Linked mF' ((free.take n).reverse ++ list) ∧
      Follows (fun x => x ∈ free) mF mS mF' mS := by
  induction n generalizing mF free list with
  | zero => exact ⟨mF, rfl, hfree, hlist, Follows.refl _ _ _⟩
  | succ n ih =>
    cases free with
    | nil => simp at hn
    | cons b free =>
      obtain ⟨hb, hnd⟩ := List.nodup_cons.mp hnodup
      have hbl : b ∉ list := fun h => hb (List.mem_append.mpr (Or.inr h))
      have hbf : b ∉ free := fun h => hb (List.mem_append.mpr (Or.inl h))
      have hgood' : ∀ x ∈ free ++ list, Linkable x := fun x hx =>
        hgood x (List.mem_cons_of_mem _ hx)
      obtain ⟨m₁, heq, hlist₁, hf₁⟩ := pushBlock_ofSeq (T := fun x => x = b) mS hlist
        (hgood b List.mem_cons_self)
        (fun x hx => hgood' x (List.mem_append.mpr (Or.inr hx))) hbl rfl
      have hfree₁ : Linked m₁ free := hf₁.linked hfree.2
        (fun x hx => hgood' x (List.mem_append.mpr (Or.inl hx))) fun x hx hxb => hbf (hxb ▸ hx)
      have hperm : (free ++ b :: list).Perm (b :: free ++ list) := List.perm_middle
      obtain ⟨m₂, hrun, hdrop, htake, hf₂⟩ := ih (by simpa using hn) hfree₁ hlist₁
        (hperm.nodup_iff.mpr hnodup) fun x hx => hgood x (hperm.mem_iff.mp hx)
      refine ⟨m₂, ?_, hdrop, ?_, ?_⟩
      · simp only [drainReclaimed, popBlockUnchecked_ofSeq hfree, Option.bind_some, heq, hrun,
          List.drop_succ_cons, List.take_succ_cons, List.reverse_cons, List.append_assoc,
          List.singleton_append]
      · simpa using htake
      · exact (hf₁.mono fun x hx => hx ▸ List.mem_cons_self).trans
          (hf₂.mono fun x hx => List.mem_cons_of_mem _ hx)

/-- Fresh blocks get their header before they are linked. -/
theorem drainFresh_map (mS : Mem) (c : SizeClass) (blockSize n block : Nat) {list : List Nat}
    (hlist : Linked mF list)
    (hnodup : (slabBlocks block blockSize n ++ list).Nodup)
    (hgood : ∀ b ∈ slabBlocks block blockSize n ++ list, Linkable b) :
    ∃ mF', drainFresh mF c blockSize n block (FreeList.ofSeq list) =
        (mF', FreeList.ofSeq ((slabBlocks block blockSize n).reverse ++ list)) ∧
      Linked mF' ((slabBlocks block blockSize n).reverse ++ list) ∧
      Follows (fun x => x ∈ slabBlocks block blockSize n) mF mS mF'
        (initializeAll mS c (slabBlocks block blockSize n)) := by
  induction n generalizing mF mS block list with
  | zero => exact ⟨mF, rfl, hlist, Follows.refl _ _ _⟩
  | succ n ih =>
    rw [slabBlocks_succ] at hnodup hgood ⊢
    obtain ⟨hb, hnd⟩ := List.nodup_cons.mp hnodup
    have hbl : block ∉ list := fun h => hb (List.mem_append.mpr (Or.inr h))
    have hgoodb := hgood block List.mem_cons_self
    have hgoodl : ∀ x ∈ list, Linkable x := fun x hx =>
      hgood x (List.mem_cons_of_mem _ (List.mem_append.mpr (Or.inr hx)))
    have hf₀ : Follows (fun x => x = block) mF mS (initializeSmallToBlockUnchecked mF block c)
        (initializeSmallToBlockUnchecked mS block c) :=
      Follows.writeEncodedFields (T := fun x => x = block) rfl hgoodb _ _ _ _ _
    have hlist₀ := hf₀.linked hlist hgoodl fun x hx hxb => hbl (hxb ▸ hx)
    obtain ⟨m₁, heq, hlist₁, hf₁⟩ := pushBlock_ofSeq (T := fun x => x = block)
      (initializeSmallToBlockUnchecked mS block c) hlist₀ hgoodb hgoodl hbl rfl
    have hperm : (slabBlocks (block + blockSize) blockSize n ++ block :: list).Perm
        (block :: slabBlocks (block + blockSize) blockSize n ++ list) := List.perm_middle
    obtain ⟨m₂, hrun, hlinked, hf₂⟩ := ih _ (block + blockSize) hlist₁ (hperm.nodup_iff.mpr hnodup)
      (fun x hx => hgood x (hperm.mem_iff.mp hx))
    refine ⟨m₂, ?_, ?_, ?_⟩
    · simp only [drainFresh, heq, hrun, List.reverse_cons, List.append_assoc, List.singleton_append]
    · simpa using hlinked
    · exact ((hf₀.trans hf₁).mono fun x hx => hx ▸ List.mem_cons_self).trans
        (hf₂.mono fun x hx => List.mem_cons_of_mem _ hx)

theorem popBatch_map {max : Nat} {c : SizeClass} {batch : List Nat} {mS' : Mem}
    (h : Linked mF slab.free) (hnodup : (slab.free ++ slab.freshBlocks).Nodup)
    (hgood : ∀ b ∈ slab.free ++ slab.freshBlocks, Linkable b)
    (hpop : slab.popBatch mS max c = some (mS', batch, slab')) :
    ∃ mF', (slab.map FreeList.ofSeq).popBatch mF max c =
        some (mF', Batch.ofSeq batch, slab'.map FreeList.ofSeq) ∧
      Linked mF' batch ∧ Linked mF' slab'.free ∧ slab'.free.Sublist slab.free ∧
      Follows (fun x => x ∈ slab.free ++ slab.freshBlocks) mF mS mF' mS' := by
  obtain ⟨r, hr⟩ : ∃ r, r = min slab.free.length max := ⟨_, rfl⟩
  obtain ⟨n, hn⟩ : ∃ n, n = min (max - r) (slab.capacity - slab.nextFresh) := ⟨_, rfl⟩
  obtain ⟨fresh, hfresh⟩ : ∃ fresh, fresh =
    slabBlocks (slab.start + slab.nextFresh * slab.blockSize) slab.blockSize n := ⟨_, rfl⟩
  have hsub : ∀ x ∈ fresh, x ∈ slab.freshBlocks := by
    intro x hx
    rw [@freshBlocks_split slab n (by omega), ← hfresh]
    exact List.mem_append.mpr (Or.inl hx)
  obtain ⟨hndFree, hndFresh, hdisj⟩ := List.nodup_append.mp hnodup
  have hfreshNd : fresh.Nodup := by
    rw [@freshBlocks_split slab n (by omega), ← hfresh] at hndFresh
    exact (List.nodup_append.mp hndFresh).1
  have hgoodFree : ∀ x ∈ slab.free, Linkable x := fun x hx =>
    hgood x (List.mem_append.mpr (Or.inl hx))
  have hgoodFresh : ∀ x ∈ fresh, Linkable x := fun x hx =>
    hgood x (List.mem_append.mpr (Or.inr (hsub x hx)))
  obtain ⟨m₁, hrun₁, hdrop, htake, hf₁⟩ := drainReclaimed_map mS r
    (hr ▸ Nat.min_le_left _ _) h (show Linked mF [] from trivial) (by simpa using hndFree)
    (by simpa using hgoodFree)
  rw [List.append_nil] at htake
  have htakeNd : (slab.free.take r).reverse.Nodup :=
    List.nodup_reverse.mpr (hndFree.sublist (List.take_sublist _ _))
  have hlistNd : (fresh ++ (slab.free.take r).reverse).Nodup := by
    refine List.nodup_append.mpr ⟨hfreshNd, htakeNd, fun x hx y hy hxy => ?_⟩
    exact hdisj y (List.mem_of_mem_take (List.mem_reverse.mp hy)) x (hsub x hx) hxy.symm
  have hlistGood : ∀ x ∈ fresh ++ (slab.free.take r).reverse, Linkable x := by
    intro x hx
    rcases List.mem_append.mp hx with hx | hx
    · exact hgoodFresh x hx
    · exact hgoodFree x (List.mem_of_mem_take (List.mem_reverse.mp hx))
  obtain ⟨m₂, hrun₂, hlist, hf₂⟩ := drainFresh_map mS c slab.blockSize n
    (slab.start + slab.nextFresh * slab.blockSize) htake (hfresh ▸ hlistNd) (hfresh ▸ hlistGood)
  rw [← hfresh] at hrun₂ hlist hf₂
  obtain ⟨list, hlistEq⟩ : ∃ list, list = fresh.reverse ++ (slab.free.take r).reverse := ⟨_, rfl⟩
  have hperm : list.Perm (fresh ++ (slab.free.take r).reverse) :=
    hlistEq ▸ (List.reverse_perm fresh).append_right _
  rw [← hlistEq] at hlist
  -- what the operation over sequences does
  have hS : slab.popBatch mS max c = (if list = [] ∨ r + n = 0 then none
      else some (initializeAll mS c fresh, list.take (r + n),
        { slab with free := slab.free.drop r, nextFresh := slab.nextFresh + n })) := by
    simp only [popBatch, seq_len, seq_empty, ← hr, ← hn,
      drainReclaimed_eq (m := mS) r slab.free [] (hr ▸ Nat.min_le_left _ _), Option.bind_some,
      drainFresh_eq, ← hfresh, List.append_nil, seq_popBatchUnchecked, ← hlistEq]
    split <;> rfl
  rw [hS] at hpop
  split at hpop
  · cases hpop
  rename_i hne
  rw [not_or] at hne
  obtain ⟨rfl, rfl, rfl⟩ : initializeAll mS c fresh = mS' ∧ list.take (r + n) = batch ∧
      _ = slab' := by simpa using hpop
  obtain ⟨m₃, hrun₃, hbatch, _, hf₃⟩ := popBatchUnchecked_ofSeq (T := fun x => x ∈ list)
    (initializeAll mS c fresh) hlist hne.1 hne.2 (fun x hx => hlistGood x (hperm.mem_iff.mp hx))
    (hperm.nodup_iff.mpr hlistNd) fun _ hx => List.mem_of_mem_take hx
  have hmem : ∀ x ∈ list, x ∈ slab.free ++ slab.freshBlocks := by
    intro x hx
    rcases List.mem_append.mp (hperm.mem_iff.mp hx) with hx | hx
    · exact List.mem_append.mpr (Or.inr (hsub x hx))
    · exact List.mem_append.mpr (Or.inl (List.mem_of_mem_take (List.mem_reverse.mp hx)))
  have hdrop' : Linked m₃ (slab.free.drop r) := by
    have hd := List.nodup_append.mp ((List.take_append_drop r slab.free).symm ▸ hndFree)
    refine hf₃.linked (hf₂.linked hdrop ?_ ?_) ?_ ?_
    · exact fun x hx => hgoodFree x (List.mem_of_mem_drop hx)
    · exact fun x hx hxf => hdisj x (List.mem_of_mem_drop hx) x (hsub x hxf) rfl
    · exact fun x hx => hgoodFree x (List.mem_of_mem_drop hx)
    · intro x hx hxl
      rcases List.mem_append.mp (hperm.mem_iff.mp hxl) with hxl | hxl
      · exact hdisj x (List.mem_of_mem_drop hx) x (hsub x hxl) rfl
      · exact hd.2.2 x (List.mem_reverse.mp hxl) x hx rfl
  refine ⟨m₃, ?_, hbatch, hdrop', List.drop_sublist _ _, ?_⟩
  · have hrun₁' : drainReclaimed mF r (FreeList.ofSeq slab.free) BlockList.empty =
        some (m₁, FreeList.ofSeq (slab.free.drop r),
          FreeList.ofSeq ((slab.free.take r).reverse)) := by
      rw [← ofSeq_nil, hrun₁, List.append_nil]
    simp only [popBatch, map, len_ofSeq, ← hr, hrun₁', Option.bind_some, ← hn, hrun₂, ← hlistEq,
      hrun₃, Option.map_some]
  · refine ((hf₁.mono fun x hx => ?_).trans (hf₂.mono fun x hx => ?_)).trans
      (hf₃.mono fun x hx => hmem x hx)
    · exact List.mem_append.mpr (Or.inl hx)
    · exact List.mem_append.mpr (Or.inr (hsub x hx))

end LocalSlab

namespace LocalClassCache

@[simp] theorem new_map : (new : LocalClassCache (List Nat)).map FreeList.ofSeq = new := rfl

@[simp] theorem pushOwnedSlab_map (cache : LocalClassCache (List Nat))
    (start blockSize capacity : Nat) :
    (cache.map FreeList.ofSeq).pushOwnedSlab start blockSize capacity =
      (cache.pushOwnedSlab start blockSize capacity).map FreeList.ofSeq := by
  simp only [pushOwnedSlab]
  have hkey : (cache.map FreeList.ofSeq).slabStart = cache.slabStart :=
    funext fun id => slabStart_map _ cache id
  rw [hkey]
  have hsearch : (cache.map FreeList.ofSeq).slabsByStart = cache.slabsByStart := rfl
  rw [hsearch]
  have hreset : ∀ (mid : LocalClassCache (List Nat)) (id : Nat),
      { mid.map FreeList.ofSeq with
        slabs := (mid.map FreeList.ofSeq).slabs.modify id LocalSlab.reset } =
      { mid with slabs := mid.slabs.modify id LocalSlab.reset }.map FreeList.ofSeq := by
    intro mid id
    have hslab : ∀ slab : LocalSlab (List Nat),
        (slab.map FreeList.ofSeq).reset = slab.reset.map FreeList.ofSeq := fun _ => rfl
    exact congrArg (fun slabs => { mid.map FreeList.ofSeq with slabs })
      (modify_map hslab mid.slabs id)
  have hnew : ∀ ids : List Nat,
      { cache.map FreeList.ofSeq with
        slabs := (cache.map FreeList.ofSeq).slabs ++ [LocalSlab.new start blockSize capacity]
        slabsByStart := ids } =
      { cache with
        slabs := cache.slabs ++ [LocalSlab.new start blockSize capacity]
        slabsByStart := ids }.map FreeList.ofSeq := by
    intro ids
    simp only [map, List.map_append]
    rfl
  have hlen : (cache.map FreeList.ofSeq).slabs.length = cache.slabs.length := List.length_map ..
  rw [hlen]
  cases binarySearchByKey cache.slabStart start cache.slabsByStart with
  | ok slot =>
    simp only [markSlabUnavailable_map, hreset, markSlabAvailable_map]
    rfl
  | error slot =>
    simp only [hnew, markSlabAvailable_map]
    rfl

end LocalClassCache

/-! ### The lists of a cache -/

namespace LocalClassCache

variable {cache cache' : LocalClassCache (List Nat)} {mF mS mS' : Mem}

/-- The free lists of a class: the shared one and one for each slab. -/
def lists (cache : LocalClassCache (List Nat)) : List (List Nat) :=
  cache.shared :: cache.slabs.map LocalSlab.free

theorem getElem?_lists {id : Nat} {slab : LocalSlab (List Nat)} (h : cache.slabs[id]? = some slab) :
    cache.lists[id + 1]? = some slab.free := by
  simp [lists, h]

theorem coe_flatten_lists :
    (cache.lists.flatten : Multiset Nat) = cache.sharedBag + cache.freeBag := by
  rw [lists, List.flatten_cons, ← Multiset.coe_add, BagSum.coe_flatten_map]
  rfl

@[simp] theorem lists_setAvailableSlot (cache : LocalClassCache (List Nat)) (id : Nat)
    (slot : Option Nat) : (cache.setAvailableSlot id slot).lists = cache.lists := by
  refine congrArg (cache.shared :: ·) (List.ext_getElem? fun j => ?_)
  simp only [setAvailableSlot, List.getElem?_map, List.getElem?_modify]
  cases cache.slabs[j]? with
  | none => rfl
  | some slab => by_cases hj : id = j <;> simp [hj]

@[simp] theorem lists_markSlabAvailable (id : Nat) :
    (cache.markSlabAvailable id).lists = cache.lists := by
  unfold markSlabAvailable
  split
  · rfl
  · exact lists_setAvailableSlot cache id _

@[simp] theorem lists_markSlabUnavailable (id : Nat) :
    (cache.markSlabUnavailable id).lists = cache.lists := by
  have hmid : ∀ rest, { cache.setAvailableSlot id none with availableSlabs := rest }.lists =
      cache.lists := fun _ => lists_setAvailableSlot cache id none
  unfold markSlabUnavailable
  cases cache.availableSlot id with
  | none => rfl
  | some slot =>
    dsimp only
    split
    · rw [lists_setAvailableSlot, hmid]
    · exact hmid _

theorem lists_setSlab (cache : LocalClassCache (List Nat)) (id : Nat)
    (slab : LocalSlab (List Nat)) (recent : Option Nat) (len : Nat) :
    (cache.setSlab id slab recent len).lists = cache.lists.set (id + 1) slab.free := by
  simp [lists, setSlab, List.map_set]

theorem map_setSlab (cache : LocalClassCache (List Nat)) (id : Nat) (slab : LocalSlab (List Nat))
    (recent : Option Nat) (len : Nat) :
    (cache.setSlab id slab recent len).map FreeList.ofSeq =
      { cache.map FreeList.ofSeq with
        slabs := (cache.map FreeList.ofSeq).slabs.set id (slab.map FreeList.ofSeq)
        recentSlab := recent
        totalLen := len } := by
  simp [map, setSlab, List.map_set]

/-- A slab that has been used up leaves the list of available ones. -/
def settle (cache : LocalClassCache (List Nat)) (id : Nat) (available : Bool) :
    LocalClassCache (List Nat) :=
  if available then cache else cache.markSlabUnavailable id

@[simp] theorem lists_settle (cache : LocalClassCache (List Nat)) (id : Nat) (available : Bool) :
    (cache.settle id available).lists = cache.lists := by
  unfold settle
  split
  · rfl
  · exact lists_markSlabUnavailable id

theorem map_settle (cache : LocalClassCache (List Nat)) (id : Nat) (available : Bool) :
    (cache.settle id available).map FreeList.ofSeq =
      if available then cache.map FreeList.ofSeq
      else (cache.map FreeList.ofSeq).markSlabUnavailable id := by
  unfold settle
  split
  · rfl
  · rw [markSlabUnavailable_map]

theorem woven_pushOwnedSlab (h : Woven mF cache.lists) (start blockSize capacity : Nat) :
    Woven mF (cache.pushOwnedSlab start blockSize capacity).lists := by
  have hend : ∀ (mid : LocalClassCache (List Nat)) (id : Nat), Woven mF mid.lists →
      Woven mF { mid.markSlabAvailable id with
        recentSlab := some id
        totalLen := (mid.markSlabAvailable id).totalLen + capacity }.lists := by
    intro mid id hmid
    rw [← lists_markSlabAvailable id] at hmid
    exact hmid
  unfold pushOwnedSlab
  cases binarySearchByKey cache.slabStart start cache.slabsByStart with
  | ok slot =>
    refine hend _ _ ?_
    obtain ⟨id, hid⟩ : ∃ id, id = cache.slabsByStart[slot]?.getD 0 := ⟨_, rfl⟩
    obtain ⟨mid, hmid⟩ : ∃ mid, mid = cache.markSlabUnavailable id := ⟨_, rfl⟩
    have hw : Woven mF mid.lists := by rwa [hmid, lists_markSlabUnavailable]
    rw [← hid, ← hmid]
    cases hslab : mid.slabs[id]? with
    | none =>
      have : mid.slabs.modify id LocalSlab.reset = mid.slabs :=
        List.modify_eq_self (List.getElem?_eq_none_iff.mp hslab)
      rw [this]
      exact hw
    | some slab =>
      have : { mid with slabs := mid.slabs.modify id LocalSlab.reset }.lists =
          mid.lists.set (id + 1) [] := by
        refine congrArg (mid.shared :: ·) (List.ext_getElem? fun j => ?_)
        simp only [List.getElem?_map, List.getElem?_modify, List.getElem?_set]
        by_cases hj : id = j
        · subst hj
          simp [LocalSlab.reset, (List.getElem?_eq_some_iff.mp hslab).1]
        · simp [hj]
      rw [this]
      exact hw.shrink (getElem?_lists hslab) trivial (List.nil_sublist _)
  | error slot =>
    refine hend _ _ ?_
    have : ∀ ids, { cache with
        slabs := cache.slabs ++ [LocalSlab.new start blockSize capacity]
        slabsByStart := ids }.lists = cache.lists ++ [[]] := by
      intro ids
      simp [lists, LocalSlab.new]
    rw [this]
    exact h.append_nil

/-! ### Popping and pushing -/

theorem popBlockUnchecked_map {block : Nat} {reuse : BlockReuse} (h : Woven mF cache.lists)
    (hpop : cache.popBlockUnchecked mS = some (block, reuse, cache')) :
    (cache.map FreeList.ofSeq).popBlockUnchecked mF =
        some (block, reuse, cache'.map FreeList.ofSeq) ∧ Woven mF cache'.lists := by
  unfold popBlockUnchecked at hpop
  split at hpop
  · rename_i b hhot
    obtain ⟨rfl, rfl, rfl⟩ : b = block ∧ _ = reuse ∧ _ = cache' := by simpa using hpop
    have hhot' : (cache.map FreeList.ofSeq).hotBlock = some b := hhot
    exact ⟨by simp only [popBlockUnchecked, hhot']; rfl, h⟩
  · rename_i hhot
    have hhot' : (cache.map FreeList.ofSeq).hotBlock = none := hhot
    split at hpop
    · rename_i id hid
      have hid' : (cache.map FreeList.ofSeq).availableSlabs.getLast? = some id := hid
      obtain ⟨slab, hslab, hpop⟩ := Option.bind_eq_some_iff.mp hpop
      obtain ⟨⟨b, r, slab'⟩, hslab', hpop⟩ := Option.map_eq_some_iff.mp hpop
      obtain ⟨rfl, hrest⟩ := Prod.mk.inj hpop
      obtain ⟨rfl, hcache⟩ := Prod.mk.inj hrest
      have hcache : (cache.setSlab id slab' (some id) (cache.totalLen - 1)).settle id
        slab'.hasAvailableBlocks = cache' := hcache
      obtain ⟨hmap, hlinked, hsub⟩ := LocalSlab.popBlockUnchecked_map
        (h.linked _ (List.mem_of_getElem? (getElem?_lists hslab))) hslab'
      rw [← hcache, lists_settle, lists_setSlab, map_settle, map_setSlab]
      refine ⟨?_, h.shrink (getElem?_lists hslab) hlinked hsub⟩
      simp only [popBlockUnchecked, hhot', hid', getElem?_map_slabs, hslab, Option.map_some,
        Option.bind_some, hmap, LocalSlab.hasAvailableBlocks_map]
      rfl
    · rename_i hid
      have hid' : (cache.map FreeList.ofSeq).availableSlabs.getLast? = none := hid
      obtain ⟨⟨b, shared⟩, hshared, hpop⟩ := Option.map_eq_some_iff.mp hpop
      obtain ⟨rfl, rfl, rfl⟩ : b = block ∧ _ = reuse ∧ _ = cache' := by simpa using hpop
      have hcons : cache.shared = b :: shared := by
        cases hs : cache.shared with
        | nil => simp [hs] at hshared
        | cons b' rest => simpa [hs] using hshared
      have hlinked : Linked mF (b :: shared) := hcons ▸ h.linked cache.shared List.mem_cons_self
      refine ⟨?_, h.shrink (i := 0) rfl hlinked.2
        (hcons ▸ List.sublist_cons_self _ _)⟩
      have hpop' : BlockStore.popBlockUnchecked mF (cache.map FreeList.ofSeq).shared =
          some (b, FreeList.ofSeq shared) := by
        rw [map, hcons]
        exact popBlockUnchecked_ofSeq hlinked
      simp only [popBlockUnchecked, hhot', hid', hpop', Option.map_some]
      simp only [map, hhot]

theorem pushSpilledBlock_map {debug : Bool} {b : Nat} (h : Woven mF cache.lists)
    (hb : Linkable b) (hnew : b ∉ cache.lists.flatten)
    (hpush : cache.pushSpilledBlock debug mS b = some (mS', cache')) :
    ∃ mF', (cache.map FreeList.ofSeq).pushSpilledBlock debug mF b =
        some (mF', cache'.map FreeList.ofSeq) ∧ Woven mF' cache'.lists ∧
      Follows (fun x => x = b) mF mS mF' mS' := by
  unfold pushSpilledBlock at hpush
  split at hpush
  · rename_i id hid
    obtain ⟨slab, hslab, hpush⟩ := Option.map_eq_some_iff.mp hpush
    obtain ⟨mF', heq, hw, hf⟩ := h.push mS (getElem?_lists hslab) hb hnew
    obtain ⟨slab', hslab'⟩ : ∃ slab' : LocalSlab (List Nat),
      slab' = { slab with free := b :: slab.free } := ⟨_, rfl⟩
    obtain ⟨hmem, hcache⟩ := Prod.mk.inj hpush
    have hmem : mS = mS' := hmem
    have hcache : (if !slab.hasAvailableBlocks then
        (cache.setSlab id slab' (some id) cache.totalLen).markSlabAvailable id
      else cache.setSlab id slab' (some id) cache.totalLen) = cache' := by
      rw [hslab']
      exact hcache
    rw [← hmem]
    have hlists : cache'.lists = cache.lists.set (id + 1) (b :: slab.free) := by
      rw [← hcache]
      split
      · rw [lists_markSlabAvailable, lists_setSlab, hslab']
      · rw [lists_setSlab, hslab']
    refine ⟨mF', ?_, hlists ▸ hw, hf⟩
    have hpush' : (slab.map FreeList.ofSeq).pushBlock mF b = (mF', slab'.map FreeList.ofSeq) := by
      simp only [LocalSlab.pushBlock, LocalSlab.map, heq, hslab']
    have hmap : (if !slab.hasAvailableBlocks then
        ((cache.setSlab id slab' (some id) cache.totalLen).map FreeList.ofSeq).markSlabAvailable id
      else (cache.setSlab id slab' (some id) cache.totalLen).map FreeList.ofSeq) =
        cache'.map FreeList.ofSeq := by
      rw [← hcache]
      split
      · rw [markSlabAvailable_map]
      · rfl
    simp only [pushSpilledBlock, homeSlab_map, hid, getElem?_map_slabs, hslab, Option.map_some,
      LocalSlab.hasAvailableBlocks_map, hpush', ← hmap, map_setSlab]
    rfl
  · rename_i hid
    obtain ⟨rfl, rfl⟩ : mS = mS' ∧ _ = cache' := by simpa using hpush
    obtain ⟨mF', heq, hw, hf⟩ := h.push (i := 0) mS rfl hb hnew
    refine ⟨mF', ?_, hw, hf⟩
    have hpush' : BlockStore.pushBlock mF (cache.map FreeList.ofSeq).shared b =
        (mF', FreeList.ofSeq (b :: cache.shared)) := heq
    simp only [pushSpilledBlock, homeSlab_map, hid, hpush']
    rfl

/-- The hot block and the fresh ones are in none of the lists. -/
theorem not_mem_lists (hnodup : cache.bag.Nodup) {b : Nat}
    (hb : b ∈ cache.hotBag + cache.freshBag) : b ∉ cache.lists.flatten := by
  have heq : cache.bag = (cache.hotBag + cache.freshBag) +
      (cache.lists.flatten : Multiset Nat) := by
    rw [coe_flatten_lists, bag, ownedBag]
    ac_rfl
  rw [heq] at hnodup
  intro h
  exact Multiset.disjoint_left.mp (Multiset.nodup_add.mp hnodup).2.2 hb (Multiset.mem_coe.mpr h)

theorem mem_bag_of_lists {b : Nat} (h : b ∈ cache.lists.flatten) : b ∈ cache.bag := by
  have hb : b ∈ cache.sharedBag + cache.freeBag := coe_flatten_lists ▸ Multiset.mem_coe.mpr h
  rcases Multiset.mem_add.mp hb with hb | hb
  · exact Multiset.mem_of_le cache.sharedBag_le_bag hb
  · exact Multiset.mem_of_le cache.freeBag_le_bag hb

theorem pushBlock_map {debug : Bool} {b : Nat} (h : Woven mF cache.lists)
    (hnodup : cache.bag.Nodup) (hgood : ∀ x ∈ cache.bag, Linkable x)
    (hpush : cache.pushBlock debug mS b = some (mS', cache')) :
    ∃ mF', (cache.map FreeList.ofSeq).pushBlock debug mF b =
        some (mF', cache'.map FreeList.ofSeq) ∧ Woven mF' cache'.lists ∧
      Follows (fun x => x ∈ cache.bag) mF mS mF' mS' := by
  obtain ⟨replaced, hrep⟩ : ∃ replaced : LocalClassCache (List Nat),
    replaced = { cache with hotBlock := some b, totalLen := cache.totalLen + 1 } := ⟨_, rfl⟩
  have hlists : replaced.lists = cache.lists := by rw [hrep]; rfl
  have hmap : replaced.map FreeList.ofSeq = { cache.map FreeList.ofSeq with
      hotBlock := some b, totalLen := (cache.map FreeList.ofSeq).totalLen + 1 } := by
    rw [hrep]
    rfl
  cases hhot : cache.hotBlock with
  | none =>
    have hhot' : (cache.map FreeList.ofSeq).hotBlock = none := hhot
    simp only [pushBlock, hhot, ← hrep, Option.some.injEq, Prod.mk.injEq] at hpush
    obtain ⟨rfl, rfl⟩ := hpush
    refine ⟨mF, ?_, hlists ▸ h, Follows.refl _ _ _⟩
    simp only [pushBlock, hhot', hmap]
  | some prev =>
    have hhot' : (cache.map FreeList.ofSeq).hotBlock = some prev := hhot
    simp only [pushBlock, hhot, ← hrep] at hpush
    have hprev : prev ∈ cache.hotBag := by simp [hotBag, hhot]
    have hbag : prev ∈ cache.bag := Multiset.mem_of_le cache.hotBag_le_bag hprev
    obtain ⟨mF', hrun, hw, hf⟩ := pushSpilledBlock_map (hlists ▸ h) (hgood prev hbag)
      (hlists ▸ not_mem_lists hnodup (Multiset.mem_add.mpr (Or.inl hprev))) hpush
    refine ⟨mF', ?_, hw, hf.mono fun x hx => hx ▸ hbag⟩
    simp only [pushBlock, hhot', ← hmap, hrun]

theorem pushSharedBatch_map {batch : List Nat} (h : Woven mF cache.lists)
    (hlinked : Linked mF batch) (hgood : ∀ b ∈ batch, Linkable b)
    (hnodup : ((batch : Multiset Nat) + cache.bag).Nodup)
    (hpush : cache.pushSharedBatch mS batch = some (mS', cache')) :
    ∃ mF', (cache.map FreeList.ofSeq).pushSharedBatch mF (Batch.ofSeq batch) =
        some (mF', cache'.map FreeList.ofSeq) ∧ Woven mF' cache'.lists ∧
      Follows (fun x => x ∈ batch) mF mS mF' mS' := by
  obtain ⟨hnd, _, hdisj⟩ := Multiset.nodup_add.mp hnodup
  obtain ⟨mF', heq, hw, hf⟩ := h.pushBatch mS (i := 0) rfl hlinked hgood (Multiset.coe_nodup.mp hnd)
    fun b hb hl => Multiset.disjoint_left.mp hdisj (Multiset.mem_coe.mpr hb) (mem_bag_of_lists hl)
  obtain ⟨rfl, rfl⟩ : mS = mS' ∧ _ = cache' := by simpa [pushSharedBatch] using hpush
  refine ⟨mF', ?_, hw, hf⟩
  have heq' : BlockStore.pushBatch mF (cache.map FreeList.ofSeq).shared (Batch.ofSeq batch) =
      some (mF', FreeList.ofSeq (batch ++ cache.shared)) := heq
  simp only [pushSharedBatch, heq', Option.map_some, batchLen_ofSeq]
  rfl

/-- The reclaimed and fresh blocks of a slab are among those of the cache. -/
theorem slab_le_bag {id : Nat} {slab : LocalSlab (List Nat)} (h : cache.slabs[id]? = some slab) :
    ((slab.free ++ slab.freshBlocks : List Nat) : Multiset Nat) ≤ cache.bag := by
  have hmem : slab ∈ cache.slabs := List.mem_of_getElem? h
  have h1 : (slab.free : Multiset Nat) ≤ cache.freeBag :=
    BagSum.le_total (f := fun slab : LocalSlab (List Nat) => (slab.free : Multiset Nat)) hmem
  have h2 : (slab.freshBlocks : Multiset Nat) ≤ cache.freshBag :=
    BagSum.le_total (f := fun slab : LocalSlab (List Nat) => (slab.freshBlocks : Multiset Nat)) hmem
  rw [← Multiset.coe_add]
  calc (slab.free : Multiset Nat) + slab.freshBlocks
      ≤ cache.freeBag + cache.freshBag := add_le_add h1 h2
    _ ≤ cache.hotBag + (cache.freeBag + cache.freshBag) := Multiset.le_add_left _ _
    _ ≤ cache.bag := by
      rw [bag, ownedBag, ← add_assoc]
      exact Multiset.le_add_right _ _

theorem popBatch_map_slab {max : Nat} {c : SizeClass} {batch : List Nat} {id : Nat}
    {slab slab' : LocalSlab (List Nat)} (hslab : cache.slabs[id]? = some slab)
    (h : Woven mF cache.lists) (hnodup : cache.bag.Nodup) (hgood : ∀ x ∈ cache.bag, Linkable x)
    (hpop : slab.popBatch mS max c = some (mS', batch, slab')) :
    ∃ mF', (slab.map FreeList.ofSeq).popBatch mF max c =
        some (mF', Batch.ofSeq batch, slab'.map FreeList.ofSeq) ∧
      Woven mF' (cache.lists.set (id + 1) slab'.free) ∧ Linked mF' batch ∧
      Follows (fun x => x ∈ cache.bag) mF mS mF' mS' := by
  have hle := slab_le_bag hslab
  have hlist := getElem?_lists hslab
  have hbag : ∀ x ∈ slab.free ++ slab.freshBlocks, x ∈ cache.bag := fun x hx =>
    Multiset.mem_of_le hle (Multiset.mem_coe.mpr hx)
  obtain ⟨mF', hrun, hbatch, hfree, hsub, hf⟩ := LocalSlab.popBatch_map
    (h.linked _ (List.mem_of_getElem? hlist))
      (Multiset.coe_nodup.mp (Multiset.nodup_of_le hle hnodup))
    (fun x hx => hgood x (hbag x hx)) hpop
  have hnd : slab.free.Nodup := (List.nodup_flatten.mp h.nodup).1 _ (List.mem_of_getElem? hlist)
  refine ⟨mF', hrun, h.set hlist hf (fun x hx => ?_) hfree (hnd.sublist hsub)
    (fun x hx => hgood x (hbag x (List.mem_append.mpr (Or.inl (hsub.subset hx)))))
    fun x hx => Or.inl (hsub.subset hx), hbatch, hf.mono hbag⟩
  refine (List.mem_append.mp hx).imp_right fun hx => not_mem_lists hnodup ?_
  exact Multiset.mem_add.mpr (Or.inr (BagSum.mem_total.mpr
    ⟨slab, List.mem_of_getElem? hslab, Multiset.mem_coe.mpr hx⟩))

theorem popBatch_map {max : Nat} {c : SizeClass} {batch : List Nat} (hmax : max ≠ 0)
    (hlen : cache.sharedLen = cache.shared.length) (h : Woven mF cache.lists)
    (hnodup : cache.bag.Nodup) (hgood : ∀ x ∈ cache.bag, Linkable x)
    (hpop : cache.popBatch mS max c = some (mS', batch, cache')) :
    ∃ mF', (cache.map FreeList.ofSeq).popBatch mF max c =
        some (mF', Batch.ofSeq batch, cache'.map FreeList.ofSeq) ∧ Woven mF' cache'.lists ∧
      Linked mF' batch ∧ Follows (fun x => x ∈ cache.bag) mF mS mF' mS' := by
  have hlen' : (cache.map FreeList.ofSeq).sharedLen = cache.sharedLen := rfl
  unfold popBatch at hpop
  split at hpop
  · rename_i hshared
    have hne : cache.shared ≠ [] := fun hnil => hshared (by rw [hlen, hnil]; rfl)
    obtain ⟨mF', heq, hw, hbatch, hf⟩ := h.popBatch mS (i := 0) rfl hne hmax
    have heq' : BlockStore.popBatchUnchecked mF (cache.map FreeList.ofSeq).shared max =
        some (mF', Batch.ofSeq (cache.shared.take max),
          FreeList.ofSeq (cache.shared.drop max)) := heq
    obtain ⟨rfl, rfl, rfl⟩ : mS = mS' ∧ cache.shared.take max = batch ∧ _ = cache' := by
      simpa [hne, hmax] using hpop
    refine ⟨mF', ?_, hw, hbatch, hf.mono fun x hx => ?_⟩
    · simp only [popBatch, hlen', if_pos hshared, heq', Option.map_some, batchLen_ofSeq]
      simp only [map, List.length_take]
    · exact mem_bag_of_lists (List.mem_flatten.mpr ⟨_, List.mem_cons_self, hx⟩)
  · rename_i hshared
    split at hpop
    · rename_i id hid
      have hid' : (cache.map FreeList.ofSeq).availableSlabs.getLast? = some id := hid
      obtain ⟨slab, hslab, hpop⟩ := Option.bind_eq_some_iff.mp hpop
      obtain ⟨⟨m, l, slab'⟩, hslab', hpop⟩ := Option.map_eq_some_iff.mp hpop
      obtain ⟨rfl, hrest⟩ := Prod.mk.inj hpop
      obtain ⟨rfl, hcache⟩ := Prod.mk.inj hrest
      have hcache : (cache.setSlab id slab' cache.recentSlab
        (cache.totalLen - l.length)).settle id slab'.hasAvailableBlocks = cache' := hcache
      obtain ⟨mF', hrun, hw, hbatch, hf⟩ := popBatch_map_slab hslab h hnodup hgood hslab'
      rw [← hcache, lists_settle, lists_setSlab, map_settle, map_setSlab]
      refine ⟨mF', ?_, hw, hbatch, hf⟩
      simp only [popBatch, hlen', if_neg hshared, hid', getElem?_map_slabs, hslab, Option.map_some,
        Option.bind_some, hrun, LocalSlab.hasAvailableBlocks_map, batchLen_ofSeq]
      rfl
    · rename_i hid
      have hid' : (cache.map FreeList.ofSeq).availableSlabs.getLast? = none := hid
      split at hpop
      · rename_i b hhot
        have hhot' : (cache.map FreeList.ofSeq).hotBlock = some b := hhot
        have hb : b ∈ cache.hotBag := by simp [hotBag, hhot]
        have hbag : b ∈ cache.bag := Multiset.mem_of_le cache.hotBag_le_bag hb
        have hnot := not_mem_lists hnodup (Multiset.mem_add.mpr (Or.inl hb))
        obtain ⟨m₁, hpush, hlinked, hf₁⟩ := pushBlock_ofSeq (T := fun x => x = b) mS
          (show Linked mF [] from trivial) (hgood b hbag) (by simp) (by simp) rfl
        obtain ⟨m₂, hpop₂, hbatch, _, hf₂⟩ := popBatchUnchecked_ofSeq (T := fun x => x = b) mS
          hlinked (by simp) Nat.one_ne_zero (by simpa using hgood b hbag) (by simp) (by simp)
        obtain ⟨rfl, rfl, rfl⟩ : mS = mS' ∧ [b] = batch ∧ _ = cache' := by simpa using hpop
        refine ⟨m₂, ?_, h.follows (hf₁.trans hf₂) fun x hx hxb => hnot (hxb ▸ hx), hbatch,
          (hf₁.trans hf₂).mono fun x hx => hx ▸ hbag⟩
        rw [ofSeq_nil] at hpush
        simp only [popBatch, hlen', if_neg hshared, hid', hhot', hpush, hpop₂, Option.map_some]
        rfl
      · rename_i hhot
        have hhot' : (cache.map FreeList.ofSeq).hotBlock = none := hhot
        obtain ⟨rfl, rfl, rfl⟩ : mS = mS' ∧ [] = batch ∧ cache = cache' := by simpa using hpop
        refine ⟨mF, ?_, h, trivial, Follows.refl _ _ _⟩
        simp only [popBatch, hlen', if_neg hshared, hid', hhot']
        rfl

end LocalClassCache

/-- The blocks of an aligned span of memory can be linked. -/
theorem linkable_slabBlocks {start blockSize capacity b : Nat} (hpos : 0 < start)
    (halign : headerAlignment ∣ start) (hdvd : headerAlignment ∣ blockSize)
    (hend : start + blockSize * capacity < 2 ^ 64) (hb : b ∈ slabBlocks start blockSize capacity) :
    Linkable b := by
  have hbounds := slabBlocks_bounds hb
  obtain ⟨i, -, rfl⟩ := mem_slabBlocks.mp hb
  refine ⟨Nat.mod_eq_zero_of_dvd ?_, by omega, by omega⟩
  exact Nat.dvd_add halign (hdvd.mul_left i)

/-! ### There and back -/

section Maps

variable {L : Type} {f : L → List Nat} {g : List Nat → L}

theorem map_slabs_eq {α : Type} {slabs : List α} {h : α → α} (heq : ∀ slab ∈ slabs, h slab = slab) :
    slabs.map h = slabs := by
  conv_rhs => rw [← List.map_id slabs]
  exact List.map_congr_left heq

theorem LocalClassCache.map_map_eq {cache : LocalClassCache (List Nat)}
    (h : ∀ l ∈ cache.lists, f (g l) = l) : (cache.map g).map f = cache := by
  have hshared : f (g cache.shared) = cache.shared := h _ List.mem_cons_self
  have hslabs : (cache.slabs.map (LocalSlab.map g)).map (LocalSlab.map f) = cache.slabs := by
    rw [List.map_map]
    refine map_slabs_eq fun slab hslab => ?_
    have := h slab.free (List.mem_cons_of_mem _ (List.mem_map_of_mem hslab))
    simp only [Function.comp, LocalSlab.map, this]
  simp only [LocalClassCache.map, hslabs, hshared]

end Maps

end Orthotope
