import Orthotope.CentralPool
import Orthotope.LocalCacheInvariant

/-! The central pool over plain sequences.  The blocks of a class pool form two bags, the partial
lists and the full slabs.  `ClassPool.Inv` says how state, counter and partial list of a slab go
together, that every slab stands in the bucket of its state, and that slabs are disjoint; each
operation is given by what it moves between the bags. -/

namespace Orthotope

open ByteMemory IndexedVec BagSum

/-! ### One slab record -/

namespace SlabState

def isFull : SlabState → Bool
  | .loaned | .partlyFree => false
  | .fullHot | .fullCold => true

end SlabState

namespace SlabRecord

/-- The part of a record that is fixed when the slab is carved. -/
def shape {L : Type} (slab : SlabRecord L) : Nat × Nat × Nat × Nat :=
  (slab.start, slab.endAddr, slab.blockSize, slab.capacity)

def blocks {L : Type} (slab : SlabRecord L) : List Nat :=
  slabBlocks slab.start slab.blockSize slab.capacity

/-- The blocks that a full slab stands for without a list. -/
def fullBlocks {L : Type} (slab : SlabRecord L) : List Nat :=
  if slab.state.isFull then slab.blocks else []

/-- Counter and partial list in each state. -/
def Counted (slab : SlabRecord (List Nat)) : Prop :=
  match slab.state with
  | .loaned => slab.centralFreeLen = 0 ∧ slab.partialFree = []
  | .partlyFree => 0 < slab.centralFreeLen ∧ slab.centralFreeLen < slab.capacity ∧
      slab.partialFree.length = slab.centralFreeLen
  | .fullHot | .fullCold => slab.centralFreeLen = slab.capacity ∧ slab.partialFree = []

structure Ok (slab : SlabRecord (List Nat)) : Prop where
  end_eq : slab.endAddr = slab.start + slab.blockSize * slab.capacity
  blockSize_pos : 0 < slab.blockSize
  capacity_pos : 0 < slab.capacity
  counted : slab.Counted
  partial_mem : ∀ b ∈ slab.partialFree, b ∈ slab.blocks

/-- The blocks of the slab that are in the pool. -/
def centralBag (slab : SlabRecord (List Nat)) : Multiset Nat :=
  (slab.partialFree : Multiset Nat) + slab.fullBlocks

variable {slab : SlabRecord (List Nat)}

theorem Ok.counted_of_not_full (ok : slab.Ok) (h : slab.state.isFull = false) :
    slab.centralFreeLen < slab.capacity ∧ slab.partialFree.length = slab.centralFreeLen := by
  have hc := ok.counted
  have hpos := ok.capacity_pos
  unfold Counted at hc
  cases hs : slab.state <;> simp only [hs, SlabState.isFull] at hc h
  · rw [hc.2, hc.1]
    exact ⟨hpos, rfl⟩
  · exact ⟨hc.2.1, hc.2.2⟩
  · exact absurd h (by simp)
  · exact absurd h (by simp)

theorem Ok.partial_nil_of_full (ok : slab.Ok) (h : slab.state.isFull = true) :
    slab.partialFree = [] := by
  have hc := ok.counted
  unfold Counted at hc
  cases hs : slab.state <;> simp only [hs, SlabState.isFull] at hc h
  · exact hc.2
  · exact absurd h (by simp)
  · exact hc.2
  · exact hc.2

theorem Ok.centralFreeLen_eq (ok : slab.Ok) : slab.centralFreeLen = slab.centralBag.card := by
  have hc := ok.counted
  unfold Counted at hc
  cases hs : slab.state <;> simp [hs, centralBag, fullBlocks, SlabState.isFull, blocks] at hc ⊢
  · simp [hc.1, hc.2]
  · exact hc.2.2.symm
  · simp [hc.1, hc.2]
  · simp [hc.1, hc.2]

/-- All the blocks of a slab, once each, are its block list. -/
theorem coe_eq_blocks {l : List Nat} (hnd : l.Nodup) (hmem : ∀ b ∈ l, b ∈ slab.blocks)
    (hlen : l.length = slab.capacity) : (l : Multiset Nat) = slab.blocks := by
  refine Multiset.eq_of_le_of_card_le
    ((Multiset.le_iff_subset (Multiset.coe_nodup.mpr hnd)).mpr fun b hb => ?_) ?_
  · exact Multiset.mem_coe.mpr (hmem b (Multiset.mem_coe.mp hb))
  · simp [blocks, hlen]

/-- Recording a returned block adds it to the central blocks of the slab; the last one turns the
partial list into a full slab. -/
theorem recordReturnedBlock_spec (ok : slab.Ok) {block : Nat} (hmem : block ∈ slab.blocks)
    (hnd : (block ::ₘ slab.centralBag).Nodup) (m : Mem) :
    ∃ slab', slab.recordReturnedBlock m block = (m, slab') ∧ slab'.Ok ∧ slab'.shape = slab.shape ∧
      slab'.bucketSlot = slab.bucketSlot ∧ slab.state.isFull = false ∧
      slab'.centralBag = block ::ₘ slab.centralBag ∧
      (slab'.partialFree : Multiset Nat) ≤ block ::ₘ (slab.partialFree : Multiset Nat) := by
  have hnot : slab.state.isFull = false := by
    by_contra hfull
    have hin : block ∈ slab.centralBag := by
      simp [centralBag, fullBlocks, Bool.eq_true_of_not_eq_false hfull, hmem]
    exact (Multiset.nodup_cons.mp hnd).1 hin
  obtain ⟨hlt, hlen⟩ := ok.counted_of_not_full hnot
  have hbag : slab.centralBag = (slab.partialFree : Multiset Nat) := by
    simp [centralBag, fullBlocks, hnot]
  have hmem' : ∀ b ∈ block :: slab.partialFree, b ∈ slab.blocks := by
    intro b hb
    rcases List.mem_cons.mp hb with rfl | hb
    · exact hmem
    · exact ok.partial_mem b hb
  rw [hbag] at hnd
  by_cases hfull : slab.centralFreeLen + 1 = slab.capacity
  · refine ⟨{ slab with
      centralFreeLen := slab.centralFreeLen + 1, state := .fullHot, partialFree := [] },
      by simp [recordReturnedBlock, hfull],
      ⟨ok.end_eq, ok.blockSize_pos, ok.capacity_pos, ⟨hfull, rfl⟩, by simp⟩, rfl, rfl, hnot, ?_,
      Multiset.zero_le _⟩
    have hall : ((block :: slab.partialFree : List Nat) : Multiset Nat) = slab.blocks :=
      coe_eq_blocks (Multiset.coe_nodup.mp hnd) hmem' (by simp [hlen, hfull])
    rw [hbag, Multiset.cons_coe, hall]
    simp [centralBag, fullBlocks, SlabState.isFull, blocks]
  · refine ⟨{ slab with
        centralFreeLen := slab.centralFreeLen + 1
        state := .partlyFree
        partialFree := block :: slab.partialFree }, by simp [recordReturnedBlock, hfull],
      ⟨ok.end_eq, ok.blockSize_pos, ok.capacity_pos, ?_, hmem'⟩, rfl, rfl, hnot, ?_, ?_⟩
    · exact ⟨Nat.succ_pos _, by simp only; omega, by simp [hlen]⟩
    · rw [hbag]
      simp [centralBag, fullBlocks, SlabState.isFull]
    · rw [Multiset.cons_coe]

/-- Taking from the partial list of a slab. -/
theorem takePartialBatch_spec (ok : slab.Ok) (hstate : slab.state = .partlyFree) {max : Nat}
    (hmax : 0 < max) (m : Mem) :
    ∃ batch slab', slab.takePartialBatch m max = some (m, batch, slab') ∧ slab'.Ok ∧
      slab'.shape = slab.shape ∧ slab'.bucketSlot = slab.bucketSlot ∧
      slab'.state.isFull = false ∧ batch ≠ [] ∧ batch.length ≤ max ∧
      slab.partialFree = batch ++ slab'.partialFree := by
  have hc := ok.counted
  simp only [Counted, hstate] at hc
  obtain ⟨hpos, hlt, hlen⟩ := hc
  have hne : slab.partialFree ≠ [] := by
    rw [← List.length_pos_iff]
    omega
  have htake : (slab.partialFree.take max).length = min max slab.centralFreeLen := by simp [hlen]
  let left := slab.centralFreeLen - (slab.partialFree.take max).length
  refine ⟨slab.partialFree.take max, { slab with
      centralFreeLen := left
      partialFree := slab.partialFree.drop max
      state := if left = 0 then .loaned else slab.state },
    by simp [takePartialBatch, hne, Nat.pos_iff_ne_zero.mp hmax, left],
    ⟨ok.end_eq, ok.blockSize_pos, ok.capacity_pos, ?_, fun b hb => ?_⟩, rfl, rfl, ?_, ?_, ?_,
    (List.take_append_drop max slab.partialFree).symm⟩
  · have hdrop : (slab.partialFree.drop max).length = left := by
      simp only [List.length_drop, left, htake, hlen]
      omega
    by_cases hz : left = 0
    · simp only [Counted, hz, if_true]
      exact ⟨trivial, List.length_eq_zero_iff.mp (by omega)⟩
    · simp only [Counted, hz, if_false, hstate]
      exact ⟨by omega, by omega, hdrop⟩
  · exact ok.partial_mem b (List.mem_of_mem_drop hb)
  · by_cases hz : left = 0 <;> simp [hz, hstate, SlabState.isFull]
  · simp [hne, Nat.pos_iff_ne_zero.mp hmax]
  · rw [htake]
    exact Nat.min_le_left _ _

end SlabRecord

/-! ### The bags of a class pool -/

namespace ClassPool

variable (pool : ClassPool (List Nat))

def partialBag : Multiset Nat := total (fun slab => (slab.partialFree : Multiset Nat)) pool.slabs

def fullBag : Multiset Nat := total (fun slab => (slab.fullBlocks : Multiset Nat)) pool.slabs

def bag : Multiset Nat := pool.partialBag + pool.fullBag

def shapes : List (Nat × Nat × Nat × Nat) := pool.slabs.map SlabRecord.shape

/-- The slot of a slab in the bucket of state `s`, when `st` gives the states of the slabs. -/
def slotIn (st : Nat → SlabState) (s : SlabState) (id : Nat) : Option Nat :=
  if st id = s then pool.bucketSlot id else none

/-- Every slab stands in the bucket that `st` gives it, and exactly the loaned ones in none. -/
structure Bucketed (st : Nat → SlabState) : Prop where
  slots : ∀ s, s ≠ .loaned → Slots (pool.bucket s) (pool.slotIn st s)
  loaned : ∀ id, st id = .loaned ↔ pool.bucketSlot id = none

structure Inv : Prop where
  slab_ok : ∀ slab ∈ pool.slabs, slab.Ok
  bucketed : pool.Bucketed pool.slabState
  index : SortedIndex pool.slabStart pool.slabs.length pool.slabsByStart
  disjoint : pool.slabs.Pairwise fun s t => s.endAddr ≤ t.start ∨ t.endAddr ≤ s.start
  recent_lt : ∀ id, pool.recentSlab = some id → id < pool.slabs.length

variable {pool} {pool' : ClassPool (List Nat)}

theorem bag_eq_total : pool.bag = total SlabRecord.centralBag pool.slabs :=
  (total_add _ _ pool.slabs).symm

theorem new_inv : (new : ClassPool (List Nat)).Inv where
  slab_ok := by simp [new]
  bucketed := by
    have hslot : ∀ id, (new : ClassPool (List Nat)).bucketSlot id = none := by
      simp [new, bucketSlot]
    refine ⟨fun s _ => ?_, fun id => by simp [new, slabState, bucketSlot]⟩
    have hnil : (new : ClassPool (List Nat)).bucket s = [] := by cases s <;> rfl
    rw [hnil]
    exact Slots.nil fun id => by simp [slotIn, hslot]
  index := SortedIndex.nil _
  disjoint := List.Pairwise.nil
  recent_lt := by simp [new]

/-! ### Moving a slab between buckets -/

/-- `pool'` differs from `pool` in buckets and sweep cursor only. -/
structure SameBut (pool pool' : ClassPool (List Nat)) : Prop where
  slabs : pool'.slabs.map (fun slab => { slab with bucketSlot := none }) =
    pool.slabs.map fun slab => { slab with bucketSlot := none }
  byStart : pool'.slabsByStart = pool.slabsByStart
  epoch : pool'.epoch = pool.epoch
  recent : pool'.recentSlab = pool.recentSlab

namespace SameBut

theorem refl (pool : ClassPool (List Nat)) : SameBut pool pool := ⟨rfl, rfl, rfl, rfl⟩

theorem trans {p₁ p₂ p₃ : ClassPool (List Nat)} (h : SameBut p₁ p₂) (h' : SameBut p₂ p₃) :
    SameBut p₁ p₃ :=
  ⟨h'.slabs.trans h.slabs, h'.byStart.trans h.byStart, h'.epoch.trans h.epoch,
    h'.recent.trans h.recent⟩

theorem map_eq {γ : Type} (h : SameBut pool pool') {f : SlabRecord (List Nat) → γ}
    (hf : ∀ slab, f { slab with bucketSlot := none } = f slab) :
    pool'.slabs.map f = pool.slabs.map f := by
  have := congrArg (List.map f) h.slabs
  simpa [List.map_map, Function.comp_def, hf] using this

theorem getElem?_map_eq {γ : Type} (h : SameBut pool pool') (id : Nat)
    {f : SlabRecord (List Nat) → γ} (hf : ∀ slab, f { slab with bucketSlot := none } = f slab) :
    pool'.slabs[id]?.map f = pool.slabs[id]?.map f := by
  have := congrArg (fun l => l[id]?) (h.map_eq hf)
  simpa only [List.getElem?_map] using this

theorem length (h : SameBut pool pool') : pool'.slabs.length = pool.slabs.length := by
  simpa using congrArg List.length h.slabs

theorem slabStart (h : SameBut pool pool') (id : Nat) : pool'.slabStart id = pool.slabStart id := by
  simp only [ClassPool.slabStart, h.getElem?_map_eq id (f := SlabRecord.start) fun _ => rfl]

theorem slabState (h : SameBut pool pool') (id : Nat) : pool'.slabState id = pool.slabState id := by
  simp only [ClassPool.slabState, h.getElem?_map_eq id (f := SlabRecord.state) fun _ => rfl]

theorem partialBag (h : SameBut pool pool') : pool'.partialBag = pool.partialBag := by
  simp only [ClassPool.partialBag, total,
    h.map_eq (f := fun slab => (slab.partialFree : Multiset Nat)) fun _ => rfl]

theorem fullBag (h : SameBut pool pool') : pool'.fullBag = pool.fullBag := by
  simp only [ClassPool.fullBag, total,
    h.map_eq (f := fun slab => (slab.fullBlocks : Multiset Nat)) fun _ => rfl]

theorem shapes (h : SameBut pool pool') : pool'.shapes = pool.shapes := h.map_eq fun _ => rfl

theorem slab_ok (h : SameBut pool pool') (ok : ∀ slab ∈ pool.slabs, slab.Ok) :
    ∀ slab ∈ pool'.slabs, slab.Ok := by
  intro slab' hslab'
  obtain ⟨id, hid'⟩ := List.mem_iff_getElem?.mp hslab'
  have hmap := h.getElem?_map_eq id (f := fun slab => { slab with bucketSlot := none }) fun _ => rfl
  cases hid : pool.slabs[id]? with
  | none => simp [hid, hid'] at hmap
  | some slab =>
    have heq : ({ slab' with bucketSlot := none } : SlabRecord (List Nat)) =
        { slab with bucketSlot := none } := by simpa [hid, hid'] using hmap
    have hok := ok slab (List.mem_of_getElem? hid)
    have hok' : ({ slab with bucketSlot := none } : SlabRecord (List Nat)).Ok :=
      ⟨hok.end_eq, hok.blockSize_pos, hok.capacity_pos, hok.counted, hok.partial_mem⟩
    rw [← heq] at hok'
    exact ⟨hok'.end_eq, hok'.blockSize_pos, hok'.capacity_pos, hok'.counted, hok'.partial_mem⟩

/-- The invariant goes over to `pool'`, once its buckets are right. -/
theorem inv (h : SameBut pool pool') (hok : ∀ slab ∈ pool.slabs, slab.Ok)
    (hindex : SortedIndex pool.slabStart pool.slabs.length pool.slabsByStart)
    (hdisj : pool.slabs.Pairwise fun s t => s.endAddr ≤ t.start ∨ t.endAddr ≤ s.start)
    (hrecent : ∀ id, pool.recentSlab = some id → id < pool.slabs.length)
    (hb : pool'.Bucketed pool'.slabState) : pool'.Inv where
  slab_ok := h.slab_ok hok
  bucketed := hb
  index := by
    rw [h.byStart, h.length]
    exact hindex.congr fun i _ => h.slabStart i
  disjoint := by
    have hmap := h.map_eq (f := fun slab => (slab.start, slab.endAddr)) fun _ => rfl
    have hp : (pool.slabs.map fun slab => (slab.start, slab.endAddr)).Pairwise
        fun s t => s.2 ≤ t.1 ∨ t.2 ≤ s.1 := List.pairwise_map.mpr hdisj
    rw [← hmap] at hp
    exact List.pairwise_map.mp hp
  recent_lt := by
    rw [h.recent, h.length]
    exact hrecent

end SameBut

theorem sameBut_setBucketSlot (pool : ClassPool (List Nat)) (id : Nat) (slot : Option Nat) :
    SameBut pool (pool.setBucketSlot id slot) := by
  refine ⟨?_, rfl, rfl, rfl⟩
  refine List.ext_getElem? fun j => ?_
  simp only [setBucketSlot, List.getElem?_map, List.getElem?_modify]
  cases pool.slabs[j]? with
  | none => simp
  | some slab => by_cases hj : id = j <;> simp [hj]

theorem sameBut_setBucket (pool : ClassPool (List Nat)) (s : SlabState) (ids : List Nat) :
    SameBut pool (pool.setBucket s ids) := by
  cases s <;> exact ⟨rfl, rfl, rfl, rfl⟩

theorem sameBut_normalizeSweepCursor (pool : ClassPool (List Nat)) :
    SameBut pool pool.normalizeSweepCursor := ⟨rfl, rfl, rfl, rfl⟩

@[simp] theorem bucketSlot_setBucket (pool : ClassPool (List Nat)) (s : SlabState)
    (ids : List Nat) (id : Nat) : (pool.setBucket s ids).bucketSlot id = pool.bucketSlot id := by
  cases s <;> rfl

@[simp] theorem bucket_setBucketSlot (pool : ClassPool (List Nat)) (id : Nat) (slot : Option Nat)
    (s : SlabState) : (pool.setBucketSlot id slot).bucket s = pool.bucket s := by
  cases s <;> rfl

theorem bucket_setBucket (pool : ClassPool (List Nat)) {s : SlabState} (hs : s ≠ .loaned)
    (ids : List Nat) (t : SlabState) :
    (pool.setBucket s ids).bucket t = if t = s then ids else pool.bucket t := by
  cases s <;> cases t <;> first | exact absurd rfl hs | rfl

theorem bucketSlot_setBucketSlot (pool : ClassPool (List Nat)) {id : Nat}
    (hid : id < pool.slabs.length) (slot : Option Nat) (j : Nat) :
    (pool.setBucketSlot id slot).bucketSlot j = if j = id then slot else pool.bucketSlot j := by
  simp only [bucketSlot, setBucketSlot, List.getElem?_modify]
  by_cases hj : j = id
  · subst hj
    simp [List.getElem?_eq_getElem hid]
  · simp [hj, Ne.symm hj]

theorem lt_length_of_bucketSlot {id i : Nat} (h : pool.bucketSlot id = some i) :
    id < pool.slabs.length := by
  by_contra hc
  simp [bucketSlot, List.getElem?_eq_none (Nat.le_of_not_lt hc)] at h

/-- Buckets do not depend on the sweep cursor. -/
theorem Bucketed.normalizeSweepCursor {st : Nat → SlabState} (h : pool.Bucketed st) :
    pool.normalizeSweepCursor.Bucketed st :=
  ⟨fun s hs => by
    have := h.slots s hs
    cases s <;> exact this, h.loaned⟩

/-- A slab leaves its bucket by `swap_remove`, and the slab that takes its place learns its slot. -/
theorem Bucketed.remove {st : Nat → SlabState} (h : pool.Bucketed st) {id slot : Nat}
    (hslot : pool.bucketSlot id = some slot) {rest : List Nat}
    (hrest : rest = swapRemove (pool.bucket (st id)) slot)
    (hbucket : ∀ t, pool'.bucket t = if t = st id then rest else pool.bucket t)
    (hslots : ∀ j, pool'.bucketSlot j = if j = id then none else
      if rest[slot]? = some j then some slot else pool.bucketSlot j) :
    pool'.Bucketed (Function.update st id .loaned) := by
  have hst : st id ≠ .loaned := fun hl => by simp [(h.loaned id).mp hl] at hslot
  have hin : pool.slotIn st (st id) id = some slot := by simp [slotIn, hslot]
  have hrem := (h.slots _ hst).swapRemove hin
  rw [← hrest] at hrem
  have hst_moved : ∀ j, rest[slot]? = some j → st j = st id := by
    intro j hj
    have hmem : j ∈ pool.bucket (st id) := by
      apply mem_of_mem_swapRemove (i := slot)
      rw [← hrest]
      exact List.mem_of_getElem? hj
    obtain ⟨i, hi⟩ := (h.slots _ hst).mem_iff.mp hmem
    by_contra hc
    simp [slotIn, hc] at hi
  refine ⟨fun s hs => ?_, fun j => ?_⟩
  · rw [hbucket]
    by_cases hsid : s = st id
    · subst hsid
      rw [if_pos rfl]
      refine hrem.congr fun j => ?_
      by_cases hj : j = id
      · subst hj
        simp [slotIn, hst.symm]
      · simp only [slotIn, Function.update_of_ne hj, hslots j, if_neg hj]
        by_cases hm : rest[slot]? = some j
        · rw [if_pos hm, if_pos hm, if_pos (hst_moved j hm)]
        · rw [if_neg hm, if_neg hm]
    · rw [if_neg hsid]
      refine (h.slots s hs).congr fun j => ?_
      by_cases hj : j = id
      · subst hj
        simp [slotIn, Ne.symm hs, Ne.symm hsid]
      · simp only [slotIn, Function.update_of_ne hj, hslots j, if_neg hj]
        by_cases hm : rest[slot]? = some j
        · rw [hst_moved j hm, if_neg (Ne.symm hsid), if_neg (Ne.symm hsid)]
        · rw [if_neg hm]
  · rw [hslots j]
    by_cases hjid : j = id
    · simp [hjid]
    · rw [Function.update_of_ne hjid, if_neg hjid]
      by_cases hm : rest[slot]? = some j
      · simp [hm, hst_moved j hm, hst]
      · rw [if_neg hm, h.loaned j]

theorem removeFromBucket_spec {st : Nat → SlabState} (h : pool.Bucketed st) (id : Nat) :
    SameBut pool (pool.removeFromBucket id (st id)) ∧
      (pool.removeFromBucket id (st id)).Bucketed (Function.update st id .loaned) := by
  cases hslot : pool.bucketSlot id with
  | none =>
    simp only [removeFromBucket, hslot]
    refine ⟨SameBut.refl _, ?_⟩
    rwa [← (h.loaned id).mpr hslot, Function.update_eq_self]
  | some slot =>
    have hid := lt_length_of_bucketSlot hslot
    have hst : st id ≠ .loaned := fun hl => by simp [(h.loaned id).mp hl] at hslot
    obtain ⟨rest, hrest⟩ : ∃ rest, rest = swapRemove (pool.bucket (st id)) slot := ⟨_, rfl⟩
    obtain ⟨base, hbase⟩ : ∃ base, base = (pool.setBucketSlot id none).setBucket (st id) rest :=
      ⟨_, rfl⟩
    have hbase_slot : ∀ j, base.bucketSlot j = if j = id then none else pool.bucketSlot j := by
      intro j
      rw [hbase, bucketSlot_setBucket, bucketSlot_setBucketSlot pool hid]
    have hbase_bucket : ∀ t, base.bucket t = if t = st id then rest else pool.bucket t := by
      intro t
      rw [hbase, bucket_setBucket _ hst, bucket_setBucketSlot]
    have hbase_same : SameBut pool base := by
      rw [hbase]
      exact (sameBut_setBucketSlot pool id none).trans (sameBut_setBucket _ _ _)
    simp only [removeFromBucket, hslot, if_neg hst, bucket_setBucketSlot, ← hrest, ← hbase]
    cases hmoved : rest[slot]? with
    | none =>
      exact ⟨hbase_same.trans (sameBut_normalizeSweepCursor _),
        (h.remove hslot hrest hbase_bucket
          fun j => by simp [hbase_slot, hmoved]).normalizeSweepCursor⟩
    | some moved =>
      have hmem : moved ∈ pool.bucket (st id) := by
        apply mem_of_mem_swapRemove (i := slot)
        rw [← hrest]
        exact List.mem_of_getElem? hmoved
      obtain ⟨i, hi⟩ := (h.slots _ hst).mem_iff.mp hmem
      have hmoved_slot : pool.bucketSlot moved = some i := by
        unfold slotIn at hi
        split at hi
        · exact hi
        · simp at hi
      have hlt : moved < base.slabs.length := by
        rw [hbase_same.length]
        exact lt_length_of_bucketSlot hmoved_slot
      have hne : moved ≠ id := by
        rintro rfl
        have hin : pool.slotIn st (st moved) moved = some slot := by simp [slotIn, hslot]
        have := ((h.slots _ hst).swapRemove hin slot moved).mp (by rw [← hrest, hmoved])
        simp at this
      refine ⟨(hbase_same.trans (sameBut_setBucketSlot _ _ _)).trans
        (sameBut_normalizeSweepCursor _), Bucketed.normalizeSweepCursor
        (h.remove hslot hrest (fun t => ?_) fun j => ?_)⟩
      · simp only [bucket_setBucketSlot, hbase_bucket]
      · rw [bucketSlot_setBucketSlot base hlt, hbase_slot, hmoved]
        by_cases hj : j = moved
        · subst hj
          simp [hne]
        · simp [hj, Ne.symm hj]

theorem addToBucket_spec {st : Nat → SlabState} (h : pool.Bucketed st) {id : Nat}
    (hid : id < pool.slabs.length) (hst : st id = .loaned) (next : SlabState) :
    SameBut pool (pool.addToBucket id next) ∧
      (pool.addToBucket id next).Bucketed (Function.update st id next) := by
  have hnone := (h.loaned id).mp hst
  by_cases hnext : next = .loaned
  · subst hnext
    simp only [addToBucket, if_true, ← hst, Function.update_eq_self]
    have hslot : ∀ j, (pool.setBucketSlot id none).bucketSlot j = pool.bucketSlot j := by
      intro j
      rw [bucketSlot_setBucketSlot pool hid]
      by_cases hj : j = id
      · rw [if_pos hj, hj, hnone]
      · rw [if_neg hj]
    refine ⟨sameBut_setBucketSlot _ _ _, fun s hs => ?_, fun j => ?_⟩
    · rw [bucket_setBucketSlot]
      exact (h.slots s hs).congr fun j => by simp only [slotIn, hslot]
    · rw [hslot, h.loaned j]
  · simp only [addToBucket, if_neg hnext]
    have hlt : id < (pool.setBucket next (pool.bucket next ++ [id])).slabs.length := by
      rw [(sameBut_setBucket _ _ _).length]
      exact hid
    have hslot := bucketSlot_setBucketSlot _ hlt (some (pool.bucket next).length)
    refine ⟨((sameBut_setBucket _ _ _).trans (sameBut_setBucketSlot _ _ _)).trans
      (sameBut_normalizeSweepCursor _), Bucketed.normalizeSweepCursor
      ⟨fun s hs => ?_, fun j => ?_⟩⟩
    · rw [bucket_setBucketSlot, bucket_setBucket _ hnext]
      by_cases hsn : s = next
      · subst hsn
        rw [if_pos rfl]
        have hold : pool.slotIn st s id = none := by simp [slotIn, hnone]
        refine ((h.slots s hs).push hold).congr fun j => ?_
        by_cases hj : j = id
        · subst hj
          simp [slotIn, hslot]
        · simp [slotIn, hslot, hj]
      · rw [if_neg hsn]
        refine (h.slots s hs).congr fun j => ?_
        by_cases hj : j = id
        · subst hj
          simp [slotIn, hst, Ne.symm hsn, Ne.symm hs]
        · simp [slotIn, hslot, hj]
    · rw [hslot, bucketSlot_setBucket]
      by_cases hjid : j = id
      · simp [hjid, hnext]
      · rw [Function.update_of_ne hjid, if_neg hjid, h.loaned j]

/-- A slab that changes its state is moved to the bucket of the new one. -/
theorem reconcileBucketTransition_spec {st : Nat → SlabState} (h : pool.Bucketed st) {id : Nat}
    (hid : id < pool.slabs.length) (next : SlabState) :
    SameBut pool (pool.reconcileBucketTransition id (st id) next) ∧
      (pool.reconcileBucketTransition id (st id) next).Bucketed (Function.update st id next) := by
  unfold reconcileBucketTransition
  split
  · rename_i heq
    refine ⟨SameBut.refl _, ?_⟩
    rwa [← heq, Function.update_eq_self]
  · obtain ⟨hsame, hb⟩ := removeFromBucket_spec h id
    obtain ⟨hsame', hb'⟩ := addToBucket_spec hb (by rwa [hsame.length]) (by simp) next
    refine ⟨hsame.trans hsame', ?_⟩
    rwa [Function.update_idem] at hb'

/-! ### Changing one slab -/

/-- Cold slabs stay cold. -/
def KeepsCold (pool pool' : ClassPool (List Nat)) : Prop :=
  ∀ id, pool.slabState id = .fullCold → pool'.slabState id = .fullCold

theorem KeepsCold.refl (pool : ClassPool (List Nat)) : KeepsCold pool pool := fun _ h => h

theorem KeepsCold.trans {p₁ p₂ p₃ : ClassPool (List Nat)} (h : KeepsCold p₁ p₂)
    (h' : KeepsCold p₂ p₃) : KeepsCold p₁ p₃ := fun id hid => h' id (h id hid)

/-- Replaces record `id`, which becomes the recent one, and moves it to the bucket of its state. -/
def setRecord (pool : ClassPool (List Nat)) (id : Nat) (slab slab' : SlabRecord (List Nat))
    (recentSlab : Option Nat) : ClassPool (List Nat) :=
  { pool with slabs := pool.slabs.set id slab', recentSlab }.reconcileBucketTransition id slab.state
    slab'.state

section SetRecord

variable {id : Nat} {slab slab' : SlabRecord (List Nat)} {recent : Option Nat}

theorem slabState_set (hlt : id < pool.slabs.length) :
    { pool with slabs := pool.slabs.set id slab', recentSlab := recent }.slabState id =
      slab'.state := by
  simp [slabState, List.getElem?_set_self hlt]

theorem setRecord_spec (inv : pool.Inv) (hid : pool.slabs[id]? = some slab) (ok : slab'.Ok)
    (hshape : slab'.shape = slab.shape) (hslot : slab'.bucketSlot = slab.bucketSlot)
    (hrecent : ∀ j, recent = some j → j < pool.slabs.length) :
    (pool.setRecord id slab slab' recent).Inv ∧
      SameBut { pool with slabs := pool.slabs.set id slab', recentSlab := recent }
        (pool.setRecord id slab slab' recent) := by
  have hlt : id < pool.slabs.length := (List.getElem?_eq_some_iff.mp hid).1
  have hother : ∀ j, j ≠ id → (pool.slabs.set id slab')[j]? = pool.slabs[j]? := fun j hj =>
    List.getElem?_set_ne (Ne.symm hj)
  let mid := { pool with slabs := pool.slabs.set id slab', recentSlab := recent }
  have hlt' : id < mid.slabs.length := by simpa [mid] using hlt
  have hgot : mid.slabs[id]? = some slab' := List.getElem?_set_self hlt
  have hslots : ∀ j, mid.bucketSlot j = pool.bucketSlot j := by
    intro j
    by_cases hj : j = id
    · subst hj
      simp only [bucketSlot, hgot, hid, Option.bind_some, hslot]
    · simp only [bucketSlot, mid, hother j hj]
  have hbucketed : mid.Bucketed pool.slabState := by
    refine ⟨fun s hs => ?_, fun j => by rw [hslots, inv.bucketed.loaned j]⟩
    have hsame : Slots (pool.bucket s) (mid.slotIn pool.slabState s) :=
      (inv.bucketed.slots s hs).congr fun j => by simp only [slotIn, hslots]
    cases s <;> exact hsame
  have hprev : pool.slabState id = slab.state := by simp [slabState, hid]
  obtain ⟨hsame, hb⟩ := reconcileBucketTransition_spec hbucketed hlt' slab'.state
  rw [hprev] at hsame hb
  refine ⟨hsame.inv ?_ ?_ ?_ ?_ ?_, hsame⟩
  · intro x hx
    rcases List.mem_or_eq_of_mem_set hx with hx | rfl
    · exact inv.slab_ok x hx
    · exact ok
  · rw [show mid.slabs.length = pool.slabs.length by simp [mid]]
    refine inv.index.congr fun j _ => ?_
    by_cases hj : j = id
    · subst hj
      have hstart : slab'.start = slab.start := congrArg Prod.fst hshape
      simp [slabStart, hid, hstart, hgot]
    · simp only [slabStart, mid, hother j hj]
  · have hmap : (pool.slabs.set id slab').map SlabRecord.shape =
      pool.slabs.map SlabRecord.shape := by
      refine List.ext_getElem? fun j => ?_
      simp only [List.getElem?_map]
      by_cases hj : j = id
      · subst hj
        simp [List.getElem?_set_self hlt, hid, hshape]
      · rw [hother j hj]
    have hp : (pool.slabs.map SlabRecord.shape).Pairwise fun s t => s.2.1 ≤ t.1 ∨ t.2.1 ≤ s.1 :=
      List.pairwise_map.mpr inv.disjoint
    rw [← hmap] at hp
    exact List.pairwise_map.mp hp
  · intro j hj
    simpa [mid] using hrecent j hj
  · convert hb using 1
    funext j
    rw [hsame.slabState j]
    by_cases hj : j = id
    · subst hj
      simp [slabState, hgot]
    · simp only [slabState, Function.update_of_ne hj, mid, hother j hj]

variable (hid : pool.slabs[id]? = some slab)
  (hsame : SameBut { pool with slabs := pool.slabs.set id slab', recentSlab := recent } pool')

include hid hsame

theorem setRecord_partialBag : pool'.partialBag + (slab.partialFree : Multiset Nat) =
    pool.partialBag + (slab'.partialFree : Multiset Nat) := by
  rw [hsame.partialBag]
  exact total_set hid

theorem setRecord_fullBag : pool'.fullBag + (slab.fullBlocks : Multiset Nat) =
    pool.fullBag + (slab'.fullBlocks : Multiset Nat) := by
  rw [hsame.fullBag]
  exact total_set hid

theorem setRecord_shapes (hshape : slab'.shape = slab.shape) : pool'.shapes = pool.shapes := by
  have hlt : id < pool.slabs.length := (List.getElem?_eq_some_iff.mp hid).1
  rw [hsame.shapes]
  refine List.ext_getElem? fun j => ?_
  simp only [shapes, List.getElem?_map]
  by_cases hj : id = j
  · subst hj
    simp [List.getElem?_set_self hlt, hid, hshape]
  · rw [List.getElem?_set_ne hj]

theorem setRecord_slabState (j : Nat) :
    pool'.slabState j = if j = id then slab'.state else pool.slabState j := by
  have hlt : id < pool.slabs.length := (List.getElem?_eq_some_iff.mp hid).1
  rw [hsame.slabState]
  by_cases hj : j = id
  · subst hj
    simp [slabState, List.getElem?_set_self hlt]
  · simp only [slabState, List.getElem?_set_ne (Ne.symm hj), if_neg hj]

theorem setRecord_keepsCold (h : slab.state ≠ .fullCold) : KeepsCold pool pool' := by
  intro j hj
  rw [setRecord_slabState hid hsame]
  have : j ≠ id := by
    rintro rfl
    exact h (by simpa [slabState, hid] using hj)
  rw [if_neg this, hj]

end SetRecord

theorem bumpEpoch_inv (inv : pool.Inv) : pool.bumpEpoch.Inv :=
  ⟨inv.slab_ok, ⟨fun s hs => by
    have := inv.bucketed.slots s hs
    cases s <;> exact this, inv.bucketed.loaned⟩, inv.index, inv.disjoint, inv.recent_lt⟩

/-! ### Returning blocks -/

theorem Inv.eq_of_overlap (inv : pool.Inv) {i j x : Nat} {s t : SlabRecord (List Nat)}
    (hi : pool.slabs[i]? = some s) (hj : pool.slabs[j]? = some t) (hs : s.start ≤ x)
    (hs' : x < s.endAddr) (ht : t.start ≤ x) (ht' : x < t.endAddr) : i = j := by
  obtain ⟨hil, rfl⟩ := List.getElem?_eq_some_iff.mp hi
  obtain ⟨hjl, rfl⟩ := List.getElem?_eq_some_iff.mp hj
  have hp := List.pairwise_iff_getElem.mp inv.disjoint
  rcases Nat.lt_trichotomy i j with h | h | h
  · have := hp i j hil hjl h
    omega
  · exact h
  · have := hp j i hjl hil h
    omega

/-- The place where slab `id` ends. -/
def slabEnd (pool : ClassPool (List Nat)) (id : Nat) : Nat :=
  (pool.slabs[id]?.map SlabRecord.endAddr).getD 0

/-- The search in the index finds the slab that an address lies in. -/
theorem Inv.search (inv : pool.Inv) {id block : Nat} {slab : SlabRecord (List Nat)}
    (hid : pool.slabs[id]? = some slab) (hlo : slab.start ≤ block) (hhi : block < slab.endAddr) :
    0 < partitionPoint (fun id => decide (pool.slabStart id ≤ block)) pool.slabsByStart ∧
      pool.slabsByStart[partitionPoint (fun id => decide (pool.slabStart id ≤ block))
        pool.slabsByStart - 1]? = some id := by
  have hkey : ∀ {j : Nat} {t : SlabRecord (List Nat)}, pool.slabs[j]? = some t →
      pool.slabStart j = t.start ∧ pool.slabEnd j = t.endAddr := by
    intro j t ht
    simp [slabStart, slabEnd, ht]
  have hget : ∀ j, j < pool.slabs.length → ∃ t, pool.slabs[j]? = some t :=
    fun j hj => ⟨_, List.getElem?_eq_getElem hj⟩
  refine inv.index.before_partitionPoint_of_interval pool.slabEnd (fun j hj => ?_)
    (fun i hi j hj hne => ?_) (List.getElem?_eq_some_iff.mp hid).1 ?_ ?_
  · obtain ⟨t, ht⟩ := hget j hj
    have hend := (inv.slab_ok t (List.mem_of_getElem? ht)).end_eq
    rw [(hkey ht).1, (hkey ht).2]
    omega
  · obtain ⟨s, hs⟩ := hget i hi
    obtain ⟨t, ht⟩ := hget j hj
    rw [(hkey hs).1, (hkey hs).2, (hkey ht).1, (hkey ht).2]
    by_contra hmeet
    -- the later one of the two starts lies in both slabs
    have ok := inv.slab_ok s (List.mem_of_getElem? hs)
    have ok' := inv.slab_ok t (List.mem_of_getElem? ht)
    have hpos := Nat.mul_pos ok.blockSize_pos ok.capacity_pos
    have hpos' := Nat.mul_pos ok'.blockSize_pos ok'.capacity_pos
    have hend := ok.end_eq
    have hend' := ok'.end_eq
    exact hne (inv.eq_of_overlap hs ht (Nat.le_max_left s.start t.start) (by omega)
      (Nat.le_max_right s.start t.start) (by omega))
  · rw [(hkey hid).1]
    exact hlo
  · rw [(hkey hid).2]
    exact hhi

/-- The slab of a block is found, whether it is the recent one or not. -/
theorem findSlabIdUnchecked_spec (inv : pool.Inv) {id block : Nat} {slab : SlabRecord (List Nat)}
    (hid : pool.slabs[id]? = some slab) (hmem : block ∈ slab.blocks) :
    pool.findSlabIdUnchecked block = some id := by
  have ok := inv.slab_ok slab (List.mem_of_getElem? hid)
  obtain ⟨hlo, hhi⟩ := slabBlocks_bounds hmem
  have hlt : block < slab.endAddr := by
    have := ok.blockSize_pos
    rw [ok.end_eq]
    omega
  unfold findSlabIdUnchecked
  split
  · rename_i rid hrecent
    obtain ⟨_, hc⟩ := Option.filter_eq_some_iff.mp hrecent
    cases hr : pool.slabs[rid]? with
    | none => simp [hr] at hc
    | some r =>
      simp only [hr, Option.map_some, Option.getD_some, SlabRecord.contains, Bool.and_eq_true,
        decide_eq_true_eq] at hc
      rw [inv.eq_of_overlap hr hid hc.1.1 hc.1.2 hlo hlt]
  · obtain ⟨hpos, hfound⟩ := inv.search hid hlo hlt
    simp only
    rw [if_neg (Nat.pos_iff_ne_zero.mp hpos), hfound]

/-- Returned blocks enter the pool, as partial blocks or as part of a full slab. -/
theorem returnBlocks_spec (inv : pool.Inv) (batch : List Nat)
    (hmem : ∀ b ∈ batch, ∃ slab ∈ pool.slabs, b ∈ slab.blocks)
    (hnd : ((batch : Multiset Nat) + pool.bag).Nodup) (m : Mem) :
    ∃ pool', returnBlocks m batch.length pool batch = some (m, pool') ∧ pool'.Inv ∧
      pool'.shapes = pool.shapes ∧ pool'.bag = (batch : Multiset Nat) + pool.bag ∧
      pool'.partialBag ≤ (batch : Multiset Nat) + pool.partialBag ∧ KeepsCold pool pool' := by
  induction batch generalizing pool with
  | nil => exact ⟨pool, rfl, inv, rfl, by simp, by simp, KeepsCold.refl _⟩
  | cons b batch ih =>
    obtain ⟨slab, hslab, hb⟩ := hmem b (by simp)
    obtain ⟨id, hid⟩ := List.mem_iff_getElem?.mp hslab
    have hlt : id < pool.slabs.length := (List.getElem?_eq_some_iff.mp hid).1
    have ok := inv.slab_ok slab hslab
    let touched : SlabRecord (List Nat) := { slab with lastTouchedEpoch := pool.epoch }
    have ok' : touched.Ok :=
      ⟨ok.end_eq, ok.blockSize_pos, ok.capacity_pos, ok.counted, ok.partial_mem⟩
    have hle : slab.centralBag ≤ pool.bag := by
      rw [bag_eq_total]
      exact le_total hslab
    have hnd' : (b ::ₘ slab.centralBag).Nodup := by
      refine Multiset.nodup_of_le ?_ hnd
      rw [← Multiset.cons_coe, Multiset.cons_add]
      exact Multiset.cons_le_cons b (hle.trans (Multiset.le_add_left _ _))
    obtain ⟨slab', hrec, hok, hshape, hslot, hnot, hcentral, hpart⟩ :=
      touched.recordReturnedBlock_spec ok' hb hnd' m
    obtain ⟨hinv, hsame⟩ := setRecord_spec inv hid hok hshape hslot
      (show ∀ j, some id = some j → j < pool.slabs.length by simp [hlt])
    have hshapes := setRecord_shapes hid hsame hshape
    have h1 := setRecord_partialBag hid hsame
    have h2 := setRecord_fullBag hid hsame
    have hbag : (pool.setRecord id slab slab' (some id)).bag = b ::ₘ pool.bag := by
      apply add_right_cancel (b := slab.centralBag)
      rw [bag, SlabRecord.centralBag, add_add_add_comm, h1, h2, add_add_add_comm]
      show pool.bag + slab'.centralBag = _
      rw [hcentral, Multiset.add_cons, Multiset.cons_add]
      rfl
    have hple : (pool.setRecord id slab slab' (some id)).partialBag ≤ b ::ₘ pool.partialBag := by
      apply le_of_add_le_add_right (a := (slab.partialFree : Multiset Nat))
      rw [h1, Multiset.cons_add, ← Multiset.add_cons]
      gcongr
    have hcold : KeepsCold pool (pool.setRecord id slab slab' (some id)) :=
      setRecord_keepsCold hid hsame fun h => by
        rw [show touched.state = slab.state from rfl, h] at hnot
        exact absurd hnot (by decide)
    obtain ⟨pool', hrun, hinv', hshapes', hbag', hple', hcold'⟩ := ih hinv
      (fun x hx => by
        obtain ⟨s, hs, hxs⟩ := hmem x (by simp [hx])
        have hin : s.shape ∈ (pool.setRecord id slab slab' (some id)).shapes := by
          rw [hshapes]
          exact List.mem_map_of_mem hs
        obtain ⟨t, ht, heq⟩ := List.mem_map.mp hin
        refine ⟨t, ht, ?_⟩
        simp only [SlabRecord.shape, Prod.mk.injEq] at heq
        simpa [SlabRecord.blocks, heq.1, heq.2.2.1, heq.2.2.2] using hxs)
      (by
        rw [hbag, Multiset.add_cons, ← Multiset.cons_add, Multiset.cons_coe]
        exact hnd)
    refine ⟨pool', ?_, hinv', hshapes'.trans hshapes, ?_, ?_, hcold.trans hcold'⟩
    · have hrec' : SlabRecord.recordReturnedBlock m { slab with lastTouchedEpoch := pool.epoch } b =
          (m, slab') := hrec
      simp only [List.length_cons, returnBlocks, seq_batchPopBlockUnchecked, List.head?_cons,
        Option.map_some, Option.bind_some, List.tail_cons, findSlabIdUnchecked_spec inv hid hb, hid,
        reconcileBucketState, hrec', slabState_set hlt]
      exact hrun
    · rw [hbag', hbag, Multiset.add_cons, ← Multiset.cons_add, Multiset.cons_coe]
    · apply hple'.trans
      rw [← Multiset.cons_coe, Multiset.cons_add, ← Multiset.add_cons]
      gcongr

/-! ### Sweeping -/

/-- The pages given up, if any, lie in one slab of the pool that is cold. -/
def InCold (range : Option (Nat × Nat)) (pool : ClassPool (List Nat)) : Prop :=
  ∀ addr len, range = some (addr, len) →
    ∃ slab ∈ pool.slabs, slab.state = .fullCold ∧ slab.start ≤ addr ∧ addr + len ≤ slab.endAddr

/-- A sweep moves no block; it may turn one hot slab cold and give its pages up. -/
structure Sweeps (pool pool' : ClassPool (List Nat)) (range : Option (Nat × Nat)) : Prop where
  inv : pool'.Inv
  shapes : pool'.shapes = pool.shapes
  partialBag : pool'.partialBag = pool.partialBag
  fullBag : pool'.fullBag = pool.fullBag
  keepsCold : KeepsCold pool pool'
  inCold : InCold range pool'

theorem Sweeps.none (inv : pool.Inv) : Sweeps pool pool none :=
  ⟨inv, rfl, rfl, rfl, KeepsCold.refl _, by simp [InCold]⟩

theorem Sweeps.bag {range : Option (Nat × Nat)} (h : Sweeps pool pool' range) :
    pool'.bag = pool.bag := by
  rw [ClassPool.bag, h.partialBag, h.fullBag, ClassPool.bag]

theorem pageAlignedInnerRange_bounds {pageSize start len addr n : Nat}
    (h : pageAlignedInnerRange pageSize start len = some (addr, n)) :
    start ≤ addr ∧ addr + n ≤ start + len := by
  unfold pageAlignedInnerRange at h
  split at h
  · simp at h
  · split at h
    · rename_i endAddr alignedStart hend hstart
      have hend' : endAddr = start + len := by
        unfold checkedAdd at hend
        split at hend
        · exact (Option.some.inj hend).symm
        · simp at hend
      have hle := le_alignUp start pageSize
      rw [← alignUpChecked_eq_some hstart] at hle
      simp only at h
      split at h
      · simp at h
      · obtain ⟨rfl, rfl⟩ := Prod.mk.inj (Option.some.inj h)
        have hdown : alignDown endAddr pageSize ≤ endAddr := Nat.sub_le _ _
        omega
    · simp at h

theorem setCursor_inv (inv : pool.Inv) (cursor : Nat) :
    { pool with sweepCursor := cursor }.Inv :=
  ⟨inv.slab_ok, ⟨fun s hs => by
    have := inv.bucketed.slots s hs
    cases s <;> exact this, inv.bucketed.loaned⟩, inv.index, inv.disjoint, inv.recent_lt⟩

/-- A hot slab that is given up becomes a cold one. -/
theorem sweeps_cold (inv : pool.Inv) {id : Nat} {slab : SlabRecord (List Nat)}
    (hid : pool.slabs[id]? = some slab) (hstate : slab.state = .fullHot) {pageSize addr len : Nat}
    (hrange : pageAlignedInnerRange pageSize slab.start slab.spanLen = some (addr, len)) :
    Sweeps pool ((pool.setSlabState id .fullCold).reconcileBucketTransition id slab.state .fullCold)
      (some (addr, len)) := by
  have hmem := List.mem_of_getElem? hid
  have ok := inv.slab_ok slab hmem
  let cold : SlabRecord (List Nat) := { slab with state := .fullCold }
  have hok : cold.Ok := by
    refine ⟨ok.end_eq, ok.blockSize_pos, ok.capacity_pos, ?_, ok.partial_mem⟩
    have hc := ok.counted
    simp only [SlabRecord.Counted, hstate] at hc
    exact hc
  obtain ⟨hinv, hsame⟩ := setRecord_spec inv hid hok rfl rfl inv.recent_lt
  have hrun : (pool.setSlabState id .fullCold).reconcileBucketTransition id slab.state .fullCold =
      pool.setRecord id slab cold pool.recentSlab := by
    simp only [setSlabState, List.modify_eq_set_getElem?, hid, setRecord, cold]
    rfl
  rw [hrun]
  have h1 := setRecord_partialBag hid hsame
  have h2 := setRecord_fullBag hid hsame
  have hfull : cold.fullBlocks = slab.fullBlocks := by
    simp [SlabRecord.fullBlocks, SlabState.isFull, hstate, cold, SlabRecord.blocks]
  rw [hfull] at h2
  refine ⟨hinv, setRecord_shapes hid hsame rfl, add_right_cancel h1, add_right_cancel h2,
    setRecord_keepsCold hid hsame (by rw [hstate]; decide), fun a n h => ?_⟩
  obtain ⟨rfl, rfl⟩ := Prod.mk.inj (Option.some.inj h)
  have hb := pageAlignedInnerRange_bounds hrange
  have hlt : id < pool.slabs.length := (List.getElem?_eq_some_iff.mp hid).1
  have hmap := hsame.getElem?_map_eq id (f := fun s => (s.state, s.start, s.endAddr)) fun _ => rfl
  simp only [List.getElem?_set_self hlt, Option.map_some] at hmap
  obtain ⟨slab', hslab', heq⟩ := Option.map_eq_some_iff.mp hmap
  simp only [Prod.mk.injEq] at heq
  have hspan : slab.start + slab.spanLen = slab.endAddr := by
    have := ok.end_eq
    simp only [SlabRecord.spanLen]
    omega
  refine ⟨slab', List.mem_of_getElem? hslab', heq.1, ?_, ?_⟩
  · rw [heq.2.1]
    exact hb.1
  · rw [heq.2.2]
    show addr + len ≤ slab.endAddr
    omega

theorem sweepScan_spec (inv : pool.Inv) (pageSize : Nat) (advised : Bool) (count budget : Nat) :
    Sweeps pool (sweepScan pageSize advised count budget pool).1
      (sweepScan pageSize advised count budget pool).2 := by
  induction budget generalizing pool with
  | zero => exact Sweeps.none inv
  | succ budget ih =>
    unfold sweepScan
    simp only
    split
    · exact Sweeps.none inv
    · rename_i id hid
      -- the cursor moves on, whatever happens to the slab
      have hcursor := setCursor_inv inv ((pool.sweepCursor % count + 1) % count)
      have hpass : ∀ {p r}, Sweeps { pool with
          sweepCursor := (pool.sweepCursor % count + 1) % count } p r → Sweeps pool p r :=
        fun h => ⟨h.inv, h.shapes, h.partialBag, h.fullBag, h.keepsCold, h.inCold⟩
      split
      · exact hpass (Sweeps.none hcursor)
      · rename_i slab hslab
        split
        · exact hpass (ih hcursor)
        · rename_i hcand
          split
          · exact hpass (ih hcursor)
          · rename_i range hrange
            split
            · have hhot : slab.state = .fullHot := by
                simp only [Bool.not_eq_true', Bool.not_eq_false, SlabRecord.isSweepCandidate,
                  Bool.and_eq_true, beq_iff_eq] at hcand
                exact hcand.1
              exact hpass (sweeps_cold hcursor hslab hhot hrange)
            · exact hpass (Sweeps.none hcursor)

theorem maybeSweep_spec (inv : pool.Inv) (pageSize : Nat) (advised : Bool) :
    Sweeps pool (pool.maybeSweep pageSize advised).1 (pool.maybeSweep pageSize advised).2 := by
  unfold maybeSweep
  split
  · exact Sweeps.none inv
  · exact sweepScan_spec inv pageSize advised _ _

end ClassPool

end Orthotope
