import Orthotope.CentralPoolTransfer
import Orthotope.LocalCacheLinks

/-! The central pool of the code against the one over plain sequences, as for the local cache: the
bookkeeping of states, buckets and sweeps does not look into the partial lists, and the transfers
compute the same in a memory where the lists of the pool are linked. -/

namespace Orthotope

open ByteMemory LinkedChain IndexedVec

/-! ### Changing the representation -/

section Map

variable {L L' : Type} (f : L → L')

def SlabRecord.map (slab : SlabRecord L) : SlabRecord L' :=
  { slab with partialFree := f slab.partialFree }

def ClassPool.map (pool : ClassPool L) : ClassPool L' :=
  { pool with slabs := pool.slabs.map (SlabRecord.map f) }

def RemoteReturns.map (returns : RemoteReturns L) : RemoteReturns L' :=
  { returns with pending := f returns.pending }

def CentralPool.map (central : CentralPool L) : CentralPool L' where
  lists := fun c => (central.lists c).map f
  remoteInboxes := fun c => (central.remoteInboxes c).map f

def CentralRefill.map {B B' : Type} (g : B → B') : CentralRefill B → CentralRefill B'
  | .empty => .empty
  | .batch blocks => .batch (g blocks)
  | .slab start blockSize capacity => .slab start blockSize capacity

@[simp] theorem CentralPool.lists_map (central : CentralPool L) (c : SizeClass) :
    (central.map f).lists c = (central.lists c).map f := rfl

@[simp] theorem CentralPool.remoteInboxes_map (central : CentralPool L) (c : SizeClass) :
    (central.map f).remoteInboxes c = (central.remoteInboxes c).map f := rfl

theorem CentralPool.map_update_lists (central : CentralPool L) (c : SizeClass)
    (pool : ClassPool L) :
    { central.map f with lists := Function.update (central.map f).lists c (pool.map f) } =
      { central with lists := Function.update central.lists c pool }.map f := by
  refine congrArg (fun lists => { central.map f with lists }) (funext fun d => ?_)
  exact (Function.apply_update (fun _ => ClassPool.map f) central.lists c pool d).symm

theorem CentralPool.map_update_inboxes (central : CentralPool L) (c : SizeClass)
    (inbox : RemoteReturns L) :
    { central.map f with
      remoteInboxes := Function.update (central.map f).remoteInboxes c (inbox.map f) } =
      { central with remoteInboxes := Function.update central.remoteInboxes c inbox }.map f := by
  refine congrArg (fun remoteInboxes => { central.map f with remoteInboxes }) (funext fun d => ?_)
  exact (Function.apply_update (fun _ => RemoteReturns.map f) central.remoteInboxes c inbox d).symm

namespace ClassPool

variable (pool : ClassPool L) (id : Nat)

@[simp] theorem getElem?_map_slabs :
    (pool.map f).slabs[id]? = pool.slabs[id]?.map (SlabRecord.map f) := List.getElem?_map

@[simp] theorem bumpEpoch_map : (pool.map f).bumpEpoch = pool.bumpEpoch.map f := rfl

theorem centralBlockCount_map : (pool.map f).centralBlockCount = pool.centralBlockCount := by
  rw [centralBlockCount, map, List.map_map]
  rfl

@[simp] theorem slabStart_map : (pool.map f).slabStart id = pool.slabStart id := by
  simp [slabStart, Function.comp_def, SlabRecord.map]

@[simp] theorem bucketSlot_map : (pool.map f).bucketSlot id = pool.bucketSlot id := by
  simp [bucketSlot, Option.bind_map, Function.comp_def, SlabRecord.map]

@[simp] theorem slabState_map : (pool.map f).slabState id = pool.slabState id := by
  simp [slabState, Function.comp_def, SlabRecord.map]

@[simp] theorem bucket_map (state : SlabState) : (pool.map f).bucket state = pool.bucket state := by
  cases state <;> rfl

@[simp] theorem setBucketSlot_map (slot : Option Nat) :
    (pool.map f).setBucketSlot id slot = (pool.setBucketSlot id slot).map f :=
  congrArg (fun slabs => { pool.map f with slabs })
    (modify_map (f := SlabRecord.map f) (fun _ => rfl) pool.slabs id)

@[simp] theorem setSlabState_map (state : SlabState) :
    (pool.map f).setSlabState id state = (pool.setSlabState id state).map f :=
  congrArg (fun slabs => { pool.map f with slabs })
    (modify_map (f := SlabRecord.map f) (fun _ => rfl) pool.slabs id)

@[simp] theorem setBucket_map (state : SlabState) (ids : List Nat) :
    (pool.map f).setBucket state ids = (pool.setBucket state ids).map f := by
  cases state <;> rfl

@[simp] theorem normalizeSweepCursor_map :
    (pool.map f).normalizeSweepCursor = pool.normalizeSweepCursor.map f := rfl

@[simp] theorem removeFromBucket_map (state : SlabState) :
    (pool.map f).removeFromBucket id state = (pool.removeFromBucket id state).map f := by
  simp only [removeFromBucket, bucketSlot_map, setBucketSlot_map, bucket_map, setBucket_map]
  cases pool.bucketSlot id with
  | none => rfl
  | some slot =>
    dsimp only
    split
    · rfl
    · cases (swapRemove ((pool.setBucketSlot id none).bucket state) slot)[slot]? <;> simp

@[simp] theorem addToBucket_map (state : SlabState) :
    (pool.map f).addToBucket id state = (pool.addToBucket id state).map f := by
  simp only [addToBucket, bucket_map, setBucket_map, setBucketSlot_map, normalizeSweepCursor_map]
  split <;> rfl

@[simp] theorem reconcileBucketTransition_map (previous next : SlabState) :
    (pool.map f).reconcileBucketTransition id previous next =
      (pool.reconcileBucketTransition id previous next).map f := by
  simp only [reconcileBucketTransition, removeFromBucket_map, addToBucket_map]
  split <;> rfl

@[simp] theorem reconcileBucketState_map (previous : SlabState) :
    (pool.map f).reconcileBucketState id previous =
    (pool.reconcileBucketState id previous).map f := by
  simp only [reconcileBucketState, slabState_map, reconcileBucketTransition_map]

theorem sweepScan_map (pageSize : Nat) (advised : Bool) (total budget : Nat) :
    (pool.map f).sweepScan pageSize advised total budget =
      ((pool.sweepScan pageSize advised total budget).1.map f,
        (pool.sweepScan pageSize advised total budget).2) := by
  induction budget generalizing pool with
  | zero => rfl
  | succ budget ih =>
    obtain ⟨cursor, hcursor⟩ : ∃ cursor, cursor = (pool.sweepCursor % total + 1) % total := ⟨_, rfl⟩
    obtain ⟨mid, hmid⟩ : ∃ mid : ClassPool L, mid = { pool with sweepCursor := cursor } := ⟨_, rfl⟩
    have hmid' : (⟨(pool.map f).slabs, pool.slabsByStart, pool.partialSlabs, pool.fullHotSlabs,
        pool.fullColdSlabs, pool.epoch, cursor, pool.recentSlab⟩ : ClassPool L') = mid.map f := by
      rw [hmid]
      rfl
    have hslabs : mid.slabs = pool.slabs := hmid ▸ rfl
    have hepoch : mid.epoch = pool.epoch := hmid ▸ rfl
    show sweepScan pageSize advised total (budget + 1) ⟨(pool.map f).slabs, pool.slabsByStart,
      pool.partialSlabs, pool.fullHotSlabs, pool.fullColdSlabs, pool.epoch, pool.sweepCursor,
      pool.recentSlab⟩ = _
    simp only [sweepScan, ← hcursor, hmid', ← hmid]
    cases pool.fullHotSlabs[pool.sweepCursor % total]? with
    | none => rfl
    | some id =>
      have hget : (pool.map f).slabs[id]? = pool.slabs[id]?.map (SlabRecord.map f) :=
        getElem?_map_slabs f pool id
      simp only [hget]
      cases pool.slabs[id]? with
      | none => rfl
      | some slab =>
        have hcandidate : (slab.map f).isSweepCandidate pool.epoch =
          slab.isSweepCandidate pool.epoch := rfl
        have hstart : (slab.map f).start = slab.start := rfl
        have hlen : (slab.map f).spanLen = slab.spanLen := rfl
        have hstate : (slab.map f).state = slab.state := rfl
        simp only [Option.map_some, hcandidate, hstart, hlen, hstate, ih, setSlabState_map,
          reconcileBucketTransition_map]
        split
        · rfl
        · cases pageAlignedInnerRange pageSize slab.start slab.spanLen with
          | none => rfl
          | some range => cases advised <;> rfl

theorem maybeSweep_map (pageSize : Nat) (advised : Bool) :
    (pool.map f).maybeSweep pageSize advised =
      ((pool.maybeSweep pageSize advised).1.map f, (pool.maybeSweep pageSize advised).2) := by
  have hhot : (pool.map f).fullHotSlabs = pool.fullHotSlabs := rfl
  have hepoch : (pool.map f).epoch = pool.epoch := rfl
  simp only [maybeSweep, hhot, hepoch, sweepScan_map]
  split <;> rfl

theorem loanWholeSlab_map {B B' : Type} (slab : SlabRecord L) :
    ((pool.map f).loanWholeSlab id (slab.map f) : ClassPool L' × CentralRefill B') =
      ((pool.loanWholeSlab (B := B) id slab).1.map f,
        .slab slab.start slab.blockSize slab.capacity) := by
  have hmid : ∀ record : SlabRecord L,
      { pool.map f with
        slabs := (pool.map f).slabs.set id (record.map f)
        recentSlab := some id } =
      { pool with slabs := pool.slabs.set id record, recentSlab := some id }.map f := by
    intro record
    simp [map, List.map_set]
  have hrecord : { slab.map f with
      state := .loaned, centralFreeLen := 0, lastTouchedEpoch := (pool.map f).epoch } =
      { slab with
        state := .loaned, centralFreeLen := 0, lastTouchedEpoch := pool.epoch }.map f := rfl
  have hstate : (slab.map f).state = slab.state := rfl
  simp only [loanWholeSlab, hrecord, hmid, hstate, reconcileBucketTransition_map]
  rfl

@[simp] theorem findSlabIdUnchecked_map (block : Nat) :
    (pool.map f).findSlabIdUnchecked block = pool.findSlabIdUnchecked block := by
  have hcontains : ∀ id : Nat, ((pool.map f).slabs[id]?.map fun slab => slab.contains block) =
      pool.slabs[id]?.map fun slab => slab.contains block := by
    intro id
    rw [getElem?_map_slabs, Option.map_map]
    rfl
  simp only [findSlabIdUnchecked, hcontains, slabStart_map]
  rfl

end ClassPool

end Map

/-! ### The lists of a class -/

namespace Woven

variable {m : Mem} {l : List Nat} {lists : List (List Nat)}

theorem tail (h : Woven m (l :: lists)) : Woven m lists where
  linked := fun l' hl => h.linked l' (List.mem_cons_of_mem _ hl)
  nodup := (List.nodup_append.mp h.nodup).2.1
  linkable := fun b hb => h.linkable b (List.mem_append.mpr (Or.inr hb))

theorem cons_nil (h : Woven m lists) : Woven m ([] :: lists) where
  linked := fun _ hl => (List.mem_cons.mp hl).elim (fun hl => hl ▸ trivial) (h.linked _)
  nodup := h.nodup
  linkable := h.linkable

theorem head_apart (h : Woven m (l :: lists)) : ∀ b ∈ l, b ∉ lists.flatten :=
  fun b hb hb' => (List.nodup_append.mp h.nodup).2.2 b hb b hb' rfl

end Woven

namespace ClassPool

variable {pool pool' : ClassPool (List Nat)} {mF mS mS' : Mem}

/-- The partial lists of the slabs. -/
def freeLists (pool : ClassPool (List Nat)) : List (List Nat) :=
  pool.slabs.map SlabRecord.partialFree

theorem getElem?_freeLists {id : Nat} {slab : SlabRecord (List Nat)}
    (h : pool.slabs[id]? = some slab) : pool.freeLists[id]? = some slab.partialFree := by
  simp [freeLists, h]

theorem coe_flatten_freeLists : (pool.freeLists.flatten : Multiset Nat) = pool.partialBag :=
  BagSum.coe_flatten_map _ _

theorem freeLists_modify (pool : ClassPool (List Nat)) (id : Nat)
    {g : SlabRecord (List Nat) → SlabRecord (List Nat)}
    (hg : ∀ slab, (g slab).partialFree = slab.partialFree) :
    { pool with slabs := pool.slabs.modify id g }.freeLists = pool.freeLists := by
  refine List.ext_getElem? fun j => ?_
  simp only [freeLists, List.getElem?_map, List.getElem?_modify]
  cases pool.slabs[j]? with
  | none => rfl
  | some slab => by_cases hj : id = j <;> simp [hj, hg]

@[simp] theorem freeLists_setBucketSlot (pool : ClassPool (List Nat)) (id : Nat)
    (slot : Option Nat) : (pool.setBucketSlot id slot).freeLists = pool.freeLists :=
  freeLists_modify pool id fun _ => rfl

@[simp] theorem freeLists_setSlabState (pool : ClassPool (List Nat)) (id : Nat)
    (state : SlabState) : (pool.setSlabState id state).freeLists = pool.freeLists :=
  freeLists_modify pool id fun _ => rfl

@[simp] theorem freeLists_setBucket (pool : ClassPool (List Nat)) (state : SlabState)
    (ids : List Nat) : (pool.setBucket state ids).freeLists = pool.freeLists := by
  cases state <;> rfl

@[simp] theorem freeLists_normalizeSweepCursor (pool : ClassPool (List Nat)) :
    pool.normalizeSweepCursor.freeLists = pool.freeLists := rfl

@[simp] theorem freeLists_removeFromBucket (pool : ClassPool (List Nat)) (id : Nat)
    (state : SlabState) : (pool.removeFromBucket id state).freeLists = pool.freeLists := by
  unfold removeFromBucket
  cases pool.bucketSlot id with
  | none => rfl
  | some slot =>
    dsimp only
    split
    · exact freeLists_setBucketSlot pool id none
    · cases (swapRemove ((pool.setBucketSlot id none).bucket state) slot)[slot]? <;> simp

@[simp] theorem freeLists_addToBucket (pool : ClassPool (List Nat)) (id : Nat)
    (state : SlabState) : (pool.addToBucket id state).freeLists = pool.freeLists := by
  unfold addToBucket
  split <;> simp

@[simp] theorem freeLists_reconcileBucketTransition (pool : ClassPool (List Nat)) (id : Nat)
    (previous next : SlabState) :
    (pool.reconcileBucketTransition id previous next).freeLists = pool.freeLists := by
  unfold reconcileBucketTransition
  split <;> simp

@[simp] theorem freeLists_sweepScan (pageSize : Nat) (advised : Bool) (total budget : Nat)
    (pool : ClassPool (List Nat)) :
    (pool.sweepScan pageSize advised total budget).1.freeLists = pool.freeLists := by
  induction budget generalizing pool with
  | zero => rfl
  | succ budget ih =>
    unfold sweepScan
    dsimp only
    split
    · rfl
    · split
      · rfl
      · split
        · exact ih _
        · split
          · exact ih _
          · split
            · simp only [freeLists_reconcileBucketTransition, freeLists_setSlabState]
              rfl
            · rfl

@[simp] theorem freeLists_maybeSweep (pageSize : Nat) (advised : Bool)
    (pool : ClassPool (List Nat)) :
    (pool.maybeSweep pageSize advised).1.freeLists = pool.freeLists := by
  unfold maybeSweep
  split
  · rfl
  · exact freeLists_sweepScan ..

/-- The record of one slab is replaced. -/
theorem freeLists_set (pool : ClassPool (List Nat)) (id : Nat) (slab : SlabRecord (List Nat))
    (recent : Option Nat) :
    { pool with slabs := pool.slabs.set id slab, recentSlab := recent }.freeLists =
      pool.freeLists.set id slab.partialFree := by
  simp [freeLists, List.map_set]

theorem map_set (pool : ClassPool (List Nat)) (id : Nat) (slab : SlabRecord (List Nat))
    (recent : Option Nat) :
    { pool.map FreeList.ofSeq with
      slabs := (pool.map FreeList.ofSeq).slabs.set id (slab.map FreeList.ofSeq)
      recentSlab := recent } =
      { pool with slabs := pool.slabs.set id slab, recentSlab := recent }.map FreeList.ofSeq := by
  simp [map, List.map_set]

/-! ### Returning and taking -/

/-- A returned block goes on the partial list of its slab; when it completes the slab, the list is
dropped. -/
theorem recordReturnedBlock_map (h : Woven mF pool.freeLists) (mS : Mem) {id block : Nat}
    {slab : SlabRecord (List Nat)} (hid : pool.slabs[id]? = some slab) (hb : Linkable block)
    (hnew : block ∉ pool.freeLists.flatten) (epoch : Nat) :
    ∃ mF', ({ slab with lastTouchedEpoch := epoch }.map FreeList.ofSeq).recordReturnedBlock mF
        block = (mF', ({ slab with lastTouchedEpoch := epoch }.recordReturnedBlock mS
          block).2.map FreeList.ofSeq) ∧
      Woven mF' (pool.freeLists.set id ({ slab with lastTouchedEpoch := epoch }.recordReturnedBlock
        mS block).2.partialFree) ∧
      Follows (fun x => x = block) mF mS mF' mS := by
  obtain ⟨mF', hpush, hwoven, hf⟩ := h.push mS (getElem?_freeLists hid) hb hnew
  have hpush' : BlockStore.pushBlock mF
    ({ slab with lastTouchedEpoch := epoch }.map FreeList.ofSeq).partialFree block =
      (mF', FreeList.ofSeq (block :: slab.partialFree)) := hpush
  have hlen : ({ slab with lastTouchedEpoch := epoch }.map FreeList.ofSeq).centralFreeLen =
    slab.centralFreeLen := rfl
  have hcap : ({ slab with lastTouchedEpoch := epoch }.map FreeList.ofSeq).capacity =
    slab.capacity := rfl
  refine ⟨mF', ?_, ?_, hf⟩
  · simp only [SlabRecord.recordReturnedBlock, hpush', hlen, hcap, seq_pushBlock]
    split <;> rfl
  · simp only [SlabRecord.recordReturnedBlock, seq_pushBlock]
    split
    · have hlt : id < (pool.freeLists.set id (block :: slab.partialFree)).length := by
        simpa [freeLists] using (List.getElem?_eq_some_iff.mp hid).1
      have hget : (pool.freeLists.set id (block :: slab.partialFree))[id]? =
        some (block :: slab.partialFree) :=
          List.getElem?_eq_some_iff.mpr ⟨hlt, List.getElem_set_self ..⟩
      have hshrink := hwoven.shrink hget (show Linked mF' [] from trivial) (List.nil_sublist _)
      rwa [List.set_set] at hshrink
    · exact hwoven

theorem returnBlocks_map (mS : Mem) (n : Nat) {batch : List Nat} (h : Woven mF pool.freeLists)
    (hlinked : Linked mF batch) (hgood : ∀ b ∈ batch, Linkable b) (hnodup : batch.Nodup)
    (hnew : ∀ b ∈ batch, b ∉ pool.freeLists.flatten)
    (hrun : pool.returnBlocks mS n batch = some (mS', pool')) :
    ∃ mF', (pool.map FreeList.ofSeq).returnBlocks mF n (Batch.ofSeq batch) =
        some (mF', pool'.map FreeList.ofSeq) ∧ Woven mF' pool'.freeLists ∧
      (∀ b ∈ pool'.freeLists.flatten, b ∈ batch ∨ b ∈ pool.freeLists.flatten) ∧
      Follows (fun x => x ∈ batch) mF mS mF' mS' := by
  induction n generalizing pool mF mS batch with
  | zero =>
    obtain ⟨rfl, rfl⟩ := Prod.mk.inj (Option.some.inj hrun)
    exact ⟨mF, rfl, h, fun _ hb => Or.inr hb, Follows.refl _ _ _⟩
  | succ n ih =>
    cases batch with
    | nil => cases hrun
    | cons b batch =>
      have hrun : (pool.findSlabIdUnchecked b).bind _ = some (mS', pool') := hrun
      obtain ⟨id, hfind, hrun⟩ := Option.bind_eq_some_iff.mp hrun
      obtain ⟨slab, hid, hrun⟩ := Option.bind_eq_some_iff.mp hrun
      obtain ⟨hb, hnd⟩ := List.nodup_cons.mp hnodup
      obtain ⟨m₁, hrecord, hwoven, hf₁⟩ := recordReturnedBlock_map h mS hid
        (hgood b List.mem_cons_self) (hnew b List.mem_cons_self) pool.epoch
      obtain ⟨slab', hslab'⟩ : ∃ slab', slab' =
        ({ slab with lastTouchedEpoch := pool.epoch }.recordReturnedBlock mS b).2 := ⟨_, rfl⟩
      obtain ⟨mid, hmid⟩ : ∃ mid : ClassPool (List Nat), mid =
        { pool with slabs := pool.slabs.set id slab', recentSlab := some id } := ⟨_, rfl⟩
      have hrun : (mid.reconcileBucketState id slab.state).returnBlocks mS n batch =
        some (mS', pool') := by
        rw [hmid, hslab']
        exact hrun
      have hlists : (mid.reconcileBucketState id slab.state).freeLists =
          pool.freeLists.set id slab'.partialFree := by
        rw [reconcileBucketState, freeLists_reconcileBucketTransition, hmid, freeLists_set]
      have hmore : ∀ x ∈ slab'.partialFree, x = b ∨ x ∈ slab.partialFree := by
        rw [hslab']
        simp only [SlabRecord.recordReturnedBlock, seq_pushBlock]
        split
        · exact fun x hx => by cases hx
        · exact fun x hx => List.mem_cons.mp hx
      rw [← hslab'] at hwoven hrecord
      have hbatch : ∀ x ∈ batch, ¬x = b := fun x hx hxb => hb (hxb ▸ hx)
      have hmem : ∀ x ∈ (mid.reconcileBucketState id slab.state).freeLists.flatten,
          x = b ∨ x ∈ pool.freeLists.flatten := by
        intro x hmem
        rw [hlists] at hmem
        obtain ⟨l, hl, hxl⟩ := List.mem_flatten.mp hmem
        rcases List.mem_or_eq_of_mem_set hl with hl | rfl
        · exact Or.inr (List.mem_flatten.mpr ⟨l, hl, hxl⟩)
        · exact (hmore x hxl).imp_right fun hxl =>
            List.mem_flatten.mpr ⟨_, List.mem_of_getElem? (getElem?_freeLists hid), hxl⟩
      have hnew' : ∀ x ∈ batch, x ∉ (mid.reconcileBucketState id slab.state).freeLists.flatten :=
        fun x hx hm => (hmem x hm).elim (hbatch x hx) (hnew x (List.mem_cons_of_mem _ hx))
      obtain ⟨m₂, hrun₂, hwoven₂, hsub₂, hf₂⟩ := ih mS (hlists ▸ hwoven)
        (hf₁.linked hlinked.2 (fun x hx => hgood x (List.mem_cons_of_mem _ hx)) hbatch)
        (fun x hx => hgood x (List.mem_cons_of_mem _ hx)) hnd hnew' hrun
      refine ⟨m₂, ?_, hwoven₂, fun x hx => ?_, (hf₁.mono fun x hx => hx ▸ List.mem_cons_self).trans
        (hf₂.mono fun x hx => List.mem_cons_of_mem _ hx)⟩
      rotate_left
      · rcases hsub₂ x hx with hx | hx
        · exact Or.inl (List.mem_cons_of_mem _ hx)
        · exact (hmem x hx).imp_left fun (hxb : x = b) => hxb ▸ List.mem_cons_self
      simp only [returnBlocks, batchPopBlockUnchecked_ofSeq hlinked, Option.bind_some,
        findSlabIdUnchecked_map, hfind, getElem?_map_slabs, hid, Option.map_some]
      show (fun r : Mem × SlabRecord FreeList => returnBlocks r.1 n (({ pool.map FreeList.ofSeq with
        slabs := (pool.map FreeList.ofSeq).slabs.set id r.2
        recentSlab := some id }).reconcileBucketState id slab.state) (Batch.ofSeq batch))
        (({ slab with lastTouchedEpoch := pool.epoch }.map FreeList.ofSeq).recordReturnedBlock
          mF b) =
          _
      rw [hrecord]
      simp only [map_set, ← hmid, reconcileBucketState_map, hrun₂]

theorem applyAdvice_follows {T : Nat → Prop} (range : Option (Nat × Nat)) :
    Follows T mF mS (applyAdvice mF range) (applyAdvice mS range) := by
  cases range with
  | none => exact Follows.refl _ _ _
  | some range => exact Follows.advise _ _

/-- The sweep that ends an operation. -/
theorem sweep_map {T : Nat → Prop} (h : Woven mF pool.freeLists) (hp : mF.pageSize = mS.pageSize)
    (advised : Bool) :
    ∃ mF', applyAdvice mF ((pool.map FreeList.ofSeq).maybeSweep mF.pageSize advised).2 = mF' ∧
      ((pool.map FreeList.ofSeq).maybeSweep mF.pageSize advised).1 =
        (pool.maybeSweep mS.pageSize advised).1.map FreeList.ofSeq ∧
      Woven mF' (pool.maybeSweep mS.pageSize advised).1.freeLists ∧
      Follows T mF mS mF' (applyAdvice mS (pool.maybeSweep mS.pageSize advised).2) := by
  refine ⟨_, rfl, ?_, ?_, ?_⟩
  · rw [maybeSweep_map, hp]
  · rw [maybeSweep_map, hp, freeLists_maybeSweep]
    have hf : Follows (fun _ => False) mF mS
        (applyAdvice mF (pool.maybeSweep mS.pageSize advised).2)
      (applyAdvice mS (pool.maybeSweep mS.pageSize advised).2) := applyAdvice_follows _
    exact h.follows hf fun _ _ h => h
  · rw [maybeSweep_map, hp]
    exact applyAdvice_follows _

theorem returnBatch_map {advised : Bool} {batch : List Nat} (h : Woven mF pool.freeLists)
    (ha : Agree (fun _ => True) mF mS) (hlinked : Linked mF batch)
    (hgood : ∀ b ∈ batch, Linkable b) (hnodup : batch.Nodup)
    (hnew : ∀ b ∈ batch, b ∉ pool.freeLists.flatten)
    (hrun : pool.returnBatch mS advised batch = some (mS', pool')) :
    ∃ mF', (pool.map FreeList.ofSeq).returnBatch mF advised (Batch.ofSeq batch) =
        some (mF', pool'.map FreeList.ofSeq) ∧ Woven mF' pool'.freeLists ∧
      (∀ b ∈ pool'.freeLists.flatten, b ∈ batch ∨ b ∈ pool.freeLists.flatten) ∧
      Follows (fun x => x ∈ batch) mF mS mF' mS' := by
  unfold returnBatch at hrun
  split at hrun
  · rename_i hlen
    obtain ⟨rfl, rfl⟩ := Prod.mk.inj (Option.some.inj hrun)
    exact ⟨mF, if_pos hlen, h, fun _ hb => Or.inr hb, Follows.refl _ _ _⟩
  · rename_i hlen
    obtain ⟨⟨m₁, mid⟩, hblocks, hrun⟩ := Option.map_eq_some_iff.mp hrun
    have hrun : (applyAdvice m₁ (mid.maybeSweep m₁.pageSize advised).2,
      (mid.maybeSweep m₁.pageSize advised).1) = (mS', pool') := hrun
    obtain ⟨rfl, rfl⟩ := Prod.mk.inj hrun
    have hbump : Woven mF pool.bumpEpoch.freeLists := h
    obtain ⟨m₂, hblocks', hwoven, hsub, hf⟩ := returnBlocks_map mS _ hbump hlinked
      hgood hnodup hnew hblocks
    obtain ⟨m₃, hadvice, hsweep, hwoven', hf'⟩ := sweep_map (T := fun x => x ∈ batch) hwoven
      (hf.pageSize ha) advised
    refine ⟨m₃, ?_, hwoven', ?_, hf.trans hf'⟩
    rotate_left
    · rw [freeLists_maybeSweep]
      exact hsub
    rw [← hadvice]
    have hlen' : ¬BlockStore.batchLen FreeList (Batch.ofSeq batch) = 0 := hlen
    have hblocks'' : (pool.map FreeList.ofSeq).bumpEpoch.returnBlocks mF
      (BlockStore.batchLen FreeList (Batch.ofSeq batch)) (Batch.ofSeq batch) =
        some (m₂, mid.map FreeList.ofSeq) := hblocks'
    simp only [returnBatch, hlen', if_false, hblocks'', Option.map_some, hsweep]

theorem takePartialBatch_map (h : Woven mF pool.freeLists) (mS : Mem) {id max : Nat}
    {slab slab' : SlabRecord (List Nat)} (hid : pool.slabs[id]? = some slab) {batch : List Nat}
    (hrun : slab.takePartialBatch mS max = some (mS', batch, slab')) :
    mS' = mS ∧ ∃ mF', (slab.map FreeList.ofSeq).takePartialBatch mF max =
        some (mF', Batch.ofSeq batch, slab'.map FreeList.ofSeq) ∧
      Woven mF' (pool.freeLists.set id slab'.partialFree) ∧ Linked mF' batch ∧
      (∀ b ∈ batch, b ∈ slab.partialFree) ∧
      Follows (fun x => x ∈ slab.partialFree) mF mS mF' mS := by
  obtain ⟨⟨m₁, taken, rest⟩, hpop, hrun⟩ := Option.map_eq_some_iff.mp hrun
  rw [seq_popBatchUnchecked] at hpop
  split at hpop
  · cases hpop
  rename_i hne
  rw [not_or] at hne
  obtain ⟨rfl, rfl, rfl⟩ : mS = m₁ ∧ slab.partialFree.take max = taken ∧
    slab.partialFree.drop max = rest := by simpa using hpop
  obtain ⟨rfl, rfl, rfl⟩ : mS = mS' ∧ slab.partialFree.take max = batch ∧ _ = slab' := by
    simpa using hrun
  obtain ⟨m₁, hpop', hwoven, hlinked, hf⟩ := h.popBatch mS (getElem?_freeLists hid) hne.1 hne.2
  refine ⟨rfl, m₁, ?_, hwoven, hlinked, fun b hb => List.mem_of_mem_take hb, hf⟩
  have hpop'' : BlockStore.popBatchUnchecked mF (slab.map FreeList.ofSeq).partialFree max =
    some (m₁, Batch.ofSeq (slab.partialFree.take max),
        FreeList.ofSeq (slab.partialFree.drop max)) :=
      hpop'
  simp only [SlabRecord.takePartialBatch, hpop'', Option.map_some, batchLen_ofSeq,
    List.length_take]
  rfl

theorem takeRefill_map {advised : Bool} {max : Nat} {refill : CentralRefill (List Nat)}
    (h : Woven mF pool.freeLists) (ha : Agree (fun _ => True) mF mS)
    (hrun : pool.takeRefill mS advised max = some (mS', pool', refill)) :
    ∃ mF', (pool.map FreeList.ofSeq).takeRefill mF advised max =
        some (mF', pool'.map FreeList.ofSeq, refill.map Batch.ofSeq) ∧ Woven mF' pool'.freeLists ∧
      (∀ batch, refill = .batch batch → Linked mF' batch) ∧
      Follows (fun x => x ∈ pool.freeLists.flatten) mF mS mF' mS' := by
  unfold takeRefill at hrun
  split at hrun
  · rename_i hmax
    obtain ⟨rfl, rfl, rfl⟩ : mS = mS' ∧ pool = pool' ∧ .empty = refill := by simpa using hrun
    exact ⟨mF, if_pos hmax, h, nofun, Follows.refl _ _ _⟩
  · rename_i hmax
    -- every way to a refill ends with the same sweep
    have hend : ∀ {mF₁ mS₁ : Mem} (mid : ClassPool (List Nat)) (got : CentralRefill (List Nat)),
        Woven mF₁ mid.freeLists →
        Follows (fun x => x ∈ pool.freeLists.flatten) mF mS mF₁ mS₁ →
        (∀ batch, got = .batch batch → Linked mF₁ batch ∧ ∀ b ∈ batch, Linkable b) →
        (applyAdvice mS₁ (mid.maybeSweep mS₁.pageSize advised).2,
          (mid.maybeSweep mS₁.pageSize advised).1, got) = (mS', pool', refill) →
        (pool.map FreeList.ofSeq).takeRefill mF advised max =
          some (applyAdvice mF₁ ((mid.map FreeList.ofSeq).maybeSweep mF₁.pageSize advised).2,
            ((mid.map FreeList.ofSeq).maybeSweep mF₁.pageSize advised).1, got.map Batch.ofSeq) →
        ∃ mF', (pool.map FreeList.ofSeq).takeRefill mF advised max =
          some (mF', pool'.map FreeList.ofSeq, refill.map Batch.ofSeq) ∧ Woven mF' pool'.freeLists ∧
        (∀ batch, refill = .batch batch → Linked mF' batch) ∧
        Follows (fun x => x ∈ pool.freeLists.flatten) mF mS mF' mS' := by
      intro mF₁ mS₁ mid got hwoven hf hgot hrun hF
      obtain ⟨rfl, rfl, rfl⟩ : _ = mS' ∧ _ = pool' ∧ got = refill := by simpa using hrun
      obtain ⟨m₂, hadvice, hsweep, hwoven', hf'⟩ :=
        sweep_map (T := fun _ => False) hwoven (hf.pageSize ha) advised
      rw [hadvice, hsweep] at hF
      exact ⟨m₂, hF, hwoven', fun batch hb => hf'.linked (hgot batch hb).1 (hgot batch hb).2
        fun _ _ h => h, hf.trans (hf'.mono fun _ h => h.elim)⟩
    have hpart' :
        (pool.map FreeList.ofSeq).bumpEpoch.partialSlabs = pool.bumpEpoch.partialSlabs := rfl
    have hhot' :
        (pool.map FreeList.ofSeq).bumpEpoch.fullHotSlabs = pool.bumpEpoch.fullHotSlabs := rfl
    have hcold' : (pool.map FreeList.ofSeq).bumpEpoch.fullColdSlabs =
        pool.bumpEpoch.fullColdSlabs := rfl
    dsimp only at hrun
    split at hrun
    · rename_i id hpart
      obtain ⟨slab, hid, hrun⟩ := Option.bind_eq_some_iff.mp hrun
      obtain ⟨⟨mS₁, batch, slab'⟩, htake, hlast⟩ := Option.map_eq_some_iff.mp hrun
      obtain ⟨rfl, m₂, htake', hwoven, hlinked, hsub, hf⟩ :=
        takePartialBatch_map (show Woven mF pool.bumpEpoch.freeLists from h) mS hid htake
      have hmem : ∀ b ∈ slab.partialFree, b ∈ pool.freeLists.flatten := fun b hb =>
        List.mem_flatten.mpr ⟨_, List.mem_of_getElem? (@getElem?_freeLists pool id slab hid), hb⟩
      obtain ⟨mid, hmid⟩ : ∃ mid : ClassPool (List Nat), mid = { pool.bumpEpoch with
        slabs := pool.bumpEpoch.slabs.set id
          { slab' with lastTouchedEpoch := pool.bumpEpoch.epoch }
        recentSlab := some id } := ⟨_, rfl⟩
      have hrun : (applyAdvice mS₁
        ((mid.reconcileBucketState id .partlyFree).maybeSweep mS₁.pageSize
        advised).2, ((mid.reconcileBucketState id .partlyFree).maybeSweep mS₁.pageSize advised).1,
          CentralRefill.batch batch) = (mS', pool', refill) := by
        rw [hmid]
        exact hlast
      refine hend _ _ ?_ (hf.mono hmem) (fun got hgot => ?_) hrun ?_
      · rw [reconcileBucketState, freeLists_reconcileBucketTransition, hmid, freeLists_set]
        exact hwoven
      · obtain rfl : batch = got := CentralRefill.batch.inj hgot
        exact ⟨hlinked, fun b hb => h.linkable b (hmem b (hsub b hb))⟩
      · have hget : (pool.map FreeList.ofSeq).bumpEpoch.slabs[id]? =
            some (slab.map FreeList.ofSeq) := by
          rw [bumpEpoch_map, getElem?_map_slabs, hid, Option.map_some]
        have hmid' : { (pool.map FreeList.ofSeq).bumpEpoch with
          slabs := (pool.map FreeList.ofSeq).bumpEpoch.slabs.set id
            { slab'.map FreeList.ofSeq with
              lastTouchedEpoch := (pool.map FreeList.ofSeq).bumpEpoch.epoch }
          recentSlab := some id } = mid.map FreeList.ofSeq := by
          rw [hmid]
          exact map_set pool.bumpEpoch id
            { slab' with lastTouchedEpoch := pool.bumpEpoch.epoch } (some id)
        simp only [takeRefill, if_neg hmax, hpart', hpart, hget, Option.bind_some, htake',
          Option.map_some]
        rw [← reconcileBucketState_map, ← hmid']
        rfl
    · rename_i hpart
      split at hrun
      · rename_i id hfull
        obtain ⟨slab, hid, hlast⟩ := Option.map_eq_some_iff.mp hrun
        have hget : (pool.map FreeList.ofSeq).bumpEpoch.slabs[id]? =
            some (slab.map FreeList.ofSeq) := by
          rw [bumpEpoch_map, getElem?_map_slabs, hid, Option.map_some]
        obtain ⟨mid, hmid⟩ : ∃ mid, mid = (pool.bumpEpoch.loanWholeSlab
          (B := List Nat) id slab).1 := ⟨_, rfl⟩
        have hlists : mid.freeLists = pool.freeLists := by
          rw [hmid, loanWholeSlab, freeLists_reconcileBucketTransition, freeLists_set]
          obtain ⟨hlt, heq⟩ := List.getElem?_eq_some_iff.mp
            (@getElem?_freeLists pool.bumpEpoch id slab hid)
          rw [← heq]
          exact List.set_getElem_self hlt
        refine hend mid (.slab slab.start slab.blockSize slab.capacity)
          (by rw [hlists]; exact h) (Follows.refl _ _ _) (by simp) (by rw [hmid]; exact hlast) ?_
        simp only [takeRefill, if_neg hmax, hpart', hpart, hhot', hcold', hfull, hget,
          Option.map_some]
        rw [bumpEpoch_map, loanWholeSlab_map (B := List Nat), ← hmid]
        rfl
      · rename_i hfull
        refine hend pool.bumpEpoch .empty h (Follows.refl _ _ _) (by simp)
          (Option.some.inj hrun) ?_
        simp only [takeRefill, if_neg hmax, hpart', hpart, hhot', hcold', hfull]
        rfl

@[simp] theorem new_map {L L' : Type} (f : L → L') : (new : ClassPool L).map f = new := rfl

theorem registerSlab_map (pool : ClassPool (List Nat)) (pageSize : Nat) (advised : Bool)
    (start blockSize capacity : Nat) :
    (pool.map FreeList.ofSeq).registerSlab pageSize advised start blockSize capacity =
      ((pool.registerSlab pageSize advised start blockSize capacity).1.map FreeList.ofSeq,
        (pool.registerSlab pageSize advised start blockSize capacity).2) := by
  have hkey : (pool.map FreeList.ofSeq).bumpEpoch.slabStart = pool.bumpEpoch.slabStart :=
    funext fun id => slabStart_map _ pool.bumpEpoch id
  have hsearch : (pool.map FreeList.ofSeq).bumpEpoch.slabsByStart = pool.bumpEpoch.slabsByStart :=
    rfl
  have hreset : ∀ id epoch, (pool.map FreeList.ofSeq).bumpEpoch.slabs.modify id
      (fun slab => slab.reset start blockSize capacity epoch) =
      (pool.bumpEpoch.slabs.modify id fun slab => slab.reset start blockSize capacity epoch).map
        (SlabRecord.map FreeList.ofSeq) := by
    intro id epoch
    have hslab : ∀ slab : SlabRecord (List Nat),
        (slab.map FreeList.ofSeq).reset start blockSize capacity epoch =
          (slab.reset start blockSize capacity epoch).map FreeList.ofSeq := fun _ => rfl
    exact modify_map hslab pool.slabs id
  simp only [registerSlab, hkey, hsearch]
  cases binarySearchByKey pool.bumpEpoch.slabStart start pool.bumpEpoch.slabsByStart with
  | ok slot =>
    dsimp only
    rw [← maybeSweep_map]
    simp only [hreset]
    rfl
  | error slot =>
    dsimp only
    rw [← maybeSweep_map]
    have hlen : (pool.map FreeList.ofSeq).bumpEpoch.slabs.length = pool.bumpEpoch.slabs.length :=
      List.length_map ..
    have hnew : (pool.map FreeList.ofSeq).bumpEpoch.slabs ++
        [SlabRecord.new start blockSize capacity (pool.map FreeList.ofSeq).bumpEpoch.epoch] =
        (pool.bumpEpoch.slabs ++ [SlabRecord.new start blockSize capacity
          pool.bumpEpoch.epoch]).map (SlabRecord.map FreeList.ofSeq) := by
      rw [List.map_append]
      rfl
    simp only [hlen, hnew]
    rfl

theorem woven_registerSlab {l : List Nat} (h : Woven mF (l :: pool.freeLists)) (pageSize : Nat)
    (advised : Bool) (start blockSize capacity : Nat) :
    Woven mF (l :: (pool.registerSlab pageSize advised start blockSize capacity).1.freeLists) := by
  simp only [registerSlab, freeLists_maybeSweep]
  cases binarySearchByKey pool.bumpEpoch.slabStart start pool.bumpEpoch.slabsByStart with
  | ok slot =>
    dsimp only
    obtain ⟨id, hid⟩ : ∃ id, id = pool.bumpEpoch.slabsByStart[slot]?.getD 0 := ⟨_, rfl⟩
    rw [← hid]
    cases hslab : pool.slabs[id]? with
    | none =>
      have : pool.bumpEpoch.slabs.modify id (fun slab => slab.reset start blockSize capacity
        pool.bumpEpoch.epoch) = pool.slabs :=
          List.modify_eq_self (List.getElem?_eq_none_iff.mp hslab)
      rw [this]
      exact h
    | some slab =>
      have hset : pool.bumpEpoch.slabs.modify id (fun slab => slab.reset start blockSize capacity
          pool.bumpEpoch.epoch) =
          pool.slabs.set id (slab.reset start blockSize capacity pool.bumpEpoch.epoch) := by
        rw [List.modify_eq_set_getElem?]
        simp [bumpEpoch, hslab]
      rw [hset, freeLists, List.map_set]
      exact h.shrink (i := id + 1) (getElem?_freeLists hslab)
        (show Linked mF [] from trivial) (List.nil_sublist _)
  | error slot =>
    dsimp only
    rw [freeLists, List.map_append]
    exact h.append_nil

end ClassPool

namespace RemoteReturns

variable {returns returns' : RemoteReturns (List Nat)} {mF mS mS' : Mem}

@[simp] theorem isEmpty_map {L L' : Type} (f : L → L') (returns : RemoteReturns L) :
    (returns.map f).isEmpty = returns.isEmpty := rfl

@[simp] theorem new_map : (new : RemoteReturns (List Nat)).map FreeList.ofSeq = new := rfl

/-- A staged block goes in front of the list. -/
theorem pushBlock_map (h : Linked mF returns.pending) (mS : Mem) {block : Nat} (hb : Linkable block)
    (hgood : ∀ x ∈ returns.pending, Linkable x) (hnew : block ∉ returns.pending) :
    ∃ mF', (returns.map FreeList.ofSeq).pushBlock mF block =
        (mF', (returns.pushBlock mS block).2.map FreeList.ofSeq) ∧
      Linked mF' (returns.pushBlock mS block).2.pending ∧
      Follows (fun x => x = block) mF mS mF' mS := by
  obtain ⟨mF', hpush, hlinked, hf⟩ :=
    pushBlock_ofSeq (T := fun x => x = block) mS h hb hgood hnew rfl
  have hpush' : BlockStore.pushBlock mF (returns.map FreeList.ofSeq).pending block =
    (mF', FreeList.ofSeq (block :: returns.pending)) := hpush
  exact ⟨mF', by simp only [pushBlock, hpush']; rfl, hlinked, hf⟩

theorem takeAllUnchecked_map {batch : List Nat} (h : Linked mF returns.pending)
    (hgood : ∀ x ∈ returns.pending, Linkable x) (hnodup : returns.pending.Nodup)
    (hrun : returns.takeAllUnchecked mS = some (mS', batch, returns')) :
    mS' = mS ∧ ∃ mF', (returns.map FreeList.ofSeq).takeAllUnchecked mF =
        some (mF', Batch.ofSeq batch, returns'.map FreeList.ofSeq) ∧
      Linked mF' batch ∧ Linked mF' returns'.pending ∧
      batch ++ returns'.pending = returns.pending ∧
      Follows (fun x => x ∈ returns.pending) mF mS mF' mS := by
  obtain ⟨⟨m₁, taken, rest⟩, hpop, hrun⟩ := Option.map_eq_some_iff.mp hrun
  rw [seq_popBatchUnchecked] at hpop
  split at hpop
  · cases hpop
  rename_i hne
  rw [not_or] at hne
  obtain ⟨rfl, rfl, rfl⟩ : mS = m₁ ∧ returns.pending.take returns.pendingLen = taken ∧
    returns.pending.drop returns.pendingLen = rest := by simpa using hpop
  obtain ⟨rfl, rfl, rfl⟩ : mS = mS' ∧ returns.pending.take returns.pendingLen = batch ∧
    _ = returns' := by simpa using hrun
  obtain ⟨mF', hpop', htake, hdrop, hf⟩ := popBatchUnchecked_ofSeq
    (T := fun x => x ∈ returns.pending) mS h hne.1 hne.2 hgood hnodup
    fun b hb => List.mem_of_mem_take hb
  have hpop'' : BlockStore.popBatchUnchecked mF (returns.map FreeList.ofSeq).pending
    (returns.map FreeList.ofSeq).pendingLen = some (mF',
      Batch.ofSeq (returns.pending.take returns.pendingLen),
      FreeList.ofSeq (returns.pending.drop returns.pendingLen)) := hpop'
  refine ⟨rfl, mF', ?_, htake, hdrop, List.take_append_drop _ _, hf⟩
  simp only [takeAllUnchecked, hpop'', Option.map_some]
  rfl

theorem takePending_map {batch : List Nat} (h : Linked mF returns.pending)
    (hgood : ∀ x ∈ returns.pending, Linkable x) (hnodup : returns.pending.Nodup)
    (hrun : returns.takePending mS = some (mS', batch, returns')) :
    mS' = mS ∧ ∃ mF', (returns.map FreeList.ofSeq).takePending mF =
        some (mF', Batch.ofSeq batch, returns'.map FreeList.ofSeq) ∧
      Linked mF' batch ∧ Linked mF' returns'.pending ∧
      batch ++ returns'.pending = returns.pending ∧
      Follows (fun x => x ∈ returns.pending) mF mS mF' mS := by
  unfold takePending at hrun
  split at hrun
  · rename_i hlen
    obtain ⟨rfl, rfl, rfl⟩ : mS = mS' ∧ [] = batch ∧ returns = returns' := by simpa using hrun
    exact ⟨rfl, mF, if_pos hlen, trivial, h, rfl, Follows.refl _ _ _⟩
  · rename_i hlen
    obtain ⟨rfl, mF', hrun', hrest⟩ := takeAllUnchecked_map h hgood hnodup hrun
    exact ⟨rfl, mF', (if_neg hlen).trans hrun', hrest⟩

theorem pushBatch_map {batch : List Nat} (h : Linked mF returns.pending) (hbatch : Linked mF batch)
    (hgood : ∀ x ∈ batch ++ returns.pending, Linkable x) (hnodup : (batch ++ returns.pending).Nodup)
    (hrun : returns.pushBatch mS batch = some (mS', returns')) :
    mS' = mS ∧ ∃ mF', (returns.map FreeList.ofSeq).pushBatch mF (Batch.ofSeq batch) =
        some (mF', returns'.map FreeList.ofSeq) ∧ Linked mF' returns'.pending ∧
      returns'.pending = batch ++ returns.pending ∧
      Follows (fun x => x ∈ batch) mF mS mF' mS := by
  unfold pushBatch at hrun
  split at hrun
  · rename_i hlen
    obtain ⟨rfl, rfl⟩ := Prod.mk.inj (Option.some.inj hrun)
    obtain rfl : batch = [] := List.length_eq_zero_iff.mp hlen
    exact ⟨rfl, mF, if_pos hlen, h, rfl, Follows.refl _ _ _⟩
  · rename_i hlen
    obtain ⟨rfl, rfl⟩ : mS = mS' ∧ _ = returns' := by simpa using hrun
    obtain ⟨mF', hpush, hlinked, hf⟩ := pushBatch_ofSeq (T := fun x => x ∈ batch) mS h hbatch hgood
      hnodup fun _ hb => hb
    have hpush' : BlockStore.pushBatch mF (returns.map FreeList.ofSeq).pending
      (Batch.ofSeq batch) = some (mF', FreeList.ofSeq (batch ++ returns.pending)) := hpush
    refine ⟨rfl, mF', ?_, hlinked, rfl, hf⟩
    have hlen' : ¬BlockStore.batchLen FreeList (Batch.ofSeq batch) = 0 := hlen
    simp only [pushBatch, hlen', if_false, hpush', Option.map_some]
    rfl

end RemoteReturns

/-! ### The whole pool -/

namespace CentralPool

variable {central central' : CentralPool (List Nat)} {c : SizeClass} {mF mS mS' : Mem}

/-- The lists that the pool keeps for a class: the inbox and the partial lists. -/
def classLists (central : CentralPool (List Nat)) (c : SizeClass) : List (List Nat) :=
  (central.remoteInboxes c).pending :: (central.lists c).freeLists

theorem mem_flatten_classLists {b : Nat} : b ∈ (central.classLists c).flatten ↔
    b ∈ (central.remoteInboxes c).pending ∨ b ∈ (central.lists c).freeLists.flatten :=
  List.mem_append

@[simp] theorem new_map : (new : CentralPool (List Nat)).map FreeList.ofSeq = new := rfl

theorem drainRemoteInbox_map {advised : Bool} (hok : (central.remoteInboxes c).Ok)
    (h : Woven mF (central.classLists c)) (ha : Agree (fun _ => True) mF mS)
    (hrun : central.drainRemoteInbox mS advised c = some (mS', central')) :
    ∃ mF', (central.map FreeList.ofSeq).drainRemoteInbox mF advised c =
        some (mF', central'.map FreeList.ofSeq) ∧ (central'.remoteInboxes c).pending = [] ∧
      Woven mF' (central'.lists c).freeLists ∧
      (∀ b ∈ (central'.lists c).freeLists.flatten, b ∈ (central.classLists c).flatten) ∧
      Follows (fun x => x ∈ (central.classLists c).flatten) mF mS mF' mS' := by
  obtain ⟨pending, hpending⟩ : ∃ pending, pending = (central.remoteInboxes c).pending := ⟨_, rfl⟩
  have htake := RemoteReturns.takePending_spec hok mS
  have hmem : ∀ b ∈ pending, b ∈ (central.classLists c).flatten :=
    fun b hb => mem_flatten_classLists.mpr (Or.inl (hpending ▸ hb))
  have hnodup : pending.Nodup := hpending ▸ (List.nodup_append.mp h.nodup).1
  have hgood : ∀ b ∈ pending, Linkable b := fun b hb => h.linkable b (hmem b hb)
  obtain ⟨-, m₂, htake', hlinked, -, -, hf⟩ := RemoteReturns.takePending_map
    (h.linked _ List.mem_cons_self) (hpending ▸ hgood) (hpending ▸ hnodup) htake
  rw [← hpending] at htake htake' hlinked hf
  have hwoven : Woven m₂ (central.lists c).freeLists :=
    h.tail.follows hf fun b hb hbp => h.head_apart b (hpending ▸ hbp) hb
  obtain ⟨mid, hmid⟩ : ∃ mid : CentralPool (List Nat), mid =
    { central with remoteInboxes := Function.update central.remoteInboxes c ⟨[], 0⟩ } := ⟨_, rfl⟩
  have hmidInbox : mid.remoteInboxes c = ⟨[], 0⟩ := by
    rw [hmid]
    exact Function.update_self ..
  have hmidLists : mid.lists = central.lists := by rw [hmid]
  have hF : (central.map FreeList.ofSeq).drainRemoteInbox mF advised c =
      if BlockStore.batchIsEmpty FreeList (Batch.ofSeq pending) then
        some (m₂, mid.map FreeList.ofSeq)
      else
        (((central.lists c).map FreeList.ofSeq).returnBatch m₂ advised (Batch.ofSeq pending)).map
          fun r => (r.1, { mid.map FreeList.ofSeq with
            lists := Function.update (mid.map FreeList.ofSeq).lists c r.2 }) := by
    rw [hmid, ← map_update_inboxes]
    simp only [drainRemoteInbox, remoteInboxes_map, htake', Option.bind_some]
    rfl
  have hS : central.drainRemoteInbox mS advised c =
      if BlockStore.batchIsEmpty (List Nat) pending then some (mS, mid)
      else ((central.lists c).returnBatch mS advised pending).map fun r =>
        (r.1, { mid with lists := Function.update mid.lists c r.2 }) := by
    rw [hmid]
    simp only [drainRemoteInbox, htake, Option.bind_some]
  rw [hF, batchIsEmpty_ofSeq]
  rw [hS, seq_batchIsEmpty] at hrun
  split at hrun
  · rename_i hempty
    obtain ⟨rfl, rfl⟩ := Prod.mk.inj (Option.some.inj hrun)
    rw [hmidInbox, hmidLists]
    exact ⟨m₂, if_pos hempty, rfl, hwoven, fun b hb => mem_flatten_classLists.mpr (Or.inr hb),
      hf.mono hmem⟩
  · rename_i hempty
    obtain ⟨⟨m₃, pool⟩, hreturn, hrun⟩ := Option.map_eq_some_iff.mp hrun
    obtain ⟨rfl, rfl⟩ := Prod.mk.inj hrun
    obtain ⟨m₄, hreturn', hwoven', hsub, hf'⟩ := ClassPool.returnBatch_map hwoven
      (hf.agree _ (fun _ _ => trivial) ha) hlinked hgood hnodup
      (fun b hb => h.head_apart b (hpending ▸ hb)) hreturn
    have hpool : ({ mid with lists := Function.update mid.lists c pool } :
      CentralPool (List Nat)).lists c = pool := Function.update_self ..
    rw [hpool]
    refine ⟨m₄, ?_, congrArg _ hmidInbox, hwoven', fun b hb => ?_, (hf.trans hf').mono hmem⟩
    · rw [if_neg hempty, hreturn', Option.map_some, ← map_update_lists]
    · exact mem_flatten_classLists.mpr ((hsub b hb).imp_left fun hb => hpending ▸ hb)

theorem takeRefill_map {advised : Bool × Bool} {max : Nat} {refill : CentralRefill (List Nat)}
    (hok : (central.remoteInboxes c).Ok) (h : Woven mF (central.classLists c))
    (ha : Agree (fun _ => True) mF mS)
    (hrun : central.takeRefill mS advised c max = some (mS', central', refill)) :
    ∃ mF', (central.map FreeList.ofSeq).takeRefill mF advised c max =
        some (mF', central'.map FreeList.ofSeq, refill.map Batch.ofSeq) ∧
      Woven mF' (central'.classLists c) ∧ (∀ batch, refill = .batch batch → Linked mF' batch) ∧
      Follows (fun x => x ∈ (central.classLists c).flatten) mF mS mF' mS' := by
  obtain ⟨⟨m₁, mid⟩, hdrain, hrun⟩ := Option.bind_eq_some_iff.mp hrun
  obtain ⟨⟨m₂, pool, got⟩, htake, hrun⟩ := Option.map_eq_some_iff.mp hrun
  obtain ⟨rfl, rfl, rfl⟩ : m₂ = mS' ∧ _ = central' ∧ got = refill := by simpa using hrun
  obtain ⟨m₃, hdrain', hinbox, hwoven, hsub, hf⟩ := drainRemoteInbox_map hok h ha hdrain
  obtain ⟨m₄, htake', hwoven', hlinked, hf'⟩ :=
    ClassPool.takeRefill_map hwoven (hf.agree _ (fun _ _ => trivial) ha) htake
  refine ⟨m₄, ?_, ?_, hlinked, hf.trans (hf'.mono hsub)⟩
  · simp only [takeRefill, hdrain', Option.bind_some, lists_map, htake', Option.map_some,
      ← map_update_lists]
  · show Woven m₄ ((mid.remoteInboxes c).pending ::
      (Function.update mid.lists c pool c).freeLists)
    rw [hinbox, Function.update_self]
    exact hwoven'.cons_nil

theorem returnBatch_map {advised : Bool × Bool} {batch : List Nat}
    (hok : (central.remoteInboxes c).Ok) (h : Woven mF (central.classLists c))
    (ha : Agree (fun _ => True) mF mS) (hlinked : Linked mF batch)
    (hgood : ∀ b ∈ batch, Linkable b) (hnodup : batch.Nodup)
    (hnew : ∀ b ∈ batch, b ∉ (central.classLists c).flatten)
    (hrun : central.returnBatch mS advised c batch = some (mS', central')) :
    ∃ mF', (central.map FreeList.ofSeq).returnBatch mF advised c (Batch.ofSeq batch) =
        some (mF', central'.map FreeList.ofSeq) ∧ Woven mF' (central'.classLists c) ∧
      Follows (fun x => x ∈ batch ∨ x ∈ (central.classLists c).flatten) mF mS mF' mS' := by
  obtain ⟨⟨m₁, mid⟩, hdrain, hrun⟩ := Option.bind_eq_some_iff.mp hrun
  obtain ⟨⟨m₂, pool⟩, hreturn, hrun⟩ := Option.map_eq_some_iff.mp hrun
  obtain ⟨rfl, rfl⟩ : m₂ = mS' ∧ _ = central' := by simpa using hrun
  obtain ⟨m₃, hdrain', hinbox, hwoven, hsub, hf⟩ := drainRemoteInbox_map hok h ha hdrain
  obtain ⟨m₄, hreturn', hwoven', _, hf'⟩ := ClassPool.returnBatch_map hwoven
    (hf.agree _ (fun _ _ => trivial) ha) (hf.linked hlinked hgood hnew) hgood hnodup
    (fun b hb hbm => hnew b hb (hsub b hbm)) hreturn
  refine ⟨m₄, ?_, ?_, (hf.mono fun _ hb => Or.inr hb).trans (hf'.mono fun _ hb => Or.inl hb)⟩
  · simp only [returnBatch, hdrain', Option.bind_some, lists_map, hreturn', Option.map_some,
      ← map_update_lists]
  · show Woven m₄ ((mid.remoteInboxes c).pending ::
      (Function.update mid.lists c pool c).freeLists)
    rw [hinbox, Function.update_self]
    exact hwoven'.cons_nil

theorem publishRemoteBatch_map {batch : List Nat} (h : Woven mF (central.classLists c))
    (hlinked : Linked mF batch) (hgood : ∀ b ∈ batch, Linkable b) (hnodup : batch.Nodup)
    (hnew : ∀ b ∈ batch, b ∉ (central.classLists c).flatten)
    (hrun : central.publishRemoteBatch mS c batch = some (mS', central')) :
    mS' = mS ∧ ∃ mF', (central.map FreeList.ofSeq).publishRemoteBatch mF c (Batch.ofSeq batch) =
        some (mF', central'.map FreeList.ofSeq) ∧ Woven mF' (central'.classLists c) ∧
      Follows (fun x => x ∈ batch) mF mS mF' mS := by
  obtain ⟨⟨m₁, inbox⟩, hpush, hrun⟩ := Option.map_eq_some_iff.mp hrun
  obtain ⟨rfl, rfl⟩ : m₁ = mS' ∧ _ = central' := by simpa using hrun
  have hpend : ∀ b ∈ (central.remoteInboxes c).pending, b ∈ (central.classLists c).flatten :=
    fun b hb => mem_flatten_classLists.mpr (Or.inl hb)
  have hgood' : ∀ b ∈ batch ++ (central.remoteInboxes c).pending, Linkable b := fun b hb =>
    (List.mem_append.mp hb).elim (hgood b) fun hb => h.linkable b (hpend b hb)
  have hnodup' : (batch ++ (central.remoteInboxes c).pending).Nodup :=
    List.nodup_append.mpr ⟨hnodup, (List.nodup_append.mp h.nodup).1,
      fun x hx y hy hxy => hnew x hx (hxy ▸ hpend y hy)⟩
  obtain ⟨rfl, m₂, hpush', hlinked', heq, hf⟩ := RemoteReturns.pushBatch_map
    (h.linked _ List.mem_cons_self) hlinked hgood' hnodup' hpush
  refine ⟨rfl, m₂, ?_, ?_, hf⟩
  · simp only [publishRemoteBatch, remoteInboxes_map, hpush', Option.map_some,
      ← map_update_inboxes]
  · show Woven m₂ ((Function.update central.remoteInboxes c inbox c).pending ::
      (central.lists c).freeLists)
    rw [Function.update_self, heq]
    refine h.set (i := 0) rfl hf (fun b hb => Or.inr (hnew b hb)) (heq ▸ hlinked') hnodup' hgood' ?_
    exact fun b hb => (List.mem_append.mp hb).symm.imp_right (hnew b)

/-- A new slab brings an empty list. -/
theorem registerSlab_map (h : Woven mF (central.classLists c)) (hp : mF.pageSize = mS.pageSize)
    (advised : Bool) (start blockSize capacity : Nat) :
    ∃ mF', (central.map FreeList.ofSeq).registerSlab mF advised c start blockSize capacity =
        (mF', (central.registerSlab mS advised c start blockSize capacity).2.map FreeList.ofSeq) ∧
      Woven mF' ((central.registerSlab mS advised c start blockSize capacity).2.classLists c) ∧
      Follows (fun _ => False) mF mS mF'
        (central.registerSlab mS advised c start blockSize capacity).1 := by
  refine ⟨ClassPool.applyAdvice mF ((central.lists c).registerSlab mS.pageSize advised start
    blockSize capacity).2, ?_, ?_, ClassPool.applyAdvice_follows _⟩
  · simp only [registerSlab, lists_map, ClassPool.registerSlab_map, hp, ← map_update_lists]
  · have hw : Woven mF ((central.remoteInboxes c).pending :: ((central.lists c).registerSlab
        mS.pageSize advised start blockSize capacity).1.freeLists) :=
      ClassPool.woven_registerSlab h mS.pageSize advised start blockSize capacity
    have hpool : ((central.registerSlab mS advised c start blockSize capacity).2.lists c) =
      ((central.lists c).registerSlab mS.pageSize advised start blockSize capacity).1 :=
        Function.update_self ..
    rw [classLists, hpool]
    have hf : Follows (fun _ => False) mF mS (ClassPool.applyAdvice mF ((central.lists
      c).registerSlab mS.pageSize advised start blockSize capacity).2) (ClassPool.applyAdvice mS
        ((central.lists c).registerSlab mS.pageSize advised start blockSize capacity).2) :=
      ClassPool.applyAdvice_follows _
    exact hw.follows hf fun _ _ h => h

end CentralPool

/-! ### There and back -/

section Maps

variable {L : Type} {f : L → List Nat} {g : List Nat → L}

theorem ClassPool.map_map_eq {pool : ClassPool (List Nat)} (h : ∀ l ∈ pool.freeLists, f (g l) = l) :
    (pool.map g).map f = pool := by
  have hslabs : (pool.slabs.map (SlabRecord.map g)).map (SlabRecord.map f) = pool.slabs := by
    rw [List.map_map]
    refine map_slabs_eq fun slab hslab => ?_
    have := h slab.partialFree (List.mem_map_of_mem hslab)
    simp only [Function.comp, SlabRecord.map, this]
  simp only [ClassPool.map, hslabs]

theorem RemoteReturns.map_map_eq {returns : RemoteReturns (List Nat)}
    (h : f (g returns.pending) = returns.pending) : (returns.map g).map f = returns := by
  simp only [RemoteReturns.map, h]

theorem CentralPool.map_map_eq {central : CentralPool (List Nat)}
    (h : ∀ c, ∀ l ∈ central.classLists c, f (g l) = l) : (central.map g).map f = central := by
  have hlists : (fun c => ((central.lists c).map g).map f) = central.lists := funext fun c =>
    ClassPool.map_map_eq fun l hl => h c l (List.mem_cons_of_mem _ hl)
  have hinboxes : (fun c => ((central.remoteInboxes c).map g).map f) = central.remoteInboxes :=
    funext fun c => RemoteReturns.map_map_eq (h c _ List.mem_cons_self)
  simp only [CentralPool.map, hlists, hinboxes]

end Maps

end Orthotope
