import Orthotope.CentralPoolInvariant

/-! Transfers between the central pool and its callers, over plain sequences: what a refill takes
out of a class pool and its inbox, and what a return, a publication or a new slab puts in.  The
memory keeps its bytes; a sweep may mark pages of a cold slab as reclaimable. -/

namespace Orthotope

open ByteMemory IndexedVec BagSum

/-- The blocks that a refill hands over. -/
def CentralRefill.blocks : CentralRefill (List Nat) → List Nat
  | .empty => []
  | .batch blocks => blocks
  | .slab start blockSize capacity => slabBlocks start blockSize capacity

namespace ClassPool

variable {pool pool' : ClassPool (List Nat)}

/-- A batch of blocks that belong to slabs of the pool and are not in it is taken in as a whole. -/
theorem returnBatch_spec (inv : pool.Inv) (batch : List Nat)
    (hmem : ∀ b ∈ batch, ∃ slab ∈ pool.slabs, b ∈ slab.blocks)
    (hnd : ((batch : Multiset Nat) + pool.bag).Nodup) (m : Mem) (advised : Bool) :
    ∃ pool' range, pool.returnBatch m advised batch = some (applyAdvice m range, pool') ∧
      pool'.Inv ∧ pool'.shapes = pool.shapes ∧ pool'.bag = (batch : Multiset Nat) + pool.bag ∧
      pool'.partialBag ≤ (batch : Multiset Nat) + pool.partialBag ∧ KeepsCold pool pool' ∧
      InCold range pool' := by
  cases hb : batch with
  | nil =>
    refine ⟨pool, none, by simp [returnBatch, applyAdvice], inv, rfl, by simp, by simp,
      KeepsCold.refl _, by simp [InCold]⟩
  | cons b rest =>
    obtain ⟨mid, hrun, hinv, hshapes, hbag, hple, hcold⟩ :=
      returnBlocks_spec (bumpEpoch_inv inv) batch hmem hnd m
    have hsweep := maybeSweep_spec hinv m.pageSize advised
    refine ⟨_, (mid.maybeSweep m.pageSize advised).2, ?_, hsweep.inv, hsweep.shapes.trans hshapes,
      ?_, ?_, hcold.trans hsweep.keepsCold, hsweep.inCold⟩
    · rw [hb] at hrun
      simp only [returnBatch, seq_batchLen, List.length_cons, Nat.succ_ne_zero, if_false]
      rw [show (b :: rest).length = rest.length + 1 from rfl] at hrun
      rw [hrun]
      rfl
    · rw [hsweep.bag, hbag, hb]
      rfl
    · rw [hsweep.partialBag, ← hb]
      exact hple

/-- Full slabs stay full when blocks are returned. -/
theorem fullBag_le_of_returned {batch : List Nat}
    (hbag : pool'.bag = (batch : Multiset Nat) + pool.bag)
    (hple : pool'.partialBag ≤ (batch : Multiset Nat) + pool.partialBag) :
    pool.fullBag ≤ pool'.fullBag := by
  obtain ⟨rest, hrest⟩ := Multiset.le_iff_exists_add.mp hple
  rw [bag, bag, ← add_assoc, hrest, add_assoc] at hbag
  rw [add_left_cancel hbag]
  exact Multiset.le_add_left _ _

/-- What a refill of the class takes from the two bags. -/
def Refills (pool : ClassPool (List Nat)) (refill : CentralRefill (List Nat))
    (pool' : ClassPool (List Nat)) : Prop :=
  match refill with
  | .empty => pool.bag = 0 ∧ pool'.bag = 0
  | .batch blocks => blocks ≠ [] ∧ pool.partialBag = (blocks : Multiset Nat) + pool'.partialBag ∧
      pool'.fullBag = pool.fullBag ∧ KeepsCold pool pool'
  | .slab start blockSize capacity => 0 < blockSize ∧ 0 < capacity ∧
      (start, start + blockSize * capacity, blockSize, capacity) ∈ pool.shapes ∧
      pool'.partialBag = pool.partialBag ∧
      pool.fullBag = (slabBlocks start blockSize capacity : Multiset Nat) + pool'.fullBag ∧
      ∀ id, pool.slabState id = .fullCold → pool'.slabState id = .fullCold ∨
        pool.slabStart id = start

theorem Refills.bag {refill : CentralRefill (List Nat)} (h : Refills pool refill pool') :
    pool.bag = (refill.blocks : Multiset Nat) + pool'.bag := by
  cases refill with
  | empty => simp [CentralRefill.blocks, h.1, h.2]
  | batch blocks =>
    rw [ClassPool.bag, h.2.1, ClassPool.bag, h.2.2.1, add_assoc]
    rfl
  | slab start blockSize capacity =>
    obtain ⟨_, _, _, h1, h2, _⟩ := h
    rw [ClassPool.bag, h2, ClassPool.bag, h1, add_left_comm]
    rfl

/-- The sweep after a refill does not change what was taken. -/
theorem Refills.sweep {refill : CentralRefill (List Nat)} {range : Option (Nat × Nat)}
    {mid : ClassPool (List Nat)} (h : Refills pool refill mid) (hs : Sweeps mid pool' range) :
    Refills pool refill pool' := by
  cases refill with
  | empty => exact ⟨h.1, by rw [hs.bag, h.2]⟩
  | batch blocks =>
    exact ⟨h.1, by rw [hs.partialBag, h.2.1], by rw [hs.fullBag, h.2.2.1],
      h.2.2.2.trans hs.keepsCold⟩
  | slab start blockSize capacity =>
    obtain ⟨h1, h2, h3, h4, h5, h6⟩ := h
    exact ⟨h1, h2, h3, by rw [hs.partialBag, h4], by rw [hs.fullBag, h5], fun id hid =>
      (h6 id hid).imp (hs.keepsCold id) fun h => h⟩

/-- A slab listed in a bucket is in the state of that bucket. -/
theorem Inv.of_mem_bucket (inv : pool.Inv) {s : SlabState} (hs : s ≠ .loaned) {id : Nat}
    (h : id ∈ pool.bucket s) : ∃ slab, pool.slabs[id]? = some slab ∧ slab.state = s := by
  obtain ⟨i, hi⟩ := (inv.bucketed.slots s hs).mem_iff.mp h
  unfold slotIn at hi
  split at hi
  · rename_i hstate
    obtain ⟨slab, hslab⟩ : ∃ slab, pool.slabs[id]? = some slab :=
      ⟨_, List.getElem?_eq_getElem (lt_length_of_bucketSlot hi)⟩
    exact ⟨slab, hslab, by simpa [slabState, hslab] using hstate⟩
  · simp at hi

/-- Without listed slabs the pool is empty. -/
theorem Inv.bag_eq_zero (inv : pool.Inv) (h1 : pool.partialSlabs = []) (h2 : pool.fullHotSlabs = [])
    (h3 : pool.fullColdSlabs = []) : pool.bag = 0 := by
  rw [bag_eq_total, total_eq_zero]
  intro slab hslab
  obtain ⟨id, hid⟩ := List.mem_iff_getElem?.mp hslab
  have hstate : pool.slabState id = slab.state := by simp [slabState, hid]
  have ok := inv.slab_ok slab hslab
  -- a record in any other state would be listed in its bucket
  have hloaned : slab.state = .loaned := by
    by_contra hne
    have hcount : pool.bucket slab.state = [] := by
      cases hs : slab.state
      · exact absurd hs hne
      · exact h1
      · exact h2
      · exact h3
    have hsome : pool.bucketSlot id ≠ none := by
      rwa [Ne, ← inv.bucketed.loaned, hstate]
    obtain ⟨i, hi⟩ := Option.ne_none_iff_exists'.mp hsome
    have hslot : pool.slotIn pool.slabState slab.state id = some i := by simp [slotIn, hstate, hi]
    have := (inv.bucketed.slots slab.state hne).mem_iff.mpr ⟨i, hslot⟩
    simp [hcount] at this
  have hc := ok.counted
  simp only [SlabRecord.Counted, hloaned] at hc
  simp [SlabRecord.centralBag, SlabRecord.fullBlocks, hc.2, hloaned, SlabState.isFull]

theorem bag_eq_zero_iff : pool.bag = 0 ↔ pool.partialBag = 0 ∧ pool.fullBag = 0 := by
  rw [bag, ← Multiset.card_eq_zero, Multiset.card_add, Nat.add_eq_zero_iff, Multiset.card_eq_zero,
    Multiset.card_eq_zero]

theorem Inv.fullBag_ne_zero (inv : pool.Inv) {id : Nat} (h : pool.slabState id = .fullCold) :
    pool.fullBag ≠ 0 := by
  cases hid : pool.slabs[id]? with
  | none => simp [slabState, hid] at h
  | some slab =>
    have hstate : slab.state = .fullCold := by simpa [slabState, hid] using h
    have hmem := List.mem_of_getElem? hid
    intro hz
    have hnil := total_eq_zero.mp hz slab hmem
    have hpos := (inv.slab_ok slab hmem).capacity_pos
    have hlen := congrArg Multiset.card hnil
    simp [SlabRecord.fullBlocks, hstate, SlabState.isFull, SlabRecord.blocks] at hlen
    omega

theorem slabStart_of_shapes (h : pool'.shapes = pool.shapes) (id : Nat) :
    pool'.slabStart id = pool.slabStart id := by
  have hget := congrArg (fun l => (l[id]?.map fun s => s.1).getD 0) h
  simpa [shapes, slabStart, List.getElem?_map, Function.comp_def, SlabRecord.shape] using hget

/-- Loaning a full slab takes all its blocks out of the pool. -/
theorem loanWholeSlab_spec (inv : pool.Inv) {id : Nat} {slab : SlabRecord (List Nat)}
    (hid : pool.slabs[id]? = some slab) (hfull : slab.state.isFull = true) :
    ∃ mid, pool.loanWholeSlab id slab =
        (mid, (.slab slab.start slab.blockSize slab.capacity : CentralRefill (List Nat))) ∧
      mid.Inv ∧ mid.shapes = pool.shapes ∧
      Refills pool (.slab slab.start slab.blockSize slab.capacity) mid := by
  have hmem := List.mem_of_getElem? hid
  have hlt : id < pool.slabs.length := (List.getElem?_eq_some_iff.mp hid).1
  have ok := inv.slab_ok slab hmem
  have hnil := ok.partial_nil_of_full hfull
  let loaned : SlabRecord (List Nat) :=
    { slab with state := .loaned, centralFreeLen := 0, lastTouchedEpoch := pool.epoch }
  have hok : loaned.Ok :=
    ⟨ok.end_eq, ok.blockSize_pos, ok.capacity_pos, ⟨rfl, hnil⟩, ok.partial_mem⟩
  obtain ⟨hinv, hsame⟩ := setRecord_spec inv hid hok rfl rfl
    (show ∀ j, some id = some j → j < pool.slabs.length by simp [hlt])
  have hshapes := setRecord_shapes hid hsame rfl
  have h1 := setRecord_partialBag hid hsame
  have h2 := setRecord_fullBag hid hsame
  have hlb : loaned.fullBlocks = [] := by simp [SlabRecord.fullBlocks, SlabState.isFull, loaned]
  have hsb : slab.fullBlocks = slabBlocks slab.start slab.blockSize slab.capacity := by
    simp [SlabRecord.fullBlocks, hfull, SlabRecord.blocks]
  refine ⟨pool.setRecord id slab loaned (some id), rfl, hinv, hshapes, ok.blockSize_pos,
    ok.capacity_pos, ?_, add_right_cancel h1, ?_, fun j hj => ?_⟩
  · rw [← ok.end_eq]
    exact List.mem_map_of_mem hmem
  · rw [hlb, hsb, Multiset.coe_nil, add_zero, add_comm] at h2
    exact h2.symm
  · rw [setRecord_slabState hid hsame]
    by_cases hjid : j = id
    · subst hjid
      exact Or.inr (by simp [slabStart, hid])
    · rw [if_neg hjid]
      exact Or.inl hj

/-- Taking a batch from a slab of the partial bucket. -/
theorem takePartial_spec (inv : pool.Inv) {id : Nat} {slab : SlabRecord (List Nat)}
    (hid : pool.slabs[id]? = some slab) (hstate : slab.state = .partlyFree) {max : Nat}
    (hmax : 0 < max) (m : Mem) :
    ∃ batch slab', slab.takePartialBatch m max = some (m, batch, slab') ∧
      (pool.setRecord id slab { slab' with lastTouchedEpoch := pool.epoch } (some id)).Inv ∧
      (pool.setRecord id slab { slab' with lastTouchedEpoch := pool.epoch } (some id)).shapes =
        pool.shapes ∧
      Refills pool (.batch batch)
        (pool.setRecord id slab { slab' with lastTouchedEpoch := pool.epoch } (some id)) := by
  have hmem := List.mem_of_getElem? hid
  have hlt : id < pool.slabs.length := (List.getElem?_eq_some_iff.mp hid).1
  obtain ⟨batch, slab', hrun, ok, hshape, hslot, hfull, hne, _, hsplit⟩ :=
    (inv.slab_ok slab hmem |> slab.takePartialBatch_spec) hstate hmax m
  let touched : SlabRecord (List Nat) := { slab' with lastTouchedEpoch := pool.epoch }
  have hok : touched.Ok :=
    ⟨ok.end_eq, ok.blockSize_pos, ok.capacity_pos, ok.counted, ok.partial_mem⟩
  obtain ⟨hinv, hsame⟩ := setRecord_spec inv hid hok hshape hslot
    (show ∀ j, some id = some j → j < pool.slabs.length by simp [hlt])
  have h1 := setRecord_partialBag hid hsame
  have h2 := setRecord_fullBag hid hsame
  have hf : touched.fullBlocks = [] := by
    simp [SlabRecord.fullBlocks, show touched.state.isFull = false from hfull]
  have hf' : slab.fullBlocks = [] := by simp [SlabRecord.fullBlocks, hstate, SlabState.isFull]
  refine ⟨batch, slab', hrun, hinv, setRecord_shapes hid hsame hshape, hne, ?_, ?_,
    setRecord_keepsCold hid hsame (by rw [hstate]; decide)⟩
  · rw [hsplit, ← Multiset.coe_add, ← add_assoc] at h1
    rw [← add_right_cancel h1, add_comm]
  · rw [hf, hf'] at h2
    exact add_right_cancel h2

theorem takeRefill_spec (inv : pool.Inv) {max : Nat} (hmax : 0 < max) (m : Mem) (advised : Bool) :
    ∃ pool' refill range, pool.takeRefill m advised max =
        some (applyAdvice m range, pool', refill) ∧ pool'.Inv ∧ pool'.shapes = pool.shapes ∧
      Refills pool refill pool' ∧ InCold range pool' := by
  have hbump := bumpEpoch_inv inv
  -- whatever is taken, a sweep follows
  suffices hmid : ∃ mid refill, mid.Inv ∧ mid.shapes = pool.shapes ∧ Refills pool refill mid ∧
      pool.takeRefill m advised max =
        some (applyAdvice m (mid.maybeSweep m.pageSize advised).2,
          (mid.maybeSweep m.pageSize advised).1, refill) by
    obtain ⟨mid, refill, hinv, hshapes, hrefill, hrun⟩ := hmid
    have hsweep := maybeSweep_spec hinv m.pageSize advised
    exact ⟨_, refill, _, hrun, hsweep.inv, hsweep.shapes.trans hshapes, hrefill.sweep hsweep,
      hsweep.inCold⟩
  have hz : ¬max = 0 := by omega
  cases hpart : pool.partialSlabs.getLast? with
  | some id =>
    obtain ⟨slab, hid, hstate⟩ :=
      hbump.of_mem_bucket (s := .partlyFree) (by decide) (List.mem_of_getLast? hpart)
    have hlt : id < pool.bumpEpoch.slabs.length := (List.getElem?_eq_some_iff.mp hid).1
    obtain ⟨batch, slab', htake, hinv, hshapes, hrefill⟩ :=
      takePartial_spec hbump hid hstate hmax m
    refine ⟨_, .batch batch, hinv, hshapes, hrefill, ?_⟩
    have hid' : pool.bumpEpoch.slabs[id]? = some slab := hid
    have hpart' : pool.bumpEpoch.partialSlabs.getLast? = some id := hpart
    simp only [takeRefill, hz, if_false, hpart', hid', Option.bind_some, htake, Option.map_some,
      reconcileBucketState, setRecord, hstate]
    rw [slabState_set hlt]
  | none =>
    have hpart' : pool.bumpEpoch.partialSlabs.getLast? = none := hpart
    cases hfull : pool.bumpEpoch.fullHotSlabs.getLast?.or pool.bumpEpoch.fullColdSlabs.getLast? with
    | some id =>
      obtain ⟨slab, hid, hstate⟩ : ∃ slab, pool.bumpEpoch.slabs[id]? = some slab ∧
          slab.state.isFull = true := by
        cases hhot : pool.bumpEpoch.fullHotSlabs.getLast? with
        | some i =>
          obtain rfl : i = id := by simpa [hhot] using hfull
          obtain ⟨slab, hid, hs⟩ :=
            hbump.of_mem_bucket (s := .fullHot) (by decide) (List.mem_of_getLast? hhot)
          exact ⟨slab, hid, by simp [hs, SlabState.isFull]⟩
        | none =>
          rw [hhot, Option.none_or] at hfull
          obtain ⟨slab, hid, hs⟩ :=
            hbump.of_mem_bucket (s := .fullCold) (by decide) (List.mem_of_getLast? hfull)
          exact ⟨slab, hid, by simp [hs, SlabState.isFull]⟩
      obtain ⟨mid, hloan, hinv, hshapes, hrefill⟩ := loanWholeSlab_spec hbump hid hstate
      refine ⟨mid, .slab slab.start slab.blockSize slab.capacity, hinv, hshapes, hrefill, ?_⟩
      simp only [takeRefill, hz, if_false, hpart', hfull, hid, Option.map_some, hloan]
    | none =>
      obtain ⟨hhot, hcold⟩ := Option.or_eq_none_iff.mp hfull
      have hzero := inv.bag_eq_zero (List.getLast?_eq_none_iff.mp hpart)
        (List.getLast?_eq_none_iff.mp hhot) (List.getLast?_eq_none_iff.mp hcold)
      refine ⟨pool.bumpEpoch, .empty, hbump, rfl, ⟨hzero, hzero⟩, ?_⟩
      simp only [takeRefill, hz, if_false, hpart', hfull]

/-- A refill gives no more blocks than were asked for, unless it gives a whole slab. -/
theorem takeRefill_length {pool pool' : ClassPool (List Nat)} {m m' : Mem} {advised : Bool}
    {max : Nat} {blocks : List Nat}
    (h : pool.takeRefill m advised max = some (m', pool', .batch blocks)) :
    blocks.length ≤ max := by
  unfold takeRefill at h
  split at h
  · cases h
  · simp only at h
    split at h
    · obtain ⟨slab, -, h⟩ := Option.bind_eq_some_iff.mp h
      obtain ⟨⟨m₁, batch, slab'⟩, htake, h⟩ := Option.map_eq_some_iff.mp h
      unfold SlabRecord.takePartialBatch at htake
      obtain ⟨⟨m₂, batch', rest⟩, hpop, htake⟩ := Option.map_eq_some_iff.mp htake
      simp only [seq_popBatchUnchecked] at hpop
      split at hpop
      · cases hpop
      · simp only [Option.some.injEq, Prod.mk.injEq] at hpop htake h
        obtain ⟨-, rfl, -⟩ := hpop
        obtain ⟨-, rfl, -⟩ := htake
        obtain rfl := CentralRefill.batch.inj h.2.2
        exact List.length_take_le ..
    · split at h
      · obtain ⟨slab, -, h⟩ := Option.map_eq_some_iff.mp h
        simp only [Prod.mk.injEq] at h
        cases h.2.2
      · simp only [Option.some.injEq, Prod.mk.injEq] at h
        cases h.2.2

/-- A span that is disjoint from every slab becomes a slab of its own, all of it on loan. -/
theorem registerSlab_spec (inv : pool.Inv) {start blockSize capacity : Nat} (hb : 0 < blockSize)
    (hc : 0 < capacity)
    (hdisj : ∀ slab ∈ pool.slabs,
      slab.endAddr ≤ start ∨ start + blockSize * capacity ≤ slab.start)
    (pageSize : Nat) (advised : Bool) :
    ∃ pool' range, pool.registerSlab pageSize advised start blockSize capacity = (pool', range) ∧
      pool'.Inv ∧
      pool'.shapes = pool.shapes ++ [(start, start + blockSize * capacity, blockSize, capacity)] ∧
      pool'.partialBag = pool.partialBag ∧ pool'.fullBag = pool.fullBag ∧ KeepsCold pool pool' ∧
      InCold range pool' := by
  have hbump := bumpEpoch_inv inv
  have hpos : 0 < blockSize * capacity := Nat.mul_pos hb hc
  -- no slab starts where this one does
  cases hsearch : binarySearchByKey pool.bumpEpoch.slabStart start pool.bumpEpoch.slabsByStart with
  | ok slot =>
    obtain ⟨id, hslot, hstart⟩ := SortedIndex.search_ok hsearch
    have hlt : id < pool.slabs.length := (inv.index.mem id).mp (List.mem_of_getElem? hslot)
    obtain ⟨slab, hid⟩ : ∃ slab, pool.slabs[id]? = some slab := ⟨_, List.getElem?_eq_getElem hlt⟩
    have hkey : slab.start = start := by simpa [slabStart, bumpEpoch, hid] using hstart
    have hmem := List.mem_of_getElem? hid
    have ok := inv.slab_ok slab hmem
    have hpos' := Nat.mul_pos ok.blockSize_pos ok.capacity_pos
    have hend := ok.end_eq
    rcases hdisj slab hmem with h | h <;> omega
  | error slot =>
    let slab : SlabRecord (List Nat) :=
      SlabRecord.new start blockSize capacity pool.bumpEpoch.epoch
    let mid := { pool.bumpEpoch with
      slabs := pool.slabs ++ [slab]
      slabsByStart := pool.slabsByStart.insertIdx slot pool.slabs.length
      recentSlab := some pool.slabs.length }
    have hget : ∀ j, j ≠ pool.slabs.length → mid.slabs[j]? = pool.slabs[j]? := by
      intro j hj
      rcases Nat.lt_or_gt_of_ne hj with h | h
      · exact List.getElem?_append_left h
      · rw [List.getElem?_eq_none (by simp [mid]; omega), List.getElem?_eq_none (by omega)]
    have hgot : mid.slabs[pool.slabs.length]? = some slab := by simp [mid]
    have hout : pool.slabs[pool.slabs.length]? = none := by simp
    have hslots : ∀ j, mid.bucketSlot j = pool.bucketSlot j := by
      intro j
      by_cases hj : j = pool.slabs.length
      · subst hj
        simp [bucketSlot, hgot, slab, SlabRecord.new]
      · simp only [bucketSlot, hget j hj]
    have hstates : ∀ j, mid.slabState j = pool.slabState j := by
      intro j
      by_cases hj : j = pool.slabs.length
      · subst hj
        simp [slabState, hgot, slab, SlabRecord.new]
      · simp only [slabState, hget j hj]
    have hinv : mid.Inv := by
      refine ⟨fun x hx => ?_, ⟨fun s hs => ?_, fun j => ?_⟩, ?_, ?_, fun j hj => ?_⟩
      · rcases List.mem_append.mp hx with hx | hx
        · exact inv.slab_ok x hx
        · rw [List.mem_singleton.mp hx]
          exact ⟨rfl, hb, hc, ⟨rfl, rfl⟩, by simp [slab, SlabRecord.new]⟩
      · have hsame : Slots (pool.bucket s) (mid.slotIn mid.slabState s) :=
          (inv.bucketed.slots s hs).congr fun j => by simp only [slotIn, hslots, hstates]
        cases s <;> exact hsame
      · rw [hslots, hstates, inv.bucketed.loaned]
      · rw [show mid.slabs.length = pool.slabs.length + 1 by simp [mid]]
        refine (hbump.index.search_error hsearch).2 mid.slabStart (fun j hj => ?_) ?_
        · simp only [slabStart, hget j (Nat.ne_of_lt hj)]
          rfl
        · have hlen : pool.bumpEpoch.slabs.length = pool.slabs.length := rfl
          simp [slabStart, hlen, hgot, slab, SlabRecord.new]
      · refine List.pairwise_append.mpr ⟨inv.disjoint,
          List.pairwise_singleton _ _, fun x hx y hy => ?_⟩
        rw [List.mem_singleton.mp hy]
        exact hdisj x hx
      · have hj : pool.slabs.length = j := Option.some.inj hj
        simp [mid, ← hj]
    have hsweep := maybeSweep_spec hinv pageSize advised
    have hshape : slab.shape = (start, start + blockSize * capacity, blockSize, capacity) := rfl
    refine ⟨_, _, ?_, hsweep.inv, ?_, ?_, ?_, fun j hj => ?_, hsweep.inCold⟩
    · simp only [registerSlab, hsearch]
      rfl
    · rw [hsweep.shapes]
      simp [shapes, mid, hshape]
    · rw [hsweep.partialBag]
      simp [partialBag, mid, slab, SlabRecord.new]
    · rw [hsweep.fullBag]
      simp [fullBag, mid, slab, SlabRecord.new, SlabRecord.fullBlocks, SlabState.isFull]
    · exact hsweep.keepsCold j (by rw [hstates, hj])

/-- A byte of a slab all of whose blocks are in `raw`. -/
def InSlabOf (raw : Multiset Nat) (shapes : List (Nat × Nat × Nat × Nat)) (x : Nat) : Prop :=
  ∃ s ∈ shapes, s.1 ≤ x ∧ x < s.2.1 ∧ ∀ b ∈ slabBlocks s.1 s.2.2.1 s.2.2.2, b ∈ raw

theorem InSlabOf.mono {raw raw' : Multiset Nat} {shapes : List (Nat × Nat × Nat × Nat)} {x : Nat}
    (h : InSlabOf raw shapes x) (hr : ∀ b ∈ raw, b ∈ raw') : InSlabOf raw' shapes x := by
  obtain ⟨s, hs, h1, h2, hb⟩ := h
  exact ⟨s, hs, h1, h2, fun b hbs => hr b (hb b hbs)⟩

theorem givesUp_applyAdvice {range : Option (Nat × Nat)} (h : InCold range pool) {m : Mem}
    (hp : 0 < m.pageSize) :
    GivesUp (InSlabOf pool.fullBag pool.shapes) m (applyAdvice m range) := by
  cases range with
  | none => exact GivesUp.refl _ _
  | some r =>
    obtain ⟨addr, len⟩ := r
    obtain ⟨slab, hslab, hstate, hlo, hhi⟩ := h addr len rfl
    refine GivesUp.advise hp fun x h1 h2 => ⟨slab.shape, List.mem_map_of_mem hslab, ?_, ?_, ?_⟩
    · exact hlo.trans h1
    · exact h2.trans_le hhi
    · intro b hb
      refine mem_total.mpr ⟨slab, hslab, ?_⟩
      have hb : b ∈ slab.blocks := hb
      simpa [SlabRecord.fullBlocks, hstate, SlabState.isFull] using hb

end ClassPool

/-! ### The lock sections -/

namespace RemoteReturns

def Ok (returns : RemoteReturns (List Nat)) : Prop := returns.pendingLen = returns.pending.length

theorem new_ok : (new : RemoteReturns (List Nat)).Ok := rfl

variable {returns : RemoteReturns (List Nat)}

theorem isEmpty_iff (ok : returns.Ok) : returns.isEmpty = true ↔ returns.pending = [] := by
  have hlen : returns.pendingLen = returns.pending.length := ok
  simp [isEmpty, hlen]

theorem takeAllUnchecked_spec (ok : returns.Ok) (h : returns.pending ≠ []) (m : Mem) :
    returns.takeAllUnchecked m = some (m, returns.pending, ⟨[], 0⟩) := by
  have hlen : returns.pendingLen ≠ 0 := by
    rw [ok]
    simpa using h
  have heq : returns.pendingLen = returns.pending.length := ok
  simp [takeAllUnchecked, h, heq]

theorem takePending_spec (ok : returns.Ok) (m : Mem) :
    returns.takePending m = some (m, returns.pending, ⟨[], 0⟩) := by
  by_cases h : returns.pending = []
  · have hlen : returns.pendingLen = 0 := by
      rw [ok, h]
      rfl
    obtain ⟨pending, pendingLen⟩ := returns
    simp only at h hlen
    simp [takePending, h, hlen]
  · have hlen : returns.pendingLen ≠ 0 := by
      rw [ok]
      simpa using h
    simp [takePending, hlen, takeAllUnchecked_spec ok h]

end RemoteReturns

namespace CentralPool

variable {central central' : CentralPool (List Nat)} {c : SizeClass} {m : Mem}

def inboxBag (central : CentralPool (List Nat)) (c : SizeClass) : Multiset Nat :=
  ((central.remoteInboxes c).pending : Multiset Nat)

/-- The blocks of a class in the pool and in its inbox. -/
def freeBag (central : CentralPool (List Nat)) (c : SizeClass) : Multiset Nat :=
  central.inboxBag c + (central.lists c).bag

structure Inv (central : CentralPool (List Nat)) (c : SizeClass) : Prop where
  pool : (central.lists c).Inv
  inbox : (central.remoteInboxes c).Ok

/-- Only class `c` changes. -/
structure OnlyClass (c : SizeClass) (central central' : CentralPool (List Nat)) : Prop where
  lists : ∀ d, d ≠ c → central'.lists d = central.lists d
  inboxes : ∀ d, d ≠ c → central'.remoteInboxes d = central.remoteInboxes d

theorem OnlyClass.freeBag_eq {d : SizeClass} (h : OnlyClass c central central') (hd : d ≠ c) :
    central'.freeBag d = central.freeBag d := by
  unfold freeBag inboxBag
  rw [h.lists d hd, h.inboxes d hd]

/-- The inbox holds blocks of the class that are not in the pool. -/
structure InboxOk (central : CentralPool (List Nat)) (c : SizeClass) : Prop where
  mem : ∀ b ∈ central.inboxBag c, ∃ slab ∈ (central.lists c).slabs, b ∈ slab.blocks
  nodup : (central.inboxBag c + (central.lists c).bag).Nodup

/-- The inbox is folded into the pool. -/
theorem drainRemoteInbox_spec (inv : central.Inv c) (hin : central.InboxOk c)
    (hp : 0 < m.pageSize) (advised : Bool) :
    ∃ m' central', central.drainRemoteInbox m advised c = some (m', central') ∧ central'.Inv c ∧
      OnlyClass c central central' ∧ (central'.lists c).shapes = (central.lists c).shapes ∧
      central'.inboxBag c = 0 ∧
      (central'.lists c).bag = central.inboxBag c + (central.lists c).bag ∧
      (central'.lists c).partialBag ≤ central.inboxBag c + (central.lists c).partialBag ∧
      ClassPool.KeepsCold (central.lists c) (central'.lists c) ∧
      GivesUp (ClassPool.InSlabOf (central'.lists c).fullBag (central'.lists c).shapes) m m' := by
  let mid : CentralPool (List Nat) :=
    { central with remoteInboxes := Function.update central.remoteInboxes c ⟨[], 0⟩ }
  have htake := (central.remoteInboxes c).takePending_spec inv.inbox m
  by_cases hempty : (central.remoteInboxes c).pending = []
  · refine ⟨m, mid, by simp [drainRemoteInbox, htake, hempty, mid], ⟨inv.pool, ?_⟩,
      ⟨fun _ _ => rfl, fun d hd => Function.update_of_ne hd _ _⟩, rfl, ?_, ?_, ?_,
      ClassPool.KeepsCold.refl _, GivesUp.refl _ _⟩
    · simp [mid, RemoteReturns.Ok]
    · simp [inboxBag, mid]
    · simp [inboxBag, mid, hempty]
    · simp [inboxBag, mid, hempty]
  · obtain ⟨pool', range, hrun, hinv, hshapes, hbag, hple, hcold, hin'⟩ :=
      ClassPool.returnBatch_spec inv.pool (central.remoteInboxes c).pending hin.mem hin.nodup m
        advised
    refine ⟨ClassPool.applyAdvice m range, { mid with lists := Function.update mid.lists c pool' },
      ?_, ⟨?_, ?_⟩,
      ⟨fun d hd => Function.update_of_ne hd _ _, fun d hd => Function.update_of_ne hd _ _⟩,
      ?_, ?_, ?_, ?_, ?_, ?_⟩
    · simp only [drainRemoteInbox, htake, Option.bind_some, seq_batchIsEmpty,
        List.isEmpty_iff, hempty, if_false, hrun, Option.map_some]
      rfl
    · simpa using hinv
    · simp [mid, RemoteReturns.Ok]
    · simpa using hshapes
    · simp [inboxBag, mid]
    · simpa [inboxBag] using hbag
    · simpa [inboxBag] using hple
    · simpa using hcold
    · simpa using ClassPool.givesUp_applyAdvice hin' hp

/-- The raw blocks after a refill: those of full slabs, and of the slab handed over. -/
def rawAfter (central : CentralPool (List Nat)) (c : SizeClass) :
    CentralRefill (List Nat) → Multiset Nat
  | .slab start blockSize capacity =>
    (slabBlocks start blockSize capacity : Multiset Nat) + (central.lists c).fullBag
  | _ => (central.lists c).fullBag

/-- What a refill does to the class it is taken from. -/
structure Refilled (c : SizeClass) (m m' : Mem) (central central' : CentralPool (List Nat))
    (refill : CentralRefill (List Nat)) : Prop where
  inv : central'.Inv c
  only : OnlyClass c central central'
  shapes : (central'.lists c).shapes = (central.lists c).shapes
  inbox : central'.inboxBag c = 0
  bag : central.inboxBag c + (central.lists c).bag =
    (refill.blocks : Multiset Nat) + (central'.lists c).bag
  ofEmpty : refill = .empty → (central'.lists c).bag = 0
  ofBatch : ∀ blocks, refill = .batch blocks → blocks ≠ [] ∧
    (blocks : Multiset Nat) + (central'.lists c).partialBag ≤
      central.inboxBag c + (central.lists c).partialBag
  ofSlab : ∀ start blockSize capacity, refill = .slab start blockSize capacity →
    0 < blockSize ∧ 0 < capacity ∧
      (start, start + blockSize * capacity, blockSize, capacity) ∈ (central.lists c).shapes
  partialBag : (central'.lists c).partialBag ≤ central.inboxBag c + (central.lists c).partialBag
  cold : ∀ id, (central.lists c).slabState id = .fullCold →
    (central'.lists c).slabState id = .fullCold ∨ ∃ start blockSize capacity,
      refill = .slab start blockSize capacity ∧ (central.lists c).slabStart id = start
  givesUp : GivesUp (ClassPool.InSlabOf (central'.rawAfter c refill) (central'.lists c).shapes) m m'

theorem Refilled.freeBag {m' : Mem} {refill : CentralRefill (List Nat)}
    (h : Refilled c m m' central central' refill) :
    central.freeBag c = (refill.blocks : Multiset Nat) + central'.freeBag c := by
  unfold CentralPool.freeBag
  rw [h.bag, h.inbox, zero_add]

theorem takeRefill_spec (inv : central.Inv c) (hin : central.InboxOk c) (hp : 0 < m.pageSize)
    {max : Nat} (hmax : 0 < max) (advised : Bool × Bool) :
    ∃ m' central' refill, central.takeRefill m advised c max = some (m', central', refill) ∧
      Refilled c m m' central central' refill := by
  obtain ⟨m₁, mid, hdrain, hinv₁, honly₁, hshapes₁, hinbox₁, hbag₁, hple₁, hcold₁, hgive₁⟩ :=
    drainRemoteInbox_spec inv hin hp advised.1
  obtain ⟨pool', refill, range, hrun, hinv₂, hshapes₂, hrefill, hin₂⟩ :=
    ClassPool.takeRefill_spec hinv₁.pool hmax m₁ advised.2
  have hp₁ : 0 < m₁.pageSize := by rwa [hgive₁.pageSize]
  have hgive₂ := ClassPool.givesUp_applyAdvice hin₂ hp₁
  -- the blocks of full slabs stay in full slabs or leave with the slab handed over
  have hraw : ∀ b, b ∈ (mid.lists c).fullBag →
      b ∈ rawAfter { mid with lists := Function.update mid.lists c pool' } c refill := by
    intro b hb
    cases refill with
    | empty =>
      have hz : (mid.lists c).fullBag = 0 := by
        have := hrefill.1
        rw [ClassPool.bag_eq_zero_iff] at this
        exact this.2
      simp [hz] at hb
    | batch blocks => simpa [rawAfter, hrefill.2.2.1] using hb
    | slab start blockSize capacity =>
      rw [hrefill.2.2.2.2.1] at hb
      simpa [rawAfter] using hb
  have hraw' : ∀ b, b ∈ pool'.fullBag →
      b ∈ rawAfter { mid with lists := Function.update mid.lists c pool' } c refill := by
    intro b hb
    cases refill with
    | empty => simpa [rawAfter] using hb
    | batch blocks => simpa [rawAfter] using hb
    | slab start blockSize capacity => simp [rawAfter, hb]
  refine ⟨ClassPool.applyAdvice m₁ range, { mid with lists := Function.update mid.lists c pool' },
    refill, by simp [takeRefill, hdrain, hrun], ?_⟩
  constructor
  case inv => exact ⟨by simpa using hinv₂, hinv₁.inbox⟩
  case only =>
    exact ⟨fun d hd => by simpa [Function.update_of_ne hd] using honly₁.lists d hd, honly₁.inboxes⟩
  case shapes => simpa using hshapes₂.trans hshapes₁
  case inbox => exact hinbox₁
  case bag =>
    rw [← hbag₁, hrefill.bag]
    simp
  case ofEmpty =>
    rintro rfl
    simpa using hrefill.2
  case ofBatch =>
    rintro blocks rfl
    refine ⟨hrefill.1, ?_⟩
    have hsplit := hrefill.2.1
    simp only [Function.update_self]
    rw [← hsplit]
    exact hple₁
  case ofSlab =>
    rintro start blockSize capacity rfl
    exact ⟨hrefill.1, hrefill.2.1, hshapes₁ ▸ hrefill.2.2.1⟩
  case partialBag =>
    refine le_trans ?_ hple₁
    simp only [Function.update_self]
    cases refill with
    | empty =>
      have := hrefill.2
      rw [ClassPool.bag_eq_zero_iff] at this
      rw [this.1]
      exact Multiset.zero_le _
    | batch blocks =>
      rw [hrefill.2.1]
      exact Multiset.le_add_left _ _
    | slab start blockSize capacity => rw [hrefill.2.2.2.1]
  case cold =>
    intro id hid
    have hmid := hcold₁ id hid
    simp only [Function.update_self]
    cases refill with
    | empty =>
      have := hrefill.1
      rw [ClassPool.bag_eq_zero_iff] at this
      exact absurd this.2 (hinv₁.pool.fullBag_ne_zero hmid)
    | batch blocks => exact Or.inl (hrefill.2.2.2 id hmid)
    | slab start blockSize capacity =>
      refine (hrefill.2.2.2.2.2 id hmid).imp_right fun h => ⟨start, blockSize, capacity, rfl, ?_⟩
      rw [← h, ClassPool.slabStart_of_shapes hshapes₁]
  case givesUp =>
    have hsh : ({ mid with lists := Function.update mid.lists c pool' }.lists c).shapes =
        (mid.lists c).shapes := by simpa using hshapes₂
    refine GivesUp.trans (hgive₁.mono fun x hx => ?_) (hgive₂.mono fun x hx => ?_)
    · rw [hsh]
      exact hx.mono hraw
    · rw [hsh, ← hshapes₂]
      exact hx.mono hraw'

theorem takeRefill_length {m' : Mem} {advised : Bool × Bool} {max : Nat} {blocks : List Nat}
    (h : central.takeRefill m advised c max = some (m', central', .batch blocks)) :
    blocks.length ≤ max := by
  unfold takeRefill at h
  obtain ⟨⟨m₁, central₁⟩, -, h⟩ := Option.bind_eq_some_iff.mp h
  obtain ⟨⟨m₂, pool, refill⟩, htake, h⟩ := Option.map_eq_some_iff.mp h
  simp only [Prod.mk.injEq] at h
  obtain ⟨-, -, rfl⟩ := h
  exact ClassPool.takeRefill_length htake

/-- What a return does to its class: the batch and the inbox enter the pool. -/
structure Returned (c : SizeClass) (m m' : Mem) (central central' : CentralPool (List Nat))
    (batch : List Nat) : Prop where
  inv : central'.Inv c
  only : OnlyClass c central central'
  shapes : (central'.lists c).shapes = (central.lists c).shapes
  inbox : central'.inboxBag c = 0
  bag : (central'.lists c).bag =
    (batch : Multiset Nat) + (central.inboxBag c + (central.lists c).bag)
  partialBag : (central'.lists c).partialBag ≤
    (batch : Multiset Nat) + (central.inboxBag c + (central.lists c).partialBag)
  cold : ClassPool.KeepsCold (central.lists c) (central'.lists c)
  givesUp : GivesUp (ClassPool.InSlabOf (central'.lists c).fullBag (central'.lists c).shapes) m m'

theorem slabBlocks_of_shapes {pool pool' : ClassPool (List Nat)} (h : pool'.shapes = pool.shapes)
    {b : Nat} (hb : ∃ slab ∈ pool.slabs, b ∈ slab.blocks) :
    ∃ slab ∈ pool'.slabs, b ∈ slab.blocks := by
  obtain ⟨slab, hslab, hb⟩ := hb
  have hmem : slab.shape ∈ pool'.shapes := by
    rw [h]
    exact List.mem_map_of_mem hslab
  obtain ⟨slab', hslab', heq⟩ := List.mem_map.mp hmem
  refine ⟨slab', hslab', ?_⟩
  simp only [SlabRecord.shape, Prod.mk.injEq] at heq
  simpa [SlabRecord.blocks, heq.1, heq.2.2.1, heq.2.2.2] using hb

theorem returnBatch_spec (inv : central.Inv c) (hin : central.InboxOk c) (hp : 0 < m.pageSize)
    {batch : List Nat} (hmem : ∀ b ∈ batch, ∃ slab ∈ (central.lists c).slabs, b ∈ slab.blocks)
    (hnd : ((batch : Multiset Nat) + (central.inboxBag c + (central.lists c).bag)).Nodup)
    (advised : Bool × Bool) :
    ∃ m' central', central.returnBatch m advised c batch = some (m', central') ∧
      Returned c m m' central central' batch := by
  obtain ⟨m₁, mid, hdrain, hinv₁, honly₁, hshapes₁, hinbox₁, hbag₁, hple₁, hcold₁, hgive₁⟩ :=
    drainRemoteInbox_spec inv hin hp advised.1
  obtain ⟨pool', range, hrun, hinv₂, hshapes₂, hbag₂, hple₂, hcold₂, hin₂⟩ :=
    ClassPool.returnBatch_spec hinv₁.pool batch
      (fun b hb => slabBlocks_of_shapes hshapes₁ (hmem b hb)) (by rwa [hbag₁]) m₁ advised.2
  have hp₁ : 0 < m₁.pageSize := by rwa [hgive₁.pageSize]
  have hgive₂ := ClassPool.givesUp_applyAdvice hin₂ hp₁
  refine ⟨ClassPool.applyAdvice m₁ range, { mid with lists := Function.update mid.lists c pool' },
    by simp [returnBatch, hdrain, hrun], ?_⟩
  constructor
  case inv => exact ⟨by simpa using hinv₂, hinv₁.inbox⟩
  case only =>
    exact ⟨fun d hd => by simpa [Function.update_of_ne hd] using honly₁.lists d hd, honly₁.inboxes⟩
  case shapes => simpa using hshapes₂.trans hshapes₁
  case inbox => exact hinbox₁
  case bag => simpa [← hbag₁] using hbag₂
  case partialBag =>
    simp only [Function.update_self]
    exact hple₂.trans (by gcongr)
  case cold => simpa using hcold₁.trans hcold₂
  case givesUp =>
    simp only [Function.update_self]
    refine GivesUp.trans (hgive₁.mono fun x hx => ?_) hgive₂
    rw [hshapes₂]
    exact hx.mono fun b hb => Multiset.mem_of_le (ClassPool.fullBag_le_of_returned hbag₂ hple₂) hb

/-- A published batch waits in the inbox. -/
theorem publishRemoteBatch_spec (inv : central.Inv c) (batch : List Nat) :
    ∃ central', central.publishRemoteBatch m c batch = some (m, central') ∧ central'.Inv c ∧
      OnlyClass c central central' ∧ central'.lists = central.lists ∧
      central'.inboxBag c = (batch : Multiset Nat) + central.inboxBag c := by
  have hlen : (central.remoteInboxes c).pendingLen = (central.remoteInboxes c).pending.length :=
    inv.inbox
  by_cases hb : batch = []
  · refine ⟨central, ?_, inv, ⟨fun _ _ => rfl, fun _ _ => rfl⟩, rfl, by simp [hb]⟩
    simp [publishRemoteBatch, RemoteReturns.pushBatch, hb]
  · let inbox : RemoteReturns (List Nat) := ⟨batch ++ (central.remoteInboxes c).pending,
      (central.remoteInboxes c).pendingLen + batch.length⟩
    refine ⟨{ central with remoteInboxes := Function.update central.remoteInboxes c inbox }, ?_,
      ⟨inv.pool, ?_⟩, ⟨fun _ _ => rfl, fun d hd => Function.update_of_ne hd _ _⟩, rfl, ?_⟩
    · simp [publishRemoteBatch, RemoteReturns.pushBatch, hb, inbox]
    · simp [RemoteReturns.Ok, hlen, Nat.add_comm, inbox]
    · simp [inboxBag, inbox]

/-- What registering a slab does to its class. -/
structure Registered (c : SizeClass) (m m' : Mem) (central central' : CentralPool (List Nat))
    (start blockSize capacity : Nat) : Prop where
  inv : central'.Inv c
  only : OnlyClass c central central'
  shapes : (central'.lists c).shapes = (central.lists c).shapes ++
    [(start, start + blockSize * capacity, blockSize, capacity)]
  inbox : central'.remoteInboxes = central.remoteInboxes
  partialBag : (central'.lists c).partialBag = (central.lists c).partialBag
  fullBag : (central'.lists c).fullBag = (central.lists c).fullBag
  cold : ClassPool.KeepsCold (central.lists c) (central'.lists c)
  givesUp : GivesUp (ClassPool.InSlabOf (central'.lists c).fullBag (central'.lists c).shapes) m m'

theorem registerSlab_spec (inv : central.Inv c) (hp : 0 < m.pageSize)
    {start blockSize capacity : Nat} (hb : 0 < blockSize) (hc : 0 < capacity)
    (hdisj : ∀ slab ∈ (central.lists c).slabs,
      slab.endAddr ≤ start ∨ start + blockSize * capacity ≤ slab.start) (advised : Bool) :
    ∃ m' central', central.registerSlab m advised c start blockSize capacity = (m', central') ∧
      Registered c m m' central central' start blockSize capacity := by
  obtain ⟨pool', range, hrun, hinv, hshapes, hpart, hfull, hcold, hin⟩ :=
    ClassPool.registerSlab_spec inv.pool hb hc hdisj m.pageSize advised
  refine ⟨ClassPool.applyAdvice m range,
    { central with lists := Function.update central.lists c pool' },
    by simp [registerSlab, hrun], ?_⟩
  constructor
  case inv => exact ⟨by simpa using hinv, inv.inbox⟩
  case only => exact ⟨fun d hd => Function.update_of_ne hd _ _, fun _ _ => rfl⟩
  case shapes => simpa using hshapes
  case inbox => rfl
  case partialBag => simpa using hpart
  case fullBag => simpa using hfull
  case cold => simpa using hcold
  case givesUp => simpa using ClassPool.givesUp_applyAdvice hin hp

end CentralPool

end Orthotope
