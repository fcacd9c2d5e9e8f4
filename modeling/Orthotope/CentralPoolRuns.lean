import Orthotope.CentralPoolLinks
import Orthotope.Lib.StepSystem
import Mathlib.Logic.Relation

/-! Runs of one class of the central pool, on the code's own lists.  A run is any sequence of slab
registrations, returns, remote publications and refills that respects who owns which block, with
writes of the owners to their blocks in between.  Every state it reaches is well formed, and every
request is served and changes the bag of free blocks by its own blocks. -/

namespace Orthotope

open ByteMemory LinkedChain IndexedVec BagSum

/-! ### The sweep cursor -/

namespace ClassPool

variable {L : Type} {pool pool' : ClassPool L}

/-- The cursor is a place of the hot bucket, or zero when that is empty. -/
def CursorOk (pool : ClassPool L) : Prop :=
  pool.sweepCursor = 0 ∨ pool.sweepCursor < pool.fullHotSlabs.length

theorem CursorOk.congr (h : pool.CursorOk) (hcursor : pool'.sweepCursor = pool.sweepCursor)
    (hhot : pool'.fullHotSlabs = pool.fullHotSlabs) : pool'.CursorOk := by
  unfold CursorOk
  rwa [hcursor, hhot]

theorem cursorOk_normalize (pool : ClassPool L) : pool.normalizeSweepCursor.CursorOk := by
  cases hhot : pool.fullHotSlabs with
  | nil => exact Or.inl (by simp [normalizeSweepCursor, hhot])
  | cons id ids =>
    have hpos : 0 < (id :: ids).length := Nat.succ_pos _
    apply Or.inr
    simp only [normalizeSweepCursor, hhot]
    exact Nat.mod_lt _ hpos

/-- The records of the slabs and the recent one do not matter. -/
theorem CursorOk.records (h : pool.CursorOk) (slabs : List (SlabRecord L))
    (recentSlab : Option Nat) :
    { pool with slabs, recentSlab }.CursorOk :=
  h

theorem CursorOk.bumpEpoch (h : pool.CursorOk) : pool.bumpEpoch.CursorOk := h

theorem CursorOk.setBucketSlot (h : pool.CursorOk) (id : Nat) (slot : Option Nat) :
    (pool.setBucketSlot id slot).CursorOk :=
  h.records _ _

theorem CursorOk.removeFromBucket (h : pool.CursorOk) (id : Nat) (state : SlabState) :
    (pool.removeFromBucket id state).CursorOk := by
  unfold ClassPool.removeFromBucket
  cases pool.bucketSlot id with
  | none => exact h
  | some slot =>
    dsimp only
    split
    · exact h.setBucketSlot id none
    · exact cursorOk_normalize _

theorem CursorOk.addToBucket (h : pool.CursorOk) (id : Nat) (state : SlabState) :
    (pool.addToBucket id state).CursorOk := by
  unfold ClassPool.addToBucket
  split
  · exact h.setBucketSlot id none
  · exact cursorOk_normalize _

theorem CursorOk.reconcileBucketTransition (h : pool.CursorOk) (id : Nat)
    (previous next : SlabState) : (pool.reconcileBucketTransition id previous next).CursorOk := by
  unfold ClassPool.reconcileBucketTransition
  split
  · exact h
  · exact (h.removeFromBucket id previous).addToBucket id next

/-- The scan goes round the hot bucket, whose length is `total`. -/
theorem CursorOk.sweepScan {pageSize total budget : Nat} {advised : Bool} (h : pool.CursorOk)
    (htotal : total = pool.fullHotSlabs.length) :
    (pool.sweepScan pageSize advised total budget).1.CursorOk := by
  induction budget generalizing pool with
  | zero => exact h
  | succ budget ih =>
    unfold ClassPool.sweepScan
    simp only
    split
    · exact h
    · rename_i id hid
      have hpos : 0 < total := by
        obtain ⟨hlt, -⟩ := List.getElem?_eq_some_iff.mp hid
        omega
      have hmoved : ({ pool with sweepCursor := (pool.sweepCursor % total + 1) % total } :
          ClassPool L).CursorOk := Or.inr (htotal ▸ Nat.mod_lt _ hpos)
      split
      · exact hmoved
      · split
        · exact ih hmoved htotal
        · split
          · exact ih hmoved htotal
          · split
            · exact (hmoved.records _ _).reconcileBucketTransition id _ _
            · exact hmoved

theorem CursorOk.maybeSweep (h : pool.CursorOk) (pageSize : Nat) (advised : Bool) :
    (pool.maybeSweep pageSize advised).1.CursorOk := by
  unfold ClassPool.maybeSweep
  split
  · exact h
  · exact h.sweepScan rfl

theorem CursorOk.registerSlab [BlockList L] (h : pool.CursorOk) (pageSize : Nat) (advised : Bool)
    (start blockSize capacity : Nat) :
    (pool.registerSlab pageSize advised start blockSize capacity).1.CursorOk := by
  unfold ClassPool.registerSlab
  refine CursorOk.maybeSweep ?_ pageSize advised
  split <;> exact h.bumpEpoch.congr rfl rfl

variable {B : Type} [BlockStore L B] {m m' : Mem} {advised : Bool}

theorem CursorOk.returnBlocks {n : Nat} {batch : B} (h : pool.CursorOk)
    (hrun : ClassPool.returnBlocks m n pool batch = some (m', pool')) : pool'.CursorOk := by
  induction n generalizing m pool batch with
  | zero =>
    obtain ⟨-, rfl⟩ := Prod.mk.inj (Option.some.inj hrun)
    exact h
  | succ n ih =>
    obtain ⟨r, -, hrun⟩ := Option.bind_eq_some_iff.mp hrun
    obtain ⟨id, -, hrun⟩ := Option.bind_eq_some_iff.mp hrun
    obtain ⟨slab, -, hrun⟩ := Option.bind_eq_some_iff.mp hrun
    exact ih ((h.records _ _).reconcileBucketTransition id _ _) hrun

theorem CursorOk.returnBatch {batch : B} (h : pool.CursorOk)
    (hrun : pool.returnBatch m advised batch = some (m', pool')) : pool'.CursorOk := by
  unfold ClassPool.returnBatch at hrun
  split at hrun
  · obtain ⟨-, rfl⟩ := Prod.mk.inj (Option.some.inj hrun)
    exact h
  · obtain ⟨r, hblocks, hrun⟩ := Option.map_eq_some_iff.mp hrun
    obtain ⟨-, rfl⟩ := Prod.mk.inj hrun
    exact (h.bumpEpoch.returnBlocks hblocks).maybeSweep _ _

theorem CursorOk.takeRefill {max : Nat} {refill : CentralRefill B} (h : pool.CursorOk)
    (hrun : pool.takeRefill m advised max = some (m', pool', refill)) : pool'.CursorOk := by
  unfold ClassPool.takeRefill at hrun
  split at hrun
  · obtain ⟨-, rfl, -⟩ : m = m' ∧ pool = pool' ∧ _ := by simpa using hrun
    exact h
  · simp only at hrun
    split at hrun
    · obtain ⟨slab, -, hrun⟩ := Option.bind_eq_some_iff.mp hrun
      obtain ⟨r, -, hrun⟩ := Option.map_eq_some_iff.mp hrun
      simp only [Prod.mk.injEq] at hrun
      obtain ⟨-, rfl, -⟩ := hrun
      exact ((h.bumpEpoch.records _ _).reconcileBucketTransition _ _ _).maybeSweep _ _
    · split at hrun
      · obtain ⟨slab, -, hrun⟩ := Option.map_eq_some_iff.mp hrun
        simp only [Prod.mk.injEq] at hrun
        obtain ⟨-, rfl, -⟩ := hrun
        exact ((h.bumpEpoch.records _ _).reconcileBucketTransition _ _ _).maybeSweep _ _
      · simp only [Option.some.injEq, Prod.mk.injEq] at hrun
        obtain ⟨-, rfl, -⟩ := hrun
        exact h.bumpEpoch.maybeSweep _ _

end ClassPool

namespace CentralPool

variable {L B : Type} [BlockStore L B] {central central' : CentralPool L} {c : SizeClass}
  {m m' : Mem}

theorem cursorOk_drainRemoteInbox {advised : Bool} (h : (central.lists c).CursorOk)
    (hrun : central.drainRemoteInbox m advised c = some (m', central')) :
    (central'.lists c).CursorOk := by
  obtain ⟨r, -, hrun⟩ := Option.bind_eq_some_iff.mp hrun
  simp only at hrun
  split at hrun
  · obtain ⟨-, rfl⟩ := Prod.mk.inj (Option.some.inj hrun)
    exact h
  · obtain ⟨q, hreturn, hrun⟩ := Option.map_eq_some_iff.mp hrun
    obtain ⟨-, rfl⟩ := Prod.mk.inj hrun
    simpa using h.returnBatch hreturn

theorem cursorOk_returnBatch {advised : Bool × Bool} {batch : B} (h : (central.lists c).CursorOk)
    (hrun : central.returnBatch m advised c batch = some (m', central')) :
    (central'.lists c).CursorOk := by
  obtain ⟨r, hdrain, hrun⟩ := Option.bind_eq_some_iff.mp hrun
  obtain ⟨q, hreturn, hrun⟩ := Option.map_eq_some_iff.mp hrun
  obtain ⟨-, rfl⟩ := Prod.mk.inj hrun
  simpa using (cursorOk_drainRemoteInbox h hdrain).returnBatch hreturn

theorem cursorOk_takeRefill {advised : Bool × Bool} {max : Nat} {refill : CentralRefill B}
    (h : (central.lists c).CursorOk)
    (hrun : central.takeRefill m advised c max = some (m', central', refill)) :
    (central'.lists c).CursorOk := by
  obtain ⟨r, hdrain, hrun⟩ := Option.bind_eq_some_iff.mp hrun
  obtain ⟨q, htake, hrun⟩ := Option.map_eq_some_iff.mp hrun
  obtain ⟨-, rfl, -⟩ : _ ∧ _ ∧ _ := by simpa using hrun
  simpa using (cursorOk_drainRemoteInbox h hdrain).takeRefill htake

theorem cursorOk_registerSlab (h : (central.lists c).CursorOk) (advised : Bool)
    (start blockSize capacity : Nat) :
    ((central.registerSlab m advised c start blockSize capacity).2.lists c).CursorOk := by
  simpa [CentralPool.registerSlab] using
    h.registerSlab m.pageSize advised start blockSize capacity

theorem cursorOk_publishRemoteBatch {batch : B} (h : (central.lists c).CursorOk)
    (hrun : central.publishRemoteBatch m c batch = some (m', central')) :
    (central'.lists c).CursorOk := by
  obtain ⟨r, -, hrun⟩ := Option.map_eq_some_iff.mp hrun
  obtain ⟨-, rfl⟩ := Prod.mk.inj hrun
  exact h

end CentralPool

/-! ### Requests -/

/-- The blocks that a refill hands over, read off the memory it leaves. -/
def CentralRefill.handed (m : Mem) (refill : CentralRefill Batch) : List Nat :=
  (refill.map (Batch.blocks m)).blocks

namespace CentralPool

/-- The memory and the pool that the requests of one class work on. -/
structure State where
  mem : Mem
  central : CentralPool FreeList

/-- A request to the pool, with the answers of `advise_free` to the sweeps that it starts. -/
inductive Request where
  | registerSlab (advised : Bool) (start blockSize capacity : Nat)
  | returnBatch (advised : Bool × Bool) (batch : Batch)
  | publishRemoteBatch (batch : Batch)
  | takeRefill (advised : Bool × Bool) (max : Nat)
  deriving DecidableEq, Repr

variable (c : SizeClass)

/-- The state after a request, and the answer to a refill. -/
def State.serve (s : State) : Request → Option (State × CentralRefill Batch)
  | .registerSlab advised start blockSize capacity =>
    let r := s.central.registerSlab s.mem advised c start blockSize capacity
    some (⟨r.1, r.2⟩, .empty)
  | .returnBatch advised batch =>
    (s.central.returnBatch s.mem advised c batch).map fun r => (⟨r.1, r.2⟩, .empty)
  | .publishRemoteBatch batch =>
    (s.central.publishRemoteBatch s.mem c batch).map fun r => (⟨r.1, r.2⟩, .empty)
  | .takeRefill advised max =>
    (s.central.takeRefill s.mem advised c max).map fun r => (⟨r.1, r.2.1⟩, r.2.2)

/-- The pool with the lists that its links lead through. -/
def State.contents (s : State) : CentralPool (List Nat) := s.central.map (FreeList.blocks s.mem)

/-- The free blocks of the class: partial lists, full slabs and inbox. -/
def State.bag (s : State) : Multiset Nat := s.contents.freeBag c

/-- A batch of blocks of registered slabs, none of which is in the pool. -/
def State.Returnable (s : State) (batch : Batch) : Prop :=
  batch.Detached s.mem ∧ ∀ b ∈ batch.blocks s.mem,
    b ∉ s.bag c ∧ ∃ slab ∈ (s.central.lists c).slabs, b ∈ slab.blocks

/-- What the callers see to: a new slab is a span of whole blocks apart from all others, and only
blocks that are outside of the pool come back to it. -/
def State.Allows (s : State) : Request → Prop
  | .registerSlab _ start blockSize capacity =>
    0 < start ∧ 0 < blockSize ∧ 0 < capacity ∧ headerAlignment ∣ start ∧
      headerAlignment ∣ blockSize ∧ start + blockSize * capacity < 2 ^ 64 ∧
      ∀ slab ∈ (s.central.lists c).slabs,
        slab.endAddr ≤ start ∨ start + blockSize * capacity ≤ slab.start
  | .returnBatch _ batch => s.Returnable c batch
  | .publishRemoteBatch batch => s.Returnable c batch
  | .takeRefill _ _ => True

instance State.decidableReturnable (s : State) (batch : Batch) : Decidable (s.Returnable c batch) :=
  inferInstanceAs (Decidable ((_ ∧ _ ∧ _) ∧ _))

instance State.decidableAllows (s : State) (request : Request) :
    Decidable (s.Allows c request) := by
  cases request with
  | registerSlab _ start blockSize capacity =>
    exact inferInstanceAs (Decidable (_ ∧ _ ∧ _ ∧ _ ∧ _ ∧ _ ∧ _))
  | returnBatch _ batch => exact State.decidableReturnable c s batch
  | publishRemoteBatch batch => exact State.decidableReturnable c s batch
  | takeRefill _ _ => exact instDecidableTrue

/-- One step of a run: a request that the callers may make, or a change of memory elsewhere, which
leaves the links of the pool's lists alone. -/
inductive State.Step (s : State) : State → Prop
  | request {s' : State} {refill : CentralRefill Batch} (request : Request)
      (hallowed : s.Allows c request) (hserve : s.serve c request = some (s', refill)) : Step s s'
  | elsewhere (mem : Mem) (hpage : mem.pageSize = s.mem.pageSize)
      (hlinks : ∀ b ∈ (s.contents.classLists c).flatten,
        readSmallFreeListNext mem b = readSmallFreeListNext s.mem b) : Step s ⟨mem, s.central⟩

/-- The states that the runs from the new pool reach. -/
def State.Reachable (s : State) : Prop :=
  ∃ mem : Mem, 0 < mem.pageSize ∧ Relation.ReflTransGen (State.Step c) ⟨mem, new⟩ s

end CentralPool

/-! ### What holds in every state -/

/-- Counter and partial list of a slab in each state. -/
def SlabRecord.Stocked (m : Mem) (slab : SlabRecord FreeList) : Prop :=
  match slab.state with
  | .loaned => slab.centralFreeLen = 0 ∧ slab.partialFree = BlockList.empty
  | .partlyFree => 0 < slab.centralFreeLen ∧ slab.centralFreeLen < slab.capacity ∧
      ∃ l, slab.partialFree.Holds m l ∧ l.length = slab.centralFreeLen ∧ l.Nodup ∧
        ∀ b ∈ l, b ∈ slab.blocks
  | .fullHot | .fullCold => slab.centralFreeLen = slab.capacity ∧ slab.partialFree = BlockList.empty

/-- Registry, buckets and records of a class pool are consistent. -/
structure ClassPool.WellFormed (m : Mem) (pool : ClassPool FreeList) : Prop where
  byStart_sorted : pool.slabsByStart.Pairwise fun i j => pool.slabStart i < pool.slabStart j
  byStart_all : ∀ id, id ∈ pool.slabsByStart ↔ id < pool.slabs.length
  /-- A slab stands in the bucket of its state, at the place it has noted, and in no other. -/
  bucketed : ∀ state i id, (pool.bucket state)[i]? = some id ↔
    ∃ slab : SlabRecord FreeList,
      pool.slabs[id]? = some slab ∧ slab.state = state ∧ slab.bucketSlot = some i
  loaned : ∀ slab ∈ pool.slabs, slab.state = .loaned ↔ slab.bucketSlot = none
  stocked : ∀ slab ∈ pool.slabs, slab.Stocked m
  cursor : pool.CursorOk
  recent : ∀ id, pool.recentSlab = some id → id < pool.slabs.length

namespace CentralPool

/-- What a request does to the bag of free blocks. -/
def State.Effect (c : SizeClass) (s s' : State) (refill : CentralRefill Batch) : Request → Prop
  | .registerSlab _ _ _ _ => s'.bag c = s.bag c
  | .returnBatch _ batch => s'.bag c = (batch.blocks s.mem : Multiset Nat) + s.bag c
  | .publishRemoteBatch batch => s'.bag c = (batch.blocks s.mem : Multiset Nat) + s.bag c
  | .takeRefill _ max =>
    (refill = .empty ↔ max = 0 ∨ s.bag c = 0) ∧
      s.bag c = (refill.handed s'.mem : Multiset Nat) + s'.bag c ∧
      match refill with
      | .empty => True
      | .batch batch => batch.Detached s'.mem ∧ 0 < batch.len ∧ batch.len ≤ max
      | .slab start blockSize capacity => ∃ slab ∈ (s.central.lists c).slabs,
          slab.start = start ∧ slab.blockSize = blockSize ∧ slab.capacity = capacity

/-- The state over sequences that a state stands for, with the invariants of the class. -/
structure State.Stands (c : SizeClass) (s : State) (central : CentralPool (List Nat)) : Prop where
  code : s.central = central.map FreeList.ofSeq
  woven : Woven s.mem (central.classLists c)
  inv : central.Inv c
  inbox : central.InboxOk c
  linkable : ∀ shape ∈ (central.lists c).shapes,
    ∀ b ∈ slabBlocks shape.1 shape.2.2.1 shape.2.2.2, Linkable b
  page : 0 < s.mem.pageSize
  cursor : (s.central.lists c).CursorOk

namespace State.Stands

variable {c : SizeClass} {s s' : State} {central : CentralPool (List Nat)}

theorem lists_contents (h : s.Stands c central) : s.contents.lists c = central.lists c := by
  have hlist : ∀ l ∈ (central.lists c).freeLists, (FreeList.ofSeq l).blocks s.mem = l :=
    fun l hl => FreeList.blocks_ofSeq (h.woven.linked l (List.mem_cons_of_mem _ hl))
  rw [State.contents, h.code]
  exact ClassPool.map_map_eq hlist

theorem inbox_contents (h : s.Stands c central) :
    s.contents.remoteInboxes c = central.remoteInboxes c := by
  rw [State.contents, h.code]
  exact RemoteReturns.map_map_eq
    (FreeList.blocks_ofSeq (h.woven.linked _ List.mem_cons_self))

theorem bag_eq (h : s.Stands c central) : s.bag c = central.freeBag c := by
  simp only [State.bag, freeBag, inboxBag, h.lists_contents, h.inbox_contents]

theorem classLists_contents (h : s.Stands c central) :
    s.contents.classLists c = central.classLists c := by
  simp only [classLists, h.lists_contents, h.inbox_contents]

/-- The code's records of a class are those of the sequences with other lists. -/
theorem mem_slabs_iff (h : s.Stands c central) {b : Nat} :
    (∃ slab ∈ (s.central.lists c).slabs, b ∈ slab.blocks) ↔
      ∃ slab ∈ (central.lists c).slabs, b ∈ slab.blocks := by
  rw [h.code]
  constructor
  · rintro ⟨_, hslab, hb⟩
    obtain ⟨slab, hmem, rfl⟩ := List.mem_map.mp hslab
    exact ⟨slab, hmem, hb⟩
  · rintro ⟨slab, hslab, hb⟩
    exact ⟨slab.map FreeList.ofSeq, List.mem_map_of_mem hslab, hb⟩

theorem new (c : SizeClass) {mem : Mem} (hp : 0 < mem.pageSize) :
    State.Stands c ⟨mem, CentralPool.new⟩ CentralPool.new where
  code := rfl
  woven := by
    refine ⟨fun l hl => ?_, List.nodup_nil, fun b hb => (List.not_mem_nil hb).elim⟩
    obtain rfl : l = [] := List.mem_singleton.mp hl
    trivial
  inv := ⟨ClassPool.new_inv, RemoteReturns.new_ok⟩
  inbox := ⟨fun b hb => (Multiset.notMem_zero b hb).elim, Multiset.nodup_zero⟩
  linkable := fun shape hs => (List.not_mem_nil hs).elim
  page := hp
  cursor := Or.inl rfl

/-- A change of memory elsewhere. -/
theorem elsewhere (h : s.Stands c central) {mem : Mem} (hpage : mem.pageSize = s.mem.pageSize)
    (hlinks : ∀ b ∈ (s.contents.classLists c).flatten,
      readSmallFreeListNext mem b = readSmallFreeListNext s.mem b) :
    State.Stands c ⟨mem, s.central⟩ central where
  code := h.code
  woven := by
    rw [h.classLists_contents] at hlinks
    refine ⟨fun l hl => (h.woven.linked l hl).congr fun b hb => ?_, h.woven.nodup,
      h.woven.linkable⟩
    exact hlinks b (List.mem_flatten.mpr ⟨l, hl, hb⟩)
  inv := h.inv
  inbox := h.inbox
  linkable := h.linkable
  page := by rw [hpage]; exact h.page
  cursor := h.cursor

/-! ### One request -/

theorem linkable_blocks (h : s.Stands c central) {slab : SlabRecord (List Nat)}
    (hslab : slab ∈ (central.lists c).slabs) {b : Nat} (hb : b ∈ slab.blocks) : Linkable b :=
  h.linkable slab.shape (List.mem_map_of_mem hslab) b hb

/-- The blocks of a batch that may come back. -/
theorem returnable (h : s.Stands c central) {batch : Batch} (hr : s.Returnable c batch) :
    ∃ l : List Nat, batch = Batch.ofSeq l ∧ batch.blocks s.mem = l ∧ Linked s.mem l ∧ l.Nodup ∧
      (∀ b ∈ l, ∃ slab ∈ (central.lists c).slabs, b ∈ slab.blocks) ∧ (∀ b ∈ l, Linkable b) ∧
      (∀ b ∈ l, b ∉ (central.classLists c).flatten) ∧
      ((l : Multiset Nat) + central.freeBag c).Nodup := by
  obtain ⟨⟨hbatch, hlinked, hnodup⟩, hblocks⟩ := hr
  have hmem : ∀ b ∈ batch.blocks s.mem, ∃ slab ∈ (central.lists c).slabs, b ∈ slab.blocks :=
    fun b hb => h.mem_slabs_iff.mp (hblocks b hb).2
  have hnot : ∀ b ∈ batch.blocks s.mem, b ∉ central.freeBag c := fun b hb => by
    rw [← h.bag_eq]
    exact (hblocks b hb).1
  refine ⟨_, hbatch, rfl, hlinked, hnodup, hmem, fun b hb => ?_, fun b hb hlist => hnot b hb ?_, ?_⟩
  · obtain ⟨slab, hslab, hb⟩ := hmem b hb
    exact h.linkable_blocks hslab hb
  · rcases mem_flatten_classLists.mp hlist with hin | hin
    · exact Multiset.mem_add.mpr (Or.inl (Multiset.mem_coe.mpr hin))
    · rw [← Multiset.mem_coe, ClassPool.coe_flatten_freeLists] at hin
      exact Multiset.mem_add.mpr (Or.inr (Multiset.mem_add.mpr (Or.inl hin)))
  · refine Multiset.nodup_add.mpr ⟨Multiset.coe_nodup.mpr hnodup, h.inbox.nodup, ?_⟩
    exact Multiset.disjoint_left.mpr fun hb hin => hnot _ (Multiset.mem_coe.mp hb) hin

/-- After a request that empties the inbox. -/
theorem of_drained (h : s.Stands c central) {mem mS : Mem} {central' : CentralPool (List Nat)}
    (hwoven : Woven mem (central'.classLists c)) (hinv : central'.Inv c)
    (hshapes : (central'.lists c).shapes = (central.lists c).shapes)
    (hinbox : central'.inboxBag c = 0) (hnodup : (central'.lists c).bag.Nodup)
    {T : Nat → Prop} (hf : Follows T s.mem s.mem mem mS) (hpage : mS.pageSize = s.mem.pageSize)
    (hcursor : ((central'.map FreeList.ofSeq).lists c).CursorOk) :
    State.Stands c ⟨mem, central'.map FreeList.ofSeq⟩ central' where
  code := rfl
  woven := hwoven
  inv := hinv
  inbox := by
    refine ⟨fun b hb => ?_, by rwa [hinbox, zero_add]⟩
    rw [hinbox] at hb
    exact (Multiset.notMem_zero b hb).elim
  linkable := by
    rw [hshapes]
    exact h.linkable
  page := by
    rw [hf.pageSize (Agree.refl _ _), hpage]
    exact h.page
  cursor := hcursor

theorem registerSlab (h : s.Stands c central) {advised : Bool} {start blockSize capacity : Nat}
    (hallowed : s.Allows c (.registerSlab advised start blockSize capacity)) :
    ∃ s' refill central', s.serve c (.registerSlab advised start blockSize capacity) =
        some (s', refill) ∧ State.Stands c s' central' ∧
      State.Effect c s s' refill (.registerSlab advised start blockSize capacity) := by
  obtain ⟨hpos, hb, hc, halign, hdvd, hend, hdisj⟩ := hallowed
  have hdisj' : ∀ slab ∈ (central.lists c).slabs,
      slab.endAddr ≤ start ∨ start + blockSize * capacity ≤ slab.start := by
    intro slab hslab
    apply hdisj (slab.map FreeList.ofSeq)
    rw [h.code]
    exact List.mem_map_of_mem hslab
  obtain ⟨mS, central', hrun, hreg⟩ := registerSlab_spec h.inv h.page hb hc hdisj' advised
  have hpage : s.mem.pageSize = s.mem.pageSize := rfl
  obtain ⟨mF, hrunF, hwoven, hf⟩ := registerSlab_map h.woven hpage advised start blockSize capacity
  simp only [hrun] at hrunF hwoven hf
  have hbag : central'.freeBag c = central.freeBag c := by
    simp only [freeBag, inboxBag, ClassPool.bag, hreg.inbox, hreg.partialBag, hreg.fullBag]
  have hstands : State.Stands c ⟨mF, central'.map FreeList.ofSeq⟩ central' := by
    refine ⟨rfl, hwoven, hreg.inv, ⟨fun b hb => ?_, ?_⟩, fun shape hshape b hb => ?_, ?_, ?_⟩
    · rw [inboxBag, hreg.inbox] at hb
      obtain ⟨slab, hslab, hb⟩ := h.inbox.mem b hb
      have hmem : slab.shape ∈ (central'.lists c).shapes := by
        rw [hreg.shapes]
        exact List.mem_append_left _ (List.mem_map_of_mem hslab)
      obtain ⟨slab', hslab', heq⟩ := List.mem_map.mp hmem
      simp only [SlabRecord.shape, Prod.mk.injEq] at heq
      exact ⟨slab', hslab', by simpa [SlabRecord.blocks, heq.1, heq.2.2.1, heq.2.2.2] using hb⟩
    · show (central'.freeBag c).Nodup
      rw [hbag]
      exact h.inbox.nodup
    · rw [hreg.shapes] at hshape
      rcases List.mem_append.mp hshape with hshape | hshape
      · exact h.linkable shape hshape b hb
      · obtain rfl := List.mem_singleton.mp hshape
        exact linkable_slabBlocks hpos halign hdvd hend hb
    · show 0 < mF.pageSize
      rw [hf.pageSize (Agree.refl _ _), hreg.givesUp.pageSize]
      exact h.page
    · have hcursor := cursorOk_registerSlab (m := s.mem) h.cursor advised start blockSize capacity
      rw [h.code, hrunF] at hcursor
      exact hcursor
  refine ⟨⟨mF, central'.map FreeList.ofSeq⟩, .empty, central', ?_, hstands, ?_⟩
  · simp only [State.serve, h.code, hrunF]
  · show State.bag c ⟨mF, _⟩ = s.bag c
    rw [hstands.bag_eq, h.bag_eq, hbag]

theorem returnBatch (h : s.Stands c central) {advised : Bool × Bool} {batch : Batch}
    (hr : s.Returnable c batch) :
    ∃ s' refill central', s.serve c (.returnBatch advised batch) = some (s', refill) ∧
      State.Stands c s' central' ∧
      State.Effect c s s' refill (.returnBatch advised batch) := by
  obtain ⟨l, rfl, hl, hlinked, hnodup, hmem, hgood, hnew, hnd⟩ := h.returnable hr
  obtain ⟨mS, central', hrun, hret⟩ :=
    returnBatch_spec h.inv h.inbox h.page hmem hnd advised
  obtain ⟨mF, hrunF, hwoven, hf⟩ :=
    returnBatch_map h.inv.inbox h.woven (Agree.refl _ _) hlinked hgood hnodup hnew hrun
  rw [← h.code] at hrunF
  have hstands := h.of_drained hwoven hret.inv hret.shapes hret.inbox
    (by rw [hret.bag]; exact hnd) hf hret.givesUp.pageSize (cursorOk_returnBatch h.cursor hrunF)
  refine ⟨⟨mF, central'.map FreeList.ofSeq⟩, .empty, central', ?_, hstands, ?_⟩
  · simp only [State.serve, hrunF, Option.map_some]
  · show State.bag c ⟨mF, _⟩ = (Batch.blocks s.mem _ : Multiset Nat) + s.bag c
    rw [hstands.bag_eq, h.bag_eq, hl, freeBag, hret.inbox, zero_add, hret.bag, freeBag]

theorem publishRemoteBatch (h : s.Stands c central) {batch : Batch} (hr : s.Returnable c batch) :
    ∃ s' refill central', s.serve c (.publishRemoteBatch batch) = some (s', refill) ∧
      State.Stands c s' central' ∧
      State.Effect c s s' refill (.publishRemoteBatch batch) := by
  obtain ⟨l, rfl, hl, hlinked, hnodup, hmem, hgood, hnew, hnd⟩ := h.returnable hr
  obtain ⟨central', hrun, hinv, -, hlists, hinbox⟩ :=
    publishRemoteBatch_spec (m := s.mem) h.inv l
  obtain ⟨-, mF, hrunF, hwoven, hf⟩ :=
    publishRemoteBatch_map h.woven hlinked hgood hnodup hnew hrun
  rw [← h.code] at hrunF
  have hbag : central'.freeBag c = (l : Multiset Nat) + central.freeBag c := by
    rw [freeBag, hinbox, hlists, add_assoc, freeBag]
  have hstands : State.Stands c ⟨mF, central'.map FreeList.ofSeq⟩ central' := by
    refine ⟨rfl, hwoven, hinv, ⟨fun b hb => ?_, ?_⟩, ?_, ?_, ?_⟩
    · rw [hlists]
      rw [hinbox] at hb
      rcases Multiset.mem_add.mp hb with hb | hb
      · exact hmem b (Multiset.mem_coe.mp hb)
      · exact h.inbox.mem b hb
    · show (central'.freeBag c).Nodup
      rw [hbag]
      exact hnd
    · rw [hlists]
      exact h.linkable
    · show 0 < mF.pageSize
      rw [hf.pageSize (Agree.refl _ _)]
      exact h.page
    · exact cursorOk_publishRemoteBatch h.cursor hrunF
  refine ⟨⟨mF, central'.map FreeList.ofSeq⟩, .empty, central', ?_, hstands, ?_⟩
  · simp only [State.serve, hrunF, Option.map_some]
  · show State.bag c ⟨mF, _⟩ = (Batch.blocks s.mem _ : Multiset Nat) + s.bag c
    rw [hstands.bag_eq, h.bag_eq, hl, hbag]

/-- A refill of nothing only folds the inbox in. -/
theorem takeRefill_zero (h : s.Stands c central) {advised : Bool × Bool} :
    ∃ s' refill central', s.serve c (.takeRefill advised 0) = some (s', refill) ∧
      State.Stands c s' central' ∧
      State.Effect c s s' refill (.takeRefill advised 0) := by
  obtain ⟨mS, central', hdrain, hinv, -, hshapes, hinbox, hbag, -, -, hgive⟩ :=
    drainRemoteInbox_spec h.inv h.inbox h.page advised.1
  have hrun : central.takeRefill s.mem advised c 0 =
      some (mS, { central' with lists := Function.update central'.lists c (central'.lists c) },
        .empty) := by
    simp [CentralPool.takeRefill, hdrain, ClassPool.takeRefill]
  rw [Function.update_eq_self] at hrun
  obtain ⟨mF, hrunF, hwoven, -, hf⟩ :=
    takeRefill_map h.inv.inbox h.woven (Agree.refl _ _) hrun
  rw [← h.code] at hrunF
  have hstands := h.of_drained hwoven hinv hshapes hinbox
    (by rw [hbag]; exact h.inbox.nodup) hf hgive.pageSize (cursorOk_takeRefill h.cursor hrunF)
  refine ⟨⟨mF, central'.map FreeList.ofSeq⟩, .empty, central', ?_, hstands, ?_, ?_, trivial⟩
  · simp only [State.serve, hrunF, Option.map_some]
    rfl
  · exact iff_of_true rfl (Or.inl rfl)
  · show s.bag c = ([] : List Nat) + State.bag c ⟨mF, _⟩
    rw [hstands.bag_eq, h.bag_eq, freeBag, freeBag, hinbox, hbag, zero_add]
    exact (zero_add _).symm

theorem handed_map {refill : CentralRefill (List Nat)} {m : Mem}
    (h : ∀ batch, refill = .batch batch → Linked m batch) :
    (refill.map Batch.ofSeq).handed m = refill.blocks := by
  cases refill with
  | empty => rfl
  | batch batch => exact Batch.blocks_ofSeq (h batch rfl)
  | slab start blockSize capacity => rfl

theorem takeRefill_pos (h : s.Stands c central) {advised : Bool × Bool} {max : Nat}
    (hmax : 0 < max) :
    ∃ s' refill central', s.serve c (.takeRefill advised max) = some (s', refill) ∧
      State.Stands c s' central' ∧
      State.Effect c s s' refill (.takeRefill advised max) := by
  obtain ⟨mS, central', refill, hrun, hrefill⟩ := takeRefill_spec h.inv h.inbox h.page hmax advised
  obtain ⟨mF, hrunF, hwoven, hlinked, hf⟩ :=
    takeRefill_map h.inv.inbox h.woven (Agree.refl _ _) hrun
  rw [← h.code] at hrunF
  have hsplit := hrefill.freeBag
  have hnd : ((refill.blocks : Multiset Nat) + central'.freeBag c).Nodup :=
    hsplit ▸ h.inbox.nodup
  obtain ⟨hndBlocks, hnd', -⟩ := Multiset.nodup_add.mp hnd
  rw [freeBag, hrefill.inbox, zero_add] at hnd'
  have hstands := h.of_drained hwoven hrefill.inv hrefill.shapes hrefill.inbox hnd' hf
    hrefill.givesUp.pageSize (cursorOk_takeRefill h.cursor hrunF)
  -- a batch and a slab both have blocks
  have hempty : refill = .empty ↔ central.freeBag c = 0 := by
    refine ⟨fun he => ?_, fun hz => ?_⟩
    · rw [hsplit, he, freeBag, hrefill.inbox, hrefill.ofEmpty he]
      rfl
    · rw [hsplit] at hz
      have hle : (refill.blocks : Multiset Nat) ≤ 0 := hz ▸ Multiset.le_add_right _ _
      have hnil : refill.blocks = [] := Multiset.coe_eq_zero _ |>.mp (Multiset.le_zero.mp hle)
      cases refill with
      | empty => rfl
      | batch blocks => exact absurd hnil (hrefill.ofBatch blocks rfl).1
      | slab start blockSize capacity =>
        have hpos := (hrefill.ofSlab start blockSize capacity rfl).2.1
        have hlen := congrArg List.length hnil
        simp only [CentralRefill.blocks, length_slabBlocks, List.length_nil] at hlen
        omega
  refine ⟨⟨mF, central'.map FreeList.ofSeq⟩, refill.map Batch.ofSeq, central', ?_, hstands, ?_,
    ?_, ?_⟩
  · simp only [State.serve, hrunF, Option.map_some]
  · rw [h.bag_eq, ← hempty]
    have hmap : refill.map Batch.ofSeq = .empty ↔ refill = .empty := by
      cases refill <;> simp [CentralRefill.map]
    rw [hmap]
    exact ⟨Or.inr, fun hor => hor.resolve_left (Nat.pos_iff_ne_zero.mp hmax)⟩
  · rw [handed_map hlinked, hstands.bag_eq, h.bag_eq, hsplit]
  · cases refill with
    | empty => trivial
    | batch blocks =>
      have hblocks := Batch.blocks_ofSeq (hlinked blocks rfl)
      refine ⟨⟨?_, ?_, ?_⟩, List.length_pos_iff.mpr (hrefill.ofBatch blocks rfl).1,
        takeRefill_length hrun⟩
      · rw [hblocks]
      · rw [hblocks]
        exact hlinked blocks rfl
      · rw [hblocks]
        exact Multiset.coe_nodup.mp hndBlocks
    | slab start blockSize capacity =>
      obtain ⟨-, -, hshape⟩ := hrefill.ofSlab start blockSize capacity rfl
      obtain ⟨slab, hslab, heq⟩ := List.mem_map.mp hshape
      simp only [SlabRecord.shape, Prod.mk.injEq] at heq
      refine ⟨slab.map FreeList.ofSeq, ?_, heq.1, heq.2.2.1, heq.2.2.2⟩
      rw [h.code]
      exact List.mem_map_of_mem hslab

/-- Every request that the callers may make is served. -/
theorem serve (h : s.Stands c central) {request : Request} (hallowed : s.Allows c request) :
    ∃ s' refill central', s.serve c request = some (s', refill) ∧ State.Stands c s' central' ∧
      State.Effect c s s' refill request := by
  cases request with
  | registerSlab advised start blockSize capacity => exact h.registerSlab hallowed
  | returnBatch advised batch => exact h.returnBatch hallowed
  | publishRemoteBatch batch => exact h.publishRemoteBatch hallowed
  | takeRefill advised max =>
    rcases Nat.eq_zero_or_pos max with rfl | hmax
    · exact h.takeRefill_zero
    · exact h.takeRefill_pos hmax

theorem step (h : s.Stands c central) (hstep : s.Step c s') : ∃ central', s'.Stands c central' := by
  cases hstep with
  | request request hallowed hserve =>
    obtain ⟨s₁, refill, central', hserve', hstands, -⟩ := h.serve hallowed
    obtain ⟨rfl, -⟩ := Prod.mk.inj (Option.some.inj (hserve'.symm.trans hserve))
    exact ⟨central', hstands⟩
  | elsewhere mem hpage hlinks => exact ⟨central, h.elsewhere hpage hlinks⟩

theorem of_reachable (h : s.Reachable c) : ∃ central, s.Stands c central := by
  obtain ⟨mem, hp, hruns⟩ := h
  induction hruns with
  | refl => exact ⟨_, State.Stands.new c hp⟩
  | tail _ hstep ih =>
    obtain ⟨central, hstands⟩ := ih
    exact hstands.step hstep

/-! ### Well-formedness -/

theorem bucketed (h : s.Stands c central) (state : SlabState) (i id : Nat) :
    ((s.central.lists c).bucket state)[i]? = some id ↔ ∃ slab : SlabRecord FreeList,
      (s.central.lists c).slabs[id]? = some slab ∧ slab.state = state ∧
          slab.bucketSlot = some i := by
  have hinv := h.inv.pool
  have hslot : ((central.lists c).bucket state)[i]? = some id ↔
      (central.lists c).slotIn (central.lists c).slabState state id = some i := by
    by_cases hs : state = .loaned
    · subst hs
      unfold ClassPool.slotIn
      split
      · rename_i hl
        rw [(hinv.bucketed.loaned id).mp hl]
        simp [ClassPool.bucket]
      · simp [ClassPool.bucket]
    · exact hinv.bucketed.slots state hs i id
  rw [h.code]
  simp only [lists_map, ClassPool.bucket_map, hslot, ClassPool.getElem?_map_slabs]
  cases hid : (central.lists c).slabs[id]? with
  | none => simp [ClassPool.slotIn, ClassPool.bucketSlot, hid]
  | some slab =>
    by_cases hs : slab.state = state <;>
      simp [ClassPool.slotIn, ClassPool.slabState, ClassPool.bucketSlot, hid, hs, SlabRecord.map]

theorem stocked (h : s.Stands c central) {slab : SlabRecord FreeList}
    (hslab : slab ∈ (s.central.lists c).slabs) : slab.Stocked s.mem := by
  rw [h.code] at hslab
  obtain ⟨slab, hmem, rfl⟩ := List.mem_map.mp hslab
  have ok := h.inv.pool.slab_ok slab hmem
  have hlist : slab.partialFree ∈ central.classLists c :=
    List.mem_cons_of_mem _ (List.mem_map_of_mem hmem)
  have hc := ok.counted
  unfold SlabRecord.Counted at hc
  have hstate : (slab.map FreeList.ofSeq).state = slab.state := rfl
  unfold SlabRecord.Stocked
  rw [hstate]
  cases hs : slab.state with
  | loaned =>
    simp only [hs] at hc
    exact ⟨hc.1, congrArg FreeList.ofSeq hc.2⟩
  | partlyFree =>
    simp only [hs] at hc
    exact ⟨hc.1, hc.2.1, slab.partialFree, ⟨rfl, h.woven.linked _ hlist⟩, hc.2.2,
      (List.nodup_flatten.mp h.woven.nodup).1 _ hlist, ok.partial_mem⟩
  | fullHot =>
    simp only [hs] at hc
    exact ⟨hc.1, congrArg FreeList.ofSeq hc.2⟩
  | fullCold =>
    simp only [hs] at hc
    exact ⟨hc.1, congrArg FreeList.ofSeq hc.2⟩

theorem wellFormed (h : s.Stands c central) : (s.central.lists c).WellFormed s.mem where
  byStart_sorted := by
    rw [h.code]
    simp only [lists_map, ClassPool.slabStart_map]
    exact h.inv.pool.index.sorted
  byStart_all := by
    rw [h.code]
    simpa [ClassPool.map] using h.inv.pool.index.mem
  bucketed := h.bucketed
  loaned := by
    intro slab hslab
    rw [h.code] at hslab
    obtain ⟨slab, hmem, rfl⟩ := List.mem_map.mp hslab
    obtain ⟨id, hid⟩ := List.mem_iff_getElem?.mp hmem
    have hl : slab.state = .loaned ↔ slab.bucketSlot = none := by
      simpa [ClassPool.slabState, ClassPool.bucketSlot, hid] using h.inv.pool.bucketed.loaned id
    exact hl
  stocked := fun slab hslab => h.stocked hslab
  cursor := h.cursor
  recent := by
    rw [h.code]
    simpa [ClassPool.map] using h.inv.pool.recent_lt

end State.Stands

/-- In every state that a run reaches the registry of the class is well formed, and every request
that the callers may make is served and changes the bag of free blocks by its own blocks. -/
theorem refines_bag {c : SizeClass} {s : State} (h : s.Reachable c) :
    (s.central.lists c).WellFormed s.mem ∧
      ∀ request, s.Allows c request →
        ∃ s' refill, s.serve c request = some (s', refill) ∧ s'.Reachable c ∧
          State.Effect c s s' refill request := by
  obtain ⟨central, hstands⟩ := State.Stands.of_reachable h
  refine ⟨hstands.wellFormed, fun request hallowed => ?_⟩
  obtain ⟨s', refill, central', hserve, -, heffect⟩ := hstands.serve hallowed
  obtain ⟨mem, hp, hruns⟩ := h
  exact ⟨s', refill, hserve, ⟨mem, hp, hruns.tail (.request request hallowed hserve)⟩, heffect⟩

/-! ### A run -/

/-- A request, when the callers may make it. -/
def State.request (c : SizeClass) (request : Request) (s : State) : Option State :=
  if s.Allows c request then (s.serve c request).map Prod.fst else none

theorem State.Reachable.runs {c : SizeClass} {s s' : State} {requests : List Request}
    (h : s.Reachable c) (hruns : StepSystem.runs (State.request c) requests s = some s') :
    s'.Reachable c := by
  refine StepSystem.runs_invariant hruns h fun request _ s s' h hrequest => ?_
  unfold State.request at hrequest
  split at hrequest
  · rename_i hallowed
    obtain ⟨⟨s₁, refill⟩, hserve, rfl⟩ := Option.map_eq_some_iff.mp hrequest
    obtain ⟨mem, hp, hruns⟩ := h
    exact ⟨mem, hp, hruns.tail (.request request hallowed hserve)⟩
  · cases hrequest

/-- A slab of two blocks is registered, one of them is returned and the other published. -/
def sampleRequests : List Request :=
  [.registerSlab true 4096 128 2, .returnBatch (true, true) (Batch.ofSeq [4096]),
    .publishRemoteBatch (Batch.ofSeq [4224])]

def sampleStart : State := ⟨Mem.zero 4096, new⟩

def sampleState : State :=
  (StepSystem.runs (State.request .b64) sampleRequests sampleStart).getD sampleStart

theorem sampleState_run :
    (StepSystem.runs (State.request .b64) sampleRequests sampleStart).isSome := by
  decide +kernel

theorem sampleState_reachable : sampleState.Reachable .b64 := by
  have hstart : sampleStart.Reachable .b64 := ⟨Mem.zero 4096, by decide, .refl⟩
  obtain ⟨s, hs⟩ := Option.isSome_iff_exists.mp sampleState_run
  have hstate : sampleState = s := by rw [sampleState, hs, Option.getD_some]
  exact hstate ▸ hstart.runs hs

/-- A refill takes both blocks as a whole slab. -/
theorem refines_bag_sample : (sampleState.central.lists .b64).WellFormed sampleState.mem ∧
    sampleState.bag .b64 = {4096, 4224} ∧
    ∃ s' refill, sampleState.serve .b64 (.takeRefill (true, true) 1) = some (s', refill) ∧
      s'.Reachable .b64 ∧ refill ≠ .empty ∧
      sampleState.bag .b64 = (refill.handed s'.mem : Multiset Nat) + s'.bag .b64 := by
  have hbag : sampleState.bag .b64 = {4096, 4224} := by decide +kernel
  obtain ⟨hwell, hserve⟩ := refines_bag sampleState_reachable
  obtain ⟨s', refill, hrun, hreach, hempty, hsplit, -⟩ :=
    hserve (.takeRefill (true, true) 1) trivial
  refine ⟨hwell, hbag, s', refill, hrun, hreach, fun he => ?_, hsplit⟩
  rw [he, hbag] at hempty
  exact absurd (hempty.mp rfl) (by decide)

end CentralPool

end Orthotope
