import Orthotope.LocalCache
import Orthotope.Arena

/-! The central pool, `central_pool.rs`: per class a registry of slabs with their centrally held
blocks, and an inbox for remote frees.  Like the local cache it is generic in the type `L` of its
free lists.  `advised` is the answer of `advise_free` if a sweep asks for it; a sweep that gives
pages up returns their range.  The epoch is a natural number: its `u64` overflow is declared
unreachable in the source and would take `2^64` lock sections of one class. -/

namespace Orthotope

open ByteMemory IndexedVec

def sweepInterval : Nat := 64

def coldEpochs : Nat := 4

def sweepScanBudget : Nat := 2

inductive SlabState where
  | loaned
  | partlyFree
  | fullHot
  | fullCold
  deriving DecidableEq, Repr

structure SlabRecord (L : Type) where
  start : Nat
  endAddr : Nat
  blockSize : Nat
  capacity : Nat
  centralFreeLen : Nat
  partialFree : L
  lastTouchedEpoch : Nat
  state : SlabState
  bucketSlot : Option Nat
  deriving DecidableEq, Repr

/-- A list of remote frees and its length: `RemoteReturnCache` of a thread cache and
`RemoteReturnInbox` of the central pool. -/
structure RemoteReturns (L : Type) where
  pending : L
  pendingLen : Nat
  deriving DecidableEq, Repr

structure ClassPool (L : Type) where
  slabs : List (SlabRecord L)
  slabsByStart : List Nat
  partialSlabs : List Nat
  fullHotSlabs : List Nat
  fullColdSlabs : List Nat
  epoch : Nat
  sweepCursor : Nat
  recentSlab : Option Nat
  deriving DecidableEq, Repr

/-- The answer to a refill: nothing, a detached batch of type `B`, or a whole slab. -/
inductive CentralRefill (B : Type) where
  | empty
  | batch (blocks : B)
  | slab (start blockSize capacity : Nat)
  deriving DecidableEq, Repr

/-- Shared per-class slab registry and batch exchange between thread-local caches. -/
structure CentralPool (L : Type) where
  lists : SizeClass → ClassPool L
  remoteInboxes : SizeClass → RemoteReturns L

namespace SlabRecord

variable {L : Type}

def new [BlockList L] (start blockSize capacity epoch : Nat) : SlabRecord L where
  start := start
  endAddr := start + blockSize * capacity
  blockSize := blockSize
  capacity := capacity
  centralFreeLen := 0
  partialFree := BlockList.empty
  lastTouchedEpoch := epoch
  state := .loaned
  bucketSlot := none

def reset [BlockList L] (slab : SlabRecord L) (start blockSize capacity epoch : Nat) :
    SlabRecord L :=
  { slab with
    endAddr := start + blockSize * capacity
    centralFreeLen := 0
    partialFree := BlockList.empty
    lastTouchedEpoch := epoch
    state := .loaned
    bucketSlot := none }

def contains (slab : SlabRecord L) (block : Nat) : Bool :=
  slab.start ≤ block && block < slab.endAddr && (block - slab.start) % slab.blockSize == 0

def spanLen (slab : SlabRecord L) : Nat := slab.endAddr - slab.start

def isSweepCandidate (slab : SlabRecord L) (epoch : Nat) : Bool :=
  slab.state == .fullHot && coldEpochs ≤ epoch - slab.lastTouchedEpoch

variable {B : Type} [BlockStore L B]

def recordReturnedBlock (m : Mem) (slab : SlabRecord L) (block : Nat) : Mem × SlabRecord L :=
  let (m, partialFree) := BlockStore.pushBlock m slab.partialFree block
  let centralFreeLen := slab.centralFreeLen + 1
  (m, if centralFreeLen = slab.capacity then
      { slab with centralFreeLen, state := .fullHot, partialFree := BlockList.empty }
    else { slab with centralFreeLen, state := .partlyFree, partialFree })

def takePartialBatch (m : Mem) (slab : SlabRecord L) (max : Nat) :
    Option (Mem × B × SlabRecord L) :=
  (BlockStore.popBatchUnchecked m slab.partialFree max).map fun (m, batch, partialFree) =>
    let centralFreeLen := slab.centralFreeLen - BlockStore.batchLen L batch
    (m, batch, { slab with
      centralFreeLen
      partialFree
      state := if centralFreeLen = 0 then .loaned else slab.state })

end SlabRecord

namespace RemoteReturns

def new {L : Type} [BlockList L] : RemoteReturns L := ⟨BlockList.empty, 0⟩

def isEmpty {L : Type} (returns : RemoteReturns L) : Bool := returns.pendingLen == 0

variable {L B : Type} [BlockStore L B]

def pushBlock (m : Mem) (returns : RemoteReturns L) (block : Nat) : Mem × RemoteReturns L :=
  let (m, pending) := BlockStore.pushBlock m returns.pending block
  (m, ⟨pending, returns.pendingLen + 1⟩)

def takeAllUnchecked (m : Mem) (returns : RemoteReturns L) :
    Option (Mem × B × RemoteReturns L) :=
  (BlockStore.popBatchUnchecked m returns.pending returns.pendingLen).map fun (m, batch, pending) =>
    (m, batch, ⟨pending, 0⟩)

def pushBatch (m : Mem) (returns : RemoteReturns L) (batch : B) :
    Option (Mem × RemoteReturns L) :=
  if BlockStore.batchLen L batch = 0 then some (m, returns)
  else
    (BlockStore.pushBatch m returns.pending batch).map fun (m, pending) =>
      (m, ⟨pending, returns.pendingLen + BlockStore.batchLen L batch⟩)

def takePending (m : Mem) (returns : RemoteReturns L) :
    Option (Mem × B × RemoteReturns L) :=
  if returns.pendingLen = 0 then some (m, BlockStore.emptyBatch L, returns)
  else returns.takeAllUnchecked m

end RemoteReturns

namespace ClassPool

section Shape

variable {L : Type}

def new : ClassPool L where
  slabs := []
  slabsByStart := []
  partialSlabs := []
  fullHotSlabs := []
  fullColdSlabs := []
  epoch := 0
  sweepCursor := 0
  recentSlab := none

def centralBlockCount (pool : ClassPool L) : Nat :=
  (pool.slabs.map SlabRecord.centralFreeLen).sum

def bumpEpoch (pool : ClassPool L) : ClassPool L := { pool with epoch := pool.epoch + 1 }

/-- The start of slab `id`, the key of `slabs_by_start`. -/
def slabStart (pool : ClassPool L) (id : Nat) : Nat :=
  (pool.slabs[id]?.map SlabRecord.start).getD 0

def bucketSlot (pool : ClassPool L) (id : Nat) : Option Nat :=
  pool.slabs[id]?.bind SlabRecord.bucketSlot

def setBucketSlot (pool : ClassPool L) (id : Nat) (slot : Option Nat) : ClassPool L :=
  { pool with slabs := pool.slabs.modify id fun slab => { slab with bucketSlot := slot } }

/-- The bucket of a state; loaned slabs are in none. -/
def bucket (pool : ClassPool L) : SlabState → List Nat
  | .loaned => []
  | .partlyFree => pool.partialSlabs
  | .fullHot => pool.fullHotSlabs
  | .fullCold => pool.fullColdSlabs

def setBucket (pool : ClassPool L) (state : SlabState) (ids : List Nat) : ClassPool L :=
  match state with
  | .loaned => pool
  | .partlyFree => { pool with partialSlabs := ids }
  | .fullHot => { pool with fullHotSlabs := ids }
  | .fullCold => { pool with fullColdSlabs := ids }

def normalizeSweepCursor (pool : ClassPool L) : ClassPool L :=
  { pool with
    sweepCursor :=
      if pool.fullHotSlabs.isEmpty then 0 else pool.sweepCursor % pool.fullHotSlabs.length }

def removeFromBucket (pool : ClassPool L) (id : Nat) (state : SlabState) : ClassPool L :=
  match pool.bucketSlot id with
  | none => pool
  | some slot =>
    let pool := pool.setBucketSlot id none
    if state = .loaned then pool
    else
      let rest := swapRemove (pool.bucket state) slot
      let pool := pool.setBucket state rest
      let pool :=
        match rest[slot]? with
        | some moved => pool.setBucketSlot moved (some slot)
        | none => pool
      pool.normalizeSweepCursor

def addToBucket (pool : ClassPool L) (id : Nat) (state : SlabState) : ClassPool L :=
  if state = .loaned then pool.setBucketSlot id none
  else
    let slot := (pool.bucket state).length
    let pool := pool.setBucket state (pool.bucket state ++ [id])
    (pool.setBucketSlot id (some slot)).normalizeSweepCursor

def reconcileBucketTransition (pool : ClassPool L) (id : Nat) (previous next : SlabState) :
    ClassPool L :=
  if previous = next then pool else (pool.removeFromBucket id previous).addToBucket id next

def slabState (pool : ClassPool L) (id : Nat) : SlabState :=
  (pool.slabs[id]?.map SlabRecord.state).getD .loaned

def setSlabState (pool : ClassPool L) (id : Nat) (state : SlabState) : ClassPool L :=
  { pool with slabs := pool.slabs.modify id fun slab => { slab with state } }

def reconcileBucketState (pool : ClassPool L) (id : Nat) (previous : SlabState) : ClassPool L :=
  pool.reconcileBucketTransition id previous (pool.slabState id)

/-- The scan of `maybe_sweep`: at most `budget` hot slabs from the cursor on, up to the first one
that is old enough and has a whole page.  The range returned is the one advised with success. -/
def sweepScan (pageSize : Nat) (advised : Bool) (total : Nat) :
    Nat → ClassPool L → ClassPool L × Option (Nat × Nat)
  | 0, pool => (pool, none)
  | budget + 1, pool =>
    let slot := pool.sweepCursor % total
    match pool.fullHotSlabs[slot]? with
    | none => (pool, none)
    | some id =>
      let pool := { pool with sweepCursor := (slot + 1) % total }
      match pool.slabs[id]? with
      | none => (pool, none)
      | some slab =>
        if !slab.isSweepCandidate pool.epoch then sweepScan pageSize advised total budget pool
        else
          match pageAlignedInnerRange pageSize slab.start slab.spanLen with
          | none => sweepScan pageSize advised total budget pool
          | some range =>
            if advised then
              ((pool.setSlabState id .fullCold).reconcileBucketTransition id slab.state .fullCold,
                some range)
            else (pool, none)

def maybeSweep (pageSize : Nat) (advised : Bool) (pool : ClassPool L) :
    ClassPool L × Option (Nat × Nat) :=
  if pool.epoch % sweepInterval ≠ 0 ∨ pool.fullHotSlabs.isEmpty then (pool, none)
  else
    let total := pool.fullHotSlabs.length
    sweepScan pageSize advised total (min sweepScanBudget total) pool

def registerSlab [BlockList L] (pageSize : Nat) (advised : Bool) (pool : ClassPool L)
    (start blockSize capacity : Nat) : ClassPool L × Option (Nat × Nat) :=
  let pool := pool.bumpEpoch
  let pool :=
    match binarySearchByKey pool.slabStart start pool.slabsByStart with
    | .ok slot =>
      let id := pool.slabsByStart[slot]?.getD 0
      { pool with
        slabs := pool.slabs.modify id fun slab => slab.reset start blockSize capacity pool.epoch
        recentSlab := some id }
    | .error slot =>
      let id := pool.slabs.length
      { pool with
        slabs := pool.slabs ++ [SlabRecord.new start blockSize capacity pool.epoch]
        slabsByStart := pool.slabsByStart.insertIdx slot id
        recentSlab := some id }
  pool.maybeSweep pageSize advised

/-- Looks up the slab of a block that belongs to a registered slab; the slab found becomes the
recent one. -/
def findSlabIdUnchecked (pool : ClassPool L) (block : Nat) : Option Nat :=
  match pool.recentSlab.filter fun id =>
      (pool.slabs[id]?.map fun slab => slab.contains block).getD false with
  | some id => some id
  | none =>
    let index := partitionPoint (fun id => decide (pool.slabStart id ≤ block)) pool.slabsByStart
    if index = 0 then none else pool.slabsByStart[index - 1]?

def loanWholeSlab {B : Type} (pool : ClassPool L) (id : Nat) (slab : SlabRecord L) :
    ClassPool L × CentralRefill B :=
  let pool := { pool with
    slabs := pool.slabs.set id
      { slab with state := .loaned, centralFreeLen := 0, lastTouchedEpoch := pool.epoch }
    recentSlab := some id }
  (pool.reconcileBucketTransition id slab.state .loaned,
    .slab slab.start slab.blockSize slab.capacity)

end Shape

/-- Marks the pages that a sweep gave up as reclaimable. -/
def applyAdvice (m : Mem) : Option (Nat × Nat) → Mem
  | none => m
  | some (addr, len) => m.advise addr len

variable {L B : Type} [BlockStore L B]

/-- The loop of `return_batch`, for the `n` blocks left. -/
def returnBlocks (m : Mem) : Nat → ClassPool L → B → Option (Mem × ClassPool L)
  | 0, pool, _ => some (m, pool)
  | n + 1, pool, batch =>
    (BlockStore.batchPopBlockUnchecked L m batch).bind fun (block, batch) =>
      (pool.findSlabIdUnchecked block).bind fun id =>
        pool.slabs[id]?.bind fun slab =>
          let previous := slab.state
          let (m, slab) :=
            { slab with lastTouchedEpoch := pool.epoch }.recordReturnedBlock m block
          let pool := { pool with slabs := pool.slabs.set id slab, recentSlab := some id }
          returnBlocks m n (pool.reconcileBucketState id previous) batch

def returnBatch (m : Mem) (advised : Bool) (pool : ClassPool L) (batch : B) :
    Option (Mem × ClassPool L) :=
  if BlockStore.batchLen L batch = 0 then some (m, pool)
  else
    (returnBlocks m (BlockStore.batchLen L batch) pool.bumpEpoch batch).map fun (m, pool) =>
      let (pool, range) := pool.maybeSweep m.pageSize advised
      (applyAdvice m range, pool)

def takeRefill (m : Mem) (advised : Bool) (pool : ClassPool L) (max : Nat) :
    Option (Mem × ClassPool L × CentralRefill B) :=
  if max = 0 then some (m, pool, .empty)
  else
    let pool := pool.bumpEpoch
    let sweep := fun (m : Mem) (pool : ClassPool L) (refill : CentralRefill B) =>
      let (pool, range) := pool.maybeSweep m.pageSize advised
      (applyAdvice m range, pool, refill)
    match pool.partialSlabs.getLast? with
    | some id =>
      pool.slabs[id]?.bind fun slab =>
        (slab.takePartialBatch m max).map fun (m, batch, slab) =>
          let pool := { pool with
            slabs := pool.slabs.set id { slab with lastTouchedEpoch := pool.epoch }
            recentSlab := some id }
          sweep m (pool.reconcileBucketState id .partlyFree) (.batch batch)
    | none =>
      match pool.fullHotSlabs.getLast?.or pool.fullColdSlabs.getLast? with
      | some id =>
        pool.slabs[id]?.map fun slab =>
          let (pool, refill) := pool.loanWholeSlab id slab
          sweep m pool refill
      | none => some (sweep m pool .empty)

end ClassPool

namespace CentralPool

def new {L : Type} [BlockList L] : CentralPool L :=
  ⟨fun _ => ClassPool.new, fun _ => RemoteReturns.new⟩

/-- The entry of `block_counts` for a class. -/
def blockCounts {L : Type} (central : CentralPool L) (c : SizeClass) : Nat :=
  (central.lists c).centralBlockCount + (central.remoteInboxes c).pendingLen

variable {L B : Type} [BlockStore L B]

/-- Folds the remote inbox of a class into its pool, under the class lock. -/
def drainRemoteInbox (m : Mem) (advised : Bool) (central : CentralPool L) (c : SizeClass) :
    Option (Mem × CentralPool L) :=
  ((central.remoteInboxes c).takePending m).bind fun (m, pending, inbox) =>
    let central := { central with
      remoteInboxes := Function.update central.remoteInboxes c inbox }
    if BlockStore.batchIsEmpty L pending then some (m, central)
    else
      ((central.lists c).returnBatch m advised pending).map fun (m, pool) =>
        (m, { central with lists := Function.update central.lists c pool })

/-- The lock section of `take_refill`.  `advised` answers the sweep of the inbox fold and that of
the refill. -/
def takeRefill (m : Mem) (advised : Bool × Bool) (central : CentralPool L) (c : SizeClass)
    (max : Nat) : Option (Mem × CentralPool L × CentralRefill B) :=
  (central.drainRemoteInbox m advised.1 c).bind fun (m, central) =>
    ((central.lists c).takeRefill m advised.2 max).map fun (m, pool, refill) =>
      (m, { central with lists := Function.update central.lists c pool }, refill)

/-- The lock section of `return_batch`. -/
def returnBatch (m : Mem) (advised : Bool × Bool) (central : CentralPool L) (c : SizeClass)
    (batch : B) : Option (Mem × CentralPool L) :=
  (central.drainRemoteInbox m advised.1 c).bind fun (m, central) =>
    ((central.lists c).returnBatch m advised.2 batch).map fun (m, pool) =>
      (m, { central with lists := Function.update central.lists c pool })

/-- The inbox lock section of `publish_remote_batch`. -/
def publishRemoteBatch (m : Mem) (central : CentralPool L) (c : SizeClass) (batch : B) :
    Option (Mem × CentralPool L) :=
  ((central.remoteInboxes c).pushBatch m batch).map fun (m, inbox) =>
    (m, { central with remoteInboxes := Function.update central.remoteInboxes c inbox })

/-- The lock section of `register_slab`. -/
def registerSlab (m : Mem) (advised : Bool) (central : CentralPool L) (c : SizeClass)
    (start blockSize capacity : Nat) : Mem × CentralPool L :=
  let (pool, range) :=
    (central.lists c).registerSlab m.pageSize advised start blockSize capacity
  (ClassPool.applyAdvice m range, { central with lists := Function.update central.lists c pool })

end CentralPool

end Orthotope
