import Orthotope.FreeList
import Orthotope.Lib.IndexedVec

/-! The per-class cache of a thread: `LocalSlab` and `LocalClassCache` of `thread_cache.rs`.  The
structures are generic in the representation `L` of their free lists, which is `FreeList` in the
code; the operations that follow links take the memory.  A `Vec` is a list, and an index past its
end, a panic in the source, has no result. -/

namespace Orthotope

open ByteMemory IndexedVec

/-- What the header of a popped block still needs. -/
inductive BlockReuse where
  | hotReuseRequestedOnly
  | needsOwnerAndRequestedSizeRefresh
  | needsHeaderRewrite
  deriving DecidableEq, Repr

structure LocalSlab (L : Type) where
  start : Nat
  endAddr : Nat
  blockSize : Nat
  capacity : Nat
  nextFresh : Nat
  free : L
  availableSlot : Option Nat
  deriving DecidableEq, Repr

structure LocalClassCache (L : Type) where
  hotBlock : Option Nat
  slabs : List (LocalSlab L)
  slabsByStart : List Nat
  availableSlabs : List Nat
  recentSlab : Option Nat
  shared : L
  sharedLen : Nat
  totalLen : Nat
  deriving DecidableEq, Repr

namespace LocalSlab

section Shape

variable {L : Type} [BlockList L]

/-- The slab's end does not overflow: every slab lies in the arena. -/
def new (start blockSize capacity : Nat) : LocalSlab L where
  start := start
  endAddr := start + blockSize * capacity
  blockSize := blockSize
  capacity := capacity
  nextFresh := 0
  free := BlockList.empty
  availableSlot := none

def reset (slab : LocalSlab L) : LocalSlab L :=
  { slab with nextFresh := 0, free := BlockList.empty, availableSlot := none }

def hasAvailableBlocks (slab : LocalSlab L) : Bool :=
  slab.nextFresh < slab.capacity || !BlockList.isEmpty slab.free

/-- The block-multiple test is `slab_addr_alignment_matches`, made in debug builds only. -/
def contains (debug : Bool) (slab : LocalSlab L) (block : Nat) : Bool :=
  slab.start ≤ block && block < slab.endAddr &&
    (!debug || (block - slab.start) % slab.blockSize == 0)

end Shape

variable {L B : Type} [BlockStore L B]

/-- Pops one block from a slab known to have reclaimed or fresh capacity. -/
def popBlockUnchecked (m : Mem) (slab : LocalSlab L) : Option (Nat × BlockReuse × LocalSlab L) :=
  if !BlockList.isEmpty slab.free then
    (BlockStore.popBlockUnchecked m slab.free).map fun (block, free) =>
      (block, .hotReuseRequestedOnly, { slab with free })
  else
    some (slab.start + slab.nextFresh * slab.blockSize, .needsHeaderRewrite,
      { slab with nextFresh := slab.nextFresh + 1 })

def pushBlock (m : Mem) (slab : LocalSlab L) (block : Nat) : Mem × LocalSlab L :=
  let (m, free) := BlockStore.pushBlock m slab.free block
  (m, { slab with free })

/-- Moves `n` reclaimed blocks from `free` to `list`, one by one. -/
def drainReclaimed (m : Mem) : Nat → L → L → Option (Mem × L × L)
  | 0, free, list => some (m, free, list)
  | n + 1, free, list =>
    (BlockStore.popBlockUnchecked m free).bind fun (block, free) =>
      let (m, list) := BlockStore.pushBlock m list block
      drainReclaimed m n free list

/-- Initializes `n` fresh blocks from `block` on and pushes them on `list`. -/
def drainFresh (m : Mem) (c : SizeClass) (blockSize : Nat) : Nat → Nat → L → Mem × L
  | 0, _, list => (m, list)
  | n + 1, block, list =>
    let m := initializeSmallToBlockUnchecked m block c
    let (m, list) := BlockStore.pushBlock m list block
    drainFresh m c blockSize n (block + blockSize) list

/-- Detaches up to `max` blocks, reclaimed ones first. -/
def popBatch (m : Mem) (slab : LocalSlab L) (max : Nat) (c : SizeClass) :
    Option (Mem × B × LocalSlab L) :=
  let reclaimed := min (BlockList.len slab.free) max
  (drainReclaimed m reclaimed slab.free BlockList.empty).bind fun (m, free, list) =>
    let fresh := min (max - reclaimed) (slab.capacity - slab.nextFresh)
    let (m, list) := drainFresh m c slab.blockSize fresh
      (slab.start + slab.nextFresh * slab.blockSize) list
    (BlockStore.popBatchUnchecked m list (reclaimed + fresh)).map fun (m, batch, _) =>
      (m, batch, { slab with free, nextFresh := slab.nextFresh + fresh })

end LocalSlab

namespace LocalClassCache

section Shape

variable {L : Type}

def new [BlockList L] : LocalClassCache L where
  hotBlock := none
  slabs := []
  slabsByStart := []
  availableSlabs := []
  recentSlab := none
  shared := BlockList.empty
  sharedLen := 0
  totalLen := 0

def isEmpty (cache : LocalClassCache L) : Bool := cache.totalLen == 0

/-- The start of slab `id`, the key of `slabs_by_start`. -/
def slabStart (cache : LocalClassCache L) (id : Nat) : Nat :=
  (cache.slabs[id]?.map LocalSlab.start).getD 0

def availableSlot (cache : LocalClassCache L) (id : Nat) : Option Nat :=
  cache.slabs[id]?.bind LocalSlab.availableSlot

def setAvailableSlot (cache : LocalClassCache L) (id : Nat) (slot : Option Nat) :
    LocalClassCache L :=
  { cache with slabs := cache.slabs.modify id fun slab => { slab with availableSlot := slot } }

def markSlabAvailable (cache : LocalClassCache L) (id : Nat) : LocalClassCache L :=
  if (cache.availableSlot id).isSome then cache
  else
    { cache.setAvailableSlot id (some cache.availableSlabs.length) with
      availableSlabs := cache.availableSlabs ++ [id] }

def markSlabUnavailable (cache : LocalClassCache L) (id : Nat) : LocalClassCache L :=
  match cache.availableSlot id with
  | none => cache
  | some slot =>
    let rest := swapRemove cache.availableSlabs slot
    let cache := { cache.setAvailableSlot id none with availableSlabs := rest }
    match rest[slot]? with
    | some moved => cache.setAvailableSlot moved (some slot)
    | none => cache

def findSlab (debug : Bool) (cache : LocalClassCache L) (block : Nat) : Option Nat :=
  let index := partitionPoint (fun id => decide (cache.slabStart id ≤ block)) cache.slabsByStart
  if index = 0 then none
  else
    (cache.slabsByStart[index - 1]?).filter fun id =>
      (cache.slabs[id]?.map fun slab => slab.contains debug block).getD false

/-- The slab that a spilled block goes back to: the recent one when it contains the block, else the
one that the search finds. -/
def homeSlab (debug : Bool) (cache : LocalClassCache L) (block : Nat) : Option Nat :=
  match cache.recentSlab.filter fun id =>
      (cache.slabs[id]?.map fun slab => slab.contains debug block).getD false with
  | some id => some id
  | none => cache.findSlab debug block

def pushOwnedSlab [BlockList L] (cache : LocalClassCache L) (start blockSize capacity : Nat) :
    LocalClassCache L :=
  let (id, cache) :=
    match binarySearchByKey cache.slabStart start cache.slabsByStart with
    | .ok slot =>
      let id := cache.slabsByStart[slot]?.getD 0
      let cache := cache.markSlabUnavailable id
      (id, { cache with slabs := cache.slabs.modify id LocalSlab.reset })
    | .error slot =>
      let id := cache.slabs.length
      (id, { cache with
        slabs := cache.slabs ++ [LocalSlab.new start blockSize capacity]
        slabsByStart := cache.slabsByStart.insertIdx slot id })
  let cache := cache.markSlabAvailable id
  { cache with recentSlab := some id, totalLen := cache.totalLen + capacity }

end Shape

variable {L B : Type} [BlockStore L B]

/-- Pops one block from a class cache known to be non-empty. -/
def popBlockUnchecked (m : Mem) (cache : LocalClassCache L) :
    Option (Nat × BlockReuse × LocalClassCache L) :=
  match cache.hotBlock with
  | some block =>
    some (block, .hotReuseRequestedOnly,
      { cache with hotBlock := none, totalLen := cache.totalLen - 1 })
  | none =>
    match cache.availableSlabs.getLast? with
    | some id =>
      cache.slabs[id]?.bind fun slab =>
        (slab.popBlockUnchecked m).map fun (block, reuse, slab) =>
          let cache := { cache with
            slabs := cache.slabs.set id slab
            recentSlab := some id
            totalLen := cache.totalLen - 1 }
          (block, reuse,
            if slab.hasAvailableBlocks then cache else cache.markSlabUnavailable id)
    | none =>
      (BlockStore.popBlockUnchecked m cache.shared).map fun (block, shared) =>
        (block, .needsOwnerAndRequestedSizeRefresh,
          { cache with
            shared
            sharedLen := cache.sharedLen - 1
            totalLen := cache.totalLen - 1 })

def pushSpilledBlock (debug : Bool) (m : Mem) (cache : LocalClassCache L) (block : Nat) :
    Option (Mem × LocalClassCache L) :=
  match cache.homeSlab debug block with
  | some id =>
    cache.slabs[id]?.map fun slab =>
      let wasEmpty := !slab.hasAvailableBlocks
      let (m, slab) := slab.pushBlock m block
      let cache := { cache with slabs := cache.slabs.set id slab, recentSlab := some id }
      (m, if wasEmpty then cache.markSlabAvailable id else cache)
  | none =>
    let (m, shared) := BlockStore.pushBlock m cache.shared block
    some (m, { cache with shared, sharedLen := cache.sharedLen + 1 })

def pushBlock (debug : Bool) (m : Mem) (cache : LocalClassCache L) (block : Nat) :
    Option (Mem × LocalClassCache L) :=
  let replaced := { cache with hotBlock := some block, totalLen := cache.totalLen + 1 }
  match cache.hotBlock with
  | some previousHot => replaced.pushSpilledBlock debug m previousHot
  | none => some (m, replaced)

def pushSharedBatch (m : Mem) (cache : LocalClassCache L) (batch : B) :
    Option (Mem × LocalClassCache L) :=
  (BlockStore.pushBatch m cache.shared batch).map fun (m, shared) =>
    (m, { cache with
      shared
      sharedLen := cache.sharedLen + BlockStore.batchLen L batch
      totalLen := cache.totalLen + BlockStore.batchLen L batch })

/-- Detaches up to `max` blocks from one source: the shared list, else the last available slab, else
the hot block. -/
def popBatch (m : Mem) (cache : LocalClassCache L) (max : Nat) (c : SizeClass) :
    Option (Mem × B × LocalClassCache L) :=
  if cache.sharedLen ≠ 0 then
    (BlockStore.popBatchUnchecked m cache.shared max).map fun (m, batch, shared) =>
      (m, batch, { cache with
        shared
        sharedLen := cache.sharedLen - BlockStore.batchLen L batch
        totalLen := cache.totalLen - BlockStore.batchLen L batch })
  else
    match cache.availableSlabs.getLast? with
    | some id =>
      cache.slabs[id]?.bind fun slab =>
        (slab.popBatch m max c).map fun (m, batch, slab) =>
          let cache := { cache with
            slabs := cache.slabs.set id slab
            totalLen := cache.totalLen - BlockStore.batchLen L batch }
          (m, batch, if slab.hasAvailableBlocks then cache else cache.markSlabUnavailable id)
    | none =>
      match cache.hotBlock with
      | some block =>
        let (m, list) := BlockStore.pushBlock m (BlockList.empty : L) block
        (BlockStore.popBatchUnchecked m list 1).map fun (m, batch, _) =>
          (m, batch, { cache with hotBlock := none, totalLen := cache.totalLen - 1 })
      | none => some (m, BlockStore.emptyBatch L, cache)

end LocalClassCache

end Orthotope
