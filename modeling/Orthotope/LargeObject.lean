import Orthotope.Header

/-! The large-object registry, `large_object.rs`.  The live `HashMap` is an association list keyed
by user pointer and the free `BTreeMap` one of buckets in the order of their size.  A registration
twice, the two `unreachable!` branches and a counter that would go below zero have no result. -/

namespace Orthotope

/-- Live-registry entry for one large allocation. -/
structure LargeAllocationRecord where
  blockAddr : Nat
  blockSize : Nat
  requestedSize : Nat
  usableSize : Nat
  deriving DecidableEq, Repr

structure FreeLargeBlock where
  blockAddr : Nat
  blockSize : Nat
  deriving DecidableEq, Repr

def FreeLargeBlock.usableSize (block : FreeLargeBlock) : Nat := block.blockSize - headerSize

structure LargeObjectState where
  live : List (Nat × LargeAllocationRecord)
  liveBytes : Nat
  free : List (Nat × List FreeLargeBlock)
  freeBlocks : Nat
  freeBytes : Nat
  deriving DecidableEq, Repr

/-- `BTreeMap::insert`: sets the bucket of size `k`, in its place in the order. -/
def insertBucket (k : Nat) (blocks : List FreeLargeBlock) :
    List (Nat × List FreeLargeBlock) → List (Nat × List FreeLargeBlock)
  | [] => [(k, blocks)]
  | (k', blocks') :: rest =>
    if k < k' then (k, blocks) :: (k', blocks') :: rest
    else if k = k' then (k, blocks) :: rest
    else (k', blocks') :: insertBucket k blocks rest

namespace LargeObjectState

def new : LargeObjectState := ⟨[], 0, [], 0, 0⟩

def insertFreeBlock (state : LargeObjectState) (block : FreeLargeBlock) : LargeObjectState :=
  let blocks := (state.free.lookup block.blockSize).getD []
  { state with
    free := insertBucket block.blockSize (blocks ++ [block]) state.free
    freeBlocks := state.freeBlocks + 1
    freeBytes := state.freeBytes + block.blockSize }

/-- The smallest bucket that is large enough gives its last block up; an emptied bucket goes. -/
def takeBestFitBlock (state : LargeObjectState) (minimumBlockSize : Nat) :
    Option (Option FreeLargeBlock × LargeObjectState) :=
  match state.free.find? fun bucket => minimumBlockSize ≤ bucket.1 with
  | none => some (none, state)
  | some (bucketSize, _) =>
    (state.free.lookup bucketSize).bind fun blocks =>
      blocks.getLast?.bind fun block =>
        let rest := state.free.eraseP fun bucket => bucket.1 == bucketSize
        let free := if blocks.dropLast.isEmpty then rest
          else insertBucket bucketSize blocks.dropLast rest
        if state.freeBlocks = 0 ∨ state.freeBytes < block.blockSize then none
        else
          some (some block, { state with
            free
            freeBlocks := state.freeBlocks - 1
            freeBytes := state.freeBytes - block.blockSize })

/-- The lock section of `take_reusable_block`. -/
def takeReusableBlock (state : LargeObjectState) (minimumBlockSize : Nat) :
    Option (Option FreeLargeBlock × LargeObjectState) :=
  state.takeBestFitBlock minimumBlockSize

/-- Records one newly allocated large block as live. -/
def recordLiveAllocation (state : LargeObjectState)
    (userPtr blockStart blockSize requestedSize usableSize : Nat) : Option LargeObjectState :=
  match state.live.lookup userPtr with
  | some _ => none
  | none =>
    some { state with
      live := (userPtr, ⟨blockStart, blockSize, requestedSize, usableSize⟩) :: state.live
      liveBytes := state.liveBytes + blockSize }

/-- Validates and releases the live record of a large allocation; an error changes nothing. -/
def validateAndReleaseLiveAllocation (state : LargeObjectState)
    (userPtr requestedSize usableSize : Nat) : Option (Except FreeError LargeObjectState) :=
  match state.live.lookup userPtr with
  | none => some (.error .alreadyFreedOrUnknownLarge)
  | some record =>
    if record.requestedSize ≠ requestedSize ∨ record.usableSize ≠ usableSize then
      some (.error .corruptHeader)
    else if state.liveBytes < record.blockSize then none
    else
      let state := { state with
        live := state.live.eraseP fun entry => entry.1 == userPtr
        liveBytes := state.liveBytes - record.blockSize }
      some (.ok (state.insertFreeBlock ⟨record.blockAddr, record.blockSize⟩))

end LargeObjectState

end Orthotope
