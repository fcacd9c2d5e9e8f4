import Orthotope.ThreadCache
import Orthotope.LargeObject

/-! One allocator, `allocator.rs`: its parts, its construction, and the checks that a free makes
before it changes anything.  The calls themselves are sequences of atomic steps, in
`Orthotope.System`. -/

namespace Orthotope

open ByteMemory

structure Allocator (L : Type) where
  config : AllocatorConfig
  arena : Arena
  central : CentralPool L
  large : LargeObjectState

def validateAllocatorConfig (config : AllocatorConfig) : Except InitError Unit :=
  if config.alignment < headerAlignment then
    .error (.invalidConfig "allocator alignment must be at least 64 bytes")
  else .ok ()

def validateExpectedSize (header : AllocationHeaderPrefix) (expectedSize : Nat) :
    Except FreeError Unit :=
  if expectedSize ≠ header.requestedSize then
    .error (.sizeMismatch expectedSize header.requestedSize)
  else .ok ()

def decodeHeader (m : Mem) (userPtr : Nat) :
    Except FreeError (AllocationHeaderPrefix × AllocationKind) :=
  if userPtr < headerSize then .error .corruptHeader
  else if (userPtr - headerSize) % headerAlignment ≠ 0 then .error .corruptHeader
  else readFromUserPtr m userPtr

/-- What is left of a free after its checks: routing a small block by its owner, or the release of a
large one. -/
inductive FreeRoute where
  | small (c : SizeClass) (block owner : Nat)
  | large (requestedSize usableSize : Nat)
  deriving DecidableEq, Repr

namespace Allocator

variable {L : Type}

/-- Creates an allocator whose arena mapping the system placed at `mapping`. -/
def new [BlockList L] (config : AllocatorConfig) (mapping : Nat) : Except InitError (Allocator L) :=
  match validateAllocatorConfig config with
  | .error e => .error e
  | .ok () =>
    match Arena.new config mapping with
    | .error e => .error e
    | .ok arena => .ok ⟨config, arena, CentralPool.new, LargeObjectState.new⟩

variable (allocator : Allocator L)

def validateSmallBlockForFree (debug : Bool) (m : Mem) (userPtr : Nat) : Except FreeError Nat :=
  let blockStart := blockStartFromUserPtr userPtr
  if !allocator.arena.containsBlockStart blockStart then .error .foreignPointer
  else if smallBlockIsMarkedFreed debug m blockStart then .error .doubleFree
  else .ok blockStart

/-- The checks of `deallocate_decoded`. -/
def deallocateDecoded (debug : Bool) (m : Mem) (userPtr : Nat) (header : AllocationHeaderPrefix)
    (kind : AllocationKind) : Except FreeError FreeRoute :=
  match kind with
  | .small c =>
    match allocator.validateSmallBlockForFree debug m userPtr with
    | .error e => .error e
    | .ok block => .ok (.small c block header.ownerCacheId)
  | .large => .ok (.large header.requestedSize header.usableSize)

/-- The checks of `deallocate_decoded_with_expected_size`. -/
def deallocateDecodedWithExpectedSize (debug : Bool) (m : Mem) (userPtr : Nat)
    (header : AllocationHeaderPrefix) (kind : AllocationKind) (expectedSize : Nat) :
    Except FreeError FreeRoute :=
  match kind with
  | .small c =>
    match allocator.validateSmallBlockForFree debug m userPtr with
    | .error e => .error e
    | .ok block =>
      match validateExpectedSize header expectedSize with
      | .error e => .error e
      | .ok () => .ok (.small c block header.ownerCacheId)
  | .large =>
    match validateExpectedSize header expectedSize with
    | .error e => .error e
    | .ok () => .ok (.large header.requestedSize header.usableSize)

/-- The checks of `deallocate_with_cache`, or with an expected size those of
`deallocate_with_size_checked`. -/
def checkFree (debug : Bool) (m : Mem) (userPtr : Nat) (expectedSize : Option Nat) :
    Except FreeError FreeRoute :=
  match decodeHeader m userPtr with
  | .error e => .error e
  | .ok (header, kind) =>
    match expectedSize with
    | none => allocator.deallocateDecoded debug m userPtr header kind
    | some size =>
      allocator.deallocateDecodedWithExpectedSize debug m userPtr header kind size

/-- The block size of a large request, when its arithmetic does not overflow. -/
def largeBlockSize (requestedSize : Nat) : Option Nat :=
  (checkedAdd headerSize requestedSize).bind fun total =>
    (alignUpChecked total allocator.config.alignment).bind fun blockSize =>
      if blockSize < headerSize then none else some blockSize

end Allocator

end Orthotope
