import Orthotope.Header

/-! Intrusive free lists, `free_list.rs`.  A list is its head and its length; the successor of a
block is the link word in its header, so every operation passes the memory.  An unchecked access to
a missing head, tail or successor is undefined in the source and has no result here. -/

namespace Orthotope

open ByteMemory

/-- What the allocator's structures ask of a free list without following its links. -/
class BlockList (L : Type) where
  empty : L
  len : L → Nat
  isEmpty : L → Bool

/-- Intrusive LIFO list of detached allocator blocks. -/
structure FreeList where
  head : Option Nat
  len : Nat
  deriving DecidableEq, Repr

/-- Detached block chain used for transfers between lists. -/
structure Batch where
  head : Option Nat
  tail : Option Nat
  len : Nat
  deriving DecidableEq, Repr

instance : BlockList FreeList where
  empty := ⟨none, 0⟩
  len l := l.len
  isEmpty l := l.head.isNone

namespace FreeList

def pushBlock (m : Mem) (l : FreeList) (block : Nat) : Mem × FreeList :=
  (writeSmallFreeListNext m block l.head, ⟨some block, l.len + 1⟩)

def popBlockUnchecked (m : Mem) (l : FreeList) : Option (Nat × FreeList) :=
  l.head.map fun head => (head, ⟨readSmallFreeListNext m head, l.len - 1⟩)

def popBlock (m : Mem) (l : FreeList) : Option (Option Nat × FreeList) :=
  if l.len = 0 then some (none, l)
  else (l.popBlockUnchecked m).map fun (block, l) => (some block, l)

/-- Prepends a detached batch to the list while preserving batch order. -/
def pushBatch (m : Mem) (l : FreeList) (batch : Batch) : Option (Mem × FreeList) :=
  if batch.len = 0 then some (m, l)
  else
    match batch.head, batch.tail with
    | some head, some tail =>
      some (writeSmallFreeListNext m tail l.head, ⟨some head, l.len + batch.len⟩)
    | _, _ => none

/-- The block reached from `b` by following `n` links. -/
def walk (m : Mem) : Nat → Nat → Option Nat
  | 0, b => some b
  | n + 1, b => (readSmallFreeListNext m b).bind (walk m n)

/-- Detaches up to `max` blocks from the front of a known non-empty list. -/
def popBatchUnchecked (m : Mem) (l : FreeList) (max : Nat) : Option (Mem × Batch × FreeList) :=
  let take := min max l.len
  match l.head with
  | none => none
  | some head =>
    match walk m (take - 1) head with
    | none => none
    | some tail =>
      some (writeSmallFreeListNext m tail none, ⟨some head, some tail, take⟩,
        ⟨readSmallFreeListNext m tail, l.len - take⟩)

def emptyBatch : Batch := ⟨none, none, 0⟩

def popBatch (m : Mem) (l : FreeList) (max : Nat) : Option (Mem × Batch × FreeList) :=
  if max = 0 ∨ l.len = 0 then some (m, emptyBatch, l) else l.popBatchUnchecked m max

end FreeList

namespace Batch

def isEmpty (batch : Batch) : Bool := batch.head.isNone

/-- Pops one block from a known non-empty detached batch. -/
def popBlockUnchecked (m : Mem) (batch : Batch) : Option (Nat × Batch) :=
  batch.head.map fun head =>
    let len := batch.len - 1
    (head, ⟨readSmallFreeListNext m head, if len = 0 then none else batch.tail, len⟩)

def fromSingle (m : Mem) (block : Nat) : Mem × Batch :=
  (writeSmallFreeListNext m block none, ⟨some block, some block, 1⟩)

end Batch

/-! ### Representations

The caches and the pool are written once over the list operations they use.  At `FreeList` they are
the code; at `List Nat` a list is the sequence of its blocks and no operation touches the memory. -/

/-- A representation `L` of free lists with detached chains `B`. -/
class BlockStore (L : Type) (B : outParam Type) extends BlockList L where
  pushBlock : Mem → L → Nat → Mem × L
  popBlockUnchecked : Mem → L → Option (Nat × L)
  pushBatch : Mem → L → B → Option (Mem × L)
  popBatchUnchecked : Mem → L → Nat → Option (Mem × B × L)
  emptyBatch : B
  batchLen : B → Nat
  batchIsEmpty : B → Bool
  batchPopBlockUnchecked : Mem → B → Option (Nat × B)

instance : BlockStore FreeList Batch where
  pushBlock := FreeList.pushBlock
  popBlockUnchecked := FreeList.popBlockUnchecked
  pushBatch := FreeList.pushBatch
  popBatchUnchecked := FreeList.popBatchUnchecked
  emptyBatch := FreeList.emptyBatch
  batchLen := Batch.len
  batchIsEmpty := Batch.isEmpty
  batchPopBlockUnchecked := Batch.popBlockUnchecked

instance : BlockList (List Nat) where
  empty := []
  len := List.length
  isEmpty := List.isEmpty

instance : BlockStore (List Nat) (List Nat) where
  pushBlock m l block := (m, block :: l)
  popBlockUnchecked _ l := l.head?.map fun block => (block, l.tail)
  pushBatch m l batch := some (m, batch ++ l)
  popBatchUnchecked m l max := if l = [] ∨ max = 0 then none else some (m, l.take max, l.drop max)
  emptyBatch := []
  batchLen := List.length
  batchIsEmpty := List.isEmpty
  batchPopBlockUnchecked _ l := l.head?.map fun block => (block, l.tail)

section Seq

variable (m : Mem) (l batch : List Nat) (block max : Nat)

@[simp] theorem seq_empty : (BlockList.empty : List Nat) = [] := rfl

@[simp] theorem seq_len : BlockList.len l = l.length := rfl

@[simp] theorem seq_isEmpty : BlockList.isEmpty l = l.isEmpty := rfl

@[simp] theorem seq_pushBlock : BlockStore.pushBlock m l block = (m, block :: l) := rfl

@[simp] theorem seq_popBlockUnchecked :
    BlockStore.popBlockUnchecked m l = l.head?.map fun block => (block, l.tail) := rfl

@[simp] theorem seq_pushBatch : BlockStore.pushBatch m l batch = some (m, batch ++ l) := rfl

@[simp] theorem seq_popBatchUnchecked :
    BlockStore.popBatchUnchecked m l max =
      if l = [] ∨ max = 0 then none else some (m, l.take max, l.drop max) := rfl

@[simp] theorem seq_emptyBatch : BlockStore.emptyBatch (List Nat) = [] := rfl

@[simp] theorem seq_batchLen : BlockStore.batchLen (List Nat) batch = batch.length := rfl

@[simp] theorem seq_batchIsEmpty : BlockStore.batchIsEmpty (List Nat) batch = batch.isEmpty := rfl

@[simp] theorem seq_batchPopBlockUnchecked :
    BlockStore.batchPopBlockUnchecked (List Nat) m batch =
      batch.head?.map fun block => (block, batch.tail) := rfl

end Seq

end Orthotope
