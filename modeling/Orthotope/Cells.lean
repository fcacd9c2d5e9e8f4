import Orthotope.System
import Orthotope.CentralPoolTransfer
import Orthotope.LargeObjectInvariant
import Orthotope.Lib.Ownership

/-! Who has which piece of the arenas.  A cell is a piece of memory that is handed around as a
whole: a block of a registered slab, a large block, or a span that was reserved and is not
registered yet. `World.own` gives the cells of every place where one can be; that any two of them
are disjoint is the centre of the invariant. -/

namespace Orthotope

open ByteMemory

abbrev Seq := List Nat

/-- A piece of the arena of `alloc`, of a class if it is a small block. -/
structure Cell (ι : Type) where
  alloc : ι
  cls : Option SizeClass
  lo : Nat
  hi : Nat
  deriving DecidableEq

/-- Two cells that share no byte. -/
def Cell.Apart {ι : Type} (x y : Cell ι) : Prop := x.hi ≤ y.lo ∨ y.hi ≤ x.lo

instance {ι : Type} : Std.Symm (@Cell.Apart ι) := ⟨fun _ _ h => h.symm⟩

/-- The places of cells. -/
inductive Place (ι κ : Type) where
  | client
  | hot (k : κ) (c : SizeClass)
  | slabFree (k : κ) (c : SizeClass)
  | fresh (k : κ) (c : SizeClass)
  | shared (k : κ) (c : SizeClass)
  | staged (k : κ) (c : SizeClass)
  | partialFree (a : ι) (c : SizeClass)
  | full (a : ι) (c : SizeClass)
  | inbox (a : ι) (c : SizeClass)
  | largeLive (a : ι)
  | largeFree (a : ι)
  | hand (k : κ)
  deriving DecidableEq

namespace Setup

variable {ι κ : Type} (setup : Setup ι κ)

/-- The cell of the block at `b` of class `c`. -/
def smallCell (a : ι) (c : SizeClass) (b : Nat) : Cell ι :=
  ⟨a, some c, b, b + (setup.config a).classBlockSize c⟩

def smallCells (a : ι) (c : SizeClass) (blocks : Multiset Nat) : Multiset (Cell ι) :=
  blocks.map (setup.smallCell a c)

@[simp] theorem smallCells_zero (a : ι) (c : SizeClass) : setup.smallCells a c 0 = 0 := rfl

@[simp] theorem smallCells_add (a : ι) (c : SizeClass) (s t : Multiset Nat) :
    setup.smallCells a c (s + t) = setup.smallCells a c s + setup.smallCells a c t :=
  Multiset.map_add _ _ _

@[simp] theorem smallCells_singleton (a : ι) (c : SizeClass) (b : Nat) :
    setup.smallCells a c {b} = {setup.smallCell a c b} :=
  Multiset.map_singleton _ _

theorem mem_smallCells {a : ι} {c : SizeClass} {blocks : Multiset Nat} {x : Cell ι} :
    x ∈ setup.smallCells a c blocks ↔ ∃ b ∈ blocks, setup.smallCell a c b = x :=
  Multiset.mem_map

theorem smallCell_mem {a : ι} {c : SizeClass} {blocks : Multiset Nat} {b : Nat} (h : b ∈ blocks) :
    setup.smallCell a c b ∈ setup.smallCells a c blocks :=
  Multiset.mem_map_of_mem _ h

end Setup

def largeCell {ι : Type} (a : ι) (block : FreeLargeBlock) : Cell ι :=
  ⟨a, none, block.blockAddr, block.blockAddr + block.blockSize⟩

/-- The cell of a live small allocation; large ones are in the registry. -/
def Live.smallCell? {ι κ : Type} (setup : Setup ι κ) (entry : Live ι κ) : Option (Cell ι) :=
  (SizeClass.fromRequest entry.size).map fun c =>
    setup.smallCell entry.alloc c (blockStartFromUserPtr entry.ptr)

/-- The small blocks that a call has in its hands, with their class. -/
def Pc.blocks {ι κ : Type} : Pc ι κ Seq → Option (SizeClass × List Nat)
  | .gotBatch c _ batch | .publishing c batch _ | .returning c batch _ => some (c, batch)
  | .gotSlab c _ start blockSize capacity | .registered c _ start blockSize capacity =>
    some (c, slabBlocks start blockSize capacity)
  | .popped c _ block _ | .route c block _ => some (c, [block])
  | _ => none

/-- The span or large block that a call has in its hands. -/
def Pc.extent {ι κ : Type} : Pc ι κ Seq → Option FreeLargeBlock
  | .carved _ _ span => some ⟨span.start, span.size⟩
  | .largeGot _ start blockSize | .largeWritten _ start blockSize => some ⟨start, blockSize⟩
  | _ => none

def Pc.cells {ι κ : Type} (setup : Setup ι κ) (a : ι) (pc : Pc ι κ Seq) : Multiset (Cell ι) :=
  (match pc.blocks with
    | some (c, blocks) => setup.smallCells a c blocks
    | none => 0) +
  match pc.extent with
    | some block => {largeCell a block}
    | none => 0

/-- The allocation that a call has taken back from its client and not released yet. -/
def Pc.entry {ι κ : Type} : Pc ι κ Seq → Option (Live ι κ)
  | .releasing entry _ _ => some entry
  | _ => none

namespace Thread

variable {ι κ : Type}

def cells (setup : Setup ι κ) : Thread ι κ Seq → Multiset (Cell ι)
  | .idle _ => 0
  | .busy a pc => pc.cells setup a

def entries : Thread ι κ Seq → List (Live ι κ)
  | .idle _ => []
  | .busy _ pc => pc.entry.toList

end Thread

namespace World

variable {ι κ : Type} (setup : Setup ι κ) (w : World ι κ Seq Seq)

/-- The blocks of a bag of cache `k`, which belong to the allocator it is bound to. -/
def cacheCells (k : κ) (c : SizeClass) (blocks : Multiset Nat) : Multiset (Cell ι) :=
  match (w.caches k).owner with
  | none => 0
  | some a => setup.smallCells a c blocks

/-- The cells of every place. -/
def own : Place ι κ → Multiset (Cell ι)
  | .client => (w.live.filterMap (Live.smallCell? setup) : List (Cell ι))
  | .hot k c => w.cacheCells setup k c ((w.caches k).classes c).hotBag
  | .slabFree k c => w.cacheCells setup k c ((w.caches k).classes c).freeBag
  | .fresh k c => w.cacheCells setup k c ((w.caches k).classes c).freshBag
  | .shared k c => w.cacheCells setup k c ((w.caches k).classes c).sharedBag
  | .staged k c => w.cacheCells setup k c ((w.caches k).remoteReturns c).pending
  | .partialFree a c => setup.smallCells a c ((w.allocators a).central.lists c).partialBag
  | .full a c => setup.smallCells a c ((w.allocators a).central.lists c).fullBag
  | .inbox a c => setup.smallCells a c ((w.allocators a).central.inboxBag c)
  | .largeLive a => ((w.allocators a).large.liveBag).map (largeCell a)
  | .largeFree a => ((w.allocators a).large.freeBag).map (largeCell a)
  | .hand k => (w.threads k).cells setup

/-- The large allocations that clients or calls may still release, by allocator and pointer. -/
def tokens : Option κ → Multiset (ι × Nat)
  | none => ((w.live.filter fun l => (SizeClass.fromRequest l.size).isNone).map
      fun l => (l.alloc, l.ptr) : List (ι × Nat))
  | some k => ((w.threads k).entries.map fun l => (l.alloc, l.ptr) : List (ι × Nat))

/-- Every allocation that is live, or on its way to be released. -/
def entries : Option κ → List (Live ι κ)
  | none => w.live
  | some k => (w.threads k).entries

end World

end Orthotope
