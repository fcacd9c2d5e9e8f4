import Orthotope.System
import Orthotope.Headers

/-! Operations that make no page reclaimable.  All of the code but the sweeps of the central pool
only stores to memory, and a store takes reclaimable pages back into use. -/

namespace Orthotope

open ByteMemory

/-- The step from `m` to `m'` only stores. -/
abbrev Calm (m m' : Mem) : Prop := WritesIn (fun _ => True) m m'

theorem Calm.write (m : Mem) (a n v : Nat) : Calm m (m.write a n v) :=
  WritesIn.write fun _ _ _ => trivial

theorem Calm.of_writesIn {W : Nat → Prop} {m m' : Mem} (h : WritesIn W m m') : Calm m m' :=
  h.mono fun _ _ => trivial

theorem calm_writeLargeToBlock {m m' : Mem} {start size usable : Nat}
    (h : writeLargeToBlock m start size usable = some m') : Calm m m' := by
  obtain ⟨x, -, rfl⟩ := Option.map_eq_some_iff.mp h
  exact .of_writesIn (writesIn_writeEncodedFields ..)

/-! ### Free lists -/

section Lists

variable {m : Mem}

theorem calm_pushBlock (m : Mem) (l : FreeList) (block : Nat) :
    Calm m (BlockStore.pushBlock m l block).1 := Calm.write ..

theorem calm_pushBatch {l : FreeList} {batch : Batch} {r : Mem × FreeList}
    (h : BlockStore.pushBatch m l batch = some r) : Calm m r.1 := by
  have h : FreeList.pushBatch m l batch = some r := h
  unfold FreeList.pushBatch at h
  split at h
  · obtain rfl := Option.some.inj h
    exact .refl _ m
  · split at h
    · obtain rfl := Option.some.inj h
      exact Calm.write ..
    · cases h

theorem calm_popBatchUnchecked {l : FreeList} {max : Nat} {r : Mem × Batch × FreeList}
    (h : BlockStore.popBatchUnchecked m l max = some r) : Calm m r.1 := by
  have h : l.popBatchUnchecked m max = some r := h
  unfold FreeList.popBatchUnchecked at h
  dsimp only at h
  split at h
  · cases h
  · split at h
    · cases h
    · obtain rfl := Option.some.inj h
      exact Calm.write ..

namespace RemoteReturns

theorem calm_takeAllUnchecked {returns : RemoteReturns FreeList}
    {r : Mem × Batch × RemoteReturns FreeList}
    (h : returns.takeAllUnchecked m = some r) : Calm m r.1 := by
  obtain ⟨x, hx, rfl⟩ := Option.map_eq_some_iff.mp h
  exact calm_popBatchUnchecked hx

theorem calm_takePending {returns : RemoteReturns FreeList}
    {r : Mem × Batch × RemoteReturns FreeList}
    (h : returns.takePending m = some r) : Calm m r.1 := by
  unfold takePending at h
  split at h
  · obtain rfl := Option.some.inj h
    exact .refl _ m
  · exact calm_takeAllUnchecked h

theorem calm_pushBatch {returns : RemoteReturns FreeList} {batch : Batch}
    {r : Mem × RemoteReturns FreeList} (h : returns.pushBatch m batch = some r) : Calm m r.1 := by
  unfold pushBatch at h
  split at h
  · obtain rfl := Option.some.inj h
    exact .refl _ m
  · obtain ⟨x, hx, rfl⟩ := Option.map_eq_some_iff.mp h
    exact Orthotope.calm_pushBatch hx

end RemoteReturns

/-! ### Slabs and caches -/

theorem SlabRecord.calm_takePartialBatch {slab : SlabRecord FreeList} {max : Nat}
    {r : Mem × Batch × SlabRecord FreeList} (h : slab.takePartialBatch m max = some r) :
    Calm m r.1 := by
  obtain ⟨x, hx, rfl⟩ := Option.map_eq_some_iff.mp h
  exact calm_popBatchUnchecked hx

namespace LocalSlab

theorem calm_drainReclaimed {n : Nat} {free list : FreeList} {r : Mem × FreeList × FreeList}
    (h : drainReclaimed m n free list = some r) : Calm m r.1 := by
  induction n generalizing m free list with
  | zero =>
    obtain rfl := Option.some.inj h
    exact .refl _ m
  | succ n ih =>
    obtain ⟨x, -, hrest⟩ := Option.bind_eq_some_iff.mp h
    exact (calm_pushBlock m list x.1).trans (ih hrest)

theorem calm_drainFresh (m : Mem) (c : SizeClass) (blockSize n block : Nat) (list : FreeList) :
    Calm m (drainFresh m c blockSize n block list).1 := by
  induction n generalizing m block list with
  | zero => exact .refl _ m
  | succ n ih =>
    exact (Calm.of_writesIn (writesIn_writeEncodedFields m block _ _ _ _ _)).trans
      ((calm_pushBlock _ list block).trans (ih _ _ _))

theorem calm_popBatch {slab : LocalSlab FreeList} {max : Nat} {c : SizeClass}
    {r : Mem × Batch × LocalSlab FreeList} (h : slab.popBatch m max c = some r) : Calm m r.1 := by
  obtain ⟨x, hreclaimed, hrest⟩ := Option.bind_eq_some_iff.mp h
  obtain ⟨y, hy, rfl⟩ := Option.map_eq_some_iff.mp hrest
  exact (calm_drainReclaimed hreclaimed).trans
    ((calm_drainFresh x.1 c slab.blockSize _ _ x.2.2).trans (calm_popBatchUnchecked hy))

end LocalSlab

namespace LocalClassCache

variable {debug : Bool} {cache : LocalClassCache FreeList}

theorem calm_pushBlock {block : Nat} {r : Mem × LocalClassCache FreeList}
    (h : cache.pushBlock debug m block = some r) : Calm m r.1 := by
  unfold pushBlock at h
  split at h
  · unfold pushSpilledBlock at h
    dsimp only at h
    split at h
    · obtain ⟨slab, -, rfl⟩ := Option.map_eq_some_iff.mp h
      exact Orthotope.calm_pushBlock m slab.free _
    · obtain rfl := Option.some.inj h
      exact Orthotope.calm_pushBlock m _ _
  · obtain rfl := Option.some.inj h
    exact .refl _ m

theorem calm_popBatch {max : Nat} {c : SizeClass} {r : Mem × Batch × LocalClassCache FreeList}
    (h : cache.popBatch m max c = some r) : Calm m r.1 := by
  unfold popBatch at h
  split at h
  · obtain ⟨x, hx, rfl⟩ := Option.map_eq_some_iff.mp h
    exact calm_popBatchUnchecked hx
  · split at h
    · obtain ⟨slab, -, hrest⟩ := Option.bind_eq_some_iff.mp h
      obtain ⟨x, hx, rfl⟩ := Option.map_eq_some_iff.mp hrest
      exact LocalSlab.calm_popBatch hx
    · split at h
      · obtain ⟨x, hx, rfl⟩ := Option.map_eq_some_iff.mp h
        exact (Orthotope.calm_pushBlock m _ _).trans (calm_popBatchUnchecked hx)
      · obtain rfl := Option.some.inj h
        exact .refl _ m

end LocalClassCache

end Lists

end Orthotope
