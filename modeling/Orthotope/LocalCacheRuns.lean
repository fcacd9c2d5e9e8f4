import Orthotope.LocalCacheLinks
import Orthotope.Lib.StepSystem
import Mathlib.Logic.Relation

/-! Runs of one class of a thread's cache, on the code's own lists.  A run is any sequence of pushes
and pops that respects who owns which block, with writes of the owners to their blocks in between.
Every state it reaches is well formed, and every request finds what it accesses without a check and
changes the bag of held blocks by its own blocks. -/

namespace Orthotope

open ByteMemory LinkedChain IndexedVec BagSum

namespace LocalClassCache

/-! ### Requests -/

/-- The memory and the cache that the requests of one class work on. -/
structure State where
  mem : Mem
  cache : LocalClassCache FreeList

inductive Request where
  | pushOwnedSlab (start blockSize capacity : Nat)
  | pushBlock (block : Nat)
  | pushSharedBatch (batch : Batch)
  | popBlockUnchecked
  | popBatch (max : Nat)
  deriving DecidableEq, Repr

/-- What a request answers. -/
inductive Answer where
  | nothing
  | block (block : Nat) (reuse : BlockReuse)
  | batch (batch : Batch)
  deriving DecidableEq, Repr

variable (debug : Bool) (c : SizeClass)

/-- The state after a request, and its answer. -/
def State.serve (s : State) : Request → Option (State × Answer)
  | .pushOwnedSlab start blockSize capacity =>
    some (⟨s.mem, s.cache.pushOwnedSlab start blockSize capacity⟩, .nothing)
  | .pushBlock block => (s.cache.pushBlock debug s.mem block).map fun r => (⟨r.1, r.2⟩, .nothing)
  | .pushSharedBatch batch =>
    (s.cache.pushSharedBatch s.mem batch).map fun r => (⟨r.1, r.2⟩, .nothing)
  | .popBlockUnchecked =>
    (s.cache.popBlockUnchecked s.mem).map fun r => (⟨s.mem, r.2.2⟩, .block r.1 r.2.1)
  | .popBatch max => (s.cache.popBatch s.mem max c).map fun r => (⟨r.1, r.2.2⟩, .batch r.2.1)

/-- The cache with the lists that its links lead through. -/
def State.contents (s : State) : LocalClassCache (List Nat) := s.cache.map (FreeList.blocks s.mem)

/-- The blocks held: hot block, reclaimed and fresh blocks of the slabs, shared list. -/
def State.bag (s : State) : Multiset Nat := s.contents.bag

/-- A block that is not held, and that is one of the blocks of every known slab it lies in. -/
def State.Pushable (s : State) (b : Nat) : Prop :=
  (headerAlignment ∣ b ∧ 0 < b ∧ b < 2 ^ 64) ∧ b ∉ s.bag ∧
    ∀ slab ∈ s.cache.slabs, slab.start ≤ b → b < slab.endAddr → b ∈ slab.blocks

/-- What the callers see to: only blocks that the cache does not hold are pushed, a slab is a span
of whole blocks that the cache has a record of, or that lies apart from all it has one of, and pops
are made when something is held. -/
def State.Allows (s : State) : Request → Prop
  | .pushOwnedSlab start blockSize capacity =>
    0 < start ∧ 0 < blockSize ∧ 0 < capacity ∧ headerAlignment ∣ start ∧
      headerAlignment ∣ blockSize ∧ start + blockSize * capacity < 2 ^ 64 ∧
      (∀ slab ∈ s.cache.slabs,
        slab.shape = (start, start + blockSize * capacity, blockSize, capacity) ∨
          slab.endAddr ≤ start ∨ start + blockSize * capacity ≤ slab.start) ∧
      ∀ b ∈ s.bag, b < start ∨ start + blockSize * capacity ≤ b
  | .pushBlock block => s.Pushable block
  | .pushSharedBatch batch => batch.Detached s.mem ∧ ∀ b ∈ batch.blocks s.mem, s.Pushable b
  | .popBlockUnchecked => s.cache.totalLen ≠ 0
  | .popBatch max => s.cache.totalLen ≠ 0 ∧ 0 < max

instance State.decidablePushable (s : State) (b : Nat) : Decidable (s.Pushable b) :=
  inferInstanceAs (Decidable (_ ∧ _ ∧ _))

instance State.decidableAllows (s : State) (request : Request) : Decidable (s.Allows request) := by
  cases request with
  | pushOwnedSlab start blockSize capacity =>
    exact inferInstanceAs (Decidable (_ ∧ _ ∧ _ ∧ _ ∧ _ ∧ _ ∧ _ ∧ _))
  | pushBlock block => exact State.decidablePushable s block
  | pushSharedBatch batch => exact inferInstanceAs (Decidable ((_ ∧ _ ∧ _) ∧ _))
  | popBlockUnchecked => exact inferInstanceAs (Decidable (_ ≠ _))
  | popBatch max => exact inferInstanceAs (Decidable (_ ∧ _))

/-- One step of a run: a request that the callers may make, or a change of memory elsewhere, which
leaves the links of the cache's lists alone. -/
inductive State.Step (s : State) : State → Prop
  | request {s' : State} {answer : Answer} (request : Request) (hallowed : s.Allows request)
      (hserve : s.serve debug c request = some (s', answer)) : Step s s'
  | elsewhere (mem : Mem) (hlinks : ∀ b ∈ s.contents.lists.flatten,
      readSmallFreeListNext mem b = readSmallFreeListNext s.mem b) : Step s ⟨mem, s.cache⟩

/-- The states that the runs from the new cache reach. -/
def State.Reachable (s : State) : Prop :=
  ∃ mem : Mem, Relation.ReflTransGen (State.Step debug c) ⟨mem, new⟩ s

/-! ### What holds in every state -/

/-- Counters, records and availability of a class cache are consistent. -/
structure WellFormed (m : Mem) (cache : LocalClassCache FreeList) : Prop where
  totalLen : cache.totalLen = (if cache.hotBlock.isSome then 1 else 0) + cache.sharedLen +
    (cache.slabs.map fun slab => slab.free.len + (slab.capacity - slab.nextFresh)).sum
  sharedLen : cache.sharedLen = cache.shared.len
  /-- The available slabs are listed once each, at the place that the record notes. -/
  available : ∀ i id, cache.availableSlabs[i]? = some id ↔
    ∃ slab : LocalSlab FreeList, cache.slabs[id]? = some slab ∧ slab.availableSlot = some i
  listed : ∀ slab ∈ cache.slabs, slab.availableSlot.isSome = true ↔
    0 < slab.free.len ∨ slab.nextFresh < slab.capacity
  byStart_sorted : cache.slabsByStart.Pairwise fun i j => cache.slabStart i < cache.slabStart j
  byStart_all : ∀ id, id ∈ cache.slabsByStart ↔ id < cache.slabs.length
  recent : ∀ id, cache.recentSlab = some id → id < cache.slabs.length
  shared : ∃ l, cache.shared.Holds m l
  slabs : ∀ slab ∈ cache.slabs, slab.nextFresh ≤ slab.capacity ∧
    ∃ l, slab.free.Holds m l ∧ l.Nodup ∧ ∀ b ∈ l, b ∈ slab.blocks

/-- What the accesses of a pop that are made without a check find, when the cache is not empty. -/
structure Guarded (cache : LocalClassCache FreeList) : Prop where
  slab : ∀ id, cache.availableSlabs.getLast? = some id →
    ∃ slab : LocalSlab FreeList, cache.slabs[id]? = some slab ∧ slab.hasAvailableBlocks = true
  fresh : ∀ slab ∈ cache.slabs, slab.hasAvailableBlocks = true → slab.free.head = none →
    slab.nextFresh < slab.capacity
  shared : cache.hotBlock = none → cache.availableSlabs = [] → cache.sharedLen ≠ 0
  head : cache.sharedLen ≠ 0 → cache.shared.head.isSome = true

/-- What a request does to the bag of held blocks. -/
def State.Effect (s s' : State) (answer : Answer) : Request → Prop
  | .pushOwnedSlab start blockSize capacity =>
    s'.bag = (slabBlocks start blockSize capacity : Multiset Nat) + s.bag
  | .pushBlock block => s'.bag = block ::ₘ s.bag
  | .pushSharedBatch batch => s'.bag = (batch.blocks s.mem : Multiset Nat) + s.bag
  | .popBlockUnchecked =>
    ∃ block reuse, answer = .block block reuse ∧ s.bag = block ::ₘ s'.bag
  | .popBatch max => ∃ batch : Batch, answer = .batch batch ∧ batch.Detached s'.mem ∧
      0 < batch.len ∧ batch.len ≤ max ∧
      s.bag = (batch.blocks s'.mem : Multiset Nat) + s'.bag

/-- The state over sequences that a state stands for, with the invariants of the cache. -/
structure State.Stands (s : State) (cache : LocalClassCache (List Nat)) : Prop where
  code : s.cache = cache.map FreeList.ofSeq
  woven : Woven s.mem cache.lists
  inv : cache.Inv
  nodup : cache.bag.Nodup
  linkable : ∀ b ∈ cache.bag, Linkable b
  wide : ∀ shape ∈ cache.shapes, shape.1 < shape.2.1
  home : ∀ b ∈ cache.bag, ∀ shape ∈ cache.shapes, shape.1 ≤ b → b < shape.2.1 →
    b ∈ slabBlocks shape.1 shape.2.2.1 shape.2.2.2

namespace State.Stands

variable {debug : Bool} {c : SizeClass} {s s' : State} {cache : LocalClassCache (List Nat)}

theorem contents_eq (h : s.Stands cache) : s.contents = cache := by
  rw [State.contents, h.code]
  exact map_map_eq fun l hl => FreeList.blocks_ofSeq (h.woven.linked l hl)

theorem bag_eq (h : s.Stands cache) : s.bag = cache.bag := by rw [State.bag, h.contents_eq]

theorem new (mem : Mem) : State.Stands ⟨mem, LocalClassCache.new⟩ LocalClassCache.new where
  code := rfl
  woven := by
    refine ⟨fun l hl => ?_, List.nodup_nil, fun b hb => (List.not_mem_nil hb).elim⟩
    obtain rfl : l = [] := List.mem_singleton.mp hl
    trivial
  inv := new_inv
  nodup := by
    rw [new_bag]
    exact Multiset.nodup_zero
  linkable := fun b hb => by
    rw [new_bag] at hb
    exact (Multiset.notMem_zero b hb).elim
  wide := fun shape hs => (List.not_mem_nil hs).elim
  home := fun _ _ shape hs => (List.not_mem_nil hs).elim

theorem elsewhere (h : s.Stands cache) {mem : Mem}
    (hlinks : ∀ b ∈ s.contents.lists.flatten,
      readSmallFreeListNext mem b = readSmallFreeListNext s.mem b) :
    State.Stands ⟨mem, s.cache⟩ cache where
  code := h.code
  woven := by
    rw [h.contents_eq] at hlinks
    refine ⟨fun l hl => (h.woven.linked l hl).congr fun b hb => ?_, h.woven.nodup,
      h.woven.linkable⟩
    exact hlinks b (List.mem_flatten.mpr ⟨l, hl, hb⟩)
  inv := h.inv
  nodup := h.nodup
  linkable := h.linkable
  wide := h.wide
  home := h.home

/-! ### One request -/

/-- The code's records have the shapes of those over sequences. -/
theorem shape_mem (h : s.Stands cache) {shape : Nat × Nat × Nat × Nat} :
    shape ∈ cache.shapes ↔ ∃ slab ∈ s.cache.slabs, slab.shape = shape := by
  rw [h.code]
  constructor
  · intro hs
    obtain ⟨slab, hslab, rfl⟩ := List.mem_map.mp hs
    exact ⟨slab.map FreeList.ofSeq, List.mem_map_of_mem hslab, rfl⟩
  · rintro ⟨_, hslab, rfl⟩
    obtain ⟨slab, hmem, rfl⟩ := List.mem_map.mp hslab
    exact List.mem_map_of_mem (f := LocalSlab.shape) hmem

/-- After a request that takes nothing in. -/
theorem of_le (h : s.Stands cache) {mem : Mem} {cache' : LocalClassCache (List Nat)}
    (hwoven : Woven mem cache'.lists) (hinv : cache'.Inv) (hshapes : cache'.shapes = cache.shapes)
    (hle : cache'.bag ≤ cache.bag) : State.Stands ⟨mem, cache'.map FreeList.ofSeq⟩ cache' where
  code := rfl
  woven := hwoven
  inv := hinv
  nodup := Multiset.nodup_of_le hle h.nodup
  linkable := fun b hb => h.linkable b (Multiset.mem_of_le hle hb)
  wide := by
    rw [hshapes]
    exact h.wide
  home := fun b hb shape hs => by
    rw [hshapes] at hs
    exact h.home b (Multiset.mem_of_le hle hb) shape hs

/-- After a request that takes blocks in that may be pushed. -/
theorem of_pushed (h : s.Stands cache) {mem : Mem} {cache' : LocalClassCache (List Nat)}
    {l : List Nat} (hl : ∀ b ∈ l, s.Pushable b) (hnodup : l.Nodup)
    (hwoven : Woven mem cache'.lists) (hinv : cache'.Inv) (hshapes : cache'.shapes = cache.shapes)
    (hbag : cache'.bag = (l : Multiset Nat) + cache.bag) :
    State.Stands ⟨mem, cache'.map FreeList.ofSeq⟩ cache' := by
  have hnew : ((l : Multiset Nat) + cache.bag).Nodup := by
    refine Multiset.nodup_add.mpr ⟨Multiset.coe_nodup.mpr hnodup, h.nodup, ?_⟩
    refine Multiset.disjoint_left.mpr fun hb hin => ?_
    have hnot := (hl _ (Multiset.mem_coe.mp hb)).2.1
    rw [h.bag_eq] at hnot
    exact hnot hin
  refine ⟨rfl, hwoven, hinv, hbag ▸ hnew, fun b hb => ?_, hshapes ▸ h.wide,
    fun b hb shape hs hlo hhi => ?_⟩
  · rw [hbag] at hb
    rcases Multiset.mem_add.mp hb with hb | hb
    · obtain ⟨⟨hdvd, hpos, hlt⟩, -⟩ := hl b (Multiset.mem_coe.mp hb)
      exact ⟨Nat.mod_eq_zero_of_dvd hdvd, hpos, hlt⟩
    · exact h.linkable b hb
  · rw [hshapes] at hs
    rw [hbag] at hb
    rcases Multiset.mem_add.mp hb with hb | hb
    · obtain ⟨slab, hslab, rfl⟩ := h.shape_mem.mp hs
      exact (hl b (Multiset.mem_coe.mp hb)).2.2 slab hslab hlo hhi
    · exact h.home b hb shape hs hlo hhi

theorem pushOwnedSlab (h : s.Stands cache) {start blockSize capacity : Nat}
    (hallowed : s.Allows (.pushOwnedSlab start blockSize capacity)) :
    ∃ s' answer cache', s.serve debug c (.pushOwnedSlab start blockSize capacity) =
        some (s', answer) ∧ State.Stands s' cache' ∧
      State.Effect s s' answer (.pushOwnedSlab start blockSize capacity) := by
  obtain ⟨hpos, hb, hc, halign, hdvd, hend, hknown, hheld⟩ := hallowed
  rw [h.bag_eq] at hheld
  have hout : ∀ b ∈ cache.bag, b ∉ slabBlocks start blockSize capacity := fun b hbag hin => by
    have hbounds := slabBlocks_bounds hin
    rcases hheld b hbag with hlt | hge <;> omega
  have hknown' : ∀ shape ∈ cache.shapes,
      shape = (start, start + blockSize * capacity, blockSize, capacity) ∨
        shape.2.1 ≤ start ∨ start + blockSize * capacity ≤ shape.1 := by
    intro shape hs
    obtain ⟨slab, hslab, rfl⟩ := h.shape_mem.mp hs
    exact hknown slab hslab
  -- a record with this start is that of the slab, and none of its blocks are held
  have hold : ∀ slab ∈ cache.slabs, slab.start = start →
      slab.shape = (start, start + blockSize * capacity, blockSize, capacity) ∧
        slab.free = [] ∧ slab.freshBlocks = [] := by
    intro slab hslab hstart
    obtain ⟨id, hid⟩ := List.mem_iff_getElem?.mp hslab
    have ok := h.inv.slab_ok slab hslab
    have hshape : slab.shape = (start, start + blockSize * capacity, blockSize, capacity) := by
      rcases hknown' slab.shape (List.mem_map_of_mem hslab) with heq | hlt | hge
      · exact heq
      · have hwide := h.wide slab.shape (List.mem_map_of_mem hslab)
        have : slab.start < slab.endAddr := hwide
        have : slab.endAddr ≤ start := hlt
        omega
      · have : start + blockSize * capacity ≤ slab.start := hge
        have := Nat.mul_pos hb hc
        omega
    have hblocks : slab.blocks = slabBlocks start blockSize capacity := by
      simp only [LocalSlab.shape, Prod.mk.injEq] at hshape
      rw [LocalSlab.blocks, hshape.1, hshape.2.2.1, hshape.2.2.2]
    have hle := slab_le_bag hid
    have hnone : ∀ b ∈ slab.free ++ slab.freshBlocks, b ∉ slab.blocks := fun b hb hin =>
      hout b (Multiset.mem_of_le hle (Multiset.mem_coe.mpr hb)) (hblocks ▸ hin)
    refine ⟨hshape, List.eq_nil_iff_forall_not_mem.mpr fun b hb => ?_,
      List.eq_nil_iff_forall_not_mem.mpr fun b hb => ?_⟩
    · exact hnone b (List.mem_append_left _ hb) (ok.free_mem b hb)
    · exact hnone b (List.mem_append_right _ hb) (List.mem_of_mem_drop hb)
  obtain ⟨cache', hrun, hinv, howned, hfresh, hshared, hshapes⟩ :=
    pushOwnedSlab_spec h.inv hb hc hold
  have hbag : cache'.bag = (slabBlocks start blockSize capacity : Multiset Nat) + cache.bag := by
    rw [LocalClassCache.bag, howned, hfresh, hshared, LocalClassCache.bag]
    ac_rfl
  have hwoven := woven_pushOwnedSlab h.woven start blockSize capacity
  rw [hrun] at hwoven
  have hstands : State.Stands ⟨s.mem, cache'.map FreeList.ofSeq⟩ cache' := by
    refine ⟨rfl, hwoven, hinv, ?_, fun b hbag' => ?_, fun shape hs => ?_,
      fun b hbag' shape hs hlo hhi => ?_⟩
    · rw [hbag]
      refine Multiset.nodup_add.mpr ⟨Multiset.coe_nodup.mpr (slabBlocks_nodup hb capacity), h.nodup,
        Multiset.disjoint_left.mpr fun hin hbag' => hout _ hbag' (Multiset.mem_coe.mp hin)⟩
    · rw [hbag] at hbag'
      rcases Multiset.mem_add.mp hbag' with hin | hin
      · exact linkable_slabBlocks hpos halign hdvd hend (Multiset.mem_coe.mp hin)
      · exact h.linkable b hin
    · rcases hshapes shape hs with hs | rfl
      · exact h.wide shape hs
      · exact Nat.lt_add_of_pos_right (Nat.mul_pos hb hc)
    · rw [hbag] at hbag'
      rcases Multiset.mem_add.mp hbag' with hin | hin
      · have hin := Multiset.mem_coe.mp hin
        have hbounds := slabBlocks_bounds hin
        rcases hshapes shape hs with hs | rfl
        · rcases hknown' shape hs with rfl | hlt | hge
          · exact hin
          · omega
          · omega
        · exact hin
      · rcases hshapes shape hs with hs | rfl
        · exact h.home b hin shape hs hlo hhi
        · rcases hheld b hin with hlt | hge
          · exact absurd hlo (Nat.not_le.mpr hlt)
          · exact absurd hhi (Nat.not_lt.mpr hge)
  refine ⟨⟨s.mem, cache'.map FreeList.ofSeq⟩, .nothing, cache', ?_, hstands, ?_⟩
  · simp only [State.serve, h.code, pushOwnedSlab_map, hrun]
  · show State.bag ⟨s.mem, _⟩ = _ + s.bag
    rw [hstands.bag_eq, h.bag_eq, hbag]

theorem pushBlock (h : s.Stands cache) {block : Nat} (hallowed : s.Pushable block) :
    ∃ s' answer cache', s.serve debug c (.pushBlock block) = some (s', answer) ∧
      State.Stands s' cache' ∧ State.Effect s s' answer (.pushBlock block) := by
  have hhome : ∀ b ∈ cache.hotBag, ∀ slab ∈ cache.slabs, slab.start ≤ b → b < slab.endAddr →
      b ∈ slab.blocks := fun b hb slab hslab =>
    h.home b (Multiset.mem_of_le cache.hotBag_le_bag hb) slab.shape (List.mem_map_of_mem hslab)
  obtain ⟨cache', hrun, hinv, hshapes, -, hfresh, spilled, howned, hshared⟩ :=
    pushBlock_spec h.inv block hhome debug s.mem
  obtain ⟨mF, hrunF, hwoven, -⟩ := pushBlock_map h.woven h.nodup h.linkable hrun
  rw [← h.code] at hrunF
  have hbag : cache'.bag = (([block] : List Nat) : Multiset Nat) + cache.bag := by
    rw [LocalClassCache.bag, hfresh, hshared, Multiset.coe_singleton, Multiset.singleton_add]
    calc cache'.ownedBag + cache.freshBag + (spilled + cache.sharedBag)
        = (cache'.ownedBag + spilled) + cache.freshBag + cache.sharedBag := by ac_rfl
      _ = block ::ₘ cache.bag := by
        rw [howned, LocalClassCache.bag, Multiset.cons_add, Multiset.cons_add]
  have hstands := h.of_pushed (l := [block]) (by simpa using hallowed) (List.nodup_singleton _)
    hwoven hinv hshapes hbag
  refine ⟨⟨mF, cache'.map FreeList.ofSeq⟩, .nothing, cache', ?_, hstands, ?_⟩
  · simp only [State.serve, hrunF, Option.map_some]
  · show State.bag ⟨mF, _⟩ = block ::ₘ s.bag
    rw [hstands.bag_eq, h.bag_eq, hbag, Multiset.coe_singleton, Multiset.singleton_add]

theorem pushSharedBatch (h : s.Stands cache) {batch : Batch} (hdetached : batch.Detached s.mem)
    (hallowed : ∀ b ∈ batch.blocks s.mem, s.Pushable b) :
    ∃ s' answer cache', s.serve debug c (.pushSharedBatch batch) = some (s', answer) ∧
      State.Stands s' cache' ∧ State.Effect s s' answer (.pushSharedBatch batch) := by
  obtain ⟨hbatch, hlinked, hnodup⟩ := hdetached
  obtain ⟨l, hl⟩ : ∃ l, l = batch.blocks s.mem := ⟨_, rfl⟩
  rw [← hl] at hbatch hlinked hnodup hallowed
  obtain ⟨cache', hrun, hinv, hshapes, howned, hfresh, hshared⟩ :=
    pushSharedBatch_spec h.inv l s.mem
  have hbag : cache'.bag = (l : Multiset Nat) + cache.bag := by
    rw [LocalClassCache.bag, howned, hfresh, hshared, LocalClassCache.bag]
    ac_rfl
  have hgood : ∀ b ∈ l, Linkable b := fun b hb => by
    obtain ⟨⟨hdvd, hpos, hlt⟩, -⟩ := hallowed b hb
    exact ⟨Nat.mod_eq_zero_of_dvd hdvd, hpos, hlt⟩
  have hnew : ((l : Multiset Nat) + cache.bag).Nodup := by
    refine Multiset.nodup_add.mpr ⟨Multiset.coe_nodup.mpr hnodup, h.nodup, ?_⟩
    refine Multiset.disjoint_left.mpr fun hb hin => ?_
    have hnot := (hallowed _ (Multiset.mem_coe.mp hb)).2.1
    rw [h.bag_eq] at hnot
    exact hnot hin
  obtain ⟨mF, hrunF, hwoven, -⟩ := pushSharedBatch_map h.woven hlinked hgood hnew hrun
  rw [← h.code, ← hbatch] at hrunF
  have hstands := h.of_pushed hallowed hnodup hwoven hinv hshapes hbag
  refine ⟨⟨mF, cache'.map FreeList.ofSeq⟩, .nothing, cache', ?_, hstands, ?_⟩
  · simp only [State.serve, hrunF, Option.map_some]
  · show State.bag ⟨mF, _⟩ = (batch.blocks s.mem : Multiset Nat) + s.bag
    rw [hstands.bag_eq, h.bag_eq, hbag, hl]

theorem popBlockUnchecked (h : s.Stands cache) (hpos : s.cache.totalLen ≠ 0) :
    ∃ s' answer cache', s.serve debug c .popBlockUnchecked = some (s', answer) ∧
      State.Stands s' cache' ∧ State.Effect s s' answer .popBlockUnchecked := by
  have hpos' : cache.totalLen ≠ 0 := by
    rw [h.code] at hpos
    exact hpos
  obtain ⟨block, reuse, cache', hrun, hinv, hshapes, htakes⟩ :=
    popBlockUnchecked_spec h.inv hpos' s.mem
  obtain ⟨hrunF, hwoven⟩ := popBlockUnchecked_map h.woven hrun
  rw [← h.code] at hrunF
  have hstands := h.of_le hwoven hinv hshapes (htakes.bag ▸ Multiset.le_cons_self _ _)
  refine ⟨⟨s.mem, cache'.map FreeList.ofSeq⟩, .block block reuse, cache', ?_, hstands, block, reuse,
    rfl, ?_⟩
  · simp only [State.serve, hrunF, Option.map_some]
  · rw [hstands.bag_eq, h.bag_eq, htakes.bag]

theorem popBatch (h : s.Stands cache) (hpos : s.cache.totalLen ≠ 0) {max : Nat} (hmax : 0 < max) :
    ∃ s' answer cache', s.serve debug c (.popBatch max) = some (s', answer) ∧
      State.Stands s' cache' ∧ State.Effect s s' answer (.popBatch max) := by
  have hpos' : cache.totalLen ≠ 0 := by
    rw [h.code] at hpos
    exact hpos
  obtain ⟨mS, batch, cache', hrun, hinv, hshapes, hne, hlen, hdrains⟩ :=
    popBatch_spec h.inv hpos' hmax c s.mem
  obtain ⟨mF, hrunF, hwoven, hlinked, -⟩ := popBatch_map (Nat.pos_iff_ne_zero.mp hmax)
    h.inv.sharedLen_eq h.woven h.nodup h.linkable hrun
  rw [← h.code] at hrunF
  have hbag := hdrains.bag
  have hnodup : batch.Nodup := by
    have hle : (batch : Multiset Nat) ≤ cache.bag := hbag ▸ Multiset.le_add_right _ _
    exact Multiset.coe_nodup.mp (Multiset.nodup_of_le hle h.nodup)
  have hblocks := Batch.blocks_ofSeq hlinked
  have hstands := h.of_le hwoven hinv hshapes (hbag ▸ Multiset.le_add_left _ _)
  refine ⟨⟨mF, cache'.map FreeList.ofSeq⟩, .batch (Batch.ofSeq batch), cache', ?_, hstands,
    Batch.ofSeq batch, rfl, ⟨?_, ?_, ?_⟩, List.length_pos_iff.mpr hne, hlen, ?_⟩
  · simp only [State.serve, hrunF, Option.map_some]
  · rw [hblocks]
  · rw [hblocks]
    exact hlinked
  · rw [hblocks]
    exact hnodup
  · rw [hblocks, hstands.bag_eq, h.bag_eq, hbag]

/-- Every request that the callers may make is served. -/
theorem serve (h : s.Stands cache) {request : Request} (hallowed : s.Allows request) :
    ∃ s' answer cache', s.serve debug c request = some (s', answer) ∧ State.Stands s' cache' ∧
      State.Effect s s' answer request := by
  cases request with
  | pushOwnedSlab start blockSize capacity => exact h.pushOwnedSlab hallowed
  | pushBlock block => exact h.pushBlock hallowed
  | pushSharedBatch batch => exact h.pushSharedBatch hallowed.1 hallowed.2
  | popBlockUnchecked => exact h.popBlockUnchecked hallowed
  | popBatch max => exact h.popBatch hallowed.1 hallowed.2

theorem step (h : s.Stands cache) (hstep : s.Step debug c s') : ∃ cache', s'.Stands cache' := by
  cases hstep with
  | request request hallowed hserve =>
    obtain ⟨s₁, answer, cache', hserve', hstands, -⟩ := h.serve hallowed
    obtain ⟨rfl, -⟩ := Prod.mk.inj (Option.some.inj (hserve'.symm.trans hserve))
    exact ⟨cache', hstands⟩
  | elsewhere mem hlinks => exact ⟨cache, h.elsewhere hlinks⟩

theorem of_reachable (h : s.Reachable debug c) : ∃ cache, s.Stands cache := by
  obtain ⟨mem, hruns⟩ := h
  induction hruns with
  | refl => exact ⟨_, State.Stands.new mem⟩
  | tail _ hstep ih =>
    obtain ⟨cache, hstands⟩ := ih
    exact hstands.step hstep

/-! ### Well-formedness -/

theorem totalLen_eq (h : s.Stands cache) : s.cache.totalLen =
    (if s.cache.hotBlock.isSome then 1 else 0) + s.cache.sharedLen +
      (s.cache.slabs.map fun slab => slab.free.len + (slab.capacity - slab.nextFresh)).sum := by
  have hhot : cache.hotBag.card = if cache.hotBlock.isSome then 1 else 0 := by
    cases hb : cache.hotBlock <;> simp [hotBag, hb]
  have hslabs : cache.freeBag.card + cache.freshBag.card =
      (cache.slabs.map fun slab => slab.free.length + (slab.capacity - slab.nextFresh)).sum := by
    rw [freeBag, freshBag, card_total, card_total, ← total_add]
    simp only [Multiset.coe_card, LocalSlab.length_freshBlocks]
    rfl
  have hcard : cache.totalLen = (cache.hotBag.card + cache.freeBag.card) + cache.freshBag.card +
      cache.sharedLen := by
    rw [h.inv.totalLen_eq, h.inv.sharedLen_eq, LocalClassCache.bag, ownedBag]
    simp only [Multiset.card_add, sharedBag, Multiset.coe_card]
  have hmap : (s.cache.slabs.map fun slab => slab.free.len + (slab.capacity - slab.nextFresh)) =
      cache.slabs.map fun slab => slab.free.length + (slab.capacity - slab.nextFresh) := by
    rw [h.code, map, List.map_map]
    rfl
  rw [hmap, ← hslabs, h.code]
  show cache.totalLen = (if cache.hotBlock.isSome then 1 else 0) + cache.sharedLen + _
  omega

theorem available (h : s.Stands cache) (i id : Nat) : s.cache.availableSlabs[i]? = some id ↔
    ∃ slab : LocalSlab FreeList, s.cache.slabs[id]? = some slab ∧ slab.availableSlot = some i := by
  have hslots := h.inv.slots i id
  rw [h.code]
  rw [getElem?_map_slabs, show (cache.map FreeList.ofSeq).availableSlabs = cache.availableSlabs
    from rfl, hslots]
  cases hid : cache.slabs[id]? with
  | none => simp [availableSlot, hid]
  | some slab => simp [availableSlot, hid, LocalSlab.map]

theorem listed (h : s.Stands cache) {slab : LocalSlab FreeList} (hslab : slab ∈ s.cache.slabs) :
    (slab.availableSlot.isSome = true ↔ slab.hasAvailableBlocks = true) ∧
      (slab.hasAvailableBlocks = true ↔ 0 < slab.free.len ∨ slab.nextFresh < slab.capacity) := by
  rw [h.code] at hslab
  obtain ⟨slab, hmem, rfl⟩ := List.mem_map.mp hslab
  obtain ⟨id, hid⟩ := List.mem_iff_getElem?.mp hmem
  have hlisted := h.inv.listed id not_false slab hid
  have hlen := slab.length_freshBlocks
  rw [LocalSlab.hasAvailableBlocks_map]
  refine ⟨hlisted, ?_⟩
  show _ ↔ 0 < slab.free.length ∨ slab.nextFresh < slab.capacity
  rw [LocalSlab.hasAvailableBlocks_iff, ← List.length_pos_iff, ← List.length_pos_iff, hlen]
  omega

theorem wellFormed (h : s.Stands cache) : s.cache.WellFormed s.mem where
  totalLen := h.totalLen_eq
  sharedLen := by
    rw [h.code]
    exact h.inv.sharedLen_eq
  available := h.available
  listed := fun slab hslab => (h.listed hslab).1.trans (h.listed hslab).2
  byStart_sorted := by
    rw [h.code]
    simp only [slabStart_map]
    exact h.inv.index.sorted
  byStart_all := by
    rw [h.code]
    simpa [map] using h.inv.index.mem
  recent := by
    rw [h.code]
    simpa [map] using h.inv.recent_lt
  shared := by
    rw [h.code]
    exact ⟨cache.shared, rfl, h.woven.linked _ List.mem_cons_self⟩
  slabs := by
    intro slab hslab
    rw [h.code] at hslab
    obtain ⟨slab, hmem, rfl⟩ := List.mem_map.mp hslab
    have ok := h.inv.slab_ok slab hmem
    have hlist : slab.free ∈ cache.lists := List.mem_cons_of_mem _ (List.mem_map_of_mem hmem)
    exact ⟨ok.nextFresh_le, slab.free, ⟨rfl, h.woven.linked _ hlist⟩,
      (List.nodup_flatten.mp h.woven.nodup).1 _ hlist, ok.free_mem⟩

theorem guarded (h : s.Stands cache) (hpos : s.cache.totalLen ≠ 0) : s.cache.Guarded where
  slab := by
    intro id hid
    obtain ⟨i, hi⟩ := List.mem_iff_getElem?.mp (List.mem_of_getLast? hid)
    obtain ⟨slab, hslab, hslot⟩ := (h.available i id).mp hi
    refine ⟨slab, hslab, (h.listed (List.mem_of_getElem? hslab)).1.mp ?_⟩
    rw [hslot]
    rfl
  fresh := by
    intro slab hslab hav hhead
    have hnil : slab.free.len = 0 := by
      obtain ⟨-, l, ⟨hl, -⟩, -⟩ := h.wellFormed.slabs slab hslab
      rw [hl] at hhead ⊢
      exact congrArg List.length (List.head?_eq_none_iff.mp hhead)
    exact ((h.listed hslab).2.mp hav).resolve_left (by omega)
  shared := by
    intro hhot hnone hzero
    rw [h.code] at hpos hhot hnone hzero
    obtain ⟨h1, h2⟩ := h.inv.none_available hnone
    have hhot' : cache.hotBlock = none := hhot
    have hshared : cache.shared.length = 0 := h.inv.sharedLen_eq ▸ hzero
    apply hpos
    show cache.totalLen = 0
    rw [h.inv.totalLen_eq, LocalClassCache.bag, ownedBag, h1, h2, hotBag, hhot', sharedBag]
    simp [hshared]
  head := by
    intro hlen
    rw [h.code] at hlen ⊢
    have hshared : cache.shared ≠ [] := by
      rw [← List.length_pos_iff, ← h.inv.sharedLen_eq]
      exact Nat.pos_of_ne_zero hlen
    show cache.shared.head?.isSome = true
    simpa using hshared

end State.Stands

/-- In every state that a run reaches the class cache is well formed, every request that the callers
may make is served and changes the bag of held blocks by its own blocks, and the accesses of a pop
that are made without a check find what they are made to. -/
theorem holds_bag {debug : Bool} {c : SizeClass} {s : State} (h : s.Reachable debug c) :
    s.cache.WellFormed s.mem ∧ (s.cache.totalLen ≠ 0 → s.cache.Guarded) ∧
      ∀ request, s.Allows request →
        ∃ s' answer, s.serve debug c request = some (s', answer) ∧ s'.Reachable debug c ∧
          State.Effect s s' answer request := by
  obtain ⟨cache, hstands⟩ := State.Stands.of_reachable h
  refine ⟨hstands.wellFormed, hstands.guarded, fun request hallowed => ?_⟩
  obtain ⟨s', answer, cache', hserve, -, heffect⟩ := hstands.serve hallowed
  obtain ⟨mem, hruns⟩ := h
  exact ⟨s', answer, hserve, ⟨mem, hruns.tail (.request request hallowed hserve)⟩, heffect⟩

/-! ### A run -/

/-- A request, when the callers may make it. -/
def State.request (debug : Bool) (c : SizeClass) (request : Request) (s : State) : Option State :=
  if s.Allows request then (s.serve debug c request).map Prod.fst else none

theorem State.Reachable.runs {debug : Bool} {c : SizeClass} {s s' : State}
    {requests : List Request} (h : s.Reachable debug c)
    (hruns : StepSystem.runs (State.request debug c) requests s = some s') :
    s'.Reachable debug c := by
  refine StepSystem.runs_invariant hruns h fun request _ s s' h hrequest => ?_
  unfold State.request at hrequest
  split at hrequest
  · rename_i hallowed
    obtain ⟨⟨s₁, answer⟩, hserve, rfl⟩ := Option.map_eq_some_iff.mp hrequest
    obtain ⟨mem, hruns⟩ := h
    exact ⟨mem, hruns.tail (.request request hallowed hserve)⟩
  · cases hrequest

/-- A slab of two blocks is pushed, one of them is popped and comes back, and a foreign block joins
the shared list. -/
def sampleRequests : List Request :=
  [.pushOwnedSlab 4096 128 2, .popBlockUnchecked, .pushBlock 4096,
    .pushSharedBatch (Batch.ofSeq [8192])]

def sampleStart : State := ⟨Mem.zero 4096, new⟩

def sampleState : State :=
  (StepSystem.runs (State.request true .b64) sampleRequests sampleStart).getD sampleStart

theorem sampleState_run :
    (StepSystem.runs (State.request true .b64) sampleRequests sampleStart).isSome := by
  decide +kernel

theorem sampleState_reachable : sampleState.Reachable true .b64 := by
  have hstart : sampleStart.Reachable true .b64 := ⟨Mem.zero 4096, .refl⟩
  obtain ⟨s, hs⟩ := Option.isSome_iff_exists.mp sampleState_run
  have hstate : sampleState = s := by rw [sampleState, hs, Option.getD_some]
  exact hstate ▸ hstart.runs hs

/-- A batch can be popped from the hot, a fresh and a shared block. -/
theorem holds_bag_sample : sampleState.cache.WellFormed sampleState.mem ∧
    sampleState.cache.Guarded ∧ sampleState.bag = {4096, 4224, 8192} ∧
    ∃ s' answer, sampleState.serve true .b64 (.popBatch 2) = some (s', answer) ∧
      s'.Reachable true .b64 ∧ State.Effect sampleState s' answer (.popBatch 2) := by
  have hlen : sampleState.cache.totalLen ≠ 0 := by decide +kernel
  obtain ⟨hwell, hguarded, hserve⟩ := holds_bag sampleState_reachable
  exact ⟨hwell, hguarded hlen, by decide +kernel, hserve (.popBatch 2) ⟨hlen, by decide⟩⟩

end LocalClassCache

end Orthotope
