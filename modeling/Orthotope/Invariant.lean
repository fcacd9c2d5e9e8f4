import Orthotope.Cells

/-! The invariant of the system over plain sequences.  It has four parts: every allocator and every
cache is right in itself (`Parts`), the cells are disjoint and cover exactly the registered slabs
(`Ledger`), every large allocation that may still be released has its record (`Tokens`), and the
headers in memory say what the place of their block promises (`Memory`). -/

namespace Orthotope

open ByteMemory Ownership

variable {ι κ : Type}

/-! ### The arenas -/

namespace Setup

variable (setup : Setup ι κ)

theorem arena_new (a : ι) : headerAlignment ≤ (setup.config a).alignment ∧
    Arena.new (setup.config a) (setup.mapping a) = .ok (setup.arena a) := by
  have h := setup.accepted a
  unfold Allocator.new validateAllocatorConfig at h
  split at h
  · simp at h
  · rename_i hv
    split at hv
    · simp at hv
    · rename_i hal
      split at h
      · simp at h
      · rename_i arena harena
        obtain rfl : arena = setup.arena a := (Allocator.mk.inj (Except.ok.inj h)).2.1
        exact ⟨by omega, harena⟩

/-- What the arena of an accepted configuration is like. -/
structure ArenaFacts (a : ι) : Prop where
  alignment_eq : (setup.arena a).alignment = (setup.config a).alignment
  header_le : headerAlignment ≤ (setup.config a).alignment
  dvd_header : headerAlignment ∣ (setup.config a).alignment
  next_eq : (setup.arena a).next = 0
  base_pos : 0 < (setup.arena a).base
  dvd_base : (setup.config a).alignment ∣ (setup.arena a).base
  base_le : setup.mapping a ≤ (setup.arena a).base
  end_le : (setup.arena a).base + (setup.arena a).len ≤
    setup.mapping a + ((setup.config a).arenaSize + (setup.config a).alignment - 1)

theorem dvd_of_isPowerOfTwo {n : Nat} (h : n.isPowerOfTwo) (hle : headerAlignment ≤ n) :
    headerAlignment ∣ n := by
  obtain ⟨i, rfl⟩ := h
  have h6 : 6 ≤ i := by
    by_contra hc
    have : 2 ^ i < 2 ^ 6 := Nat.pow_lt_pow_right (by omega) (by omega)
    unfold headerAlignment at hle
    omega
  exact Nat.pow_dvd_pow 2 h6

theorem arenaFacts (a : ι) : setup.ArenaFacts a := by
  obtain ⟨hle, hnew⟩ := setup.arena_new a
  obtain ⟨hpos, hpow, _, hbase, hbaseEq, hlen, hnext, hal⟩ := Arena.new_spec hnew
  refine ⟨hal, hle, dvd_of_isPowerOfTwo hpow hle, hnext, hbase, ?_, ?_, ?_⟩
  · rw [hbaseEq]
    exact dvd_alignUp hpos
  · rw [hbaseEq]
    exact le_alignUp _ _
  · have : alignUp (setup.mapping a) (setup.config a).alignment <
        setup.mapping a + (setup.config a).alignment := alignUp_lt hpos
    omega

theorem arena_end_le (a : ι) : (setup.arena a).base + (setup.arena a).len ≤ usizeLimit :=
  (setup.arenaFacts a).end_le.trans (setup.mapping_le a)

/-- Arenas of different allocators are disjoint. -/
theorem arenas_disjoint {a b : ι} (h : a ≠ b) :
    (setup.arena a).base + (setup.arena a).len ≤ (setup.arena b).base ∨
      (setup.arena b).base + (setup.arena b).len ≤ (setup.arena a).base := by
  have ha := setup.arenaFacts a
  have hb := setup.arenaFacts b
  have h1 := ha.base_le
  have h2 := hb.base_le
  have h3 := ha.end_le
  have h4 := hb.end_le
  have := setup.mapping_disjoint a b h
  omega

end Setup

/-! ### Allocators, caches and calls -/

/-- One allocator is right in itself. -/
structure AllocatorOk (setup : Setup ι κ) (a : ι) (allocator : Allocator Seq) : Prop where
  config_eq : allocator.config = setup.config a
  arena_eq : allocator.arena = { setup.arena a with next := allocator.arena.next }
  next_le : allocator.arena.next ≤ (setup.arena a).len
  central : ∀ c, allocator.central.Inv c
  blockSize_eq : ∀ c, ∀ s ∈ (allocator.central.lists c).shapes,
    s.2.2.1 = (setup.config a).classBlockSize c
  large : allocator.large.Inv

/-- One cache is right in itself. -/
structure CacheOk (setup : Setup ι κ) (k : κ) (cache : ThreadCache ι Seq) : Prop where
  cacheId_eq : cache.cacheId = setup.cacheId k
  class_inv : ∀ c, (cache.classes c).Inv
  returns_ok : ∀ c, (cache.remoteReturns c).Ok
  unbound : cache.owner = none → ∀ c, (cache.classes c).bag = 0 ∧
    (cache.remoteReturns c).pending = []
  table : ∀ a, cache.owner = some a → cache.classConfig = classConfigTable (setup.config a)

/-- The slabs that a cache knows are slabs of the allocator it is bound to. -/
def Home (allocator : Allocator Seq) (cache : ThreadCache ι Seq) : Prop :=
  ∀ c, ∀ s ∈ (cache.classes c).shapes, s ∈ (allocator.central.lists c).shapes

/-- What a call knows about its arguments and the cache at each control point. -/
def PcOk (setup : Setup ι κ) (a : ι) (central : CentralPool Seq) (cache : ThreadCache ι Seq) :
    Pc ι κ Seq → Prop
  | .refill c size | .carve c size | .popped c size _ _ => SizeClass.fromRequest size = some c
  | .gotBatch c size batch => SizeClass.fromRequest size = some c ∧ batch ≠ []
  | .gotSlab c size start blockSize capacity | .registered c size start blockSize capacity =>
    SizeClass.fromRequest size = some c ∧ 0 < blockSize ∧ 0 < capacity ∧
      (start, start + blockSize * capacity, blockSize, capacity) ∈ (central.lists c).shapes
  | .carved c size span => SizeClass.fromRequest size = some c ∧
      ∃ n, 0 < n ∧ span.size = n * (setup.config a).classBlockSize c
  | .pop c size => SizeClass.fromRequest size = some c ∧ (cache.classes c).totalLen ≠ 0
  | .large size blockSize | .largeCarve size blockSize | .largeGot size _ blockSize =>
    SizeClass.fromRequest size = none ∧ 0 < size ∧ headerSize + size ≤ blockSize
  | .largeWritten size _ blockSize => SizeClass.fromRequest size = none ∧ 0 < size ∧
      headerSize + size ≤ blockSize ∧ blockSize - headerSize < 2 ^ 32
  | .releasing entry _ _ => SizeClass.fromRequest entry.size = none
  | .excess c max _ => 0 < max ∧ (cache.classes c).totalLen ≠ 0
  | _ => True

/-- A call runs on a cache that is bound to the allocator called. -/
def ThreadOk (setup : Setup ι κ) (w : World ι κ Seq Seq) (k : κ) : Prop :=
  ∀ a pc, w.threads k = .busy a pc →
    (w.caches k).owner = some a ∧ PcOk setup a (w.allocators a).central (w.caches k) pc

structure Parts (setup : Setup ι κ) (w : World ι κ Seq Seq) : Prop where
  pageSize_eq : w.mem.pageSize = setup.pageSize
  allocator : ∀ a, AllocatorOk setup a (w.allocators a)
  cache : ∀ k, CacheOk setup k (w.caches k)
  home : ∀ k a, (w.caches k).owner = some a → Home (w.allocators a) (w.caches k)
  thread : ∀ k, ThreadOk setup w k

/-! ### The ledger -/

/-- The cell lies in the reserved part of its arena, and starts aligned. -/
structure InArena (setup : Setup ι κ) (w : World ι κ Seq Seq) (x : Cell ι) : Prop where
  base_le : (setup.arena x.alloc).base ≤ x.lo
  lo_lt : x.lo < x.hi
  hi_le : x.hi ≤ (setup.arena x.alloc).base + (w.allocators x.alloc).arena.next
  dvd_lo : (setup.config x.alloc).alignment ∣ x.lo

/-- The cell is a block of a slab that is registered for its class. -/
def IsSlabCell (setup : Setup ι κ) (w : World ι κ Seq Seq) (x : Cell ι) : Prop :=
  ∃ c, ∃ s ∈ ((w.allocators x.alloc).central.lists c).shapes,
    ∃ b ∈ slabBlocks s.1 s.2.2.1 s.2.2.2, x = setup.smallCell x.alloc c b

structure Ledger (setup : Setup ι κ) (w : World ι κ Seq Seq) : Prop where
  apart : Apart Cell.Apart (w.own setup)
  covered : ∀ x : Cell ι, x.cls.isSome → ((∃ h, x ∈ w.own setup h) ↔ IsSlabCell setup w x)
  inArena : ∀ h, ∀ x ∈ w.own setup h, InArena setup w x

/-! ### Large allocations -/

structure Tokens (w : World ι κ Seq Seq) : Prop where
  apart : Apart (fun x y : ι × Nat => x ≠ y) w.tokens
  record : ∀ h, ∀ entry ∈ w.entries h, SizeClass.fromRequest entry.size = none →
    ∃ record, (entry.ptr, record) ∈ (w.allocators entry.alloc).large.live ∧
      record.requestedSize = entry.size

/-! ### Memory -/

/-- How far the header of a free block can be relied on: not at all, as to its class, or as to its
class and the cache that it names. -/
inductive Trust where
  | raw
  | shared
  | owned (id : Nat)
  deriving DecidableEq, Repr

/-- The fields that never change while a block of class `c` is in use are there, and no byte of the
header can be discarded. -/
structure Formatted (m : Mem) (c : SizeClass) (b : Nat) : Prop where
  magic : (readHeader m b).magic = headerMagic
  kind : (readHeader m b).kind = smallTag
  classIndex : (readHeader m b).classIndex = c.index
  reserved : (readHeader m b).reserved = 0
  usableSize : (readHeader m b).usableSize = c.payloadSize
  resident : ∀ x, inHeader b x → m.lazyAt x = false

/-- The header shows that the block is not live, or in a release build has no marker at all. -/
def Parked (debug : Bool) (m : Mem) (b : Nat) : Prop :=
  if debug then
    (readHeader m b).smallFreeMarker = smallFreeMarkerFor b ∨
      (readHeader m b).requestedSize = 0 ∧ (readHeader m b).smallFreeMarker = 0
  else (readHeader m b).smallFreeMarker = 0

/-- What the header of a free block says.  A raw one is at least rejected by a debug build, as long
as a discard takes whole headers. -/
def HeaderOk (debug : Bool) (m : Mem) (c : SizeClass) (b : Nat) : Trust → Prop
  | .raw => debug = true → headerSize ∣ m.pageSize → (readHeader m b).requestedSize = 0 ∨
      (readHeader m b).magic = headerMagic ∧ (readHeader m b).kind = smallTag ∧
        (readHeader m b).smallFreeMarker = smallFreeMarkerFor b
  | .shared => Formatted m c b ∧ Parked debug m b
  | .owned id => Formatted m c b ∧ Parked debug m b ∧ (readHeader m b).ownerCacheId = id

/-- What the header of a live small block says. -/
structure LiveSmall (m : Mem) (c : SizeClass) (b size id : Nat) : Prop where
  formatted : Formatted m c b
  requestedSize : (readHeader m b).requestedSize = size
  ownerCacheId : (readHeader m b).ownerCacheId = id
  marker : (readHeader m b).smallFreeMarker = 0

/-- What the header of a large block says from its write on. -/
structure LiveLarge (m : Mem) (b size usable : Nat) : Prop where
  fields_eq : readPrefix m b = ⟨headerMagic, largeTag, largeClassSentinel, 0, size, usable, 0⟩
  resident : ∀ x, inHeader b x → m.lazyAt x = false

def Pc.trust (setup : Setup ι κ) (k : κ) : Pc ι κ Seq → Trust
  | .gotBatch .. | .publishing .. | .returning .. => .shared
  | .popped _ _ _ .hotReuseRequestedOnly => .owned (setup.cacheId k)
  | .popped _ _ _ .needsOwnerAndRequestedSizeRefresh => .shared
  | .route _ _ owner => .owned owner
  | _ => .raw

def Thread.trust (setup : Setup ι κ) (k : κ) : Thread ι κ Seq → Trust
  | .idle _ => .raw
  | .busy _ pc => pc.trust setup k

/-- How far the headers of the free blocks in a place are relied on. -/
def World.trust (setup : Setup ι κ) (w : World ι κ Seq Seq) : Place ι κ → Option Trust
  | .client | .largeLive _ | .largeFree _ => none
  | .hot k _ | .slabFree k _ => some (.owned (setup.cacheId k))
  | .fresh _ _ | .full _ _ => some .raw
  | .shared _ _ | .staged _ _ | .partialFree _ _ | .inbox _ _ => some .shared
  | .hand k => some ((w.threads k).trust setup k)

/-- What the memory says about an allocation that is not released yet. -/
structure EntryOk (setup : Setup ι κ) (w : World ι κ Seq Seq) (entry : Live ι κ) : Prop where
  size_pos : 0 < entry.size
  header_le : headerSize ≤ entry.ptr
  small : ∀ c, SizeClass.fromRequest entry.size = some c →
    LiveSmall w.mem c (blockStartFromUserPtr entry.ptr) entry.size (setup.cacheId entry.cache)
  large : SizeClass.fromRequest entry.size = none → ∀ record,
    (entry.ptr, record) ∈ (w.allocators entry.alloc).large.live →
      LiveLarge w.mem (blockStartFromUserPtr entry.ptr) entry.size record.usableSize
  written : ∀ off v, entry.written off = some v → off < entry.size ∧
    w.mem.byte (entry.ptr + off) = v ∧ w.mem.lazyAt (entry.ptr + off) = false

/-- What the memory says about the extent in the hands of a call, and about the header that a
release has read. -/
def PcMemory (m : Mem) : Pc ι κ Seq → Prop
  | .carved _ _ span => ∀ x, span.start ≤ x → x < span.start + span.size → m.byte x = 0
  | .largeWritten size start blockSize => LiveLarge m start size (blockSize - headerSize)
  | .releasing entry requestedSize usableSize =>
    (readPrefix m (blockStartFromUserPtr entry.ptr)).requestedSize = requestedSize ∧
      (readPrefix m (blockStartFromUserPtr entry.ptr)).usableSize = usableSize
  | _ => True

structure Memory (setup : Setup ι κ) (w : World ι κ Seq Seq) : Prop where
  free : ∀ h t, w.trust setup h = some t → ∀ x ∈ w.own setup h, ∀ c, x.cls = some c →
    HeaderOk setup.debug w.mem c x.lo t
  entry : ∀ h, ∀ entry ∈ w.entries h, EntryOk setup w entry
  pc : ∀ k a pc, w.threads k = .busy a pc → PcMemory w.mem pc
  untouched : ∀ a x, (setup.arena a).base + (w.allocators a).arena.next ≤ x →
    x < (setup.arena a).base + (setup.arena a).len → w.mem.byte x = 0

structure Inv (setup : Setup ι κ) (w : World ι κ Seq Seq) : Prop where
  parts : Parts setup w
  ledger : Ledger setup w
  tokens : Tokens w
  memory : Memory setup w

end Orthotope
