import Orthotope.Custody

/-! The checks of a free, on an allocation that is live.  The header of the allocation decides what
they find, and the arena of the allocator called decides whether a small block is its own. -/

namespace Orthotope

open ByteMemory Ownership

variable {ι κ : Type}

section Decode

variable {m : Mem} {ptr size : Nat}

theorem decodeHeader_eq (hle : headerSize ≤ ptr) (hal : blockStartFromUserPtr ptr % 64 = 0) :
    decodeHeader m ptr = readFromUserPtr m ptr := by
  have h1 : ¬ptr < headerSize := by omega
  have h2 : ¬(ptr - headerSize) % headerAlignment ≠ 0 := fun h => h hal
  simp only [decodeHeader, h1, h2, if_false]

theorem decodeHeader_small {c : SizeClass} {id : Nat} (hle : headerSize ≤ ptr)
    (hal : blockStartFromUserPtr ptr % 64 = 0) (hsize : SizeClass.fromRequest size = some c)
    (h : LiveSmall m c (blockStartFromUserPtr ptr) size id) :
    decodeHeader m ptr = .ok (readPrefix m (blockStartFromUserPtr ptr), .small c) := by
  obtain ⟨hpos, hpay⟩ := SizeClass.fromRequest_spec hsize
  have h1 : (readPrefix m (blockStartFromUserPtr ptr)).magic = headerMagic := h.formatted.magic
  have h2 : (readPrefix m (blockStartFromUserPtr ptr)).requestedSize = size := h.requestedSize
  have h3 : (readPrefix m (blockStartFromUserPtr ptr)).usableSize = c.payloadSize :=
    h.formatted.usableSize
  have h4 : (readPrefix m (blockStartFromUserPtr ptr)).kind = smallTag := h.formatted.kind
  have h5 : (readPrefix m (blockStartFromUserPtr ptr)).classIndex = c.index :=
    h.formatted.classIndex
  have h6 : ¬(size = 0 ∨ c.payloadSize < size) := by omega
  rw [decodeHeader_eq hle hal, readFromUserPtr]
  simp [validatePrefix, h1, h2, h3, h4, h5, h6, indexToSizeClass_index]

theorem decodeHeader_large {usable : Nat} (hle : headerSize ≤ ptr)
    (hal : blockStartFromUserPtr ptr % 64 = 0) (hpos : 0 < size) (husable : size ≤ usable)
    (h : LiveLarge m (blockStartFromUserPtr ptr) size usable) :
    decodeHeader m ptr = .ok (readPrefix m (blockStartFromUserPtr ptr), .large) := by
  have h1 : ¬(size = 0 ∨ usable < size) := by omega
  rw [decodeHeader_eq hle hal, readFromUserPtr, h.fields_eq]
  simp [validatePrefix, h1, smallTag, largeTag]

end Decode

section Checks

variable {setup : Setup ι κ} {w : World ι κ Seq Seq} {a : ι} {c : SizeClass}

theorem InArena.aligned {x : Cell ι} (h : InArena setup w x) : x.lo % 64 = 0 :=
  Nat.mod_eq_zero_of_dvd ((setup.arenaFacts x.alloc).dvd_header.trans h.dvd_lo)

variable [DecidableEq ι]

/-- A block of an arena is found in that arena and no other. -/
theorem Inv.containsBlockStart (inv : Inv setup w) {p : Place ι κ} {x : Cell ι}
    (hx : x ∈ w.own setup p) (a : ι) :
    (w.allocators a).arena.containsBlockStart x.lo = decide (x.alloc = a) := by
  have hin := inv.ledger.inArena p x hx
  have h1 := hin.base_le
  have h2 := hin.hi_le
  have h3 := hin.lo_lt
  have h4 := (inv.parts.allocator x.alloc).next_le
  rw [(inv.parts.allocator a).arena_eq]
  by_cases ha : x.alloc = a
  · subst ha
    have hdvd : (setup.arena x.alloc).alignment ∣ x.lo - (setup.arena x.alloc).base := by
      rw [(setup.arenaFacts x.alloc).alignment_eq]
      exact Nat.dvd_sub hin.dvd_lo (setup.arenaFacts x.alloc).dvd_base
    have h5 : x.lo < (setup.arena x.alloc).base + (setup.arena x.alloc).len := by omega
    simp [Arena.containsBlockStart, h1, h5, Nat.mod_eq_zero_of_dvd hdvd]
  · have := setup.arenas_disjoint ha
    simp only [ha, decide_false, Arena.containsBlockStart, Bool.and_eq_false_iff,
      decide_eq_false_iff_not]
    omega

/-- What a free finds that names `expectedSize`, or no size, for an allocation of `size`. -/
def sizeChecked (expectedSize : Option Nat) (size : Nat) (route : FreeRoute) :
    Except FreeError FreeRoute :=
  match expectedSize with
  | none => .ok route
  | some expected =>
    if expected = size then .ok route else .error (.sizeMismatch expected size)

theorem sizeChecked_cases (expectedSize : Option Nat) (size : Nat) (route : FreeRoute) :
    sizeChecked expectedSize size route = .ok route ∨
      ∃ e, sizeChecked expectedSize size route = .error e := by
  unfold sizeChecked
  split
  · exact Or.inl rfl
  · split
    · exact Or.inl rfl
    · exact Or.inr ⟨_, rfl⟩

/-- The checks of a free of a live small allocation: a foreign one is refused, and one of the
allocator called is routed by the cache that its header names. -/
theorem Inv.checkFree_small (inv : Inv setup w) {entry : Live ι κ} (hmem : entry ∈ w.live)
    (hc : SizeClass.fromRequest entry.size = some c) (debug : Bool) (expectedSize : Option Nat) :
    (w.allocators a).checkFree debug w.mem entry.ptr expectedSize =
      if entry.alloc = a then
        sizeChecked expectedSize entry.size
          (.small c (blockStartFromUserPtr entry.ptr) (setup.cacheId entry.cache))
      else .error .foreignPointer := by
  have ok := inv.memory.entry none entry hmem
  have hlive := ok.small c hc
  have hcell : setup.smallCell entry.alloc c (blockStartFromUserPtr entry.ptr) ∈
      w.own setup .client := Live.mem_client hmem hc
  have hal := (inv.ledger.inArena _ _ hcell).aligned
  have hcontains := inv.containsBlockStart hcell a
  simp only [Setup.smallCell] at hal hcontains
  have h1 : (readPrefix w.mem (blockStartFromUserPtr entry.ptr)).requestedSize = entry.size :=
    hlive.requestedSize
  have h2 : (readPrefix w.mem (blockStartFromUserPtr entry.ptr)).ownerCacheId =
      setup.cacheId entry.cache := hlive.ownerCacheId
  have hmarked : smallBlockIsMarkedFreed debug w.mem (blockStartFromUserPtr entry.ptr) = false := by
    have hzero : w.mem.read (blockStartFromUserPtr entry.ptr + 32) 8 = 0 := hlive.marker
    simp [smallBlockIsMarkedFreed, hzero, (smallFreeMarkerFor_ne_zero hal).symm]
  simp only [Allocator.checkFree, decodeHeader_small ok.header_le hal hc hlive]
  by_cases ha : entry.alloc = a
  · cases expectedSize with
    | none =>
      simp [Allocator.deallocateDecoded, Allocator.validateSmallBlockForFree, hcontains, ha,
        hmarked, sizeChecked, h2]
    | some expected =>
      by_cases he : expected = entry.size
      · simp [Allocator.deallocateDecodedWithExpectedSize, Allocator.validateSmallBlockForFree,
          hcontains, ha, hmarked, sizeChecked, validateExpectedSize, he, h1, h2]
      · simp [Allocator.deallocateDecodedWithExpectedSize, Allocator.validateSmallBlockForFree,
          hcontains, ha, hmarked, sizeChecked, validateExpectedSize, he, h1]
  · cases expectedSize <;> simp [Allocator.deallocateDecodedWithExpectedSize,
      Allocator.deallocateDecoded, Allocator.validateSmallBlockForFree, hcontains, ha]

omit [DecidableEq ι] in
/-- The checks of a free of a live large allocation look at its header only. -/
theorem Inv.checkFree_large (inv : Inv setup w) {entry : Live ι κ} (hmem : entry ∈ w.live)
    (hc : SizeClass.fromRequest entry.size = none) (debug : Bool) (expectedSize : Option Nat) :
    ∃ record, (entry.ptr, record) ∈ (w.allocators entry.alloc).large.live ∧
      (w.allocators a).checkFree debug w.mem entry.ptr expectedSize =
        sizeChecked expectedSize entry.size (.large entry.size record.usableSize) := by
  have ok := inv.memory.entry none entry hmem
  obtain ⟨record, hrecord, hreq⟩ := inv.tokens.record none entry hmem hc
  have hlive := ok.large hc record hrecord
  have hok := (inv.parts.allocator entry.alloc).large.live_ok _ hrecord
  have hal := (inv.ledger.inArena (.largeLive entry.alloc) _ (mem_largeLive hrecord)).aligned
  have hstart : blockStartFromUserPtr entry.ptr = record.blockAddr := by
    have := hok.key
    unfold blockStartFromUserPtr
    simp only at this
    omega
  have hle : entry.size ≤ record.usableSize := hreq ▸ hok.requested_le
  have hdecode := decodeHeader_large ok.header_le (hstart ▸ hal) ok.size_pos hle hlive
  refine ⟨record, hrecord, ?_⟩
  simp only [Allocator.checkFree, hdecode, hlive.fields_eq]
  cases expectedSize with
  | none => rfl
  | some expected =>
    by_cases he : expected = entry.size
    · simp [Allocator.deallocateDecodedWithExpectedSize, sizeChecked, validateExpectedSize, he]
    · simp [Allocator.deallocateDecodedWithExpectedSize, sizeChecked, validateExpectedSize, he]

end Checks

end Orthotope
