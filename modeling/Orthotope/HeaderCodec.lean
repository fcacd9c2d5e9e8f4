import Orthotope.Header

/-! The header as a codec.  Its two layouts agree on the fields they share, its two validators on
every header, and a prefix is accepted exactly when an encoder makes it.  What a writer has written
is read back, whatever happens to the words that a free block uses. -/

namespace Orthotope

open ByteMemory

/-! ### Layouts -/

/-- Offset and size of the fields of a `repr(C)` structure, from their sizes and alignments. -/
def reprC : (offset : Nat) → List (Nat × Nat) → List (Nat × Nat)
  | _, [] => []
  | offset, (size, alignment) :: fields =>
    (alignUp offset alignment, size) :: reprC (alignUp offset alignment + size) fields

/-- The size of a structure, which is a multiple of its alignment. -/
def sizeOfReprC (alignment : Nat) (fields : List (Nat × Nat)) : Nat :=
  alignUp (((reprC 0 fields).getLast?.map fun f => f.1 + f.2).getD 0) alignment

/-- The fields of `AllocationHeaderPrefix`. -/
def prefixFields : List (Nat × Nat) := [(4, 4), (1, 1), (1, 1), (2, 1), (4, 4), (4, 4), (4, 4)]

/-- `HEADER_TAIL_PADDING_SIZE`. -/
def headerTailPaddingSize : Nat := headerSize - sizeOfReprC 4 prefixFields - 4 - 8 - 8

/-- The fields of `AllocationHeader`. -/
def headerFields : List (Nat × Nat) :=
  prefixFields ++ [(4, 4), (8, 8), (8, 8), (headerTailPaddingSize, 1)]

theorem layout_eq : reprC 0 headerFields = headerLayout ∧
    reprC 0 prefixFields = headerLayout.take 7 ∧ sizeOfReprC headerAlignment headerFields = 64 ∧
      sizeOfReprC 4 prefixFields = 20 := by
  decide

/-- The fields of `layout` in the structure at `b`. -/
def readFields (m : Mem) (b : Nat) (layout : List (Nat × Nat)) : List Nat :=
  layout.map fun f => m.read (b + f.1) f.2

def AllocationHeaderPrefix.fields (p : AllocationHeaderPrefix) : List Nat :=
  [p.magic, p.kind, p.classIndex, p.reserved, p.requestedSize, p.usableSize, p.ownerCacheId]

def AllocationHeader.fields (h : AllocationHeader) : List Nat :=
  h.toAllocationHeaderPrefix.fields ++
    [h.freeMetadataAlignmentPadding, h.freeListLink, h.smallFreeMarker, h.tailPadding]

theorem readPrefix_fields (m : Mem) (b : Nat) :
    (readPrefix m b).fields = readFields m b (reprC 0 prefixFields) := by
  rw [layout_eq.2.1]
  rfl

theorem readHeader_fields (m : Mem) (b : Nat) :
    (readHeader m b).fields = readFields m b (reprC 0 headerFields) := by
  rw [layout_eq.1]
  rfl

/-! ### Validators -/

/-- The values of the prefix whose fields have the source's types. -/
structure AllocationHeaderPrefix.Typed (p : AllocationHeaderPrefix) : Prop where
  kind : p.kind = smallTag ∨ p.kind = largeTag
  requestedSize_lt : p.requestedSize < 2 ^ 32
  usableSize_lt : p.usableSize < 2 ^ 32

/-- `AllocationHeader::validate`. -/
def AllocationHeader.validate (h : AllocationHeader) : Except FreeError AllocationKind :=
  if h.magic ≠ headerMagic then .error .corruptHeader
  else if h.requestedSize = 0 ∨ h.usableSize < h.requestedSize then .error .corruptHeader
  else if h.kind = smallTag then
    match indexToSizeClass h.classIndex with
    | none => .error .corruptHeader
    | some c => if h.usableSize ≠ c.payloadSize then .error .corruptHeader else .ok (.small c)
  else if h.kind = largeTag then
    if h.classIndex ≠ largeClassSentinel then .error .corruptHeader else .ok .large
  else .error .corruptHeader

section Encoders

variable {c : SizeClass} {requested usable : Nat}

/-- What the encoder of small headers accepts, it narrows without loss. -/
theorem encodeSmallFields_eq_some {fields : Nat × Nat × Nat} :
    encodeSmallFields c requested = some fields ↔
      0 < requested ∧ requested ≤ c.payloadSize ∧ fields = (c.index, requested, c.payloadSize) := by
  have hlt := c.payloadSize_lt
  unfold encodeSmallFields
  by_cases hreq : requested = 0 ∨ c.payloadSize < requested
  · rw [if_pos hreq]
    constructor
    · intro h
      cases h
    · rintro ⟨h1, h2, -⟩
      omega
  · have hfits : (fitsU32 requested && fitsU32 c.payloadSize) = true := by
      simp only [fitsU32, Bool.and_eq_true, decide_eq_true_eq]
      omega
    rw [if_neg hreq, if_pos hfits]
    constructor
    · intro h
      exact ⟨by omega, by omega, (Option.some.inj h).symm⟩
    · rintro ⟨-, -, rfl⟩
      rfl

theorem encodeLargeFields_eq_some {fields : Nat × Nat} :
    encodeLargeFields requested usable = some fields ↔
      0 < requested ∧ requested ≤ usable ∧ usable < 2 ^ 32 ∧ fields = (requested, usable) := by
  unfold encodeLargeFields
  by_cases hreq : requested = 0 ∨ usable < requested
  · rw [if_pos hreq]
    constructor
    · intro h
      cases h
    · rintro ⟨h1, h2, -⟩
      omega
  · rw [if_neg hreq]
    have hfits : (fitsU32 requested && fitsU32 usable) = true ↔ usable < 2 ^ 32 := by
      simp only [fitsU32, Bool.and_eq_true, decide_eq_true_eq]
      omega
    by_cases hlt : usable < 2 ^ 32
    · rw [if_pos (hfits.mpr hlt)]
      constructor
      · intro h
        exact ⟨by omega, by omega, hlt, (Option.some.inj h).symm⟩
      · rintro ⟨-, -, -, rfl⟩
        rfl
    · rw [if_neg fun h => hlt (hfits.mp h)]
      constructor
      · intro h
        cases h
      · rintro ⟨-, -, h, -⟩
        exact absurd h hlt

end Encoders

/-- The prefix is one that an encoder makes, with the magic, and stands for `kind`. -/
inductive AllocationHeaderPrefix.Encodes (p : AllocationHeaderPrefix) : AllocationKind → Prop
  | small {c : SizeClass} {size : Nat} (hmagic : p.magic = headerMagic) (hkind : p.kind = smallTag)
      (hfields : encodeSmallFields c size = some (p.classIndex, p.requestedSize, p.usableSize)) :
      Encodes p (.small c)
  | large {size usable : Nat} (hmagic : p.magic = headerMagic) (hkind : p.kind = largeTag)
      (hclass : p.classIndex = largeClassSentinel)
      (hfields : encodeLargeFields size usable = some (p.requestedSize, p.usableSize)) :
      Encodes p .large

theorem AllocationHeaderPrefix.Encodes.validate {p : AllocationHeaderPrefix} {kind : AllocationKind}
    (h : p.Encodes kind) : validatePrefix p = .ok kind := by
  cases h with
  | @small c size hmagic hkind hfields =>
    obtain ⟨hpos, hle, heq⟩ := encodeSmallFields_eq_some.mp hfields
    obtain ⟨hclass, hrest⟩ := Prod.mk.inj heq
    obtain ⟨hreq, husable⟩ := Prod.mk.inj hrest
    have hsizes : ¬(p.requestedSize = 0 ∨ p.usableSize < p.requestedSize) := by omega
    rw [validatePrefix, if_neg (not_not_intro hmagic), if_neg hsizes, if_pos hkind]
    simp only [hclass, indexToSizeClass_index]
    exact if_neg (not_not_intro husable)
  | large hmagic hkind hclass hfields =>
    obtain ⟨hpos, hle, -, heq⟩ := encodeLargeFields_eq_some.mp hfields
    obtain ⟨hreq, husable⟩ := Prod.mk.inj heq
    have hsizes : ¬(p.requestedSize = 0 ∨ p.usableSize < p.requestedSize) := by omega
    have htag : ¬largeTag = smallTag := by decide
    rw [validatePrefix, if_neg (not_not_intro hmagic), if_neg hsizes, hkind, if_neg htag,
      if_pos rfl,
      if_neg (not_not_intro hclass)]

/-- A prefix is accepted exactly when an encoder makes it. -/
theorem validatePrefix_eq_ok {p : AllocationHeaderPrefix} (typed : p.Typed)
    {kind : AllocationKind} :
    validatePrefix p = .ok kind ↔ p.Encodes kind := by
  constructor
  · intro h
    unfold validatePrefix at h
    split at h
    · cases h
    · rename_i hmagic
      have hmagic : p.magic = headerMagic := by simpa using hmagic
      split at h
      · cases h
      · rename_i hsizes
        split at h
        · rename_i hkind
          split at h
          · cases h
          · rename_i c hclass
            split at h
            · cases h
            · rename_i husable
              have husable : p.usableSize = c.payloadSize := by simpa using husable
              obtain rfl : AllocationKind.small c = kind := Except.ok.inj h
              have hfields : encodeSmallFields c p.requestedSize =
                  some (p.classIndex, p.requestedSize, p.usableSize) := by
                rw [indexToSizeClass_eq_some hclass, husable]
                exact encodeSmallFields_eq_some.mpr ⟨by omega, by omega, rfl⟩
              exact .small hmagic hkind hfields
        · split at h
          · rename_i hkind
            split at h
            · cases h
            · rename_i hclass
              have hclass : p.classIndex = largeClassSentinel := by simpa using hclass
              obtain rfl : AllocationKind.large = kind := Except.ok.inj h
              exact .large hmagic hkind hclass (encodeLargeFields_eq_some.mpr
                ⟨by omega, by omega, typed.usableSize_lt, rfl⟩)
          · cases h
  · exact fun h => h.validate

theorem AllocationHeader.validate_eq (h : AllocationHeader) :
    h.validate = validatePrefix h.toAllocationHeaderPrefix := rfl

/-! ### Round trips -/

/-- A write that a block's header sees while the block is free, or on its way. -/
inductive FreeWrite where
  | link (next : Option Nat)
  | mark
  | clear

def FreeWrite.apply (debug : Bool) (b : Nat) (m : Mem) : FreeWrite → Mem
  | .link next => writeSmallFreeListNext m b next
  | .mark => markSmallBlockFreed debug m b
  | .clear => clearSmallFreeMetadata debug m b

/-- The writes one after the other. -/
def freeWrites (debug : Bool) (b : Nat) (m : Mem) (writes : List FreeWrite) : Mem :=
  writes.foldl (FreeWrite.apply debug b) m

section RoundTrip

variable {m : Mem} {b : Nat} {c : SizeClass} {requested usable owner : Nat}

theorem readPrefix_write {off n v : Nat} (h : 20 ≤ off) :
    readPrefix (m.write (b + off) n v) b = readPrefix m b := by
  simp (disch := omega) only [readPrefix, Mem.read_write_disjoint]

/-- The words of a free block lie behind the prefix. -/
theorem readPrefix_freeWrites (debug : Bool) (writes : List FreeWrite) :
    readPrefix (freeWrites debug b m writes) b = readPrefix m b := by
  induction writes generalizing m with
  | nil => rfl
  | cons write writes ih =>
    have hwrite : readPrefix (write.apply debug b m) b = readPrefix m b := by
      cases write with
      | link next => exact readPrefix_write (by decide)
      | mark =>
        show readPrefix (if debug then m.write (b + 32) 8 (smallFreeMarkerFor b) else m) b = _
        split
        · exact readPrefix_write (by decide)
        · rfl
      | clear =>
        show readPrefix (if debug then m.write (b + 32) 8 0 else m) b = _
        split
        · exact readPrefix_write (by decide)
        · rfl
    exact ih.trans hwrite

theorem readFromUserPtr_eq {kind : AllocationKind} (h : (readPrefix m b).Encodes kind) :
    readFromUserPtr m (userPtrFromBlockStart b) = .ok (readPrefix m b, kind) := by
  have hstart : blockStartFromUserPtr (userPtrFromBlockStart b) = b := Nat.add_sub_cancel ..
  simp only [readFromUserPtr, hstart, h.validate]

/-- A small header is read back. -/
theorem read_small {fields : Nat × Nat × Nat} (h : encodeSmallFields c requested = some fields)
    (howner : owner < 2 ^ 32) (debug : Bool) (writes : List FreeWrite) :
    readFromUserPtr (freeWrites debug b (writeSmallToBlockUnchecked m b c requested owner) writes)
        (userPtrFromBlockStart b) =
      .ok ((encodedHeader smallTag c.index requested c.payloadSize
        owner).toAllocationHeaderPrefix, .small c) := by
  obtain ⟨-, hle, rfl⟩ := encodeSmallFields_eq_some.mp h
  have hlt := c.payloadSize_lt
  have hindex := c.index_lt
  have hread : readPrefix (freeWrites debug b (writeSmallToBlockUnchecked m b c requested owner)
      writes) b = (encodedHeader smallTag c.index requested c.payloadSize
        owner).toAllocationHeaderPrefix := by
    rw [readPrefix_freeWrites]
    exact congrArg AllocationHeader.toAllocationHeaderPrefix
      (readHeader_writeEncodedFields (by decide) (by omega) (by omega) hlt howner)
  have hencodes : (readPrefix (freeWrites debug b (writeSmallToBlockUnchecked m b c requested owner)
      writes) b).Encodes (.small c) := by
    rw [hread]
    exact .small rfl rfl h
  rw [readFromUserPtr_eq hencodes, hread]

/-- A large header is read back. -/
theorem read_large {fields : Nat × Nat} (h : encodeLargeFields requested usable = some fields)
    (debug : Bool) (writes : List FreeWrite) :
    ∃ m', writeLargeToBlock m b requested usable = some m' ∧
      readFromUserPtr (freeWrites debug b m' writes) (userPtrFromBlockStart b) =
        .ok ((encodedHeader largeTag largeClassSentinel requested usable
          0).toAllocationHeaderPrefix, .large) := by
  obtain ⟨-, hle, hlt, rfl⟩ := encodeLargeFields_eq_some.mp h
  obtain ⟨m', hm'⟩ : ∃ m', m' =
    writeEncodedFields m b largeTag largeClassSentinel requested usable 0 := ⟨_, rfl⟩
  have hread : readPrefix (freeWrites debug b m' writes) b = (encodedHeader largeTag
      largeClassSentinel requested usable 0).toAllocationHeaderPrefix := by
    rw [readPrefix_freeWrites, hm']
    exact congrArg AllocationHeader.toAllocationHeaderPrefix
      (readHeader_writeEncodedFields (by decide) (by decide) (by omega) hlt (by decide))
  have hencodes : (readPrefix (freeWrites debug b m' writes) b).Encodes .large := by
    rw [hread]
    exact .large rfl rfl rfl h
  refine ⟨m', ?_, ?_⟩
  · rw [writeLargeToBlock, h, hm']
    rfl
  · rw [readFromUserPtr_eq hencodes, hread]

/-- The header codec.  The offsets that are read and written are those of the two `repr(C)` layouts;
the validators accept what the encoders make, with the kind that was encoded; what the encoders
accept they narrow without loss, and it is read back behind any writes to the words of a free block;
and a refresh changes the fields it is for, and no other byte. -/
theorem header_codec :
    -- layouts
    (reprC 0 headerFields = headerLayout ∧ sizeOfReprC headerAlignment headerFields = headerSize ∧
      ∀ m b, (readPrefix m b).fields = readFields m b (reprC 0 prefixFields) ∧
        (readHeader m b).fields = readFields m b (reprC 0 headerFields)) ∧
    -- validators
    (∀ p : AllocationHeaderPrefix, p.Typed → ∀ kind,
      (validatePrefix p = .ok kind ↔ p.Encodes kind) ∧
        ∀ h : AllocationHeader, h.toAllocationHeaderPrefix = p → h.validate = validatePrefix p) ∧
    -- writers
    (∀ c requested classIndex narrowRequested narrowUsable,
      encodeSmallFields c requested = some (classIndex, narrowRequested, narrowUsable) →
      (classIndex < 2 ^ 8 ∧ narrowRequested = requested ∧ narrowUsable = c.payloadSize ∧
        requested < 2 ^ 32 ∧ c.payloadSize < 2 ^ 32) ∧
      ∀ m b owner, owner < 2 ^ 32 → ∃ m', writeSmallToBlock m b c requested owner = some m' ∧
        m' = writeSmallToBlockUnchecked m b c requested owner ∧
        ∀ debug writes, ∃ p : AllocationHeaderPrefix,
          readFromUserPtr (freeWrites debug b m' writes) (userPtrFromBlockStart b) =
            .ok (p, .small c) ∧
          p.requestedSize = requested ∧ p.usableSize = c.payloadSize ∧ p.ownerCacheId = owner) ∧
    (∀ requested usable narrowRequested narrowUsable,
      encodeLargeFields requested usable = some (narrowRequested, narrowUsable) →
      (narrowRequested = requested ∧ narrowUsable = usable ∧ requested < 2 ^ 32 ∧ usable < 2 ^ 32) ∧
      ∀ m b, ∃ m', writeLargeToBlock m b requested usable = some m' ∧
        ∀ debug writes, ∃ p : AllocationHeaderPrefix,
          readFromUserPtr (freeWrites debug b m' writes) (userPtrFromBlockStart b) =
            .ok (p, .large) ∧
          p.requestedSize = requested ∧ p.usableSize = usable ∧ p.ownerCacheId = 0) ∧
    -- refreshes
    ∀ m b requested owner, requested < 2 ^ 32 → owner < 2 ^ 32 →
      (readHeader (refreshSmallRequestedSizeUnchecked m b requested) b =
          { readHeader m b with requestedSize := requested } ∧
        ∀ x, ¬(b + 8 ≤ x ∧ x < b + 12) →
          (refreshSmallRequestedSizeUnchecked m b requested).byte x = m.byte x) ∧
      readHeader (refreshSmallRequestedSizeAndOwnerUnchecked m b requested owner) b =
          { readHeader m b with requestedSize := requested, ownerCacheId := owner } ∧
        ∀ x, ¬(b + 8 ≤ x ∧ x < b + 12) → ¬(b + 16 ≤ x ∧ x < b + 20) →
          (refreshSmallRequestedSizeAndOwnerUnchecked m b requested owner).byte x = m.byte x := by
  refine ⟨⟨layout_eq.1, layout_eq.2.2.1, fun m b => ⟨readPrefix_fields m b, readHeader_fields m b⟩⟩,
    fun p typed kind => ⟨validatePrefix_eq_ok typed, fun h hp => hp ▸ h.validate_eq⟩,
    fun c requested classIndex narrowRequested narrowUsable hfields => ?_,
    fun requested usable narrowRequested narrowUsable hfields => ?_,
    fun m b requested owner hrequested howner =>
      ⟨⟨readHeader_requestedSize hrequested, ?_⟩, ?_, ?_⟩⟩
  · obtain ⟨-, hle, heq⟩ := encodeSmallFields_eq_some.mp hfields
    obtain ⟨rfl, hrest⟩ := Prod.mk.inj heq
    obtain ⟨rfl, rfl⟩ := Prod.mk.inj hrest
    have hlt := c.payloadSize_lt
    have hindex := c.index_lt
    refine ⟨⟨by omega, rfl, rfl, by omega, hlt⟩, fun m b owner howner => ?_⟩
    refine ⟨writeSmallToBlockUnchecked m b c narrowRequested owner, ?_, rfl, fun debug writes =>
      ⟨_, read_small hfields howner debug writes, rfl, rfl, rfl⟩⟩
    rw [writeSmallToBlock, hfields]
    rfl
  · obtain ⟨-, hle, hlt, heq⟩ := encodeLargeFields_eq_some.mp hfields
    obtain ⟨rfl, rfl⟩ := Prod.mk.inj heq
    refine ⟨⟨rfl, rfl, by omega, hlt⟩, fun m b => ?_⟩
    obtain ⟨m', hwrite, -⟩ := read_large (m := m) (b := b) hfields false []
    refine ⟨m', hwrite, fun debug writes => ?_⟩
    obtain ⟨m'', hwrite', hread⟩ := read_large (m := m) (b := b) hfields debug writes
    obtain rfl := Option.some.inj (hwrite.symm.trans hwrite')
    exact ⟨_, hread, rfl, rfl, rfl⟩
  · intro x hx
    exact Mem.write_byte_outside (by omega)
  · rw [refreshSmallRequestedSizeAndOwnerUnchecked, readHeader_ownerCacheId howner,
      readHeader_requestedSize hrequested]
  · intro x hx hx'
    rw [refreshSmallRequestedSizeAndOwnerUnchecked, Mem.write_byte_outside (by omega)]
    exact Mem.write_byte_outside (by omega)

/-- A header of 100 bytes in a block of 256, whose link and marker words are written over. -/
theorem header_codec_sample : ∃ m' : Mem, ∃ p : AllocationHeaderPrefix,
    writeSmallToBlock (Mem.zero 4096) 4096 .b256 100 7 = some m' ∧
      readFromUserPtr
          (freeWrites true 4096 m' [.link (some 8192), .mark, .link none, .clear]) 4160 =
        .ok (p, .small .b256) ∧ p.requestedSize = 100 ∧ p.ownerCacheId = 7 := by
  have hfields : encodeSmallFields .b256 100 = some (1, 100, 256) := by decide
  obtain ⟨-, hwrite⟩ := header_codec.2.2.1 .b256 100 1 100 256 hfields
  obtain ⟨m', hm', -, hread⟩ := hwrite (Mem.zero 4096) 4096 7 (by decide)
  obtain ⟨p, hp, hrequested, -, howner⟩ :=
    hread true [.link (some 8192), .mark, .link none, .clear]
  exact ⟨m', p, hm', hp, hrequested, howner⟩

end RoundTrip

end Orthotope
