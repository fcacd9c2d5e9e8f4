import Orthotope.SizeClass
import Orthotope.Lib.ByteMemory

/-! The allocation header, `header.rs`: the 64 bytes at the start of every block, written field by
field at the offsets of the `repr(C)` layout.  `debug` is `cfg(debug_assertions)`, under which freed
small blocks carry a marker word.  `readHeader` collects every field of a block's header, and the
lemmas give the effect of each writer on it. -/

namespace Orthotope

open ByteMemory

def headerMagic : Nat := 0x4f525448

/-- Class index of a large allocation, `u8::MAX`. -/
def largeClassSentinel : Nat := 255

/-- The discriminants of `AllocationKindTag`. -/
def smallTag : Nat := 1

def largeTag : Nat := 2

/-- Decoded allocation kind stored in the header. -/
inductive AllocationKind where
  | small (c : SizeClass)
  | large
  deriving DecidableEq, Repr

/-- The routing fields, at offsets 0, 4, 5, 6, 8, 12 and 16. -/
structure AllocationHeaderPrefix where
  magic : Nat
  kind : Nat
  classIndex : Nat
  reserved : Nat
  requestedSize : Nat
  usableSize : Nat
  ownerCacheId : Nat
  deriving DecidableEq, Repr

/-- The whole header: the prefix, the word that aligns the free-list link, the link at offset 24,
the freed marker at offset 32 and the tail at offset 40. -/
structure AllocationHeader extends AllocationHeaderPrefix where
  freeMetadataAlignmentPadding : Nat
  freeListLink : Nat
  smallFreeMarker : Nat
  tailPadding : Nat
  deriving DecidableEq, Repr

def indexToSizeClass (index : Nat) : Option SizeClass := SizeClass.all[index]?

def userPtrFromBlockStart (blockStart : Nat) : Nat := blockStart + headerSize

/-- `wrapping_sub`: only reached for pointers that are at least `headerSize`. -/
def blockStartFromUserPtr (userPtr : Nat) : Nat := userPtr - headerSize

/-! ### Reading -/

def readPrefix (m : Mem) (b : Nat) : AllocationHeaderPrefix where
  magic := m.read b 4
  kind := m.read (b + 4) 1
  classIndex := m.read (b + 5) 1
  reserved := m.read (b + 6) 2
  requestedSize := m.read (b + 8) 4
  usableSize := m.read (b + 12) 4
  ownerCacheId := m.read (b + 16) 4

def readHeader (m : Mem) (b : Nat) : AllocationHeader where
  toAllocationHeaderPrefix := readPrefix m b
  freeMetadataAlignmentPadding := m.read (b + 20) 4
  freeListLink := m.read (b + 24) 8
  smallFreeMarker := m.read (b + 32) 8
  tailPadding := m.read (b + 40) 24

/-- A kind that is neither of the two tags is not a value of the source's type; it is answered like
any other corrupt field, after the checks that the source makes first. -/
def validatePrefix (p : AllocationHeaderPrefix) : Except FreeError AllocationKind :=
  if p.magic ≠ headerMagic then .error .corruptHeader
  else if p.requestedSize = 0 ∨ p.usableSize < p.requestedSize then .error .corruptHeader
  else if p.kind = smallTag then
    match indexToSizeClass p.classIndex with
    | none => .error .corruptHeader
    | some c => if p.usableSize ≠ c.payloadSize then .error .corruptHeader else .ok (.small c)
  else if p.kind = largeTag then
    if p.classIndex ≠ largeClassSentinel then .error .corruptHeader else .ok .large
  else .error .corruptHeader

def readFromUserPtr (m : Mem) (userPtr : Nat) :
    Except FreeError (AllocationHeaderPrefix × AllocationKind) :=
  let p := readPrefix m (blockStartFromUserPtr userPtr)
  match validatePrefix p with
  | .ok kind => .ok (p, kind)
  | .error e => .error e

/-! ### Writing -/

/-- `u32::try_from` of a field. -/
def fitsU32 (v : Nat) : Bool := v < 2 ^ 32

def encodeSmallFields (c : SizeClass) (requestedSize : Nat) : Option (Nat × Nat × Nat) :=
  if requestedSize = 0 ∨ c.payloadSize < requestedSize then none
  else if fitsU32 requestedSize && fitsU32 c.payloadSize then
    some (c.index, requestedSize, c.payloadSize)
  else none

def encodeLargeFields (requestedSize usableSize : Nat) : Option (Nat × Nat) :=
  if requestedSize = 0 ∨ usableSize < requestedSize then none
  else if fitsU32 requestedSize && fitsU32 usableSize then some (requestedSize, usableSize)
  else none

/-- Offset and width of each field of `AllocationHeader`, in declaration order. -/
def headerLayout : List (Nat × Nat) :=
  [(0, 4), (4, 1), (5, 1), (6, 2), (8, 4), (12, 4), (16, 4), (20, 4), (24, 8), (32, 8), (40, 24)]

/-- Writes `values` to the fields of `layout` in the header at `b`, one after the other. -/
def writeFields (b : Nat) : (layout : List (Nat × Nat)) → (values : List Nat) → Mem → Mem
  | (off, n) :: layout, v :: values, m => writeFields b layout values (m.write (b + off) n v)
  | _, _, m => m

def writeEncodedFields (m : Mem) (b kind classIndex requestedSize usableSize owner : Nat) : Mem :=
  writeFields b headerLayout
    [headerMagic, kind, classIndex, 0, requestedSize, usableSize, owner, 0, 0, 0, 0] m

def writeSmallToBlock (m : Mem) (b : Nat) (c : SizeClass) (requestedSize owner : Nat) :
    Option Mem :=
  (encodeSmallFields c requestedSize).map fun (classIndex, requested, usable) =>
    writeEncodedFields m b smallTag classIndex requested usable owner

def writeSmallToBlockUnchecked (m : Mem) (b : Nat) (c : SizeClass) (requestedSize owner : Nat) :
    Mem :=
  writeEncodedFields m b smallTag c.index requestedSize c.payloadSize owner

def initializeSmallToBlockUnchecked (m : Mem) (b : Nat) (c : SizeClass) : Mem :=
  writeEncodedFields m b smallTag c.index 0 c.payloadSize 0

def refreshSmallRequestedSizeUnchecked (m : Mem) (b requestedSize : Nat) : Mem :=
  m.write (b + 8) 4 requestedSize

def refreshSmallRequestedSizeAndOwnerUnchecked (m : Mem) (b requestedSize owner : Nat) : Mem :=
  (m.write (b + 8) 4 requestedSize).write (b + 16) 4 owner

def writeLargeToBlock (m : Mem) (b requestedSize usableSize : Nat) : Option Mem :=
  (encodeLargeFields requestedSize usableSize).map fun (requested, usable) =>
    writeEncodedFields m b largeTag largeClassSentinel requested usable 0

/-- The null word stands for no successor. -/
def readSmallFreeListNext (m : Mem) (b : Nat) : Option Nat :=
  let next := m.read (b + 24) 8
  if next = 0 then none else some next

def writeSmallFreeListNext (m : Mem) (b : Nat) (next : Option Nat) : Mem :=
  m.write (b + 24) 8 (next.getD 0)

def smallFreeMarkerSeed : BitVec 64 := BitVec.allOnes 64 ^^^ BitVec.ofNat 64 headerMagic

def smallFreeMarkerFor (b : Nat) : Nat :=
  (smallFreeMarkerSeed ^^^ (BitVec.ofNat 64 b).rotateLeft 17 ^^^ BitVec.ofNat 64 headerSize).toNat

def smallBlockIsMarkedFreed (debug : Bool) (m : Mem) (b : Nat) : Bool :=
  debug && m.read (b + 32) 8 == smallFreeMarkerFor b

def markSmallBlockFreed (debug : Bool) (m : Mem) (b : Nat) : Mem :=
  if debug then m.write (b + 32) 8 (smallFreeMarkerFor b) else m

/-- `clear_small_free_metadata`: the link word stays as it is. -/
def clearSmallFreeMetadata (debug : Bool) (m : Mem) (b : Nat) : Mem :=
  if debug then m.write (b + 32) 8 0 else m

theorem indexToSizeClass_index (c : SizeClass) : indexToSizeClass c.index = some c := by
  cases c <;> rfl

theorem indexToSizeClass_eq_some {index : Nat} {c : SizeClass}
    (h : indexToSizeClass index = some c) : index = c.index := by
  have hlt : index < 12 := (List.getElem?_eq_some_iff.mp h).1
  have hindex : ∀ i < 12, indexToSizeClass i = some c → i = c.index := by
    cases c <;> decide
  exact hindex index hlt h

/-! ### The fields after a write -/

section Fields

variable {m : Mem} {b v : Nat}

theorem readHeader_requestedSize (h : v < 2 ^ 32) :
    readHeader (m.write (b + 8) 4 v) b = { readHeader m b with requestedSize := v } := by
  simp (disch := omega) only [readHeader, readPrefix, Mem.read_write_disjoint, Mem.read_write_same]

theorem readHeader_ownerCacheId (h : v < 2 ^ 32) :
    readHeader (m.write (b + 16) 4 v) b = { readHeader m b with ownerCacheId := v } := by
  simp (disch := omega) only [readHeader, readPrefix, Mem.read_write_disjoint, Mem.read_write_same]

theorem readHeader_smallFreeMarker (h : v < 2 ^ 64) :
    readHeader (m.write (b + 32) 8 v) b = { readHeader m b with smallFreeMarker := v } := by
  simp (disch := omega) only [readHeader, readPrefix, Mem.read_write_disjoint, Mem.read_write_same]

end Fields

/-- The header that `write_encoded_fields` leaves, whatever was there before. -/
def encodedHeader (kind classIndex requestedSize usableSize owner : Nat) : AllocationHeader where
  magic := headerMagic
  kind := kind
  classIndex := classIndex
  reserved := 0
  requestedSize := requestedSize
  usableSize := usableSize
  ownerCacheId := owner
  freeMetadataAlignmentPadding := 0
  freeListLink := 0
  smallFreeMarker := 0
  tailPadding := 0

theorem readHeader_writeEncodedFields {m : Mem} {b kind classIndex req usable owner : Nat}
    (hk : kind < 256) (hc : classIndex < 256) (hr : req < 2 ^ 32) (hu : usable < 2 ^ 32)
    (ho : owner < 2 ^ 32) :
    readHeader (writeEncodedFields m b kind classIndex req usable owner) b =
      encodedHeader kind classIndex req usable owner := by
  have hm : headerMagic < 256 ^ 4 := by decide
  simp (disch := omega) only [readHeader, readPrefix, writeEncodedFields, writeFields,
    headerLayout, encodedHeader, Nat.add_zero, Mem.read_write_disjoint, Mem.read_write_same]

/-- The bytes of a block's header. -/
def inHeader (b x : Nat) : Prop := b ≤ x ∧ x < b + headerSize

/-- The bytes of the link word of a block. -/
def inLink (b x : Nat) : Prop := b + 24 ≤ x ∧ x < b + 32

theorem writesIn_writeFields {b : Nat} (layout : List (Nat × Nat)) (values : List Nat) (m : Mem)
    (h : ∀ f ∈ layout, f.1 + f.2 ≤ headerSize) :
    WritesIn (inHeader b) m (writeFields b layout values m) := by
  induction layout generalizing values m with
  | nil => exact WritesIn.refl _ _
  | cons f layout ih =>
    cases values with
    | nil => exact WritesIn.refl _ _
    | cons v values =>
      have hf := h f (by simp)
      refine WritesIn.trans ?_ (ih values (m.write (b + f.1) f.2 v) fun g hg => h g (by simp [hg]))
      exact WritesIn.write fun x h1 h2 => ⟨by omega, by omega⟩

theorem lazyAt_writeFields_le {b x : Nat} (layout : List (Nat × Nat)) (values : List Nat) (m : Mem)
    (h : (writeFields b layout values m).lazyAt x = true) : m.lazyAt x = true := by
  induction layout generalizing values m with
  | nil => exact h
  | cons f layout ih =>
    cases values with
    | nil => exact h
    | cons v values => exact Mem.write_lazyAt_le (ih values _ h)

theorem lazyAt_writeFields {b x : Nat} {layout : List (Nat × Nat)} {values : List Nat} {m : Mem}
    (hp : 0 < m.pageSize) (hlen : layout.length = values.length)
    (h : ∃ f ∈ layout, b + f.1 ≤ x ∧ x < b + f.1 + f.2) :
    (writeFields b layout values m).lazyAt x = false := by
  induction layout generalizing values m with
  | nil => simp at h
  | cons f layout ih =>
    cases values with
    | nil => simp at hlen
    | cons v values =>
      obtain ⟨g, hg, h1, h2⟩ := h
      rcases List.mem_cons.mp hg with rfl | hg
      · rw [← Bool.not_eq_true]
        intro hl
        have := lazyAt_writeFields_le layout values _ hl
        rw [Mem.write_lazyAt_inside hp h1 h2] at this
        exact Bool.false_ne_true this
      · exact ih (m := m.write (b + f.1) f.2 v) hp (by simpa using hlen) ⟨g, hg, h1, h2⟩

theorem writesIn_writeEncodedFields (m : Mem) (b kind classIndex req usable owner : Nat) :
    WritesIn (inHeader b) m (writeEncodedFields m b kind classIndex req usable owner) :=
  writesIn_writeFields _ _ m (by decide)

/-- A full header write stores all 64 bytes, so none of them is on a reclaimable page after it. -/
theorem lazyAt_writeEncodedFields {m : Mem} (hp : 0 < m.pageSize)
    {b kind classIndex req usable owner x : Nat} (h : inHeader b x) :
    (writeEncodedFields m b kind classIndex req usable owner).lazyAt x = false := by
  have hcover : ∀ off < headerSize, ∃ f ∈ headerLayout, f.1 ≤ off ∧ off < f.1 + f.2 := by decide
  obtain ⟨f, hf, h1, h2⟩ := hcover (x - b) (by have := h.1; have := h.2; omega)
  exact lazyAt_writeFields hp rfl ⟨f, hf, by have := h.1; omega, by have := h.1; omega⟩

/-! ### The freed marker -/

theorem smallFreeMarkerFor_lt (b : Nat) : smallFreeMarkerFor b < 2 ^ 64 := BitVec.isLt _

/-- The cleared marker word is the marker of no 64-byte aligned block: bit 18 of the marker comes
from the seed, since the rotation puts bit 1 of the address there. -/
theorem smallFreeMarkerFor_ne_zero {b : Nat} (h : b % 64 = 0) : smallFreeMarkerFor b ≠ 0 := by
  intro hz
  have hbv : smallFreeMarkerSeed ^^^ (BitVec.ofNat 64 b).rotateLeft 17 ^^^
    BitVec.ofNat 64 headerSize
      = 0#64 := BitVec.eq_of_toNat_eq hz
  have hbit := congrArg (fun v => v.getLsbD 18) hbv
  have hseed : smallFreeMarkerSeed.getLsbD 18 = true := by decide
  have hsize : (BitVec.ofNat 64 headerSize).getLsbD 18 = false := by decide
  have hrot : ((BitVec.ofNat 64 b).rotateLeft 17).getLsbD 18 = false := by
    rw [BitVec.getLsbD_rotateLeft]
    simp only [BitVec.getLsbD_ofNat]
    have : b.testBit 1 = false := by
      rw [Nat.testBit_eq_decide_div_mod_eq]
      simp only [decide_eq_false_iff_not]
      omega
    simpa using this
  simp only [BitVec.getLsbD_xor, hseed, hsize, hrot] at hbit
  simp at hbit

end Orthotope
