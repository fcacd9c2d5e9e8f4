import Orthotope.Invariant

/-! What header writes do to the states of a header.  A block in use changes between a free state
and a live one by few writes; the fields that a write leaves alone keep what the earlier ones
stored. -/

namespace Orthotope

open ByteMemory

/-! ### Headers that stay as they are -/

/-- Every field of the header of `b` but its link has the same bytes. -/
structure SameFields (b : Nat) (m m' : Mem) : Prop where
  byte : ∀ x, inHeader b x → ¬inLink b x → m'.byte x = m.byte x
  pageSize : m'.pageSize = m.pageSize

section Same

variable {b : Nat} {m m' : Mem}

theorem SameFields.read_eq (h : SameFields b m m') {a n : Nat} (hlo : b ≤ a) (hhi : a + n ≤ b + 64)
    (hlink : a + n ≤ b + 24 ∨ b + 32 ≤ a) : m'.read a n = m.read a n := by
  refine Mem.read_congr fun i hi => h.byte _ ⟨by omega, ?_⟩ ?_
  · unfold headerSize
    omega
  · unfold inLink
    omega

theorem SameFields.readPrefix_eq (h : SameFields b m m') : readPrefix m' b = readPrefix m b := by
  simp (disch := omega) only [readPrefix, h.read_eq]

theorem SameFields.readHeader_eq (h : SameFields b m m') : readHeader m' b =
    { readHeader m b with freeListLink := (readHeader m' b).freeListLink } := by
  simp (disch := omega) only [readHeader, h.readPrefix_eq, h.read_eq]

theorem SameFields.of_sameOn (h : SameOn b (b + headerSize) m m')
    (hp : m'.pageSize = m.pageSize) : SameFields b m m' :=
  ⟨fun x hx _ => h.byte x hx.1 hx.2, hp⟩

/-- No byte of the header that could not be discarded before can be discarded now. -/
def StaysResident (b : Nat) (m m' : Mem) : Prop :=
  ∀ x, inHeader b x → m.lazyAt x = false → m'.lazyAt x = false

theorem StaysResident.of_le (h : ∀ x, inHeader b x → m'.lazyAt x = true → m.lazyAt x = true) :
    StaysResident b m m' := by
  intro x hx hfalse
  rw [← Bool.not_eq_true] at hfalse ⊢
  exact fun htrue => hfalse (h x hx htrue)

variable {c : SizeClass} {debug : Bool}

theorem Formatted.congr (h : Formatted m c b) (hs : SameFields b m m')
    (hres : StaysResident b m m') : Formatted m' c b where
  magic := by rw [hs.readHeader_eq]; exact h.magic
  kind := by rw [hs.readHeader_eq]; exact h.kind
  classIndex := by rw [hs.readHeader_eq]; exact h.classIndex
  reserved := by rw [hs.readHeader_eq]; exact h.reserved
  usableSize := by rw [hs.readHeader_eq]; exact h.usableSize
  resident := fun x hx => hres x hx (h.resident x hx)

theorem Parked.congr (h : Parked debug m b) (hs : SameFields b m m') : Parked debug m' b := by
  unfold Parked at h ⊢
  rw [hs.readHeader_eq]
  exact h

theorem HeaderOk.congr {t : Trust} (h : HeaderOk debug m c b t) (hs : SameFields b m m')
    (hres : t ≠ .raw → StaysResident b m m') : HeaderOk debug m' c b t := by
  cases t with
  | raw =>
    intro hd hp
    have := h hd (hs.pageSize ▸ hp)
    rw [hs.readHeader_eq]
    exact this
  | shared => exact ⟨h.1.congr hs (hres (by simp)), h.2.congr hs⟩
  | owned id =>
    refine ⟨h.1.congr hs (hres (by simp)), h.2.1.congr hs, ?_⟩
    rw [hs.readHeader_eq]
    exact h.2.2

theorem LiveSmall.congr {size id : Nat} (h : LiveSmall m c b size id) (hs : SameFields b m m')
    (hres : StaysResident b m m') : LiveSmall m' c b size id where
  formatted := h.formatted.congr hs hres
  requestedSize := by rw [hs.readHeader_eq]; exact h.requestedSize
  ownerCacheId := by rw [hs.readHeader_eq]; exact h.ownerCacheId
  marker := by rw [hs.readHeader_eq]; exact h.marker

theorem LiveLarge.congr {size usable : Nat} (h : LiveLarge m b size usable)
    (hs : SameFields b m m') (hres : StaysResident b m m') : LiveLarge m' b size usable :=
  ⟨hs.readPrefix_eq.trans h.fields_eq, fun x hx => hres x hx (h.resident x hx)⟩

theorem staysResident_of_sameOn (h : SameOn b (b + headerSize) m m') : StaysResident b m m' :=
  StaysResident.of_le fun x hx => h.lazyAt x hx.1 hx.2

end Same

/-! ### Levels of trust -/

/-- What is relied on more can be relied on less. -/
def Trust.Le : Trust → Trust → Prop
  | .raw, _ => True
  | .shared, .raw => False
  | .shared, _ => True
  | .owned id, t => t = .owned id

theorem HeaderOk.weaken {debug : Bool} {m : Mem} {c : SizeClass} {b : Nat} {t t' : Trust}
    (h : HeaderOk debug m c b t) (hle : t'.Le t) : HeaderOk debug m c b t' := by
  have hraw : Formatted m c b → Parked debug m b → HeaderOk debug m c b .raw := by
    rintro hf hp rfl _
    rcases hp with hp | ⟨hp, _⟩
    · exact Or.inr ⟨hf.magic, hf.kind, hp⟩
    · exact Or.inl hp
  cases t' with
  | raw =>
    cases t with
    | raw => exact h
    | shared => exact hraw h.1 h.2
    | owned id => exact hraw h.1 h.2.1
  | shared =>
    cases t with
    | raw => exact hle.elim
    | shared => exact h
    | owned id => exact ⟨h.1, h.2.1⟩
  | owned id =>
    cases t with
    | owned id' => exact (show Trust.owned id' = .owned id from hle) ▸ h
    | _ => cases (show _ = Trust.owned id from hle)

/-! ### Header writes -/

section Writes

variable {m : Mem} {c : SizeClass} {b size id : Nat} {debug : Bool}

theorem staysResident_writesIn {W : Nat → Prop} {m' : Mem} (h : WritesIn W m m') :
    StaysResident b m m' :=
  StaysResident.of_le fun x _ => h.lazyAt x

theorem writesIn_clear (debug : Bool) (m : Mem) (b : Nat) :
    WritesIn (inHeader b) m (clearSmallFreeMetadata debug m b) := by
  unfold clearSmallFreeMetadata
  split
  · exact WritesIn.write fun x h1 h2 => ⟨by omega, by unfold headerSize; omega⟩
  · exact WritesIn.refl _ _

theorem writesIn_mark (debug : Bool) (m : Mem) (b : Nat) :
    WritesIn (inHeader b) m (markSmallBlockFreed debug m b) := by
  unfold markSmallBlockFreed
  split
  · exact WritesIn.write fun x h1 h2 => ⟨by omega, by unfold headerSize; omega⟩
  · exact WritesIn.refl _ _

theorem writesIn_word (m : Mem) (b : Nat) {off n v : Nat} (h : off + n ≤ headerSize) :
    WritesIn (inHeader b) m (m.write (b + off) n v) :=
  WritesIn.write fun x h1 h2 => ⟨by omega, by omega⟩

theorem writesIn_writeHeader (debug : Bool) (m : Mem) (c : SizeClass) (size b owner : Nat)
    (reuse : BlockReuse) :
    WritesIn (inHeader b) m (View.writeHeader debug m c size b owner reuse) := by
  unfold View.writeHeader
  apply (writesIn_clear debug m b).trans
  cases reuse with
  | hotReuseRequestedOnly => exact writesIn_word _ b (by decide)
  | needsOwnerAndRequestedSizeRefresh =>
    exact (writesIn_word _ b (by decide)).trans (writesIn_word _ b (by decide))
  | needsHeaderRewrite => exact writesIn_writeEncodedFields _ b _ _ _ _ _

/-- Clearing the marker of a parked block leaves the marker cleared in both builds. -/
theorem readHeader_clear (hp : Parked debug m b) :
    readHeader (clearSmallFreeMetadata debug m b) b =
      { readHeader m b with smallFreeMarker := 0 } := by
  unfold clearSmallFreeMetadata
  split
  · exact readHeader_smallFreeMarker (by decide)
  · rename_i hd
    have : (readHeader m b).smallFreeMarker = 0 := by simpa [Parked, hd] using hp
    rw [← this]

theorem readHeader_writeSmall (hsize : size < 2 ^ 32) (hid : id < 2 ^ 32) :
    readHeader (writeSmallToBlockUnchecked m b c size id) b =
      encodedHeader smallTag c.index size c.payloadSize id :=
  readHeader_writeEncodedFields (by decide) (by have := c.index_lt; omega)
    hsize c.payloadSize_lt hid

/-- The trust that a kind of reuse relies on. -/
def BlockReuse.trust (id : Nat) : BlockReuse → Trust
  | .hotReuseRequestedOnly => .owned id
  | .needsOwnerAndRequestedSizeRefresh => .shared
  | .needsHeaderRewrite => .raw

/-- What is written in a block in use leaves it formatted. -/
theorem Formatted.rewrite {m' : Mem} {marker : Nat} (hf : Formatted m c b)
    (hw : WritesIn (inHeader b) m m')
    (heq : readHeader m' b = { readHeader m b with
      requestedSize := size, ownerCacheId := id, smallFreeMarker := marker }) :
    Formatted m' c b where
  magic := by rw [heq]; exact hf.magic
  kind := by rw [heq]; exact hf.kind
  classIndex := by rw [heq]; exact hf.classIndex
  reserved := by rw [heq]; exact hf.reserved
  usableSize := by rw [heq]; exact hf.usableSize
  resident := fun x hx => staysResident_writesIn hw x hx (hf.resident x hx)

/-- Whichever of its fields are written, the header of a popped block is that of a live one. -/
theorem liveSmall_writeHeader {reuse : BlockReuse} (hpage : 0 < m.pageSize) (hsize : size < 2 ^ 32)
    (hid : id < 2 ^ 32) (h : HeaderOk debug m c b (reuse.trust id)) :
    LiveSmall (View.writeHeader debug m c size b id reuse) c b size id := by
  have hw := writesIn_writeHeader debug m c size b id reuse
  cases reuse with
  | hotReuseRequestedOnly =>
    obtain ⟨hf, hp, hown⟩ := h
    have heq : readHeader (View.writeHeader debug m c size b id .hotReuseRequestedOnly) b =
        { readHeader m b with requestedSize := size, smallFreeMarker := 0 } := by
      show readHeader ((clearSmallFreeMetadata debug m b).write (b + 8) 4 size) b = _
      rw [readHeader_requestedSize hsize, readHeader_clear hp]
    exact ⟨hf.rewrite hw heq, by rw [heq], by rw [heq]; exact hown, by rw [heq]⟩
  | needsOwnerAndRequestedSizeRefresh =>
    obtain ⟨hf, hp⟩ := h
    have heq : readHeader
        (View.writeHeader debug m c size b id .needsOwnerAndRequestedSizeRefresh) b =
        { readHeader m b with
          requestedSize := size, smallFreeMarker := 0, ownerCacheId := id } := by
      show readHeader
        (((clearSmallFreeMetadata debug m b).write (b + 8) 4 size).write (b + 16) 4 id) b = _
      rw [readHeader_ownerCacheId hid, readHeader_requestedSize hsize, readHeader_clear hp]
    exact ⟨hf.rewrite hw heq, by rw [heq], by rw [heq], by rw [heq]⟩
  | needsHeaderRewrite =>
    have heq : readHeader (View.writeHeader debug m c size b id .needsHeaderRewrite) b =
        encodedHeader smallTag c.index size c.payloadSize id := readHeader_writeSmall hsize hid
    have hpage' : 0 < (clearSmallFreeMetadata debug m b).pageSize :=
      (writesIn_clear debug m b).pageSize ▸ hpage
    have hformatted : Formatted (View.writeHeader debug m c size b id .needsHeaderRewrite) c b :=
      ⟨by rw [heq]; rfl, by rw [heq]; rfl, by rw [heq]; rfl, by rw [heq]; rfl, by rw [heq]; rfl,
        fun x hx => lazyAt_writeEncodedFields hpage' hx⟩
    exact ⟨hformatted, by rw [heq]; rfl, by rw [heq]; rfl, by rw [heq]; rfl⟩

/-- A live block that is marked freed is parked, and still names its cache. -/
theorem headerOk_markSmallBlockFreed (h : LiveSmall m c b size id) :
    HeaderOk debug (markSmallBlockFreed debug m b) c b (.owned id) := by
  have hw := writesIn_mark debug m b
  have heq : readHeader (markSmallBlockFreed debug m b) b = { readHeader m b with
      smallFreeMarker := if debug then smallFreeMarkerFor b else 0 } := by
    unfold markSmallBlockFreed
    split
    · exact readHeader_smallFreeMarker (smallFreeMarkerFor_lt b)
    · rw [← h.marker]
  have hf := h.formatted
  refine ⟨hf.rewrite hw heq, ?_, by rw [heq]; exact h.ownerCacheId⟩
  unfold Parked
  cases debug with
  | true => exact Or.inl (by rw [heq]; rfl)
  | false => rw [heq]; rfl

/-- A block that a drain initializes is formatted, and shows that it was never requested. -/
theorem headerOk_drained (hpage : 0 < m.pageSize) :
    HeaderOk debug (initializeSmallToBlockUnchecked m b c) c b .shared := by
  have heq : readHeader (initializeSmallToBlockUnchecked m b c) b =
      encodedHeader smallTag c.index 0 c.payloadSize 0 :=
    readHeader_writeEncodedFields (by decide) (by have := c.index_lt; omega) (by decide)
      c.payloadSize_lt (by decide)
  refine ⟨⟨by rw [heq]; rfl, by rw [heq]; rfl, by rw [heq]; rfl, by rw [heq]; rfl, by rw [heq]; rfl,
    fun x hx => lazyAt_writeEncodedFields hpage hx⟩, ?_⟩
  unfold Parked
  cases debug with
  | true => exact Or.inr (by rw [heq]; exact ⟨rfl, rfl⟩)
  | false => rw [heq]; rfl

/-- The header of a large block after its write. -/
theorem liveLarge_write {start usable : Nat} (hpage : 0 < m.pageSize) (hsize : size < 2 ^ 32)
    (husable : usable < 2 ^ 32) :
    LiveLarge (writeEncodedFields m start largeTag largeClassSentinel size usable 0) start size
      usable where
  fields_eq := congrArg AllocationHeader.toAllocationHeaderPrefix
    (readHeader_writeEncodedFields (m := m) (b := start) (by decide) (by decide) hsize husable
      (by decide))
  resident := fun x hx => lazyAt_writeEncodedFields hpage hx

/-! ### The header writes of a drain -/

theorem writesIn_initializeAll (m : Mem) (c : SizeClass) (blocks : List Nat) :
    WritesIn (fun x => ∃ b ∈ blocks, inHeader b x) m (initializeAll m c blocks) := by
  induction blocks generalizing m with
  | nil => exact WritesIn.refl _ _
  | cons b blocks ih =>
    refine WritesIn.trans ?_ ((ih _).mono fun x ⟨b', hb', hx⟩ => ⟨b', by simp [hb'], hx⟩)
    exact (writesIn_writeEncodedFields m b _ _ _ _ _).mono fun x hx => ⟨b, by simp, hx⟩

/-- A header elsewhere than the written ones stays as it is. -/
theorem HeaderOk.initializeAll {d : SizeClass} {t : Trust} (h : HeaderOk debug m d b t)
    {blocks : List Nat} (hapart : ∀ b' ∈ blocks, b' + headerSize ≤ b ∨ b + headerSize ≤ b') :
    HeaderOk debug (initializeAll m c blocks) d b t := by
  have hw := writesIn_initializeAll m c blocks
  have hsame : SameOn b (b + headerSize) m (Orthotope.initializeAll m c blocks) :=
    hw.sameOn fun x h1 h2 ⟨b', hmem, hlo, hhi⟩ => by
      have := hapart b' hmem
      omega
  exact h.congr (SameFields.of_sameOn hsame hw.pageSize) fun _ => staysResident_of_sameOn hsame

/-- A header that a drain writes, as long as the others that it writes are elsewhere. -/
theorem readPrefix_initializeAll {blocks : List Nat}
    (hapart : blocks.Pairwise fun b b' => b + headerSize ≤ b' ∨ b' + headerSize ≤ b) :
    ∀ b ∈ blocks, readPrefix (initializeAll m c blocks) b =
      ⟨headerMagic, smallTag, c.index, 0, 0, c.payloadSize, 0⟩ := by
  induction blocks generalizing m with
  | nil => simp
  | cons b blocks ih =>
    obtain ⟨hb, hrest⟩ := List.pairwise_cons.mp hapart
    intro b' hb'
    rcases List.mem_cons.mp hb' with rfl | hb'
    · have hw := writesIn_initializeAll (initializeSmallToBlockUnchecked m b' c) c blocks
      have hsame : SameOn b' (b' + headerSize) (initializeSmallToBlockUnchecked m b' c)
          (initializeAll (initializeSmallToBlockUnchecked m b' c) c blocks) :=
        hw.sameOn fun x h1 h2 ⟨d, hmem, hlo, hhi⟩ => by
          have := hb d hmem
          omega
      apply (SameFields.of_sameOn hsame hw.pageSize).readPrefix_eq.trans
      exact congrArg AllocationHeader.toAllocationHeaderPrefix (readHeader_writeEncodedFields
        (by decide) (by have := c.index_lt; omega) (by decide) c.payloadSize_lt (by decide))
    · exact ih hrest b' hb'

theorem headerOk_initializeAll (hpage : 0 < m.pageSize) {blocks : List Nat}
    (hapart : blocks.Pairwise fun b b' => b + headerSize ≤ b' ∨ b' + headerSize ≤ b) :
    ∀ b ∈ blocks, HeaderOk debug (initializeAll m c blocks) c b .shared := by
  induction blocks generalizing m with
  | nil => simp
  | cons b blocks ih =>
    have hpage' : 0 < (initializeSmallToBlockUnchecked m b c).pageSize :=
      (writesIn_writeEncodedFields m b smallTag c.index 0 c.payloadSize 0).pageSize ▸ hpage
    obtain ⟨hb, hrest⟩ := List.pairwise_cons.mp hapart
    intro b' hb'
    rcases List.mem_cons.mp hb' with rfl | hb'
    · -- the writes to the later blocks are elsewhere
      exact (headerOk_drained hpage).initializeAll fun b hmem => (hb b hmem).symm
    · exact ih hpage' hrest b' hb'

end Writes

/-! ### Discards -/

section Discard

variable {m : Mem} {c : SizeClass} {b page : Nat} {debug : Bool}

theorem sameFields_discard (hpage : m.lazyPage page = true)
    (hres : ∀ x, inHeader b x → m.lazyAt x = false) : SameFields b m (m.discard page) :=
  ⟨fun x hx _ => Mem.discard_byte_of_lazyAt hpage (hres x hx), rfl⟩

theorem staysResident_discard : StaysResident b m (m.discard page) := fun _ _ h => h

/-- A discard takes a raw header as a whole, and no header that is relied on. -/
theorem HeaderOk.discard {t : Trust} (h : HeaderOk debug m c b t) (hb : b % 64 = 0)
    (hpage : m.lazyPage page = true) : HeaderOk debug (m.discard page) c b t := by
  cases t with
  | raw =>
    intro hd hp
    have hp : headerSize ∣ m.pageSize := hp
    rcases Mem.discard_byte_piece (k := page) hp (Nat.dvd_of_mod_eq_zero hb) with hz | hs
    · refine Or.inl (Mem.read_zero fun i hi => ?_)
      rw [Nat.add_assoc]
      exact hz (8 + i) (by unfold headerSize; omega)
    · have hfields : SameFields b m (m.discard page) := by
        refine ⟨fun x hx _ => ?_, rfl⟩
        obtain ⟨hlo, hhi⟩ := hx
        have := hs (x - b) (by omega)
        rwa [show b + (x - b) = x by omega] at this
      rw [hfields.readHeader_eq]
      exact h hd hp
  | shared =>
    exact HeaderOk.congr (t := .shared) h (sameFields_discard hpage h.1.resident)
      fun _ => staysResident_discard
  | owned id =>
    exact HeaderOk.congr (t := .owned id) h (sameFields_discard hpage h.1.resident)
      fun _ => staysResident_discard

end Discard

end Orthotope
