import Orthotope.SizeClass

/-! The arena, `arena.rs`: one anonymous mapping handed out from its start to its end.  A
reservation reads the cursor, computes the span and commits it by compare-exchange, and starts again
when the cursor has moved; the functions here are that computation on the cursor value that the
exchange finds, so each is one atomic step. -/

namespace Orthotope

structure Arena where
  base : Nat
  len : Nat
  next : Nat
  alignment : Nat
  deriving DecidableEq, Repr

structure ReservedSpan where
  start : Nat
  size : Nat
  deriving DecidableEq, Repr

def validateConfig (config : AllocatorConfig) : Except InitError Unit :=
  if config.arenaSize = 0 then .error (.invalidConfig "arena size must be greater than zero")
  else if config.alignment = 0 then .error (.invalidConfig "alignment must be greater than zero")
  else if ¬config.alignment.isPowerOfTwo then
    .error (.invalidConfig "alignment must be a power of two")
  else if config.arenaSize < config.alignment then
    .error (.invalidConfig "arena size must be at least the alignment")
  else .ok ()

namespace Arena

/-- Creates an arena in the mapping that the system placed at `mapping`. -/
def new (config : AllocatorConfig) (mapping : Nat) : Except InitError Arena :=
  match validateConfig config with
  | .error e => .error e
  | .ok () =>
    match checkedAdd config.arenaSize (config.alignment - 1) with
    | none => .error (.invalidConfig "arena mapping size overflowed")
    | some _ =>
      match alignUpChecked mapping config.alignment with
      | none => .error (.invalidConfig "arena base alignment overflowed")
      | some base =>
        if base = 0 then .error (.invalidConfig "arena mapping returned null")
        else .ok { base, len := config.arenaSize, next := 0, alignment := config.alignment }

variable (arena : Arena)

/-- The remaining unreserved capacity in bytes. -/
def remaining : Nat := arena.len - arena.next

/-- Reserves one contiguous aligned span. -/
def reserveSpan (size : Nat) : Except AllocError (ReservedSpan × Arena) :=
  if size = 0 then .error .zeroSize
  else
    match alignUpChecked arena.next arena.alignment with
    | none => .error (.outOfMemory size arena.remaining)
    | some aligned =>
      match checkedAdd aligned size with
      | none => .error (.outOfMemory size arena.remaining)
      | some finish =>
        if arena.len < finish then .error (.outOfMemory size arena.remaining)
        else .ok (⟨arena.base + aligned, size⟩, { arena with next := finish })

/-- Reserves the aligned start of one block. -/
def allocateBlock (size : Nat) : Except AllocError (Nat × Arena) :=
  match arena.reserveSpan size with
  | .error e => .error e
  | .ok (span, arena) => .ok (span.start, arena)

/-- Reserves up to `targetBlocks` contiguous `blockSize` blocks; no span when fewer than one block
currently fits. -/
def reserveBlockSpan (blockSize targetBlocks : Nat) :
    Except AllocError (Option ReservedSpan × Arena) :=
  if blockSize = 0 ∨ targetBlocks = 0 then .error .zeroSize
  else
    match alignUpChecked arena.next arena.alignment with
    | none => .error (.outOfMemory blockSize arena.remaining)
    | some aligned =>
      let remaining := arena.len - aligned
      let reservedBlocks := min targetBlocks (remaining / blockSize)
      if reservedBlocks = 0 then .ok (none, arena)
      else
        let size := reservedBlocks * blockSize
        if usizeLimit ≤ size then .error (.outOfMemory blockSize remaining)
        else
          match checkedAdd aligned size with
          | none => .error (.outOfMemory size remaining)
          | some finish =>
            if arena.len < finish then .error (.outOfMemory size remaining)
            else .ok (some ⟨arena.base + aligned, size⟩, { arena with next := finish })

/-- The small-object ownership predicate: inside the arena, at a multiple of its alignment. -/
def containsBlockStart (blockStart : Nat) : Bool :=
  arena.base ≤ blockStart && blockStart < arena.base + arena.len &&
    (blockStart - arena.base) % arena.alignment == 0

end Arena

def alignDown (value alignment : Nat) : Nat := value - value % alignment

/-- The whole pages inside a span, as start and length. -/
def pageAlignedInnerRange (pageSize start len : Nat) : Option (Nat × Nat) :=
  if len = 0 then none
  else
    match checkedAdd start len, alignUpChecked start pageSize with
    | some endAddr, some alignedStart =>
      let alignedEnd := alignDown endAddr pageSize
      if alignedEnd ≤ alignedStart then none else some (alignedStart, alignedEnd - alignedStart)
    | _, _ => none

/-! ### Reservations -/

namespace Arena

theorem new_spec {config : AllocatorConfig} {mapping : Nat} {arena : Arena}
    (h : new config mapping = .ok arena) :
    0 < config.alignment ∧ config.alignment.isPowerOfTwo ∧ config.alignment ≤ config.arenaSize ∧
      0 < arena.base ∧ arena.base = alignUp mapping config.alignment ∧
      arena.len = config.arenaSize ∧ arena.next = 0 ∧ arena.alignment = config.alignment := by
  unfold new at h
  split at h
  · simp at h
  · rename_i hv
    unfold validateConfig at hv
    split at hv; · simp at hv
    split at hv; · simp at hv
    split at hv; · simp at hv
    split at hv; · simp at hv
    rename_i h1 h2 h3 h4
    split at h
    · simp at h
    · split at h
      · simp at h
      · rename_i base hbase
        split at h
        · simp at h
        · rename_i hne
          obtain rfl := Except.ok.inj h
          exact ⟨by omega, not_not.mp h3, by omega, by simp only; omega,
            alignUpChecked_eq_some hbase, rfl, rfl, rfl⟩

variable {arena arena' : Arena}

/-- What a successful reservation does: the span starts at the rounded cursor and the cursor moves
to its end, which is inside the arena. -/
structure Reserves (arena : Arena) (span : ReservedSpan) (arena' : Arena) : Prop where
  start_eq : span.start = arena.base + alignUp arena.next arena.alignment
  next_eq : arena' = { arena with next := alignUp arena.next arena.alignment + span.size }
  fits : alignUp arena.next arena.alignment + span.size ≤ arena.len
  pos : 0 < span.size

theorem reserveSpan_ok {size : Nat} {span : ReservedSpan}
    (h : arena.reserveSpan size = .ok (span, arena')) :
    Reserves arena span arena' ∧ span.size = size := by
  unfold reserveSpan at h
  split at h
  · simp at h
  · split at h
    · simp at h
    · rename_i hsize _ aligned hal
      split at h
      · simp at h
      · rename_i _ finish hfin
        split at h
        · simp at h
        · have hfin' : finish = aligned + size := by
            unfold checkedAdd at hfin
            split at hfin
            · exact (Option.some.inj hfin).symm
            · simp at hfin
          obtain ⟨rfl, rfl⟩ := Prod.mk.inj (Except.ok.inj h)
          obtain rfl := alignUpChecked_eq_some hal
          subst hfin'
          exact ⟨⟨rfl, rfl, by simp only; omega, by simp only; omega⟩, rfl⟩

theorem allocateBlock_ok {size start : Nat} (h : arena.allocateBlock size = .ok (start, arena')) :
    Reserves arena ⟨start, size⟩ arena' := by
  unfold allocateBlock at h
  split at h
  · simp at h
  · rename_i span a hr
    obtain ⟨rfl, rfl⟩ := Prod.mk.inj (Except.ok.inj h)
    obtain ⟨hres, rfl⟩ := reserveSpan_ok hr
    exact hres

theorem reserveBlockSpan_ok {blockSize targetBlocks : Nat} {span : ReservedSpan}
    (h : arena.reserveBlockSpan blockSize targetBlocks = .ok (some span, arena')) :
    Reserves arena span arena' ∧ ∃ n, 0 < n ∧ n ≤ targetBlocks ∧ span.size = n * blockSize := by
  unfold reserveBlockSpan at h
  split at h
  · simp at h
  · rename_i hz
    split at h
    · simp at h
    · rename_i _ aligned hal
      simp only at h
      split at h
      · simp at h
      · rename_i hn
        split at h
        · simp at h
        · split at h
          · simp at h
          · rename_i _ finish hfin
            split at h
            · simp at h
            · have hfin' : finish = aligned + min targetBlocks ((arena.len - aligned) / blockSize) *
                  blockSize := by
                unfold checkedAdd at hfin
                split at hfin
                · exact (Option.some.inj hfin).symm
                · simp at hfin
              obtain ⟨hspan, rfl⟩ := Prod.mk.inj (Except.ok.inj h)
              obtain rfl := Option.some.inj hspan
              obtain rfl := alignUpChecked_eq_some hal
              subst hfin'
              refine ⟨⟨rfl, rfl, by simp only; omega, ?_⟩, _, Nat.pos_of_ne_zero hn,
                Nat.min_le_left _ _, rfl⟩
              exact Nat.mul_pos (Nat.pos_of_ne_zero hn) (by omega)

theorem reserveBlockSpan_none {blockSize targetBlocks : Nat}
    (h : arena.reserveBlockSpan blockSize targetBlocks = .ok (none, arena')) : arena' = arena := by
  unfold reserveBlockSpan at h
  split at h
  · simp at h
  · split at h
    · simp at h
    · simp only at h
      split at h
      · exact (Prod.mk.inj (Except.ok.inj h)).2.symm
      · split at h
        · simp at h
        · split at h
          · simp at h
          · split at h <;> simp at h

/-! ### Rounding the cursor -/

section Cursor

variable {config : AllocatorConfig} {mapping : Nat} {arena : Arena}

/-- `Arena::new` checks that the mapping has a size. -/
theorem mappingSize_lt (hnew : Arena.new config mapping = .ok arena) :
    config.arenaSize + (config.alignment - 1) < usizeLimit := by
  unfold new at hnew
  split at hnew
  · simp at hnew
  · split at hnew
    · simp at hnew
    · rename_i hadd
      unfold checkedAdd at hadd
      split at hadd
      · assumption
      · simp at hadd

theorem alignUpChecked_next (hnew : Arena.new config mapping = .ok arena) {next : Nat}
    (h : next ≤ arena.len) :
    alignUpChecked next arena.alignment = some (alignUp next arena.alignment) := by
  obtain ⟨hpos, -, -, -, -, hlen, -, hal⟩ := new_spec hnew
  have hsize := mappingSize_lt hnew
  have hlt : alignUp next config.alignment < next + config.alignment := alignUp_lt hpos
  apply alignUpChecked_of_lt
  rw [hal]
  omega

/-- Another block of this size fits. -/
def HasRoom (arena : Arena) (blockSize : Nat) : Prop :=
  alignUp arena.next arena.alignment + blockSize ≤ arena.len

instance (arena : Arena) (blockSize : Nat) : Decidable (arena.HasRoom blockSize) :=
  inferInstanceAs (Decidable (_ ≤ _))

/-- An arena that `Arena::new` has made, with its cursor where reservations may have moved it. -/
def Valid (arena : Arena) : Prop :=
  ∃ config mapping fresh, Arena.new config mapping = .ok fresh ∧
    arena = { fresh with next := arena.next } ∧ arena.next ≤ fresh.len

/-- The bytes behind the rounded cursor. -/
def room (arena : Arena) : Nat := arena.len - alignUp arena.next arena.alignment

/-- The arena after a reservation of `size` bytes at the rounded cursor. -/
def reserved (arena : Arena) (size : Nat) : Arena :=
  { arena with next := alignUp arena.next arena.alignment + size }

/-- The span of `size` bytes at the rounded cursor. -/
def nextSpan (arena : Arena) (size : Nat) : ReservedSpan :=
  ⟨arena.base + alignUp arena.next arena.alignment, size⟩

theorem hasRoom_iff {blockSize : Nat} (hsize : 0 < blockSize) :
    arena.HasRoom blockSize ↔ ¬arena.room < blockSize := by
  unfold HasRoom room
  omega

/-- None of the sums that a reservation rounds, adds and compares overflows. -/
theorem Valid.lt_usizeLimit (valid : arena.Valid) :
    alignUpChecked arena.next arena.alignment = some (alignUp arena.next arena.alignment) ∧
      arena.len < usizeLimit := by
  obtain ⟨config, mapping, fresh, hnew, harena, hle⟩ := valid
  obtain ⟨-, -, -, -, -, hlen, -, -⟩ := new_spec hnew
  have hmapping := mappingSize_lt hnew
  constructor
  · rw [harena]
    exact alignUpChecked_next hnew hle
  · rw [harena]
    show fresh.len < usizeLimit
    omega

/-- `reserve_span` fails only if the rest of the arena is too small. -/
theorem Valid.reserveSpan_eq (valid : arena.Valid) {size : Nat} (hsize : 0 < size) :
    arena.reserveSpan size =
      if arena.room < size then .error (.outOfMemory size arena.remaining)
      else .ok (arena.nextSpan size, arena.reserved size) := by
  obtain ⟨hround, hlen⟩ := valid.lt_usizeLimit
  unfold reserveSpan room nextSpan reserved
  rw [if_neg (by omega : ¬size = 0)]
  simp only [hround]
  obtain ⟨aligned, haligned⟩ : ∃ aligned, aligned = alignUp arena.next arena.alignment := ⟨_, rfl⟩
  simp only [← haligned]
  by_cases hover : aligned + size < usizeLimit
  · have hsum : checkedAdd aligned size = some (aligned + size) := if_pos hover
    simp only [hsum]
    by_cases hroom : arena.len < aligned + size
    · rw [if_pos hroom, if_pos (by omega)]
    · rw [if_neg hroom, if_neg (by omega)]
  · have hsum : checkedAdd aligned size = none := if_neg hover
    simp only [hsum]
    rw [if_pos (by omega)]

/-- As many of the wanted blocks as fit behind the cursor. -/
def fittingBlocks (arena : Arena) (blockSize targetBlocks : Nat) : Nat :=
  min targetBlocks (arena.room / blockSize)

theorem fittingBlocks_pos {blockSize targetBlocks : Nat} (hsize : 0 < blockSize)
    (htarget : 0 < targetBlocks) (hroom : ¬arena.room < blockSize) :
    1 ≤ arena.fittingBlocks blockSize targetBlocks := by
  have hdiv : 0 < arena.room / blockSize := Nat.div_pos (Nat.le_of_not_lt hroom) hsize
  unfold fittingBlocks
  omega

/-- `reserve_block_span` has no other error than that of a zero argument: its multiplication, its
addition and its last comparison never fail.  It takes as many of the wanted blocks as fit. -/
theorem Valid.reserveBlockSpan_eq (valid : arena.Valid) {blockSize targetBlocks : Nat}
    (hsize : 0 < blockSize) (htarget : 0 < targetBlocks) :
    arena.reserveBlockSpan blockSize targetBlocks =
      if arena.room < blockSize then .ok (none, arena)
      else .ok (some (arena.nextSpan (arena.fittingBlocks blockSize targetBlocks * blockSize)),
        arena.reserved (arena.fittingBlocks blockSize targetBlocks * blockSize)) := by
  obtain ⟨hround, hlen⟩ := valid.lt_usizeLimit
  obtain ⟨n, hn⟩ : ∃ n, n = arena.fittingBlocks blockSize targetBlocks := ⟨_, rfl⟩
  have hn' : min targetBlocks ((arena.len - alignUp arena.next arena.alignment) / blockSize) = n :=
    hn.symm
  unfold reserveBlockSpan
  rw [if_neg (by omega)]
  simp only [hround, hn', ← hn]
  by_cases hroom : arena.room < blockSize
  · have hzero : n = 0 := by
      have hdiv : arena.room / blockSize = 0 := Nat.div_eq_of_lt hroom
      unfold fittingBlocks at hn
      omega
    rw [if_pos hroom, if_pos hzero]
  · have hone : 1 ≤ n := hn ▸ fittingBlocks_pos hsize htarget hroom
    -- the blocks reserved fit in the rest of the arena
    have hrest : n * blockSize ≤ arena.room := by
      calc n * blockSize ≤ arena.room / blockSize * blockSize := by
            refine Nat.mul_le_mul_right _ ?_
            rw [hn]
            exact Nat.min_le_right _ _
        _ ≤ arena.room := Nat.div_mul_le_self _ _
    have hblock : blockSize ≤ n * blockSize := Nat.le_mul_of_pos_left _ hone
    rw [if_neg hroom, if_neg (by omega)]
    unfold room at hroom hrest
    have hsum : checkedAdd (alignUp arena.next arena.alignment) (n * blockSize) =
        some (alignUp arena.next arena.alignment + n * blockSize) := if_pos (by omega)
    rw [if_neg (by omega), hsum]
    simp only
    rw [if_neg (by omega)]
    rfl

/-- For one block the two reservations succeed together, with the same span and the same cursor. -/
theorem Valid.reserveBlockSpan_one (valid : arena.Valid) {blockSize : Nat} (hsize : 0 < blockSize)
    {span : ReservedSpan} {arena' : Arena} :
    arena.reserveBlockSpan blockSize 1 = .ok (some span, arena') ↔
      arena.reserveSpan blockSize = .ok (span, arena') := by
  rw [valid.reserveBlockSpan_eq hsize Nat.one_pos, valid.reserveSpan_eq hsize]
  by_cases hroom : arena.room < blockSize
  · simp [hroom]
  · have hone : arena.fittingBlocks blockSize 1 = 1 := by
      have hpos := fittingBlocks_pos hsize Nat.one_pos hroom
      have hle : arena.fittingBlocks blockSize 1 ≤ 1 := Nat.min_le_left _ _
      omega
    simp [hroom, hone]

/-- With a cursor inside the arena `reserve_block_span` has no error, and reserves nothing only if
not one block fits. -/
theorem reserveBlockSpan_total (hnew : Arena.new config mapping = .ok arena) {next : Nat}
    (h : next ≤ arena.len) {blockSize targetBlocks : Nat} (hsize : 0 < blockSize)
    (htarget : 0 < targetBlocks) :
    ∃ answer, { arena with next := next }.reserveBlockSpan blockSize targetBlocks = .ok answer ∧
      (answer.1 = none ↔ ¬{ arena with next := next }.HasRoom blockSize) := by
  have valid : { arena with next := next }.Valid := ⟨config, mapping, arena, hnew, rfl, h⟩
  rw [valid.reserveBlockSpan_eq hsize htarget, hasRoom_iff hsize]
  split
  · exact ⟨_, rfl, iff_of_true rfl (not_not.mpr ‹_›)⟩
  · exact ⟨_, rfl, iff_of_false nofun (not_not.mpr ‹_›)⟩

/-- With a cursor inside the arena a large reservation fails only if the block does not fit. -/
theorem allocateBlock_total (hnew : Arena.new config mapping = .ok arena) {next : Nat}
    (h : next ≤ arena.len) {size : Nat} (hsize : 0 < size) :
    if { arena with next := next }.HasRoom size then
      ∃ answer, { arena with next := next }.allocateBlock size = .ok answer
    else { arena with next := next }.allocateBlock size =
      .error (.outOfMemory size (arena.len - next)) := by
  have valid : { arena with next := next }.Valid := ⟨config, mapping, arena, hnew, rfl, h⟩
  simp only [hasRoom_iff hsize, allocateBlock, valid.reserveSpan_eq hsize, ite_not]
  split
  · rfl
  · exact ⟨_, rfl⟩

end Cursor

end Arena

end Orthotope
