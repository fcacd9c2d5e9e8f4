import Orthotope.Discards

/-! The tail of a header, and the memory around the arenas.  The last 24 bytes of a header are
written as zeros with the rest of it and never otherwise, so they are zero in every block that has
left its slab, and in every large one, through all reuse.  Bytes outside the arenas are left alone;
and whoever has them may store to them at any time. -/

namespace Orthotope

open ByteMemory Ownership

variable {ι κ : Type}

/-- An address of some arena. -/
def Setup.InArenas (setup : Setup ι κ) (y : Nat) : Prop :=
  ∃ a, (setup.arena a).base ≤ y ∧ y < (setup.arena a).base + (setup.arena a).len

/-- The bytes of the tail of a header. -/
def inTail (b y : Nat) : Prop := b + 40 ≤ y ∧ y < b + headerSize

/-- The block at `b` is one of a slab, or a large one whose header has been written and that is not
free. -/
inductive World.Tailed (s : World ι κ Seq Seq) (b : Nat) : Prop
  | small (h : s.SlabBlock b)
  | large {a : ι} {e : Nat × LargeAllocationRecord} (h : e ∈ (s.allocators a).large.live)
      (hb : e.2.blockAddr = b)
  | written {k : κ} {a : ι} {size blockSize : Nat}
      (ht : s.threads k = .busy a (.largeWritten size b blockSize))

/-- The tails of such blocks are zero, and only pages of the arenas are given up. -/
structure World.Tidy (setup : Setup ι κ) (s : World ι κ Seq Seq) : Prop where
  tail : ∀ b, s.Tailed b → ∀ y, inTail b y → s.mem.byte y = 0
  lazyAt : ∀ y, s.mem.lazyAt y = true → setup.InArenas y

/-! ### The writers of headers -/

section Writers

variable {m : Mem} {b y : Nat}

/-- A store in front of the tail. -/
theorem write_front (hb : b % 64 = 0) (hy : 40 ≤ y % 64) {off n v : Nat} (h : off + n ≤ 40) :
    (m.write (b + off) n v).byte y = m.byte y :=
  Mem.write_byte_outside (by omega)

theorem writeEncodedFields_tail (hb : b % 64 = 0) (hy : 40 ≤ y % 64)
    {kind classIndex req usable owner : Nat} :
    (writeEncodedFields m b kind classIndex req usable owner).byte y = m.byte y ∨
      (writeEncodedFields m b kind classIndex req usable owner).byte y = 0 := by
  by_cases hin : inHeader b y
  · obtain ⟨h1, h2⟩ := hin
    obtain ⟨i, rfl⟩ : ∃ i, y = b + 40 + i := ⟨y - (b + 40), by omega⟩
    unfold headerSize at h2
    apply Or.inr
    show (Mem.write _ (b + 40) 24 0).byte (b + 40 + i) = 0
    rw [Mem.write_byte_inside (by omega), Nat.zero_div]
    rfl
  · exact Or.inl ((writesIn_writeEncodedFields m b _ _ _ _ _).byte y hin)

theorem writeHeader_tail (hb : b % 64 = 0) (hy : 40 ≤ y % 64) (debug : Bool) (c : SizeClass)
    (size owner : Nat) (reuse : BlockReuse) :
    (View.writeHeader debug m c size b owner reuse).byte y = m.byte y ∨
      (View.writeHeader debug m c size b owner reuse).byte y = 0 := by
  have hclear : (clearSmallFreeMetadata debug m b).byte y = m.byte y := by
    unfold clearSmallFreeMetadata
    split
    · exact write_front hb hy (by omega)
    · rfl
  cases reuse with
  | hotReuseRequestedOnly => exact Or.inl ((write_front hb hy (by omega)).trans hclear)
  | needsOwnerAndRequestedSizeRefresh =>
    have hsize : (refreshSmallRequestedSizeUnchecked (clearSmallFreeMetadata debug m b) b size).byte
      y = m.byte y := (write_front hb hy (by omega)).trans hclear
    exact Or.inl ((write_front hb hy (by omega)).trans hsize)
  | needsHeaderRewrite =>
    rw [← hclear]
    exact writeEncodedFields_tail hb hy

theorem initializeAll_tail (c : SizeClass) {blocks : List Nat} (hblocks : ∀ b ∈ blocks, b % 64 = 0)
    (hy : 40 ≤ y % 64) :
    (initializeAll m c blocks).byte y = m.byte y ∨ (initializeAll m c blocks).byte y = 0 := by
  induction blocks generalizing m with
  | nil => exact Or.inl rfl
  | cons b blocks ih =>
    have hrest := ih (m := initializeSmallToBlockUnchecked m b c) fun b' hb' =>
      hblocks b' (List.mem_cons_of_mem b hb')
    have hfirst : (initializeSmallToBlockUnchecked m b c).byte y = m.byte y ∨
        (initializeSmallToBlockUnchecked m b c).byte y = 0 :=
      writeEncodedFields_tail (hblocks b List.mem_cons_self) hy
    rcases hrest with hsame | hzero
    · exact hfirst.imp (fun h => hsame.trans h) fun h => hsame.trans h
    · exact Or.inr hzero

theorem mark_tail {debug : Bool} {b' : Nat} (hb : b' % 64 = 0) (hy : 40 ≤ y % 64) :
    (markSmallBlockFreed debug m b').byte y = m.byte y := by
  unfold markSmallBlockFreed
  split
  · exact write_front hb hy (by omega)
  · rfl

end Writers

/-! ### Steps of calls -/

section Steps

variable {setup : Setup ι κ} {s s' : World ι κ Seq Seq} {a : ι} {k : κ} {b y : Nat}
  {pc : Pc ι κ Seq} {v : View ι κ Seq Seq}

/-- A step of a call leaves the tail of every header alone, or writes zeros there. -/
theorem Transition.tail_byte (inv : Inv setup s) (ht : s.threads k = .busy a pc)
    (htrans : Transition setup.debug s a k pc v) (hy : 40 ≤ y % 64) :
    v.mem.byte y = s.mem.byte y ∨ v.mem.byte y = 0 := by
  obtain ⟨howner, -⟩ := inv.parts.thread k a _ ht
  have haligned : ∀ {q x}, x ∈ s.own setup q → x.lo % 64 = 0 := fun hx =>
    (inv.ledger.inArena _ _ hx).aligned
  cases htrans with
  | refill h => exact Or.inl (h.givesUp.byte y)
  | register hn hsize h => exact Or.inl (h.givesUp.byte y)
  | @returnBatch c batch resume m central h =>
    rw [(View.resume_frame _ a resume).1]
    exact Or.inl (h.givesUp.byte y)
  | @publish c batch resume central =>
    rw [(View.resume_frame _ a resume).1]
    exact Or.inl rfl
  | @unstageNone c resume =>
    rw [(View.resume_frame _ a resume).1]
    exact Or.inl rfl
  | @give c size block reuse =>
    have hcell : setup.smallCell a c block ∈ s.own setup (.hand k) :=
      mem_own_hand ht rfl (List.mem_singleton_self block)
    have hal : block % 64 = 0 := haligned hcell
    exact writeHeader_tail hal hy setup.debug c size _ reuse
  | @largeWrite size start blockSize hfits =>
    have hal : start % 64 = 0 := haligned (mem_own_extent setup ht rfl)
    exact writeEncodedFields_tail hal hy
  | @excess c max resume m batch class_ hinv shapes hbatch drains =>
    obtain ⟨owned, fresh, shared, -, -, hfresh, -, rfl⟩ := drains
    refine initializeAll_tail c (fun b hb => ?_) hy
    have hcell : setup.smallCell a c b ∈ s.own setup (.fresh k c) := by
      simp only [World.own, World.cacheCells, howner]
      exact setup.smallCell_mem (by simp [hfresh, hb])
    exact haligned hcell
  | _ => exact Or.inl rfl

/-- Only a call that has written the header of a large block registers it. -/
theorem Transition.large_live {debug : Bool} (htrans : Transition debug s a k pc v)
    {e : Nat × LargeAllocationRecord} (he : e ∈ v.allocator.large.live) :
    e ∈ (s.allocators a).large.live ∨
      ∃ size blockSize, pc = .largeWritten size e.2.blockAddr blockSize := by
  cases htrans with
  | @largeReuse size blockSize block large hinv hlive hfree hle =>
    exact Or.inl (hlive ▸ he)
  | @record size start blockSize large hinv hlive hfree =>
    have he : e ∈ large.live := he
    rw [hlive] at he
    rcases List.mem_cons.mp he with rfl | he
    · exact Or.inr ⟨size, blockSize, rfl⟩
    · exact Or.inl he
  | @release entry requested usable large record ha hinv hrecord hlive hliveBag hfreeBag =>
    exact Or.inl ((hlive e).mp he).1
  | unstageNone =>
    rw [(View.resume_frame _ a _).2.2.1] at he
    exact Or.inl he
  | publish =>
    rw [(View.resume_frame _ a _).2.2.1] at he
    exact Or.inl he
  | returnBatch =>
    rw [(View.resume_frame _ a _).2.2.1] at he
    exact Or.inl he
  | _ => exact Or.inl he

/-- The step to this control point has just written the header. -/
theorem Transition.large_written {debug : Bool} (htrans : Transition debug s a k pc v) {a' : ι}
    {size start blockSize : Nat} (hv : v.thread = .busy a' (.largeWritten size start blockSize)) :
    v.mem = writeLarge s.mem start size blockSize := by
  have hresume : ∀ (u : View ι κ Seq Seq) (r : Resume),
      (u.resume a r).thread ≠ .busy a' (.largeWritten size start blockSize) := by
    intro u r heq
    cases r <;> cases heq
  cases htrans with
  | @refill c size m central r h =>
    cases r with
    | empty => cases hv
    | batch blocks => cases hv
    | slab start blockSize capacity => cases hv
  | largeWrite h =>
    cases hv
    rfl
  | push _ _ _ _ _ hthread =>
    rcases hthread with rfl | ⟨-, rfl⟩
    · cases hv
    · cases hv
  | stage _ hthread =>
    rcases hthread with rfl | rfl
    · cases hv
    · cases hv
  | unstageNone => exact absurd hv (hresume _ _)
  | publish => exact absurd hv (hresume _ _)
  | returnBatch => exact absurd hv (hresume _ _)
  | _ => cases hv

/-- What a step gives up is in slabs. -/
theorem Transition.lazyAt_cases {debug : Bool} (htrans : Transition debug s a k pc v)
    (hy : v.mem.lazyAt y = true) : s.mem.lazyAt y = true ∨
      ∃ c raw, ClassPool.InSlabOf raw (v.allocator.central.lists c).shapes y := by
  cases htrans with
  | refill h => exact (h.givesUp.lazyAt y hy).imp_right fun hin => ⟨_, _, hin⟩
  | register hn hsize h => exact (h.givesUp.lazyAt y hy).imp_right fun hin => ⟨_, _, hin⟩
  | @returnBatch c batch resume m central h =>
    rw [(View.resume_frame _ a resume).1] at hy
    rw [(View.resume_frame _ a resume).2.2.1]
    exact (h.givesUp.lazyAt y hy).imp_right fun hin => ⟨_, _, hin⟩
  | @publish c batch resume central =>
    rw [(View.resume_frame _ a resume).1] at hy
    exact Or.inl hy
  | @unstageNone c resume =>
    rw [(View.resume_frame _ a resume).1] at hy
    exact Or.inl hy
  | @give c size block reuse =>
    exact Or.inl ((writesIn_writeHeader debug s.mem c size block _ reuse).lazyAt y hy)
  | @largeWrite size start blockSize hfits =>
    exact Or.inl ((writesIn_writeEncodedFields s.mem start _ _ _ _ _).lazyAt y hy)
  | @excess c max resume m batch class_ hinv shapes hbatch drains =>
    obtain ⟨owned, fresh, shared, -, -, -, -, rfl⟩ := drains
    exact Or.inl ((writesIn_initializeAll s.mem c fresh).lazyAt y hy)
  | _ => exact Or.inl hy

variable [DecidableEq ι] [DecidableEq κ]

/-- A block whose tail has become one to keep has a zero tail. -/
theorem Transition.tailed_cases (inv : Inv setup s) (ht : s.threads k = .busy a pc)
    (htrans : Transition setup.debug s a k pc v) (h : (s.update a k v).Tailed b) :
    s.Tailed b ∨ ∀ y, inTail b y → v.mem.byte y = 0 := by
  cases h with
  | small hb =>
    by_cases hold : s.SlabBlock b
    · exact Or.inl (.small hold)
    · refine Or.inr fun y hy => htrans.new_block inv ht hold hb ⟨?_, hy.2⟩
      have := hy.1
      omega
  | @large a' e he hb =>
    subst hb
    by_cases ha : a' = a
    · subst ha
      rw [World.update_allocators_same] at he
      rcases htrans.large_live he with he | ⟨size, blockSize, rfl⟩
      · exact Or.inl (.large he rfl)
      · exact Or.inl (.written ht)
    · rw [World.update_allocators_ne _ _ ha] at he
      exact Or.inl (.large he rfl)
  | @written j a' size blockSize ht' =>
    by_cases hj : j = k
    · subst hj
      rw [World.update_threads_same] at ht'
      refine Or.inr fun y hy => ?_
      rw [htrans.large_written ht']
      obtain ⟨h1, h2⟩ := hy
      obtain ⟨i, rfl⟩ : ∃ i, y = b + 40 + i := ⟨y - (b + 40), by omega⟩
      unfold headerSize at h2
      show (Mem.write _ (b + 40) 24 0).byte (b + 40 + i) = 0
      rw [Mem.write_byte_inside (by omega), Nat.zero_div]
      rfl
    · rw [World.update_threads_ne _ _ hj] at ht'
      exact Or.inl (.written ht')

end Steps

/-! ### The tails and the reclaimable pages -/

section Tidy

variable {setup : Setup ι κ} {s s' : World ι κ Seq Seq} {a : ι} {k : κ} {b y : Nat}

theorem Inv.cell_inArenas (inv : Inv setup s) {p : Place ι κ} {x : Cell ι}
    (hx : x ∈ s.own setup p) (hlo : x.lo ≤ y) (hhi : y < x.hi) : setup.InArenas y := by
  have hin := inv.ledger.inArena p x hx
  have h1 := hin.base_le
  have h2 := hin.hi_le
  have h3 := (inv.parts.allocator x.alloc).next_le
  exact ⟨x.alloc, by omega, by omega⟩

/-- Such a block is a cell with room for a header. -/
theorem Inv.tailed_cell (inv : Inv setup s) (h : s.Tailed b) :
    ∃ p x, x ∈ s.own setup p ∧ x.lo = b ∧ x.lo + headerSize ≤ x.hi := by
  cases h with
  | small h =>
    obtain ⟨a, c, slab, hslab, hb⟩ := h
    obtain ⟨p, hp⟩ := (inv.ledger.covered (setup.smallCell a c b) rfl).mpr
      ⟨c, slab.shape, List.mem_map_of_mem hslab, b, hb, rfl⟩
    exact ⟨p, _, hp, rfl, inv.ledger.header_le hp rfl⟩
  | @large a e he hb =>
    have hle := ((inv.parts.allocator a).large.live_ok e he).header_le
    exact ⟨.largeLive a, _, mem_largeLive he, hb, Nat.add_le_add_left hle _⟩
  | @written k a size blockSize ht =>
    have hle := (inv.parts.thread k a _ ht).2.2.2.1
    refine ⟨.hand k, _, mem_own_extent setup ht rfl, rfl, ?_⟩
    show b + headerSize ≤ b + blockSize
    omega

theorem Inv.tailed_aligned (inv : Inv setup s) (h : s.Tailed b) : b % 64 = 0 := by
  obtain ⟨p, x, hx, rfl, -⟩ := inv.tailed_cell h
  exact (inv.ledger.inArena p x hx).aligned

theorem inTail.mod_ge (hb : b % 64 = 0) (h : inTail b y) : 40 ≤ y % 64 := by
  obtain ⟨h1, h2⟩ := h
  unfold headerSize at h2
  omega

/-- The bytes of a slab are in the arena. -/
theorem Inv.slab_inArenas (inv : Inv setup s) {c : SizeClass} {raw : Multiset Nat}
    (h : ClassPool.InSlabOf raw ((s.allocators a).central.lists c).shapes y) :
    setup.InArenas y := by
  obtain ⟨shape, hshape, hlo, hhi, -⟩ := h
  have hsize := (inv.parts.allocator a).blockSize_eq c shape hshape
  obtain ⟨slab, hslab, rfl⟩ := List.mem_map.mp hshape
  have hend := (((inv.parts.allocator a).central c).pool.slab_ok slab hslab).end_eq
  obtain ⟨b, hb, h1, h2⟩ := exists_block (n := slab.capacity) (show slab.start ≤ y from hlo)
    (show y < slab.start + slab.blockSize * slab.capacity from hend ▸ hhi)
  obtain ⟨p, hp⟩ := (inv.ledger.covered (setup.smallCell a c b) rfl).mpr
    ⟨c, slab.shape, hshape, b, hb, rfl⟩
  apply inv.cell_inArenas hp h1
  have hsize : slab.blockSize = (setup.config a).classBlockSize c := hsize
  show y < b + (setup.config a).classBlockSize c
  rw [← hsize]
  exact h2

/-- What is tailed depends on the slabs, the large allocations and the calls. -/
theorem World.Tailed.of_same (h : s'.Tailed b) (hallocators : s'.allocators = s.allocators)
    (hthreads : ∀ k a size blockSize, s'.threads k = .busy a (.largeWritten size b blockSize) →
      s.threads k = .busy a (.largeWritten size b blockSize)) : s.Tailed b := by
  cases h with
  | small h =>
    obtain ⟨a, c, slab, hslab, hb⟩ := h
    exact .small ⟨a, c, slab, hallocators ▸ hslab, hb⟩
  | large he hb => exact .large (hallocators ▸ he) hb
  | written ht => exact .written (hthreads _ _ _ _ ht)

theorem Inv.live_aligned (inv : Inv setup s) {e : Live ι κ} (he : e ∈ s.live) :
    blockStartFromUserPtr e.ptr % 64 = 0 := by
  obtain ⟨p, x, hx⟩ : ∃ p x, CellOf setup s e p x := inv.exists_cell (g := none) he
  rw [← hx.lo_eq]
  exact (inv.ledger.inArena p x hx.mem).aligned

variable [DecidableEq ι] [DecidableEq κ]

/-- An action that makes no step of a call makes no block tailed. -/
theorem World.tailed_of_begins {action : Action ι κ} {debug : Bool}
    (hrun : ∀ k advised, action ≠ .run k advised) (hstep : s.step debug action = some s')
    (h : s'.Tailed b) : s.Tailed b := by
  rcases World.step_begins hrun hstep with ⟨k, a, last, v, -, ht, rfl, halloc, hbegun⟩ |
    ⟨hallocators, -, hthreads⟩
  · refine h.of_same ?_ fun j a' size blockSize ht' => ?_
    · show Function.update s.allocators a v.allocator = s.allocators
      rw [halloc, Function.update_eq_self]
    · by_cases hj : j = k
      · subst hj
        rw [World.update_threads_same] at ht'
        rcases hbegun with ⟨-, -, hthread⟩ | ⟨-, hthread⟩
        · cases hthread.symm.trans ht'
        · rw [ht'] at hthread
          cases hthread
      · rwa [World.update_threads_ne _ _ hj] at ht'
  · exact h.of_same hallocators fun j a' size blockSize ht' => hthreads ▸ ht'

theorem Inv.step_tidy (inv : Inv setup s) (tidy : s.Tidy setup) {action : Action ι κ}
    (hstep : s.step setup.debug action = some s') : s'.Tidy setup := by
  have inv' : Inv setup s' := inv.step hstep
  by_cases hrun : ∃ k advised, action = .run k advised
  · obtain ⟨k, advised, rfl⟩ := hrun
    obtain ⟨a, pc, v, ht, rfl, -, htrans⟩ := inv.run_cases hstep
    refine ⟨fun b hb y hy => ?_, fun y hy => ?_⟩
    · rcases htrans.tailed_cases inv ht hb with hold | hzero
      · rcases htrans.tail_byte inv ht (hy.mod_ge (inv.tailed_aligned hold)) with hsame | hzero
        · exact hsame.trans (tidy.tail b hold y hy)
        · exact hzero
      · exact hzero y hy
    · rcases htrans.lazyAt_cases hy with hold | ⟨c, raw, hin⟩
      · exact tidy.lazyAt y hold
      · have hin' : ClassPool.InSlabOf raw
            (((s.update a k v).allocators a).central.lists c).shapes y := by
          rwa [World.update_allocators_same]
        exact inv'.slab_inArenas hin'
  · have hrun : ∀ k advised, action ≠ .run k advised := fun k advised heq => hrun ⟨k, advised, heq⟩
    refine ⟨fun b hb y hy => ?_, fun y hy => ?_⟩
    · have hold := World.tailed_of_begins hrun hstep hb
      have hzero := tidy.tail b hold y hy
      have hmod := hy.mod_ge (inv.tailed_aligned hold)
      rcases World.begins_mem hrun hstep with hsame | ⟨e, he, hmark⟩ |
        ⟨e, he, offset, value, hoffset, hstore⟩ | ⟨page, -, -, hdiscard⟩
      · rwa [hsame]
      · rwa [hmark, mark_tail (inv.live_aligned he) hmod]
      · -- the byte stored is in no header
        obtain ⟨p, x, hx, rfl, hle⟩ := inv.tailed_cell hold
        have hout := inv.store_cell hx hle he hoffset
        obtain ⟨h1, h2⟩ := hy
        rw [hstore, Mem.write_byte_outside]
        · exact hzero
        · by_contra hin
          exact hout ⟨by omega, by omega⟩
      · rw [hdiscard]
        exact (Mem.discard_byte_eq_or s.mem page y).elim (fun h => h.trans hzero) id
    · apply tidy.lazyAt y
      rcases World.begins_mem hrun hstep with hsame | ⟨e, -, hmark⟩ |
        ⟨e, -, offset, value, -, hstore⟩ | ⟨page, -, -, hdiscard⟩
      · rwa [← hsame]
      · exact (writesIn_mark setup.debug s.mem _).lazyAt y (hmark ▸ hy)
      · exact Mem.write_lazyAt_le (hstore ▸ hy)
      · rw [hdiscard] at hy
        exact hy

end Tidy

/-! ### Around the arenas -/

section Around

variable {setup : Setup ι κ} {w : World ι κ FreeList Batch} {s s' : World ι κ Seq Seq} {y : Nat}

/-- A store outside the arenas keeps the invariant. -/
theorem Inv.write_outside (inv : Inv setup s) {addr n value : Nat}
    (hout : ∀ y, addr ≤ y → y < addr + n → ¬setup.InArenas y) :
    Inv setup { s with mem := s.mem.write addr n value } := by
  have hcell : ∀ {p x}, x ∈ s.own setup p →
      SameOn x.lo x.hi s.mem (s.mem.write addr n value) := by
    intro p x hx
    have hw : WritesIn (fun y => ¬setup.InArenas y) s.mem (s.mem.write addr n value) :=
      WritesIn.write hout
    exact hw.sameOn fun y hlo hhi hnot => hnot (inv.cell_inArenas hx hlo hhi)
  have hentry : ∀ {g e}, e ∈ s.entries g → ∃ hi, e.ptr + e.size ≤ hi ∧
      SameOn (blockStartFromUserPtr e.ptr) hi s.mem (s.mem.write addr n value) := by
    intro g e he
    obtain ⟨p, x, hx⟩ := inv.exists_cell he
    exact ⟨x.hi, hx.le_hi, hx.lo_eq ▸ hcell hx.mem⟩
  refine inv.of_memory rfl rfl ⟨fun p t ht x hx c hc => ?_, fun g e hg => ?_, fun j b pc ht => ?_,
    fun b y h1 h2 => ?_⟩
  · have hsame := (hcell hx).mono (Nat.le_refl _) (inv.ledger.header_le hx hc)
    exact (inv.memory.free p t ht x hx c hc).congr (SameFields.of_sameOn hsame rfl)
      fun _ => staysResident_of_sameOn hsame
  · obtain ⟨hi, hhi, hsame⟩ := hentry hg
    exact (inv.memory.entry g e hg).congr rfl (fun _ _ h => h) hhi hsame
  · have ht : s.threads j = .busy b pc := ht
    refine (inv.memory.pc j b pc ht).congr rfl (fun block hblock => ?_)
      (fun size start blockSize hpc => ?_) fun e he => ?_
    · exact hcell (mem_own_extent setup ht hblock)
    · subst hpc
      have hfits := (inv.parts.thread j b _ ht).2.2.2.1
      omega
    · have hj : e ∈ s.entries (some j) := by
        simp [World.entries, ht, Thread.entries, he]
      obtain ⟨hi, hhi, hsame⟩ := hentry hj
      have ok := inv.memory.entry _ e hj
      have h1 := ok.header_le
      have h2 := ok.size_pos
      refine (SameFields.of_sameOn (hsame.mono (Nat.le_refl _) ?_) rfl).readPrefix_eq
      unfold blockStartFromUserPtr
      omega
  · have hin : setup.InArenas y := ⟨b, (Nat.le_add_right _ _).trans h1, h2⟩
    refine (Mem.write_byte_outside ?_).trans (inv.memory.untouched b y h1 h2)
    by_contra hmeets
    exact hout y (by omega) (by omega) hin

theorem Refines.write_outside (h : Refines w s) (inv : Inv setup s) {addr n value : Nat}
    (hout : ∀ y, addr ≤ y → y < addr + n → ¬setup.InArenas y) :
    Refines { w with mem := w.mem.write addr n value }
      { s with mem := s.mem.write addr n value } where
  code := by
    have := h.code
    simp only [World.code] at this ⊢
    rw [this]
  agree := h.agree.write _ _ _
  linked := by
    intro g l hl
    have hl : l ∈ s.group g := by cases g <;> exact hl
    refine (h.linked g l hl).congr fun b hb => readNext_congr fun y hy => ?_
    obtain ⟨p, a, c, t, -, hx, -, -⟩ := inv.list_place hl hb
    have hle := inv.ledger.header_le hx rfl
    obtain ⟨h1, h2⟩ := hy
    apply Mem.write_byte_outside
    by_contra hmeets
    refine hout y (by omega) (by omega) (inv.cell_inArenas hx ?_ ?_)
    · show b ≤ y
      omega
    · simp only [Setup.smallCell, headerSize] at hle ⊢
      omega

theorem World.Tidy.write_outside (tidy : s.Tidy setup) (inv : Inv setup s) {addr n value : Nat}
    (hout : ∀ y, addr ≤ y → y < addr + n → ¬setup.InArenas y) :
    ({ s with mem := s.mem.write addr n value }).Tidy setup where
  tail := by
    intro b hb y hy
    have hb : s.Tailed b := hb.of_same rfl fun _ _ _ _ ht => ht
    obtain ⟨p, x, hx, rfl, hle⟩ := inv.tailed_cell hb
    obtain ⟨h1, h2⟩ := hy
    refine (Mem.write_byte_outside ?_).trans (tidy.tail _ hb y ⟨h1, h2⟩)
    by_contra hmeets
    exact hout y (by omega) (by omega) (inv.cell_inArenas hx (by omega) (by omega))
  lazyAt := fun y hy => tidy.lazyAt y (Mem.write_lazyAt_le hy)

variable [DecidableEq ι] [DecidableEq κ]

/-- No action changes a byte outside the arenas. -/
theorem Inv.step_outside (inv : Inv setup s) (tidy : s.Tidy setup) {action : Action ι κ}
    (hstep : s.step setup.debug action = some s') (hy : ¬setup.InArenas y) :
    s'.mem.byte y = s.mem.byte y := by
  have hcell : ∀ {p x}, x ∈ s.own setup p → x.lo + headerSize ≤ x.hi → ¬inHeader x.lo y := by
    intro p x hx hle hin
    exact hy (inv.cell_inArenas hx hin.1 (Nat.lt_of_lt_of_le hin.2 hle))
  have hlive : ∀ {e : Live ι κ}, e ∈ s.live → ∃ p x, CellOf setup s e p x := fun he =>
    inv.exists_cell (g := none) he
  by_cases hrun : ∃ k advised, action = .run k advised
  · obtain ⟨k, advised, rfl⟩ := hrun
    obtain ⟨a, pc, v, ht, rfl, -, htrans⟩ := inv.run_cases hstep
    by_contra hne
    obtain ⟨p, x, hx, -, hin, hle, -⟩ := htrans.written inv ht hne
    exact hcell hx hle hin
  · have hrun : ∀ k advised, action ≠ .run k advised := fun k advised heq => hrun ⟨k, advised, heq⟩
    rcases World.begins_mem hrun hstep with hsame | ⟨e, he, hmark⟩ |
      ⟨e, he, offset, value, hoffset, hstore⟩ | ⟨page, -, hpage, hdiscard⟩
    · rw [hsame]
    · obtain ⟨p, x, hx⟩ := hlive he
      have h1 := (inv.memory.entry none e he).header_le
      have h2 := hx.lo_eq
      have h3 := hx.le_hi
      have hle : x.lo + headerSize ≤ x.hi := by
        unfold blockStartFromUserPtr at h2
        omega
      rw [hmark]
      refine (writesIn_mark setup.debug s.mem _).byte y ?_
      rw [← h2]
      exact hcell hx.mem hle
    · obtain ⟨p, x, hx⟩ := hlive he
      have h1 := (inv.memory.entry none e he).header_le
      have h2 := hx.lo_eq
      have h3 := hx.le_hi
      unfold blockStartFromUserPtr at h2
      rw [hstore]
      apply Mem.write_byte_outside
      by_contra hin
      exact hy (inv.cell_inArenas hx.mem (by omega) (by omega))
    · rw [hdiscard]
      apply Mem.discard_byte_of_lazyAt hpage
      rw [← Bool.not_eq_true]
      exact fun hlazy => hy (tidy.lazyAt y hlazy)

end Around

/-! ### The code -/

/-- `s` is the state over sequences that `w` stands for, with the invariants of this and the earlier
modules. -/
structure World.Backed (setup : Setup ι κ) (w : World ι κ FreeList Batch) (s : World ι κ Seq Seq) :
    Prop where
  refines : Refines w s
  inv : Inv setup s
  tidy : s.Tidy setup

section Code

variable {setup : Setup ι κ} {w w' : World ι κ FreeList Batch} {s : World ι κ Seq Seq} {y : Nat}

theorem backed_initial (setup : Setup ι κ) :
    (setup.world FreeList Batch).Backed setup (setup.world Seq Seq) where
  refines := refines_initial setup
  inv := inv_initial setup
  tidy := ⟨fun _ _ _ _ => rfl, nofun⟩

/-- Link words are in the arenas. -/
theorem Refines.byte_outside (h : Refines w s) (inv : Inv setup s) (hy : ¬setup.InArenas y) :
    w.mem.byte y = s.mem.byte y := by
  refine h.agree.byte y fun b hb hlink => hy ?_
  obtain ⟨p, x, hx, rfl, hle⟩ := inv.tailed_cell (.small hb)
  obtain ⟨h1, h2⟩ := hlink
  unfold headerSize at hle
  exact inv.cell_inArenas hx (by omega) (by omega)

theorem World.Backed.write (b : w.Backed setup s) {addr n value : Nat}
    (hout : ∀ y, addr ≤ y → y < addr + n → ¬setup.InArenas y) :
    World.Backed setup { w with mem := w.mem.write addr n value }
      { s with mem := s.mem.write addr n value } :=
  ⟨b.refines.write_outside b.inv hout, b.inv.write_outside hout, b.tidy.write_outside b.inv hout⟩

theorem Inv.live_tailed (inv : Inv setup s) {e : Live ι κ} (he : e ∈ s.live) :
    s.Tailed (blockStartFromUserPtr e.ptr) := by
  cases hc : SizeClass.fromRequest e.size with
  | some c =>
    have hcell : _ ∈ s.own setup .client := Live.mem_client he hc
    obtain ⟨slab, hslab, hb⟩ := inv.ledger.slab_of_mem hcell
    exact .small ⟨e.alloc, c, slab, hslab, hb⟩
  | none =>
    obtain ⟨record, hrecord, hreq⟩ := inv.tokens.record none e he hc
    exact .large hrecord (inv.cellOf_large hrecord hreq).lo_eq

/-- The tail of the header of a live allocation is zero. -/
theorem World.Backed.tail (b : w.Backed setup s) {e : Live ι κ} (he : e ∈ w.live)
    (hy : inTail (blockStartFromUserPtr e.ptr) y) : w.mem.byte y = 0 := by
  have he : e ∈ s.live := b.refines.live_eq ▸ he
  have htailed := b.inv.live_tailed he
  have hmod := hy.mod_ge (b.inv.tailed_aligned htailed)
  rw [← b.tidy.tail _ htailed y hy]
  refine b.refines.agree.byte y fun b' hb' hlink => ?_
  have haligned := b.inv.tailed_aligned (.small hb')
  obtain ⟨h1, h2⟩ := hlink
  omega

variable [DecidableEq ι] [DecidableEq κ]

theorem World.Backed.step (b : w.Backed setup s) {action : Action ι κ}
    (hstep : w.step setup.debug action = some w') :
    ∃ s', s.step setup.debug action = some s' ∧ w'.Backed setup s' ∧
      ∀ y, ¬setup.InArenas y → w'.mem.byte y = w.mem.byte y := by
  obtain ⟨s', hs', h'⟩ := b.refines.forward b.inv hstep
  have inv' : Inv setup s' := b.inv.step hs'
  refine ⟨s', hs', ⟨h', inv', b.inv.step_tidy b.tidy hs'⟩, fun y hy => ?_⟩
  rw [h'.byte_outside inv' hy, b.refines.byte_outside b.inv hy]
  exact b.inv.step_outside b.tidy hs' hy

end Code

end Orthotope
