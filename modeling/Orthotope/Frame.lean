import Orthotope.Isolation
import Orthotope.Supply

/-! What a call writes.  The only bytes that change lie in the headers of blocks, and never in one
that is live both before and after; so the other allocations, and everything behind a header, stay
as they are.  This holds of each step of a call, whatever the other threads are at, and of a whole
call that runs alone. -/

namespace Orthotope

open ByteMemory Ownership

variable {ι κ : Type}

/-! ### Blocks and their headers -/

section Blocks

variable {L B : Type}

/-- The block of a slab from `lo` to `hi`, or a large one that is live, free, or in the hands of a
call. -/
inductive World.Block (w : World ι κ L B) : Nat → Nat → Prop
  | small {a : ι} {c : SizeClass} {slab : SlabRecord L} {b : Nat}
      (hslab : slab ∈ ((w.allocators a).central.lists c).slabs) (hb : b ∈ slab.blocks) :
      Block w b (b + slab.blockSize)
  | large {a : ι} {block : FreeLargeBlock}
      (h : block ∈ (w.allocators a).large.liveBag + (w.allocators a).large.freeBag) :
      Block w block.blockAddr (block.blockAddr + block.blockSize)
  | held {k : κ} {a : ι} {size start blockSize : Nat}
      (h : w.threads k = .busy a (.largeGot size start blockSize) ∨
        w.threads k = .busy a (.largeWritten size start blockSize)) :
      Block w start (start + blockSize)

/-- No live allocation has the block at `b`. -/
def World.NotLive (w : World ι κ L B) (b : Nat) : Prop :=
  ∀ e ∈ w.live, blockStartFromUserPtr e.ptr ≠ b

/-- Byte `y` is in the header of a block that is not live before, or not live after. -/
def World.MayWrite (w w' : World ι κ L B) (y : Nat) : Prop :=
  ∃ lo hi, w'.Block lo hi ∧ inHeader lo y ∧ (w.NotLive lo ∨ w'.NotLive lo)

/-- From `w` to `w'` at most such bytes have changed, so neither the header of an allocation that
stays live has, nor any byte behind a header. -/
structure World.Framed (w w' : World ι κ L B) : Prop where
  written : ∀ y, w'.mem.byte y ≠ w.mem.byte y → w.MayWrite w' y
  header : ∀ e ∈ w.live, e ∈ w'.live → ∀ y, inHeader (blockStartFromUserPtr e.ptr) y →
    w'.mem.byte y = w.mem.byte y
  payload : ∀ lo hi, w.Block lo hi ∨ w'.Block lo hi → ∀ y, lo + headerSize ≤ y → y < hi →
    w'.mem.byte y = w.mem.byte y

end Blocks

section Cells

variable {setup : Setup ι κ} {w w' : World ι κ FreeList Batch} {s s' : World ι κ Seq Seq} {a : ι}
  {k : κ} {c : SizeClass} {lo hi : Nat}

/-- Every block is a cell. -/
theorem Inv.block_cell (inv : Inv setup s) (h : s.Block lo hi) :
    ∃ p x, x ∈ s.own setup p ∧ x.lo = lo ∧ x.hi = hi := by
  cases h with
  | @small a c slab b hslab hb =>
    obtain ⟨p, hp⟩ := (inv.ledger.covered (setup.smallCell a c lo) rfl).mpr
      ⟨c, slab.shape, List.mem_map_of_mem hslab, lo, hb, rfl⟩
    have hsize : slab.blockSize = (setup.config a).classBlockSize c :=
      (inv.parts.allocator a).blockSize_eq c _ (List.mem_map_of_mem hslab)
    exact ⟨p, _, hp, rfl, by rw [hsize]; rfl⟩
  | @large a block h =>
    rcases Multiset.mem_add.mp h with h | h
    · exact ⟨.largeLive a, largeCell a block, Multiset.mem_map_of_mem _ h, rfl, rfl⟩
    · exact ⟨.largeFree a, largeCell a block, Multiset.mem_map_of_mem _ h, rfl, rfl⟩
  | @held k a size start blockSize h =>
    rcases h with h | h
    · exact ⟨.hand k, _, mem_own_extent setup h rfl, rfl, rfl⟩
    · exact ⟨.hand k, _, mem_own_extent setup h rfl, rfl, rfl⟩

theorem World.Block.of_shape {slab slab' : SlabRecord Seq} {b : Nat}
    (hslab' : slab' ∈ ((s.allocators a).central.lists c).slabs) (heq : slab'.shape = slab.shape)
    (hb : b ∈ slab.blocks) : s.Block b (b + slab.blockSize) := by
  simp only [SlabRecord.shape, Prod.mk.injEq] at heq
  rw [← heq.2.2.1]
  refine .small hslab' ?_
  simpa [SlabRecord.blocks, heq.1, heq.2.2.1, heq.2.2.2] using hb

/-- Every small cell is a block, and stays one as long as no slab is lost. -/
theorem Inv.smallCell_block (inv : Inv setup s) {p : Place ι κ} {b : Nat}
    (h : setup.smallCell a c b ∈ s.own setup p)
    (hshapes : ∀ shape ∈ ((s.allocators a).central.lists c).shapes,
      shape ∈ ((s'.allocators a).central.lists c).shapes) :
    s'.Block (setup.smallCell a c b).lo (setup.smallCell a c b).hi := by
  obtain ⟨slab, hslab, hb⟩ := inv.ledger.slab_of_mem h
  have hsize : slab.blockSize = (setup.config a).classBlockSize c :=
    (inv.parts.allocator a).blockSize_eq c _ (List.mem_map_of_mem hslab)
  obtain ⟨slab', hslab', heq⟩ := List.mem_map.mp (hshapes _ (List.mem_map_of_mem hslab))
  show s'.Block b (b + (setup.config a).classBlockSize c)
  rw [← hsize]
  exact .of_shape hslab' heq hb

/-- The code and the sequences have the same blocks. -/
theorem Refines.block_iff (h : Refines w s) : w.Block lo hi ↔ s.Block lo hi := by
  rw [h.code]
  constructor
  · intro hblock
    cases hblock with
    | small hslab hb =>
      obtain ⟨slab', hslab', rfl⟩ := List.mem_map.mp hslab
      exact .small hslab' hb
    | large hblock => exact .large hblock
    | @held k a size start blockSize hbusy =>
      have hmap : ∀ {pc : Pc ι κ Batch}, (s.code w.mem).threads k = .busy a pc →
          ∃ pc', s.threads k = .busy a pc' ∧ pc = pc'.map Batch.ofSeq := by
        intro pc ht
        exact h.busy (by rw [h.code]; exact ht)
      rcases hbusy with ht | ht
      · obtain ⟨pc, ht', hpc⟩ := hmap ht
        cases pc <;> cases hpc
        exact .held (Or.inl ht')
      · obtain ⟨pc, ht', hpc⟩ := hmap ht
        cases pc <;> cases hpc
        exact .held (Or.inr ht')
  · intro hblock
    cases hblock with
    | @small a c slab b hslab hb =>
      have hslab' : slab.map FreeList.ofSeq ∈
          (((s.code w.mem).allocators a).central.lists c).slabs := List.mem_map_of_mem hslab
      exact .small hslab' hb
    | large hblock => exact .large hblock
    | @held k a size start blockSize hbusy =>
      have hmap : ∀ {pc : Pc ι κ Seq}, s.threads k = .busy a pc →
          (s.code w.mem).threads k = .busy a (pc.map Batch.ofSeq) := by
        intro pc ht
        simp only [World.code, ht]
        rfl
      exact .held (hbusy.imp (fun ht => hmap ht) fun ht => hmap ht)

theorem Inv.block_aligned (inv : Inv setup s) (h : s.Block lo hi) : lo % 64 = 0 := by
  obtain ⟨p, x, hx, rfl, -⟩ := inv.block_cell h
  exact (inv.ledger.inArena p x hx).aligned

variable [DecidableEq ι] [DecidableEq κ]

/-- A byte behind the header of a block is in no header. -/
theorem Inv.payload_not_header (inv : Inv setup s) {lo' hi' y : Nat} (h : s.Block lo hi)
    (h' : s.Block lo' hi') (hlo : lo + headerSize ≤ y) (hhi : y < hi) : ¬inHeader lo' y := by
  rintro ⟨h1, h2⟩
  have hal := inv.block_aligned h
  have hal' := inv.block_aligned h'
  obtain ⟨p, x, hx, rfl, rfl⟩ := inv.block_cell h
  obtain ⟨p', x', hx', rfl, rfl⟩ := inv.block_cell h'
  have hlt := (inv.ledger.inArena p' x' hx').lo_lt
  unfold headerSize at hlo h2
  rcases inv.ledger.apart.eq_or hx hx' with rfl | hapart
  · omega
  · unfold Cell.Apart at hapart
    omega

/-- What has been written decides the rest. -/
theorem Refines.framed_of_written (h' : Refines w' s') (inv' : Inv setup s')
    (hwritten : ∀ y, w'.mem.byte y ≠ w.mem.byte y → w.MayWrite w' y)
    (hkept : (∀ lo hi, w.Block lo hi → w'.Block lo hi) ∨ w'.mem.byte = w.mem.byte) :
    w.Framed w' where
  written := hwritten
  header := by
    intro e he he' y hy
    by_contra hne
    obtain ⟨lo, hi, hblock, hin, hnot⟩ := hwritten y hne
    have hal := inv'.block_aligned (h'.block_iff.mp hblock)
    obtain ⟨p, x, hx⟩ := inv'.exists_cell (g := none) (h'.live_eq ▸ he')
    have hal' := (inv'.ledger.inArena p x hx.mem).aligned
    rw [hx.lo_eq] at hal'
    have heq : blockStartFromUserPtr e.ptr = lo := by
      obtain ⟨h1, h2⟩ := hy
      obtain ⟨h3, h4⟩ := hin
      unfold headerSize at h2 h4
      omega
    exact hnot.elim (fun hnot => hnot e he heq) fun hnot => hnot e he' heq
  payload := by
    intro lo hi hblock y hlo hhi
    by_contra hne
    have hblock : w'.Block lo hi := by
      rcases hkept with hkept | hsame
      · exact hblock.elim (hkept lo hi) id
      · exact absurd (congrFun hsame y) hne
    obtain ⟨lo', hi', hblock', hin, -⟩ := hwritten y hne
    exact inv'.payload_not_header (h'.block_iff.mp hblock) (h'.block_iff.mp hblock') hlo hhi hin

end Cells

/-! ### Steps over sequences -/

section Written

variable {setup : Setup ι κ} {s : World ι κ Seq Seq} {a : ι} {k : κ} {pc : Pc ι κ Seq}
  {v : View ι κ Seq Seq} {y : Nat}

/-- A step takes no allocation from its client. -/
theorem Transition.live_mono {debug : Bool} (htrans : Transition debug s a k pc v) :
    ∀ e ∈ s.live, e ∈ v.live := by
  intro e he
  cases htrans with
  | give => exact List.mem_append.mpr (Or.inl he)
  | record => exact List.mem_append.mpr (Or.inl he)
  | refuse => exact List.mem_append.mpr (Or.inl he)
  | unstageNone =>
    rw [View.resume_live]
    exact he
  | publish =>
    rw [View.resume_live]
    exact he
  | returnBatch =>
    rw [View.resume_live]
    exact he
  | _ => exact he

/-- Only the last step of a call gives its client an allocation. -/
theorem Transition.live_of_busy {debug : Bool} (htrans : Transition debug s a k pc v) {b : ι}
    {pc' : Pc ι κ Seq} (hv : v.thread = .busy b pc') : v.live = s.live := by
  cases htrans with
  | give => cases hv
  | record => cases hv
  | refuse => cases hv
  | unstageNone => exact View.resume_live ..
  | publish => exact View.resume_live ..
  | returnBatch => exact View.resume_live ..
  | _ => rfl

theorem Transition.live_of_frees {debug : Bool} (htrans : Transition debug s a k pc v)
    (hfrees : pc.Frees a) : v.live = s.live := by
  cases htrans with
  | give => exact hfrees.elim
  | record => exact hfrees.elim
  | refuse ha => exact absurd hfrees ha
  | unstageNone => exact View.resume_live ..
  | publish => exact View.resume_live ..
  | returnBatch => exact View.resume_live ..
  | _ => rfl

variable [DecidableEq ι] [DecidableEq κ]

/-- A step writes in headers of blocks that its call has in its hands, or its cache has fresh. -/
theorem Transition.written (inv : Inv setup s) (ht : s.threads k = .busy a pc)
    (htrans : Transition setup.debug s a k pc v) (hy : v.mem.byte y ≠ s.mem.byte y) :
    ∃ p x, x ∈ s.own setup p ∧ (s.update a k v).Block x.lo x.hi ∧ inHeader x.lo y ∧
      x.lo + headerSize ≤ x.hi ∧ (p = .hand k ∨ ∃ c, p = .fresh k c) := by
  obtain ⟨howner, hok⟩ := inv.parts.thread k a _ ht
  have hshapes : ∀ c, ∀ shape ∈ ((s.allocators a).central.lists c).shapes,
      shape ∈ (((s.update a k v).allocators a).central.lists c).shapes := by
    intro c
    rw [World.update_allocators_same]
    exact htrans.shapes_mono c
  cases htrans with
  | refill h => exact absurd (h.givesUp.byte y) hy
  | register hn hsize h => exact absurd (h.givesUp.byte y) hy
  | @returnBatch c batch resume m central h =>
    rw [(View.resume_frame _ a resume).1] at hy
    exact absurd (h.givesUp.byte y) hy
  | @publish c batch resume central =>
    rw [(View.resume_frame _ a resume).1] at hy
    exact absurd rfl hy
  | @unstageNone c resume =>
    rw [(View.resume_frame _ a resume).1] at hy
    exact absurd rfl hy
  | @give c size block reuse =>
    have hcell : setup.smallCell a c block ∈ s.own setup (.hand k) :=
      mem_own_hand ht rfl (List.mem_singleton_self block)
    refine ⟨_, _, hcell, inv.smallCell_block hcell (hshapes c), ?_, inv.ledger.header_le hcell rfl,
      Or.inl rfl⟩
    by_contra hout
    exact hy ((writesIn_writeHeader setup.debug s.mem c size block _ reuse).byte y hout)
  | @largeWrite size start blockSize hfits =>
    have hle : start + headerSize ≤ start + blockSize := by
      have := hok.2.2
      omega
    refine ⟨_, _, mem_own_extent setup ht rfl, .held (Or.inr (World.update_threads_same ..)), ?_,
      hle, Or.inl rfl⟩
    by_contra hout
    exact hy ((writesIn_writeEncodedFields s.mem start _ _ _ _ _).byte y hout)
  | @excess c max resume m batch class_ hinv shapes hbatch drains =>
    obtain ⟨owned, fresh, shared, -, -, hfresh, -, rfl⟩ := drains
    by_cases hin : ∃ b ∈ fresh, inHeader b y
    · obtain ⟨b, hb, hin⟩ := hin
      have hcell : setup.smallCell a c b ∈ s.own setup (.fresh k c) := by
        simp only [World.own, World.cacheCells, howner]
        exact setup.smallCell_mem (by simp [hfresh, hb])
      exact ⟨_, _, hcell, inv.smallCell_block hcell (hshapes c), hin,
        inv.ledger.header_le hcell rfl, Or.inr ⟨c, rfl⟩⟩
    · exact absurd ((writesIn_initializeAll s.mem c fresh).byte y hin) hy
  | _ => exact absurd rfl hy

/-- No allocation is live in a cell of these places. -/
theorem Inv.notLive (inv : Inv setup s) {p : Place ι κ} {x : Cell ι} (hx : x ∈ s.own setup p)
    (hp : p ≠ .client) (hlarge : ∀ b, p ≠ .largeLive b) : s.NotLive x.lo := by
  intro e he heq
  obtain ⟨q, z, hz⟩ : ∃ q z, CellOf setup s e q z := inv.exists_cell (g := none) he
  have hq : q ≠ p := by
    rintro rfl
    rcases hz.place with h | h
    · exact hp h
    · exact hlarge _ h
  exact inv.ledger.lo_ne hq hz.mem hx (hz.lo_eq.trans heq)

end Written

/-! ### Blocks stay blocks -/

section Mono

variable {s : World ι κ Seq Seq} {a : ι} {k : κ} {pc : Pc ι κ Seq} {v : View ι κ Seq Seq}
  {debug : Bool} {lo hi : Nat}

/-- A large block of the registry stays there, or is taken by the call. -/
theorem Transition.large_kept (htrans : Transition debug s a k pc v) {block : FreeLargeBlock}
    (h : block ∈ (s.allocators a).large.liveBag + (s.allocators a).large.freeBag) :
    block ∈ v.allocator.large.liveBag + v.allocator.large.freeBag ∨
      ∃ size, v.thread = .busy a (.largeGot size block.blockAddr block.blockSize) := by
  have hresume : ∀ (v : View ι κ Seq Seq) (r : Resume), (v.resume a r).allocator = v.allocator :=
    fun v r => (v.resume_frame a r).2.2.1
  cases htrans with
  | @largeReuse size blockSize found large hinv hlive hfree hle =>
    rw [hfree, Multiset.mem_add, LargeObjectState.liveBag, ← hlive, Multiset.mem_cons] at h
    rcases h with h | rfl | h
    · exact Or.inl (Multiset.mem_add.mpr (Or.inl h))
    · exact Or.inr ⟨size, rfl⟩
    · exact Or.inl (Multiset.mem_add.mpr (Or.inr h))
  | @record size start blockSize large hinv hlive hfree =>
    refine Or.inl (Multiset.mem_add.mpr ((Multiset.mem_add.mp h).imp (fun h => ?_) fun h => ?_))
    · show block ∈ large.liveBag
      rw [LargeObjectState.liveBag, hlive]
      exact List.mem_cons_of_mem _ h
    · show block ∈ large.freeBag
      rwa [hfree]
  | @release entry requested usable large record ha hinv hrecord hlive hliveBag hfreeBag =>
    apply Or.inl
    show block ∈ large.liveBag + large.freeBag
    rw [hliveBag] at h
    rw [hfreeBag]
    simp only [Multiset.mem_add, Multiset.mem_cons] at h ⊢
    tauto
  | unstageNone =>
    rw [hresume]
    exact Or.inl h
  | publish =>
    rw [hresume]
    exact Or.inl h
  | returnBatch =>
    rw [hresume]
    exact Or.inl h
  | _ => exact Or.inl h

variable [DecidableEq ι] [DecidableEq κ]

/-- Every block stays one, but for a large one that is found unfit for use. -/
theorem Transition.block_mono (htrans : Transition debug s a k pc v)
    (ht : s.threads k = .busy a pc) (hpc : ∀ size start blockSize,
      pc = .largeGot size start blockSize → v.thread = .busy a (.largeWritten size start blockSize))
    (h : s.Block lo hi) : (s.update a k v).Block lo hi := by
  cases h with
  | @small b c slab _ hslab hb =>
    have hmem : ∃ slab' ∈ (((s.update a k v).allocators b).central.lists c).slabs,
        slab'.shape = slab.shape := by
      by_cases hba : b = a
      · subst hba
        rw [World.update_allocators_same]
        exact List.mem_map.mp (htrans.shapes_mono c _ (List.mem_map_of_mem hslab))
      · rw [World.update_allocators_ne _ _ hba]
        exact ⟨slab, hslab, rfl⟩
    obtain ⟨slab', hslab', heq⟩ := hmem
    exact .of_shape hslab' heq hb
  | @large b block h =>
    by_cases hba : b = a
    · subst hba
      rcases htrans.large_kept h with h | ⟨size, hthread⟩
      · exact .large (a := b) (by rwa [World.update_allocators_same])
      · exact .held (Or.inl ((World.update_threads_same ..).trans hthread))
    · exact .large (a := b) (by rwa [World.update_allocators_ne _ _ hba])
  | @held j b size start blockSize h =>
    by_cases hj : j = k
    · subst hj
      rw [ht] at h
      rcases h with h | h
      · obtain ⟨rfl, rfl⟩ := Thread.busy.inj h
        exact .held (Or.inr ((World.update_threads_same ..).trans (hpc _ _ _ rfl)))
      · obtain ⟨rfl, rfl⟩ := Thread.busy.inj h
        cases htrans with
        | takeSlab hslab => rcases hslab with hslab | hslab <;> cases hslab
        | @record _ _ _ large hinv hlive hfree =>
          refine @World.Block.large _ _ _ _ _ a ⟨lo, blockSize⟩ (Multiset.mem_add.mpr (Or.inl ?_))
          rw [World.update_allocators_same]
          show (⟨lo, blockSize⟩ : FreeLargeBlock) ∈ large.liveBag
          rw [LargeObjectState.liveBag, hlive]
          exact List.mem_cons_self
    · refine @World.Block.held _ _ _ _ _ j b size _ _ ?_
      rwa [World.update_threads_ne _ _ hj]

end Mono

/-! ### Steps of the code -/

theorem readNext_inj {m m' : Mem} {b : Nat}
    (h : readSmallFreeListNext m' b = readSmallFreeListNext m b) :
    m'.read (b + 24) 8 = m.read (b + 24) 8 := by
  simp only [readSmallFreeListNext] at h
  split at h
  · split at h
    · omega
    · cases h
  · split at h
    · cases h
    · exact Option.some.inj h

section Steps

variable {setup : Setup ι κ} {w w' : World ι κ FreeList Batch} {s s' : World ι κ Seq Seq} {a : ι}
  {k : κ}

theorem World.SlabBlock.block {b : Nat} (h : s.SlabBlock b) : ∃ hi, s.Block b hi := by
  obtain ⟨a, c, slab, hslab, hb⟩ := h
  exact ⟨_, .small hslab hb⟩

variable [DecidableEq ι] [DecidableEq κ]

/-- A live allocation whose block is one of a slab is small. -/
theorem Inv.live_small (inv : Inv setup s) {e : Live ι κ} (he : e ∈ s.live)
    (hblock : s.SlabBlock (blockStartFromUserPtr e.ptr)) :
    ∃ c, SizeClass.fromRequest e.size = some c := by
  cases hc : SizeClass.fromRequest e.size with
  | some c => exact ⟨c, rfl⟩
  | none =>
    obtain ⟨a, d, slab, hslab, hb⟩ := hblock
    obtain ⟨p, hp⟩ := (inv.ledger.covered (setup.smallCell a d _) rfl).mpr
      ⟨d, slab.shape, List.mem_map_of_mem hslab, _, hb, rfl⟩
    obtain ⟨record, hrecord, hreq⟩ := inv.tokens.record none e he hc
    have hcell := inv.cellOf_large hrecord hreq
    have hlo := hcell.lo_eq
    have h1 := (inv.ledger.inArena _ _ hp).lo_lt
    have h2 := (inv.ledger.inArena _ _ hcell.mem).lo_lt
    rcases inv.ledger.apart.eq_or hp hcell.mem with heq | hapart
    · cases congrArg Cell.cls heq
    · simp only [Cell.Apart, Setup.smallCell] at hapart h1
      omega

/-- What a step of a call writes is in the header of a block that is not live. -/
theorem Refines.run_written (h : Refines w s) (inv : Inv setup s) {pc : Pc ι κ Seq}
    (ht : s.threads k = .busy a pc) {advised : Bool × Bool}
    (hstep : w.step setup.debug (.run k advised) = some w') {y : Nat}
    (hy : w'.mem.byte y ≠ w.mem.byte y) :
    ∃ lo hi, w'.Block lo hi ∧ inHeader lo y ∧ w.NotLive lo := by
  obtain ⟨v, m, hS, hF, hrefines, hkeeps⟩ : MatchedKeeping setup.debug advised a k w s pc :=
    h.matched_keeping inv ht
  have hw : w' = (s.update a k v).code m := by
    have ht' : w.threads k = .busy a (pc.map Batch.ofSeq) := by
      rw [h.threads_eq, ht]
      rfl
    have hview : w.view a k = (s.view a k).code w.mem := by
      rw [h.code]
      rfl
    simp only [World.step, ht', hview, hF, Option.map_some] at hstep
    rw [h.code, World.update_code] at hstep
    exact (Option.some.inj hstep).symm
  subst hw
  have htrans := inv.transition ht hS
  have hS' : s.step setup.debug (.run k advised) = some (s.update a k v) := by
    simp only [World.step, ht, hS, Option.map_some]
  have inv' := inv.step hS'
  have hmono : ∀ b, s.SlabBlock b → (s.update a k v).SlabBlock b := by
    refine slabBlock_update fun d shape hshape => ?_
    have hshapes := inv.shapes_mono hS' a d shape hshape
    rwa [World.update_allocators_same] at hshapes
  by_cases hlink : ∃ b, (s.update a k v).SlabBlock b ∧ inLink b y
  · -- a link word that is written is not that of a live block
    obtain ⟨b, hb, hin⟩ := hlink
    obtain ⟨hi, hblock⟩ := hb.block
    refine ⟨b, hi, hrefines.block_iff.mpr hblock, ?_, ?_⟩
    · obtain ⟨h1, h2⟩ := hin
      constructor
      · omega
      · unfold headerSize
        omega
    · intro e he heq
      have he' : e ∈ s.live := h.live_eq ▸ he
      obtain ⟨c, hc⟩ := inv'.live_small (e := e) (htrans.live_mono e he') (heq ▸ hb)
      have hbytes := Mem.bytes_of_read (readNext_inj (hkeeps e he' c hc)) (y - (b + 24))
      obtain ⟨h1, h2⟩ := hin
      rw [heq, show b + 24 + (y - (b + 24)) = y by omega] at hbytes
      exact hy (hbytes (by omega))
  · have hsame : m.byte y = v.mem.byte y :=
      hrefines.agree.byte y fun b hb hin => hlink ⟨b, hb, hin⟩
    have hsame' : w.mem.byte y = s.mem.byte y :=
      h.agree.byte y fun b hb hin => hlink ⟨b, hmono b hb, hin⟩
    have hy' : v.mem.byte y ≠ s.mem.byte y := by
      rw [← hsame, ← hsame']
      exact hy
    obtain ⟨p, x, hx, hblock, hin, -, hp⟩ := htrans.written inv ht hy'
    refine ⟨x.lo, x.hi, hrefines.block_iff.mpr hblock, hin, fun e he => ?_⟩
    have hnot : s.NotLive x.lo := by
      rcases hp with rfl | ⟨c, rfl⟩
      · exact inv.notLive hx (by simp) (by simp)
      · exact inv.notLive hx (by simp) (by simp)
    exact hnot e (h.live_eq ▸ he)

end Steps

/-! ### Calls -/

section Starts

variable {L B : Type} [BlockStore L B] {debug : Bool} {w w' : World ι κ L B} {a : ι} {k : κ}

omit [BlockStore L B] in
theorem View.startAllocate_same (v : View ι κ L B) (size : Nat) :
    (v.startAllocate a size).mem = v.mem ∧ (v.startAllocate a size).live = v.live ∧
      (v.startAllocate a size).allocator = v.allocator := by
  rcases v.startAllocate_cases a size with h | ⟨pc, h, -⟩
  · rw [h]
    exact ⟨rfl, rfl, rfl⟩
  · rw [h]
    exact ⟨rfl, rfl, rfl⟩

variable [DecidableEq ι] [DecidableEq κ]

theorem World.call_cases {start : View ι κ L B → View ι κ L B} (h : w.call k a start = some w') :
    (∃ last, w.threads k = .idle last) ∧ (w' = w.update a k ((w.view a k).finish .panicked) ∨
      ∃ cache, w' = w.update a k (start ((w.view a k).setCache cache))) := by
  unfold World.call at h
  split at h
  · cases h
  · rename_i last ht
    refine ⟨⟨last, ht⟩, ?_⟩
    split at h
    · exact Or.inl (Option.some.inj h).symm
    · exact Or.inr ⟨_, (Option.some.inj h).symm⟩

/-- The checks of a free find the block in front of the pointer. -/
theorem Allocator.checkFree_block {allocator : Allocator L} {m : Mem} {ptr block owner : Nat}
    {expectedSize : Option Nat} {c : SizeClass}
    (h : allocator.checkFree debug m ptr expectedSize = .ok (.small c block owner)) :
    block = blockStartFromUserPtr ptr := by
  have hvalid : ∀ {b : Nat}, allocator.validateSmallBlockForFree debug m ptr = .ok b →
      b = blockStartFromUserPtr ptr := by
    intro b hb
    simp only [validateSmallBlockForFree] at hb
    split at hb
    · cases hb
    · split at hb
      · cases hb
      · exact (Except.ok.inj hb).symm
  unfold checkFree at h
  split at h
  · cases h
  · rename_i header kind _
    cases expectedSize <;> cases kind <;>
      simp only [deallocateDecoded, deallocateDecodedWithExpectedSize] at h
    · split at h
      · cases h
      · rename_i b hb
        obtain ⟨-, rfl, -⟩ := FreeRoute.small.inj (Except.ok.inj h)
        exact hvalid hb
    · cases h
    · split at h
      · cases h
      · rename_i b hb
        split at h
        · cases h
        · obtain ⟨-, rfl, -⟩ := FreeRoute.small.inj (Except.ok.inj h)
          exact hvalid hb
    · split at h <;> cases h

omit [DecidableEq ι] [DecidableEq κ] [BlockStore L B] in
/-- A free is refused, or takes the allocation back; a small one is marked. -/
theorem View.startFree_cases {v v' : View ι κ L B} {entry : Live ι κ} {rest : List (Live ι κ)}
    {expectedSize : Option Nat} (h : v.startFree debug a entry rest expectedSize = v') :
    v'.allocator = v.allocator ∧
      ((v'.mem = v.mem ∧ v'.live = v.live ∧ ∃ e, v'.thread = .idle (some (.freeError e))) ∨
      (v'.mem = markSmallBlockFreed debug v.mem (blockStartFromUserPtr entry.ptr) ∧ v'.live = rest ∧
        ∃ c owner, v'.thread = .busy a (.route c (blockStartFromUserPtr entry.ptr) owner)) ∨
      (v'.mem = v.mem ∧ v'.live = rest ∧ ∃ requestedSize usableSize,
        v'.thread = .busy a (.releasing entry requestedSize usableSize))) := by
  subst h
  unfold View.startFree
  split
  · exact ⟨rfl, Or.inl ⟨rfl, rfl, _, rfl⟩⟩
  · rename_i c block owner hcheck
    obtain rfl := Allocator.checkFree_block hcheck
    exact ⟨rfl, Or.inr (Or.inl ⟨rfl, rfl, c, owner, rfl⟩)⟩
  · exact ⟨rfl, Or.inr (Or.inr ⟨rfl, rfl, _, _, rfl⟩)⟩

/-- The control points of a large allocation before its header is written. -/
def Pc.Unwritten {B : Type} : Pc ι κ B → Prop
  | .large .. | .largeCarve .. | .largeGot .. => True
  | _ => False

/-- Steps from a control point to a thread that write nothing, also in the code. -/
inductive Pc.Still {B : Type} : Pc ι κ B → Thread ι κ B → Prop
  | large {size blockSize : Nat} {thread : Thread ι κ B} : Still (.large size blockSize) thread
  | largeCarve {size blockSize : Nat} {thread : Thread ι κ B} :
      Still (.largeCarve size blockSize) thread
  | unfit {size start blockSize : Nat} {a : ι} :
      Still (.largeGot size start blockSize) (.busy a (.report size))
  | report {size : Nat} {thread : Thread ι κ B} : Still (.report size) thread
  | releasing {entry : Live ι κ} {requestedSize usableSize : Nat} {thread : Thread ι κ B} :
      Still (.releasing entry requestedSize usableSize) thread

omit [DecidableEq ι] [DecidableEq κ] in
theorem Pc.Still.map {pc : Pc ι κ Seq} {thread : Thread ι κ Seq} (h : pc.Still thread)
    (f : Seq → B) : (pc.map f).Still (thread.map f) := by
  cases h <;> constructor

omit [DecidableEq ι] [DecidableEq κ] in
theorem View.next_same {v v' : View ι κ L B} {pc : Pc ι κ B} {advised : Bool × Bool}
    (h : v.next debug advised a k pc = some v') (hpc : pc.Still v'.thread) : v'.mem = v.mem := by
  cases pc with
  | large size blockSize =>
    obtain ⟨found, -, rfl⟩ := Option.map_eq_some_iff.mp h
    simp only
    split <;> rfl
  | largeCarve size blockSize =>
    simp only [View.next] at h
    split at h <;> obtain rfl := Option.some.inj h <;> rfl
  | largeGot size start blockSize =>
    simp only [View.next] at h
    split at h <;> obtain rfl := Option.some.inj h
    · rfl
    · cases hpc
  | report size =>
    obtain rfl := Option.some.inj h
    rfl
  | releasing entry requested usable =>
    obtain ⟨result, -, rfl⟩ := Option.map_eq_some_iff.mp h
    cases result <;> rfl
  | _ => cases hpc

end Starts

section Calls

variable {setup : Setup ι κ} {w₀ w w' : World ι κ FreeList Batch} {s s' : World ι κ Seq Seq} {a : ι}
  {k : κ}

theorem Live.Apart.symm {e e' : Live ι κ} (h : e.Apart e') : e'.Apart e := Or.symm h

/-- A live allocation lies in a block, as long as nothing happens to its allocator. -/
theorem Refines.live_block (h : Refines w s) (inv : Inv setup s) {e : Live ι κ} (he : e ∈ s.live)
    (hallocators : w'.allocators = w.allocators) :
    ∃ hi, w'.Block (blockStartFromUserPtr e.ptr) hi ∧ e.ptr + e.size ≤ hi := by
  have hcode : w'.allocators = fun a => (s.allocators a).map FreeList.ofSeq := by
    rw [hallocators, h.code]
    rfl
  cases hc : SizeClass.fromRequest e.size with
  | some c =>
    have hcell : setup.smallCell e.alloc c (blockStartFromUserPtr e.ptr) ∈ s.own setup .client :=
      Live.mem_client he hc
    obtain ⟨slab, hslab, hb⟩ := inv.ledger.slab_of_mem hcell
    have hslab' : slab.map FreeList.ofSeq ∈ ((w'.allocators e.alloc).central.lists c).slabs := by
      rw [hcode]
      exact List.mem_map_of_mem hslab
    refine ⟨_, .small hslab' hb, ?_⟩
    have hsize : slab.blockSize = (setup.config e.alloc).classBlockSize c :=
      (inv.parts.allocator e.alloc).blockSize_eq c _ (List.mem_map_of_mem hslab)
    show _ ≤ _ + slab.blockSize
    rw [hsize]
    exact (inv.cellOf_small he hc).le_hi
  | none =>
    obtain ⟨record, hrecord, hreq⟩ := inv.tokens.record none e he hc
    have hlarge := inv.cellOf_large hrecord hreq
    have hlo : record.blockAddr = blockStartFromUserPtr e.ptr := hlarge.lo_eq
    rw [← hlo]
    have hblock : LargeObjectState.recordBlock record ∈
        (w'.allocators e.alloc).large.liveBag + (w'.allocators e.alloc).large.freeBag := by
      rw [hcode]
      exact Multiset.mem_add.mpr (Or.inl (Multiset.mem_coe.mpr (List.mem_map_of_mem hrecord)))
    exact ⟨_, .large hblock, hlarge.le_hi⟩

theorem Transition.unwritten {debug : Bool} {pc pc' : Pc ι κ Seq} {v : View ι κ Seq Seq} {b : ι}
    (htrans : Transition debug s a k pc v) (hv : v.thread = .busy b pc') (hpc' : pc'.Unwritten) :
    pc.Unwritten ∧ ((∃ size blockSize, pc = .large size blockSize) ∨
      ∃ size blockSize, pc = .largeCarve size blockSize) := by
  have hresume : ∀ {v : View ι κ Seq Seq} {r : Resume}, (v.resume a r).thread = .busy b pc' →
      False := by
    intro v r hr
    cases r <;> cases hr <;> exact hpc'
  cases htrans with
  | largeReuse => exact ⟨trivial, Or.inl ⟨_, _, rfl⟩⟩
  | largeMiss => exact ⟨trivial, Or.inl ⟨_, _, rfl⟩⟩
  | largeReserve => exact ⟨trivial, Or.inr ⟨_, _, rfl⟩⟩
  | @refill c size m central r h =>
    cases r <;> cases hv <;> exact hpc'.elim
  | push _ _ _ _ _ hthread =>
    rcases hthread with rfl | ⟨-, rfl⟩ <;> cases hv
    exact hpc'.elim
  | stage _ hthread =>
    rcases hthread with rfl | rfl <;> cases hv
    exact hpc'.elim
  | unstageNone => exact (hresume hv).elim
  | publish => exact (hresume hv).elim
  | returnBatch => exact (hresume hv).elim
  | _ => cases hv <;> exact hpc'.elim

/-- Where a call that began in `w₀` is.  It has not taken anything from its client, or it frees a
block of its own allocator, or it is about to be refused. -/
def CallPhase (w₀ w : World ι κ FreeList Batch) (a : ι) (pc : Pc ι κ Seq) : Prop :=
  (w.live = w₀.live ∧ (pc.Unwritten → w.mem.byte = w₀.mem.byte)) ∨ pc.Frees a ∨
    (∃ entry requestedSize usableSize, pc = .releasing entry requestedSize usableSize ∧
      entry.alloc ≠ a) ∧ w.mem.byte = w₀.mem.byte

/-- What a call that began in `w₀` has written so far, and where it is. -/
structure Calling (w₀ w : World ι κ FreeList Batch) (s : World ι κ Seq Seq) (k : κ) : Prop where
  written : ∀ y, w.mem.byte y ≠ w₀.mem.byte y → w₀.MayWrite w y
  kept : (∀ lo hi, w₀.Block lo hi → w.Block lo hi) ∨
    w.mem.byte = w₀.mem.byte ∧ ∀ a pc, s.threads k = .busy a pc → ∃ size, pc = .report size
  phase : ∀ a pc, s.threads k = .busy a pc → CallPhase w₀ w a pc

variable [DecidableEq ι] [DecidableEq κ]

/-- A call begins without a change to any block. -/
theorem World.Block.begin {v : View ι κ FreeList Batch} {lo hi : Nat} (h : w.Block lo hi)
    {last : Option Outcome} (ht : w.threads k = .idle last) (hv : v.allocator = w.allocators a) :
    (w.update a k v).Block lo hi := by
  have hallocators : (w.update a k v).allocators = w.allocators := by
    show Function.update w.allocators a v.allocator = w.allocators
    rw [hv]
    exact Function.update_eq_self a w.allocators
  cases h with
  | small hslab hb => exact .small (by rw [hallocators]; exact hslab) hb
  | large hblock => exact .large (by rw [hallocators]; exact hblock)
  | @held j b size start blockSize hbusy =>
    have hj : j ≠ k := by
      rintro rfl
      rw [ht] at hbusy
      rcases hbusy with hbusy | hbusy <;> cases hbusy
    refine @World.Block.held _ _ _ _ _ j b size _ _ ?_
    rwa [World.update_threads_ne _ _ hj]

/-- The other live allocations have other blocks. -/
theorem Inv.notLive_eraseIdx (inv : Inv setup s) {i : Nat} {e : Live ι κ}
    (he : s.live[i]? = some e) :
    ∀ e' ∈ s.live.eraseIdx i, blockStartFromUserPtr e'.ptr ≠ blockStartFromUserPtr e.ptr := by
  obtain ⟨hi, rfl⟩ := List.getElem?_eq_some_iff.mp he
  have hperm : (s.live[i] :: s.live.eraseIdx i).Pairwise Live.Apart :=
    ((List.getElem_cons_eraseIdx_perm hi).pairwise_iff Live.Apart.symm).mpr inv.live_apart
  intro e' he' heq
  have hapart := (List.pairwise_cons.mp hperm).1 e' he'
  have ok := inv.memory.entry none _ (List.getElem_mem hi)
  have ok' := inv.memory.entry none e' (List.mem_of_mem_eraseIdx he')
  have h1 := ok.header_le
  have h2 := ok'.header_le
  unfold Live.Apart at hapart
  unfold blockStartFromUserPtr headerSize at hapart heq
  unfold headerSize at h1 h2
  omega

omit [DecidableEq ι] [DecidableEq κ] in
theorem Calling.of_same (hmem : w.mem = w₀.mem) (hlive : w.live = w₀.live)
    (hkept : ∀ lo hi, w₀.Block lo hi → w.Block lo hi) : Calling w₀ w s k where
  written := fun y hy => absurd (by rw [hmem]) hy
  kept := Or.inl hkept
  phase := fun _ _ _ => Or.inl ⟨hlive, fun _ => by rw [hmem]⟩

/-- The first step of a call marks at most the block that is freed. -/
theorem Refines.calling_start (h : Refines w s) (inv : Inv setup s) {action : Action ι κ}
    (haction : CallsOf k a w.live.length action) (hstep : w.step setup.debug action = some w')
    (h' : Refines w' s') : Calling w w' s' k := by
  cases haction with
  | allocate size =>
    have hcall : w.call k a (fun v => v.startAllocate a size) = some w' := hstep
    obtain ⟨⟨last, ht⟩, rfl | ⟨cache, rfl⟩⟩ := World.call_cases hcall
    · exact .of_same rfl rfl fun lo hi hblock => hblock.begin ht rfl
    · obtain ⟨hmem, hlive, halloc⟩ :=
        View.startAllocate_same (a := a) ((w.view a k).setCache cache) size
      exact .of_same hmem hlive fun lo hi hblock => hblock.begin ht halloc
  | drain =>
    have hcall : w.call k a (fun v => v.goto a (.flush SizeClass.all)) = some w' := hstep
    obtain ⟨⟨last, ht⟩, rfl | ⟨cache, rfl⟩⟩ := World.call_cases hcall
    · exact .of_same rfl rfl fun lo hi hblock => hblock.begin ht rfl
    · exact .of_same rfl rfl fun lo hi hblock => hblock.begin ht rfl
  | @deallocate i expectedSize hi =>
    obtain ⟨e, he, hcall⟩ := Option.bind_eq_some_iff.mp hstep
    have he' : s.live[i]? = some e := h.live_eq ▸ he
    obtain ⟨⟨last, ht⟩, rfl | ⟨cache, rfl⟩⟩ := World.call_cases hcall
    · exact .of_same rfl rfl fun lo hi hblock => hblock.begin ht rfl
    obtain ⟨v, hv⟩ : ∃ v, View.startFree setup.debug a ((w.view a k).setCache cache) e
      (w.live.eraseIdx i) expectedSize = v := ⟨_, rfl⟩
    have hstart : View.startFree setup.debug a ((w.view a k).setCache cache) e
      (((w.view a k).setCache cache).live.eraseIdx i) expectedSize = v := hv
    rw [hstart] at h' ⊢
    have hthread : ∀ {b : ι} {pc : Pc ι κ Seq}, s'.threads k = .busy b pc →
        v.thread = .busy b (pc.map Batch.ofSeq) := by
      intro b pc ht
      have hmap := h'.threads_eq k
      rwa [ht, World.update_threads_same] at hmap
    obtain ⟨halloc, ⟨hmem, hlive, -⟩ | ⟨hmem, hlive, c, owner, hroute⟩ |
      ⟨hmem, hlive, requested, usable, hreleasing⟩⟩ := View.startFree_cases hv
    · exact .of_same hmem hlive fun lo hi hblock => hblock.begin ht halloc
    · have hallocators : (w.update a k v).allocators = w.allocators := by
        show Function.update w.allocators a v.allocator = w.allocators
        rw [halloc]
        exact Function.update_eq_self a w.allocators
      obtain ⟨top, hblock, -⟩ := h.live_block inv (List.mem_of_getElem? he') hallocators
      constructor
      · intro y hy
        refine ⟨_, top, hblock, ?_, Or.inr fun e' hmem' => ?_⟩
        · by_contra hout
          exact hy ((congrFun (congrArg Mem.byte hmem) y).trans
            ((writesIn_mark setup.debug w.mem _).byte y hout))
        · have hmem' : e' ∈ v.live := hmem'
          rw [hlive, h.live_eq] at hmem'
          exact inv.notLive_eraseIdx he' e' hmem'
      · exact Or.inl fun lo hi hblock => hblock.begin ht halloc
      · intro b pc ht
        have hpc := (hthread ht).symm.trans hroute
        cases pc <;> cases hpc
        exact Or.inr (Or.inl trivial)
    · constructor
      · exact fun y hy => absurd (congrFun (congrArg Mem.byte hmem) y) hy
      · exact Or.inl fun lo hi hblock => hblock.begin ht halloc
      · intro b pc ht
        have hpc := (hthread ht).symm.trans hreleasing
        cases pc <;> cases hpc
        by_cases ha : e.alloc = a
        · exact Or.inr (Or.inl ha)
        · exact Or.inr (Or.inr ⟨⟨_, _, _, rfl, ha⟩, congrArg Mem.byte hmem⟩)

/-- A step of the code that writes nothing over sequences, by its control point. -/
theorem Refines.run_still (h : Refines w s) {pc : Pc ι κ Seq} {v : View ι κ Seq Seq}
    (ht : s.threads k = .busy a pc) {advised : Bool × Bool}
    (hstep : w.step setup.debug (.run k advised) = some w') (h' : Refines w' (s.update a k v))
    (hpc : pc.Still v.thread) : w'.mem = w.mem := by
  have ht' : w.threads k = .busy a (pc.map Batch.ofSeq) := by
    rw [h.threads_eq, ht]
    rfl
  have hthread := h'.threads_eq k
  simp only [World.step, ht'] at hstep
  obtain ⟨v', hv', rfl⟩ := Option.map_eq_some_iff.mp hstep
  rw [World.update_threads_same, World.update_threads_same] at hthread
  exact (View.next_same hv' (hthread ▸ hpc.map Batch.ofSeq) : v'.mem = (w.view a k).mem)

/-- A step loses no block, unless it finds a large one unfit before anything is written. -/
theorem Refines.run_blocks (h : Refines w s) {pc : Pc ι κ Seq} {v : View ι κ Seq Seq}
    (ht : s.threads k = .busy a pc) (htrans : Transition setup.debug s a k pc v)
    (h' : Refines w' (s.update a k v)) :
    (∀ lo hi, w.Block lo hi → w'.Block lo hi) ∨
      pc.Unwritten ∧ pc.Still v.thread ∧ ∃ size, v.thread = .busy a (.report size) := by
  have hmono : (∀ size start blockSize, pc = .largeGot size start blockSize →
      v.thread = .busy a (.largeWritten size start blockSize)) →
        ∀ lo hi, w.Block lo hi → w'.Block lo hi :=
    fun hpc lo hi hblock => h'.block_iff.mpr (htrans.block_mono ht hpc (h.block_iff.mp hblock))
  cases htrans with
  | largeWrite => exact Or.inl (hmono fun _ _ _ heq => by
      obtain ⟨rfl, rfl, rfl⟩ := Pc.largeGot.inj heq
      rfl)
  | largeUnwritable => exact Or.inr ⟨trivial, .unfit, _, rfl⟩
  | takeSlab hpc =>
    refine Or.inl (hmono fun _ _ _ heq => ?_)
    rcases hpc with hpc | hpc <;> cases hpc.symm.trans heq
  | _ => exact Or.inl (hmono fun _ _ _ heq => by cases heq)

/-- Each further step writes to blocks that are not live, and takes none from a client. -/
theorem Refines.calling_step (h : Refines w s) (inv : Inv setup s) (hcalling : Calling w₀ w s k)
    {advised : Bool × Bool} (hstep : w.step setup.debug (.run k advised) = some w')
    (hS : s.step setup.debug (.run k advised) = some s') (h' : Refines w' s') :
    Calling w₀ w' s' k := by
  obtain ⟨a, pc, v, ht, rfl, -, htrans⟩ := inv.run_cases hS
  have hphase := hcalling.phase a pc ht
  have hlive : w'.live = v.live := h'.live_eq
  have hstill : pc.Still v.thread → w'.mem = w.mem := h.run_still ht hstep h'
  have hblocks := h.run_blocks ht htrans h'
  -- what is unwritten so far is so in each phase that an allocation can be in
  have hunwritten : pc.Unwritten → w.mem.byte = w₀.mem.byte := by
    intro hpc
    rcases hphase with ⟨-, hunwritten⟩ | hfrees | ⟨-, hbytes⟩
    · exact hunwritten hpc
    · cases pc <;> first | exact hpc.elim | exact hfrees.elim
    · exact hbytes
  -- what has changed by now was written by this step, or before it, in a header that is not live
  have hchanged : ∀ y, w'.mem.byte y ≠ w₀.mem.byte y →
      ∃ lo hi, w'.Block lo hi ∧ inHeader lo y ∧ (w₀.NotLive lo ∨ w.NotLive lo) := by
    intro y hy
    by_cases hnew : w'.mem.byte y = w.mem.byte y
    · rw [hnew] at hy
      obtain ⟨lo, hi, hblock, hin, hnot⟩ := hcalling.written y hy
      rcases hblocks with hkept | ⟨hpc, -, -⟩
      · exact ⟨lo, hi, hkept lo hi hblock, hin, hnot⟩
      · exact absurd (congrFun (hunwritten hpc) y) hy
    · obtain ⟨lo, hi, hblock, hin, hnot⟩ := h.run_written inv ht hstep hnew
      exact ⟨lo, hi, hblock, hin, Or.inr hnot⟩
  have hkept : (∀ lo hi, w₀.Block lo hi → w'.Block lo hi) ∨ w'.mem.byte = w₀.mem.byte ∧
      ∀ b pc', (s.update a k v).threads k = .busy b pc' → ∃ size, pc' = .report size := by
    rw [World.update_threads_same]
    rcases hcalling.kept with hkept | ⟨hbytes, hreport⟩
    · rcases hblocks with hnext | ⟨hpc, hpcStill, size, hthread⟩
      · exact Or.inl fun lo hi hblock => hnext lo hi (hkept lo hi hblock)
      · refine Or.inr ⟨by rw [hstill hpcStill, hunwritten hpc], fun b pc' hbusy => ?_⟩
        rw [hthread] at hbusy
        exact ⟨size, (Thread.busy.inj hbusy).2.symm⟩
    · obtain ⟨size, rfl⟩ := hreport a pc ht
      refine Or.inr ⟨by rw [hstill .report, hbytes], fun b pc' hbusy => ?_⟩
      cases htrans with
      | report => cases hbusy
      | takeSlab hpc => rcases hpc with hpc | hpc <;> cases hpc
  refine ⟨fun y hy => ?_, hkept, fun b pc' hbusy => ?_⟩
  · obtain ⟨lo, hi, hblock, hin, hnot⟩ := hchanged y hy
    rcases hphase with ⟨hown, -⟩ | hfrees | ⟨⟨entry, requested, usable, rfl, -⟩, hbytes⟩
    · refine ⟨lo, hi, hblock, hin, Or.inl (hnot.elim id fun hnot e he => ?_)⟩
      exact hnot e (hown ▸ he)
    · refine ⟨lo, hi, hblock, hin, hnot.imp_right fun hnot e he => hnot e ?_⟩
      rwa [hlive, htrans.live_of_frees hfrees, ← h.live_eq] at he
    · rw [hstill .releasing, hbytes] at hy
      exact absurd rfl hy
  · rw [World.update_threads_same] at hbusy
    rcases hphase with ⟨hown, -⟩ | hfrees | ⟨⟨entry, requested, usable, rfl, ha⟩, hbytes⟩
    · refine Or.inl ⟨?_, fun hpc' => ?_⟩
      · rw [hlive, htrans.live_of_busy hbusy, ← h.live_eq, hown]
      · obtain ⟨hpc, hlarge⟩ := htrans.unwritten hbusy hpc'
        have hmem : w'.mem = w.mem := by
          rcases hlarge with ⟨size, blockSize, rfl⟩ | ⟨size, blockSize, rfl⟩
          · exact hstill .large
          · exact hstill .largeCarve
        rw [hmem, hunwritten hpc]
    · have hkept : v.thread.Frees := frees_kept setup k inv ht hfrees htrans
      rw [hbusy] at hkept
      exact Or.inr (Or.inl hkept)
    · cases htrans with
      | release ha' => exact absurd ha' ha
      | refuse => cases hbusy
      | takeSlab hpc => rcases hpc with hpc | hpc <;> cases hpc

/-- A call that runs alone, from its first step on. -/
theorem Setup.Reachable.calling (h : setup.Reachable w) {action : Action ι κ}
    (haction : CallsOf k a w.live.length action) {last : Option Outcome}
    (ht : w.threads k = .idle last) :
    w.Calls setup.debug k action fun w' => ∃ s', Refines w' s' ∧ Inv setup s' ∧
      Calling w w' s' k := by
  obtain ⟨s, hs, hrefines⟩ := h.refines
  obtain ⟨start, hcall, -⟩ : ∃ start, w.step setup.debug action = w.call k a start ∧
    ∀ cache, (start ((w.view a k).setCache cache)).thread.Completes := World.step_call haction
  obtain ⟨w₁, hw₁⟩ : ∃ w₁, w.step setup.debug action = some w₁ := by
    rw [hcall]
    simp only [World.call, ht]
    split <;> exact ⟨_, rfl⟩
  obtain ⟨s₁, hs₁, hrefines₁⟩ := hrefines.forward hs.inv hw₁
  have hstart := hrefines.calling_start hs.inv haction hw₁ hrefines₁
  refine ⟨w₁, hw₁, ?_⟩
  refine World.Ends.mono (TotalRuns.Ends.keep (I := fun w' => ∃ s', Refines w' s' ∧ Inv setup s' ∧
    Calling w w' s' k) (h.step action hw₁).call_ends ?_ ⟨s₁, hrefines₁, hs.inv.step hs₁, hstart⟩)
    fun w' hend => hend.1
  rintro advised w₂ w₃ ⟨s₂, hrefines₂, inv₂, hcalling⟩ hstep
  obtain ⟨s₃, hs₃, hrefines₃⟩ := hrefines₂.forward inv₂ hstep
  exact ⟨s₃, hrefines₃, inv₂.step hs₃, hrefines₂.calling_step inv₂ hcalling hstep hs₃ hrefines₃⟩

/-- A call that runs alone changes no other bytes than a step may. -/
theorem Setup.Reachable.call_framed (h : setup.Reachable w) {action : Action ι κ}
    {last : Option Outcome} (haction : CallsOf k a w.live.length action)
    (ht : w.threads k = .idle last) : w.Calls setup.debug k action fun w' => w.Framed w' := by
  refine World.Calls.mono (h.calling haction ht) fun w' hend => ?_
  obtain ⟨s', hrefines', inv', hcalling⟩ := hend
  exact hrefines'.framed_of_written inv' hcalling.written (hcalling.kept.imp_right And.left)

/-- The memory frame, of every step of a call among others, and of every call that runs alone. -/
theorem Setup.Reachable.framed (h : setup.Reachable w) :
    (∀ k a action w', (CallsOf k a w.live.length action ∨ ∃ advised, action = .run k advised) →
      w.step setup.debug action = some w' → w.Framed w') ∧
    ∀ k a action last, CallsOf k a w.live.length action → w.threads k = .idle last →
      w.Calls setup.debug k action fun w' => w.Framed w' := by
  obtain ⟨s, hs, hrefines⟩ := h.refines
  constructor
  · intro k a action w' haction hstep
    obtain ⟨s', hs', hrefines'⟩ := hrefines.forward hs.inv hstep
    have inv' := hs.inv.step hs'
    rcases haction with haction | ⟨advised, rfl⟩
    · have hcalling := hrefines.calling_start hs.inv haction hstep hrefines'
      exact hrefines'.framed_of_written inv' hcalling.written (hcalling.kept.imp_right And.left)
    · obtain ⟨b, pc, v, ht, rfl, -, htrans⟩ := hs.inv.run_cases hs'
      refine hrefines'.framed_of_written inv' (fun y hy => ?_) ?_
      · obtain ⟨lo, hi, hblock, hin, hnot⟩ := hrefines.run_written hs.inv ht hstep hy
        exact ⟨lo, hi, hblock, hin, Or.inl hnot⟩
      · refine (hrefines.run_blocks ht htrans hrefines').imp_right fun hend => ?_
        rw [hrefines.run_still ht hstep hrefines' hend.2.1]
  · intro k a action last haction ht
    exact h.call_framed haction ht

/-- Cache 1 frees an allocation of cache 0. -/
theorem framed_sample : sampleWorld.Calls true 1 (.deallocate 1 () 0 none)
    fun w' => sampleWorld.Framed w' := by
  obtain ⟨last, ht⟩ : ∃ last, sampleWorld.threads 1 = .idle last := ⟨_, by rfl⟩
  exact sampleWorld_reachable.framed.2 1 () _ last (.deallocate none (by decide +kernel)) ht

end Calls

end Orthotope
