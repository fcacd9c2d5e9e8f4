import Orthotope.Ledger

/-! What one step of a call can do, over plain sequences.  `Transition` has a case for each way a
step can go, with the effect of the operation it makes; under the invariant every step is one of
these (`next_spec`), so none of them is undefined or panics. -/

namespace Orthotope

open ByteMemory Ownership

variable {ι κ : Type}

/-! ### What the ledger says about the blocks at hand -/

section Reading

variable {setup : Setup ι κ} {w : World ι κ Seq Seq} {a : ι} {k : κ} {c : SizeClass}

theorem nodup_of_pairwise {β : Type} {R : β → β → Prop} {s : Multiset β} (h : s.Pairwise R)
    (hself : ∀ x ∈ s, ¬R x x) : s.Nodup := by
  obtain ⟨l, rfl, hl⟩ := h
  rw [Multiset.coe_nodup]
  refine hl.imp_of_mem fun {x y} hx _ hxy hne => ?_
  subst hne
  exact hself x (Multiset.mem_coe.mpr hx) hxy

theorem InArena.not_apart {x : Cell ι} (h : InArena setup w x) : ¬x.Apart x := by
  have := h.lo_lt
  rintro (h | h) <;> omega

theorem smallCells_le_holdings {blocks : List Nat} {pc : Pc ι κ Seq} {v : View ι κ Seq Seq}
    (hv : v.thread = .busy a pc) (hpc : pc.blocks = some (c, blocks)) :
    setup.smallCells a c (v.stored c + (blocks : Multiset Nat)) ≤ v.holdings setup a c := by
  have hcells : setup.smallCells a c (blocks : Multiset Nat) ≤ v.thread.cells setup := by
    simp only [hv, Thread.cells, Pc.cells, hpc]
    exact Multiset.le_add_right _ _
  rw [Setup.smallCells_add, View.holdings, View.settled]
  refine add_le_add ?_ hcells
  rw [add_assoc, add_comm]
  exact (Multiset.le_add_right _ _).trans (Multiset.le_add_right _ _)

/-- A small block that is held anywhere is a block of a registered slab of its class. -/
theorem Ledger.slab_of_mem (ledger : Ledger setup w) {p : Place ι κ} {b : Nat}
    (h : setup.smallCell a c b ∈ w.own setup p) :
    ∃ slab ∈ ((w.allocators a).central.lists c).slabs, b ∈ slab.blocks := by
  obtain ⟨d, s, hs, b', hb', heq⟩ :=
    (ledger.covered (setup.smallCell a c b) rfl).mp ⟨p, h⟩
  have hd : c = d := by simpa [Setup.smallCell] using congrArg Cell.cls heq
  have hb : b = b' := congrArg Cell.lo heq
  subst hd hb
  obtain ⟨slab, hslab, rfl⟩ := List.mem_map.mp hs
  exact ⟨slab, hslab, hb'⟩

theorem mem_own_hand {blocks : List Nat} {pc : Pc ι κ Seq} (ht : w.threads k = .busy a pc)
    (hpc : pc.blocks = some (c, blocks)) {b : Nat} (hb : b ∈ blocks) :
    setup.smallCell a c b ∈ w.own setup (.hand k) := by
  simp only [World.own, Thread.cells, ht, Pc.cells, hpc]
  exact Multiset.mem_add.mpr (Or.inl (setup.smallCell_mem (Multiset.mem_coe.mpr hb)))

theorem Parts.eq_of_start (parts : Parts setup w) {s s' : Nat × Nat × Nat × Nat}
    (hs : s ∈ ((w.allocators a).central.lists c).shapes)
    (hs' : s' ∈ ((w.allocators a).central.lists c).shapes) (h : s.1 = s'.1) : s = s' := by
  have inv := ((parts.allocator a).central c).pool
  obtain ⟨slab, hslab, rfl⟩ := List.mem_map.mp hs
  obtain ⟨slab', hslab', rfl⟩ := List.mem_map.mp hs'
  obtain ⟨i, hi⟩ := List.mem_iff_getElem?.mp hslab
  obtain ⟨j, hj⟩ := List.mem_iff_getElem?.mp hslab'
  have hend : ∀ slab ∈ ((w.allocators a).central.lists c).slabs, slab.start < slab.endAddr := by
    intro slab hslab
    have ok := inv.slab_ok slab hslab
    have := Nat.mul_pos ok.blockSize_pos ok.capacity_pos
    have := ok.end_eq
    omega
  have h1 := hend slab hslab
  have h2 := hend slab' hslab'
  have hstart : slab.start = slab'.start := h
  have hij : i = j := inv.eq_of_overlap hi hj (Nat.le_refl _) h1 (by omega) (by omega)
  subst hij
  rw [Option.some.inj (hi.symm.trans hj)]

variable [DecidableEq ι] [DecidableEq κ]

theorem Ledger.holdings_nodup (ledger : Ledger setup w) (howner : (w.caches k).owner = some a) :
    ((w.view a k).holdings setup a c).Nodup := by
  have hpw := ledger.apart (touched k a c)
  rw [sum_touched howner] at hpw
  refine nodup_of_pairwise hpw fun x hx => ?_
  obtain ⟨p, _, hp⟩ := (mem_holdings howner).mp hx
  exact (ledger.inArena p x hp).not_apart

/-- The stored blocks of a class and those in the hands of a call are all different. -/
theorem Ledger.blocks_nodup (ledger : Ledger setup w) (howner : (w.caches k).owner = some a)
    {blocks : List Nat} {pc : Pc ι κ Seq} (ht : w.threads k = .busy a pc)
    (hpc : pc.blocks = some (c, blocks)) :
    ((w.view a k).stored c + (blocks : Multiset Nat)).Nodup :=
  Multiset.Nodup.of_map _ (Multiset.nodup_of_le
    (smallCells_le_holdings (v := w.view a k) ht hpc) (ledger.holdings_nodup howner))

theorem Ledger.stored_nodup (ledger : Ledger setup w) (howner : (w.caches k).owner = some a) :
    ((w.view a k).stored c).Nodup := by
  refine Multiset.Nodup.of_map (setup.smallCell a c)
    (Multiset.nodup_of_le ?_ (ledger.holdings_nodup (c := c) howner))
  rw [View.holdings, View.settled, add_assoc, add_assoc, add_left_comm]
  exact Multiset.le_add_right _ _

theorem Ledger.inboxOk (ledger : Ledger setup w) (howner : (w.caches k).owner = some a) :
    (w.allocators a).central.InboxOk c where
  mem := fun b hb => ledger.slab_of_mem (p := .inbox a c) (setup.smallCell_mem hb)
  nodup := by
    refine Multiset.nodup_of_le ?_ (ledger.stored_nodup (c := c) howner)
    rw [View.stored, add_comm, add_assoc]
    exact Multiset.le_add_left _ _

/-- A cache that is handed a slab has no block of it, whether it knows the slab or not. -/
theorem Inv.used_up (inv : Inv setup w) (howner : (w.caches k).owner = some a)
    {start blockSize capacity : Nat} {pc : Pc ι κ Seq} (ht : w.threads k = .busy a pc)
    (hpc : pc.blocks = some (c, slabBlocks start blockSize capacity))
    (hshape : (start, start + blockSize * capacity, blockSize, capacity) ∈
      ((w.allocators a).central.lists c).shapes) :
    ∀ slab ∈ ((w.caches k).classes c).slabs, slab.start = start →
      slab.shape = (start, start + blockSize * capacity, blockSize, capacity) ∧
        slab.free = [] ∧ slab.freshBlocks = [] := by
  intro slab hslab hstart
  have heq : slab.shape = (start, start + blockSize * capacity, blockSize, capacity) :=
    inv.parts.eq_of_start (inv.parts.home k a howner c _ (List.mem_map_of_mem hslab)) hshape hstart
  have hblocks : slab.blocks = slabBlocks start blockSize capacity := by
    have h1 : slab.blockSize = blockSize := congrArg (fun s => s.2.2.1) heq
    have h2 : slab.capacity = capacity := congrArg (fun s => s.2.2.2) heq
    rw [LocalSlab.blocks, hstart, h1, h2]
  have hnd := inv.ledger.blocks_nodup howner ht hpc
  -- no block of the slab is stored, since the call has them all
  have hout : ∀ b ∈ ((w.caches k).classes c).bag, b ∉ slab.blocks := by
    intro b hb hmem
    refine Multiset.disjoint_left.mp (Multiset.nodup_add.mp hnd).2.2 ?_
      (Multiset.mem_coe.mpr (hblocks ▸ hmem))
    exact Multiset.mem_of_le
      (((Multiset.le_add_right _ _).trans (Multiset.le_add_right _ _)).trans
        (Multiset.le_add_right _ _)) hb
  have ok := ((inv.parts.cache k).class_inv c).slab_ok slab hslab
  refine ⟨heq, List.eq_nil_iff_forall_not_mem.mpr fun b hb => ?_,
    List.eq_nil_iff_forall_not_mem.mpr fun b hb => ?_⟩
  · refine hout b ?_ (ok.free_mem b hb)
    have hfree : b ∈ ((w.caches k).classes c).freeBag :=
      BagSum.mem_total.mpr ⟨slab, hslab, Multiset.mem_coe.mpr hb⟩
    simp [LocalClassCache.bag, LocalClassCache.ownedBag, hfree]
  · refine hout b ?_ (List.mem_of_mem_drop hb)
    have hfresh : b ∈ ((w.caches k).classes c).freshBag :=
      BagSum.mem_total.mpr ⟨slab, hslab, Multiset.mem_coe.mpr hb⟩
    simp [LocalClassCache.bag, hfresh]

/-- A span that no block of a slab meets lies before or behind the slab. -/
theorem slab_apart {start blockSize n lo hi : Nat} (hlt : lo < hi) (hn : 0 < n)
    (h : ∀ b ∈ slabBlocks start blockSize n, b + blockSize ≤ lo ∨ hi ≤ b) :
    start + blockSize * n ≤ lo ∨ hi ≤ start := by
  have h' : ∀ i < n, start + i * blockSize + blockSize ≤ lo ∨ hi ≤ start + i * blockSize :=
    fun i hi => h _ (mem_slabBlocks.mpr ⟨i, hi, rfl⟩)
  rcases h' 0 hn with h0 | h0
  · -- if a block lies before the span, then so does the next one
    have hall : ∀ i < n, start + i * blockSize + blockSize ≤ lo := by
      intro i
      induction i with
      | zero => exact fun _ => h0
      | succ i ih =>
        intro hi
        have hprev := ih (by omega)
        have hnext := h' (i + 1) hi
        rw [Nat.succ_mul] at hnext ⊢
        omega
    have hlast := hall (n - 1) (by omega)
    obtain ⟨m, rfl⟩ : ∃ m, n = m + 1 := ⟨n - 1, by omega⟩
    rw [Nat.mul_comm, Nat.succ_mul]
    simp only [Nat.add_sub_cancel] at hlast
    exact Or.inl (by omega)
  · exact Or.inr (by omega)

omit [DecidableEq ι] [DecidableEq κ] in
theorem mem_own_extent (setup : Setup ι κ) {block : FreeLargeBlock} {pc : Pc ι κ Seq}
    (ht : w.threads k = .busy a pc)
    (hpc : pc.extent = some block) : largeCell a block ∈ w.own setup (.hand k) := by
  simp only [World.own, Thread.cells, ht, Pc.cells, hpc]
  exact Multiset.mem_add.mpr (Or.inr (Multiset.mem_singleton_self _))

/-- The extent in the hands of a call is disjoint from every registered slab. -/
theorem Inv.extent_apart (inv : Inv setup w) {block : FreeLargeBlock} {pc : Pc ι κ Seq}
    (ht : w.threads k = .busy a pc) (hpc : pc.extent = some block) (hblocks : pc.blocks = none) :
    ∀ slab ∈ ((w.allocators a).central.lists c).slabs,
      slab.endAddr ≤ block.blockAddr ∨ block.blockAddr + block.blockSize ≤ slab.start := by
  intro slab hslab
  have ok := ((inv.parts.allocator a).central c).pool.slab_ok slab hslab
  have hext := mem_own_extent setup ht hpc
  have hsize : slab.blockSize = (setup.config a).classBlockSize c :=
    (inv.parts.allocator a).blockSize_eq c _ (List.mem_map_of_mem hslab)
  rw [ok.end_eq]
  refine slab_apart (inv.ledger.inArena _ _ hext).lo_lt ok.capacity_pos fun b hb => ?_
  obtain ⟨p, hp⟩ := (inv.ledger.covered (setup.smallCell a c b) rfl).mpr
    ⟨c, slab.shape, List.mem_map_of_mem hslab, b, hb, rfl⟩
  have hne : p ≠ .hand k := by
    rintro rfl
    simp [World.own, Thread.cells, ht, Pc.cells, hpc, hblocks, Setup.smallCell, largeCell] at hp
  have := inv.ledger.apart.of_ne hne hp hext
  rw [hsize]
  exact this

/-- The extent in the hands of a call is not registered as live. -/
theorem Inv.extent_unregistered (inv : Inv setup w) {block : FreeLargeBlock} {pc : Pc ι κ Seq}
    (ht : w.threads k = .busy a pc) (hpc : pc.extent = some block) :
    ∀ e ∈ (w.allocators a).large.live, e.1 ≠ block.blockAddr + headerSize := by
  intro e he hkey
  have hext := mem_own_extent setup ht hpc
  have hlive : largeCell a (LargeObjectState.recordBlock e.2) ∈ w.own setup (.largeLive a) :=
    Multiset.mem_map_of_mem _ (Multiset.mem_coe.mpr (List.mem_map_of_mem he))
  have hok := (inv.parts.allocator a).large.live_ok e he
  have h1 := (inv.ledger.inArena _ _ hext).lo_lt
  have h2 := (inv.ledger.inArena _ _ hlive).lo_lt
  have h3 : e.2.blockAddr = block.blockAddr := by
    have := hok.key
    omega
  have := inv.ledger.apart.of_ne (by simp) hext hlive
  simp only [Cell.Apart, largeCell, LargeObjectState.recordBlock] at this h1 h2
  omega

omit [DecidableEq ι] [DecidableEq κ] in
/-- The header that a release has read agrees with the record of the allocation. -/
theorem Inv.releasing_record (inv : Inv setup w) {entry : Live ι κ} {requested usable : Nat}
    (ht : w.threads k = .busy a (.releasing entry requested usable)) :
    ∃ record, (entry.ptr, record) ∈ (w.allocators entry.alloc).large.live ∧
      record.requestedSize = requested ∧ record.usableSize = usable ∧ requested = entry.size := by
  have hsize : SizeClass.fromRequest entry.size = none := (inv.parts.thread k a _ ht).2
  have hmem : entry ∈ w.entries (some k) := by simp [World.entries, Thread.entries, Pc.entry, ht]
  obtain ⟨record, hrecord, hreq⟩ := inv.tokens.record _ entry hmem hsize
  have hfields := ((inv.memory.entry _ entry hmem).large hsize record hrecord).fields_eq
  obtain ⟨h1, h2⟩ := inv.memory.pc k a _ ht
  rw [hfields] at h1 h2
  exact ⟨record, hrecord, hreq.trans h1, h2, h1.symm⟩

omit [DecidableEq κ] in
/-- A pointer is registered by one allocator at most. -/
theorem Inv.registered_once (inv : Inv setup w) {b : ι} {ptr : Nat}
    {record record' : LargeAllocationRecord} (h : (ptr, record) ∈ (w.allocators a).large.live)
    (h' : (ptr, record') ∈ (w.allocators b).large.live) : a = b := by
  by_contra hne
  have hmem : ∀ {d : ι} {r : LargeAllocationRecord}, (ptr, r) ∈ (w.allocators d).large.live →
      InArena setup w (largeCell d (LargeObjectState.recordBlock r)) ∧
        ptr = r.blockAddr + headerSize := by
    intro d r hr
    exact ⟨inv.ledger.inArena (.largeLive d) _
      (Multiset.mem_map_of_mem _ (Multiset.mem_coe.mpr (List.mem_map_of_mem hr))),
      ((inv.parts.allocator d).large.live_ok _ hr).key⟩
  obtain ⟨hin, hkey⟩ := hmem h
  obtain ⟨hin', hkey'⟩ := hmem h'
  have h1 := hin.base_le
  have h2 := hin.hi_le
  have h3 := hin'.base_le
  have h4 := hin'.hi_le
  have h5 := hin.lo_lt
  have h6 := hin'.lo_lt
  have h7 := (inv.parts.allocator a).next_le
  have h8 := (inv.parts.allocator b).next_le
  have h9 := setup.arenas_disjoint hne
  simp only [largeCell, LargeObjectState.recordBlock] at h1 h2 h3 h4 h5 h6
  omega

end Reading

/-! ### The steps -/

/-- The control point that follows a refill. -/
def CentralRefill.pc (c : SizeClass) (size : Nat) : CentralRefill Seq → Pc ι κ Seq
  | .empty => .carve c size
  | .batch blocks => .gotBatch c size blocks
  | .slab start blockSize capacity => .gotSlab c size start blockSize capacity

/-- The header write of `allocate_large`. -/
def writeLarge (m : Mem) (start size blockSize : Nat) : Mem :=
  writeEncodedFields m start largeTag largeClassSentinel size (blockSize - headerSize) 0

/-- The ways in which a step of the call of `a` on `k` can go. -/
inductive Transition (debug : Bool) (w : World ι κ Seq Seq) (a : ι) (k : κ) :
    Pc ι κ Seq → View ι κ Seq Seq → Prop
  | refill {c : SizeClass} {size : Nat} {m : Mem} {central : CentralPool Seq}
      {r : CentralRefill Seq}
      (h : CentralPool.Refilled c w.mem m (w.allocators a).central central r) :
      Transition debug w a k (.refill c size)
        ((((w.view a k).setMem m).setCentral central).goto a (r.pc c size))
  | takeBatch {c : SizeClass} {size : Nat} {batch : Seq} {class_ : LocalClassCache Seq}
      (inv : class_.Inv) (shapes : class_.shapes = ((w.caches k).classes c).shapes)
      (owned : class_.ownedBag = ((w.caches k).classes c).ownedBag)
      (fresh : class_.freshBag = ((w.caches k).classes c).freshBag)
      (shared : class_.sharedBag = (batch : Multiset Nat) + ((w.caches k).classes c).sharedBag)
      (hbatch : batch ≠ []) :
      Transition debug w a k (.gotBatch c size batch)
        (((w.view a k).setCache ((w.caches k).setClass c class_)).goto a (.pop c size))
  | takeSlab {c : SizeClass} {size start blockSize capacity : Nat} {class_ : LocalClassCache Seq}
      {pc : Pc ι κ Seq}
      (hpc : pc = .gotSlab c size start blockSize capacity ∨
        pc = .registered c size start blockSize capacity) (inv : class_.Inv)
      (shapes : ∀ s ∈ class_.shapes, s ∈ ((w.caches k).classes c).shapes ∨
        s = (start, start + blockSize * capacity, blockSize, capacity))
      (owned : class_.ownedBag = ((w.caches k).classes c).ownedBag)
      (fresh : class_.freshBag = ((w.caches k).classes c).freshBag +
        (slabBlocks start blockSize capacity : Multiset Nat))
      (shared : class_.sharedBag = ((w.caches k).classes c).sharedBag) (hcap : 0 < capacity) :
      Transition debug w a k pc
        (((w.view a k).setCache ((w.caches k).setClass c class_)).goto a (.pop c size))
  | carve {c : SizeClass} {size n : Nat} {span : ReservedSpan} {arena : Arena}
      (h : Arena.Reserves (w.allocators a).arena span arena) (hn : 0 < n)
      (hsize : span.size = n * (w.allocators a).config.classBlockSize c) :
      Transition debug w a k (.carve c size)
        (((w.view a k).setArena arena).goto a (.carved c size span))
  | carveNone {c : SizeClass} {size : Nat} :
      Transition debug w a k (.carve c size) ((w.view a k).goto a (.report size))
  | carveFail {c : SizeClass} {size : Nat} {e : AllocError} :
      Transition debug w a k (.carve c size) ((w.view a k).finish (.allocError e))
  | register {c : SizeClass} {size n : Nat} {span : ReservedSpan} {m : Mem}
      {central : CentralPool Seq} (hn : 0 < n)
      (hsize : span.size = n * (w.allocators a).config.classBlockSize c)
      (h : CentralPool.Registered c w.mem m (w.allocators a).central central span.start
        ((w.allocators a).config.classBlockSize c) n) :
      Transition debug w a k (.carved c size span)
        ((((w.view a k).setMem m).setCentral central).goto a
          (.registered c size span.start ((w.allocators a).config.classBlockSize c) n))
  | pop {c : SizeClass} {size block : Nat} {reuse : BlockReuse} {class_ : LocalClassCache Seq}
      (inv : class_.Inv) (shapes : class_.shapes = ((w.caches k).classes c).shapes)
      (takes : LocalClassCache.Takes reuse block ((w.caches k).classes c) class_) :
      Transition debug w a k (.pop c size)
        (((w.view a k).setCache ((w.caches k).setClass c class_)).goto a
          (.popped c size block reuse))
  | give {c : SizeClass} {size block : Nat} {reuse : BlockReuse} :
      Transition debug w a k (.popped c size block reuse)
        ((((w.view a k).setMem
          (View.writeHeader debug w.mem c size block (w.caches k).cacheId reuse)).addLive
            ⟨a, k, userPtrFromBlockStart block, size, fun _ => none⟩).finish
              (.allocated (userPtrFromBlockStart block)))
  | largeReuse {size blockSize : Nat} {block : FreeLargeBlock} {large : LargeObjectState}
      (inv : large.Inv) (hlive : large.live = (w.allocators a).large.live)
      (hfree : (w.allocators a).large.freeBag = block ::ₘ large.freeBag)
      (hle : blockSize ≤ block.blockSize) :
      Transition debug w a k (.large size blockSize)
        (((w.view a k).setLarge large).goto a (.largeGot size block.blockAddr block.blockSize))
  | largeMiss {size blockSize : Nat}
      (h : ∀ block ∈ (w.allocators a).large.freeBag, block.blockSize < blockSize) :
      Transition debug w a k (.large size blockSize)
        ((w.view a k).goto a (.largeCarve size blockSize))
  | largeReserve {size blockSize start : Nat} {arena : Arena}
      (h : Arena.Reserves (w.allocators a).arena ⟨start, blockSize⟩ arena) :
      Transition debug w a k (.largeCarve size blockSize)
        (((w.view a k).setArena arena).goto a (.largeGot size start blockSize))
  | largeFail {size blockSize : Nat} {e : AllocError} :
      Transition debug w a k (.largeCarve size blockSize) ((w.view a k).finish (.allocError e))
  | largeWrite {size start blockSize : Nat} (h : blockSize - headerSize < 2 ^ 32) :
      Transition debug w a k (.largeGot size start blockSize)
        (((w.view a k).setMem (writeLarge w.mem start size blockSize)).goto a
          (.largeWritten size start blockSize))
  | largeUnwritable {size start blockSize : Nat} (h : 2 ^ 32 ≤ blockSize - headerSize) :
      Transition debug w a k (.largeGot size start blockSize)
        ((w.view a k).goto a (.report size))
  | record {size start blockSize : Nat} {large : LargeObjectState} (inv : large.Inv)
      (hlive : large.live = (start + headerSize,
        ⟨start, blockSize, size, blockSize - headerSize⟩) :: (w.allocators a).large.live)
      (hfree : large.freeBag = (w.allocators a).large.freeBag) :
      Transition debug w a k (.largeWritten size start blockSize)
        ((((w.view a k).setLarge large).addLive
          ⟨a, k, userPtrFromBlockStart start, size, fun _ => none⟩).finish
            (.allocated (userPtrFromBlockStart start)))
  | report {size : Nat} : Transition debug w a k (.report size)
      ((w.view a k).finish (.allocError (.outOfMemory size (w.allocators a).arena.remaining)))
  | push {c : SizeClass} {block : Nat} {class_ : LocalClassCache Seq} {spilled : Multiset Nat}
      {thread : Thread ι κ Seq} (inv : class_.Inv)
      (shapes : class_.shapes = ((w.caches k).classes c).shapes)
      (fresh : class_.freshBag = ((w.caches k).classes c).freshBag)
      (owned : class_.ownedBag + spilled = block ::ₘ ((w.caches k).classes c).ownedBag)
      (shared : class_.sharedBag = spilled + ((w.caches k).classes c).sharedBag)
      (hthread : thread = .idle (some .freed) ∨ class_.totalLen ≠ 0 ∧
        thread = .busy a (.excess c ((w.caches k).classConfig c).drainCount .done)) :
      Transition debug w a k (.route c block (w.caches k).cacheId)
        { (w.view a k).setCache ((w.caches k).setClass c class_) with thread }
  | stage {c : SizeClass} {block owner : Nat} {thread : Thread ι κ Seq}
      (howner : owner ≠ (w.caches k).cacheId)
      (hthread : thread = .idle (some .freed) ∨ thread = .busy a (.unstage c .done)) :
      Transition debug w a k (.route c block owner)
        { (w.view a k).setCache ((w.caches k).setRemoteReturns c
            ⟨block :: ((w.caches k).remoteReturns c).pending,
              ((w.caches k).remoteReturns c).pendingLen + 1⟩) with thread }
  | release {entry : Live ι κ} {requestedSize usableSize : Nat} {large : LargeObjectState}
      {record : LargeAllocationRecord} (ha : entry.alloc = a) (inv : large.Inv)
      (hrecord : (entry.ptr, record) ∈ (w.allocators a).large.live)
      (hlive : ∀ e, e ∈ large.live ↔ e ∈ (w.allocators a).large.live ∧ e.1 ≠ entry.ptr)
      (hliveBag : (w.allocators a).large.liveBag =
        LargeObjectState.recordBlock record ::ₘ large.liveBag)
      (hfreeBag : large.freeBag =
        LargeObjectState.recordBlock record ::ₘ (w.allocators a).large.freeBag) :
      Transition debug w a k (.releasing entry requestedSize usableSize)
        (((w.view a k).setLarge large).finish .freed)
  | refuse {entry : Live ι κ} {requestedSize usableSize : Nat} (ha : entry.alloc ≠ a) :
      Transition debug w a k (.releasing entry requestedSize usableSize)
        (((w.view a k).addLive entry).finish (.freeError .alreadyFreedOrUnknownLarge))
  | flushEnd : Transition debug w a k (.flush []) ((w.view a k).goto a (.drain SizeClass.all))
  | flush {c : SizeClass} {classes : List SizeClass} :
      Transition debug w a k (.flush (c :: classes))
        ((w.view a k).goto a (.unstage c (.flush classes)))
  | drainEnd : Transition debug w a k (.drain []) ((w.view a k).finish .drained)
  | drainNext {c : SizeClass} {classes : List SizeClass}
      (h : ((w.caches k).classes c).totalLen = 0) :
      Transition debug w a k (.drain (c :: classes)) ((w.view a k).goto a (.drain classes))
  | drain {c : SizeClass} {classes : List SizeClass}
      (h : ((w.caches k).classes c).totalLen ≠ 0) :
      Transition debug w a k (.drain (c :: classes))
        ((w.view a k).goto a
          (.excess c ((w.caches k).classes c).totalLen (.drain (c :: classes))))
  | unstageNone {c : SizeClass} {resume : Resume}
      (h : ((w.caches k).remoteReturns c).pending = []) :
      Transition debug w a k (.unstage c resume) ((w.view a k).resume a resume)
  | unstage {c : SizeClass} {resume : Resume}
      (h : ((w.caches k).remoteReturns c).pending ≠ []) :
      Transition debug w a k (.unstage c resume)
        (((w.view a k).setCache ((w.caches k).setRemoteReturns c ⟨[], 0⟩)).goto a
          (.publishing c ((w.caches k).remoteReturns c).pending resume))
  | publish {c : SizeClass} {batch : Seq} {resume : Resume} {central : CentralPool Seq}
      (inv : central.Inv c) (only : CentralPool.OnlyClass c (w.allocators a).central central)
      (lists : central.lists = (w.allocators a).central.lists)
      (inbox : central.inboxBag c =
        (batch : Multiset Nat) + (w.allocators a).central.inboxBag c) :
      Transition debug w a k (.publishing c batch resume)
        (((w.view a k).setCentral central).resume a resume)
  | excess {c : SizeClass} {max : Nat} {resume : Resume} {m : Mem} {batch : Seq}
      {class_ : LocalClassCache Seq} (inv : class_.Inv)
      (shapes : class_.shapes = ((w.caches k).classes c).shapes) (hbatch : batch ≠ [])
      (drains : LocalClassCache.Drains c w.mem m batch ((w.caches k).classes c) class_) :
      Transition debug w a k (.excess c max resume)
        ((((w.view a k).setMem m).setCache ((w.caches k).setClass c class_)).goto a
          (.returning c batch resume))
  | returnBatch {c : SizeClass} {batch : Seq} {resume : Resume} {m : Mem}
    {central : CentralPool Seq}
      (h : CentralPool.Returned c w.mem m (w.allocators a).central central batch) :
      Transition debug w a k (.returning c batch resume)
        ((((w.view a k).setMem m).setCentral central).resume a resume)

/-! ### Every step is one of these -/

section Next

variable {setup : Setup ι κ} {w : World ι κ Seq Seq} {a : ι} {k : κ} {debug : Bool}
  {advised : Bool × Bool}

theorem Parts.pageSize_pos (parts : Parts setup w) : 0 < w.mem.pageSize := by
  rw [parts.pageSize_eq]
  obtain ⟨n, hn⟩ := setup.pageSize_isPowerOfTwo
  rw [hn]
  exact Nat.two_pow_pos n

theorem next_refill [DecidableEq ι] [DecidableEq κ] (inv : Inv setup w) {c : SizeClass} {size : Nat}
    (ht : w.threads k = .busy a (.refill c size)) :
    ∃ v, (w.view a k).next debug advised a k (.refill c size) = some v ∧
      Transition debug w a k (.refill c size) v := by
  obtain ⟨howner, _⟩ := inv.parts.thread k a _ ht
  have hcount : 0 < ((w.caches k).classConfig c).refillCount := by
    rw [(inv.parts.cache k).table a howner]
    exact (setup.config a).refillCount_pos c
  obtain ⟨m, central, r, heq, h⟩ := CentralPool.takeRefill_spec
    ((inv.parts.allocator a).central c) (inv.ledger.inboxOk howner) inv.parts.pageSize_pos hcount
    advised
  refine ⟨_, ?_, Transition.refill h⟩
  simp only [View.next, World.view, heq, Option.map_some]
  cases r <;> rfl

theorem next_gotBatch (inv : Inv setup w) {c : SizeClass} {size : Nat} {batch : Seq}
    (ht : w.threads k = .busy a (.gotBatch c size batch)) :
    ∃ v, (w.view a k).next debug advised a k (.gotBatch c size batch) = some v ∧
      Transition debug w a k (.gotBatch c size batch) v := by
  obtain ⟨_, _, hne⟩ := inv.parts.thread k a _ ht
  obtain ⟨class_, heq, hinv, hshapes, hown, hfresh, hshared⟩ :=
    LocalClassCache.pushSharedBatch_spec ((inv.parts.cache k).class_inv c) batch w.mem
  refine ⟨_, ?_, Transition.takeBatch hinv hshapes hown hfresh hshared hne⟩
  have hlen : batch.length ≠ 0 := fun h => hne (List.length_eq_zero_iff.mp h)
  simp [View.next, World.view, ThreadCache.pushSharedBatch, heq, hlen, View.setMem, View.setCache,
    View.goto]

theorem next_takeSlab [DecidableEq ι] [DecidableEq κ] (inv : Inv setup w) {c : SizeClass}
    {size start blockSize capacity : Nat}
    {pc : Pc ι κ Seq} (ht : w.threads k = .busy a pc)
    (hpc : pc = .gotSlab c size start blockSize capacity ∨
      pc = .registered c size start blockSize capacity) :
    ∃ v, (w.view a k).next debug advised a k pc = some v ∧ Transition debug w a k pc v := by
  obtain ⟨howner, hok⟩ := inv.parts.thread k a _ ht
  have hok' : 0 < blockSize ∧ 0 < capacity ∧
      (start, start + blockSize * capacity, blockSize, capacity) ∈
        ((w.allocators a).central.lists c).shapes := by
    rcases hpc with rfl | rfl <;> exact hok.2
  obtain ⟨hb, hcap, hshape⟩ := hok'
  have hblocks : pc.blocks = some (c, slabBlocks start blockSize capacity) := by
    rcases hpc with rfl | rfl <;> rfl
  obtain ⟨class_, heq, hinv, hown, hfresh, hshared, hshapes⟩ :=
    LocalClassCache.pushOwnedSlab_spec ((inv.parts.cache k).class_inv c) hb hcap
      (inv.used_up howner ht hblocks hshape)
  refine ⟨_, ?_, Transition.takeSlab hpc hinv hshapes hown hfresh hshared hcap⟩
  have hne : capacity ≠ 0 := by omega
  rcases hpc with rfl | rfl <;>
    simp [View.next, World.view, ThreadCache.pushOwnedSlab, heq, hne, View.setCache, View.goto]

theorem next_carve {c : SizeClass} {size : Nat} :
    ∃ v, (w.view a k).next debug advised a k (.carve c size) = some v ∧
      Transition debug w a k (.carve c size) v := by
  simp only [View.next, World.view]
  rcases hres : (w.allocators a).arena.reserveBlockSpan ((w.allocators a).config.classBlockSize c)
      ((w.allocators a).config.refillCount c) with e | ⟨_ | span, arena⟩
  · cases e <;> exact ⟨_, rfl, Transition.carveFail⟩
  · exact ⟨_, rfl, Transition.carveNone⟩
  · obtain ⟨h, n, hn, _, hsize⟩ := Arena.reserveBlockSpan_ok hres
    exact ⟨_, rfl, Transition.carve h hn hsize⟩

theorem next_carved [DecidableEq ι] [DecidableEq κ] (inv : Inv setup w) {c : SizeClass} {size : Nat}
    {span : ReservedSpan}
    (ht : w.threads k = .busy a (.carved c size span)) :
    ∃ v, (w.view a k).next debug advised a k (.carved c size span) = some v ∧
      Transition debug w a k (.carved c size span) v := by
  obtain ⟨_, _, n, hn, hsize⟩ := inv.parts.thread k a _ ht
  rw [← (inv.parts.allocator a).config_eq] at hsize
  have hpos := (w.allocators a).config.classBlockSize_pos c
  have hcarved : span.size / (w.allocators a).config.classBlockSize c = n := by
    rw [hsize, Nat.mul_div_cancel _ hpos]
  have hdisj : ∀ slab ∈ ((w.allocators a).central.lists c).slabs,
      slab.endAddr ≤ span.start ∨ span.start + span.size ≤ slab.start :=
    inv.extent_apart ht rfl rfl
  simp only [hsize, Nat.mul_comm n] at hdisj
  obtain ⟨m, central, heq, h⟩ := CentralPool.registerSlab_spec
    ((inv.parts.allocator a).central c) inv.parts.pageSize_pos hpos hn hdisj advised.1
  refine ⟨_, ?_, Transition.register hn hsize h⟩
  simp only [View.next, World.view, hcarved, heq]

theorem next_pop (inv : Inv setup w) {c : SizeClass} {size : Nat}
    (ht : w.threads k = .busy a (.pop c size)) :
    ∃ v, (w.view a k).next debug advised a k (.pop c size) = some v ∧
      Transition debug w a k (.pop c size) v := by
  obtain ⟨_, _, hlen⟩ := inv.parts.thread k a _ ht
  obtain ⟨block, reuse, class_, heq, hinv, hshapes, htakes⟩ :=
    LocalClassCache.popBlockUnchecked_spec ((inv.parts.cache k).class_inv c) hlen w.mem
  refine ⟨_, ?_, Transition.pop hinv hshapes htakes⟩
  simp [View.next, World.view, ThreadCache.popAvailableUnchecked, heq]

theorem next_large (inv : Inv setup w) {size blockSize : Nat} :
    ∃ v, (w.view a k).next debug advised a k (.large size blockSize) = some v ∧
      Transition debug w a k (.large size blockSize) v := by
  obtain ⟨found, large, heq, hinv, hlive, _, hfound⟩ :=
    LargeObjectState.takeBestFitBlock_spec (inv.parts.allocator a).large blockSize
  simp only [View.next, World.view, LargeObjectState.takeReusableBlock, heq, Option.map_some]
  cases found with
  | none =>
    obtain ⟨rfl, hsmall⟩ := hfound
    exact ⟨_, rfl, Transition.largeMiss hsmall⟩
  | some block => exact ⟨_, rfl, Transition.largeReuse hinv hlive hfound.2 hfound.1⟩

theorem next_largeCarve {size blockSize : Nat} :
    ∃ v, (w.view a k).next debug advised a k (.largeCarve size blockSize) = some v ∧
      Transition debug w a k (.largeCarve size blockSize) v := by
  simp only [View.next, World.view]
  rcases hres : (w.allocators a).arena.allocateBlock blockSize with e | ⟨start, arena⟩
  · cases e <;> exact ⟨_, rfl, Transition.largeFail⟩
  · exact ⟨_, rfl, Transition.largeReserve (Arena.allocateBlock_ok hres)⟩

/-- A large header can be written exactly when its sizes fit their fields. -/
theorem writeLargeToBlock_eq {m : Mem} {start size blockSize : Nat} (hsize : 0 < size)
    (hle : headerSize + size ≤ blockSize) :
    writeLargeToBlock m start size (blockSize - headerSize) =
      if blockSize - headerSize < 2 ^ 32 then some (writeLarge m start size blockSize)
      else none := by
  have h1 : ¬(size = 0 ∨ blockSize - headerSize < size) := by omega
  have h2 : (fitsU32 size && fitsU32 (blockSize - headerSize)) =
      decide (blockSize - headerSize < 2 ^ 32) := by
    simp only [fitsU32, ← Bool.decide_and, decide_eq_decide]
    omega
  simp only [writeLargeToBlock, encodeLargeFields, h1, if_false, h2, decide_eq_true_eq]
  split <;> rfl

theorem next_largeGot (inv : Inv setup w) {size start blockSize : Nat}
    (ht : w.threads k = .busy a (.largeGot size start blockSize)) :
    ∃ v, (w.view a k).next debug advised a k (.largeGot size start blockSize) = some v ∧
      Transition debug w a k (.largeGot size start blockSize) v := by
  obtain ⟨_, _, hsize, hle⟩ := inv.parts.thread k a _ ht
  simp only [View.next, World.view, writeLargeToBlock_eq hsize hle]
  split
  · rename_i hnone
    refine ⟨_, rfl, Transition.largeUnwritable ?_⟩
    by_contra hlt
    rw [if_pos (by omega)] at hnone
    exact Option.some_ne_none _ hnone
  · rename_i m hsome
    split at hsome
    · obtain rfl := Option.some.inj hsome
      exact ⟨_, rfl, Transition.largeWrite ‹_›⟩
    · exact absurd hsome.symm (Option.some_ne_none _)

theorem next_largeWritten [DecidableEq ι] [DecidableEq κ] (inv : Inv setup w)
    {size start blockSize : Nat}
    (ht : w.threads k = .busy a (.largeWritten size start blockSize)) :
    ∃ v, (w.view a k).next debug advised a k (.largeWritten size start blockSize) = some v ∧
      Transition debug w a k (.largeWritten size start blockSize) v := by
  obtain ⟨_, _, hsize, hle, hfits⟩ := inv.parts.thread k a _ ht
  have hok : LargeObjectState.RecordOk (start + headerSize)
      ⟨start, blockSize, size, blockSize - headerSize⟩ :=
    ⟨rfl, by simp only; omega, rfl, hsize, by simp only; omega, hfits⟩
  obtain ⟨large, heq, hinv, hlive, hfree⟩ := LargeObjectState.recordLiveAllocation_spec
    (inv.parts.allocator a).large
    (inv.extent_unregistered ht rfl) hok
  refine ⟨_, ?_, Transition.record hinv hlive hfree⟩
  simp only [View.next, World.view, userPtrFromBlockStart, heq, Option.map_some]

/-- A block that lies in a slab known to its cache is one of that slab's blocks. -/
theorem Inv.mem_local_slab (inv : Inv setup w) (howner : (w.caches k).owner = some a)
    {c : SizeClass} {p : Place ι κ} {b : Nat} (hb : setup.smallCell a c b ∈ w.own setup p) :
    ∀ slab ∈ ((w.caches k).classes c).slabs, slab.start ≤ b → b < slab.endAddr →
      b ∈ slab.blocks := by
  intro slab hslab hlo hhi
  obtain ⟨record, hrecord, hmem⟩ := inv.ledger.slab_of_mem hb
  have hpool := ((inv.parts.allocator a).central c).pool
  obtain ⟨record', hrecord', hshape⟩ := List.mem_map.mp
    (inv.parts.home k a howner c _ (List.mem_map_of_mem hslab))
  have h1 : record'.start = slab.start := congrArg (fun s => s.1) hshape
  have h2 : record'.endAddr = slab.endAddr := congrArg (fun s => s.2.1) hshape
  have h3 : record'.blockSize = slab.blockSize := congrArg (fun s => s.2.2.1) hshape
  have h4 : record'.capacity = slab.capacity := congrArg (fun s => s.2.2.2) hshape
  obtain ⟨i, hi⟩ := List.mem_iff_getElem?.mp hrecord
  obtain ⟨j, hj⟩ := List.mem_iff_getElem?.mp hrecord'
  have ok := hpool.slab_ok record hrecord
  obtain ⟨hlo', hhi'⟩ := slabBlocks_bounds hmem
  have hend := ok.end_eq
  have hpos := ok.blockSize_pos
  have hij : i = j := hpool.eq_of_overlap hi hj hlo' (by omega) (by omega) (by omega)
  subst hij
  obtain rfl := Option.some.inj (hi.symm.trans hj)
  rwa [SlabRecord.blocks, h1, h3, h4] at hmem

/-- The free of a block by its own cache makes the block the hot one and spills the one before
it. -/
theorem next_push (inv : Inv setup w) {c : SizeClass} {block : Nat}
    (ht : w.threads k = .busy a (.route c block (w.caches k).cacheId)) (debug : Bool)
    (advised : Bool × Bool) :
    ∃ class_ : LocalClassCache Seq, class_.Inv ∧
      class_.shapes = ((w.caches k).classes c).shapes ∧ class_.hotBlock = some block ∧
      class_.freshBag = ((w.caches k).classes c).freshBag ∧
      (∃ spilled : Multiset Nat,
        class_.ownedBag + spilled = block ::ₘ ((w.caches k).classes c).ownedBag ∧
          class_.sharedBag = spilled + ((w.caches k).classes c).sharedBag) ∧
      (w.view a k).next debug advised a k (.route c block (w.caches k).cacheId) =
        some (if ((w.caches k).setClass c class_).shouldDrain c then
          ((w.view a k).setCache ((w.caches k).setClass c class_)).goto a
            (.excess c ((w.caches k).classConfig c).drainCount .done)
        else ((w.view a k).setCache ((w.caches k).setClass c class_)).finish .freed) := by
  obtain ⟨howner, _⟩ := inv.parts.thread k a _ ht
  have hhome : ∀ b ∈ ((w.caches k).classes c).hotBag, ∀ slab ∈ ((w.caches k).classes c).slabs,
      slab.start ≤ b → b < slab.endAddr → b ∈ slab.blocks := by
    intro b hb
    apply inv.mem_local_slab howner (p := .hot k c)
    simpa [World.own, World.cacheCells, howner] using setup.smallCell_mem hb
  obtain ⟨class_, heq, hinv, hshapes, hhot, hfresh, hbags⟩ :=
    LocalClassCache.pushBlock_spec ((inv.parts.cache k).class_inv c) block hhome debug w.mem
  refine ⟨class_, hinv, hshapes, hhot, hfresh, hbags, ?_⟩
  simp only [View.next, World.view, if_pos, ThreadCache.push, heq, Option.map_some]
  rfl

theorem next_route (inv : Inv setup w) {c : SizeClass} {block owner : Nat}
    (ht : w.threads k = .busy a (.route c block owner)) :
    ∃ v, (w.view a k).next debug advised a k (.route c block owner) = some v ∧
      Transition debug w a k (.route c block owner) v := by
  by_cases hid : owner = (w.caches k).cacheId
  · subst hid
    obtain ⟨class_, hinv, hshapes, hhot, hfresh, ⟨spilled, hown, hshared⟩, hnext⟩ :=
      next_push inv ht debug advised
    have hlen : class_.totalLen ≠ 0 := by
      rw [hinv.totalLen_eq]
      simp [LocalClassCache.bag, LocalClassCache.ownedBag, LocalClassCache.hotBag, hhot]
    refine ⟨_, hnext, ?_⟩
    split
    · exact Transition.push hinv hshapes hfresh hown hshared (Or.inr ⟨hlen, rfl⟩)
    · exact Transition.push hinv hshapes hfresh hown hshared (Or.inl rfl)
  · obtain ⟨cache, hcache⟩ : ∃ cache, cache = (w.caches k).setRemoteReturns c
        ⟨block :: ((w.caches k).remoteReturns c).pending,
          ((w.caches k).remoteReturns c).pendingLen + 1⟩ := ⟨_, rfl⟩
    have hnext : (w.view a k).next debug advised a k (.route c block owner) =
        some (if cache.shouldFlushRemoteReturns c then
          ((w.view a k).setCache cache).goto a (.unstage c .done)
        else ((w.view a k).setCache cache).finish .freed) := by
      rw [hcache]
      exact if_neg hid
    rw [hnext]
    refine ⟨_, rfl, ?_⟩
    split
    · exact hcache ▸ Transition.stage hid (Or.inr rfl)
    · exact hcache ▸ Transition.stage hid (Or.inl rfl)

theorem next_releasing [DecidableEq ι] (inv : Inv setup w) {entry : Live ι κ}
    {requestedSize usableSize : Nat}
    (ht : w.threads k = .busy a (.releasing entry requestedSize usableSize)) :
    ∃ v, (w.view a k).next debug advised a k (.releasing entry requestedSize usableSize) = some v ∧
      Transition debug w a k (.releasing entry requestedSize usableSize) v := by
  obtain ⟨record, hrecord, rfl, rfl, _⟩ := inv.releasing_record ht
  by_cases ha : entry.alloc = a
  · rw [ha] at hrecord
    obtain ⟨large, heq, hinv, hlive, hliveBag, hfreeBag⟩ :=
      LargeObjectState.validateAndRelease_spec (inv.parts.allocator a).large hrecord
    refine ⟨_, ?_, Transition.release ha hinv hrecord hlive hliveBag hfreeBag⟩
    simp only [View.next, World.view, heq, Option.map_some]
  · have hnone : (w.allocators a).large.live.lookup entry.ptr = none := by
      rw [List.lookup_eq_none_iff]
      rintro ⟨ptr, other⟩ hother
      rw [bne_iff_ne]
      rintro rfl
      exact ha (inv.registered_once hrecord hother)
    refine ⟨_, ?_, Transition.refuse ha⟩
    simp only [View.next, World.view, LargeObjectState.validateAndReleaseLiveAllocation, hnone,
      Option.map_some]

theorem next_unstage (inv : Inv setup w) {c : SizeClass} {resume : Resume} :
    ∃ v, (w.view a k).next debug advised a k (.unstage c resume) = some v ∧
      Transition debug w a k (.unstage c resume) v := by
  have ok := (inv.parts.cache k).returns_ok c
  by_cases h : ((w.caches k).remoteReturns c).pending = []
  · refine ⟨_, ?_, Transition.unstageNone h⟩
    simp [View.next, World.view, (RemoteReturns.isEmpty_iff ok).mpr h]
  · refine ⟨_, ?_, Transition.unstage h⟩
    have hne : ((w.caches k).remoteReturns c).isEmpty = false := by
      rw [← Bool.not_eq_true, RemoteReturns.isEmpty_iff ok]
      exact h
    simp [View.next, World.view, hne, ThreadCache.takeRemoteReturns,
      RemoteReturns.takeAllUnchecked_spec ok h, View.setMem, View.setCache, View.goto]

theorem next_publishing (inv : Inv setup w) {c : SizeClass} {batch : Seq} {resume : Resume} :
    ∃ v, (w.view a k).next debug advised a k (.publishing c batch resume) = some v ∧
      Transition debug w a k (.publishing c batch resume) v := by
  obtain ⟨central, heq, hinv, honly, hlists, hinbox⟩ := CentralPool.publishRemoteBatch_spec
    (m := w.mem) ((inv.parts.allocator a).central c) batch
  refine ⟨_, ?_, Transition.publish hinv honly hlists hinbox⟩
  simp [View.next, World.view, heq, View.setMem, View.setCentral]

/-- A drain takes a batch out of the class cache. -/
theorem next_popBatch (inv : Inv setup w) {c : SizeClass} {max : Nat} {resume : Resume}
    (ht : w.threads k = .busy a (.excess c max resume)) (debug : Bool) (advised : Bool × Bool) :
    ∃ (m : Mem) (batch : Seq) (class_ : LocalClassCache Seq),
      ((w.caches k).classes c).popBatch w.mem max c = some (m, batch, class_) ∧ class_.Inv ∧
      class_.shapes = ((w.caches k).classes c).shapes ∧ batch ≠ [] ∧
      LocalClassCache.Drains c w.mem m batch ((w.caches k).classes c) class_ ∧
      (w.view a k).next debug advised a k (.excess c max resume) =
        some ((((w.view a k).setMem m).setCache ((w.caches k).setClass c class_)).goto a
          (.returning c batch resume)) := by
  obtain ⟨_, hmax, hlen⟩ := inv.parts.thread k a _ ht
  obtain ⟨m, batch, class_, heq, hinv, hshapes, hne, _, hdrains⟩ :=
    LocalClassCache.popBatch_spec ((inv.parts.cache k).class_inv c) hlen hmax c w.mem
  refine ⟨m, batch, class_, heq, hinv, hshapes, hne, hdrains, ?_⟩
  simp only [View.next, World.view, ThreadCache.popBatch, heq, Option.map_some]

theorem next_excess (inv : Inv setup w) {c : SizeClass} {max : Nat} {resume : Resume}
    (ht : w.threads k = .busy a (.excess c max resume)) :
    ∃ v, (w.view a k).next debug advised a k (.excess c max resume) = some v ∧
      Transition debug w a k (.excess c max resume) v := by
  obtain ⟨m, batch, class_, -, hinv, hshapes, hne, hdrains, hnext⟩ :=
    next_popBatch inv ht debug advised
  exact ⟨_, hnext, Transition.excess hinv hshapes hne hdrains⟩

theorem Inv.returning_nodup [DecidableEq ι] [DecidableEq κ] (inv : Inv setup w)
    (howner : (w.caches k).owner = some a)
    {c : SizeClass} {batch : Seq} {resume : Resume}
    (ht : w.threads k = .busy a (.returning c batch resume)) :
    ((batch : Multiset Nat) + ((w.allocators a).central.inboxBag c +
      ((w.allocators a).central.lists c).bag)).Nodup := by
  refine Multiset.nodup_of_le ?_ (inv.ledger.blocks_nodup (c := c) howner ht rfl)
  rw [add_comm (batch : Multiset Nat), add_comm (CentralPool.inboxBag _ _), View.stored]
  refine add_le_add_left ?_ _
  rw [add_assoc]
  exact Multiset.le_add_left _ _

theorem next_returning [DecidableEq ι] [DecidableEq κ] (inv : Inv setup w) {c : SizeClass}
    {batch : Seq} {resume : Resume}
    (ht : w.threads k = .busy a (.returning c batch resume)) :
    ∃ v, (w.view a k).next debug advised a k (.returning c batch resume) = some v ∧
      Transition debug w a k (.returning c batch resume) v := by
  obtain ⟨howner, _⟩ := inv.parts.thread k a _ ht
  have hmem : ∀ b ∈ batch, ∃ slab ∈ ((w.allocators a).central.lists c).slabs, b ∈ slab.blocks :=
    fun b hb => inv.ledger.slab_of_mem (mem_own_hand ht rfl hb)
  obtain ⟨m, central, heq, h⟩ := CentralPool.returnBatch_spec
    ((inv.parts.allocator a).central c) (inv.ledger.inboxOk howner) inv.parts.pageSize_pos hmem
    (inv.returning_nodup howner ht) advised
  refine ⟨_, ?_, Transition.returnBatch h⟩
  simp only [View.next, World.view, heq, Option.map_some]

/-- Under the invariant every call can make its next step, and the step is one of the
transitions. -/
theorem next_spec [DecidableEq ι] [DecidableEq κ] (inv : Inv setup w) {pc : Pc ι κ Seq}
    (ht : w.threads k = .busy a pc) :
    ∃ v, (w.view a k).next debug advised a k pc = some v ∧ Transition debug w a k pc v := by
  cases pc with
  | refill c size => exact next_refill inv ht
  | gotBatch c size batch => exact next_gotBatch inv ht
  | gotSlab c size start blockSize capacity => exact next_takeSlab inv ht (Or.inl rfl)
  | carve c size => exact next_carve
  | carved c size span => exact next_carved inv ht
  | registered c size start blockSize capacity => exact next_takeSlab inv ht (Or.inr rfl)
  | pop c size => exact next_pop inv ht
  | popped c size block reuse => exact ⟨_, rfl, Transition.give⟩
  | large size blockSize => exact next_large inv
  | largeCarve size blockSize => exact next_largeCarve
  | largeGot size start blockSize => exact next_largeGot inv ht
  | largeWritten size start blockSize => exact next_largeWritten inv ht
  | report size => exact ⟨_, rfl, Transition.report⟩
  | route c block owner => exact next_route inv ht
  | releasing entry requestedSize usableSize => exact next_releasing inv ht
  | flush classes =>
    cases classes with
    | nil => exact ⟨_, rfl, Transition.flushEnd⟩
    | cons c classes => exact ⟨_, rfl, Transition.flush⟩
  | drain classes =>
    cases classes with
    | nil => exact ⟨_, rfl, Transition.drainEnd⟩
    | cons c classes =>
      by_cases h : ((w.caches k).classes c).totalLen = 0
      · exact ⟨_, by simp [View.next, World.view, h], Transition.drainNext h⟩
      · exact ⟨_, by simp [View.next, World.view, h], Transition.drain h⟩
  | unstage c resume => exact next_unstage inv
  | publishing c batch resume => exact next_publishing inv
  | excess c max resume => exact next_excess inv ht
  | returning c batch resume => exact next_returning inv ht

/-- The step that a call makes is one of the transitions. -/
theorem Inv.transition [DecidableEq ι] [DecidableEq κ] (inv : Inv setup w) {pc : Pc ι κ Seq}
    (ht : w.threads k = .busy a pc)
    {v : View ι κ Seq Seq} (hv : (w.view a k).next debug advised a k pc = some v) :
    Transition debug w a k pc v := by
  obtain ⟨v', hv', htrans⟩ : ∃ v', (w.view a k).next debug advised a k pc = some v' ∧
    Transition debug w a k pc v' := next_spec inv ht
  obtain rfl := Option.some.inj (hv.symm.trans hv')
  exact htrans

end Next

end Orthotope
