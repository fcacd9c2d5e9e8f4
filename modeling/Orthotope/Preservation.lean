import Orthotope.Transition

/-! Every transition keeps the parts, the ledger and the tokens of the invariant.  The transitions
fall into a few kinds: blocks of one class move between the cache, the pool, the hands of the call
and the client; the arena gives up a span; a large block changes hands. -/

namespace Orthotope

open ByteMemory Ownership

variable {ι κ : Type}

section Parts

variable {setup : Setup ι κ} {w : World ι κ Seq Seq} {a : ι} {k : κ} {c : SizeClass}
  {v : View ι κ Seq Seq}

/-- The thread after a step is idle, or at a point of the same call whose facts hold. -/
def ThreadFits (setup : Setup ι κ) (a : ι) (central : CentralPool Seq) (cache : ThreadCache ι Seq)
    (thread : Thread ι κ Seq) : Prop :=
  ∀ b pc, thread = .busy b pc → b = a ∧ PcOk setup a central cache pc

theorem ThreadFits.idle {central : CentralPool Seq} {cache : ThreadCache ι Seq}
    (outcome : Option Outcome) : ThreadFits setup a central cache (.idle outcome) :=
  fun _ _ h => by cases h

theorem ThreadFits.busy {central : CentralPool Seq} {cache : ThreadCache ι Seq}
    {pc : Pc ι κ Seq} (h : PcOk setup a central cache pc) :
    ThreadFits setup a central cache (.busy a pc) := by
  rintro b pc' heq
  obtain ⟨rfl, rfl⟩ := Thread.busy.inj heq
  exact ⟨rfl, h⟩

theorem ThreadFits.resume {central : CentralPool Seq} {cache : ThreadCache ι Seq}
    (v : View ι κ Seq Seq) (resume : Resume) :
    ThreadFits setup a central cache (v.resume a resume).thread := by
  cases resume with
  | done => exact ThreadFits.idle _
  | flush classes => exact ThreadFits.busy trivial
  | drain classes => exact ThreadFits.busy trivial

theorem OnlyClass.shapes_eq {central central' : CentralPool Seq}
    (only : CentralPool.OnlyClass c central central')
    (h : (central'.lists c).shapes = (central.lists c).shapes) (d : SizeClass) :
    (central'.lists d).shapes = (central.lists d).shapes := by
  by_cases hd : d = c
  · exact hd ▸ h
  · rw [only.lists d hd]

variable [DecidableEq ι] [DecidableEq κ]

/-- The step changes the class pool of `c`, which keeps its slabs. -/
theorem Parts.update_central (parts : Parts setup w) (howner : (w.caches k).owner = some a)
    {m : Mem} {central : CentralPool Seq} (hpage : m.pageSize = w.mem.pageSize)
    (only : CentralPool.OnlyClass c (w.allocators a).central central) (inv : central.Inv c)
    (hshapes : ∀ s ∈ ((w.allocators a).central.lists c).shapes, s ∈ (central.lists c).shapes)
    (hsize : ∀ s ∈ (central.lists c).shapes, s.2.2.1 = (setup.config a).classBlockSize c)
    (hmem : v.mem = m) (hallocator : v.allocator = { w.allocators a with central })
    (hcache : v.cache = w.caches k)
    (hthread : ThreadFits setup a central (w.caches k) v.thread) :
    Parts setup (w.update a k v) := by
  have hall : ∀ d, ∀ s ∈ ((w.allocators a).central.lists d).shapes,
      s ∈ (central.lists d).shapes := by
    intro d s hs
    by_cases hd : d = c
    · subst hd
      exact hshapes s hs
    · rwa [only.lists d hd]
  refine parts.update (hmem ▸ hpage) (hallocator ▸ (parts.allocator a).setCentral only inv hsize)
    (hcache ▸ parts.cache k) (hcache ▸ howner) ?_ ?_ ?_
  · rw [hallocator, hcache]
    exact fun d s hs => hall d s (parts.home k a howner d s hs)
  · rw [hallocator]
    exact hall
  · rw [hallocator, hcache]
    exact hthread

/-- The step changes the cache only. -/
theorem Parts.update_cache (parts : Parts setup w) {cache : ThreadCache ι Seq}
    (hpage : v.mem.pageSize = w.mem.pageSize) (ok : CacheOk setup k cache)
    (howner : cache.owner = some a) (home : Home (w.allocators a) cache)
    (hallocator : v.allocator = w.allocators a) (hcache : v.cache = cache)
    (hthread : ThreadFits setup a (w.allocators a).central cache v.thread) :
    Parts setup (w.update a k v) := by
  refine parts.update hpage (hallocator ▸ parts.allocator a) (hcache ▸ ok)
    (hcache ▸ howner) ?_ ?_ ?_
  · rwa [hallocator, hcache]
  · rw [hallocator]
    exact fun _ _ h => h
  · rw [hallocator, hcache]
    exact hthread

/-- The step changes the local cache of class `c`. -/
theorem Parts.update_class (parts : Parts setup w) (howner : (w.caches k).owner = some a)
    {class_ : LocalClassCache Seq} (hpage : v.mem.pageSize = w.mem.pageSize) (inv : class_.Inv)
    (hshapes : ∀ s ∈ class_.shapes, s ∈ ((w.caches k).classes c).shapes ∨
      s ∈ ((w.allocators a).central.lists c).shapes)
    (hallocator : v.allocator = w.allocators a)
    (hcache : v.cache = (w.caches k).setClass c class_)
    (hthread : ThreadFits setup a (w.allocators a).central ((w.caches k).setClass c class_)
      v.thread) : Parts setup (w.update a k v) :=
  parts.update_cache hpage ((parts.cache k).setClass howner inv) howner
    ((parts.home k a howner).setClass hshapes) hallocator hcache hthread

/-- The step changes the staged frees of class `c`. -/
theorem Parts.update_returns (parts : Parts setup w) (howner : (w.caches k).owner = some a)
    {returns : RemoteReturns Seq} (hpage : v.mem.pageSize = w.mem.pageSize) (ok : returns.Ok)
    (hallocator : v.allocator = w.allocators a)
    (hcache : v.cache = (w.caches k).setRemoteReturns c returns)
    (hthread : ThreadFits setup a (w.allocators a).central
      ((w.caches k).setRemoteReturns c returns) v.thread) : Parts setup (w.update a k v) :=
  parts.update_cache hpage ((parts.cache k).setRemoteReturns howner ok) howner
    (parts.home k a howner) hallocator hcache hthread

/-- The step changes the arena or the large registry. -/
theorem Parts.update_allocator (parts : Parts setup w) (howner : (w.caches k).owner = some a)
    (hpage : v.mem.pageSize = w.mem.pageSize) (ok : AllocatorOk setup a v.allocator)
    (hcentral : v.allocator.central = (w.allocators a).central) (hcache : v.cache = w.caches k)
    (hthread : ThreadFits setup a (w.allocators a).central (w.caches k) v.thread) :
    Parts setup (w.update a k v) := by
  refine parts.update hpage ok (hcache ▸ parts.cache k) (hcache ▸ howner) ?_ ?_ ?_
  · rw [hcache]
    intro d s hs
    rw [hcentral]
    exact parts.home k a howner d s hs
  · rw [hcentral]
    exact fun _ _ h => h
  · rw [hcentral, hcache]
    exact hthread

theorem writeHeader_pageSize (debug : Bool) (m : Mem) (c : SizeClass) (size block owner : Nat)
    (reuse : BlockReuse) :
    (View.writeHeader debug m c size block owner reuse).pageSize = m.pageSize := by
  have hw : ∀ m : Mem, (writeSmallToBlockUnchecked m block c size owner).pageSize = m.pageSize :=
    fun m => (writesIn_writeEncodedFields m block _ _ _ _ _).pageSize
  unfold View.writeHeader clearSmallFreeMetadata
  cases debug <;> cases reuse <;> simp [hw, refreshSmallRequestedSizeUnchecked,
    refreshSmallRequestedSizeAndOwnerUnchecked]

theorem initializeAll_pageSize (m : Mem) (c : SizeClass) (blocks : List Nat) :
    (initializeAll m c blocks).pageSize = m.pageSize := by
  induction blocks generalizing m with
  | nil => rfl
  | cons b blocks ih =>
    exact (ih _).trans (writesIn_writeEncodedFields m b _ _ _ _ _).pageSize

theorem totalLen_ne_zero {class_ : LocalClassCache Seq} (inv : class_.Inv) {b : Nat}
    (h : b ∈ class_.bag) : class_.totalLen ≠ 0 := by
  rw [inv.totalLen_eq]
  exact (Multiset.card_pos_iff_exists_mem.mpr ⟨b, h⟩).ne'

/-- Every transition keeps the parts right. -/
theorem Transition.parts {debug : Bool} {pc : Pc ι κ Seq} (inv : Inv setup w)
    (ht : w.threads k = .busy a pc) (h : Transition debug w a k pc v) :
    Parts setup (w.update a k v) := by
  obtain ⟨howner, hok⟩ := inv.parts.thread k a pc ht
  have parts := inv.parts
  have ok := parts.allocator a
  cases h with
  | @refill c size m central r h =>
    refine parts.update_central howner h.givesUp.pageSize h.only h.inv (fun s hs => h.shapes ▸ hs)
      (fun s hs => ok.blockSize_eq c s (h.shapes ▸ hs)) rfl rfl rfl (ThreadFits.busy ?_)
    cases r with
    | empty => exact hok
    | batch blocks => exact ⟨hok, (h.ofBatch blocks rfl).1⟩
    | slab start blockSize capacity =>
      obtain ⟨hb, hc, hs⟩ := h.ofSlab start blockSize capacity rfl
      exact ⟨hok, hb, hc, h.shapes ▸ hs⟩
  | @takeBatch c size batch class_ hinv hshapes _ _ hshared hbatch =>
    refine parts.update_class howner rfl hinv (fun s hs => Or.inl (hshapes ▸ hs)) rfl rfl
      (ThreadFits.busy ⟨hok.1, ?_⟩)
    obtain ⟨b, hb⟩ := List.exists_mem_of_ne_nil batch hbatch
    rw [ThreadCache.setClass_same]
    exact totalLen_ne_zero hinv (b := b) (by simp [LocalClassCache.bag, hshared, hb])
  | @takeSlab c size start blockSize capacity class_ pc hpc hinv hshapes _ hfresh _ hcap =>
    have hok' : SizeClass.fromRequest size = some c ∧
        (start, start + blockSize * capacity, blockSize, capacity) ∈
          ((w.allocators a).central.lists c).shapes := by
      rcases hpc with rfl | rfl <;> exact ⟨hok.1, hok.2.2.2⟩
    refine parts.update_class howner rfl hinv
      (fun s hs => (hshapes s hs).imp_right fun h => h ▸ hok'.2) rfl rfl
      (ThreadFits.busy ⟨hok'.1, ?_⟩)
    have hb : start ∈ slabBlocks start blockSize capacity :=
      mem_slabBlocks.mpr ⟨0, hcap, by omega⟩
    rw [ThreadCache.setClass_same]
    exact totalLen_ne_zero hinv (b := start) (by simp [LocalClassCache.bag, hfresh, hb])
  | carve h hn hsize =>
    exact parts.update_allocator howner rfl (ok.setArena h) rfl rfl
      (ThreadFits.busy ⟨hok, _, hn, ok.config_eq ▸ hsize⟩)
  | carveNone => exact parts.update_allocator howner rfl ok rfl rfl (ThreadFits.busy trivial)
  | carveFail => exact parts.update_allocator howner rfl ok rfl rfl (ThreadFits.idle _)
  | @register c size n span m central hn hsize h =>
    have hnew : ∀ s, s ∈ (central.lists c).shapes ↔ s ∈ ((w.allocators a).central.lists c).shapes ∨
        s = (span.start, span.start + (w.allocators a).config.classBlockSize c * n,
          (w.allocators a).config.classBlockSize c, n) := by
      intro s
      simp [h.shapes]
    refine parts.update_central howner h.givesUp.pageSize h.only h.inv
      (fun s hs => (hnew s).mpr (Or.inl hs)) (fun s hs => ?_) rfl rfl rfl
      (ThreadFits.busy ⟨hok.1, AllocatorConfig.classBlockSize_pos _ _, hn,
        (hnew _).mpr (Or.inr rfl)⟩)
    rcases (hnew s).mp hs with hs | rfl
    · exact ok.blockSize_eq c s hs
    · rw [ok.config_eq]
  | pop hinv hshapes _ =>
    exact parts.update_class howner rfl hinv (fun s hs => Or.inl (hshapes ▸ hs)) rfl rfl
      (ThreadFits.busy hok.1)
  | give =>
    exact parts.update_allocator howner (writeHeader_pageSize ..) ok rfl rfl (ThreadFits.idle _)
  | largeReuse hinv _ _ hle =>
    exact parts.update_allocator howner rfl (ok.setLarge hinv) rfl rfl
      (ThreadFits.busy ⟨hok.1, hok.2.1, hok.2.2.trans hle⟩)
  | largeMiss => exact parts.update_allocator howner rfl ok rfl rfl (ThreadFits.busy hok)
  | largeReserve h =>
    exact parts.update_allocator howner rfl (ok.setArena h) rfl rfl (ThreadFits.busy hok)
  | largeFail => exact parts.update_allocator howner rfl ok rfl rfl (ThreadFits.idle _)
  | largeWrite h =>
    exact parts.update_allocator howner (writesIn_writeEncodedFields ..).pageSize ok rfl rfl
      (ThreadFits.busy ⟨hok.1, hok.2.1, hok.2.2, h⟩)
  | largeUnwritable => exact parts.update_allocator howner rfl ok rfl rfl (ThreadFits.busy trivial)
  | record hinv =>
    exact parts.update_allocator howner rfl (ok.setLarge hinv) rfl rfl (ThreadFits.idle _)
  | report => exact parts.update_allocator howner rfl ok rfl rfl (ThreadFits.idle _)
  | @push c block class_ spilled thread hinv hshapes _ _ _ hthread =>
    refine parts.update_class howner rfl hinv (fun s hs => Or.inl (hshapes ▸ hs)) rfl rfl ?_
    rcases hthread with rfl | ⟨hlen, rfl⟩
    · exact ThreadFits.idle _
    · refine ThreadFits.busy ⟨?_, ?_⟩
      · rw [(parts.cache k).table a howner]
        exact (setup.config a).drainCount_pos c
      · rwa [ThreadCache.setClass_same]
  | @stage c block owner thread _ hthread =>
    have hreturns := (parts.cache k).returns_ok c
    refine parts.update_returns howner rfl ?_ rfl rfl ?_
    · simpa [RemoteReturns.Ok] using hreturns
    · rcases hthread with rfl | rfl
      · exact ThreadFits.idle _
      · exact ThreadFits.busy trivial
  | release _ hinv =>
    exact parts.update_allocator howner rfl (ok.setLarge hinv) rfl rfl (ThreadFits.idle _)
  | refuse => exact parts.update_allocator howner rfl ok rfl rfl (ThreadFits.idle _)
  | flushEnd => exact parts.update_allocator howner rfl ok rfl rfl (ThreadFits.busy trivial)
  | flush => exact parts.update_allocator howner rfl ok rfl rfl (ThreadFits.busy trivial)
  | drainEnd => exact parts.update_allocator howner rfl ok rfl rfl (ThreadFits.idle _)
  | drainNext => exact parts.update_allocator howner rfl ok rfl rfl (ThreadFits.busy trivial)
  | drain h =>
    exact parts.update_allocator howner rfl ok rfl rfl
      (ThreadFits.busy ⟨Nat.pos_of_ne_zero h, h⟩)
  | @unstageNone c resume h =>
    refine parts.update_allocator howner ?_ ?_ ?_ ?_ (ThreadFits.resume _ resume)
    all_goals cases resume <;> first | rfl | exact ok
  | unstage =>
    exact parts.update_returns howner rfl RemoteReturns.new_ok rfl rfl (ThreadFits.busy trivial)
  | @publish c batch resume central hinv only hlists _ =>
    refine parts.update_central howner rfl only hinv (fun s hs => by rwa [hlists])
      (fun s hs => ok.blockSize_eq c s (by rwa [hlists] at hs)) ?_ ?_ ?_
      (ThreadFits.resume _ resume)
    all_goals cases resume <;> rfl
  | excess hinv hshapes _ drains =>
    obtain ⟨_, fresh, _, _, _, _, _, rfl⟩ := drains
    exact parts.update_class howner (initializeAll_pageSize _ _ _) hinv
      (fun s hs => Or.inl (hshapes ▸ hs)) rfl rfl (ThreadFits.busy trivial)
  | @returnBatch c batch resume m central h =>
    refine parts.update_central howner h.givesUp.pageSize h.only h.inv (fun s hs => h.shapes ▸ hs)
      (fun s hs => ok.blockSize_eq c s (h.shapes ▸ hs)) ?_ ?_ ?_ (ThreadFits.resume _ resume)
    all_goals cases resume <;> rfl

end Parts

/-! ### The ledger -/

section Ledger

variable {setup : Setup ι κ} {w : World ι κ Seq Seq} {a : ι} {k : κ} {c : SizeClass}
  {v : View ι κ Seq Seq}

theorem touches_central (howner : (w.caches k).owner = some a) {central : CentralPool Seq}
    (only : CentralPool.OnlyClass c (w.allocators a).central central)
    (hallocator : v.allocator = { w.allocators a with central }) (hcache : v.cache = w.caches k) :
    Touches w a k c v where
  owner := howner
  owner_eq := hcache ▸ howner
  only := hallocator ▸ only
  classes := fun _ _ => by rw [hcache]
  returns := fun _ _ => by rw [hcache]
  next_le := by rw [hallocator]

theorem OnlyClass.refl (c : SizeClass) (central : CentralPool Seq) :
    CentralPool.OnlyClass c central central := ⟨fun _ _ => rfl, fun _ _ => rfl⟩

theorem touches_class (howner : (w.caches k).owner = some a) {class_ : LocalClassCache Seq}
    (hallocator : v.allocator = w.allocators a)
    (hcache : v.cache = (w.caches k).setClass c class_) : Touches w a k c v where
  owner := howner
  owner_eq := hcache ▸ howner
  only := hallocator ▸ OnlyClass.refl _ _
  classes := fun d hd => by rw [hcache, ThreadCache.setClass_ne _ hd]
  returns := fun _ _ => by rw [hcache]; rfl
  next_le := by rw [hallocator]

theorem touches_returns (howner : (w.caches k).owner = some a) {returns : RemoteReturns Seq}
    (hallocator : v.allocator = w.allocators a)
    (hcache : v.cache = (w.caches k).setRemoteReturns c returns) : Touches w a k c v where
  owner := howner
  owner_eq := hcache ▸ howner
  only := hallocator ▸ OnlyClass.refl _ _
  classes := fun _ _ => by rw [hcache]; rfl
  returns := fun d hd => by rw [hcache, ThreadCache.setRemoteReturns_ne _ hd]
  next_le := by rw [hallocator]

theorem touches_allocator (howner : (w.caches k).owner = some a)
    (hcentral : v.allocator.central = (w.allocators a).central) (hcache : v.cache = w.caches k)
    (hnext : (w.allocators a).arena.next ≤ v.allocator.arena.next) : Touches w a k c v where
  owner := howner
  owner_eq := hcache ▸ howner
  only := hcentral ▸ OnlyClass.refl _ _
  classes := fun _ _ => by rw [hcache]
  returns := fun _ _ => by rw [hcache]
  next_le := hnext

theorem cells_of_blocks {pc : Pc ι κ Seq} {blocks : List Nat} (h : pc.blocks = some (c, blocks))
    (hext : pc.extent = none) :
    (Thread.busy a pc).cells setup = setup.smallCells a c (blocks : Multiset Nat) := by
  simp only [Thread.cells, Pc.cells, h, hext, add_zero]

theorem cells_of_none {pc : Pc ι κ Seq} (h : pc.blocks = none) (hext : pc.extent = none) :
    (Thread.busy a pc).cells setup = setup.smallCells a c 0 := by
  simp only [Thread.cells, Pc.cells, h, hext, add_zero, Setup.smallCells_zero]

theorem cells_of_extent {pc : Pc ι κ Seq} {block : FreeLargeBlock} (h : pc.blocks = none)
    (hext : pc.extent = some block) : (Thread.busy a pc).cells setup = {largeCell a block} := by
  simp only [Thread.cells, Pc.cells, h, hext, zero_add]

theorem resume_cells (v : View ι κ Seq Seq) (resume : Resume) :
    (v.resume a resume).thread.cells setup = setup.smallCells a c 0 := by
  cases resume <;> rfl

variable [DecidableEq ι] [DecidableEq κ]

/-- Blocks of class `c` move between the stores and the hands of the call. -/
theorem Ledger.move (ledger : Ledger setup w) (t : Touches w a k c v)
    (hshapes : (v.allocator.central.lists c).shapes =
      ((w.allocators a).central.lists c).shapes)
    (hlive : v.live = w.live) (hlarge : v.allocator.large = (w.allocators a).large)
    {before after : Multiset Nat}
    (hbefore : (w.threads k).cells setup = setup.smallCells a c before)
    (hafter : v.thread.cells setup = setup.smallCells a c after)
    (hsum : v.stored c + after = (w.view a k).stored c + before) :
    Ledger setup (w.update a k v) := by
  refine ledger.rearrange t (OnlyClass.shapes_eq t.only hshapes) 0 ?_ (by simp)
  have hcells := congrArg (setup.smallCells a c) hsum
  rw [Setup.smallCells_add, Setup.smallCells_add] at hcells
  rw [add_zero, View.holdings, View.holdings, View.settled, hlive, hlarge, hafter]
  show _ = _ + (w.threads k).cells setup
  rw [hbefore, add_right_comm, add_assoc _ (setup.smallCells a c (v.stored c)), hcells]
  simp only [View.settled, World.view]
  ac_rfl

theorem Ledger.move_class (ledger : Ledger setup w) (howner : (w.caches k).owner = some a)
    {class_ : LocalClassCache Seq} (hallocator : v.allocator = w.allocators a)
    (hcache : v.cache = (w.caches k).setClass c class_) (hlive : v.live = w.live)
    {before after : Multiset Nat}
    (hbefore : (w.threads k).cells setup = setup.smallCells a c before)
    (hafter : v.thread.cells setup = setup.smallCells a c after)
    (hsum : class_.bag + after = ((w.caches k).classes c).bag + before) :
    Ledger setup (w.update a k v) := by
  refine ledger.move (touches_class howner hallocator hcache) (by rw [hallocator]) hlive
    (by rw [hallocator]) hbefore hafter ?_
  ext b
  have := congrArg (Multiset.count b) hsum
  simp only [View.stored, hallocator, hcache, ThreadCache.setClass_same,
    ThreadCache.setClass_remoteReturns, World.view, Multiset.count_add] at this ⊢
  omega

theorem Ledger.move_returns (ledger : Ledger setup w) (howner : (w.caches k).owner = some a)
    {returns : RemoteReturns Seq} (hallocator : v.allocator = w.allocators a)
    (hcache : v.cache = (w.caches k).setRemoteReturns c returns) (hlive : v.live = w.live)
    {before after : Multiset Nat}
    (hbefore : (w.threads k).cells setup = setup.smallCells a c before)
    (hafter : v.thread.cells setup = setup.smallCells a c after)
    (hsum : (returns.pending : Multiset Nat) + after =
      ((w.caches k).remoteReturns c).pending + before) : Ledger setup (w.update a k v) := by
  refine ledger.move (touches_returns howner hallocator hcache) (by rw [hallocator]) hlive
    (by rw [hallocator]) hbefore hafter ?_
  ext b
  have := congrArg (Multiset.count b) hsum
  simp only [View.stored, hallocator, hcache, ThreadCache.setRemoteReturns_same,
    ThreadCache.setRemoteReturns_classes, World.view, Multiset.count_add] at this ⊢
  omega

theorem Ledger.move_central (ledger : Ledger setup w) (howner : (w.caches k).owner = some a)
    {central : CentralPool Seq} (only : CentralPool.OnlyClass c (w.allocators a).central central)
    (hshapes : (central.lists c).shapes = ((w.allocators a).central.lists c).shapes)
    (hallocator : v.allocator = { w.allocators a with central }) (hcache : v.cache = w.caches k)
    (hlive : v.live = w.live) {before after : Multiset Nat}
    (hbefore : (w.threads k).cells setup = setup.smallCells a c before)
    (hafter : v.thread.cells setup = setup.smallCells a c after)
    (hsum : (central.lists c).bag + central.inboxBag c + after =
      ((w.allocators a).central.lists c).bag + (w.allocators a).central.inboxBag c + before) :
    Ledger setup (w.update a k v) := by
  refine ledger.move (touches_central howner only hallocator hcache) (by rw [hallocator, hshapes])
    hlive (by rw [hallocator]) hbefore hafter ?_
  ext b
  have := congrArg (Multiset.count b) hsum
  simp only [View.stored, hallocator, hcache, World.view, Multiset.count_add] at this ⊢
  omega

/-- A step that only changes the point of the call keeps the ledger. -/
theorem Ledger.stay (ledger : Ledger setup w) (howner : (w.caches k).owner = some a)
    (hallocator : v.allocator = w.allocators a) (hcache : v.cache = w.caches k)
    (hlive : v.live = w.live) (hcells : v.thread.cells setup = (w.threads k).cells setup) :
    Ledger setup (w.update a k v) := by
  have hcentral : v.allocator.central = (w.allocators a).central := by rw [hallocator]
  refine ledger.rearrange (c := .b64)
    (touches_allocator howner hcentral hcache (by rw [hallocator]))
    (fun d => by rw [hcentral]) 0 ?_ (by simp)
  rw [add_zero, View.holdings, View.holdings, hcells, View.settled, hlive, View.stored, hallocator,
    hcache]
  rfl

/-- A large block moves between the registry, the free pool and the hands of the call. -/
theorem Ledger.move_large (ledger : Ledger setup w) (howner : (w.caches k).owner = some a)
    {large : LargeObjectState} (hallocator : v.allocator = { w.allocators a with large })
    (hcache : v.cache = w.caches k)
    (hlive : v.live.filterMap (Live.smallCell? setup) = w.live.filterMap (Live.smallCell? setup))
    (hsum : (large.liveBag + large.freeBag).map (largeCell a) + v.thread.cells setup =
      ((w.allocators a).large.liveBag + (w.allocators a).large.freeBag).map (largeCell a) +
        (w.threads k).cells setup) : Ledger setup (w.update a k v) := by
  have hcentral : v.allocator.central = (w.allocators a).central := by rw [hallocator]
  refine ledger.rearrange (c := .b64)
    (touches_allocator howner hcentral hcache (by rw [hallocator]))
    (fun d => by rw [hcentral]) 0 ?_ (by simp)
  rw [add_zero, View.holdings, View.holdings, View.settled, hlive, View.stored, hallocator, hcache,
    add_assoc, hsum]
  simp only [View.settled, World.view, View.stored, add_assoc]

omit [DecidableEq ι] [DecidableEq κ] in
theorem addLive_large (w : World ι κ Seq Seq) {entry : Live ι κ}
    (h : SizeClass.fromRequest entry.size = none) :
    (w.live ++ [entry]).filterMap (Live.smallCell? setup) =
      w.live.filterMap (Live.smallCell? setup) := by
  simp [Live.smallCell?, h]

theorem Arena.Reserves.next_le {arena arena' : Arena} {span : ReservedSpan}
    (h : Arena.Reserves arena span arena') : arena.next ≤ arena'.next := by
  have := le_alignUp arena.next arena.alignment
  rw [h.next_eq]
  simp only
  omega

/-- The arena gives up a span to the call. -/
theorem Ledger.take_span (ledger : Ledger setup w) (parts : Parts setup w)
    (howner : (w.caches k).owner = some a) {arena : Arena} {span : ReservedSpan}
    (hres : Arena.Reserves (w.allocators a).arena span arena) {pc pc' : Pc ι κ Seq}
    (ht : w.threads k = .busy a pc) (hblocks : pc.blocks = none) (hextent : pc.extent = none)
    (hblocks' : pc'.blocks = none) (hextent' : pc'.extent = some ⟨span.start, span.size⟩) :
    Ledger setup (w.update a k (((w.view a k).setArena arena).goto a pc')) := by
  refine ledger.reserve (c := .b64) (touches_allocator howner rfl rfl hres.next_le)
    (fun _ => rfl) parts hres ?_
  show _ + (Thread.busy a pc').cells setup = _ + (w.threads k).cells setup + _
  rw [ht, cells_of_extent hblocks' hextent', cells_of_none (c := .b64) hblocks hextent,
    Setup.smallCells_zero, add_zero]
  rfl

/-- The span in the hands of the call becomes a slab. -/
theorem Ledger.register (inv : Inv setup w) (howner : (w.caches k).owner = some a) {size n : Nat}
    {span : ReservedSpan} {m : Mem} {central : CentralPool Seq}
    (ht : w.threads k = .busy a (.carved c size span))
    (hsize : span.size = n * (w.allocators a).config.classBlockSize c)
    (h : CentralPool.Registered c w.mem m (w.allocators a).central central span.start
      ((w.allocators a).config.classBlockSize c) n) :
    Ledger setup (w.update a k ((((w.view a k).setMem m).setCentral central).goto a
      (.registered c size span.start ((w.allocators a).config.classBlockSize c) n))) := by
  have hconfig := (inv.parts.allocator a).config_eq
  obtain ⟨v, hv⟩ : ∃ v, v = (((w.view a k).setMem m).setCentral central).goto a
    (.registered c size span.start ((w.allocators a).config.classBlockSize c) n) := ⟨_, rfl⟩
  have hstored : v.stored c = (w.view a k).stored c := by
    simp only [hv, View.stored, View.setMem, View.setCentral, View.goto, World.view, ClassPool.bag,
      h.partialBag, h.fullBag, CentralPool.inboxBag, h.inbox]
  have hold : (w.view a k).holdings setup a c = (w.view a k).settled setup a c +
      {largeCell a ⟨span.start, n * (setup.config a).classBlockSize c⟩} := by
    show _ + (w.threads k).cells setup = _
    rw [ht, cells_of_extent rfl rfl, hsize, hconfig]
  have hnew : v.holdings setup a c = (w.view a k).settled setup a c +
      setup.smallCells a c (slabBlocks span.start ((setup.config a).classBlockSize c) n) := by
    rw [View.holdings, View.settled, hstored, hv, ← hconfig]
    show _ + (Thread.busy a _).cells setup = _
    rw [cells_of_blocks rfl rfl]
    rfl
  rw [← hv]
  refine inv.ledger.split (touches_central howner h.only (hv ▸ rfl) (hv ▸ rfl)) (fun d s => ?_)
    hold hnew
  by_cases hd : d = c
  · subst hd
    simp only [hv, View.setMem, View.setCentral, View.goto, World.view, h.shapes,
      List.mem_append, List.mem_singleton, hconfig, true_and]
  · simp [hv, View.setCentral, View.goto, World.view, h.only.lists d hd, hd]

/-- The block in the hands of the call becomes the client's. -/
theorem Ledger.give (ledger : Ledger setup w) (howner : (w.caches k).owner = some a)
    {size block : Nat} {reuse : BlockReuse} {m : Mem} {outcome : Outcome}
    (ht : w.threads k = .busy a (.popped c size block reuse))
    (hsize : SizeClass.fromRequest size = some c) :
    Ledger setup (w.update a k ((((w.view a k).setMem m).addLive
      ⟨a, k, userPtrFromBlockStart block, size, fun _ => none⟩).finish outcome)) := by
  refine ledger.rearrange (c := c) (touches_allocator howner rfl rfl (Nat.le_refl _))
    (fun _ => rfl) 0 ?_ (by simp)
  obtain ⟨entry, hentry⟩ : ∃ entry : Live ι κ,
    entry = ⟨a, k, userPtrFromBlockStart block, size, fun _ => none⟩ := ⟨_, rfl⟩
  have hclient : (w.live ++ [entry]).filterMap (Live.smallCell? setup) =
      w.live.filterMap (Live.smallCell? setup) ++ [setup.smallCell a c block] := by
    simp [hentry, Live.smallCell?, hsize, blockStartFromUserPtr, userPtrFromBlockStart]
  rw [add_zero, ← hentry]
  show (((w.live ++ [entry]).filterMap _ : List (Cell ι)) : Multiset (Cell ι)) + _ + _ + 0 =
    _ + _ + _ + (w.threads k).cells setup
  rw [hclient, ht, cells_of_blocks rfl rfl, ← Multiset.coe_add, Multiset.coe_singleton,
    Multiset.coe_singleton, Setup.smallCells_singleton]
  simp only [World.view, View.stored, View.setMem, View.addLive, View.finish]
  ac_rfl

/-- Every transition keeps the ledger. -/
theorem Transition.ledger {pc : Pc ι κ Seq} (inv : Inv setup w) (ht : w.threads k = .busy a pc)
    (h : Transition setup.debug w a k pc v) : Ledger setup (w.update a k v) := by
  obtain ⟨howner, hok⟩ := inv.parts.thread k a pc ht
  have ledger := inv.ledger
  have hcells : (w.threads k).cells setup = (Thread.busy a pc).cells setup := by rw [ht]
  cases h with
  | @refill c size m central r h =>
    have hafter : (Thread.busy a (r.pc c size : Pc ι κ Seq)).cells setup =
        setup.smallCells a c (r.blocks : Multiset Nat) := by
      cases r with
      | empty => exact cells_of_none rfl rfl
      | batch blocks => exact cells_of_blocks rfl rfl
      | slab start blockSize capacity => exact cells_of_blocks rfl rfl
    refine ledger.move_central howner h.only h.shapes rfl rfl rfl
      (hcells.trans (cells_of_none rfl rfl)) hafter ?_
    rw [h.inbox, add_zero, add_zero, add_comm, ← h.bag, add_comm]
  | takeBatch hinv _ howned hfresh hshared _ =>
    refine ledger.move_class howner rfl rfl rfl (hcells.trans (cells_of_blocks rfl rfl))
      (cells_of_none rfl rfl) ?_
    rw [LocalClassCache.bag, LocalClassCache.bag, howned, hfresh, hshared]
    ac_rfl
  | @takeSlab c size start blockSize capacity class_ pc hpc hinv _ howned hfresh hshared _ =>
    have hbefore : (w.threads k).cells setup =
        setup.smallCells a c (slabBlocks start blockSize capacity : Multiset Nat) := by
      rcases hpc with rfl | rfl <;> exact hcells.trans (cells_of_blocks rfl rfl)
    apply ledger.move_class howner rfl rfl rfl hbefore (cells_of_none rfl rfl)
    rw [LocalClassCache.bag, LocalClassCache.bag, howned, hfresh, hshared]
    ac_rfl
  | carve h _ _ => exact ledger.take_span inv.parts howner h ht rfl rfl rfl rfl
  | carveNone => exact ledger.stay howner rfl rfl rfl hcells.symm
  | carveFail => exact ledger.stay howner rfl rfl rfl hcells.symm
  | register hn hsize h => exact Ledger.register inv howner ht hsize h
  | @pop c size block reuse class_ hinv _ htakes =>
    refine ledger.move_class howner rfl rfl rfl (hcells.trans (cells_of_none rfl rfl))
      (cells_of_blocks rfl rfl) ?_
    rw [htakes.bag, add_zero, Multiset.coe_singleton, add_comm, Multiset.singleton_add]
  | give => exact ledger.give howner ht hok
  | @largeReuse size blockSize block large hinv hlive hfree hle =>
    have hbag : large.liveBag = (w.allocators a).large.liveBag := by
      rw [LargeObjectState.liveBag, hlive, LargeObjectState.liveBag]
    apply ledger.move_large howner rfl rfl rfl
    show _ + (Thread.busy a _).cells setup = _
    rw [hcells, cells_of_extent rfl rfl, cells_of_none (c := .b64) rfl rfl, hfree, hbag,
      Setup.smallCells_zero, add_zero, Multiset.add_cons, Multiset.map_cons, add_comm,
      Multiset.singleton_add]
  | largeMiss => exact ledger.stay howner rfl rfl rfl hcells.symm
  | largeReserve h => exact ledger.take_span inv.parts howner h ht rfl rfl rfl rfl
  | largeFail => exact ledger.stay howner rfl rfl rfl hcells.symm
  | largeWrite => exact ledger.stay howner rfl rfl rfl hcells.symm
  | @largeUnwritable size start blockSize h =>
    refine ledger.rearrange (c := .b64) (touches_allocator howner rfl rfl (Nat.le_refl _))
      (fun _ => rfl) {largeCell a ⟨start, blockSize⟩} ?_ (by simp [largeCell])
    show _ + 0 + _ = _ + (w.threads k).cells setup
    rw [hcells, cells_of_extent rfl rfl, add_zero]
    rfl
  | @record size start blockSize large hinv hlive hfree =>
    have hbag : large.liveBag = ⟨start, blockSize⟩ ::ₘ (w.allocators a).large.liveBag := by
      rw [LargeObjectState.liveBag, hlive, List.map_cons, ← Multiset.cons_coe]
      rfl
    apply ledger.move_large howner rfl rfl (addLive_large w hok.1)
    show _ + 0 = _
    rw [hcells, cells_of_extent rfl rfl, hfree, hbag, add_zero, Multiset.cons_add,
      Multiset.map_cons, add_comm _ {_}, Multiset.singleton_add]
  | report => exact ledger.stay howner rfl rfl rfl hcells.symm
  | @push c block class_ spilled thread hinv hshapes hfresh howned hshared hthread =>
    have hafter : thread.cells setup = setup.smallCells a c 0 := by
      rcases hthread with rfl | ⟨_, rfl⟩
      · rfl
      · exact cells_of_none rfl rfl
    apply ledger.move_class howner rfl rfl rfl (hcells.trans (cells_of_blocks rfl rfl)) hafter
    ext b
    have := congrArg (Multiset.count b) howned
    simp only [LocalClassCache.bag, hfresh, hshared, Multiset.coe_singleton, add_zero,
      Multiset.count_add, Multiset.count_cons, Multiset.count_singleton] at this ⊢
    omega
  | @stage c block owner thread _ hthread =>
    have hafter : thread.cells setup = setup.smallCells a c 0 := by
      rcases hthread with rfl | rfl
      · rfl
      · exact cells_of_none rfl rfl
    apply ledger.move_returns howner rfl rfl rfl (hcells.trans (cells_of_blocks rfl rfl)) hafter
    rw [add_zero, ← Multiset.cons_coe, Multiset.coe_singleton, add_comm, Multiset.singleton_add]
  | release _ hinv hrecord hlive hliveBag hfreeBag =>
    apply ledger.move_large howner rfl rfl rfl
    show _ + 0 = _
    rw [hcells, cells_of_none (c := .b64) rfl rfl, Setup.smallCells_zero, add_zero, add_zero,
      hfreeBag, hliveBag, Multiset.add_cons, Multiset.cons_add]
  | refuse => exact ledger.move_large howner rfl rfl (addLive_large w hok) (by rw [hcells]; rfl)
  | flushEnd => exact ledger.stay howner rfl rfl rfl hcells.symm
  | flush => exact ledger.stay howner rfl rfl rfl hcells.symm
  | drainEnd => exact ledger.stay howner rfl rfl rfl hcells.symm
  | drainNext => exact ledger.stay howner rfl rfl rfl hcells.symm
  | drain h => exact ledger.stay howner rfl rfl rfl hcells.symm
  | @unstageNone c resume h =>
    cases resume <;> exact ledger.stay howner rfl rfl rfl hcells.symm
  | unstage =>
    refine ledger.move_returns howner rfl rfl rfl (hcells.trans (cells_of_none rfl rfl))
      (cells_of_blocks rfl rfl) ?_
    rw [Multiset.coe_nil, zero_add, add_zero]
  | @publish c batch resume central hinv only hlists hinbox =>
    refine ledger.move_central howner only (by rw [hlists]) ?_ ?_ ?_
      (hcells.trans (cells_of_blocks rfl rfl)) (resume_cells _ resume) ?_
    · cases resume <;> rfl
    · cases resume <;> rfl
    · cases resume <;> rfl
    · rw [hlists, hinbox]
      ac_rfl
  | @excess c max resume m batch class_ hinv hshapes _ drains =>
    refine ledger.move_class howner rfl rfl rfl (hcells.trans (cells_of_none rfl rfl))
      (cells_of_blocks rfl rfl) ?_
    rw [drains.bag, add_zero, add_comm]
  | @returnBatch c batch resume m central h =>
    refine ledger.move_central howner h.only h.shapes ?_ ?_ ?_
      (hcells.trans (cells_of_blocks rfl rfl)) (resume_cells _ resume) ?_
    · cases resume <;> rfl
    · cases resume <;> rfl
    · cases resume <;> rfl
    · rw [h.inbox, h.bag]
      ac_rfl

end Ledger

/-! ### The tokens -/

section Tokens

variable {setup : Setup ι κ} {w : World ι κ Seq Seq} {a : ι} {k : κ} {v : View ι κ Seq Seq}

theorem mem_tokens {h : Option κ} {entry : Live ι κ} (hmem : entry ∈ w.entries h)
    (hsize : SizeClass.fromRequest entry.size = none) : (entry.alloc, entry.ptr) ∈ w.tokens h := by
  cases h with
  | none =>
    refine Multiset.mem_coe.mpr (List.mem_map.mpr ⟨entry, List.mem_filter.mpr ⟨hmem, ?_⟩, rfl⟩)
    simp [hsize]
  | some j => exact Multiset.mem_coe.mpr (List.mem_map_of_mem hmem)

theorem entries_none {pc : Pc ι κ Seq} (h : pc.entry = none) :
    (Thread.busy a pc).entries = [] := by
  simp [Thread.entries, h]

theorem entries_resume (v : View ι κ Seq Seq) (resume : Resume) :
    (v.resume a resume).thread.entries = [] := by
  cases resume <;> rfl

variable [DecidableEq ι] [DecidableEq κ]

theorem tokens_update_ne {j : κ} (hj : j ≠ k) :
    (w.update a k v).tokens (some j) = w.tokens (some j) := by
  simp [World.tokens, hj]

theorem entries_update_ne {j : κ} (hj : j ≠ k) :
    (w.update a k v).entries (some j) = w.entries (some j) := by
  simp [World.entries, hj]

instance symm_ne : Std.Symm (fun x y : ι × Nat => x ≠ y) := ⟨fun _ _ h => h.symm⟩

/-- The client and the call exchange tokens, or give them up. -/
theorem Tokens.redistribute (tokens : Tokens w)
    (hsum : (w.update a k v).tokens none + (w.update a k v).tokens (some k) ≤
      w.tokens none + w.tokens (some k))
    (hrecord : ∀ h, ∀ entry ∈ (w.update a k v).entries h,
      SizeClass.fromRequest entry.size = none → ∃ g, entry ∈ w.entries g ∧
        ∀ record, (entry.ptr, record) ∈ (w.allocators entry.alloc).large.live →
          (entry.ptr, record) ∈ ((w.update a k v).allocators entry.alloc).large.live) :
    Tokens (w.update a k v) where
  apart := by
    refine tokens.apart.redistribute {none, some k} (fun h hh => ?_) ?_
    · cases h with
      | none => simp at hh
      | some j => exact tokens_update_ne (fun hj => hh (by simp [hj]))
    · rwa [Finset.sum_pair (by simp), Finset.sum_pair (by simp)]
  record := fun h entry hmem hsize => by
    obtain ⟨g, hg, hkeep⟩ := hrecord h entry hmem hsize
    obtain ⟨record, hin, hreq⟩ := tokens.record g entry hg hsize
    exact ⟨record, hkeep record hin, hreq⟩

/-- A step that leaves the clients, the release in progress and the registry alone. -/
theorem Tokens.stay (tokens : Tokens w)
    (hlive : v.live.filter (fun l => (SizeClass.fromRequest l.size).isNone) =
      w.live.filter fun l => (SizeClass.fromRequest l.size).isNone)
    (hentries : v.thread.entries = (w.threads k).entries)
    (hlarge : v.allocator.large.live = (w.allocators a).large.live) :
    Tokens (w.update a k v) := by
  refine tokens.redistribute (by simp [World.tokens, hlive, hentries]) fun h entry hmem hsize => ?_
  have hkeep : ((w.update a k v).allocators entry.alloc).large.live =
      (w.allocators entry.alloc).large.live := by
    by_cases ha : entry.alloc = a
    · rw [ha, World.update_allocators_same, hlarge]
    · rw [World.update_allocators_ne _ _ ha]
  refine ⟨h, ?_, fun record hin => hkeep ▸ hin⟩
  cases h with
  | none =>
    have : entry ∈ v.live.filter fun l => (SizeClass.fromRequest l.size).isNone :=
      List.mem_filter.mpr ⟨hmem, by simp [hsize]⟩
    rw [hlive] at this
    exact List.mem_of_mem_filter this
  | some j =>
    by_cases hj : j = k
    · subst hj
      simpa [World.entries, hentries] using hmem
    · rwa [entries_update_ne hj] at hmem

/-- A step of a call that releases nothing, on another registry than its own or none. -/
theorem Tokens.stay_call (tokens : Tokens w) {pc : Pc ι κ Seq} (ht : w.threads k = .busy a pc)
    (hpc : pc.entry = none) (hentries : v.thread.entries = []) (hlive : v.live = w.live)
    (hlarge : v.allocator.large.live = (w.allocators a).large.live) :
    Tokens (w.update a k v) :=
  tokens.stay (by rw [hlive]) (by rw [hentries, ht, entries_none hpc]) hlarge

omit [DecidableEq ι] [DecidableEq κ] in
theorem mem_entries_some {j : κ} {entry : Live ι κ} (h : entry ∈ w.entries (some j)) :
    ∃ b requested usable, w.threads j = .busy b (.releasing entry requested usable) := by
  cases ht : w.threads j with
  | idle => simp [World.entries, ht, Thread.entries] at h
  | busy b pc =>
    have hpc : pc.entry = some entry := by
      simpa [World.entries, ht, Thread.entries] using h
    cases pc with
    | releasing e requested usable =>
      obtain rfl := Option.some.inj hpc
      exact ⟨b, requested, usable, rfl⟩
    | _ => cases hpc

omit [DecidableEq ι] [DecidableEq κ] in
theorem Parts.of_mem_tokens (parts : Parts setup w) {h : Option κ} {x : ι × Nat}
    (hx : x ∈ w.tokens h) : ∃ entry ∈ w.entries h,
      SizeClass.fromRequest entry.size = none ∧ (entry.alloc, entry.ptr) = x := by
  cases h with
  | none =>
    obtain ⟨entry, hentry, heq⟩ := List.mem_map.mp (Multiset.mem_coe.mp hx)
    obtain ⟨hmem, hnone⟩ := List.mem_filter.mp hentry
    exact ⟨entry, hmem, by simpa using hnone, heq⟩
  | some j =>
    obtain ⟨entry, hentry, heq⟩ := List.mem_map.mp (Multiset.mem_coe.mp hx)
    obtain ⟨b, requested, usable, ht⟩ := mem_entries_some hentry
    exact ⟨entry, hentry, (parts.thread j b _ ht).2, heq⟩

/-- A registered block becomes a token of the client. -/
theorem Tokens.record_large (inv : Inv setup w) {size start blockSize : Nat}
    {large : LargeObjectState} {outcome : Outcome}
    (ht : w.threads k = .busy a (.largeWritten size start blockSize))
    (hlive : large.live = (start + headerSize,
      ⟨start, blockSize, size, blockSize - headerSize⟩) :: (w.allocators a).large.live) :
    Tokens (w.update a k ((((w.view a k).setLarge large).addLive
      ⟨a, k, userPtrFromBlockStart start, size, fun _ => none⟩).finish outcome)) := by
  have hsize : SizeClass.fromRequest size = none := (inv.parts.thread k a _ ht).2.1
  have hfresh := inv.extent_unregistered ht rfl
  have hentries : (w.threads k).entries = [] := by rw [ht]; rfl
  obtain ⟨entry, hentry⟩ : ∃ entry : Live ι κ,
    entry = ⟨a, k, userPtrFromBlockStart start, size, fun _ => none⟩ := ⟨_, rfl⟩
  obtain ⟨v, hv⟩ : ∃ v, v = (((w.view a k).setLarge large).addLive entry).finish outcome :=
    ⟨_, rfl⟩
  have hnew : (w.update a k v).tokens none = w.tokens none + {(a, start + headerSize)} := by
    simp [World.tokens, hv, View.finish, View.addLive, View.setLarge, World.view, hentry, hsize,
      userPtrFromBlockStart, ← Multiset.coe_add, Multiset.coe_singleton]
  have hsame : ∀ j, (w.update a k v).entries (some j) = w.entries (some j) := by
    intro j
    by_cases hj : j = k
    · subst hj
      simp only [World.entries, World.update_threads_same, hv, hentries]
      rfl
    · exact entries_update_ne hj
  have hin : ∑ h ∈ ({none} : Finset (Option κ)), (w.update a k v).tokens h ≤
      ∑ h ∈ ({none} : Finset (Option κ)), w.tokens h + {(a, start + headerSize)} := by
    rw [Finset.sum_singleton, Finset.sum_singleton, hnew]
  rw [← hentry, ← hv]
  refine ⟨inv.tokens.apart.grow {none} (fun h hh => ?_) hin ?_ ?_, fun h other hmem hlarge => ?_⟩
  · cases h with
    | none => simp at hh
    | some j => exact congrArg (fun l => ((l.map fun l => (l.alloc, l.ptr) : List (ι × Nat)) :
        Multiset (ι × Nat))) (hsame j)
  · exact ⟨[(a, start + headerSize)], rfl, List.pairwise_singleton _ _⟩
  · rintro x hx h y hy rfl
    obtain rfl := Multiset.mem_singleton.mp hx
    -- every token has its record, and the new pointer is not registered yet
    obtain ⟨other, hother, hlarge, heq⟩ := inv.parts.of_mem_tokens hy
    obtain ⟨ha, hptr⟩ := Prod.mk.inj heq
    obtain ⟨record, hrecord, _⟩ := inv.tokens.record h other hother hlarge
    rw [ha] at hrecord
    exact hfresh _ hrecord hptr
  · have hgrow : ∀ b, ∀ e ∈ (w.allocators b).large.live,
        e ∈ ((w.update a k v).allocators b).large.live := by
      intro b e he
      by_cases hb : b = a
      · subst hb
        simp only [World.update_allocators_same, hv, View.finish, View.addLive, View.setLarge,
          hlive]
        exact List.mem_cons_of_mem _ he
      · rwa [World.update_allocators_ne _ _ hb]
    have hold : ∀ g, other ∈ w.entries g → ∃ record,
        (other.ptr, record) ∈ ((w.update a k v).allocators other.alloc).large.live ∧
          record.requestedSize = other.size := by
      intro g hg
      obtain ⟨record, hrecord, hreq⟩ := inv.tokens.record g other hg hlarge
      exact ⟨record, hgrow _ _ hrecord, hreq⟩
    cases h with
    | some j => exact hold (some j) (hsame j ▸ hmem)
    | none =>
      have hmem' : other ∈ w.live ++ [entry] := by
        simpa [World.entries, hv, View.finish, View.addLive, View.setLarge, World.view] using hmem
      rcases List.mem_append.mp hmem' with hmem | hmem
      · exact hold none hmem
      · obtain rfl := List.mem_singleton.mp hmem
        refine ⟨⟨start, blockSize, size, blockSize - headerSize⟩, ?_, by rw [hentry]⟩
        simp [hentry, hv, View.finish, View.addLive, View.setLarge, hlive, userPtrFromBlockStart]

/-- A released block takes its token along. -/
theorem Tokens.release_large (inv : Inv setup w) {entry : Live ι κ} {requested usable : Nat}
    {large : LargeObjectState} {outcome : Outcome}
    (ht : w.threads k = .busy a (.releasing entry requested usable)) (ha : entry.alloc = a)
    (hlive : ∀ e, e ∈ large.live ↔ e ∈ (w.allocators a).large.live ∧ e.1 ≠ entry.ptr) :
    Tokens (w.update a k (((w.view a k).setLarge large).finish outcome)) := by
  have hmine : (a, entry.ptr) ∈ w.tokens (some k) := by
    simp [World.tokens, ht, Thread.entries, Pc.entry, ha]
  refine inv.tokens.redistribute ?_ fun h other hmem hlarge => ?_
  · rw [show (w.update a k (((w.view a k).setLarge large).finish outcome)).tokens (some k) = 0 by
      simp [World.tokens, View.finish, Thread.entries], add_zero]
    exact Multiset.le_add_right _ _
  · have hh : h ≠ some k := by
      rintro rfl
      simp [World.entries, View.finish, Thread.entries] at hmem
    have hmem' : other ∈ w.entries h := by
      cases h with
      | none => exact hmem
      | some j => rwa [entries_update_ne fun hj => hh (by rw [hj])] at hmem
    refine ⟨h, hmem', fun record hrecord => ?_⟩
    by_cases hb : other.alloc = a
    · have hne := inv.tokens.apart.of_ne hh (mem_tokens hmem' hlarge) hmine
      rw [hb] at hrecord ⊢
      simp only [World.update_allocators_same, View.finish, View.setLarge, hlive]
      exact ⟨hrecord, fun hptr => hne (by rw [hb, hptr])⟩
    · rwa [World.update_allocators_ne _ _ hb]

/-- A refused release gives the token back to the client. -/
theorem Tokens.refuse (tokens : Tokens w) {entry : Live ι κ} {requested usable : Nat}
    {outcome : Outcome} (ht : w.threads k = .busy a (.releasing entry requested usable))
    (hsize : SizeClass.fromRequest entry.size = none) :
    Tokens (w.update a k (((w.view a k).addLive entry).finish outcome)) := by
  have hmine : entry ∈ w.entries (some k) := by
    simp [World.entries, ht, Thread.entries, Pc.entry]
  refine tokens.redistribute ?_ fun h other hmem hlarge => ?_
  · simp [World.tokens, View.finish, View.addLive, World.view, hsize, ht, Thread.entries, Pc.entry,
      ← Multiset.coe_add, Multiset.coe_singleton]
  · have hkeep : ∀ b, ((w.update a k (((w.view a k).addLive entry).finish outcome)).allocators
        b).large.live = (w.allocators b).large.live := by
      intro b
      by_cases hb : b = a
      · subst hb
        simp [View.finish, View.addLive, World.view]
      · rw [World.update_allocators_ne _ _ hb]
    suffices hg : ∃ g, other ∈ w.entries g by
      obtain ⟨g, hg⟩ := hg
      exact ⟨g, hg, fun record hrecord => hkeep _ ▸ hrecord⟩
    cases h with
    | none =>
      have hmem' : other ∈ w.live ++ [entry] := by
        simpa [World.entries, View.finish, View.addLive, World.view] using hmem
      rcases List.mem_append.mp hmem' with hmem | hmem
      · exact ⟨none, hmem⟩
      · exact ⟨some k, List.mem_singleton.mp hmem ▸ hmine⟩
    | some j =>
      have hj : j ≠ k := by
        rintro rfl
        simp [World.entries, View.finish, Thread.entries] at hmem
      rw [entries_update_ne hj] at hmem
      exact ⟨some j, hmem⟩

/-- Every transition keeps the tokens. -/
theorem Transition.tokens {pc : Pc ι κ Seq} (inv : Inv setup w) (ht : w.threads k = .busy a pc)
    (h : Transition setup.debug w a k pc v) : Tokens (w.update a k v) := by
  obtain ⟨_, hok⟩ := inv.parts.thread k a pc ht
  have tokens := inv.tokens
  cases h with
  | @refill c size m central r h =>
    refine tokens.stay_call ht rfl ?_ rfl rfl
    cases r <;> rfl
  | takeSlab hpc =>
    rcases hpc with rfl | rfl <;> exact tokens.stay_call ht rfl rfl rfl rfl
  | @give c size block reuse =>
    refine tokens.stay ?_ (by rw [ht]; rfl) rfl
    have hsize : SizeClass.fromRequest size = some c := hok
    simp [View.finish, View.addLive, View.setMem, World.view, hsize]
  | largeReuse _ hlive => exact tokens.stay_call ht rfl rfl rfl hlive
  | record _ hlive _ => exact Tokens.record_large inv ht hlive
  | push _ _ _ _ _ hthread =>
    rcases hthread with rfl | ⟨_, rfl⟩ <;> exact tokens.stay_call ht rfl rfl rfl rfl
  | stage _ hthread => rcases hthread with rfl | rfl <;> exact tokens.stay_call ht rfl rfl rfl rfl
  | release ha _ _ hlive _ _ => exact Tokens.release_large inv ht ha hlive
  | refuse => exact tokens.refuse ht hok
  | @unstageNone c resume h => cases resume <;> exact tokens.stay_call ht rfl rfl rfl rfl
  | @publish c batch resume => cases resume <;> exact tokens.stay_call ht rfl rfl rfl rfl
  | @returnBatch c batch resume => cases resume <;> exact tokens.stay_call ht rfl rfl rfl rfl
  | _ => exact tokens.stay_call ht rfl rfl rfl rfl

end Tokens

end Orthotope
