import Orthotope.FreeChecks

/-! The other actions: the start of a call, which binds its cache first, the stores of the clients
and the discards of the system.  With the transitions they make up every run, so the invariant holds
in every reachable state. -/

namespace Orthotope

open ByteMemory Ownership

variable {ι κ : Type}

namespace World

variable [DecidableEq ι] [DecidableEq κ] {L B : Type} (w : World ι κ L B) (a : ι) (k : κ)

@[simp] theorem update_update (v v' : View ι κ L B) :
    (w.update a k v).update a k v' = w.update a k v' := by
  simp [update, Function.update_idem]

@[simp] theorem update_view : w.update a k (w.view a k) = w := by
  simp [update, view, Function.update_eq_self]

theorem update_finish (outcome : Outcome) : w.update a k ((w.view a k).finish outcome) =
    { w with threads := Function.update w.threads k (.idle (some outcome)) } := by
  simp [update, view, View.finish, Function.update_eq_self]

end World

section Start

variable {setup : Setup ι κ} {w : World ι κ Seq Seq} {a : ι} {k : κ}

/-! ### Binding a cache -/

/-- Threads that are between calls, and caches without blocks, have no part in the ledger. -/
theorem Inv.of_same_cells (inv : Inv setup w) {w' : World ι κ Seq Seq} (parts' : Parts setup w')
    (hmem : w'.mem = w.mem) (hallocators : w'.allocators = w.allocators) (hlive : w'.live = w.live)
    (hthreads : ∀ k, w'.threads k = w.threads k ∨
      (∃ o, w.threads k = .idle o) ∧ ∃ o, w'.threads k = .idle o)
    (hown : ∀ p, (∀ k, p ≠ .hand k) → w'.own setup p = w.own setup p) : Inv setup w' := by
  have hcells : w'.own setup = w.own setup := by
    funext p
    by_cases hp : ∀ k, p ≠ .hand k
    · exact hown p hp
    · push Not at hp
      obtain ⟨j, rfl⟩ := hp
      rcases hthreads j with h | ⟨⟨o, h⟩, o', h'⟩
      · simp [World.own, h]
      · simp [World.own, h, h', Thread.cells]
  have hentries : w'.entries = w.entries := by
    funext g
    cases g with
    | none => exact hlive
    | some j =>
      rcases hthreads j with h | ⟨⟨o, h⟩, o', h'⟩
      · simp [World.entries, h]
      · simp [World.entries, h, h', Thread.entries]
  have htokens : w'.tokens = w.tokens := by
    funext g
    cases g with
    | none => simp [World.tokens, hlive]
    | some j =>
      have := congrFun hentries (some j)
      simp only [World.entries] at this
      simp [World.tokens, this]
  refine ⟨parts', ⟨hcells ▸ inv.ledger.apart, fun x hx => ?_, fun p x hx => ?_⟩,
    ⟨htokens ▸ inv.tokens.apart, fun g entry hg hsize => ?_⟩, ⟨fun p t ht x hx c hc => ?_,
      fun g entry hg => ?_, fun j b pc hpc => ?_, fun b x h1 h2 => ?_⟩⟩
  · rw [hcells]
    simpa [IsSlabCell, hallocators] using inv.ledger.covered x hx
  · have h := inv.ledger.inArena p x (hcells ▸ hx)
    exact ⟨h.base_le, h.lo_lt, by rw [hallocators]; exact h.hi_le, h.dvd_lo⟩
  · rw [hallocators]
    exact inv.tokens.record g entry (hentries ▸ hg) hsize
  · rw [hmem]
    rw [hcells] at hx
    refine inv.memory.free p t ?_ x hx c hc
    rw [← ht]
    cases p with
    | hand j =>
      rcases hthreads j with h | ⟨⟨o, h⟩, o', h'⟩
      · simp [World.trust, h]
      · simp [World.trust, h, h', Thread.trust]
    | _ => rfl
  · obtain ⟨h1, h2, h3, h4, h5⟩ := inv.memory.entry g entry (hentries ▸ hg)
    exact ⟨h1, h2, by rwa [hmem], by rwa [hmem, hallocators], by rwa [hmem]⟩
  · rcases hthreads j with h | ⟨_, o', h'⟩
    · rw [hmem]
      exact inv.memory.pc j b pc (h ▸ hpc)
    · cases h'.symm.trans hpc
  · rw [hmem]
    rw [hallocators] at h1
    exact inv.memory.untouched b x h1 h2

theorem Parts.isEmpty_iff (parts : Parts setup w) (k : κ) : (w.caches k).isEmpty = true ↔
    ∀ c, ((w.caches k).classes c).bag = 0 ∧ ((w.caches k).remoteReturns c).pending = [] := by
  simp only [ThreadCache.isEmpty, Bool.and_eq_true, List.all_eq_true, SizeClass.mem_all,
    forall_true_left, forall_and]
  refine and_congr (forall_congr' fun c => ?_) (forall_congr' fun c => ?_)
  · rw [LocalClassCache.isEmpty, beq_iff_eq, ((parts.cache k).class_inv c).totalLen_eq,
      Multiset.card_eq_zero]
  · exact RemoteReturns.isEmpty_iff ((parts.cache k).returns_ok c)

variable [DecidableEq ι] [DecidableEq κ]

/-- An outcome is for the client only. -/
theorem Inv.finish (inv : Inv setup w) {outcome : Option Outcome}
    (ht : w.threads k = .idle outcome) (result : Outcome) :
    Inv setup (w.update a k ((w.view a k).finish result)) := by
  rw [World.update_finish]
  have hthreads : ∀ j, Function.update w.threads k (.idle (some result)) j = w.threads j ∨
      (∃ o, w.threads j = .idle o) ∧
        ∃ o, Function.update w.threads k (.idle (some result)) j = .idle o := by
    intro j
    by_cases hj : j = k
    · subst hj
      exact Or.inr ⟨⟨_, ht⟩, _, Function.update_self ..⟩
    · exact Or.inl (Function.update_of_ne hj ..)
  refine inv.of_same_cells ⟨inv.parts.pageSize_eq, inv.parts.allocator, inv.parts.cache,
    inv.parts.home, fun j b pc h => ?_⟩ rfl rfl rfl hthreads fun p hp => ?_
  · rcases hthreads j with hj | ⟨_, o, hj⟩
    · exact inv.parts.thread j b pc (hj ▸ h)
    · cases hj.symm.trans h
  · cases p with
    | hand j => exact absurd rfl (hp j)
    | _ => rfl

/-- Replacing a cache without blocks by a new one changes nothing for the others. -/
theorem Inv.rebind (inv : Inv setup w) {outcome : Option Outcome} (ht : w.threads k = .idle outcome)
    (hzero : ∀ c, ((w.caches k).classes c).bag = 0 ∧ ((w.caches k).remoteReturns c).pending = [])
    {cache : ThreadCache ι Seq} (hok : CacheOk setup k cache) (howner : cache.owner = some a)
    (hnew : ∀ c, cache.classes c = LocalClassCache.new ∧
      cache.remoteReturns c = RemoteReturns.new) :
    Inv setup (w.update a k ((w.view a k).setCache cache)) := by
  have hcells : ∀ {j : κ} {c : SizeClass} {s s' : Multiset Nat}, j = k → s = 0 → s' = 0 →
      (w.update a k ((w.view a k).setCache cache)).cacheCells setup j c s' =
        w.cacheCells setup j c s := by
    rintro j c s s' rfl rfl rfl
    simp only [World.cacheCells, Setup.smallCells_zero]
    split <;> split <;> rfl
  have hclass : ∀ j c (f : LocalClassCache Seq → Multiset Nat),
      (∀ class_ : LocalClassCache Seq, f class_ ≤ class_.bag) →
      (w.update a k ((w.view a k).setCache cache)).cacheCells setup j c
          (f (((w.update a k ((w.view a k).setCache cache)).caches j).classes c)) =
        w.cacheCells setup j c (f ((w.caches j).classes c)) := by
    intro j c f hf
    by_cases hj : j = k
    · refine hcells hj ?_ ?_
      · rw [hj]
        exact Multiset.le_zero.mp ((hf _).trans (hzero c).1.le)
      · rw [hj, World.update_caches_same, View.setCache, (hnew c).1]
        exact Multiset.le_zero.mp ((hf _).trans LocalClassCache.new_bag.le)
    · simp [World.cacheCells, hj]
  refine inv.of_same_cells ?_ rfl ?_ rfl (fun j => Or.inl ?_) fun p hp => ?_
  · refine inv.parts.update rfl (inv.parts.allocator a) hok howner (fun c s hs => ?_)
      (fun _ _ h => h) fun b pc h => by cases ht.symm.trans h
    simp [View.setCache, (hnew c).1, LocalClassCache.new, LocalClassCache.shapes] at hs
  · exact Function.update_eq_self ..
  · exact congrFun (Function.update_eq_self k w.threads) j
  · have halloc : (w.update a k ((w.view a k).setCache cache)).allocators = w.allocators :=
      Function.update_eq_self ..
    cases p with
    | client => rfl
    | hot j c => exact hclass j c _ fun class_ => class_.hotBag_le_bag
    | slabFree j c => exact hclass j c _ fun class_ => class_.freeBag_le_bag
    | fresh j c => exact hclass j c _ fun class_ => class_.freshBag_le_bag
    | shared j c => exact hclass j c _ fun class_ => class_.sharedBag_le_bag
    | staged j c =>
      by_cases hj : j = k
      · refine hcells hj ?_ ?_
        · rw [hj, (hzero c).2]
          rfl
        · rw [hj, World.update_caches_same, View.setCache, (hnew c).2]
          rfl
      · simp [World.own, World.cacheCells, hj]
    | hand j => exact absurd rfl (hp j)
    | _ => simp only [World.own, halloc]

/-- A binding that is not refused keeps the invariant. -/
theorem Inv.bind (inv : Inv setup w) {outcome : Option Outcome} (ht : w.threads k = .idle outcome)
    {cache : ThreadCache ι Seq}
    (hbind : (w.caches k).bindToAllocator a (w.allocators a).config = some cache) :
    Inv setup (w.update a k ((w.view a k).setCache cache)) ∧ cache.owner = some a := by
  unfold ThreadCache.bindToAllocator at hbind
  split at hbind
  · rename_i howner
    obtain rfl := Option.some.inj hbind
    have : w.update a k ((w.view a k).setCache (w.caches k)) = w := w.update_view a k
    rw [this]
    exact ⟨inv, howner⟩
  · split at hbind
    · cases hbind
    · rename_i hempty
      have hcache := Option.some.inj hbind
      have hzero := (inv.parts.isEmpty_iff k).mp (by simpa using hempty)
      have howner : cache.owner = some a := by rw [← hcache]
      refine ⟨inv.rebind ht hzero ⟨?_, ?_, ?_, ?_, ?_⟩ howner ?_, howner⟩
      · rw [← hcache]
        exact (inv.parts.cache k).cacheId_eq
      · exact hcache ▸ fun _ => LocalClassCache.new_inv
      · exact hcache ▸ fun _ => RemoteReturns.new_ok
      · exact fun h => by cases howner.symm.trans h
      · intro b hb
        obtain rfl := Option.some.inj (howner.symm.trans hb)
        rw [← hcache, (inv.parts.allocator a).config_eq]
      · exact hcache ▸ fun _ => ⟨rfl, rfl⟩

/-! ### Calls that take nothing from the client -/

/-- A call begins, or ends at once, with empty hands. -/
theorem Inv.enter (inv : Inv setup w) {outcome : Option Outcome} (ht : w.threads k = .idle outcome)
    (howner : (w.caches k).owner = some a) {thread : Thread ι κ Seq}
    (hok : ∀ b pc, thread = .busy b pc →
      b = a ∧ PcOk setup a (w.allocators a).central (w.caches k) pc)
    (hblocks : ∀ b pc, thread = .busy b pc →
      pc.blocks = none ∧ pc.extent = none ∧ pc.entry = none) :
    Inv setup (w.update a k { w.view a k with thread }) := by
  obtain ⟨v, hv⟩ : ∃ v, v = { w.view a k with thread } := ⟨_, rfl⟩
  have hthread : v.thread = thread := hv ▸ rfl
  have hcells : thread.cells setup = 0 := by
    cases thread with
    | idle => rfl
    | busy b pc =>
      obtain ⟨h1, h2, _⟩ := hblocks b pc rfl
      exact cells_of_none (c := .b64) h1 h2
  have hentries : thread.entries = [] := by
    cases thread with
    | idle => rfl
    | busy b pc => exact entries_none (hblocks b pc rfl).2.2
  have parts' : Parts setup (w.update a k v) := by
    rw [hv]
    exact inv.parts.update rfl (inv.parts.allocator a) (inv.parts.cache k) howner
      (inv.parts.home k a howner) (fun _ _ h => h) hok
  have ledger' : Ledger setup (w.update a k v) :=
    inv.ledger.stay howner (hv ▸ rfl) (hv ▸ rfl) (hv ▸ rfl) (by rw [hthread, hcells, ht]; rfl)
  have tokens' : Tokens (w.update a k v) :=
    inv.tokens.stay (by rw [hv]; rfl) (by rw [hthread, hentries, ht]; rfl) (by rw [hv]; rfl)
  rw [← hv]
  refine ⟨parts', ledger', tokens', inv.memory_move (c := .b64)
    (touches_allocator howner (hv ▸ rfl) (hv ▸ rfl) (by rw [hv]; exact Nat.le_refl _)) parts'
    ledger' tokens' (hv ▸ rfl) (hv ▸ rfl) (hthread ▸ hentries) (by rw [hv]; rfl)
    ((inv.memory.promises howner .b64).stay (hv ▸ rfl) (hv ▸ rfl)) ?_ ?_⟩
  · rw [hthread]
    intro b pc c blocks heq hpc
    cases (hblocks b pc heq).1.symm.trans hpc
  · intro b pc heq
    obtain ⟨_, h2, h3⟩ := hblocks b pc (hthread ▸ heq)
    cases pc with
    | carved => cases h2
    | largeWritten => cases h2
    | releasing => cases h3
    | _ => trivial

/-- The block of a large request is the header and the request, rounded up. -/
theorem largeBlockSize_eq {L : Type} {allocator : Allocator L} {size blockSize : Nat}
    (h : allocator.largeBlockSize size = some blockSize) :
    blockSize = alignUp (headerSize + size) allocator.config.alignment := by
  unfold Allocator.largeBlockSize at h
  obtain ⟨total, htotal, h⟩ := Option.bind_eq_some_iff.mp h
  obtain ⟨rounded, hrounded, h⟩ := Option.bind_eq_some_iff.mp h
  split at h
  · cases h
  · obtain rfl := Option.some.inj h
    unfold checkedAdd at htotal
    split at htotal
    · obtain rfl := Option.some.inj htotal
      exact alignUpChecked_eq_some hrounded
    · cases htotal

theorem largeBlockSize_spec {allocator : Allocator Seq} {size blockSize : Nat}
    (h : allocator.largeBlockSize size = some blockSize) : headerSize + size ≤ blockSize := by
  rw [largeBlockSize_eq h]
  exact le_alignUp _ _

/-- The thread of a call that has just begun. -/
theorem Inv.goto (inv : Inv setup w) {outcome : Option Outcome} (ht : w.threads k = .idle outcome)
    (howner : (w.caches k).owner = some a) {pc : Pc ι κ Seq}
    (hok : PcOk setup a (w.allocators a).central (w.caches k) pc) (hblocks : pc.blocks = none)
    (hextent : pc.extent = none) (hentry : pc.entry = none) :
    Inv setup (w.update a k ((w.view a k).goto a pc)) := by
  refine inv.enter ht howner (fun b pc h => ?_) fun b pc h => ?_
  · obtain ⟨rfl, rfl⟩ := Thread.busy.inj h
    exact ⟨rfl, hok⟩
  · obtain ⟨rfl, rfl⟩ := Thread.busy.inj h
    exact ⟨hblocks, hextent, hentry⟩

theorem Inv.startAllocate (inv : Inv setup w) {outcome : Option Outcome}
    (ht : w.threads k = .idle outcome) (howner : (w.caches k).owner = some a) (size : Nat) :
    Inv setup (w.update a k ((w.view a k).startAllocate a size)) := by
  unfold View.startAllocate
  split
  · exact inv.finish ht _
  · rename_i hpos
    split
    · rename_i hclass
      split
      · exact inv.goto ht howner trivial rfl rfl rfl
      · rename_i blockSize hsize
        exact inv.goto ht howner ⟨hclass, by omega, largeBlockSize_spec hsize⟩ rfl rfl rfl
    · rename_i c hclass
      split
      · exact inv.goto ht howner hclass rfl rfl rfl
      · rename_i hfull
        refine inv.goto ht howner ⟨hclass, ?_⟩ rfl rfl rfl
        simpa [ThreadCache.needsRefill, LocalClassCache.isEmpty, World.view] using hfull

/-! ### Frees -/

/-- A free of a small block takes its cell from the client. -/
theorem Ledger.take (ledger : Ledger setup w) {outcome : Option Outcome}
    (ht : w.threads k = .idle outcome) (howner : (w.caches k).owner = some a) {entry : Live ι κ}
    {pre post : List (Live ι κ)} (hlive : w.live = pre ++ entry :: post) (ha : entry.alloc = a)
    {c : SizeClass} (hc : SizeClass.fromRequest entry.size = some c) (m : Mem) (owner : Nat) :
    Ledger setup (w.update a k { ((w.view a k).setMem m).goto a
      (.route c (blockStartFromUserPtr entry.ptr) owner) with live := pre ++ post }) := by
  refine ledger.rearrange (c := c) (touches_allocator howner rfl rfl (Nat.le_refl _))
    (fun _ => rfl) 0 ?_ (by simp)
  have hcell : entry.smallCell? setup =
      some (setup.smallCell a c (blockStartFromUserPtr entry.ptr)) := by
    simp [Live.smallCell?, hc, ha]
  show (((pre ++ post).filterMap _ : List (Cell ι)) : Multiset (Cell ι)) + _ + _ +
    (Thread.busy a (.route c (blockStartFromUserPtr entry.ptr) owner)).cells setup + 0 =
    ((w.live.filterMap _ : List (Cell ι)) : Multiset (Cell ι)) + _ + _ + (w.threads k).cells setup
  rw [cells_of_blocks rfl rfl, ht, hlive, List.filterMap_append, List.filterMap_append,
    List.filterMap_cons_some hcell]
  simp only [← Multiset.coe_add, ← Multiset.cons_coe, Thread.cells, ← Multiset.singleton_add,
    World.view, View.stored, View.setMem, View.goto]
  ac_rfl

/-- The free of a live small block marks it and takes it. -/
theorem Inv.takeSmall (inv : Inv setup w) {outcome : Option Outcome}
    (ht : w.threads k = .idle outcome) (howner : (w.caches k).owner = some a) {entry : Live ι κ}
    {pre post : List (Live ι κ)} (hlive : w.live = pre ++ entry :: post) (ha : entry.alloc = a)
    {c : SizeClass} (hc : SizeClass.fromRequest entry.size = some c) :
    Inv setup (w.update a k { ((w.view a k).setMem (markSmallBlockFreed setup.debug w.mem
      (blockStartFromUserPtr entry.ptr))).goto a (.route c (blockStartFromUserPtr entry.ptr)
        (setup.cacheId entry.cache)) with live := pre ++ post }) := by
  obtain ⟨b, hb⟩ : ∃ b, b = blockStartFromUserPtr entry.ptr := ⟨_, rfl⟩
  have hmem : entry ∈ w.live := by simp [hlive]
  have ok := inv.memory.entry none entry hmem
  have hw := writesIn_mark setup.debug w.mem b
  have ledger' := inv.ledger.take ht howner hlive ha hc
    (markSmallBlockFreed setup.debug w.mem b) (setup.cacheId entry.cache)
  obtain ⟨v, hv⟩ : ∃ v : View ι κ Seq Seq,
    v = { ((w.view a k).setMem (markSmallBlockFreed setup.debug w.mem b)).goto a
      (.route c b (setup.cacheId entry.cache)) with live := pre ++ post } := ⟨_, rfl⟩
  rw [← hb, ← hv] at ledger' ⊢
  have hmem' : v.mem = markSmallBlockFreed setup.debug w.mem b := hv ▸ rfl
  have hthread : v.thread = .busy a (.route c b (setup.cacheId entry.cache)) := hv ▸ rfl
  have hcache : v.cache = w.caches k := hv ▸ rfl
  have halloc : v.allocator = w.allocators a := hv ▸ rfl
  have hrest : v.live = pre ++ post := hv ▸ rfl
  have hsub : ∀ other ∈ pre ++ post, other ∈ w.live := by
    intro other h
    rw [hlive]
    rcases List.mem_append.mp h with h | h
    · exact List.mem_append.mpr (Or.inl h)
    · exact List.mem_append.mpr (Or.inr (List.mem_cons_of_mem _ h))
  have parts' : Parts setup (w.update a k v) := by
    refine inv.parts.update ?_ (halloc ▸ inv.parts.allocator a) (hcache ▸ inv.parts.cache k)
      (hcache ▸ howner) ?_ (fun _ _ h => halloc ▸ h) fun b' pc h => ?_
    · rw [hmem']
      exact hw.pageSize
    · rw [halloc, hcache]
      exact inv.parts.home k a howner
    · rw [hthread] at h
      obtain ⟨rfl, rfl⟩ := Thread.busy.inj h
      exact ⟨rfl, trivial⟩
  have tokens' : Tokens (w.update a k v) := by
    refine inv.tokens.stay ?_ (by rw [hthread, ht]; rfl) (by rw [halloc])
    rw [hrest, hlive]
    simp [hc]
  refine ⟨parts', ledger', tokens', ?_⟩
  have hcell : setup.smallCell a c b ∈ (w.update a k v).own setup (.hand k) :=
    mem_own_hand (by rw [World.update_threads_same, hthread]) rfl (by simp)
  have d : Discipline setup w a k c v (inHeader b) fun _ => False := by
    refine ⟨hmem' ▸ hw.changes, fun y hy => ⟨_, Or.inr hcell, hy.1, ?_⟩, fun _ h => h.elim⟩
    have h1 := ledger'.header_le hcell rfl
    have h2 := hy.2
    simp only [Setup.smallCell] at h1 ⊢
    omega
  refine d.memory inv (touches_allocator howner (by rw [halloc]) hcache (by rw [halloc])) parts'
    ledger' tokens' (fun _ _ h => Or.inl (halloc ▸ h)) (fun p hp u hu x hx e he => ?_)
    (fun other h => ?_) fun b' pc h => ?_
  · by_cases hne : p = .hand k
    · subst hne
      refine HandOk.free (v := v) ?_ hu hx he
      rw [hthread, hmem']
      refine HandOk.some rfl fun x hx => ?_
      obtain rfl := List.mem_singleton.mp hx
      exact headerOk_markSmallBlockFreed (hb ▸ ok.small c hc)
    · exact d.free_stay inv ledger' hcache (by rw [halloc]) p hp hne u hu x hx e he
  · rw [hthread, hrest] at h
    exact Or.inl ⟨none, hsub other (h.resolve_right List.not_mem_nil)⟩
  · rw [hthread] at h
    obtain ⟨rfl, rfl⟩ := Thread.busy.inj h
    trivial

/-- The free of a live large allocation takes the right to release it. -/
theorem Inv.takeLarge (inv : Inv setup w) {outcome : Option Outcome}
    (ht : w.threads k = .idle outcome) (howner : (w.caches k).owner = some a) {entry : Live ι κ}
    {pre post : List (Live ι κ)} (hlive : w.live = pre ++ entry :: post)
    (hc : SizeClass.fromRequest entry.size = none) {record : LargeAllocationRecord}
    (hrecord : (entry.ptr, record) ∈ (w.allocators entry.alloc).large.live) :
    Inv setup (w.update a k { (w.view a k).goto a
      (.releasing entry entry.size record.usableSize) with live := pre ++ post }) := by
  have hmem : entry ∈ w.live := by simp [hlive]
  have hfields := ((inv.memory.entry none entry hmem).large hc record hrecord).fields_eq
  obtain ⟨v, hv⟩ : ∃ v : View ι κ Seq Seq, v = { (w.view a k).goto a
    (.releasing entry entry.size record.usableSize) with live := pre ++ post } := ⟨_, rfl⟩
  have hmem' : v.mem = w.mem := hv ▸ rfl
  have hthread : v.thread = .busy a (.releasing entry entry.size record.usableSize) := hv ▸ rfl
  have hcache : v.cache = w.caches k := hv ▸ rfl
  have halloc : v.allocator = w.allocators a := hv ▸ rfl
  have hrest : v.live = pre ++ post := hv ▸ rfl
  have hentries : ∀ other, other ∈ v.live ∨ other ∈ v.thread.entries → other ∈ w.live := by
    intro other h
    rw [hrest, hthread] at h
    rw [hlive]
    simp only [Thread.entries, Pc.entry, Option.toList_some, List.mem_append, List.mem_cons] at h ⊢
    tauto
  rw [← hv]
  have parts' : Parts setup (w.update a k v) := by
    refine inv.parts.update (by rw [hmem']) (halloc ▸ inv.parts.allocator a)
      (hcache ▸ inv.parts.cache k) (hcache ▸ howner) ?_ (fun _ _ h => halloc ▸ h) fun b' pc h => ?_
    · rw [halloc, hcache]
      exact inv.parts.home k a howner
    · rw [hthread] at h
      obtain ⟨rfl, rfl⟩ := Thread.busy.inj h
      exact ⟨rfl, hc⟩
  have ledger' : Ledger setup (w.update a k v) := by
    have hlarge : v.allocator = { w.allocators a with large := (w.allocators a).large } := halloc
    refine inv.ledger.move_large howner hlarge hcache ?_ ?_
    · rw [hrest, hlive]
      simp [Live.smallCell?, hc]
    · rw [hthread, ht]
      rfl
  have tokens' : Tokens (w.update a k v) := by
    refine inv.tokens.redistribute (le_of_eq ?_) fun g other hg hsize => ?_
    · simp only [World.tokens, World.update_live, World.update_threads_same, hrest, hthread, hlive,
        ht, Thread.entries, Pc.entry]
      simp only [List.filter_append, List.filter_cons, hc, Option.isNone_none, if_true,
        List.map_append, Option.toList_some, List.map_cons, List.map_nil, ← Multiset.coe_add,
        ← Multiset.cons_coe, ← Multiset.singleton_add, Multiset.coe_nil]
      ac_rfl
    · have hkeep : (w.update a k v).allocators = w.allocators := by
        rw [World.update, halloc]
        exact Function.update_eq_self ..
      refine (?_ : ∃ g, other ∈ w.entries g).imp fun g hg => ⟨hg, fun _ h => hkeep ▸ h⟩
      cases g with
      | none => exact ⟨none, hentries other (Or.inl hg)⟩
      | some j =>
        by_cases hj : j = k
        · subst hj
          exact ⟨none, hentries other (Or.inr (by simpa [World.entries] using hg))⟩
        · exact ⟨some j, by rwa [entries_update_ne hj] at hg⟩
  refine ⟨parts', ledger', tokens', ?_⟩
  refine inv.memory_quiet (c := .b64) (Discipline.still hmem')
    (touches_allocator howner (by rw [halloc]) hcache (by rw [halloc])) parts' ledger' tokens'
    (fun _ _ h => Or.inl (halloc ▸ h))
    ((inv.memory.promises howner .b64).stay hcache (by rw [halloc])) (hthread ▸ HandOk.none rfl)
    (fun other h => Or.inl ⟨none, hentries other h⟩) ?_
  rw [hthread, hmem']
  exact pcMemory_busy ⟨by rw [hfields], by rw [hfields]⟩

theorem Inv.startFree (inv : Inv setup w) {outcome : Option Outcome}
    (ht : w.threads k = .idle outcome) (howner : (w.caches k).owner = some a) {entry : Live ι κ}
    {i : Nat} (hentry : w.live[i]? = some entry) (expectedSize : Option Nat) :
    Inv setup (w.update a k
      ((w.view a k).startFree setup.debug a entry (w.live.eraseIdx i) expectedSize)) := by
  have hmem : entry ∈ w.live := List.mem_of_getElem? hentry
  obtain ⟨pre, post, hlive, hrest, -⟩ := IndexedVec.getElem?_split hentry
  rw [hrest]
  unfold View.startFree
  cases hc : SizeClass.fromRequest entry.size with
  | some c =>
    have hcheck := inv.checkFree_small (a := a) hmem hc setup.debug expectedSize
    by_cases ha : entry.alloc = a
    · rw [if_pos ha] at hcheck
      rcases sizeChecked_cases expectedSize entry.size (.small c (blockStartFromUserPtr entry.ptr)
        (setup.cacheId entry.cache)) with h | ⟨e, h⟩
      · simp only [World.view, hcheck.trans h]
        exact inv.takeSmall ht howner hlive ha hc
      · simp only [World.view, hcheck.trans h]
        exact inv.finish ht _
    · rw [if_neg ha] at hcheck
      simp only [World.view, hcheck]
      exact inv.finish ht _
  | none =>
    obtain ⟨record, hrecord, hcheck⟩ :=
      inv.checkFree_large (a := a) hmem hc setup.debug expectedSize
    rcases sizeChecked_cases expectedSize entry.size (.large entry.size record.usableSize)
      with h | ⟨e, h⟩
    · simp only [World.view, hcheck.trans h]
      exact inv.takeLarge ht howner hlive hc hrecord
    · simp only [World.view, hcheck.trans h]
      exact inv.finish ht _

/-! ### The start of a call -/

/-- A call that may begin binds its cache and starts from the bound state; a refused binding changes
nothing but the outcome. -/
theorem Inv.call (inv : Inv setup w) {w' : World ι κ Seq Seq}
    {start : View ι κ Seq Seq → View ι κ Seq Seq} (h : w.call k a start = some w')
    (hstart : ∀ {w₁ : World ι κ Seq Seq} {outcome : Option Outcome}, Inv setup w₁ →
      w₁.threads k = .idle outcome → (w₁.caches k).owner = some a → w₁.live = w.live →
      Inv setup (w₁.update a k (start (w₁.view a k)))) : Inv setup w' := by
  unfold World.call at h
  split at h
  · cases h
  · rename_i outcome ht
    split at h
    · obtain rfl := Option.some.inj h
      exact inv.finish ht .panicked
    · rename_i cache hbind
      obtain rfl := Option.some.inj h
      obtain ⟨inv', howner⟩ := inv.bind ht hbind
      have := hstart inv' (by rw [World.update_threads_same]; exact ht)
        (by rw [World.update_caches_same]; exact howner) rfl
      rwa [World.view_update, World.update_update] at this

end Start

end Orthotope
