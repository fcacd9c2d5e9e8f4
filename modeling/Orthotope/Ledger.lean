import Orthotope.Invariant

/-! How the parts and the ledger of the invariant follow one step.  A step of a call of allocator
`a` on cache `k` that moves blocks of class `c` changes the holdings of the places in `touched`
only; their total before and after decides whether the ledger still holds. -/

namespace Orthotope

open ByteMemory Ownership

variable {ι κ : Type}

namespace World

variable [DecidableEq ι] [DecidableEq κ] {L B : Type} (w : World ι κ L B) (a : ι) (k : κ)
  (v : View ι κ L B)

@[simp] theorem update_mem : (w.update a k v).mem = v.mem := rfl

@[simp] theorem update_live : (w.update a k v).live = v.live := rfl

@[simp] theorem update_allocators_same : (w.update a k v).allocators a = v.allocator :=
  Function.update_self ..

@[simp] theorem update_caches_same : (w.update a k v).caches k = v.cache :=
  Function.update_self ..

@[simp] theorem update_threads_same : (w.update a k v).threads k = v.thread :=
  Function.update_self ..

variable {a k}

@[simp] theorem update_allocators_ne {b : ι} (h : b ≠ a) :
    (w.update a k v).allocators b = w.allocators b := Function.update_of_ne h ..

@[simp] theorem update_caches_ne {j : κ} (h : j ≠ k) :
    (w.update a k v).caches j = w.caches j := Function.update_of_ne h ..

@[simp] theorem update_threads_ne {j : κ} (h : j ≠ k) :
    (w.update a k v).threads j = w.threads j := Function.update_of_ne h ..

@[simp] theorem view_update : (w.update a k v).view a k = v := by
  simp [view]

end World

/-! ### Parts -/

/-- A step changes one allocator and one cache that is bound to it; the slabs of the allocator stay
registered. -/
theorem Parts.update [DecidableEq ι] [DecidableEq κ] {setup : Setup ι κ} {w : World ι κ Seq Seq}
    (parts : Parts setup w) {a : ι}
    {k : κ} {v : View ι κ Seq Seq} (hpage : v.mem.pageSize = w.mem.pageSize)
    (hallocator : AllocatorOk setup a v.allocator) (hcache : CacheOk setup k v.cache)
    (howner : v.cache.owner = some a) (hhome : Home v.allocator v.cache)
    (hshapes : ∀ c, ∀ s ∈ ((w.allocators a).central.lists c).shapes,
      s ∈ (v.allocator.central.lists c).shapes)
    (hthread : ∀ b pc, v.thread = .busy b pc →
      b = a ∧ PcOk setup a v.allocator.central v.cache pc) :
    Parts setup (w.update a k v) where
  pageSize_eq := hpage.trans parts.pageSize_eq
  allocator := fun b => by
    by_cases hb : b = a
    · subst hb
      simpa using hallocator
    · simpa [hb] using parts.allocator b
  cache := fun j => by
    by_cases hj : j = k
    · subst hj
      simpa using hcache
    · simpa [hj] using parts.cache j
  home := fun j b hown => by
    by_cases hj : j = k
    · subst hj
      rw [World.update_caches_same] at hown ⊢
      obtain rfl : a = b := Option.some.inj (howner.symm.trans hown)
      simpa using hhome
    · rw [World.update_caches_ne _ _ hj] at hown ⊢
      by_cases hb : b = a
      · subst hb
        rw [World.update_allocators_same]
        exact fun c s hs => hshapes c s (parts.home j b hown c s hs)
      · rw [World.update_allocators_ne _ _ hb]
        exact parts.home j b hown
  thread := fun j b pc hbusy => by
    by_cases hj : j = k
    · subst hj
      rw [World.update_threads_same] at hbusy
      obtain ⟨rfl, hok⟩ := hthread b pc hbusy
      simpa using ⟨howner, hok⟩
    · rw [World.update_threads_ne _ _ hj] at hbusy
      rw [World.update_caches_ne _ _ hj]
      obtain ⟨hown, hok⟩ := parts.thread j b pc hbusy
      refine ⟨hown, ?_⟩
      by_cases hb : b = a
      · subst hb
        rw [World.update_allocators_same]
        -- of the other calls only those with a slab in their hands look at the pool
        cases pc with
        | gotSlab c size start blockSize capacity =>
          obtain ⟨h1, h2, h3, h4⟩ := hok
          exact ⟨h1, h2, h3, hshapes c _ h4⟩
        | registered c size start blockSize capacity =>
          obtain ⟨h1, h2, h3, h4⟩ := hok
          exact ⟨h1, h2, h3, hshapes c _ h4⟩
        | _ => exact hok
      · rw [World.update_allocators_ne _ _ hb]
        exact hok

namespace AllocatorOk

variable {setup : Setup ι κ} {a : ι} {allocator : Allocator Seq}

theorem setCentral (ok : AllocatorOk setup a allocator) {central : CentralPool Seq} {c : SizeClass}
    (honly : CentralPool.OnlyClass c allocator.central central) (hinv : central.Inv c)
    (hsize : ∀ s ∈ (central.lists c).shapes, s.2.2.1 = (setup.config a).classBlockSize c) :
    AllocatorOk setup a { allocator with central } where
  config_eq := ok.config_eq
  arena_eq := ok.arena_eq
  next_le := ok.next_le
  central := fun d => by
    by_cases hd : d = c
    · exact hd ▸ hinv
    · refine ⟨?_, ?_⟩
      · simpa [honly.lists d hd] using (ok.central d).pool
      · simpa [honly.inboxes d hd] using (ok.central d).inbox
  blockSize_eq := fun d s hs => by
    by_cases hd : d = c
    · subst hd
      exact hsize s hs
    · exact ok.blockSize_eq d s (by simpa [honly.lists d hd] using hs)
  large := ok.large

theorem setLarge (ok : AllocatorOk setup a allocator) {large : LargeObjectState}
    (h : large.Inv) : AllocatorOk setup a { allocator with large } :=
  ⟨ok.config_eq, ok.arena_eq, ok.next_le, ok.central, ok.blockSize_eq, h⟩

theorem setArena (ok : AllocatorOk setup a allocator) {arena : Arena} {span : ReservedSpan}
    (h : Arena.Reserves allocator.arena span arena) :
    AllocatorOk setup a { allocator with arena } where
  config_eq := ok.config_eq
  arena_eq := by
    rw [h.next_eq, ok.arena_eq]
  next_le := by
    have hfits := h.fits
    have hlen : allocator.arena.len = (setup.arena a).len := by rw [ok.arena_eq]
    rw [h.next_eq]
    simp only
    omega
  central := ok.central
  blockSize_eq := ok.blockSize_eq
  large := ok.large

end AllocatorOk

namespace CacheOk

variable {setup : Setup ι κ} {k : κ} {cache : ThreadCache ι Seq}

theorem setClass (ok : CacheOk setup k cache) {a : ι} (howner : cache.owner = some a)
    {c : SizeClass} {class_ : LocalClassCache Seq} (h : class_.Inv) :
    CacheOk setup k (cache.setClass c class_) where
  cacheId_eq := ok.cacheId_eq
  class_inv := fun d => by
    by_cases hd : d = c
    · subst hd
      simpa [ThreadCache.setClass] using h
    · simpa [ThreadCache.setClass, hd] using ok.class_inv d
  returns_ok := ok.returns_ok
  unbound := fun hnone => by simp [ThreadCache.setClass, howner] at hnone
  table := ok.table

theorem setRemoteReturns (ok : CacheOk setup k cache) {a : ι} (howner : cache.owner = some a)
    {c : SizeClass} {returns : RemoteReturns Seq} (h : returns.Ok) :
    CacheOk setup k (cache.setRemoteReturns c returns) where
  cacheId_eq := ok.cacheId_eq
  class_inv := ok.class_inv
  returns_ok := fun d => by
    by_cases hd : d = c
    · subst hd
      simpa [ThreadCache.setRemoteReturns] using h
    · simpa [ThreadCache.setRemoteReturns, hd] using ok.returns_ok d
  unbound := fun hnone => by simp [ThreadCache.setRemoteReturns, howner] at hnone
  table := ok.table

end CacheOk

theorem Home.setClass {allocator : Allocator Seq} {cache : ThreadCache ι Seq}
    (home : Home allocator cache) {c : SizeClass} {class_ : LocalClassCache Seq}
    (h : ∀ s ∈ class_.shapes, s ∈ (cache.classes c).shapes ∨
      s ∈ (allocator.central.lists c).shapes) : Home allocator (cache.setClass c class_) := by
  intro d s hs
  by_cases hd : d = c
  · subst hd
    exact (h s (by simpa [ThreadCache.setClass] using hs)).elim (home d s) id
  · exact home d s (by simpa [ThreadCache.setClass, hd] using hs)

/-! ### The holdings of a step -/

/-- The places that a step of allocator `a` on cache `k` with class `c` can change. -/
@[irreducible] def touched [DecidableEq ι] [DecidableEq κ] (k : κ) (a : ι) (c : SizeClass) : Finset
    (Place ι κ) :=
  {.client, .hot k c, .slabFree k c, .fresh k c, .shared k c, .staged k c, .partialFree a c,
    .full a c, .inbox a c, .largeLive a, .largeFree a, .hand k}

/-- The small blocks of class `c` that the view shows outside of calls and clients. -/
def View.stored (c : SizeClass) (v : View ι κ Seq Seq) : Multiset Nat :=
  (v.cache.classes c).bag + ((v.cache.remoteReturns c).pending : Multiset Nat) +
    (v.allocator.central.lists c).bag + v.allocator.central.inboxBag c

/-- What the touched places hold, apart from the hands of the call. -/
def View.settled (setup : Setup ι κ) (a : ι) (c : SizeClass) (v : View ι κ Seq Seq) :
    Multiset (Cell ι) :=
  (v.live.filterMap (Live.smallCell? setup) : List (Cell ι)) + setup.smallCells a c (v.stored c) +
    (v.allocator.large.liveBag + v.allocator.large.freeBag).map (largeCell a)

/-- Everything that the touched places hold. -/
def View.holdings (setup : Setup ι κ) (a : ι) (c : SizeClass) (v : View ι κ Seq Seq) :
    Multiset (Cell ι) :=
  v.settled setup a c + v.thread.cells setup

section Holdings

variable [DecidableEq ι] [DecidableEq κ] {setup : Setup ι κ} {w : World ι κ Seq Seq} {a : ι} {k : κ}
  {c : SizeClass}

theorem sum_touched (h : (w.caches k).owner = some a) :
    ∑ p ∈ touched k a c, w.own setup p = (w.view a k).holdings setup a c := by
  have hsum : ∑ p ∈ touched k a c, w.own setup p =
      w.own setup .client + (w.own setup (.hot k c) + (w.own setup (.slabFree k c) +
      (w.own setup (.fresh k c) + (w.own setup (.shared k c) + (w.own setup (.staged k c) +
      (w.own setup (.partialFree a c) + (w.own setup (.full a c) + (w.own setup (.inbox a c) +
      (w.own setup (.largeLive a) + (w.own setup (.largeFree a) +
      w.own setup (.hand k))))))))))) := by
    unfold touched
    repeat rw [Finset.sum_insert (by simp)]
    rw [Finset.sum_singleton]
  rw [hsum]
  simp only [World.own, World.cacheCells, h, View.holdings, View.settled, View.stored, World.view,
    LocalClassCache.bag, LocalClassCache.ownedBag, ClassPool.bag, Setup.smallCells_add,
    Multiset.map_add, add_assoc]

theorem sum_touched_update {v : View ι κ Seq Seq} (h : v.cache.owner = some a) :
    ∑ p ∈ touched k a c, (w.update a k v).own setup p = v.holdings setup a c := by
  rw [sum_touched (by simpa using h), World.view_update]

/-- A step of allocator `a` on cache `k` that changes class `c` at most. -/
structure Touches (w : World ι κ Seq Seq) (a : ι) (k : κ) (c : SizeClass)
    (v : View ι κ Seq Seq) : Prop where
  owner : (w.caches k).owner = some a
  owner_eq : v.cache.owner = some a
  only : CentralPool.OnlyClass c (w.allocators a).central v.allocator.central
  classes : ∀ d, d ≠ c → v.cache.classes d = (w.caches k).classes d
  returns : ∀ d, d ≠ c → v.cache.remoteReturns d = (w.caches k).remoteReturns d
  next_le : (w.allocators a).arena.next ≤ v.allocator.arena.next

/-- A step leaves the places alone that it does not touch. -/
theorem Touches.own_eq {v : View ι κ Seq Seq} (t : Touches w a k c v) :
    ∀ p ∉ touched k a c, (w.update a k v).own setup p = w.own setup p := by
  have howner : v.cache.owner = (w.caches k).owner := t.owner_eq.trans t.owner.symm
  have honly := t.only
  intro p hp
  simp only [touched, Finset.mem_insert, Finset.mem_singleton, not_or] at hp
  have hbag : ∀ (f : LocalClassCache Seq → Multiset Nat) (j : κ) (d : SizeClass),
      ¬(j = k ∧ d = c) →
      (w.update a k v).cacheCells setup j d (f (((w.update a k v).caches j).classes d)) =
        w.cacheCells setup j d (f ((w.caches j).classes d)) := by
    intro f j d hjd
    by_cases hj : j = k
    · subst hj
      have hd : d ≠ c := fun hd => hjd ⟨rfl, hd⟩
      simp [World.cacheCells, howner, t.classes d hd]
    · simp [World.cacheCells, hj]
  cases p with
  | client => exact absurd rfl hp.1
  | hot j d => exact hbag LocalClassCache.hotBag j d (by simpa using hp.2.1)
  | slabFree j d => exact hbag LocalClassCache.freeBag j d (by simpa using hp.2.2.1)
  | fresh j d => exact hbag LocalClassCache.freshBag j d (by simpa using hp.2.2.2.1)
  | shared j d => exact hbag LocalClassCache.sharedBag j d (by simpa using hp.2.2.2.2.1)
  | staged j d =>
    have hjd : ¬(j = k ∧ d = c) := by simpa using hp.2.2.2.2.2.1
    by_cases hj : j = k
    · subst hj
      have hd : d ≠ c := fun hd => hjd ⟨rfl, hd⟩
      simp [World.own, World.cacheCells, howner, t.returns d hd]
    · simp [World.own, World.cacheCells, hj]
  | partialFree b d =>
    by_cases hb : b = a
    · subst hb
      have hd : d ≠ c := fun hd => by simp [hd] at hp
      simp [World.own, honly.lists d hd]
    · simp [World.own, hb]
  | full b d =>
    by_cases hb : b = a
    · subst hb
      have hd : d ≠ c := fun hd => by simp [hd] at hp
      simp [World.own, honly.lists d hd]
    · simp [World.own, hb]
  | inbox b d =>
    by_cases hb : b = a
    · subst hb
      have hd : d ≠ c := fun hd => by simp [hd] at hp
      simp [World.own, CentralPool.inboxBag, honly.inboxes d hd]
    · simp [World.own, hb]
  | largeLive b =>
    have hb : b ≠ a := fun hb => by simp [hb] at hp
    simp [World.own, hb]
  | largeFree b =>
    have hb : b ≠ a := fun hb => by simp [hb] at hp
    simp [World.own, hb]
  | hand j =>
    have hj : j ≠ k := fun hj => by simp [hj] at hp
    simp [World.own, hj]

variable {v : View ι κ Seq Seq}

theorem Touches.mem_own (t : Touches w a k c v) {p : Place ι κ} {x : Cell ι}
    (hx : x ∈ (w.update a k v).own setup p) :
    x ∈ v.holdings setup a c ∨ x ∈ w.own setup p := by
  by_cases hp : p ∈ touched k a c
  · apply Or.inl
    rw [← sum_touched_update (w := w) (k := k) t.owner_eq]
    rw [Multiset.mem_sum]
    exact ⟨p, hp, hx⟩
  · rw [t.own_eq p hp] at hx
    exact Or.inr hx

theorem Touches.next_le_update (t : Touches w a k c v) (b : ι) :
    (w.allocators b).arena.next ≤ ((w.update a k v).allocators b).arena.next := by
  by_cases hb : b = a
  · subst hb
    simpa using t.next_le
  · simp [hb]

theorem InArena.update (t : Touches w a k c v) {x : Cell ι} (h : InArena setup w x) :
    InArena setup (w.update a k v) x := by
  have := t.next_le_update x.alloc
  have hhi := h.hi_le
  exact ⟨h.base_le, h.lo_lt, by omega, h.dvd_lo⟩

theorem mem_holdings (h : (w.caches k).owner = some a) {x : Cell ι} :
    x ∈ (w.view a k).holdings setup a c ↔ ∃ p ∈ touched k a c, x ∈ w.own setup p := by
  rw [← sum_touched h, Multiset.mem_sum]

theorem isSlabCell_update {x : Cell ι}
    (hshapes : ∀ d, (v.allocator.central.lists d).shapes =
      ((w.allocators a).central.lists d).shapes) :
    IsSlabCell setup (w.update a k v) x ↔ IsSlabCell setup w x := by
  unfold IsSlabCell
  by_cases hb : x.alloc = a
  · rw [hb, World.update_allocators_same]
    simp only [hshapes]
  · rw [World.update_allocators_ne _ _ hb]

/-- The touched places exchange cells between them; at most an extent is lost. -/
theorem Ledger.rearrange (ledger : Ledger setup w) (t : Touches w a k c v)
    (hshapes : ∀ d, (v.allocator.central.lists d).shapes =
      ((w.allocators a).central.lists d).shapes) (dropped : Multiset (Cell ι))
    (hsum : v.holdings setup a c + dropped = (w.view a k).holdings setup a c)
    (hdropped : ∀ x ∈ dropped, x.cls = none) : Ledger setup (w.update a k v) where
  apart := by
    apply ledger.apart.redistribute (touched k a c) t.own_eq
    rw [sum_touched t.owner, sum_touched_update t.owner_eq, ← hsum]
    exact Multiset.le_add_right _ _
  covered := fun x hx => by
    rw [isSlabCell_update hshapes, ← ledger.covered x hx, ← or_false (∃ p, x ∈ w.own setup p)]
    apply exists_mem_iff (touched k a c) t.own_eq
    rw [sum_touched t.owner, sum_touched_update t.owner_eq, ← hsum, Multiset.mem_add, or_false]
    refine ⟨Or.inl, fun h => h.resolve_right fun hd => ?_⟩
    simp [hdropped x hd] at hx
  inArena := fun p x hx => by
    apply InArena.update t
    rcases t.mem_own hx with hx | hx
    · obtain ⟨q, _, hq⟩ := (mem_holdings t.owner).mp
        (hsum ▸ Multiset.mem_add.mpr (Or.inl hx) : x ∈ (w.view a k).holdings setup a c)
      exact ledger.inArena q x hq
    · exact ledger.inArena p x hx

/-- A reserved span is a new cell, behind everything that was reserved before. -/
theorem Ledger.reserve (ledger : Ledger setup w) (t : Touches w a k c v)
    (hshapes : ∀ d, (v.allocator.central.lists d).shapes =
      ((w.allocators a).central.lists d).shapes) (parts : Parts setup w) {span : ReservedSpan}
    (hres : Arena.Reserves (w.allocators a).arena span v.allocator.arena)
    (hsum : v.holdings setup a c =
      (w.view a k).holdings setup a c + {largeCell a ⟨span.start, span.size⟩}) :
    Ledger setup (w.update a k v) := by
  have ok := parts.allocator a
  have facts := setup.arenaFacts a
  have hbase : (w.allocators a).arena.base = (setup.arena a).base := by rw [ok.arena_eq]
  have halign : (w.allocators a).arena.alignment = (setup.config a).alignment := by
    rw [ok.arena_eq]
    exact facts.alignment_eq
  have hpos : 0 < (setup.config a).alignment := by
    have := facts.header_le
    unfold headerAlignment at this
    omega
  have hstart := hres.start_eq
  rw [hbase, halign] at hstart
  have hfits := hres.fits
  have hle := le_alignUp (w.allocators a).arena.next (setup.config a).alignment
  rw [halign] at hfits
  have hlen : (w.allocators a).arena.len = (setup.arena a).len := by rw [ok.arena_eq]
  have hnext : v.allocator.arena.next =
      alignUp (w.allocators a).arena.next (setup.config a).alignment + span.size := by
    rw [hres.next_eq, halign]
  refine ⟨?_, fun x hx => ?_, fun p x hx => ?_⟩
  · have hin : ∑ p ∈ touched k a c, (w.update a k v).own setup p ≤
        ∑ p ∈ touched k a c, w.own setup p + {largeCell a ⟨span.start, span.size⟩} := by
      rw [sum_touched t.owner, sum_touched_update t.owner_eq, hsum]
    refine Apart.grow ledger.apart (touched k a c) t.own_eq hin ?_ ?_
    · exact ⟨[largeCell a ⟨span.start, span.size⟩], rfl, List.pairwise_singleton _ _⟩
    · intro x hx p y hy
      obtain rfl := Multiset.mem_singleton.mp hx
      have hin := ledger.inArena p y hy
      have hhi := hin.hi_le
      have hlo := hin.base_le
      by_cases hb : y.alloc = a
      · apply Or.inr
        rw [hb] at hhi
        show y.hi ≤ span.start
        omega
      · have hd := setup.arenas_disjoint hb
        have hn := (parts.allocator y.alloc).next_le
        show span.start + span.size ≤ y.lo ∨ y.hi ≤ span.start
        omega
  · rw [isSlabCell_update hshapes, ← ledger.covered x hx, ← or_false (∃ p, x ∈ w.own setup p)]
    apply exists_mem_iff (touched k a c) t.own_eq
    rw [sum_touched t.owner, sum_touched_update t.owner_eq, hsum, Multiset.mem_add, or_false]
    refine ⟨fun h => h.resolve_right fun hd => ?_, Or.inl⟩
    rw [Multiset.mem_singleton.mp hd] at hx
    simp [largeCell] at hx
  · rcases t.mem_own hx with hx | hx
    · rcases Multiset.mem_add.mp (hsum ▸ hx) with hx | hx
      · obtain ⟨q, _, hq⟩ := (mem_holdings t.owner).mp hx
        exact (ledger.inArena q x hq).update t
      · obtain rfl := Multiset.mem_singleton.mp hx
        have hspan := hres.pos
        refine ⟨?_, ?_, ?_, ?_⟩
        · show (setup.arena a).base ≤ span.start
          omega
        · show span.start < span.start + span.size
          omega
        · show span.start + span.size ≤ _
          simp only [largeCell, World.update_allocators_same]
          omega
        · show (setup.config a).alignment ∣ span.start
          rw [hstart]
          exact Nat.dvd_add facts.dvd_base (dvd_alignUp hpos)
    · exact (ledger.inArena p x hx).update t

omit [DecidableEq ι] [DecidableEq κ] in
theorem smallCells_slabBlocks_pairwise (setup : Setup ι κ) (a : ι) (c : SizeClass) (start n : Nat) :
    (setup.smallCells a c (slabBlocks start ((setup.config a).classBlockSize c) n)).Pairwise
      Cell.Apart := by
  refine ⟨(slabBlocks start ((setup.config a).classBlockSize c) n).map
    (setup.smallCell a c), rfl, ?_⟩
  rw [slabBlocks, List.pairwise_map, List.pairwise_map]
  refine List.pairwise_lt_range.imp fun {i j} hij => Or.inl ?_
  show start + i * _ + _ ≤ start + j * _
  have := Nat.mul_le_mul_right ((setup.config a).classBlockSize c) (Nat.succ_le_of_lt hij)
  rw [Nat.succ_mul] at this
  omega

/-- The span that a call holds becomes a registered slab, whose blocks it holds instead. -/
theorem Ledger.split (ledger : Ledger setup w) (t : Touches w a k c v) {start n : Nat}
    (hshapes : ∀ d s, s ∈ (v.allocator.central.lists d).shapes ↔
      s ∈ ((w.allocators a).central.lists d).shapes ∨ d = c ∧
        s = (start, start + (setup.config a).classBlockSize c * n,
          (setup.config a).classBlockSize c, n))
    {rest : Multiset (Cell ι)}
    (hold : (w.view a k).holdings setup a c =
      rest + {largeCell a ⟨start, n * (setup.config a).classBlockSize c⟩})
    (hnew : v.holdings setup a c =
      rest + setup.smallCells a c (slabBlocks start ((setup.config a).classBlockSize c) n)) :
    Ledger setup (w.update a k v) := by
  obtain ⟨blockSize, hbs⟩ : ∃ blockSize, blockSize = (setup.config a).classBlockSize c := ⟨_, rfl⟩
  have hinside : ∀ x ∈ setup.smallCells a c (slabBlocks start blockSize n),
      x.alloc = a ∧ start ≤ x.lo ∧ x.hi ≤ start + n * blockSize ∧ x.lo < x.hi ∧
        ∃ i, x.lo = start + i * blockSize := by
    intro x hx
    obtain ⟨b, hb, rfl⟩ := setup.mem_smallCells.mp hx
    obtain ⟨hlo, hhi⟩ := slabBlocks_bounds (Multiset.mem_coe.mp hb)
    obtain ⟨i, _, hi⟩ := mem_slabBlocks.mp (Multiset.mem_coe.mp hb)
    have hpos := (setup.config a).classBlockSize_pos c
    rw [Nat.mul_comm] at hhi
    refine ⟨rfl, hlo, ?_, ?_, i, hi⟩
    · show b + (setup.config a).classBlockSize c ≤ _
      omega
    · show b < b + (setup.config a).classBlockSize c
      omega
  rw [← hbs] at hshapes hold hnew
  refine ⟨?_, fun x hx => ?_, fun p x hx => ?_⟩
  · refine Apart.exchange ledger.apart (touched k a c) t.own_eq
      (by rw [sum_touched t.owner, hold]) (by rw [sum_touched_update t.owner_eq, hnew])
      (hbs ▸ smallCells_slabBlocks_pairwise setup a c start n) fun x hx => ?_
    obtain ⟨_, hlo, hhi, _⟩ := hinside x hx
    refine ⟨_, Multiset.mem_singleton_self _, fun y hy => ?_⟩
    have hy' : start + n * blockSize ≤ y.lo ∨ y.hi ≤ start := hy
    show x.hi ≤ y.lo ∨ y.hi ≤ x.lo
    omega
  · have hin : x ∈ ∑ p ∈ touched k a c, (w.update a k v).own setup p ↔
        x ∈ ∑ p ∈ touched k a c, w.own setup p ∨
          x ∈ setup.smallCells a c (slabBlocks start blockSize n) := by
      rw [sum_touched t.owner, sum_touched_update t.owner_eq, hnew, hold, Multiset.mem_add,
        Multiset.mem_add, or_assoc]
      refine or_congr_right ⟨Or.inr, fun h => h.resolve_left fun hext => ?_⟩
      rw [Multiset.mem_singleton.mp hext] at hx
      simp [largeCell] at hx
    rw [exists_mem_iff (touched k a c) t.own_eq hin, ledger.covered x hx]
    constructor
    · rintro (⟨d, s, hs, b, hb, hxe⟩ | hx)
      · refine ⟨d, s, ?_, b, hb, hxe⟩
        by_cases ha : x.alloc = a
        · rw [ha, World.update_allocators_same, hshapes]
          exact Or.inl (ha ▸ hs)
        · rwa [World.update_allocators_ne _ _ ha]
      · obtain ⟨b, hb, rfl⟩ := setup.mem_smallCells.mp hx
        refine ⟨c, (start, start + blockSize * n, blockSize, n), ?_, b, Multiset.mem_coe.mp hb, rfl⟩
        rw [Setup.smallCell, World.update_allocators_same, hshapes]
        exact Or.inr ⟨rfl, rfl⟩
    · rintro ⟨d, s, hs, b, hb, hxe⟩
      by_cases ha : x.alloc = a
      · rw [ha, World.update_allocators_same, hshapes] at hs
        rcases hs with hs | ⟨rfl, rfl⟩
        · exact Or.inl ⟨d, s, ha.symm ▸ hs, b, hb, hxe⟩
        · refine Or.inr (setup.mem_smallCells.mpr ⟨b, Multiset.mem_coe.mpr hb, ?_⟩)
          rw [hxe, ha]
      · rw [World.update_allocators_ne _ _ ha] at hs
        exact Or.inl ⟨d, s, hs, b, hb, hxe⟩
  · rcases t.mem_own hx with hx | hx
    · rcases Multiset.mem_add.mp (hnew ▸ hx) with hx | hx
      · obtain ⟨q, _, hq⟩ := (mem_holdings t.owner).mp
          (hold ▸ Multiset.mem_add.mpr (Or.inl hx) : x ∈ (w.view a k).holdings setup a c)
        exact (ledger.inArena q x hq).update t
      · obtain ⟨ha, hlo, hhi, hlt, i, hi⟩ := hinside x hx
        -- the blocks inherit their bounds from the span, and their alignment from the block size
        obtain ⟨q, _, hq⟩ := (mem_holdings (c := c) t.owner).mp
          (hold ▸ Multiset.mem_add.mpr (Or.inr (Multiset.mem_singleton_self _)))
        have hspan := ledger.inArena q _ hq
        have h1 : (setup.arena a).base ≤ start := hspan.base_le
        have h2 : start + n * blockSize ≤
          (setup.arena a).base + (w.allocators a).arena.next := hspan.hi_le
        have h3 : (setup.config a).alignment ∣ start := hspan.dvd_lo
        have h4 := t.next_le
        refine ⟨by rw [ha]; omega, hlt, ?_, ?_⟩
        · rw [ha, World.update_allocators_same]
          omega
        · rw [ha, hi, hbs]
          exact Nat.dvd_add h3 (Dvd.dvd.mul_left
            ((setup.config a).dvd_classBlockSize c (setup.arenaFacts a).header_le) i)
    · exact (ledger.inArena p x hx).update t

end Holdings

end Orthotope
