import Orthotope.Retention
import Orthotope.Lib.AgentSums

/-! The books of a class.  The blocks of the slabs of a class are those that are live, those that
each cache or its call has, and those in the central pool, as one sum.  What a cache has between and
within its calls is bounded by the limits of its configuration. -/

namespace Orthotope

open ByteMemory Ownership BagSum

variable {ι κ : Type}

/-! ### The blocks of a class -/

namespace ClassPool

/-- The number of blocks ever carved for the class. -/
def capacity {L : Type} (pool : ClassPool L) : Nat := (pool.slabs.map SlabRecord.capacity).sum

/-- Every block ever carved for the class. -/
def slabBag {L : Type} (pool : ClassPool L) : Multiset Nat :=
  total (fun slab => (slab.blocks : Multiset Nat)) pool.slabs

variable {pool : ClassPool Seq}

theorem mem_slabBag {b : Nat} : b ∈ pool.slabBag ↔ ∃ slab ∈ pool.slabs, b ∈ slab.blocks :=
  mem_total

theorem card_slabBag : pool.slabBag.card = pool.capacity := by
  rw [slabBag, card_total, capacity]
  refine total_congr fun slab _ => ?_
  rw [Multiset.coe_card]
  exact length_slabBlocks ..

theorem Inv.slabBag_nodup (inv : pool.Inv) : pool.slabBag.Nodup := by
  refine total_nodup (fun slab hslab => ?_) ?_
  · exact slabBlocks_nodup (inv.slab_ok slab hslab).blockSize_pos _
  · refine inv.disjoint.imp_of_mem fun {s t} hs ht hapart b hb hb' => ?_
    obtain ⟨hlo, hhi⟩ := slabBlocks_bounds (Multiset.mem_coe.mp hb)
    obtain ⟨hlo', hhi'⟩ := slabBlocks_bounds (Multiset.mem_coe.mp hb')
    have hend := (inv.slab_ok s hs).end_eq
    have hend' := (inv.slab_ok t ht).end_eq
    have hpos := (inv.slab_ok s hs).blockSize_pos
    have hpos' := (inv.slab_ok t ht).blockSize_pos
    omega

theorem capacity_map {L L' : Type} (f : L → L') (pool : ClassPool L) :
    (pool.map f).capacity = pool.capacity := by
  rw [capacity, map, List.map_map]
  rfl

theorem Inv.centralBlockCount_eq (inv : pool.Inv) : pool.centralBlockCount = pool.bag.card := by
  rw [bag_eq_total, card_total, centralBlockCount]
  exact total_congr fun slab hslab => (inv.slab_ok slab hslab).centralFreeLen_eq

end ClassPool

section Ledger

variable {setup : Setup ι κ} {s : World ι κ Seq Seq} {a : ι} {c : SizeClass}

/-- Blocks that some places hold between them are all those of the class if no other place has
one. -/
theorem Inv.eq_slabBag (inv : Inv setup s) (S : Finset (Place ι κ)) {blocks : Multiset Nat}
    (hle : setup.smallCells a c blocks ≤ ∑ p ∈ S, s.own setup p)
    (hall : ∀ p b, setup.smallCell a c b ∈ s.own setup p → b ∈ blocks) :
    blocks = ((s.allocators a).central.lists c).slabBag := by
  have hpool := ((inv.parts.allocator a).central c).pool
  have hnodup : blocks.Nodup := by
    apply Multiset.Nodup.of_map (setup.smallCell a c)
    refine nodup_of_pairwise (pairwise_mono hle (inv.ledger.apart S)) fun x hx => ?_
    obtain ⟨p, -, hp⟩ := Multiset.mem_sum.mp (Multiset.mem_of_le hle hx)
    exact (inv.ledger.inArena p x hp).not_apart
  refine (Multiset.Nodup.ext hnodup hpool.slabBag_nodup).mpr fun b => ?_
  rw [ClassPool.mem_slabBag]
  constructor
  · intro hb
    obtain ⟨p, -, hp⟩ := Multiset.mem_sum.mp
      (Multiset.mem_of_le hle (setup.smallCell_mem hb))
    exact inv.ledger.slab_of_mem hp
  · rintro ⟨slab, hslab, hb⟩
    obtain ⟨p, hp⟩ := (inv.ledger.covered (setup.smallCell a c b) rfl).mpr
      ⟨c, slab.shape, List.mem_map_of_mem hslab, b, hb, rfl⟩
    exact hall p b hp

theorem smallCell_mem_smallCells {a' : ι} {d : SizeClass} {b : Nat} {blocks : Multiset Nat} :
    setup.smallCell a c b ∈ setup.smallCells a' d blocks ↔ a' = a ∧ d = c ∧ b ∈ blocks := by
  rw [Setup.mem_smallCells]
  constructor
  · rintro ⟨b', hb', heq⟩
    obtain ⟨rfl, hd, rfl, -⟩ := Cell.mk.inj heq
    exact ⟨rfl, Option.some.inj hd, hb'⟩
  · rintro ⟨rfl, rfl, hb⟩
    exact ⟨b, hb, rfl⟩

theorem smallCell_mem_cacheCells {k : κ} {d : SizeClass} {b : Nat} {blocks : Multiset Nat}
    (h : setup.smallCell a c b ∈ s.cacheCells setup k d blocks) :
    (s.caches k).owner = some a ∧ d = c ∧ b ∈ blocks := by
  unfold World.cacheCells at h
  split at h
  · exact absurd h (Multiset.notMem_zero _)
  · rename_i a' howner
    obtain ⟨rfl, hd, hb⟩ := smallCell_mem_smallCells.mp h
    exact ⟨howner, hd, hb⟩

/-- A small block in the hands of a call belongs to the allocator called. -/
theorem Parts.smallCell_mem_hand (parts : Parts setup s) {k : κ} {b : Nat}
    (h : setup.smallCell a c b ∈ s.own setup (.hand k)) :
    (s.caches k).owner = some a ∧ ∃ pc blocks, s.threads k = .busy a pc ∧
      pc.blocks = some (c, blocks) ∧ b ∈ blocks := by
  have h : setup.smallCell a c b ∈ (s.threads k).cells setup := h
  cases ht : s.threads k with
  | idle last =>
    rw [ht] at h
    exact absurd h (Multiset.notMem_zero _)
  | busy a' pc =>
    rw [ht] at h
    have h : setup.smallCell a c b ∈ pc.cells setup a' := h
    unfold Pc.cells at h
    rcases Multiset.mem_add.mp h with h | h
    · split at h
      · rename_i d blocks hblocks
        obtain ⟨rfl, rfl, hb⟩ := smallCell_mem_smallCells.mp h
        exact ⟨(parts.thread k a' pc ht).1, pc, blocks, rfl, hblocks, hb⟩
      · exact absurd h (Multiset.notMem_zero _)
    · split at h
      · rw [Multiset.mem_singleton] at h
        cases congrArg Cell.cls h
      · exact absurd h (Multiset.notMem_zero _)

end Ledger

/-! ### Custody -/

/-- The blocks of a class that clients of the allocator have. -/
def World.liveBlocks [DecidableEq ι] {L B : Type} (w : World ι κ L B) (a : ι)
    (c : SizeClass) : List Nat :=
  (w.live.filter fun e => e.alloc = a ∧ SizeClass.fromRequest e.size = some c).map
    fun e => blockStartFromUserPtr e.ptr

/-- The blocks of a class that a call has in its hands. -/
def Pc.blocksOf (c : SizeClass) (pc : Pc ι κ Seq) : Multiset Nat :=
  match pc.blocks with
  | some (d, blocks) => if d = c then (blocks : Multiset Nat) else 0
  | none => 0

def Thread.blocksOf (c : SizeClass) : Thread ι κ Seq → Multiset Nat
  | .idle _ => 0
  | .busy _ pc => pc.blocksOf c

/-- The blocks of a class that a cache has stored or staged, or its call has in its hands. -/
def ThreadCache.custody (cache : ThreadCache ι Seq) (thread : Thread ι κ Seq) (c : SizeClass) :
    Multiset Nat :=
  (cache.classes c).bag + ((cache.remoteReturns c).pending : Multiset Nat) + thread.blocksOf c

/-- The same, if they are blocks of allocator `a`. -/
def World.custody [DecidableEq ι] (s : World ι κ Seq Seq) (a : ι) (c : SizeClass) (k : κ) :
    Multiset Nat :=
  if (s.caches k).owner = some a then (s.caches k).custody (s.threads k) c else 0

/-! ### Sums over threads -/

section Threads

variable [DecidableEq ι] [DecidableEq κ] {setup : Setup ι κ} {s : World ι κ Seq Seq} {a b : ι}
  {k : κ} {v : View ι κ Seq Seq}

theorem World.sum_threads [Fintype κ] (s : World ι κ Seq Seq) (b : ι) (k : κ) (v : View ι κ Seq Seq)
    (f : Thread ι κ Seq → Nat) :
    ∑ j, f ((s.update b k v).threads j) + f (s.threads k) = ∑ j, f (s.threads j) + f v.thread := by
  have hmove := AgentSums.sum_move (k := k) (f := fun j => f (s.threads j))
    (g := fun j => f ((s.update b k v).threads j))
    fun j hj => by simp only [World.update_threads_ne _ _ hj]
  simpa only [World.update_threads_same] using hmove

/-- A call goes on with the allocator that it was made of. -/
theorem Inv.busy_alloc (inv : Inv setup s) (inv' : Inv setup (s.update b k v)) {pc : Pc ι κ Seq}
    (ht : s.threads k = .busy b pc) {debug : Bool} (htrans : Transition debug s b k pc v) {b' : ι}
    {pc' : Pc ι κ Seq} (h : v.thread = .busy b' pc') : b' = b := by
  obtain ⟨howner, -⟩ := inv'.parts.thread k b' pc' (by rw [World.update_threads_same, h])
  rw [World.update_caches_same, htrans.owner_eq, (inv.parts.thread k b pc ht).1] at howner
  exact (Option.some.inj howner).symm

end Threads

/-! ### The sum -/

section Books

variable {setup : Setup ι κ} {s : World ι κ Seq Seq} {a : ι} {c : SizeClass}

theorem blocksOf_le_own {k : κ} (parts : Parts setup s) (howner : (s.caches k).owner = some a) :
    setup.smallCells a c ((s.threads k).blocksOf c) ≤ s.own setup (.hand k) := by
  show _ ≤ (s.threads k).cells setup
  cases ht : s.threads k with
  | idle last => exact Multiset.zero_le _
  | busy b pc =>
    obtain rfl : b = a := Option.some.inj ((parts.thread k b pc ht).1.symm.trans howner)
    show setup.smallCells b c (pc.blocksOf c) ≤ pc.cells setup b
    unfold Pc.blocksOf Pc.cells
    cases pc.blocks with
    | none => exact Multiset.zero_le _
    | some held =>
      obtain ⟨d, blocks⟩ := held
      by_cases hd : d = c
      · subst hd
        simp only [if_true]
        exact Multiset.le_add_right _ _
      · simp only [if_neg hd]
        exact Multiset.zero_le _

variable [DecidableEq ι]

theorem World.custody_of_owner {k : κ} (h : (s.caches k).owner = some a) :
    s.custody a c k = (s.caches k).custody (s.threads k) c := if_pos h

variable [DecidableEq κ]

/-- The places of the blocks of a class that are in the custody of a cache. -/
def custodyPlaces (c : SizeClass) (k : κ) : Finset (Place ι κ) :=
  {.hot k c, .slabFree k c, .fresh k c, .shared k c, .staged k c, .hand k}

theorem custody_le_own {k : κ} (parts : Parts setup s) :
    setup.smallCells a c (s.custody a c k) ≤ ∑ p ∈ custodyPlaces c k, s.own setup p := by
  by_cases howner : (s.caches k).owner = some a
  · have hhand := blocksOf_le_own (c := c) parts howner
    unfold custodyPlaces
    repeat rw [Finset.sum_insert (by simp)]
    rw [Finset.sum_singleton]
    simp only [World.custody, howner, if_true, ThreadCache.custody, LocalClassCache.bag,
      LocalClassCache.ownedBag, Setup.smallCells_add, World.own, World.cacheCells, add_assoc]
    simp only [World.own] at hhand
    gcongr
  · simp only [World.custody, if_neg howner]
    exact Multiset.zero_le _

omit [DecidableEq κ] in
theorem liveBlocks_le_own :
    setup.smallCells a c (s.liveBlocks a c : Multiset Nat) ≤ s.own setup .client := by
  have hcells : ∀ live : List (Live ι κ), (∀ e ∈ live, e.alloc = a ∧
      SizeClass.fromRequest e.size = some c) → live.filterMap (Live.smallCell? setup) =
        (live.map fun e => blockStartFromUserPtr e.ptr).map (setup.smallCell a c) := by
    intro live
    induction live with
    | nil => exact fun _ => rfl
    | cons e live ih =>
      intro h
      obtain ⟨rfl, hc⟩ := h e List.mem_cons_self
      have hcell : e.smallCell? setup =
          some (setup.smallCell e.alloc c (blockStartFromUserPtr e.ptr)) := by
        simp [Live.smallCell?, hc]
      rw [List.filterMap_cons_some hcell, ih fun e' he' => h e' (List.mem_cons_of_mem _ he')]
      rfl
  have hfilter := hcells (s.live.filter fun e => e.alloc = a ∧
    SizeClass.fromRequest e.size = some c) fun e he => of_decide_eq_true (List.mem_filter.mp he).2
  show Multiset.map _ _ ≤ _
  rw [Multiset.map_coe, World.liveBlocks, ← hfilter]
  exact Multiset.coe_le.mpr (List.Sublist.subperm (List.filter_sublist.filterMap _))

/-- The places of the blocks of a class, when only the caches in `K` have some. -/
def classPlaces (a : ι) (c : SizeClass) (K : Finset κ) : Finset (Place ι κ) :=
  {.client, .partialFree a c, .full a c, .inbox a c} ∪ K.biUnion (custodyPlaces c)

theorem sum_classPlaces (K : Finset κ) (f : Place ι κ → Multiset (Cell ι)) :
    ∑ p ∈ classPlaces a c K, f p = f .client + (f (.partialFree a c) + (f (.full a c) +
      f (.inbox a c))) + ∑ k ∈ K, ∑ p ∈ custodyPlaces c k, f p := by
  have hcustody : ∀ p : Place ι κ, p ∈ K.biUnion (custodyPlaces c) →
      ∃ k, p ∈ custodyPlaces c k := by
    intro p hp
    obtain ⟨k, -, hk⟩ := Finset.mem_biUnion.mp hp
    exact ⟨k, hk⟩
  rw [classPlaces, Finset.sum_union, Finset.sum_biUnion]
  · rw [Finset.sum_insert (by simp), Finset.sum_insert (by simp), Finset.sum_insert (by simp),
      Finset.sum_singleton]
  · intro j _ k _ hne
    refine Finset.disjoint_left.mpr fun p hj hk => ?_
    simp only [custodyPlaces, Finset.mem_insert, Finset.mem_singleton] at hj hk
    rcases hj with rfl | rfl | rfl | rfl | rfl | rfl <;> simp [hne] at hk
  · refine Finset.disjoint_left.mpr fun p hp hk => ?_
    obtain ⟨k, hk⟩ := hcustody p hk
    simp only [custodyPlaces, Finset.mem_insert, Finset.mem_singleton] at hp hk
    rcases hp with rfl | rfl | rfl | rfl <;> simp at hk

omit [DecidableEq κ] in
theorem mem_custody {k : κ} (howner : (s.caches k).owner = some a) {b : Nat} :
    b ∈ s.custody a c k ↔ b ∈ ((s.caches k).classes c).bag ∨
      b ∈ ((s.caches k).remoteReturns c).pending ∨ b ∈ (s.threads k).blocksOf c := by
  rw [World.custody_of_owner howner, ThreadCache.custody, Multiset.mem_add, Multiset.mem_add,
    or_assoc]
  rfl

/-- A block that is in the place of a cache is in its custody. -/
theorem mem_custody_of_own {k : κ} (parts : Parts setup s) {p : Place ι κ} {b : Nat}
    (hp : p ∈ custodyPlaces c k) (h : setup.smallCell a c b ∈ s.own setup p) :
    b ∈ s.custody a c k := by
  have hclass : ∀ {bag : Multiset Nat}, setup.smallCell a c b ∈ s.cacheCells setup k c bag →
      bag ≤ ((s.caches k).classes c).bag → b ∈ s.custody a c k := by
    intro bag hcell hle
    obtain ⟨howner, -, hb⟩ := smallCell_mem_cacheCells hcell
    exact (mem_custody howner).mpr (Or.inl (Multiset.mem_of_le hle hb))
  simp only [custodyPlaces, Finset.mem_insert, Finset.mem_singleton] at hp
  rcases hp with rfl | rfl | rfl | rfl | rfl | rfl
  · exact hclass h (LocalClassCache.hotBag_le_bag _)
  · exact hclass h (LocalClassCache.freeBag_le_bag _)
  · exact hclass h (LocalClassCache.freshBag_le_bag _)
  · exact hclass h (LocalClassCache.sharedBag_le_bag _)
  · obtain ⟨howner, -, hb⟩ := smallCell_mem_cacheCells h
    exact (mem_custody howner).mpr (Or.inr (Or.inl hb))
  · obtain ⟨howner, pc, blocks, ht, hpc, hb⟩ := parts.smallCell_mem_hand h
    refine (mem_custody howner).mpr (Or.inr (Or.inr ?_))
    simpa [ht, Thread.blocksOf, Pc.blocksOf, hpc] using hb

/-- Every block ever carved for a class is live, in the custody of a cache, or in the pool. -/
theorem Inv.slabBag_eq_of (inv : Inv setup s) (a : ι) (c : SizeClass) (K : Finset κ)
    (hK : ∀ k, k ∉ K → s.custody a c k = 0) : ((s.allocators a).central.lists c).slabBag =
      s.liveBlocks a c + (s.allocators a).central.freeBag c + ∑ k ∈ K, s.custody a c k := by
  refine (inv.eq_slabBag (classPlaces a c K) ?_ fun p b hb => ?_).symm
  · rw [sum_classPlaces, Setup.smallCells_add, Setup.smallCells_add]
    refine add_le_add (add_le_add liveBlocks_le_own ?_) ?_
    · simp only [World.own, CentralPool.freeBag, ClassPool.bag, Setup.smallCells_add]
      apply le_of_eq
      ac_rfl
    · rw [Setup.smallCells, ← Multiset.coe_mapAddMonoidHom, map_sum]
      exact Finset.sum_le_sum fun k _ => custody_le_own inv.parts
  · have hpool : b ∈ (s.allocators a).central.freeBag c →
        b ∈ (s.liveBlocks a c : Multiset Nat) + (s.allocators a).central.freeBag c +
          ∑ k ∈ K, s.custody a c k := fun h =>
      Multiset.mem_add.mpr (Or.inl (Multiset.mem_add.mpr (Or.inr h)))
    have hcustody : ∀ k : κ, p ∈ custodyPlaces c k →
        b ∈ (s.liveBlocks a c : Multiset Nat) + (s.allocators a).central.freeBag c +
          ∑ k ∈ K, s.custody a c k := by
      intro k hk
      have hmem := mem_custody_of_own inv.parts hk hb
      by_cases hkK : k ∈ K
      · exact Multiset.mem_add.mpr (Or.inr (Multiset.mem_sum.mpr ⟨k, hkK, hmem⟩))
      · rw [hK k hkK] at hmem
        exact absurd hmem (Multiset.notMem_zero b)
    have hlarge : ∀ (a' : ι) (blocks : Multiset FreeLargeBlock),
        setup.smallCell a c b ∉ blocks.map (largeCell a') := by
      intro a' blocks h
      obtain ⟨block, -, hcell⟩ := Multiset.mem_map.mp h
      cases congrArg Cell.cls hcell
    cases p with
    | client =>
      obtain ⟨e, he, hcell⟩ := List.mem_filterMap.mp hb
      obtain ⟨d, hd, hcell⟩ := Option.map_eq_some_iff.mp hcell
      obtain ⟨rfl, hd', rfl, -⟩ := Cell.mk.inj hcell
      obtain rfl := Option.some.inj hd'
      refine Multiset.mem_add.mpr (Or.inl (Multiset.mem_add.mpr (Or.inl ?_)))
      exact Multiset.mem_coe.mpr (List.mem_map_of_mem (List.mem_filter.mpr ⟨he, by simp [hd]⟩))
    | partialFree a' d =>
      obtain ⟨rfl, rfl, hmem⟩ := smallCell_mem_smallCells.mp hb
      exact hpool (Multiset.mem_add.mpr (Or.inr (Multiset.mem_add.mpr (Or.inl hmem))))
    | full a' d =>
      obtain ⟨rfl, rfl, hmem⟩ := smallCell_mem_smallCells.mp hb
      exact hpool (Multiset.mem_add.mpr (Or.inr (Multiset.mem_add.mpr (Or.inr hmem))))
    | inbox a' d =>
      obtain ⟨rfl, rfl, hmem⟩ := smallCell_mem_smallCells.mp hb
      exact hpool (Multiset.mem_add.mpr (Or.inl hmem))
    | largeLive a' => exact absurd hb (hlarge a' (s.allocators a').large.liveBag)
    | largeFree a' => exact absurd hb (hlarge a' (s.allocators a').large.freeBag)
    | hand k => exact hcustody k (by simp [custodyPlaces])
    | hot k d =>
      obtain ⟨-, rfl, -⟩ := smallCell_mem_cacheCells hb
      exact hcustody k (by simp [custodyPlaces])
    | slabFree k d =>
      obtain ⟨-, rfl, -⟩ := smallCell_mem_cacheCells hb
      exact hcustody k (by simp [custodyPlaces])
    | fresh k d =>
      obtain ⟨-, rfl, -⟩ := smallCell_mem_cacheCells hb
      exact hcustody k (by simp [custodyPlaces])
    | shared k d =>
      obtain ⟨-, rfl, -⟩ := smallCell_mem_cacheCells hb
      exact hcustody k (by simp [custodyPlaces])
    | staged k d =>
      obtain ⟨-, rfl, -⟩ := smallCell_mem_cacheCells hb
      exact hcustody k (by simp [custodyPlaces])

theorem Inv.slabBag_eq [Fintype κ] (inv : Inv setup s) (a : ι) (c : SizeClass) :
    ((s.allocators a).central.lists c).slabBag =
      s.liveBlocks a c + (s.allocators a).central.freeBag c + ∑ k, s.custody a c k :=
  inv.slabBag_eq_of a c Finset.univ fun k hk => absurd (Finset.mem_univ k) hk

theorem Inv.capacity_eq [Fintype κ] (inv : Inv setup s) (a : ι) (c : SizeClass) :
    ((s.allocators a).central.lists c).capacity = (s.liveBlocks a c).length +
      ((s.allocators a).central.freeBag c).card + ∑ k, (s.custody a c k).card := by
  rw [← ClassPool.card_slabBag, inv.slabBag_eq a c, Multiset.card_add, Multiset.card_add,
    Multiset.coe_card, Multiset.card_sum]

end Books

/-! ### What a cache has at most -/

/-- The most blocks of a class that a cache has stored, staged or in the hands of its call. -/
def AllocatorConfig.custodyLimit (config : AllocatorConfig) (c : SizeClass) : Nat :=
  config.retained c + config.drainCount c

/-- The call is about to hand blocks to the central pool. -/
def Thread.transfers : Thread ι κ Seq → Bool
  | .busy _ (.publishing ..) | .busy _ (.returning ..) => true
  | _ => false

section Limits

variable {setup : Setup ι κ} {s s' : World ι κ Seq Seq} {a : ι} {k : κ} {c : SizeClass}
  {config : AllocatorConfig} {cache : ThreadCache ι Seq} {thread : Thread ι κ Seq}

theorem card_custody (ok : CacheOk setup k cache) (thread : Thread ι κ Seq) :
    (cache.custody thread c).card = (cache.classes c).totalLen +
      (cache.remoteReturns c).pendingLen + (thread.blocksOf c).card := by
  have hpending : (cache.remoteReturns c).pendingLen = (cache.remoteReturns c).pending.length :=
    ok.returns_ok c
  rw [ThreadCache.custody, Multiset.card_add, Multiset.card_add, (ok.class_inv c).totalLen_eq,
    hpending, Multiset.coe_card]

theorem Pc.blocksOf_of_ne {d : SizeClass} {blocks : List Nat} {pc : Pc ι κ Seq}
    (h : pc.blocks = some (d, blocks)) (hd : d ≠ c) : pc.blocksOf c = 0 := by
  simp only [Pc.blocksOf, h, if_neg hd]

theorem Pc.blocksOf_of_eq {blocks : List Nat} {pc : Pc ι κ Seq}
    (h : pc.blocks = some (c, blocks)) : pc.blocksOf c = blocks := by
  simp only [Pc.blocksOf, h, if_true]

/-- Blocks in the hands of a call of which the class has room for that many. -/
theorem Within.custody_le (ok : CacheOk setup k cache) (h : Within config cache c 0 0) {b : ι}
    {d : SizeClass} {blocks : List Nat} {pc : Pc ι κ Seq} (hpc : pc.blocks = some (d, blocks))
    (hblocks : d = c → (cache.classes c).totalLen + blocks.length ≤ config.retained c + 1) :
    (cache.custody (.busy b pc) c).card ≤ config.custodyLimit c := by
  have hheld := h.held
  have hstaged := h.staged
  rw [card_custody ok]
  unfold AllocatorConfig.custodyLimit
  show _ + _ + (pc.blocksOf c).card ≤ _
  by_cases hd : d = c
  · subst hd
    have := hblocks rfl
    rw [Pc.blocksOf_of_eq hpc, Multiset.coe_card]
    omega
  · rw [Pc.blocksOf_of_ne hpc hd, Multiset.card_zero]
    omega

/-- A cache is within its limits as long as its call does not hand blocks to the pool. -/
theorem Retains.custody_le (ok : CacheOk setup k cache) (h : Retains config cache thread)
    (hthread : thread.transfers = false) (c : SizeClass) :
    (cache.custody thread c).card ≤ config.custodyLimit c := by
  have hwithin := h.within c
  have hrefill := h.refill
  have hretained : config.refillCount c ≤ config.retained c := Nat.le_max_right _ _
  -- with nothing in its hands, a call is over one of its limits by one block at most
  have hempty : (thread.blocksOf c).card = 0 → thread.overLocal c + thread.overStaged c ≤ 1 →
      (cache.custody thread c).card ≤ config.custodyLimit c := by
    intro hnone hover
    have hheld := hwithin.held
    have hstaged := hwithin.staged
    rw [card_custody ok, hnone]
    unfold AllocatorConfig.custodyLimit
    omega
  cases thread with
  | idle last => exact hempty rfl (Nat.zero_le _)
  | busy b pc =>
    cases pc with
    | gotBatch d size batch =>
      refine hwithin.custody_le ok rfl fun hd => ?_
      subst hd
      obtain ⟨hzero, hle⟩ := hrefill
      omega
    | gotSlab d size start blockSize capacity =>
      refine hwithin.custody_le ok rfl fun hd => ?_
      subst hd
      obtain ⟨hzero, hle⟩ := hrefill
      rw [length_slabBlocks]
      omega
    | registered d size start blockSize capacity =>
      refine hwithin.custody_le ok rfl fun hd => ?_
      subst hd
      obtain ⟨hzero, hle⟩ := hrefill
      rw [length_slabBlocks]
      omega
    | popped d size block reuse =>
      exact hwithin.custody_le ok rfl fun _ => Nat.succ_le_succ hwithin.held
    | route d block owner =>
      exact hwithin.custody_le ok rfl fun _ => Nat.succ_le_succ hwithin.held
    | publishing d batch resume => cases hthread
    | returning d batch resume => cases hthread
    | excess d max resume =>
      apply hempty rfl
      simp only [Thread.overLocal, Thread.overStaged]
      split <;> omega
    | unstage d resume =>
      apply hempty rfl
      simp only [Thread.overLocal, Thread.overStaged]
      split <;> omega
    | _ => exact hempty rfl (Nat.zero_le _)

/-- Blocks that go from the cache into the hands of its call stay in custody. -/
theorem Transition.card_custody {debug : Bool} {pc : Pc ι κ Seq} {v : View ι κ Seq Seq}
    (htrans : Transition debug s a k pc v) (hv : v.thread.transfers = true) (c : SizeClass) :
    (v.cache.custody v.thread c).card = ((s.caches k).custody (.busy a pc) c).card := by
  have hresume : ∀ (v : View ι κ Seq Seq) (r : Resume),
      (v.resume a r).thread.transfers = false := by
    intro v r
    cases r <;> rfl
  cases htrans with
  | @unstage d resume h =>
    by_cases hd : d = c
    · subst hd
      simp [ThreadCache.custody, View.goto, View.setCache, Thread.blocksOf, Pc.blocksOf, Pc.blocks,
        ThreadCache.setRemoteReturns]
    · simp [ThreadCache.custody, View.goto, View.setCache, Thread.blocksOf, Pc.blocksOf, Pc.blocks,
        ThreadCache.setRemoteReturns, hd, Ne.symm hd]
  | @excess d max resume m batch class_ hinv shapes hbatch drains =>
    have hbag := congrArg Multiset.card drains.bag
    rw [Multiset.card_add, Multiset.coe_card] at hbag
    by_cases hd : d = c
    · subst hd
      simp [ThreadCache.custody, View.goto, View.setCache, Thread.blocksOf, Pc.blocksOf, Pc.blocks,
        ThreadCache.setClass]
      omega
    · simp [ThreadCache.custody, View.goto, View.setCache, Thread.blocksOf, Pc.blocksOf, Pc.blocks,
        ThreadCache.setClass, hd, Ne.symm hd]
  | @refill d size m central r h => cases r <;> cases hv
  | push _ _ _ _ _ hthread => rcases hthread with rfl | ⟨-, rfl⟩ <;> cases hv
  | stage _ hthread => rcases hthread with rfl | rfl <;> cases hv
  | unstageNone _ => rw [hresume] at hv; cases hv
  | publish => rw [hresume] at hv; cases hv
  | returnBatch => rw [hresume] at hv; cases hv
  | _ => cases hv

theorem Thread.Begun.transfers (h : thread.Begun cache a) : thread.transfers = false := by
  cases h <;> rfl

variable [DecidableEq ι] [DecidableEq κ]

/-- In every reachable state a cache and its call have no more blocks of a class than the limit. -/
theorem Setup.Reachable.custody_le (h : setup.Reachable s) (a : ι) (k : κ) (c : SizeClass) :
    (s.custody a c k).card ≤ (setup.config a).custodyLimit c := by
  induction h with
  | initial => exact Nat.zero_le _
  | @step s s' action hr hstep ih =>
    have hreach := hr.step action hstep
    by_cases howner : (s'.caches k).owner = some a
    · cases htransfers : (s'.threads k).transfers with
      | false =>
        rw [World.custody_of_owner howner]
        exact (hreach.retention.cache k a howner).custody_le (hreach.inv.parts.cache k) htransfers c
      | true =>
        -- the blocks were in custody before
        refine le_trans (Nat.le_of_eq ?_) ih
        rcases hr.inv.step_cases hstep with ⟨j, b, pc, advised, v, -, ht, rfl, -, htrans⟩ |
          ⟨j, b, last, v, -, -, rfl, -, hbegin⟩ | ⟨-, hcaches, hthreads⟩
        · by_cases hk : k = j
          · subst hk
            rw [World.update_threads_same] at htransfers
            rw [World.update_caches_same, htrans.owner_eq] at howner
            rw [World.custody_of_owner howner, World.custody_of_owner
              (by rw [World.update_caches_same, htrans.owner_eq, howner]),
              World.update_caches_same, World.update_threads_same, ht]
            exact htrans.card_custody htransfers c
          · simp only [World.custody, World.update_caches_ne _ _ hk, World.update_threads_ne _ _ hk]
        · by_cases hk : k = j
          · subst hk
            rw [World.update_threads_same] at htransfers
            rcases hbegin with ⟨-, -, hthread⟩ | ⟨-, hthread⟩
            · rw [hthread] at htransfers
              cases htransfers
            · rw [hthread.transfers] at htransfers
              cases htransfers
          · simp only [World.custody, World.update_caches_ne _ _ hk, World.update_threads_ne _ _ hk]
        · simp only [World.custody, hcaches, hthreads]
    · rw [World.custody, if_neg howner]
      exact Nat.zero_le _

end Limits

end Orthotope
