import Orthotope.CentralPoolLinks
import Orthotope.LocalCacheLinks
import Orthotope.Runs

/-! Slab lookup.  A cache and a pool find the slab of a block by a search in an index of slab
numbers that is sorted by the slabs' starts, after a look at the slab they used last.  For slabs
that do not meet, inserted in any order, both give the answer of a search through all slabs,
whichever slab was used last; and what a debug build checks of the block beyond its place in the
slab makes no difference for a block of the class. -/

namespace Orthotope

open ByteMemory IndexedVec

/-! ### A cache -/

namespace LocalClassCache

section Shape

variable {L : Type}

/-- No two slabs meet. -/
def SlabsApart (cache : LocalClassCache L) : Prop :=
  cache.slabs.Pairwise fun s t => s.endAddr ≤ t.start ∨ t.endAddr ≤ s.start

/-- The place where slab `id` ends. -/
def slabEnd (cache : LocalClassCache L) (id : Nat) : Nat :=
  (cache.slabs[id]?.map LocalSlab.endAddr).getD 0

variable {cache : LocalClassCache L}

theorem SlabsApart.of_ne (h : cache.SlabsApart) {i j : Nat} {s t : LocalSlab L}
    (hi : cache.slabs[i]? = some s) (hj : cache.slabs[j]? = some t) (hne : i ≠ j) :
    s.endAddr ≤ t.start ∨ t.endAddr ≤ s.start := by
  obtain ⟨hil, rfl⟩ := List.getElem?_eq_some_iff.mp hi
  obtain ⟨hjl, rfl⟩ := List.getElem?_eq_some_iff.mp hj
  have hp := List.pairwise_iff_getElem.mp h
  rcases Nat.lt_or_gt_of_ne hne with hlt | hlt
  · exact hp i j hil hjl hlt
  · exact (hp j i hjl hil hlt).symm

theorem SlabsApart.unique (h : cache.SlabsApart) {debug : Bool} {block i j : Nat}
    {s t : LocalSlab L} (hi : cache.slabs[i]? = some s) (hj : cache.slabs[j]? = some t)
    (hs : s.contains debug block = true) (ht : t.contains debug block = true) : i = j := by
  by_contra hne
  simp only [LocalSlab.contains, Bool.and_eq_true, decide_eq_true_eq] at hs ht
  have := h.of_ne hi hj hne
  omega

end Shape

variable {cache : LocalClassCache (List Nat)}

/-- The lookup finds the slab that contains the block, if there is one. -/
theorem Inv.homeSlab_iff (inv : cache.Inv) (hapart : cache.SlabsApart) {debug : Bool}
    {block id : Nat} : cache.homeSlab debug block = some id ↔
      ∃ slab, cache.slabs[id]? = some slab ∧ slab.contains debug block = true := by
  constructor
  · exact contains_of_homeSlab
  · rintro ⟨slab, hid, hc⟩
    unfold homeSlab
    split
    · rename_i rid hrecent
      obtain ⟨-, hcr⟩ := Option.filter_eq_some_iff.mp hrecent
      cases hr : cache.slabs[rid]? with
      | none => simp [hr] at hcr
      | some r =>
        simp only [hr, Option.map_some, Option.getD_some] at hcr
        rw [hapart.unique hr hid hcr hc]
    · have hkey : ∀ {j : Nat} {t : LocalSlab (List Nat)}, cache.slabs[j]? = some t →
          cache.slabStart j = t.start ∧ cache.slabEnd j = t.endAddr := by
        intro j t ht
        simp [slabStart, slabEnd, ht]
      have hget : ∀ j, j < cache.slabs.length → ∃ t, cache.slabs[j]? = some t :=
        fun j hj => ⟨_, List.getElem?_eq_getElem hj⟩
      have hrange := hc
      simp only [LocalSlab.contains, Bool.and_eq_true, decide_eq_true_eq] at hrange
      obtain ⟨hpos, hfound⟩ := inv.index.before_partitionPoint_of_interval cache.slabEnd
        (fun j hj => by
          obtain ⟨t, ht⟩ := hget j hj
          have hend := (inv.slab_ok t (List.mem_of_getElem? ht)).end_eq
          rw [(hkey ht).1, (hkey ht).2]
          omega)
        (fun i hi j hj hne => by
          obtain ⟨s, hs⟩ := hget i hi
          obtain ⟨t, ht⟩ := hget j hj
          rw [(hkey hs).1, (hkey hs).2, (hkey ht).1, (hkey ht).2]
          exact hapart.of_ne hs ht hne)
        (List.getElem?_eq_some_iff.mp hid).1 ((hkey hid).1 ▸ hrange.1.1) ((hkey hid).2 ▸ hrange.1.2)
      unfold findSlab
      simp only
      rw [if_neg (Nat.pos_iff_ne_zero.mp hpos), hfound]
      simp [Option.filter, hid, hc]

/-- Whichever slab was used last, the lookup finds in every build the slab that contains the block,
as a search through all slabs does. -/
def Finds {L : Type} (cache : LocalClassCache L) : Prop :=
  ∀ recent, (∀ id, recent = some id → id < cache.slabs.length) → ∀ debug block,
    ({ cache with recentSlab := recent } : LocalClassCache L).homeSlab debug block =
        cache.slabs.findIdx? (fun slab => slab.contains debug block) ∧
      ∀ id, ({ cache with recentSlab := recent } : LocalClassCache L).homeSlab
        debug block = some id ↔
        ∃ slab, cache.slabs[id]? = some slab ∧ slab.contains debug block = true

theorem Inv.finds (inv : cache.Inv) (hapart : cache.SlabsApart) : cache.Finds := by
  intro recent hrecent debug block
  have inv' : ({ cache with recentSlab := recent } : LocalClassCache (List Nat)).Inv :=
    { inv with recent_lt := hrecent }
  have hiff : ∀ id, ({ cache with recentSlab := recent } :
      LocalClassCache (List Nat)).homeSlab debug block = some id ↔
        ∃ slab, cache.slabs[id]? = some slab ∧ slab.contains debug block = true :=
    fun id => inv'.homeSlab_iff hapart
  refine ⟨Option.ext fun id => (hiff id).trans ?_, hiff⟩
  constructor
  · rintro ⟨slab, hid, hc⟩
    exact findIdx?_of_unique (fun i j s t hi hj hs ht => hapart.unique hi hj hs ht) hid hc
  · exact exists_of_findIdx?

theorem Finds.map {L L' : Type} {cache : LocalClassCache L} (h : cache.Finds) (f : L → L') :
    (cache.map f).Finds := by
  intro recent hrecent debug block
  have hlen : (cache.map f).slabs.length = cache.slabs.length := List.length_map _
  have hhome :
      ({ cache.map f with recentSlab := recent } : LocalClassCache L').homeSlab debug block =
      ({ cache with recentSlab := recent } : LocalClassCache L).homeSlab debug block :=
    homeSlab_map f { cache with recentSlab := recent } block debug
  obtain ⟨hfind, hiff⟩ := h recent (fun id hid => hlen ▸ hrecent id hid) debug block
  rw [hhome]
  constructor
  · have hslabs : (cache.map f).slabs.findIdx? (fun slab => slab.contains debug block) =
        cache.slabs.findIdx? (fun slab => slab.contains debug block) :=
      (List.findIdx?_map ..).trans rfl
    rw [hfind, hslabs]
  · intro id
    rw [hiff, getElem?_map_slabs]
    cases cache.slabs[id]? with
    | none => simp
    | some slab =>
      simp only [Option.map_some, Option.some.injEq, exists_eq_left']
      exact Iff.rfl

end LocalClassCache

/-! ### A pool -/

namespace ClassPool

/-- Whichever slab was used last, the lookup finds the slab of a block, as a search through all
slabs does; the place in the index at which it looks is not the one before the first. -/
def Finds {L : Type} (pool : ClassPool L) : Prop :=
  ∀ recent, (∀ id, recent = some id → id < pool.slabs.length) → ∀ id slab block,
    pool.slabs[id]? = some slab → block ∈ slab.blocks →
      ({ pool with recentSlab := recent } : ClassPool L).findSlabIdUnchecked block = some id ∧
      pool.slabs.findIdx? (fun slab => slab.contains block) = some id ∧
      0 < partitionPoint (fun id => decide (pool.slabStart id ≤ block)) pool.slabsByStart

theorem Inv.finds {pool : ClassPool (List Nat)} (inv : pool.Inv) : pool.Finds := by
  intro recent hrecent id slab block hid hmem
  have inv' : ({ pool with recentSlab := recent } : ClassPool (List Nat)).Inv :=
    ⟨inv.slab_ok, ⟨fun s hs => by
      have := inv.bucketed.slots s hs
      cases s <;> exact this, inv.bucketed.loaned⟩, inv.index, inv.disjoint, hrecent⟩
  have ok := inv.slab_ok slab (List.mem_of_getElem? hid)
  obtain ⟨hlo, hhi⟩ := slabBlocks_bounds hmem
  have hlt : block < slab.endAddr := by
    have hpos := ok.blockSize_pos
    rw [ok.end_eq]
    omega
  have hc : slab.contains block = true := by
    obtain ⟨i, -, hi⟩ := mem_slabBlocks.mp hmem
    have hmod : (block - slab.start) % slab.blockSize = 0 := by
      rw [hi, Nat.add_sub_cancel_left]
      exact Nat.mul_mod_left _ _
    simp [SlabRecord.contains, hlo, hlt, hmod]
  refine ⟨findSlabIdUnchecked_spec inv' hid hmem, ?_, (inv.search hid hlo hlt).1⟩
  refine findIdx?_of_unique (fun i j s t hi hj hs ht => ?_) hid hc
  simp only [SlabRecord.contains, Bool.and_eq_true, decide_eq_true_eq] at hs ht
  exact inv.eq_of_overlap hi hj hs.1.1 hs.1.2 ht.1.1 ht.1.2

theorem Finds.map {L L' : Type} {pool : ClassPool L} (h : pool.Finds) (f : L → L') :
    (pool.map f).Finds := by
  intro recent hrecent id slab block hid hmem
  have hlen : (pool.map f).slabs.length = pool.slabs.length := List.length_map _
  rw [getElem?_map_slabs] at hid
  obtain ⟨slab', hid', rfl⟩ := Option.map_eq_some_iff.mp hid
  obtain ⟨hfind, hsearch, hpos⟩ := h recent (fun id hid =>
    hlen ▸ hrecent id hid) id slab' block hid'
    hmem
  refine ⟨?_, ?_, ?_⟩
  · have hfound : ({ pool.map f with recentSlab := recent } : ClassPool L').findSlabIdUnchecked
        block = ({ pool with recentSlab := recent } : ClassPool L).findSlabIdUnchecked block :=
      findSlabIdUnchecked_map f { pool with recentSlab := recent } block
    rw [hfound, hfind]
  · rw [← hsearch]
    exact (List.findIdx?_map ..).trans rfl
  · have hkey : (pool.map f).slabStart = pool.slabStart := funext fun id => slabStart_map f pool id
    rw [hkey]
    exact hpos

end ClassPool

/-! ### Slabs in any order -/

/-- A slab as it is inserted. -/
structure SlabSpan where
  start : Nat
  blockSize : Nat
  capacity : Nat
  deriving DecidableEq, Repr

namespace SlabSpan

def shape (span : SlabSpan) : Nat × Nat × Nat × Nat :=
  (span.start, span.start + span.blockSize * span.capacity, span.blockSize, span.capacity)

def blocks (span : SlabSpan) : List Nat := slabBlocks span.start span.blockSize span.capacity

/-- The slabs do not meet. -/
def Apart (s t : SlabSpan) : Prop :=
  s.start + s.blockSize * s.capacity ≤ t.start ∨ t.start + t.blockSize * t.capacity ≤ s.start

instance decidableApart : DecidableRel Apart := fun _ _ => inferInstanceAs (Decidable (_ ∨ _))

instance symmApart : Std.Symm Apart := ⟨fun _ _ => Or.symm⟩

/-- Slabs that have blocks and do not meet. -/
structure Family (spans : List SlabSpan) : Prop where
  pos : ∀ span ∈ spans, 0 < span.blockSize ∧ 0 < span.capacity
  apart : spans.Pairwise Apart

theorem Family.left {spans others : List SlabSpan} (h : Family (spans ++ others)) : Family spans :=
  ⟨fun span hspan => h.pos span (List.mem_append_left _ hspan), (List.pairwise_append.mp h.apart).1⟩

end SlabSpan

namespace LocalClassCache

/-- The cache that the slabs have been handed to, in the order of the list. -/
def ofSlabs {L : Type} [BlockList L] (spans : List SlabSpan) : LocalClassCache L :=
  spans.foldl (fun cache span => cache.pushOwnedSlab span.start span.blockSize span.capacity) new

theorem ofSlabs_map (spans : List SlabSpan) :
    (ofSlabs spans : LocalClassCache FreeList) =
      (ofSlabs spans : LocalClassCache (List Nat)).map FreeList.ofSeq := by
  induction spans using List.reverseRecOn with
  | nil => rfl
  | append_singleton spans span ih =>
    simp only [ofSlabs, List.foldl_append, List.foldl_cons, List.foldl_nil] at ih ⊢
    rw [ih, pushOwnedSlab_map]

variable {cache : LocalClassCache (List Nat)}

/-- A slab with a start of its own is appended. -/
theorem Inv.pushOwnedSlab_shapes (inv : cache.Inv) {start blockSize capacity : Nat}
    (hb : 0 < blockSize) (hc : 0 < capacity) (hnew : ∀ slab ∈ cache.slabs, slab.start ≠ start) :
    (cache.pushOwnedSlab start blockSize capacity).shapes =
      cache.shapes ++ [(start, start + blockSize * capacity, blockSize, capacity)] := by
  cases hsearch : binarySearchByKey cache.slabStart start cache.slabsByStart with
  | ok slot =>
    obtain ⟨id, hslot, hstart⟩ := SortedIndex.search_ok hsearch
    have hlt : id < cache.slabs.length := (inv.index.mem id).mp (List.mem_of_getElem? hslot)
    obtain ⟨slab, hid⟩ : ∃ slab, cache.slabs[id]? = some slab := ⟨_, List.getElem?_eq_getElem hlt⟩
    have hkey : slab.start = start := by simpa [slabStart, hid] using hstart
    exact absurd hkey (hnew slab (List.mem_of_getElem? hid))
  | error slot =>
    have hgains := gains_new inv hb hc hsearch
    have hrel := relists_markSlabAvailable hgains.inv.slots
      (show cache.slabs.length < (cache.slabs ++ [LocalSlab.new start blockSize capacity]).length by
        simp)
    simp only [pushOwnedSlab, hsearch]
    have hshapes := hrel.same.shapes
    simp only [markSlabAvailable_with, markSlabAvailable_totalLen] at hshapes ⊢
    apply hshapes.trans
    simp [shapes, LocalSlab.shape, LocalSlab.new]

theorem ofSlabs_spec {spans : List SlabSpan} (h : SlabSpan.Family spans) :
    (ofSlabs spans : LocalClassCache (List Nat)).Inv ∧
      (ofSlabs spans : LocalClassCache (List Nat)).shapes = spans.map SlabSpan.shape := by
  induction spans using List.reverseRecOn with
  | nil => exact ⟨new_inv, rfl⟩
  | append_singleton spans span ih =>
    obtain ⟨inv, hshapes⟩ := ih h.left
    obtain ⟨hb, hc⟩ := h.pos span (by simp)
    have hnew : ∀ slab ∈ (ofSlabs spans : LocalClassCache (List Nat)).slabs,
        slab.start ≠ span.start := by
      intro slab hslab heq
      have hmem : slab.shape ∈ spans.map SlabSpan.shape := hshapes ▸ List.mem_map_of_mem hslab
      obtain ⟨other, hother, hshape⟩ := List.mem_map.mp hmem
      have hstart : other.start = slab.start := congrArg Prod.fst hshape
      obtain ⟨hb', hc'⟩ := h.left.pos other hother
      have hpos := Nat.mul_pos hb hc
      have hpos' := Nat.mul_pos hb' hc'
      rcases (List.pairwise_append.mp h.apart).2.2 other hother span (by simp) with hmeet | hmeet
      · omega
      · omega
    have hpush : (ofSlabs (spans ++ [span]) : LocalClassCache (List Nat)) =
        (ofSlabs spans : LocalClassCache (List Nat)).pushOwnedSlab span.start span.blockSize
          span.capacity := by
      simp only [ofSlabs, List.foldl_append, List.foldl_cons, List.foldl_nil]
    rw [hpush]
    obtain ⟨cache', hrun, hinv, -⟩ := pushOwnedSlab_spec inv hb hc
      fun slab hslab hstart => absurd hstart (hnew slab hslab)
    refine ⟨hrun ▸ hinv, ?_⟩
    rw [inv.pushOwnedSlab_shapes hb hc hnew, hshapes, List.map_append]
    rfl

end LocalClassCache

namespace ClassPool

/-- The pool that the slabs have been registered with, in the order of the list; `advised` are the
answers of `advise_free`, if there are any sweeps. -/
def ofSlabs {L : Type} [BlockList L] (pageSize : Nat) (advised : SlabSpan → Bool)
    (spans : List SlabSpan) : ClassPool L :=
  spans.foldl (fun pool span => (pool.registerSlab pageSize (advised span) span.start span.blockSize
    span.capacity).1) new

variable {pageSize : Nat} {advised : SlabSpan → Bool}

theorem ofSlabs_map (spans : List SlabSpan) :
    (ofSlabs pageSize advised spans : ClassPool FreeList) =
      (ofSlabs pageSize advised spans : ClassPool (List Nat)).map FreeList.ofSeq := by
  induction spans using List.reverseRecOn with
  | nil => rfl
  | append_singleton spans span ih =>
    simp only [ofSlabs, List.foldl_append, List.foldl_cons, List.foldl_nil] at ih ⊢
    rw [ih, registerSlab_map]

theorem ofSlabs_spec {spans : List SlabSpan} (h : SlabSpan.Family spans) :
    (ofSlabs pageSize advised spans : ClassPool (List Nat)).Inv ∧
      (ofSlabs pageSize advised spans : ClassPool (List Nat)).shapes =
        spans.map SlabSpan.shape := by
  induction spans using List.reverseRecOn with
  | nil => exact ⟨new_inv, rfl⟩
  | append_singleton spans span ih =>
    obtain ⟨inv, hshapes⟩ := ih h.left
    obtain ⟨hb, hc⟩ := h.pos span (by simp)
    have hdisj : ∀ slab ∈ (ofSlabs pageSize advised spans : ClassPool (List Nat)).slabs,
        slab.endAddr ≤ span.start ∨ span.start + span.blockSize * span.capacity ≤ slab.start := by
      intro slab hslab
      have hmem : slab.shape ∈ spans.map SlabSpan.shape := hshapes ▸ List.mem_map_of_mem hslab
      obtain ⟨other, hother, hshape⟩ := List.mem_map.mp hmem
      have hstart : other.start = slab.start := congrArg Prod.fst hshape
      have hend : other.start + other.blockSize * other.capacity = slab.endAddr :=
        congrArg (fun s => s.2.1) hshape
      have hapart := (List.pairwise_append.mp h.apart).2.2 other hother span (by simp)
      rwa [SlabSpan.Apart, hend, hstart] at hapart
    have hregister : (ofSlabs pageSize advised (spans ++ [span]) : ClassPool (List Nat)) =
        ((ofSlabs pageSize advised spans : ClassPool (List Nat)).registerSlab pageSize
          (advised span)
          span.start span.blockSize span.capacity).1 := by
      simp only [ofSlabs, List.foldl_append, List.foldl_cons, List.foldl_nil]
    rw [hregister]
    obtain ⟨pool', range, hrun, hinv, hshapes', -⟩ :=
      registerSlab_spec inv hb hc hdisj pageSize (advised span)
    rw [hrun]
    refine ⟨hinv, ?_⟩
    rw [hshapes', hshapes, List.map_append]
    rfl

end ClassPool

/-! ### Debug and release builds -/

section Builds

variable {L : Type} {slab : LocalSlab L}

/-- For a block of the slab, or of one that does not meet it, the place of the block decides. -/
theorem LocalSlab.contains_debug {start blockSize capacity b : Nat} (hpos : 0 < blockSize)
    (hb : b ∈ slabBlocks start blockSize capacity)
    (h : slab.shape = (start, start + blockSize * capacity, blockSize, capacity) ∨
      slab.endAddr ≤ start ∨ start + blockSize * capacity ≤ slab.start) :
    slab.contains true b = slab.contains false b := by
  obtain ⟨hlo, hhi⟩ := slabBlocks_bounds hb
  rcases h with hshape | hend | hstart
  · obtain ⟨i, -, hi⟩ := mem_slabBlocks.mp hb
    have h1 : slab.start = start := congrArg Prod.fst hshape
    have h2 : slab.blockSize = blockSize := congrArg (fun s => s.2.2.1) hshape
    have hmod : (b - slab.start) % slab.blockSize = 0 := by
      rw [h1, h2, hi, Nat.add_sub_cancel_left]
      exact Nat.mul_mod_left _ _
    simp [LocalSlab.contains, hmod]
  · have hout : ¬b < slab.endAddr := by omega
    simp [LocalSlab.contains, hout]
  · have hout : ¬slab.start ≤ b := by omega
    simp [LocalSlab.contains, hout]

end Builds

/-! ### The system -/

section System

variable {ι κ : Type} {setup : Setup ι κ} {s : World ι κ Seq Seq} {a : ι} {k : κ} {c : SizeClass}

/-- A slab of a cache is a slab of the pool, or does not meet it. -/
theorem Parts.shape_cases (parts : Parts setup s) (howner : (s.caches k).owner = some a)
    {slab : LocalSlab Seq} (hslab : slab ∈ ((s.caches k).classes c).slabs) {record : SlabRecord Seq}
    (hrecord : record ∈ ((s.allocators a).central.lists c).slabs) :
    slab.shape = record.shape ∨ slab.endAddr ≤ record.start ∨ record.endAddr ≤ slab.start := by
  have inv := ((parts.allocator a).central c).pool
  obtain ⟨own, hown, hshape⟩ := List.mem_map.mp
    (parts.home k a howner c _ (List.mem_map_of_mem hslab))
  have hstart : own.start = slab.start := congrArg Prod.fst hshape
  have hend : own.endAddr = slab.endAddr := congrArg (fun s => s.2.1) hshape
  by_cases heq : own = record
  · subst heq
    exact Or.inl hshape.symm
  · right
    have hsymm : Std.Symm fun s t : SlabRecord Seq =>
        s.endAddr ≤ t.start ∨ t.endAddr ≤ s.start := ⟨fun s t => Or.symm⟩
    rw [← hstart, ← hend]
    exact inv.disjoint.forall hown hrecord heq

/-- The slabs of a cache do not meet. -/
theorem Parts.slabsApart (parts : Parts setup s) (howner : (s.caches k).owner = some a)
    (c : SizeClass) : ((s.caches k).classes c).SlabsApart := by
  have inv := (parts.cache k).class_inv c
  refine List.pairwise_iff_getElem.mpr fun i j hi hj hlt => ?_
  obtain ⟨record, hrecord, hshape⟩ := List.mem_map.mp
    (parts.home k a howner c _ (List.mem_map_of_mem (List.getElem_mem hj)))
  have hstart : record.start = ((s.caches k).classes c).slabs[j].start := congrArg Prod.fst hshape
  have hend : record.endAddr = ((s.caches k).classes c).slabs[j].endAddr :=
    congrArg (fun s => s.2.1) hshape
  rcases parts.shape_cases howner (List.getElem_mem hi) hrecord with heq | hapart
  · -- the index has each start once
    have hkey : ((s.caches k).classes c).slabStart i = ((s.caches k).classes c).slabStart j := by
      have hstart' : ((s.caches k).classes c).slabs[i].start =
          ((s.caches k).classes c).slabs[j].start := (congrArg Prod.fst heq).trans hstart
      simp [LocalClassCache.slabStart, hi, hj, hstart']
    exact absurd (inv.index.key_injective hi hj hkey) (Nat.ne_of_lt hlt)
  · rw [← hstart, ← hend]
    exact hapart

variable {w : World ι κ FreeList Batch}

variable [DecidableEq ι] [DecidableEq κ]

/-- Slab lookup agrees with a search through all slabs: for slabs that do not meet, inserted in any
order, and in every reachable state of the system. -/
theorem slab_lookup {inserted others : List SlabSpan} (h : SlabSpan.Family (inserted ++ others))
    (pageSize : Nat) (advised : SlabSpan → Bool) :
    ((LocalClassCache.ofSlabs inserted : LocalClassCache FreeList).slabs.map LocalSlab.shape =
        inserted.map SlabSpan.shape ∧
      (LocalClassCache.ofSlabs inserted : LocalClassCache FreeList).Finds ∧
      ∀ span ∈ inserted ++ others, ∀ b ∈ span.blocks,
        ∀ slab ∈ (LocalClassCache.ofSlabs inserted : LocalClassCache FreeList).slabs,
          slab.contains true b = slab.contains false b) ∧
    ((ClassPool.ofSlabs pageSize advised inserted : ClassPool FreeList).slabs.map
        SlabRecord.shape = inserted.map SlabSpan.shape ∧
      (ClassPool.ofSlabs pageSize advised inserted : ClassPool FreeList).Finds) ∧
    ∀ (setup : Setup ι κ) (w : World ι κ FreeList Batch), setup.Reachable w → ∀ a c,
      ((w.allocators a).central.lists c).Finds ∧
      ∀ k, (w.caches k).owner = some a → ((w.caches k).classes c).Finds ∧
        ∀ record ∈ ((w.allocators a).central.lists c).slabs, ∀ b ∈ record.blocks,
          ∀ slab ∈ ((w.caches k).classes c).slabs, slab.contains true b =
              slab.contains false b := by
  refine ⟨?_, ?_, fun setup w hw a c => ?_⟩
  · obtain ⟨inv, hshapes⟩ := LocalClassCache.ofSlabs_spec h.left
    have hslabs : (LocalClassCache.ofSlabs inserted : LocalClassCache FreeList).slabs.map
        LocalSlab.shape = inserted.map SlabSpan.shape := by
      rw [LocalClassCache.ofSlabs_map, ← hshapes]
      exact List.map_map
    have hapart : (LocalClassCache.ofSlabs inserted : LocalClassCache (List Nat)).SlabsApart := by
      have hpairs := h.left.apart
      have hmap : (inserted.map SlabSpan.shape).Pairwise
          fun s t => s.2.1 ≤ t.1 ∨ t.2.1 ≤ s.1 := List.pairwise_map.mpr hpairs
      rw [← hshapes] at hmap
      exact List.pairwise_map.mp hmap
    refine ⟨hslabs, ?_, fun span hspan b hb slab hslab => ?_⟩
    · rw [LocalClassCache.ofSlabs_map]
      exact (inv.finds hapart).map FreeList.ofSeq
    · have hmem : slab.shape ∈ inserted.map SlabSpan.shape := hslabs ▸ List.mem_map_of_mem hslab
      obtain ⟨own, hown, hshape⟩ := List.mem_map.mp hmem
      apply LocalSlab.contains_debug (h.pos span hspan).1 hb
      by_cases heq : own = span
      · subst heq
        exact Or.inl hshape.symm
      · right
        have hends : own.start + own.blockSize * own.capacity = slab.endAddr :=
          congrArg (fun s => s.2.1) hshape
        have hstart : own.start = slab.start := congrArg Prod.fst hshape
        have happ := h.apart.forall (List.mem_append_left _ hown) hspan heq
        rwa [SlabSpan.Apart, hends, hstart] at happ
  · obtain ⟨inv, hshapes⟩ :
        (ClassPool.ofSlabs pageSize advised inserted : ClassPool (List Nat)).Inv ∧
        (ClassPool.ofSlabs pageSize advised inserted : ClassPool (List Nat)).shapes =
          inserted.map SlabSpan.shape := ClassPool.ofSlabs_spec h.left
    rw [ClassPool.ofSlabs_map]
    refine ⟨?_, inv.finds.map FreeList.ofSeq⟩
    rw [← hshapes]
    exact List.map_map
  · obtain ⟨s, hs, hrefines⟩ := hw.refines
    have hparts := hs.inv.parts
    rw [hrefines.code]
    refine ⟨((hparts.allocator a).central c).pool.finds.map FreeList.ofSeq, fun k howner => ?_⟩
    have howner : (s.caches k).owner = some a := howner
    refine ⟨(((hparts.cache k).class_inv c).finds (hparts.slabsApart howner c)).map FreeList.ofSeq,
      fun record hrecord b hb slab hslab => ?_⟩
    obtain ⟨slab', hslab', rfl⟩ := List.mem_map.mp hslab
    obtain ⟨record', hrecord', rfl⟩ := List.mem_map.mp hrecord
    have ok := (((hparts.allocator a).central c).pool).slab_ok record' hrecord'
    have hcases := hparts.shape_cases howner hslab' hrecord'
    rw [SlabRecord.shape, ok.end_eq] at hcases
    have hsame : slab'.contains true b = slab'.contains false b :=
      LocalSlab.contains_debug ok.blockSize_pos hb hcases
    exact hsame

/-- Three slabs that were not inserted in the order of their addresses. -/
def sampleSlabs : List SlabSpan := [⟨8192, 128, 4⟩, ⟨4096, 128, 2⟩, ⟨4352, 128, 3⟩]

theorem slab_lookup_sample :
    ({ LocalClassCache.ofSlabs sampleSlabs with recentSlab := some 0 } :
        LocalClassCache FreeList).homeSlab false 4224 = some 1 ∧
      ({ ClassPool.ofSlabs 4096 (fun _ => true) sampleSlabs with recentSlab := some 2 } :
        ClassPool FreeList).findSlabIdUnchecked 8320 = some 0 := by
  have h : SlabSpan.Family (sampleSlabs ++ [⟨12288, 128, 1⟩]) := ⟨by decide, by decide⟩
  obtain ⟨⟨-, hcache, -⟩, ⟨-, hpool⟩, -⟩ :=
    @slab_lookup Unit (Fin 2) _ _ _ _ h 4096 fun _ => true
  constructor
  · have hrecent : ∀ id, some 0 = some id →
        id < (LocalClassCache.ofSlabs sampleSlabs : LocalClassCache FreeList).slabs.length := by
      decide
    refine ((hcache (some 0) hrecent false 4224).2 1).mpr ⟨_, rfl, by decide⟩
  · have hrecent : ∀ id, some 2 = some id → id < (ClassPool.ofSlabs 4096 (fun _ => true)
        sampleSlabs : ClassPool FreeList).slabs.length := by
      decide
    exact (hpool (some 2) hrecent 0 _ 8320 rfl (by decide)).1

end System

end Orthotope
