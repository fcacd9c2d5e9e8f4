import Orthotope.Contents

/-! Who has which block, in every state that a run of the code reaches.  Live allocations share no
byte, every block of every registered slab is in exactly one place, and the slab records of the
caches agree with those of the central pools. -/

namespace Orthotope

open ByteMemory Ownership

variable {ι κ : Type}

section Places

variable {setup : Setup ι κ} {s : World ι κ Seq Seq}

@[simp] theorem World.own_mem (setup : Setup ι κ) (s : World ι κ Seq Seq) (m : Mem) :
    ({ s with mem := m } : World ι κ Seq Seq).own setup = s.own setup := by
  funext p
  cases p <;> rfl

theorem Setup.arena_base (setup : Setup ι κ) (parts : Parts setup s) (a : ι) :
    (s.allocators a).arena.base = (setup.arena a).base := by
  rw [(parts.allocator a).arena_eq]

theorem Setup.arena_len (setup : Setup ι κ) (a : ι) :
    (setup.arena a).len = (setup.config a).arenaSize :=
  (Arena.new_spec (setup.arena_new a).2).2.2.2.2.2.1

/-- A live allocation is aligned and lies in its arena, header included. -/
theorem Inv.live_placed (inv : Inv setup s) {e : Live ι κ} (he : e ∈ s.live) :
    e.ptr % 64 = 0 ∧ (s.allocators e.alloc).arena.base + headerSize ≤ e.ptr ∧
      e.ptr + e.size ≤ (s.allocators e.alloc).arena.base + (setup.config e.alloc).arenaSize := by
  obtain ⟨p, x, hx⟩ := inv.exists_cell (g := none) he
  have hin := inv.ledger.inArena p x hx.mem
  have hal := hin.aligned
  have hbase := hin.base_le
  have hhi := hin.hi_le
  rw [hx.alloc_eq] at hbase hhi
  have hle := (inv.memory.entry none e he).header_le
  have hlo := hx.lo_eq
  have hend := hx.le_hi
  have hnext := (inv.parts.allocator e.alloc).next_le
  rw [setup.arena_len] at hnext
  rw [setup.arena_base inv.parts]
  unfold blockStartFromUserPtr at hlo
  unfold headerSize at *
  omega

/-- Registered slabs stay registered. -/
theorem Transition.shapes_mono {debug : Bool} {a : ι} {k : κ} {pc : Pc ι κ Seq}
    {v : View ι κ Seq Seq} (h : Transition debug s a k pc v) (c : SizeClass) :
    ∀ shape ∈ ((s.allocators a).central.lists c).shapes,
      shape ∈ (v.allocator.central.lists c).shapes := by
  have hcentral : ∀ {d : SizeClass} {central central' : CentralPool Seq},
      CentralPool.OnlyClass d central central' →
      (∀ shape ∈ (central.lists d).shapes, shape ∈ (central'.lists d).shapes) →
        ∀ shape ∈ (central.lists c).shapes, shape ∈ (central'.lists c).shapes := by
    intro d central central' only hd shape hshape
    by_cases hc : c = d
    · exact hc ▸ hd shape (hc ▸ hshape)
    · rwa [only.lists c hc]
  have hresume : ∀ (v : View ι κ Seq Seq) (r : Resume), (v.resume a r).allocator = v.allocator :=
    fun v r => (v.resume_frame a r).2.2.1
  cases h with
  | refill h => exact hcentral h.only fun shape hs => h.shapes ▸ hs
  | register _ _ h =>
    exact hcentral h.only fun shape hs => h.shapes ▸ List.mem_append.mpr (Or.inl hs)
  | unstageNone _ =>
    rw [hresume]
    exact fun _ h => h
  | publish _ only lists _ =>
    rw [hresume]
    exact hcentral only fun shape hs => by
      show shape ∈ ClassPool.shapes _
      rwa [View.setCentral, lists]
  | returnBatch h =>
    rw [hresume]
    exact hcentral h.only fun shape hs => h.shapes ▸ hs
  | _ => exact fun _ h => h

variable [DecidableEq ι]

/-- A place holds a cell once at most. -/
theorem Ledger.count_eq_one (ledger : Ledger setup s) {p : Place ι κ} {x : Cell ι}
    (hx : x ∈ s.own setup p) : (s.own setup p).count x = 1 := by
  have hlt := (ledger.inArena p x hx).lo_lt
  refine Nat.le_antisymm ?_ (Multiset.one_le_count_iff_mem.mpr hx)
  by_contra hcount
  have hle : Multiset.replicate 2 x ≤ s.own setup p :=
    Multiset.le_count_iff_replicate_le.mp (by omega)
  obtain ⟨l, hl, hpw⟩ := pairwise_mono hle (ledger.apart.holder p)
  obtain rfl : l = List.replicate 2 x := by
    rw [← Multiset.coe_replicate, Multiset.coe_eq_coe] at hl
    exact (List.perm_replicate.mp hl.symm)
  have hapart : Cell.Apart x x := by simpa using hpw
  unfold Cell.Apart at hapart
  omega

variable [DecidableEq κ]

/-- The place of a block of a registered slab: no other place has it, and none has it as a block of
another class. -/
theorem Inv.exists_unique_place (inv : Inv setup s) {a : ι} {c : SizeClass}
    {slab : SlabRecord Seq} (hslab : slab ∈ ((s.allocators a).central.lists c).slabs) {b : Nat}
    (hb : b ∈ slab.blocks) : ∃ p, (s.own setup p).count (setup.smallCell a c b) = 1 ∧
      ∀ q d, setup.smallCell a d b ∈ s.own setup q → q = p ∧ d = c := by
  obtain ⟨p, hp⟩ := (inv.ledger.covered (setup.smallCell a c b) rfl).mpr
    ⟨c, slab.shape, List.mem_map_of_mem hslab, b, hb, rfl⟩
  refine ⟨p, inv.ledger.count_eq_one hp, fun q d hq => ?_⟩
  have h1 := (inv.ledger.inArena _ _ hp).lo_lt
  have h2 := (inv.ledger.inArena _ _ hq).lo_lt
  have hqp : q = p := by
    by_contra hne
    have := inv.ledger.apart.of_ne hne hq hp
    simp only [Cell.Apart, Setup.smallCell] at this h1 h2
    omega
  subst hqp
  refine ⟨rfl, ?_⟩
  by_contra hdc
  -- both cells are in one place, and they start at the same byte
  have hpw := inv.ledger.apart.holder q
  have hne : setup.smallCell a d b ≠ setup.smallCell a c b := fun h =>
    hdc (Option.some.inj (congrArg Cell.cls h))
  obtain ⟨t, ht⟩ := Multiset.exists_cons_of_mem hq
  have hc : setup.smallCell a c b ∈ t := by
    rw [ht] at hp
    exact (Multiset.mem_cons.mp hp).resolve_left hne.symm
  rw [ht, ← Multiset.singleton_add] at hpw
  have := (pairwise_add.mp hpw).2.2 _ (Multiset.mem_singleton_self _) _ hc
  simp only [Cell.Apart, Setup.smallCell] at this h1 h2
  omega

/-- What a step does to the allocators. -/
theorem World.step_cases {L B : Type} [BlockStore L B] {w w' : World ι κ L B} {debug : Bool}
    {action : Action ι κ} (h : w.step debug action = some w') :
    (∃ k advised a pc v, action = .run k advised ∧ w.threads k = .busy a pc ∧
      (w.view a k).next debug advised a k pc = some v ∧ w' = w.update a k v) ∨
    ((∀ k advised, action ≠ .run k advised) ∧ w'.allocators = w.allocators) := by
  by_cases hr : ∃ k advised, action = .run k advised
  · obtain ⟨k, advised, rfl⟩ := hr
    cases ht : w.threads k with
    | idle last => simp [World.step, ht] at h
    | busy a pc =>
      simp only [World.step, ht] at h
      obtain ⟨v, hv, rfl⟩ := Option.map_eq_some_iff.mp h
      exact Or.inl ⟨k, advised, a, pc, v, rfl, ht, hv, rfl⟩
  · have hrun : ∀ k advised, action ≠ .run k advised := fun k advised heq => hr ⟨k, advised, heq⟩
    refine Or.inr ⟨hrun, ?_⟩
    rcases World.step_begins hrun h with ⟨k, a, last, v, -, -, rfl, hallocator, -⟩ | ⟨heq, -, -⟩
    · rw [World.update, hallocator]
      exact Function.update_eq_self ..
    · exact heq

theorem Inv.shapes_mono (inv : Inv setup s) {s' : World ι κ Seq Seq} {action : Action ι κ}
    (h : s.step setup.debug action = some s') (a : ι) (c : SizeClass) :
    ∀ shape ∈ ((s.allocators a).central.lists c).shapes,
      shape ∈ ((s'.allocators a).central.lists c).shapes := by
  rcases World.step_cases h with ⟨k, advised, b, pc, v, -, ht, hv, rfl⟩ | ⟨-, heq⟩
  · have htrans := inv.transition ht hv
    by_cases hb : a = b
    · subst hb
      rw [World.update_allocators_same]
      exact htrans.shapes_mono c
    · rw [World.update_allocators_ne _ _ hb]
      exact fun _ h => h
  · rw [heq]
    exact fun _ h => h

/-! ### Slab records -/

/-- A record without blocks has been handed out to its end and is not listed as available. -/
theorem LocalClassCache.exhausted {cache : LocalClassCache Seq} (inv : cache.Inv)
    {slab : LocalSlab Seq} (hslab : slab ∈ cache.slabs) (hfree : slab.free = [])
    (hfresh : slab.freshBlocks = []) :
    slab.nextFresh = slab.capacity ∧ slab.availableSlot = none := by
  have hlen := slab.length_freshBlocks
  rw [hfresh, List.length_nil] at hlen
  have hle := (inv.slab_ok slab hslab).nextFresh_le
  refine ⟨by omega, ?_⟩
  obtain ⟨id, hid⟩ := List.mem_iff_getElem?.mp hslab
  have hlisted := inv.listed id not_false slab hid
  rw [LocalSlab.hasAvailableBlocks_iff, hfree, hfresh] at hlisted
  cases hslot : slab.availableSlot with
  | none => rfl
  | some slot => simp [hslot] at hlisted

theorem LocalSlab.mem_freshBlocks {slab : LocalSlab Seq} (h : slab.nextFresh < slab.capacity) :
    slab.start + (slab.capacity - 1) * slab.blockSize ∈ slab.freshBlocks := by
  refine List.mem_iff_getElem?.mpr ⟨slab.capacity - 1 - slab.nextFresh, ?_⟩
  have hlt : slab.capacity - 1 < slab.capacity := by omega
  have hidx : slab.nextFresh + (slab.capacity - 1 - slab.nextFresh) = slab.capacity - 1 := by omega
  simp [LocalSlab.freshBlocks, LocalSlab.blocks, slabBlocks, hidx, hlt]

variable {k : κ} {a : ι} {c : SizeClass}

omit [DecidableEq ι] [DecidableEq κ] in
/-- The blocks of a record are blocks of its cache. -/
theorem mem_own_record (setup : Setup ι κ) (howner : (s.caches k).owner = some a)
    {slab : LocalSlab Seq}
    (hslab : slab ∈ ((s.caches k).classes c).slabs) :
    (∀ b ∈ slab.free, setup.smallCell a c b ∈ s.own setup (.slabFree k c)) ∧
      ∀ b ∈ slab.freshBlocks, setup.smallCell a c b ∈ s.own setup (.fresh k c) := by
  simp only [World.own, World.cacheCells, howner]
  exact ⟨fun b hb => setup.smallCell_mem (BagSum.mem_total.mpr
    ⟨slab, hslab, Multiset.mem_coe.mpr hb⟩),
    fun b hb => setup.smallCell_mem (BagSum.mem_total.mpr ⟨slab, hslab, Multiset.mem_coe.mpr hb⟩)⟩

theorem Ledger.not_both (ledger : Ledger setup s) {p q : Place ι κ} (hne : p ≠ q) {b : Nat}
    (hp : setup.smallCell a c b ∈ s.own setup p) (hq : setup.smallCell a c b ∈ s.own setup q) :
    False := by
  have h1 := (ledger.inArena _ _ hp).lo_lt
  have h2 := ledger.apart.of_ne hne hp hq
  simp only [Cell.Apart, Setup.smallCell] at h1 h2
  omega

theorem Inv.fresh_once (inv : Inv setup s) {k' : κ} (hne : k ≠ k')
    (howner : (s.caches k).owner = some a) (howner' : (s.caches k').owner = some a)
    {slab slab' : LocalSlab Seq} (hslab : slab ∈ ((s.caches k).classes c).slabs)
    (hslab' : slab' ∈ ((s.caches k').classes c).slabs) (hstart : slab.start = slab'.start) :
    slab.nextFresh = slab.capacity ∨ slab'.nextFresh = slab'.capacity := by
  have heq := inv.parts.eq_of_start (inv.parts.home k a howner c _ (List.mem_map_of_mem hslab))
    (inv.parts.home k' a howner' c _ (List.mem_map_of_mem hslab')) hstart
  simp only [LocalSlab.shape, Prod.mk.injEq] at heq
  obtain ⟨-, -, hsize, hcap⟩ := heq
  by_contra hlt
  push Not at hlt
  have h1 := (((inv.parts.cache k).class_inv c).slab_ok slab hslab).nextFresh_le
  have h2 := (((inv.parts.cache k').class_inv c).slab_ok slab' hslab').nextFresh_le
  have h3 := (mem_own_record setup howner hslab).2 _
    (LocalSlab.mem_freshBlocks (by omega))
  have h4 := (mem_own_record setup howner' hslab').2 _
    (LocalSlab.mem_freshBlocks (by omega))
  rw [← hstart, ← hsize, ← hcap] at h4
  exact inv.ledger.not_both (by simpa using hne) h3 h4

theorem Inv.full_exhausted (inv : Inv setup s) (howner : (s.caches k).owner = some a)
    {record : SlabRecord Seq} (hrecord : record ∈ ((s.allocators a).central.lists c).slabs)
    (hfull : record.state.isFull = true) {slab : LocalSlab Seq}
    (hslab : slab ∈ ((s.caches k).classes c).slabs) (hstart : slab.start = record.start) :
    slab.free = [] ∧ slab.freshBlocks = [] := by
  have heq := inv.parts.eq_of_start (inv.parts.home k a howner c _ (List.mem_map_of_mem hslab))
    (List.mem_map_of_mem hrecord) hstart
  simp only [LocalSlab.shape, SlabRecord.shape, Prod.mk.injEq] at heq
  have hblocks : slab.blocks = record.fullBlocks := by
    rw [SlabRecord.fullBlocks, if_pos hfull, LocalSlab.blocks, SlabRecord.blocks, heq.1, heq.2.2.1,
      heq.2.2.2]
  have hcentral : ∀ b ∈ slab.blocks, setup.smallCell a c b ∈ s.own setup (.full a c) := by
    intro b hb
    exact setup.smallCell_mem
      (BagSum.mem_total.mpr ⟨record, hrecord, Multiset.mem_coe.mpr (hblocks ▸ hb)⟩)
  have hown := mem_own_record setup howner hslab
  have ok := ((inv.parts.cache k).class_inv c).slab_ok slab hslab
  constructor
  · refine List.eq_nil_iff_forall_not_mem.mpr fun b hb => ?_
    exact inv.ledger.not_both (by simp) (hown.1 b hb) (hcentral b (ok.free_mem b hb))
  · refine List.eq_nil_iff_forall_not_mem.mpr fun b hb => ?_
    exact inv.ledger.not_both (by simp) (hown.2 b hb) (hcentral b (List.mem_of_mem_drop hb))

end Places

section Runs

variable {setup : Setup ι κ} {w w' : World ι κ FreeList Batch}

theorem Refines.own_contents {s : World ι κ Seq Seq} (h : Refines w s) :
    w.contents.own setup = s.own setup := by
  rw [h.contents_eq, World.own_mem]

variable [DecidableEq ι] [DecidableEq κ]

/-- Live allocations are aligned, lie in their arenas with their headers, and share no byte. -/
theorem Setup.Reachable.live_disjoint (h : setup.Reachable w) :
    (∀ e ∈ w.live, e.ptr % 64 = 0 ∧
      (w.allocators e.alloc).arena.base + headerSize ≤ e.ptr ∧
      e.ptr + e.size ≤ (w.allocators e.alloc).arena.base + (setup.config e.alloc).arenaSize) ∧
    w.live.Pairwise fun e e' => e.ptr + e.size ≤ e'.ptr - headerSize ∨
      e'.ptr + e'.size ≤ e.ptr - headerSize := by
  obtain ⟨s, hs, hrefines⟩ := h.refines
  have harena : ∀ a, (w.allocators a).arena = (s.allocators a).arena := fun a => by
    rw [hrefines.code]
    rfl
  simp only [harena, hrefines.live_eq]
  exact ⟨fun e he => hs.inv.live_placed he, hs.inv.live_apart⟩

theorem live_disjoint_sample : sampleWorld.live.length = 2 ∧
    sampleWorld.live.Pairwise fun e e' => e.ptr + e.size ≤ e'.ptr - headerSize ∨
      e'.ptr + e'.size ≤ e.ptr - headerSize :=
  ⟨by decide +kernel, sampleWorld_reachable.live_disjoint.2⟩

theorem ClassPool.shapes_map {L L' : Type} (f : L → L') (pool : ClassPool L) :
    (pool.map f).slabs.map SlabRecord.shape = pool.slabs.map SlabRecord.shape := by
  simp only [ClassPool.map, List.map_map]
  rfl

omit [DecidableEq ι] [DecidableEq κ] in
theorem Refines.shapes_eq {s : World ι κ Seq Seq} (h : Refines w s) (a : ι) (c : SizeClass) :
    ((w.allocators a).central.lists c).slabs.map SlabRecord.shape =
      ((s.allocators a).central.lists c).shapes := by
  rw [h.code]
  exact ClassPool.shapes_map _ _

/-- The slabs of a state are those of every later state. -/
theorem Setup.Reachable.slabs_stay (h : setup.Reachable w) {actions : List (Action ι κ)}
    (hruns : w.runs setup.debug actions = some w') (a : ι) (c : SizeClass) :
    ∀ shape ∈ ((w.allocators a).central.lists c).slabs.map SlabRecord.shape,
      shape ∈ ((w'.allocators a).central.lists c).slabs.map SlabRecord.shape := by
  induction actions generalizing w with
  | nil => exact Option.some.inj hruns ▸ fun _ h => h
  | cons action actions ih =>
    obtain ⟨w₁, hstep, hrest⟩ := Option.bind_eq_some_iff.mp hruns
    obtain ⟨s, hs, hrefines⟩ := h.refines
    obtain ⟨s₁, hstep', hrefines'⟩ := hrefines.forward hs.inv hstep
    intro shape hshape
    apply ih (h.step action hstep) hrest shape
    rw [hrefines.shapes_eq] at hshape
    rw [hrefines'.shapes_eq]
    exact hs.inv.shapes_mono hstep' a c shape hshape

/-- Every block of every registered slab is in exactly one place, once, and of the class of its
slab; the lists that say so are the chains in memory; and a slab keeps its class, its size and its
place for the rest of the run. -/
theorem Setup.Reachable.conservation (h : setup.Reachable w) :
    w = w.contents.code w.mem ∧
    (∀ a c, ∀ slab ∈ ((w.allocators a).central.lists c).slabs,
      ∀ b ∈ slabBlocks slab.start slab.blockSize slab.capacity,
        ∃ p, (w.contents.own setup p).count (setup.smallCell a c b) = 1 ∧
          ∀ q d, setup.smallCell a d b ∈ w.contents.own setup q → q = p ∧ d = c) ∧
    (∀ p a c b, setup.smallCell a c b ∈ w.contents.own setup p →
      ∃ slab ∈ ((w.allocators a).central.lists c).slabs,
        b ∈ slabBlocks slab.start slab.blockSize slab.capacity) ∧
    ∀ actions w', w.runs setup.debug actions = some w' → ∀ a c,
      ∀ shape ∈ ((w.allocators a).central.lists c).slabs.map SlabRecord.shape,
        shape ∈ ((w'.allocators a).central.lists c).slabs.map SlabRecord.shape := by
  obtain ⟨s, hs, hrefines⟩ := h.refines
  have hslab : ∀ {a c} {shape : Nat × Nat × Nat × Nat},
      shape ∈ ((w.allocators a).central.lists c).slabs.map SlabRecord.shape ↔
        shape ∈ ((s.allocators a).central.lists c).shapes := fun {a c shape} => by
    rw [hrefines.shapes_eq]
  rw [hrefines.own_contents]
  refine ⟨?_, fun a c slab hmem b hb => ?_, fun p a c b hp => ?_,
    fun actions w' hruns a c => h.slabs_stay hruns a c⟩
  · rw [hrefines.contents_eq]
    exact hrefines.code
  · obtain ⟨slab', hslab', heq⟩ := List.mem_map.mp (hslab.mp (List.mem_map_of_mem hmem))
    simp only [SlabRecord.shape, Prod.mk.injEq] at heq
    apply hs.inv.exists_unique_place hslab'
    rwa [SlabRecord.blocks, heq.1, heq.2.2.1, heq.2.2.2]
  · obtain ⟨slab, hmem, hb⟩ := hs.inv.ledger.slab_of_mem hp
    obtain ⟨slab', hslab', heq⟩ := List.mem_map.mp (hslab.mpr (List.mem_map_of_mem hmem))
    simp only [SlabRecord.shape, Prod.mk.injEq] at heq
    exact ⟨slab', hslab', by rwa [heq.1, heq.2.2.1, heq.2.2.2]⟩

theorem conservation_sample : sampleWorld = sampleWorld.contents.code sampleWorld.mem ∧
    ∃ p, (sampleWorld.contents.own sampleSetup p).count
    (sampleSetup.smallCell () .b64 4224) = 1 := by
  obtain ⟨h1, h2, -⟩ := sampleWorld_reachable.conservation
  refine ⟨h1, ?_⟩
  have hslab : ∃ slab ∈ ((sampleWorld.allocators ()).central.lists .b64).slabs,
      4224 ∈ slabBlocks slab.start slab.blockSize slab.capacity := by
    decide +kernel
  obtain ⟨slab, hmem, hb⟩ := hslab
  obtain ⟨p, hp, -⟩ := h2 () .b64 slab hmem 4224 hb
  exact ⟨p, hp⟩

/-- The records of a slab in the caches and in the central pool agree, the slab has fresh blocks in
one cache at most, and in none while it is full in the pool.  So a record that is reset because its
slab is loaned again has no block to lose. -/
theorem Setup.Reachable.records_agree (h : setup.Reachable w) (a : ι) (c : SizeClass) (k : κ)
    (howner : (w.caches k).owner = some a) :
    (∀ slab ∈ ((w.caches k).classes c).slabs, ∃ record ∈ ((w.allocators a).central.lists c).slabs,
      record.start = slab.start ∧ record.endAddr = slab.endAddr ∧
        record.blockSize = slab.blockSize ∧ record.capacity = slab.capacity) ∧
    (∀ k', k' ≠ k → (w.caches k').owner = some a → ∀ slab ∈ ((w.caches k).classes c).slabs,
      ∀ slab' ∈ ((w.caches k').classes c).slabs, slab.start = slab'.start →
        ¬(slab.nextFresh < slab.capacity ∧ slab'.nextFresh < slab'.capacity)) ∧
    (∀ record ∈ ((w.allocators a).central.lists c).slabs,
      record.state = .fullHot ∨ record.state = .fullCold →
        ∀ slab ∈ ((w.caches k).classes c).slabs, slab.start = record.start →
          slab.nextFresh = slab.capacity ∧ slab.free = ⟨none, 0⟩ ∧ slab.availableSlot = none) ∧
    ∀ size start blockSize capacity,
      w.threads k = .busy a (.gotSlab c size start blockSize capacity) →
        ∀ slab ∈ ((w.caches k).classes c).slabs, slab.start = start →
          slab.blockSize = blockSize ∧ slab.capacity = capacity ∧
            slab.nextFresh = slab.capacity ∧ slab.free = ⟨none, 0⟩ ∧ slab.availableSlot = none := by
  obtain ⟨s, hs, hrefines⟩ := h.refines
  have inv := hs.inv
  have howner' : ∀ {k a}, (w.caches k).owner = some a → (s.caches k).owner = some a := by
    intro k a howner
    rw [hrefines.code] at howner
    exact howner
  have hlocal : ∀ {k} {slab : LocalSlab FreeList}, slab ∈ ((w.caches k).classes c).slabs →
      ∃ slab' ∈ ((s.caches k).classes c).slabs, slab = slab'.map FreeList.ofSeq := by
    intro k slab hslab
    rw [hrefines.code] at hslab
    obtain ⟨slab', hslab', heq⟩ := List.mem_map.mp hslab
    exact ⟨slab', hslab', heq.symm⟩
  have hempty : ∀ {k a}, (s.caches k).owner = some a → ∀ slab ∈ ((s.caches k).classes c).slabs,
      slab.free = [] → slab.freshBlocks = [] → slab.nextFresh = slab.capacity ∧
        FreeList.ofSeq slab.free = ⟨none, 0⟩ ∧ slab.availableSlot = none := by
    intro k a _ slab hslab hfree hfresh
    obtain ⟨h1, h2⟩ := LocalClassCache.exhausted
      ((inv.parts.cache k).class_inv c) hslab hfree hfresh
    rw [hfree]
    exact ⟨h1, rfl, h2⟩
  refine ⟨fun slab hslab => ?_, fun k' hne hk' slab hslab slab' hslab' hstart => ?_,
    fun record hrecord hfull slab hslab hstart => ?_,
    fun size start blockSize capacity ht slab hslab hstart => ?_⟩
  · obtain ⟨local_, hmem, rfl⟩ := hlocal hslab
    have hshape := inv.parts.home k a (howner' howner) c _ (List.mem_map_of_mem hmem)
    rw [← hrefines.shapes_eq] at hshape
    obtain ⟨record, hrecord, heq⟩ := List.mem_map.mp hshape
    simp only [SlabRecord.shape, LocalSlab.shape, Prod.mk.injEq] at heq
    exact ⟨record, hrecord, heq.1, heq.2.1, heq.2.2.1, heq.2.2.2⟩
  · obtain ⟨local_, hmem, rfl⟩ := hlocal hslab
    obtain ⟨local', hmem', rfl⟩ := hlocal hslab'
    have := inv.fresh_once hne.symm (howner' howner) (howner' hk') hmem hmem' hstart
    simp only [LocalSlab.map]
    omega
  · obtain ⟨local_, hmem, rfl⟩ := hlocal hslab
    rw [hrefines.code] at hrecord
    obtain ⟨record', hrecord', rfl⟩ := List.mem_map.mp hrecord
    have hfull : record'.state.isFull = true := by
      rcases hfull with hf | hf <;> simp [SlabRecord.map] at hf <;> rw [hf] <;> rfl
    obtain ⟨hfree, hfresh⟩ := inv.full_exhausted (howner' howner) hrecord' hfull hmem hstart
    exact hempty (howner' howner) local_ hmem hfree hfresh
  · obtain ⟨local_, hmem, rfl⟩ := hlocal hslab
    obtain ⟨pc, hpc, heq⟩ := hrefines.busy ht
    have hgot : pc = .gotSlab c size start blockSize capacity := by
      cases pc <;> simp_all [Pc.map]
    subst hgot
    obtain ⟨hown, hok⟩ := inv.parts.thread k a _ hpc
    obtain ⟨hshape, hfree, hfresh⟩ := inv.used_up hown hpc rfl hok.2.2.2 local_ hmem hstart
    simp only [LocalSlab.shape, Prod.mk.injEq] at hshape
    exact ⟨hshape.2.2.1, hshape.2.2.2, hempty hown local_ hmem hfree hfresh⟩

theorem records_agree_sample : ((sampleWorld.caches 0).classes .b64).slabs ≠ [] ∧
    ∀ slab ∈ ((sampleWorld.caches 0).classes .b64).slabs,
      ∃ record ∈ ((sampleWorld.allocators ()).central.lists .b64).slabs,
        record.start = slab.start ∧ record.endAddr = slab.endAddr ∧
          record.blockSize = slab.blockSize ∧ record.capacity = slab.capacity :=
  ⟨by decide +kernel, (sampleWorld_reachable.records_agree () .b64 0 (by decide +kernel)).1⟩

end Runs

end Orthotope
