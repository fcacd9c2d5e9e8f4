import Orthotope.Clients
import Orthotope.CentralPoolLinks

/-! The system of the code against the system over plain sequences.  `World.code` is the state of
the code that has a given memory and the structures of a state over sequences, and `Refines` says
when the memory is right for it: the link words lead through the lists, and otherwise it is the
memory of that state.  Every step of the code is then the step over sequences. -/

namespace Orthotope

open ByteMemory LinkedChain

variable {ι κ : Type}

/-! ### Changing the representation -/

section Map

variable {ι κ L L' B B' : Type} (f : L → L') (g : B → B')

def ThreadCache.map (cache : ThreadCache ι L) : ThreadCache ι L' :=
  { cache with
    classes := fun c => (cache.classes c).map f
    remoteReturns := fun c => (cache.remoteReturns c).map f }

def Allocator.map (allocator : Allocator L) : Allocator L' :=
  { allocator with central := allocator.central.map f }

def Pc.map : Pc ι κ B → Pc ι κ B'
  | .refill c size => .refill c size
  | .gotBatch c size batch => .gotBatch c size (g batch)
  | .gotSlab c size start blockSize capacity => .gotSlab c size start blockSize capacity
  | .carve c size => .carve c size
  | .carved c size span => .carved c size span
  | .registered c size start blockSize capacity => .registered c size start blockSize capacity
  | .pop c size => .pop c size
  | .popped c size block reuse => .popped c size block reuse
  | .large size blockSize => .large size blockSize
  | .largeCarve size blockSize => .largeCarve size blockSize
  | .largeGot size blockStart blockSize => .largeGot size blockStart blockSize
  | .largeWritten size blockStart blockSize => .largeWritten size blockStart blockSize
  | .report size => .report size
  | .route c block owner => .route c block owner
  | .releasing entry requestedSize usableSize => .releasing entry requestedSize usableSize
  | .flush classes => .flush classes
  | .drain classes => .drain classes
  | .unstage c resume => .unstage c resume
  | .publishing c batch resume => .publishing c (g batch) resume
  | .excess c max resume => .excess c max resume
  | .returning c batch resume => .returning c (g batch) resume

def Thread.map : Thread ι κ B → Thread ι κ B'
  | .idle last => .idle last
  | .busy a pc => .busy a (pc.map g)

theorem ThreadCache.map_setClass (cache : ThreadCache ι L) (c : SizeClass)
    (class_ : LocalClassCache L) :
    (cache.map f).setClass c (class_.map f) = (cache.setClass c class_).map f :=
  congrArg (fun classes => { cache.map f with classes }) (funext fun d =>
    (Function.apply_update (fun _ => LocalClassCache.map f) cache.classes c class_ d).symm)

theorem ThreadCache.map_setRemoteReturns (cache : ThreadCache ι L) (c : SizeClass)
    (returns : RemoteReturns L) :
    (cache.map f).setRemoteReturns c (returns.map f) = (cache.setRemoteReturns c returns).map f :=
  congrArg (fun remoteReturns => { cache.map f with remoteReturns }) (funext fun d =>
    (Function.apply_update (fun _ => RemoteReturns.map f) cache.remoteReturns c returns d).symm)

theorem ThreadCache.isEmpty_map (cache : ThreadCache ι L) :
    (cache.map f).isEmpty = cache.isEmpty := rfl

end Map

/-- The view of the code with memory `m` and the structures of `v`. -/
def View.code (m : Mem) (v : View ι κ Seq Seq) : View ι κ FreeList Batch where
  mem := m
  allocator := v.allocator.map FreeList.ofSeq
  cache := v.cache.map FreeList.ofSeq
  live := v.live
  thread := v.thread.map Batch.ofSeq

/-- The state of the code with memory `m` and the structures of `s`. -/
def World.code (m : Mem) (s : World ι κ Seq Seq) : World ι κ FreeList Batch where
  mem := m
  allocators := fun a => (s.allocators a).map FreeList.ofSeq
  caches := fun k => (s.caches k).map FreeList.ofSeq
  threads := fun k => (s.threads k).map Batch.ofSeq
  live := s.live

theorem World.update_code [DecidableEq ι] [DecidableEq κ] (m m' : Mem) (s : World ι κ Seq Seq)
    (a : ι) (k : κ)
    (v : View ι κ Seq Seq) : (s.code m).update a k (v.code m') = (s.update a k v).code m' := by
  have h1 : ∀ b, Function.update (fun a => (s.allocators a).map FreeList.ofSeq) a
      (v.allocator.map FreeList.ofSeq) b =
      (Function.update s.allocators a v.allocator b).map FreeList.ofSeq := fun b =>
    (Function.apply_update (fun _ => Allocator.map FreeList.ofSeq)
      s.allocators a v.allocator b).symm
  have h2 : ∀ j, Function.update (fun k => (s.caches k).map FreeList.ofSeq) k
      (v.cache.map FreeList.ofSeq) j =
      (Function.update s.caches k v.cache j).map FreeList.ofSeq := fun j =>
    (Function.apply_update (fun _ => ThreadCache.map FreeList.ofSeq) s.caches k v.cache j).symm
  have h3 : ∀ j, Function.update (fun k => (s.threads k).map Batch.ofSeq) k
      (v.thread.map Batch.ofSeq) j =
      (Function.update s.threads k v.thread j).map Batch.ofSeq := fun j =>
    (Function.apply_update (fun _ => Thread.map Batch.ofSeq) s.threads k v.thread j).symm
  simp only [World.update, World.code, View.code, funext h1, funext h2, funext h3]

/-! ### Where the lists are -/

/-- The lists of a class of a cache, its staged blocks, the lists that an allocator keeps for a
class, and the batch in the hands of a call. -/
inductive Group (ι κ : Type) where
  | cache (k : κ) (c : SizeClass)
  | staged (k : κ) (c : SizeClass)
  | central (a : ι) (c : SizeClass)
  | hand (k : κ)
  deriving DecidableEq

/-- The batch that a call has in its hands. -/
def Pc.batch : Pc ι κ Seq → List Nat
  | .gotBatch _ _ batch | .publishing _ batch _ | .returning _ batch _ => batch
  | _ => []

def Thread.batch : Thread ι κ Seq → List Nat
  | .idle _ => []
  | .busy _ pc => pc.batch

def World.group (s : World ι κ Seq Seq) : Group ι κ → List (List Nat)
  | .cache k c => ((s.caches k).classes c).lists
  | .staged k c => [((s.caches k).remoteReturns c).pending]
  | .central a c => (s.allocators a).central.classLists c
  | .hand k => [(s.threads k).batch]

/-- The group that holds what lists there are of a place. -/
def Place.group : Place ι κ → Option (Group ι κ)
  | .client | .largeLive _ | .largeFree _ => none
  | .hot k c | .slabFree k c | .fresh k c | .shared k c => some (.cache k c)
  | .staged k c => some (.staged k c)
  | .partialFree a c | .full a c | .inbox a c => some (.central a c)
  | .hand k => some (.hand k)

/-- Group `g` has the block at `b`, in a list or otherwise. -/
def World.Has (setup : Setup ι κ) (s : World ι κ Seq Seq) (g : Group ι κ) (b : Nat) : Prop :=
  ∃ p a c, p.group = some g ∧ setup.smallCell a c b ∈ s.own setup p

section Groups

variable {setup : Setup ι κ} {s : World ι κ Seq Seq} {a : ι} {k : κ} {c : SizeClass}

theorem Ledger.linkable (ledger : Ledger setup s) (parts : Parts setup s)
    {p : Place ι κ} {x : Cell ι}
    (hx : x ∈ s.own setup p) : Linkable x.lo := by
  have hin := ledger.inArena p x hx
  have facts := setup.arenaFacts x.alloc
  have h1 := hin.base_le
  have h2 := hin.hi_le
  have h3 := hin.lo_lt
  have h4 := (parts.allocator x.alloc).next_le
  have h5 := setup.arena_end_le x.alloc
  have h6 := facts.base_pos
  have h7 : usizeLimit = 2 ^ 64 := rfl
  exact ⟨hin.aligned, by omega, by omega⟩

theorem Inv.has_linkable (inv : Inv setup s) {g : Group ι κ} {b : Nat} (h : s.Has setup g b) :
    Linkable b := by
  obtain ⟨p, a, c, _, hx⟩ := h
  exact inv.ledger.linkable inv.parts hx

/-- The blocks of a bag of a bound cache. -/
theorem Parts.mem_cacheCells (parts : Parts setup s) {bag : Multiset Nat} {b : Nat} (hb : b ∈ bag)
    (hle : bag ≤ ((s.caches k).classes c).bag + ((s.caches k).remoteReturns c).pending) :
    ∃ a, setup.smallCell a c b ∈ s.cacheCells setup k c bag := by
  cases howner : (s.caches k).owner with
  | none =>
    obtain ⟨hbag, hpending⟩ := (parts.cache k).unbound howner c
    rw [hbag, hpending] at hle
    exact absurd (Multiset.mem_of_le hle hb) (Multiset.notMem_zero b)
  | some a =>
    refine ⟨a, ?_⟩
    simp only [World.cacheCells, howner]
    exact setup.smallCell_mem hb

/-- The place of a block in a list.  Its header is relied on there. -/
theorem Inv.list_place (inv : Inv setup s) {g : Group ι κ} {l : List Nat} (hl : l ∈ s.group g)
    {b : Nat} (hb : b ∈ l) : ∃ p a c t, p.group = some g ∧
      setup.smallCell a c b ∈ s.own setup p ∧ s.trust setup p = some t ∧ t ≠ .raw := by
  cases g with
  | cache k c =>
    have hmem : b ∈ ((s.caches k).classes c).sharedBag + ((s.caches k).classes c).freeBag := by
      rw [← LocalClassCache.coe_flatten_lists]
      exact Multiset.mem_coe.mpr (List.mem_flatten.mpr ⟨l, hl, hb⟩)
    rcases Multiset.mem_add.mp hmem with hmem | hmem
    · obtain ⟨a, ha⟩ := inv.parts.mem_cacheCells hmem
        ((LocalClassCache.sharedBag_le_bag _).trans (Multiset.le_add_right _ _))
      exact ⟨.shared k c, a, c, .shared, rfl, ha, rfl, nofun⟩
    · obtain ⟨a, ha⟩ := inv.parts.mem_cacheCells hmem
        ((LocalClassCache.freeBag_le_bag _).trans (Multiset.le_add_right _ _))
      exact ⟨.slabFree k c, a, c, .owned (setup.cacheId k), rfl, ha, rfl, nofun⟩
  | staged k c =>
    obtain rfl := List.mem_singleton.mp hl
    obtain ⟨a, ha⟩ := inv.parts.mem_cacheCells (Multiset.mem_coe.mpr hb)
      (Multiset.le_add_left _ _)
    exact ⟨.staged k c, a, c, .shared, rfl, ha, rfl, nofun⟩
  | central a c =>
    have hmem := List.mem_flatten.mpr ⟨l, hl, hb⟩
    rcases CentralPool.mem_flatten_classLists.mp hmem with hmem | hmem
    · exact ⟨.inbox a c, a, c, .shared, rfl, setup.smallCell_mem (Multiset.mem_coe.mpr hmem), rfl,
        nofun⟩
    · refine ⟨.partialFree a c, a, c, .shared, rfl, setup.smallCell_mem ?_, rfl, nofun⟩
      rw [← ClassPool.coe_flatten_freeLists]
      exact Multiset.mem_coe.mpr hmem
  | hand k =>
    obtain rfl := List.mem_singleton.mp hl
    cases ht : s.threads k with
    | idle last => simp [ht, Thread.batch] at hb
    | busy a pc =>
      have hpc : ∃ c, pc.blocks = some (c, pc.batch) ∧ pc.trust setup k = .shared := by
        cases pc <;> simp [ht, Thread.batch, Pc.batch] at hb <;> exact ⟨_, rfl, rfl⟩
      obtain ⟨c, hblocks, htrust⟩ := hpc
      refine ⟨.hand k, a, c, .shared, rfl, mem_own_hand ht hblocks ?_, ?_, nofun⟩
      · simpa [ht, Thread.batch] using hb
      · simp [World.trust, ht, Thread.trust, htrust]

theorem Inv.list_has (inv : Inv setup s) {g : Group ι κ} {l : List Nat} (hl : l ∈ s.group g)
    {b : Nat} (hb : b ∈ l) : s.Has setup g b := by
  obtain ⟨p, a, c, _, hp, hx, _, _⟩ := inv.list_place hl hb
  exact ⟨p, a, c, hp, hx⟩

/-- The headers of the blocks in lists cannot be discarded. -/
theorem Inv.list_resident (inv : Inv setup s) {g : Group ι κ} {l : List Nat} (hl : l ∈ s.group g)
    {b : Nat} (hb : b ∈ l) : ∀ x, inHeader b x → s.mem.lazyAt x = false := by
  obtain ⟨p, a, c, t, _, hx, ht, hraw⟩ := inv.list_place hl hb
  have hok := inv.memory.free p t ht _ hx c rfl
  cases t with
  | raw => exact absurd rfl hraw
  | shared => exact hok.1.resident
  | owned id => exact hok.1.resident

variable [DecidableEq ι] [DecidableEq κ]

/-- Cells of different places do not start together. -/
theorem Ledger.lo_ne (ledger : Ledger setup s) {p p' : Place ι κ} (hne : p ≠ p') {x x' : Cell ι}
    (hx : x ∈ s.own setup p) (hx' : x' ∈ s.own setup p') : x.lo ≠ x'.lo := by
  intro heq
  have h1 := (ledger.inArena _ _ hx).lo_lt
  have h2 := (ledger.inArena _ _ hx').lo_lt
  have h3 := ledger.apart.of_ne hne hx hx'
  unfold Cell.Apart at h3
  omega

/-- Different groups have different blocks. -/
theorem Ledger.has_ne (ledger : Ledger setup s) {g g' : Group ι κ} (hne : g ≠ g') {b b' : Nat}
    (h : s.Has setup g b) (h' : s.Has setup g' b') : b ≠ b' := by
  obtain ⟨p, a, c, hp, hx⟩ := h
  obtain ⟨p', a', c', hp', hx'⟩ := h'
  refine ledger.lo_ne ?_ hx hx'
  rintro rfl
  exact hne (Option.some.inj (hp.symm.trans hp'))

/-- No group has a block that is live. -/
theorem Ledger.has_ne_live (ledger : Ledger setup s) {e : Live ι κ} (he : e ∈ s.live)
    (hc : SizeClass.fromRequest e.size = some c) {g : Group ι κ} {b : Nat} (h : s.Has setup g b) :
    b ≠ blockStartFromUserPtr e.ptr := by
  obtain ⟨p, a', c', hp, hx⟩ := h
  refine ledger.lo_ne ?_ hx (Live.mem_client he hc)
  rintro rfl
  cases hp

/-- A block of a registered slab. -/
def World.SlabBlock (s : World ι κ Seq Seq) (b : Nat) : Prop :=
  ∃ a c, ∃ slab ∈ ((s.allocators a).central.lists c).slabs, b ∈ slab.blocks

omit [DecidableEq ι] [DecidableEq κ] in
theorem Ledger.has_slabBlock (ledger : Ledger setup s) {g : Group ι κ} {b : Nat}
    (h : s.Has setup g b) : s.SlabBlock b := by
  obtain ⟨p, a, c, _, hx⟩ := h
  exact ⟨a, c, ledger.slab_of_mem hx⟩

/-- Every list is a chain of link words. -/
def World.LinkedIn (s : World ι κ Seq Seq) (m : Mem) : Prop := ∀ g, ∀ l ∈ s.group g, Linked m l

variable {m : Mem}

omit [DecidableEq ι] [DecidableEq κ] in
theorem Inv.woven (inv : Inv setup s) (h : s.LinkedIn m) {g : Group ι κ}
    (hnodup : (s.group g).flatten.Nodup) : Woven m (s.group g) where
  linked := h g
  nodup := hnodup
  linkable := fun b hb => by
    obtain ⟨l, hl, hbl⟩ := List.mem_flatten.mp hb
    exact inv.has_linkable (inv.list_has hl hbl)

/-- The blocks of a class of a cache that is bound, each once. -/
theorem Ledger.bag_nodup (ledger : Ledger setup s) (howner : (s.caches k).owner = some a)
    (c : SizeClass) : ((s.caches k).classes c).bag.Nodup := by
  refine Multiset.nodup_of_le ?_ (ledger.stored_nodup (c := c) howner)
  exact ((Multiset.le_add_right _ _).trans (Multiset.le_add_right _ _)).trans
    (Multiset.le_add_right _ _)

theorem Inv.woven_cache (inv : Inv setup s) (h : s.LinkedIn m)
    (howner : (s.caches k).owner = some a) (c : SizeClass) :
    Woven m ((s.caches k).classes c).lists := by
  refine inv.woven h (g := .cache k c) (Multiset.coe_nodup.mp ?_)
  refine Multiset.nodup_of_le ?_ (inv.ledger.bag_nodup howner c)
  show ((((s.caches k).classes c).lists.flatten : List Nat) : Multiset Nat) ≤ _
  rw [LocalClassCache.coe_flatten_lists, LocalClassCache.bag, LocalClassCache.ownedBag, add_comm]
  refine add_le_add_left ?_ _
  rw [add_assoc]
  exact (Multiset.le_add_right _ _).trans (Multiset.le_add_left _ _)

theorem Inv.staged_nodup (inv : Inv setup s) (howner : (s.caches k).owner = some a)
    (c : SizeClass) : ((s.caches k).remoteReturns c).pending.Nodup := by
  refine Multiset.coe_nodup.mp (Multiset.nodup_of_le ?_ (inv.ledger.stored_nodup (c := c) howner))
  exact ((Multiset.le_add_left _ _).trans (Multiset.le_add_right _ _)).trans
    (Multiset.le_add_right _ _)

theorem Inv.woven_central (inv : Inv setup s) (h : s.LinkedIn m)
    (howner : (s.caches k).owner = some a) (c : SizeClass) :
    Woven m ((s.allocators a).central.classLists c) := by
  refine inv.woven h (g := .central a c) (Multiset.coe_nodup.mp ?_)
  refine Multiset.nodup_of_le ?_ (inv.ledger.stored_nodup (c := c) howner)
  show (((((s.allocators a).central.remoteInboxes c).pending ++
    ((s.allocators a).central.lists c).freeLists.flatten : List Nat)) : Multiset Nat) ≤ _
  rw [← Multiset.coe_add, ClassPool.coe_flatten_freeLists, View.stored, ClassPool.bag, add_comm]
  refine add_le_add_left ?_ _
  exact (Multiset.le_add_right _ _).trans (Multiset.le_add_left _ _)

theorem Inv.hand_nodup (inv : Inv setup s) (howner : (s.caches k).owner = some a)
    {pc : Pc ι κ Seq} (ht : s.threads k = .busy a pc) {batch : List Nat}
    (hpc : pc.blocks = some (c, batch)) : batch.Nodup :=
  Multiset.coe_nodup.mp (Multiset.nodup_of_le (Multiset.le_add_left _ _)
    (inv.ledger.blocks_nodup howner ht hpc))

omit [DecidableEq ι] [DecidableEq κ] in
theorem has_hand {pc : Pc ι κ Seq} (ht : s.threads k = .busy a pc) {batch : List Nat}
    (hpc : pc.blocks = some (c, batch)) {b : Nat} (hb : b ∈ batch) : s.Has setup (.hand k) b :=
  ⟨.hand k, a, c, rfl, mem_own_hand ht hpc hb⟩

omit [DecidableEq ι] [DecidableEq κ] in
theorem has_cache (howner : (s.caches k).owner = some a) {b : Nat}
    (hb : b ∈ ((s.caches k).classes c).bag) : s.Has setup (.cache k c) b := by
  have hcell : ∀ {p : Place ι κ} {bag : Multiset Nat}, b ∈ bag → p.group = some (.cache k c) →
      s.own setup p = s.cacheCells setup k c bag → s.Has setup (.cache k c) b := by
    intro p bag hb hp hown
    refine ⟨p, a, c, hp, ?_⟩
    rw [hown]
    simp only [World.cacheCells, howner]
    exact setup.smallCell_mem hb
  rcases Multiset.mem_add.mp hb with hb | hb
  · rcases Multiset.mem_add.mp hb with hb | hb
    · rcases Multiset.mem_add.mp hb with hb | hb
      · exact hcell (p := .hot k c) hb rfl rfl
      · exact hcell (p := .slabFree k c) hb rfl rfl
    · exact hcell (p := .fresh k c) hb rfl rfl
  · exact hcell (p := .shared k c) hb rfl rfl

end Groups

/-! ### The refinement -/

/-- `w` is a state of the code, and `s` the state over sequences that it stands for. -/
structure Refines (w : World ι κ FreeList Batch) (s : World ι κ Seq Seq) : Prop where
  code : w = s.code w.mem
  agree : Agree s.SlabBlock w.mem s.mem
  linked : s.LinkedIn w.mem

/-- The link words of live blocks are the same in both memories. -/
def World.KeepsLive (s : World ι κ Seq Seq) (m m' : Mem) : Prop :=
  ∀ e ∈ s.live, ∀ c, SizeClass.fromRequest e.size = some c →
    readSmallFreeListNext m' (blockStartFromUserPtr e.ptr) =
      readSmallFreeListNext m (blockStartFromUserPtr e.ptr)

section Step

variable {setup : Setup ι κ} {w : World ι κ FreeList Batch} {s : World ι κ Seq Seq} {a : ι} {k : κ}
  {c : SizeClass} {v : View ι κ Seq Seq} {m : Mem}

theorem World.KeepsLive.refl (s : World ι κ Seq Seq) (m : Mem) : s.KeepsLive m m :=
  fun _ _ _ _ => rfl

theorem Refines.agree_all (h : Refines w s) : Agree (fun _ => True) w.mem s.mem :=
  h.agree.mono fun _ _ => trivial

variable [DecidableEq ι] [DecidableEq κ]

/-- The groups that a step of `a` on `k` leaves as they were. -/
theorem Refines.linked_other (inv : Inv setup s) (h : Refines w s) {T : Nat → Prop}
    (hnext : ∀ b, Linkable b → ¬T b →
      readSmallFreeListNext m b = readSmallFreeListNext w.mem b) {g₀ : Group ι κ}
    (hT : ∀ b, T b → s.Has setup g₀ b ∨ s.Has setup (.hand k) b) {g : Group ι κ} (hg₀ : g ≠ g₀)
    (hg : g ≠ .hand k) : ∀ l ∈ s.group g, Linked m l := by
  intro l hl
  refine (h.linked g l hl).congr fun b hb => ?_
  have hhas := inv.list_has hl hb
  refine hnext b (inv.has_linkable hhas) fun ht => ?_
  rcases hT b ht with ht | ht
  · exact inv.ledger.has_ne hg₀ hhas ht rfl
  · exact inv.ledger.has_ne hg hhas ht rfl

/-- A step that changes the lists of one group, and what the call has in its hands. -/
theorem Refines.step (inv : Inv setup s) (h : Refines w s) (g₀ : Group ι κ) {T : Nat → Prop}
    (hf : Follows T w.mem s.mem m v.mem)
    (hT : ∀ b, T b → s.Has setup g₀ b ∨ s.Has setup (.hand k) b)
    (hslabs : ∀ b, s.SlabBlock b → (s.update a k v).SlabBlock b)
    (hother : ∀ g, g ≠ g₀ → g ≠ .hand k → (s.update a k v).group g = s.group g)
    (hgroup : ∀ l ∈ (s.update a k v).group g₀, Linked m l) (hhand : Linked m v.thread.batch) :
    Refines ((s.update a k v).code m) (s.update a k v) ∧ s.KeepsLive w.mem m := by
  refine ⟨⟨rfl, ?_, fun g l hl => ?_⟩, fun e he c hc => ?_⟩
  · refine (hf.agree _ (fun b hb => ?_) h.agree).mono hslabs
    exact (hT b hb).elim inv.ledger.has_slabBlock inv.ledger.has_slabBlock
  · by_cases hg : g = .hand k
    · subst hg
      obtain rfl : l = v.thread.batch := by
        simpa [World.group] using hl
      exact hhand
    · by_cases hg₀ : g = g₀
      · exact hgroup l (hg₀ ▸ hl)
      · rw [hother g hg₀ hg] at hl
        exact h.linked_other inv hf.next hT hg₀ hg l hl
  · have hcell : setup.smallCell e.alloc c (blockStartFromUserPtr e.ptr) ∈ s.own setup .client :=
      Live.mem_client he hc
    refine hf.next _ (inv.ledger.linkable inv.parts hcell) fun ht => ?_
    exact (hT _ ht).elim (fun hhas => inv.ledger.has_ne_live he hc hhas rfl)
      fun hhas => inv.ledger.has_ne_live he hc hhas rfl

end Step

end Orthotope
