import Orthotope.Frees

/-! Several allocators.  A call either refuses to bind its cache, and changes nothing, or completes.
Everything that a cache has lies in the arena of the allocator it is bound to, and everything that
an allocator has lies in its own.  A free at the wrong allocator is refused, and the allocation
stays what it was. -/

namespace Orthotope

open ByteMemory Ownership

variable {ι κ : Type}

/-! ### Calls -/

/-- The actions that start a call of allocator `a` on cache `k`, when `live` allocations are
live. -/
inductive CallsOf (k : κ) (a : ι) (live : Nat) : Action ι κ → Prop
  | allocate (size : Nat) : CallsOf k a live (.allocate k a size)
  | deallocate {i : Nat} (expectedSize : Option Nat) (h : i < live) :
      CallsOf k a live (.deallocate k a i expectedSize)
  | drain : CallsOf k a live (.drain k a)

/-- The call has not panicked, and is in progress or has an outcome. -/
def Thread.Completes {B : Type} : Thread ι κ B → Prop
  | .idle last => ∃ outcome, last = some outcome ∧ outcome ≠ .panicked
  | .busy _ _ => True

theorem completes_kept (setup : Setup ι κ) (k : κ) : KeptByCall setup k Thread.Completes := by
  intro s a pc v inv ht _ htrans
  have hresume : ∀ (v : View ι κ Seq Seq) (resume : Resume),
      (v.resume a resume).thread.Completes := by
    intro v resume
    cases resume with
    | done => exact ⟨_, rfl, by simp⟩
    | _ => trivial
  cases htrans with
  | push _ _ _ _ _ hthread =>
    rcases hthread with rfl | ⟨-, rfl⟩
    · exact ⟨_, rfl, by simp⟩
    · trivial
  | stage _ hthread =>
    rcases hthread with rfl | rfl
    · exact ⟨_, rfl, by simp⟩
    · trivial
  | unstageNone _ => exact hresume _ _
  | publish => exact hresume _ _
  | returnBatch => exact hresume _ _
  | _ => first | trivial | exact ⟨_, rfl, by simp⟩

section Starts

variable {L B : Type} [BlockStore L B] {a : ι} {k : κ}

omit [BlockStore L B] in
theorem View.startAllocate_completes (v : View ι κ L B) (size : Nat) :
    (v.startAllocate a size).thread.Completes := by
  rcases v.startAllocate_cases a size with h | ⟨pc, h, -⟩
  · rw [h]
    exact ⟨_, rfl, by simp⟩
  · rw [h]
    trivial

omit [BlockStore L B] in
theorem View.startFree_completes (debug : Bool) (v : View ι κ L B) (entry : Live ι κ)
    (rest : List (Live ι κ)) (expectedSize : Option Nat) :
    (v.startFree debug a entry rest expectedSize).thread.Completes := by
  unfold View.startFree
  split
  · exact ⟨_, rfl, by simp⟩
  · trivial
  · trivial

variable [DecidableEq ι] [DecidableEq κ]

/-- What a call starts with, after its cache has been bound. -/
theorem World.step_call {debug : Bool} {w : World ι κ L B} {action : Action ι κ}
    (haction : CallsOf k a w.live.length action) :
    ∃ start : View ι κ L B → View ι κ L B, w.step debug action = w.call k a start ∧
      ∀ cache, (start ((w.view a k).setCache cache)).thread.Completes := by
  cases haction with
  | allocate size =>
    exact ⟨fun v => v.startAllocate a size, rfl, fun cache => View.startAllocate_completes _ size⟩
  | @deallocate i expectedSize hi =>
    have hentry : w.live[i]? = some w.live[i] := List.getElem?_eq_getElem hi
    refine ⟨fun v => v.startFree debug a w.live[i] (v.live.eraseIdx i) expectedSize, ?_,
      fun cache => View.startFree_completes debug _ _ _ expectedSize⟩
    simp only [World.step, hentry, Option.bind_some]
  | drain => exact ⟨fun v => v.goto a (.flush SizeClass.all), rfl, fun cache => trivial⟩

end Starts

section Code

variable [DecidableEq ι] {setup : Setup ι κ} {w : World ι κ FreeList Batch} {s : World ι κ Seq Seq}
  {a : ι} {k : κ}

/-- A cache of the code that can be bound stands for one that can. -/
theorem Refines.binds {s : World ι κ Seq Seq} (h : Refines w s)
    (hbind : (w.caches k).bindToAllocator a (w.allocators a).config ≠ none) :
    ∃ cache, (s.caches k).bindToAllocator a (s.allocators a).config = some cache := by
  refine Option.ne_none_iff_exists'.mp fun hnone => hbind ?_
  rw [h.code]
  show ((s.caches k).map FreeList.ofSeq).bindToAllocator a (s.allocators a).config = none
  rw [ThreadCache.bindToAllocator_map, hnone]
  rfl

variable [DecidableEq κ]

/-- A call that binds its cache completes, whatever comes in between. -/
theorem Setup.Reachable.completes (h : setup.Reachable w) {action : Action ι κ}
    (haction : CallsOf k a w.live.length action) {last : Option Outcome}
    (ht : w.threads k = .idle last)
    (hbind : (w.caches k).bindToAllocator a (w.allocators a).config ≠ none) :
    ∃ w₁, w.step setup.debug action = some w₁ ∧
      ∀ actions w', (∀ action ∈ actions, action.caller ≠ some k) →
        w₁.runs setup.debug actions = some w' →
          w'.Ends setup.debug k fun w'' =>
            ∃ outcome, w''.threads k = .idle (some outcome) ∧ outcome ≠ .panicked := by
  obtain ⟨s, hs, hrefines⟩ := h.refines
  have haction' : CallsOf k a s.live.length action := hrefines.live_eq ▸ haction
  have hcaller : action.caller = some k := by cases haction <;> rfl
  obtain ⟨start, hstep, hstart⟩ : ∃ start, s.step setup.debug action = s.call k a start ∧
    ∀ cache, (start ((s.view a k).setCache cache)).thread.Completes := World.step_call haction'
  obtain ⟨cache, hcache⟩ := hrefines.binds hbind
  rw [World.call_eq (hrefines.idle_last ht) hcache] at hstep
  obtain ⟨w₁, hw₁, hrefines₁⟩ := hrefines.start_call hs.inv hcaller hstep
  refine ⟨w₁, hw₁, fun actions w' hothers hruns => ?_⟩
  have hcompletes : ((s.update a k (start ((s.view a k).setCache cache))).threads k).Completes := by
    rw [World.update_threads_same]
    exact hstart cache
  have hends := hrefines₁.among (completes_kept setup k)
    (hs.inv.step hstep) hcompletes hothers hruns
  refine hends.idle.mono fun w'' hend => ?_
  obtain ⟨outcome, hidle, s'', hrefines'', _, hdone⟩ := hend
  rw [hrefines''.idle_last hidle] at hdone
  obtain ⟨result, rfl, hresult⟩ := hdone
  exact ⟨result, hidle, hresult⟩

/-- A call that cannot bind its cache panics, and nothing else changes. -/
theorem World.refused_call {w : World ι κ FreeList Batch} {action : Action ι κ} {debug : Bool}
    (haction : CallsOf k a w.live.length action) {last : Option Outcome}
    (ht : w.threads k = .idle last)
    (hbind : (w.caches k).bindToAllocator a (w.allocators a).config = none) :
    w.step debug action =
      some { w with threads := Function.update w.threads k (.idle (some .panicked)) } := by
  obtain ⟨start, hstep, -⟩ : ∃ start, w.step debug action = w.call k a start ∧
    ∀ cache, (start ((w.view a k).setCache cache)).thread.Completes := World.step_call haction
  rw [hstep]
  simp only [World.call, ht, hbind, World.update_finish]

end Code

/-! ### Places -/

/-- The bytes `[lo, lo + size)` lie in the arena. -/
def Arena.Holds (arena : Arena) (lo size : Nat) : Prop :=
  arena.base ≤ lo ∧ lo + size ≤ arena.base + arena.len

section Places

variable {setup : Setup ι κ} {s : World ι κ Seq Seq} {a : ι} {k : κ} {c : SizeClass}

theorem Inv.holds (inv : Inv setup s) {p : Place ι κ} {x : Cell ι} (hx : x ∈ s.own setup p) :
    (s.allocators x.alloc).arena.Holds x.lo (x.hi - x.lo) := by
  have hin := inv.ledger.inArena p x hx
  have h1 := hin.base_le
  have h2 := hin.hi_le
  have h3 := hin.lo_lt
  have h4 := (inv.parts.allocator x.alloc).next_le
  rw [(inv.parts.allocator x.alloc).arena_eq]
  constructor
  · exact h1
  · show x.lo + (x.hi - x.lo) ≤ (setup.arena x.alloc).base + (setup.arena x.alloc).len
    omega

theorem Inv.holds_small (inv : Inv setup s) {p : Place ι κ} {blocks : Multiset Nat}
    (hblocks : setup.smallCells a c blocks ≤ s.own setup p) :
    ∀ b ∈ blocks, (s.allocators a).arena.Holds b ((setup.config a).classBlockSize c) := by
  intro b hb
  have hcell := inv.holds (Multiset.mem_of_le hblocks (setup.smallCell_mem hb))
  simpa [Setup.smallCell] using hcell

/-- The blocks of a cache are in the arena of the allocator that it is bound to. -/
theorem Inv.holds_cache (inv : Inv setup s) (howner : (s.caches k).owner = some a) :
    ∀ b ∈ ((s.caches k).classes c).bag + ((s.caches k).remoteReturns c).pending,
      (s.allocators a).arena.Holds b ((setup.config a).classBlockSize c) := by
  have hcells : ∀ blocks : Multiset Nat, s.cacheCells setup k c blocks =
      setup.smallCells a c blocks := fun blocks => by simp only [World.cacheCells, howner]
  intro b hb
  simp only [LocalClassCache.bag, LocalClassCache.ownedBag, Multiset.mem_add] at hb
  rcases hb with (((hb | hb) | hb) | hb) | hb
  · exact inv.holds_small (p := .hot k c) (by simp only [World.own, hcells]; exact le_refl _) b hb
  · exact inv.holds_small (p := .slabFree k c)
      (by simp only [World.own, hcells]; exact le_refl _) b hb
  · exact inv.holds_small (p := .fresh k c) (by simp only [World.own, hcells]; exact le_refl _) b hb
  · exact inv.holds_small (p := .shared k c)
      (by simp only [World.own, hcells]; exact le_refl _) b hb
  · exact inv.holds_small (p := .staged k c)
      (by simp only [World.own, hcells]; exact le_refl _) b hb

theorem Inv.holds_pool (inv : Inv setup s) :
    ∀ b ∈ ((s.allocators a).central.lists c).bag + (s.allocators a).central.inboxBag c,
      (s.allocators a).arena.Holds b ((setup.config a).classBlockSize c) := by
  intro b hb
  simp only [ClassPool.bag, Multiset.mem_add] at hb
  rcases hb with (hb | hb) | hb
  · exact inv.holds_small (p := .partialFree a c) (le_refl _) b hb
  · exact inv.holds_small (p := .full a c) (le_refl _) b hb
  · exact inv.holds_small (p := .inbox a c) (le_refl _) b hb

theorem Inv.holds_large (inv : Inv setup s) :
    ∀ block ∈ (s.allocators a).large.liveBag + (s.allocators a).large.freeBag,
      (s.allocators a).arena.Holds block.blockAddr block.blockSize := by
  have hcell : ∀ {p : Place ι κ} {block : FreeLargeBlock}, largeCell a block ∈ s.own setup p →
      (s.allocators a).arena.Holds block.blockAddr block.blockSize := by
    intro p block hmem
    have hholds := inv.holds hmem
    simpa [largeCell] using hholds
  intro block hblock
  rcases Multiset.mem_add.mp hblock with hblock | hblock
  · exact hcell (p := .largeLive a) (Multiset.mem_map_of_mem _ hblock)
  · exact hcell (p := .largeFree a) (Multiset.mem_map_of_mem _ hblock)

/-- A registered slab lies in its arena, since its first and its last block do. -/
theorem Inv.holds_slab (inv : Inv setup s) {shape : Nat × Nat × Nat × Nat}
    (hshape : shape ∈ ((s.allocators a).central.lists c).shapes) :
    (s.allocators a).arena.base ≤ shape.1 ∧
      shape.2.1 ≤ (s.allocators a).arena.base + (s.allocators a).arena.len := by
  obtain ⟨slab, hslab, rfl⟩ := List.mem_map.mp hshape
  have ok := ((inv.parts.allocator a).central c).pool.slab_ok slab hslab
  have hsize : slab.blockSize = (setup.config a).classBlockSize c :=
    (inv.parts.allocator a).blockSize_eq c _ hshape
  have hblock : ∀ i < slab.capacity, (s.allocators a).arena.Holds
      (slab.start + i * slab.blockSize) slab.blockSize := by
    intro i hi
    have hb : slab.start + i * slab.blockSize ∈ slab.blocks := mem_slabBlocks.mpr ⟨i, hi, rfl⟩
    obtain ⟨p, hp⟩ := (inv.ledger.covered (setup.smallCell a c _) rfl).mpr
      ⟨c, slab.shape, hshape, _, hb, rfl⟩
    have hholds := inv.holds hp
    rw [hsize]
    simpa [Setup.smallCell, hsize] using hholds
  have hcap := ok.capacity_pos
  have hfirst := (hblock 0 hcap).1
  have hlast := (hblock (slab.capacity - 1) (by omega)).2
  have hend := ok.end_eq
  have hmul : (slab.capacity - 1) * slab.blockSize + slab.blockSize =
      slab.blockSize * slab.capacity := by
    rw [← Nat.succ_mul, Nat.mul_comm]
    congr 1
    omega
  simp only [SlabRecord.shape]
  omega

end Places

/-! ### Frees at the wrong allocator -/

/-- What an allocator answers to a free of an allocation of another one. -/
def foreignError (size : Nat) : FreeError :=
  if (SizeClass.fromRequest size).isSome then .foreignPointer else .alreadyFreedOrUnknownLarge

/-- The free of `e` has been refused as foreign, or will be. -/
def Thread.Refused (e : Live ι κ) : Thread ι κ Seq → Prop
  | .idle last => last = some (.freeError (foreignError e.size))
  | .busy a pc => (∃ requested usable, pc = .releasing e requested usable) ∧ e.alloc ≠ a ∧
      SizeClass.fromRequest e.size = none

theorem refused_kept (setup : Setup ι κ) (k : κ) (e : Live ι κ) :
    KeptByCall setup k (Thread.Refused e) := by
  intro s a pc v inv ht hrefused htrans
  obtain ⟨⟨requested, usable, rfl⟩, hne, hlarge⟩ := hrefused
  cases htrans with
  | release ha => exact absurd ha hne
  | refuse _ =>
    show some _ = some _
    simp [foreignError, hlarge]
  | takeSlab hpc => rcases hpc with hpc | hpc <;> cases hpc

section Foreign

variable [DecidableEq ι] {setup : Setup ι κ} {s : World ι κ Seq Seq} {a : ι} {k : κ} {e : Live ι κ}

/-- A free at another allocator changes nothing before it is refused. -/
theorem Inv.startFree_foreign (inv : Inv setup s) {i : Nat} (he : s.live[i]? = some e)
    (hne : e.alloc ≠ a) (debug : Bool) (cache : ThreadCache ι Seq) :
    let v := View.startFree debug a ((s.view a k).setCache cache) e (s.live.eraseIdx i) none
    v.thread.Refused e ∧ ((∃ last, v.thread = .idle last) → e ∈ v.live) := by
  have hmem : e ∈ s.live := List.mem_of_getElem? he
  cases hc : SizeClass.fromRequest e.size with
  | some c =>
    have hcheck := inv.checkFree_small (a := a) hmem hc debug none
    rw [if_neg hne] at hcheck
    have hcheck : ((s.view a k).setCache cache).allocator.checkFree debug
      ((s.view a k).setCache cache).mem e.ptr none = _ := hcheck
    simp only [View.startFree, hcheck]
    refine ⟨?_, fun _ => hmem⟩
    show some _ = some _
    simp [foreignError, hc]
  | none =>
    obtain ⟨record, -, hcheck⟩ := inv.checkFree_large (a := a) hmem hc debug none
    have hcheck : ((s.view a k).setCache cache).allocator.checkFree debug
      ((s.view a k).setCache cache).mem e.ptr none = .ok (.large e.size record.usableSize) := hcheck
    simp only [View.startFree, hcheck]
    refine ⟨⟨⟨_, _, rfl⟩, hne, hc⟩, fun h => ?_⟩
    obtain ⟨last, h⟩ := h
    cases h

variable [DecidableEq κ]

/-- When a free has been refused, the allocation is live again. -/
theorem Inv.ends_refused (inv : Inv setup s) (hrefused : (s.threads k).Refused e)
    (hlive : (∃ last, s.threads k = .idle last) → e ∈ s.live) :
    s.Ends setup.debug k fun s' => Inv setup s' ∧ (s'.threads k).Refused e ∧
      ((∃ last, s'.threads k = .idle last) → e ∈ s'.live) := by
  refine inv.ends (J := fun s => (s.threads k).Refused e ∧
    ((∃ last, s.threads k = .idle last) → e ∈ s.live)) (fun {s a pc v} inv h ht htrans => ?_)
      ⟨hrefused, hlive⟩
  rw [World.update_threads_same]
  refine ⟨refused_kept setup k e inv ht (ht ▸ h.1) htrans, fun _ => ?_⟩
  obtain ⟨⟨requested, usable, rfl⟩, hne, -⟩ : (Thread.busy a pc).Refused e := ht ▸ h.1
  cases htrans with
  | release ha => exact absurd ha hne
  | refuse _ => exact List.mem_append.mpr (Or.inr (List.mem_singleton_self e))
  | takeSlab hpc => rcases hpc with hpc | hpc <;> cases hpc

end Foreign

variable [DecidableEq ι] [DecidableEq κ]

/-- The allocation `e` at place `i` of the live ones can be freed by every cache that its allocator
can use. -/
def World.CanFree (debug : Bool) (w : World ι κ FreeList Batch) (i : Nat) (e : Live ι κ) : Prop :=
  ∀ k last expectedSize, w.threads k = .idle last →
    (w.caches k).owner = some e.alloc ∨ (w.caches k).isEmpty = true →
    expectedSize = none ∨ expectedSize = some e.size →
      ∃ w₁, w.step debug (.deallocate k e.alloc i expectedSize) = some w₁ ∧
        ∀ actions w', (∀ action ∈ actions, action.caller ≠ some k) →
          w₁.runs debug actions = some w' →
            w'.Ends debug k fun w'' => w''.threads k = .idle (some .freed)

section Isolation

variable {setup : Setup ι κ} {w : World ι κ FreeList Batch} {a : ι} {k : κ}

theorem Setup.Reachable.refuses (h : setup.Reachable w) {i : Nat} {e : Live ι κ}
    (he : w.live[i]? = some e) (hne : e.alloc ≠ a) {last : Option Outcome}
    (ht : w.threads k = .idle last)
    (hbind : (w.caches k).bindToAllocator a (w.allocators a).config ≠ none) :
    ∃ w₁, w.step setup.debug (.deallocate k a i none) = some w₁ ∧
      (∀ actions w', (∀ action ∈ actions, action.caller ≠ some k) →
        w₁.runs setup.debug actions = some w' →
          w'.Ends setup.debug k fun w'' =>
            w''.threads k = .idle (some (.freeError (foreignError e.size)))) ∧
      w₁.Ends setup.debug k fun w' => ∃ j, w'.live[j]? = some e ∧ w'.CanFree setup.debug j e := by
  obtain ⟨s, hs, hrefines⟩ := h.refines
  have he' : s.live[i]? = some e := hrefines.live_eq ▸ he
  obtain ⟨cache, hcache⟩ := hrefines.binds hbind
  obtain ⟨v, hv⟩ : ∃ v, v = View.startFree setup.debug a ((s.view a k).setCache cache) e
    (s.live.eraseIdx i) none := ⟨_, rfl⟩
  have hstep : s.step setup.debug (.deallocate k a i none) = some (s.update a k v) := by
    simp only [World.step, he', Option.bind_some,
      World.call_eq (hrefines.idle_last ht) hcache, hv]
    rfl
  obtain ⟨hrefused, hlive⟩ : v.thread.Refused e ∧
      ((∃ last, v.thread = .idle last) → e ∈ v.live) := by
    rw [hv]
    exact hs.inv.startFree_foreign he' hne setup.debug cache
  rw [← World.update_threads_same (w := s) (a := a) (k := k) v] at hrefused hlive
  obtain ⟨w₁, hw₁, hrefines₁⟩ := hrefines.start_call (k := k) hs.inv rfl hstep
  refine ⟨w₁, hw₁, fun actions w' hothers hruns => ?_, ?_⟩
  · have hends := hrefines₁.among (refused_kept setup k e)
      (hs.inv.step hstep) hrefused hothers hruns
    refine hends.idle.mono fun w'' hend => ?_
    obtain ⟨outcome, hidle, s'', hrefines'', _, hdone⟩ := hend
    rw [hrefines''.idle_last hidle] at hdone
    rw [hidle]
    exact congrArg Thread.idle hdone
  · have hends := hrefines₁.ends (hs.inv.step hstep)
      ((hs.inv.step hstep).ends_refused hrefused hlive)
    refine ((h.step _ hw₁).ends hends.idle).mono fun w' hw' => ?_
    obtain ⟨hreach, outcome, hidle, s', hrefines', _, _, hlive'⟩ := hw'
    have hmem : e ∈ w'.live := hrefines'.live_eq ▸ hlive' ⟨_, hrefines'.idle_last hidle⟩
    obtain ⟨j, hj⟩ := List.mem_iff_getElem?.mp hmem
    exact ⟨j, hj, fun k last expectedSize ht hcache hexpected =>
      hreach.frees hj ht hcache hexpected⟩

/-- Calls of any allocators on any caches never mix their arenas.  A call that cannot bind its cache
panics and changes nothing, every other one completes; each cache has blocks and slabs of the
allocator that it is bound to only, and each allocator of its own arena only; and a free at the
wrong allocator is refused, after which the allocation is live and can be freed at the right one. -/
theorem Setup.Reachable.isolated (h : setup.Reachable w) :
    (∀ k a action last, CallsOf k a w.live.length action → w.threads k = .idle last →
      ((w.caches k).bindToAllocator a (w.allocators a).config = none →
        w.step setup.debug action =
          some { w with threads := Function.update w.threads k (.idle (some .panicked)) }) ∧
      ((w.caches k).bindToAllocator a (w.allocators a).config ≠ none →
        ∃ w₁, w.step setup.debug action = some w₁ ∧
          ∀ actions w', (∀ action ∈ actions, action.caller ≠ some k) →
            w₁.runs setup.debug actions = some w' →
              w'.Ends setup.debug k fun w'' =>
                ∃ outcome, w''.threads k = .idle (some outcome) ∧ outcome ≠ .panicked)) ∧
    (∀ k a, (w.caches k).owner = some a → ∀ c,
      (∀ b ∈ ((w.contents.caches k).classes c).bag +
        ((w.contents.caches k).remoteReturns c).pending,
        (w.allocators a).arena.Holds b ((setup.config a).classBlockSize c)) ∧
      ∀ slab ∈ ((w.caches k).classes c).slabs, (w.allocators a).arena.base ≤ slab.start ∧
        slab.endAddr ≤ (w.allocators a).arena.base + (w.allocators a).arena.len) ∧
    (∀ k, (w.caches k).owner = none → ∀ c, ((w.contents.caches k).classes c).bag = 0 ∧
      ((w.contents.caches k).remoteReturns c).pending = []) ∧
    (∀ a, (∀ c, ∀ b ∈ ((w.contents.allocators a).central.lists c).bag +
        (w.contents.allocators a).central.inboxBag c,
          (w.allocators a).arena.Holds b ((setup.config a).classBlockSize c)) ∧
      ∀ block ∈ (w.allocators a).large.liveBag + (w.allocators a).large.freeBag,
        (w.allocators a).arena.Holds block.blockAddr block.blockSize) ∧
    ∀ k a i e last, w.live[i]? = some e → e.alloc ≠ a → w.threads k = .idle last →
      (w.caches k).bindToAllocator a (w.allocators a).config ≠ none →
      ∃ w₁, w.step setup.debug (.deallocate k a i none) = some w₁ ∧
        (∀ actions w', (∀ action ∈ actions, action.caller ≠ some k) →
          w₁.runs setup.debug actions = some w' →
            w'.Ends setup.debug k fun w'' =>
              w''.threads k = .idle (some (.freeError (foreignError e.size)))) ∧
        w₁.Ends setup.debug k fun w' =>
          ∃ j, w'.live[j]? = some e ∧ w'.CanFree setup.debug j e := by
  obtain ⟨s, hs, hrefines⟩ := h.refines
  have inv := hs.inv
  have harena : ∀ a, (w.allocators a).arena = (s.allocators a).arena := fun a => by
    rw [hrefines.code]
    rfl
  have howner : ∀ k, (w.caches k).owner = (s.caches k).owner := fun k => by
    rw [hrefines.code]
    rfl
  rw [hrefines.contents_eq]
  refine ⟨fun k a action last haction ht => ⟨fun hbind => World.refused_call haction ht hbind,
    fun hbind => h.completes haction ht hbind⟩, fun k a hk c => ⟨?_, fun slab hslab => ?_⟩,
    fun k hk c => ?_, fun a => ⟨fun c => ?_, ?_⟩,
    fun k a i e last he hne ht hbind => h.refuses he hne ht hbind⟩
  · rw [harena]
    exact inv.holds_cache (howner k ▸ hk)
  · rw [hrefines.code] at hslab
    obtain ⟨slab', hslab', rfl⟩ := List.mem_map.mp hslab
    rw [harena]
    exact inv.holds_slab (inv.parts.home k a (howner k ▸ hk) c _ (List.mem_map_of_mem hslab'))
  · exact (inv.parts.cache k).unbound (howner k ▸ hk) c
  · rw [harena]
    exact inv.holds_pool
  · have hlarge : (w.allocators a).large = (s.allocators a).large := by
      rw [hrefines.code]
      rfl
    rw [harena, hlarge]
    exact inv.holds_large

/-- Two allocators with arenas of two pages each, and two caches. -/
def pairSetup : Setup (Fin 2) (Fin 2) where
  debug := true
  pageSize := 4096
  config := fun _ => ⟨8192, 64, 256, 384⟩
  mapping := fun a => if a = 0 then 4096 else 65536
  arena := fun a => ⟨if a = 0 then 4096 else 65536, 8192, 0, 64⟩
  cacheConfig := fun _ => ⟨8192, 64, 256, 384⟩
  cacheId := fun k => k.val
  pageSize_isPowerOfTwo := samplePageSize
  accepted := Fin.forall_fin_two.mpr ⟨rfl, rfl⟩
  mapping_le := by decide
  mapping_disjoint := by decide
  cacheId_lt := sampleCacheId_lt

theorem pairActions_run : ((pairSetup.world FreeList Batch).runs true
    (.allocate 0 0 10 :: List.replicate 6 (.run 0 (true, true)))).isSome := by
  decide +kernel

/-- Cache 0 has allocated at allocator 0. -/
def pairWorld : World (Fin 2) (Fin 2) FreeList Batch := pairSetup.after _ pairActions_run

/-- Cache 1 frees the allocation at allocator 1. -/
theorem isolated_sample : pairWorld.live.map Live.ptr = [4160] ∧
    pairWorld.Calls true 1 (.deallocate 1 1 0 none) fun w =>
      w.threads 1 = .idle (some (.freeError .foreignPointer)) := by
  have he : ∃ e, pairWorld.live[0]? = some e ∧ e.alloc = 0 ∧ e.size = 10 := by decide +kernel
  obtain ⟨e, he, halloc, hsize⟩ := he
  have ht : pairWorld.threads 1 = .idle none := by rfl
  have hbind : (pairWorld.caches 1).bindToAllocator 1 (pairWorld.allocators 1).config ≠ none := by
    have hempty : (pairWorld.caches 1).isEmpty = true := by decide +kernel
    obtain ⟨cache, hcache⟩ : ∃ cache, (pairWorld.caches 1).bindToAllocator 1
      (pairWorld.allocators 1).config = some cache :=
        ThreadCache.bindToAllocator_isSome (Or.inr hempty)
    rw [hcache]
    exact Option.some_ne_none cache
  obtain ⟨w₁, hstep, hends, -⟩ := (pairSetup.after_reachable
    pairActions_run).isolated.2.2.2.2 1 1 0 e
    _ he (by rw [halloc]; decide) ht hbind
  refine ⟨by decide +kernel, w₁, hstep, ?_⟩
  have hresult := hends [] w₁ (by simp) rfl
  rw [hsize] at hresult
  exact hresult

end Isolation

end Orthotope
