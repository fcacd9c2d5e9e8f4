import Orthotope.ClassBooks

/-! Nothing is lost.  The blocks of a class are those of its slabs, and each is somewhere; so when
no allocation is live and every cache has been drained, all of them are in the central pool, and can
be allocated again without the arena. -/

namespace Orthotope

open ByteMemory Ownership BagSum

variable {ι κ : Type}

/-! ### Drained caches -/

/-- What a drain has emptied already, when it goes on with the classes that are left. -/
def Resume.Emptied (cache : ThreadCache ι Seq) : Resume → Prop
  | .done => True
  | .flush classes => ∀ c ∉ classes, (cache.remoteReturns c).pending = []
  | .drain classes => (∀ c, (cache.remoteReturns c).pending = []) ∧
      ∀ c ∉ classes, (cache.classes c).bag = 0

/-- The staged blocks of `c` do not count, as they are about to be published. -/
def Resume.EmptiedBut (cache : ThreadCache ι Seq) (c : SizeClass) : Resume → Prop
  | .flush classes => ∀ d ∉ classes, d ≠ c → (cache.remoteReturns d).pending = []
  | resume => resume.Emptied cache

def Thread.Emptied (cache : ThreadCache ι Seq) : Thread ι κ Seq → Prop
  | .idle (some .drained) => (Resume.drain []).Emptied cache
  | .idle _ => True
  | .busy _ (.flush classes) => (Resume.flush classes).Emptied cache
  | .busy _ (.drain classes) => (Resume.drain classes).Emptied cache
  | .busy _ (.unstage c resume) => resume.EmptiedBut cache c
  | .busy _ (.publishing _ _ resume) | .busy _ (.excess _ _ resume)
  | .busy _ (.returning _ _ resume) => resume.Emptied cache
  | .busy _ _ => True

section Drains

variable {setup : Setup ι κ} {s s' : World ι κ Seq Seq} {a : ι} {k : κ}

theorem Resume.emptied_thread {v : View ι κ Seq Seq} {resume : Resume}
    (h : resume.Emptied v.cache) :
    (v.resume a resume).thread.Emptied (v.resume a resume).cache := by
  rw [(v.resume_frame a resume).2.1]
  cases resume with
  | done => trivial
  | flush classes => exact h
  | drain classes => exact h

/-- A class that is emptied before the drain goes on. -/
theorem Resume.EmptiedBut.unstaged {cache : ThreadCache ι Seq} {c : SizeClass} {resume : Resume}
    (h : resume.EmptiedBut cache c) (hc : (cache.remoteReturns c).pending = []) :
    resume.Emptied cache := by
  cases resume with
  | done => trivial
  | flush classes =>
    intro d hd
    by_cases hne : d = c
    · exact hne ▸ hc
    · exact h d hd hne
  | drain classes => exact h

theorem Resume.EmptiedBut.setRemoteReturns {cache : ThreadCache ι Seq} {c : SizeClass}
    {resume : Resume} (h : resume.EmptiedBut cache c) :
    resume.EmptiedBut (cache.setRemoteReturns c ⟨[], 0⟩) c := by
  cases resume with
  | done => trivial
  | flush classes =>
    intro d hd hne
    rw [ThreadCache.setRemoteReturns_ne _ hne]
    exact h d hd hne
  | drain classes =>
    refine ⟨fun d => ?_, h.2⟩
    by_cases hne : d = c
    · rw [hne, ThreadCache.setRemoteReturns_same]
    · rw [ThreadCache.setRemoteReturns_ne _ hne]
      exact h.1 d

/-- Taking blocks out of a class keeps what is empty. -/
theorem Resume.Emptied.setClass {cache : ThreadCache ι Seq} {c : SizeClass} {resume : Resume}
    (h : resume.Emptied cache) {class_ : LocalClassCache Seq}
    (hle : class_.bag ≤ (cache.classes c).bag) : resume.Emptied (cache.setClass c class_) := by
  cases resume with
  | done => trivial
  | flush classes => exact h
  | drain classes =>
    refine ⟨h.1, fun d hd => ?_⟩
    by_cases hne : d = c
    · subst hne
      rw [ThreadCache.setClass_same]
      exact Multiset.le_zero.mp (h.2 d hd ▸ hle)
    · rw [ThreadCache.setClass_ne _ hne]
      exact h.2 d hd

theorem Transition.emptied (inv : Inv setup s) {debug : Bool} {pc : Pc ι κ Seq}
    {v : View ι κ Seq Seq} (ht : (Thread.busy a pc).Emptied (s.caches k))
    (htrans : Transition debug s a k pc v) : v.thread.Emptied v.cache := by
  cases htrans with
  | @refill c size m central refill h => cases refill <;> trivial
  | takeSlab hpc => rcases hpc with rfl | rfl <;> trivial
  | push hinv shapes fresh owned shared hthread => rcases hthread with rfl | ⟨-, rfl⟩ <;> trivial
  | stage howner hthread => rcases hthread with rfl | rfl <;> trivial
  | flushEnd => exact ⟨fun c => ht c List.not_mem_nil, fun c hc => absurd c.mem_all hc⟩
  | flush =>
    intro d hd hne
    exact ht d (List.not_mem_cons_of_ne_of_not_mem hne hd)
  | drainEnd => exact ht
  | @drainNext c classes h =>
    refine ⟨ht.1, fun d hd => ?_⟩
    by_cases hne : d = c
    · rw [hne]
      exact Multiset.card_eq_zero.mp (((inv.parts.cache k).class_inv c).totalLen_eq ▸ h)
    · exact ht.2 d (List.not_mem_cons_of_ne_of_not_mem hne hd)
  | drain h => exact ht
  | unstageNone h => exact Resume.emptied_thread (Resume.EmptiedBut.unstaged ht h)
  | unstage h =>
    apply (Resume.EmptiedBut.setRemoteReturns ht).unstaged
    rw [ThreadCache.setRemoteReturns_same]
  | publish hinv only lists inbox => exact Resume.emptied_thread ht
  | excess hinv shapes hbatch drains =>
    apply Resume.Emptied.setClass ht
    rw [drains.bag]
    exact Multiset.le_add_left _ _
  | returnBatch h => exact Resume.emptied_thread ht
  | _ => trivial

theorem Thread.Begun.emptied {cache : ThreadCache ι Seq} {thread : Thread ι κ Seq}
    (h : thread.Begun cache a) : thread.Emptied cache := by
  cases h with
  | @answered outcome h =>
    cases outcome with
    | drained => exact absurd rfl h
    | _ => trivial
  | flush => exact fun c hc => absurd c.mem_all hc
  | _ => trivial

variable [DecidableEq ι] [DecidableEq κ]

/-- A cache whose last call was a drain has no block left. -/
theorem Setup.Reachable.emptied (h : setup.Reachable s) (k : κ) :
    (s.threads k).Emptied (s.caches k) := by
  induction h with
  | initial => trivial
  | @step s s' action hr hstep ih =>
    rcases hr.inv.step_cases hstep with ⟨j, a, pc, advised, v, -, ht, rfl, -, htrans⟩ |
      ⟨j, a, last, v, -, -, rfl, -, hbegin⟩ | ⟨-, hcaches, hthreads⟩
    · by_cases hk : k = j
      · subst hk
        rw [World.update_threads_same, World.update_caches_same]
        rw [ht] at ih
        exact htrans.emptied hr.inv ih
      · rw [World.update_threads_ne _ _ hk, World.update_caches_ne _ _ hk]
        exact ih
    · by_cases hk : k = j
      · subst hk
        rw [World.update_threads_same, World.update_caches_same]
        rcases hbegin with ⟨-, -, hthread⟩ | ⟨-, hthread⟩
        · rw [hthread]
          trivial
        · exact hthread.emptied
      · rw [World.update_threads_ne _ _ hk, World.update_caches_ne _ _ hk]
        exact ih
    · rw [hcaches, hthreads]
      exact ih

end Drains

/-! ### Allocating again -/

section Again

variable [DecidableEq ι] [DecidableEq κ] {L B : Type} [BlockStore L B]

/-- Allocations of the given sizes by `k`, one after the other and with nobody else in between, all
succeed, and end in a state of `P` for the pointers they return. -/
def World.AllocatesAll (debug : Bool) (k : κ) (a : ι) :
    List Nat → (List Nat → World ι κ L B → Prop) → World ι κ L B → Prop
  | [], P, w => P [] w
  | size :: sizes, P, w => w.Calls debug k (.allocate k a size) fun w' =>
      ∃ ptr, w'.threads k = .idle (some (.allocated ptr)) ∧
        w'.AllocatesAll debug k a sizes fun ptrs => P (ptr :: ptrs)

theorem World.AllocatesAll.mono {debug : Bool} {k : κ} {a : ι} {sizes : List Nat}
    {P Q : List Nat → World ι κ L B → Prop} {w : World ι κ L B}
    (h : w.AllocatesAll debug k a sizes P) (hpq : ∀ ptrs w, P ptrs w → Q ptrs w) :
    w.AllocatesAll debug k a sizes Q := by
  induction sizes generalizing w P Q with
  | nil => exact hpq [] w h
  | cons size sizes ih =>
    refine World.Calls.mono h fun w' ⟨ptr, ht, hrest⟩ => ⟨ptr, ht, ih hrest ?_⟩
    exact fun ptrs => hpq (ptr :: ptrs)

variable {setup : Setup ι κ} {w : World ι κ FreeList Batch} {s : World ι κ Seq Seq} {a : ι} {k : κ}
  {c : SizeClass}

/-- The free blocks of a class that an allocation of cache `k` is served from before the arena. -/
def World.stock (s : World ι κ Seq Seq) (a : ι) (k : κ) (c : SizeClass) : Multiset Nat :=
  ((s.caches k).classes c).bag + (s.allocators a).central.freeBag c

/-- As long as there are free blocks allocations are served from them. -/
theorem Refines.allocates_all (h : Refines w s) (inv : Inv setup s) {last : Option Outcome}
    (ht : s.threads k = .idle last)
    (hcache : (s.caches k).owner = some a ∨ (s.caches k).isEmpty = true) {sizes : List Nat}
    (hsizes : ∀ size ∈ sizes, SizeClass.fromRequest size = some c)
    (hlen : sizes.length ≤ (s.stock a k c).card) :
    w.AllocatesAll setup.debug k a sizes fun ptrs w' =>
      ∃ s' : World ι κ Seq Seq, ∃ blocks : List Nat,
      Refines w' s' ∧ ptrs = blocks.map userPtrFromBlockStart ∧ blocks.length = sizes.length ∧
        (blocks : Multiset Nat) + s'.stock a k c = s.stock a k c ∧
          (s'.allocators a).arena = (s.allocators a).arena := by
  induction sizes generalizing w s last with
  | nil => exact ⟨s, [], h, rfl, rfl, zero_add _, rfl⟩
  | cons size sizes ih =>
    have hcalls := h.calls inv rfl (inv.allocate_small ht hcache (hsizes size List.mem_cons_self))
    refine World.Calls.mono hcalls fun w' hend => ?_
    obtain ⟨s', h', inv', howner', _, hend⟩ := hend
    have hstock : ¬s.Exhausted a k c := by
      rintro ⟨hheld, hpool⟩
      rw [World.stock, hheld, hpool] at hlen
      exact absurd hlen (by simp)
    rcases hend with ⟨block, hallocated⟩ | hrefused
    · rcases hallocated.supplied with ⟨harena, hbag⟩ | ⟨hexhausted, -⟩
      · have hbag : {block} + s'.stock a k c = s.stock a k c := hbag
        have hlen' : sizes.length ≤ (s'.stock a k c).card := by
          rw [← hbag, Multiset.card_add, Multiset.card_singleton, List.length_cons] at hlen
          omega
        refine ⟨_, h'.idle_of hallocated.thread, (ih h' inv' hallocated.thread (Or.inl howner')
          (fun size hs => hsizes size (List.mem_cons_of_mem _ hs)) hlen').mono ?_⟩
        rintro ptrs w'' ⟨s'', blocks, h'', rfl, hcount, hrest, harena'⟩
        refine ⟨s'', block :: blocks, h'', rfl, congrArg Nat.succ hcount, ?_, harena'.trans harena⟩
        rw [← Multiset.cons_coe, Multiset.cons_add, hrest, ← hbag]
        rfl
      · exact absurd hexhausted hstock
    · exact absurd hrefused.exhausted hstock

end Again

section Code

variable [DecidableEq ι] [DecidableEq κ] {setup : Setup ι κ} {w : World ι κ FreeList Batch}
  {s : World ι κ Seq Seq} {a : ι}

/-- When no small allocation is live and every cache has been drained, the pool has every block. -/
theorem Setup.Reachable.pooled (h : setup.Reachable s)
    (hlive : ∀ e ∈ s.live, e.alloc = a → SizeClass.fromRequest e.size = none)
    (hdrained : ∀ k, (s.caches k).owner = some a → s.threads k = .idle (some .drained))
    (c : SizeClass) :
    (s.allocators a).central.freeBag c = ((s.allocators a).central.lists c).slabBag := by
  have hcustody : ∀ k, s.custody a c k = 0 := by
    intro k
    unfold World.custody
    split
    · rename_i howner
      have hemptied := h.emptied k
      rw [hdrained k howner] at hemptied
      obtain ⟨hpending, hbag⟩ : (Resume.drain []).Emptied (s.caches k) := hemptied
      rw [ThreadCache.custody, hpending c, hbag c List.not_mem_nil, hdrained k howner]
      rfl
    · rfl
  have hnone : s.liveBlocks a c = [] := by
    rw [World.liveBlocks, List.map_eq_nil_iff, List.filter_eq_nil_iff]
    intro e he hsmall
    obtain ⟨halloc, hc⟩ := of_decide_eq_true hsmall
    rw [hlive e he halloc] at hc
    cases hc
  rw [h.inv.slabBag_eq_of a c ∅ fun k _ => hcustody k, hnone, Finset.sum_empty, Multiset.coe_nil,
    zero_add, add_zero]

/-- No block is lost: when no small allocation is live and every cache has been drained, the count
of the pool is that of all blocks ever carved, and a cache can allocate that many again. -/
theorem Setup.Reachable.no_leak (h : setup.Reachable w)
    (hlive : ∀ e ∈ w.live, e.alloc = a → SizeClass.fromRequest e.size = none)
    (hdrained : ∀ k, (w.caches k).owner = some a → w.threads k = .idle (some .drained))
    (c : SizeClass) :
    (w.allocators a).central.blockCounts c = ((w.allocators a).central.lists c).capacity ∧
    ∀ k last, w.threads k = .idle last →
      ((w.caches k).owner = some a ∨ (w.caches k).isEmpty = true) →
        ∀ sizes, (∀ size ∈ sizes, SizeClass.fromRequest size = some c) →
          sizes.length = ((w.allocators a).central.lists c).capacity →
            w.AllocatesAll setup.debug k a sizes fun ptrs w' => ptrs.Nodup ∧
              ptrs.length = sizes.length ∧ (w'.allocators a).arena = (w.allocators a).arena ∧
                w'.contents.Exhausted a k c := by
  obtain ⟨s, hs, hrefines⟩ := h.refines
  have inv := hs.inv
  have hpool := (inv.parts.allocator a).central c
  have hbag := hs.pooled (fun e he => hlive e (hrefines.live_eq ▸ he))
    (fun k howner => hrefines.idle_last (hdrained k (hrefines.owner_eq k ▸ howner))) c
  have hcapacity : ((w.allocators a).central.lists c).capacity =
      ((s.allocators a).central.freeBag c).card := by
    rw [hbag, ClassPool.card_slabBag, hrefines.code]
    exact ClassPool.capacity_map ..
  refine ⟨?_, fun k last ht hcache sizes hsizes hlen => ?_⟩
  · have hpending : ((s.allocators a).central.remoteInboxes c).pendingLen =
      ((s.allocators a).central.remoteInboxes c).pending.length := hpool.inbox
    have hcounts : (w.allocators a).central.blockCounts c =
        (s.allocators a).central.blockCounts c := by
      rw [hrefines.code]
      exact congrArg (· + _) (ClassPool.centralBlockCount_map ..)
    rw [hcapacity, hcounts, CentralPool.blockCounts, hpool.pool.centralBlockCount_eq, hpending,
      CentralPool.freeBag, Multiset.card_add, add_comm]
    rfl
  · -- the cache has nothing of its own, so the stock is what the pool has
    have hheld : ((s.caches k).classes c).bag = 0 := by
      rcases hrefines.bindable hcache with howner | hempty
      · have hemptied := hs.emptied k
        rw [hrefines.idle_last (hdrained k (hrefines.owner_eq k ▸ howner))] at hemptied
        exact hemptied.2 c List.not_mem_nil
      · exact ((inv.parts.isEmpty_iff k).mp hempty c).1
    have hstock : s.stock a k c = (s.allocators a).central.freeBag c := by
      rw [World.stock, hheld, zero_add]
    have hall := hrefines.allocates_all inv (hrefines.idle_last ht) (hrefines.bindable hcache)
      hsizes (by rw [hstock, hlen, hcapacity])
    refine hall.mono fun ptrs w' hend => ?_
    obtain ⟨s', blocks, hrefines', hptrs, hcount, hrest, harena⟩ := hend
    rw [hstock] at hrest
    have hcards := congrArg Multiset.card hrest
    rw [Multiset.card_add, Multiset.coe_card, ← hcapacity, hcount, hlen] at hcards
    have hnone : s'.stock a k c = 0 := Multiset.card_eq_zero.mp (by omega)
    rw [hnone, add_zero] at hrest
    have hnodup : blocks.Nodup := by
      rw [← Multiset.coe_nodup, hrest, hbag]
      exact hpool.pool.slabBag_nodup
    refine ⟨?_, by rw [hptrs, List.length_map, hcount], ?_, ?_⟩
    · rw [hptrs]
      exact hnodup.map fun b b' h => Nat.add_right_cancel h
    · rw [hrefines.arena_eq, hrefines'.arena_eq, harena]
    · exact hrefines'.exhausted_iff.mpr (add_eq_zero.mp hnone)

/-- Cache 0 allocates a block of a refill of two, frees it and drains. -/
def sampleDrained : List (Action Unit (Fin 2)) :=
  sampleCarve 0 10 ++ [.deallocate 0 () 0 none, .run 0 (true, true), .drain 0 ()] ++
    List.replicate 44 (.run 0 (true, true))

theorem sampleDrained_run :
    ((sampleSetup.world FreeList Batch).runs true sampleDrained).isSome := by
  decide +kernel

/-- Cache 1 gets the two blocks that cache 0 has given back. -/
theorem no_leak_sample : ∃ w, sampleSetup.Reachable w ∧
    (w.allocators ()).central.blockCounts .b64 = 2 ∧
      w.AllocatesAll true 1 () [10, 20] fun ptrs w' => ptrs.Nodup ∧ ptrs.length = 2 ∧
        (w'.allocators ()).arena = (w.allocators ()).arena ∧ w'.contents.Exhausted () 1 .b64 := by
  obtain ⟨w, hw⟩ : ∃ w, w = sampleSetup.after sampleDrained sampleDrained_run := ⟨_, rfl⟩
  have hreachable : sampleSetup.Reachable w := hw ▸ Setup.after_reachable sampleDrained_run
  have hlive : w.live.length = 0 := by
    rw [hw]
    decide +kernel
  have hcapacity : ((w.allocators ()).central.lists .b64).capacity = 2 := by
    rw [hw]
    decide +kernel
  have hdrained : ∀ k, (w.caches k).owner = some () → w.threads k = .idle (some .drained) := by
    have hall : ∀ k, (w.caches k).owner = some () → (w.threads k).last? = some (some .drained) := by
      rw [hw]
      decide +kernel
    exact fun k howner => Thread.eq_idle (hall k howner)
  have hidle : (w.threads 1).last? = some none := by
    rw [hw]
    decide +kernel
  have hempty : (w.caches 1).isEmpty = true := by
    rw [hw]
    decide +kernel
  obtain ⟨hcounts, hagain⟩ := hreachable.no_leak (a := ())
    (fun e he => by simp [List.length_eq_zero_iff.mp hlive] at he)
    hdrained .b64
  exact ⟨w, hreachable, hcounts.trans hcapacity,
    hagain 1 none (Thread.eq_idle hidle) (Or.inr hempty) [10, 20]
    (by decide) hcapacity.symm⟩

end Code

end Orthotope
