import Orthotope.LargeRegistry
import Orthotope.Quiescence

/-! The drain of a cache over its limit.  `pop_batch` takes its batch from one source, and from no
other when that one runs out: the shared list, else the last available slab, else the hot block. -/

namespace Orthotope

open ByteMemory

variable {ι κ : Type}

/-- How many blocks a slab can give: the reclaimed ones and those of its fresh capacity. -/
def LocalSlab.availableLen {L : Type} [BlockList L] (slab : LocalSlab L) : Nat :=
  BlockList.len slab.free + (slab.capacity - slab.nextFresh)

/-- How many blocks the source has that `pop_batch` draws on. -/
def LocalClassCache.drainSource {L : Type} [BlockList L] (cache : LocalClassCache L) : Nat :=
  if cache.sharedLen ≠ 0 then cache.sharedLen
  else
    match cache.availableSlabs.getLast? with
    | some id => (cache.slabs[id]?.map LocalSlab.availableLen).getD 0
    | none => if cache.hotBlock.isSome then 1 else 0

/-! ### The batch -/

theorem LocalSlab.popBatch_length {slab slab' : LocalSlab Seq} {m m' : Mem} {max : Nat}
    {c : SizeClass} {batch : Seq} (h : slab.popBatch m max c = some (m', batch, slab')) :
    batch.length = min max slab.availableLen := by
  have hle : min slab.free.length max ≤ slab.free.length := Nat.min_le_left _ _
  simp only [LocalSlab.popBatch, seq_len, seq_empty, drainReclaimed_eq _ _ _ hle, Option.bind_some,
    drainFresh_eq, seq_popBatchUnchecked, Option.map_eq_some_iff] at h
  obtain ⟨⟨m₁, batch₁, rest⟩, hpop, heq⟩ := h
  obtain ⟨-, rfl, -⟩ := heq
  split at hpop
  · cases hpop
  · obtain ⟨-, rfl, -⟩ := hpop
    simp only [List.append_nil, List.length_take, List.length_append, List.length_reverse,
      length_slabBlocks, LocalSlab.availableLen, seq_len]
    omega

theorem LocalClassCache.popBatch_length {cache cache' : LocalClassCache Seq} (inv : cache.Inv)
    {m m' : Mem} {max : Nat} {c : SizeClass} (hmax : 0 < max) {batch : Seq}
    (h : cache.popBatch m max c = some (m', batch, cache')) :
    batch.length = min max cache.drainSource := by
  unfold LocalClassCache.popBatch at h
  unfold LocalClassCache.drainSource
  by_cases hshared : cache.sharedLen ≠ 0
  · rw [if_pos hshared] at h ⊢
    obtain ⟨⟨m₁, batch₁, rest⟩, hpop, heq⟩ := Option.map_eq_some_iff.mp h
    obtain ⟨-, rfl, -⟩ := heq
    rw [seq_popBatchUnchecked] at hpop
    split at hpop
    · cases hpop
    · obtain ⟨-, rfl, -⟩ := hpop
      rw [inv.sharedLen_eq, List.length_take]
  · rw [if_neg hshared] at h ⊢
    cases hlast : cache.availableSlabs.getLast? with
    | some id =>
      simp only [hlast] at h ⊢
      obtain ⟨slab, hid, h⟩ := Option.bind_eq_some_iff.mp h
      obtain ⟨⟨m₁, batch₁, slab'⟩, hpop, heq⟩ := Option.map_eq_some_iff.mp h
      obtain ⟨-, rfl, -⟩ := heq
      rw [hid]
      exact LocalSlab.popBatch_length hpop
    | none =>
      simp only [hlast] at h ⊢
      cases hhot : cache.hotBlock with
      | some block =>
        simp only [hhot, seq_pushBlock, seq_empty, seq_popBatchUnchecked] at h
        obtain ⟨⟨m₁, batch₁, rest⟩, hpop, heq⟩ := Option.map_eq_some_iff.mp h
        obtain ⟨-, rfl, -⟩ := heq
        split at hpop
        · cases hpop
        · obtain ⟨-, rfl, -⟩ := hpop
          exact (Nat.min_eq_right hmax).symm
      | none =>
        simp only [hhot] at h
        obtain ⟨-, rfl, -⟩ := h
        exact (Nat.min_zero max).symm

theorem LocalClassCache.drainSource_map (cache : LocalClassCache Seq) :
    (cache.map FreeList.ofSeq).drainSource = cache.drainSource := by
  have hslabs : ∀ id : Nat, (cache.map FreeList.ofSeq).slabs[id]?.map LocalSlab.availableLen =
      cache.slabs[id]?.map LocalSlab.availableLen := by
    intro id
    rw [getElem?_map_slabs, Option.map_map]
    rfl
  unfold LocalClassCache.drainSource
  simp only [hslabs]
  rfl

/-! ### The steps of a drain -/

section Steps

variable {setup : Setup ι κ} {w : World ι κ FreeList Batch} {a : ι} {k : κ} {c : SizeClass}

theorem CentralPool.Inv.blockCounts_eq {central : CentralPool Seq} {c : SizeClass}
    (inv : central.Inv c) : central.blockCounts c = (central.freeBag c).card := by
  have hpending : (central.remoteInboxes c).pendingLen = (central.remoteInboxes c).pending.length :=
    inv.inbox
  rw [CentralPool.blockCounts, inv.pool.centralBlockCount_eq, hpending, CentralPool.freeBag,
    Multiset.card_add, add_comm]
  rfl

theorem Refines.classes_eq {s : World ι κ Seq Seq} (h : Refines w s) (k : κ) (c : SizeClass) :
    (w.caches k).classes c = ((s.caches k).classes c).map FreeList.ofSeq := by
  rw [h.code]
  rfl

theorem Refines.blockCounts_eq {s : World ι κ Seq Seq} (h : Refines w s) (a : ι) (c : SizeClass) :
    (w.allocators a).central.blockCounts c = (s.allocators a).central.blockCounts c := by
  rw [h.code]
  exact congrArg (· + _) (ClassPool.centralBlockCount_map ..)

variable [DecidableEq ι] [DecidableEq κ]

/-- The first step of a drain takes a batch out of the cache. -/
theorem Setup.Reachable.excess_step (h : setup.Reachable w) {max : Nat} {resume : Resume}
    (ht : w.threads k = .busy a (.excess c max resume)) (advised : Bool × Bool) :
    ∃ w' batch, w.step setup.debug (.run k advised) = some w' ∧
      w'.threads k = .busy a (.returning c batch resume) ∧
        batch.len = min max ((w.caches k).classes c).drainSource ∧
          ((w'.caches k).classes c).totalLen + batch.len = ((w.caches k).classes c).totalLen := by
  obtain ⟨s, hs, hrefines⟩ := h.refines
  obtain ⟨pc, hbusy, hpc⟩ := hrefines.busy ht
  cases pc with
  | excess c' max' resume' =>
    obtain ⟨rfl, rfl, rfl⟩ := Pc.excess.inj hpc
    obtain ⟨w', s', hstep, hstep', hrefines'⟩ := hrefines.run setup.debug hs.inv ht advised
    have hclass := (hs.inv.parts.cache k).class_inv c
    obtain ⟨-, hmax, -⟩ := hs.inv.parts.thread k a _ hbusy
    obtain ⟨m, batch, class_, hpop, hinv, -, -, hdrains, hnext⟩ :=
      next_popBatch hs.inv hbusy setup.debug advised
    simp only [World.step, hbusy, hnext, Option.map_some, Option.some.injEq] at hstep'
    subst hstep'
    have hlength : (Batch.ofSeq batch).len = batch.length := rfl
    refine ⟨w', Batch.ofSeq batch, hstep, ?_, ?_, ?_⟩
    · rw [hrefines'.threads_eq, World.update_threads_same]
      rfl
    · rw [hlength, LocalClassCache.popBatch_length hclass hmax hpop, hrefines.classes_eq,
        LocalClassCache.drainSource_map]
    · have hcard := congrArg Multiset.card hdrains.bag
      rw [Multiset.card_add, Multiset.coe_card, ← hclass.totalLen_eq, ← hinv.totalLen_eq] at hcard
      have hcache : (s.update a k ((((s.view a k).setMem m).setCache
          ((s.caches k).setClass c class_)).goto a (.returning c batch resume))).caches k =
        (s.caches k).setClass c class_ := World.update_caches_same ..
      rw [hrefines.classes_eq, hrefines'.classes_eq, hcache, ThreadCache.setClass_same, hlength]
      exact (Nat.add_comm _ _).trans hcard.symm
  | _ => cases hpc

theorem CentralPool.Returned.blockCounts {m m' : Mem} {central central' : CentralPool Seq}
    {batch : Seq} (inv : central.Inv c) (h : CentralPool.Returned c m m' central central' batch) :
    central'.blockCounts c = central.blockCounts c + batch.length := by
  have hcard := congrArg Multiset.card h.bag
  rw [Multiset.card_add, Multiset.coe_card] at hcard
  rw [h.inv.blockCounts_eq, inv.blockCounts_eq, CentralPool.freeBag, CentralPool.freeBag, h.inbox,
    zero_add, hcard, Nat.add_comm]

/-- The second gives it to the pool. -/
theorem Setup.Reachable.returning_step (h : setup.Reachable w) {batch : Batch} {resume : Resume}
    (ht : w.threads k = .busy a (.returning c batch resume)) (advised : Bool × Bool) :
    ∃ w', w.step setup.debug (.run k advised) = some w' ∧
      (resume = .done → w'.threads k = .idle (some .freed)) ∧
        (w'.allocators a).central.blockCounts c =
          (w.allocators a).central.blockCounts c + batch.len := by
  obtain ⟨s, hs, hrefines⟩ := h.refines
  obtain ⟨pc, hbusy, hpc⟩ := hrefines.busy ht
  cases pc with
  | returning c' batch' resume' =>
    obtain ⟨rfl, rfl, rfl⟩ := Pc.returning.inj hpc
    obtain ⟨w', s', hstep, hstep', hrefines'⟩ := hrefines.run setup.debug hs.inv ht advised
    obtain ⟨v, hnext, htrans⟩ : ∃ v, (s.view a k).next setup.debug advised a k
      (.returning c batch' resume) = some v ∧
        Transition setup.debug s a k (.returning c batch' resume) v := next_returning hs.inv hbusy
    simp only [World.step, hbusy, hnext, Option.map_some, Option.some.injEq] at hstep'
    subst hstep'
    have hthread : resume = .done → v.thread = .idle (some .freed) := by
      rintro rfl
      cases htrans with
      | returnBatch => rfl
      | takeSlab h => rcases h with h | h <;> cases h
    have hcentral : v.allocator.central.blockCounts c =
        (s.allocators a).central.blockCounts c + batch'.length := by
      cases htrans with
      | returnBatch hreturned =>
        rw [(View.resume_frame _ a resume).2.2.1]
        exact hreturned.blockCounts ((hs.inv.parts.allocator a).central c)
      | takeSlab h => rcases h with h | h <;> cases h
    refine ⟨w', hstep, fun hdone => ?_, ?_⟩
    · rw [hrefines'.threads_eq, World.update_threads_same, hthread hdone]
      rfl
    · rw [hrefines'.blockCounts_eq, hrefines.blockCounts_eq, World.update_allocators_same, hcentral]
      rfl
  | _ => cases hpc

/-- What others do leaves a call in progress and its cache alone. -/
theorem World.runs_others {w' : World ι κ FreeList Batch} {pc : Pc ι κ Batch} {debug : Bool}
    {actions : List (Action ι κ)} (hrun : ∀ action ∈ actions, ∀ advised, action ≠ .run k advised)
    (ht : w.threads k = .busy a pc) (hruns : w.runs debug actions = some w') :
    w'.threads k = .busy a pc ∧ w'.caches k = w.caches k := by
  induction actions generalizing w with
  | nil =>
    obtain rfl := Option.some.inj hruns
    exact ⟨ht, rfl⟩
  | cons action actions ih =>
    obtain ⟨w₁, hstep, hrest⟩ := Option.bind_eq_some_iff.mp hruns
    obtain ⟨ht₁, hcache⟩ := World.step_others hstep (hrun action List.mem_cons_self) ht
    have hothers := ih (fun action h => hrun action (List.mem_cons_of_mem _ h)) ht₁ hrest
    exact ⟨hothers.1, hothers.2.trans hcache⟩

/-- The free on `k` that is about to drain its cache moves `n` blocks of the class to the pool: one
step takes them out of the cache, and the next, which ends the free, adds them to what the pool has.
Others may act before each of the two. -/
def World.DrainMoves (debug : Bool) (w : World ι κ FreeList Batch) (k : κ) (a : ι) (c : SizeClass)
    (n : Nat) : Prop :=
  ∀ others w₁ advised, (∀ action ∈ others, ∀ advised, action ≠ .run k advised) →
    w.runs debug others = some w₁ →
      ∃ w₂, w₁.step debug (.run k advised) = some w₂ ∧
        ((w₂.caches k).classes c).totalLen + n = ((w₁.caches k).classes c).totalLen ∧
          ∀ others w₃ advised, (∀ action ∈ others, ∀ advised, action ≠ .run k advised) →
            w₂.runs debug others = some w₃ →
              ∃ w₄, w₃.step debug (.run k advised) = some w₄ ∧
                w₄.threads k = .idle (some .freed) ∧
                  (w₄.allocators a).central.blockCounts c =
                    (w₃.allocators a).central.blockCounts c + n

/-- The drain of a free moves one batch from one source. -/
theorem Setup.Reachable.drain_moves (h : setup.Reachable w) {max : Nat}
    (ht : w.threads k = .busy a (.excess c max .done)) :
    w.DrainMoves setup.debug k a c (min max ((w.caches k).classes c).drainSource) := by
  intro others w₁ advised hothers hruns
  obtain ⟨ht₁, hcache⟩ := World.runs_others hothers ht hruns
  obtain ⟨w₂, batch, hstep, ht₂, hlen, htotal⟩ := (h.runs hruns).excess_step ht₁ advised
  rw [← hcache, ← hlen]
  refine ⟨w₂, hstep, htotal, fun others w₃ advised' hothers' hruns' => ?_⟩
  obtain ⟨ht₃, -⟩ := World.runs_others hothers' ht₂ hruns'
  obtain ⟨w₄, hstep', hdone, hcounts⟩ :=
    (((h.runs hruns).step _ hstep).runs hruns').returning_step ht₃ advised'
  exact ⟨w₄, hstep', hdone rfl, hcounts⟩

theorem World.DrainMoves.unique {debug : Bool} {n n' : Nat} (h : w.DrainMoves debug k a c n)
    (h' : w.DrainMoves debug k a c n') : n = n' := by
  obtain ⟨w₂, hstep, htotal, -⟩ := h [] w (true, true) (by simp) rfl
  obtain ⟨w₂', hstep', htotal', -⟩ := h' [] w (true, true) (by simp) rfl
  obtain rfl := Option.some.inj (hstep.symm.trans hstep')
  exact Nat.add_left_cancel (htotal.trans htotal'.symm)

/-- A cache in a call has the table of the allocator's configuration. -/
theorem Setup.Reachable.classConfig_eq (h : setup.Reachable w) {pc : Pc ι κ Batch}
    (ht : w.threads k = .busy a pc) :
    (w.caches k).classConfig = classConfigTable (setup.config a) := by
  obtain ⟨s, hs, hrefines⟩ := h.refines
  obtain ⟨pc', hbusy, -⟩ := hrefines.busy ht
  rw [hrefines.code]
  exact (hs.inv.parts.cache k).table a (hs.inv.parts.thread k a _ hbusy).1

/-- A free through the owning cache that takes the class over its limit goes on to drain it. -/
theorem Setup.Reachable.over_limit (h : setup.Reachable w) {block : Nat}
    (ht : w.threads k = .busy a (.route c block (w.caches k).cacheId)) {advised : Bool × Bool}
    {w₁ : World ι κ FreeList Batch} (hstep : w.step setup.debug (.run k advised) = some w₁)
    (hover : (setup.config a).localLimit c < ((w₁.caches k).classes c).totalLen) :
    w₁.threads k = .busy a (.excess c ((setup.config a).drainCount c) .done) := by
  have htable := h.classConfig_eq ht
  simp only [World.step, ht] at hstep
  obtain ⟨v, hv, rfl⟩ := Option.map_eq_some_iff.mp hstep
  have hcacheId : (w.caches k).cacheId = (w.view a k).cache.cacheId := rfl
  simp only [View.next, if_pos hcacheId] at hv
  obtain ⟨⟨m, cache⟩, hpush, rfl⟩ := Option.map_eq_some_iff.mp hv
  obtain ⟨⟨m', class_⟩, -, heq⟩ := Option.map_eq_some_iff.mp hpush
  obtain ⟨rfl, rfl⟩ := heq
  have hdrain : ((w.caches k).setClass c class_).shouldDrain c = true := by
    have hlimit : (((w.caches k).setClass c class_).classConfig c).localLimit =
        (setup.config a).localLimit c := congrArg ClassCacheConfig.localLimit (congrFun htable c)
    have hcache : ∀ v : View ι κ FreeList Batch, v.cache = (w.caches k).setClass c class_ →
        (setup.config a).localLimit c < (((w.update a k v).caches k).classes c).totalLen →
          (setup.config a).localLimit c < class_.totalLen := by
      intro v hv hlt
      rwa [World.update_caches_same, hv, ThreadCache.setClass_same] at hlt
    rw [ThreadCache.shouldDrain, hlimit, ThreadCache.setClass_same, decide_eq_true_iff]
    refine hcache _ ?_ hover
    split <;> rfl
  have hdrain' : ((w.view a k).cache.setClass c class_).shouldDrain c = true := hdrain
  rw [World.update_threads_same]
  dsimp only
  rw [if_pos hdrain']
  have hcount : ((w.caches k).classConfig c).drainCount = (setup.config a).drainCount c :=
    congrArg ClassCacheConfig.drainCount (congrFun htable c)
  rw [← hcount]
  rfl

/-- A free through the owning cache that takes the class over its limit drains it.  The drain moves
the configured count, or all there is, if and only if its one source has that many blocks. -/
theorem Setup.Reachable.drain_moves_iff (h : setup.Reachable w) {block : Nat}
    (ht : w.threads k = .busy a (.route c block (w.caches k).cacheId)) {advised : Bool × Bool}
    {w₁ : World ι κ FreeList Batch} (hstep : w.step setup.debug (.run k advised) = some w₁)
    (hover : (setup.config a).localLimit c < ((w₁.caches k).classes c).totalLen) :
    w₁.DrainMoves setup.debug k a c
        (min ((setup.config a).drainCount c) ((w₁.caches k).classes c).totalLen) ↔
      min ((setup.config a).drainCount c) ((w₁.caches k).classes c).totalLen ≤
        ((w₁.caches k).classes c).drainSource := by
  have ht₁ := h.over_limit ht hstep hover
  have hmoves := (h.step _ hstep).drain_moves ht₁
  obtain ⟨w₂, -, htotal, -⟩ := hmoves [] w₁ (true, true) (by simp) rfl
  constructor
  · intro hall
    have := hmoves.unique hall
    omega
  · intro hsource
    have heq : min ((setup.config a).drainCount c) ((w₁.caches k).classes c).totalLen =
        min ((setup.config a).drainCount c) ((w₁.caches k).classes c).drainSource := by
      omega
    rw [heq]
    exact hmoves

end Steps

/-! ### Two frees over the limit -/

/-- Slabs of four blocks, a limit of four and drains of two. -/
def spillSetup : Setup Unit Unit where
  debug := true
  pageSize := 4096
  config := fun _ => ⟨16384, 64, 512, 512⟩
  mapping := fun _ => 4096
  arena := fun _ => ⟨4096, 16384, 0, 64⟩
  cacheConfig := fun _ => ⟨16384, 64, 512, 512⟩
  cacheId := fun _ => 7
  pageSize_isPowerOfTwo := samplePageSize
  accepted := fun _ => rfl
  mapping_le := fun _ => by decide
  mapping_disjoint := fun a b h => absurd (Subsingleton.elim a b) h
  cacheId_lt := fun _ => by decide

/-- Five allocations take up a slab and begin a second one; then one is freed. -/
def spillStart (i : Nat) : List (Action Unit Unit) :=
  .allocate () () 10 :: List.replicate 6 (.run () (true, true)) ++
    (List.replicate 3 [.allocate () () 10, .run () (true, true), .run () (true, true)]).flatten ++
      .allocate () () 10 :: List.replicate 6 (.run () (true, true)) ++
        [.deallocate () () i none, .run () (true, true)]

/-- A second one is freed, up to its push. -/
def spillActions (i j : Nat) : List (Action Unit Unit) :=
  spillStart i ++ [.deallocate () () j none]

theorem spillActions_run_short :
    ((spillSetup.world FreeList Batch).runs true (spillActions 0 0)).isSome := by
  decide +kernel

theorem spillActions_run_full :
    ((spillSetup.world FreeList Batch).runs true (spillActions 4 3)).isSome := by
  decide +kernel

/-- What a free that has passed its checks has in its hands. -/
def Thread.route? : Thread ι κ Batch → Option (ι × SizeClass × Nat × Nat)
  | .busy a (.route c block owner) => some (a, c, block, owner)
  | _ => none

theorem Thread.eq_route {thread : Thread ι κ Batch} {a : ι} {c : SizeClass} {block owner : Nat}
    (h : thread.route? = some (a, c, block, owner)) : thread = .busy a (.route c block owner) := by
  cases thread with
  | idle last => cases h
  | busy b pc =>
    cases pc with
    | route d block' owner' =>
      obtain ⟨rfl, rfl, rfl, rfl⟩ := Option.some.inj h
      rfl
    | _ => cases h

/-- The first slab gets back one block and becomes the last one that has any: the drain moves one
block of five, when the configured count is two. -/
theorem drain_moves_short : ∃ w w₁ : World Unit Unit FreeList Batch, spillSetup.Reachable w ∧
    (∃ block, w.threads () = .busy () (.route .b64 block (w.caches ()).cacheId)) ∧
      w.step spillSetup.debug (.run () (true, true)) = some w₁ ∧
        (spillSetup.config ()).localLimit .b64 < ((w₁.caches ()).classes .b64).totalLen ∧
          ¬w₁.DrainMoves spillSetup.debug () () .b64 (min ((spillSetup.config ()).drainCount .b64)
            ((w₁.caches ()).classes .b64).totalLen) := by
  obtain ⟨w, hw⟩ : ∃ w, w = spillSetup.after (spillActions 0 0) spillActions_run_short := ⟨_, rfl⟩
  have hreachable : spillSetup.Reachable w := hw ▸ Setup.after_reachable spillActions_run_short
  have ht : w.threads () = .busy () (.route .b64 4224 7) := by
    apply Thread.eq_route
    rw [hw]
    decide +kernel
  have hcacheId : (w.caches ()).cacheId = 7 := by
    rw [hw]
    decide +kernel
  rw [← hcacheId] at ht
  obtain ⟨w₁, hstep⟩ := hreachable.progress ht (true, true)
  have hcache : (w.step true (.run () (true, true))).map (fun w =>
      (((w.caches ()).classes .b64).totalLen, ((w.caches ()).classes .b64).drainSource)) =
      some (5, 1) := by
    rw [hw]
    decide +kernel
  rw [show w.step true (.run () (true, true)) = some w₁ from hstep, Option.map_some] at hcache
  obtain ⟨htotal, hsource⟩ := Prod.mk.inj (Option.some.inj hcache)
  have hover : (spillSetup.config ()).localLimit .b64 < ((w₁.caches ()).classes .b64).totalLen := by
    rw [htotal]
    decide
  refine ⟨w, w₁, hreachable, ⟨4224, ht⟩, hstep, hover, fun hall => ?_⟩
  have hmoves := (hreachable.step _ hstep).drain_moves (hreachable.over_limit ht hstep hover)
  have hcounts := hmoves.unique hall
  rw [htotal, hsource] at hcounts
  exact absurd hcounts (by decide)

/-- The second slab gets the block back, and the drain moves the two. -/
theorem drain_moves_iff_sample : ∃ w₁ : World Unit Unit FreeList Batch, spillSetup.Reachable w₁ ∧
    ((w₁.caches ()).classes .b64).totalLen = 5 ∧ w₁.DrainMoves true () () .b64 2 := by
  obtain ⟨w, hw⟩ : ∃ w, w = spillSetup.after (spillActions 4 3) spillActions_run_full := ⟨_, rfl⟩
  have hreachable : spillSetup.Reachable w := hw ▸ Setup.after_reachable spillActions_run_full
  have ht : w.threads () = .busy () (.route .b64 4480 7) := by
    apply Thread.eq_route
    rw [hw]
    decide +kernel
  have hcacheId : (w.caches ()).cacheId = 7 := by
    rw [hw]
    decide +kernel
  rw [← hcacheId] at ht
  obtain ⟨w₁, hstep⟩ := hreachable.progress ht (true, true)
  have hcache : (w.step true (.run () (true, true))).map (fun w =>
      (((w.caches ()).classes .b64).totalLen, ((w.caches ()).classes .b64).drainSource)) =
      some (5, 4) := by
    rw [hw]
    decide +kernel
  rw [show w.step true (.run () (true, true)) = some w₁ from hstep, Option.map_some] at hcache
  obtain ⟨htotal, hsource⟩ := Prod.mk.inj (Option.some.inj hcache)
  have hover : (spillSetup.config ()).localLimit .b64 < ((w₁.caches ()).classes .b64).totalLen := by
    rw [htotal]
    decide
  have hall := (hreachable.drain_moves_iff ht hstep hover).mpr (by rw [htotal, hsource]; decide)
  rw [htotal] at hall
  exact ⟨w₁, hreachable.step _ hstep, htotal, hall⟩

end Orthotope
