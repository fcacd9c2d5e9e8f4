import Orthotope.Frees

/-! What an allocation of a small class draws on: the blocks of its cache, then those of the central
pool and its inbox, and then the arena.  `Inv.allocate_small` says what such an allocation comes to
when it runs alone, with every block accounted for; that it fails only if all three are used up, and
then leaves every free block where it was, is part of it. -/

namespace Orthotope

open ByteMemory

variable {ι κ : Type}

namespace World

/-- The arenas, the large registries and the sets of free blocks are the same. -/
structure SameFree (w w' : World ι κ Seq Seq) : Prop where
  arena : ∀ a, (w'.allocators a).arena = (w.allocators a).arena
  large : ∀ a, (w'.allocators a).large = (w.allocators a).large
  classes : ∀ k c, ((w'.caches k).classes c).bag = ((w.caches k).classes c).bag
  staged : ∀ k c, ((w'.caches k).remoteReturns c).pending = ((w.caches k).remoteReturns c).pending
  pool : ∀ a c, (w'.allocators a).central.freeBag c = (w.allocators a).central.freeBag c

variable {w w' : World ι κ Seq Seq} {a : ι} {k : κ} {v : View ι κ Seq Seq}

theorem SameFree.refl (w : World ι κ Seq Seq) : SameFree w w :=
  ⟨fun _ => rfl, fun _ => rfl, fun _ _ => rfl, fun _ _ => rfl, fun _ _ => rfl⟩

variable [DecidableEq ι] [DecidableEq κ]

theorem SameFree.update (h : SameFree w w') (harena : v.allocator.arena = (w'.allocators a).arena)
    (hlarge : v.allocator.large = (w'.allocators a).large)
    (hcache : ∀ c, (v.cache.classes c).bag = ((w'.caches k).classes c).bag ∧
      (v.cache.remoteReturns c).pending = ((w'.caches k).remoteReturns c).pending)
    (hpool : ∀ c, v.allocator.central.freeBag c = (w'.allocators a).central.freeBag c) :
    SameFree w (w'.update a k v) where
  arena b := by
    rw [← h.arena b]
    by_cases hb : b = a
    · subst hb
      rw [update_allocators_same, harena]
    · rw [update_allocators_ne _ _ hb]
  large b := by
    rw [← h.large b]
    by_cases hb : b = a
    · subst hb
      rw [update_allocators_same, hlarge]
    · rw [update_allocators_ne _ _ hb]
  classes j d := by
    rw [← h.classes j d]
    by_cases hj : j = k
    · subst hj
      rw [update_caches_same, (hcache d).1]
    · rw [update_caches_ne _ _ hj]
  staged j d := by
    rw [← h.staged j d]
    by_cases hj : j = k
    · subst hj
      rw [update_caches_same, (hcache d).2]
    · rw [update_caches_ne _ _ hj]
  pool b d := by
    rw [← h.pool b d]
    by_cases hb : b = a
    · subst hb
      rw [update_allocators_same, hpool]
    · rw [update_allocators_ne _ _ hb]

/-- A step that changes neither the allocator nor the cache. -/
theorem SameFree.still (h : SameFree w w') (hallocator : v.allocator = w'.allocators a)
    (hcache : v.cache = w'.caches k) : SameFree w (w'.update a k v) :=
  h.update (by rw [hallocator]) (by rw [hallocator]) (fun c => by rw [hcache]; exact ⟨rfl, rfl⟩)
    fun c => by rw [hallocator]

end World

/-! ### The arena -/

section Arena

variable {setup : Setup ι κ} {s : World ι κ Seq Seq} {a : ι} {k : κ}

/-- What a step that reserves blocks comes to: not one fits, or as many as are wanted and fit. -/
theorem Inv.carve_cases (inv : Inv setup s) {debug : Bool} {advised : Bool × Bool} {c : SizeClass}
    {size : Nat} {v : View ι κ Seq Seq}
    (hv : (s.view a k).next debug advised a k (.carve c size) = some v) :
    (¬(s.allocators a).arena.HasRoom ((s.allocators a).config.classBlockSize c) ∧
      v = (s.view a k).goto a (.report size)) ∨
    ∃ span arena n, (s.allocators a).arena.HasRoom ((s.allocators a).config.classBlockSize c) ∧
      Arena.Reserves (s.allocators a).arena span arena ∧ 0 < n ∧
      n ≤ (s.allocators a).config.refillCount c ∧
      span.size = n * (s.allocators a).config.classBlockSize c ∧
      v = ((s.view a k).setArena arena).goto a (.carved c size span) := by
  have hparts := inv.parts.allocator a
  obtain ⟨-, hnew⟩ := setup.arena_new a
  obtain ⟨answer, hres, hnone⟩ := Arena.reserveBlockSpan_total hnew hparts.next_le
    ((s.allocators a).config.classBlockSize_pos c) ((s.allocators a).config.refillCount_pos c)
  rw [← hparts.arena_eq] at hres hnone
  simp only [View.next, World.view, hres] at hv
  obtain ⟨_ | span, arena⟩ := answer
  · obtain rfl := Option.some.inj hv
    exact Or.inl ⟨hnone.mp rfl, rfl⟩
  · obtain rfl := Option.some.inj hv
    obtain ⟨hreserves, n, hn, hle, hsize⟩ := Arena.reserveBlockSpan_ok hres
    refine Or.inr ⟨span, arena, n, ?_, hreserves, hn, hle, hsize, rfl⟩
    by_contra hroom
    cases hnone.mpr hroom

end Arena

/-! ### One allocation -/

section Draw

variable {setup : Setup ι κ} {o s : World ι κ Seq Seq} {a : ι} {k : κ} {c : SizeClass} {size : Nat}

/-- Neither the cache nor the pool has a block of the class. -/
def World.Exhausted (o : World ι κ Seq Seq) (a : ι) (k : κ) (c : SizeClass) : Prop :=
  ((o.caches k).classes c).bag = 0 ∧ (o.allocators a).central.freeBag c = 0

instance (o : World ι κ Seq Seq) (a : ι) (k : κ) (c : SizeClass) : Decidable (o.Exhausted a k c) :=
  inferInstanceAs (Decidable (_ ∧ _))

/-- The arena has room for another block of the class. -/
def World.HasRoom (o : World ι κ Seq Seq) (a : ι) (c : SizeClass) : Prop :=
  (o.allocators a).arena.HasRoom ((o.allocators a).config.classBlockSize c)

/-- Where the blocks in the hands of the allocation, the cache and the pool are from: they are those
that were there in `o`, and the arena is as it was, or there were none and the arena had room. -/
def World.Supplied (o s : World ι κ Seq Seq) (a : ι) (k : κ) (c : SizeClass)
    (hand : Multiset Nat) : Prop :=
  (s.allocators a).arena = (o.allocators a).arena ∧
      hand + (((s.caches k).classes c).bag + (s.allocators a).central.freeBag c) =
        ((o.caches k).classes c).bag + (o.allocators a).central.freeBag c ∨
    o.Exhausted a k c ∧ o.HasRoom a c

/-- How far an allocation of `size`, of class `c`, that began in `o` has come in `s`. -/
inductive Draw (o s : World ι κ Seq Seq) (a : ι) (k : κ) (c : SizeClass) (size : Nat) :
    Thread ι κ Seq → Prop
  | refill (same : o.SameFree s) (hheld : ((o.caches k).classes c).bag = 0) :
      Draw o s a k c size (.busy a (.refill c size))
  | gotBatch {batch : Seq} (supplied : o.Supplied s a k c batch) :
      Draw o s a k c size (.busy a (.gotBatch c size batch))
  | gotSlab {start blockSize capacity : Nat}
      (supplied : o.Supplied s a k c (slabBlocks start blockSize capacity)) :
      Draw o s a k c size (.busy a (.gotSlab c size start blockSize capacity))
  | carve (same : o.SameFree s) (exhausted : o.Exhausted a k c) :
      Draw o s a k c size (.busy a (.carve c size))
  | carved {span : ReservedSpan} (exhausted : o.Exhausted a k c) (hroom : o.HasRoom a c) :
      Draw o s a k c size (.busy a (.carved c size span))
  | registered {start blockSize capacity : Nat} (exhausted : o.Exhausted a k c)
      (hroom : o.HasRoom a c) :
      Draw o s a k c size (.busy a (.registered c size start blockSize capacity))
  | pop (supplied : o.Supplied s a k c 0) : Draw o s a k c size (.busy a (.pop c size))
  | popped {block : Nat} {reuse : BlockReuse} (supplied : o.Supplied s a k c {block}) :
      Draw o s a k c size (.busy a (.popped c size block reuse))
  | report (same : o.SameFree s) (exhausted : o.Exhausted a k c) (hroom : ¬o.HasRoom a c) :
      Draw o s a k c size (.busy a (.report size))
  | allocated {block : Nat} (supplied : o.Supplied s a k c {block})
      (live : s.live = o.live ++ [⟨a, k, userPtrFromBlockStart block, size, fun _ => none⟩]) :
      Draw o s a k c size (.idle (some (.allocated (userPtrFromBlockStart block))))
  | failed (same : o.SameFree s) (exhausted : o.Exhausted a k c) (hroom : ¬o.HasRoom a c)
      (live : s.live = o.live) : Draw o s a k c size
        (.idle (some (.allocError (.outOfMemory size (o.allocators a).arena.remaining))))

/-- The allocation is on its way on a bound cache, and nothing else has happened to the clients. -/
structure Drawing (o s : World ι κ Seq Seq) (a : ι) (k : κ) (c : SizeClass)
    (size : Nat) : Prop where
  owner : (s.caches k).owner = some a
  live : ∀ b pc, s.threads k = .busy b pc → s.live = o.live
  config : (s.allocators a).config = (o.allocators a).config
  draw : Draw o s a k c size (s.threads k)

variable [DecidableEq ι] [DecidableEq κ]

theorem World.Supplied.hand {hand hand' : Multiset Nat} (h : o.Supplied s a k c hand)
    {v : View ι κ Seq Seq} (harena : v.allocator.arena = (s.allocators a).arena)
    (hbag : hand' + ((v.cache.classes c).bag + v.allocator.central.freeBag c) =
      hand + (((s.caches k).classes c).bag + (s.allocators a).central.freeBag c)) :
    o.Supplied (s.update a k v) a k c hand' := by
  rcases h with ⟨h₁, h₂⟩ | h
  · refine Or.inl ⟨?_, ?_⟩
    · rw [World.update_allocators_same, harena, h₁]
    · rw [World.update_allocators_same, World.update_caches_same, hbag, h₂]
  · exact Or.inr h

omit [DecidableEq ι] [DecidableEq κ] in
theorem View.resume_live (v : View ι κ Seq Seq) (a : ι) (resume : Resume) :
    (v.resume a resume).live = v.live := by
  cases resume <;> rfl

omit [DecidableEq ι] [DecidableEq κ] in
theorem Transition.owner_eq {debug : Bool} {pc : Pc ι κ Seq} {v : View ι κ Seq Seq}
    (h : Transition debug s a k pc v) : v.cache.owner = (s.caches k).owner := by
  have hresume : ∀ (v : View ι κ Seq Seq) (r : Resume), (v.resume a r).cache = v.cache :=
    fun v r => (v.resume_frame a r).2.1
  cases h with
  | unstageNone _ => rw [hresume]; rfl
  | publish => rw [hresume]; rfl
  | returnBatch => rw [hresume]; rfl
  | _ => rfl

omit [DecidableEq ι] [DecidableEq κ] in
theorem Transition.config_eq {debug : Bool} {pc : Pc ι κ Seq} {v : View ι κ Seq Seq}
    (h : Transition debug s a k pc v) : v.allocator.config = (s.allocators a).config := by
  have hresume : ∀ (v : View ι κ Seq Seq) (r : Resume), (v.resume a r).allocator = v.allocator :=
    fun v r => (v.resume_frame a r).2.2.1
  cases h with
  | unstageNone _ => rw [hresume]; rfl
  | publish => rw [hresume]; rfl
  | returnBatch => rw [hresume]; rfl
  | _ => rfl

/-- What a step does to an allocation on its way. -/
theorem Draw.step {debug : Bool} {advised : Bool × Bool} {b : ι} {pc : Pc ι κ Seq}
    {v : View ι κ Seq Seq} (inv : Inv setup s) (hlive : s.live = o.live)
    (hconfig : (s.allocators a).config = (o.allocators a).config)
    (d : Draw o s a k c size (.busy b pc)) (hv : (s.view b k).next debug advised b k pc = some v)
    (htrans : Transition debug s b k pc v) : Draw o (s.update b k v) a k c size v.thread := by
  cases htrans with
  | @refill _ _ m central r h =>
    cases d with
    | refill same hheld =>
      have hpool := h.freeBag
      have hsupplied : o.Supplied (s.update a k ((((s.view a k).setMem m).setCentral central).goto a
          (r.pc c size))) a k c r.blocks := by
        refine Or.inl ⟨?_, ?_⟩
        · rw [World.update_allocators_same, ← same.arena a]
          rfl
        · rw [World.update_allocators_same, World.update_caches_same, ← same.classes k c,
            ← same.pool a c, hpool]
          exact add_left_comm ..
      cases r with
      | batch blocks => exact .gotBatch hsupplied
      | slab start blockSize capacity => exact .gotSlab hsupplied
      | empty =>
        have hzero : central.freeBag c = 0 := by
          unfold CentralPool.freeBag
          rw [h.inbox, h.ofEmpty rfl, add_zero]
        have hnone : (s.allocators a).central.freeBag c = 0 := by
          rw [hpool, hzero]
          rfl
        refine .carve (same.update rfl rfl (fun _ => ⟨rfl, rfl⟩) fun d => ?_)
          ⟨hheld, by rw [← same.pool, hnone]⟩
        by_cases hd : d = c
        · rw [hd, hnone]
          exact hzero
        · exact h.only.freeBag_eq hd
  | @takeBatch _ _ batch class_ hinv shapes owned fresh shared hbatch =>
    cases d with
    | gotBatch supplied =>
      have hbag : class_.bag = (batch : Multiset Nat) + ((s.caches k).classes c).bag := by
        rw [LocalClassCache.bag, owned, fresh, shared, add_left_comm]
        rfl
      refine .pop (supplied.hand rfl ?_)
      simp only [View.goto, View.setCache, World.view, ThreadCache.setClass_same, hbag]
      rw [zero_add, add_assoc]
  | @takeSlab d _ start blockSize capacity class_ _ hpc hinv shapes owned fresh shared hcap =>
    have hbag : class_.bag = (slabBlocks start blockSize capacity : Multiset Nat) +
        ((s.caches k).classes d).bag := by
      rw [LocalClassCache.bag, owned, fresh, shared, LocalClassCache.bag]
      ac_rfl
    rcases hpc with rfl | rfl
    · cases ‹Draw o s _ _ _ _ _› with
      | gotSlab supplied =>
        refine .pop (supplied.hand rfl ?_)
        simp only [View.goto, View.setCache, World.view, ThreadCache.setClass_same, hbag]
        rw [zero_add, add_assoc]
    · cases ‹Draw o s _ _ _ _ _› with
      | registered exhausted hroom => exact .pop (Or.inr ⟨exhausted, hroom⟩)
  | carve h hn hsize =>
    cases d with
    | carve same exhausted =>
      rcases inv.carve_cases hv with ⟨-, h⟩ | ⟨_, _, _, hroom, -, -, -, -, -⟩
      · cases congrArg View.thread h
      · refine .carved exhausted ?_
        unfold World.HasRoom
        rw [← same.arena a, ← hconfig]
        exact hroom
  | carveNone =>
    cases d with
    | carve same exhausted =>
      rcases inv.carve_cases hv with ⟨hroom, -⟩ | ⟨_, _, _, -, -, -, -, -, h⟩
      · refine .report (same.still rfl rfl) exhausted ?_
        unfold World.HasRoom
        rw [← same.arena a, ← hconfig]
        exact hroom
      · cases congrArg View.thread h
  | carveFail =>
    rcases inv.carve_cases hv with ⟨-, h⟩ | ⟨_, _, _, -, -, -, -, -, h⟩
    · cases congrArg View.thread h
    · cases congrArg View.thread h
  | register hn hsize h =>
    cases d with
    | carved exhausted hroom => exact .registered exhausted hroom
  | @pop _ _ block _ class_ hinv shapes takes =>
    cases d with
    | pop supplied =>
      refine .popped (supplied.hand rfl ?_)
      simp only [View.goto, View.setCache, World.view, ThreadCache.setClass_same, takes.bag]
      rw [zero_add, ← Multiset.singleton_add, add_assoc]
  | give =>
    cases d with
    | popped supplied =>
      refine .allocated (supplied.hand rfl rfl) ?_
      show s.live ++ _ = _
      rw [hlive]
  | report =>
    cases d with
    | report same exhausted hroom =>
      have harena : (s.allocators a).arena.remaining = (o.allocators a).arena.remaining :=
        congrArg Arena.remaining (same.arena a)
      show Draw o _ a k c size
        (.idle (some (.allocError (.outOfMemory size (s.allocators a).arena.remaining))))
      rw [harena]
      exact .failed (same.still rfl rfl) exhausted hroom hlive
  | _ => cases d

theorem Drawing.step {debug : Bool} {advised : Bool × Bool} {b : ι} {pc : Pc ι κ Seq}
    {v : View ι κ Seq Seq} (inv : Inv setup s) (d : Drawing o s a k c size)
    (ht : s.threads k = .busy b pc) (hv : (s.view b k).next debug advised b k pc = some v)
    (htrans : Transition debug s b k pc v) : Drawing o (s.update b k v) a k c size := by
  have hdraw : Draw o s a k c size (.busy b pc) := ht ▸ d.draw
  obtain rfl : b = a := by cases hdraw <;> rfl
  refine ⟨?_, fun b' pc' hbusy => ?_, ?_, ?_⟩
  · rw [World.update_caches_same, htrans.owner_eq, d.owner]
  · rw [World.update_threads_same] at hbusy
    rw [World.update_live, ← d.live b pc ht]
    cases htrans with
    | give => cases hbusy
    | record => cases hbusy
    | refuse => cases hbusy
    | unstageNone _ => exact View.resume_live ..
    | publish => exact View.resume_live ..
    | returnBatch => exact View.resume_live ..
    | _ => rfl
  · rw [World.update_allocators_same, htrans.config_eq, d.config]
  · rw [World.update_threads_same]
    exact hdraw.step inv (d.live b pc ht) d.config hv htrans

/-- An allocation from `o` has got a block. -/
structure Allocated (o s : World ι κ Seq Seq) (a : ι) (k : κ) (c : SizeClass) (size block : Nat) :
    Prop where
  thread : s.threads k = .idle (some (.allocated (userPtrFromBlockStart block)))
  supplied : o.Supplied s a k c {block}
  live : s.live = o.live ++ [⟨a, k, userPtrFromBlockStart block, size, fun _ => none⟩]

/-- An allocation from `o` has failed. -/
structure Refused (o s : World ι κ Seq Seq) (a : ι) (k : κ) (c : SizeClass)
    (size : Nat) : Prop where
  thread : s.threads k = .idle (some (.allocError (.outOfMemory size
    (o.allocators a).arena.remaining)))
  exhausted : o.Exhausted a k c
  noRoom : ¬o.HasRoom a c
  same : o.SameFree s
  live : s.live = o.live

omit [DecidableEq ι] [DecidableEq κ] in
theorem Drawing.ended (d : Drawing o s a k c size) {last : Option Outcome}
    (ht : s.threads k = .idle last) :
    (∃ block, Allocated o s a k c size block) ∨ Refused o s a k c size := by
  have hdraw : Draw o s a k c size (.idle last) := ht ▸ d.draw
  cases hdraw with
  | allocated supplied live => exact Or.inl ⟨_, ht, supplied, live⟩
  | failed same exhausted hroom live => exact Or.inr ⟨ht, exhausted, hroom, same, live⟩

omit [DecidableEq κ] in
/-- Binding a cache leaves the blocks in it as they are: one that is bound anew is empty. -/
theorem Parts.bind_same (parts : Parts setup s) {config : AllocatorConfig}
    {cache : ThreadCache ι Seq} (hbind : (s.caches k).bindToAllocator a config = some cache)
    (c : SizeClass) : (cache.classes c).bag = ((s.caches k).classes c).bag ∧
      (cache.remoteReturns c).pending = ((s.caches k).remoteReturns c).pending := by
  rcases ThreadCache.bindToAllocator_cases hbind with rfl | hnew
  · exact ⟨rfl, rfl⟩
  · unfold ThreadCache.bindToAllocator at hbind
    split at hbind
    · obtain rfl := Option.some.inj hbind
      exact ⟨rfl, rfl⟩
    · split at hbind
      · cases hbind
      · rename_i hempty
        obtain ⟨hheld, hstaged⟩ := (parts.isEmpty_iff k).mp (by simpa using hempty) c
        rw [(hnew c).1, (hnew c).2, hheld, hstaged]
        exact ⟨LocalClassCache.new_bag, rfl⟩

/-- What an allocation of a small class comes to when it runs alone. -/
theorem Inv.allocate_small (inv : Inv setup s) {last : Option Outcome}
    (ht : s.threads k = .idle last)
    (hcache : (s.caches k).owner = some a ∨ (s.caches k).isEmpty = true)
    (hc : SizeClass.fromRequest size = some c) :
    s.Calls setup.debug k (.allocate k a size) fun s' => Inv setup s' ∧
      (s'.caches k).owner = some a ∧ (s'.allocators a).config = (s.allocators a).config ∧
        ((∃ block, Allocated s s' a k c size block) ∨ Refused s s' a k c size) := by
  suffices hcalls : s.Calls setup.debug k (.allocate k a size) fun s' =>
      Inv setup s' ∧ Drawing s s' a k c size from
    hcalls.idle.mono fun s' ⟨_, ht', inv', d⟩ => ⟨inv', d.owner, d.config, d.ended ht'⟩
  obtain ⟨hpos, -⟩ := SizeClass.fromRequest_spec hc
  obtain ⟨cache, hbind⟩ : ∃ cache, (s.caches k).bindToAllocator a (s.allocators a).config =
    some cache := ThreadCache.bindToAllocator_isSome hcache
  have hbag := inv.parts.bind_same hbind
  obtain ⟨v, hv⟩ : ∃ v, v = ((s.view a k).setCache cache).startAllocate a size := ⟨_, rfl⟩
  have hstep : s.step setup.debug (.allocate k a size) = some (s.update a k v) := by
    rw [hv]
    exact World.call_eq ht hbind fun v => v.startAllocate a size
  have hgoto : v = ((s.view a k).setCache cache).goto a
      (if (cache.classes c).isEmpty then .refill c size else .pop c size) := by
    rw [hv]
    simp only [View.startAllocate, Nat.ne_of_gt hpos, if_false, hc]
    rfl
  have inv' := inv.step hstep
  refine ⟨_, hstep, Inv.ends_next (fun inv d ht hv htrans => d.step inv ht hv htrans) inv'
    ⟨?_, ?_, ?_, ?_⟩⟩
  · rw [World.update_caches_same, hgoto]
    exact ThreadCache.bindToAllocator_owner hbind
  · rw [hgoto]
    exact fun _ _ _ => rfl
  · rw [World.update_allocators_same, hgoto]
    rfl
  · have hlen := ((inv'.parts.cache k).class_inv c).totalLen_eq
    rw [World.update_caches_same, hgoto] at hlen
    have hlen : (cache.classes c).totalLen = (cache.classes c).bag.card := hlen
    rw [World.update_threads_same, hgoto]
    by_cases hempty : (cache.classes c).isEmpty = true
    · rw [if_pos hempty]
      have hzero : (cache.classes c).bag = 0 := by
        rw [← Multiset.card_eq_zero, ← hlen]
        simpa [LocalClassCache.isEmpty] using hempty
      refine .refill ((World.SameFree.refl s).update rfl rfl hbag fun _ => rfl) ?_
      rw [← (hbag c).1, hzero]
    · rw [if_neg hempty]
      refine .pop (Or.inl ⟨?_, ?_⟩)
      · rw [World.update_allocators_same]
        rfl
      · rw [World.update_allocators_same, World.update_caches_same, zero_add, ← (hbag c).1]
        rfl

end Draw

/-! ### In the code -/

section Code

variable {setup : Setup ι κ} {w w' : World ι κ FreeList Batch} {s s' : World ι κ Seq Seq}

theorem Refines.config_eq (h : Refines w s) (a : ι) :
    (w.allocators a).config = (s.allocators a).config := by
  rw [h.code]
  rfl

theorem Refines.arena_eq (h : Refines w s) (a : ι) :
    (w.allocators a).arena = (s.allocators a).arena := by
  rw [h.code]
  rfl

theorem Refines.owner_eq (h : Refines w s) (k : κ) : (w.caches k).owner = (s.caches k).owner := by
  rw [h.code]
  rfl

theorem Refines.exhausted_iff (h : Refines w s) {a : ι} {k : κ} {c : SizeClass} :
    w.contents.Exhausted a k c ↔ s.Exhausted a k c := by
  rw [h.contents_eq]
  rfl

theorem Refines.hasRoom_iff (h : Refines w s) {a : ι} {c : SizeClass} : s.HasRoom a c ↔
    ¬(w.allocators a).arena.len - alignUp (w.allocators a).arena.next
    (w.allocators a).arena.alignment <
      (w.allocators a).config.classBlockSize c := by
  have hpos := (s.allocators a).config.classBlockSize_pos c
  rw [h.arena_eq, h.config_eq, World.HasRoom, Arena.HasRoom]
  omega

theorem Refines.idle_of (h : Refines w s) {k : κ} {last : Option Outcome}
    (ht : s.threads k = .idle last) : w.threads k = .idle last := by
  rw [h.threads_eq, ht]
  rfl

variable [DecidableEq ι] [DecidableEq κ]

/-- A small allocation by a bound cache, while nobody else does anything, fails exactly when its
cache, the central pool and the arena are used up. -/
theorem Setup.Reachable.out_of_memory (h : setup.Reachable w) {a : ι} {k : κ} {c : SizeClass}
    {size : Nat} {last : Option Outcome} (ht : w.threads k = .idle last)
    (howner : (w.caches k).owner = some a) (hc : SizeClass.fromRequest size = some c) :
    w.Calls setup.debug k (.allocate k a size) (fun w' =>
      ((∃ requested remaining, w'.threads k =
          .idle (some (.allocError (.outOfMemory requested remaining)))) ↔
        w.contents.Exhausted a k c ∧ (w.allocators a).arena.len -
          alignUp (w.allocators a).arena.next (w.allocators a).arena.alignment <
            (w.allocators a).config.classBlockSize c) ∧
      (∀ requested remaining, w'.threads k =
          .idle (some (.allocError (.outOfMemory requested remaining))) →
        requested = size ∧
          remaining = (w.allocators a).arena.len - (w.allocators a).arena.next) ∧
      (¬(w.contents.Exhausted a k c ∧ (w.allocators a).arena.len -
          alignUp (w.allocators a).arena.next (w.allocators a).arena.alignment <
            (w.allocators a).config.classBlockSize c) →
        ∃ ptr, w'.threads k = .idle (some (.allocated ptr))) ∧
      ((w'.allocators a).arena.next ≠ (w.allocators a).arena.next →
        w.contents.Exhausted a k c)) ∧
    ∀ j b d requested start blockSize capacity,
      w.threads j = .busy b (.registered d requested start blockSize capacity) → capacity ≠ 0 := by
  obtain ⟨s, hs, hrefines⟩ := h.refines
  refine ⟨?_, fun j b d requested start blockSize capacity hbusy => ?_⟩
  · have hcalls := hs.inv.allocate_small (hrefines.idle_last ht)
      (Or.inl (hrefines.owner_eq k ▸ howner)) hc
    refine World.Calls.mono (hrefines.calls hs.inv rfl hcalls) fun w' hw' => ?_
    obtain ⟨s', hrefines', -, -, -, hend⟩ := hw'
    rw [hrefines.exhausted_iff, ← not_not (a := (_ < _)), ← hrefines.hasRoom_iff,
      hrefines.arena_eq, hrefines'.arena_eq]
    rcases hend with ⟨block, hallocated⟩ | hrefused
    · have ht' := hrefines'.idle_of hallocated.thread
      have hcond : ¬(s.Exhausted a k c ∧ ¬s.HasRoom a c) := by
        rintro ⟨⟨hheld, hpool⟩, hroom⟩
        rcases hallocated.supplied with ⟨-, hbag⟩ | ⟨-, hroom'⟩
        · rw [hheld, hpool] at hbag
          exact absurd hbag (by simp)
        · exact hroom hroom'
      refine ⟨iff_of_false ?_ hcond, ?_, fun _ => ⟨_, ht'⟩, fun hmoved => ?_⟩
      · simp [ht']
      · simp [ht']
      · rcases hallocated.supplied with ⟨harena, -⟩ | ⟨hexhausted, -⟩
        · exact absurd (congrArg Arena.next harena) hmoved
        · exact hexhausted
    · have ht' := hrefines'.idle_of hrefused.thread
      have hcond : s.Exhausted a k c ∧ ¬s.HasRoom a c := ⟨hrefused.exhausted, hrefused.noRoom⟩
      refine ⟨iff_of_true ⟨_, _, ht'⟩ hcond, fun requested remaining heq => ?_, fun hn =>
        absurd hcond hn, fun _ => hrefused.exhausted⟩
      have heq := ht'.symm.trans heq
      simp only [Thread.idle.injEq, Option.some.injEq, Outcome.allocError.injEq,
        AllocError.outOfMemory.injEq] at heq
      exact ⟨heq.1.symm, heq.2.symm⟩
  · obtain ⟨pc, hpc, hmap⟩ := hrefines.busy hbusy
    cases pc with
    | registered =>
      obtain ⟨-, -, -, -, -, rfl⟩ := Pc.registered.inj hmap
      obtain ⟨-, -, -, hcap, -⟩ := hs.inv.parts.thread j b _ hpc
      exact Nat.ne_of_gt hcap
    | _ => cases hmap

/-- An arena of a single block of the smallest class. -/
def tinySetup : Setup Unit (Fin 2) where
  debug := true
  pageSize := 4096
  config := fun _ => ⟨128, 64, 256, 384⟩
  mapping := fun _ => 4096
  arena := fun _ => ⟨4096, 128, 0, 64⟩
  cacheConfig := fun _ => ⟨128, 64, 256, 384⟩
  cacheId := fun k => k.val
  pageSize_isPowerOfTwo := samplePageSize
  accepted := fun _ => rfl
  mapping_le := fun _ => by decide
  mapping_disjoint := fun a b h => absurd (Subsingleton.elim a b) h
  cacheId_lt := sampleCacheId_lt

theorem tiny_run : ((tinySetup.world FreeList Batch).runs true (sampleCarve 0 10)).isSome := by
  decide +kernel

/-- The second allocation of cache 0 fails: the only block of the arena is live. -/
theorem out_of_memory_sample :
    (tinySetup.after (sampleCarve 0 10) tiny_run).Calls true 0 (.allocate 0 () 20) fun w' =>
      w'.threads 0 = .idle (some (.allocError (.outOfMemory 20 0))) := by
  have hreachable : tinySetup.Reachable (tinySetup.after (sampleCarve 0 10) tiny_run) :=
    Setup.after_reachable tiny_run
  have ht : (tinySetup.after (sampleCarve 0 10) tiny_run).threads 0 =
      .idle (some (.allocated 4160)) := by rfl
  have hc : SizeClass.fromRequest 20 = some .b64 := rfl
  have hcalls := (hreachable.out_of_memory (a := ()) ht (by rfl) hc).1
  refine World.Calls.mono hcalls fun w' h => ?_
  obtain ⟨requested, remaining, hfail⟩ := h.1.mpr (by decide +kernel)
  obtain ⟨rfl, rfl⟩ := h.2.1 _ _ hfail
  exact hfail

end Code

end Orthotope
