import Orthotope.DrainBatch
import Orthotope.Refresh

/-! A free that an allocation of the same class follows.  The freed block becomes the hot block of
its cache; the block that it displaces goes to a slab or to the shared list, from where the drain of
the same free may take it on to the pool.  A drain leaves the hot block alone as long as there is
any other source, and a cache over its limit has one. -/

namespace Orthotope

open ByteMemory Ownership

variable {ι κ : Type}

/-! ### The hot block -/

namespace LocalClassCache

section Store

variable {L B : Type} [BlockStore L B] {cache cache' : LocalClassCache L} {m m' : Mem}

@[simp] theorem markSlabUnavailable_hotBlock (id : Nat) :
    (cache.markSlabUnavailable id).hotBlock = cache.hotBlock := by
  unfold markSlabUnavailable
  split
  · rfl
  · dsimp only
    split <;> rfl

/-- A drain takes the hot block only if there is no other source. -/
theorem popBatch_hotBlock {max : Nat} {c : SizeClass} {batch : B}
    (h : cache.popBatch m max c = some (m', batch, cache'))
    (hsource : cache.sharedLen ≠ 0 ∨ cache.availableSlabs ≠ []) :
    cache'.hotBlock = cache.hotBlock := by
  unfold popBatch at h
  split at h
  · obtain ⟨⟨m₁, batch₁, rest⟩, -, heq⟩ := Option.map_eq_some_iff.mp h
    obtain ⟨-, -, rfl⟩ := heq
    rfl
  · rename_i hshared
    split at h
    · obtain ⟨slab, -, h⟩ := Option.bind_eq_some_iff.mp h
      obtain ⟨⟨m₁, batch₁, slab'⟩, -, heq⟩ := Option.map_eq_some_iff.mp h
      obtain ⟨-, -, rfl⟩ := heq
      split
      · rfl
      · rw [markSlabUnavailable_hotBlock]
    · rename_i hlast
      exact absurd (List.getLast?_eq_none_iff.mp hlast) (hsource.resolve_left hshared)

end Store

/-- A cache with more blocks than the hot one has another source. -/
theorem Inv.has_source {cache : LocalClassCache Seq} (inv : cache.Inv) (h : 1 < cache.totalLen) :
    cache.sharedLen ≠ 0 ∨ cache.availableSlabs ≠ [] := by
  by_contra hnone
  obtain ⟨hshared, havailable⟩ := not_or.mp hnone
  obtain ⟨hfree, hfresh⟩ := inv.none_available (not_not.mp havailable)
  have hlen := inv.sharedLen_eq
  have hcard := inv.totalLen_eq
  have hhot : cache.hotBag.card ≤ 1 := by
    unfold hotBag
    cases cache.hotBlock <;> simp
  rw [bag, ownedBag, hfree, hfresh, sharedBag] at hcard
  simp only [add_zero, Multiset.card_add, Multiset.coe_card] at hcard
  omega

/-- The blocks of a class cache that are reclaimed and neither hot nor fresh. -/
def spilledBag (cache : LocalClassCache Seq) : Multiset Nat := cache.freeBag + cache.sharedBag

end LocalClassCache

/-- The spilled blocks and those of the pool are among the stored ones. -/
theorem LocalClassCache.spilledBag_le_stored (v : View ι κ Seq Seq) (c : SizeClass) :
    (v.cache.classes c).spilledBag + (v.allocator.central.lists c).bag ≤ v.stored c := by
  have hspilled : (v.cache.classes c).spilledBag ≤ (v.cache.classes c).bag := by
    rw [spilledBag, bag, ownedBag]
    refine add_le_add_left (?_ : _ ≤ _) _
    exact (Multiset.le_add_left _ _).trans (Multiset.le_add_right _ _)
  rw [View.stored]
  refine le_trans (add_le_add_left (hspilled.trans ?_) _) (Multiset.le_add_right _ _)
  exact Multiset.le_add_right _ _

/-! ### The free -/

section Free

variable {setup : Setup ι κ} {s : World ι κ Seq Seq} {a : ι} {k : κ} {c : SizeClass} {p : Nat}
  {displaced : Option Nat} {v : View ι κ Seq Seq} {advised : Bool × Bool}

/-- Where the free of block `p` by its own cache has come to, and where the hot block from before it
is then. -/
inductive Freeing (a : ι) (c : SizeClass) (p : Nat) (displaced : Option Nat)
    (cache : ThreadCache ι Seq) : Thread ι κ Seq → Prop
  | route (hdisplaced : (cache.classes c).hotBlock = displaced) :
      Freeing a c p displaced cache (.busy a (.route c p cache.cacheId))
  | excess {max : Nat} (hhot : (cache.classes c).hotBlock = some p)
      (hsource : (cache.classes c).sharedLen ≠ 0 ∨ (cache.classes c).availableSlabs ≠ [])
      (hdisplaced : ∀ d, displaced = some d → d ∈ (cache.classes c).spilledBag) :
      Freeing a c p displaced cache (.busy a (.excess c max .done))
  | returning {batch : Seq} (hhot : (cache.classes c).hotBlock = some p)
      (hdisplaced : ∀ d, displaced = some d → d ∈ (cache.classes c).spilledBag ∨ d ∈ batch) :
      Freeing a c p displaced cache (.busy a (.returning c batch .done))
  | freed (hhot : (cache.classes c).hotBlock = some p) :
      Freeing a c p displaced cache (.idle (some .freed))

/-- The push takes the displaced block to a slab or to the shared list. -/
theorem Freeing.push (inv : Inv setup s) (howner : (s.caches k).owner = some a)
    (ht : s.threads k = .busy a (.route c p (s.caches k).cacheId))
    (hdisplaced : ((s.caches k).classes c).hotBlock = displaced)
    (hv : (s.view a k).next setup.debug advised a k (.route c p (s.caches k).cacheId) = some v) :
    Freeing a c p displaced v.cache v.thread ∧
      ∀ d, displaced = some d → d ∈ (v.cache.classes c).spilledBag := by
  obtain ⟨class_, hinv, -, hhot, -, ⟨spilled, hown, hshared⟩, hnext⟩ :=
    next_push inv ht setup.debug advised
  obtain rfl := Option.some.inj (hv.symm.trans hnext)
  -- the hot block is new, so the old one is among those that left the hot slot
  have hspilled : ∀ d, displaced = some d → d ∈ class_.spilledBag := by
    rintro d rfl
    have hfree : class_.freeBag + spilled = d ::ₘ ((s.caches k).classes c).freeBag := by
      rw [LocalClassCache.ownedBag, LocalClassCache.ownedBag, LocalClassCache.hotBag,
        LocalClassCache.hotBag, hhot, hdisplaced, add_assoc, ← Multiset.singleton_add] at hown
      exact add_left_cancel hown
    have hd : d ∈ class_.freeBag + spilled := hfree ▸ Multiset.mem_cons_self ..
    rw [LocalClassCache.spilledBag, hshared]
    exact (Multiset.mem_add.mp hd).elim (fun h => Multiset.mem_add.mpr (Or.inl h))
      fun h => Multiset.mem_add.mpr (Or.inr (Multiset.mem_add.mpr (Or.inl h)))
  have hclass : ((s.caches k).setClass c class_).classes c = class_ := ThreadCache.setClass_same ..
  by_cases hdrain : ((s.caches k).setClass c class_).shouldDrain c = true
  · rw [if_pos hdrain]
    have hover : 1 < class_.totalLen := by
      have htable := (inv.parts.cache k).table a howner
      have hlimit := (setup.config a).two_le_localLimit c
      rw [ThreadCache.shouldDrain, decide_eq_true_iff, hclass] at hdrain
      have heq : (((s.caches k).setClass c class_).classConfig c).localLimit =
        (setup.config a).localLimit c := congrArg ClassCacheConfig.localLimit (congrFun htable c)
      omega
    refine ⟨.excess ?_ ?_ ?_, ?_⟩ <;> simp only [View.goto, View.setCache, hclass]
    · exact hhot
    · exact hinv.has_source hover
    · exact hspilled
    · exact hspilled
  · rw [if_neg hdrain]
    refine ⟨.freed ?_, ?_⟩ <;> simp only [View.finish, View.setCache, hclass]
    · exact hhot
    · exact hspilled

/-- The drain leaves the hot block and takes the displaced one along or not. -/
theorem Freeing.drain (inv : Inv setup s) {max : Nat}
    (ht : s.threads k = .busy a (.excess c max .done))
    (hhot : ((s.caches k).classes c).hotBlock = some p)
    (hsource : ((s.caches k).classes c).sharedLen ≠ 0 ∨
      ((s.caches k).classes c).availableSlabs ≠ [])
    (hdisplaced : ∀ d, displaced = some d → d ∈ ((s.caches k).classes c).spilledBag)
    (hv : (s.view a k).next setup.debug advised a k (.excess c max .done) = some v) :
    Freeing a c p displaced v.cache v.thread ∧
      ∃ batch, v.thread = .busy a (.returning c batch .done) := by
  obtain ⟨m, batch, class_, hpop, -, -, -, hdrains, hnext⟩ :=
    next_popBatch inv ht setup.debug advised
  obtain rfl := Option.some.inj (hv.symm.trans hnext)
  have hhot' := LocalClassCache.popBatch_hotBlock hpop hsource
  have hclass : ((s.caches k).setClass c class_).classes c = class_ := ThreadCache.setClass_same ..
  refine ⟨.returning ?_ ?_, batch, rfl⟩ <;> simp only [View.goto, View.setCache, hclass]
  · rw [hhot', hhot]
  · intro d hd
    obtain ⟨owned, fresh, shared, hbatch, howned, -, hshared, -⟩ := hdrains
    have hfree : ((s.caches k).classes c).freeBag = (owned : Multiset Nat) + class_.freeBag := by
      rw [LocalClassCache.ownedBag, LocalClassCache.ownedBag, LocalClassCache.hotBag,
        LocalClassCache.hotBag, hhot', add_left_comm] at howned
      exact add_left_cancel howned
    have hmem := hdisplaced d hd
    rw [LocalClassCache.spilledBag, hfree, hshared, add_add_add_comm] at hmem
    rcases Multiset.mem_add.mp hmem with hmem | hmem
    · refine Or.inr (Multiset.mem_coe.mp ?_)
      rw [hbatch, add_right_comm]
      exact Multiset.mem_add.mpr (Or.inl hmem)
    · exact Or.inl hmem

variable [DecidableEq ι] [DecidableEq κ]

/-- What a step of the free comes to; at its end the displaced block is in the cache or in the
pool. -/
theorem Freeing.step (inv : Inv setup s) {b : ι} {pc : Pc ι κ Seq} (ht : s.threads k = .busy b pc)
    (h : Freeing a c p displaced (s.caches k) (.busy b pc))
    (hv : (s.view b k).next setup.debug advised b k pc = some v) :
    Freeing a c p displaced v.cache v.thread ∧ (∀ last, v.thread = .idle last →
      ∀ d, displaced = some d →
        d ∈ (v.cache.classes c).spilledBag ∨ d ∈ (v.allocator.central.lists c).bag) := by
  obtain ⟨howner, -⟩ := inv.parts.thread k b _ ht
  cases h with
  | route hdisplaced =>
    obtain ⟨hfreeing, hspilled⟩ := Freeing.push inv howner ht hdisplaced hv
    exact ⟨hfreeing, fun _ _ d hd => Or.inl (hspilled d hd)⟩
  | excess hhot hsource hdisplaced =>
    obtain ⟨hfreeing, batch, hthread⟩ := Freeing.drain inv ht hhot hsource hdisplaced hv
    exact ⟨hfreeing, fun last hidle => by cases hthread.symm.trans hidle⟩
  | @returning batch hhot hdisplaced =>
    obtain ⟨v', hv', htrans⟩ : ∃ v', (s.view a k).next setup.debug advised a k
      (.returning c batch .done) = some v' ∧
        Transition setup.debug s a k (.returning c batch .done) v' := next_returning inv ht
    obtain rfl := Option.some.inj (hv.symm.trans hv')
    cases htrans with
    | returnBatch hreturned =>
      refine ⟨.freed hhot, fun _ _ d hd => (hdisplaced d hd).imp id fun hmem => ?_⟩
      have hbag := hreturned.bag ▸ Multiset.mem_add.mpr (Or.inl (Multiset.mem_coe.mpr hmem))
      exact hbag
    | takeSlab hpc => rcases hpc with hpc | hpc <;> cases hpc

/-- The free of a live small allocation by the cache it came from starts as one of its block. -/
theorem Inv.starts_freeing (inv : Inv setup s) {i : Nat} {e : Live ι κ} (he : s.live[i]? = some e)
    (hcache : e.cache = k) (hc : SizeClass.fromRequest e.size = some c) {last : Option Outcome}
    (ht : s.threads k = .idle last)
    (hbind : (s.caches k).owner = some e.alloc ∨ (s.caches k).isEmpty = true)
    {expectedSize : Option Nat} (hexpected : expectedSize = none ∨ expectedSize = some e.size) :
    ∃ s₁, s.step setup.debug (.deallocate k e.alloc i expectedSize) = some s₁ ∧
      (∃ b pc, s₁.threads k = .busy b pc) ∧ (s₁.caches k).owner = some e.alloc ∧
        Freeing e.alloc c (blockStartFromUserPtr e.ptr) ((s.caches k).classes c).hotBlock
          (s₁.caches k) (s₁.threads k) := by
  obtain ⟨cache, hcall⟩ : ∃ cache, (s.caches k).bindToAllocator e.alloc
    (s.allocators e.alloc).config = some cache := ThreadCache.bindToAllocator_isSome hbind
  obtain ⟨v, hv⟩ : ∃ v, v = View.startFree setup.debug e.alloc
    ((s.view e.alloc k).setCache cache) e (s.live.eraseIdx i) expectedSize := ⟨_, rfl⟩
  have hstart : s.step setup.debug (.deallocate k e.alloc i expectedSize) =
      some (s.update e.alloc k v) := by
    simp only [World.step, he, Option.bind_some, World.call_eq ht hcall, hv]
    rfl
  have hchecked : ∀ route, sizeChecked expectedSize e.size route = .ok route := by
    intro route
    rcases hexpected with rfl | rfl <;> simp [sizeChecked]
  have hcheck := inv.checkFree_small (a := e.alloc) (List.mem_of_getElem? he) hc setup.debug
    expectedSize
  rw [if_pos rfl, hchecked, hcache] at hcheck
  have hcheck : ((s.view e.alloc k).setCache cache).allocator.checkFree setup.debug
    ((s.view e.alloc k).setCache cache).mem e.ptr expectedSize = _ := hcheck
  have hthread : v.thread = .busy e.alloc (.route c (blockStartFromUserPtr e.ptr)
      (setup.cacheId k)) := by
    rw [hv, View.startFree, hcheck]
    rfl
  have hcache' : v.cache = cache := by
    rw [hv, View.startFree, hcheck]
    rfl
  have hid := ((inv.step hstart).parts.cache k).cacheId_eq
  have hhot : (cache.classes c).hotBlock = ((s.caches k).classes c).hotBlock := by
    rcases ThreadCache.bindToAllocator_cases hcall with rfl | hnew
    · rfl
    · -- a cache that was reset had been empty
      have hbag := (inv.parts.bind_same hcall c).1
      rw [(hnew c).1, LocalClassCache.new_bag] at hbag
      rw [(hnew c).1]
      cases hold : ((s.caches k).classes c).hotBlock with
      | none => rfl
      | some d =>
        have hd : d ∈ ((s.caches k).classes c).bag :=
          Multiset.mem_of_le (LocalClassCache.hotBag_le_bag _)
            (by simp [LocalClassCache.hotBag, hold])
        rw [← hbag] at hd
        exact absurd hd (Multiset.notMem_zero d)
  refine ⟨_, hstart, ?_, ?_, ?_⟩
  · rw [World.update_threads_same, hthread]
    exact ⟨_, _, rfl⟩
  · rw [World.update_caches_same, hcache']
    exact ThreadCache.bindToAllocator_owner hcall
  · rw [World.update_threads_same, hthread, ← hid, World.update_caches_same, hcache', ← hhot]
    exact .route rfl

/-- The free of a block by its own cache, from any point on, ends with the block in the hot slot and
the displaced one in the cache or in the pool. -/
theorem Freeing.ends (inv : Inv setup s) (h : Freeing a c p displaced (s.caches k) (s.threads k))
    (hbusy : ∃ b pc, s.threads k = .busy b pc) (howner : (s.caches k).owner = some a) :
    s.Ends setup.debug k fun s' => Inv setup s' ∧ (s'.caches k).owner = some a ∧
      Freeing a c p displaced (s'.caches k) (s'.threads k) ∧
        ∀ d, displaced = some d → d ∈ ((s'.caches k).classes c).spilledBag ∨
          d ∈ ((s'.allocators a).central.lists c).bag := by
  have hends := inv.ends_next (k := k) (J := fun s => (s.caches k).owner = some a ∧
    Freeing a c p displaced (s.caches k) (s.threads k) ∧
      (∀ last, s.threads k = .idle last → ∀ d, displaced = some d →
        d ∈ ((s.caches k).classes c).spilledBag ∨ d ∈ ((s.allocators a).central.lists c).bag)) ?_ ?_
  · refine hends.idle.mono fun s' hend => ?_
    obtain ⟨last, ht, inv', howner', hfreeing, hdisplaced⟩ := hend
    exact ⟨inv', howner', hfreeing, hdisplaced last ht⟩
  · intro s b pc v advised inv h ht hv htrans
    obtain ⟨howner, hfreeing, -⟩ := h
    obtain rfl : b = a := Option.some.inj ((inv.parts.thread k b _ ht).1.symm.trans howner)
    have hstep := Freeing.step inv ht (ht ▸ hfreeing) hv
    rw [World.update_caches_same, World.update_threads_same, World.update_allocators_same]
    exact ⟨htrans.owner_eq.trans howner, hstep⟩
  · obtain ⟨b, pc, ht⟩ := hbusy
    exact ⟨howner, h, fun last hidle => by cases ht.symm.trans hidle⟩

/-- A bound cache in its free of `p`. -/
def FreedBy (a : ι) (c : SizeClass) (p : Nat) (displaced : Option Nat) (thread : Thread ι κ Seq)
    (cache : ThreadCache ι Seq) : Prop :=
  cache.owner = some a ∧ Freeing a c p displaced cache thread

theorem freedBy_kept (setup : Setup ι κ) (k : κ) :
    KeptByNext setup k (FreedBy a c p displaced) := by
  intro s b pc v advised inv ht h hv
  have htrans := inv.transition ht hv
  exact ⟨htrans.owner_eq.trans h.1, (Freeing.step inv ht h.2 hv).1⟩

/-- The cache is idle after the free, with `p` in its hot slot. -/
def StaysHot (a : ι) (c : SizeClass) (p : Nat) (thread : Thread ι κ Seq)
    (cache : ThreadCache ι Seq) :
    Prop :=
  thread = .idle (some .freed) ∧ cache.owner = some a ∧ (cache.classes c).hotBlock = some p

omit [DecidableEq ι] [DecidableEq κ] in
theorem staysHot_kept (setup : Setup ι κ) (k : κ) : KeptByNext setup k (StaysHot a c p) := by
  intro s b pc v advised inv ht h hv
  cases h.1

end Free

/-! ### The allocation -/

section Retake

variable {setup : Setup ι κ} {s : World ι κ Seq Seq} {a : ι} {k : κ} {c : SizeClass} {p size : Nat}
  {v : View ι κ Seq Seq} {advised : Bool × Bool}

/-- Where an allocation that takes the hot block has come to. -/
inductive Retaking (a : ι) (c : SizeClass) (p size : Nat) (cache : ThreadCache ι Seq) :
    Thread ι κ Seq → Prop
  | pop (hhot : (cache.classes c).hotBlock = some p) :
      Retaking a c p size cache (.busy a (.pop c size))
  | popped : Retaking a c p size cache (.busy a (.popped c size p .hotReuseRequestedOnly))
  | allocated : Retaking a c p size cache (.idle (some (.allocated (userPtrFromBlockStart p))))

variable [DecidableEq ι] [DecidableEq κ]

/-- The next allocation of the class starts by taking the hot block. -/
theorem Inv.starts_retaking (inv : Inv setup s) {last : Option Outcome}
    (ht : s.threads k = .idle last) (howner : (s.caches k).owner = some a)
    (hhot : ((s.caches k).classes c).hotBlock = some p)
    (hsize : SizeClass.fromRequest size = some c) :
    ∃ s₁, s.step setup.debug (.allocate k a size) = some s₁ ∧
      (∃ b pc, s₁.threads k = .busy b pc) ∧
        Retaking a c p size (s₁.caches k) (s₁.threads k) := by
  obtain ⟨hpos, -⟩ := SizeClass.fromRequest_spec hsize
  have hbind : (s.caches k).bindToAllocator a (s.allocators a).config = some (s.caches k) :=
    if_pos howner
  have hnonempty : (s.caches k).needsRefill c = false := by
    have hlen := ((inv.parts.cache k).class_inv c).totalLen_eq
    have hcard : 0 < ((s.caches k).classes c).bag.card := Multiset.card_pos_iff_exists_mem.mpr
      ⟨p, Multiset.mem_of_le (LocalClassCache.hotBag_le_bag _)
        (by simp [LocalClassCache.hotBag, hhot])⟩
    rw [ThreadCache.needsRefill, LocalClassCache.isEmpty, beq_eq_false_iff_ne]
    omega
  have hstart : (s.view a k).startAllocate a size = (s.view a k).goto a (.pop c size) := by
    have hneeds : (s.view a k).cache.needsRefill c = false := hnonempty
    simp only [View.startAllocate, Nat.ne_of_gt hpos, if_false, hsize, hneeds, Bool.false_eq_true]
  have hstep : s.step setup.debug (.allocate k a size) =
      some (s.update a k ((s.view a k).goto a (.pop c size))) := by
    rw [← hstart]
    exact World.call_eq ht hbind fun v => v.startAllocate a size
  refine ⟨_, hstep, ?_, ?_⟩
  · rw [World.update_threads_same]
    exact ⟨_, _, rfl⟩
  · rw [World.update_threads_same, World.update_caches_same]
    exact .pop hhot

omit [DecidableEq ι] [DecidableEq κ] in
theorem Retaking.step {b : ι} {pc : Pc ι κ Seq}
    (h : Retaking a c p size (s.caches k) (.busy b pc))
    (hv : (s.view b k).next setup.debug advised b k pc = some v) :
    Retaking a c p size v.cache v.thread ∧ (∀ last, v.thread = .idle last →
      ⟨a, k, userPtrFromBlockStart p, size, fun _ => none⟩ ∈ v.live) := by
  cases h with
  | pop hhot =>
    have hpop : ((s.caches k).classes c).popBlockUnchecked s.mem = some (p, .hotReuseRequestedOnly,
        { (s.caches k).classes c with
          hotBlock := none
          totalLen := ((s.caches k).classes c).totalLen - 1 }) := by
      simp only [LocalClassCache.popBlockUnchecked, hhot]
    simp only [View.next, World.view, ThreadCache.popAvailableUnchecked, hpop, Option.map_some,
      Option.some.injEq] at hv
    subst hv
    exact ⟨.popped, fun last hidle => by cases hidle⟩
  | popped =>
    obtain rfl := Option.some.inj hv
    exact ⟨.allocated, fun _ _ => List.mem_append.mpr (Or.inr (List.mem_singleton_self _))⟩

omit [DecidableEq ι] [DecidableEq κ] in
theorem retaking_kept (setup : Setup ι κ) (k : κ) :
    KeptByNext setup k fun thread cache => Retaking a c p size cache thread :=
  fun _ _ h hv => (Retaking.step h hv).1

/-- From any point on the allocation ends with the block, live again with the new size. -/
theorem Retaking.ends (inv : Inv setup s) (h : Retaking a c p size (s.caches k) (s.threads k))
    (hbusy : ∃ b pc, s.threads k = .busy b pc) :
    s.Ends setup.debug k fun s' => Inv setup s' ∧
      s'.threads k = .idle (some (.allocated (userPtrFromBlockStart p))) ∧
        ⟨a, k, userPtrFromBlockStart p, size, fun _ => none⟩ ∈ s'.live := by
  have hends := inv.ends_next (k := k) (J := fun s =>
    Retaking a c p size (s.caches k) (s.threads k) ∧ (∀ last, s.threads k = .idle last →
      ⟨a, k, userPtrFromBlockStart p, size, fun _ => none⟩ ∈ s.live)) ?_ ?_
  · refine hends.idle.mono fun s' hend => ?_
    obtain ⟨last, ht, inv', hretaking, hlive⟩ := hend
    refine ⟨inv', ?_, hlive last ht⟩
    rw [ht] at hretaking ⊢
    cases hretaking
    rfl
  · intro s b pc v advised inv h ht hv htrans
    rw [World.update_caches_same, World.update_threads_same, World.update_live]
    exact Retaking.step (ht ▸ h.1) hv
  · obtain ⟨b, pc, ht⟩ := hbusy
    exact ⟨h, fun last hidle => by cases ht.symm.trans hidle⟩

end Retake

/-! ### Calls among others -/

variable [DecidableEq ι] [DecidableEq κ]

/-- The call that `action` starts on `k` can start.  Whatever others do while it lasts, it ends in a
state of `P` as soon as they let it. -/
def World.CallsAmong {L B : Type} [BlockStore L B] (debug : Bool) (k : κ) (action : Action ι κ)
    (P : World ι κ L B → Prop) (w : World ι κ L B) : Prop :=
  ∃ w₁, w.step debug action = some w₁ ∧ (∃ a pc, w₁.threads k = .busy a pc) ∧
    ∀ actions w₂, (∀ action ∈ actions, action.caller ≠ some k) → w₁.runs debug actions = some w₂ →
      (∃ a pc, w₂.threads k = .busy a pc) → w₂.Ends debug k P

section Rules

variable {L B : Type} [BlockStore L B] {debug : Bool} {k : κ} {action : Action ι κ}
  {P Q : World ι κ L B → Prop} {w : World ι κ L B}

theorem World.CallsAmong.mono (h : w.CallsAmong debug k action P) (hpq : ∀ w, P w → Q w) :
    w.CallsAmong debug k action Q := by
  obtain ⟨w₁, hstep, hbusy, hends⟩ := h
  exact ⟨w₁, hstep, hbusy, fun actions w₂ hothers hruns hbusy₂ =>
    (hends actions w₂ hothers hruns hbusy₂).mono hpq⟩

theorem World.CallsAmong.idle (h : w.CallsAmong debug k action P) :
    w.CallsAmong debug k action fun w => ∃ outcome, w.threads k = .idle outcome ∧ P w := by
  obtain ⟨w₁, hstep, hbusy, hends⟩ := h
  exact ⟨w₁, hstep, hbusy, fun actions w₂ hothers hruns hbusy₂ =>
    (hends actions w₂ hothers hruns hbusy₂).idle⟩

end Rules

section Code

variable {setup : Setup ι κ} {w : World ι κ FreeList Batch} {s s₁ : World ι κ Seq Seq} {k : κ}
  {c : SizeClass}

omit [DecidableEq ι] [DecidableEq κ] in
/-- The header of a live small allocation. -/
theorem Refines.liveSmall (inv : Inv setup s) (h : Refines w s) {entry : Live ι κ}
    (hmem : entry ∈ s.live) (hc : SizeClass.fromRequest entry.size = some c) :
    LiveSmall w.mem c (blockStartFromUserPtr entry.ptr) entry.size (setup.cacheId entry.cache) := by
  have hal := (inv.ledger.inArena _ _ (Live.mem_client hmem hc)).aligned
  apply ((inv.memory.entry none entry hmem).small c hc).congr (h.sameFields inv hal)
  exact StaysResident.of_le fun _ _ hlazy => h.agree.lazyAt hlazy

/-- The rule for a call among others. -/
theorem Refines.calls_among {K : Thread ι κ Seq → ThreadCache ι Seq → Prop}
    {P : World ι κ Seq Seq → Prop} (h : Refines w s) (inv : Inv setup s) (hK : KeptByNext setup k K)
    {action : Action ι κ} (hcaller : action.caller = some k)
    (hstart : s.step setup.debug action = some s₁) (hbusy : ∃ a pc, s₁.threads k = .busy a pc)
    (hk : K (s₁.threads k) (s₁.caches k))
    (hends : ∀ s₂, Inv setup s₂ → K (s₂.threads k) (s₂.caches k) →
      (∃ a pc, s₂.threads k = .busy a pc) → s₂.Ends setup.debug k P) :
    w.CallsAmong setup.debug k action fun w' => ∃ s', Refines w' s' ∧ P s' := by
  obtain ⟨w₁, hw₁, h₁⟩ := h.start_call inv hcaller hstart
  obtain ⟨a, pc, ht⟩ := hbusy
  refine ⟨w₁, hw₁, ⟨a, pc.map Batch.ofSeq, ?_⟩, fun actions w₂ hothers hruns hbusy₂ => ?_⟩
  · rw [h₁.threads_eq, ht]
    rfl
  · obtain ⟨s₂, h₂, inv₂, hk₂⟩ := h₁.along_next hK (inv.step hstart) hk hothers hruns
    obtain ⟨a₂, pc₂, ht₂⟩ := hbusy₂
    obtain ⟨pc', hpc', -⟩ := h₂.busy ht₂
    exact h₂.ends inv₂ (hends s₂ inv₂ hk₂ ⟨a₂, pc', hpc'⟩)

/-- A small allocation that is freed by the cache it came from is what the cache's next allocation
of its class returns, with the new size in its header.  When the free has returned, the block that
was hot before it is in one place: in a slab or in the shared list of the cache, or in the central
pool. -/
theorem Setup.Reachable.free_then_allocate (h : setup.Reachable w) {i : Nat} {e : Live ι κ}
    (he : w.live[i]? = some e) (hcache : e.cache = k) (hc : SizeClass.fromRequest e.size = some c)
    {last : Option Outcome} (ht : w.threads k = .idle last)
    (hbind : (w.caches k).owner = some e.alloc ∨ (w.caches k).isEmpty = true)
    {expectedSize : Option Nat} (hexpected : expectedSize = none ∨ expectedSize = some e.size) :
    w.CallsAmong setup.debug k (.deallocate k e.alloc i expectedSize) fun w₁ =>
      w₁.threads k = .idle (some .freed) ∧
      (∀ d, ((w.caches k).classes c).hotBlock = some d →
        (((w₁.contents.caches k).classes c).freeBag + ((w₁.contents.caches k).classes c).sharedBag +
          ((w₁.contents.allocators e.alloc).central.lists c).bag).count d = 1) ∧
      ∀ actions w₂, (∀ action ∈ actions, action.caller ≠ some k) →
        w₁.runs setup.debug actions = some w₂ →
          ∀ size, SizeClass.fromRequest size = some c →
            w₂.CallsAmong setup.debug k (.allocate k e.alloc size) fun w₃ =>
              w₃.threads k = .idle (some (.allocated e.ptr)) ∧
                (readPrefix w₃.mem (blockStartFromUserPtr e.ptr)).requestedSize = size ∧
                  (readPrefix w₃.mem (blockStartFromUserPtr e.ptr)).ownerCacheId =
                    (w₃.caches k).cacheId := by
  obtain ⟨s, hs, hrefines⟩ := h.refines
  have inv := hs.inv
  have hlive : s.live[i]? = some e := hrefines.live_eq ▸ he
  have hptr : userPtrFromBlockStart (blockStartFromUserPtr e.ptr) = e.ptr :=
    Nat.sub_add_cancel (inv.memory.entry none e (List.mem_of_getElem? hlive)).header_le
  obtain ⟨s₁, hstart, hbusy, howner, hfreeing⟩ := inv.starts_freeing hlive hcache hc
    (hrefines.idle_last ht) (hrefines.bindable hbind) hexpected
  have hcalls := hrefines.calls_among (K := FreedBy e.alloc c (blockStartFromUserPtr e.ptr)
      ((s.caches k).classes c).hotBlock) inv (freedBy_kept setup k) rfl hstart hbusy
    ⟨howner, hfreeing⟩ fun s₂ inv₂ h₂ hbusy₂ => Freeing.ends inv₂ h₂.2 hbusy₂ h₂.1
  refine hcalls.idle.mono fun w₁ hend => ?_
  obtain ⟨last₁, ht₁, s', hrefines', inv', howner', hfreeing', hdisplaced⟩ := hend
  have hidle' := hrefines'.idle_last ht₁
  rw [hidle'] at hfreeing'
  cases hfreeing' with
  | freed hhot =>
    refine ⟨ht₁, fun d hd => ?_, fun actions w₂ hothers hruns size hsize => ?_⟩
    · rw [hrefines.classes_eq] at hd
      have hmem := hdisplaced d hd
      have hnodup := inv'.ledger.stored_nodup (c := c) howner'
      rw [hrefines'.contents_eq]
      refine Multiset.count_eq_one_of_mem (Multiset.nodup_of_le ?_ hnodup) ?_
      · exact LocalClassCache.spilledBag_le_stored (s'.view e.alloc k) c
      · exact Multiset.mem_add.mpr hmem
    · obtain ⟨s₂, hrefines₂, inv₂, ht₂, howner₂, hhot₂⟩ := hrefines'.along_next
        (K := StaysHot e.alloc c (blockStartFromUserPtr e.ptr)) (staysHot_kept setup k) inv'
        ⟨hidle', howner', hhot⟩ hothers hruns
      obtain ⟨s₃, hstart₃, hbusy₃, hretaking⟩ := inv₂.starts_retaking ht₂ howner₂ hhot₂ hsize
      have hcalls₂ := hrefines₂.calls_among (K := fun thread cache =>
          Retaking e.alloc c (blockStartFromUserPtr e.ptr) size cache thread) inv₂
        (retaking_kept setup k) rfl hstart₃ hbusy₃ hretaking
        fun s₄ inv₄ h₄ hbusy₄ => Retaking.ends inv₄ h₄ hbusy₄
      refine hcalls₂.mono fun w₃ hend₃ => ?_
      obtain ⟨s₅, hrefines₅, inv₅, ht₅, hlive₅⟩ := hend₃
      have hsmall := hrefines₅.liveSmall inv₅ hlive₅ hsize
      have hcacheId : (w₃.caches k).cacheId = setup.cacheId k := by
        rw [hrefines₅.code]
        exact (inv₅.parts.cache k).cacheId_eq
      rw [hptr] at hsmall ht₅
      exact ⟨hrefines₅.idle_of ht₅, hsmall.requestedSize, hsmall.ownerCacheId.trans hcacheId.symm⟩

end Code

theorem spillStart_run :
    ((spillSetup.world FreeList Batch).runs true (spillStart 0)).isSome := by
  decide +kernel

/-- The second of two frees takes the cache over its limit and displaces the first block, which the
drain takes to the pool; the second block is allocated again. -/
theorem free_then_allocate_sample : ∃ w, spillSetup.Reachable w ∧
    w.CallsAmong true () (.deallocate () () 0 (some 10)) fun w₁ =>
      (((w₁.contents.caches ()).classes .b64).freeBag +
        ((w₁.contents.caches ()).classes .b64).sharedBag +
          ((w₁.contents.allocators ()).central.lists .b64).bag).count 4096 = 1 ∧
        w₁.CallsAmong true () (.allocate () () 20) fun w₂ =>
          w₂.threads () = .idle (some (.allocated 4288)) := by
  obtain ⟨w, hw⟩ : ∃ w, w = spillSetup.after (spillStart 0) spillStart_run := ⟨_, rfl⟩
  have hreachable : spillSetup.Reachable w := hw ▸ Setup.after_reachable spillStart_run
  have he : ∃ e, w.live[0]? = some e ∧ e.ptr = 4288 ∧ e.size = 10 := by
    rw [hw]
    decide +kernel
  obtain ⟨e, he, hptr, hsize⟩ := he
  have ht : (w.threads ()).last? = some (some .freed) := by
    rw [hw]
    decide +kernel
  have howner : (w.caches ()).owner = some () := by
    rw [hw]
    decide +kernel
  have hhot : ((w.caches ()).classes .b64).hotBlock = some 4096 := by
    rw [hw]
    decide +kernel
  have hclass : SizeClass.fromRequest e.size = some .b64 := by
    rw [hsize]
    rfl
  have hcalls := hreachable.free_then_allocate he rfl hclass (Thread.eq_idle ht) (Or.inl howner)
    (Or.inr (congrArg some hsize.symm))
  refine ⟨w, hreachable, hcalls.mono fun w₁ hend => ?_⟩
  obtain ⟨-, hdisplaced, hnext⟩ := hend
  refine ⟨hdisplaced 4096 hhot, (hnext [] w₁ (by simp) rfl 20 rfl).mono fun w₂ hend₂ => ?_⟩
  rw [hend₂.1, hptr]

end Orthotope
