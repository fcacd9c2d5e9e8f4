import Orthotope.Safety

/-! Over sequences the memory decides nothing.  The free lists are sequences of their own, so a step
of a call only writes to memory: on two memories with pages of the same size it has the same result
and leaves the same structures.  A free reads the header of its block, and that is where the
invariant comes in. -/

namespace Orthotope

open ByteMemory

variable {ι κ : Type}

/-! ### Results that differ in the memory -/

/-- The results are the same, and so are the sizes of the pages. -/
def Alike {R : Type} (x y : Mem × R) : Prop := y.2 = x.2 ∧ y.1.pageSize = x.1.pageSize

section Alike

variable {R T : Type} {x y : Option (Mem × R)} {m m' : Mem}

theorem Alike.map {f : Mem × R → Mem × T} (h : Option.Rel Alike x y)
    (hf : ∀ m m' r, m'.pageSize = m.pageSize → Alike (f (m, r)) (f (m', r))) :
    Option.Rel Alike (x.map f) (y.map f) := by
  cases h with
  | none => exact .none
  | @some p q hpq =>
    obtain ⟨hr, hm⟩ := hpq
    refine .some ?_
    obtain ⟨m, r⟩ := p
    obtain ⟨m', r'⟩ := q
    obtain rfl : r' = r := hr
    exact hf m m' r' hm

theorem Alike.bind {f : Mem × R → Option (Mem × T)} (h : Option.Rel Alike x y)
    (hf : ∀ m m' r, m'.pageSize = m.pageSize → Option.Rel Alike (f (m, r)) (f (m', r))) :
    Option.Rel Alike (x.bind f) (y.bind f) := by
  cases h with
  | none => exact .none
  | @some p q hpq =>
    obtain ⟨hr, hm⟩ := hpq
    obtain ⟨m, r⟩ := p
    obtain ⟨m', r'⟩ := q
    obtain rfl : r' = r := hr
    exact hf m m' r' hm

/-- A result that is computed without the memory is added to it. -/
theorem Alike.fixed {g g' : T → Option (Mem × R)} (z : Option T)
    (h : ∀ t, Option.Rel Alike (g t) (g' t)) : Option.Rel Alike (z.bind g) (z.bind g') := by
  cases z with
  | none => exact .none
  | some t => exact h t

theorem Alike.fixed_map {g g' : T → Mem × R} (z : Option T) (h : ∀ t, Alike (g t) (g' t)) :
    Option.Rel Alike (z.map g) (z.map g') := by
  cases z with
  | none => exact .none
  | some t => exact .some (h t)

end Alike

/-! ### The caches -/

section Caches

variable {m m' : Mem} (hp : m'.pageSize = m.pageSize)

include hp

theorem LocalSlab.drainReclaimed_alike (n : Nat) (free list : Seq) :
    Option.Rel Alike (drainReclaimed m n free list) (drainReclaimed m' n free list) := by
  induction n generalizing free list with
  | zero => exact .some ⟨rfl, hp⟩
  | succ n ih => exact Alike.fixed _ fun t => ih t.2 (t.1 :: list)

omit hp in
theorem LocalSlab.initialize_pageSize (m : Mem) (block : Nat) (c : SizeClass) :
    (initializeSmallToBlockUnchecked m block c).pageSize = m.pageSize :=
  (writesIn_writeEncodedFields m block smallTag c.index 0 c.payloadSize 0).pageSize

theorem LocalSlab.drainFresh_alike (c : SizeClass) (blockSize n block : Nat) (list : Seq) :
    Alike (drainFresh m c blockSize n block list) (drainFresh m' c blockSize n block list) := by
  induction n generalizing m m' block list with
  | zero => exact ⟨rfl, hp⟩
  | succ n ih =>
    refine ih ?_ (block + blockSize) (block :: list)
    rw [LocalSlab.initialize_pageSize, LocalSlab.initialize_pageSize]
    exact hp

theorem LocalSlab.popBatch_alike (slab : LocalSlab Seq) (max : Nat) (c : SizeClass) :
    Option.Rel Alike (slab.popBatch m max c) (slab.popBatch m' max c) := by
  refine Alike.bind (drainReclaimed_alike hp ..) fun m m' r hp => ?_
  obtain ⟨free, list⟩ := r
  have hfresh := drainFresh_alike hp c slab.blockSize
    (min (max - min (BlockList.len slab.free) max) (slab.capacity - slab.nextFresh))
    (slab.start + slab.nextFresh * slab.blockSize) list
  obtain ⟨hlist, hpage⟩ := hfresh
  simp only [seq_popBatchUnchecked, hlist]
  split
  · exact .none
  · exact .some ⟨rfl, hpage⟩

namespace LocalClassCache

variable (cache : LocalClassCache Seq)

theorem pushSpilledBlock_alike (debug : Bool) (block : Nat) :
    Option.Rel Alike (cache.pushSpilledBlock debug m block)
      (cache.pushSpilledBlock debug m' block) := by
  unfold pushSpilledBlock
  split
  · exact Alike.fixed_map _ fun slab => ⟨rfl, hp⟩
  · exact .some ⟨rfl, hp⟩

theorem pushBlock_alike (debug : Bool) (block : Nat) :
    Option.Rel Alike (cache.pushBlock debug m block) (cache.pushBlock debug m' block) := by
  unfold pushBlock
  split
  · exact pushSpilledBlock_alike hp ..
  · exact .some ⟨rfl, hp⟩

theorem popBatch_alike (max : Nat) (c : SizeClass) :
    Option.Rel Alike (cache.popBatch m max c) (cache.popBatch m' max c) := by
  unfold popBatch
  split
  · simp only [seq_popBatchUnchecked]
    split
    · exact .none
    · exact .some ⟨rfl, hp⟩
  · split
    · refine Alike.fixed _ fun slab => Alike.map
        (LocalSlab.popBatch_alike hp ..) fun m m' r hp => ?_
      exact ⟨rfl, hp⟩
    · split
      · exact .some ⟨rfl, hp⟩
      · exact .some ⟨rfl, hp⟩

end LocalClassCache

end Caches

/-! ### The central pool -/

section Pool

variable {m m' : Mem} (hp : m'.pageSize = m.pageSize)

include hp

theorem RemoteReturns.takePending_alike (returns : RemoteReturns Seq) :
    Option.Rel Alike (returns.takePending m) (returns.takePending m') := by
  unfold takePending takeAllUnchecked
  simp only [seq_popBatchUnchecked]
  split
  · exact .some ⟨rfl, hp⟩
  · split
    · exact .none
    · exact .some ⟨rfl, hp⟩

theorem RemoteReturns.pushBatch_alike (returns : RemoteReturns Seq) (batch : Seq) :
    Option.Rel Alike (returns.pushBatch m batch) (returns.pushBatch m' batch) := by
  unfold pushBatch
  split
  · exact .some ⟨rfl, hp⟩
  · exact .some ⟨rfl, hp⟩

theorem takePartialBatch_alike (slab : SlabRecord Seq) (max : Nat) :
    Option.Rel Alike (slab.takePartialBatch m max) (slab.takePartialBatch m' max) := by
  simp only [SlabRecord.takePartialBatch, seq_popBatchUnchecked]
  split
  · exact .none
  · exact .some ⟨rfl, hp⟩

namespace ClassPool

variable (pool : ClassPool Seq)

omit hp in
theorem applyAdvice_pageSize (m : Mem) (range : Option (Nat × Nat)) :
    (applyAdvice m range).pageSize = m.pageSize := by
  cases range <;> rfl

theorem sweep_alike {R : Type} (advised : Bool) (f : ClassPool Seq → R) :
    Alike (applyAdvice m (pool.maybeSweep m.pageSize advised).2,
        f (pool.maybeSweep m.pageSize advised).1)
      (applyAdvice m' (pool.maybeSweep m'.pageSize advised).2,
        f (pool.maybeSweep m'.pageSize advised).1) := by
  constructor
  · rw [hp]
  · rw [applyAdvice_pageSize, applyAdvice_pageSize, hp]

theorem returnBlocks_alike (n : Nat) (batch : Seq) :
    Option.Rel Alike (returnBlocks m n pool batch) (returnBlocks m' n pool batch) := by
  induction n generalizing pool batch with
  | zero => exact .some ⟨rfl, hp⟩
  | succ n ih =>
    refine Alike.fixed _ fun t => Alike.fixed _ fun id => Alike.fixed _ fun slab => ?_
    exact ih _ t.2

theorem returnBatch_alike (advised : Bool) (batch : Seq) :
    Option.Rel Alike (pool.returnBatch m advised batch) (pool.returnBatch m' advised batch) := by
  unfold returnBatch
  split
  · exact .some ⟨rfl, hp⟩
  · exact Alike.map (returnBlocks_alike hp ..) fun m m' pool hp => pool.sweep_alike hp advised id

theorem takeRefill_alike (advised : Bool) (max : Nat) :
    Option.Rel Alike (pool.takeRefill m advised max) (pool.takeRefill m' advised max) := by
  unfold takeRefill
  split
  · exact .some ⟨rfl, hp⟩
  · simp only
    split
    · refine Alike.fixed _ fun slab => Alike.map (takePartialBatch_alike hp slab max) ?_
      intro m m' r hp
      obtain ⟨batch, slab'⟩ := r
      exact sweep_alike hp _ advised fun pool' => (pool', CentralRefill.batch batch)
    · split
      · exact Alike.fixed_map _ fun slab => sweep_alike hp _ advised fun pool' => (pool', _)
      · exact .some (sweep_alike hp _ advised fun pool' => (pool', (.empty : CentralRefill Seq)))

end ClassPool

namespace CentralPool

variable (central : CentralPool Seq) (c : SizeClass)

theorem drainRemoteInbox_alike (advised : Bool) :
    Option.Rel Alike (central.drainRemoteInbox m advised c)
      (central.drainRemoteInbox m' advised c) := by
  refine Alike.bind (RemoteReturns.takePending_alike hp _) fun m m' r hp => ?_
  simp only
  split
  · exact .some ⟨rfl, hp⟩
  · exact Alike.map (ClassPool.returnBatch_alike hp ..) fun m m' pool hp => ⟨rfl, hp⟩

theorem takeRefill_alike (advised : Bool × Bool) (max : Nat) :
    Option.Rel Alike (central.takeRefill m advised c max)
    (central.takeRefill m' advised c max) := by
  refine Alike.bind (drainRemoteInbox_alike hp ..) fun m m' central hp => ?_
  exact Alike.map (ClassPool.takeRefill_alike hp ..) fun m m' r hp => ⟨rfl, hp⟩

theorem returnBatch_alike (advised : Bool × Bool) (batch : Seq) :
    Option.Rel Alike (central.returnBatch m advised c batch)
      (central.returnBatch m' advised c batch) := by
  refine Alike.bind (drainRemoteInbox_alike hp ..) fun m m' central hp => ?_
  exact Alike.map (ClassPool.returnBatch_alike hp ..) fun m m' r hp => ⟨rfl, hp⟩

theorem registerSlab_alike (advised : Bool) (start blockSize capacity : Nat) :
    Alike (central.registerSlab m advised c start blockSize capacity)
      (central.registerSlab m' advised c start blockSize capacity) := by
  unfold registerSlab
  simp only
  rw [hp]
  refine ⟨rfl, ?_⟩
  rw [ClassPool.applyAdvice_pageSize, ClassPool.applyAdvice_pageSize, hp]

end CentralPool

end Pool

/-! ### The steps of a call -/

/-- The views differ at most in the memory. -/
structure View.Alike (v v' : View ι κ Seq Seq) : Prop where
  allocator : v'.allocator = v.allocator
  cache : v'.cache = v.cache
  live : v'.live = v.live
  thread : v'.thread = v.thread
  pageSize : v'.mem.pageSize = v.mem.pageSize

section Steps

variable {v v' : View ι κ Seq Seq} {m' : Mem} {a : ι} {k : κ} {debug : Bool}

theorem View.alike_map {R : Type} {x y : Option (Mem × R)} {f g : Mem × R → View ι κ Seq Seq}
    (h : Option.Rel Orthotope.Alike x y)
    (hf : ∀ m m' r, m'.pageSize = m.pageSize → (f (m, r)).Alike (g (m', r))) :
    Option.Rel View.Alike (x.map f) (y.map g) := by
  cases h with
  | none => exact .none
  | @some p q hpq =>
    obtain ⟨hr, hm⟩ := hpq
    obtain ⟨m, r⟩ := p
    obtain ⟨m', r'⟩ := q
    obtain rfl : r' = r := hr
    exact .some (hf m m' r' hm)

theorem View.alike_fixed {T : Type} {f g : T → View ι κ Seq Seq} (z : Option T)
    (hf : ∀ t, (f t).Alike (g t)) : Option.Rel View.Alike (z.map f) (z.map g) := by
  cases z with
  | none => exact .none
  | some t => exact .some (hf t)

theorem View.Alike.resume (h : v.Alike v') (resume : Resume) :
    (v.resume a resume).Alike (v'.resume a resume) := by
  cases resume <;> exact ⟨h.allocator, h.cache, h.live, rfl, h.pageSize⟩

/-- A step of a call depends on the memory only by the size of its pages. -/
theorem View.next_alike (hp : m'.pageSize = v.mem.pageSize) (advised : Bool × Bool)
    (pc : Pc ι κ Seq) : Option.Rel View.Alike (v.next debug advised a k pc)
      ((v.setMem m').next debug advised a k pc) := by
  have hsame : v.Alike (v.setMem m') := ⟨rfl, rfl, rfl, rfl, hp⟩
  cases pc with
  | refill c size =>
    refine alike_map (CentralPool.takeRefill_alike hp ..) fun m m' r hp => ?_
    obtain ⟨central, refill⟩ := r
    cases refill <;> exact ⟨rfl, rfl, rfl, rfl, hp⟩
  | gotBatch c size batch => exact .some ⟨rfl, rfl, rfl, rfl, hp⟩
  | gotSlab c size start blockSize capacity => exact .some ⟨rfl, rfl, rfl, rfl, hp⟩
  | carve c size =>
    simp only [View.next, View.setMem]
    split <;> exact .some ⟨rfl, rfl, rfl, rfl, hp⟩
  | carved c size span =>
    obtain ⟨heq, hpage⟩ := CentralPool.registerSlab_alike hp v.allocator.central c advised.1
      span.start (v.allocator.config.classBlockSize c)
      (span.size / v.allocator.config.classBlockSize c)
    refine .some ⟨?_, rfl, rfl, rfl, hpage⟩
    exact congrArg (fun central => { v.allocator with central }) heq
  | registered c size start blockSize capacity => exact .some ⟨rfl, rfl, rfl, rfl, hp⟩
  | pop c size => exact alike_fixed _ fun t => ⟨rfl, rfl, rfl, rfl, hp⟩
  | popped c size block reuse =>
    refine .some ⟨rfl, rfl, rfl, rfl, ?_⟩
    exact ((writesIn_writeHeader debug m' c size block _ reuse).pageSize.trans hp).trans
      (writesIn_writeHeader debug v.mem c size block _ reuse).pageSize.symm
  | large size blockSize =>
    refine alike_fixed _ fun t => ?_
    obtain ⟨found, large⟩ := t
    cases found <;> exact ⟨rfl, rfl, rfl, rfl, hp⟩
  | largeCarve size blockSize =>
    simp only [View.next, View.setMem]
    split <;> exact .some ⟨rfl, rfl, rfl, rfl, hp⟩
  | largeGot size start blockSize =>
    simp only [View.next, View.setMem, writeLargeToBlock]
    cases encodeLargeFields size (blockSize - headerSize) with
    | none => exact .some ⟨rfl, rfl, rfl, rfl, hp⟩
    | some fields =>
      refine .some ⟨rfl, rfl, rfl, rfl, ?_⟩
      exact ((writesIn_writeEncodedFields m' start _ _ _ _ _).pageSize.trans hp).trans
        (writesIn_writeEncodedFields v.mem start _ _ _ _ _).pageSize.symm
  | largeWritten size start blockSize => exact alike_fixed _ fun t => ⟨rfl, rfl, rfl, rfl, hp⟩
  | report size => exact .some ⟨rfl, rfl, rfl, rfl, hp⟩
  | route c block owner =>
    by_cases howner : owner = v.cache.cacheId
    · simp only [View.next, View.setMem, howner, if_true]
      refine alike_map (Alike.map (LocalClassCache.pushBlock_alike hp ..) ?_)
        fun m m' cache hp => ?_
      · exact fun m m' class_ hp => ⟨rfl, hp⟩
      · by_cases hdrain : cache.shouldDrain c = true
        · simp only [hdrain, if_true]
          exact ⟨rfl, rfl, rfl, rfl, hp⟩
        · simp only [hdrain]
          exact ⟨rfl, rfl, rfl, rfl, hp⟩
    · obtain ⟨cache, hcache⟩ : ∃ cache, ∀ m, v.cache.pushRemoteReturn m c block = (m, cache) :=
        ⟨_, fun m => rfl⟩
      simp only [View.next, View.setMem, howner, if_false, hcache]
      refine .some ?_
      by_cases hflush : cache.shouldFlushRemoteReturns c = true
      · simp only [hflush, if_true]
        exact ⟨rfl, rfl, rfl, rfl, hp⟩
      · simp only [hflush]
        exact ⟨rfl, rfl, rfl, rfl, hp⟩
  | releasing entry requestedSize usableSize =>
    refine alike_fixed _ fun t => ?_
    cases t <;> exact ⟨rfl, rfl, rfl, rfl, hp⟩
  | flush classes => cases classes <;> exact .some ⟨rfl, rfl, rfl, rfl, hp⟩
  | drain classes => cases classes <;> exact .some ⟨rfl, rfl, rfl, rfl, hp⟩
  | unstage c resume =>
    by_cases hempty : (v.cache.remoteReturns c).isEmpty = true
    · simp only [View.next, View.setMem, hempty, if_true]
      exact .some (hsame.resume resume)
    · have hnext : ∀ m, (v.setMem m).next debug advised a k (.unstage c resume) =
          (v.cache.takeRemoteReturns m c).map fun x =>
            ((v.setMem x.1).setCache x.2.2).goto a (.publishing c x.2.1 resume) :=
        fun m => if_neg hempty
      refine (hnext v.mem).symm ▸ (hnext m').symm ▸ ?_
      simp only [ThreadCache.takeRemoteReturns, RemoteReturns.takeAllUnchecked,
        seq_popBatchUnchecked]
      split
      · exact .none
      · exact .some ⟨rfl, rfl, rfl, rfl, hp⟩
  | publishing c batch resume =>
    refine alike_map (Alike.map (RemoteReturns.pushBatch_alike hp ..) ?_) fun m m' central hp => ?_
    · exact fun m m' inbox hp => ⟨rfl, hp⟩
    · have halike : ((v.setMem m).setCentral central).Alike ((v.setMem m').setCentral central) :=
        ⟨rfl, rfl, rfl, rfl, hp⟩
      exact halike.resume resume
  | excess c max resume =>
    refine alike_map (Alike.map (LocalClassCache.popBatch_alike hp ..) ?_) fun m m' r hp => ?_
    · exact fun m m' r hp => ⟨rfl, hp⟩
    · exact ⟨rfl, rfl, rfl, rfl, hp⟩
  | returning c batch resume =>
    refine alike_map (CentralPool.returnBatch_alike hp ..) fun m m' central hp => ?_
    have halike : ((v.setMem m).setCentral central).Alike ((v.setMem m').setCentral central) :=
      ⟨rfl, rfl, rfl, rfl, hp⟩
    exact halike.resume resume

theorem View.Alike.next (h : v.Alike v') (advised : Bool × Bool) (pc : Pc ι κ Seq) :
    Option.Rel View.Alike (v.next debug advised a k pc) (v'.next debug advised a k pc) := by
  obtain ⟨m', rfl⟩ : ∃ m', v' = v.setMem m' := by
    obtain ⟨h1, h2, h3, h4, -⟩ := h
    cases v
    cases v'
    cases h1
    cases h2
    cases h3
    cases h4
    exact ⟨_, rfl⟩
  exact View.next_alike h.pageSize advised pc

end Steps

/-! ### The actions -/

/-- The states differ at most in the memory. -/
structure World.Alike (s s' : World ι κ Seq Seq) : Prop where
  allocators : s'.allocators = s.allocators
  caches : s'.caches = s.caches
  live : s'.live = s.live
  threads : s'.threads = s.threads
  pageSize : s'.mem.pageSize = s.mem.pageSize

section Actions

variable {setup : Setup ι κ} {s s' : World ι κ Seq Seq} {a : ι} {k : κ}

theorem World.Alike.view (h : s.Alike s') (a : ι) (k : κ) : (s.view a k).Alike (s'.view a k) :=
  ⟨congrFun h.allocators a, congrFun h.caches k, h.live, congrFun h.threads k, h.pageSize⟩

theorem View.Alike.startAllocate {v v' : View ι κ Seq Seq} (h : v.Alike v') (size : Nat) :
    (v.startAllocate a size).Alike (v'.startAllocate a size) := by
  unfold View.startAllocate
  rw [h.allocator, h.cache]
  split
  · exact ⟨h.allocator, h.cache, h.live, rfl, h.pageSize⟩
  · split
    · split <;> exact ⟨h.allocator, h.cache, h.live, rfl, h.pageSize⟩
    · exact ⟨h.allocator, h.cache, h.live, rfl, h.pageSize⟩

variable [DecidableEq ι] [DecidableEq κ]

theorem World.Alike.update (h : s.Alike s') {v v' : View ι κ Seq Seq} (hv : v.Alike v') :
    (s.update a k v).Alike (s'.update a k v') where
  allocators := by
    show Function.update s'.allocators a v'.allocator = _
    rw [h.allocators, hv.allocator]
    rfl
  caches := by
    show Function.update s'.caches k v'.cache = _
    rw [h.caches, hv.cache]
    rfl
  live := hv.live
  threads := by
    show Function.update s'.threads k v'.thread = _
    rw [h.threads, hv.thread]
    rfl
  pageSize := hv.pageSize

theorem World.Alike.update_map (h : s.Alike s') {x y : Option (View ι κ Seq Seq)}
    (hxy : Option.Rel View.Alike x y) :
    Option.Rel World.Alike (x.map (s.update a k)) (y.map (s'.update a k)) := by
  cases hxy with
  | none => exact .none
  | some hv => exact .some (h.update hv)

theorem World.Alike.call (h : s.Alike s') {start start' : View ι κ Seq Seq → View ι κ Seq Seq}
    (hstart : ∀ cache, (start ((s.view a k).setCache cache)).Alike
      (start' ((s'.view a k).setCache cache))) :
    Option.Rel World.Alike (s.call k a start) (s'.call k a start') := by
  have hview := h.view a k
  unfold World.call
  rw [h.threads, h.caches, h.allocators]
  split
  · exact .none
  · split
    · refine .some (h.update ?_)
      exact ⟨hview.allocator, hview.cache, hview.live, rfl, hview.pageSize⟩
    · exact .some (h.update (hstart _))

omit [DecidableEq κ] in
/-- What a free reads of a live block is in both memories what its allocation has written. -/
theorem Inv.checkFree_alike (inv : Inv setup s) (inv' : Inv setup s') (h : s.Alike s')
    {entry : Live ι κ} (hmem : entry ∈ s.live) (debug : Bool) (expectedSize : Option Nat) :
    (s'.allocators a).checkFree debug s'.mem entry.ptr expectedSize =
      (s.allocators a).checkFree debug s.mem entry.ptr expectedSize := by
  have hmem' : entry ∈ s'.live := h.live ▸ hmem
  cases hc : SizeClass.fromRequest entry.size with
  | some c => rw [inv.checkFree_small hmem hc, inv'.checkFree_small hmem' hc]
  | none =>
    obtain ⟨record, hrecord, hreq⟩ := inv.tokens.record none entry hmem hc
    have hrecord' : (entry.ptr, record) ∈ (s'.allocators entry.alloc).large.live := by
      rwa [h.allocators]
    have ok := inv.memory.entry none entry hmem
    have hlive := ok.large hc record hrecord
    have hlive' := (inv'.memory.entry none entry hmem').large hc record hrecord'
    have hal : blockStartFromUserPtr entry.ptr % 64 = 0 := by
      obtain ⟨hptr, hheader, -⟩ := inv.live_placed hmem
      unfold blockStartFromUserPtr headerSize at *
      omega
    have hle : entry.size ≤ record.usableSize :=
      hreq ▸ ((inv.parts.allocator entry.alloc).large.live_ok _ hrecord).requested_le
    simp only [Allocator.checkFree, decodeHeader_large ok.header_le hal ok.size_pos hle hlive,
      decodeHeader_large ok.header_le hal ok.size_pos hle hlive', hlive.fields_eq,
      hlive'.fields_eq]
    cases expectedSize <;> rfl

omit [DecidableEq κ] in
theorem Inv.startFree_alike (inv : Inv setup s) (inv' : Inv setup s') (h : s.Alike s')
    {entry : Live ι κ} (hmem : entry ∈ s.live) (cache : ThreadCache ι Seq)
    (rest : List (Live ι κ)) (debug : Bool) (expectedSize : Option Nat) :
    (((s.view a k).setCache cache).startFree debug a entry rest expectedSize).Alike
      (((s'.view a k).setCache cache).startFree debug a entry rest expectedSize) := by
  have hview := h.view a k
  have hcheck : ((s'.view a k).setCache cache).allocator.checkFree debug
      ((s'.view a k).setCache cache).mem entry.ptr expectedSize =
        ((s.view a k).setCache cache).allocator.checkFree debug
          ((s.view a k).setCache cache).mem entry.ptr expectedSize :=
    inv.checkFree_alike inv' h hmem debug expectedSize
  unfold View.startFree
  rw [hcheck]
  split
  · exact ⟨hview.allocator, rfl, hview.live, rfl, hview.pageSize⟩
  · rename_i c block owner _
    refine ⟨hview.allocator, rfl, rfl, rfl, ?_⟩
    exact ((writesIn_mark debug s'.mem block).pageSize.trans hview.pageSize).trans
      (writesIn_mark debug s.mem block).pageSize.symm
  · exact ⟨hview.allocator, rfl, rfl, rfl, hview.pageSize⟩

/-- An action other than a discard does the same on both memories. -/
theorem Inv.step_alike (inv : Inv setup s) (inv' : Inv setup s') (h : s.Alike s')
    {action : Action ι κ} (hdiscard : ∀ page, action ≠ .discard page) :
    Option.Rel World.Alike (s.step setup.debug action) (s'.step setup.debug action) := by
  cases action with
  | allocate k a size =>
    show Option.Rel World.Alike (s.call k a fun v => v.startAllocate a size)
      (s'.call k a fun v => v.startAllocate a size)
    refine World.Alike.call h fun cache => View.Alike.startAllocate ?_ size
    have hview := h.view a k
    exact ⟨hview.allocator, rfl, hview.live, hview.thread, hview.pageSize⟩
  | deallocate k a i expectedSize =>
    simp only [World.step]
    rw [h.live]
    cases hentry : s.live[i]? with
    | none => exact .none
    | some entry =>
      show Option.Rel World.Alike
        (s.call k a fun v => v.startFree setup.debug a entry (v.live.eraseIdx i) expectedSize)
        (s'.call k a fun v => v.startFree setup.debug a entry (v.live.eraseIdx i) expectedSize)
      refine World.Alike.call h fun cache => ?_
      have hfree : ∀ rest, (((s.view a k).setCache cache).startFree setup.debug a entry rest
          expectedSize).Alike (((s'.view a k).setCache cache).startFree setup.debug a entry rest
            expectedSize) := fun rest =>
        inv.startFree_alike inv' h (List.mem_of_getElem? hentry) cache rest _ _
      have hlive : ((s'.view a k).setCache cache).live = ((s.view a k).setCache cache).live :=
        h.live
      simp only [hlive]
      exact hfree _
  | drain k a =>
    show Option.Rel World.Alike (s.call k a fun v => v.goto a (.flush SizeClass.all))
      (s'.call k a fun v => v.goto a (.flush SizeClass.all))
    refine World.Alike.call h fun cache => ?_
    have hview := h.view a k
    exact ⟨hview.allocator, rfl, hview.live, rfl, hview.pageSize⟩
  | run k advised =>
    simp only [World.step]
    rw [h.threads]
    split
    · exact .none
    · rename_i a pc ht
      exact h.update_map ((h.view a k).next advised pc)
  | store i offset value =>
    simp only [World.step]
    rw [h.live]
    cases s.live[i]? with
    | none => exact .none
    | some entry =>
      simp only [Option.bind_some]
      split
      · exact .some ⟨h.allocators, h.caches, rfl, h.threads, h.pageSize⟩
      · exact .none
  | discard page => exact absurd rfl (hdiscard page)

end Actions

end Orthotope
