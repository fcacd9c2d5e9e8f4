import Orthotope.Safety
import Orthotope.Termination

/-! Frees.  A free of a live allocation by a cache that the allocator can use ends as freed,
whatever other calls come in between.  In a debug build a free of any other block of a slab is
refused and changes nothing, wherever the block is. -/

namespace Orthotope

open ByteMemory Ownership

variable {ι κ : Type}

/-! ### Starting a call -/

section Start

variable [DecidableEq ι] {setup : Setup ι κ} {a : ι} {k : κ}

/-- A cache that is bound to the allocator, or has no blocks, is not refused. -/
theorem ThreadCache.bindToAllocator_isSome {L : Type} [BlockList L] {cache : ThreadCache ι L}
    {config : AllocatorConfig} (h : cache.owner = some a ∨ cache.isEmpty = true) :
    ∃ cache', cache.bindToAllocator a config = some cache' := by
  unfold bindToAllocator
  by_cases howner : cache.owner = some a
  · exact ⟨_, if_pos howner⟩
  · rw [if_neg howner, if_neg (by simp [h.resolve_left howner])]
    exact ⟨_, rfl⟩

variable [DecidableEq κ]

theorem World.call_eq {L B : Type} [BlockStore L B] {w : World ι κ L B}
    {last : Option Outcome} (ht : w.threads k = .idle last) {cache : ThreadCache ι L}
    (hbind : (w.caches k).bindToAllocator a (w.allocators a).config = some cache)
    (start : View ι κ L B → View ι κ L B) :
    w.call k a start = some (w.update a k (start ((w.view a k).setCache cache))) := by
  simp only [World.call, ht, hbind]

variable {w : World ι κ FreeList Batch} {s : World ι κ Seq Seq}

omit [DecidableEq ι] [DecidableEq κ] in
theorem Refines.idle_last (h : Refines w s) {last : Option Outcome}
    (ht : w.threads k = .idle last) : s.threads k = .idle last := by
  have hmap := (h.threads_eq k).symm.trans ht
  cases hs : s.threads k with
  | idle last' =>
    rw [hs] at hmap
    rw [Thread.idle.inj hmap]
  | busy b pc =>
    rw [hs] at hmap
    cases hmap

omit [DecidableEq ι] [DecidableEq κ] in
theorem Refines.bindable (h : Refines w s)
    (hcache : (w.caches k).owner = some a ∨ (w.caches k).isEmpty = true) :
    (s.caches k).owner = some a ∨ (s.caches k).isEmpty = true := by
  rw [h.code] at hcache
  refine hcache.imp id fun hempty => ?_
  rw [← hempty]
  exact ((s.caches k).isEmpty_map FreeList.ofSeq).symm

/-- A call that starts over sequences starts in the code. -/
theorem Refines.start_call (h : Refines w s) {setup : Setup ι κ} (inv : Inv setup s)
    {action : Action ι κ} (hcaller : action.caller = some k) {s₁ : World ι κ Seq Seq}
    (hstep : s.step setup.debug action = some s₁) :
    ∃ w₁, w.step setup.debug action = some w₁ ∧ Refines w₁ s₁ := by
  obtain ⟨r, hr⟩ : ∃ r, r = w.step setup.debug action := ⟨_, rfl⟩
  have hrel := h.starts setup.debug inv hcaller
  rw [hstep, ← hr] at hrel
  cases hrel with
  | some hrefines => exact ⟨_, hr.symm, hrefines⟩

end Start

/-! ### Live allocations -/

section Live

variable {setup : Setup ι κ} {s : World ι κ Seq Seq} {a : ι} {k : κ}

/-- The header of a live allocation names its class and its size. -/
theorem Inv.decode_live (inv : Inv setup s) {e : Live ι κ} (he : e ∈ s.live) :
    ∃ header kind, decodeHeader s.mem e.ptr = .ok (header, kind) ∧ header.requestedSize = e.size ∧
      (∀ c, SizeClass.fromRequest e.size = some c → kind = .small c) ∧
      (SizeClass.fromRequest e.size = none →
        SizeClass.maxSmallRequest < e.size ∧ kind = .large) := by
  have ok := inv.memory.entry none e he
  cases hc : SizeClass.fromRequest e.size with
  | some c =>
    have hlive := ok.small c hc
    have hal := (inv.ledger.inArena _ _ (Live.mem_client he hc)).aligned
    refine ⟨_, _, decodeHeader_small ok.header_le hal hc hlive, hlive.requestedSize, ?_, nofun⟩
    intro d hd
    rw [Option.some.inj hd]
  | none =>
    obtain ⟨record, hrecord, hreq⟩ := inv.tokens.record none e he hc
    have hlive := ok.large hc record hrecord
    have hok := (inv.parts.allocator e.alloc).large.live_ok _ hrecord
    have hal := (inv.ledger.inArena (.largeLive e.alloc) _ (mem_largeLive hrecord)).aligned
    have hstart : blockStartFromUserPtr e.ptr = record.blockAddr := by
      have := hok.key
      unfold blockStartFromUserPtr
      simp only at this
      omega
    have hdecode := decodeHeader_large ok.header_le (hstart ▸ hal) ok.size_pos
      (hreq ▸ hok.requested_le) hlive
    refine ⟨_, _, hdecode, ?_, nofun, fun _ => ⟨?_, rfl⟩⟩
    · rw [hlive.fields_eq]
    · have := ok.size_pos
      rcases SizeClass.fromRequest_eq_none.mp hc with h | h
      · omega
      · exact h

/-- The call will end as freed: it is past its checks, and the block is its own. -/
def Pc.Frees (a : ι) : Pc ι κ Seq → Prop
  | .route .. => True
  | .releasing entry _ _ => entry.alloc = a
  | .unstage _ resume | .publishing _ _ resume | .excess _ _ resume | .returning _ _ resume =>
    resume = .done
  | _ => False

def Thread.Frees : Thread ι κ Seq → Prop
  | .idle last => last = some .freed
  | .busy a pc => pc.Frees a

theorem frees_kept (setup : Setup ι κ) (k : κ) : KeptByCall setup k Thread.Frees := by
  intro s a pc v inv ht hfrees htrans
  cases htrans with
  | push _ _ _ _ _ hthread =>
    rcases hthread with rfl | ⟨-, rfl⟩
    · rfl
    · rfl
  | stage _ hthread => rcases hthread with rfl | rfl <;> rfl
  | release => rfl
  | refuse ha => exact absurd hfrees ha
  | unstageNone _ =>
    obtain rfl : _ = Resume.done := hfrees
    rfl
  | unstage _ => exact hfrees
  | publish =>
    obtain rfl : _ = Resume.done := hfrees
    rfl
  | excess => exact hfrees
  | returnBatch =>
    obtain rfl : _ = Resume.done := hfrees
    rfl
  | takeSlab hpc => rcases hpc with rfl | rfl <;> exact hfrees.elim
  | _ => exact hfrees.elim

variable [DecidableEq ι]

/-- A free of a live allocation passes its checks. -/
theorem Inv.startFree_frees (inv : Inv setup s) {i : Nat} {e : Live ι κ} (he : s.live[i]? = some e)
    {expectedSize : Option Nat} (hexpected : expectedSize = none ∨ expectedSize = some e.size)
    (debug : Bool) (cache : ThreadCache ι Seq) :
    (View.startFree debug e.alloc ((s.view e.alloc k).setCache cache) e (s.live.eraseIdx i)
      expectedSize).thread.Frees := by
  have hmem : e ∈ s.live := List.mem_of_getElem? he
  have hchecked : ∀ route, sizeChecked expectedSize e.size route = .ok route := by
    intro route
    rcases hexpected with rfl | rfl <;> simp [sizeChecked]
  cases hc : SizeClass.fromRequest e.size with
  | some c =>
    have hcheck := inv.checkFree_small (a := e.alloc) hmem hc debug expectedSize
    rw [if_pos rfl, hchecked] at hcheck
    have hcheck : ((s.view e.alloc k).setCache cache).allocator.checkFree debug
      ((s.view e.alloc k).setCache cache).mem e.ptr expectedSize = _ := hcheck
    simp only [View.startFree, hcheck]
    trivial
  | none =>
    obtain ⟨record, -, hcheck⟩ := inv.checkFree_large (a := e.alloc) hmem hc debug expectedSize
    rw [hchecked] at hcheck
    have hcheck : ((s.view e.alloc k).setCache cache).allocator.checkFree debug
      ((s.view e.alloc k).setCache cache).mem e.ptr expectedSize = _ := hcheck
    simp only [View.startFree, hcheck]
    rfl

end Live

section Code

variable [DecidableEq ι] [DecidableEq κ] {setup : Setup ι κ} {w w' : World ι κ FreeList Batch}
  {a : ι} {k : κ}

/-- A free of a live allocation, by a cache that is bound to its allocator or empty, ends as
freed. -/
theorem Setup.Reachable.frees (h : setup.Reachable w) {i : Nat} {e : Live ι κ}
    (he : w.live[i]? = some e) {last : Option Outcome} (ht : w.threads k = .idle last)
    (hcache : (w.caches k).owner = some e.alloc ∨ (w.caches k).isEmpty = true)
    {expectedSize : Option Nat} (hexpected : expectedSize = none ∨ expectedSize = some e.size) :
    ∃ w₁, w.step setup.debug (.deallocate k e.alloc i expectedSize) = some w₁ ∧
      ∀ actions w', (∀ action ∈ actions, action.caller ≠ some k) →
        w₁.runs setup.debug actions = some w' →
          w'.Ends setup.debug k fun w'' => w''.threads k = .idle (some .freed) := by
  obtain ⟨s, hs, hrefines⟩ := h.refines
  have he' : s.live[i]? = some e := hrefines.live_eq ▸ he
  obtain ⟨cache, hbind⟩ : ∃ cache, (s.caches k).bindToAllocator e.alloc
      (s.allocators e.alloc).config = some cache :=
    ThreadCache.bindToAllocator_isSome (hrefines.bindable hcache)
  obtain ⟨v, hv⟩ : ∃ v, v = View.startFree setup.debug e.alloc
    ((s.view e.alloc k).setCache cache) e (s.live.eraseIdx i) expectedSize := ⟨_, rfl⟩
  have hstart : s.step setup.debug (.deallocate k e.alloc i expectedSize) =
      some (s.update e.alloc k v) := by
    simp only [World.step, he', Option.bind_some, World.call_eq (hrefines.idle_last ht) hbind, hv]
    rfl
  have hfrees : ((s.update e.alloc k v).threads k).Frees := by
    rw [World.update_threads_same, hv]
    exact hs.inv.startFree_frees he' hexpected setup.debug cache
  obtain ⟨w₁, hw₁, hrefines₁⟩ := hrefines.start_call (k := k) hs.inv rfl hstart
  refine ⟨w₁, hw₁, fun actions w' hcaller hruns => ?_⟩
  have hends := hrefines₁.among (frees_kept setup k) (hs.inv.step hstart) hfrees hcaller hruns
  refine hends.idle.mono fun w'' hend => ?_
  obtain ⟨outcome, hidle, s'', hrefines'', _, hfrees''⟩ := hend
  rw [hrefines''.idle_last hidle] at hfrees''
  rw [hidle]
  exact congrArg Thread.idle hfrees''

/-- Every live allocation decodes to its class and its size, and can be freed with or without that
size; the cleared marker word is the marker of no block. -/
theorem Setup.Reachable.live_freeable (h : setup.Reachable w) {i : Nat} {e : Live ι κ}
    (he : w.live[i]? = some e) :
    (∃ header kind, decodeHeader w.mem e.ptr = .ok (header, kind) ∧
      header.requestedSize = e.size ∧
      (∀ c, SizeClass.fromRequest e.size = some c → kind = .small c) ∧
      (SizeClass.fromRequest e.size = none →
        SizeClass.maxSmallRequest < e.size ∧ kind = .large)) ∧
    (∀ k last, w.threads k = .idle last →
      (w.caches k).owner = some e.alloc ∨ (w.caches k).isEmpty = true →
      ∀ expectedSize, expectedSize = none ∨ expectedSize = some e.size →
        ∃ w₁, w.step setup.debug (.deallocate k e.alloc i expectedSize) = some w₁ ∧
          ∀ actions w', (∀ action ∈ actions, action.caller ≠ some k) →
            w₁.runs setup.debug actions = some w' →
              w'.Ends setup.debug k fun w'' => w''.threads k = .idle (some .freed)) ∧
    ∀ b, b % 64 = 0 → smallFreeMarkerFor b ≠ 0 := by
  refine ⟨?_, fun k last ht hcache expectedSize hexpected => h.frees he ht hcache hexpected,
    fun b hb => smallFreeMarkerFor_ne_zero hb⟩
  obtain ⟨s, hs, hrefines⟩ := h.refines
  rw [decodeHeader_congr fun hal => hrefines.sameFields hs.inv hal]
  exact hs.inv.decode_live (hrefines.live_eq ▸ List.mem_of_getElem? he)

/-- Cache 1 frees an allocation of cache 0 by its size. -/
theorem live_freeable_sample : sampleWorld.Calls true 1 (.deallocate 1 () 0 (some 10))
    fun w => w.threads 1 = .idle (some .freed) := by
  have he : ∃ e, sampleWorld.live[0]? = some e ∧ e.size = 10 := by decide +kernel
  obtain ⟨e, he, hsize⟩ := he
  have ht : ∃ last, sampleWorld.threads 1 = .idle last := ⟨_, by rfl⟩
  obtain ⟨last, ht⟩ := ht
  have howner : (sampleWorld.caches 1).owner = some () := by decide +kernel
  obtain ⟨w₁, hstep, hends⟩ := (sampleWorld_reachable.live_freeable he).2.1 1 last ht
    (Or.inl howner) (some 10) (Or.inr (by rw [hsize]))
  exact ⟨w₁, hstep, hends [] w₁ (by simp) rfl⟩

end Code

/-! ### Blocks that are not live -/

variable [DecidableEq ι] [DecidableEq κ]

/-- A free of any pointer, also of one that is not that of a live allocation. -/
def World.deallocatePtr {L B : Type} [BlockStore L B] (debug : Bool) (w : World ι κ L B) (k : κ)
    (a : ι) (ptr : Nat) (expectedSize : Option Nat) : Option (World ι κ L B) :=
  w.call k a fun v => v.startFree debug a ⟨a, k, ptr, 0, fun _ => none⟩ v.live expectedSize

section Stray

variable {setup : Setup ι κ} {a : ι} {c : SizeClass} {b : Nat}

theorem validatePrefix_error {p : AllocationHeaderPrefix} {e : FreeError}
    (h : validatePrefix p = .error e) : e = .corruptHeader := by
  unfold validatePrefix at h
  split at h
  · exact (Except.error.inj h).symm
  split at h
  · exact (Except.error.inj h).symm
  split at h
  · -- a small block, of a class that exists and of its payload
    split at h
    · exact (Except.error.inj h).symm
    · split at h
      · exact (Except.error.inj h).symm
      · cases h
  split at h
  · split at h
    · exact (Except.error.inj h).symm
    · cases h
  · exact (Except.error.inj h).symm

/-- The least that the header of a free block says makes a debug build refuse to free it. -/
theorem checkFree_raw {m : Mem} {allocator : Allocator FreeList} (hal : b % 64 = 0)
    (hheader : headerSize ∣ m.pageSize) (h : HeaderOk true m c b .raw)
    (hin : allocator.arena.containsBlockStart b = true) (expectedSize : Option Nat) :
    allocator.checkFree true m (userPtrFromBlockStart b) expectedSize = .error .doubleFree ∨
      allocator.checkFree true m (userPtrFromBlockStart b) expectedSize =
          .error .corruptHeader := by
  have hstart : blockStartFromUserPtr (userPtrFromBlockStart b) = b := by
    unfold blockStartFromUserPtr userPtrFromBlockStart
    omega
  have hdecode : decodeHeader m (userPtrFromBlockStart b) =
      readFromUserPtr m (userPtrFromBlockStart b) :=
    decodeHeader_eq (Nat.le_add_left headerSize b) (by rwa [hstart])
  rw [readFromUserPtr, hstart] at hdecode
  cases hvalid : validatePrefix (readPrefix m b) with
  | error e =>
    have he : e = .corruptHeader := validatePrefix_error hvalid
    apply Or.inr
    simp only [Allocator.checkFree, hdecode, hvalid, he]
  | ok kind =>
    have hmarked : (readHeader m b).requestedSize ≠ 0 := by
      intro hzero
      have hzero : (readPrefix m b).requestedSize = 0 := hzero
      unfold validatePrefix at hvalid
      split at hvalid
      · cases hvalid
      · simp [hzero] at hvalid
    obtain ⟨-, hkind, hmarker⟩ := (h rfl hheader).resolve_left hmarked
    have hsmall : ∃ d, kind = .small d := by
      have hkind : (readPrefix m b).kind = smallTag := hkind
      unfold validatePrefix at hvalid
      rw [if_pos hkind] at hvalid
      split at hvalid
      · cases hvalid
      split at hvalid
      · cases hvalid
      split at hvalid
      · cases hvalid
      · split at hvalid
        · cases hvalid
        · exact ⟨_, (Except.ok.inj hvalid).symm⟩
    obtain ⟨d, rfl⟩ := hsmall
    have hfreed : smallBlockIsMarkedFreed true m b = true := by
      have hmarker : m.read (b + 32) 8 = smallFreeMarkerFor b := hmarker
      simp [smallBlockIsMarkedFreed, hmarker]
    apply Or.inl
    simp only [Allocator.checkFree, hdecode, hvalid]
    cases expectedSize <;> simp [Allocator.deallocateDecoded,
      Allocator.deallocateDecodedWithExpectedSize, Allocator.validateSmallBlockForFree, hstart, hin,
      hfreed]

variable {w : World ι κ FreeList Batch} {s : World ι κ Seq Seq} {k : κ}

omit [DecidableEq ι] [DecidableEq κ] in
/-- The header of a block of a slab that is not live can be relied on as far as its place tells. -/
theorem Inv.headerOk_of_not_live (inv : Inv setup s) {slab : SlabRecord Seq}
    (hslab : slab ∈ ((s.allocators a).central.lists c).slabs) (hb : b ∈ slab.blocks)
    (hlive : ∀ e ∈ s.live, e.ptr ≠ userPtrFromBlockStart b) :
    HeaderOk setup.debug s.mem c b .raw := by
  obtain ⟨p, hp⟩ := (inv.ledger.covered (setup.smallCell a c b) rfl).mpr
    ⟨c, slab.shape, List.mem_map_of_mem hslab, b, hb, rfl⟩
  cases htrust : s.trust setup p with
  | some t =>
    have hok := inv.memory.free p t htrust _ hp c rfl
    exact hok.weaken trivial
  | none =>
    -- the places without trust are the clients and the large objects
    exfalso
    cases p with
    | client =>
      obtain ⟨e, he, hcell⟩ := List.mem_filterMap.mp (Multiset.mem_coe.mp hp)
      obtain ⟨d, -, heq⟩ := Option.map_eq_some_iff.mp hcell
      have hlo : blockStartFromUserPtr e.ptr = b := congrArg Cell.lo heq
      have hle := (inv.memory.entry none e he).header_le
      apply hlive e he
      unfold blockStartFromUserPtr at hlo
      unfold userPtrFromBlockStart
      omega
    | largeLive d =>
      have hp : setup.smallCell a c b ∈ ((s.allocators d).large.liveBag).map (largeCell d) := hp
      obtain ⟨block, -, heq⟩ := Multiset.mem_map.mp hp
      cases congrArg Cell.cls heq
    | largeFree d =>
      have hp : setup.smallCell a c b ∈ ((s.allocators d).large.freeBag).map (largeCell d) := hp
      obtain ⟨block, -, heq⟩ := Multiset.mem_map.mp hp
      cases congrArg Cell.cls heq
    | _ => cases htrust

/-- A debug build refuses to free a block of a slab that is not live, with or without a size and
wherever the block is, and nothing but the answer changes. -/
theorem Setup.Reachable.not_live_refused (h : setup.Reachable w) (hdebug : setup.debug = true)
    (hpage : headerSize ∣ setup.pageSize) {slab : SlabRecord FreeList}
    (hslab : slab ∈ ((w.allocators a).central.lists c).slabs)
    (hb : b ∈ slabBlocks slab.start slab.blockSize slab.capacity)
    (hlive : ∀ e ∈ w.live, e.ptr ≠ userPtrFromBlockStart b) {last : Option Outcome}
    (ht : w.threads k = .idle last) (howner : (w.caches k).owner = some a)
    (expectedSize : Option Nat) :
    ∃ e, (e = .doubleFree ∨ e = .corruptHeader) ∧
      w.deallocatePtr setup.debug k a (userPtrFromBlockStart b) expectedSize =
        some { w with threads := Function.update w.threads k (.idle (some (.freeError e))) } := by
  obtain ⟨s, hs, hrefines⟩ := h.refines
  have hshape := hrefines.shapes_eq a c ▸ List.mem_map_of_mem (f := SlabRecord.shape) hslab
  obtain ⟨slab', hslab', heq⟩ := List.mem_map.mp hshape
  have hb' : b ∈ slab'.blocks := by
    simp only [SlabRecord.shape, Prod.mk.injEq] at heq
    rwa [SlabRecord.blocks, heq.1, heq.2.2.1, heq.2.2.2]
  have hraw := hs.inv.headerOk_of_not_live hslab' hb' (hrefines.live_eq ▸ hlive)
  have hal : b % 64 = 0 := hs.inv.slabBlock_aligned ⟨a, c, slab', hslab', hb'⟩
  have hpageSize : w.mem.pageSize = setup.pageSize :=
    hrefines.agree.pageSize.trans hs.inv.parts.pageSize_eq
  rw [hdebug] at hraw
  have hraw := hraw.congr (hrefines.sameFields hs.inv hal) (fun hne => absurd rfl hne)
  have hin : (w.allocators a).arena.containsBlockStart b = true := by
    obtain ⟨p, hp⟩ := (hs.inv.ledger.covered (setup.smallCell a c b) rfl).mpr
      ⟨c, slab'.shape, List.mem_map_of_mem hslab', b, hb', rfl⟩
    have hcontains := hs.inv.containsBlockStart hp a
    rw [hrefines.code]
    exact hcontains.trans (decide_eq_true rfl)
  have hcheck : (w.allocators a).checkFree true w.mem (userPtrFromBlockStart b) expectedSize =
        .error .doubleFree ∨ (w.allocators a).checkFree true w.mem (userPtrFromBlockStart b)
          expectedSize = .error .corruptHeader :=
    checkFree_raw hal (hpageSize ▸ hpage) hraw hin expectedSize
  have hbind : (w.caches k).bindToAllocator a (w.allocators a).config = some (w.caches k) :=
    if_pos howner
  have hcall : w.deallocatePtr setup.debug k a (userPtrFromBlockStart b) expectedSize =
      some (w.update a k ((w.view a k).startFree setup.debug a
        ⟨a, k, userPtrFromBlockStart b, 0, fun _ => none⟩ w.live expectedSize)) :=
    World.call_eq ht hbind _
  rw [hcall, hdebug]
  have hview : ∀ e, (w.allocators a).checkFree true w.mem (userPtrFromBlockStart b) expectedSize =
      .error e → (w.view a k).startFree true a ⟨a, k, userPtrFromBlockStart b, 0, fun _ => none⟩
        w.live expectedSize = (w.view a k).finish (.freeError e) := by
    intro e he
    have he : (w.view a k).allocator.checkFree true (w.view a k).mem (userPtrFromBlockStart b)
      expectedSize = .error e := he
    simp only [View.startFree, he]
  rcases hcheck with he | he
  · exact ⟨_, Or.inl rfl, by rw [hview _ he, World.update_finish]⟩
  · exact ⟨_, Or.inr rfl, by rw [hview _ he, World.update_finish]⟩

/-- Cache 1 frees a block that cache 0 has just begun to free. -/
theorem not_live_refused_sample : ∃ e, (e = .doubleFree ∨ e = .corruptHeader) ∧
    sampleWorld.deallocatePtr true 1 () (userPtrFromBlockStart 4352) none =
      some { sampleWorld with
        threads := Function.update sampleWorld.threads 1 (.idle (some (.freeError e))) } := by
  have hslab : ∃ slab ∈ ((sampleWorld.allocators ()).central.lists .b64).slabs,
      4352 ∈ slabBlocks slab.start slab.blockSize slab.capacity := by decide +kernel
  obtain ⟨slab, hslab, hb⟩ := hslab
  have hlive : ∀ e ∈ sampleWorld.live, e.ptr ≠ userPtrFromBlockStart 4352 := by decide +kernel
  have ht : ∃ last, sampleWorld.threads 1 = .idle last := ⟨_, by rfl⟩
  obtain ⟨last, ht⟩ := ht
  exact sampleWorld_reachable.not_live_refused rfl (by decide) hslab hb hlive ht
    (by decide +kernel) none

end Stray

end Orthotope
