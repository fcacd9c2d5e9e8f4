import Orthotope.Refinement

/-! Every action of the code against the same action over sequences: a call in progress takes its
next step, a call starts, a client stores, the system discards.  An action is possible on both sides
or on none, and keeps them related; so every reachable state of the code stands for a reachable
state over sequences. -/

namespace Orthotope

open ByteMemory LinkedChain

variable {ι κ : Type}

section Steps

variable [DecidableEq ι] [DecidableEq κ] {setup : Setup ι κ} {w : World ι κ FreeList Batch}
  {s : World ι κ Seq Seq} {a : ι} {k : κ} {debug : Bool} {advised : Bool × Bool}

theorem Refines.matched_keeping (inv : Inv setup s) (h : Refines w s) {pc : Pc ι κ Seq}
    (ht : s.threads k = .busy a pc) : MatchedKeeping debug advised a k w s pc := by
  cases pc with
  | refill c size => exact h.refill inv ht
  | gotBatch c size batch => exact h.gotBatch inv ht
  | gotSlab c size start blockSize capacity => exact h.takeSlab inv ht (Or.inl rfl)
  | carve c size => exact h.carve inv ht
  | carved c size span => exact h.carved inv ht
  | registered c size start blockSize capacity => exact h.takeSlab inv ht (Or.inr rfl)
  | pop c size => exact h.pop inv ht
  | popped c size block reuse => exact h.popped inv ht
  | large size blockSize => exact h.large inv ht
  | largeCarve size blockSize => exact h.largeCarve inv ht
  | largeGot size start blockSize => exact h.largeGot inv ht
  | largeWritten size start blockSize => exact h.largeWritten inv ht
  | report size => exact h.plain inv ht trivial rfl
  | route c block owner => exact h.route inv ht
  | releasing entry requestedSize usableSize => exact h.releasing inv ht
  | flush classes => exact h.flush inv ht
  | drain classes => exact h.drain inv ht
  | unstage c resume => exact h.unstage inv ht
  | publishing c batch resume => exact h.publishing inv ht
  | excess c max resume => exact h.excess inv ht
  | returning c batch resume => exact h.returning inv ht

theorem Refines.matched (inv : Inv setup s) (h : Refines w s) {pc : Pc ι κ Seq}
    (ht : s.threads k = .busy a pc) : Matched debug advised a k w s pc :=
  (h.matched_keeping inv ht).matched

/-! ### Binding -/

theorem ThreadCache.bindToAllocator_map (cache : ThreadCache ι Seq) (config : AllocatorConfig) :
    (cache.map FreeList.ofSeq).bindToAllocator a config =
      (cache.bindToAllocator a config).map (ThreadCache.map FreeList.ofSeq) := by
  have hempty : (cache.map FreeList.ofSeq).isEmpty = cache.isEmpty := cache.isEmpty_map _
  have howner : (cache.map FreeList.ofSeq).owner = cache.owner := rfl
  simp only [bindToAllocator, hempty, howner]
  split
  · rfl
  · split <;> rfl

/-- A cache that is bound anew has no lists. -/
theorem ThreadCache.bindToAllocator_cases {cache cache' : ThreadCache ι Seq}
    {config : AllocatorConfig} (h : cache.bindToAllocator a config = some cache') :
    cache' = cache ∨ ∀ c, cache'.classes c = LocalClassCache.new ∧
      cache'.remoteReturns c = RemoteReturns.new := by
  unfold bindToAllocator at h
  split at h
  · exact Or.inl (Option.some.inj h).symm
  · split at h
    · cases h
    · obtain rfl := Option.some.inj h
      exact Or.inr fun _ => ⟨rfl, rfl⟩

theorem ThreadCache.bindToAllocator_owner {L : Type} [BlockList L] {cache cache' : ThreadCache ι L}
    {config : AllocatorConfig} (h : cache.bindToAllocator a config = some cache') :
    cache'.owner = some a := by
  unfold bindToAllocator at h
  split at h
  · rename_i howner
    obtain rfl := Option.some.inj h
    exact howner
  · split at h
    · cases h
    · obtain rfl := Option.some.inj h
      rfl

theorem Refines.bind (h : Refines w s) {cache : ThreadCache ι Seq}
    (hbind : (s.caches k).bindToAllocator a (s.allocators a).config = some cache) :
    Refines ((s.update a k ((s.view a k).setCache cache)).code w.mem)
      (s.update a k ((s.view a k).setCache cache)) where
  code := rfl
  agree := h.agree.mono (slabBlock_update fun _ _ hs => hs)
  linked := fun g l hl => by
    have hthread : (s.update a k ((s.view a k).setCache cache)).threads = s.threads :=
      Function.update_eq_self ..
    have hallocators : (s.update a k ((s.view a k).setCache cache)).allocators = s.allocators :=
      Function.update_eq_self ..
    rcases ThreadCache.bindToAllocator_cases hbind with heq | hnew
    · have hcaches : (s.update a k ((s.view a k).setCache cache)).caches = s.caches := by
        rw [heq]
        exact Function.update_eq_self ..
      apply h.linked g l
      cases g <;> simpa only [World.group, hthread, hallocators, hcaches] using hl
    · have hnil : ∀ l, l ∈ (LocalClassCache.new : LocalClassCache Seq).lists → l = [] := by
        intro l hl
        simpa [LocalClassCache.lists, LocalClassCache.new] using hl
      cases g with
      | cache j c =>
        by_cases hj : j = k
        · subst hj
          simp only [World.group, World.update_caches_same, View.setCache, (hnew c).1] at hl
          rw [hnil l hl]
          trivial
        · apply h.linked (.cache j c) l
          simpa only [World.group, World.update_caches_ne _ _ hj] using hl
      | staged j c =>
        by_cases hj : j = k
        · subst hj
          simp only [World.group, World.update_caches_same, View.setCache, (hnew c).2,
            List.mem_singleton] at hl
          rw [hl]
          trivial
        · apply h.linked (.staged j c) l
          simpa only [World.group, World.update_caches_ne _ _ hj] using hl
      | central b c =>
        exact h.linked (.central b c) l
          (by simpa only [World.group, hallocators] using hl)
      | hand j => exact h.linked (.hand j) l (by simpa only [World.group, hthread] using hl)

/-! ### The starts of calls -/

omit [DecidableEq ι] [DecidableEq κ] in
/-- Blocks of slabs are aligned, so their link words meet the header of no other block. -/
theorem Inv.slabBlock_aligned (inv : Inv setup s) {b : Nat} (h : s.SlabBlock b) : b % 64 = 0 := by
  obtain ⟨a, c, slab, hslab, hb⟩ := h
  obtain ⟨p, hp⟩ := (inv.ledger.covered (setup.smallCell a c b) rfl).mpr
    ⟨c, slab.shape, List.mem_map_of_mem hslab, b, hb, rfl⟩
  exact (inv.ledger.inArena p _ hp).aligned

omit [DecidableEq ι] [DecidableEq κ] in
/-- Outside of link words a header is the same in both memories. -/
theorem Refines.sameFields (inv : Inv setup s) (h : Refines w s) {b : Nat} (hb : b % 64 = 0) :
    SameFields b s.mem w.mem where
  byte := fun x hx hlink => by
    refine h.agree.byte x fun b' hb' hlink' => ?_
    have := inv.slabBlock_aligned hb'
    unfold inHeader headerSize at hx
    unfold inLink at hlink hlink'
    omega
  pageSize := h.agree.pageSize

theorem Refines.startAllocate (h : Refines w s) (size : Nat) :
    ((s.view a k).code w.mem).startAllocate a size =
        ((s.view a k).startAllocate a size).code w.mem ∧
      Refines ((s.update a k ((s.view a k).startAllocate a size)).code w.mem)
        (s.update a k ((s.view a k).startAllocate a size)) := by
  have hblock : ((s.view a k).code w.mem).allocator.largeBlockSize size =
    (s.view a k).allocator.largeBlockSize size := rfl
  have hrefill : ∀ c, ((s.view a k).code w.mem).cache.needsRefill c =
    (s.view a k).cache.needsRefill c := fun _ => rfl
  obtain ⟨v, hv⟩ : ∃ v, v = (s.view a k).startAllocate a size := ⟨_, rfl⟩
  have hstart : ((s.view a k).code w.mem).startAllocate a size = v.code w.mem ∧
      v.mem = s.mem ∧ v.cache = s.caches k ∧ v.allocator = s.allocators a ∧
        v.thread.batch = [] := by
    subst hv
    unfold View.startAllocate
    simp only [hblock, hrefill]
    split
    · exact ⟨rfl, rfl, rfl, rfl, rfl⟩
    · split
      · split <;> exact ⟨rfl, rfl, rfl, rfl, rfl⟩
      · split <;> exact ⟨rfl, rfl, rfl, rfl, rfl⟩
  obtain ⟨hcode, hmem, hcache, halloc, hbatch⟩ := hstart
  rw [← hv]
  exact ⟨hcode, h.step_quiet (hmem ▸ h.agree) (fun _ _ _ _ _ _ => rfl) hcache (congrArg _ halloc)
    hbatch⟩

/-- Decoding reads no link word. -/
theorem decodeHeader_congr {m m' : Mem} {ptr : Nat}
    (hsame : blockStartFromUserPtr ptr % 64 = 0 → SameFields (blockStartFromUserPtr ptr) m m') :
    decodeHeader m' ptr = decodeHeader m ptr := by
  by_cases hal : blockStartFromUserPtr ptr % 64 = 0
  · have hprefix := (hsame hal).readPrefix_eq
    simp only [decodeHeader, readFromUserPtr, hprefix]
  · have hbad : (ptr - headerSize) % headerAlignment ≠ 0 := hal
    simp only [decodeHeader, if_pos hbad]

/-- The checks of a free read no link word. -/
theorem Allocator.checkFree_congr {L : Type} (allocator : Allocator L) {m m' : Mem} {ptr : Nat}
    (hsame : blockStartFromUserPtr ptr % 64 = 0 → SameFields (blockStartFromUserPtr ptr) m m')
    (expectedSize : Option Nat) : allocator.checkFree debug m' ptr expectedSize =
      allocator.checkFree debug m ptr expectedSize := by
  have hdecode := decodeHeader_congr hsame
  by_cases hal : blockStartFromUserPtr ptr % 64 = 0
  · have hmarker : m'.read (blockStartFromUserPtr ptr + 32) 8 =
        m.read (blockStartFromUserPtr ptr + 32) 8 :=
      (hsame hal).read_eq (by omega) (by omega) (by omega)
    have hmarked : smallBlockIsMarkedFreed debug m' (blockStartFromUserPtr ptr) =
        smallBlockIsMarkedFreed debug m (blockStartFromUserPtr ptr) := by
      simp only [smallBlockIsMarkedFreed, hmarker]
    have hvalid : allocator.validateSmallBlockForFree debug m' ptr =
        allocator.validateSmallBlockForFree debug m ptr := by
      simp only [validateSmallBlockForFree, hmarked]
    unfold checkFree
    rw [hdecode]
    rcases decodeHeader m ptr with e | ⟨header, kind⟩
    · rfl
    · cases expectedSize <;> cases kind <;>
        simp only [deallocateDecoded, deallocateDecodedWithExpectedSize, hvalid]
  · have hbad : (ptr - headerSize) % headerAlignment ≠ 0 := hal
    have hcorrupt : decodeHeader m ptr = .error .corruptHeader := by simp [decodeHeader, hbad]
    simp only [checkFree, hdecode, hcorrupt]

theorem Refines.startFree (inv : Inv setup s) (h : Refines w s) {entry : Live ι κ} {i : Nat}
    (hentry : s.live[i]? = some entry) (expectedSize : Option Nat) :
    ∃ m, ((s.view a k).code w.mem).startFree debug a entry (s.live.eraseIdx i) expectedSize =
        ((s.view a k).startFree debug a entry (s.live.eraseIdx i) expectedSize).code m ∧
      Refines ((s.update a k ((s.view a k).startFree debug a entry (s.live.eraseIdx i)
          expectedSize)).code m)
        (s.update a k ((s.view a k).startFree debug a entry (s.live.eraseIdx i) expectedSize)) := by
  have hmem : entry ∈ s.live := List.mem_of_getElem? hentry
  have hcheck : ((s.view a k).code w.mem).allocator.checkFree debug ((s.view a k).code w.mem).mem
      entry.ptr expectedSize =
        (s.allocators a).checkFree debug s.mem entry.ptr expectedSize :=
    (Allocator.checkFree_congr _ (fun hal => h.sameFields inv hal) expectedSize).trans rfl
  have hquiet : ∀ v : View ι κ Seq Seq, v.mem = s.mem → v.cache = s.caches k →
      v.allocator = s.allocators a → v.thread.batch = [] →
        Refines ((s.update a k v).code w.mem) (s.update a k v) := fun v hm hc ha hb =>
    h.step_quiet (hm ▸ h.agree) (fun _ _ _ _ _ _ => rfl) hc (congrArg _ ha) hb
  cases hc : SizeClass.fromRequest entry.size with
  | none =>
    obtain ⟨record, _, hS⟩ := inv.checkFree_large (a := a) hmem hc debug expectedSize
    have hF := hcheck.trans hS
    have hS : (s.view a k).allocator.checkFree debug (s.view a k).mem entry.ptr expectedSize =
      sizeChecked expectedSize entry.size (.large entry.size record.usableSize) := hS
    refine ⟨w.mem, ?_⟩
    simp only [View.startFree, hF, hS]
    rcases sizeChecked_cases expectedSize entry.size (.large entry.size record.usableSize) with
      heq | ⟨e, heq⟩ <;> simp only [heq]
    · exact ⟨rfl, hquiet _ rfl rfl rfl rfl⟩
    · exact ⟨rfl, hquiet _ rfl rfl rfl rfl⟩
  | some c =>
    have hS := inv.checkFree_small (a := a) hmem hc debug expectedSize
    have hF := hcheck.trans hS
    have hS : (s.view a k).allocator.checkFree debug (s.view a k).mem entry.ptr expectedSize = _ :=
      hS
    by_cases ha : entry.alloc = a
    · simp only [View.startFree, hF, hS, ha, if_true]
      rcases sizeChecked_cases expectedSize entry.size (.small c (blockStartFromUserPtr entry.ptr)
        (setup.cacheId entry.cache)) with heq | ⟨e, heq⟩ <;> simp only [heq]
      · refine ⟨markSmallBlockFreed debug w.mem (blockStartFromUserPtr entry.ptr), rfl, ?_⟩
        refine h.step_quiet (h.agree.markSmallBlockFreed _) ?_ rfl rfl rfl
        have hcell : setup.smallCell entry.alloc c (blockStartFromUserPtr entry.ptr) ∈
            s.own setup .client := Live.mem_client hmem hc
        have hsize := (setup.config entry.alloc).header_payload_le_classBlockSize c
        refine inv.keepsLinks (writesIn_mark debug w.mem _) hcell
          (fun x hx => ⟨hx.1, ?_⟩) fun g hg => by cases hg
        have := hx.2
        simp only [Setup.smallCell]
        omega
      · exact ⟨w.mem, rfl, hquiet _ rfl rfl rfl rfl⟩
    · refine ⟨w.mem, ?_⟩
      simp only [View.startFree, hF, hS, ha, if_false]
      exact ⟨rfl, hquiet _ rfl rfl rfl rfl⟩

theorem Refines.call (inv : Inv setup s) (h : Refines w s)
    {startF : View ι κ FreeList Batch → View ι κ FreeList Batch}
    {startS : View ι κ Seq Seq → View ι κ Seq Seq}
    (hstart : ∀ {w₁ : World ι κ FreeList Batch} {s₁ : World ι κ Seq Seq}, Inv setup s₁ →
      Refines w₁ s₁ → s₁.live = s.live → ∃ m, startF ((s₁.view a k).code w₁.mem) =
        (startS (s₁.view a k)).code m ∧
          Refines ((s₁.update a k (startS (s₁.view a k))).code m)
            (s₁.update a k (startS (s₁.view a k)))) :
    Option.Rel Refines (w.call k a startF) (s.call k a startS) := by
  have hw : w = s.code w.mem := h.code
  rw [hw]
  unfold World.call
  have hthread : (s.code w.mem).threads k = (s.threads k).map Batch.ofSeq := rfl
  have hbind : ((s.code w.mem).caches k).bindToAllocator a ((s.code w.mem).allocators a).config =
      ((s.caches k).bindToAllocator a (s.allocators a).config).map
        (ThreadCache.map FreeList.ofSeq) := ThreadCache.bindToAllocator_map _ _
  rw [hthread, hbind]
  cases ht : s.threads k with
  | busy b pc => exact .none
  | idle last =>
    cases hcache : (s.caches k).bindToAllocator a (s.allocators a).config with
    | none =>
      have := h.step_quiet (a := a) (k := k) (v := (s.view a k).finish .panicked) h.agree
        (fun _ _ _ _ _ _ => rfl) rfl rfl rfl
      rw [← World.update_code w.mem] at this
      exact .some this
    | some cache =>
      refine .some ?_
      obtain ⟨inv', _⟩ := inv.bind ht hcache
      obtain ⟨m, hcode, hrefines⟩ := hstart inv' (h.bind hcache) rfl
      rw [World.view_update, World.update_update] at hrefines
      rw [World.view_update] at hcode
      have hcode : startF ((((s.code w.mem).view a k).setCache (cache.map FreeList.ofSeq))) =
        (startS ((s.view a k).setCache cache)).code m := hcode
      rw [hcode, World.update_code]
      exact hrefines

/-! ### Clients and the system -/

omit [DecidableEq ι] [DecidableEq κ] in
theorem Refines.discard (inv : Inv setup s) (h : Refines w s) {page : Nat}
    (hpage : w.mem.lazyPage page = true) :
    Refines { w with mem := w.mem.discard page } { s with mem := s.mem.discard page } where
  code := by
    have := h.code
    simp only [World.code] at this ⊢
    rw [this]
  agree := h.agree.discard page
  linked := fun g l hl => by
    have hl : l ∈ s.group g := by cases g <;> exact hl
    refine (h.linked g l hl).congr fun b hb => readNext_congr fun x hx => ?_
    apply Mem.discard_byte_of_lazyAt hpage
    have hres := inv.list_resident hl hb x ⟨?_, ?_⟩
    · rw [← Bool.not_eq_true] at hres ⊢
      exact fun hlazy => hres (h.agree.lazyAt hlazy)
    · have := hx.1
      omega
    · have := hx.2
      unfold headerSize
      omega

theorem Refines.store (inv : Inv setup s) (h : Refines w s) {i offset : Nat} {value : UInt8}
    {entry : Live ι κ} (hentry : s.live[i]? = some entry) (hoff : offset < entry.size)
    (live : List (Live ι κ)) :
    Refines { w with mem := w.mem.write (entry.ptr + offset) 1 value.toNat, live }
      { s with mem := s.mem.write (entry.ptr + offset) 1 value.toNat, live } where
  code := by
    have := h.code
    simp only [World.code] at this ⊢
    rw [this]
  agree := h.agree.write _ _ _
  linked := fun g l hl => by
    obtain ⟨p, x, hx⟩ := inv.exists_cell (g := none) (List.mem_of_getElem? hentry)
    have hgroup : p.group = none := by
      rcases hx.place with rfl | rfl <;> rfl
    have hl : l ∈ s.group g := by cases g <;> exact hl
    refine (h.linked g l hl).congr fun b hb => ?_
    have hw : WritesIn (fun y => y = entry.ptr + offset) w.mem
        (w.mem.write (entry.ptr + offset) 1 value.toNat) := WritesIn.write fun y h1 h2 => by omega
    refine inv.keepsLink hw hx.mem (fun y hy => ?_) (by simp [hgroup]) hl hb
    have h1 := hx.lo_eq
    have h2 := hx.le_hi
    unfold blockStartFromUserPtr at h1
    omega

/-! ### Actions -/

omit [DecidableEq ι] [DecidableEq κ] in
theorem Refines.threads_eq (h : Refines w s) (k : κ) :
    w.threads k = (s.threads k).map Batch.ofSeq := by
  rw [h.code]
  rfl

omit [DecidableEq ι] [DecidableEq κ] in
theorem Refines.live_eq (h : Refines w s) : w.live = s.live := by
  rw [h.code]
  rfl

omit [DecidableEq ι] [DecidableEq κ] in
theorem Refines.busy (h : Refines w s) {pc : Pc ι κ Batch} (ht : w.threads k = .busy a pc) :
    ∃ pc', s.threads k = .busy a pc' ∧ pc = pc'.map Batch.ofSeq := by
  have hmap := (h.threads_eq k).symm.trans ht
  cases hs : s.threads k with
  | idle last =>
    rw [hs] at hmap
    cases hmap
  | busy b pc' =>
    rw [hs] at hmap
    obtain ⟨rfl, rfl⟩ := Thread.busy.inj hmap
    exact ⟨pc', rfl, rfl⟩

/-- The next step of a call in progress, whatever it is, is possible on both sides. -/
theorem Refines.run (debug : Bool) (inv : Inv setup s) (h : Refines w s) {pc : Pc ι κ Batch}
    (ht : w.threads k = .busy a pc) (advised : Bool × Bool) :
    ∃ w' s', w.step debug (.run k advised) = some w' ∧ s.step debug (.run k advised) = some s' ∧
      Refines w' s' := by
  obtain ⟨pc', hs, rfl⟩ := h.busy ht
  obtain ⟨v, m, hS, hF, hrefines⟩ : Matched debug advised a k w s pc' := h.matched inv hs
  refine ⟨(s.update a k v).code m, s.update a k v, ?_, ?_, hrefines⟩
  · simp only [World.step, ht]
    have hview : w.view a k = (s.view a k).code w.mem := by
      rw [h.code]
      rfl
    rw [hview, hF, Option.map_some, h.code, World.update_code]
  · simp only [World.step, hs, hS, Option.map_some]

/-- The cache of a call that an action starts. -/
def Action.caller : Action ι κ → Option κ
  | .allocate k _ _ | .deallocate k _ _ _ | .drain k _ => some k
  | .run _ _ | .store _ _ _ | .discard _ => none

/-- A call can start on both sides or on none. -/
theorem Refines.starts (debug : Bool) (inv : Inv setup s) (h : Refines w s) {action : Action ι κ}
    (hcall : action.caller = some k) :
    Option.Rel Refines (w.step debug action) (s.step debug action) := by
  cases action with
  | allocate j a size =>
    show Option.Rel Refines (w.call j a fun v => v.startAllocate a size)
      (s.call j a fun v => v.startAllocate a size)
    exact h.call inv fun _ h₁ _ => ⟨_, h₁.startAllocate size⟩
  | deallocate j a i expectedSize =>
    simp only [World.step, h.live_eq]
    cases hentry : s.live[i]? with
    | none => exact .none
    | some entry =>
      show Option.Rel Refines
        (w.call j a fun v => v.startFree debug a entry (v.live.eraseIdx i) expectedSize)
        (s.call j a fun v => v.startFree debug a entry (v.live.eraseIdx i) expectedSize)
      exact h.call inv fun inv₁ h₁ hlive => h₁.startFree inv₁ (hlive ▸ hentry) expectedSize
  | drain j a =>
    show Option.Rel Refines (w.call j a fun v => v.goto a (.flush SizeClass.all))
      (s.call j a fun v => v.goto a (.flush SizeClass.all))
    exact h.call inv fun _ h₁ _ =>
      ⟨_, rfl, h₁.step_quiet h₁.agree (fun _ _ _ _ _ _ => rfl) rfl rfl rfl⟩
  | run j advised => cases hcall
  | store i offset value => cases hcall
  | discard page => cases hcall

theorem Refines.forward (inv : Inv setup s) (h : Refines w s) {action : Action ι κ}
    {w' : World ι κ FreeList Batch} (hstep : w.step debug action = some w') :
    ∃ s', s.step debug action = some s' ∧ Refines w' s' := by
  have hcall : ∀ {k : κ}, action.caller = some k →
      ∃ s', s.step debug action = some s' ∧ Refines w' s' := fun {k} hk => by
    obtain ⟨r, hr⟩ : ∃ r, r = s.step debug action := ⟨_, rfl⟩
    have hrel := h.starts debug inv hk
    rw [hstep, ← hr] at hrel
    cases hrel with
    | some hrefines => exact ⟨_, hr.symm, hrefines⟩
  cases action with
  | allocate k a size => exact hcall rfl
  | deallocate k a i expectedSize => exact hcall rfl
  | drain k a => exact hcall rfl
  | run k advised =>
    cases ht : w.threads k with
    | idle last => simp [World.step, ht] at hstep
    | busy a pc =>
      obtain ⟨w₁, s', hF, hS, hrefines⟩ := h.run debug inv ht advised
      obtain rfl := Option.some.inj (hF.symm.trans hstep)
      exact ⟨s', hS, hrefines⟩
  | store i offset value =>
    simp only [World.step, h.live_eq] at hstep ⊢
    obtain ⟨entry, hentry, hstep⟩ := Option.bind_eq_some_iff.mp hstep
    split at hstep
    · rename_i hoff
      obtain rfl := Option.some.inj hstep
      rw [hentry]
      refine ⟨_, ?_, h.store inv hentry hoff _⟩
      simp [hoff]
    · cases hstep
  | discard page =>
    simp only [World.step] at hstep ⊢
    split at hstep
    · rename_i hpage
      obtain rfl := Option.some.inj hstep
      rw [if_pos (h.agree.lazyPage page hpage)]
      exact ⟨_, rfl, h.discard inv hpage⟩
    · cases hstep

end Steps

/-! ### Runs -/

section Runs

variable {setup : Setup ι κ} {w : World ι κ FreeList Batch}

theorem refines_initial (setup : Setup ι κ) :
    Refines (setup.world FreeList Batch) (setup.world Seq Seq) where
  code := rfl
  agree := Agree.refl _ _
  linked := fun g l hl => by
    have hnil : l = [] := by
      cases g <;> simpa [World.group, Setup.world, ThreadCache.new, LocalClassCache.lists,
        LocalClassCache.new, RemoteReturns.new, CentralPool.classLists, CentralPool.new,
        ClassPool.freeLists, ClassPool.new, Thread.batch] using hl
    rw [hnil]
    trivial

variable [DecidableEq ι] [DecidableEq κ]

/-- Every reachable state of the code stands for a reachable state over sequences. -/
theorem Setup.Reachable.refines (h : setup.Reachable w) :
    ∃ s : World ι κ Seq Seq, setup.Reachable s ∧ Refines w s := by
  induction h with
  | initial => exact ⟨_, .initial, refines_initial setup⟩
  | step action _ hstep ih =>
    obtain ⟨s, hs, hrefines⟩ := ih
    obtain ⟨s', hS, hrefines'⟩ := hrefines.forward hs.inv hstep
    exact ⟨s', hs.step action hS, hrefines'⟩

/-- A call in progress can always take its next step: no reachable state is one in which the source
would panic or have no defined behaviour. -/
theorem Setup.Reachable.progress (h : setup.Reachable w) {a : ι} {k : κ} {pc : Pc ι κ Batch}
    (ht : w.threads k = .busy a pc) (advised : Bool × Bool) :
    ∃ w', w.step setup.debug (.run k advised) = some w' := by
  obtain ⟨s, hs, hrefines⟩ := h.refines
  obtain ⟨w', _, hw', _⟩ := hrefines.run setup.debug hs.inv ht advised
  exact ⟨w', hw'⟩

end Runs

end Orthotope
