import Orthotope.Frees

/-! The large objects of an allocator over whole runs.  An allocation takes a block from the free
pool, or from the arena, in one step and records it in another, and has it in its hands in between.
A block that has once been recorded stays the block it is, and is in one of these places. -/

namespace Orthotope

open ByteMemory Ownership

variable {ι κ : Type}

/-- The large block that an allocation has in its hands. -/
def Pc.largeBlock {B : Type} : Pc ι κ B → Option FreeLargeBlock
  | .largeGot _ start blockSize | .largeWritten _ start blockSize => some ⟨start, blockSize⟩
  | _ => none

/-- Where a large block of an allocator can be. -/
inductive LargePlace (κ : Type) where
  | live
  | free
  | hand (k : κ)
  deriving DecidableEq

section Places

variable [DecidableEq ι] {L B : Type}

def Thread.largeBlocks (a : ι) : Thread ι κ B → Multiset FreeLargeBlock
  | .idle _ => 0
  | .busy b pc => if b = a then (pc.largeBlock.toList : Multiset FreeLargeBlock) else 0

/-- The large blocks of allocator `a`, by place. -/
def World.largeBlocks (w : World ι κ L B) (a : ι) : LargePlace κ → Multiset FreeLargeBlock
  | .live => (w.allocators a).large.liveBag
  | .free => (w.allocators a).large.freeBag
  | .hand k => (w.threads k).largeBlocks a

theorem Thread.largeBlocks_busy (a : ι) (pc : Pc ι κ B) :
    (Thread.busy a pc).largeBlocks a = (pc.largeBlock.toList : Multiset FreeLargeBlock) :=
  if_pos rfl

end Places

section Steps

variable {setup : Setup ι κ} {s s' : World ι κ Seq Seq} {a : ι} {k : κ} {block : FreeLargeBlock}

def LargePlace.place (a : ι) : LargePlace κ → Place ι κ
  | .live => .largeLive a
  | .free => .largeFree a
  | .hand k => .hand k

variable [DecidableEq ι]

/-- Large blocks are cells of the ledger. -/
theorem largeCells_le_own (p : LargePlace κ) :
    (s.largeBlocks a p).map (largeCell a) ≤ s.own setup (p.place a) := by
  cases p with
  | live => exact le_refl _
  | free => exact le_refl _
  | hand k =>
    have hle : ((s.threads k).largeBlocks a).map (largeCell a) ≤ (s.threads k).cells setup := by
      cases s.threads k with
      | idle last => exact Multiset.zero_le _
      | busy b pc =>
        by_cases hb : b = a
        · subst hb
          rw [Thread.largeBlocks_busy]
          cases pc with
          | largeGot size start blockSize => exact Multiset.le_add_left _ _
          | largeWritten size start blockSize => exact Multiset.le_add_left _ _
          | _ => exact Multiset.zero_le _
        · simp [Thread.largeBlocks, hb]
    exact hle

theorem mem_own_of_mem_largeBlocks {p : LargePlace κ} (h : block ∈ s.largeBlocks a p) :
    largeCell a block ∈ s.own setup (p.place a) :=
  Multiset.mem_of_le (largeCells_le_own p) (Multiset.mem_map_of_mem _ h)

variable [DecidableEq κ]

/-- A block is in one place only, and no other block starts where it does. -/
theorem Inv.largeBlocks_unique (inv : Inv setup s) {p q : LargePlace κ} {block' : FreeLargeBlock}
    (hp : block ∈ s.largeBlocks a p) (hq : block' ∈ s.largeBlocks a q)
    (haddr : block'.blockAddr = block.blockAddr) : q = p ∧ block' = block := by
  have hp' : largeCell a block ∈ s.own setup _ := mem_own_of_mem_largeBlocks hp
  have hq' : largeCell a block' ∈ s.own setup _ := mem_own_of_mem_largeBlocks hq
  have h1 := (inv.ledger.inArena _ _ hp').lo_lt
  have h2 := (inv.ledger.inArena _ _ hq').lo_lt
  have hnot : ¬(largeCell a block').Apart (largeCell a block) := by
    simp only [Cell.Apart, largeCell] at h1 h2 ⊢
    omega
  have hpq : q = p := by
    by_contra hne
    refine hnot (inv.ledger.apart.of_ne ?_ hq' hp')
    cases p <;> cases q <;> simp_all [LargePlace.place]
  subst hpq
  refine ⟨rfl, ?_⟩
  by_contra hne
  have hcell : largeCell a block ≠ largeCell a block' := by
    intro heq
    have hhi : block.blockAddr + block.blockSize = block'.blockAddr + block'.blockSize :=
      congrArg Cell.hi heq
    apply hne
    obtain ⟨addr, size⟩ := block
    obtain ⟨addr', size'⟩ := block'
    simp only at haddr hhi
    subst haddr
    congr 1
    omega
  obtain ⟨t, ht⟩ := Multiset.exists_cons_of_mem hq'
  have hmem : largeCell a block ∈ t := by
    rw [ht] at hp'
    exact (Multiset.mem_cons.mp hp').resolve_left hcell
  have hpw := inv.ledger.apart.holder (q.place a)
  rw [ht, ← Multiset.singleton_add] at hpw
  exact hnot ((pairwise_add.mp hpw).2.2 _ (Multiset.mem_singleton_self _) _ hmem)

omit [DecidableEq κ] in
/-- A place has a block once. -/
theorem Inv.largeBlocks_count (inv : Inv setup s) {p : LargePlace κ}
    (hp : block ∈ s.largeBlocks a p) : (s.largeBlocks a p).count block = 1 := by
  have hnodup : (s.own setup (p.place a)).Nodup :=
    nodup_of_pairwise (inv.ledger.apart.holder _) fun x hx => (inv.ledger.inArena _ x hx).not_apart
  have hblocks := Multiset.Nodup.of_map _ (Multiset.nodup_of_le (largeCells_le_own p) hnodup)
  exact Multiset.count_eq_one_of_mem hblocks hp

omit [DecidableEq κ] in
/-- A step of a call loses no block that could be recorded. -/
theorem Transition.keeps_largeBlock {pc : Pc ι κ Seq} {v : View ι κ Seq Seq}
    (htrans : Transition setup.debug s a k pc v) (hsize : block.blockSize - headerSize < 2 ^ 32)
    (h : block ∈ (s.allocators a).large.liveBag ∨ block ∈ (s.allocators a).large.freeBag ∨
      pc.largeBlock = some block) :
    block ∈ v.allocator.large.liveBag ∨ block ∈ v.allocator.large.freeBag ∨
      block ∈ v.thread.largeBlocks a := by
  have hsame : v.allocator.large = (s.allocators a).large → pc.largeBlock = none →
      block ∈ v.allocator.large.liveBag ∨ block ∈ v.allocator.large.freeBag ∨
        block ∈ v.thread.largeBlocks a := by
    intro hlarge hnone
    rw [hlarge]
    rcases h with h | h | h
    · exact Or.inl h
    · exact Or.inr (Or.inl h)
    · cases hnone.symm.trans h
  have hresume : ∀ (v : View ι κ Seq Seq) (r : Resume), (v.resume a r).allocator = v.allocator :=
    fun v r => (v.resume_frame a r).2.2.1
  cases htrans with
  | @largeReuse size blockSize found large inv hlive hfree hle =>
    rcases h with h | h | h
    · exact Or.inl (by simpa [View.setLarge, View.goto, LargeObjectState.liveBag, hlive] using h)
    · rw [hfree, Multiset.mem_cons] at h
      rcases h with rfl | h
      · refine Or.inr (Or.inr ?_)
        show block ∈ (Thread.busy a _).largeBlocks a
        rw [Thread.largeBlocks_busy]
        exact Multiset.mem_singleton_self _
      · exact Or.inr (Or.inl h)
    · cases h
  | @largeWrite size start blockSize _ =>
    rcases h with h | h | h
    · exact Or.inl h
    · exact Or.inr (Or.inl h)
    · refine Or.inr (Or.inr ?_)
      show block ∈ (Thread.busy a _).largeBlocks a
      rw [Thread.largeBlocks_busy, ← Option.some.inj h]
      exact Multiset.mem_singleton_self _
  | @largeUnwritable size start blockSize hunwritable =>
    rcases h with h | h | h
    · exact Or.inl h
    · exact Or.inr (Or.inl h)
    · obtain rfl := Option.some.inj h
      simp only at hsize
      omega
  | @record size start blockSize large inv hlive hfree =>
    have hbag : large.liveBag = ⟨start, blockSize⟩ ::ₘ (s.allocators a).large.liveBag := by
      simp [LargeObjectState.liveBag, hlive, LargeObjectState.recordBlock]
    rcases h with h | h | h
    · apply Or.inl
      show block ∈ large.liveBag
      rw [hbag]
      exact Multiset.mem_cons_of_mem h
    · refine Or.inr (Or.inl ?_)
      show block ∈ large.freeBag
      rwa [hfree]
    · apply Or.inl
      show block ∈ large.liveBag
      rw [hbag, ← Option.some.inj h]
      exact Multiset.mem_cons_self _ _
  | @release entry requested usable large record ha inv hrecord hlive hliveBag hfreeBag =>
    rcases h with h | h | h
    · rw [hliveBag, Multiset.mem_cons] at h
      rcases h with rfl | h
      · refine Or.inr (Or.inl ?_)
        show _ ∈ large.freeBag
        rw [hfreeBag]
        exact Multiset.mem_cons_self _ _
      · exact Or.inl h
    · refine Or.inr (Or.inl ?_)
      show _ ∈ large.freeBag
      rw [hfreeBag]
      exact Multiset.mem_cons_of_mem h
    · cases h
  | takeSlab hpc => rcases hpc with rfl | rfl <;> exact hsame rfl rfl
  | unstageNone _ => exact hsame (by rw [hresume]; rfl) rfl
  | publish => exact hsame (by rw [hresume]; rfl) rfl
  | returnBatch => exact hsame (by rw [hresume]; rfl) rfl
  | _ => exact hsame rfl rfl

/-- An action other than a step of its call leaves a thread in a call, and its cache, alone. -/
theorem World.step_others {L B : Type} [BlockStore L B] {w w' : World ι κ L B} {debug : Bool}
    {action : Action ι κ} (h : w.step debug action = some w')
    (hrun : ∀ advised, action ≠ .run k advised) {pc : Pc ι κ B} (ht : w.threads k = .busy a pc) :
    w'.threads k = .busy a pc ∧ w'.caches k = w.caches k := by
  by_cases hcaller : action.caller = some k
  · -- a call starts on an idle cache only
    exfalso
    have hcall : ∀ {b : ι} {start : View ι κ L B → View ι κ L B}, w.call k b start = none := by
      intro b start
      simp only [World.call, ht]
    cases action with
    | allocate j b size =>
      obtain rfl : j = k := Option.some.inj hcaller
      have h : w.call j b (fun v => v.startAllocate b size) = some w' := h
      cases hcall.symm.trans h
    | deallocate j b i expectedSize =>
      obtain rfl : j = k := Option.some.inj hcaller
      obtain ⟨entry, -, h⟩ := Option.bind_eq_some_iff.mp h
      cases hcall.symm.trans h
    | drain j b =>
      obtain rfl : j = k := Option.some.inj hcaller
      have h : w.call j b (fun v => v.goto b (.flush SizeClass.all)) = some w' := h
      cases hcall.symm.trans h
    | run j advised => cases hcaller
    | store i offset value => cases hcaller
    | discard page => cases hcaller
  · exact (World.step_ne hcaller hrun h).imp_left fun hthread => hthread.trans ht

theorem World.step_busy {L B : Type} [BlockStore L B] {w w' : World ι κ L B} {debug : Bool}
    {action : Action ι κ} (h : w.step debug action = some w')
    (hrun : ∀ advised, action ≠ .run k advised) {pc : Pc ι κ B} (ht : w.threads k = .busy a pc) :
    w'.threads k = .busy a pc :=
  (World.step_others h hrun ht).1

theorem Inv.keeps_largeBlock (inv : Inv setup s) {action : Action ι κ}
    (hstep : s.step setup.debug action = some s') (hsize : block.blockSize - headerSize < 2 ^ 32)
    (h : ∃ p, block ∈ s.largeBlocks a p) : ∃ p, block ∈ s'.largeBlocks a p := by
  obtain ⟨p, hp⟩ := h
  rcases World.step_cases hstep with ⟨j, advised, b, pc, v, rfl, ht, hv, rfl⟩ | ⟨hrun, hallocators⟩
  · have htrans := inv.transition ht hv
    by_cases hother : ∃ k, p = .hand k ∧ k ≠ j
    · obtain ⟨k, rfl, hk⟩ := hother
      refine ⟨.hand k, ?_⟩
      simp only [World.largeBlocks, World.update_threads_ne _ _ hk]
      exact hp
    by_cases hb : b = a
    · subst hb
      have hheld : block ∈ (s.allocators b).large.liveBag ∨
          block ∈ (s.allocators b).large.freeBag ∨ pc.largeBlock = some block := by
        cases p with
        | live => exact Or.inl hp
        | free => exact Or.inr (Or.inl hp)
        | hand k =>
          obtain rfl : k = j := by
            by_contra hk
            exact hother ⟨k, rfl, hk⟩
          simp only [World.largeBlocks, ht, Thread.largeBlocks_busy] at hp
          exact Or.inr (Or.inr (by simpa using hp))
      rcases htrans.keeps_largeBlock hsize hheld with h | h | h
      · exact ⟨.live, by simpa [World.largeBlocks] using h⟩
      · exact ⟨.free, by simpa [World.largeBlocks] using h⟩
      · exact ⟨.hand j, by simpa [World.largeBlocks] using h⟩
    · refine ⟨p, ?_⟩
      cases p with
      | live => simpa [World.largeBlocks, World.update_allocators_ne _ _ (Ne.symm hb)] using hp
      | free => simpa [World.largeBlocks, World.update_allocators_ne _ _ (Ne.symm hb)] using hp
      | hand k =>
        obtain rfl : k = j := by
          by_contra hk
          exact hother ⟨k, rfl, hk⟩
        simp [World.largeBlocks, ht, Thread.largeBlocks, hb] at hp
  · refine ⟨p, ?_⟩
    cases p with
    | live => simpa [World.largeBlocks, hallocators] using hp
    | free => simpa [World.largeBlocks, hallocators] using hp
    | hand k =>
      cases ht : s.threads k with
      | idle last => simp [World.largeBlocks, ht, Thread.largeBlocks] at hp
      | busy b pc =>
        have ht' : s'.threads k = .busy b pc := World.step_busy hstep (hrun k) ht
        simpa [World.largeBlocks, ht, ht'] using hp

end Steps

section Code

variable {setup : Setup ι κ} {w w' : World ι κ FreeList Batch} {s : World ι κ Seq Seq} {a : ι}

theorem Refines.large_eq (h : Refines w s) (a : ι) :
    (w.allocators a).large = (s.allocators a).large := by
  rw [h.code]
  rfl

variable [DecidableEq ι]

theorem Refines.largeBlocks_eq (h : Refines w s) (a : ι) (p : LargePlace κ) :
    w.largeBlocks a p = s.largeBlocks a p := by
  rw [h.code]
  cases p with
  | hand k =>
    show ((s.threads k).map Batch.ofSeq).largeBlocks a = (s.threads k).largeBlocks a
    cases s.threads k with
    | idle last => rfl
    | busy b pc => cases pc <;> rfl
  | _ => rfl

variable [DecidableEq κ]

theorem Setup.Reachable.largeBlocks_stay (h : setup.Reachable w) {actions : List (Action ι κ)}
    (hruns : w.runs setup.debug actions = some w') {block : FreeLargeBlock}
    (hsize : block.blockSize - headerSize < 2 ^ 32) (hblock : ∃ p, block ∈ w.largeBlocks a p) :
    ∃ p, block ∈ w'.largeBlocks a p := by
  induction actions generalizing w with
  | nil =>
    obtain rfl := Option.some.inj hruns
    exact hblock
  | cons action actions ih =>
    obtain ⟨w₁, hstep, hrest⟩ := Option.bind_eq_some_iff.mp hruns
    obtain ⟨s, hs, hrefines⟩ := h.refines
    obtain ⟨s₁, hstep', hrefines₁⟩ := hrefines.forward hs.inv hstep
    apply ih (h.step action hstep) hrest
    simp only [hrefines.largeBlocks_eq] at hblock
    simp only [hrefines₁.largeBlocks_eq]
    exact hs.inv.keeps_largeBlock hstep' hsize hblock

/-- The registry of large objects in every reachable state.  A block that has once been recorded
live is in one place for the rest of the run, once and with the size it had; the records, the
buckets and the counters say what they should; and no call in progress comes to a panic. -/
theorem Setup.Reachable.large_registry (h : setup.Reachable w) (a : ι) :
    (∀ record ∈ (w.allocators a).large.live, ∀ actions w',
      w.runs setup.debug actions = some w' →
        ∃ p, (w'.largeBlocks a p).count ⟨record.2.blockAddr, record.2.blockSize⟩ = 1 ∧
          ∀ q, ∀ block ∈ w'.largeBlocks a q, block.blockAddr = record.2.blockAddr →
            q = p ∧ block.blockSize = record.2.blockSize) ∧
    (∀ record ∈ (w.allocators a).large.live, record.1 = record.2.blockAddr + headerSize ∧
      record.2.usableSize = record.2.blockSize - headerSize ∧
      record.2.requestedSize ≤ record.2.usableSize) ∧
    (∀ bucket ∈ (w.allocators a).large.free, bucket.2 ≠ [] ∧
      ∀ block ∈ bucket.2, block.blockSize = bucket.1) ∧
    (w.allocators a).large.liveBytes =
      ((w.allocators a).large.live.map fun record => record.2.blockSize).sum ∧
    (w.allocators a).large.freeBlocks =
      ((w.allocators a).large.free.map fun bucket => bucket.2.length).sum ∧
    (w.allocators a).large.freeBytes = ((w.allocators a).large.free.map fun bucket =>
      (bucket.2.map FreeLargeBlock.blockSize).sum).sum ∧
    (∀ minimumBlockSize, (w.allocators a).large.takeReusableBlock minimumBlockSize ≠ none) ∧
    ∀ k pc advised, w.threads k = .busy a pc →
      ∃ w', w.step setup.debug (.run k advised) = some w' := by
  obtain ⟨s, hs, hrefines⟩ := h.refines
  have hlarge : (w.allocators a).large = (s.allocators a).large := by
    rw [hrefines.code]
    rfl
  have inv := (hs.inv.parts.allocator a).large
  rw [← hlarge] at inv
  refine ⟨fun record hrecord actions w' hruns => ?_, fun record hrecord => ?_, fun bucket hbucket =>
    ⟨inv.bucket_nonempty bucket hbucket, inv.bucket_size bucket hbucket⟩, ?_, ?_, ?_,
    fun minimum => ?_, fun k pc advised ht => h.progress ht advised⟩
  · have hok := inv.live_ok record hrecord
    obtain ⟨block, hblock⟩ : ∃ block, block = LargeObjectState.recordBlock record.2 := ⟨_, rfl⟩
    have hsize : block.blockSize - headerSize < 2 ^ 32 := by
      rw [hblock]
      exact hok.usable_eq ▸ hok.usable_lt
    have hlive : block ∈ w.largeBlocks a .live :=
      hblock ▸ Multiset.mem_coe.mpr (List.mem_map_of_mem hrecord)
    obtain ⟨p, hp⟩ := h.largeBlocks_stay hruns hsize ⟨_, hlive⟩
    rw [hblock] at hp
    obtain ⟨s', hs', hrefines'⟩ := (h.runs hruns).refines
    simp only [hrefines'.largeBlocks_eq] at hp ⊢
    refine ⟨p, hs'.inv.largeBlocks_count hp, fun q block hq haddr => ?_⟩
    obtain ⟨rfl, rfl⟩ := hs'.inv.largeBlocks_unique hp hq haddr
    exact ⟨rfl, rfl⟩
  · have hok := inv.live_ok record hrecord
    exact ⟨hok.key, hok.usable_eq, hok.requested_le⟩
  · rw [inv.liveBytes_eq, LargeObjectState.sum_liveBag]
  · rw [inv.freeBlocks_eq, LargeObjectState.card_freeBag]
  · rw [inv.freeBytes_eq, LargeObjectState.sum_freeBag]
  · obtain ⟨found, state, heq, -⟩ := LargeObjectState.takeBestFitBlock_spec inv minimum
    rw [LargeObjectState.takeReusableBlock, heq]
    exact Option.some_ne_none _

/-- One allocator with an arena of 64 MiB, for large objects, and one cache. -/
def largeSetup : Setup Unit Unit where
  debug := true
  pageSize := 4096
  config := fun _ => ⟨2 ^ 26, 64, 256, 384⟩
  mapping := fun _ => 4096
  arena := fun _ => ⟨4096, 2 ^ 26, 0, 64⟩
  cacheConfig := fun _ => ⟨2 ^ 26, 64, 256, 384⟩
  cacheId := fun _ => 0
  pageSize_isPowerOfTwo := samplePageSize
  accepted := fun _ => rfl
  mapping_le := fun _ => by decide
  mapping_disjoint := fun a b h => absurd (Subsingleton.elim a b) h
  cacheId_lt := fun _ => by decide

/-- An allocation of 17 MiB that is freed again, and whose block then serves a smaller request. -/
def largeActions : List (Action Unit Unit) :=
  .allocate () () (17 * 2 ^ 20) :: List.replicate 4 (.run () (true, true)) ++
    [.deallocate () () 0 none, .run () (true, true), .allocate () () (2 ^ 24 + 1)] ++
      List.replicate 3 (.run () (true, true))

theorem largeActions_run :
    ((largeSetup.world FreeList Batch).runs true largeActions).isSome := by
  decide +kernel

theorem large_registry_sample :
    ((largeSetup.after largeActions largeActions_run).allocators ()).large.live ≠ [] ∧
      ((largeSetup.after largeActions largeActions_run).allocators ()).large.liveBytes =
        (((largeSetup.after largeActions largeActions_run).allocators ()).large.live.map
          fun record => record.2.blockSize).sum :=
  ⟨by decide +kernel, ((largeSetup.after_reachable largeActions_run).large_registry ()).2.2.2.1⟩

end Code

end Orthotope
