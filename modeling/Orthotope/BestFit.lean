import Orthotope.LargeRegistry
import Orthotope.Padding

/-! Best-fit reuse of large blocks.  The buckets of the free pool are the free blocks in the order
in which they were freed, sorted by size; a best fit takes the last freed block of the smallest size
that is large enough.  A large allocation reserves from the arena only when there is none, and a
block that is reused keeps its size for the next time it is freed. -/

namespace Orthotope

open ByteMemory Ownership

/-! ### Histories of a registry -/

/-- A call on a registry. -/
inductive LargeCall where
  | record (userPtr blockStart blockSize requestedSize usableSize : Nat)
  | release (userPtr requestedSize usableSize : Nat)
  | take (minimumBlockSize : Nat)

/-- A registry, with its free blocks in the order in which they were freed. -/
structure LargeHistory where
  state : LargeObjectState
  freed : List FreeLargeBlock
  deriving DecidableEq

/-- Takes the last entry of a block out of the order. -/
def takeLast (block : FreeLargeBlock) (freed : List FreeLargeBlock) : List FreeLargeBlock :=
  (freed.reverse.erase block).reverse

/-- One call; the block that a release frees is that of the record it finds. -/
def LargeCall.step : LargeCall → LargeHistory → Option LargeHistory
  | .record userPtr blockStart blockSize requestedSize usableSize, h =>
    (h.state.recordLiveAllocation userPtr blockStart blockSize requestedSize usableSize).map
      fun state => { h with state }
  | .release userPtr requestedSize usableSize, h =>
    (h.state.validateAndReleaseLiveAllocation userPtr requestedSize usableSize).map fun
      | .error _ => h
      | .ok state => ⟨state, h.freed ++
          ((h.state.live.lookup userPtr).map LargeObjectState.recordBlock).toList⟩
  | .take minimumBlockSize, h =>
    (h.state.takeReusableBlock minimumBlockSize).map fun (found, state) =>
      ⟨state, found.elim h.freed fun block => takeLast block h.freed⟩

/-- The histories that begin with a new registry. -/
def LargeHistory.Reachable (h : LargeHistory) : Prop :=
  StepSystem.Reaches LargeCall.step ⟨.new, []⟩ h

theorem takeLast_append {block : FreeLargeBlock} {older newer : List FreeLargeBlock}
    (h : block ∉ newer) : takeLast block (older ++ block :: newer) = older ++ newer := by
  unfold takeLast
  rw [List.reverse_append, List.reverse_cons, List.append_assoc,
    List.erase_append_right _ (by simpa using h)]
  simp

/-! ### The buckets -/

section Buckets

variable {k k' : Nat} {blocks : List FreeLargeBlock} {free : List (Nat × List FreeLargeBlock)}

theorem lookup_insertBucket : (insertBucket k blocks free).lookup k' =
    if k' = k then some blocks else free.lookup k' := by
  induction free with
  | nil =>
    rw [insertBucket, List.lookup_cons]
    by_cases h : k' = k
    · simp [h]
    · simp [h, beq_eq_false_iff_ne.mpr h]
  | cons e free ih =>
    obtain ⟨k₁, blocks₁⟩ := e
    rw [insertBucket]
    by_cases h : k' = k
    · subst h
      rw [if_pos rfl] at ih ⊢
      split
      · rw [List.lookup_cons_self]
      · split
        · rw [List.lookup_cons_self]
        · rename_i hne
          rw [List.lookup_cons, beq_eq_false_iff_ne.mpr hne]
          exact ih
    · rw [if_neg h] at ih ⊢
      split
      · rw [List.lookup_cons, beq_eq_false_iff_ne.mpr h]
      · split
        · rename_i heq
          subst heq
          rw [List.lookup_cons, List.lookup_cons, beq_eq_false_iff_ne.mpr h]
        · rw [List.lookup_cons, List.lookup_cons, ih]

theorem lookup_append_of_ne {l₁ l₂ : List (Nat × List FreeLargeBlock)} (h : ∀ e ∈ l₁, e.1 ≠ k) :
    (l₁ ++ l₂).lookup k = l₂.lookup k := by
  induction l₁ with
  | nil => rfl
  | cons e l₁ ih =>
    rw [List.cons_append, List.lookup_cons, beq_eq_false_iff_ne.mpr
      (Ne.symm (h e List.mem_cons_self))]
    exact ih fun e' he => h e' (List.mem_cons_of_mem e he)

theorem exists_mem_of_lookup (h : (free.lookup k).getD [] ≠ []) :
    ∃ blocks, (k, blocks) ∈ free := by
  cases hl : free.lookup k with
  | none => simp [hl] at h
  | some blocks =>
    obtain ⟨l₁, l₂, hsplit, -⟩ := List.lookup_eq_some_iff.mp hl
    exact ⟨blocks, by simp [hsplit]⟩

end Buckets

namespace LargeObjectState

variable {state : LargeObjectState} {freed : List FreeLargeBlock} {m : Nat}

/-- The free pool is `freed`, sorted into buckets by size, each in the order of `freed`. -/
structure Pools (state : LargeObjectState) (freed : List FreeLargeBlock) : Prop where
  sorted : state.free.Pairwise fun e e' => e.1 < e'.1
  nonempty : ∀ e ∈ state.free, e.2 ≠ []
  bucket : ∀ k, (state.free.lookup k).getD [] = freed.filter fun block => block.blockSize = k
  freeBlocks_eq : state.freeBlocks = freed.length
  freeBytes_eq : state.freeBytes = (freed.map FreeLargeBlock.blockSize).sum

theorem new_pools : new.Pools [] := by
  constructor <;> simp [new]

theorem Pools.congr {state' : LargeObjectState} (pools : state.Pools freed)
    (hfree : state'.free = state.free) (hblocks : state'.freeBlocks = state.freeBlocks)
    (hbytes : state'.freeBytes = state.freeBytes) : state'.Pools freed :=
  ⟨hfree ▸ pools.sorted, hfree ▸ pools.nonempty, hfree ▸ pools.bucket,
    hblocks ▸ pools.freeBlocks_eq, hbytes ▸ pools.freeBytes_eq⟩

/-- A freed block is the last of its bucket. -/
theorem Pools.insertFreeBlock (pools : state.Pools freed) (block : FreeLargeBlock) :
    (state.insertFreeBlock block).Pools (freed ++ [block]) := by
  constructor
  case sorted => exact insertBucket_sorted pools.sorted
  case nonempty =>
    intro e he
    rcases mem_insertBucket he with rfl | he
    · simp
    · exact pools.nonempty e he
  case bucket =>
    intro k
    show ((insertBucket _ _ _).lookup k).getD [] = _
    rw [lookup_insertBucket, List.filter_append]
    by_cases hk : k = block.blockSize
    · subst hk
      simp [pools.bucket]
    · have hne : ¬block.blockSize = k := Ne.symm hk
      simp [hk, hne, pools.bucket]
  case freeBlocks_eq =>
    show state.freeBlocks + 1 = _
    rw [pools.freeBlocks_eq, List.length_append]
    rfl
  case freeBytes_eq =>
    show state.freeBytes + block.blockSize = _
    rw [pools.freeBytes_eq, List.map_append, List.sum_append]
    rfl

theorem Pools.mem_bucket (pools : state.Pools freed) {block : FreeLargeBlock} (h : block ∈ freed) :
    ∃ blocks, (block.blockSize, blocks) ∈ state.free := by
  apply exists_mem_of_lookup
  rw [pools.bucket]
  exact List.ne_nil_of_mem (List.mem_filter.mpr ⟨h, by simp⟩)

/-- The best fit of a pool: the last freed block of the smallest size that is large enough. -/
structure Fits (freed : List FreeLargeBlock) (m : Nat) (older : List FreeLargeBlock)
    (block : FreeLargeBlock) (newer : List FreeLargeBlock) : Prop where
  split : freed = older ++ block :: newer
  fits : m ≤ block.blockSize
  smallest : ∀ other ∈ freed, m ≤ other.blockSize → block.blockSize ≤ other.blockSize
  latest : ∀ other ∈ newer, other.blockSize ≠ block.blockSize

/-- A best fit finds nothing only if no free block is large enough, and else takes the block that
fits best and leaves the others in their order. -/
theorem Pools.take (pools : state.Pools freed) (m : Nat) :
    (state.takeReusableBlock m = some (none, state) ∧ ∀ block ∈ freed, block.blockSize < m) ∨
      ∃ older block newer state', Fits freed m older block newer ∧
        state.takeReusableBlock m = some (some block, state') ∧ state'.Pools (older ++ newer) ∧
          state'.live = state.live ∧ state'.liveBytes = state.liveBytes := by
  rcases takeBestFitBlock_cases pools.sorted pools.nonempty m with
    ⟨hnone, hsmall⟩ | ⟨k, init, block, before, after, hfit, hrun⟩
  · refine Or.inl ⟨hnone, fun block hblock => ?_⟩
    obtain ⟨blocks, he⟩ := pools.mem_bucket hblock
    exact hsmall _ he
  · have hsorted := pools.sorted
    rw [hfit.split] at hsorted
    have hafter : ∀ e ∈ after, k < e.1 :=
      (List.pairwise_cons.mp (List.pairwise_append.mp hsorted).2.1).1
    have hbefore : ∀ e ∈ before, e.1 ≠ k := by
      intro e he
      have hlt := hfit.smaller e he
      have hle := hfit.fits
      omega
    have hbucket : freed.filter (fun other => other.blockSize = k) = init ++ [block] := by
      rw [← pools.bucket k, hfit.split, lookup_append_of_ne hbefore, List.lookup_cons_self]
      rfl
    -- the block found is the last one of its size in the order
    obtain ⟨older, rest, hfreed, holder, hrest⟩ := List.filter_eq_append_iff.mp hbucket
    obtain ⟨mid, newer, rfl, hmid, hsize, hnewer⟩ := List.filter_eq_cons_iff.mp hrest
    have hk : block.blockSize = k := by simpa using hsize
    have hlatest : ∀ other ∈ newer, other.blockSize ≠ k := by
      intro other hother
      simpa using List.filter_eq_nil_iff.mp hnewer other hother
    have hmiddle : ∀ other ∈ mid, other.blockSize ≠ k := by
      intro other hother
      simpa using hmid other hother
    have hsplit : freed = (older ++ mid) ++ block :: newer := by
      rw [hfreed, List.append_assoc]
    have hlen : freed.length ≠ 0 := by
      rw [hsplit]
      simp
    have hbytes : block.blockSize ≤ state.freeBytes := by
      rw [pools.freeBytes_eq, hsplit, List.map_append, List.sum_append,
        List.map_cons, List.sum_cons]
      omega
    refine Or.inr ⟨older ++ mid, block, newer, state.afterBestFit k init block before after,
      ⟨hsplit, hk ▸ hfit.fits, fun other hother hle => ?_, hk ▸ hlatest⟩,
      hrun (pools.freeBlocks_eq ▸ hlen) hbytes, ⟨afterBestFit_sorted hfit pools.sorted,
        afterBestFit_nonempty hfit pools.nonempty, fun k' => ?_, ?_, ?_⟩, rfl, rfl⟩
    · obtain ⟨blocks, he⟩ := pools.mem_bucket hother
      rw [hfit.split] at he
      rcases List.mem_append.mp he with he | he
      · have hlt := hfit.smaller _ he
        simp only at hlt
        omega
      · rcases List.mem_cons.mp he with he | he
        · rw [hk, (Prod.mk.inj he).1]
        · rw [hk]
          exact Nat.le_of_lt (hafter _ he)
    · show ((before ++ (leftBucket k init ++ after)).lookup k').getD [] = _
      have hold := pools.bucket k'
      rw [hfit.split] at hold
      by_cases hk' : k' = k
      · subst hk'
        have hnone : after.lookup k' = none := by
          rw [List.lookup_eq_none_iff]
          intro e he
          simpa using Nat.ne_of_lt (hafter e he)
        have hfilter : (older ++ mid ++ newer).filter
            (fun other => other.blockSize = k') = init := by
          rw [List.filter_append, List.filter_append, holder, List.filter_eq_nil_iff.mpr
            (fun other hother => by simpa using hmiddle other hother), hnewer]
          simp
        rw [lookup_append_of_ne hbefore, hfilter, leftBucket]
        cases init with
        | nil => simp [hnone]
        | cons b init => simp
      · have hpass : ∀ l : List (Nat × List FreeLargeBlock),
            (leftBucket k init ++ l).lookup k' = l.lookup k' := by
          intro l
          apply lookup_append_of_ne
          intro e he
          rw [(mem_leftBucket.mp he).2]
          exact Ne.symm hk'
        have hsame : (before ++ (leftBucket k init ++ after)).lookup k' =
            (before ++ (k, init ++ [block]) :: after).lookup k' := by
          simp only [List.lookup_append, hpass, List.lookup_cons, beq_eq_false_iff_ne.mpr hk']
        rw [hsame, hold, hsplit]
        have hne : ¬block.blockSize = k' := by
          rw [hk]
          exact Ne.symm hk'
        simp [hne]
    · show state.freeBlocks - 1 = _
      rw [pools.freeBlocks_eq, hsplit]
      simp only [List.length_append, List.length_cons]
      omega
    · show state.freeBytes - block.blockSize = _
      rw [pools.freeBytes_eq, hsplit]
      simp only [List.map_append, List.sum_append, List.map_cons, List.sum_cons]
      omega

/-- The blocks in the order of their frees that are left when a best fit has been taken. -/
theorem Fits.takeLast_eq {older newer : List FreeLargeBlock} {block : FreeLargeBlock}
    (h : Fits freed m older block newer) : takeLast block freed = older ++ newer := by
  rw [h.split]
  apply takeLast_append
  intro hmem
  exact h.latest block hmem rfl

theorem release_pools {userPtr requestedSize usableSize : Nat} (pools : state.Pools freed)
    {state' : LargeObjectState}
    (h : state.validateAndReleaseLiveAllocation userPtr requestedSize usableSize =
      some (.ok state')) :
    ∃ record, state.live.lookup userPtr = some record ∧
      state'.Pools (freed ++ [recordBlock record]) := by
  unfold validateAndReleaseLiveAllocation at h
  split at h
  · cases h
  · rename_i record hlookup
    refine ⟨record, hlookup, ?_⟩
    split at h
    · cases h
    · split at h
      · cases h
      · rw [← Except.ok.inj (Option.some.inj h)]
        have hlive : Pools { state with
            live := state.live.eraseP fun entry => entry.1 == userPtr
            liveBytes := state.liveBytes - record.blockSize } freed := pools.congr rfl rfl rfl
        exact hlive.insertFreeBlock (recordBlock record)

theorem record_pools {userPtr blockStart blockSize requestedSize usableSize : Nat}
    (pools : state.Pools freed) {state' : LargeObjectState}
    (h : state.recordLiveAllocation userPtr blockStart blockSize requestedSize usableSize =
      some state') : state'.Pools freed := by
  unfold recordLiveAllocation at h
  split at h
  · cases h
  · rw [← Option.some.inj h]
    exact pools.congr rfl rfl rfl

end LargeObjectState

theorem LargeCall.step_pools {call : LargeCall} {h h' : LargeHistory}
    (hstep : call.step h = some h')
    (pools : h.state.Pools h.freed) : h'.state.Pools h'.freed := by
  cases call with
  | record userPtr blockStart blockSize requestedSize usableSize =>
    obtain ⟨state, hrecord, rfl⟩ := Option.map_eq_some_iff.mp hstep
    exact LargeObjectState.record_pools pools hrecord
  | release userPtr requestedSize usableSize =>
    obtain ⟨result, hrelease, hresult⟩ := Option.map_eq_some_iff.mp hstep
    cases result with
    | error e =>
      obtain rfl : h = h' := hresult
      exact pools
    | ok state =>
      obtain ⟨record, hlookup, hpools⟩ := LargeObjectState.release_pools pools hrelease
      rw [← hresult]
      simp only [hlookup]
      exact hpools
  | take minimumBlockSize =>
    obtain ⟨⟨found, state⟩, htake, rfl⟩ := Option.map_eq_some_iff.mp hstep
    rcases pools.take minimumBlockSize with
      ⟨hnone, -⟩ | ⟨older, block, newer, state', hfits, htaken, hpools, -, -⟩
    · rw [hnone] at htake
      obtain ⟨rfl, rfl⟩ := Prod.mk.inj (Option.some.inj htake)
      exact pools
    · rw [htaken] at htake
      obtain ⟨rfl, rfl⟩ := Prod.mk.inj (Option.some.inj htake)
      show state'.Pools (takeLast block h.freed)
      rw [hfits.takeLast_eq]
      exact hpools

theorem LargeHistory.Reachable.pools {h : LargeHistory} (hr : h.Reachable) :
    h.state.Pools h.freed :=
  StepSystem.Reaches.invariant (I := fun h : LargeHistory => h.state.Pools h.freed) hr
    LargeObjectState.new_pools fun _ _ _ hpools hstep => LargeCall.step_pools hstep hpools

/-! ### The registry of an allocator -/

variable {ι κ : Type}

section Registry

variable {setup : Setup ι κ} {s s' : World ι κ Seq Seq} {a : ι} {k : κ}

/-- A step of a call makes one call on the registry, or none. -/
theorem Transition.registry {debug : Bool} {advised : Bool × Bool} {pc : Pc ι κ Seq}
    {v : View ι κ Seq Seq} (freed : List FreeLargeBlock)
    (hv : (s.view a k).next debug advised a k pc = some v)
    (htrans : Transition setup.debug s a k pc v) :
    v.allocator.large = (s.allocators a).large ∨ ∃ call freed',
      LargeCall.step call ⟨(s.allocators a).large, freed⟩ = some ⟨v.allocator.large, freed'⟩ := by
  have hresume : ∀ (v : View ι κ Seq Seq) (r : Resume), (v.resume a r).allocator = v.allocator :=
    fun v r => (v.resume_frame a r).2.2.1
  have htake : ∀ {size blockSize : Nat}, pc = .large size blockSize → ∃ call freed',
      LargeCall.step call ⟨(s.allocators a).large, freed⟩ = some ⟨v.allocator.large, freed'⟩ := by
    rintro size blockSize rfl
    obtain ⟨⟨found, large⟩, hfound, rfl⟩ := Option.map_eq_some_iff.mp hv
    refine ⟨.take blockSize, found.elim freed fun block => takeLast block freed, ?_⟩
    have hfound : (s.allocators a).large.takeReusableBlock blockSize = some (found, large) := hfound
    rw [LargeCall.step, hfound]
    cases found <;> rfl
  have hrelease : ∀ {entry : Live ι κ} {requested usable : Nat},
      pc = .releasing entry requested usable → v.allocator.large = (s.allocators a).large ∨
        ∃ call freed', LargeCall.step call ⟨(s.allocators a).large, freed⟩ =
          some ⟨v.allocator.large, freed'⟩ := by
    rintro entry requested usable rfl
    obtain ⟨result, hresult, rfl⟩ := Option.map_eq_some_iff.mp hv
    cases result with
    | error e => exact Or.inl rfl
    | ok large =>
      have hresult : (s.allocators a).large.validateAndReleaseLiveAllocation entry.ptr requested
        usable = some (.ok large) := hresult
      refine Or.inr ⟨.release entry.ptr requested usable, freed ++
        (((s.allocators a).large.live.lookup entry.ptr).map
          LargeObjectState.recordBlock).toList, ?_⟩
      rw [LargeCall.step, hresult]
      rfl
  cases htrans with
  | largeReuse => exact Or.inr (htake rfl)
  | largeMiss => exact Or.inr (htake rfl)
  | release => exact hrelease rfl
  | refuse => exact hrelease rfl
  | @record size start blockSize large =>
    obtain ⟨large', hlarge, hv⟩ := Option.map_eq_some_iff.mp hv
    have hlarge : (s.allocators a).large.recordLiveAllocation (userPtrFromBlockStart start) start
      blockSize size (blockSize - headerSize) = some large' := hlarge
    obtain rfl : large' = large := congrArg (fun v => v.allocator.large) hv
    refine Or.inr ⟨.record (userPtrFromBlockStart start) start blockSize size
      (blockSize - headerSize), freed, ?_⟩
    rw [LargeCall.step, hlarge]
    rfl
  | unstageNone _ => rw [hresume]; exact Or.inl rfl
  | publish => rw [hresume]; exact Or.inl rfl
  | returnBatch => rw [hresume]; exact Or.inl rfl
  | _ => exact Or.inl rfl

variable [DecidableEq ι] [DecidableEq κ]

/-- The registry of an allocator has only been used by its calls. -/
theorem Setup.Reachable.registry (h : setup.Reachable s) (a : ι) :
    ∃ freed, LargeHistory.Reachable ⟨(s.allocators a).large, freed⟩ := by
  induction h with
  | initial => exact ⟨[], .refl⟩
  | @step s s' action hr hstep ih =>
    obtain ⟨freed, hfreed⟩ := ih
    rcases hr.inv.step_cases hstep with ⟨k, b, pc, advised, v, -, ht, rfl, hv, htrans⟩ |
      ⟨k, b, last, v, -, -, rfl, hallocator, -⟩ | ⟨hallocators, -, -⟩
    · by_cases hb : a = b
      · subst hb
        rw [World.update_allocators_same]
        rcases htrans.registry freed hv with hsame | ⟨call, freed', hcall⟩
        · exact ⟨freed, hsame ▸ hfreed⟩
        · exact ⟨freed', StepSystem.Reaches.step call hfreed hcall⟩
      · rw [World.update_allocators_ne _ _ hb]
        exact ⟨freed, hfreed⟩
    · by_cases hb : a = b
      · subst hb
        rw [World.update_allocators_same, hallocator]
        exact ⟨freed, hfreed⟩
      · rw [World.update_allocators_ne _ _ hb]
        exact ⟨freed, hfreed⟩
    · rw [hallocators]
      exact ⟨freed, hfreed⟩

/-- The record of a pointer is that of the block in front of it. -/
theorem Inv.block_of_record (inv : Inv setup s) {p : LargePlace κ} {block : FreeLargeBlock} {b : ι}
    {ptr : Nat} {record : LargeAllocationRecord} (hp : block ∈ s.largeBlocks a p)
    (hrecord : (ptr, record) ∈ (s.allocators b).large.live)
    (hptr : ptr = userPtrFromBlockStart block.blockAddr) :
    b = a ∧ LargeObjectState.recordBlock record = block := by
  have hkey := ((inv.parts.allocator b).large.live_ok _ hrecord).key
  have haddr : record.blockAddr = block.blockAddr := by
    unfold userPtrFromBlockStart at hptr
    simp only at hkey
    omega
  have hcell : largeCell a block ∈ s.own setup (p.place a) := mem_own_of_mem_largeBlocks hp
  have hlive : largeCell b (LargeObjectState.recordBlock record) ∈ s.own setup (.largeLive b) :=
    mem_largeLive hrecord
  have hlt := (inv.ledger.inArena _ _ hcell).lo_lt
  have hlt' := (inv.ledger.inArena _ _ hlive).lo_lt
  have hplace : p.place a = .largeLive b := by
    by_contra hne
    have hapart := inv.ledger.apart.of_ne hne hcell hlive
    simp only [Cell.Apart, largeCell, LargeObjectState.recordBlock] at hapart hlt hlt'
    omega
  have hb : b = a := by
    cases p with
    | live => exact (Place.largeLive.inj hplace).symm
    | free => cases hplace
    | hand k => cases hplace
  subst hb
  have hmem : LargeObjectState.recordBlock record ∈ s.largeBlocks b .live :=
    Multiset.mem_coe.mpr (List.mem_map_of_mem hrecord)
  exact ⟨rfl, (inv.largeBlocks_unique hp hmem haddr).2⟩

/-- An allocation in front of which a large block lies is a large one. -/
theorem Inv.large_of_block (inv : Inv setup s) {p : LargePlace κ} {block : FreeLargeBlock}
    {e : Live ι κ} (hp : block ∈ s.largeBlocks a p) (he : e ∈ s.live)
    (hptr : e.ptr = userPtrFromBlockStart block.blockAddr) :
    SizeClass.fromRequest e.size = none := by
  cases hc : SizeClass.fromRequest e.size with
  | none => rfl
  | some c =>
    exfalso
    have hcell : largeCell a block ∈ s.own setup (p.place a) := mem_own_of_mem_largeBlocks hp
    have hclient : setup.smallCell e.alloc c (blockStartFromUserPtr e.ptr) ∈ s.own setup .client :=
      Live.mem_client he hc
    have hne : p.place a ≠ .client := by
      intro hplace
      cases p <;> cases hplace
    have hapart := inv.ledger.apart.of_ne hne hcell hclient
    have hlt := (inv.ledger.inArena _ _ hcell).lo_lt
    have hlt' := (inv.ledger.inArena _ _ hclient).lo_lt
    have hstart : blockStartFromUserPtr e.ptr = block.blockAddr := by
      rw [hptr]
      exact Nat.add_sub_cancel ..
    simp only [Cell.Apart, largeCell, Setup.smallCell, hstart] at hapart hlt hlt'
    omega

/-- A free of a large block comes to its release. -/
theorem Inv.startFree_large (inv : Inv setup s) {p : LargePlace κ} {block : FreeLargeBlock}
    {e : Live ι κ} (hp : block ∈ s.largeBlocks a p) (he : e ∈ s.live)
    (hptr : e.ptr = userPtrFromBlockStart block.blockAddr) {expectedSize : Option Nat}
    (hexpected : expectedSize = none ∨ expectedSize = some e.size) (debug : Bool)
    (cache : ThreadCache ι Seq) (rest : List (Live ι κ)) :
    ∃ usable, (View.startFree debug a ((s.view a k).setCache cache) e rest expectedSize).thread =
      .busy a (.releasing e e.size usable) := by
  have hc := inv.large_of_block hp he hptr
  obtain ⟨record, -, hcheck⟩ := inv.checkFree_large (a := a) he hc debug expectedSize
  have hchecked : sizeChecked expectedSize e.size (.large e.size record.usableSize) =
      .ok (.large e.size record.usableSize) := by
    rcases hexpected with rfl | rfl <;> simp [sizeChecked]
  rw [hchecked] at hcheck
  have hcheck : ((s.view a k).setCache cache).allocator.checkFree debug
    ((s.view a k).setCache cache).mem e.ptr expectedSize = _ := hcheck
  refine ⟨record.usableSize, ?_⟩
  simp only [View.startFree, hcheck]
  rfl

/-- A release puts the block back with the size it has always had. -/
theorem Inv.release_step (inv : Inv setup s) {p : LargePlace κ} {block : FreeLargeBlock}
    {entry : Live ι κ} {requested usable : Nat}
    (ht : s.threads k = .busy a (.releasing entry requested usable))
    (hp : block ∈ s.largeBlocks a p)
    (hptr : entry.ptr = userPtrFromBlockStart block.blockAddr) {freed : List FreeLargeBlock}
    (hfreed : LargeHistory.Reachable ⟨(s.allocators a).large, freed⟩) {debug : Bool}
    {advised : Bool × Bool} {v : View ι κ Seq Seq}
    (hv : (s.view a k).next debug advised a k (.releasing entry requested usable) = some v) :
    v.thread = .idle (some .freed) ∧
      LargeHistory.Reachable ⟨v.allocator.large, freed ++ [block]⟩ := by
  obtain ⟨record, hrecord, hreq, husable, -⟩ := inv.releasing_record ht
  obtain ⟨ha, hblock⟩ := inv.block_of_record hp hrecord hptr
  rw [ha] at hrecord
  have hinv := (inv.parts.allocator a).large
  obtain ⟨large, hrelease, -⟩ := LargeObjectState.validateAndRelease_spec hinv hrecord
  have hlookup := LargeObjectState.lookup_of_mem hinv hrecord
  rw [hreq, husable] at hrelease
  obtain ⟨result, hresult, rfl⟩ := Option.map_eq_some_iff.mp hv
  obtain rfl : .ok large = result := Option.some.inj (hrelease.symm.trans hresult)
  refine ⟨rfl, StepSystem.Reaches.step (.release entry.ptr requested usable) hfreed ?_⟩
  rw [LargeCall.step, hrelease]
  show some (LargeHistory.mk large (freed ++
    (((s.allocators a).large.live.lookup entry.ptr).map LargeObjectState.recordBlock).toList)) = _
  rw [hlookup, Option.map_some, hblock]
  rfl

/-! ### Allocations -/

omit [DecidableEq ι] [DecidableEq κ] in
/-- Only these two steps reserve from the arena. -/
theorem Transition.arena_eq {debug : Bool} {pc : Pc ι κ Seq} {v : View ι κ Seq Seq}
    (htrans : Transition debug s a k pc v) :
    v.allocator.arena = (s.allocators a).arena ∨ (∃ c size, pc = .carve c size) ∨
      ∃ size blockSize, pc = .largeCarve size blockSize := by
  have hresume : ∀ (v : View ι κ Seq Seq) (r : Resume), (v.resume a r).allocator = v.allocator :=
    fun v r => (v.resume_frame a r).2.2.1
  cases htrans with
  | carve => exact Or.inr (Or.inl ⟨_, _, rfl⟩)
  | largeReserve => exact Or.inr (Or.inr ⟨_, _, rfl⟩)
  | unstageNone _ => rw [hresume]; exact Or.inl rfl
  | publish => rw [hresume]; exact Or.inl rfl
  | returnBatch => rw [hresume]; exact Or.inl rfl
  | _ => exact Or.inl rfl

omit [DecidableEq ι] [DecidableEq κ] in
/-- A large allocation comes to its reservation when its search has found nothing. -/
theorem Transition.largeCarve_from {debug : Bool} {pc : Pc ι κ Seq} {v : View ι κ Seq Seq}
    {b : ι} {size blockSize : Nat} (htrans : Transition debug s a k pc v)
    (hthread : v.thread = .busy b (.largeCarve size blockSize)) :
    b = a ∧ pc = .large size blockSize := by
  have hresume : ∀ (v : View ι κ Seq Seq) (r : Resume),
      (v.resume a r).thread ≠ .busy b (.largeCarve size blockSize) := by
    intro v r h
    cases r <;> cases h
  cases htrans with
  | largeMiss _ =>
    obtain ⟨rfl, hpc⟩ := Thread.busy.inj hthread
    cases hpc
    exact ⟨rfl, rfl⟩
  | @refill _ _ _ _ r _ => cases r <;> cases hthread
  | push _ _ _ _ _ hafter =>
    rcases hafter with hafter | ⟨-, hafter⟩ <;> cases hafter.symm.trans hthread
  | stage _ hafter => rcases hafter with hafter | hafter <;> cases hafter.symm.trans hthread
  | unstageNone _ => exact absurd hthread (hresume _ _)
  | publish => exact absurd hthread (hresume _ _)
  | returnBatch => exact absurd hthread (hresume _ _)
  | _ => cases hthread

omit [DecidableEq ι] [DecidableEq κ] in
theorem Inv.lt_usizeLimit_of_free (inv : Inv setup s) {block : FreeLargeBlock}
    (h : block ∈ (s.allocators a).large.freeBag) : block.blockSize < usizeLimit := by
  have hcell : largeCell a block ∈ s.own setup (.largeFree a) := Multiset.mem_map_of_mem _ h
  have hin := inv.ledger.inArena _ _ hcell
  have hbase := hin.base_le
  have hhi := hin.hi_le
  have hnext := (inv.parts.allocator a).next_le
  have hlen := (inv.arena_valid a).lt_usizeLimit.2
  rw [(inv.parts.allocator a).arena_eq] at hlen
  simp only [largeCell] at hbase hhi
  simp only at hlen
  omega

/-- How far an allocation of `size` has come that is served by `block`, of the free pool; `rest` is
what it leaves there. -/
inductive Reuses (large : LargeObjectState) (a : ι) (size : Nat) (block : FreeLargeBlock)
    (rest : List FreeLargeBlock) : Thread ι κ Seq → Prop
  | large {blockSize : Nat} {left : LargeObjectState}
      (htake : large.takeReusableBlock blockSize = some (some block, left))
      (hleft : LargeHistory.Reachable ⟨left, rest⟩) :
      Reuses large a size block rest (.busy a (.large size blockSize))
  | got (hlarge : LargeHistory.Reachable ⟨large, rest⟩)
      (hwritable : block.blockSize - headerSize < 2 ^ 32) :
      Reuses large a size block rest (.busy a (.largeGot size block.blockAddr block.blockSize))
  | written (hlarge : LargeHistory.Reachable ⟨large, rest⟩) :
      Reuses large a size block rest (.busy a (.largeWritten size block.blockAddr block.blockSize))
  | allocated (hlarge : LargeHistory.Reachable ⟨large, rest⟩) (hlive : block ∈ large.liveBag) :
      Reuses large a size block rest
        (.idle (some (.allocated (userPtrFromBlockStart block.blockAddr))))

omit [DecidableEq ι] [DecidableEq κ] in
theorem Reuses.step {debug : Bool} {advised : Bool × Bool} {b : ι} {pc : Pc ι κ Seq}
    {v : View ι κ Seq Seq} {size : Nat} {block : FreeLargeBlock} {rest : List FreeLargeBlock}
    (inv : Inv setup s) (h : Reuses (s.allocators a).large a size block rest (.busy b pc))
    (hv : (s.view b k).next debug advised b k pc = some v)
    (htrans : Transition setup.debug s b k pc v) :
    v.allocator.arena = (s.allocators a).arena ∧
      Reuses v.allocator.large a size block rest v.thread := by
  cases h with
  | @large blockSize left htake hleft =>
    obtain ⟨⟨found, large⟩, hfound, rfl⟩ := Option.map_eq_some_iff.mp hv
    obtain ⟨rfl, rfl⟩ := Prod.mk.inj (Option.some.inj (htake.symm.trans hfound))
    obtain ⟨found, large, hspec, -, -, -, hmatch⟩ :=
      LargeObjectState.takeBestFitBlock_spec (inv.parts.allocator a).large blockSize
    obtain ⟨rfl, rfl⟩ := Prod.mk.inj (Option.some.inj (htake.symm.trans hspec))
    have hok := (inv.parts.allocator a).large.free_ok block
      (hmatch.2 ▸ Multiset.mem_cons_self ..)
    exact ⟨rfl, .got hleft hok.usable_lt⟩
  | got hlarge hwritable =>
    cases htrans with
    | takeSlab hpc => rcases hpc with hpc | hpc <;> cases hpc
    | largeWrite _ => exact ⟨rfl, .written hlarge⟩
    | largeUnwritable hunwritable => omega
  | written hlarge =>
    cases htrans with
    | takeSlab hpc => rcases hpc with hpc | hpc <;> cases hpc
    | @record _ _ _ large hinv hlive hfree =>
      obtain ⟨large', hrecord, hv⟩ := Option.map_eq_some_iff.mp hv
      obtain rfl : large' = large := congrArg (fun v => v.allocator.large) hv
      have hrecord : (s.allocators a).large.recordLiveAllocation
        (userPtrFromBlockStart block.blockAddr) block.blockAddr block.blockSize size
          (block.blockSize - headerSize) = some large' := hrecord
      refine ⟨rfl, .allocated (StepSystem.Reaches.step (.record
        (userPtrFromBlockStart block.blockAddr) block.blockAddr block.blockSize size
          (block.blockSize - headerSize)) hlarge ?_) ?_⟩
      · rw [LargeCall.step, hrecord]
        rfl
      · show block ∈ large'.liveBag
        rw [LargeObjectState.liveBag, hlive]
        exact Multiset.mem_coe.mpr List.mem_cons_self

/-- An allocation that runs alone, and for which there is a block in the free pool. -/
theorem Inv.allocate_reuses (inv : Inv setup s) {last : Option Outcome}
    (ht : s.threads k = .idle last) {cache : ThreadCache ι Seq}
    (hbind : (s.caches k).bindToAllocator a (s.allocators a).config = some cache) {size : Nat}
    (hsize : SizeClass.maxSmallRequest < size) {blockSize : Nat}
    (hblockSize : (s.allocators a).largeBlockSize size = some blockSize) {block : FreeLargeBlock}
    {left : LargeObjectState} {rest : List FreeLargeBlock}
    (htake : (s.allocators a).large.takeReusableBlock blockSize = some (some block, left))
    (hleft : LargeHistory.Reachable ⟨left, rest⟩) :
    s.Calls setup.debug k (.allocate k a size) fun s' =>
      (s'.allocators a).arena = (s.allocators a).arena ∧
        s'.threads k = .idle (some (.allocated (userPtrFromBlockStart block.blockAddr))) ∧
          LargeHistory.Reachable ⟨(s'.allocators a).large, rest⟩ ∧
            block ∈ s'.largeBlocks a .live := by
  obtain ⟨v, hv⟩ : ∃ v, v = ((s.view a k).setCache cache).startAllocate a size := ⟨_, rfl⟩
  have hstep : s.step setup.debug (.allocate k a size) = some (s.update a k v) := by
    rw [hv]
    exact World.call_eq ht hbind fun v => v.startAllocate a size
  have hne : size ≠ 0 := Nat.ne_of_gt (Nat.lt_of_le_of_lt (Nat.zero_le _) hsize)
  have hclass := SizeClass.fromRequest_eq_none.mpr (Or.inr hsize)
  have hstart : v = ((s.view a k).setCache cache).goto a (.large size blockSize) := by
    rw [hv]
    simp only [View.startAllocate, hne, if_false, hclass, View.setCache, World.view, hblockSize]
  refine ⟨_, hstep, ?_⟩
  have hends : (s.update a k v).Ends setup.debug k fun s' => Inv setup s' ∧
      (s'.allocators a).arena = (s.allocators a).arena ∧
        Reuses (s'.allocators a).large a size block rest (s'.threads k) := by
    refine (inv.step hstep).ends_next (J := fun s' => (s'.allocators a).arena =
      (s.allocators a).arena ∧ Reuses (s'.allocators a).large a size block rest (s'.threads k))
        ?_ ?_
    · intro s' b pc v' advised inv' hJ ht' hv' htrans
      obtain ⟨harena, hreuses⟩ := hJ
      rw [ht'] at hreuses
      obtain rfl : b = a := by cases hreuses <;> rfl
      obtain ⟨hsame, hreuses'⟩ := hreuses.step inv' hv' htrans
      rw [World.update_allocators_same, World.update_threads_same]
      exact ⟨hsame.trans harena, hreuses'⟩
    · rw [World.update_allocators_same, World.update_threads_same, hstart]
      exact ⟨rfl, .large htake hleft⟩
  refine hends.idle.mono fun s' hend => ?_
  obtain ⟨outcome, hidle, -, harena, hreuses⟩ := hend
  rw [hidle] at hreuses ⊢
  cases hreuses with
  | allocated hlarge hlive => exact ⟨harena, rfl, hlarge, hlive⟩

theorem Inv.arena_or_reserves (inv : Inv setup s) {action : Action ι κ}
    (hstep : s.step setup.debug action = some s') (a : ι) :
    (s'.allocators a).arena = (s.allocators a).arena ∨ ∃ k advised, action = .run k advised ∧
      ((∃ c size, s.threads k = .busy a (.carve c size)) ∨
        ∃ size blockSize, s.threads k = .busy a (.largeCarve size blockSize)) := by
  rcases inv.step_cases hstep with ⟨k, b, pc, advised, v, rfl, ht, rfl, -, htrans⟩ |
    ⟨k, b, last, v, -, -, rfl, hallocator, -⟩ | ⟨hallocators, -, -⟩
  · by_cases hb : a = b
    · subst hb
      rw [World.update_allocators_same]
      refine htrans.arena_eq.imp id fun hpc => ⟨k, advised, rfl, ?_⟩
      rcases hpc with ⟨c, size, rfl⟩ | ⟨size, blockSize, rfl⟩
      · exact Or.inl ⟨c, size, ht⟩
      · exact Or.inr ⟨size, blockSize, ht⟩
    · rw [World.update_allocators_ne _ _ hb]
      exact Or.inl rfl
  · by_cases hb : a = b
    · subst hb
      rw [World.update_allocators_same, hallocator]
      exact Or.inl rfl
    · rw [World.update_allocators_ne _ _ hb]
      exact Or.inl rfl
  · rw [hallocators]
    exact Or.inl rfl

theorem Inv.largeCarve_from (inv : Inv setup s) {action : Action ι κ}
    (hstep : s.step setup.debug action = some s') {size blockSize : Nat}
    (ht' : s'.threads k = .busy a (.largeCarve size blockSize)) :
    s.threads k = .busy a (.largeCarve size blockSize) ∨
      (∃ advised, action = .run k advised) ∧ s.threads k = .busy a (.large size blockSize) := by
  rcases inv.step_cases hstep with ⟨j, b, pc, advised, v, rfl, ht, rfl, -, htrans⟩ |
    ⟨j, b, last, v, -, ht, rfl, -, hbegun⟩ | ⟨-, -, hthreads⟩
  · by_cases hj : k = j
    · subst hj
      rw [World.update_threads_same] at ht'
      obtain ⟨rfl, rfl⟩ := htrans.largeCarve_from ht'
      exact Or.inr ⟨⟨advised, rfl⟩, ht⟩
    · rw [World.update_threads_ne _ _ hj] at ht'
      exact Or.inl ht'
  · by_cases hj : k = j
    · subst hj
      rw [World.update_threads_same] at ht'
      exfalso
      rcases hbegun with ⟨-, -, hthread⟩ | ⟨-, hthread⟩
      · cases hthread.symm.trans ht'
      · rw [ht'] at hthread
        cases hthread
    · rw [World.update_threads_ne _ _ hj] at ht'
      exact Or.inl ht'
  · rw [hthreads] at ht'
    exact Or.inl ht'

/-- What is in the order of the frees is in the pool. -/
theorem LargeObjectState.Pools.mem_freeBag {state : LargeObjectState} {freed : List FreeLargeBlock}
    (pools : state.Pools freed) {block : FreeLargeBlock} (h : block ∈ freed) :
    block ∈ state.freeBag := by
  have hmem : block ∈ (state.free.lookup block.blockSize).getD [] := by
    rw [pools.bucket]
    exact List.mem_filter.mpr ⟨h, by simp⟩
  cases hl : state.free.lookup block.blockSize with
  | none => simp [hl] at hmem
  | some blocks =>
    obtain ⟨l₁, l₂, hsplit, -⟩ := List.lookup_eq_some_iff.mp hl
    refine BagSum.mem_total.mpr ⟨(block.blockSize, blocks), by simp [hsplit], ?_⟩
    simpa [hl] using hmem

theorem Allocator.largeBlockSize_of_lt {L : Type} {allocator : Allocator L} {size : Nat}
    (h : alignUp (headerSize + size) allocator.config.alignment < usizeLimit) :
    allocator.largeBlockSize size =
      some (alignUp (headerSize + size) allocator.config.alignment) := by
  have hle := le_alignUp (headerSize + size) allocator.config.alignment
  have htotal : checkedAdd headerSize size = some (headerSize + size) :=
    if_pos (Nat.lt_of_le_of_lt hle h)
  rw [largeBlockSize, htotal, Option.bind_some, alignUpChecked_of_lt h, Option.bind_some,
    if_neg (by omega)]

end Registry

section Code

variable {setup : Setup ι κ} {w w' : World ι κ FreeList Batch}
  {s : World ι κ Seq Seq} {a : ι} {k : κ}

/-- A best fit goes on with the history. -/
theorem LargeHistory.Reachable.take {state : LargeObjectState} {freed : List FreeLargeBlock}
    (h : LargeHistory.Reachable ⟨state, freed⟩) (m : Nat) :
    (state.takeReusableBlock m = some (none, state) ∧ ∀ block ∈ freed, block.blockSize < m) ∨
      ∃ older block newer state', LargeObjectState.Fits freed m older block newer ∧
        state.takeReusableBlock m = some (some block, state') ∧
          LargeHistory.Reachable ⟨state', older ++ newer⟩ := by
  refine (h.pools.take m).imp id fun htake => ?_
  obtain ⟨older, block, newer, state', hfits, htake, -⟩ := htake
  refine ⟨older, block, newer, state', hfits, htake, StepSystem.Reaches.step (.take m) h ?_⟩
  rw [LargeCall.step, htake]
  show some (LargeHistory.mk state' (takeLast block freed)) = _
  rw [hfits.takeLast_eq]

variable [DecidableEq ι] [DecidableEq κ]

/-- The search of a large allocation. -/
theorem large_step {L B : Type} [BlockStore L B] {w w' : World ι κ L B} {debug : Bool}
    {advised : Bool × Bool} {size blockSize : Nat} {freed : List FreeLargeBlock}
    (hfreed : LargeHistory.Reachable ⟨(w.allocators a).large, freed⟩)
    (ht : w.threads k = .busy a (.large size blockSize))
    (hstep : w.step debug (.run k advised) = some w') :
    (w'.allocators a).arena = (w.allocators a).arena ∧
      ((w'.threads k = .busy a (.largeCarve size blockSize) ∧
          (w'.allocators a).large = (w.allocators a).large ∧
            ∀ block ∈ freed, block.blockSize < blockSize) ∨
        ∃ older block newer, LargeObjectState.Fits freed blockSize older block newer ∧
          w'.threads k = .busy a (.largeGot size block.blockAddr block.blockSize) ∧
            LargeHistory.Reachable ⟨(w'.allocators a).large, older ++ newer⟩) := by
  rcases hfreed.take blockSize with
    ⟨htake, hsmall⟩ | ⟨older, block, newer, large, hfits, htake, hreachable⟩
  · simp only [World.step, ht, View.next, World.view, htake] at hstep
    obtain rfl := Option.some.inj hstep
    rw [World.update_threads_same, World.update_allocators_same]
    exact ⟨rfl, Or.inl ⟨rfl, rfl, hsmall⟩⟩
  · simp only [World.step, ht, View.next, World.view, htake] at hstep
    obtain rfl := Option.some.inj hstep
    rw [World.update_threads_same, World.update_allocators_same]
    exact ⟨rfl, Or.inr ⟨older, block, newer, hfits, rfl, hreachable⟩⟩

/-- From here on, a free of `block` releases it, and puts it back into the pool as it is. -/
def World.Restores (debug : Bool) (w : World ι κ FreeList Batch) (a : ι) (block : FreeLargeBlock) :
    Prop :=
  ∀ actions w', w.runs debug actions = some w' →
    (∀ (i : Nat) (e : Live ι κ) k last expectedSize, w'.live[i]? = some e →
      e.ptr = userPtrFromBlockStart block.blockAddr → w'.threads k = .idle last →
        (w'.caches k).owner = some a ∨ (w'.caches k).isEmpty = true →
          expectedSize = none ∨ expectedSize = some e.size →
            ∃ w₁ usable, w'.step debug (.deallocate k a i expectedSize) = some w₁ ∧
              w₁.threads k = .busy a (.releasing e e.size usable)) ∧
    ∀ k entry requested usable advised freed,
      w'.threads k = .busy a (.releasing entry requested usable) →
        entry.ptr = userPtrFromBlockStart block.blockAddr →
          LargeHistory.Reachable ⟨(w'.allocators a).large, freed⟩ →
            ∃ w₁, w'.step debug (.run k advised) = some w₁ ∧
              w₁.threads k = .idle (some .freed) ∧
                LargeHistory.Reachable ⟨(w₁.allocators a).large, freed ++ [block]⟩

theorem Setup.Reachable.restores (h : setup.Reachable w) {block : FreeLargeBlock}
    (hlive : block ∈ w.largeBlocks a .live) : w.Restores setup.debug a block := by
  intro actions w' hruns
  have hsize : block.blockSize - headerSize < 2 ^ 32 := by
    obtain ⟨s, hs, hrefines⟩ := h.refines
    rw [hrefines.largeBlocks_eq] at hlive
    obtain ⟨entry, hentry, rfl⟩ := List.mem_map.mp (Multiset.mem_coe.mp hlive)
    have hok := (hs.inv.parts.allocator a).large.live_ok entry hentry
    exact hok.usable_eq ▸ hok.usable_lt
  have hreachable := h.runs hruns
  obtain ⟨p, hp⟩ := h.largeBlocks_stay hruns hsize ⟨_, hlive⟩
  obtain ⟨s, hs, hrefines⟩ := hreachable.refines
  rw [hrefines.largeBlocks_eq] at hp
  refine ⟨fun i e k last expectedSize he hptr ht hcache hexpected => ?_,
    fun k entry requested usable advised freed ht hptr hfreed => ?_⟩
  · have he' : s.live[i]? = some e := hrefines.live_eq ▸ he
    obtain ⟨cache, hbind⟩ : ∃ cache, (s.caches k).bindToAllocator a (s.allocators a).config =
        some cache := ThreadCache.bindToAllocator_isSome (hrefines.bindable hcache)
    obtain ⟨usable, hthread⟩ := hs.inv.startFree_large (k := k) hp (List.mem_of_getElem? he') hptr
      hexpected setup.debug cache (s.live.eraseIdx i)
    obtain ⟨s₁, hs₁⟩ : ∃ s₁, s₁ = s.update a k (View.startFree setup.debug a
      ((s.view a k).setCache cache) e (s.live.eraseIdx i) expectedSize) := ⟨_, rfl⟩
    have hstart : s.step setup.debug (.deallocate k a i expectedSize) = some s₁ := by
      simp only [World.step, he', Option.bind_some,
        World.call_eq (hrefines.idle_last ht) hbind, hs₁]
      rfl
    obtain ⟨w₁, hw₁, hrefines₁⟩ := hrefines.start_call (k := k) hs.inv rfl hstart
    refine ⟨w₁, usable, hw₁, ?_⟩
    rw [hrefines₁.threads_eq, hs₁, World.update_threads_same, hthread]
    rfl
  · obtain ⟨w₁, hw₁⟩ := hreachable.progress ht advised
    obtain ⟨s₁, hs₁, hrefines₁⟩ := hrefines.forward hs.inv hw₁
    obtain ⟨pc, ht', hpc⟩ := hrefines.busy ht
    obtain rfl : pc = .releasing entry requested usable := by
      cases pc <;> cases hpc
      rfl
    simp only [World.step, ht'] at hs₁
    obtain ⟨v, hv, rfl⟩ := Option.map_eq_some_iff.mp hs₁
    obtain ⟨hthread, hreleased⟩ :=
      hs.inv.release_step ht' hp hptr (hrefines.large_eq a ▸ hfreed) hv
    refine ⟨w₁, hw₁, ?_, ?_⟩
    · rw [hrefines₁.threads_eq, World.update_threads_same, hthread]
      rfl
    · rw [hrefines₁.large_eq, World.update_allocators_same]
      exact hreleased

/-- Large blocks are reused by best fit.  The search takes the last freed block of the smallest size
that is large enough and leaves the others in their order; an allocation reserves from the arena
only when the search has found nothing, and the block that it takes goes back whole when it is
freed. -/
theorem best_fit_reuse :
    (∀ state freed, LargeHistory.Reachable ⟨state, freed⟩ →
      (∀ size, (state.free.lookup size).getD [] =
        freed.filter fun block => block.blockSize = size) ∧
      ∀ m, ((∃ state', state.takeBestFitBlock m = some (none, state')) ↔
          ∀ block ∈ freed, block.blockSize < m) ∧
        ((∃ block ∈ freed, m ≤ block.blockSize) → ∃ older block newer state',
          state.takeBestFitBlock m = some (some block, state') ∧
            freed = older ++ block :: newer ∧ m ≤ block.blockSize ∧
            (∀ other ∈ freed, m ≤ other.blockSize → block.blockSize ≤ other.blockSize) ∧
            (∀ other ∈ newer, other.blockSize ≠ block.blockSize) ∧
            LargeHistory.Reachable ⟨state', older ++ newer⟩)) ∧
    ∀ (setup : Setup ι κ) (w : World ι κ FreeList Batch), setup.Reachable w → ∀ a : ι,
      (∃ freed, LargeHistory.Reachable ⟨(w.allocators a).large, freed⟩) ∧
      ∀ freed, LargeHistory.Reachable ⟨(w.allocators a).large, freed⟩ →
        -- a step that reserves for a large request comes after a search
        (∀ action w', w.step setup.debug action = some w' →
          ((w'.allocators a).arena = (w.allocators a).arena ∨ ∃ k advised, action = .run k advised ∧
            ((∃ c size, w.threads k = .busy a (.carve c size)) ∨
              ∃ size blockSize, w.threads k = .busy a (.largeCarve size blockSize))) ∧
          ∀ k size blockSize, w'.threads k = .busy a (.largeCarve size blockSize) →
            w.threads k = .busy a (.largeCarve size blockSize) ∨
              w.threads k = .busy a (.large size blockSize) ∧
                ∀ block ∈ freed, block.blockSize < blockSize) ∧
        -- the search
        (∀ k size blockSize, w.threads k = .busy a (.large size blockSize) →
          blockSize = alignUp (headerSize + size) (w.allocators a).config.alignment ∧
          ∀ advised w', w.step setup.debug (.run k advised) = some w' →
            (w'.allocators a).arena = (w.allocators a).arena ∧
            ((∃ block ∈ freed, blockSize ≤ block.blockSize) → ∃ older block newer,
              LargeObjectState.Fits freed blockSize older block newer ∧
                w'.threads k = .busy a (.largeGot size block.blockAddr block.blockSize) ∧
                  LargeHistory.Reachable ⟨(w'.allocators a).large, older ++ newer⟩)) ∧
        -- a whole call
        ∀ k last size, w.threads k = .idle last →
          (w.caches k).owner = some a ∨ (w.caches k).isEmpty = true →
          SizeClass.maxSmallRequest < size →
          (∃ block ∈ freed,
            alignUp (headerSize + size) (w.allocators a).config.alignment ≤ block.blockSize) →
          ∃ older block newer, LargeObjectState.Fits freed
              (alignUp (headerSize + size) (w.allocators a).config.alignment) older block newer ∧
            w.Calls setup.debug k (.allocate k a size) fun w' =>
              (w'.allocators a).arena = (w.allocators a).arena ∧
                w'.threads k = .idle (some (.allocated (userPtrFromBlockStart block.blockAddr))) ∧
                  LargeHistory.Reachable ⟨(w'.allocators a).large, older ++ newer⟩ ∧
                    w'.Restores setup.debug a block := by
  refine ⟨fun state freed h => ⟨h.pools.bucket, fun m => ?_⟩, fun setup w h a => ?_⟩
  · rcases h.take m with ⟨htake, hsmall⟩ | ⟨older, block, newer, state', hfits, htake, hleft⟩
    · refine ⟨⟨fun _ => hsmall, fun _ => ⟨state, htake⟩⟩, fun hlarge => ?_⟩
      obtain ⟨block, hblock, hle⟩ := hlarge
      have hlt := hsmall block hblock
      omega
    · refine ⟨⟨fun hnone => ?_, fun hsmall => ?_⟩, fun _ => ⟨older, block, newer, state', htake,
        hfits.split, hfits.fits, hfits.smallest, hfits.latest, hleft⟩⟩
      · obtain ⟨state'', hnone⟩ := hnone
        cases htake.symm.trans hnone
      · have hlt := hsmall block (by rw [hfits.split]; simp)
        have hle := hfits.fits
        omega
  · obtain ⟨s, hs, hrefines⟩ := h.refines
    refine ⟨?_, fun freed hfreed => ⟨fun action w' hstep => ⟨?_, fun k size blockSize ht' => ?_⟩,
      fun k size blockSize ht => ⟨?_, fun advised w' hstep => ?_⟩,
      fun k last size ht hcache hsize hlarge => ?_⟩⟩
    · rw [hrefines.large_eq]
      exact hs.registry a
    · obtain ⟨s', hstep', hrefines'⟩ := hrefines.forward hs.inv hstep
      rw [hrefines.arena_eq, hrefines'.arena_eq]
      refine (hs.inv.arena_or_reserves hstep' a).imp id fun hreserves => ?_
      obtain ⟨k, advised, rfl, hpc⟩ := hreserves
      refine ⟨k, advised, rfl, ?_⟩
      rcases hpc with ⟨c, size, ht⟩ | ⟨size, blockSize, ht⟩
      · exact Or.inl ⟨c, size, by rw [hrefines.threads_eq, ht]; rfl⟩
      · exact Or.inr ⟨size, blockSize, by rw [hrefines.threads_eq, ht]; rfl⟩
    · obtain ⟨s', hstep', hrefines'⟩ := hrefines.forward hs.inv hstep
      obtain ⟨pc, hpc', hpc⟩ := hrefines'.busy ht'
      obtain rfl : pc = .largeCarve size blockSize := by
        cases pc <;> cases hpc
        rfl
      rcases hs.inv.largeCarve_from hstep' hpc' with hsame | ⟨⟨advised, rfl⟩, ht⟩
      · apply Or.inl
        rw [hrefines.threads_eq, hsame]
        rfl
      · have ht : w.threads k = .busy a (.large size blockSize) := by
          rw [hrefines.threads_eq, ht]
          rfl
        obtain ⟨-, ⟨-, -, hsmall⟩ | ⟨_, _, _, -, hgot, -⟩⟩ := large_step hfreed ht hstep
        · exact Or.inr ⟨ht, hsmall⟩
        · cases hgot.symm.trans ht'
    · obtain ⟨pc, ht', hpc⟩ := hrefines.busy ht
      obtain rfl : pc = .large size blockSize := by
        cases pc <;> cases hpc
        rfl
      have hwants := (wantsWhole_fromStart setup).reachable hs k
      rw [ht'] at hwants
      rw [hrefines.config_eq, (hs.inv.parts.allocator a).config_eq]
      exact hwants
    · obtain ⟨harena, hfound⟩ := large_step hfreed ht hstep
      refine ⟨harena, fun hlarge => ?_⟩
      rcases hfound with ⟨-, -, hsmall⟩ | hfound
      · obtain ⟨block, hblock, hle⟩ := hlarge
        have hlt := hsmall block hblock
        omega
      · exact hfound
    · obtain ⟨blockSize, hblockSize⟩ : ∃ blockSize, blockSize =
        alignUp (headerSize + size) (w.allocators a).config.alignment := ⟨_, rfl⟩
      rw [← hblockSize] at hlarge ⊢
      obtain ⟨large, hmem, hle⟩ := hlarge
      rcases hfreed.take blockSize with
        ⟨-, hsmall⟩ | ⟨older, block, newer, left, hfits, htake, hleft⟩
      · have hlt := hsmall large hmem
        omega
      · rw [hrefines.large_eq] at hfreed htake
        have hlt := hs.inv.lt_usizeLimit_of_free (hfreed.pools.mem_freeBag hmem)
        have hwant : (s.allocators a).largeBlockSize size = some blockSize := by
          rw [hblockSize, hrefines.config_eq]
          apply Allocator.largeBlockSize_of_lt
          rw [← hrefines.config_eq, ← hblockSize]
          omega
        obtain ⟨cache, hbind⟩ : ∃ cache, (s.caches k).bindToAllocator a (s.allocators a).config =
            some cache := ThreadCache.bindToAllocator_isSome (hrefines.bindable hcache)
        have hcalls := hrefines.calls hs.inv rfl
          (hs.inv.allocate_reuses (hrefines.idle_last ht) hbind hsize hwant htake hleft)
        refine ⟨older, block, newer, hfits, (h.calls hcalls).mono fun w' hend => ?_⟩
        obtain ⟨hw', s', hrefines', harena, hthread, hlarge', hlive⟩ := hend
        refine ⟨?_, hrefines'.idle_of hthread, ?_, hw'.restores ?_⟩
        · rw [hrefines.arena_eq, hrefines'.arena_eq]
          exact harena
        · rw [hrefines'.large_eq]
          exact hlarge'
        · rw [hrefines'.largeBlocks_eq]
          exact hlive

/-- An allocation of 17 MiB that is freed again. -/
def freedActions : List (Action Unit Unit) :=
  .allocate () () (17 * 2 ^ 20) :: List.replicate 4 (.run () (true, true)) ++
    [.deallocate () () 0 none, .run () (true, true)]

theorem freedActions_run :
    ((largeSetup.world FreeList Batch).runs true freedActions).isSome := by
  decide +kernel

/-- The freed block serves a smaller request. -/
theorem best_fit_reuse_sample : ∃ w : World Unit Unit FreeList Batch, largeSetup.Reachable w ∧
    w.Calls true () (.allocate () () (2 ^ 24 + 1)) fun w' =>
      (w'.allocators ()).arena = (w.allocators ()).arena ∧
        w'.threads () = .idle (some (.allocated 4160)) := by
  obtain ⟨w, hw⟩ : ∃ w, w = largeSetup.after freedActions freedActions_run := ⟨_, rfl⟩
  have hreachable : largeSetup.Reachable w := hw ▸ Setup.after_reachable freedActions_run
  have hstate : (w.allocators ()).large =
      ⟨[], 0, [(17825856, [⟨4096, 17825856⟩])], 1, 17825856⟩ := by
    rw [hw]
    decide +kernel
  have hrun : StepSystem.runs LargeCall.step
      [.record 4160 4096 17825856 17825792 17825792, .release 4160 17825792 17825792]
        ⟨.new, []⟩ = some ⟨(w.allocators ()).large, [⟨4096, 17825856⟩]⟩ := by
    rw [hstate]
    decide +kernel
  have hconfig : (w.allocators ()).config.alignment = 64 := by
    rw [hw]
    decide +kernel
  have hidle : ∃ last, w.threads () = .idle last := by
    rw [hw]
    exact ⟨_, by rfl⟩
  have howner : (w.caches ()).owner = some () := by
    rw [hw]
    decide +kernel
  obtain ⟨last, hidle⟩ := hidle
  obtain ⟨older, block, newer, hfits, hcalls⟩ :=
    (((@best_fit_reuse Unit Unit _ _).2 largeSetup w hreachable ()).2 _
      (StepSystem.reaches_runs hrun)).2.2 () last (2 ^ 24 + 1) hidle (Or.inl howner) (by decide)
        ⟨⟨4096, 17825856⟩, by simp, by rw [hconfig]; decide⟩
  have hmem : block ∈ [(⟨4096, 17825856⟩ : FreeLargeBlock)] := by
    rw [hfits.split]
    simp
  obtain rfl := List.mem_singleton.mp hmem
  exact ⟨w, hreachable, hcalls.mono fun w' hend => ⟨hend.1, hend.2.1⟩⟩

end Code

end Orthotope
