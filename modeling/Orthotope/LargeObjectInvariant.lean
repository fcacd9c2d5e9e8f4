import Orthotope.LargeObject
import Orthotope.Lib.BagSum
import Mathlib.Algebra.BigOperators.Group.Multiset.Basic

/-! The large-object registry: its blocks form two bags, the live map and the free pool, the
counters are sums over these, and every operation moves one block at most. -/

namespace Orthotope

open BagSum

/-! ### Buckets -/

section Buckets

variable {M : Type*} [AddCommMonoid M] {k : Nat} {blocks : List FreeLargeBlock}
  {free : List (Nat × List FreeLargeBlock)}

theorem mem_insertBucket {e : Nat × List FreeLargeBlock} (h : e ∈ insertBucket k blocks free) :
    e = (k, blocks) ∨ e ∈ free := by
  induction free with
  | nil => exact Or.inl (by simpa [insertBucket] using h)
  | cons e' free ih =>
    unfold insertBucket at h
    split at h
    · rcases List.mem_cons.mp h with h | h
      · exact Or.inl h
      · exact Or.inr h
    · split at h
      · rcases List.mem_cons.mp h with h | h
        · exact Or.inl h
        · exact Or.inr (List.mem_cons_of_mem _ h)
      · rcases List.mem_cons.mp h with h | h
        · exact Or.inr (by simp [h])
        · exact (ih h).imp_right (List.mem_cons_of_mem _)

theorem insertBucket_sorted (h : free.Pairwise fun e e' => e.1 < e'.1) :
    (insertBucket k blocks free).Pairwise fun e e' => e.1 < e'.1 := by
  induction free with
  | nil => simp [insertBucket]
  | cons e' free ih =>
    obtain ⟨h1, h2⟩ := List.pairwise_cons.mp h
    unfold insertBucket
    split
    · rename_i hlt
      refine List.pairwise_cons.mpr ⟨fun e he => ?_, h⟩
      rcases List.mem_cons.mp he with rfl | he
      · exact hlt
      · exact Nat.lt_trans hlt (h1 e he)
    · split
      · rename_i heq
        refine List.pairwise_cons.mpr ⟨fun e he => ?_, h2⟩
        rw [heq]
        exact h1 e he
      · rename_i hge hne
        refine List.pairwise_cons.mpr ⟨fun e he => ?_, ih h2⟩
        rcases mem_insertBucket he with rfl | he
        · simp only
          omega
        · exact h1 e he

/-- Buckets with smaller keys are passed. -/
theorem insertBucket_append {l₁ l₂ : List (Nat × List FreeLargeBlock)} (h : ∀ e ∈ l₁, e.1 < k) :
    insertBucket k blocks (l₁ ++ l₂) = l₁ ++ insertBucket k blocks l₂ := by
  induction l₁ with
  | nil => rfl
  | cons e l₁ ih =>
    have hlt := h e List.mem_cons_self
    obtain ⟨k', blocks'⟩ := e
    simp only at hlt
    rw [List.cons_append, insertBucket, if_neg (by omega), if_neg (by omega),
      ih fun e he => h e (List.mem_cons_of_mem _ he)]
    rfl

theorem insertBucket_of_lt (h : ∀ e ∈ free, k < e.1) :
    insertBucket k blocks free = (k, blocks) :: free := by
  cases free with
  | nil => rfl
  | cons e free =>
    obtain ⟨k', blocks'⟩ := e
    exact if_pos (h (k', blocks') List.mem_cons_self)

/-- Setting a bucket exchanges its share of a total. -/
theorem total_insertBucket (h : free.Pairwise fun e e' => e.1 < e'.1)
    (f : Nat × List FreeLargeBlock → M) (hf : f (k, []) = 0) :
    total f (insertBucket k blocks free) + f (k, (free.lookup k).getD []) =
      total f free + f (k, blocks) := by
  induction free with
  | nil => simp [insertBucket, hf]
  | cons e' free ih =>
    obtain ⟨k', blocks'⟩ := e'
    obtain ⟨h1, h2⟩ := List.pairwise_cons.mp h
    unfold insertBucket
    split
    · rename_i hlt
      have hnone : ((k', blocks') :: free).lookup k = none := by
        rw [List.lookup_eq_none_iff]
        intro e he
        rcases List.mem_cons.mp he with rfl | he
        · simpa using Nat.ne_of_lt hlt
        · simpa using Nat.ne_of_lt (Nat.lt_trans hlt (h1 e he))
      rw [hnone, Option.getD_none, hf, add_zero, total_cons, add_comm]
    · split
      · rename_i heq
        subst heq
        simp only [total_cons, List.lookup_cons_self, Option.getD_some]
        rw [add_right_comm, add_comm (f (k, blocks)), add_right_comm]
      · rename_i hge hne
        have hpass : ((k', blocks') :: free).lookup k = free.lookup k := by
          rw [List.lookup_cons, beq_eq_false_iff_ne.mpr hne]
        rw [hpass, total_cons, total_cons, add_assoc, ih h2, add_assoc]

end Buckets

/-! ### The registry -/

namespace LargeObjectState

variable (state : LargeObjectState)

def recordBlock (record : LargeAllocationRecord) : FreeLargeBlock :=
  ⟨record.blockAddr, record.blockSize⟩

def liveBag : Multiset FreeLargeBlock :=
  ((state.live.map fun e => recordBlock e.2 : List FreeLargeBlock) : Multiset FreeLargeBlock)

def freeBag : Multiset FreeLargeBlock :=
  total (fun e => (e.2 : Multiset FreeLargeBlock)) state.free

/-- What every live record says about its block. -/
structure RecordOk (ptr : Nat) (record : LargeAllocationRecord) : Prop where
  key : ptr = record.blockAddr + headerSize
  header_le : headerSize ≤ record.blockSize
  usable_eq : record.usableSize = record.blockSize - headerSize
  requested_pos : 0 < record.requestedSize
  requested_le : record.requestedSize ≤ record.usableSize
  usable_lt : record.usableSize < 2 ^ 32

/-- What the header of a block in the free pool could say again. -/
structure FreeOk (block : FreeLargeBlock) : Prop where
  header_le : headerSize ≤ block.blockSize
  usable_lt : block.usableSize < 2 ^ 32

structure Inv : Prop where
  live_nodup : (state.live.map Prod.fst).Nodup
  live_ok : ∀ e ∈ state.live, RecordOk e.1 e.2
  liveBytes_eq : state.liveBytes = (state.liveBag.map FreeLargeBlock.blockSize).sum
  buckets_sorted : state.free.Pairwise fun e e' => e.1 < e'.1
  bucket_nonempty : ∀ e ∈ state.free, e.2 ≠ []
  bucket_size : ∀ e ∈ state.free, ∀ block ∈ e.2, block.blockSize = e.1
  free_ok : ∀ block ∈ state.freeBag, FreeOk block
  freeBlocks_eq : state.freeBlocks = state.freeBag.card
  freeBytes_eq : state.freeBytes = (state.freeBag.map FreeLargeBlock.blockSize).sum

theorem sum_liveBag : (state.liveBag.map FreeLargeBlock.blockSize).sum =
    (state.live.map fun record => record.2.blockSize).sum := by
  simp only [liveBag, Multiset.map_coe, Multiset.sum_coe, List.map_map]
  rfl

theorem card_freeBag :
    state.freeBag.card = (state.free.map fun bucket => bucket.2.length).sum := by
  rw [freeBag, card_total]
  rfl

theorem sum_freeBag : (state.freeBag.map FreeLargeBlock.blockSize).sum =
    (state.free.map fun bucket => (bucket.2.map FreeLargeBlock.blockSize).sum).sum := by
  rw [freeBag, ← coe_flatten_map, Multiset.map_coe, Multiset.sum_coe, List.map_flatten,
    List.sum_flatten, List.map_map, List.map_map]
  rfl

theorem new_inv : new.Inv where
  live_nodup := by simp [new]
  live_ok := by simp [new]
  liveBytes_eq := by simp [new, liveBag]
  buckets_sorted := by simp [new]
  bucket_nonempty := by simp [new]
  bucket_size := by simp [new]
  free_ok := by simp [new, freeBag]
  freeBlocks_eq := by simp [new, freeBag]
  freeBytes_eq := by simp [new, freeBag]

variable {state} {state' : LargeObjectState}

theorem insertFreeBlock_freeBag (inv : state.Inv) (block : FreeLargeBlock) :
    (state.insertFreeBlock block).freeBag = block ::ₘ state.freeBag := by
  have h : (state.insertFreeBlock block).freeBag +
      (((state.free.lookup block.blockSize).getD [] : List FreeLargeBlock) :
        Multiset FreeLargeBlock) = state.freeBag +
      (((state.free.lookup block.blockSize).getD [] ++ [block] : List FreeLargeBlock) :
        Multiset FreeLargeBlock) :=
    total_insertBucket inv.buckets_sorted (fun e => (e.2 : Multiset FreeLargeBlock)) rfl
  rw [← Multiset.coe_add, Multiset.coe_singleton, add_comm _ ({block} : Multiset FreeLargeBlock),
    ← add_assoc] at h
  rw [add_right_cancel h, add_comm, Multiset.singleton_add]

/-- A released block joins the bucket of its size. -/
theorem insertFreeBlock_inv (inv : state.Inv) {block : FreeLargeBlock} (hok : FreeOk block) :
    (state.insertFreeBlock block).Inv := by
  have hbag := insertFreeBlock_freeBag inv block
  constructor
  case live_nodup => exact inv.live_nodup
  case live_ok => exact inv.live_ok
  case liveBytes_eq => exact inv.liveBytes_eq
  case buckets_sorted => exact insertBucket_sorted inv.buckets_sorted
  case bucket_nonempty =>
    intro e he
    rcases mem_insertBucket he with rfl | he
    · simp
    · exact inv.bucket_nonempty e he
  case bucket_size =>
    intro e he b hb
    rcases mem_insertBucket he with rfl | he
    · rcases List.mem_append.mp hb with hb | hb
      · cases hl : state.free.lookup block.blockSize with
        | none => simp [hl] at hb
        | some blocks =>
          obtain ⟨l₁, l₂, hsplit, _⟩ := List.lookup_eq_some_iff.mp hl
          exact inv.bucket_size (block.blockSize, blocks) (by simp [hsplit]) b
            (by simpa [hl] using hb)
      · simp only [List.mem_singleton] at hb
        rw [hb]
    · exact inv.bucket_size e he b hb
  case free_ok =>
    intro b hb
    rw [hbag, Multiset.mem_cons] at hb
    rcases hb with rfl | hb
    · exact hok
    · exact inv.free_ok b hb
  case freeBlocks_eq => rw [hbag, Multiset.card_cons, ← inv.freeBlocks_eq]; rfl
  case freeBytes_eq =>
    rw [hbag, Multiset.map_cons, Multiset.sum_cons, ← inv.freeBytes_eq, add_comm]
    rfl

/-- A bucket that has given up its last block, unless nothing is left in it. -/
def leftBucket (k : Nat) (blocks : List FreeLargeBlock) : List (Nat × List FreeLargeBlock) :=
  if blocks.isEmpty then [] else [(k, blocks)]

theorem mem_leftBucket {k : Nat} {blocks : List FreeLargeBlock} {e : Nat × List FreeLargeBlock} :
    e ∈ leftBucket k blocks ↔ blocks ≠ [] ∧ e = (k, blocks) := by
  unfold leftBucket
  cases blocks with
  | nil => simp
  | cons block blocks => simp

theorem total_leftBucket (k : Nat) (blocks : List FreeLargeBlock) :
    total (fun e => (e.2 : Multiset FreeLargeBlock)) (leftBucket k blocks) = blocks := by
  unfold leftBucket
  cases blocks with
  | nil => rfl
  | cons block blocks => simp

/-- What a best fit takes: the last block of the first bucket that is large enough. -/
structure BestFit (state : LargeObjectState) (minimumBlockSize k : Nat)
    (init : List FreeLargeBlock) (block : FreeLargeBlock)
    (before after : List (Nat × List FreeLargeBlock)) : Prop where
  split : state.free = before ++ (k, init ++ [block]) :: after
  smaller : ∀ e ∈ before, e.1 < minimumBlockSize
  fits : minimumBlockSize ≤ k

/-- The state after a best fit. -/
def afterBestFit (state : LargeObjectState) (k : Nat) (init : List FreeLargeBlock)
    (block : FreeLargeBlock) (before after : List (Nat × List FreeLargeBlock)) : LargeObjectState :=
  { state with
    free := before ++ (leftBucket k init ++ after)
    freeBlocks := state.freeBlocks - 1
    freeBytes := state.freeBytes - block.blockSize }

/-- What a best fit leaves: the bucket without its last block, and the other buckets as they
were. -/
theorem mem_afterBestFit {k : Nat} {init : List FreeLargeBlock} {block : FreeLargeBlock}
    {before after : List (Nat × List FreeLargeBlock)} {m : Nat}
    (hfit : BestFit state m k init block before after) :
    ∀ e ∈ (state.afterBestFit k init block before after).free,
      init ≠ [] ∧ e = (k, init) ∨ e ∈ state.free := by
  intro e he
  have he : e ∈ before ++ (leftBucket k init ++ after) := he
  rw [hfit.split]
  rcases List.mem_append.mp he with he | he
  · exact Or.inr (by simp [he])
  · rcases List.mem_append.mp he with he | he
    · exact Or.inl (mem_leftBucket.mp he)
    · exact Or.inr (by simp [he])

theorem afterBestFit_sorted {k : Nat} {init : List FreeLargeBlock} {block : FreeLargeBlock}
    {before after : List (Nat × List FreeLargeBlock)} {m : Nat}
    (hfit : BestFit state m k init block before after)
    (hsorted : state.free.Pairwise fun e e' => e.1 < e'.1) :
    (state.afterBestFit k init block before after).free.Pairwise fun e e' => e.1 < e'.1 := by
  rw [hfit.split] at hsorted
  obtain ⟨h1, h2, h3⟩ := List.pairwise_append.mp hsorted
  obtain ⟨h4, h5⟩ := List.pairwise_cons.mp h2
  refine List.pairwise_append.mpr ⟨h1, List.pairwise_append.mpr ⟨?_, h5, ?_⟩, ?_⟩
  · unfold leftBucket
    split <;> simp
  · intro e he e' he'
    rw [(mem_leftBucket.mp he).2]
    exact h4 e' he'
  · intro e he e' he'
    rcases List.mem_append.mp he' with he' | he'
    · rw [(mem_leftBucket.mp he').2]
      exact h3 e he (k, init ++ [block]) List.mem_cons_self
    · exact h3 e he e' (List.mem_cons_of_mem _ he')

theorem afterBestFit_nonempty {k : Nat} {init : List FreeLargeBlock} {block : FreeLargeBlock}
    {before after : List (Nat × List FreeLargeBlock)} {m : Nat}
    (hfit : BestFit state m k init block before after) (hnonempty : ∀ e ∈ state.free, e.2 ≠ []) :
    ∀ e ∈ (state.afterBestFit k init block before after).free, e.2 ≠ [] := by
  intro e he
  rcases mem_afterBestFit hfit e he with ⟨hinit, rfl⟩ | he
  · exact hinit
  · exact hnonempty e he

theorem takeBestFitBlock_cases (hsorted : state.free.Pairwise fun e e' => e.1 < e'.1)
    (hnonempty : ∀ e ∈ state.free, e.2 ≠ []) (minimumBlockSize : Nat) :
    (state.takeBestFitBlock minimumBlockSize = some (none, state) ∧
      ∀ e ∈ state.free, e.1 < minimumBlockSize) ∨
    ∃ k init block before after, BestFit state minimumBlockSize k init block before after ∧
      (state.freeBlocks ≠ 0 → block.blockSize ≤ state.freeBytes →
        state.takeBestFitBlock minimumBlockSize =
          some (some block, state.afterBestFit k init block before after)) := by
  unfold takeBestFitBlock
  cases hfind : state.free.find? fun bucket => minimumBlockSize ≤ bucket.1 with
  | none =>
    left
    refine ⟨rfl, fun e he => ?_⟩
    have hlt := List.find?_eq_none.mp hfind e he
    simpa using hlt
  | some e =>
    right
    obtain ⟨k, blocks⟩ := e
    obtain ⟨hle, before, after, hsplit, hbefore⟩ := List.find?_eq_some_iff_append.mp hfind
    have hfits : minimumBlockSize ≤ k := by simpa using hle
    have hsmaller : ∀ e ∈ before, e.1 < minimumBlockSize := fun e he => by simpa using hbefore e he
    have hin : (k, blocks) ∈ state.free := by simp [hsplit]
    obtain ⟨init, block, rfl⟩ : ∃ init block, blocks = init ++ [block] :=
      ⟨_, _, (List.dropLast_append_getLast (hnonempty _ hin)).symm⟩
    -- the key occurs once, so looking it up and removing it are about the bucket found
    have hne : ∀ e ∈ before, ¬(e.1 == k) = true := by
      intro e he
      have hlt := hsmaller e he
      simp only [beq_iff_eq]
      omega
    have hlookup : state.free.lookup k = some (init ++ [block]) :=
      List.lookup_eq_some_iff.mpr ⟨before, after, hsplit, fun e he => by
        have hlt := hsmaller e he
        simp only [bne_iff_ne, ne_eq]
        omega⟩
    have herase : state.free.eraseP (fun bucket => bucket.1 == k) = before ++ after := by
      rw [hsplit, List.eraseP_append_right _ hne, List.eraseP_cons_of_pos (by simp)]
    have hafter : ∀ e ∈ after, k < e.1 := by
      rw [hsplit] at hsorted
      exact (List.pairwise_cons.mp (List.pairwise_append.mp hsorted).2.1).1
    have hrest : (if init.isEmpty then before ++ after else insertBucket k init (before ++ after)) =
        before ++ (leftBucket k init ++ after) := by
      unfold leftBucket
      cases init with
      | nil => rfl
      | cons b init =>
        simp only [List.isEmpty_cons, Bool.false_eq_true, if_false]
        rw [insertBucket_append fun e he => by
          have hlt := hsmaller e he
          omega, insertBucket_of_lt hafter]
        rfl
    refine ⟨k, init, block, before, after, ⟨hsplit, hsmaller, hfits⟩, fun hblocks hbytes => ?_⟩
    have hcount : ¬(state.freeBlocks = 0 ∨ state.freeBytes < block.blockSize) := by omega
    simp only [hlookup, Option.bind_some, List.getLast?_concat, List.dropLast_concat, herase,
      if_neg hcount, hrest]
    rfl

/-- The best fit gives up the last block of the smallest bucket that is large enough, and fails only
when no free block is. -/
theorem takeBestFitBlock_spec (inv : state.Inv) (minimumBlockSize : Nat) :
    ∃ found state', state.takeBestFitBlock minimumBlockSize = some (found, state') ∧ state'.Inv ∧
      state'.live = state.live ∧ state'.liveBytes = state.liveBytes ∧
      match found with
      | none => state' = state ∧ ∀ block ∈ state.freeBag, block.blockSize < minimumBlockSize
      | some block => minimumBlockSize ≤ block.blockSize ∧
          state.freeBag = block ::ₘ state'.freeBag := by
  rcases takeBestFitBlock_cases inv.buckets_sorted inv.bucket_nonempty minimumBlockSize with
    ⟨hnone, hsmall⟩ | ⟨k, init, block, before, after, hfit, hrun⟩
  · refine ⟨none, state, hnone, inv, rfl, rfl, rfl, fun block hb => ?_⟩
    obtain ⟨e, he, hbe⟩ := mem_total.mp hb
    rw [inv.bucket_size e he block hbe]
    exact hsmall e he
  · obtain ⟨left, hleft⟩ : ∃ left, left = state.afterBestFit k init block before after := ⟨_, rfl⟩
    have hfree : left.free = before ++ (leftBucket k init ++ after) := by rw [hleft]; rfl
    have hin : (k, init ++ [block]) ∈ state.free := by simp [hfit.split]
    have hsize : block.blockSize = k := inv.bucket_size _ hin block (by simp)
    have hmem : ∀ e ∈ left.free, init ≠ [] ∧ e = (k, init) ∨ e ∈ state.free :=
      hleft ▸ mem_afterBestFit hfit
    have hbag : state.freeBag = block ::ₘ left.freeBag := by
      simp only [freeBag, hfit.split, hfree, total_append, total_cons, total_leftBucket]
      simp only [← Multiset.coe_add, Multiset.coe_singleton, ← Multiset.singleton_add]
      ac_rfl
    have hblocks := inv.freeBlocks_eq
    have hbytes := inv.freeBytes_eq
    rw [hbag, Multiset.card_cons] at hblocks
    rw [hbag, Multiset.map_cons, Multiset.sum_cons] at hbytes
    refine ⟨some block, left, hleft ▸ hrun (by omega) (by omega), ?_, by rw [hleft]; rfl,
      by rw [hleft]; rfl, hsize ▸ hfit.fits, hbag⟩
    constructor
    case live_nodup => exact hleft ▸ inv.live_nodup
    case live_ok => exact hleft ▸ inv.live_ok
    case liveBytes_eq => exact hleft ▸ inv.liveBytes_eq
    case buckets_sorted => exact hleft ▸ afterBestFit_sorted hfit inv.buckets_sorted
    case bucket_nonempty => exact hleft ▸ afterBestFit_nonempty hfit inv.bucket_nonempty
    case bucket_size =>
      intro e he b hb
      rcases hmem e he with ⟨-, rfl⟩ | he
      · exact inv.bucket_size _ hin b (List.mem_append_left _ hb)
      · exact inv.bucket_size e he b hb
    case free_ok =>
      intro b hb
      apply inv.free_ok b
      rw [hbag]
      exact Multiset.mem_cons_of_mem hb
    case freeBlocks_eq =>
      have hcount : left.freeBlocks = state.freeBlocks - 1 := by rw [hleft]; rfl
      omega
    case freeBytes_eq =>
      have hcount : left.freeBytes = state.freeBytes - block.blockSize := by rw [hleft]; rfl
      omega

/-- A block that is not registered yet becomes a live one. -/
theorem recordLiveAllocation_spec (inv : state.Inv) {start blockSize requested : Nat}
    (hfresh : ∀ e ∈ state.live, e.1 ≠ start + headerSize)
    (hok : RecordOk (start + headerSize)
      ⟨start, blockSize, requested, blockSize - headerSize⟩) :
    ∃ state', state.recordLiveAllocation (start + headerSize) start blockSize requested
        (blockSize - headerSize) = some state' ∧ state'.Inv ∧
      state'.live = (start + headerSize, ⟨start, blockSize, requested, blockSize - headerSize⟩) ::
        state.live ∧ state'.freeBag = state.freeBag := by
  have hnone : state.live.lookup (start + headerSize) = none := by
    rw [List.lookup_eq_none_iff]
    intro e he
    simpa using Ne.symm (hfresh e he)
  refine ⟨{ state with
      live := (start + headerSize, ⟨start, blockSize, requested, blockSize - headerSize⟩) ::
        state.live
      liveBytes := state.liveBytes + blockSize }, by simp [recordLiveAllocation, hnone], ?_, rfl,
    rfl⟩
  constructor
  case live_nodup =>
    simp only [List.map_cons, List.nodup_cons, List.mem_map, not_exists, not_and]
    exact ⟨hfresh, inv.live_nodup⟩
  case live_ok =>
    intro e he
    rcases List.mem_cons.mp he with rfl | he
    · exact hok
    · exact inv.live_ok e he
  case liveBytes_eq =>
    have := inv.liveBytes_eq
    simp only [liveBag, Multiset.map_coe, Multiset.sum_coe, List.map_cons, List.sum_cons] at this ⊢
    simp only [recordBlock]
    rw [this, add_comm]
    rfl
  case buckets_sorted => exact inv.buckets_sorted
  case bucket_nonempty => exact inv.bucket_nonempty
  case bucket_size => exact inv.bucket_size
  case free_ok => exact inv.free_ok
  case freeBlocks_eq => exact inv.freeBlocks_eq
  case freeBytes_eq => exact inv.freeBytes_eq

theorem lookup_of_mem (inv : state.Inv) {ptr : Nat} {record : LargeAllocationRecord}
    (h : (ptr, record) ∈ state.live) : state.live.lookup ptr = some record := by
  obtain ⟨l₁, l₂, hsplit⟩ := List.append_of_mem h
  refine List.lookup_eq_some_iff.mpr ⟨l₁, l₂, hsplit, fun e he => ?_⟩
  have hnd := inv.live_nodup
  rw [hsplit, List.map_append, List.map_cons] at hnd
  have hdisj := (List.nodup_append.mp hnd).2.2 e.1 (List.mem_map_of_mem he) ptr (by simp)
  simpa using Ne.symm hdisj

/-- A live block whose header agrees with its record goes to the free pool. -/
theorem validateAndRelease_spec (inv : state.Inv) {ptr : Nat} {record : LargeAllocationRecord}
    (h : (ptr, record) ∈ state.live) :
    ∃ state', state.validateAndReleaseLiveAllocation ptr record.requestedSize record.usableSize =
        some (.ok state') ∧ state'.Inv ∧ (∀ e, e ∈ state'.live ↔ e ∈ state.live ∧ e.1 ≠ ptr) ∧
      state.liveBag = recordBlock record ::ₘ state'.liveBag ∧
      state'.freeBag = recordBlock record ::ₘ state.freeBag := by
  have hlookup := lookup_of_mem inv h
  obtain ⟨e', l₁, l₂, hbefore, hkey, hsplit, herase⟩ :=
    List.exists_of_eraseP (p := fun entry => entry.1 == ptr) h (by simp)
  obtain rfl : e' = (ptr, record) := by
    obtain ⟨p, r⟩ := e'
    obtain rfl : p = ptr := by simpa using hkey
    have hin : (p, r) ∈ state.live := by simp [hsplit]
    have := lookup_of_mem inv hin
    rw [hlookup] at this
    rw [Option.some.inj this]
  have hnd := inv.live_nodup
  rw [hsplit, List.map_append, List.map_cons] at hnd
  have hbag : state.liveBag = recordBlock record ::ₘ
      (((l₁ ++ l₂).map fun e => recordBlock e.2 : List FreeLargeBlock) :
        Multiset FreeLargeBlock) := by
    rw [liveBag, hsplit, Multiset.cons_coe, Multiset.coe_eq_coe, List.map_append, List.map_append,
      List.map_cons]
    exact List.perm_middle
  have hbytes := inv.liveBytes_eq
  rw [hbag, Multiset.map_cons, Multiset.sum_cons] at hbytes
  let left : LargeObjectState := { state with
    live := l₁ ++ l₂
    liveBytes := state.liveBytes - record.blockSize }
  have hsize : (recordBlock record).blockSize = record.blockSize := rfl
  rw [hsize] at hbytes
  have hleft : left.Inv := by
    constructor
    case live_nodup =>
      show ((l₁ ++ l₂).map Prod.fst).Nodup
      rw [List.map_append]
      exact hnd.sublist (by simp)
    case live_ok =>
      intro e he
      apply inv.live_ok e
      rw [hsplit]
      rcases List.mem_append.mp he with he | he <;> simp [he]
    case liveBytes_eq =>
      show state.liveBytes - record.blockSize = (left.liveBag.map FreeLargeBlock.blockSize).sum
      rw [hbytes, Nat.add_sub_cancel_left]
      rfl
    case buckets_sorted => exact inv.buckets_sorted
    case bucket_nonempty => exact inv.bucket_nonempty
    case bucket_size => exact inv.bucket_size
    case free_ok => exact inv.free_ok
    case freeBlocks_eq => exact inv.freeBlocks_eq
    case freeBytes_eq => exact inv.freeBytes_eq
  have hrecord := inv.live_ok (ptr, record) h
  have hfree : FreeOk (recordBlock record) :=
    ⟨hrecord.header_le, by
      have := hrecord.usable_lt
      rw [hrecord.usable_eq] at this
      exact this⟩
  refine ⟨left.insertFreeBlock (recordBlock record), ?_, insertFreeBlock_inv hleft hfree,
    fun e => ?_, hbag, insertFreeBlock_freeBag hleft _⟩
  · have hle : ¬state.liveBytes < record.blockSize := by omega
    simp only [validateAndReleaseLiveAllocation, hlookup, ne_eq, not_true_eq_false, or_self,
      if_false, hle, herase]
    rfl
  · show e ∈ l₁ ++ l₂ ↔ _
    rw [hsplit]
    obtain ⟨_, h2, h3⟩ := List.nodup_append.mp hnd
    constructor
    · intro he
      rcases List.mem_append.mp he with he | he
      · exact ⟨by simp [he], h3 e.1 (List.mem_map_of_mem he) ptr (by simp)⟩
      · refine ⟨by simp [he], fun heq => ?_⟩
        have hin : e.1 ∈ l₂.map Prod.fst := List.mem_map_of_mem he
        exact (List.nodup_cons.mp h2).1 (heq ▸ hin)
    · rintro ⟨he, hne⟩
      rcases List.mem_append.mp he with he | he
      · simp [he]
      · rcases List.mem_cons.mp he with rfl | he
        · exact absurd rfl hne
        · simp [he]

end LargeObjectState

end Orthotope
