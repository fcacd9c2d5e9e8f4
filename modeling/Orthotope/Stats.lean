import Orthotope.ClassBooks
import Orthotope.Capacity
import Orthotope.DrainBatch
import Orthotope.Padding
import Mathlib.Algebra.BigOperators.Ring.Finset

/-! Statistics, `stats.rs`, and the `stats` of an allocator and of a cache.  Every byte that the
arena has given out is in a slab, in a large block or in the hands of a call, or was lost in a
failed allocation whose block was too large for its header; so a snapshot that is taken while no
call is in progress accounts for the whole arena. -/

namespace Orthotope

open ByteMemory AgentSums

/-- Snapshot of cached blocks for one fixed size class. -/
structure SizeClassStats where
  sizeClass : SizeClass
  blocks : Nat
  bytes : Nat
  deriving DecidableEq, Repr

structure LargeObjectStats where
  liveAllocations : Nat
  liveBytes : Nat
  freeBlocks : Nat
  freeBytes : Nat
  deriving DecidableEq, Repr

/-- Snapshot of allocator-wide shared state. -/
structure AllocatorStats where
  arenaCapacity : Nat
  arenaRemaining : Nat
  smallCentral : SizeClass → SizeClassStats
  largeLiveAllocations : Nat
  largeLiveBytes : Nat
  largeFreeBlocks : Nat
  largeFreeBytes : Nat

/-- Snapshot of one caller-owned thread cache. -/
structure ThreadCacheStats where
  isBound : Bool
  local_ : SizeClass → SizeClassStats

/-- The sum over an array with an entry for each class. -/
@[irreducible] def SizeClass.sum (f : SizeClass → Nat) : Nat := (SizeClass.all.map f).sum

def AllocatorStats.totalSmallCentralBytes (stats : AllocatorStats) : Nat :=
  SizeClass.sum fun c => (stats.smallCentral c).bytes

def ThreadCacheStats.totalLocalBytes (stats : ThreadCacheStats) : Nat :=
  SizeClass.sum fun c => (stats.local_ c).bytes

def Arena.capacity (arena : Arena) : Nat := arena.len

/-- The lock section of `LargeObjectAllocator::stats`. -/
def LargeObjectState.stats (state : LargeObjectState) : LargeObjectStats where
  liveAllocations := state.live.length
  liveBytes := state.liveBytes
  freeBlocks := state.freeBlocks
  freeBytes := state.freeBytes

/-- What `stats` makes of the counts that it has read, one class after the other, the large registry
and the cursor of the arena. -/
def AllocatorStats.assemble (config : AllocatorConfig) (arena : Arena)
    (centralCounts : SizeClass → Nat) (large : LargeObjectStats) : AllocatorStats where
  arenaCapacity := arena.capacity
  arenaRemaining := arena.remaining
  smallCentral := fun c => ⟨c, centralCounts c, centralCounts c * config.classBlockSize c⟩
  largeLiveAllocations := large.liveAllocations
  largeLiveBytes := large.liveBytes
  largeFreeBlocks := large.freeBlocks
  largeFreeBytes := large.freeBytes

/-- The bytes of a number of blocks of each class. -/
def AllocatorConfig.blockBytes (config : AllocatorConfig) (blocks : SizeClass → Nat) : Nat :=
  SizeClass.sum fun c => blocks c * config.classBlockSize c

/-- `Allocator::stats` with nobody else in between. -/
def Allocator.stats {L : Type} (allocator : Allocator L) : AllocatorStats :=
  .assemble allocator.config allocator.arena allocator.central.blockCounts allocator.large.stats

def ThreadCache.stats {ι L : Type} (cache : ThreadCache ι L) : ThreadCacheStats where
  isBound := cache.owner.isSome
  local_ := fun c => ⟨c, (cache.classes c).totalLen,
    (cache.classes c).totalLen * cache.config.classBlockSize c⟩

namespace SizeClass

theorem sum_add (f g : SizeClass → Nat) : sum (fun c => f c + g c) = sum f + sum g := by
  simp only [sum, List.sum_map_add]

theorem sum_eq_finset (f : SizeClass → Nat) : sum f = ∑ c ∈ all.toFinset, f c := by
  rw [sum, List.sum_toFinset f (by decide)]

theorem sum_le {f g : SizeClass → Nat} (h : ∀ c, f c ≤ g c) : sum f ≤ sum g := by
  rw [sum_eq_finset, sum_eq_finset]
  exact Finset.sum_le_sum fun c _ => h c

/-- One class changes. -/
theorem sum_move {f g : SizeClass → Nat} {c : SizeClass} (h : ∀ d, d ≠ c → g d = f d) :
    sum g + f c = sum f + g c := by
  have hmem : c ∈ all.toFinset := List.mem_toFinset.mpr c.mem_all
  have hrest : ∑ d ∈ all.toFinset.erase c, g d = ∑ d ∈ all.toFinset.erase c, f d :=
    Finset.sum_congr rfl fun d hd => h d (Finset.ne_of_mem_erase hd)
  have h1 := Finset.sum_erase_add all.toFinset f hmem
  have h2 := Finset.sum_erase_add all.toFinset g hmem
  rw [sum_eq_finset, sum_eq_finset]
  omega

theorem sum_sum {K : Type} [Fintype K] (f : K → SizeClass → Nat) :
    sum (fun c => ∑ k, f k c) = ∑ k, sum (f k) := by
  simp only [sum_eq_finset]
  exact Finset.sum_comm

end SizeClass

/-! ### The bytes of an arena -/

variable {ι κ : Type}

/-- The size of the span or large block in the hands of a call. -/
def Pc.extentBytes (pc : Pc ι κ Seq) : Nat :=
  match pc.extent with
  | some block => block.blockSize
  | none => 0

/-- The same, if it belongs to allocator `a`. -/
def Thread.extentBytes [DecidableEq ι] (a : ι) : Thread ι κ Seq → Nat
  | .idle _ => 0
  | .busy b pc => if b = a then pc.extentBytes else 0

/-- The bytes of the slabs and large blocks of an allocator. -/
@[irreducible] def Allocator.shelved {L : Type} (allocator : Allocator L) : Nat :=
  (SizeClass.sum fun c => (allocator.central.lists c).capacity *
    allocator.config.classBlockSize c) +
    (allocator.large.liveBytes + allocator.large.freeBytes)

/-- The block that a step of a call to `a` gives up: the call has reserved it, cannot write its
header and goes to report its failure. -/
def Thread.forfeit [DecidableEq ι] {B : Type} (a : ι) : Thread ι κ B → Thread ι κ B → Option Nat
  | .busy b (.largeGot _ _ blockSize), .busy _ (.report _) => if b = a then some blockSize else none
  | _, _ => none

section Forfeits

variable [DecidableEq ι] [DecidableEq κ] {L B : Type} [BlockStore L B]

def World.forfeit (a : ι) (debug : Bool) (w : World ι κ L B) : Action ι κ → Option Nat
  | .run k advised => (w.step debug (.run k advised)).bind fun w' =>
      (w.threads k).forfeit a (w'.threads k)
  | _ => none

/-- The sizes of the blocks that failed allocations from `a` give up in a run. -/
def World.forfeits (a : ι) (debug : Bool) (w : World ι κ L B) (actions : List (Action ι κ)) :
    List Nat :=
  StepSystem.trace (fun action (w : World ι κ L B) => w.step debug action)
    (fun w action => w.forfeit a debug action) actions w

theorem World.forfeit_run {debug : Bool} {w w' : World ι κ L B} {a : ι} {k : κ}
    {advised : Bool × Bool} (h : w.step debug (.run k advised) = some w') :
    w.forfeit a debug (.run k advised) = (w.threads k).forfeit a (w'.threads k) := by
  rw [forfeit, h]
  rfl

omit [DecidableEq κ] in
theorem Thread.forfeit_of_ne {a b : ι} {pc : Pc ι κ B} (h : b ≠ a) (thread : Thread ι κ B) :
    (Thread.busy b pc).forfeit a thread = none := by
  unfold forfeit
  split
  · rename_i heq
    obtain ⟨rfl, -⟩ := Thread.busy.inj heq
    exact if_neg h
  · rfl

end Forfeits

section Books

variable {setup : Setup ι κ} {s s' : World ι κ Seq Seq} {a : ι} {k : κ}

theorem LargeObjectState.Inv.bytes_eq {state : LargeObjectState} (inv : state.Inv) :
    state.liveBytes + state.freeBytes =
      ((state.liveBag + state.freeBag).map FreeLargeBlock.blockSize).sum := by
  rw [Multiset.map_add, Multiset.sum_add, inv.liveBytes_eq, inv.freeBytes_eq]

/-- A registry that has one block more has its bytes more. -/
theorem LargeObjectState.Inv.bytes_of_cons {state state' : LargeObjectState} (inv : state.Inv)
    (inv' : state'.Inv) (block : FreeLargeBlock)
    (h : state'.liveBag + state'.freeBag = block ::ₘ (state.liveBag + state.freeBag)) :
    state'.liveBytes + state'.freeBytes = state.liveBytes + state.freeBytes + block.blockSize := by
  rw [inv.bytes_eq, inv'.bytes_eq, h, Multiset.map_cons, Multiset.sum_cons, add_comm]

/-- A slab that is registered for a class adds its span. -/
theorem shelved_register {c : SizeClass} {start n : Nat} {m : Mem} {central : CentralPool Seq}
    (h : CentralPool.Registered c s.mem m (s.allocators a).central central start
      ((s.allocators a).config.classBlockSize c) n) :
    ({ s.allocators a with central } : Allocator Seq).shelved =
      (s.allocators a).shelved + n * (s.allocators a).config.classBlockSize c := by
  have hcapacity : (central.lists c).capacity =
      ((s.allocators a).central.lists c).capacity + n := by
    rw [ClassPool.capacity_eq, h.shapes, List.map_append, List.sum_append, ← ClassPool.capacity_eq]
    rfl
  have hsum := SizeClass.sum_move (c := c)
    (f := fun d => ((s.allocators a).central.lists d).capacity *
      (s.allocators a).config.classBlockSize d)
    (g := fun d => (central.lists d).capacity * (s.allocators a).config.classBlockSize d)
    fun d hd => by rw [h.only.lists d hd]
  simp only [hcapacity, Nat.add_mul] at hsum
  simp only [Allocator.shelved]
  omega

variable [DecidableEq ι]

/-- The bytes that a step of a call of `a` can move about without the arena. -/
def View.bytes (a : ι) (v : View ι κ Seq Seq) : Nat :=
  v.allocator.shelved + v.thread.extentBytes a

theorem View.bytes_goto (v : View ι κ Seq Seq) (a : ι) (pc : Pc ι κ Seq) :
    (v.goto a pc).bytes a = v.allocator.shelved + pc.extentBytes := by
  simp only [View.bytes, View.goto, Thread.extentBytes, if_true]

theorem View.bytes_finish (v : View ι κ Seq Seq) (a : ι) (outcome : Outcome) :
    (v.finish outcome).bytes a = v.allocator.shelved := Nat.add_zero _

theorem View.bytes_resume (v : View ι κ Seq Seq) (a : ι) (resume : Resume) :
    (v.resume a resume).bytes a = v.allocator.shelved := by
  cases resume with
  | done => exact v.bytes_finish a _
  | flush classes => exact v.bytes_goto a _
  | drain classes => exact v.bytes_goto a _

/-- The slabs and the registry have as many bytes as before. -/
theorem Allocator.shelved_congr {L : Type} {allocator allocator' : Allocator L}
    (hconfig : allocator'.config = allocator.config)
    (hcapacity : ∀ c, (allocator'.central.lists c).capacity = (allocator.central.lists c).capacity)
    (hlarge : allocator'.large.liveBytes + allocator'.large.freeBytes =
      allocator.large.liveBytes + allocator.large.freeBytes) :
    allocator'.shelved = allocator.shelved := by
  simp only [Allocator.shelved, hconfig, hcapacity, hlarge]

theorem Allocator.shelved_setLarge {L : Type} (allocator : Allocator L) (large : LargeObjectState) :
    ({ allocator with large } : Allocator L).shelved +
        (allocator.large.liveBytes + allocator.large.freeBytes) =
      allocator.shelved + (large.liveBytes + large.freeBytes) := by
  simp only [Allocator.shelved]
  omega

/-- What a step does to the bytes of its allocator: they go from one place to another, come from the
arena, or are given up. -/
theorem Transition.bytes_eq {pc : Pc ι κ Seq} {v : View ι κ Seq Seq} (inv : Inv setup s)
    (unpadded : s.Unpadded setup) (htrans : Transition setup.debug s a k pc v) :
    v.bytes a + ((Thread.busy a pc).forfeit a v.thread).toList.sum + (s.allocators a).arena.next =
      (s.allocators a).shelved + pc.extentBytes + v.allocator.arena.next := by
  have hlarge := (inv.parts.allocator a).large
  have hkept : (Thread.busy a pc).forfeit a v.thread = none →
      v.bytes a + (s.allocators a).arena.next =
        (s.allocators a).shelved + pc.extentBytes + v.allocator.arena.next →
      v.bytes a + ((Thread.busy a pc).forfeit a v.thread).toList.sum +
          (s.allocators a).arena.next =
        (s.allocators a).shelved + pc.extentBytes + v.allocator.arena.next := by
    intro hnone h
    rw [hnone]
    exact h
  have hcapacity : ∀ {d : SizeClass} {central : CentralPool Seq},
      CentralPool.OnlyClass d (s.allocators a).central central →
      (central.lists d).shapes = ((s.allocators a).central.lists d).shapes →
        ({ s.allocators a with central } : Allocator Seq).shelved = (s.allocators a).shelved := by
    intro d central only hd
    refine Allocator.shelved_congr rfl (fun c => ?_) rfl
    by_cases hc : c = d
    · subst hc
      rw [ClassPool.capacity_eq, hd, ← ClassPool.capacity_eq]
    · rw [only.lists c hc]
  cases htrans with
  | @refill d size m central r h =>
    apply hkept rfl
    rw [View.bytes_goto]
    show ({ s.allocators a with central } : Allocator Seq).shelved + _ + _ = _
    rw [hcapacity h.only h.shapes]
    cases r <;> rfl
  | @register d size n span m central hn hsize h =>
    apply hkept rfl
    rw [View.bytes_goto]
    show ({ s.allocators a with central } : Allocator Seq).shelved + 0 + _ = _ + span.size + _
    rw [shelved_register h, hsize]
    rfl
  | @carve d size n span arena h hn hsize =>
    apply hkept rfl
    rw [View.bytes_goto]
    show ({ s.allocators a with arena } : Allocator Seq).shelved + span.size + _ =
      _ + 0 + arena.next
    have hnext := congrArg Arena.next (inv.parts.appends unpadded h).arena_eq
    have hsame : ({ s.allocators a with arena } : Allocator Seq).shelved =
      (s.allocators a).shelved := Allocator.shelved_congr rfl (fun _ => rfl) rfl
    simp only at hnext
    omega
  | @largeReserve size blockSize start arena h =>
    apply hkept rfl
    rw [View.bytes_goto]
    show ({ s.allocators a with arena } : Allocator Seq).shelved + blockSize + _ =
      _ + 0 + arena.next
    have hnext := congrArg Arena.next (inv.parts.appends unpadded h).arena_eq
    have hsame : ({ s.allocators a with arena } : Allocator Seq).shelved =
      (s.allocators a).shelved := Allocator.shelved_congr rfl (fun _ => rfl) rfl
    simp only at hnext
    omega
  | @largeReuse size blockSize block large hinv hlive hfree hle =>
    apply hkept rfl
    rw [View.bytes_goto]
    have hbytes := hinv.bytes_of_cons hlarge block (by
      rw [hfree, LargeObjectState.liveBag, LargeObjectState.liveBag, hlive, Multiset.add_cons])
    have hshelved : ((s.view a k).setLarge large).allocator.shelved +
        ((s.allocators a).large.liveBytes + (s.allocators a).large.freeBytes) =
      (s.allocators a).shelved + (large.liveBytes + large.freeBytes) :=
        (s.allocators a).shelved_setLarge large
    show ((s.view a k).setLarge large).allocator.shelved + block.blockSize + _ =
      _ + 0 + (s.allocators a).arena.next
    omega
  | @largeUnwritable size start blockSize h =>
    have hgiven : (Thread.busy a (.largeGot size start blockSize)).forfeit a
        (((s.view a k).goto a (.report size)).thread) = some blockSize := if_pos rfl
    rw [hgiven, View.bytes_goto]
    show (s.allocators a).shelved + 0 + (blockSize + 0) + _ = _ + blockSize + _
    rfl
  | @record size start blockSize large hinv hlive hfree =>
    apply hkept rfl
    rw [View.bytes_finish]
    have hbytes := hlarge.bytes_of_cons hinv ⟨start, blockSize⟩ (by
      rw [hfree, LargeObjectState.liveBag, LargeObjectState.liveBag, hlive, ← Multiset.cons_add]
      rfl)
    have hshelved : ((s.view a k).setLarge large).allocator.shelved +
        ((s.allocators a).large.liveBytes + (s.allocators a).large.freeBytes) =
      (s.allocators a).shelved + (large.liveBytes + large.freeBytes) :=
        (s.allocators a).shelved_setLarge large
    show ((s.view a k).setLarge large).allocator.shelved + _ =
      _ + blockSize + (s.allocators a).arena.next
    simp only at hbytes
    omega
  | @release entry requestedSize usableSize large record ha hinv hrecord hlive hliveBag hfreeBag =>
    apply hkept rfl
    rw [View.bytes_finish]
    have hbytes : large.liveBytes + large.freeBytes =
        (s.allocators a).large.liveBytes + (s.allocators a).large.freeBytes := by
      rw [hinv.bytes_eq, hlarge.bytes_eq, hliveBag, hfreeBag, Multiset.cons_add, Multiset.add_cons]
    have hshelved : ((s.view a k).setLarge large).allocator.shelved +
        ((s.allocators a).large.liveBytes + (s.allocators a).large.freeBytes) =
      (s.allocators a).shelved + (large.liveBytes + large.freeBytes) :=
        (s.allocators a).shelved_setLarge large
    show ((s.view a k).setLarge large).allocator.shelved + _ =
      _ + 0 + (s.allocators a).arena.next
    omega
  | takeSlab hat =>
    rcases hat with rfl | rfl
    · exact hkept rfl (by rw [View.bytes_goto]; rfl)
    · exact hkept rfl (by rw [View.bytes_goto]; rfl)
  | push _ _ _ _ _ hthread =>
    apply hkept rfl
    rcases hthread with rfl | ⟨-, rfl⟩
    · rfl
    · rw [View.bytes, Thread.extentBytes, if_pos rfl]
      rfl
  | stage _ hthread =>
    apply hkept rfl
    rcases hthread with rfl | rfl
    · rfl
    · rw [View.bytes, Thread.extentBytes, if_pos rfl]
      rfl
  | @unstageNone c resume h =>
    apply hkept rfl
    rw [View.bytes_resume, (View.resume_frame _ a resume).2.2.1]
    rfl
  | @publish c batch resume central hinv only lists inbox =>
    apply hkept rfl
    rw [View.bytes_resume, (View.resume_frame _ a resume).2.2.1]
    show ({ s.allocators a with central } : Allocator Seq).shelved + _ = _
    rw [hcapacity only (by rw [lists])]
    rfl
  | @returnBatch c batch resume m central h =>
    apply hkept rfl
    rw [View.bytes_resume, (View.resume_frame _ a resume).2.2.1]
    show ({ s.allocators a with central } : Allocator Seq).shelved + _ = _
    rw [hcapacity h.only h.shapes]
    rfl
  | carveFail | give | largeFail | report | refuse | drainEnd =>
    apply hkept rfl
    rw [View.bytes_finish]
    rfl
  | takeBatch | carveNone | pop | largeMiss | largeWrite | flushEnd | flush | drainNext | drain
  | unstage | excess =>
    apply hkept rfl
    rw [View.bytes_goto]
    rfl

theorem Thread.Begun.extentBytes {cache : ThreadCache ι Seq} {thread : Thread ι κ Seq} {b : ι}
    (h : thread.Begun cache b) (a : ι) : thread.extentBytes a = 0 := by
  cases h with
  | answered h => rfl
  | _ => exact ite_self 0

theorem Thread.extentBytes_of_ne {thread : Thread ι κ Seq}
    (h : ∀ b pc, thread = .busy b pc → b ≠ a) : thread.extentBytes a = 0 := by
  cases thread with
  | idle last => rfl
  | busy b pc => exact if_neg (h b pc rfl)

variable [DecidableEq κ]

/-- What a step of the system does to the bytes of an allocator. -/
theorem Setup.Reachable.bytes_step [Fintype κ] (h : setup.Reachable s) {action : Action ι κ}
    (hstep : s.step setup.debug action = some s') (a : ι) :
    (s'.allocators a).shelved + ∑ k, (s'.threads k).extentBytes a +
        (s.forfeit a setup.debug action).toList.sum + (s.allocators a).arena.next =
      (s.allocators a).shelved + ∑ k, (s.threads k).extentBytes a +
        (s'.allocators a).arena.next := by
  have hreach := h.step action hstep
  rcases h.inv.step_cases hstep with ⟨k, b, pc, advised, v, rfl, ht, rfl, -, htrans⟩ |
    ⟨k, b, last, v, hcaller, ht, rfl, hallocator, hbegin⟩ | ⟨hallocators, -, hthreads⟩
  · have hmove := s.sum_threads b k v (Thread.extentBytes a)
    rw [ht] at hmove
    rw [World.forfeit_run hstep, ht, World.update_threads_same]
    by_cases hb : a = b
    · subst hb
      have heq := htrans.bytes_eq h.inv h.unpadded
      have hold : (Thread.busy a pc).extentBytes a = pc.extentBytes := if_pos rfl
      rw [World.update_allocators_same]
      unfold View.bytes at heq
      omega
    · have hold : (Thread.busy b pc).extentBytes a = 0 := if_neg (Ne.symm hb)
      have hnew : v.thread.extentBytes a = 0 := Thread.extentBytes_of_ne fun b' pc' hthread => by
        rw [h.inv.busy_alloc hreach.inv ht htrans hthread]
        exact Ne.symm hb
      rw [World.update_allocators_ne _ _ hb, Thread.forfeit_of_ne (Ne.symm hb), Option.toList_none,
        List.sum_nil]
      omega
  · have hmove := s.sum_threads b k v (Thread.extentBytes a)
    have hnew : v.thread.extentBytes a = 0 := by
      rcases hbegin with ⟨-, -, hthread⟩ | ⟨-, hthread⟩
      · rw [hthread]
        rfl
      · exact hthread.extentBytes a
    have hsame : (s.update b k v).allocators a = s.allocators a := by
      by_cases hb : a = b
      · subst hb
        rw [World.update_allocators_same, hallocator]
      · rw [World.update_allocators_ne _ _ hb]
    have hnone : s.forfeit a setup.debug action = none := by
      cases action with
      | run k advised => cases hcaller
      | _ => rfl
    have hidle : (Thread.idle last : Thread ι κ Seq).extentBytes a = 0 := rfl
    rw [ht, hnew] at hmove
    rw [hsame, hnone, Option.toList_none, List.sum_nil]
    omega
  · have hnone : s.forfeit a setup.debug action = none := by
      cases action with
      | run k advised =>
        rw [World.forfeit_run hstep, hthreads]
        cases s.threads k with
        | idle last => rfl
        | busy b pc => cases pc <;> rfl
      | _ => rfl
    rw [hallocators, hthreads, hnone]
    rfl

/-- Only a block too large for the fields of its header is given up. -/
theorem Inv.forfeit_le (inv : Inv setup s) {action : Action ι κ}
    (hstep : s.step setup.debug action = some s') {n : Nat}
    (h : s.forfeit a setup.debug action = some n) : 2 ^ 32 + headerSize ≤ n := by
  cases action with
  | run k advised =>
    obtain ⟨b, pc, v, ht, rfl, -, htrans⟩ := inv.run_cases hstep
    rw [World.forfeit_run hstep, ht, World.update_threads_same] at h
    cases htrans with
    | @largeUnwritable size start blockSize hlarge =>
      obtain ⟨-, h⟩ := Option.ite_none_right_eq_some.mp h
      obtain rfl := Option.some.inj h
      unfold headerSize at hlarge ⊢
      omega
    | largeWrite => cases h
    | takeSlab hat => rcases hat with rfl | rfl <;> cases h
    | _ => cases h
  | _ => cases h

omit [DecidableEq κ] in
theorem Setup.shelved_initial [Fintype κ] (setup : Setup ι κ) (a : ι) :
    ((setup.world Seq Seq).allocators a).shelved +
        ∑ k, ((setup.world Seq Seq).threads k).extentBytes a =
      ((setup.world Seq Seq).allocators a).arena.next := by
  have hnext : ((setup.world Seq Seq).allocators a).arena.next = 0 := (setup.arenaFacts a).next_eq
  have hshelved : ((setup.world Seq Seq).allocators a).shelved = 0 := by
    simp [Setup.world, Allocator.shelved, CentralPool.new, ClassPool.new, ClassPool.capacity,
      LargeObjectState.new, SizeClass.sum]
  rw [hnext, hshelved]
  simp [Setup.world, Thread.extentBytes]

/-- Every byte that an arena gives out in a run is in a slab, in a large block or in the hands of a
call, or it is given up. -/
theorem Setup.Reachable.books [Fintype κ] (h : setup.Reachable s) {actions : List (Action ι κ)}
    (hruns : s.runs setup.debug actions = some s') (a : ι) :
    (s'.allocators a).shelved + ∑ k, (s'.threads k).extentBytes a +
        (s.forfeits a setup.debug actions).sum + (s.allocators a).arena.next =
      (s.allocators a).shelved + ∑ k, (s.threads k).extentBytes a +
        (s'.allocators a).arena.next := by
  rw [World.runs_eq] at hruns
  exact (StepSystem.runs_account (I := fun s => setup.Reachable s)
    (f := fun s => (s.allocators a).shelved + ∑ k, (s.threads k).extentBytes a)
    (g := fun s => (s.allocators a).arena.next) hruns h fun action s s' hr hstep =>
      ⟨hr.step action hstep, hr.bytes_step hstep a⟩).2

/-- The arena has given out what there is. -/
theorem Setup.Reachable.given_le [Fintype κ] (h : setup.Reachable s) (a : ι) :
    (s.allocators a).shelved + ∑ k, (s.threads k).extentBytes a ≤ (s.allocators a).arena.next := by
  induction h with
  | initial => exact Nat.le_of_eq (setup.shelved_initial a)
  | step action hr hstep ih =>
    have hstep := hr.bytes_step hstep a
    omega

end Books

/-! ### Snapshots of a quiet allocator -/

/-- The bytes of the small blocks that clients have. -/
def World.liveSmallBytes [DecidableEq ι] {L B : Type} (w : World ι κ L B) (a : ι) : Nat :=
  (w.allocators a).config.blockBytes fun c => (w.liveBlocks a c).length

/-- The bytes of the blocks that a cache of the allocator has stored, by its statistics, or
staged. -/
def World.cachedBytes [DecidableEq ι] {L B : Type} (w : World ι κ L B) (a : ι) (k : κ) : Nat :=
  if (w.caches k).owner = some a then
    (w.caches k).stats.totalLocalBytes +
      (w.caches k).config.blockBytes fun c => ((w.caches k).remoteReturns c).pendingLen
  else 0

section Quiet

variable {setup : Setup ι κ} {s s' : World ι κ Seq Seq} {a : ι} {k : κ}

theorem AllocatorConfig.blockBytes_add (config : AllocatorConfig) (m n : SizeClass → Nat) :
    config.blockBytes (fun c => m c + n c) = config.blockBytes m + config.blockBytes n := by
  simp only [blockBytes, Nat.add_mul, SizeClass.sum_add]

theorem AllocatorConfig.blockBytes_sum {K : Type} [Fintype K] (config : AllocatorConfig)
    (f : K → SizeClass → Nat) :
    config.blockBytes (fun c => ∑ k, f k c) = ∑ k, config.blockBytes (f k) := by
  simp only [blockBytes, Finset.sum_mul]
  exact SizeClass.sum_sum fun k c => f k c * config.classBlockSize c

theorem Allocator.totalSmallCentralBytes_eq {L : Type} (allocator : Allocator L) :
    allocator.stats.totalSmallCentralBytes =
      allocator.config.blockBytes fun c => allocator.central.blockCounts c := rfl

theorem ThreadCache.totalLocalBytes_eq {L : Type} (cache : ThreadCache ι L) :
    cache.stats.totalLocalBytes =
      cache.config.blockBytes fun c => (cache.classes c).totalLen := rfl

theorem Transition.cacheConfig_eq {debug : Bool} {pc : Pc ι κ Seq} {v : View ι κ Seq Seq}
    (h : Transition debug s a k pc v) : v.cache.config = (s.caches k).config := by
  have hresume : ∀ (v : View ι κ Seq Seq) (r : Resume), (v.resume a r).cache = v.cache :=
    fun v r => (v.resume_frame a r).2.1
  cases h with
  | unstageNone _ => rw [hresume]; rfl
  | publish => rw [hresume]; rfl
  | returnBatch => rw [hresume]; rfl
  | _ => rfl

variable [DecidableEq ι]

theorem ThreadCache.bindToAllocator_config {L : Type} [BlockList L] {cache cache' : ThreadCache ι L}
    {config : AllocatorConfig} (h : cache.bindToAllocator a config = some cache')
    (hold : cache.owner = some a → cache.config = config) : cache'.config = config := by
  unfold bindToAllocator at h
  split at h
  · rename_i howner
    obtain rfl := Option.some.inj h
    exact hold howner
  · split at h
    · cases h
    · obtain rfl := Option.some.inj h
      rfl

variable [DecidableEq κ]

/-- A cache computes its statistics with the block sizes of its allocator. -/
theorem Setup.Reachable.cache_config (h : setup.Reachable s) {k : κ} {a : ι}
    (howner : (s.caches k).owner = some a) : (s.caches k).config = setup.config a := by
  induction h generalizing a with
  | initial => cases howner
  | @step s s' action hr hstep ih =>
    rcases hr.inv.step_cases hstep with ⟨j, b, pc, advised, v, -, ht, rfl, -, htrans⟩ |
      ⟨j, b, last, v, -, ht, rfl, -, hbegin⟩ | ⟨-, hcaches, -⟩
    · by_cases hk : k = j
      · subst hk
        rw [World.update_caches_same] at howner ⊢
        rw [htrans.owner_eq] at howner
        rw [htrans.cacheConfig_eq]
        exact ih howner
      · rw [World.update_caches_ne _ _ hk] at howner ⊢
        exact ih howner
    · by_cases hk : k = j
      · subst hk
        rw [World.update_caches_same] at howner ⊢
        rcases hbegin with ⟨-, hcache, -⟩ | ⟨hbind, -⟩
        · rw [hcache] at howner ⊢
          exact ih howner
        · rw [ThreadCache.bindToAllocator_owner hbind] at howner
          obtain rfl := Option.some.inj howner
          have hconfig := (hr.inv.parts.allocator b).config_eq
          rw [ThreadCache.bindToAllocator_config hbind fun howner => (ih howner).trans hconfig.symm,
            hconfig]
      · rw [World.update_caches_ne _ _ hk] at howner ⊢
        exact ih howner
    · rw [hcaches] at howner ⊢
      exact ih howner

/-- The slabs of an allocator hold what is live, what its caches have and what its pool has. -/
theorem Setup.Reachable.slabBytes_eq [Fintype κ] (h : setup.Reachable s)
    (hidle : ∀ k, ∃ last, s.threads k = .idle last) (a : ι) :
    ((s.allocators a).config.blockBytes fun c => ((s.allocators a).central.lists c).capacity) =
      s.liveSmallBytes a + (s.allocators a).stats.totalSmallCentralBytes +
        ∑ k, s.cachedBytes a k := by
  have hcapacity : (fun c => ((s.allocators a).central.lists c).capacity) = fun c =>
      (s.liveBlocks a c).length + (s.allocators a).central.blockCounts c +
        ∑ k, (s.custody a c k).card := by
    funext c
    rw [h.inv.capacity_eq a c, ((h.inv.parts.allocator a).central c).blockCounts_eq]
  have hcached : ∀ k, (s.allocators a).config.blockBytes (fun c => (s.custody a c k).card) =
      s.cachedBytes a k := by
    intro k
    by_cases howner : (s.caches k).owner = some a
    · obtain ⟨last, ht⟩ := hidle k
      have hcard : (fun c => (s.custody a c k).card) = fun c => ((s.caches k).classes c).totalLen +
          ((s.caches k).remoteReturns c).pendingLen := by
        funext c
        rw [World.custody_of_owner howner, card_custody (h.inv.parts.cache k), ht]
        exact Nat.add_zero _
      rw [World.cachedBytes, if_pos howner, hcard, AllocatorConfig.blockBytes_add,
        ThreadCache.totalLocalBytes_eq, h.cache_config howner, (h.inv.parts.allocator a).config_eq]
    · have hzero : (fun c => (s.custody a c k).card) = fun _ => 0 := by
        funext c
        rw [World.custody, if_neg howner, Multiset.card_zero]
      rw [World.cachedBytes, if_neg howner, hzero]
      simp [AllocatorConfig.blockBytes, SizeClass.sum]
  rw [hcapacity, AllocatorConfig.blockBytes_add, AllocatorConfig.blockBytes_add,
    AllocatorConfig.blockBytes_sum _ fun k c => (s.custody a c k).card]
  simp only [hcached]
  rw [World.liveSmallBytes, Allocator.totalSmallCentralBytes_eq]

end Quiet

section Code

variable {setup : Setup ι κ} {w : World ι κ FreeList Batch} {s : World ι κ Seq Seq} {a : ι}

theorem Refines.stats_eq (h : Refines w s) (a : ι) :
    (w.allocators a).stats = (s.allocators a).stats := by
  have hlarge : (w.allocators a).large = (s.allocators a).large := by
    rw [h.code]
    rfl
  have hcounts : (w.allocators a).central.blockCounts = (s.allocators a).central.blockCounts :=
    funext fun c => h.blockCounts_eq a c
  rw [Allocator.stats, Allocator.stats, h.config_eq, h.arena_eq, hcounts, hlarge]

theorem ThreadCache.stats_map {L L' : Type} (f : L → L') (cache : ThreadCache ι L) :
    (cache.map f).stats = cache.stats := rfl

variable [DecidableEq ι]

theorem Refines.cachedBytes_eq (h : Refines w s) (a : ι) (k : κ) :
    w.cachedBytes a k = s.cachedBytes a k := by
  have hcache : w.caches k = (s.caches k).map FreeList.ofSeq := by
    rw [h.code]
    rfl
  rw [World.cachedBytes, hcache, ThreadCache.stats_map]
  rfl

theorem Thread.forfeit_map (thread thread' : Thread ι κ Seq) :
    (thread.map Batch.ofSeq).forfeit a (thread'.map Batch.ofSeq) = thread.forfeit a thread' := by
  cases thread with
  | idle last => rfl
  | busy b pc =>
    cases thread' with
    | idle last => cases pc <;> rfl
    | busy b' pc' => cases pc <;> cases pc' <;> rfl

variable [DecidableEq κ]

theorem Refines.forfeit_eq {w' : World ι κ FreeList Batch} {s' : World ι κ Seq Seq}
    (h : Refines w s) (h' : Refines w' s') {action : Action ι κ}
    (hw : w.step setup.debug action = some w') (hs : s.step setup.debug action = some s') :
    w.forfeit a setup.debug action = s.forfeit a setup.debug action := by
  cases action with
  | run k advised =>
    rw [World.forfeit_run hw, World.forfeit_run hs, h.threads_eq, h'.threads_eq,
      Thread.forfeit_map]
  | _ => rfl

theorem Refines.forfeits_eq (inv : Inv setup s) (h : Refines w s) {actions : List (Action ι κ)}
    {w' : World ι κ FreeList Batch} (hruns : w.runs setup.debug actions = some w') :
    w.forfeits a setup.debug actions = s.forfeits a setup.debug actions := by
  rw [World.runs_eq] at hruns
  refine StepSystem.trace_congr (R := fun w s => Refines w s ∧ Inv setup s) hruns ⟨h, inv⟩ ?_
  rintro action w w' s ⟨hrefines, hinv⟩ hw
  obtain ⟨s', hs, hrefines'⟩ := hrefines.forward hinv hw
  exact ⟨hrefines.forfeit_eq hrefines' hw hs, s', hs, hrefines', hinv.step hs⟩

/-- A snapshot that is taken at the end of a run, while no call is in progress, accounts for every
byte of the arena: what is not remaining is in the pool, in large blocks, with clients or in caches,
or it is one of the blocks that failed allocations of the run have given up. -/
theorem Setup.stats_exact [Fintype κ] (setup : Setup ι κ) {actions : List (Action ι κ)}
    (hruns : (setup.world FreeList Batch).runs setup.debug actions = some w)
    (hidle : ∀ k, ∃ last, w.threads k = .idle last) (a : ι) :
    (w.allocators a).stats.arenaCapacity = (w.allocators a).stats.arenaRemaining +
        ((w.allocators a).stats.totalSmallCentralBytes + (w.allocators a).stats.largeLiveBytes +
          (w.allocators a).stats.largeFreeBytes) +
        w.liveSmallBytes a + ∑ k, w.cachedBytes a k +
        ((setup.world FreeList Batch).forfeits a setup.debug actions).sum ∧
      ∀ n ∈ (setup.world FreeList Batch).forfeits a setup.debug actions,
        2 ^ 32 + headerSize ≤ n := by
  have hinitial : setup.Reachable (setup.world Seq Seq) := .initial
  obtain ⟨s, hruns', hrefines⟩ := (refines_initial setup).runs_forward hinitial.inv hruns
  have hs := hinitial.runs hruns'
  have hidle' : ∀ k, ∃ last, s.threads k = .idle last := fun k => by
    obtain ⟨last, ht⟩ := hidle k
    exact ⟨last, hrefines.idle_last ht⟩
  rw [(refines_initial setup).forfeits_eq hinitial.inv hruns]
  refine ⟨?_, ?_⟩
  · have hbooks := hinitial.books hruns' a
    have hstart := setup.shelved_initial a
    have hslabs := hs.slabBytes_eq hidle' a
    have hhands : ∑ k, (s.threads k).extentBytes a = 0 := by
      refine Finset.sum_eq_zero fun k _ => ?_
      obtain ⟨last, ht⟩ := hidle' k
      rw [ht]
      rfl
    have hlive : w.liveSmallBytes a = s.liveSmallBytes a := by
      rw [World.liveSmallBytes, World.liveSmallBytes, hrefines.config_eq]
      simp only [World.liveBlocks, hrefines.live_eq]
    have hcached : ∑ k, w.cachedBytes a k = ∑ k, s.cachedBytes a k :=
      Finset.sum_congr rfl fun k _ => hrefines.cachedBytes_eq a k
    have hshelved : (s.allocators a).shelved = ((s.allocators a).config.blockBytes fun c =>
        ((s.allocators a).central.lists c).capacity) +
          ((s.allocators a).large.liveBytes + (s.allocators a).large.freeBytes) := by
      simp only [Allocator.shelved, AllocatorConfig.blockBytes]
    have hnext : (s.allocators a).arena.next ≤ (s.allocators a).arena.len := by
      have hok := hs.inv.parts.allocator a
      rw [congrArg Arena.len hok.arena_eq]
      exact hok.next_le
    have hcapacity : (s.allocators a).stats.arenaCapacity = (s.allocators a).arena.len := rfl
    have hremaining : (s.allocators a).stats.arenaRemaining =
      (s.allocators a).arena.len - (s.allocators a).arena.next := rfl
    have hlargeLive : (s.allocators a).stats.largeLiveBytes =
      (s.allocators a).large.liveBytes := rfl
    have hlargeFree : (s.allocators a).stats.largeFreeBytes =
      (s.allocators a).large.freeBytes := rfl
    rw [hrefines.stats_eq, hlive, hcached]
    omega
  · rw [World.runs_eq] at hruns'
    exact StepSystem.forall_mem_trace (I := Inv setup) hruns' hinitial.inv
      fun action s s' hinv hstep => ⟨hinv.step hstep, fun n => hinv.forfeit_le hstep⟩

/-- Cache 0 gets a small block, with one more of a refill of two, and then asks for four
gigabytes. -/
def forfeitActions : List (Action Unit (Fin 2)) :=
  sampleCarve 0 10 ++ .allocate 0 () (2 ^ 32) :: List.replicate 4 (.run 0 (true, true))

theorem forfeitActions_run :
    ((roomySetup.world FreeList Batch).runs true forfeitActions).isSome := by
  decide +kernel

/-- The run gives up one block. -/
theorem stats_exact_sample : ∃ w : World Unit (Fin 2) FreeList Batch,
    (roomySetup.world FreeList Batch).runs true forfeitActions = some w ∧
      w.threads 0 = .idle (some (.allocError (.outOfMemory (2 ^ 32) (2 ^ 32 - 320)))) ∧
        w.liveSmallBytes () = 128 ∧ w.cachedBytes () 0 = 128 ∧
          (roomySetup.world FreeList Batch).forfeits () true forfeitActions = [2 ^ 32 + 64] ∧
            (w.allocators ()).stats.arenaCapacity = (w.allocators ()).stats.arenaRemaining +
              ((w.allocators ()).stats.totalSmallCentralBytes +
                (w.allocators ()).stats.largeLiveBytes + (w.allocators ()).stats.largeFreeBytes) +
              w.liveSmallBytes () + ∑ k, w.cachedBytes () k + (2 ^ 32 + 64) := by
  obtain ⟨w, hw⟩ : ∃ w, w = roomySetup.after forfeitActions forfeitActions_run := ⟨_, rfl⟩
  have hruns : (roomySetup.world FreeList Batch).runs true forfeitActions = some w := by
    rw [hw]
    exact (Option.some_get forfeitActions_run).symm
  have hlast : (w.threads 0).last? =
      some (some (.allocError (.outOfMemory (2 ^ 32) (2 ^ 32 - 320)))) := by
    rw [hw]
    decide +kernel
  have hlive : w.liveSmallBytes () = 128 := by
    rw [hw]
    decide +kernel
  have hcached : w.cachedBytes () 0 = 128 := by
    rw [hw]
    decide +kernel
  have hforfeits : (roomySetup.world FreeList Batch).forfeits () true forfeitActions =
      [2 ^ 32 + 64] := by
    decide +kernel
  have hidle : ∀ k, ∃ last, w.threads k = .idle last := by
    have hall : ∀ k, (w.threads k).last?.isSome = true := by
      rw [hw]
      decide +kernel
    intro k
    obtain ⟨last, hlast⟩ := Option.isSome_iff_exists.mp (hall k)
    exact ⟨last, Thread.eq_idle hlast⟩
  obtain ⟨hexact, -⟩ := roomySetup.stats_exact hruns hidle ()
  have hsum : ([2 ^ 32 + 64] : List Nat).sum = 2 ^ 32 + 64 := List.sum_singleton
  have hdebug : roomySetup.debug = true := rfl
  rw [hdebug, hforfeits, hsum] at hexact
  exact ⟨w, hruns, Thread.eq_idle hlast, hlive, hcached, hforfeits, hexact⟩

end Code

end Orthotope
