import Orthotope.Stats

/-! Snapshots among running calls.  `Allocator::stats` reads the pools one class after the other,
then the large registry, and the cursor of the arena last, while other threads go on.  What it
returns need not have been true at any one moment, but blocks that were carved stay carved and the
cursor never goes back, so a snapshot never shows more bytes than it shows as given out. -/

namespace Orthotope

open ByteMemory AgentSums

variable {ι κ : Type}

/-- How far a call of `stats` has come: the classes that it has to count yet, with the counts that
it has, and what it has read of the large registry.  The lock of a class is held until its inbox has
been read too, so an entry of `block_counts` is one read. -/
inductive StatsPc where
  | counting (classes : List SizeClass) (counts : SizeClass → Nat)
  | arena (counts : SizeClass → Nat) (large : LargeObjectStats)
  | done (stats : AllocatorStats)

namespace StatsPc

def start : StatsPc := .counting SizeClass.all fun _ => 0

/-- The next read. -/
def read {L : Type} (allocator : Allocator L) : StatsPc → Option StatsPc
  | counting (c :: classes) counts =>
    some (.counting classes (Function.update counts c (allocator.central.blockCounts c)))
  | counting [] counts => some (.arena counts allocator.large.stats)
  | arena counts large =>
    some (.done (.assemble allocator.config allocator.arena counts large))
  | done _ => none

end StatsPc

section Observed

variable [DecidableEq ι] [DecidableEq κ] {L B : Type} [BlockStore L B]

/-- The states of the system and of a call of `stats` of `a`, which starts in any reachable state,
when its reads and the actions of the threads interleave in any order. -/
inductive Setup.Observed (setup : Setup ι κ) (a : ι) : World ι κ L B → StatsPc → Prop
  | start {w : World ι κ L B} (h : setup.Reachable w) : Observed setup a w .start
  | act {w w' : World ι κ L B} {pc : StatsPc} (action : Action ι κ) (h : Observed setup a w pc)
      (hstep : w.step setup.debug action = some w') : Observed setup a w' pc
  | read {w : World ι κ L B} {pc pc' : StatsPc} (h : Observed setup a w pc)
      (hread : pc.read (w.allocators a) = some pc') : Observed setup a w pc'

theorem Setup.Observed.reachable {setup : Setup ι κ} {a : ι} {w : World ι κ L B} {pc : StatsPc}
    (h : setup.Observed a w pc) : setup.Reachable w := by
  induction h with
  | start h => exact h
  | act action _ hstep ih => exact ih.step action hstep
  | read _ _ ih => exact ih

theorem Setup.Observed.runs {setup : Setup ι κ} {a : ι} {w w' : World ι κ L B} {pc : StatsPc}
    {actions : List (Action ι κ)} (h : setup.Observed a w pc)
    (hruns : w.runs setup.debug actions = some w') : setup.Observed a w' pc := by
  induction actions generalizing w with
  | nil =>
    obtain rfl := Option.some.inj hruns
    exact h
  | cons action actions ih =>
    obtain ⟨w₁, hstep, hrest⟩ := Option.bind_eq_some_iff.mp hruns
    exact ih (h.act action hstep) hrest

/-- Counts that nobody interrupts are those of one moment. -/
theorem Setup.Observed.count {setup : Setup ι κ} {a : ι} {w : World ι κ L B}
    {classes : List SizeClass} {counts : SizeClass → Nat}
    (h : setup.Observed a w (.counting classes counts))
    (hread : ∀ c, c ∉ classes → counts c = (w.allocators a).central.blockCounts c) :
    setup.Observed a w (.counting [] (w.allocators a).central.blockCounts) := by
  induction classes generalizing counts with
  | nil =>
    obtain rfl : counts = (w.allocators a).central.blockCounts :=
      funext fun c => hread c List.not_mem_nil
    exact h
  | cons d classes ih =>
    refine ih (h.read rfl) fun c hc => ?_
    by_cases hd : c = d
    · subst hd
      rw [Function.update_self]
    · rw [Function.update_of_ne hd]
      exact hread c fun hmem => (List.mem_cons.mp hmem).elim hd hc

theorem Setup.Reachable.counted {setup : Setup ι κ} {w : World ι κ L B} (h : setup.Reachable w)
    (a : ι) : setup.Observed a w (.counting [] (w.allocators a).central.blockCounts) :=
  (Setup.Observed.start h).count fun c hc => absurd c.mem_all hc

end Observed

/-! ### What never shrinks -/

/-- The size of the large block in the hands of a call, if its header can be written. -/
def Pc.largeBytes : Pc ι κ Seq → Nat
  | .largeGot _ _ blockSize => if blockSize - headerSize < 2 ^ 32 then blockSize else 0
  | .largeWritten _ _ blockSize => blockSize
  | _ => 0

def Thread.largeBytes [DecidableEq ι] (a : ι) : Thread ι κ Seq → Nat
  | .idle _ => 0
  | .busy b pc => if b = a then pc.largeBytes else 0

/-- The bytes of the large blocks that are registered, or will be. -/
def World.largeReach [DecidableEq ι] [Fintype κ] (s : World ι κ Seq Seq) (a : ι) : Nat :=
  (s.allocators a).large.liveBytes + (s.allocators a).large.freeBytes +
    ∑ k, (s.threads k).largeBytes a

section Growth

variable {setup : Setup ι κ} {s s' : World ι κ Seq Seq} {a b : ι} {k : κ}

theorem Pc.largeBytes_le (pc : Pc ι κ Seq) : pc.largeBytes ≤ pc.extentBytes := by
  cases pc with
  | largeGot size start blockSize =>
    show (if _ then blockSize else 0) ≤ blockSize
    split <;> omega
  | largeWritten size start blockSize => exact Nat.le_refl _
  | _ => exact Nat.zero_le _

/-- No step takes a block out of the slabs of a class. -/
theorem Transition.capacity_le {debug : Bool} {pc : Pc ι κ Seq} {v : View ι κ Seq Seq}
    (htrans : Transition debug s a k pc v) (c : SizeClass) :
    ((s.allocators a).central.lists c).capacity ≤ (v.allocator.central.lists c).capacity := by
  by_cases hcarved : ∃ d size span, pc = .carved d size span
  · obtain ⟨d, size, span, rfl⟩ := hcarved
    cases htrans with
    | takeSlab hat => rcases hat with hat | hat <;> cases hat
    | @register _ _ n _ m central hn hsize h =>
      show _ ≤ (central.lists c).capacity
      by_cases hd : d = c
      · subst hd
        rw [ClassPool.capacity_eq (central.lists d), h.shapes, List.map_append, List.sum_append,
          ← ClassPool.capacity_eq]
        exact Nat.le_add_right _ _
      · rw [h.only.lists c (Ne.symm hd)]
  · exact Nat.le_of_eq (htrans.capacity_eq (fun d size span h => hcarved ⟨d, size, span, h⟩) c).symm

variable [DecidableEq ι]

theorem Thread.largeBytes_le (thread : Thread ι κ Seq) :
    thread.largeBytes a ≤ thread.extentBytes a := by
  cases thread with
  | idle last => exact Nat.le_refl _
  | busy b pc =>
    simp only [Thread.largeBytes, Thread.extentBytes]
    split
    · exact pc.largeBytes_le
    · exact Nat.le_refl _

theorem Thread.largeBytes_of_extent {thread : Thread ι κ Seq} (h : thread.extentBytes a = 0) :
    thread.largeBytes a = 0 :=
  Nat.le_zero.mp (h ▸ thread.largeBytes_le)

/-- No step takes a block away that is registered as large, or is to be. -/
theorem Transition.large_le {debug : Bool} {pc : Pc ι κ Seq} {v : View ι κ Seq Seq}
    (inv : Inv setup s) (htrans : Transition debug s a k pc v) :
    (s.allocators a).large.liveBytes + (s.allocators a).large.freeBytes + pc.largeBytes ≤
      v.allocator.large.liveBytes + v.allocator.large.freeBytes + v.thread.largeBytes a := by
  have hlarge := (inv.parts.allocator a).large
  have hresume : ∀ (v : View ι κ Seq Seq) (r : Resume), (v.resume a r).allocator = v.allocator :=
    fun v r => (v.resume_frame a r).2.2.1
  have hbusy : ∀ pc : Pc ι κ Seq, (Thread.busy a pc).largeBytes a = pc.largeBytes := fun pc =>
    if_pos rfl
  cases htrans with
  | @largeReuse size blockSize block large hinv hlive hfree hle =>
    have hbytes := hinv.bytes_of_cons hlarge block (by
      rw [hfree, LargeObjectState.liveBag, LargeObjectState.liveBag, hlive, Multiset.add_cons])
    -- what is in the free pool has had a header
    have hok : LargeObjectState.FreeOk block :=
      hlarge.free_ok block (hfree ▸ Multiset.mem_cons_self ..)
    have hfits : block.blockSize - headerSize < 2 ^ 32 := hok.usable_lt
    show _ + 0 ≤ large.liveBytes + large.freeBytes + (Thread.busy a _).largeBytes a
    rw [hbusy, hbytes]
    show _ ≤ _ + (if block.blockSize - headerSize < 2 ^ 32 then block.blockSize else 0)
    rw [if_pos hfits]
    exact Nat.le_refl _
  | @largeWrite size start blockSize h =>
    show _ + (if blockSize - headerSize < 2 ^ 32 then blockSize else 0) ≤
      _ + (Thread.busy a _).largeBytes a
    rw [hbusy, if_pos h]
    exact Nat.le_refl _
  | @largeUnwritable size start blockSize h =>
    show _ + (if blockSize - headerSize < 2 ^ 32 then blockSize else 0) ≤ _
    rw [if_neg (Nat.not_lt.mpr h)]
    exact Nat.le_add_right _ _
  | @record size start blockSize large hinv hlive hfree =>
    have hbytes := hlarge.bytes_of_cons hinv ⟨start, blockSize⟩ (by
      rw [hfree, LargeObjectState.liveBag, LargeObjectState.liveBag, hlive, ← Multiset.cons_add]
      rfl)
    exact Nat.le_of_eq hbytes.symm
  | @release entry requestedSize usableSize large record ha hinv hrecord hlive hliveBag hfreeBag =>
    have hbytes : large.liveBytes + large.freeBytes =
        (s.allocators a).large.liveBytes + (s.allocators a).large.freeBytes := by
      rw [hinv.bytes_eq, hlarge.bytes_eq, hliveBag, hfreeBag, Multiset.cons_add, Multiset.add_cons]
    exact Nat.le_of_eq hbytes.symm
  | takeSlab hat => rcases hat with rfl | rfl <;> exact Nat.le_add_right _ _
  | unstageNone _ => rw [hresume]; exact Nat.le_add_right _ _
  | publish => rw [hresume]; exact Nat.le_add_right _ _
  | returnBatch => rw [hresume]; exact Nat.le_add_right _ _
  | _ => exact Nat.le_add_right _ _

variable [Fintype κ]

variable [DecidableEq κ]

/-- What was carved for a class stays carved, and what was a large block stays one. -/
theorem Setup.Reachable.grows (h : setup.Reachable s) {action : Action ι κ}
    (hstep : s.step setup.debug action = some s') (a : ι) :
    (∀ c, ((s.allocators a).central.lists c).capacity ≤
      ((s'.allocators a).central.lists c).capacity) ∧ s.largeReach a ≤ s'.largeReach a := by
  have hreach := h.step action hstep
  rcases h.inv.step_cases hstep with ⟨k, b, pc, advised, v, -, ht, rfl, -, htrans⟩ |
    ⟨k, b, last, v, -, ht, rfl, hallocator, hbegin⟩ | ⟨hallocators, -, hthreads⟩
  · have hmove := s.sum_threads b k v (Thread.largeBytes a)
    rw [ht] at hmove
    unfold World.largeReach
    by_cases hb : a = b
    · subst hb
      have hlarge := htrans.large_le h.inv
      have hold : (Thread.busy a pc).largeBytes a = pc.largeBytes := if_pos rfl
      rw [World.update_allocators_same]
      exact ⟨htrans.capacity_le, by omega⟩
    · have hold : (Thread.busy b pc).largeBytes a = 0 := if_neg (Ne.symm hb)
      have hnew : v.thread.largeBytes a = 0 := by
        refine Thread.largeBytes_of_extent (Thread.extentBytes_of_ne fun b' pc' hthread => ?_)
        rw [h.inv.busy_alloc hreach.inv ht htrans hthread]
        exact Ne.symm hb
      rw [World.update_allocators_ne _ _ hb]
      exact ⟨fun c => Nat.le_refl _, by omega⟩
  · have hmove := s.sum_threads b k v (Thread.largeBytes a)
    have hnew : v.thread.largeBytes a = 0 := by
      apply Thread.largeBytes_of_extent
      rcases hbegin with ⟨-, -, hthread⟩ | ⟨-, hthread⟩
      · rw [hthread]
        rfl
      · exact hthread.extentBytes a
    have hsame : (s.update b k v).allocators a = s.allocators a := by
      by_cases hb : a = b
      · subst hb
        rw [World.update_allocators_same, hallocator]
      · rw [World.update_allocators_ne _ _ hb]
    have hidle : (Thread.idle last : Thread ι κ Seq).largeBytes a = 0 := rfl
    rw [ht, hnew] at hmove
    unfold World.largeReach
    rw [hsame]
    exact ⟨fun c => Nat.le_refl _, by omega⟩
  · unfold World.largeReach
    rw [hallocators, hthreads]
    exact ⟨fun c => Nat.le_refl _, Nat.le_refl _⟩

end Growth

/-! ### Soundness -/

/-- What a call of `stats` has read is no more than there is, and what it returns fits. -/
def StatsPc.Sound [DecidableEq ι] [Fintype κ] (setup : Setup ι κ) (s : World ι κ Seq Seq)
    (a : ι) : StatsPc → Prop
  | counting _ counts => ∀ c, counts c ≤ ((s.allocators a).central.lists c).capacity
  | arena counts large => (∀ c, counts c ≤ ((s.allocators a).central.lists c).capacity) ∧
      large.liveBytes + large.freeBytes ≤ s.largeReach a
  | done stats => stats.arenaCapacity = (setup.config a).arenaSize ∧
      stats.arenaRemaining + (stats.totalSmallCentralBytes + stats.largeLiveBytes +
        stats.largeFreeBytes) ≤ stats.arenaCapacity ∧
      ∀ c, (stats.smallCentral c).bytes =
        (stats.smallCentral c).blocks * (setup.config a).classBlockSize c

section Sound

variable [DecidableEq ι] [DecidableEq κ] [Fintype κ] {setup : Setup ι κ} {s s' : World ι κ Seq Seq}
  {a : ι} {pc pc' : StatsPc}

theorem StatsPc.Sound.act (h : pc.Sound setup s a) (hreach : setup.Reachable s)
    {action : Action ι κ} (hstep : s.step setup.debug action = some s') : pc.Sound setup s' a := by
  obtain ⟨hcapacity, hlarge⟩ := hreach.grows hstep a
  cases pc with
  | counting classes counts => exact fun c => (h c).trans (hcapacity c)
  | arena counts large => exact ⟨fun c => (h.1 c).trans (hcapacity c), h.2.trans hlarge⟩
  | done stats => exact h

/-- A pool has no more blocks than its slabs were carved into. -/
theorem Inv.blockCounts_le (inv : Inv setup s) (a : ι) (c : SizeClass) :
    (s.allocators a).central.blockCounts c ≤ ((s.allocators a).central.lists c).capacity := by
  rw [inv.capacity_eq a c, ((inv.parts.allocator a).central c).blockCounts_eq]
  omega

/-- What is in slabs and in large blocks, also those in the hands of calls, has been given out. -/
theorem Setup.Reachable.shelved_le (h : setup.Reachable s) (a : ι) :
    (SizeClass.sum fun c => ((s.allocators a).central.lists c).capacity *
        (s.allocators a).config.classBlockSize c) + s.largeReach a ≤
      (s.allocators a).arena.next := by
  have hsum := h.given_le a
  have hhands : ∑ k, (s.threads k).largeBytes a ≤ ∑ k, (s.threads k).extentBytes a :=
    Finset.sum_le_sum fun k _ => (s.threads k).largeBytes_le
  unfold Allocator.shelved at hsum
  unfold World.largeReach
  omega

theorem StatsPc.Sound.read (h : pc.Sound setup s a) (hreach : setup.Reachable s)
    (hread : pc.read (s.allocators a) = some pc') : pc'.Sound setup s a := by
  cases pc with
  | counting classes counts =>
    cases classes with
    | cons d classes =>
      obtain rfl := Option.some.inj hread
      intro c
      by_cases hc : c = d
      · subst hc
        rw [Function.update_self]
        exact hreach.inv.blockCounts_le a c
      · rw [Function.update_of_ne hc]
        exact h c
    | nil =>
      obtain rfl := Option.some.inj hread
      exact ⟨h, Nat.le_add_right _ _⟩
  | arena counts large =>
    obtain rfl := Option.some.inj hread
    have hok := hreach.inv.parts.allocator a
    have hlen : (s.allocators a).arena.len = (setup.config a).arenaSize := by
      rw [congrArg Arena.len hok.arena_eq]
      exact setup.arena_len a
    have hnext : (s.allocators a).arena.next ≤ (s.allocators a).arena.len := by
      rw [congrArg Arena.len hok.arena_eq]
      exact hok.next_le
    have hcounts : (SizeClass.sum fun c => counts c * (s.allocators a).config.classBlockSize c) ≤
        SizeClass.sum fun c => ((s.allocators a).central.lists c).capacity *
          (s.allocators a).config.classBlockSize c :=
      SizeClass.sum_le fun c => Nat.mul_le_mul_right _ (h.1 c)
    have hshelved := hreach.shelved_le a
    have hlarge := h.2
    refine ⟨hlen, ?_, fun c => ?_⟩
    · show (s.allocators a).arena.len - (s.allocators a).arena.next +
        ((SizeClass.sum fun c => counts c * (s.allocators a).config.classBlockSize c) +
          large.liveBytes + large.freeBytes) ≤ (s.allocators a).arena.len
      omega
    · show counts c * (s.allocators a).config.classBlockSize c = _
      rw [hok.config_eq]
      rfl
  | done stats => cases hread

theorem Setup.Observed.sound (h : setup.Observed a s pc) : pc.Sound setup s a := by
  induction h with
  | start h => exact fun c => Nat.zero_le _
  | act action h hstep ih => exact ih.act h.reachable hstep
  | read h hread ih => exact ih.read h.reachable hread

end Sound

section Code

variable {setup : Setup ι κ} {w : World ι κ FreeList Batch} {s : World ι κ Seq Seq} {a : ι}

theorem Refines.read_eq (h : Refines w s) (a : ι) (pc : StatsPc) :
    pc.read (w.allocators a) = pc.read (s.allocators a) := by
  have hlarge : (w.allocators a).large = (s.allocators a).large := by
    rw [h.code]
    rfl
  cases pc with
  | counting classes counts =>
    cases classes with
    | nil =>
      show some _ = some _
      rw [hlarge]
    | cons c classes =>
      show some _ = some _
      rw [h.blockCounts_eq]
  | arena counts large =>
    show some _ = some _
    rw [h.config_eq, h.arena_eq]
  | done stats => rfl

variable [DecidableEq ι] [DecidableEq κ]

theorem Setup.Observed.refines {pc : StatsPc} (h : setup.Observed a w pc) :
    ∃ s : World ι κ Seq Seq, setup.Observed a s pc ∧ Refines w s := by
  induction h with
  | start h =>
    obtain ⟨s, hs, hrefines⟩ := h.refines
    exact ⟨s, .start hs, hrefines⟩
  | act action _ hstep ih =>
    obtain ⟨s, hs, hrefines⟩ := ih
    obtain ⟨s', hstep', hrefines'⟩ := hrefines.forward hs.reachable.inv hstep
    exact ⟨s', hs.act action hstep', hrefines'⟩
  | read _ hread ih =>
    obtain ⟨s, hs, hrefines⟩ := ih
    exact ⟨s, hs.read ((hrefines.read_eq a _).symm.trans hread), hrefines⟩

/-- Whatever the threads do while `stats` reads, it never shows more bytes in the pool and in large
blocks than it shows as given out. -/
theorem Setup.Observed.snapshot_sound [Fintype κ] {stats : AllocatorStats}
    (h : setup.Observed a w (.done stats)) :
    stats.arenaCapacity = (setup.config a).arenaSize ∧
      stats.arenaRemaining + (stats.totalSmallCentralBytes + stats.largeLiveBytes +
        stats.largeFreeBytes) ≤ stats.arenaCapacity ∧
      ∀ c, (stats.smallCentral c).bytes =
        (stats.smallCentral c).blocks * (setup.config a).classBlockSize c := by
  obtain ⟨s, hs, -⟩ := h.refines
  exact hs.sound

/-- The classes are counted before the first allocation, the arena is read after it. -/
theorem snapshot_sound_sample : ∃ (w : World Unit (Fin 2) FreeList Batch) (stats : AllocatorStats),
    sampleSetup.Observed () w (.done stats) ∧ stats.arenaRemaining = 16128 ∧
      stats.arenaCapacity = (sampleSetup.config ()).arenaSize ∧
        stats.arenaRemaining + (stats.totalSmallCentralBytes + stats.largeLiveBytes +
          stats.largeFreeBytes) ≤ stats.arenaCapacity ∧
        ∀ c, (stats.smallCentral c).bytes =
          (stats.smallCentral c).blocks * (sampleSetup.config ()).classBlockSize c := by
  have hinitial : sampleSetup.Reachable (sampleSetup.world FreeList Batch) := .initial
  have hcounted := hinitial.counted ()
  have hdone := ((hcounted.runs (Option.some_get sampleCarve_run).symm).read rfl).read rfl
  exact ⟨_, _, hdone, by decide +kernel, hdone.snapshot_sound⟩

end Code

end Orthotope
