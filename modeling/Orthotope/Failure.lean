import Orthotope.Supply

/-! Failed allocations.  A small allocation that fails has taken nothing.  A large one reserves its
block before it writes the header, and a block too large for the 32-bit fields of the header is
reserved and then given up: that is the one case in which a failure loses space. -/

namespace Orthotope

open ByteMemory

variable {ι κ : Type}

/-- The block of this request fits in the arena, but its size does not fit in a header. -/
def Allocator.Unwritable {L : Type} (allocator : Allocator L) (size : Nat) : Prop :=
  SizeClass.maxSmallRequest < size ∧ ∃ blockSize, allocator.largeBlockSize size = some blockSize ∧
    2 ^ 32 ≤ blockSize - headerSize ∧
      alignUp allocator.arena.next allocator.arena.alignment + blockSize ≤ allocator.arena.len

section Large

variable {setup : Setup ι κ} {o s : World ι κ Seq Seq} {a : ι} {k : κ} {size blockSize : Nat}

/-- What a step that reserves a large block comes to. -/
theorem Inv.largeCarve_cases (inv : Inv setup s) {debug : Bool} {advised : Bool × Bool}
    (hsize : 0 < blockSize) {v : View ι κ Seq Seq}
    (hv : (s.view a k).next debug advised a k (.largeCarve size blockSize) = some v) :
    (¬(s.allocators a).arena.HasRoom blockSize ∧
      v = (s.view a k).finish (.allocError (.outOfMemory size (s.allocators a).arena.remaining))) ∨
    ∃ start arena, (s.allocators a).arena.HasRoom blockSize ∧
      (s.allocators a).arena.next < arena.next ∧
      v = ((s.view a k).setArena arena).goto a (.largeGot size start blockSize) := by
  have hparts := inv.parts.allocator a
  obtain ⟨-, hnew⟩ := setup.arena_new a
  have hres := Arena.allocateBlock_total hnew hparts.next_le hsize
  rw [← hparts.arena_eq] at hres
  by_cases hroom : (s.allocators a).arena.HasRoom blockSize
  · rw [if_pos hroom] at hres
    obtain ⟨⟨start, arena⟩, hok⟩ := hres
    simp only [View.next, World.view, hok] at hv
    obtain rfl := Option.some.inj hv
    have hreserves := Arena.allocateBlock_ok hok
    have hle := le_alignUp (s.allocators a).arena.next (s.allocators a).arena.alignment
    refine Or.inr ⟨start, arena, hroom, ?_, rfl⟩
    rw [hreserves.next_eq]
    simp only
    omega
  · rw [if_neg hroom] at hres
    simp only [View.next, World.view, hres] at hv
    obtain rfl := Option.some.inj hv
    refine Or.inl ⟨hroom, ?_⟩
    rw [Arena.remaining, congrArg Arena.len hparts.arena_eq]
    rfl

/-- What a failed allocation from `o` has left: everything, unless its block could not be written,
and then the arena has moved on. -/
def World.Left (o s : World ι κ Seq Seq) (a : ι) (size : Nat) : Prop :=
  ¬(o.allocators a).Unwritable size ∧ o.SameFree s ∨
    (o.allocators a).Unwritable size ∧ (o.allocators a).arena.next < (s.allocators a).arena.next

/-- How far an allocation of `size` with a large block, that began in `o`, has come in `s`. -/
inductive LargeDraw (o s : World ι κ Seq Seq) (a : ι) (k : κ) (size : Nat) :
    Thread ι κ Seq → Prop
  | large {blockSize : Nat} (same : o.SameFree s) (hsize : SizeClass.maxSmallRequest < size)
      (hblock : (o.allocators a).largeBlockSize size = some blockSize) :
      LargeDraw o s a k size (.busy a (.large size blockSize))
  | carve {blockSize : Nat} (same : o.SameFree s) (hsize : SizeClass.maxSmallRequest < size)
      (hblock : (o.allocators a).largeBlockSize size = some blockSize) :
      LargeDraw o s a k size (.busy a (.largeCarve size blockSize))
  | writable {start blockSize : Nat} (h : ¬(o.allocators a).Unwritable size)
      (hwritable : blockSize - headerSize < 2 ^ 32) :
      LargeDraw o s a k size (.busy a (.largeGot size start blockSize))
  | unwritable {start blockSize : Nat} (h : (o.allocators a).Unwritable size)
      (hunwritable : 2 ^ 32 ≤ blockSize - headerSize)
      (hmoved : (o.allocators a).arena.next < (s.allocators a).arena.next) :
      LargeDraw o s a k size (.busy a (.largeGot size start blockSize))
  | written {start blockSize : Nat} (h : ¬(o.allocators a).Unwritable size) :
      LargeDraw o s a k size (.busy a (.largeWritten size start blockSize))
  | report (h : o.Left s a size) : LargeDraw o s a k size (.busy a (.report size))
  | allocated {ptr : Nat} (h : ¬(o.allocators a).Unwritable size) :
      LargeDraw o s a k size (.idle (some (.allocated ptr)))
  | failed {e : AllocError} (h : o.Left s a size) :
      LargeDraw o s a k size (.idle (some (.allocError e)))

variable [DecidableEq ι] [DecidableEq κ]

theorem LargeDraw.step {debug : Bool} {advised : Bool × Bool} {b : ι} {pc : Pc ι κ Seq}
    {v : View ι κ Seq Seq} (inv : Inv setup s) (d : LargeDraw o s a k size (.busy b pc))
    (hv : (s.view b k).next debug advised b k pc = some v)
    (htrans : Transition debug s b k pc v) : LargeDraw o (s.update b k v) a k size v.thread := by
  cases htrans with
  | @largeReuse _ _ block large hinv hlive hfree hle =>
    cases d with
    | large same hsize hblock =>
      -- what is in the free pool has been written once
      have hok := (inv.parts.allocator a).large.free_ok block (hfree ▸ Multiset.mem_cons_self ..)
      have hwritable : block.blockSize - headerSize < 2 ^ 32 := hok.usable_lt
      refine .writable ?_ hwritable
      rintro ⟨-, blockSize', hblock', hlarge, -⟩
      obtain rfl := Option.some.inj (hblock.symm.trans hblock')
      omega
  | largeMiss h =>
    cases d with
    | large same hsize hblock => exact .carve (same.still rfl rfl) hsize hblock
  | @largeReserve _ blockSize _ arena h =>
    cases d with
    | @carve blockSize same hsize hblock =>
      have hpos := largeBlockSize_spec hblock
      rcases inv.largeCarve_cases (by unfold headerSize at hpos; omega) hv with
        ⟨-, h⟩ | ⟨start', arena', hroom, hmoved, h⟩
      · cases congrArg View.thread h
      · have harena : arena = arena' := congrArg (fun v => v.allocator.arena) h
        have hnext : (o.allocators a).arena.next < arena.next := by
          rw [← same.arena a, harena]
          exact hmoved
        have hroom' := hroom
        rw [same.arena a] at hroom'
        by_cases hwritable : blockSize - headerSize < 2 ^ 32
        · refine .writable ?_ hwritable
          rintro ⟨-, blockSize', hblock', hlarge, -⟩
          obtain rfl := Option.some.inj (hblock.symm.trans hblock')
          omega
        · refine .unwritable ⟨hsize, blockSize, hblock, by omega, hroom'⟩ (by omega) ?_
          rw [World.update_allocators_same]
          exact hnext
  | largeFail =>
    cases d with
    | @carve blockSize same hsize hblock =>
      have hpos := largeBlockSize_spec hblock
      rcases inv.largeCarve_cases (by unfold headerSize at hpos; omega) hv with
        ⟨hroom, -⟩ | ⟨_, _, -, -, h⟩
      · rw [same.arena a] at hroom
        refine .failed (Or.inl ⟨?_, same.still rfl rfl⟩)
        rintro ⟨-, blockSize', hblock', -, hroom'⟩
        obtain rfl := Option.some.inj (hblock.symm.trans hblock')
        exact hroom hroom'
      · cases congrArg View.thread h
  | largeWrite h =>
    cases d with
    | writable h' => exact .written h'
    | unwritable => omega
  | largeUnwritable h =>
    cases d with
    | writable => omega
    | unwritable h' _ hmoved =>
      refine .report (Or.inr ⟨h', ?_⟩)
      rw [World.update_allocators_same]
      exact hmoved
  | record hinv hlive hfree =>
    cases d with
    | written h => exact .allocated h
  | report =>
    cases d with
    | report h =>
      refine .failed (h.imp (fun h => ⟨h.1, h.2.still rfl rfl⟩) fun h => ⟨h.1, ?_⟩)
      rw [World.update_allocators_same]
      exact h.2
  | takeSlab hpc => rcases hpc with rfl | rfl <;> cases d
  | _ => cases d

/-- What an allocation that began in `o` comes to: it fails and takes nothing, it loses the space of
a block that cannot be written, or it is served. -/
def World.Answered (o s : World ι κ Seq Seq) (a : ι) (k : κ) (size : Nat) : Prop :=
  (∃ e, s.threads k = .idle (some (.allocError e))) ∧ o.Left s a size ∨
    (∃ ptr, s.threads k = .idle (some (.allocated ptr))) ∧ ¬(o.allocators a).Unwritable size

theorem LargeDraw.ends (inv : Inv setup s) (d : LargeDraw o s a k size (s.threads k)) :
    s.Ends setup.debug k fun s' => o.Answered s' a k size := by
  have hends : s.Ends setup.debug k fun s' => Inv setup s' ∧
      LargeDraw o s' a k size (s'.threads k) := by
    refine inv.ends_next (J := fun s => LargeDraw o s a k size (s.threads k)) ?_ d
    intro s b pc v advised inv d ht hv htrans
    rw [ht] at d
    obtain rfl : b = a := by cases d <;> rfl
    rw [World.update_threads_same]
    exact d.step inv hv htrans
  refine hends.idle.mono fun s' hend => ?_
  obtain ⟨last, hidle, _, d⟩ := hend
  rw [hidle] at d
  cases d with
  | allocated h => exact Or.inr ⟨⟨_, hidle⟩, h⟩
  | failed h => exact Or.inl ⟨⟨_, hidle⟩, h⟩

/-- What an allocation by a bound cache comes to when it runs alone. -/
theorem Inv.allocate_answered (inv : Inv setup s) {last : Option Outcome}
    (ht : s.threads k = .idle last) (howner : (s.caches k).owner = some a) (size : Nat) :
    s.Calls setup.debug k (.allocate k a size) fun s' => s.Answered s' a k size := by
  cases hc : SizeClass.fromRequest size with
  | some c =>
    have hsmall : ¬(s.allocators a).Unwritable size := by
      rintro ⟨hlarge, -⟩
      rw [SizeClass.fromRequest_eq_none.mpr (Or.inr hlarge)] at hc
      cases hc
    refine (inv.allocate_small ht (Or.inl howner) hc).mono fun s' hend => ?_
    obtain ⟨_, _, _, h⟩ := hend
    rcases h with ⟨block, h⟩ | h
    · exact Or.inr ⟨⟨_, h.thread⟩, hsmall⟩
    · exact Or.inl ⟨⟨_, h.thread⟩, Or.inl ⟨hsmall, h.same⟩⟩
  | none =>
    obtain ⟨v, hv⟩ : ∃ v, v = ((s.view a k).setCache (s.caches k)).startAllocate a size := ⟨_, rfl⟩
    have hstep : s.step setup.debug (.allocate k a size) = some (s.update a k v) := by
      rw [hv]
      exact World.call_eq ht (if_pos howner) fun v => v.startAllocate a size
    refine ⟨_, hstep, LargeDraw.ends (inv.step hstep) ?_⟩
    rw [World.update_threads_same, hv]
    rcases SizeClass.fromRequest_eq_none.mp hc with rfl | hlarge
    · refine .failed (Or.inl ⟨fun h => Nat.not_lt_zero _ h.1, ?_⟩)
      exact (World.SameFree.refl s).still rfl rfl
    · have hne : size ≠ 0 := Nat.ne_of_gt (Nat.lt_of_le_of_lt (Nat.zero_le _) hlarge)
      cases hblock : (s.allocators a).largeBlockSize size with
      | none =>
        have hstart : ((s.view a k).setCache (s.caches k)).startAllocate a size =
            (s.view a k).goto a (.report size) := by
          simp only [View.startAllocate, hne, if_false, hc, View.setCache, World.view, hblock]
        rw [hstart]
        refine .report (Or.inl ⟨?_, (World.SameFree.refl s).still rfl rfl⟩)
        rintro ⟨-, blockSize, hblock', -⟩
        cases hblock.symm.trans hblock'
      | some blockSize =>
        have hstart : ((s.view a k).setCache (s.caches k)).startAllocate a size =
            (s.view a k).goto a (.large size blockSize) := by
          simp only [View.startAllocate, hne, if_false, hc, View.setCache, World.view, hblock]
        rw [hstart]
        exact .large ((World.SameFree.refl s).still rfl rfl) hlarge hblock

end Large

section Code

variable [DecidableEq ι] [DecidableEq κ] {setup : Setup ι κ} {w : World ι κ FreeList Batch} {a : ι}
  {k : κ}

/-- A failed allocation consumes nothing, except where the block cannot be written. -/
theorem Setup.Reachable.failed_consumes_nothing_iff (h : setup.Reachable w) {last : Option Outcome}
    (ht : w.threads k = .idle last) (howner : (w.caches k).owner = some a) (size : Nat) :
    w.Calls setup.debug k (.allocate k a size) (fun w' =>
      (∃ e, w'.threads k = .idle (some (.allocError e))) → w.contents.SameFree w'.contents) ↔
    ¬(w.allocators a).Unwritable size := by
  obtain ⟨s, hs, hrefines⟩ := h.refines
  have hcalls := hrefines.calls hs.inv rfl
    (hs.inv.allocate_answered (hrefines.idle_last ht) (hrefines.owner_eq k ▸ howner) size)
  have hwritable : (w.allocators a).Unwritable size ↔ (s.allocators a).Unwritable size := by
    unfold Allocator.Unwritable Allocator.largeBlockSize
    rw [hrefines.arena_eq, hrefines.config_eq]
  have hsame : ∀ {w' : World ι κ FreeList Batch} {s' : World ι κ Seq Seq}, Refines w' s' →
      (w.contents.SameFree w'.contents ↔ s.SameFree s') := by
    intro w' s' hrefines'
    rw [hrefines.contents_eq, hrefines'.contents_eq]
    exact ⟨fun h => ⟨h.arena, h.large, h.classes, h.staged, h.pool⟩,
      fun h => ⟨h.arena, h.large, h.classes, h.staged, h.pool⟩⟩
  rw [hwritable]
  constructor
  · intro hclaim hbad
    -- the call cannot both fail without a trace and move the arena on
    obtain ⟨w', hclaim', s', hrefines', hanswer⟩ := (hclaim.and hcalls).exists_end
    rcases hanswer with ⟨⟨e, hfailed⟩, ⟨hgood, -⟩ | ⟨-, hmoved⟩⟩ | ⟨-, hgood⟩
    · exact hgood hbad
    · have hsame' := (hsame hrefines').mp (hclaim' ⟨e, hrefines'.idle_of hfailed⟩)
      rw [hsame'.arena a] at hmoved
      exact Nat.lt_irrefl _ hmoved
    · exact hgood hbad
  · intro hgood
    refine hcalls.mono fun w' hend hfailed => ?_
    obtain ⟨s', hrefines', hanswer⟩ := hend
    rw [hsame hrefines']
    rcases hanswer with ⟨-, ⟨-, hsame'⟩ | ⟨hbad, -⟩⟩ | ⟨⟨ptr, hallocated⟩, -⟩
    · exact hsame'
    · exact absurd hbad hgood
    · obtain ⟨e, hfailed⟩ := hfailed
      cases (hrefines'.idle_of hallocated).symm.trans hfailed

/-- An arena of eight gigabytes. -/
def roomySetup : Setup Unit (Fin 2) where
  debug := true
  pageSize := 4096
  config := fun _ => ⟨2 ^ 33, 64, 256, 384⟩
  mapping := fun _ => 4096
  arena := fun _ => ⟨4096, 2 ^ 33, 0, 64⟩
  cacheConfig := fun _ => ⟨2 ^ 33, 64, 256, 384⟩
  cacheId := fun k => k.val
  pageSize_isPowerOfTwo := samplePageSize
  accepted := fun _ => rfl
  mapping_le := fun _ => by decide
  mapping_disjoint := fun a b h => absurd (Subsingleton.elim a b) h
  cacheId_lt := sampleCacheId_lt

theorem roomyActions_run : ((roomySetup.world FreeList Batch).runs true
    [.allocate 0 () 0]).isSome := by
  decide +kernel

/-- A request of no bytes has bound cache 0. -/
def roomyWorld : World Unit (Fin 2) FreeList Batch := roomySetup.after _ roomyActions_run

/-- A request of eight gigabytes fails, as there is no room for its header. -/
theorem failed_consumes_nothing_sample : ∃ w', roomyWorld.runs true
      (.allocate 0 () (2 ^ 33) :: [(true, true), (true, true)].map (Action.run 0)) = some w' ∧
    w'.threads 0 = .idle (some (.allocError (.outOfMemory (2 ^ 33) (2 ^ 33)))) ∧
      roomyWorld.contents.SameFree w'.contents := by
  have hreachable : roomySetup.Reachable roomyWorld := Setup.after_reachable roomyActions_run
  have ht : roomyWorld.threads 0 = .idle (some (.allocError .zeroSize)) := by rfl
  have hrun : (roomyWorld.runs true
      (.allocate 0 () (2 ^ 33) :: [(true, true), (true, true)].map (Action.run 0))).isSome := by
    decide +kernel
  have hfits : ¬(roomyWorld.allocators ()).Unwritable (2 ^ 33) := by
    have hsize : (roomyWorld.allocators ()).largeBlockSize (2 ^ 33) = some (2 ^ 33 + 64) := by
      decide +kernel
    rintro ⟨-, blockSize, hblock, -, hroom⟩
    obtain rfl := Option.some.inj (hsize.symm.trans hblock)
    exact absurd hroom (by decide +kernel)
  have hcalls := (hreachable.failed_consumes_nothing_iff (a := ()) ht (by rfl) (2 ^ 33)).mpr hfits
  have hfailed : ((roomyWorld.runs true (.allocate 0 () (2 ^ 33) ::
      [(true, true), (true, true)].map (Action.run 0))).get hrun).threads 0 =
        .idle (some (.allocError (.outOfMemory (2 ^ 33) (2 ^ 33)))) := by rfl
  exact ⟨_, (Option.some_get hrun).symm, hfailed,
    hcalls.of_runs (Option.some_get hrun).symm ⟨_, hfailed⟩ ⟨_, hfailed⟩⟩

/-- A request of four gigabytes is reserved in full and then refused. -/
theorem failed_allocation_loses_space : roomySetup.Reachable roomyWorld ∧
    (roomyWorld.caches 0).owner = some () ∧ (roomyWorld.allocators ()).arena.next = 0 ∧
      ∃ w', roomyWorld.runs true (.allocate 0 () (2 ^ 32) ::
        List.replicate 4 (.run 0 (true, true))) =
          some w' ∧
        w'.threads 0 = .idle (some (.allocError (.outOfMemory (2 ^ 32) (2 ^ 32 - 64)))) ∧
          (w'.allocators ()).arena.next = 2 ^ 32 + 64 ∧
            (w'.allocators ()).large = LargeObjectState.new := by
  have hrun : (roomyWorld.runs true
      (.allocate 0 () (2 ^ 32) :: List.replicate 4 (.run 0 (true, true)))).isSome := by
    decide +kernel
  exact ⟨Setup.after_reachable roomyActions_run, by rfl, by rfl, _, (Option.some_get hrun).symm,
    by rfl, by rfl, by rfl⟩

end Code

end Orthotope
