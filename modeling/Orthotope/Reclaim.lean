import Orthotope.Calm
import Orthotope.HeaderTail

/-! When the central pool gives pages up.  A sweep runs in every 64th operation of a class and makes
at most one slab cold, one that has been full and untouched in the last operations.  What a pool
knows of a slab stays as it is until an operation touches the slab, which the epoch in the record
tells; so the slab has been whole in the pool in every state since. -/

namespace Orthotope

open ByteMemory IndexedVec Ownership

/-! ### Slabs that nobody touches -/

namespace SlabRecord

variable {L : Type}

/-- What stays of a slab that no operation touches.  Its place in its bucket changes, and a sweep
may make it cold. -/
structure Rests (slab slab' : SlabRecord L) : Prop where
  start : slab'.start = slab.start
  endAddr : slab'.endAddr = slab.endAddr
  centralFreeLen : slab'.centralFreeLen = slab.centralFreeLen
  lastTouchedEpoch : slab'.lastTouchedEpoch = slab.lastTouchedEpoch
  state : slab'.state = slab.state ∨ slab.state = .fullHot ∧ slab'.state = .fullCold

namespace Rests

variable {slab slab₁ slab' : SlabRecord L}

theorem refl (slab : SlabRecord L) : Rests slab slab := ⟨rfl, rfl, rfl, rfl, Or.inl rfl⟩

theorem hot (h : slab.Rests slab') (hhot : slab'.state = .fullHot) : slab.state = .fullHot := by
  rcases h.state with hsame | ⟨-, hcold⟩
  · exact hsame ▸ hhot
  · exact absurd (hhot.symm.trans hcold) (by decide)

theorem trans (h : slab.Rests slab₁) (h' : slab₁.Rests slab') : slab.Rests slab' where
  start := h'.start.trans h.start
  endAddr := h'.endAddr.trans h.endAddr
  centralFreeLen := h'.centralFreeLen.trans h.centralFreeLen
  lastTouchedEpoch := h'.lastTouchedEpoch.trans h.lastTouchedEpoch
  state := by
    rcases h'.state with hsame | ⟨hhot, hcold⟩
    · rw [hsame]
      exact h.state
    · exact Or.inr ⟨h.hot hhot, hcold⟩

end Rests

end SlabRecord

namespace ClassPool

section Keeps

variable {L : Type} {pool pool₁ pool' : ClassPool L} {e : Nat}

/-- In one epoch of the pool, the slabs of `pool'` that have not been touched after epoch `e` are
those of `pool`. -/
structure Keeps (e : Nat) (pool pool' : ClassPool L) : Prop where
  epoch : pool'.epoch = pool.epoch
  rests : ∀ (id : Nat) (slab' : SlabRecord L), pool'.slabs[id]? = some slab' →
    slab'.lastTouchedEpoch ≤ e → ∃ slab, pool.slabs[id]? = some slab ∧ slab.Rests slab'

namespace Keeps

theorem of_slabs (hepoch : pool'.epoch = pool.epoch) (h : pool'.slabs = pool.slabs) :
    Keeps e pool pool' :=
  ⟨hepoch, fun _ slab' hslab' _ => ⟨slab', h ▸ hslab', .refl slab'⟩⟩

theorem trans (h : Keeps e pool pool₁) (h' : Keeps e pool₁ pool') : Keeps e pool pool' := by
  refine ⟨h'.epoch.trans h.epoch, fun id slab' hslab' hle => ?_⟩
  obtain ⟨slab₁, hslab₁, hrests'⟩ := h'.rests id slab' hslab' hle
  obtain ⟨slab, hslab, hrests⟩ := h.rests id slab₁ hslab₁ (hrests'.lastTouchedEpoch ▸ hle)
  exact ⟨slab, hslab, hrests.trans hrests'⟩

/-- Slab `id` alone changes, and either rests or has been touched after `e`. -/
theorem modify {id : Nat} (f : SlabRecord L → SlabRecord L)
    (h : ∀ slab, pool.slabs[id]? = some slab → slab.Rests (f slab) ∨ e < (f slab).lastTouchedEpoch)
    (hepoch : pool'.epoch = pool.epoch) (hslabs : pool'.slabs = pool.slabs.modify id f) :
    Keeps e pool pool' := by
  refine ⟨hepoch, fun j slab' hslab' hle => ?_⟩
  rw [hslabs, List.getElem?_modify] at hslab'
  obtain ⟨slab, hslab, rfl⟩ := Option.map_eq_some_iff.mp hslab'
  by_cases hj : id = j
  · subst hj
    rw [if_pos rfl] at hle ⊢
    rcases h slab hslab with hrests | htouched
    · exact ⟨slab, hslab, hrests⟩
    · omega
  · rw [if_neg hj]
    exact ⟨slab, hslab, .refl slab⟩

theorem set {id : Nat} {touched : SlabRecord L} (h : e < touched.lastTouchedEpoch)
    (hepoch : pool'.epoch = pool.epoch) (hslabs : pool'.slabs = pool.slabs.set id touched) :
    Keeps e pool pool' := by
  refine ⟨hepoch, fun j slab' hslab' hle => ?_⟩
  rw [hslabs, List.getElem?_set] at hslab'
  split at hslab'
  · split at hslab'
    · obtain rfl := Option.some.inj hslab'
      omega
    · cases hslab'
  · exact ⟨slab', hslab', .refl slab'⟩

theorem append {touched : SlabRecord L} (h : e < touched.lastTouchedEpoch)
    (hepoch : pool'.epoch = pool.epoch) (hslabs : pool'.slabs = pool.slabs ++ [touched]) :
    Keeps e pool pool' := by
  refine ⟨hepoch, fun j slab' hslab' hle => ?_⟩
  rw [hslabs] at hslab'
  rcases Nat.lt_or_ge j pool.slabs.length with hj | hj
  · rw [List.getElem?_append_left hj] at hslab'
    exact ⟨slab', hslab', .refl slab'⟩
  · rw [List.getElem?_append_right hj] at hslab'
    obtain rfl := List.mem_singleton.mp (List.mem_of_getElem? hslab')
    omega

end Keeps

theorem keeps_setBucketSlot (pool : ClassPool L) (id : Nat) (slot : Option Nat) :
    Keeps e pool (pool.setBucketSlot id slot) :=
  .modify (fun slab => { slab with bucketSlot := slot })
    (fun _ _ => Or.inl ⟨rfl, rfl, rfl, rfl, Or.inl rfl⟩) rfl rfl

theorem keeps_setBucket (pool : ClassPool L) (state : SlabState) (ids : List Nat) :
    Keeps e pool (pool.setBucket state ids) := by
  cases state <;> exact .of_slabs rfl rfl

theorem keeps_normalizeSweepCursor (pool : ClassPool L) : Keeps e pool pool.normalizeSweepCursor :=
  .of_slabs rfl rfl

theorem keeps_removeFromBucket (pool : ClassPool L) (id : Nat) (state : SlabState) :
    Keeps e pool (pool.removeFromBucket id state) := by
  unfold removeFromBucket
  split
  · exact .of_slabs rfl rfl
  · rename_i slot hslot
    dsimp only
    split
    · exact keeps_setBucketSlot pool id none
    · refine (keeps_setBucketSlot pool id none).trans ((keeps_setBucket _ state
        (swapRemove ((pool.setBucketSlot id none).bucket state) slot)).trans ?_)
      split
      · exact (keeps_setBucketSlot _ _ _).trans (keeps_normalizeSweepCursor _)
      · exact keeps_normalizeSweepCursor _

theorem keeps_addToBucket (pool : ClassPool L) (id : Nat) (state : SlabState) :
    Keeps e pool (pool.addToBucket id state) := by
  unfold addToBucket
  split
  · exact keeps_setBucketSlot pool id none
  · exact (keeps_setBucket pool state _).trans
      ((keeps_setBucketSlot _ id _).trans (keeps_normalizeSweepCursor _))

theorem keeps_reconcileBucketTransition (pool : ClassPool L) (id : Nat)
    (previous next : SlabState) :
    Keeps e pool (pool.reconcileBucketTransition id previous next) := by
  unfold reconcileBucketTransition
  split
  · exact .of_slabs rfl rfl
  · exact (keeps_removeFromBucket pool id previous).trans (keeps_addToBucket _ id next)

end Keeps

/-! ### Sweeps -/

section Sweeps

variable {L : Type} {pool : ClassPool L} {pageSize : Nat} {advised : Bool} {e : Nat}

/-- Slab `id` of the pool is whole in it and has rested for long enough for a sweep in epoch `e`,
and `y` is one of its bytes. -/
def Idle (pool : ClassPool L) (e id y : Nat) : Prop :=
  ∃ slab, pool.slabs[id]? = some slab ∧ slab.state = .fullHot ∧
    slab.lastTouchedEpoch + coldEpochs ≤ e ∧ slab.start ≤ y ∧ y < slab.endAddr

theorem keeps_cold {id : Nat} {slab : SlabRecord L} (hslab : pool.slabs[id]? = some slab)
    (hhot : slab.state = .fullHot) :
    Keeps e pool ((pool.setSlabState id .fullCold).reconcileBucketTransition id slab.state
      .fullCold) := by
  have hcold : Keeps e pool (pool.setSlabState id .fullCold) := by
    refine .modify (fun slab => { slab with state := .fullCold }) (fun slab' hslab' => ?_) rfl rfl
    obtain rfl := Option.some.inj (hslab.symm.trans hslab')
    exact Or.inl ⟨rfl, rfl, rfl, rfl, Or.inr ⟨hhot, rfl⟩⟩
  exact hcold.trans (keeps_reconcileBucketTransition _ id slab.state .fullCold)

theorem isSweepCandidate_iff {slab : SlabRecord L} : slab.isSweepCandidate e = true ↔
    slab.state = .fullHot ∧ coldEpochs ≤ e - slab.lastTouchedEpoch := by
  simp [SlabRecord.isSweepCandidate]

theorem keeps_sweepScan (total budget : Nat) :
    Keeps e pool (pool.sweepScan pageSize advised total budget).1 := by
  induction budget generalizing pool with
  | zero => exact .of_slabs rfl rfl
  | succ budget ih =>
    unfold sweepScan
    simp only
    split
    · exact .of_slabs rfl rfl
    · rename_i id hid
      have hcursor : Keeps e pool
          { pool with sweepCursor := (pool.sweepCursor % total + 1) % total } := .of_slabs rfl rfl
      split
      · exact hcursor
      · rename_i slab hslab
        split
        · exact hcursor.trans ih
        · rename_i hcandidate
          split
          · exact hcursor.trans ih
          · split
            · refine hcursor.trans (keeps_cold hslab ?_)
              simp only [Bool.not_eq_true', Bool.not_eq_false] at hcandidate
              exact (isSweepCandidate_iff.mp hcandidate).1
            · exact hcursor

theorem keeps_maybeSweep (pageSize : Nat) (advised : Bool) :
    Keeps e pool (pool.maybeSweep pageSize advised).1 := by
  unfold maybeSweep
  split
  · exact .of_slabs rfl rfl
  · exact keeps_sweepScan ..

/-- The scan gives up a slab that is due. -/
theorem sweepScan_idle {total budget : Nat} {range : Nat × Nat}
    (h : (pool.sweepScan pageSize advised total budget).2 = some range) :
    ∃ (id : Nat) (slab : SlabRecord L), pool.slabs[id]? = some slab ∧
      slab.isSweepCandidate pool.epoch = true ∧
        pageAlignedInnerRange pageSize slab.start slab.spanLen = some range := by
  induction budget generalizing pool with
  | zero => cases h
  | succ budget ih =>
    unfold sweepScan at h
    simp only at h
    have hrest := @ih { pool with sweepCursor := (pool.sweepCursor % total + 1) % total }
    split at h
    · cases h
    · rename_i id hid
      split at h
      · cases h
      · rename_i slab hslab
        split at h
        · exact hrest h
        · rename_i hcandidate
          simp only [Bool.not_eq_true', Bool.not_eq_false] at hcandidate
          split at h
          · exact hrest h
          · rename_i range' hrange
            split at h
            · obtain rfl := Option.some.inj h
              exact ⟨id, slab, hslab, hcandidate, hrange⟩
            · cases h

/-- So does a sweep, in the epochs in which it is made. -/
theorem maybeSweep_idle {addr len : Nat}
    (h : (pool.maybeSweep pageSize advised).2 = some (addr, len)) :
    sweepInterval ∣ pool.epoch ∧
      ∃ id, ∀ y, addr ≤ y → y < addr + len → pool.Idle pool.epoch id y := by
  unfold maybeSweep at h
  split at h
  · cases h
  · rename_i hdue
    obtain ⟨id, slab, hslab, hcandidate, hrange⟩ := sweepScan_idle h
    obtain ⟨hhot, hcold⟩ := isSweepCandidate_iff.mp hcandidate
    have hbounds := pageAlignedInnerRange_bounds hrange
    unfold coldEpochs at hcold
    unfold SlabRecord.spanLen at hbounds
    refine ⟨Nat.dvd_of_mod_eq_zero (not_not.mp (not_or.mp hdue).1), id, fun y hlo hhi =>
      ⟨slab, hslab, hhot, ?_, by omega, by omega⟩⟩
    unfold coldEpochs
    omega

end Sweeps

/-! ### The operations of a pool -/

section Operations

variable {L : Type} {pool pool₁ pool' : ClassPool L} {m m₁ m' : Mem} {n n' : Nat}

/-- What a pool has become later: the slabs that have not been touched since are at rest. -/
structure Since (pool pool' : ClassPool L) : Prop where
  epoch_le : pool.epoch ≤ pool'.epoch
  rests : ∀ (id : Nat) (slab' : SlabRecord L), pool'.slabs[id]? = some slab' →
    slab'.lastTouchedEpoch ≤ pool.epoch → ∃ slab, pool.slabs[id]? = some slab ∧ slab.Rests slab'

theorem Since.refl (pool : ClassPool L) : Since pool pool :=
  ⟨Nat.le_refl _, fun _ slab hslab _ => ⟨slab, hslab, .refl slab⟩⟩

theorem Since.trans (h : Since pool pool₁) (h' : Since pool₁ pool') : Since pool pool' := by
  refine ⟨h.epoch_le.trans h'.epoch_le, fun id slab' hslab' hle => ?_⟩
  obtain ⟨slab₁, hslab₁, hrests'⟩ := h'.rests id slab' hslab' (hle.trans h.epoch_le)
  obtain ⟨slab, hslab, hrests⟩ := h.rests id slab₁ hslab₁ (hrests'.lastTouchedEpoch ▸ hle)
  exact ⟨slab, hslab, hrests.trans hrests'⟩

/-- A slab that a later sweep gives up was idle already, if at least as much as the cold time lies
between its last use and that sweep. -/
theorem Since.idle (h : Since pool pool') {e id y : Nat} (hidle : pool'.Idle e id y)
    (he : e ≤ pool.epoch + coldEpochs) : pool.Idle e id y := by
  obtain ⟨slab', hslab', hhot, hcold, hlo, hhi⟩ := hidle
  obtain ⟨slab, hslab, hrests⟩ := h.rests id slab' hslab' (by omega)
  exact ⟨slab, hslab, hrests.hot hhot, by rwa [← hrests.lastTouchedEpoch],
    by rwa [← hrests.start], by rwa [← hrests.endAddr]⟩

/-- Between the epochs of `pool` and `pool'` a sweep is due in `e`, and the bytes that have become
reclaimable are all of slab `id`, which was idle. -/
structure GivesUp (pool : ClassPool L) (m : Mem) (pool' : ClassPool L) (m' : Mem)
    (e id : Nat) : Prop
    where
  lt : pool.epoch < e
  le : e ≤ pool'.epoch
  due : sweepInterval ∣ e
  idle : ∀ y, m'.lazyAt y = true → m.lazyAt y = false → pool.Idle e id y

/-- At most `n` operations of a pool, with the pages that their sweeps give up. -/
structure Sweeping (n : Nat) (pool : ClassPool L) (m : Mem) (pool' : ClassPool L) (m' : Mem) : Prop
    where
  since : Since pool pool'
  epoch_le : pool'.epoch ≤ pool.epoch + n
  pageSize : m'.pageSize = m.pageSize
  gives : (∀ y, m'.lazyAt y = true → m.lazyAt y = true) ∨ ∃ e id, GivesUp pool m pool' m' e id

theorem Sweeping.of_calm (h : Calm m m') : Sweeping n pool m pool m' :=
  ⟨.refl pool, Nat.le_add_right _ n, h.pageSize, Or.inl h.lazyAt⟩

/-- Between two sweeps that are due there are more operations than these. -/
theorem Sweeping.trans (h : Sweeping n pool m pool₁ m₁) (h' : Sweeping n' pool₁ m₁ pool' m')
    (hn : n + n' ≤ coldEpochs) : Sweeping (n + n') pool m pool' m' := by
  have h1 := h.epoch_le
  have h2 := h'.epoch_le
  have h3 := h.since.epoch_le
  have h4 := h'.since.epoch_le
  refine ⟨h.since.trans h'.since, by omega, h'.pageSize.trans h.pageSize, ?_⟩
  rcases h.gives with hcalm | ⟨e, id, hgives⟩
  · rcases h'.gives with hcalm' | ⟨e', id', hgives'⟩
    · exact Or.inl fun y hy => hcalm y (hcalm' y hy)
    · refine Or.inr ⟨e', id', Nat.lt_of_le_of_lt h3 hgives'.lt, hgives'.le, hgives'.due,
        fun y hy hold => ?_⟩
      have hmid : m₁.lazyAt y = false := by
        by_contra hne
        exact absurd (hcalm y (Bool.not_eq_false _ ▸ hne)) (by simp [hold])
      exact h.since.idle (hgives'.idle y hy hmid) (by have := hgives'.le; omega)
  · rcases h'.gives with hcalm' | ⟨e', id', hgives'⟩
    · exact Or.inr ⟨e, id, hgives.lt, hgives.le.trans h4, hgives.due,
        fun y hy => hgives.idle y (hcalm' y hy)⟩
    · obtain ⟨i, hi⟩ := hgives.due
      obtain ⟨i', hi'⟩ := hgives'.due
      have h5 := hgives.lt
      have h6 := hgives.le
      have h7 := hgives'.lt
      have h8 := hgives'.le
      unfold coldEpochs at hn
      unfold sweepInterval at hi hi'
      omega

/-- An operation moves the epoch on, touches some slabs and sweeps. -/
theorem Sweeping.of_sweep (hp : 0 < m.pageSize) (hcalm : Calm m m₁)
    (hkeeps : Keeps pool.epoch pool.bumpEpoch pool₁) {advised : Bool} :
    Sweeping 1 pool m (pool₁.maybeSweep m₁.pageSize advised).1
      (applyAdvice m₁ (pool₁.maybeSweep m₁.pageSize advised).2) := by
  have hsweep := hkeeps.trans (keeps_maybeSweep m₁.pageSize advised)
  have hepoch : (pool₁.maybeSweep m₁.pageSize advised).1.epoch = pool.epoch + 1 := hsweep.epoch
  have hmid : pool₁.epoch = pool.epoch + 1 := hkeeps.epoch
  refine ⟨⟨by omega, hsweep.rests⟩, by omega, ?_, ?_⟩
  · rw [← hcalm.pageSize]
    cases (pool₁.maybeSweep m₁.pageSize advised).2 <;> rfl
  · cases hrange : (pool₁.maybeSweep m₁.pageSize advised).2 with
    | none => exact Or.inl hcalm.lazyAt
    | some range =>
      obtain ⟨addr, len⟩ := range
      obtain ⟨hdue, id, hidle⟩ := maybeSweep_idle hrange
      refine Or.inr ⟨pool₁.epoch, id, by omega, by omega, hdue, fun y hy hold => ?_⟩
      rcases Mem.advise_lazyAt (hcalm.pageSize ▸ hp) hy with hlazy | ⟨hlo, hhi⟩
      · exact absurd (hcalm.lazyAt y hlazy) (by simp [hold])
      · obtain ⟨slab', hslab', hhot, hcold, hstart, hend⟩ := hidle y hlo hhi
        obtain ⟨slab, hslab, hrests⟩ := hkeeps.rests id slab' hslab' (by
          unfold coldEpochs at hcold
          omega)
        exact ⟨slab, hslab, hrests.hot hhot, by rwa [← hrests.lastTouchedEpoch],
          by rwa [← hrests.start], by rwa [← hrests.endAddr]⟩

theorem sweeping_registerSlab [BlockList L] (hp : 0 < m.pageSize) {advised : Bool}
    {start blockSize capacity : Nat} :
    Sweeping 1 pool m (pool.registerSlab m.pageSize advised start blockSize capacity).1
      (applyAdvice m (pool.registerSlab m.pageSize advised start blockSize capacity).2) := by
  unfold registerSlab
  dsimp only
  refine Sweeping.of_sweep hp (WritesIn.refl _ m) ?_
  split
  · rename_i slot _
    exact .modify (fun slab => slab.reset start blockSize capacity (pool.epoch + 1))
      (fun slab _ => Or.inr (Nat.lt_succ_self _)) rfl rfl
  · exact .append (Nat.lt_succ_self pool.epoch) rfl rfl

end Operations

section Transfers

variable {pool pool' : ClassPool FreeList} {m : Mem} {e : Nat} {advised : Bool}

/-- A slab is lent as a whole, which touches it. -/
theorem keeps_loanWholeSlab {id : Nat} {slab : SlabRecord FreeList} (he : e < pool.epoch) :
    Keeps e pool (pool.loanWholeSlab id slab : ClassPool FreeList × CentralRefill Batch).1 := by
  unfold loanWholeSlab
  refine Keeps.trans ?_ (keeps_reconcileBucketTransition _ id slab.state .loaned)
  have htouched : e < { slab with
      state := .loaned, centralFreeLen := 0, lastTouchedEpoch := pool.epoch }.lastTouchedEpoch := he
  exact .set htouched rfl rfl

/-- The blocks of a batch touch the slabs that they go back to. -/
theorem keeps_returnBlocks {n : Nat} {batch : Batch} {r : Mem × ClassPool FreeList}
    (he : e < pool.epoch) (h : returnBlocks m n pool batch = some r) :
    Keeps e pool r.2 ∧ Calm m r.1 := by
  induction n generalizing m pool batch with
  | zero =>
    obtain rfl := Option.some.inj h
    exact ⟨.of_slabs rfl rfl, .refl _ m⟩
  | succ n ih =>
    obtain ⟨⟨block, rest⟩, -, h⟩ := Option.bind_eq_some_iff.mp h
    obtain ⟨id, -, h⟩ := Option.bind_eq_some_iff.mp h
    obtain ⟨slab, hslab, h⟩ := Option.bind_eq_some_iff.mp h
    obtain ⟨touched, htouched⟩ : ∃ touched,
        touched = ({ slab with lastTouchedEpoch := pool.epoch }.recordReturnedBlock m block).2 :=
      ⟨_, rfl⟩
    have hepoch : touched.lastTouchedEpoch = pool.epoch := by
      rw [htouched]
      simp only [SlabRecord.recordReturnedBlock]
      split <;> rfl
    have hset : Keeps e pool
        { pool with slabs := pool.slabs.set id touched, recentSlab := some id } :=
      .set (by omega) rfl rfl
    have hmid := hset.trans (keeps_reconcileBucketTransition _ id slab.state
      (ClassPool.slabState
        { pool with slabs := pool.slabs.set id touched, recentSlab := some id } id))
    subst htouched
    have hcalm := Orthotope.calm_pushBlock m slab.partialFree block
    obtain ⟨hkeeps, hrest⟩ := ih (Nat.lt_of_lt_of_eq he hmid.epoch.symm) h
    exact ⟨hmid.trans hkeeps, hcalm.trans hrest⟩

theorem sweeping_returnBatch (hp : 0 < m.pageSize) {batch : Batch} {r : Mem × ClassPool FreeList}
    (h : pool.returnBatch m advised batch = some r) : Sweeping 1 pool m r.2 r.1 := by
  unfold returnBatch at h
  split at h
  · obtain rfl := Option.some.inj h
    exact .of_calm (.refl _ m)
  · obtain ⟨x, hx, rfl⟩ := Option.map_eq_some_iff.mp h
    obtain ⟨hkeeps, hcalm⟩ := keeps_returnBlocks (Nat.lt_succ_self pool.epoch) hx
    exact .of_sweep hp hcalm hkeeps

theorem sweeping_takeRefill (hp : 0 < m.pageSize) {max : Nat}
    {r : Mem × ClassPool FreeList × CentralRefill Batch}
    (h : pool.takeRefill m advised max = some r) : Sweeping 1 pool m r.2.1 r.1 := by
  unfold takeRefill at h
  split at h
  · obtain rfl := Option.some.inj h
    exact .of_calm (.refl _ m)
  · dsimp only at h
    split at h
    · rename_i id hid
      obtain ⟨slab, -, h⟩ := Option.bind_eq_some_iff.mp h
      obtain ⟨⟨m₁, batch, taken⟩, hx, rfl⟩ := Option.map_eq_some_iff.mp h
      have hset : Keeps pool.epoch pool.bumpEpoch { pool.bumpEpoch with
          slabs := pool.slabs.set id { taken with lastTouchedEpoch := pool.epoch + 1 }
          recentSlab := some id } := .set (Nat.lt_succ_self pool.epoch) rfl rfl
      exact .of_sweep hp (SlabRecord.calm_takePartialBatch hx)
        (hset.trans (keeps_reconcileBucketTransition _ id .partlyFree _))
    · split at h
      · obtain ⟨slab, hslab, rfl⟩ := Option.map_eq_some_iff.mp h
        exact .of_sweep hp (.refl _ m) (keeps_loanWholeSlab (Nat.lt_succ_self pool.epoch))
      · obtain rfl := Option.some.inj h
        exact .of_sweep hp (.refl _ m) (.of_slabs rfl rfl)

end Transfers

end ClassPool

/-! ### The lock sections -/

namespace CentralPool

variable {central : CentralPool FreeList} {m : Mem} {c : SizeClass}

/-- A lock section of class `c` leaves the other classes alone. -/
structure Sweeping (c : SizeClass) (central : CentralPool FreeList) (m : Mem)
    (central' : CentralPool FreeList) (m' : Mem) : Prop where
  same : ∀ d, d ≠ c → central'.lists d = central.lists d
  sweeping : ClassPool.Sweeping 2 (central.lists c) m (central'.lists c) m'

theorem sweeping_drainRemoteInbox (hp : 0 < m.pageSize) {advised : Bool}
    {r : Mem × CentralPool FreeList} (h : central.drainRemoteInbox m advised c = some r) :
    (∀ d, d ≠ c → r.2.lists d = central.lists d) ∧
      ClassPool.Sweeping 1 (central.lists c) m (r.2.lists c) r.1 := by
  obtain ⟨⟨m₁, pending, inbox⟩, htake, h⟩ := Option.bind_eq_some_iff.mp h
  have hcalm := RemoteReturns.calm_takePending htake
  dsimp only at h
  split at h
  · obtain rfl := Option.some.inj h
    exact ⟨fun d _ => rfl, .of_calm hcalm⟩
  · obtain ⟨⟨m₂, pool⟩, hreturn, rfl⟩ := Option.map_eq_some_iff.mp h
    refine ⟨fun d hd => Function.update_of_ne hd .., ?_⟩
    have hsweep := ClassPool.sweeping_returnBatch (hcalm.pageSize ▸ hp) hreturn
    have hfirst : ClassPool.Sweeping 0 (central.lists c) m (central.lists c) m₁ := .of_calm hcalm
    have hlist : Function.update central.lists c pool c = pool := Function.update_self ..
    simp only [hlist]
    exact hfirst.trans hsweep (by decide)

theorem sweeping_takeRefill (hp : 0 < m.pageSize) {advised : Bool × Bool} {max : Nat}
    {r : Mem × CentralPool FreeList × CentralRefill Batch}
    (h : central.takeRefill m advised c max = some r) : Sweeping c central m r.2.1 r.1 := by
  obtain ⟨⟨m₁, mid⟩, hdrain, h⟩ := Option.bind_eq_some_iff.mp h
  obtain ⟨⟨m₂, pool, refill⟩, htake, rfl⟩ := Option.map_eq_some_iff.mp h
  obtain ⟨hsame, hsweep⟩ := sweeping_drainRemoteInbox hp hdrain
  have hrest := ClassPool.sweeping_takeRefill (hsweep.pageSize ▸ hp) htake
  refine ⟨fun d hd => (Function.update_of_ne hd ..).trans (hsame d hd), ?_⟩
  have hlist : Function.update mid.lists c pool c = pool := Function.update_self ..
  simp only [hlist]
  exact hsweep.trans hrest (by decide)

theorem sweeping_returnBatch (hp : 0 < m.pageSize) {advised : Bool × Bool} {batch : Batch}
    {r : Mem × CentralPool FreeList} (h : central.returnBatch m advised c batch = some r) :
    Sweeping c central m r.2 r.1 := by
  obtain ⟨⟨m₁, mid⟩, hdrain, h⟩ := Option.bind_eq_some_iff.mp h
  obtain ⟨⟨m₂, pool⟩, hreturn, rfl⟩ := Option.map_eq_some_iff.mp h
  obtain ⟨hsame, hsweep⟩ := sweeping_drainRemoteInbox hp hdrain
  have hrest := ClassPool.sweeping_returnBatch (hsweep.pageSize ▸ hp) hreturn
  refine ⟨fun d hd => (Function.update_of_ne hd ..).trans (hsame d hd), ?_⟩
  have hlist : Function.update mid.lists c pool c = pool := Function.update_self ..
  simp only [hlist]
  exact hsweep.trans hrest (by decide)

theorem sweeping_registerSlab (hp : 0 < m.pageSize) {advised : Bool}
    {start blockSize capacity : Nat} :
    Sweeping c central m (central.registerSlab m advised c start blockSize capacity).2
      (central.registerSlab m advised c start blockSize capacity).1 := by
  have hfirst : ClassPool.Sweeping 1 (central.lists c) m (central.lists c) m :=
    .of_calm (.refl _ m)
  refine ⟨fun d hd => Function.update_of_ne hd .., ?_⟩
  have hlist : (central.registerSlab m advised c start blockSize capacity).2.lists c =
      ((central.lists c).registerSlab m.pageSize advised start blockSize capacity).1 :=
    Function.update_self ..
  rw [hlist]
  exact hfirst.trans (ClassPool.sweeping_registerSlab hp) (by decide)

end CentralPool

/-! ### The steps of the code -/

section Code

variable {ι κ : Type}

/-- What a step does to the pools of its allocator and to the reclaimable pages. -/
structure View.Sweeping (v v' : View ι κ FreeList Batch) : Prop where
  since : ∀ c, ClassPool.Since (v.allocator.central.lists c) (v'.allocator.central.lists c)
  gives : (∀ y, v'.mem.lazyAt y = true → v.mem.lazyAt y = true) ∨
    ∃ c e id, ClassPool.GivesUp (v.allocator.central.lists c) v.mem
      (v'.allocator.central.lists c) v'.mem e id

theorem View.Sweeping.of_calm {v v' : View ι κ FreeList Batch}
    (hlists : v'.allocator.central.lists = v.allocator.central.lists) (h : Calm v.mem v'.mem) :
    v.Sweeping v' :=
  ⟨fun _ => hlists ▸ .refl _, Or.inl h.lazyAt⟩

theorem View.Sweeping.of_central {v v' : View ι κ FreeList Batch} {c : SizeClass}
    (h : CentralPool.Sweeping c v.allocator.central v.mem v'.allocator.central v'.mem) :
    v.Sweeping v' := by
  refine ⟨fun d => ?_, h.sweeping.gives.imp_right fun hgives => ⟨c, hgives⟩⟩
  by_cases hd : d = c
  · subst hd
    exact h.sweeping.since
  · rw [h.same d hd]
    exact .refl _

/-- What follows a transfer changes the thread only. -/
theorem View.Sweeping.resume {v v' : View ι κ FreeList Batch} (h : v.Sweeping v') (a : ι)
    (resume : Resume) : v.Sweeping (v'.resume a resume) := by
  cases resume <;> exact ⟨h.since, h.gives⟩

theorem View.next_sweeping {debug : Bool} {advised : Bool × Bool} {a : ι} {k : κ}
    {v v' : View ι κ FreeList Batch} {pc : Pc ι κ Batch} (hp : 0 < v.mem.pageSize)
    (h : v.next debug advised a k pc = some v') : v.Sweeping v' := by
  cases pc with
  | refill c size =>
    obtain ⟨⟨m, central, refill⟩, htake, rfl⟩ := Option.map_eq_some_iff.mp h
    have hsweep := CentralPool.sweeping_takeRefill hp htake
    cases refill <;> exact .of_central hsweep
  | gotBatch c size batch =>
    obtain ⟨x, hx, rfl⟩ := Option.map_eq_some_iff.mp h
    obtain ⟨y, hy, rfl⟩ := Option.map_eq_some_iff.mp hx
    obtain ⟨z, hz, rfl⟩ := Option.map_eq_some_iff.mp hy
    exact .of_calm rfl (calm_pushBatch hz)
  | carve c size =>
    simp only [View.next] at h
    split at h <;> obtain rfl := Option.some.inj h <;> exact .of_calm rfl (.refl _ _)
  | carved c size span =>
    obtain rfl := Option.some.inj h
    exact .of_central (CentralPool.sweeping_registerSlab hp)
  | pop c size =>
    obtain ⟨x, hx, rfl⟩ := Option.map_eq_some_iff.mp h
    exact .of_calm rfl (.refl _ _)
  | popped c size block reuse =>
    obtain rfl := Option.some.inj h
    exact .of_calm rfl (.of_writesIn (writesIn_writeHeader ..))
  | large size blockSize =>
    obtain ⟨⟨found, large⟩, hx, rfl⟩ := Option.map_eq_some_iff.mp h
    cases found <;> exact .of_calm rfl (.refl _ _)
  | largeCarve size blockSize =>
    simp only [View.next] at h
    split at h <;> obtain rfl := Option.some.inj h <;> exact .of_calm rfl (.refl _ _)
  | largeGot size start blockSize =>
    simp only [View.next] at h
    split at h
    · obtain rfl := Option.some.inj h
      exact .of_calm rfl (.refl _ _)
    · rename_i m hwrite
      obtain rfl := Option.some.inj h
      exact .of_calm rfl (calm_writeLargeToBlock hwrite)
  | largeWritten size start blockSize =>
    obtain ⟨x, hx, rfl⟩ := Option.map_eq_some_iff.mp h
    exact .of_calm rfl (.refl _ _)
  | route c block owner =>
    simp only [View.next] at h
    split at h
    · obtain ⟨x, hx, rfl⟩ := Option.map_eq_some_iff.mp h
      obtain ⟨y, hy, rfl⟩ := Option.map_eq_some_iff.mp hx
      dsimp only
      split <;> exact .of_calm rfl (LocalClassCache.calm_pushBlock hy)
    · obtain rfl := Option.some.inj h
      split <;> exact .of_calm rfl (calm_pushBlock ..)
  | releasing entry requested usable =>
    obtain ⟨answer, hx, rfl⟩ := Option.map_eq_some_iff.mp h
    cases answer <;> exact .of_calm rfl (.refl _ _)
  | flush classes =>
    cases classes <;> obtain rfl := Option.some.inj h <;> exact .of_calm rfl (.refl _ _)
  | drain classes =>
    cases classes <;> obtain rfl := Option.some.inj h <;> exact .of_calm rfl (.refl _ _)
  | unstage c resume =>
    simp only [View.next] at h
    split at h
    · obtain rfl := Option.some.inj h
      exact (View.Sweeping.of_calm rfl (.refl _ _)).resume a resume
    · obtain ⟨x, hx, rfl⟩ := Option.map_eq_some_iff.mp h
      obtain ⟨y, hy, rfl⟩ := Option.map_eq_some_iff.mp hx
      exact .of_calm rfl (RemoteReturns.calm_takeAllUnchecked hy)
  | publishing c batch resume =>
    obtain ⟨x, hx, rfl⟩ := Option.map_eq_some_iff.mp h
    obtain ⟨y, hy, rfl⟩ := Option.map_eq_some_iff.mp hx
    refine View.Sweeping.resume ?_ a resume
    exact .of_calm rfl (RemoteReturns.calm_pushBatch hy)
  | excess c max resume =>
    obtain ⟨x, hx, rfl⟩ := Option.map_eq_some_iff.mp h
    obtain ⟨y, hy, rfl⟩ := Option.map_eq_some_iff.mp hx
    exact .of_calm rfl (LocalClassCache.calm_popBatch hy)
  | returning c batch resume =>
    obtain ⟨x, hx, rfl⟩ := Option.map_eq_some_iff.mp h
    refine View.Sweeping.resume ?_ a resume
    exact .of_central (CentralPool.sweeping_returnBatch hp hx)
  | _ =>
    obtain rfl := Option.some.inj h
    exact .of_calm rfl (.refl _ _)

theorem View.startAllocate_sweeping (v : View ι κ FreeList Batch) (a : ι) (size : Nat) :
    v.Sweeping (v.startAllocate a size) := by
  rcases v.startAllocate_cases a size with h | ⟨pc, h, -⟩
  · rw [h]
    exact .of_calm rfl (.refl _ _)
  · rw [h]
    exact .of_calm rfl (.refl _ _)

theorem View.startFree_sweeping (debug : Bool) (v : View ι κ FreeList Batch) (a : ι)
    (entry : Live ι κ) (rest : List (Live ι κ)) (expectedSize : Option Nat) :
    v.Sweeping (v.startFree debug a entry rest expectedSize) := by
  unfold View.startFree
  split
  · exact .of_calm rfl (.refl _ _)
  · exact .of_calm rfl (.of_writesIn (writesIn_mark ..))
  · exact .of_calm rfl (.refl _ _)

/-- In the step from `w` to `w'` the sweep of epoch `e` gives up pages of slab `id` of class `c`,
and of no other slab of the system. -/
def World.GivesUp (w w' : World ι κ FreeList Batch) (a : ι) (c : SizeClass) (e id : Nat) : Prop :=
  ClassPool.GivesUp ((w.allocators a).central.lists c) w.mem ((w'.allocators a).central.lists c)
    w'.mem e id

/-- What a step does to the class pools and to the reclaimable pages. -/
structure World.Sweeping (w w' : World ι κ FreeList Batch) : Prop where
  since : ∀ a c, ClassPool.Since ((w.allocators a).central.lists c)
    ((w'.allocators a).central.lists c)
  gives : (∀ y, w'.mem.lazyAt y = true → w.mem.lazyAt y = true) ∨ ∃ a c e id, w.GivesUp w' a c e id

variable {w w' : World ι κ FreeList Batch} {a : ι} {k : κ} {debug : Bool}

theorem World.Sweeping.of_same (hallocators : w'.allocators = w.allocators)
    (hlazy : ∀ y, w'.mem.lazyAt y = true → w.mem.lazyAt y = true) : w.Sweeping w' :=
  ⟨fun _ _ => hallocators ▸ .refl _, Or.inl hlazy⟩

variable [DecidableEq ι] [DecidableEq κ]

theorem World.Sweeping.update {v : View ι κ FreeList Batch} (h : (w.view a k).Sweeping v) :
    w.Sweeping (w.update a k v) := by
  refine ⟨fun b c => ?_, h.gives.imp_right fun hgives => ?_⟩
  · by_cases hb : b = a
    · subst hb
      rw [World.update_allocators_same]
      exact h.since c
    · rw [World.update_allocators_ne _ _ hb]
      exact .refl _
  · obtain ⟨c, e, id, hgives⟩ := hgives
    refine ⟨a, c, e, id, ?_⟩
    rw [World.GivesUp, World.update_allocators_same]
    exact hgives

theorem World.Sweeping.call {start : View ι κ FreeList Batch → View ι κ FreeList Batch}
    (hstart : ∀ v : View ι κ FreeList Batch, v.Sweeping (start v))
    (h : w.call k a start = some w') : w.Sweeping w' := by
  unfold World.call at h
  split at h
  · cases h
  · split at h
    · obtain rfl := Option.some.inj h
      exact .update (.of_calm rfl (.refl _ _))
    · rename_i cache hcache
      obtain rfl := Option.some.inj h
      have hview := hstart ((w.view a k).setCache cache)
      exact .update ⟨hview.since, hview.gives⟩

theorem World.step_sweeping (hp : 0 < w.mem.pageSize) {action : Action ι κ}
    (h : w.step debug action = some w') : w.Sweeping w' := by
  cases action with
  | allocate k a size => exact .call (fun v => View.startAllocate_sweeping v a size) h
  | deallocate k a i expectedSize =>
    obtain ⟨entry, -, h⟩ := Option.bind_eq_some_iff.mp h
    exact .call (fun v => View.startFree_sweeping debug v a entry _ expectedSize) h
  | drain k a =>
    have hgoto : ∀ v : View ι κ FreeList Batch, v.Sweeping (v.goto a (.flush SizeClass.all)) :=
      fun v => .of_calm rfl (.refl _ v.mem)
    exact .call hgoto h
  | run k advised =>
    simp only [World.step] at h
    split at h
    · cases h
    · obtain ⟨v, hv, rfl⟩ := Option.map_eq_some_iff.mp h
      exact .update (View.next_sweeping hp hv)
  | store i offset value =>
    obtain ⟨entry, -, h⟩ := Option.bind_eq_some_iff.mp h
    split at h
    · obtain rfl := Option.some.inj h
      exact .of_same rfl fun y hy => Mem.write_lazyAt_le hy
    · cases h
  | discard page =>
    simp only [World.step] at h
    split at h
    · obtain rfl := Option.some.inj h
      exact .of_same rfl fun y hy => hy
    · cases h

/-! ### Runs -/

variable {setup : Setup ι κ} {s : World ι κ Seq Seq} {c : SizeClass}

theorem Setup.Reachable.pageSize_pos (h : setup.Reachable w) : 0 < w.mem.pageSize := by
  obtain ⟨s, hs, hrefines⟩ := h.refines
  rw [hrefines.agree.pageSize, hs.inv.parts.pageSize_eq]
  obtain ⟨n, hn⟩ := setup.pageSize_isPowerOfTwo
  rw [hn]
  exact Nat.two_pow_pos n

theorem Setup.Reachable.since (h : setup.Reachable w) {actions : List (Action ι κ)}
    (hruns : w.runs setup.debug actions = some w') (a : ι) (c : SizeClass) :
    ClassPool.Since ((w.allocators a).central.lists c) ((w'.allocators a).central.lists c) := by
  induction actions generalizing w with
  | nil =>
    obtain rfl := Option.some.inj hruns
    exact .refl _
  | cons action actions ih =>
    obtain ⟨w₁, hstep, hrest⟩ := Option.bind_eq_some_iff.mp hruns
    exact ((World.step_sweeping h.pageSize_pos hstep).since a c).trans
      (ih (h.step action hstep) hrest)

/-- The bytes of a slab that is whole in the pool are no one else's. -/
theorem Inv.full_apart (inv : Inv setup s) {slab : SlabRecord Seq}
    (hslab : slab ∈ ((s.allocators a).central.lists c).slabs) (hhot : slab.state = .fullHot)
    {y : Nat} (hlo : slab.start ≤ y) (hhi : y < slab.endAddr) {p : Place ι κ} {x : Cell ι}
    (hx : x ∈ s.own setup p) (hp : p ≠ .full a c) : ¬(x.lo ≤ y ∧ y < x.hi) := by
  rintro ⟨h1, h2⟩
  have hend := (((inv.parts.allocator a).central c).pool.slab_ok slab hslab).end_eq
  obtain ⟨b, hb, hb1, hb2⟩ := exists_block hlo (hend ▸ hhi)
  have hblocks : slab.fullBlocks = slab.blocks := by
    simp [SlabRecord.fullBlocks, SlabState.isFull, hhot]
  have hfull : setup.smallCell a c b ∈ s.own setup (.full a c) := by
    refine setup.smallCell_mem (BagSum.mem_total.mpr ⟨slab, hslab, ?_⟩)
    rw [hblocks]
    exact hb
  have hsize := (inv.parts.allocator a).blockSize_eq c slab.shape (List.mem_map_of_mem hslab)
  have hsize : slab.blockSize = (setup.config a).classBlockSize c := hsize
  have hapart := inv.ledger.apart.of_ne hp hx hfull
  simp only [Cell.Apart, Setup.smallCell] at hapart
  omega

/-- A slab that is idle has no live allocation. -/
theorem Setup.Reachable.idle_apart (h : setup.Reachable w) {e id y : Nat}
    (hidle : ((w.allocators a).central.lists c).Idle e id y) {entry : Live ι κ}
    (hentry : entry ∈ w.live) :
    ¬(blockStartFromUserPtr entry.ptr ≤ y ∧ y < entry.ptr + entry.size) := by
  rintro ⟨h1, h2⟩
  obtain ⟨s, hs, hrefines⟩ := h.refines
  obtain ⟨slab, hslab, hhot, -, hlo, hhi⟩ := hidle
  have hlist : (w.allocators a).central.lists c =
      ((s.allocators a).central.lists c).map FreeList.ofSeq := by
    rw [hrefines.code]
    rfl
  rw [hlist] at hslab
  obtain ⟨slab', hslab', rfl⟩ := List.mem_map.mp (List.mem_of_getElem? hslab)
  have hentry : entry ∈ s.live := hrefines.live_eq ▸ hentry
  have hentry : entry ∈ s.entries none := hentry
  obtain ⟨p, x, hx⟩ : ∃ p x, CellOf setup s entry p x := hs.inv.exists_cell hentry
  refine hs.inv.full_apart hslab' hhot hlo hhi hx.mem ?_ ⟨hx.lo_eq ▸ h1, ?_⟩
  · rcases hx.place with rfl | rfl <;> simp
  · exact Nat.lt_of_lt_of_le h2 hx.le_hi

/-- Pages are given up with restraint.  The bytes that a step makes reclaimable are all of one slab,
given up by a sweep in an epoch that is due; in every state since the last operations of its class
before that, the slab was whole in the pool and had no live allocation; and the next slab of the
class is given up an interval later at the earliest. -/
theorem Setup.Reachable.reclaims_idle (h : setup.Reachable w) {action : Action ι κ}
    (hstep : w.step setup.debug action = some w') {x : Nat} (hlazy : w'.mem.lazyAt x = true)
    (hnew : w.mem.lazyAt x = false) : ∃ a c e id, w.GivesUp w' a c e id ∧
      (∀ w₀ actions, setup.Reachable w₀ → w₀.runs setup.debug actions = some w →
        e ≤ ((w₀.allocators a).central.lists c).epoch + coldEpochs →
        ∀ y, w'.mem.lazyAt y = true → w.mem.lazyAt y = false →
          ((w₀.allocators a).central.lists c).Idle e id y ∧
            ∀ entry ∈ w₀.live,
              ¬(blockStartFromUserPtr entry.ptr ≤ y ∧ y < entry.ptr + entry.size)) ∧
      ∀ w₁ actions w₂ e' id', w'.runs setup.debug actions = some w₁ →
        w₁.GivesUp w₂ a c e' id' → e + sweepInterval ≤ e' := by
  rcases (World.step_sweeping h.pageSize_pos hstep).gives with hcalm | ⟨a, c, e, id, hgives⟩
  · exact absurd (hcalm x hlazy) (by simp [hnew])
  · refine ⟨a, c, e, id, hgives, fun w₀ actions h₀ hruns he y hy hold => ?_,
      fun w₁ actions w₂ e' id' hruns hgives' => ?_⟩
    · have hidle := (h₀.since hruns a c).idle (hgives.idle y hy hold) he
      exact ⟨hidle, fun entry hentry => h₀.idle_apart hidle hentry⟩
    · have hepoch := ((h.step action hstep).since hruns a c).epoch_le
      obtain ⟨i, hi⟩ := hgives.due
      obtain ⟨j, hj⟩ := hgives'.due
      have hle := hgives.le
      have hlt := hgives'.lt
      have hij : i < j := by
        unfold sweepInterval at hi hj
        omega
      rw [hi, hj, ← Nat.mul_succ]
      exact Nat.mul_le_mul_left _ hij

end Code

theorem sampleCold_run :
    ((sampleReclaim.world FreeList Batch).runs true (sampleCold.take 252)).isSome := by
  decide +kernel

/-- All slabs of `sampleCold` are in the pool but the last one, whose return is the 64th
operation. -/
def sampleHot : World Unit (Fin 2) FreeList Batch :=
  sampleReclaim.after (sampleCold.take 252) sampleCold_run

theorem reclaims_idle_sample : ∃ w', sampleHot.step true (.run 0 (true, true)) = some w' ∧
    sampleHot.mem.lazyAt 4224 = false ∧ w'.mem.lazyAt 4224 = true ∧
      ∃ c e id, sampleHot.GivesUp w' () c e id := by
  obtain ⟨w', hw', hlazy⟩ : ∃ w', sampleHot.step true (.run 0 (true, true)) = some w' ∧
      w'.mem.lazyAt 4224 = true := (Option.any_eq_true _ _).mp (by decide +kernel)
  have hnew : sampleHot.mem.lazyAt 4224 = false := by decide +kernel
  obtain ⟨a, c, e, id, hgives, -⟩ :=
    (sampleReclaim.after_reachable sampleCold_run).reclaims_idle hw' hlazy hnew
  exact ⟨w', hw', hnew, hlazy, c, e, id, hgives⟩

end Orthotope
