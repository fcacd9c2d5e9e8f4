import Orthotope.PoolLocks

/-! What holds while the locks of a class change hands: who holds a lock, where each block is, and
how far each call has come.  One lemma says what a thread does that need not wait: its work is
defined, and it is a step of a call that takes effect where it takes the inbox out. -/

namespace Orthotope

open ByteMemory LinkedChain Linearization

/-! ### Sections -/

section Sections

variable {pool pool₁ : ClassPool Seq} {call : PoolCall Seq} {pending : Seq} {m m₁ : Mem}

/-- To fold an empty batch in is to return it. -/
theorem foldPending_eq {L B : Type} [BlockStore L B] {pool : ClassPool L} {pending : B}
    (h : BlockStore.batchIsEmpty L pending = true → BlockStore.batchLen L pending = 0) (m : Mem)
    (advised : Bool) : pool.foldPending m advised pending = pool.returnBatch m advised pending := by
  by_cases hempty : BlockStore.batchIsEmpty L pending = true
  · rw [ClassPool.foldPending, if_pos hempty, ClassPool.returnBatch, if_pos (h hempty)]
  · rw [ClassPool.foldPending, if_neg hempty]

theorem seq_foldPending (m : Mem) (advised : Bool) :
    pool.foldPending m advised pending = pool.returnBatch m advised pending :=
  foldPending_eq (fun h => List.length_eq_zero_iff.mpr (List.isEmpty_iff.mp h)) m advised

theorem ofSeq_foldPending {pool : ClassPool FreeList} (m : Mem) (advised : Bool) :
    pool.foldPending m advised (Batch.ofSeq pending) =
      pool.returnBatch m advised (Batch.ofSeq pending) := by
  refine foldPending_eq (fun h => ?_) m advised
  rw [batchIsEmpty_ofSeq] at h
  rw [batchLen_ofSeq, List.isEmpty_iff.mp h, List.length_nil]

theorem serve_defined (inv : pool.Inv) (hcall : call.drains = true)
    (hmem : ∀ l ∈ call.batch?, ∀ b ∈ l, ∃ slab ∈ pool.slabs, b ∈ slab.blocks)
    (hnd : ∀ l ∈ call.batch?, ((l : Multiset Nat) + pool.bag).Nodup) (m : Mem) :
    ∃ r, pool.serve m call = some r := by
  cases call with
  | returnBatch advised batch =>
    obtain ⟨pool', range, hrun, -⟩ :=
      ClassPool.returnBatch_spec inv batch (hmem batch rfl) (hnd batch rfl) m advised.2
    exact ⟨_, by rw [ClassPool.serve, hrun, Option.map_some]⟩
  | takeRefill advised max =>
    rcases Nat.eq_zero_or_pos max with rfl | hmax
    · exact ⟨_, rfl⟩
    · obtain ⟨pool', refill, range, hrun, -⟩ :=
        ClassPool.takeRefill_spec inv hmax m advised.2
      exact ⟨_, by rw [ClassPool.serve, hrun, Option.map_some]⟩
  | _ => cases hcall

theorem inbox_pushBatch (inbox : RemoteReturns Seq) (m : Mem) (batch : Seq) :
    inbox.pushBatch m batch =
      some (m, ⟨batch ++ inbox.pending, inbox.pendingLen + batch.length⟩) := by
  cases batch with
  | nil => rfl
  | cons b batch => rfl

theorem Alike.snd {R : Type} {x y : Option (Mem × R)} (h : Option.Rel Alike x y) :
    y.map Prod.snd = x.map Prod.snd := by
  cases h with
  | none => rfl
  | some hpq => exact congrArg some hpq.1

end Sections

/-! ### Phases -/

namespace LockThread

/-- What is left of a call that has taken the inbox out: the pool that it leaves, and its answer. -/
def rest (pageSize : Nat) (pool : ClassPool Seq) :
    LockThread Seq → Option (ClassPool Seq × PoolAnswer Seq)
  | taken call pending =>
    ((pool.foldPending (Mem.zero pageSize) call.advisedFold pending).bind fun r =>
      r.2.serve r.1 call).map Prod.snd
  | folded call => (pool.serve (Mem.zero pageSize) call).map Prod.snd
  | _ => none

/-- A call takes effect when it takes the inbox out, and otherwise when it is answered. -/
def phase (pageSize : Nat) (pool : ClassPool Seq) :
    LockThread Seq → Phase (PoolCall Seq) (PoolAnswer Seq)
  | idle last => .idle last
  | entering call | entered call | opened call => .pending call
  | counted _ | reading _ => .pending .blockCount
  | taken call pending =>
    ((taken call pending).rest pageSize pool).elim (.pending call) fun r => .done call r.2
  | folded call => ((folded call).rest pageSize pool).elim (.pending call) fun r => .done call r.2

/-- The pool as it will be when the thread unlocks it. -/
def settled (pageSize : Nat) (pool : ClassPool Seq) (thread : LockThread Seq) : ClassPool Seq :=
  (thread.rest pageSize pool).elim pool Prod.fst

/-- The calls that go that way, and what has been counted. -/
def Staged (pool : ClassPool Seq) : LockThread Seq → Prop
  | idle _ | entering _ => True
  | entered (.publishRemoteBatch _) => False
  | entered _ => True
  | opened (.publishRemoteBatch _) => True
  | opened call | taken call _ | folded call => call.drains = true
  | counted n | reading n => n = pool.centralBlockCount

/-- What is left does not change when the pending batch is folded in. -/
theorem rest_taken {m m₁ : Mem} {pool pool₁ : ClassPool Seq} {call : PoolCall Seq} {pending : Seq}
    (hfold : pool.foldPending m call.advisedFold pending = some (m₁, pool₁))
    (hp : m₁.pageSize = m.pageSize) :
    (taken call pending).rest m.pageSize pool = (folded call).rest m.pageSize pool₁ := by
  obtain ⟨m', hfold', hp'⟩ := Alike.of_some
    (foldPending_alike (show (Mem.zero m.pageSize).pageSize = m.pageSize from rfl) _) hfold
  have hp'' : m'.pageSize = (Mem.zero m.pageSize).pageSize := hp'.trans hp
  simp only [rest, hfold', Option.bind_some]
  exact Alike.snd (serve_alike hp'' call)

theorem rest_of_serve {pageSize : Nat} {m m' : Mem} {pool : ClassPool Seq} {call : PoolCall Seq}
    {r : ClassPool Seq × PoolAnswer Seq} (hp : m.pageSize = pageSize)
    (h : pool.serve m call = some (m', r)) : (folded call).rest pageSize pool = some r := by
  have hp' : (Mem.zero pageSize).pageSize = m.pageSize := hp.symm
  obtain ⟨m₁, h, -⟩ := Alike.of_some (serve_alike hp' call) h
  rw [rest, h, Option.map_some]

theorem not_holds_idle {last : Option (PoolAnswer Seq)} {lock : PoolLock} :
    (idle last : LockThread Seq).holds lock ≠ true := by
  intro h
  cases lock <;> cases h

theorem rest_of_holds {pageSize : Nat} {pool : ClassPool Seq} {thread : LockThread Seq}
    (h : thread.holds .pool = false) : thread.rest pageSize pool = none := by
  cases thread with
  | taken call pending => cases h
  | folded call => cases h
  | _ => rfl

theorem settled_of_holds {pageSize : Nat} {pool : ClassPool Seq} {thread : LockThread Seq}
    (h : thread.holds .pool = false) : thread.settled pageSize pool = pool := by
  rw [settled, rest_of_holds h]
  rfl

/-- Only a thread that has locked the pool looks at it. -/
theorem phase_pool {pageSize : Nat} {pool pool' : ClassPool Seq} {thread : LockThread Seq}
    (h : thread.holds .pool = false) :
    thread.phase pageSize pool' = thread.phase pageSize pool := by
  cases thread with
  | taken call pending => cases h
  | folded call => cases h
  | _ => rfl

theorem Staged.pool {pool pool' : ClassPool Seq} {thread : LockThread Seq} (h : thread.Staged pool)
    (hholds : thread.holds .pool = false) : thread.Staged pool' := by
  cases thread with
  | counted n => cases hholds
  | reading n => cases hholds
  | idle last => trivial
  | entering call => trivial
  | entered call => cases call <;> exact h
  | opened call => cases call <;> exact h
  | taken call pending => exact h
  | folded call => exact h

end LockThread

namespace PoolRace

variable {κ : Type}

def phase (race : PoolRace κ Seq Seq) (k : κ) : Phase (PoolCall Seq) (PoolAnswer Seq) :=
  (race.threads k).phase race.mem.pageSize race.pool

/-- The pool and the inbox, with the calls that have taken effect carried out. -/
def value (race : PoolRace κ Seq Seq) : ClassPool Seq × RemoteReturns Seq :=
  ((race.holder .pool).elim race.pool fun k =>
    (race.threads k).settled race.mem.pageSize race.pool, race.inbox)

/-! ### The invariant -/

structure Inv (race : PoolRace κ Seq Seq) : Prop where
  pool : race.pool.Inv
  inbox : race.inbox.Ok
  woven : Woven race.mem (race.inbox.pending :: race.pool.freeLists)
  page : 0 < race.mem.pageSize
  linkable : ∀ shape ∈ race.pool.shapes,
    ∀ b ∈ slabBlocks shape.1 shape.2.2.1 shape.2.2.2, Linkable b
  known : ∀ b ∈ race.stock, ∃ slab ∈ race.pool.slabs, b ∈ slab.blocks
  registered : ∀ k, ∀ b ∈ (race.threads k).hand, ∃ slab ∈ race.pool.slabs, b ∈ slab.blocks
  linked : ∀ k, ∀ l ∈ (race.threads k).batches, Linked race.mem l
  stock : race.stock.Nodup
  whole : ∀ k, ((race.threads k).hand + race.stock).Nodup
  apart : ∀ j k, j ≠ k → ∀ b ∈ (race.threads j).hand, b ∉ (race.threads k).hand
  fresh : ∀ k, ∀ span ∈ (race.threads k).span?, race.pool.Registrable span
  spans : ∀ j k, j ≠ k → ∀ span ∈ (race.threads j).span?, ∀ span' ∈ (race.threads k).span?,
    SpansApart span span'
  locks : ∀ lock k, race.holder lock = some k ↔ (race.threads k).holds lock = true
  staged : ∀ k, (race.threads k).Staged race.pool

variable {race : PoolRace κ Seq Seq} {k : κ} {mem : Mem} {pool : ClassPool Seq}
  {inbox : RemoteReturns Seq} {thread : LockThread Seq}

theorem Inv.linkable_of_known (inv : race.Inv) {b : Nat}
    (h : ∃ slab ∈ race.pool.slabs, b ∈ slab.blocks) : Linkable b := by
  obtain ⟨slab, hslab, hb⟩ := h
  exact inv.linkable slab.shape (List.mem_map_of_mem hslab) b hb

theorem mem_stock_of_freeLists {b : Nat} (h : b ∈ race.pool.freeLists.flatten) :
    b ∈ race.stock := by
  refine Multiset.mem_add.mpr (Or.inr (Multiset.mem_add.mpr (Or.inl ?_)))
  rw [← ClassPool.coe_flatten_freeLists]
  exact h

/-- What a thread does between its locks. -/
structure Worked (race : PoolRace κ Seq Seq) (k : κ) (mem : Mem) (pool : ClassPool Seq)
    (inbox : RemoteReturns Seq) (thread : LockThread Seq) : Prop where
  pool_inv : pool.Inv
  inbox_ok : inbox.Ok
  woven : Woven mem (inbox.pending :: pool.freeLists)
  page : mem.pageSize = race.mem.pageSize
  shapes : ∀ shape ∈ race.pool.shapes, shape ∈ pool.shapes
  linkable : ∀ shape ∈ pool.shapes, shape ∈ race.pool.shapes ∨
    ∀ b ∈ slabBlocks shape.1 shape.2.2.1 shape.2.2.2, Linkable b
  fresh : ∀ span, race.pool.Registrable span →
    (∀ span' ∈ (race.threads k).span?, SpansApart span' span) → pool.Registrable span
  stock : thread.hand + ((inbox.pending : Multiset Nat) + pool.bag) ≤
    (race.threads k).hand + race.stock
  linked : ∀ l ∈ thread.batches, Linked mem l
  next : ∀ b, Linkable b → b ∉ (race.threads k).hand + race.stock →
    readSmallFreeListNext mem b = readSmallFreeListNext race.mem b
  span : thread.span? = none
  staged : thread.Staged pool
  holds : ∀ lock, thread.holds lock = true → (race.threads k).holds lock = true
  same : (race.threads k).holds .pool = true ∨ pool = race.pool

theorem slabBlocks_of_shapes_subset {pool' : ClassPool Seq}
    (h : ∀ shape ∈ pool.shapes, shape ∈ pool'.shapes) {b : Nat}
    (hb : ∃ slab ∈ pool.slabs, b ∈ slab.blocks) : ∃ slab ∈ pool'.slabs, b ∈ slab.blocks := by
  obtain ⟨slab, hslab, hb⟩ := hb
  obtain ⟨slab', hslab', heq⟩ := List.mem_map.mp (h slab.shape (List.mem_map_of_mem hslab))
  refine ⟨slab', hslab', ?_⟩
  simp only [SlabRecord.shape, Prod.mk.injEq] at heq
  simpa [SlabRecord.blocks, heq.1, heq.2.2.1, heq.2.2.2] using hb

theorem Inv.mem_of_worked (inv : race.Inv) (h : Worked race k mem pool inbox thread) {b : Nat}
    (hb : b ∈ (race.threads k).hand + race.stock) : ∃ slab ∈ pool.slabs, b ∈ slab.blocks :=
  slabBlocks_of_shapes_subset h.shapes
    ((Multiset.mem_add.mp hb).elim (inv.registered k b) (inv.known b))

/-- A thread that others leave alone has nothing in common with one that works. -/
theorem Inv.hand_apart (inv : race.Inv) {j : κ} (hj : j ≠ k) {b : Nat}
    (hb : b ∈ (race.threads j).hand) : b ∉ (race.threads k).hand + race.stock := by
  intro hmem
  rcases Multiset.mem_add.mp hmem with h | h
  · exact inv.apart j k hj b hb h
  · exact Multiset.disjoint_left.mp (Multiset.nodup_add.mp (inv.whole j)).2.2 hb h

/-- The state after the work of `k`. -/
def worked [DecidableEq κ] (race : PoolRace κ Seq Seq) (k : κ) (mem : Mem) (pool : ClassPool Seq)
    (inbox : RemoteReturns Seq) (thread : LockThread Seq) : PoolRace κ Seq Seq where
  mem := mem
  pool := pool
  inbox := inbox
  holder := fun lock =>
    if race.holder lock = some k ∧ thread.holds lock = false then none else race.holder lock
  threads := Function.update race.threads k thread

section Work

variable [DecidableEq κ]

@[simp] theorem worked_same : (race.worked k mem pool inbox thread).threads k = thread :=
  Function.update_self ..

theorem worked_ne {j : κ} (h : j ≠ k) :
    (race.worked k mem pool inbox thread).threads j = race.threads j :=
  Function.update_of_ne h ..

theorem Inv.worked (inv : race.Inv) (h : Worked race k mem pool inbox thread) :
    (race.worked k mem pool inbox thread).Inv := by
  have hstock : ∀ b ∈ (race.worked k mem pool inbox thread).stock,
      b ∈ (race.threads k).hand + race.stock := fun b hb =>
    Multiset.mem_of_le h.stock (Multiset.mem_add.mpr (Or.inr hb))
  have hhand : ∀ b ∈ thread.hand, b ∈ (race.threads k).hand + race.stock := fun b hb =>
    Multiset.mem_of_le h.stock (Multiset.mem_add.mpr (Or.inl hb))
  have hwhole : (thread.hand + (race.worked k mem pool inbox thread).stock).Nodup :=
    Multiset.nodup_of_le h.stock (inv.whole k)
  have hnodup := (Multiset.nodup_add.mp hwhole).2.1
  have hfree : ∀ j, j ≠ k → race.holder .pool = some j → pool = race.pool := by
    intro j hj hlock
    refine h.same.resolve_left fun hk => hj ?_
    exact Option.some.inj (hlock.symm.trans ((inv.locks .pool k).mpr hk))
  refine ⟨h.pool_inv, h.inbox_ok, h.woven, h.page ▸ inv.page, fun shape hshape => ?_,
    fun b hb => inv.mem_of_worked h (hstock b hb), fun j b hb => ?_, fun j l hl => ?_, hnodup,
    fun j => ?_, fun i j hij b hi hj => ?_, fun j span hspan => ?_,
    fun i j hij span hi span' hj => ?_,
    fun lock j => ?_, fun j => ?_⟩
  · exact (h.linkable shape hshape).elim (inv.linkable shape) id
  · by_cases hj : j = k
    · subst hj
      rw [worked_same] at hb
      exact inv.mem_of_worked h (hhand b hb)
    · rw [worked_ne hj] at hb
      exact slabBlocks_of_shapes_subset h.shapes (inv.registered j b hb)
  · by_cases hj : j = k
    · subst hj
      rw [worked_same] at hl
      exact h.linked l hl
    · rw [worked_ne hj] at hl
      refine (inv.linked j l hl).congr fun b hb => ?_
      have hb : b ∈ (race.threads j).hand := List.mem_flatten.mpr ⟨l, hl, hb⟩
      exact h.next b (inv.linkable_of_known (inv.registered j b hb)) (inv.hand_apart hj hb)
  · by_cases hj : j = k
    · subst hj
      rw [worked_same]
      exact hwhole
    · rw [worked_ne hj]
      refine Multiset.nodup_add.mpr ⟨(Multiset.nodup_add.mp (inv.whole j)).1, hnodup, ?_⟩
      exact Multiset.disjoint_left.mpr fun hb hs => inv.hand_apart hj hb (hstock _ hs)
  · by_cases hi' : i = k
    · subst hi'
      rw [worked_same] at hi
      rw [worked_ne (Ne.symm hij)] at hj
      exact inv.hand_apart (Ne.symm hij) hj (hhand b hi)
    · rw [worked_ne hi'] at hi
      by_cases hj' : j = k
      · subst hj'
        rw [worked_same] at hj
        exact inv.hand_apart hi' hi (hhand b hj)
      · rw [worked_ne hj'] at hj
        exact inv.apart i j hij b hi hj
  · by_cases hj : j = k
    · subst hj
      rw [worked_same, h.span] at hspan
      cases hspan
    · rw [worked_ne hj] at hspan
      exact h.fresh span (inv.fresh j span hspan) fun span' hspan' =>
        inv.spans k j (Ne.symm hj) span' hspan' span hspan
  · by_cases hi' : i = k
    · subst hi'
      rw [worked_same, h.span] at hi
      cases hi
    · by_cases hj' : j = k
      · subst hj'
        rw [worked_same, h.span] at hj
        cases hj
      · rw [worked_ne hi'] at hi
        rw [worked_ne hj'] at hj
        exact inv.spans i j hij span hi span' hj
  · show (if race.holder lock = some k ∧ thread.holds lock = false then none
      else race.holder lock) =
      some j ↔ _
    by_cases hj : j = k
    · subst hj
      rw [worked_same]
      constructor
      · intro hlock
        split at hlock
        · cases hlock
        · rename_i hnot
          by_contra hholds
          exact hnot ⟨hlock, by simpa using hholds⟩
      · intro hholds
        rw [if_neg fun hand => by simp [hholds] at hand]
        exact (inv.locks lock j).mpr (h.holds lock hholds)
    · rw [worked_ne hj, ← inv.locks lock j]
      split
      · rename_i hnot
        rw [hnot.1]
        exact ⟨nofun, fun heq => absurd (Option.some.inj heq).symm hj⟩
      · exact Iff.rfl
  · by_cases hj : j = k
    · subst hj
      rw [worked_same]
      exact h.staged
    · rw [worked_ne hj]
      have hstaged := inv.staged j
      cases hholds : (race.threads j).holds .pool with
      | false => exact hstaged.pool hholds
      | true =>
        have hpool := hfree j hj ((inv.locks .pool j).mpr hholds)
        show (race.threads j).Staged pool
        rwa [hpool]

end Work

/-! ### The work -/

/-- What the own thread tells of its work: it has locked the pool, or leaves it alone. -/
inductive Owns (race : PoolRace κ Seq Seq) (k : κ) (pool : ClassPool Seq)
    (inbox : RemoteReturns Seq) (thread : LockThread Seq) : Prop
  | locked (hholds : (race.threads k).holds .pool = true)
      (h : (race.phase k).Does (PoolCall.Does race.mem.pageSize)
        ((race.threads k).settled race.mem.pageSize race.pool, race.inbox)
        (thread.phase race.mem.pageSize pool) (thread.settled race.mem.pageSize pool, inbox))
  | alone (hholds : (race.threads k).holds .pool = false) (hpool : pool = race.pool)
      (h : ∀ x, (race.phase k).Does (PoolCall.Does race.mem.pageSize) (x, race.inbox)
        (thread.phase race.mem.pageSize pool) (x, inbox))

/-- The work is done, and by it the part of the thread in its call. -/
def Works (race : PoolRace κ Seq Seq) (k : κ) : Prop :=
  ∃ mem pool inbox thread, work race.mem (race.pool.map FreeList.ofSeq)
      (race.inbox.map FreeList.ofSeq) ((race.threads k).map Batch.ofSeq) =
      some (mem, pool.map FreeList.ofSeq, inbox.map FreeList.ofSeq, thread.map Batch.ofSeq) ∧
    Worked race k mem pool inbox thread ∧ Owns race k pool inbox thread

/-- Work that leaves memory, pool and inbox alone. -/
theorem Inv.worked_still (inv : race.Inv) (hstock : thread.hand ≤ (race.threads k).hand)
    (hlinked : ∀ l ∈ thread.batches, l ∈ (race.threads k).batches) (hspan : thread.span? = none)
    (hstaged : thread.Staged race.pool)
    (hholds : ∀ lock, thread.holds lock = true → (race.threads k).holds lock = true) :
    Worked race k race.mem race.pool race.inbox thread where
  pool_inv := inv.pool
  inbox_ok := inv.inbox
  woven := inv.woven
  page := rfl
  shapes := fun _ h => h
  linkable := fun _ h => Or.inl h
  fresh := fun _ h _ => h
  stock := Multiset.add_le_add_right hstock
  linked := fun l hl => inv.linked k l (hlinked l hl)
  next := fun _ _ _ => rfl
  span := hspan
  staged := hstaged
  holds := hholds
  same := Or.inr rfl

theorem Inv.works_count (inv : race.Inv) (ht : race.threads k = .entered .blockCount) :
    race.Works k := by
  refine ⟨race.mem, race.pool, race.inbox, .counted race.pool.centralBlockCount, ?_,
    inv.worked_still ?_ ?_ rfl rfl ?_, .locked ?_ ?_⟩
  · rw [ht]
    simp only [LockThread.map, PoolCall.map, work, ClassPool.centralBlockCount_map]
  · exact Multiset.zero_le _
  · exact fun l hl => (List.not_mem_nil hl).elim
  · rw [ht]
    exact fun lock h => by cases lock <;> exact h
  · rw [ht]
    rfl
  · rw [phase, ht]
    exact .stay _ _

theorem Inv.works_reading (inv : race.Inv) {n : Nat} (ht : race.threads k = .reading n) :
    race.Works k := by
  have hn : n = race.pool.centralBlockCount := by
    have hstaged := inv.staged k
    rwa [ht] at hstaged
  refine ⟨race.mem, race.pool, race.inbox, .idle (some (.count (n + race.inbox.pendingLen))), ?_,
    inv.worked_still ?_ ?_ rfl trivial fun _ h => absurd h LockThread.not_holds_idle,
    .locked ?_ ?_⟩
  · rw [ht]
    rfl
  · exact Multiset.zero_le _
  · exact fun l hl => (List.not_mem_nil hl).elim
  · rw [ht]
    rfl
  · rw [phase, ht, hn]
    exact .answers does_count

/-- The inbox stays what it is when the lists of the pool change. -/
theorem Inv.woven_inbox (inv : race.Inv) {T : Nat → Prop} {mS mS' : Mem}
    (hf : Follows T race.mem mS mem mS') (hT : ∀ b ∈ race.inbox.pending, ¬T b)
    (hwoven : Woven mem pool.freeLists) (hbag : ∀ b ∈ pool.bag, b ∉ race.inbox.pending) :
    Woven mem (race.inbox.pending :: pool.freeLists) := by
  have hgood : ∀ b ∈ race.inbox.pending, Linkable b := fun b hb =>
    inv.woven.linkable b (List.mem_append_left _ hb)
  have hpending := inv.woven.linked _ List.mem_cons_self
  refine ⟨fun l hl => ?_, ?_, fun b hb => ?_⟩
  · rcases List.mem_cons.mp hl with rfl | hl
    · exact hf.linked hpending hgood hT
    · exact hwoven.linked l hl
  · refine List.nodup_append.mpr ⟨(List.nodup_append.mp inv.woven.nodup).1, hwoven.nodup, ?_⟩
    rintro x hx y hy rfl
    refine hbag x (Multiset.mem_add.mpr (Or.inl ?_)) hx
    rw [← ClassPool.coe_flatten_freeLists]
    exact hy
  · exact (List.mem_append.mp hb).elim (hgood b) (hwoven.linkable b)

/-- The pool has slabs as before, and only links of blocks in reach of `k` are new. -/
structure Rewoven (race : PoolRace κ Seq Seq) (k : κ) (mem : Mem)
    (pool : ClassPool Seq) : Prop where
  inv : pool.Inv
  shapes : pool.shapes = race.pool.shapes
  woven : Woven mem (race.inbox.pending :: pool.freeLists)
  page : mem.pageSize = race.mem.pageSize
  next : ∀ b, Linkable b → b ∉ (race.threads k).hand + race.stock →
    readSmallFreeListNext mem b = readSmallFreeListNext race.mem b

theorem registrable_of_shapes (h : pool.shapes = race.pool.shapes) {span : Nat × Nat × Nat}
    (hspan : race.pool.Registrable span) : pool.Registrable span := by
  refine ⟨hspan.1, fun slab hslab => ?_⟩
  have hmem : slab.shape ∈ race.pool.shapes := h ▸ List.mem_map_of_mem hslab
  obtain ⟨slab', hslab', heq⟩ := List.mem_map.mp hmem
  simp only [SlabRecord.shape, Prod.mk.injEq] at heq
  have hapart := hspan.2 slab' hslab'
  rwa [heq.1, heq.2.1] at hapart

/-- A thread with the lock of the pool has rewoven it. -/
theorem Inv.worked_of_rewoven (inv : race.Inv) (h : Rewoven race k mem pool)
    (hlock : (race.threads k).holds .pool = true)
    (hstock : thread.hand + pool.bag ≤ (race.threads k).hand + race.pool.bag)
    (hlinked : ∀ l ∈ thread.batches, Linked mem l) (hspan : thread.span? = none)
    (hstaged : thread.Staged pool)
    (hholds : ∀ lock, thread.holds lock = true → (race.threads k).holds lock = true) :
    Worked race k mem pool race.inbox thread where
  pool_inv := h.inv
  inbox_ok := inv.inbox
  woven := h.woven
  page := h.page
  shapes := fun _ hshape => h.shapes ▸ hshape
  linkable := fun _ hshape => Or.inl (h.shapes ▸ hshape)
  fresh := fun _ hspan _ => registrable_of_shapes h.shapes hspan
  stock := by
    rw [add_left_comm]
    apply (Multiset.add_le_add_left hstock).trans_eq
    exact (add_left_comm _ _ _)
  linked := hlinked
  next := h.next
  span := hspan
  staged := hstaged
  holds := hholds
  same := Or.inl hlock

/-- A batch in the hands of a thread goes back to the pool. -/
theorem Inv.returnBatch (inv : race.Inv) {l : Seq} (hl : l ∈ (race.threads k).batches)
    (advised : Bool) : ∃ mem m' pool,
      (race.pool.map FreeList.ofSeq).returnBatch race.mem advised (Batch.ofSeq l) =
        some (mem, pool.map FreeList.ofSeq) ∧
      race.pool.returnBatch race.mem advised l = some (m', pool) ∧
      m'.pageSize = race.mem.pageSize ∧ Rewoven race k mem pool ∧
      pool.bag = (l : Multiset Nat) + race.pool.bag ∧
      ∀ b, Linkable b → b ∉ l → readSmallFreeListNext mem b = readSmallFreeListNext race.mem b := by
  have hle : (l : Multiset Nat) ≤ (race.threads k).hand :=
    Multiset.coe_le.mpr (List.sublist_flatten_of_mem hl).subperm
  have hmem : ∀ b ∈ l, ∃ slab ∈ race.pool.slabs, b ∈ slab.blocks := fun b hb =>
    inv.registered k b (Multiset.mem_of_le hle hb)
  have hwhole : ((l : Multiset Nat) + race.stock).Nodup :=
    Multiset.nodup_of_le (Multiset.add_le_add_right hle) (inv.whole k)
  obtain ⟨hnodup, -, hdisj⟩ := Multiset.nodup_add.mp hwhole
  have hnot : ∀ b ∈ l, b ∉ race.stock := fun b hb => Multiset.disjoint_left.mp hdisj hb
  have hnd : ((l : Multiset Nat) + race.pool.bag).Nodup :=
    Multiset.nodup_of_le (Multiset.add_le_add_left (Multiset.le_add_left _ _)) hwhole
  obtain ⟨pool, range, hrun, hinv, hshapes, hbag, -, -, -⟩ :=
    ClassPool.returnBatch_spec inv.pool l hmem hnd race.mem advised
  have hnew : ∀ b ∈ l, b ∉ race.pool.freeLists.flatten := fun b hb hin =>
    hnot b hb (mem_stock_of_freeLists hin)
  obtain ⟨mem, hrunF, hwoven, -, hf⟩ := ClassPool.returnBatch_map inv.woven.tail
    (Agree.refl _ _) (inv.linked k l hl) (fun b hb => inv.linkable_of_known (hmem b hb))
    (Multiset.coe_nodup.mp hnodup) hnew hrun
  refine ⟨mem, _, pool, hrunF, hrun, ClassPool.applyAdvice_pageSize .., ⟨hinv, hshapes, ?_, ?_,
    fun b hb hnot => hf.next b hb fun h => hnot ?_⟩, hbag, hf.next⟩
  · refine inv.woven_inbox hf (fun b hb hin => hnot b hin (Multiset.mem_add.mpr (Or.inl hb)))
      hwoven fun b hb hin => ?_
    rw [hbag] at hb
    rcases Multiset.mem_add.mp hb with hb | hb
    · exact hnot b hb (Multiset.mem_add.mpr (Or.inl hin))
    · exact Multiset.disjoint_left.mp (Multiset.nodup_add.mp inv.stock).2.2 hin hb
  · rw [hf.pageSize (Agree.refl _ _), ClassPool.applyAdvice_pageSize]
  · exact Multiset.mem_add.mpr (Or.inl (Multiset.mem_of_le hle h))

/-! The thread of a call that takes the inbox out. -/

theorem work_opened {m m' : Mem} {pool : ClassPool FreeList} {inbox inbox' : RemoteReturns FreeList}
    {call : PoolCall Seq} (hcall : call.drains = true) {pending : Batch}
    (h : inbox.takePending m = some (m', pending, inbox')) :
    work m pool inbox ((LockThread.opened call).map Batch.ofSeq) =
      some (m', pool, inbox', .taken (call.map Batch.ofSeq) pending) := by
  cases call with
  | returnBatch advised batch => simp only [LockThread.map, PoolCall.map, work, h, Option.map_some]
  | takeRefill advised max => simp only [LockThread.map, PoolCall.map, work, h, Option.map_some]
  | _ => cases hcall

theorem holds_opened {call : PoolCall Seq} (hcall : call.drains = true) (lock : PoolLock) :
    (LockThread.opened call).holds lock = true := by
  cases call with
  | publishRemoteBatch batch => cases hcall
  | _ => cases lock <;> rfl

/-- The last section of a call whose batch is still in hand. -/
theorem Inv.serves (inv : race.Inv) {call : PoolCall Seq} (hcall : call.drains = true)
    (hhand : ∀ l ∈ call.batch?, (l : Multiset Nat) ≤ (race.threads k).hand)
    (hpool : pool.Inv) (hshapes : pool.shapes = race.pool.shapes)
    (hbag : ∀ l ∈ call.batch?, (l : Multiset Nat) + pool.bag ≤ (race.threads k).hand + race.stock)
    (m : Mem) : ∃ m' pool' answer, pool.serve m call = some (m', pool', answer) := by
  have hmem : ∀ l ∈ call.batch?, ∀ b ∈ l, ∃ slab ∈ pool.slabs, b ∈ slab.blocks := by
    intro l hl b hb
    refine slabBlocks_of_shapes_subset (fun shape h => hshapes ▸ h) ?_
    exact inv.registered k b (Multiset.mem_of_le (hhand l hl) hb)
  obtain ⟨⟨m', pool', answer⟩, hserve⟩ := serve_defined hpool hcall hmem
    (fun l hl => Multiset.nodup_of_le (hbag l hl) (inv.whole k)) m
  exact ⟨m', pool', answer, hserve⟩

theorem phase_folded {pageSize : Nat} {call : PoolCall Seq} {pool' : ClassPool Seq}
    {answer : PoolAnswer Seq}
    (h : (LockThread.folded call).rest pageSize pool = some (pool', answer)) :
    (LockThread.folded call).phase pageSize pool = .done call answer := by
  rw [LockThread.phase, h, Option.elim_some]

theorem phase_taken {pageSize : Nat} {call : PoolCall Seq} {pending : Seq} {pool' : ClassPool Seq}
    {answer : PoolAnswer Seq}
    (h : (LockThread.taken call pending).rest pageSize pool = some (pool', answer)) :
    (LockThread.taken call pending).phase pageSize pool = .done call answer := by
  rw [LockThread.phase, h, Option.elim_some]

theorem settled_of_rest {pageSize : Nat} {pool' : ClassPool Seq} {answer : PoolAnswer Seq}
    (h : thread.rest pageSize pool = some (pool', answer)) :
    thread.settled pageSize pool = pool' := by
  rw [LockThread.settled, h, Option.elim_some]

/-- A call takes the inbox out, and effect by that. -/
theorem Inv.works_take (inv : race.Inv) {call : PoolCall Seq} (hcall : call.drains = true)
    (ht : race.threads k = .opened call) : race.Works k := by
  have hpending : Linked race.mem race.inbox.pending := inv.woven.linked _ List.mem_cons_self
  have hgood : ∀ b ∈ race.inbox.pending, Linkable b := fun b hb =>
    inv.woven.linkable b (List.mem_append_left _ hb)
  have htake := RemoteReturns.takePending_spec inv.inbox race.mem
  obtain ⟨-, mem, htakeF, hlinked, -, -, hf⟩ := RemoteReturns.takePending_map hpending hgood
    (List.nodup_append.mp inv.woven.nodup).1 htake
  have hhand : (race.threads k).hand = (call.batch?.toList.flatten : Multiset Nat) := by
    rw [ht]
    rfl
  have hin : ∀ b ∈ race.inbox.pending, b ∈ race.stock := fun b hb =>
    Multiset.mem_add.mpr (Or.inl hb)
  have hout : ∀ b ∈ (race.threads k).hand, b ∉ race.inbox.pending := fun b hb h =>
    Multiset.disjoint_left.mp (Multiset.nodup_add.mp (inv.whole k)).2.2 hb (hin b h)
  -- what the call is going to do
  obtain ⟨pool₁, range, hreturn, hpool₁, hshapes, hbag, -⟩ := ClassPool.returnBatch_spec inv.pool
    race.inbox.pending (fun b hb => inv.known b (hin b hb)) inv.stock race.mem call.advisedFold
  have hfold := (seq_foldPending race.mem call.advisedFold).trans hreturn
  have hpage := ClassPool.applyAdvice_pageSize race.mem range
  have hle : ∀ l ∈ call.batch?, (l : Multiset Nat) ≤ (race.threads k).hand := by
    intro l hl
    rw [hhand, hl]
    simp
  obtain ⟨m₂, pool₂, answer, hserve⟩ := inv.serves hcall hle hpool₁ hshapes
    (fun l hl => by rw [hbag]; exact Multiset.add_le_add_right (hle l hl))
    (ClassPool.applyAdvice race.mem range)
  have hrest := (LockThread.rest_taken hfold hpage).trans (LockThread.rest_of_serve hpage hserve)
  refine ⟨mem, race.pool, ⟨[], 0⟩, .taken call race.inbox.pending, ?_, ?_, .locked ?_ ?_⟩
  · rw [ht]
    exact work_opened hcall htakeF
  · refine ⟨inv.pool, rfl, ?_, hf.pageSize (Agree.refl _ _), fun _ h => h, fun _ h => Or.inl h,
      fun _ h _ => h, ?_, fun l hl => ?_, fun b hb hnot => ?_, rfl, hcall,
      fun lock _ => ?_, Or.inr rfl⟩
    · exact (inv.woven.tail.follows hf fun b hb h => inv.woven.head_apart b h hb).cons_nil
    · rw [hhand]
      show ((race.inbox.pending ++ call.batch?.toList.flatten : List Nat) : Multiset Nat) +
        (0 + race.pool.bag) ≤ _ + ((race.inbox.pending : Multiset Nat) + race.pool.bag)
      rw [zero_add, ← Multiset.coe_add, add_comm (race.inbox.pending : Multiset Nat), add_assoc]
    · rcases List.mem_cons.mp hl with rfl | hl
      · exact hlinked
      · have hl' : l ∈ (race.threads k).batches := by
          rw [ht]
          exact hl
        have hflat : ∀ b ∈ l, b ∈ (race.threads k).hand := fun b hb =>
          List.mem_flatten.mpr ⟨l, hl', hb⟩
        exact hf.linked (inv.linked k l hl')
          (fun b hb => inv.linkable_of_known (inv.registered k b (hflat b hb)))
          fun b hb => hout b (hflat b hb)
    · exact hf.next b hb fun h => hnot (Multiset.mem_add.mpr (Or.inr (hin b h)))
    · rw [ht]
      exact holds_opened hcall lock
  · rw [ht]
    exact holds_opened hcall .pool
  · rw [phase, ht, phase_taken hrest, settled_of_rest hrest]
    exact .takes (does_drain hcall rfl inv.inbox hfold hserve)

theorem advisedFold_map (call : PoolCall Seq) :
    (call.map Batch.ofSeq).advisedFold = call.advisedFold := by
  cases call <;> rfl

/-- The pending batch goes into the pool. -/
theorem Inv.works_fold (inv : race.Inv) {call : PoolCall Seq} {pending : Seq}
    (ht : race.threads k = .taken call pending) : race.Works k := by
  have hcall : call.drains = true := by
    have hstaged := inv.staged k
    rwa [ht] at hstaged
  have hbatches : (race.threads k).batches = pending :: call.batch?.toList := by
    rw [ht]
    rfl
  have hhand : (race.threads k).hand =
      (pending : Multiset Nat) + (call.batch?.toList.flatten : Multiset Nat) := by
    rw [LockThread.hand, hbatches, List.flatten_cons, Multiset.coe_add]
  have hlock : (race.threads k).holds .pool = true := by
    rw [ht]
    rfl
  have hmem : pending ∈ (race.threads k).batches := hbatches ▸ List.mem_cons_self
  obtain ⟨mem, m', pool, hrunF, hrun, hpage, hwoven, hbag, hnext⟩ :=
    inv.returnBatch hmem call.advisedFold
  have hfold := (seq_foldPending race.mem call.advisedFold).trans hrun
  have hfoldF := (ofSeq_foldPending race.mem call.advisedFold).trans hrunF
  have hapart := (Multiset.nodup_add.mp (hhand ▸ (Multiset.nodup_add.mp (inv.whole k)).1)).2.2
  have hle : ∀ l ∈ call.batch?, (l : Multiset Nat) ≤ call.batch?.toList.flatten := by
    intro l hl
    rw [hl]
    simp
  have hrest : ∀ l ∈ call.batch?,
      (l : Multiset Nat) + pool.bag ≤ (race.threads k).hand + race.stock := by
    intro l hl
    rw [hbag, hhand, ← add_assoc, add_comm (l : Multiset Nat)]
    exact add_le_add (Multiset.add_le_add_left (hle l hl)) (Multiset.le_add_left _ _)
  obtain ⟨m₂, pool₂, answer, hserve⟩ := inv.serves hcall
    (fun l hl => hhand ▸ (hle l hl).trans (Multiset.le_add_left _ _)) hwoven.inv hwoven.shapes
    hrest m'
  have hfolded := LockThread.rest_of_serve hpage hserve
  have htaken := (LockThread.rest_taken hfold hpage).trans hfolded
  refine ⟨mem, pool, race.inbox, .folded call, ?_,
    inv.worked_of_rewoven hwoven hlock ?_ (fun l hl => ?_) rfl hcall fun lock h => ?_,
    .locked hlock ?_⟩
  · rw [ht]
    simp only [LockThread.map, work, advisedFold_map, hfoldF, Option.map_some]
  · rw [hbag, hhand, ← add_assoc, add_comm (pending : Multiset Nat)]
    exact le_rfl
  · have hl' : l ∈ (race.threads k).batches := hbatches ▸ List.mem_cons_of_mem pending hl
    refine (inv.linked k l hl').congr fun b hb => hnext b ?_ fun h => ?_
    · exact inv.linkable_of_known (inv.registered k b (List.mem_flatten.mpr ⟨l, hl', hb⟩))
    · exact Multiset.disjoint_left.mp hapart h (List.mem_flatten.mpr ⟨l, hl, hb⟩)
  · rw [ht]
    cases lock <;> exact h
  · rw [phase, ht, phase_taken htaken, phase_folded hfolded, settled_of_rest hfolded,
      settled_of_rest htaken]
    exact .stay _ _

theorem refill_blocks {mem : Mem} {refill : CentralRefill Seq}
    (h : ∀ batch, refill = .batch batch → Linked mem batch) :
    ((PoolAnswer.refill refill).map Batch.ofSeq).map (Batch.blocks mem) = .refill refill := by
  cases refill with
  | batch batch =>
    exact congrArg (fun l => PoolAnswer.refill (.batch l)) (Batch.blocks_ofSeq (h batch rfl))
  | empty => rfl
  | slab start blockSize capacity => rfl

theorem Inv.takeRefill (inv : race.Inv) {max : Nat} (hmax : 0 < max) (advised : Bool) :
    ∃ mem m' pool refill,
      (race.pool.map FreeList.ofSeq).takeRefill race.mem advised max =
        some (mem, pool.map FreeList.ofSeq, refill.map Batch.ofSeq) ∧
      race.pool.takeRefill race.mem advised max = some (m', pool, refill) ∧
      Rewoven race k mem pool ∧ pool.bag ≤ race.pool.bag ∧
      ∀ batch, refill = .batch batch → Linked mem batch := by
  obtain ⟨pool, refill, range, hrun, hinv, hshapes, hrefill, -⟩ :=
    ClassPool.takeRefill_spec inv.pool hmax race.mem advised
  obtain ⟨mem, hrunF, hwoven, hlinked, hf⟩ :=
    ClassPool.takeRefill_map inv.woven.tail (Agree.refl _ _) hrun
  have hbag : pool.bag ≤ race.pool.bag := hrefill.bag ▸ Multiset.le_add_left _ _
  have hdisj : ∀ b ∈ race.inbox.pending, b ∉ race.pool.bag := fun b hb =>
    Multiset.disjoint_left.mp (Multiset.nodup_add.mp inv.stock).2.2 hb
  refine ⟨mem, _, pool, refill, hrunF, hrun, ⟨hinv, hshapes, ?_, ?_, fun b hb hnot => ?_⟩, hbag,
    hlinked⟩
  · exact inv.woven_inbox hf inv.woven.head_apart hwoven fun b hb hin =>
      hdisj b hin (Multiset.mem_of_le hbag hb)
  · rw [hf.pageSize (Agree.refl _ _), ClassPool.applyAdvice_pageSize]
  · exact hf.next b hb fun h => hnot (Multiset.mem_add.mpr (Or.inr (mem_stock_of_freeLists h)))

/-- The last section of a call, in memory. -/
theorem Inv.serve (inv : race.Inv) {call : PoolCall Seq} (hcall : call.drains = true)
    (ht : race.threads k = .folded call) :
    ∃ mem m' pool answer,
      (race.pool.map FreeList.ofSeq).serve race.mem (call.map Batch.ofSeq) =
        some (mem, pool.map FreeList.ofSeq, answer.map Batch.ofSeq) ∧
      race.pool.serve race.mem call = some (m', pool, answer) ∧ Rewoven race k mem pool ∧
      pool.bag ≤ (race.threads k).hand + race.pool.bag ∧
      (answer.map Batch.ofSeq).map (Batch.blocks mem) = answer := by
  cases call with
  | returnBatch advised batch =>
    have hbatches : (race.threads k).batches = [batch] := by
      rw [ht]
      rfl
    have hhand : (race.threads k).hand = batch := by
      rw [LockThread.hand, hbatches, List.flatten_singleton]
    obtain ⟨mem, m', pool, hrunF, hrun, -, hwoven, hbag, -⟩ :=
      inv.returnBatch (hbatches ▸ List.mem_singleton_self batch) advised.2
    refine ⟨mem, m', pool, .unit, ?_, ?_, hwoven, hhand ▸ hbag.le, rfl⟩
    · simp only [PoolCall.map, ClassPool.serve, hrunF, Option.map_some, PoolAnswer.map]
    · simp only [ClassPool.serve, hrun, Option.map_some]
  | takeRefill advised max =>
    rcases Nat.eq_zero_or_pos max with rfl | hmax
    · exact ⟨race.mem, race.mem, race.pool, .refill .empty, rfl, rfl,
        ⟨inv.pool, rfl, inv.woven, rfl, fun _ _ _ => rfl⟩, Multiset.le_add_left _ _, rfl⟩
    · obtain ⟨mem, m', pool, refill, hrunF, hrun, hwoven, hbag, hlinked⟩ :=
        inv.takeRefill hmax advised.2
      refine ⟨mem, m', pool, .refill refill, ?_, ?_, hwoven,
        hbag.trans (Multiset.le_add_left _ _), refill_blocks hlinked⟩
      · simp only [PoolCall.map, ClassPool.serve, hrunF, Option.map_some, PoolAnswer.map]
      · simp only [ClassPool.serve, hrun, Option.map_some]
  | _ => cases hcall

/-- A call that has taken effect is answered. -/
theorem Inv.works_serve (inv : race.Inv) {call : PoolCall Seq}
    (ht : race.threads k = .folded call) :
    race.Works k := by
  have hcall : call.drains = true := by
    have hstaged := inv.staged k
    rwa [ht] at hstaged
  have hlock : (race.threads k).holds .pool = true := by
    rw [ht]
    rfl
  obtain ⟨mem, m', pool, answer, hrunF, hrun, hwoven, hbag, hanswer⟩ := inv.serve hcall ht
  have hrest := LockThread.rest_of_serve (rfl : race.mem.pageSize = race.mem.pageSize) hrun
  refine ⟨mem, pool, race.inbox, .idle (some answer), ?_,
    inv.worked_of_rewoven hwoven hlock ?_ ?_ rfl trivial fun _ h =>
      absurd h LockThread.not_holds_idle, .locked hlock ?_⟩
  · rw [ht]
    simp only [LockThread.map, work, hrunF, Option.map_some, hanswer]
  · exact (zero_add pool.bag).trans_le hbag
  · exact fun l hl => (List.not_mem_nil hl).elim
  · rw [phase, ht, phase_folded hrest, settled_of_rest hrest]
    exact .returns ..

/-- A new slab. -/
theorem Inv.works_register (inv : race.Inv) {advised : Bool} {start blockSize capacity : Nat}
    (ht : race.threads k = .entered (.registerSlab advised start blockSize capacity)) :
    race.Works k := by
  have hlock : (race.threads k).holds .pool = true := by
    rw [ht]
    rfl
  have hspan : (start, blockSize, capacity) ∈ (race.threads k).span? := by
    rw [ht]
    rfl
  obtain ⟨⟨hpos, hb, hc, halign, hdvd, hend⟩, hdisj⟩ := inv.fresh k _ hspan
  obtain ⟨pool, range, hrun, hinv, hshapes, hpartial, hfull, -, -⟩ :=
    ClassPool.registerSlab_spec inv.pool hb hc hdisj race.mem.pageSize advised
  have hrunF := ClassPool.registerSlab_map race.pool race.mem.pageSize advised
    start blockSize capacity
  have hwoven := ClassPool.woven_registerSlab inv.woven race.mem.pageSize advised start blockSize
    capacity
  rw [hrun] at hrunF hwoven
  have hbag : pool.bag = race.pool.bag := by
    rw [ClassPool.bag, hpartial, hfull, ClassPool.bag]
  have hf : Follows (fun _ => False) race.mem race.mem (ClassPool.applyAdvice race.mem range)
    (ClassPool.applyAdvice race.mem range) := ClassPool.applyAdvice_follows range
  have hserve : race.pool.serve race.mem (.registerSlab advised start blockSize capacity) =
      some (ClassPool.applyAdvice race.mem range, pool, .unit) := by
    simp only [ClassPool.serve, hrun]
  refine ⟨ClassPool.applyAdvice race.mem range, pool, race.inbox, .idle (some .unit), ?_,
    ⟨hinv, inv.inbox, hwoven.follows hf fun _ _ h => h, ClassPool.applyAdvice_pageSize ..,
      fun shape h => ?_, fun shape h => ?_, fun span hspan' hapart =>
        ⟨hspan'.1, fun slab hslab => ?_⟩,
      ?_, fun l hl => ?_, fun b hb _ => hf.next b hb fun h => h, rfl, trivial,
      fun _ h => absurd h LockThread.not_holds_idle, Or.inl hlock⟩,
    .locked hlock ?_⟩
  · rw [ht]
    simp only [LockThread.map, PoolCall.map, work, ClassPool.serve, hrunF, Option.map_some]
  · rw [hshapes]
    exact List.mem_append_left _ h
  · rw [hshapes] at h
    refine (List.mem_append.mp h).imp_right fun h b hb => ?_
    obtain rfl := List.mem_singleton.mp h
    exact linkable_slabBlocks hpos halign hdvd hend hb
  · have hmem : slab.shape ∈ pool.shapes := List.mem_map_of_mem hslab
    rw [hshapes] at hmem
    rcases List.mem_append.mp hmem with hmem | hmem
    · obtain ⟨slab', hslab', heq⟩ := List.mem_map.mp hmem
      simp only [SlabRecord.shape, Prod.mk.injEq] at heq
      have hapart := hspan'.2 slab' hslab'
      rwa [heq.1, heq.2.1] at hapart
    · have heq := List.mem_singleton.mp hmem
      simp only [SlabRecord.shape, Prod.mk.injEq] at heq
      rw [heq.1, heq.2.1]
      exact hapart _ hspan
  · rw [hbag]
    exact Multiset.add_le_add_right (Multiset.zero_le _)
  · exact (List.not_mem_nil hl).elim
  · rw [phase, ht]
    exact .answers (does_register rfl hserve)

/-- A batch goes into the inbox. -/
theorem Inv.works_publish (inv : race.Inv) {batch : Seq}
    (ht : race.threads k = .opened (.publishRemoteBatch batch)) : race.Works k := by
  have hbatches : (race.threads k).batches = [batch] := by
    rw [ht]
    rfl
  have hhand : (race.threads k).hand = batch := by
    rw [LockThread.hand, hbatches, List.flatten_singleton]
  have hmem : batch ∈ (race.threads k).batches := hbatches ▸ List.mem_singleton_self batch
  have hwhole : ((batch : Multiset Nat) + race.stock).Nodup := hhand ▸ inv.whole k
  have hout : ∀ b ∈ batch, b ∉ race.stock := fun b hb =>
    Multiset.disjoint_left.mp (Multiset.nodup_add.mp hwhole).2.2 hb
  have hgood : ∀ b ∈ batch ++ race.inbox.pending, Linkable b := by
    intro b hb
    rcases List.mem_append.mp hb with hb | hb
    · exact inv.linkable_of_known (inv.registered k b (hhand ▸ Multiset.mem_coe.mpr hb))
    · exact inv.woven.linkable b (List.mem_append_left _ hb)
  have hnodup : (batch ++ race.inbox.pending).Nodup := by
    rw [← Multiset.coe_nodup, ← Multiset.coe_add]
    exact Multiset.nodup_of_le (Multiset.add_le_add_left (Multiset.le_add_right _ _)) hwhole
  have hrun := inbox_pushBatch race.inbox race.mem batch
  obtain ⟨-, mem, hrunF, hlinked, -, hf⟩ := RemoteReturns.pushBatch_map
    (inv.woven.linked _ List.mem_cons_self) (inv.linked k batch hmem) hgood hnodup hrun
  refine ⟨mem, race.pool, ⟨batch ++ race.inbox.pending, race.inbox.pendingLen + batch.length⟩,
    .idle (some .unit), ?_, ⟨inv.pool, ?_, ?_, hf.pageSize (Agree.refl _ _), fun _ h => h,
      fun _ h => Or.inl h, fun _ h _ => h, ?_, fun l hl => ?_, fun b hb hnot => ?_, rfl, trivial,
      fun _ h => absurd h LockThread.not_holds_idle, Or.inr rfl⟩, .alone ?_ rfl fun x => ?_⟩
  · rw [ht]
    simp only [LockThread.map, PoolCall.map, work, hrunF, Option.map_some]
  · show race.inbox.pendingLen + batch.length = (batch ++ race.inbox.pending).length
    rw [inv.inbox, List.length_append, Nat.add_comm]
  · refine ⟨fun l hl => ?_, ?_, fun b hb => ?_⟩
    · rcases List.mem_cons.mp hl with rfl | hl
      · exact hlinked
      · exact hf.linked (inv.woven.tail.linked l hl)
          (fun b hb => inv.woven.tail.linkable b (List.mem_flatten.mpr ⟨l, hl, hb⟩))
          fun b hb h => hout b h (mem_stock_of_freeLists (List.mem_flatten.mpr ⟨l, hl, hb⟩))
    · refine List.nodup_append.mpr ⟨hnodup, inv.woven.tail.nodup, ?_⟩
      rintro b hb b' hb' rfl
      rcases List.mem_append.mp hb with hb | hb
      · exact hout b hb (mem_stock_of_freeLists hb')
      · exact inv.woven.head_apart b hb hb'
    · rcases List.mem_append.mp hb with hb | hb
      · exact hgood b hb
      · exact inv.woven.tail.linkable b hb
  · rw [hhand]
    show 0 + (((batch ++ race.inbox.pending : List Nat) : Multiset Nat) + race.pool.bag) ≤
      (batch : Multiset Nat) + ((race.inbox.pending : Multiset Nat) + race.pool.bag)
    rw [zero_add, ← Multiset.coe_add, add_assoc]
  · exact (List.not_mem_nil hl).elim
  · exact hf.next b hb fun h => hnot (Multiset.mem_add.mpr
      (Or.inl (hhand ▸ Multiset.mem_coe.mpr h)))
  · rw [ht]
    rfl
  · rw [phase, ht]
    exact .answers (does_publish hrun)

/-- A thread that is in a call and waits for no lock has something to do. -/
theorem Inv.works (inv : race.Inv) (hidle : ∀ last, race.threads k ≠ .idle last)
    (hwants : (race.threads k).wants = none) : race.Works k := by
  have hstaged := inv.staged k
  cases ht : race.threads k with
  | idle last => exact absurd ht (hidle last)
  | entering call =>
    rw [ht] at hwants
    cases call <;> cases hwants
  | entered call =>
    rw [ht] at hwants hstaged
    cases call with
    | registerSlab advised start blockSize capacity => exact inv.works_register ht
    | blockCount => exact inv.works_count ht
    | publishRemoteBatch batch => exact hstaged.elim
    | returnBatch advised batch => cases hwants
    | takeRefill advised max => cases hwants
  | opened call =>
    rw [ht] at hstaged
    cases call with
    | publishRemoteBatch batch => exact inv.works_publish ht
    | returnBatch advised batch => exact inv.works_take rfl ht
    | takeRefill advised max => exact inv.works_take rfl ht
    | registerSlab advised start blockSize capacity => cases hstaged
    | blockCount => cases hstaged
  | taken call pending => exact inv.works_fold ht
  | folded call => exact inv.works_serve ht
  | counted n =>
    rw [ht] at hwants
    cases hwants
  | reading n => exact inv.works_reading ht

end PoolRace

end Orthotope
