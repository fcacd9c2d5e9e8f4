import Orthotope.PoolLocksInvariant
import Orthotope.Lib.AgentSums

/-! Runs of the pool under its locks.  Every state that threads reach is one over lists in which the
invariant holds, and every action is a move there.  So the calls take effect one after the other as
steps of the whole pool.  And since nobody waits who holds the inbox, and who holds the pool waits
for the inbox only, no run gets stuck. -/

namespace Orthotope

open ByteMemory LinkedChain Linearization StepSystem AgentSums

/-! ### Locking -/

theorem PoolCall.map_map_eq {B B' : Type} {g : B → B'} {f : B' → B} {call : PoolCall B}
    (h : ∀ batch ∈ call.batch?, f (g batch) = batch) : (call.map g).map f = call := by
  cases call with
  | returnBatch advised batch => exact congrArg (PoolCall.returnBatch advised) (h batch rfl)
  | publishRemoteBatch batch => exact congrArg PoolCall.publishRemoteBatch (h batch rfl)
  | _ => rfl

namespace LockThread

variable {B B' : Type}

theorem wants_map (g : B → B') (thread : LockThread B) :
    (thread.map g).wants = thread.wants.map fun p => (p.1, p.2.map g) := by
  cases thread with
  | entering call => cases call <;> rfl
  | entered call => cases call <;> rfl
  | _ => rfl

theorem span?_map (g : B → B') (thread : LockThread B) : (thread.map g).span? = thread.span? := by
  cases thread with
  | entering call => cases call <;> rfl
  | entered call => cases call <;> rfl
  | _ => rfl

theorem holds_map (thread : LockThread Seq) (lock : PoolLock) :
    (thread.map Batch.ofSeq).holds lock = thread.holds lock := by
  cases thread with
  | opened call => cases call <;> cases lock <;> rfl
  | _ => cases lock <;> rfl

theorem map_map_eq {thread : LockThread Seq} {f : Batch → Seq}
    (h : ∀ l ∈ thread.batches, f (Batch.ofSeq l) = l) :
    (thread.map Batch.ofSeq).map f = thread := by
  cases thread with
  | entering call =>
    exact congrArg LockThread.entering
      (PoolCall.map_map_eq fun l hl => h l (Option.mem_toList.mpr hl))
  | entered call =>
    exact congrArg LockThread.entered
      (PoolCall.map_map_eq fun l hl => h l (Option.mem_toList.mpr hl))
  | opened call =>
    exact congrArg LockThread.opened
      (PoolCall.map_map_eq fun l hl => h l (Option.mem_toList.mpr hl))
  | folded call =>
    exact congrArg LockThread.folded
      (PoolCall.map_map_eq fun l hl => h l (Option.mem_toList.mpr hl))
  | taken call pending =>
    have hcall : (call.map Batch.ofSeq).map f = call := PoolCall.map_map_eq fun l hl =>
      h l (List.mem_cons_of_mem _ (Option.mem_toList.mpr hl))
    exact congr (congrArg LockThread.taken hcall) (h pending List.mem_cons_self)
  | _ => rfl

/-- What a thread has that gets a lock. -/
structure Gets (thread : LockThread Seq) (lock : PoolLock) (thread' : LockThread Seq) : Prop where
  batches : thread'.batches = thread.batches
  span : thread'.span? = thread.span?
  holds : ∀ l, thread'.holds l = true ↔ l = lock ∨ thread.holds l = true
  staged : ∀ pool, thread.Staged pool → thread'.Staged pool
  settled : ∀ pageSize pool, thread'.settled pageSize pool = thread.settled pageSize pool
  unsettled : ∀ pageSize pool, thread'.settled pageSize pool = pool
  phase : ∀ pageSize pool, thread'.phase pageSize pool = thread.phase pageSize pool

theorem Gets.of_rest {thread thread' : LockThread Seq} {lock : PoolLock}
    (hbatches : thread'.batches = thread.batches) (hspan : thread'.span? = thread.span?)
    (hholds : ∀ l, thread'.holds l = true ↔ l = lock ∨ thread.holds l = true)
    (hstaged : ∀ pool, thread.Staged pool → thread'.Staged pool)
    (hrest : ∀ pageSize pool, thread.rest pageSize pool = none)
    (hrest' : ∀ pageSize pool, thread'.rest pageSize pool = none)
    (hphase : ∀ pageSize pool, thread'.phase pageSize pool = thread.phase pageSize pool) :
    thread.Gets lock thread' where
  batches := hbatches
  span := hspan
  holds := hholds
  staged := hstaged
  settled := fun _ _ => by rw [LockThread.settled, LockThread.settled, hrest, hrest']
  unsettled := fun _ _ => by rw [LockThread.settled, hrest', Option.elim_none]
  phase := hphase

theorem gets_of_wants {thread thread' : LockThread Seq} {lock : PoolLock}
    (h : thread.wants = some (lock, thread')) : thread.Gets lock thread' := by
  cases thread with
  | entering call =>
    cases call <;>
    · cases h
      exact .of_rest rfl rfl (fun l => by cases l <;> simp [holds]) (fun _ _ => trivial)
        (fun _ _ => rfl) (fun _ _ => rfl) fun _ _ => rfl
  | entered call =>
    cases call with
    | returnBatch advised batch =>
      cases h
      exact .of_rest rfl rfl (fun l => by cases l <;> simp [holds]) (fun _ _ => rfl)
        (fun _ _ => rfl) (fun _ _ => rfl) fun _ _ => rfl
    | takeRefill advised max =>
      cases h
      exact .of_rest rfl rfl (fun l => by cases l <;> simp [holds]) (fun _ _ => rfl)
        (fun _ _ => rfl) (fun _ _ => rfl) fun _ _ => rfl
    | _ => cases h
  | counted n =>
    cases h
    exact .of_rest rfl rfl (fun l => by cases l <;> simp [holds]) (fun _ h => h)
      (fun _ _ => rfl) (fun _ _ => rfl) fun _ _ => rfl
  | _ => cases h

theorem idle_of_map {g : B → B'} {thread : LockThread B} {last : Option (PoolAnswer Seq)}
    (h : thread.map g = idle last) : thread = idle last := by
  cases thread with
  | idle last' => exact congrArg idle (idle.inj h)
  | _ => cases h

end LockThread

namespace PoolRace

variable {κ : Type} {race : PoolRace κ Seq Seq} {k : κ} {thread : LockThread Seq} {lock : PoolLock}
  {mem : Mem}

/-! ### Moves -/

/-- A call whose batch is free to come back, with a span that is nobody else's. -/
def Admits (race : PoolRace κ Seq Seq) (call : PoolCall Seq) : Prop :=
  (∀ l ∈ call.batch?, Linked race.mem l ∧ l.Nodup ∧ ∀ b ∈ l,
    (∃ slab ∈ race.pool.slabs, b ∈ slab.blocks) ∧ b ∉ race.stock ∧
      ∀ j, b ∉ (race.threads j).hand) ∧
    ∀ span ∈ call.span?, race.pool.Registrable span ∧
      ∀ j, ∀ span' ∈ (race.threads j).span?, SpansApart span span'

/-- The links of the blocks here are the same in `mem`. -/
def Keeps (race : PoolRace κ Seq Seq) (mem : Mem) : Prop :=
  mem.pageSize = race.mem.pageSize ∧
    (∀ b ∈ race.inbox.pending ++ race.pool.freeLists.flatten,
      readSmallFreeListNext mem b = readSmallFreeListNext race.mem b) ∧
    ∀ k, ∀ b ∈ (race.threads k).batches.flatten,
      readSmallFreeListNext mem b = readSmallFreeListNext race.mem b

theorem Admits.blocks_map {call : PoolCall Seq} (h : race.Admits call) :
    (call.map Batch.ofSeq).map (Batch.blocks race.mem) = call :=
  PoolCall.map_map_eq fun l hl => Batch.blocks_ofSeq (h.1 l hl).1

theorem Inv.moved (inv : race.Inv) (h : race.Keeps mem) : { race with mem }.Inv where
  pool := inv.pool
  inbox := inv.inbox
  woven := by
    refine ⟨fun l hl => (inv.woven.linked l hl).congr fun b hb => ?_, inv.woven.nodup,
      inv.woven.linkable⟩
    exact h.2.1 b (List.mem_flatten.mpr ⟨l, hl, hb⟩)
  page := by
    rw [h.1]
    exact inv.page
  linkable := inv.linkable
  known := inv.known
  registered := inv.registered
  linked := fun k l hl => (inv.linked k l hl).congr fun b hb =>
    h.2.2 k b (List.mem_flatten.mpr ⟨l, hl, hb⟩)
  stock := inv.stock
  whole := inv.whole
  apart := inv.apart
  fresh := inv.fresh
  spans := inv.spans
  locks := inv.locks
  staged := inv.staged

theorem Inv.value_locked_pool (inv : race.Inv) (h : (race.threads k).holds .pool = true) :
    race.value = ((race.threads k).settled race.mem.pageSize race.pool, race.inbox) := by
  rw [value, (inv.locks .pool k).mpr h, Option.elim_some]

section Moves

variable [DecidableEq κ]

/-- `k` gets a lock. -/
def locked (race : PoolRace κ Seq Seq) (k : κ) (lock : PoolLock) (thread : LockThread Seq) :
    PoolRace κ Seq Seq :=
  { race with
    holder := Function.update race.holder lock (some k)
    threads := Function.update race.threads k thread }

/-- `k` starts a call. -/
def called (race : PoolRace κ Seq Seq) (k : κ) (call : PoolCall Seq) : PoolRace κ Seq Seq :=
  { race with threads := Function.update race.threads k (.entering call) }

theorem apply_update {γ : Type} (f : LockThread Seq → γ)
    (h : f thread = f (race.threads k)) (j : κ) :
    f (Function.update race.threads k thread j) = f (race.threads j) := by
  by_cases hj : j = k
  · rw [hj, Function.update_self, h]
  · rw [Function.update_of_ne hj]

theorem map_threads (k : κ) (thread : LockThread Seq) :
    Function.update (fun j => (race.threads j).map Batch.ofSeq) k (thread.map Batch.ofSeq) =
      fun j => (Function.update race.threads k thread j).map Batch.ofSeq :=
  (Function.comp_update (LockThread.map Batch.ofSeq) race.threads k thread).symm

theorem Inv.locked (inv : race.Inv) (h : (race.threads k).Gets lock thread)
    (hfree : race.holder lock = none) : (race.locked k lock thread).Inv := by
  have hbatches : ∀ j, ((race.locked k lock thread).threads j).batches = (race.threads j).batches :=
    apply_update LockThread.batches h.batches
  have hspan : ∀ j, ((race.locked k lock thread).threads j).span? = (race.threads j).span? :=
    apply_update LockThread.span? h.span
  have hhand : ∀ j, ((race.locked k lock thread).threads j).hand = (race.threads j).hand :=
    fun j => by rw [LockThread.hand, hbatches, LockThread.hand]
  refine ⟨inv.pool, inv.inbox, inv.woven, inv.page, inv.linkable, inv.known,
    fun j b hb => inv.registered j b (hhand j ▸ hb), fun j l hl => inv.linked j l (hbatches j ▸ hl),
    inv.stock, fun j => ?_, fun i j hij b hi hj =>
      inv.apart i j hij b (hhand i ▸ hi) (hhand j ▸ hj),
    fun j span hs => inv.fresh j span (hspan j ▸ hs),
    fun i j hij span hi span' hj => inv.spans i j hij span (hspan i ▸ hi) span' (hspan j ▸ hj),
    fun l j => ?_, fun j => ?_⟩
  · rw [hhand]
    exact inv.whole j
  · show Function.update race.holder lock (some k) l = some j ↔
      (Function.update race.threads k thread j).holds l = true
    by_cases hj : j = k
    · subst hj
      rw [Function.update_self, h.holds]
      by_cases hl : l = lock
      · subst hl
        rw [Function.update_self]
        exact iff_of_true rfl (Or.inl rfl)
      · rw [Function.update_of_ne hl, inv.locks]
        exact ⟨Or.inr, fun hor => hor.resolve_left hl⟩
    · rw [Function.update_of_ne hj, ← inv.locks]
      by_cases hl : l = lock
      · subst hl
        rw [Function.update_self, hfree]
        exact iff_of_false (fun heq => hj (Option.some.inj heq).symm) (by simp)
      · rw [Function.update_of_ne hl]
  · show (Function.update race.threads k thread j).Staged race.pool
    by_cases hj : j = k
    · subst hj
      rw [Function.update_self]
      exact h.staged race.pool (inv.staged j)
    · rw [Function.update_of_ne hj]
      exact inv.staged j

theorem Inv.called (inv : race.Inv) {last : Option (PoolAnswer Seq)}
    (hidle : race.threads k = .idle last) {call : PoolCall Seq} (h : race.Admits call) :
    (race.called k call).Inv := by
  have hsame : (race.called k call).threads k = .entering call := Function.update_self ..
  have hne : ∀ {j}, j ≠ k → (race.called k call).threads j = race.threads j :=
    fun hj => Function.update_of_ne hj ..
  have hbatch : ∀ {b}, b ∈ ((race.called k call).threads k).hand → ∃ l ∈ call.batch?, b ∈ l := by
    intro b hb
    rw [hsame] at hb
    obtain ⟨l, hl, hb⟩ := List.mem_flatten.mp (Multiset.mem_coe.mp hb)
    exact ⟨l, Option.mem_toList.mp hl, hb⟩
  refine ⟨inv.pool, inv.inbox, inv.woven, inv.page, inv.linkable, inv.known, fun j b hb => ?_,
    fun j l hl => ?_, inv.stock, fun j => ?_, fun i j hij b hi hj => ?_, fun j span hs => ?_,
    fun i j hij span hi span' hj => ?_, fun l j => ?_, fun j => ?_⟩
  · by_cases hj : j = k
    · subst hj
      obtain ⟨l, hl, hb⟩ := hbatch hb
      exact ((h.1 l hl).2.2 b hb).1
    · exact inv.registered j b (hne hj ▸ hb)
  · by_cases hj : j = k
    · subst hj
      rw [hsame] at hl
      exact (h.1 l (Option.mem_toList.mp hl)).1
    · exact inv.linked j l (hne hj ▸ hl)
  · by_cases hj : j = k
    · subst hj
      refine Multiset.nodup_add.mpr ⟨?_, inv.stock, Multiset.disjoint_left.mpr fun hb => ?_⟩
      · rw [hsame]
        show (call.batch?.toList.flatten : Multiset Nat).Nodup
        cases hcall : call.batch? with
        | none => exact Multiset.nodup_zero
        | some l =>
          rw [Option.toList_some, List.flatten_singleton]
          exact Multiset.coe_nodup.mpr (h.1 l hcall).2.1
      · obtain ⟨l, hl, hb⟩ := hbatch hb
        exact ((h.1 l hl).2.2 _ hb).2.1
    · rw [hne hj]
      exact inv.whole j
  · by_cases hi' : i = k
    · subst hi'
      obtain ⟨l, hl, hb⟩ := hbatch hi
      rw [hne (Ne.symm hij)] at hj
      exact ((h.1 l hl).2.2 b hb).2.2 j hj
    · rw [hne hi'] at hi
      by_cases hj' : j = k
      · subst hj'
        obtain ⟨l, hl, hb⟩ := hbatch hj
        exact ((h.1 l hl).2.2 b hb).2.2 i hi
      · exact inv.apart i j hij b hi (hne hj' ▸ hj)
  · by_cases hj : j = k
    · subst hj
      rw [hsame] at hs
      exact (h.2 span hs).1
    · exact inv.fresh j span (hne hj ▸ hs)
  · by_cases hi' : i = k
    · subst hi'
      rw [hsame] at hi
      rw [hne (Ne.symm hij)] at hj
      exact (h.2 span hi).2 j span' hj
    · rw [hne hi'] at hi
      by_cases hj' : j = k
      · subst hj'
        rw [hsame] at hj
        exact ((h.2 span' hj).2 i span hi).symm
      · exact inv.spans i j hij span hi span' (hne hj' ▸ hj)
  · by_cases hj : j = k
    · subst hj
      have hlocks := inv.locks l j
      rw [hidle] at hlocks
      rw [hsame]
      refine hlocks.trans (iff_of_false LockThread.not_holds_idle ?_)
      cases l <;> simp [LockThread.holds]
    · rw [hne hj]
      exact inv.locks l j
  · by_cases hj : j = k
    · subst hj
      rw [hsame]
      trivial
    · rw [hne hj]
      exact inv.staged j

/-- All that an action can do. -/
inductive Moves (race : PoolRace κ Seq Seq) : PoolAction κ → PoolRace κ Seq Seq → Prop
  | call {k : κ} {last : Option (PoolAnswer Seq)} {call : PoolCall Seq}
      (hidle : race.threads k = .idle last) (h : race.Admits call) :
      Moves race (.call k (call.map Batch.ofSeq)) (race.called k call)
  | lock {k : κ} {lock : PoolLock} {thread : LockThread Seq}
      (h : (race.threads k).wants = some (lock, thread)) (hfree : race.holder lock = none) :
      Moves race (.run k) (race.locked k lock thread)
  | work {k : κ} {mem : Mem} {pool : ClassPool Seq} {inbox : RemoteReturns Seq}
      {thread : LockThread Seq} (h : Worked race k mem pool inbox thread)
      (howns : Owns race k pool inbox thread) :
      Moves race (.run k) (race.worked k mem pool inbox thread)
  | elsewhere {mem : Mem} (h : race.Keeps mem) : Moves race (.elsewhere mem) { race with mem }

theorem Moves.inv {action : PoolAction κ} {next : PoolRace κ Seq Seq} (h : Moves race action next)
    (inv : race.Inv) : next.Inv := by
  cases h with
  | call hidle h => exact inv.called hidle h
  | lock h hfree => exact inv.locked (LockThread.gets_of_wants h) hfree
  | work h howns => exact inv.worked h
  | elsewhere h => exact inv.moved h

theorem Moves.pageSize {action : PoolAction κ} {next : PoolRace κ Seq Seq}
    (h : Moves race action next) : next.mem.pageSize = race.mem.pageSize := by
  cases h with
  | call hidle h => rfl
  | lock h hfree => rfl
  | work h howns => exact h.page
  | elsewhere h => exact h.1

end Moves

/-! ### The code's state -/

/-- The links lead through the lists. -/
theorem Inv.contents_map (inv : race.Inv) :
    (race.map FreeList.ofSeq Batch.ofSeq).contents = race := by
  have hpool : (race.pool.map FreeList.ofSeq).map (FreeList.blocks race.mem) = race.pool :=
    ClassPool.map_map_eq fun l hl => FreeList.blocks_ofSeq (inv.woven.tail.linked l hl)
  have hinbox : (race.inbox.map FreeList.ofSeq).map (FreeList.blocks race.mem) = race.inbox :=
    RemoteReturns.map_map_eq (FreeList.blocks_ofSeq (inv.woven.linked _ List.mem_cons_self))
  have hthreads : (fun k => ((race.threads k).map Batch.ofSeq).map (Batch.blocks race.mem)) =
      race.threads := funext fun k => LockThread.map_map_eq fun l hl =>
    Batch.blocks_ofSeq (inv.linked k l hl)
  show PoolRace.mk race.mem ((race.pool.map FreeList.ofSeq).map (FreeList.blocks race.mem))
    ((race.inbox.map FreeList.ofSeq).map (FreeList.blocks race.mem)) race.holder
    (fun k => ((race.threads k).map Batch.ofSeq).map (Batch.blocks race.mem)) = race
  rw [hpool, hinbox, hthreads]

theorem wants_code : ((race.map FreeList.ofSeq Batch.ofSeq).threads k).wants =
    (race.threads k).wants.map fun p => (p.1, p.2.map Batch.ofSeq) :=
  LockThread.wants_map Batch.ofSeq (race.threads k)

theorem Inv.admits_of_allows (inv : race.Inv) {call : PoolCall Batch}
    (h : (race.map FreeList.ofSeq Batch.ofSeq).Allows call) :
    ∃ call' : PoolCall Seq, call'.map Batch.ofSeq = call ∧ race.Admits call' := by
  obtain ⟨hbatch, hspan⟩ := h
  have hcontents := inv.contents_map
  refine ⟨call.map (Batch.blocks race.mem), ?_, fun l hl => ?_, fun span hs => ?_⟩
  · exact PoolCall.map_map_eq fun batch hb => (hbatch batch hb).1.1.symm
  · obtain ⟨batch, hb, rfl⟩ : ∃ batch ∈ call.batch?, batch.blocks race.mem = l := by
      cases call with
      | returnBatch advised batch => exact ⟨batch, rfl, Option.some.inj hl⟩
      | publishRemoteBatch batch => exact ⟨batch, rfl, Option.some.inj hl⟩
      | _ => cases hl
    obtain ⟨⟨-, hlinked, hnodup⟩, hblocks⟩ := hbatch batch hb
    rw [hcontents] at hblocks
    refine ⟨hlinked, hnodup, fun b hmem => ?_⟩
    obtain ⟨⟨slab, hslab, hin⟩, hstock, hhand⟩ := hblocks b hmem
    obtain ⟨slab', hslab', rfl⟩ := List.mem_map.mp hslab
    exact ⟨⟨slab', hslab', hin⟩, hstock, hhand⟩
  · have hs' : span ∈ call.span? := by
      cases call <;> exact hs
    obtain ⟨⟨hgood, hapart⟩, hothers⟩ := hspan span hs'
    refine ⟨⟨hgood, fun slab hslab => ?_⟩, fun j span' hspan' => hothers j span' ?_⟩
    · exact hapart (slab.map FreeList.ofSeq) (List.mem_map_of_mem hslab)
    · show span' ∈ ((race.threads j).map Batch.ofSeq).span?
      rwa [LockThread.span?_map]

section Steps

variable [Fintype κ] [DecidableEq κ] {code code' : PoolRace κ FreeList Batch}

theorem step_lock {thread : LockThread Batch} (h : (code.threads k).wants = some (lock, thread))
    (hfree : code.holder lock = none) :
    step (.run k) code = some { code with
      holder := Function.update code.holder lock (some k)
      threads := Function.update code.threads k thread } := by
  simp only [step, h, hfree, if_true]

theorem step_work {pool : ClassPool FreeList} {inbox : RemoteReturns FreeList}
    {thread : LockThread Batch} (hwants : (code.threads k).wants = none)
    (h : work code.mem code.pool code.inbox (code.threads k) = some (mem, pool, inbox, thread)) :
    step (.run k) code = some { mem, pool, inbox
                                holder := fun lock =>
                                  if code.holder lock = some k ∧ thread.holds lock = false then none
                                  else code.holder lock
                                threads := Function.update code.threads k thread } := by
  simp only [step, hwants, h, Option.map_some]

theorem step_idle {last : Option (PoolAnswer Seq)} (h : code.threads k = .idle last) :
    step (.run k) code = none := by
  simp only [step, h, LockThread.wants, work, Option.map_none]

/-- A step of the work, in memory. -/
theorem step_works (h : race.Works k) (hwants : (race.threads k).wants = none) :
    ∃ next, step (.run k) (race.map FreeList.ofSeq Batch.ofSeq) =
      some (next.map FreeList.ofSeq Batch.ofSeq) ∧ Moves race (.run k) next := by
  obtain ⟨mem, pool, inbox, thread, hwork, hworked, howns⟩ := h
  refine ⟨race.worked k mem pool inbox thread, ?_, .work hworked howns⟩
  have hwants' : ((race.map FreeList.ofSeq Batch.ofSeq).threads k).wants = none := by
    rw [wants_code, hwants, Option.map_none]
  rw [step_work hwants' hwork]
  simp only [worked, map, map_threads, LockThread.holds_map]

theorem step_locks {thread : LockThread Seq} (h : (race.threads k).wants = some (lock, thread))
    (hfree : race.holder lock = none) :
    step (.run k) (race.map FreeList.ofSeq Batch.ofSeq) =
      some ((race.locked k lock thread).map FreeList.ofSeq Batch.ofSeq) := by
  have hwants : ((race.map FreeList.ofSeq Batch.ofSeq).threads k).wants =
      some (lock, thread.map Batch.ofSeq) := by
    rw [wants_code, h, Option.map_some]
  rw [step_lock hwants hfree]
  simp only [locked, map, map_threads]

/-- Every action of the code is a move over lists. -/
theorem Inv.step_moves (inv : race.Inv) {action : PoolAction κ}
    (h : step action (race.map FreeList.ofSeq Batch.ofSeq) = some code') :
    ∃ next, code' = next.map FreeList.ofSeq Batch.ofSeq ∧ Moves race action next := by
  cases action with
  | call k call =>
    simp only [step] at h
    split at h
    · rename_i last hlast
      obtain ⟨hallows, h⟩ := Option.ite_none_right_eq_some.mp h
      obtain ⟨call', rfl, hadmits⟩ := inv.admits_of_allows hallows
      refine ⟨race.called k call', ?_, .call (LockThread.idle_of_map hlast) hadmits⟩
      have hthreads := @map_threads κ race _ k (.entering call')
      rw [← Option.some.inj h]
      exact congrArg (PoolRace.mk race.mem _ _ race.holder) hthreads
    · cases h
  | run k =>
    cases hwants : (race.threads k).wants with
    | some p =>
      obtain ⟨lock, thread⟩ := p
      cases hfree : race.holder lock with
      | none =>
        refine ⟨race.locked k lock thread, ?_, .lock hwants hfree⟩
        rw [step_locks hwants hfree] at h
        exact (Option.some.inj h).symm
      | some j =>
        have hwants' : ((race.map FreeList.ofSeq Batch.ofSeq).threads k).wants =
            some (lock, thread.map Batch.ofSeq) := by
          rw [wants_code, hwants, Option.map_some]
        have hheld : (race.map FreeList.ofSeq Batch.ofSeq).holder lock = some j := hfree
        simp [step, hwants', hheld] at h
    | none =>
      by_cases hidle : ∃ last, race.threads k = .idle last
      · obtain ⟨last, hlast⟩ := hidle
        have hlast' : (race.map FreeList.ofSeq Batch.ofSeq).threads k = .idle last := by
          show (race.threads k).map Batch.ofSeq = _
          rw [hlast]
          rfl
        rw [step_idle hlast'] at h
        cases h
      · obtain ⟨next, hstep, hmoves⟩ := step_works
          (inv.works (fun last hlast => hidle ⟨last, hlast⟩) hwants) hwants
        rw [hstep] at h
        exact ⟨next, (Option.some.inj h).symm, hmoves⟩
  | elsewhere mem =>
    obtain ⟨hspares, h⟩ := Option.ite_none_right_eq_some.mp h
    rw [Spares, inv.contents_map] at hspares
    exact ⟨{ race with mem }, (Option.some.inj h).symm, .elsewhere hspares⟩

end Steps

end PoolRace

/-! ### Order -/

namespace PoolAction

variable {κ : Type}

def thread : PoolAction κ → Option κ
  | call k _ | run k => some k
  | elsewhere _ => none

/-- The call that starts, with the blocks that its batch has in memory. -/
def starts (m : Mem) : PoolAction κ → Option (PoolCall Seq)
  | call _ c => some (c.map (Batch.blocks m))
  | run _ | elsewhere _ => none

end PoolAction

namespace PoolRace

section Order

variable {κ : Type} [DecidableEq κ] {race next : PoolRace κ Seq Seq} {k : κ} {mem : Mem}
  {action : PoolAction κ}

theorem value_locked {lock : PoolLock} {thread : LockThread Seq}
    (h : (race.threads k).Gets lock thread) (hfree : race.holder lock = none) :
    (race.locked k lock thread).value = race.value := by
  apply congrArg (·, race.inbox)
  show (Function.update race.holder lock (some k) .pool).elim race.pool (fun j =>
      (Function.update race.threads k thread j).settled race.mem.pageSize race.pool) =
    (race.holder .pool).elim race.pool fun j =>
      (race.threads j).settled race.mem.pageSize race.pool
  have hsettled : (fun j => (Function.update race.threads k thread j).settled race.mem.pageSize
      race.pool) = fun j => (race.threads j).settled race.mem.pageSize race.pool :=
    funext (apply_update _ (h.settled ..))
  rw [hsettled]
  cases lock with
  | pool =>
    rw [Function.update_self, hfree, Option.elim_some, Option.elim_none, ← h.settled, h.unsettled]
  | inbox => rw [Function.update_of_ne (by decide)]

theorem value_called {last : Option (PoolAnswer Seq)} (hidle : race.threads k = .idle last)
    (call : PoolCall Seq) : (race.called k call).value = race.value := by
  apply congrArg (·, race.inbox)
  show (race.holder .pool).elim race.pool (fun j =>
      (Function.update race.threads k (.entering call) j).settled race.mem.pageSize race.pool) =
    (race.holder .pool).elim race.pool fun j =>
      (race.threads j).settled race.mem.pageSize race.pool
  have hsame : (LockThread.entering call).settled race.mem.pageSize race.pool =
      (race.threads k).settled race.mem.pageSize race.pool := by
    rw [hidle]
    rfl
  have hsettled : (fun j => (Function.update race.threads k (.entering call) j).settled
      race.mem.pageSize race.pool) = fun j =>
        (race.threads j).settled race.mem.pageSize race.pool :=
    funext (apply_update (fun thread => thread.settled race.mem.pageSize race.pool) hsame)
  rw [hsettled]

theorem phase_called (call : PoolCall Seq) : (race.called k call).phase k = .pending call := by
  show (Function.update race.threads k (.entering call) k).phase race.mem.pageSize race.pool = _
  rw [Function.update_self]
  rfl

/-- What the work of `k` is to the whole. -/
theorem Inv.worked_does (inv : race.Inv) {pool : ClassPool Seq} {inbox : RemoteReturns Seq}
    {thread : LockThread Seq} (h : Worked race k mem pool inbox thread)
    (howns : Owns race k pool inbox thread) :
    (race.phase k).Does (PoolCall.Does race.mem.pageSize) race.value
      ((race.worked k mem pool inbox thread).phase k)
      (race.worked k mem pool inbox thread).value := by
  have hphase : (race.worked k mem pool inbox thread).phase k =
      thread.phase race.mem.pageSize pool := by
    rw [phase, worked_same, ← h.page]
    rfl
  rw [hphase]
  cases howns with
  | locked hholds howns =>
    have hvalue : (race.worked k mem pool inbox thread).value =
        (thread.settled race.mem.pageSize pool, inbox) := by
      cases hthread : thread.holds .pool with
      | true =>
        have inv' := inv.worked h
        have hsame : ((race.worked k mem pool inbox thread).threads k) = thread := worked_same
        rw [inv'.value_locked_pool (hsame ▸ hthread), hsame, ← h.page]
        rfl
      | false =>
        have hholder : (race.worked k mem pool inbox thread).holder .pool = none :=
          if_pos ⟨(inv.locks .pool k).mpr hholds, hthread⟩
        rw [value, hholder, Option.elim_none, LockThread.settled_of_holds hthread]
        rfl
    rw [inv.value_locked_pool hholds, hvalue]
    exact howns
  | alone hholds hpool howns =>
    have hfree : race.holder .pool ≠ some k := fun heq => by
      rw [(inv.locks .pool k).mp heq] at hholds
      cases hholds
    have hvalue : (race.worked k mem pool inbox thread).value = (race.value.1, inbox) := by
      apply congrArg (·, inbox)
      have hholder : (race.worked k mem pool inbox thread).holder .pool = race.holder .pool :=
        if_neg fun hand => hfree hand.1
      show ((race.worked k mem pool inbox thread).holder .pool).elim pool (fun j =>
        ((race.worked k mem pool inbox thread).threads j).settled mem.pageSize pool) =
          (race.holder .pool).elim race.pool fun j =>
            (race.threads j).settled race.mem.pageSize race.pool
      rw [hholder, h.page, hpool]
      cases hlock : race.holder .pool with
      | none => rfl
      | some j =>
        have hj : j ≠ k := fun heq => hfree (heq ▸ hlock)
        rw [Option.elim_some, Option.elim_some, worked_ne hj]
    rw [hvalue]
    exact howns race.value.1

/-- The work of `k` is nothing to the calls of others. -/
theorem Inv.worked_phase_ne (inv : race.Inv) {pool : ClassPool Seq} {inbox : RemoteReturns Seq}
    {thread : LockThread Seq} (h : Worked race k mem pool inbox thread) {j : κ} (hj : j ≠ k) :
    (race.worked k mem pool inbox thread).phase j = race.phase j := by
  have hthread : (race.worked k mem pool inbox thread).threads j = race.threads j := worked_ne hj
  show ((race.worked k mem pool inbox thread).threads j).phase mem.pageSize pool =
    (race.threads j).phase race.mem.pageSize race.pool
  rw [hthread, h.page]
  rcases h.same with hk | hpool
  · apply LockThread.phase_pool
    by_contra hholds
    have hlock := (inv.locks .pool j).mpr (by simpa using hholds)
    rw [(inv.locks .pool k).mpr hk] at hlock
    exact hj (Option.some.inj hlock).symm
  · rw [hpool]

theorem Moves.own (h : Moves race action next) (inv : race.Inv) (hk : action.thread = some k) :
    ((action.starts race.mem).elim (race.phase k) Phase.pending).Does
      (PoolCall.Does race.mem.pageSize) race.value (next.phase k) next.value := by
  cases h with
  | @call j last call hidle h =>
    obtain rfl : j = k := Option.some.inj hk
    rw [value_called hidle, phase_called]
    show (Phase.pending ((call.map Batch.ofSeq).map (Batch.blocks race.mem))).Does ..
    rw [h.blocks_map]
    exact .stay _ _
  | @lock j lock thread h hfree =>
    obtain rfl : j = k := Option.some.inj hk
    have hget := LockThread.gets_of_wants h
    have hphase : (race.locked j lock thread).phase j = race.phase j := by
      show (Function.update race.threads j thread j).phase race.mem.pageSize race.pool = _
      rw [Function.update_self, hget.phase]
      rfl
    rw [hphase, value_locked hget hfree]
    exact .stay _ _
  | @work j mem pool inbox thread h howns =>
    obtain rfl : j = k := Option.some.inj hk
    exact inv.worked_does h howns
  | elsewhere h => cases hk

theorem Moves.others (h : Moves race action next) (inv : race.Inv) (hk : action.thread ≠ some k) :
    next.phase k = race.phase k := by
  cases h with
  | call hidle h =>
    exact congrArg (LockThread.phase _ _)
      (Function.update_of_ne (fun heq => hk (congrArg some heq.symm)) ..)
  | lock h hfree =>
    exact congrArg (LockThread.phase _ _)
      (Function.update_of_ne (fun heq => hk (congrArg some heq.symm)) ..)
  | work h howns => exact inv.worked_phase_ne h fun heq => hk (congrArg some heq.symm)
  | elsewhere h =>
    show (race.threads k).phase _ _ = (race.threads k).phase _ _
    rw [h.1]

theorem Moves.silent (h : Moves race action next) (hk : action.thread = none) :
    next.value = race.value := by
  cases h with
  | elsewhere h =>
    show ((race.holder .pool).elim race.pool fun j =>
      (race.threads j).settled _ race.pool, race.inbox) = _
    rw [h.1]
    rfl
  | _ => cases hk

end Order

section Runs

variable {κ : Type} {mem : Mem} {code : PoolRace κ FreeList Batch}

/-- The code's state is one over lists in which the invariant holds. -/
def Stands (code : PoolRace κ FreeList Batch) : Prop :=
  ∃ race : PoolRace κ Seq Seq, code = race.map FreeList.ofSeq Batch.ofSeq ∧ race.Inv

theorem stands_start (hp : 0 < mem.pageSize) : (start (κ := κ) mem).Stands := by
  have hstock : ∀ b, b ∉ (⟨mem, ClassPool.new, RemoteReturns.new, fun _ => none,
      fun _ => .idle none⟩ : PoolRace κ Seq Seq).stock := fun b hb => by
    rcases Multiset.mem_add.mp hb with hb | hb
    · exact List.not_mem_nil hb
    · exact Multiset.notMem_zero b hb
  refine ⟨⟨mem, ClassPool.new, RemoteReturns.new, fun _ => none, fun _ => .idle none⟩, rfl,
    ClassPool.new_inv, rfl, ?_, hp, fun shape h => (List.not_mem_nil h).elim,
    fun b hb => (hstock b hb).elim, fun k b hb => (List.not_mem_nil hb).elim,
    fun k l hl => (List.not_mem_nil hl).elim, ?_, fun k => ?_,
    fun j k _ b hb => (List.not_mem_nil hb).elim, fun k span hs => ?_,
    fun j k _ span hs => ?_, fun lock k => ?_, fun k => trivial⟩
  · exact ⟨fun l hl => List.mem_singleton.mp hl ▸ trivial, List.nodup_nil,
      fun b hb => (List.not_mem_nil hb).elim⟩
  · exact Multiset.nodup_zero
  · exact Multiset.nodup_zero
  · cases hs
  · cases hs
  · exact iff_of_false (by simp) LockThread.not_holds_idle

variable [Fintype κ] [DecidableEq κ]

/-- The way of the threads through the locks, as a way to carry out calls of the whole pool. -/
def implementation (κ : Type) [Fintype κ] [DecidableEq κ] :
    Implementation (PoolAction κ) (PoolRace κ FreeList Batch) κ (PoolCall Seq)
      (PoolAnswer Seq) where
  step := step
  thread := PoolAction.thread
  starts := fun code => PoolAction.starts code.mem
  phase := fun code => code.contents.phase

theorem stands_reaches (hp : 0 < mem.pageSize) (h : Reaches step (start mem) code) :
    code.Stands ∧ code.mem.pageSize = mem.pageSize := by
  refine h.invariant (I := fun code => code.Stands ∧ code.mem.pageSize = mem.pageSize)
    ⟨stands_start hp, rfl⟩ fun action code code' hs hstep => ?_
  obtain ⟨⟨race, rfl, inv⟩, hpage⟩ := hs
  obtain ⟨next, rfl, hmoves⟩ := inv.step_moves hstep
  exact ⟨⟨next, rfl, hmoves.inv inv⟩, hmoves.pageSize.trans hpage⟩

/-- However threads interleave between the locks of a class, and whatever the rest of the program
does to memory that is its own, the calls for the class take effect one after the other, each of
them as one step on its pool and inbox together, between its start and its end and with the answer
that it gets. -/
theorem pool_linearizable (hp : 0 < mem.pageSize) :
    (implementation κ).Linearizable (PoolCall.Does mem.pageSize) (fun code => code.contents.value)
      (Reaches step (start mem)) := by
  refine Implementation.linearizable fun action code code' h hstep => ⟨h.step action hstep, ?_⟩
  obtain ⟨⟨race, rfl, inv⟩, hpage⟩ := stands_reaches hp h
  obtain ⟨next, rfl, hmoves⟩ := inv.step_moves hstep
  have hcontents := inv.contents_map
  have hcontents' := (hmoves.inv inv).contents_map
  have hpage : race.mem.pageSize = mem.pageSize := hpage
  refine ⟨fun k hk => ?_, fun k hk => ?_, fun hk => ?_⟩
  · show ((action.starts race.mem).elim ((race.map FreeList.ofSeq Batch.ofSeq).contents.phase k)
      Phase.pending).Does _ (race.map FreeList.ofSeq Batch.ofSeq).contents.value
        ((next.map FreeList.ofSeq Batch.ofSeq).contents.phase k)
        (next.map FreeList.ofSeq Batch.ofSeq).contents.value
    rw [hcontents, hcontents', ← hpage]
    exact hmoves.own inv hk
  · show (next.map FreeList.ofSeq Batch.ofSeq).contents.phase k =
      (race.map FreeList.ofSeq Batch.ofSeq).contents.phase k
    rw [hcontents, hcontents']
    exact hmoves.others inv hk
  · show (next.map FreeList.ofSeq Batch.ofSeq).contents.value =
      (race.map FreeList.ofSeq Batch.ofSeq).contents.value
    rw [hcontents, hcontents']
    exact hmoves.silent hk

/-- One thread makes a slab and asks for blocks, while another one returns a block of that slab. -/
def sampleLocks : List (PoolAction (Fin 2)) :=
  [.call 0 (.registerSlab false 4096 128 2), .run 0, .run 0, .call 0 (.takeRefill (false, false) 2),
    .call 1 (.publishRemoteBatch (Batch.ofSeq [4096])), .run 0, .run 1,
    .run 1, .run 0, .run 0, .run 0,
    .run 0]

/-- The batch is published while the other thread has the pool locked, and is in its refill. -/
theorem pool_linearizable_sample : ∃ code,
    runs step sampleLocks (start (Mem.zero 4096)) = some code ∧
    Sequential (PoolCall.Does 4096) (ClassPool.new, RemoteReturns.new)
      [(.registerSlab false 4096 128 2, .unit), (.publishRemoteBatch [4096], .unit),
        (.takeRefill (false, false) 2, .refill (.batch [4096]))] code.contents.value := by
  obtain ⟨code, hcode⟩ : ∃ code, runs step sampleLocks (start (Mem.zero 4096)) = some code :=
    Option.isSome_iff_exists.mp (by decide +kernel)
  have hpage : 0 < (Mem.zero 4096).pageSize := by decide
  have hsequential := (pool_linearizable (κ := Fin 2) hpage).sequential .refl hcode
  have hhistory :
      ((implementation (Fin 2)).history sampleLocks (start (Mem.zero 4096))).map Prod.snd =
      [(.registerSlab false 4096 128 2, .unit), (.publishRemoteBatch [4096], .unit),
        (.takeRefill (false, false) 2, .refill (.batch [4096]))] := by
    decide +kernel
  rw [hhistory] at hsequential
  exact ⟨code, hcode, hsequential⟩

end Runs

end PoolRace

/-! ### Progress -/

namespace PoolCall

/-- The locks that a call takes, and what it does between them. -/
def steps {B : Type} : PoolCall B → Nat
  | registerSlab _ _ _ _ | publishRemoteBatch _ => 2
  | blockCount => 4
  | returnBatch _ _ | takeRefill _ _ => 5

theorem steps_le {B : Type} (call : PoolCall B) : call.steps ≤ 5 := by
  cases call <;> simp [steps]

end PoolCall

namespace LockThread

variable {B : Type}

/-- What is left of them. -/
def stepsLeft : LockThread B → Nat
  | idle _ => 0
  | entering call => call.steps
  | entered call => call.steps - 1
  | opened (.publishRemoteBatch _) => 1
  | opened _ => 3
  | taken _ _ => 2
  | folded _ => 1
  | counted _ => 2
  | reading _ => 1

theorem stepsLeft_wants {thread thread' : LockThread B} {lock : PoolLock}
    (h : thread.wants = some (lock, thread')) : thread'.stepsLeft + 1 = thread.stepsLeft := by
  cases thread with
  | entering call => cases call <;> cases h <;> rfl
  | entered call =>
    cases call with
    | returnBatch advised batch =>
      cases h
      rfl
    | takeRefill advised max =>
      cases h
      rfl
    | _ => cases h
  | counted n =>
    cases h
    rfl
  | _ => cases h

/-- Who has the inbox open waits for nothing. -/
theorem holds_inbox {thread : LockThread B} (h : thread.holds .inbox = true) :
    thread.wants = none ∧ ∀ last, thread ≠ idle last := by
  cases thread with
  | opened call => exact ⟨rfl, fun last h => (by cases h)⟩
  | reading n => exact ⟨rfl, fun last h => (by cases h)⟩
  | _ => cases h

/-- Who has the pool locked waits for the inbox only. -/
theorem holds_pool {thread : LockThread B} (h : thread.holds .pool = true) :
    (∀ thread', thread.wants ≠ some (.pool, thread')) ∧ ∀ last, thread ≠ idle last := by
  cases thread with
  | idle last => cases h
  | entering call => cases h
  | entered call =>
    refine ⟨fun thread' hwants => ?_, fun last h => (by cases h)⟩
    cases call <;> cases hwants
  | counted n =>
    refine ⟨fun thread' hwants => ?_, fun last h => (by cases h)⟩
    cases hwants
  | _ => exact ⟨fun thread' h => (by cases h), fun last h => (by cases h)⟩

end LockThread

namespace PoolAction

variable {κ : Type}

def isCall : PoolAction κ → Bool
  | call _ _ => true
  | run _ | elsewhere _ => false

def isRun : PoolAction κ → Bool
  | run _ => true
  | call _ _ | elsewhere _ => false

end PoolAction

namespace PoolRace

section Progress

variable {κ : Type} [Fintype κ] [DecidableEq κ] {mem : Mem} {race : PoolRace κ Seq Seq}
  {code code' : PoolRace κ FreeList Batch} {k : κ}

/-- The thread after work that ends with `f`. -/
theorem thread_of_map {R : Type} {x : Option R}
    {f : R → Mem × ClassPool FreeList × RemoteReturns FreeList × LockThread Batch}
    {r' : Mem × ClassPool FreeList × RemoteReturns FreeList × LockThread Batch}
    (h : x.map f = some r') : ∃ r, (f r).2.2.2 = r'.2.2.2 := by
  obtain ⟨r, -, rfl⟩ := Option.map_eq_some_iff.mp h
  exact ⟨r, rfl⟩

theorem work_stepsLeft {m m' : Mem} {pool pool' : ClassPool FreeList}
    {inbox inbox' : RemoteReturns FreeList} {thread thread' : LockThread Batch}
    (h : work m pool inbox thread = some (m', pool', inbox', thread')) :
    thread'.stepsLeft + 1 = thread.stepsLeft := by
  cases thread with
  | entered call =>
    cases call with
    | registerSlab advised start blockSize capacity =>
      rw [work] at h
      obtain ⟨r, rfl⟩ := thread_of_map h
      rfl
    | blockCount =>
      obtain ⟨-, -, -, rfl⟩ : _ ∧ _ ∧ _ ∧ _ := by simpa [work] using h
      rfl
    | _ => cases h
  | opened call =>
    cases call with
    | _ =>
      obtain ⟨r, rfl⟩ := thread_of_map h
      rfl
  | taken call pending =>
    obtain ⟨r, rfl⟩ := thread_of_map h
    rfl
  | folded call =>
    obtain ⟨r, rfl⟩ := thread_of_map h
    rfl
  | reading n =>
    obtain ⟨-, -, -, rfl⟩ : _ ∧ _ ∧ _ ∧ _ := by simpa [work] using h
    rfl
  | _ => cases h

theorem sum_update (threads : κ → LockThread Batch) (k : κ) (thread : LockThread Batch) :
    ∑ j, (Function.update threads k thread j).stepsLeft + (threads k).stepsLeft =
      ∑ j, (threads j).stepsLeft + thread.stepsLeft := by
  have hmove := sum_move (f := fun j => (threads j).stepsLeft)
    (g := fun j => (Function.update threads k thread j).stepsLeft) (k := k)
    fun j hj => congrArg LockThread.stepsLeft (Function.update_of_ne hj ..)
  simpa using hmove

/-- A call brings five steps at most, and each step of a thread is one of those. -/
theorem step_stepsLeft {action : PoolAction κ} (h : step action code = some code') :
    (if action.isRun then 1 else 0) + ∑ k, (code'.threads k).stepsLeft ≤
      ∑ k, (code.threads k).stepsLeft + 5 * (if action.isCall then 1 else 0) := by
  cases action with
  | call k call =>
    simp only [step] at h
    split at h
    · rename_i last hlast
      obtain ⟨-, h⟩ := Option.ite_none_right_eq_some.mp h
      obtain rfl := Option.some.inj h
      have hsum := sum_update code.threads k (.entering call)
      have hle := call.steps_le
      have hidle : (LockThread.idle last : LockThread Batch).stepsLeft = 0 := rfl
      have hentering : (LockThread.entering call).stepsLeft = call.steps := rfl
      rw [hlast, hidle, hentering] at hsum
      simp only [PoolAction.isRun, PoolAction.isCall, if_true, Bool.false_eq_true, if_false]
      omega
    · cases h
  | run k =>
    have hrun : ∃ thread, code'.threads = Function.update code.threads k thread ∧
        thread.stepsLeft + 1 = (code.threads k).stepsLeft := by
      simp only [step] at h
      split at h
      · rename_i lock thread hwants
        obtain ⟨-, h⟩ := Option.ite_none_right_eq_some.mp h
        obtain rfl := Option.some.inj h
        exact ⟨thread, rfl, LockThread.stepsLeft_wants hwants⟩
      · obtain ⟨⟨m, pool, inbox, thread⟩, hwork, h⟩ := Option.map_eq_some_iff.mp h
        exact ⟨thread, (congrArg threads h).symm, work_stepsLeft hwork⟩
    obtain ⟨thread, hthreads, hleft⟩ := hrun
    have hsum := sum_update code.threads k thread
    rw [hthreads]
    simp only [PoolAction.isRun, PoolAction.isCall, if_true]
    omega
  | elsewhere mem =>
    obtain ⟨-, h⟩ := Option.ite_none_right_eq_some.mp h
    obtain rfl := Option.some.inj h
    simp [PoolAction.isRun, PoolAction.isCall]

/-- A thread that waits for the inbox gets it, or another one has it and goes on. -/
theorem Inv.inbox_runs (inv : race.Inv) {thread : LockThread Seq}
    (h : (race.threads k).wants = some (.inbox, thread)) :
    ∃ j code', step (.run j) (race.map FreeList.ofSeq Batch.ofSeq) = some code' := by
  cases hholder : race.holder .inbox with
  | none => exact ⟨k, _, step_locks h hholder⟩
  | some j =>
    obtain ⟨hwants, hidle⟩ := LockThread.holds_inbox ((inv.locks .inbox j).mp hholder)
    obtain ⟨next, hstep, -⟩ := step_works (inv.works hidle hwants) hwants
    exact ⟨j, _, hstep⟩

/-- When a thread is in a call, there is one that can go on. -/
theorem Inv.runs (inv : race.Inv) (hidle : ∀ last, race.threads k ≠ .idle last) :
    ∃ j code', step (.run j) (race.map FreeList.ofSeq Batch.ofSeq) = some code' := by
  have hfree : ∀ j, (∀ last, race.threads j ≠ .idle last) →
      (∀ thread, (race.threads j).wants ≠ some (.pool, thread)) →
      ∃ j code', step (.run j) (race.map FreeList.ofSeq Batch.ofSeq) = some code' := by
    intro j hidle hpool
    cases hwants : (race.threads j).wants with
    | none =>
      obtain ⟨next, hstep, -⟩ := step_works (inv.works hidle hwants) hwants
      exact ⟨j, _, hstep⟩
    | some p =>
      obtain ⟨lock, thread⟩ := p
      cases lock with
      | pool => exact absurd hwants (hpool thread)
      | inbox => exact inv.inbox_runs hwants
  by_cases hpool : ∃ thread, (race.threads k).wants = some (.pool, thread)
  · obtain ⟨thread, hwants⟩ := hpool
    cases hholder : race.holder .pool with
    | none => exact ⟨k, _, step_locks hwants hholder⟩
    | some j =>
      obtain ⟨hnot, hbusy⟩ := LockThread.holds_pool ((inv.locks .pool j).mp hholder)
      exact hfree j hbusy hnot
  · exact hfree k hidle fun thread hwants => hpool ⟨thread, hwants⟩

/-- The threads never lock each other out.  In every run they make at most five steps for each call,
and until all calls are answered there is a thread that can go on. -/
theorem never_stuck (hp : 0 < mem.pageSize) {actions : List (PoolAction κ)}
    (h : runs step actions (start mem) = some code) :
    actions.countP PoolAction.isRun + ∑ k, (code.threads k).stepsLeft ≤
      5 * actions.countP PoolAction.isCall ∧
    ((∀ k, ∃ last, code.threads k = .idle last) ∨
      ∃ k code', step (.run k) code = some code') := by
  obtain ⟨-, hcount⟩ := runs_charge_le (I := fun _ => True) (p := PoolAction.isRun)
    (q := PoolAction.isCall) (n := 5) (f := fun code => ∑ k, (code.threads k).stepsLeft)
    (g := fun _ => 0) h trivial fun action _ s s' _ hstep => ⟨trivial, step_stepsLeft hstep⟩
  have hstart : ∑ k, ((start (κ := κ) mem).threads k).stepsLeft = 0 :=
    Finset.sum_eq_zero fun k _ => rfl
  refine ⟨by omega, ?_⟩
  obtain ⟨⟨race, rfl, inv⟩, -⟩ := stands_reaches hp (reaches_runs h)
  by_cases hidle : ∀ k, ∃ last, (race.map FreeList.ofSeq Batch.ofSeq).threads k = .idle last
  · exact Or.inl hidle
  · obtain ⟨k, hk⟩ := not_forall.mp hidle
    exact Or.inr (inv.runs fun last hlast => hk ⟨last, congrArg (LockThread.map Batch.ofSeq) hlast⟩)

/-- In the midst of `sampleLocks`, where one thread has the pool locked and the other one the
inbox. -/
theorem never_stuck_sample : ∃ code,
    runs step (sampleLocks.take 7) (start (Mem.zero 4096)) = some code ∧
    code.holder .pool = some 0 ∧ code.holder .inbox = some 1 ∧
    ∃ k code', step (.run k) code = some code' := by
  obtain ⟨code, hcode⟩ :
      ∃ code, runs step (sampleLocks.take 7) (start (Mem.zero 4096)) = some code :=
    Option.isSome_iff_exists.mp (by decide +kernel)
  have hstate : (runs step (sampleLocks.take 7) (start (Mem.zero 4096))).map (fun code =>
      (code.holder .pool, code.holder .inbox, code.threads 0)) =
        some (some 0, some 1, .entered (.takeRefill (false, false) 2)) := by
    decide +kernel
  rw [hcode, Option.map_some] at hstate
  obtain ⟨hpool, hinbox, hthread⟩ : _ ∧ _ ∧ _ := by simpa using hstate
  refine ⟨code, hcode, hpool, hinbox, ?_⟩
  refine (never_stuck (by decide) hcode).2.resolve_left fun hidle => ?_
  obtain ⟨last, hlast⟩ := hidle 0
  rw [hthread] at hlast
  cases hlast

end Progress

end PoolRace

end Orthotope
