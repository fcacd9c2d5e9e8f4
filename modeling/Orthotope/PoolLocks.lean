import Orthotope.CentralPoolRuns
import Orthotope.Oblivious
import Orthotope.Lib.Linearization

/-! The locks of the central pool.  A class has a lock for its pool and one for its inbox.  Most
calls lock the pool, and then for a moment the inbox; a remote publication locks the inbox alone.
So the sections of a class overlap, and threads interleave wherever they lock, unlock or stand
between two sections.  Here a call goes its way from lock to lock; elsewhere it is one step of
`CentralPool`. -/

namespace Orthotope

open ByteMemory LinkedChain Linearization

/-- A call of the pool for one class, with the answers of `advise_free` to the sweeps that it
starts. `blockCount` is what `block_counts` does for the class: it locks the classes one after the
other. -/
inductive PoolCall (B : Type) where
  | registerSlab (advised : Bool) (start blockSize capacity : Nat)
  | returnBatch (advised : Bool × Bool) (batch : B)
  | publishRemoteBatch (batch : B)
  | takeRefill (advised : Bool × Bool) (max : Nat)
  | blockCount
  deriving DecidableEq, Repr

inductive PoolAnswer (B : Type) where
  | unit
  | refill (refill : CentralRefill B)
  | count (n : Nat)
  deriving DecidableEq, Repr

namespace PoolCall

variable {L B B' : Type}

def map (g : B → B') : PoolCall B → PoolCall B'
  | registerSlab advised start blockSize capacity => .registerSlab advised start blockSize capacity
  | returnBatch advised batch => .returnBatch advised (g batch)
  | publishRemoteBatch batch => .publishRemoteBatch (g batch)
  | takeRefill advised max => .takeRefill advised max
  | blockCount => .blockCount

/-- The batch that comes with the call. -/
def batch? : PoolCall B → Option B
  | returnBatch _ batch | publishRemoteBatch batch => some batch
  | _ => none

/-- The span of a new slab. -/
def span? : PoolCall B → Option (Nat × Nat × Nat)
  | registerSlab _ start blockSize capacity => some (start, blockSize, capacity)
  | _ => none

/-- The call takes the inbox out before it changes the pool. -/
def drains : PoolCall B → Bool
  | returnBatch _ _ | takeRefill _ _ => true
  | _ => false

/-- The answer of `advise_free` to the sweep after the inbox is folded in. -/
def advisedFold : PoolCall B → Bool
  | returnBatch advised _ | takeRefill advised _ => advised.1
  | _ => false

end PoolCall

def PoolAnswer.map {B B' : Type} (g : B → B') : PoolAnswer B → PoolAnswer B'
  | unit => .unit
  | refill r => .refill (r.map g)
  | count n => .count n

/-- A call as one step of the whole pool. -/
def CentralPool.perform {L B : Type} [BlockStore L B] (m : Mem) (central : CentralPool L)
    (c : SizeClass) : PoolCall B → Option (Mem × CentralPool L × PoolAnswer B)
  | .registerSlab advised start blockSize capacity =>
    let (m, central) := central.registerSlab m advised c start blockSize capacity
    some (m, central, .unit)
  | .returnBatch advised batch =>
    (central.returnBatch m advised c batch).map fun (m, central) => (m, central, .unit)
  | .publishRemoteBatch batch =>
    (central.publishRemoteBatch m c batch).map fun (m, central) => (m, central, .unit)
  | .takeRefill advised max =>
    (central.takeRefill m advised c max).map fun (m, central, refill) =>
      (m, central, .refill refill)
  | .blockCount => some (m, central, .count (central.blockCounts c))

/-! ### Sections -/

section Sections

variable {L B : Type} [BlockStore L B]

/-- `drain_remote_inbox` after it has unlocked the inbox. -/
def ClassPool.foldPending (m : Mem) (advised : Bool) (pool : ClassPool L) (pending : B) :
    Option (Mem × ClassPool L) :=
  if BlockStore.batchIsEmpty L pending then some (m, pool) else pool.returnBatch m advised pending

/-- The last section of the calls that change the pool. -/
def ClassPool.serve (m : Mem) (pool : ClassPool L) :
    PoolCall B → Option (Mem × ClassPool L × PoolAnswer B)
  | .registerSlab advised start blockSize capacity =>
    let (pool, range) := pool.registerSlab m.pageSize advised start blockSize capacity
    some (ClassPool.applyAdvice m range, pool, .unit)
  | .returnBatch advised batch =>
    (pool.returnBatch m advised.2 batch).map fun (m, pool) => (m, pool, .unit)
  | .takeRefill advised max =>
    (pool.takeRefill m advised.2 max).map fun (m, pool, refill) => (m, pool, .refill refill)
  | .publishRemoteBatch _ | .blockCount => none

end Sections

/-- The two locks of a class. -/
inductive PoolLock where
  | pool
  | inbox
  deriving DecidableEq, Repr

/-- Where a thread is: between calls, with the blocks of its last answer; about to lock for the
first time; with the first lock; with the inbox open; with the pending batch taken out of it; with
that folded in.  `block_counts` has counted the pool, and then reads the inbox. -/
inductive LockThread (B : Type) where
  | idle (last : Option (PoolAnswer (List Nat)))
  | entering (call : PoolCall B)
  | entered (call : PoolCall B)
  | opened (call : PoolCall B)
  | taken (call : PoolCall B) (pending : B)
  | folded (call : PoolCall B)
  | counted (n : Nat)
  | reading (n : Nat)
  deriving DecidableEq, Repr

namespace LockThread

variable {B B' : Type}

def map (g : B → B') : LockThread B → LockThread B'
  | idle last => .idle last
  | entering call => .entering (call.map g)
  | entered call => .entered (call.map g)
  | opened call => .opened (call.map g)
  | taken call pending => .taken (call.map g) (g pending)
  | folded call => .folded (call.map g)
  | counted n => .counted n
  | reading n => .reading n

/-- The guards that the thread holds. -/
def holds : LockThread B → PoolLock → Bool
  | entered _, .pool | taken _ _, .pool | folded _, .pool | counted _, .pool => true
  | reading _, _ => true
  | opened (.publishRemoteBatch _), .inbox => true
  | opened (.publishRemoteBatch _), .pool => false
  | opened _, _ => true
  | _, _ => false

/-- The lock that the thread waits for, and where it is when it has it. -/
def wants : LockThread B → Option (PoolLock × LockThread B)
  | entering (.publishRemoteBatch batch) => some (.inbox, .opened (.publishRemoteBatch batch))
  | entering call => some (.pool, .entered call)
  | entered (.returnBatch advised batch) => some (.inbox, .opened (.returnBatch advised batch))
  | entered (.takeRefill advised max) => some (.inbox, .opened (.takeRefill advised max))
  | counted n => some (.inbox, .reading n)
  | _ => none

/-- The batches in the hands of the thread. -/
def batches : LockThread B → List B
  | entering call | entered call | opened call | folded call => call.batch?.toList
  | taken call pending => pending :: call.batch?.toList
  | _ => []

/-- The span that the thread is going to register. -/
def span? : LockThread B → Option (Nat × Nat × Nat)
  | entering call | entered call => call.span?
  | _ => none

end LockThread

/-- One class of the pool, its locks, and the threads that call it. -/
structure PoolRace (κ L B : Type) where
  mem : Mem
  pool : ClassPool L
  inbox : RemoteReturns L
  holder : PoolLock → Option κ
  threads : κ → LockThread B

/-- A call, a step of a thread, or a change of memory elsewhere. -/
inductive PoolAction (κ : Type) where
  | call (k : κ) (call : PoolCall Batch)
  | run (k : κ)
  | elsewhere (mem : Mem)

namespace PoolRace

variable {κ : Type}

def map {L L' B B' : Type} (f : L → L') (g : B → B') (race : PoolRace κ L B) :
    PoolRace κ L' B' where
  mem := race.mem
  pool := race.pool.map f
  inbox := race.inbox.map f
  holder := race.holder
  threads := fun k => (race.threads k).map g

def start (mem : Mem) : PoolRace κ FreeList Batch where
  mem := mem
  pool := ClassPool.new
  inbox := RemoteReturns.new
  holder := fun _ => none
  threads := fun _ => .idle none

/-- The state with the lists that its links lead through. -/
def contents (race : PoolRace κ FreeList Batch) : PoolRace κ (List Nat) (List Nat) :=
  race.map (FreeList.blocks race.mem) (Batch.blocks race.mem)

/-- What a thread does between its locks. -/
def work (m : Mem) (pool : ClassPool FreeList) (inbox : RemoteReturns FreeList) :
    LockThread Batch →
      Option (Mem × ClassPool FreeList × RemoteReturns FreeList × LockThread Batch)
  | .entered .blockCount => some (m, pool, inbox, .counted pool.centralBlockCount)
  | .opened (.publishRemoteBatch batch) =>
    (inbox.pushBatch m batch).map fun (m, inbox) => (m, pool, inbox, .idle (some .unit))
  | .opened call =>
    (inbox.takePending m).map fun (m, pending, inbox) => (m, pool, inbox, .taken call pending)
  | .taken call pending =>
    (pool.foldPending m call.advisedFold pending).map fun (m, pool) =>
      (m, pool, inbox, .folded call)
  | .entered (.registerSlab advised start blockSize capacity) =>
    (pool.serve m (.registerSlab advised start blockSize capacity)).map fun (m, pool, _) =>
      (m, pool, inbox, .idle (some .unit))
  | .folded call =>
    (pool.serve m call).map fun (m, pool, answer) =>
      (m, pool, inbox, .idle (some (answer.map (Batch.blocks m))))
  | .reading n => some (m, pool, inbox, .idle (some (.count (n + inbox.pendingLen))))
  | _ => none

/-- The blocks in the inbox and in the pool. -/
def stock (race : PoolRace κ (List Nat) (List Nat)) : Multiset Nat :=
  (race.inbox.pending : Multiset Nat) + race.pool.bag

end PoolRace

/-- The blocks in the hands of a thread. -/
def LockThread.hand (thread : LockThread (List Nat)) : Multiset Nat := thread.batches.flatten

/-- Two spans without a common address. -/
def SpansApart (span span' : Nat × Nat × Nat) : Prop :=
  span.1 + span.2.1 * span.2.2 ≤ span'.1 ∨ span'.1 + span'.2.1 * span'.2.2 ≤ span.1

instance (span span' : Nat × Nat × Nat) : Decidable (SpansApart span span') :=
  inferInstanceAs (Decidable (_ ∨ _))

/-- A span of whole blocks, apart from the slabs of the pool. -/
def ClassPool.Registrable {L : Type} (pool : ClassPool L) (span : Nat × Nat × Nat) : Prop :=
  (0 < span.1 ∧ 0 < span.2.1 ∧ 0 < span.2.2 ∧ headerAlignment ∣ span.1 ∧
    headerAlignment ∣ span.2.1 ∧ span.1 + span.2.1 * span.2.2 < 2 ^ 64) ∧
  ∀ slab ∈ pool.slabs, slab.endAddr ≤ span.1 ∨ span.1 + span.2.1 * span.2.2 ≤ slab.start

instance {L : Type} (pool : ClassPool L) (span : Nat × Nat × Nat) :
    Decidable (pool.Registrable span) :=
  inferInstanceAs (Decidable (_ ∧ _))

namespace PoolRace

variable {κ : Type} (race : PoolRace κ FreeList Batch)

/-- A batch of blocks of registered slabs, which are neither in the pool nor in the hands of a
thread. -/
def Returnable (batch : Batch) : Prop :=
  batch.Detached race.mem ∧ ∀ b ∈ batch.blocks race.mem,
    (∃ slab ∈ race.pool.slabs, b ∈ slab.blocks) ∧ b ∉ race.contents.stock ∧
      ∀ k, b ∉ (race.contents.threads k).hand

/-- What the callers see to. -/
def Allows (call : PoolCall Batch) : Prop :=
  (∀ batch ∈ call.batch?, race.Returnable batch) ∧
    ∀ span ∈ call.span?, race.pool.Registrable span ∧
      ∀ k, ∀ span' ∈ (race.threads k).span?, SpansApart span span'

/-- What the rest of the program sees to: the links of blocks in the pool and in the hands of its
threads stay as they are. -/
def Spares (mem : Mem) : Prop :=
  mem.pageSize = race.mem.pageSize ∧
    (∀ b ∈ race.contents.inbox.pending ++ race.contents.pool.freeLists.flatten,
      readSmallFreeListNext mem b = readSmallFreeListNext race.mem b) ∧
    ∀ k, ∀ b ∈ (race.contents.threads k).batches.flatten,
      readSmallFreeListNext mem b = readSmallFreeListNext race.mem b

section Step

variable [Fintype κ] [DecidableEq κ]

instance (batch : Batch) : Decidable (race.Returnable batch) :=
  inferInstanceAs (Decidable ((_ ∧ _ ∧ _) ∧ _))

instance (call : PoolCall Batch) : Decidable (race.Allows call) :=
  inferInstanceAs (Decidable (_ ∧ _))

instance (mem : Mem) : Decidable (race.Spares mem) :=
  inferInstanceAs (Decidable (_ ∧ _ ∧ _))

/-- A thread locks when nobody holds the lock, and unlocks what it needs no longer. -/
def step : PoolAction κ → PoolRace κ FreeList Batch → Option (PoolRace κ FreeList Batch)
  | .call k call, race =>
    match race.threads k with
    | .idle _ =>
      if race.Allows call then
        some { race with threads := Function.update race.threads k (.entering call) }
      else none
    | _ => none
  | .run k, race =>
    match (race.threads k).wants with
    | some (lock, thread) =>
      if race.holder lock = none then
        some { race with
          holder := Function.update race.holder lock (some k)
          threads := Function.update race.threads k thread }
      else none
    | none =>
      (work race.mem race.pool race.inbox (race.threads k)).map fun (mem, pool, inbox, thread) =>
        { mem, pool, inbox
          holder := fun lock =>
            if race.holder lock = some k ∧ thread.holds lock = false then none else race.holder lock
          threads := Function.update race.threads k thread }
  | .elsewhere mem, race => if race.Spares mem then some { race with mem } else none

end Step

end PoolRace

/-! ### What a section does to the whole -/

/-- The effect of a call as one step of the pool, whatever other classes hold, in any memory with
pages of this size. -/
def PoolCall.Does (pageSize : Nat) (call : PoolCall Seq) (x : ClassPool Seq × RemoteReturns Seq)
    (answer : PoolAnswer Seq) (x' : ClassPool Seq × RemoteReturns Seq) : Prop :=
  ∀ (c : SizeClass) (m : Mem) (central : CentralPool Seq), m.pageSize = pageSize →
    central.lists c = x.1 → central.remoteInboxes c = x.2 →
      ∃ m' central', central.perform m c call = some (m', central', answer) ∧
        central'.lists c = x'.1 ∧ central'.remoteInboxes c = x'.2

section Effects

variable {pool pool₁ pool₂ : ClassPool Seq} {inbox inbox' : RemoteReturns Seq} {m m' m₁ m₂ : Mem}
  {pageSize : Nat} {call : PoolCall Seq} {answer : PoolAnswer Seq} {pending : Seq}

theorem foldPending_alike (hp : m'.pageSize = m.pageSize) (advised : Bool) :
    Option.Rel Alike (pool.foldPending m advised pending)
    (pool.foldPending m' advised pending) := by
  unfold ClassPool.foldPending
  split
  · exact .some ⟨rfl, hp⟩
  · exact ClassPool.returnBatch_alike hp ..

theorem serve_alike (hp : m'.pageSize = m.pageSize) (call : PoolCall Seq) :
    Option.Rel Alike (pool.serve m call) (pool.serve m' call) := by
  cases call with
  | registerSlab advised start blockSize capacity =>
    refine .some ⟨?_, ?_⟩
    · simp only [hp]
    · simp only [ClassPool.applyAdvice_pageSize, hp]
  | returnBatch advised batch =>
    exact Alike.map (ClassPool.returnBatch_alike hp ..) fun m m' pool hp => ⟨rfl, hp⟩
  | takeRefill advised max =>
    exact Alike.map (ClassPool.takeRefill_alike hp ..) fun m m' r hp => ⟨rfl, hp⟩
  | publishRemoteBatch batch => exact .none
  | blockCount => exact .none

theorem Alike.of_some {R : Type} {x y : Option (Mem × R)} (h : Option.Rel Alike x y) {m : Mem}
    {r : R} (hx : x = some (m, r)) : ∃ m', y = some (m', r) ∧ m'.pageSize = m.pageSize := by
  subst hx
  cases h with
  | @some p q hpq =>
    obtain ⟨m', r'⟩ := q
    obtain ⟨hr, hm⟩ := hpq
    obtain rfl : r' = r := hr
    exact ⟨m', rfl, hm⟩

theorem does_count : PoolCall.Does pageSize .blockCount (pool, inbox)
    (.count (pool.centralBlockCount + inbox.pendingLen)) (pool, inbox) := by
  rintro c m central - rfl rfl
  exact ⟨m, central, rfl, rfl, rfl⟩

theorem does_publish {batch : Seq} (h : inbox.pushBatch m batch = some (m', inbox')) :
    PoolCall.Does pageSize (.publishRemoteBatch batch) (pool, inbox) .unit (pool, inbox') := by
  rintro c m₁ central - rfl rfl
  have hpush : (central.remoteInboxes c).pushBatch m₁ batch = some (m₁, inbox') := by
    unfold RemoteReturns.pushBatch at h ⊢
    split at h
    · rename_i hlen
      rw [if_pos hlen, (Prod.mk.inj (Option.some.inj h)).2]
    · rename_i hlen
      rw [if_neg hlen]
      obtain ⟨⟨m₂, l⟩, hl, h⟩ := Option.map_eq_some_iff.mp h
      obtain ⟨-, rfl⟩ := Prod.mk.inj (Option.some.inj hl)
      obtain ⟨-, rfl⟩ := Prod.mk.inj h
      rfl
  refine ⟨m₁, { central with
    remoteInboxes := Function.update central.remoteInboxes c inbox' }, ?_, rfl,
    Function.update_self ..⟩
  simp only [CentralPool.perform, CentralPool.publishRemoteBatch, hpush, Option.map_some]

theorem does_register {advised : Bool} {start blockSize capacity : Nat} (hp : m.pageSize = pageSize)
    (h : pool.serve m (.registerSlab advised start blockSize capacity) =
      some (m₁, pool₁, answer)) :
    PoolCall.Does pageSize (.registerSlab advised start blockSize capacity) (pool, inbox) answer
      (pool₁, inbox) := by
  rintro c m' central hp' rfl rfl
  obtain ⟨-, hpool, rfl⟩ : _ ∧ _ ∧ _ := by simpa [ClassPool.serve] using h
  refine ⟨_, _, rfl, ?_, rfl⟩
  rw [← hpool, hp, ← hp']
  exact Function.update_self ..

theorem drainRemoteInbox_eq {central : CentralPool Seq} {c : SizeClass} {advised : Bool}
    (htake : (central.remoteInboxes c).takePending m = some (m, pending, inbox'))
    (hfold : (central.lists c).foldPending m advised pending = some (m₁, pool₁)) :
    ∃ central', central.drainRemoteInbox m advised c = some (m₁, central') ∧
      central'.lists c = pool₁ ∧ central'.remoteInboxes c = inbox' := by
  unfold ClassPool.foldPending at hfold
  simp only [CentralPool.drainRemoteInbox, htake, Option.bind_some]
  obtain ⟨mid, hmid⟩ : ∃ mid : CentralPool Seq, mid = { central with
    remoteInboxes := Function.update central.remoteInboxes c inbox' } := ⟨_, rfl⟩
  have hinbox : mid.remoteInboxes c = inbox' := hmid ▸ Function.update_self ..
  rw [← hmid]
  split at hfold
  · rename_i hempty
    obtain ⟨rfl, rfl⟩ := Prod.mk.inj (Option.some.inj hfold)
    exact ⟨mid, if_pos hempty, hmid ▸ rfl, hinbox⟩
  · rename_i hempty
    refine ⟨{ mid with lists := Function.update mid.lists c pool₁ }, ?_, Function.update_self ..,
      hinbox⟩
    rw [if_neg hempty, hfold, Option.map_some, hmid]

/-- A call that takes the inbox out, folds it in and serves itself has been one step. -/
theorem does_drain (hcall : call.drains = true) (hp : m.pageSize = pageSize) (hok : inbox.Ok)
    (hfold : pool.foldPending m call.advisedFold inbox.pending = some (m₁, pool₁))
    (hserve : pool₁.serve m₁ call = some (m₂, pool₂, answer)) :
    PoolCall.Does pageSize call (pool, inbox) answer (pool₂, ⟨[], 0⟩) := by
  rintro c m' central hp' rfl rfl
  obtain ⟨m₁', hfold', hp₁⟩ := Alike.of_some
    (foldPending_alike (hp'.trans hp.symm) call.advisedFold) hfold
  obtain ⟨m₂', hserve', -⟩ := Alike.of_some (serve_alike hp₁ call) hserve
  obtain ⟨central', hdrain, hlists, hinboxes⟩ :=
    drainRemoteInbox_eq (RemoteReturns.takePending_spec hok m') hfold'
  cases call with
  | returnBatch advised batch =>
    obtain ⟨⟨m₃, pool₃⟩, hreturn, heq⟩ := Option.map_eq_some_iff.mp hserve'
    obtain ⟨rfl, rfl, rfl⟩ : _ ∧ _ ∧ _ := by simpa using heq
    refine ⟨m₃, { central' with lists := Function.update central'.lists c pool₃ }, ?_,
      Function.update_self .., hinboxes⟩
    simp only [PoolCall.advisedFold] at hdrain
    simp only [CentralPool.perform, CentralPool.returnBatch, hdrain, Option.bind_some, hlists,
      hreturn, Option.map_some]
  | takeRefill advised max =>
    obtain ⟨⟨m₃, pool₃, refill⟩, htake, heq⟩ := Option.map_eq_some_iff.mp hserve'
    obtain ⟨rfl, rfl, rfl⟩ : _ ∧ _ ∧ _ := by simpa using heq
    refine ⟨m₃, { central' with lists := Function.update central'.lists c pool₃ }, ?_,
      Function.update_self .., hinboxes⟩
    simp only [PoolCall.advisedFold] at hdrain
    simp only [CentralPool.perform, CentralPool.takeRefill, hdrain, Option.bind_some, hlists,
      htake, Option.map_some]
  | _ => cases hcall

end Effects

end Orthotope
