import Orthotope.Allocator

/-! The allocator under concurrent use.  Any number of threads, each with its own cache, call any of
a family of allocators that share one memory.  A call is a sequence of atomic steps, each of which
is one lock section, one committed arena reservation, or the local code between two of these; the
control point of a call says which step comes next and what the call has in its hands.  The steps of
different threads interleave in any order, with the clients' own stores and with the system
discarding reclaimable pages.

The model is generic in the representation of free lists: at `FreeList` it is the code, and at
`List Nat` the same program over plain sequences. -/

namespace Orthotope

open ByteMemory

/-- An allocation in the hands of its client: the allocator and the cache it came from, and the byte
last stored at each offset since. -/
structure Live (ι κ : Type) where
  alloc : ι
  cache : κ
  ptr : Nat
  size : Nat
  written : Nat → Option UInt8

/-- How a call ended. -/
inductive Outcome where
  | allocated (ptr : Nat)
  | allocError (e : AllocError)
  | freed
  | freeError (e : FreeError)
  | drained
  | panicked
  deriving DecidableEq

/-- What follows a transfer to the central pool: the return of a free, or the rest of a drain. -/
inductive Resume where
  | done
  | flush (classes : List SizeClass)
  | drain (classes : List SizeClass)
  deriving DecidableEq, Repr

/-- The control points of the calls. -/
inductive Pc (ι κ B : Type) where
  -- allocate_small_with_cache
  | refill (c : SizeClass) (size : Nat)
  | gotBatch (c : SizeClass) (size : Nat) (batch : B)
  | gotSlab (c : SizeClass) (size start blockSize capacity : Nat)
  | carve (c : SizeClass) (size : Nat)
  | carved (c : SizeClass) (size : Nat) (span : ReservedSpan)
  | registered (c : SizeClass) (size start blockSize capacity : Nat)
  | pop (c : SizeClass) (size : Nat)
  | popped (c : SizeClass) (size block : Nat) (reuse : BlockReuse)
  -- allocate_large
  | large (size blockSize : Nat)
  | largeCarve (size blockSize : Nat)
  | largeGot (size blockStart blockSize : Nat)
  | largeWritten (size blockStart blockSize : Nat)
  /- an allocation that is about to read `Arena::remaining` for its error -/
  | report (size : Nat)
  -- deallocate_with_cache and deallocate_with_size_checked
  | route (c : SizeClass) (block owner : Nat)
  | releasing (entry : Live ι κ) (requestedSize usableSize : Nat)
  -- drain_thread_cache, and the transfers that it shares with a free
  | flush (classes : List SizeClass)
  | drain (classes : List SizeClass)
  | unstage (c : SizeClass) (resume : Resume)
  | publishing (c : SizeClass) (batch : B) (resume : Resume)
  | excess (c : SizeClass) (max : Nat) (resume : Resume)
  | returning (c : SizeClass) (batch : B) (resume : Resume)

/-- The thread of a cache is between calls, or in a call of allocator `a`. -/
inductive Thread (ι κ B : Type) where
  | idle (last : Option Outcome)
  | busy (a : ι) (pc : Pc ι κ B)

/-- What one step of a call reads and changes: the memory, the allocator called, the cache and the
thread that call it, and the live allocations. -/
structure View (ι κ L B : Type) where
  mem : Mem
  allocator : Allocator L
  cache : ThreadCache ι L
  live : List (Live ι κ)
  thread : Thread ι κ B

namespace View

section Shape

variable {ι κ L B : Type} (v : View ι κ L B)

def finish (outcome : Outcome) : View ι κ L B := { v with thread := .idle (some outcome) }

def goto (a : ι) (pc : Pc ι κ B) : View ι κ L B := { v with thread := .busy a pc }

def setMem (m : Mem) : View ι κ L B := { v with mem := m }

def setCache (cache : ThreadCache ι L) : View ι κ L B := { v with cache }

def setArena (arena : Arena) : View ι κ L B := { v with allocator := { v.allocator with arena } }

def setCentral (central : CentralPool L) : View ι κ L B :=
  { v with allocator := { v.allocator with central } }

def setLarge (large : LargeObjectState) : View ι κ L B :=
  { v with allocator := { v.allocator with large } }

def addLive (entry : Live ι κ) : View ι κ L B := { v with live := v.live ++ [entry] }

def resume (a : ι) : Resume → View ι κ L B
  | .done => v.finish .freed
  | .flush classes => v.goto a (.flush classes)
  | .drain classes => v.goto a (.drain classes)

end Shape

/-- The header writes that `allocate_small_with_cache` makes on a popped block. -/
def writeHeader (debug : Bool) (m : Mem) (c : SizeClass) (size block owner : Nat)
    (reuse : BlockReuse) : Mem :=
  let m := clearSmallFreeMetadata debug m block
  match reuse with
  | .hotReuseRequestedOnly => refreshSmallRequestedSizeUnchecked m block size
  | .needsOwnerAndRequestedSizeRefresh =>
    refreshSmallRequestedSizeAndOwnerUnchecked m block size owner
  | .needsHeaderRewrite => writeSmallToBlockUnchecked m block c size owner

variable {ι κ L B : Type} [BlockStore L B]

/-- The next step of the call of allocator `a` by the cache `k` that has come to the given point. -/
def next (debug : Bool) (advised : Bool × Bool) (a : ι) (k : κ) (v : View ι κ L B) :
    Pc ι κ B → Option (View ι κ L B)
  | .refill c size =>
    (v.allocator.central.takeRefill v.mem advised c (v.cache.classConfig c).refillCount).map
      fun (m, central, refill) =>
        let v := (v.setMem m).setCentral central
        match refill with
        | .empty => v.goto a (.carve c size)
        | .batch batch => v.goto a (.gotBatch c size batch)
        | .slab start blockSize capacity => v.goto a (.gotSlab c size start blockSize capacity)
  | .gotBatch c size batch =>
    (v.cache.pushSharedBatch v.mem c batch).map fun (m, cache) =>
      ((v.setMem m).setCache cache).goto a
        (if BlockStore.batchLen L batch = 0 then .carve c size else .pop c size)
  | .gotSlab c size start blockSize capacity =>
    some ((v.setCache (v.cache.pushOwnedSlab c start blockSize capacity)).goto a
      (if capacity = 0 then .carve c size else .pop c size))
  | .carve c size =>
    match v.allocator.arena.reserveBlockSpan (v.allocator.config.classBlockSize c)
        (v.allocator.config.refillCount c) with
    | .error (.outOfMemory _ remaining) =>
      some (v.finish (.allocError (.outOfMemory size remaining)))
    | .error e => some (v.finish (.allocError e))
    | .ok (none, _) => some (v.goto a (.report size))
    | .ok (some span, arena) => some ((v.setArena arena).goto a (.carved c size span))
  | .carved c size span =>
    let blockSize := v.allocator.config.classBlockSize c
    let carved := span.size / blockSize
    let (m, central) :=
      v.allocator.central.registerSlab v.mem advised.1 c span.start blockSize carved
    some (((v.setMem m).setCentral central).goto a
      (.registered c size span.start blockSize carved))
  | .registered c size start blockSize capacity =>
    some ((v.setCache (v.cache.pushOwnedSlab c start blockSize capacity)).goto a
      (if capacity = 0 then .report size else .pop c size))
  | .pop c size =>
    (v.cache.popAvailableUnchecked v.mem c).map fun (block, reuse, cache) =>
      (v.setCache cache).goto a (.popped c size block reuse)
  | .popped c size block reuse =>
    let ptr := userPtrFromBlockStart block
    some (((v.setMem (writeHeader debug v.mem c size block v.cache.cacheId reuse)).addLive
      ⟨a, k, ptr, size, fun _ => none⟩).finish (.allocated ptr))
  | .large size blockSize =>
    (v.allocator.large.takeReusableBlock blockSize).map fun (found, large) =>
      let v := v.setLarge large
      match found with
      | some block => v.goto a (.largeGot size block.blockAddr block.blockSize)
      | none => v.goto a (.largeCarve size blockSize)
  | .largeCarve size blockSize =>
    match v.allocator.arena.allocateBlock blockSize with
    | .error (.outOfMemory _ remaining) =>
      some (v.finish (.allocError (.outOfMemory size remaining)))
    | .error e => some (v.finish (.allocError e))
    | .ok (start, arena) => some ((v.setArena arena).goto a (.largeGot size start blockSize))
  | .largeGot size blockStart blockSize =>
    match writeLargeToBlock v.mem blockStart size (blockSize - headerSize) with
    | none => some (v.goto a (.report size))
    | some m => some ((v.setMem m).goto a (.largeWritten size blockStart blockSize))
  | .largeWritten size blockStart blockSize =>
    let ptr := userPtrFromBlockStart blockStart
    (v.allocator.large.recordLiveAllocation ptr blockStart blockSize size
      (blockSize - headerSize)).map fun large =>
        ((v.setLarge large).addLive ⟨a, k, ptr, size, fun _ => none⟩).finish (.allocated ptr)
  | .report size =>
    some (v.finish (.allocError (.outOfMemory size v.allocator.arena.remaining)))
  | .route c block owner =>
    if owner = v.cache.cacheId then
      (v.cache.push debug v.mem c block).map fun (m, cache) =>
        let v := (v.setMem m).setCache cache
        if cache.shouldDrain c then v.goto a (.excess c (cache.classConfig c).drainCount .done)
        else v.finish .freed
    else
      let (m, cache) := v.cache.pushRemoteReturn v.mem c block
      let v := (v.setMem m).setCache cache
      some (if cache.shouldFlushRemoteReturns c then v.goto a (.unstage c .done)
        else v.finish .freed)
  | .releasing entry requestedSize usableSize =>
    (v.allocator.large.validateAndReleaseLiveAllocation entry.ptr requestedSize usableSize).map
      fun
      | .error e => (v.addLive entry).finish (.freeError e)
      | .ok large => (v.setLarge large).finish .freed
  | .flush [] => some (v.goto a (.drain SizeClass.all))
  | .flush (c :: classes) => some (v.goto a (.unstage c (.flush classes)))
  | .drain [] => some (v.finish .drained)
  | .drain (c :: classes) =>
    let len := (v.cache.classes c).totalLen
    some (v.goto a (if len = 0 then .drain classes else .excess c len (.drain (c :: classes))))
  | .unstage c resume =>
    if (v.cache.remoteReturns c).isEmpty then some (v.resume a resume)
    else
      (v.cache.takeRemoteReturns v.mem c).map fun (m, batch, cache) =>
        ((v.setMem m).setCache cache).goto a (.publishing c batch resume)
  | .publishing c batch resume =>
    (v.allocator.central.publishRemoteBatch v.mem c batch).map fun (m, central) =>
      ((v.setMem m).setCentral central).resume a resume
  | .excess c max resume =>
    (v.cache.popBatch v.mem c max).map fun (m, batch, cache) =>
      ((v.setMem m).setCache cache).goto a (.returning c batch resume)
  | .returning c batch resume =>
    (v.allocator.central.returnBatch v.mem advised c batch).map fun (m, central) =>
      ((v.setMem m).setCentral central).resume a resume

/-- The start of `allocate_with_cache`, after the cache has been bound. -/
def startAllocate (a : ι) (v : View ι κ L B) (size : Nat) : View ι κ L B :=
  if size = 0 then v.finish (.allocError .zeroSize)
  else
    match SizeClass.fromRequest size with
    | none =>
      match v.allocator.largeBlockSize size with
      | none => v.goto a (.report size)
      | some blockSize => v.goto a (.large size blockSize)
    | some c => v.goto a (if v.cache.needsRefill c then .refill c size else .pop c size)

/-- The start of a free of `entry`, after the cache has been bound.  Once its checks have passed the
entry is no longer the client's, which keeps `rest`. -/
def startFree (debug : Bool) (a : ι) (v : View ι κ L B) (entry : Live ι κ)
    (rest : List (Live ι κ)) (expectedSize : Option Nat) : View ι κ L B :=
  match v.allocator.checkFree debug v.mem entry.ptr expectedSize with
  | .error e => v.finish (.freeError e)
  | .ok (.small c block owner) =>
    { (v.setMem (markSmallBlockFreed debug v.mem block)).goto a (.route c block owner) with
      live := rest }
  | .ok (.large requestedSize usableSize) =>
    { v.goto a (.releasing entry requestedSize usableSize) with live := rest }

end View

/-- The state of the whole system. -/
structure World (ι κ L B : Type) where
  mem : Mem
  allocators : ι → Allocator L
  caches : κ → ThreadCache ι L
  threads : κ → Thread ι κ B
  live : List (Live ι κ)

/-- A call, a step of the call in progress on a cache, a store by the client of a live allocation,
or a discard of a page.  Frees name the allocation by its place in the list of live ones; `advised`
are the answers of `advise_free` to the sweeps of a step. -/
inductive Action (ι κ : Type) where
  | allocate (k : κ) (a : ι) (size : Nat)
  | deallocate (k : κ) (a : ι) (i : Nat) (expectedSize : Option Nat)
  | drain (k : κ) (a : ι)
  | run (k : κ) (advised : Bool × Bool)
  | store (i offset : Nat) (value : UInt8)
  | discard (page : Nat)

namespace World

variable {ι κ L B : Type} [DecidableEq ι] [DecidableEq κ]

def view (w : World ι κ L B) (a : ι) (k : κ) : View ι κ L B :=
  ⟨w.mem, w.allocators a, w.caches k, w.live, w.threads k⟩

def update (w : World ι κ L B) (a : ι) (k : κ) (v : View ι κ L B) : World ι κ L B where
  mem := v.mem
  allocators := Function.update w.allocators a v.allocator
  caches := Function.update w.caches k v.cache
  threads := Function.update w.threads k v.thread
  live := v.live

variable [BlockStore L B]

/-- Starts a call of allocator `a` on the idle cache `k`, which binds the cache first.  A refused
binding panics and changes nothing. -/
def call (w : World ι κ L B) (k : κ) (a : ι) (start : View ι κ L B → View ι κ L B) :
    Option (World ι κ L B) :=
  match w.threads k with
  | .busy _ _ => none
  | .idle _ =>
    match (w.caches k).bindToAllocator a (w.allocators a).config with
    | none => some (w.update a k ((w.view a k).finish .panicked))
    | some cache => some (w.update a k (start ((w.view a k).setCache cache)))

/-- One action.  An action that is not possible in this state has no result, and neither has a step
that would be undefined or panic in the source. -/
def step (debug : Bool) (w : World ι κ L B) : Action ι κ → Option (World ι κ L B)
  | .allocate k a size => w.call k a fun v => v.startAllocate a size
  | .deallocate k a i expectedSize =>
    w.live[i]?.bind fun entry =>
      w.call k a fun v => v.startFree debug a entry (v.live.eraseIdx i) expectedSize
  | .drain k a => w.call k a fun v => v.goto a (.flush SizeClass.all)
  | .run k advised =>
    match w.threads k with
    | .idle _ => none
    | .busy a pc => ((w.view a k).next debug advised a k pc).map (w.update a k)
  | .store i offset value =>
    w.live[i]?.bind fun entry =>
      if offset < entry.size then
        some { w with
          mem := w.mem.write (entry.ptr + offset) 1 value.toNat
          live := w.live.set i
            { entry with written := Function.update entry.written offset (some value) } }
      else none
  | .discard page =>
    if w.mem.lazyPage page then some { w with mem := w.mem.discard page } else none

end World

/-- A family of allocators and caches that a run starts from.  The configurations are accepted by
`Allocator::new` for the mappings that the system returned, and these neither wrap around the
address space nor overlap.  Caches have any configuration and any identifier. -/
structure Setup (ι κ : Type) where
  debug : Bool
  pageSize : Nat
  config : ι → AllocatorConfig
  mapping : ι → Nat
  arena : ι → Arena
  cacheConfig : κ → AllocatorConfig
  cacheId : κ → Nat
  pageSize_isPowerOfTwo : pageSize.isPowerOfTwo
  accepted : ∀ a, (Allocator.new (config a) (mapping a) : Except InitError (Allocator FreeList)) =
    .ok ⟨config a, arena a, CentralPool.new, LargeObjectState.new⟩
  mapping_le : ∀ a, mapping a + ((config a).arenaSize + (config a).alignment - 1) ≤ usizeLimit
  mapping_disjoint : ∀ a b, a ≠ b →
    mapping a + ((config a).arenaSize + (config a).alignment - 1) ≤ mapping b ∨
    mapping b + ((config b).arenaSize + (config b).alignment - 1) ≤ mapping a
  cacheId_lt : ∀ k, cacheId k < 2 ^ 32

namespace Setup

variable {ι κ : Type} (setup : Setup ι κ)

/-- The state in which no call has been made yet and the mapped memory is zero. -/
def world (L B : Type) [BlockList L] : World ι κ L B where
  mem := Mem.zero setup.pageSize
  allocators := fun a => ⟨setup.config a, setup.arena a, CentralPool.new, LargeObjectState.new⟩
  caches := fun k => ThreadCache.new (setup.cacheConfig k) (setup.cacheId k)
  threads := fun _ => .idle none
  live := []

variable [DecidableEq ι] [DecidableEq κ] {L B : Type} [BlockStore L B]

/-- The states that some interleaving of actions leads to. -/
inductive Reachable : World ι κ L B → Prop
  | initial : Reachable (setup.world L B)
  | step {w w' : World ι κ L B} (action : Action ι κ) (h : Reachable w)
      (hstep : w.step setup.debug action = some w') : Reachable w'

end Setup

end Orthotope
