import Orthotope.CentralPool

/-! The thread cache, `ThreadCache` of `thread_cache.rs`: a local cache and a list of staged remote
frees for each class, bound to one allocator at a time.  Operations that take a lock between two
pieces of local code are given as their local pieces. -/

namespace Orthotope

open ByteMemory

structure ClassCacheConfig where
  refillCount : Nat
  localLimit : Nat
  drainCount : Nat
  deriving DecidableEq, Repr

def classConfigTable (config : AllocatorConfig) (c : SizeClass) : ClassCacheConfig where
  refillCount := config.refillCount c
  localLimit := config.localLimit c
  drainCount := config.drainCount c

/-- `ι` identifies allocators. -/
structure ThreadCache (ι L : Type) where
  config : AllocatorConfig
  classConfig : SizeClass → ClassCacheConfig
  owner : Option ι
  cacheId : Nat
  classes : SizeClass → LocalClassCache L
  remoteReturns : SizeClass → RemoteReturns L

namespace ThreadCache

section Shape

variable {ι L : Type}

def new [BlockList L] (config : AllocatorConfig) (cacheId : Nat) : ThreadCache ι L where
  config := config
  classConfig := classConfigTable config
  owner := none
  cacheId := cacheId
  classes := fun _ => LocalClassCache.new
  remoteReturns := fun _ => RemoteReturns.new

def isEmpty (cache : ThreadCache ι L) : Bool :=
  SizeClass.all.all (fun c => (cache.classes c).isEmpty) &&
    SizeClass.all.all fun c => (cache.remoteReturns c).isEmpty

def resetForRebind [BlockList L] (cache : ThreadCache ι L) : ThreadCache ι L :=
  { cache with
    classes := fun _ => LocalClassCache.new
    remoteReturns := fun _ => RemoteReturns.new }

/-- Binds the cache to the allocator `id`.  A cache that still holds blocks of another one is
refused: the assertion in the source panics. -/
def bindToAllocator [BlockList L] [DecidableEq ι] (cache : ThreadCache ι L) (id : ι)
    (config : AllocatorConfig) : Option (ThreadCache ι L) :=
  if cache.owner = some id then some cache
  else if !cache.isEmpty then none
  else
    some { cache.resetForRebind with
      config
      classConfig := classConfigTable config
      owner := some id }

def setClass (cache : ThreadCache ι L) (c : SizeClass) (class_ : LocalClassCache L) :
    ThreadCache ι L :=
  { cache with classes := Function.update cache.classes c class_ }

def setRemoteReturns (cache : ThreadCache ι L) (c : SizeClass) (returns : RemoteReturns L) :
    ThreadCache ι L :=
  { cache with remoteReturns := Function.update cache.remoteReturns c returns }

@[simp] theorem setClass_same (cache : ThreadCache ι L) (c : SizeClass)
    (class_ : LocalClassCache L) : (cache.setClass c class_).classes c = class_ :=
  Function.update_self ..

theorem setClass_ne (cache : ThreadCache ι L) {c d : SizeClass} (h : d ≠ c)
    (class_ : LocalClassCache L) : (cache.setClass c class_).classes d = cache.classes d :=
  Function.update_of_ne h ..

@[simp] theorem setClass_remoteReturns (cache : ThreadCache ι L) (c : SizeClass)
    (class_ : LocalClassCache L) :
    (cache.setClass c class_).remoteReturns = cache.remoteReturns := rfl

@[simp] theorem setRemoteReturns_classes (cache : ThreadCache ι L) (c : SizeClass)
    (returns : RemoteReturns L) :
    (cache.setRemoteReturns c returns).classes = cache.classes := rfl

@[simp] theorem setRemoteReturns_same (cache : ThreadCache ι L) (c : SizeClass)
    (returns : RemoteReturns L) : (cache.setRemoteReturns c returns).remoteReturns c = returns :=
  Function.update_self ..

theorem setRemoteReturns_ne (cache : ThreadCache ι L) {c d : SizeClass} (h : d ≠ c)
    (returns : RemoteReturns L) :
    (cache.setRemoteReturns c returns).remoteReturns d = cache.remoteReturns d :=
  Function.update_of_ne h ..

def needsRefill (cache : ThreadCache ι L) (c : SizeClass) : Bool := (cache.classes c).isEmpty

def shouldDrain (cache : ThreadCache ι L) (c : SizeClass) : Bool :=
  (cache.classConfig c).localLimit < (cache.classes c).totalLen

def shouldFlushRemoteReturns (cache : ThreadCache ι L) (c : SizeClass) : Bool :=
  (cache.classConfig c).drainCount ≤ (cache.remoteReturns c).pendingLen

def pushOwnedSlab [BlockList L] (cache : ThreadCache ι L) (c : SizeClass)
    (start blockSize capacity : Nat) : ThreadCache ι L :=
  cache.setClass c ((cache.classes c).pushOwnedSlab start blockSize capacity)

end Shape

variable {ι L B : Type} [BlockStore L B]

/-- Pops one block from a class known to be non-empty. -/
def popAvailableUnchecked (m : Mem) (cache : ThreadCache ι L) (c : SizeClass) :
    Option (Nat × BlockReuse × ThreadCache ι L) :=
  ((cache.classes c).popBlockUnchecked m).map fun (block, reuse, class_) =>
    (block, reuse, cache.setClass c class_)

/-- Pushes one block; `shouldDrain` of the result says whether the class is over its limit. -/
def push (debug : Bool) (m : Mem) (cache : ThreadCache ι L) (c : SizeClass) (block : Nat) :
    Option (Mem × ThreadCache ι L) :=
  ((cache.classes c).pushBlock debug m block).map fun (m, class_) => (m, cache.setClass c class_)

/-- Stages one block freed by a cache that does not own it. -/
def pushRemoteReturn (m : Mem) (cache : ThreadCache ι L) (c : SizeClass) (block : Nat) :
    Mem × ThreadCache ι L :=
  let (m, returns) := (cache.remoteReturns c).pushBlock m block
  (m, cache.setRemoteReturns c returns)

/-- Detaches the staged blocks that `flush_remote_returns_for_class` publishes. -/
def takeRemoteReturns (m : Mem) (cache : ThreadCache ι L) (c : SizeClass) :
    Option (Mem × B × ThreadCache ι L) :=
  ((cache.remoteReturns c).takeAllUnchecked m).map fun (m, batch, returns) =>
    (m, batch, cache.setRemoteReturns c returns)

/-- Takes in a batch that `refill_from_central` was given. -/
def pushSharedBatch (m : Mem) (cache : ThreadCache ι L) (c : SizeClass) (batch : B) :
    Option (Mem × ThreadCache ι L) :=
  ((cache.classes c).pushSharedBatch m batch).map fun (m, class_) => (m, cache.setClass c class_)

/-- Detaches up to `max` blocks of a class on their way to the central pool. -/
def popBatch (m : Mem) (cache : ThreadCache ι L) (c : SizeClass) (max : Nat) :
    Option (Mem × B × ThreadCache ι L) :=
  ((cache.classes c).popBatch m max c).map fun (m, batch, class_) =>
    (m, batch, cache.setClass c class_)

end ThreadCache

end Orthotope
