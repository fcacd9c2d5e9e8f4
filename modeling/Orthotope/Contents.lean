import Orthotope.Runs

/-! What the structures of the code hold.  The blocks of a free list are read off by following its
links, and `World.contents` is the state over sequences that this gives.  In a reachable state it is
the state that the code stands for, so all that is known of the places of blocks holds for the lists
that are in memory. -/

namespace Orthotope

open ByteMemory LinkedChain Ownership

variable {ι κ : Type}

/-- The state over sequences whose lists are the ones that the links in memory lead through. -/
def World.contents (w : World ι κ FreeList Batch) : World ι κ Seq Seq where
  mem := w.mem
  allocators := fun a => (w.allocators a).map (FreeList.blocks w.mem)
  caches := fun k => (w.caches k).map (FreeList.blocks w.mem)
  threads := fun k => (w.threads k).map (Batch.blocks w.mem)
  live := w.live

/-! ### The contents of a reachable state -/

section Maps

variable {L : Type} {f : L → Seq} {g : Seq → L}

theorem ThreadCache.map_map_eq {cache : ThreadCache ι Seq}
    (hclasses : ∀ c, ∀ l ∈ (cache.classes c).lists, f (g l) = l)
    (hreturns : ∀ c, f (g (cache.remoteReturns c).pending) = (cache.remoteReturns c).pending) :
    (cache.map g).map f = cache := by
  have h1 : (fun c => ((cache.classes c).map g).map f) = cache.classes := funext fun c =>
    LocalClassCache.map_map_eq (hclasses c)
  have h2 : (fun c => ((cache.remoteReturns c).map g).map f) = cache.remoteReturns :=
    funext fun c =>
    RemoteReturns.map_map_eq (hreturns c)
  simp only [ThreadCache.map, h1, h2]

theorem Thread.map_map_eq {thread : Thread ι κ Seq} (h : f (g thread.batch) = thread.batch) :
    (thread.map g).map f = thread := by
  cases thread with
  | idle last => rfl
  | busy a pc =>
    cases pc with
    | gotBatch c size batch => exact congrArg (fun b => Thread.busy a (.gotBatch c size b)) h
    | publishing c batch resume =>
      exact congrArg (fun b => Thread.busy a (.publishing c b resume)) h
    | returning c batch resume => exact congrArg (fun b => Thread.busy a (.returning c b resume)) h
    | _ => rfl

end Maps

/-- The lists in memory are those of the state that the code stands for. -/
theorem Refines.contents_eq {w : World ι κ FreeList Batch} {s : World ι κ Seq Seq}
    (h : Refines w s) : w.contents = { s with mem := w.mem } := by
  have hlist : ∀ g, ∀ l ∈ s.group g, (FreeList.ofSeq l).blocks w.mem = l := fun g l hl =>
    FreeList.blocks_ofSeq (h.linked g l hl)
  have hallocators : w.contents.allocators = s.allocators := by
    funext a
    have : (s.allocators a).central = (((s.allocators a).central.map FreeList.ofSeq).map
        (FreeList.blocks w.mem)) :=
      (CentralPool.map_map_eq fun c l hl => hlist (.central a c) l hl).symm
    simp only [World.contents, Allocator.map]
    rw [h.code]
    simp only [World.code, Allocator.map]
    rw [← this]
  have hcaches : w.contents.caches = s.caches := by
    funext k
    simp only [World.contents]
    rw [h.code]
    exact ThreadCache.map_map_eq (fun c l hl => hlist (.cache k c) l hl)
      fun c => hlist (.staged k c) _ (List.mem_singleton_self _)
  have hthreads : w.contents.threads = s.threads := by
    funext k
    simp only [World.contents]
    rw [h.code]
    exact Thread.map_map_eq (Batch.blocks_ofSeq (h.linked (.hand k) _ (List.mem_singleton_self _)))
  have hlive : w.contents.live = s.live := h.live_eq
  obtain ⟨mem, allocators, caches, threads, live⟩ := s
  simp only at hallocators hcaches hthreads hlive
  rw [← hallocators, ← hcaches, ← hthreads, ← hlive]
  rfl

end Orthotope
