import Orthotope.Quiescence

/-! The exact capacity of an arena.  When a single cache asks a fresh allocator for one class only,
every reservation is a whole number of blocks and no block is ever out of the cache's reach, so an
allocation succeeds as long as fewer blocks are live than fit in the arena. -/

namespace Orthotope

open ByteMemory Ownership

variable {ι κ : Type}

/-- The action is one of cache `k` on allocator `a`, and requests class `c` if it allocates. -/
def Action.Uses (a : ι) (k : κ) (c : SizeClass) : Action ι κ → Prop
  | .allocate j b size => j = k ∧ b = a ∧ SizeClass.fromRequest size = some c
  | .deallocate j b _ _ | .drain j b => j = k ∧ b = a
  | .run .. | .store .. | .discard _ => True

/-- The allocation was made by cache `k` on allocator `a`, for class `c`. -/
def Live.Uses (a : ι) (k : κ) (c : SizeClass) (e : Live ι κ) : Prop :=
  e.alloc = a ∧ e.cache = k ∧ SizeClass.fromRequest e.size = some c

/-- Where the only call can be: it moves blocks of class `c`, and never stages one. -/
def Thread.Sole (a : ι) (c : SizeClass) (id : Nat) : Thread ι κ Seq → Prop
  | .idle _ => True
  | .busy b pc => b = a ∧ match pc with
    | .refill d _ | .gotBatch d _ _ | .gotSlab d _ _ _ _ | .carve d _ | .carved d _ _
    | .registered d _ _ _ _ | .pop d _ | .popped d _ _ _ => d = c
    | .route d _ owner => d = c ∧ owner = id
    | .large .. | .largeCarve .. | .largeGot .. | .largeWritten .. | .releasing .. => False
    | .publishing .. => False
    | _ => True

/-- The bytes that the call has reserved and not registered yet. -/
def Thread.unregistered : Thread ι κ Seq → Nat
  | .busy _ (.carved _ _ span) => span.size
  | _ => 0

/-- One cache has been used, for one class. -/
structure Sole (setup : Setup ι κ) (a : ι) (k : κ) (c : SizeClass) (s : World ι κ Seq Seq) :
    Prop where
  idle : ∀ j, j ≠ k → ∃ last, s.threads j = .idle last
  owner : ∀ j b, (s.caches j).owner = some b → j = k ∧ b = a
  staged : ∀ d, ((s.caches k).remoteReturns d).pending = []
  live : ∀ e ∈ s.live, e.Uses a k c
  thread : (s.threads k).Sole a c (setup.cacheId k)
  next : (s.allocators a).arena.next = ((s.allocators a).central.lists c).capacity *
    (setup.config a).classBlockSize c + (s.threads k).unregistered

section Steps

variable {setup : Setup ι κ} {s s' : World ι κ Seq Seq} {a : ι} {k : κ} {c : SizeClass}

theorem ClassPool.capacity_eq (pool : ClassPool Seq) :
    pool.capacity = (pool.shapes.map fun shape => shape.2.2.2).sum := by
  rw [ClassPool.capacity, ClassPool.shapes, List.map_map]
  rfl

/-- The capacity grows by the slab that is registered, and does not change otherwise. -/
theorem Transition.capacity_eq {debug : Bool} {pc : Pc ι κ Seq} {v : View ι κ Seq Seq}
    (htrans : Transition debug s a k pc v)
    (hpc : ∀ d size span, pc ≠ .carved d size span) (c : SizeClass) :
    (v.allocator.central.lists c).capacity = ((s.allocators a).central.lists c).capacity := by
  have honly : ∀ {d : SizeClass} {central : CentralPool Seq},
      CentralPool.OnlyClass d (s.allocators a).central central →
      (central.lists d).shapes = ((s.allocators a).central.lists d).shapes →
        (central.lists c).capacity = ((s.allocators a).central.lists c).capacity := by
    intro d central only hd
    by_cases hc : c = d
    · subst hc
      rw [ClassPool.capacity_eq, hd, ← ClassPool.capacity_eq]
    · rw [only.lists c hc]
  have hresume : ∀ (v : View ι κ Seq Seq) (r : Resume), (v.resume a r).allocator = v.allocator :=
    fun v r => (v.resume_frame a r).2.2.1
  cases htrans with
  | refill h => exact honly h.only h.shapes
  | register => exact absurd rfl (hpc _ _ _)
  | unstageNone _ => rw [hresume]; rfl
  | publish _ only lists _ =>
    rw [hresume]
    refine honly only ?_
    rw [View.setCentral, lists]
  | returnBatch h =>
    rw [hresume]
    exact honly h.only h.shapes
  | _ => rfl

/-- The thread that a step leads to keeps to the class, and stages nothing. -/
theorem Transition.sole_thread {debug : Bool} {id : Nat} {pc : Pc ι κ Seq} {v : View ι κ Seq Seq}
    (hid : (s.caches k).cacheId = id) (hstaged : ∀ d, ((s.caches k).remoteReturns d).pending = [])
    (hsole : (Thread.busy a pc).Sole a c id) (htrans : Transition debug s a k pc v) :
    v.thread.Sole a c id ∧ ∀ d, (v.cache.remoteReturns d).pending = [] := by
  have hresume : ∀ (v : View ι κ Seq Seq) (r : Resume),
      (∀ d, (v.cache.remoteReturns d).pending = []) → (v.resume a r).thread.Sole a c id ∧
        ∀ d, ((v.resume a r).cache.remoteReturns d).pending = [] := by
    intro v r hstaged
    cases r with
    | done => exact ⟨trivial, hstaged⟩
    | flush classes => exact ⟨⟨rfl, trivial⟩, hstaged⟩
    | drain classes => exact ⟨⟨rfl, trivial⟩, hstaged⟩
  obtain ⟨-, hpc⟩ := hsole
  cases htrans with
  | @refill d size m central r h =>
    refine ⟨?_, hstaged⟩
    cases r <;> exact ⟨rfl, hpc⟩
  | takeSlab hat => rcases hat with rfl | rfl <;> exact ⟨⟨rfl, hpc⟩, hstaged⟩
  | push hinv shapes fresh owned shared hthread =>
    refine ⟨?_, hstaged⟩
    rcases hthread with rfl | ⟨-, rfl⟩
    · trivial
    · exact ⟨rfl, trivial⟩
  | stage howner hthread => exact absurd (hpc.2.trans hid.symm) howner
  | unstageNone h => exact hresume _ _ hstaged
  | unstage h => exact absurd (hstaged _) h
  | publish => exact hpc.elim
  | returnBatch h => exact hresume _ _ hstaged
  | largeReuse | largeMiss | largeReserve | largeFail | largeWrite | largeUnwritable | record
  | release | refuse => exact hpc.elim
  | carveFail | give | report | drainEnd => exact ⟨trivial, hstaged⟩
  | takeBatch | carve | register | pop => exact ⟨⟨rfl, hpc⟩, hstaged⟩
  | carveNone | flushEnd | flush | drainNext | drain | excess => exact ⟨⟨rfl, trivial⟩, hstaged⟩

/-- A class block is aligned, and so is the end of as many of them as one likes. -/
theorem Parts.alignUp_next (parts : Parts setup s) {n : Nat}
    (hnext : (s.allocators a).arena.next = n * (setup.config a).classBlockSize c) :
    alignUp (s.allocators a).arena.next (s.allocators a).arena.alignment =
      (s.allocators a).arena.next := by
  have facts := setup.arenaFacts a
  apply alignUp_of_dvd
  rw [(parts.allocator a).arena_eq, hnext]
  show (setup.arena a).alignment ∣ _
  rw [facts.alignment_eq]
  exact ((setup.config a).dvd_classBlockSize c facts.header_le).mul_left n

/-- The reserved part of the arena is what the slabs of the class take, and what the call is about
to register: the next block starts where the last one ends. -/
theorem Transition.sole_next {debug : Bool} {pc : Pc ι κ Seq} {v : View ι κ Seq Seq}
    (parts : Parts setup s) (hsole : (Thread.busy a pc).Sole a c (setup.cacheId k))
    (hnext : (s.allocators a).arena.next = ((s.allocators a).central.lists c).capacity *
      (setup.config a).classBlockSize c + (Thread.busy a pc).unregistered)
    (htrans : Transition debug s a k pc v) :
    v.allocator.arena.next = (v.allocator.central.lists c).capacity *
      (setup.config a).classBlockSize c + v.thread.unregistered := by
  have hparts := parts.allocator a
  by_cases hcarved : ∃ d size span, pc = .carved d size span
  · obtain ⟨d, size, span, rfl⟩ := hcarved
    obtain rfl : d = c := hsole.2
    cases htrans with
    | takeSlab hat => rcases hat with hat | hat <;> cases hat
    | @register _ _ n _ m central hn hsize h =>
      have hcapacity : (central.lists d).capacity =
          ((s.allocators a).central.lists d).capacity + n := by
        rw [ClassPool.capacity_eq, h.shapes, List.map_append, List.sum_append,
          ← ClassPool.capacity_eq]
        rfl
      show (s.allocators a).arena.next = (central.lists d).capacity * _ + 0
      rw [hnext, hcapacity, Nat.add_mul, ← hparts.config_eq, ← hsize]
      rfl
  · have hcapacity := htrans.capacity_eq (fun d size span h => hcarved ⟨d, size, span, h⟩) c
    have hresume : ∀ (v : View ι κ Seq Seq) (r : Resume), (v.resume a r).allocator = v.allocator ∧
        (v.resume a r).thread.unregistered = 0 := by
      intro v r
      cases r <;> exact ⟨rfl, rfl⟩
    rw [hcapacity]
    cases htrans with
    | @refill d size m central r h => cases r <;> exact hnext
    | takeSlab hat => rcases hat with rfl | rfl <;> exact hnext
    | register => exact absurd ⟨_, _, _, rfl⟩ hcarved
    | @carve d size n span arena h hn hsize =>
      show arena.next = _ * _ + span.size
      rw [h.next_eq, parts.alignUp_next hnext, hnext]
      rfl
    | push hinv shapes fresh owned shared hthread =>
      rcases hthread with rfl | ⟨-, rfl⟩ <;> exact hnext
    | stage howner hthread => rcases hthread with rfl | rfl <;> exact hnext
    | unstageNone _ => rw [(hresume _ _).1, (hresume _ _).2]; exact hnext
    | publish => rw [(hresume _ _).1, (hresume _ _).2]; exact hnext
    | returnBatch => rw [(hresume _ _).1, (hresume _ _).2]; exact hnext
    | largeReserve => exact hsole.2.elim
    | _ => exact hnext

theorem Transition.sole_live {debug : Bool} {pc : Pc ι κ Seq} {v : View ι κ Seq Seq}
    (hsole : (Thread.busy a pc).Sole a c (setup.cacheId k))
    (hgive : ∀ d size block reuse, pc = .popped d size block reuse →
      SizeClass.fromRequest size = some c)
    (hlive : ∀ e ∈ s.live, e.Uses a k c) (htrans : Transition debug s a k pc v) :
    ∀ e ∈ v.live, e.Uses a k c := by
  obtain ⟨-, hpc⟩ := hsole
  cases htrans with
  | give =>
    intro e he
    rcases List.mem_append.mp he with he | he
    · exact hlive e he
    · obtain rfl := List.mem_singleton.mp he
      exact ⟨rfl, rfl, hgive _ _ _ _ rfl⟩
  | unstageNone _ => rw [View.resume_live]; exact hlive
  | publish => rw [View.resume_live]; exact hlive
  | returnBatch => rw [View.resume_live]; exact hlive
  | record | refuse => exact hpc.elim
  | _ => exact hlive

variable [DecidableEq ι] [DecidableEq κ]

theorem Transition.sole {debug : Bool} {pc : Pc ι κ Seq} {v : View ι κ Seq Seq}
    (inv : Inv setup s) (sole : Sole setup a k c s) {b : ι} (ht : s.threads k = .busy b pc)
    (htrans : Transition debug s b k pc v) : Sole setup a k c (s.update b k v) := by
  have hthread := sole.thread
  have hnext := sole.next
  rw [ht] at hthread hnext
  obtain rfl : b = a := hthread.1
  obtain ⟨hthread', hstaged'⟩ := htrans.sole_thread
    (inv.parts.cache k).cacheId_eq sole.staged hthread
  refine ⟨fun j hj => ?_, fun j d howner => ?_, ?_, fun e he => ?_, ?_, ?_⟩
  · rw [World.update_threads_ne _ _ hj]
    exact sole.idle j hj
  · by_cases hj : j = k
    · subst hj
      rw [World.update_caches_same, htrans.owner_eq] at howner
      exact sole.owner j d howner
    · rw [World.update_caches_ne _ _ hj] at howner
      exact sole.owner j d howner
  · rw [World.update_caches_same]
    exact hstaged'
  · refine htrans.sole_live hthread ?_ sole.live e he
    rintro d size block reuse rfl
    obtain rfl : d = c := hthread.2
    exact (inv.parts.thread k b _ ht).2
  · rw [World.update_threads_same]
    exact hthread'
  · rw [World.update_allocators_same, World.update_threads_same]
    exact htrans.sole_next inv.parts hthread hnext

omit [DecidableEq ι] in
theorem Sole.eq_of_busy (sole : Sole setup a k c s) {j : κ} {b : ι} {pc : Pc ι κ Seq}
    (ht : s.threads j = .busy b pc) : j = k := by
  by_contra hj
  obtain ⟨last, hidle⟩ := sole.idle j hj
  cases hidle.symm.trans ht

/-- A call that the cache begins. -/
theorem Sole.call (parts : Parts setup s) (sole : Sole setup a k c s)
    {start : View ι κ Seq Seq → View ι κ Seq Seq}
    (hbegun : ∀ v : View ι κ Seq Seq, v.Begun (start v) a)
    (hstart : ∀ cache, (start ((s.view a k).setCache cache)).thread.Sole a c (setup.cacheId k) ∧
      (start ((s.view a k).setCache cache)).thread.unregistered = 0 ∧
        ∀ e ∈ (start ((s.view a k).setCache cache)).live, e.Uses a k c)
    (hcall : s.call k a start = some s') : Sole setup a k c s' := by
  unfold World.call at hcall
  split at hcall
  · cases hcall
  · rename_i last ht
    have hnext := sole.next
    rw [ht] at hnext
    split at hcall
    · -- a refused binding
      obtain rfl := Option.some.inj hcall
      refine ⟨fun j hj => ?_, fun j b howner => ?_, ?_, sole.live, ?_, ?_⟩
      · rw [World.update_threads_ne _ _ hj]
        exact sole.idle j hj
      · apply sole.owner j b
        by_cases hj : j = k
        · subst hj
          rwa [World.update_caches_same] at howner
        · rwa [World.update_caches_ne _ _ hj] at howner
      · rw [World.update_caches_same]
        exact sole.staged
      · rw [World.update_threads_same]
        trivial
      · rw [World.update_allocators_same, World.update_threads_same]
        exact hnext
    · rename_i cache hbind
      obtain rfl := Option.some.inj hcall
      obtain ⟨hthread, hunregistered, hlive⟩ := hstart cache
      have hb := hbegun ((s.view a k).setCache cache)
      refine ⟨fun j hj => ?_, fun j b howner => ?_, fun d => ?_, hlive, ?_, ?_⟩
      · rw [World.update_threads_ne _ _ hj]
        exact sole.idle j hj
      · by_cases hj : j = k
        · subst hj
          rw [World.update_caches_same, hb.cache] at howner
          have howner' := ThreadCache.bindToAllocator_owner hbind
          exact ⟨rfl, Option.some.inj (howner.symm.trans howner')⟩
        · rw [World.update_caches_ne _ _ hj] at howner
          exact sole.owner j b howner
      · rw [World.update_caches_same, hb.cache]
        exact (parts.bind_same hbind d).2.trans (sole.staged d)
      · rw [World.update_threads_same]
        exact hthread
      · rw [World.update_allocators_same, World.update_threads_same, hb.allocator, hunregistered]
        exact hnext

omit [DecidableEq κ] in
/-- A call to free begins by routing the block to the cache. -/
theorem Sole.startFree (inv : Inv setup s) (sole : Sole setup a k c s) {i : Nat} {entry : Live ι κ}
    (hentry : s.live[i]? = some entry) (expectedSize : Option Nat) (cache : ThreadCache ι Seq)
    {v : View ι κ Seq Seq} (hv : v = ((s.view a k).setCache cache).startFree setup.debug a entry
      (s.live.eraseIdx i) expectedSize) :
    v.thread.Sole a c (setup.cacheId k) ∧ v.thread.unregistered = 0 ∧
      ∀ e ∈ v.live, e.Uses a k c := by
  have hmem : entry ∈ s.live := List.mem_of_getElem? hentry
  obtain ⟨halloc, hcache, hc⟩ := sole.live entry hmem
  have hcheck := inv.checkFree_small (a := a) hmem hc setup.debug expectedSize
  rw [if_pos halloc, hcache] at hcheck
  have hcheck : ((s.view a k).setCache cache).allocator.checkFree setup.debug
    ((s.view a k).setCache cache).mem entry.ptr expectedSize = _ := hcheck
  subst hv
  unfold View.startFree
  rcases sizeChecked_cases expectedSize entry.size
    (.small c (blockStartFromUserPtr entry.ptr) (setup.cacheId k)) with hok | ⟨e, herror⟩
  · rw [hcheck, hok]
    exact ⟨⟨rfl, rfl, rfl⟩, rfl, fun e he => sole.live e (List.mem_of_mem_eraseIdx he)⟩
  · rw [hcheck, herror]
    exact ⟨trivial, rfl, sole.live⟩

theorem Sole.step (inv : Inv setup s) (sole : Sole setup a k c s) {action : Action ι κ}
    (huses : action.Uses a k c) (hstep : s.step setup.debug action = some s') :
    Sole setup a k c s' := by
  cases action with
  | allocate j b size =>
    obtain ⟨rfl, rfl, hc⟩ := huses
    have hstep : s.call j b (fun v => v.startAllocate b size) = some s' := hstep
    obtain ⟨hpos, -⟩ := SizeClass.fromRequest_spec hc
    refine sole.call inv.parts (fun v => v.startAllocate_begun size) (fun cache => ?_) hstep
    simp only [View.startAllocate, Nat.ne_of_gt hpos, if_false, hc]
    cases ((s.view b j).setCache cache).cache.needsRefill c <;>
      exact ⟨⟨rfl, rfl⟩, rfl, sole.live⟩
  | deallocate j b i expectedSize =>
    obtain ⟨rfl, rfl⟩ := huses
    obtain ⟨entry, hentry, hstep⟩ := Option.bind_eq_some_iff.mp hstep
    refine sole.call inv.parts (fun v => v.startFree_begun entry _ expectedSize)
      (fun cache => ?_) hstep
    exact sole.startFree inv hentry expectedSize cache rfl
  | drain j b =>
    obtain ⟨rfl, rfl⟩ := huses
    have hstep : s.call j b (fun v => v.goto b (.flush SizeClass.all)) = some s' := hstep
    have hbegun : ∀ v : View ι κ Seq Seq, v.Begun (v.goto b (.flush SizeClass.all)) b :=
      fun v => ⟨rfl, rfl, .flush⟩
    exact sole.call inv.parts hbegun (fun cache => ⟨⟨rfl, trivial⟩, rfl, sole.live⟩) hstep
  | run j advised =>
    obtain ⟨b, pc, v, ht, rfl, -, htrans⟩ := inv.run_cases hstep
    obtain rfl := sole.eq_of_busy ht
    exact htrans.sole inv sole ht
  | store i offset value =>
    obtain ⟨entry, hentry, hstep⟩ := Option.bind_eq_some_iff.mp hstep
    split at hstep
    · obtain rfl := Option.some.inj hstep
      refine ⟨sole.idle, sole.owner, sole.staged, fun e he => ?_, sole.thread, sole.next⟩
      rcases List.mem_or_eq_of_mem_set he with he | rfl
      · exact sole.live e he
      · exact sole.live entry (List.mem_of_getElem? hentry)
    · cases hstep
  | discard page =>
    simp only [World.step] at hstep
    split at hstep
    · obtain rfl := Option.some.inj hstep
      exact ⟨sole.idle, sole.owner, sole.staged, sole.live, sole.thread, sole.next⟩
    · cases hstep

end Steps

/-! ### One allocation -/

/-- The call has blocks of the class in its hands, or takes one out of its cache. -/
def Pc.Supplied : Pc ι κ Seq → Prop
  | .gotBatch .. | .gotSlab .. | .carved .. | .registered .. | .pop .. | .popped .. => True
  | _ => False

/-- How far an allocation of `size`, before which `n` were live, has come in `s`. -/
inductive Serving (s : World ι κ Seq Seq) (a : ι) (k : κ) (c : SizeClass) (size n : Nat) :
    Thread ι κ Seq → Prop
  | refill (live : s.live.length = n) (held : ((s.caches k).classes c).bag = 0) :
      Serving s a k c size n (.busy a (.refill c size))
  | carve (live : s.live.length = n) (exhausted : s.Exhausted a k c) :
      Serving s a k c size n (.busy a (.carve c size))
  | report (live : s.live.length = n) (exhausted : s.Exhausted a k c) (noRoom : ¬s.HasRoom a c) :
      Serving s a k c size n (.busy a (.report size))
  | supplied {pc : Pc ι κ Seq} (live : s.live.length = n) (hpc : pc.Supplied) :
      Serving s a k c size n (.busy a pc)
  | allocated {ptr : Nat} (live : s.live.length = n + 1) :
      Serving s a k c size n (.idle (some (.allocated ptr)))
  | failed {remaining : Nat} (live : s.live.length = n) (exhausted : s.Exhausted a k c)
      (noRoom : ¬s.HasRoom a c) :
      Serving s a k c size n (.idle (some (.allocError (.outOfMemory size remaining))))

section Serve

variable {setup : Setup ι κ} {s s' : World ι κ Seq Seq} {a : ι} {k : κ} {c : SizeClass}
  {size n : Nat}

/-- While the call lasts, clients may go on storing and pages may be discarded. -/
theorem Serving.still {thread : Thread ι κ Seq} (serving : Serving s a k c size n thread)
    (hallocators : s'.allocators = s.allocators) (hcaches : s'.caches = s.caches)
    (hlive : s'.live.length = s.live.length) : Serving s' a k c size n thread := by
  have hexhausted : s.Exhausted a k c → s'.Exhausted a k c := by
    unfold World.Exhausted
    rw [hallocators, hcaches]
    exact id
  have hroom : ¬s.HasRoom a c → ¬s'.HasRoom a c := by
    unfold World.HasRoom
    rw [hallocators]
    exact id
  cases serving with
  | refill live held => exact .refill (hlive.trans live) (by rw [hcaches]; exact held)
  | carve live exhausted => exact .carve (hlive.trans live) (hexhausted exhausted)
  | report live exhausted noRoom =>
    exact .report (hlive.trans live) (hexhausted exhausted) (hroom noRoom)
  | supplied live hpc => exact .supplied (hlive.trans live) hpc
  | allocated live => exact .allocated (hlive.trans live)
  | failed live exhausted noRoom =>
    exact .failed (hlive.trans live) (hexhausted exhausted) (hroom noRoom)

variable [DecidableEq ι] [DecidableEq κ]

theorem Serving.step {debug : Bool} {advised : Bool × Bool} {pc : Pc ι κ Seq}
    {v : View ι κ Seq Seq} (inv : Inv setup s) (serving : Serving s a k c size n (.busy a pc))
    (hv : (s.view a k).next debug advised a k pc = some v) (htrans : Transition debug s a k pc v) :
    Serving (s.update a k v) a k c size n v.thread := by
  cases htrans with
  | @refill _ _ m central r h =>
    cases serving with
    | supplied live hpc => exact hpc.elim
    | refill live held =>
      cases r with
      | batch blocks => exact .supplied live trivial
      | slab start blockSize capacity => exact .supplied live trivial
      | empty =>
        refine .carve live ⟨?_, ?_⟩
        · rw [World.update_caches_same]
          exact held
        · rw [World.update_allocators_same]
          show central.freeBag c = 0
          unfold CentralPool.freeBag
          rw [h.inbox, h.ofEmpty rfl, add_zero]
  | takeBatch =>
    cases serving with
    | supplied live hpc => exact .supplied live trivial
  | takeSlab hat =>
    cases serving with
    | supplied live hpc => exact .supplied live trivial
    | _ => rcases hat with hat | hat <;> cases hat
  | carve =>
    cases serving with
    | supplied live hpc => exact hpc.elim
    | carve live exhausted => exact .supplied live trivial
  | carveNone =>
    cases serving with
    | supplied live hpc => exact hpc.elim
    | carve live exhausted =>
      rcases inv.carve_cases hv with ⟨hroom, -⟩ | ⟨_, _, _, -, -, -, -, -, h⟩
      · refine .report live ?_ ?_
        · unfold World.Exhausted
          rw [World.update_caches_same, World.update_allocators_same]
          exact exhausted
        · unfold World.HasRoom
          rw [World.update_allocators_same]
          exact hroom
      · cases congrArg View.thread h
  | carveFail =>
    rcases inv.carve_cases hv with ⟨-, h⟩ | ⟨_, _, _, -, -, -, -, -, h⟩
    · cases congrArg View.thread h
    · cases congrArg View.thread h
  | register =>
    cases serving with
    | supplied live hpc => exact .supplied live trivial
  | pop =>
    cases serving with
    | supplied live hpc => exact .supplied live trivial
  | give =>
    cases serving with
    | supplied live hpc =>
      refine .allocated ?_
      show (s.live ++ [_]).length = n + 1
      rw [List.length_append, live]
      rfl
  | report =>
    cases serving with
    | supplied live hpc => exact hpc.elim
    | report live exhausted noRoom =>
      refine .failed live ?_ ?_
      · unfold World.Exhausted
        rw [World.update_caches_same, World.update_allocators_same]
        exact exhausted
      · unfold World.HasRoom
        rw [World.update_allocators_same]
        exact noRoom
  | _ =>
    cases serving with
    | supplied live hpc => exact hpc.elim

end Serve

/-! ### Counting -/

section Count

variable {setup : Setup ι κ} {s : World ι κ Seq Seq} {a : ι} {k : κ} {c : SizeClass}

/-- The arena has room for another block unless as many have been carved as fit in it. -/
theorem Sole.hasRoom_iff (parts : Parts setup s) (sole : Sole setup a k c s) {last : Option Outcome}
    (ht : s.threads k = .idle last) :
    ((s.allocators a).central.lists c).capacity ≤
        (setup.config a).arenaSize / (setup.config a).classBlockSize c ∧
      (s.HasRoom a c ↔ ((s.allocators a).central.lists c).capacity <
        (setup.config a).arenaSize / (setup.config a).classBlockSize c) := by
  have hparts := parts.allocator a
  have hpos := (setup.config a).classBlockSize_pos c
  have hlen : (setup.arena a).len = (setup.config a).arenaSize := setup.arena_len a
  have hnext := sole.next
  rw [ht] at hnext
  have hnext : (s.allocators a).arena.next = ((s.allocators a).central.lists c).capacity *
    (setup.config a).classBlockSize c := hnext
  have hle := hparts.next_le
  rw [hlen, hnext] at hle
  refine ⟨(Nat.le_div_iff_mul_le hpos).mpr hle, ?_⟩
  have hlen' : (s.allocators a).arena.len = (setup.config a).arenaSize := by
    rw [hparts.arena_eq]
    exact hlen
  rw [World.HasRoom, Arena.HasRoom, parts.alignUp_next hnext, hparts.config_eq, hlen', hnext,
    ← Nat.succ_mul,
    ← Nat.le_div_iff_mul_le hpos]
  rfl

variable [DecidableEq ι]

/-- Between calls the only cache has in its custody what it has stored. -/
theorem Sole.custody_eq (parts : Parts setup s) (sole : Sole setup a k c s) {last : Option Outcome}
    (ht : s.threads k = .idle last) : s.custody a c k = ((s.caches k).classes c).bag := by
  unfold World.custody
  split
  · rw [ThreadCache.custody, sole.staged c, ht, Multiset.coe_nil, add_zero]
    exact add_zero _
  · rename_i howner
    have hunbound : (s.caches k).owner = none := by
      rw [Option.eq_none_iff_forall_ne_some]
      intro b hb
      exact howner ((sole.owner k b hb).2 ▸ hb)
    exact ((parts.cache k).unbound hunbound c).1.symm

variable [DecidableEq κ]

/-- Between calls every block that was ever carved is live, in the cache or in the pool. -/
theorem Sole.count (inv : Inv setup s) (sole : Sole setup a k c s) {last : Option Outcome}
    (ht : s.threads k = .idle last) : s.live.length + (s.stock a k c).card =
      ((s.allocators a).central.lists c).capacity := by
  have hothers : ∀ j, j ∉ ({k} : Finset κ) → s.custody a c j = 0 := by
    intro j hj
    refine if_neg fun howner => hj ?_
    exact Finset.mem_singleton.mpr (sole.owner j a howner).1
  have hlive : (s.liveBlocks a c).length = s.live.length := by
    rw [World.liveBlocks, List.length_map, List.filter_eq_self.mpr]
    intro e he
    obtain ⟨halloc, -, hc⟩ := sole.live e he
    exact decide_eq_true ⟨halloc, hc⟩
  have hcard := congrArg Multiset.card (inv.slabBag_eq_of a c {k} hothers)
  rw [Finset.sum_singleton, sole.custody_eq inv.parts ht, ClassPool.card_slabBag, Multiset.card_add,
    Multiset.card_add, Multiset.coe_card, hlive] at hcard
  rw [hcard, World.stock, Multiset.card_add]
  omega

end Count

/-! ### Over whole runs -/

section Runs

variable {setup : Setup ι κ} {w w' : World ι κ FreeList Batch} {s s' : World ι κ Seq Seq} {a : ι}
  {k : κ} {c : SizeClass} {size n : Nat}

theorem Action.uses_of_caller {action : Action ι κ} (h : action.caller = none) :
    action.Uses a k c := by
  cases action with
  | run | store | discard => trivial
  | allocate | deallocate | drain => cases h

theorem Sole.initial (setup : Setup ι κ) (a : ι) (k : κ) (c : SizeClass) :
    Sole setup a k c (setup.world Seq Seq) where
  idle := fun j _ => ⟨none, rfl⟩
  owner := fun j b howner => by cases howner
  staged := fun d => rfl
  live := fun e he => by cases he
  thread := trivial
  next := by
    show (setup.arena a).next = 0 * _ + 0
    rw [(setup.arenaFacts a).next_eq, Nat.zero_mul]

variable [DecidableEq ι] [DecidableEq κ]

/-- An action that begins no call takes the allocation a step on or leaves it where it is. -/
theorem Serving.action (inv : Inv setup s) (sole : Sole setup a k c s)
    (serving : Serving s a k c size n (s.threads k)) {action : Action ι κ}
    (hcaller : action.caller = none) (hstep : s.step setup.debug action = some s') :
    Serving s' a k c size n (s'.threads k) := by
  cases action with
  | allocate | deallocate | drain => cases hcaller
  | run j advised =>
    obtain ⟨b, pc, v, ht, rfl, hv, htrans⟩ := inv.run_cases hstep
    obtain rfl := sole.eq_of_busy ht
    obtain rfl : b = a := by
      have hthread := sole.thread
      rw [ht] at hthread
      exact hthread.1
    rw [World.update_threads_same]
    exact Serving.step inv (ht ▸ serving) hv htrans
  | store i offset value =>
    obtain ⟨entry, -, hstep⟩ := Option.bind_eq_some_iff.mp hstep
    split at hstep
    · obtain rfl := Option.some.inj hstep
      exact serving.still rfl rfl List.length_set
    · cases hstep
  | discard page =>
    simp only [World.step] at hstep
    split at hstep
    · obtain rfl := Option.some.inj hstep
      exact serving.still rfl rfl rfl
    · cases hstep

theorem Sole.runs (inv : Inv setup s) (h : Refines w s) (sole : Sole setup a k c s)
    {actions : List (Action ι κ)} (huses : ∀ action ∈ actions, action.Uses a k c)
    (hruns : w.runs setup.debug actions = some w') :
    ∃ s', Refines w' s' ∧ Inv setup s' ∧ Sole setup a k c s' := by
  induction actions generalizing w s with
  | nil =>
    obtain rfl := Option.some.inj hruns
    exact ⟨s, h, inv, sole⟩
  | cons action actions ih =>
    obtain ⟨w₁, hstep, hrest⟩ := Option.bind_eq_some_iff.mp hruns
    obtain ⟨s₁, hstep', h₁⟩ := h.forward inv hstep
    exact ih (inv.step hstep') h₁ (sole.step inv (huses action List.mem_cons_self) hstep')
      (fun b hb => huses b (List.mem_cons_of_mem action hb)) hrest

theorem Serving.runs (inv : Inv setup s) (h : Refines w s) (sole : Sole setup a k c s)
    (serving : Serving s a k c size n (s.threads k)) {actions : List (Action ι κ)}
    (hcaller : ∀ action ∈ actions, action.caller = none)
    (hruns : w.runs setup.debug actions = some w') :
    ∃ s', Refines w' s' ∧ Inv setup s' ∧ Sole setup a k c s' ∧
      Serving s' a k c size n (s'.threads k) := by
  induction actions generalizing w s with
  | nil =>
    obtain rfl := Option.some.inj hruns
    exact ⟨s, h, inv, sole, serving⟩
  | cons action actions ih =>
    obtain ⟨w₁, hstep, hrest⟩ := Option.bind_eq_some_iff.mp hruns
    obtain ⟨s₁, hstep', h₁⟩ := h.forward inv hstep
    have haction := hcaller action List.mem_cons_self
    exact ih (inv.step hstep') h₁ (sole.step inv (Action.uses_of_caller haction) hstep')
      (serving.action inv sole haction hstep')
      (fun b hb => hcaller b (List.mem_cons_of_mem action hb)) hrest

/-- The only cache that is in use can begin an allocation, and this is served from then on. -/
theorem Sole.begins (inv : Inv setup s) (sole : Sole setup a k c s) {last : Option Outcome}
    (ht : s.threads k = .idle last) (hc : SizeClass.fromRequest size = some c) :
    ∃ s', s.step setup.debug (.allocate k a size) = some s' ∧
      Serving s' a k c size s.live.length (s'.threads k) := by
  obtain ⟨hpos, -⟩ := SizeClass.fromRequest_spec hc
  have hcache : (s.caches k).owner = some a ∨ (s.caches k).isEmpty = true := by
    cases howner : (s.caches k).owner with
    | none => exact Or.inr ((inv.parts.isEmpty_iff k).mpr ((inv.parts.cache k).unbound howner))
    | some b => exact Or.inl (congrArg some (sole.owner k b howner).2)
  obtain ⟨cache, hbind⟩ : ∃ cache, (s.caches k).bindToAllocator a (s.allocators a).config =
    some cache := ThreadCache.bindToAllocator_isSome hcache
  have hstep : s.step setup.debug (.allocate k a size) =
      some (s.update a k (((s.view a k).setCache cache).startAllocate a size)) :=
    World.call_eq ht hbind fun v => v.startAllocate a size
  refine ⟨_, hstep, ?_⟩
  have hlen := (((inv.step hstep).parts.cache k).class_inv c).totalLen_eq
  rw [World.update_caches_same] at hlen
  rw [World.update_threads_same]
  simp only [View.startAllocate, Nat.ne_of_gt hpos, if_false, hc] at hlen ⊢
  cases hneeds : ((s.view a k).setCache cache).cache.needsRefill c with
  | true =>
    have hneeds : (cache.classes c).isEmpty = true := hneeds
    have hlen : (cache.classes c).totalLen = (cache.classes c).bag.card := hlen
    refine .refill rfl ?_
    rw [World.update_caches_same]
    show (cache.classes c).bag = 0
    rw [← Multiset.card_eq_zero, ← hlen]
    simpa [LocalClassCache.isEmpty] using hneeds
  | false => exact .supplied rfl trivial

/-- On a fresh allocator that one cache uses for one class, an allocation succeeds exactly when
fewer blocks are live than fit in the arena. -/
theorem Setup.single_cache_capacity {actions : List (Action ι κ)}
    (huses : ∀ action ∈ actions, action.Uses a k c)
    (hruns : (setup.world FreeList Batch).runs setup.debug actions = some w) {last : Option Outcome}
    (ht : w.threads k = .idle last) (hc : SizeClass.fromRequest size = some c) :
    ∃ w₁, w.step setup.debug (.allocate k a size) = some w₁ ∧
      ∀ rest w', (∀ action ∈ rest, action.caller = none) →
        w₁.runs setup.debug rest = some w' →
          w'.Ends setup.debug k fun w'' =>
            ((∃ ptr, w''.threads k = .idle (some (.allocated ptr))) ↔
              w.live.length < (setup.config a).arenaSize / (setup.config a).classBlockSize c) ∧
            ((∃ remaining, w''.threads k =
                .idle (some (.allocError (.outOfMemory size remaining)))) ↔
              (setup.config a).arenaSize / (setup.config a).classBlockSize c ≤ w.live.length) := by
  obtain ⟨s, h, inv, sole⟩ := (Sole.initial setup a k c).runs Setup.Reachable.initial.inv
    (refines_initial setup) huses hruns
  have hidle := h.idle_last ht
  obtain ⟨s₁, hstep, hserving⟩ := sole.begins inv hidle hc
  obtain ⟨w₁, hw₁⟩ : ∃ w₁, w₁ = w.step setup.debug (.allocate k a size) := ⟨_, rfl⟩
  have hstarts : (Action.allocate k a size).caller = some k := rfl
  have hrel := h.starts setup.debug inv hstarts
  rw [hstep, ← hw₁] at hrel
  cases hrel with
  | @some w₁ _ h₁ =>
    refine ⟨w₁, hw₁.symm, fun rest w' hcaller hrest => ?_⟩
    have huse : (Action.allocate k a size).Uses a k c := ⟨rfl, rfl, hc⟩
    have sole₁ := sole.step inv huse hstep
    obtain ⟨s', h', inv', sole', serving'⟩ :=
      hserving.runs (inv.step hstep) h₁ sole₁ hcaller hrest
    have hends : s'.Ends setup.debug k fun s' => Inv setup s' ∧ Sole setup a k c s' ∧
        Serving s' a k c size s.live.length (s'.threads k) := by
      refine inv'.ends_next (fun inv hJ ht hv htrans => ?_) ⟨sole', serving'⟩
      obtain ⟨sole, serving⟩ := hJ
      obtain ⟨rfl, -⟩ : _ ∧ _ := ht ▸ sole.thread
      rw [World.update_threads_same]
      exact ⟨htrans.sole inv sole ht, Serving.step inv (ht ▸ serving) hv htrans⟩
    refine (h'.ends inv' hends).idle.mono fun w'' hend => ?_
    obtain ⟨last, ht'', s'', h'', inv'', sole'', serving''⟩ := hend
    have hidle'' := h''.idle_last ht''
    have hcount := sole''.count inv'' hidle''
    obtain ⟨hle, hroom⟩ := sole''.hasRoom_iff inv''.parts hidle''
    rw [h.live_eq, ht'']
    rw [hidle''] at serving''
    cases serving'' with
    | allocated live =>
      have hlt : s.live.length <
          (setup.config a).arenaSize / (setup.config a).classBlockSize c := by
        omega
      exact ⟨iff_of_true ⟨_, rfl⟩ hlt, iff_of_false (by simp) (Nat.not_le_of_lt hlt)⟩
    | failed live exhausted noRoom =>
      have hstock : s''.stock a k c = 0 := by
        rw [World.stock, exhausted.1, exhausted.2]
        rfl
      rw [hstock, Multiset.card_zero, Nat.add_zero, live] at hcount
      rw [hroom, ← hcount, Nat.not_lt] at noRoom
      exact ⟨iff_of_false (by simp) (Nat.not_lt_of_le noRoom), iff_of_true ⟨_, rfl⟩ noRoom⟩

/-- The arena that has room for one block refuses a second one. -/
theorem single_cache_capacity_sample :
    ∃ w₁, (tinySetup.after (sampleCarve 0 10) tiny_run).step true (.allocate 0 () 20) = some w₁ ∧
      w₁.Ends true 0 fun w' => ∃ remaining, w'.threads 0 =
        .idle (some (.allocError (.outOfMemory 20 remaining))) := by
  have huses : ∀ action ∈ sampleCarve 0 10, action.Uses () 0 .b64 := by
    intro action haction
    rcases List.mem_cons.mp haction with rfl | haction
    · exact ⟨rfl, rfl, rfl⟩
    · rw [List.eq_of_mem_replicate haction]
      trivial
  have hruns : (tinySetup.world FreeList Batch).runs tinySetup.debug (sampleCarve 0 10) =
      some (tinySetup.after (sampleCarve 0 10) tiny_run) := (Option.some_get tiny_run).symm
  have ht : (tinySetup.after (sampleCarve 0 10) tiny_run).threads 0 =
      .idle (some (.allocated 4160)) := by rfl
  obtain ⟨w₁, hstep, hends⟩ := tinySetup.single_cache_capacity huses hruns ht
    (show SizeClass.fromRequest 20 = some .b64 from rfl)
  refine ⟨w₁, hstep, (hends [] w₁ (fun _ h => by cases h) rfl).mono fun w' h => ?_⟩
  exact h.2.mpr (by decide +kernel)

end Runs

end Orthotope
