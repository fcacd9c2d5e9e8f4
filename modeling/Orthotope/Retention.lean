import Orthotope.Supply

/-! What a cache keeps.  Between calls a cache holds no more blocks of a class than its limit or one
refill, and fewer staged ones than a drain moves.  Within a call it may be over its limit by one
block, and is when it has decided to drain. -/

namespace Orthotope

open ByteMemory

variable {ι κ : Type}

/-! ### The bounds -/

/-- The most blocks of a class that a cache keeps between calls. -/
def AllocatorConfig.retained (config : AllocatorConfig) (c : SizeClass) : Nat :=
  max (config.localLimit c) (config.refillCount c)

/-- By how many blocks of a class the cache may be over its limit. -/
def Thread.overLocal (c : SizeClass) : Thread ι κ Seq → Nat
  | .busy _ (.excess d _ _) => if d = c then 1 else 0
  | _ => 0

/-- By how many staged blocks of a class the cache may be over its limit. -/
def Thread.overStaged (c : SizeClass) : Thread ι κ Seq → Nat
  | .busy _ (.unstage d _) => if d = c then 1 else 0
  | _ => 0

/-- The cache is over its limits by no more than this. -/
structure Within (config : AllocatorConfig) (cache : ThreadCache ι Seq) (c : SizeClass)
    (overLocal overStaged : Nat) : Prop where
  held : (cache.classes c).totalLen ≤ config.retained c + overLocal
  staged : (cache.remoteReturns c).pendingLen < config.drainCount c + overStaged

/-- A refill is made when the class is empty, and is no larger than it may be. -/
def RefillOk (config : AllocatorConfig) (cache : ThreadCache ι Seq) : Thread ι κ Seq → Prop
  | .busy _ (.refill c _) | .busy _ (.carve c _) => (cache.classes c).totalLen = 0
  | .busy _ (.gotBatch c _ batch) =>
    (cache.classes c).totalLen = 0 ∧ batch.length ≤ config.refillCount c
  | .busy _ (.gotSlab c _ _ _ capacity) | .busy _ (.registered c _ _ _ capacity) =>
    (cache.classes c).totalLen = 0 ∧ capacity ≤ config.refillCount c
  | .busy _ (.carved c _ span) =>
    (cache.classes c).totalLen = 0 ∧ span.size ≤ config.refillCount c * config.classBlockSize c
  | _ => True

/-- A cache on its call is within the limits of the allocator it is bound to. -/
structure Retains (config : AllocatorConfig) (cache : ThreadCache ι Seq) (thread : Thread ι κ Seq) :
    Prop where
  within : ∀ c, Within config cache c (thread.overLocal c) (thread.overStaged c)
  refill : RefillOk config cache thread

structure Retention (setup : Setup ι κ) (s : World ι κ Seq Seq) : Prop where
  capacity : ∀ a c, ∀ shape ∈ ((s.allocators a).central.lists c).shapes,
    shape.2.2.2 ≤ (setup.config a).refillCount c
  cache : ∀ k a, (s.caches k).owner = some a →
    Retains (setup.config a) (s.caches k) (s.threads k)

section Bounds

variable {setup : Setup ι κ} {s : World ι κ Seq Seq} {a : ι} {k : κ} {config : AllocatorConfig}
  {cache : ThreadCache ι Seq} {c : SizeClass}

theorem Within.mono {l r l' r' : Nat} (h : Within config cache c l r) (hl : l ≤ l') (hr : r ≤ r') :
    Within config cache c l' r' :=
  ⟨h.held.trans (Nat.add_le_add_left hl _),
    Nat.lt_of_lt_of_le h.staged (Nat.add_le_add_left hr _)⟩

/-- A class that has just been changed, with the bound it has to meet. -/
theorem Within.setClass {l l' r r' : Nat} {class_ : LocalClassCache Seq} {d : SizeClass}
    (h : Within config cache d l r) (hc : d = c → class_.totalLen ≤ config.retained c + l')
    (hl : d ≠ c → l ≤ l') (hr : r ≤ r') : Within config (cache.setClass c class_) d l' r' := by
  refine ⟨?_, Nat.lt_of_lt_of_le h.staged (Nat.add_le_add_left hr _)⟩
  by_cases hd : d = c
  · subst hd
    rw [ThreadCache.setClass_same]
    exact hc rfl
  · rw [ThreadCache.setClass_ne _ hd]
    exact h.held.trans (Nat.add_le_add_left (hl hd) _)

theorem Within.setRemoteReturns {l l' r r' : Nat} {returns : RemoteReturns Seq} {d : SizeClass}
    (h : Within config cache d l r) (hc : d = c → returns.pendingLen < config.drainCount c + r')
    (hl : l ≤ l') (hr : d ≠ c → r ≤ r') :
    Within config (cache.setRemoteReturns c returns) d l' r' := by
  refine ⟨h.held.trans (Nat.add_le_add_left hl _), ?_⟩
  by_cases hd : d = c
  · subst hd
    rw [ThreadCache.setRemoteReturns_same]
    exact hc rfl
  · rw [ThreadCache.setRemoteReturns_ne _ hd]
    exact Nat.lt_of_lt_of_le h.staged (Nat.add_le_add_left (hr hd) _)

/-- A class that a block has been pushed on has one block more. -/
theorem card_bag_of_push {class_ class' : LocalClassCache Seq} {block : Nat}
    {spilled : Multiset Nat}
    (fresh : class'.freshBag = class_.freshBag)
    (owned : class'.ownedBag + spilled = block ::ₘ class_.ownedBag)
    (shared : class'.sharedBag = spilled + class_.sharedBag) :
    class'.bag.card = class_.bag.card + 1 := by
  have howned := congrArg Multiset.card owned
  have hshared := congrArg Multiset.card shared
  have hfresh := congrArg Multiset.card fresh
  simp only [Multiset.card_add, Multiset.card_cons] at howned hshared
  simp only [LocalClassCache.bag, Multiset.card_add]
  omega

theorem Within.resume {v : View ι κ Seq Seq} {resume : Resume} (h : ∀ d, Within config cache d 0 0)
    (hcache : v.cache = cache) :
    Retains config (v.resume a resume).cache (v.resume a resume).thread := by
  rw [(v.resume_frame a resume).2.1, hcache]
  cases resume <;> exact ⟨h, trivial⟩

/-- A step that asks the pool for blocks gets at most a refill. -/
theorem refill_length {debug : Bool} {advised : Bool × Bool} {size : Nat} {v : View ι κ Seq Seq}
    (hv : (s.view a k).next debug advised a k (.refill c size) = some v) {blocks : Seq}
    (hthread : v.thread = .busy a (.gotBatch c size blocks)) :
    blocks.length ≤ ((s.caches k).classConfig c).refillCount := by
  simp only [View.next] at hv
  obtain ⟨⟨m, central, refill⟩, htake, hv⟩ := Option.map_eq_some_iff.mp hv
  cases refill with
  | empty =>
    subst hv
    cases hthread
  | batch batch =>
    subst hv
    obtain ⟨-, hpc⟩ := Thread.busy.inj hthread
    obtain ⟨-, -, rfl⟩ := Pc.gotBatch.inj hpc
    exact CentralPool.takeRefill_length htake
  | slab start blockSize capacity =>
    subst hv
    cases hthread

/-- A free that ends with its routing has found the cache within its limits. -/
theorem route_idle {debug : Bool} {advised : Bool × Bool} {block owner : Nat} {v : View ι κ Seq Seq}
    (hv : (s.view a k).next debug advised a k (.route c block owner) = some v)
    {last : Option Outcome} (hthread : v.thread = .idle last) :
    (owner = (s.caches k).cacheId → v.cache.shouldDrain c = false) ∧
      (owner ≠ (s.caches k).cacheId → v.cache.shouldFlushRemoteReturns c = false) := by
  simp only [View.next] at hv
  by_cases howner : owner = (s.view a k).cache.cacheId
  · rw [if_pos howner] at hv
    obtain ⟨⟨m, cache⟩, -, hv⟩ := Option.map_eq_some_iff.mp hv
    refine ⟨fun _ => ?_, fun hne => absurd howner hne⟩
    cases hdrain : cache.shouldDrain c with
    | true =>
      simp only [View.setCache, View.setMem, hdrain, if_true] at hv
      subst hv
      cases hthread
    | false =>
      simp only [View.setCache, View.setMem, hdrain] at hv
      subst hv
      exact hdrain
  · rw [if_neg howner] at hv
    have hv := Option.some.inj hv
    refine ⟨fun heq => absurd heq howner, fun _ => ?_⟩
    cases hflush : (ThreadCache.pushRemoteReturn (s.view a k).mem (s.view a k).cache c
        block).2.shouldFlushRemoteReturns c with
    | true =>
      simp only [View.setCache, View.setMem, hflush, if_true] at hv
      subst hv
      cases hthread
    | false =>
      simp only [View.setCache, View.setMem, hflush] at hv
      subst hv
      exact hflush

/-- The thread that a step on a bound cache leads to keeps to the limits. -/
theorem Transition.retains {debug : Bool} {advised : Bool × Bool} {pc : Pc ι κ Seq}
    {v : View ι κ Seq Seq} (inv : Inv setup s) (r : Retention setup s)
    (ht : s.threads k = .busy a pc) (hv : (s.view a k).next debug advised a k pc = some v)
    (htrans : Transition debug s a k pc v) : Retains (setup.config a) v.cache v.thread := by
  obtain ⟨howner, hok⟩ := inv.parts.thread k a pc ht
  obtain ⟨hwithin, hrefill⟩ := r.cache k a howner
  have htable := (inv.parts.cache k).table a howner
  have hconfig := (inv.parts.allocator a).config_eq
  have hlen := fun c => ((inv.parts.cache k).class_inv c).totalLen_eq
  rw [ht] at hwithin hrefill
  cases htrans with
  | @refill _ size m central refill h =>
    refine ⟨fun c => by cases refill <;> exact hwithin c, ?_⟩
    cases refill with
    | empty => exact hrefill
    | batch blocks =>
      have hlen := refill_length hv rfl
      rw [htable] at hlen
      exact ⟨hrefill, hlen⟩
    | slab start blockSize capacity =>
      obtain ⟨-, -, hshape⟩ := h.ofSlab _ _ _ rfl
      exact ⟨hrefill, r.capacity a _ _ hshape⟩
  | @takeBatch c _ batch class_ hinv shapes owned fresh shared hbatch =>
    have hzero : ((s.caches k).classes c).bag.card = 0 := hlen c ▸ hrefill.1
    have htotal : class_.totalLen = batch.length := by
      have hbag : class_.bag = (batch : Multiset Nat) + ((s.caches k).classes c).bag := by
        rw [LocalClassCache.bag, owned, fresh, shared, add_left_comm]
        rfl
      rw [hinv.totalLen_eq, hbag, Multiset.card_add, hzero, Multiset.coe_card]
      rfl
    refine ⟨fun d => (hwithin d).setClass (fun _ => ?_) (fun _ => le_refl _) (le_refl _), trivial⟩
    rw [htotal]
    exact le_trans hrefill.2 (le_trans (Nat.le_max_right _ _) (Nat.le_add_right _ _))
  | @takeSlab c _ start blockSize capacity class_ _ hpc hinv shapes owned fresh shared hcap =>
    have hcapacity : ((s.caches k).classes c).totalLen = 0 ∧
        capacity ≤ (setup.config a).refillCount c := by
      rcases hpc with rfl | rfl <;> exact hrefill
    have htotal : class_.totalLen = capacity := by
      have hzero : ((s.caches k).classes c).bag.card = 0 := hlen c ▸ hcapacity.1
      have hbag : class_.bag = (slabBlocks start blockSize capacity : Multiset Nat) +
          ((s.caches k).classes c).bag := by
        rw [LocalClassCache.bag, owned, fresh, shared, LocalClassCache.bag]
        ac_rfl
      rw [hinv.totalLen_eq, hbag, Multiset.card_add, hzero, Multiset.coe_card, length_slabBlocks]
      rfl
    refine ⟨fun d => (hwithin d).setClass (fun _ => ?_) (fun _ => ?_) ?_, trivial⟩
    · rw [htotal]
      exact le_trans hcapacity.2 (le_trans (Nat.le_max_right _ _) (Nat.le_add_right _ _))
    · rcases hpc with rfl | rfl <;> exact le_refl _
    · rcases hpc with rfl | rfl <;> exact le_refl _
  | @carve c _ n span arena h hn hsize =>
    refine ⟨fun d => hwithin d, hrefill, ?_⟩
    rcases inv.carve_cases hv with ⟨-, h⟩ | ⟨span', arena', n', -, -, -, hle, hsize', h⟩
    · cases congrArg View.thread h
    · obtain ⟨-, hpc⟩ := Thread.busy.inj (congrArg View.thread h)
      obtain ⟨-, -, rfl⟩ := Pc.carved.inj hpc
      rw [hsize', hconfig]
      rw [hconfig] at hle
      exact Nat.mul_le_mul_right _ hle
  | @pop c _ block reuse class_ hinv shapes takes =>
    have htotal : class_.totalLen ≤ ((s.caches k).classes c).totalLen := by
      rw [hinv.totalLen_eq, hlen c, takes.bag, Multiset.card_cons]
      exact Nat.le_succ _
    exact ⟨fun d => (hwithin d).setClass (fun _ => le_trans htotal (hwithin c).held)
      (fun _ => le_refl _) (le_refl _), trivial⟩
  | @push c block class_ spilled thread hinv shapes fresh owned shared hthread =>
    have htotal : class_.totalLen = ((s.caches k).classes c).totalLen + 1 := by
      have hbag := card_bag_of_push fresh owned shared
      rw [hinv.totalLen_eq, hlen c, hbag]
    rcases hthread with rfl | ⟨-, rfl⟩
    · have hfits := (route_idle hv rfl).1 rfl
      refine ⟨fun d => (hwithin d).setClass (fun _ => ?_) (fun _ => le_refl _) (le_refl _), trivial⟩
      simp only [ThreadCache.shouldDrain, View.setCache, ThreadCache.setClass_same,
        decide_eq_false_iff_not, Nat.not_lt] at hfits
      refine le_trans hfits (le_trans ?_ (Nat.le_add_right _ _))
      show ((s.caches k).classConfig c).localLimit ≤ _
      rw [htable]
      exact Nat.le_max_left _ _
    · refine ⟨fun d => (hwithin d).setClass (fun hd => ?_) (fun _ => Nat.zero_le _) (le_refl _),
        trivial⟩
      have hheld := (hwithin c).held
      have hover : Thread.overLocal d (.busy a (.excess c ((s.caches k).classConfig c).drainCount
          .done) : Thread ι κ Seq) = 1 := if_pos hd.symm
      rw [hover, htotal]
      exact Nat.succ_le_succ hheld
  | @stage c block owner thread howner' hthread =>
    have hpending := (inv.parts.cache k).returns_ok c
    rcases hthread with rfl | rfl
    · have hfits := (route_idle hv rfl).2 howner'
      refine ⟨fun d => (hwithin d).setRemoteReturns (fun _ => ?_) (le_refl _) (fun _ => le_refl _),
        trivial⟩
      simp only [ThreadCache.shouldFlushRemoteReturns, View.setCache,
        ThreadCache.setRemoteReturns_same, decide_eq_false_iff_not, Nat.not_le] at hfits
      have hcount : ((s.caches k).classConfig c).drainCount = (setup.config a).drainCount c := by
        rw [htable]
        rfl
      exact Nat.lt_of_lt_of_le (hcount ▸ hfits) (Nat.le_add_right _ _)
    · refine ⟨fun d => (hwithin d).setRemoteReturns (fun hd => ?_) (le_refl _)
        (fun _ => Nat.zero_le _), trivial⟩
      have hstaged := (hwithin c).staged
      have hover : Thread.overStaged d (.busy a (.unstage c .done) : Thread ι κ Seq) = 1 :=
        if_pos hd.symm
      rw [hover]
      exact Nat.succ_lt_succ hstaged
  | @register c _ n span m central hn hsize h =>
    have hpos := (setup.config a).classBlockSize_pos c
    refine ⟨fun d => hwithin d, hrefill.1, ?_⟩
    have hle := hrefill.2
    rw [hsize, hconfig] at hle
    exact Nat.le_of_mul_le_mul_right hle hpos
  | flush => exact ⟨fun d => (hwithin d).mono (le_refl _) (Nat.zero_le _), trivial⟩
  | drain h => exact ⟨fun d => (hwithin d).mono (Nat.zero_le _) (le_refl _), trivial⟩
  | @unstageNone c resume h =>
    refine Within.resume (fun d => ⟨(hwithin d).held, ?_⟩) rfl
    by_cases hd : c = d
    · subst hd
      have hok : ((s.caches k).remoteReturns c).pendingLen = _ := (inv.parts.cache k).returns_ok c
      rw [hok, h]
      exact (setup.config a).drainCount_pos c
    · have hstaged := (hwithin d).staged
      have hover : Thread.overStaged d (.busy a (.unstage c resume) : Thread ι κ Seq) = 0 :=
        if_neg hd
      rwa [hover] at hstaged
  | @unstage c resume h =>
    refine ⟨fun d => (hwithin d).setRemoteReturns (fun _ => ?_) (le_refl _) (fun hd => ?_), trivial⟩
    · exact Nat.lt_of_lt_of_le ((setup.config a).drainCount_pos _) (Nat.le_add_right _ _)
    · have hover : Thread.overStaged d (.busy a (.unstage c resume) : Thread ι κ Seq) = 0 :=
        if_neg hd.symm
      exact Nat.le_of_eq hover
  | publish hinv only lists inbox => exact Within.resume (fun d => hwithin d) rfl
  | @excess c max resume m batch class_ hinv shapes hbatch drains =>
    have htotal : class_.totalLen + 1 ≤ ((s.caches k).classes c).totalLen := by
      have hcard := congrArg Multiset.card drains.bag
      have hpos := List.length_pos_iff.mpr hbatch
      rw [Multiset.card_add, Multiset.coe_card] at hcard
      rw [hinv.totalLen_eq, hlen c]
      omega
    refine ⟨fun d => (hwithin d).setClass (fun _ => ?_) (fun hd => ?_) (le_refl _), trivial⟩
    · have hheld := (hwithin c).held
      have hover : Thread.overLocal c (.busy a (.excess c max resume) : Thread ι κ Seq) = 1 :=
        if_pos rfl
      rw [hover] at hheld
      exact le_trans (Nat.le_of_succ_le_succ (htotal.trans hheld)) (Nat.le_add_right _ _)
    · have hover : Thread.overLocal d (.busy a (.excess c max resume) : Thread ι κ Seq) = 0 :=
        if_neg hd.symm
      exact Nat.le_of_eq hover
  | returnBatch h => exact Within.resume (fun d => hwithin d) rfl
  | _ => exact ⟨fun c => hwithin c, trivial⟩

/-- The slabs that a step leaves in the pool are no larger than a refill. -/
theorem Transition.capacity {debug : Bool} {pc : Pc ι κ Seq} {v : View ι κ Seq Seq}
    (inv : Inv setup s) (r : Retention setup s) (ht : s.threads k = .busy a pc)
    (htrans : Transition debug s a k pc v) (c : SizeClass) :
    ∀ shape ∈ (v.allocator.central.lists c).shapes,
      shape.2.2.2 ≤ (setup.config a).refillCount c := by
  obtain ⟨howner, hok⟩ := inv.parts.thread k a pc ht
  have hcapacity := r.capacity a c
  have honly : ∀ {d : SizeClass} {central : CentralPool Seq},
      CentralPool.OnlyClass d (s.allocators a).central central →
      (∀ shape ∈ (central.lists d).shapes, shape.2.2.2 ≤ (setup.config a).refillCount d) →
        ∀ shape ∈ (central.lists c).shapes, shape.2.2.2 ≤ (setup.config a).refillCount c := by
    intro d central only hd shape hshape
    by_cases hc : c = d
    · subst hc
      exact hd shape hshape
    · exact hcapacity shape (only.lists c hc ▸ hshape)
  have hresume : ∀ (v : View ι κ Seq Seq) (r : Resume), (v.resume a r).allocator = v.allocator :=
    fun v r => (v.resume_frame a r).2.2.1
  cases htrans with
  | refill h => exact honly h.only fun shape hs => r.capacity a _ shape (h.shapes ▸ hs)
  | @register d _ n span m central hn hsize h =>
    refine honly h.only fun shape hs => ?_
    have hs : shape ∈ (central.lists d).shapes := hs
    rw [h.shapes] at hs
    rcases List.mem_append.mp hs with hs | hs
    · exact r.capacity a _ shape hs
    · obtain rfl := List.mem_singleton.mp hs
      have hcarved := (r.cache k a howner).refill
      rw [ht] at hcarved
      have hle := hcarved.2
      rw [hsize, (inv.parts.allocator a).config_eq] at hle
      exact Nat.le_of_mul_le_mul_right hle ((setup.config a).classBlockSize_pos d)
  | unstageNone _ =>
    rw [hresume]
    exact hcapacity
  | publish _ only lists _ =>
    rw [hresume]
    refine honly only fun shape hs => r.capacity a _ shape ?_
    rwa [View.setCentral, lists] at hs
  | returnBatch h =>
    rw [hresume]
    exact honly h.only fun shape hs => r.capacity a _ shape (h.shapes ▸ hs)
  | _ => exact hcapacity

end Bounds

/-! ### Over whole runs -/

section Runs

variable [DecidableEq ι] [DecidableEq κ] {setup : Setup ι κ} {s s' : World ι κ Seq Seq} {a : ι}
  {k : κ}

/-- One allocator and one cache change, and keep to the limits. -/
theorem Retention.update (r : Retention setup s) {v : View ι κ Seq Seq}
    (hcapacity : ∀ c, ∀ shape ∈ (v.allocator.central.lists c).shapes,
      shape.2.2.2 ≤ (setup.config a).refillCount c)
    (hcache : ∀ b, v.cache.owner = some b → Retains (setup.config b) v.cache v.thread) :
    Retention setup (s.update a k v) where
  capacity b := by
    by_cases hb : b = a
    · subst hb
      rw [World.update_allocators_same]
      exact hcapacity
    · rw [World.update_allocators_ne _ _ hb]
      exact r.capacity b
  cache j b howner := by
    by_cases hj : j = k
    · subst hj
      rw [World.update_caches_same] at howner ⊢
      rw [World.update_threads_same]
      exact hcache b howner
    · rw [World.update_caches_ne _ _ hj] at howner ⊢
      rw [World.update_threads_ne _ _ hj]
      exact r.cache j b howner

omit [DecidableEq κ] in
/-- A call that begins finds its cache within the limits; a cache that has just been bound is
empty. -/
theorem Retention.begin (r : Retention setup s) {last : Option Outcome}
    (ht : s.threads k = .idle last) {cache : ThreadCache ι Seq}
    (hbind : (s.caches k).bindToAllocator a (s.allocators a).config = some cache)
    {thread : Thread ι κ Seq} (hthread : thread.Begun cache a) :
    Retains (setup.config a) cache thread := by
  have hwithin : ∀ c, Within (setup.config a) cache c 0 0 := by
    rcases ThreadCache.bindToAllocator_cases hbind with rfl | hnew
    · have hretains := r.cache k a (ThreadCache.bindToAllocator_owner hbind)
      rw [ht] at hretains
      exact hretains.within
    · intro c
      refine ⟨?_, ?_⟩
      · rw [(hnew c).1]
        exact Nat.zero_le _
      · rw [(hnew c).2]
        exact (setup.config a).drainCount_pos c
  cases hthread with
  | @refill c size h _ =>
    have hempty : (cache.classes c).totalLen = 0 := by
      simpa [ThreadCache.needsRefill, LocalClassCache.isEmpty] using h
    exact ⟨hwithin, hempty⟩
  | _ => exact ⟨hwithin, trivial⟩

theorem Retention.step (inv : Inv setup s) (r : Retention setup s) {action : Action ι κ}
    (hstep : s.step setup.debug action = some s') : Retention setup s' := by
  rcases inv.step_cases hstep with ⟨k, a, pc, advised, v, -, ht, rfl, hv, htrans⟩ |
    ⟨k, a, last, v, -, ht, rfl, hallocator, h⟩ | ⟨hallocators, hcaches, hthreads⟩
  · refine r.update (htrans.capacity inv r ht) fun b howner => ?_
    rw [htrans.owner_eq, (inv.parts.thread k a pc ht).1] at howner
    obtain rfl := Option.some.inj howner
    exact htrans.retains inv r ht hv
  · refine r.update (by rw [hallocator]; exact r.capacity a) fun b howner => ?_
    rcases h with ⟨-, hcache, hthread⟩ | ⟨hbind, hthread⟩
    · rw [hcache] at howner ⊢
      have hretains := r.cache k b howner
      rw [ht] at hretains
      rw [hthread]
      exact ⟨hretains.within, trivial⟩
    · rw [ThreadCache.bindToAllocator_owner hbind] at howner
      obtain rfl := Option.some.inj howner
      exact r.begin ht hbind hthread
  · refine ⟨?_, ?_⟩
    · rw [hallocators]
      exact r.capacity
    · rw [hcaches, hthreads]
      exact r.cache

theorem Setup.Reachable.retention (h : setup.Reachable s) : Retention setup s := by
  induction h with
  | initial =>
    exact ⟨fun a c shape hshape => (by cases hshape), fun k a howner => (by cases howner)⟩
  | step action hr hstep ih => exact ih.step hr.inv hstep

end Runs

section Code

variable [DecidableEq ι] [DecidableEq κ] {setup : Setup ι κ} {w : World ι κ FreeList Batch} {a : ι}
  {k : κ}

/-- After each call the cache holds no more blocks of a class than its limit or one refill, and has
staged fewer than a drain moves, by the limits of the allocator it is bound to. -/
theorem Setup.Reachable.bounded_retention (h : setup.Reachable w) {last : Option Outcome}
    (ht : w.threads k = .idle last) (howner : (w.caches k).owner = some a) (c : SizeClass) :
    ((w.contents.caches k).classes c).bag.card ≤
        max ((w.allocators a).config.localLimit c) ((w.allocators a).config.refillCount c) ∧
      ((w.caches k).classes c).totalLen = ((w.contents.caches k).classes c).bag.card ∧
      ((w.contents.caches k).remoteReturns c).pending.length <
        (w.allocators a).config.drainCount c ∧
      ((w.caches k).remoteReturns c).pendingLen =
        ((w.contents.caches k).remoteReturns c).pending.length := by
  obtain ⟨s, hs, hrefines⟩ := h.refines
  have hretains := hs.retention.cache k a (hrefines.owner_eq k ▸ howner)
  rw [hrefines.idle_last ht] at hretains
  obtain ⟨hheld, hstaged⟩ := hretains.within c
  have hlen := ((hs.inv.parts.cache k).class_inv c).totalLen_eq
  have hpending : ((s.caches k).remoteReturns c).pendingLen =
    ((s.caches k).remoteReturns c).pending.length := (hs.inv.parts.cache k).returns_ok c
  rw [hrefines.contents_eq, hrefines.config_eq, (hs.inv.parts.allocator a).config_eq]
  refine ⟨hlen ▸ hheld, ?_, hpending ▸ hstaged, ?_⟩
  · rw [hrefines.code]
    exact hlen
  · rw [hrefines.code]
    exact hpending

theorem sampleCarve_run :
    ((sampleSetup.world FreeList Batch).runs true (sampleCarve 0 10)).isSome := by
  decide +kernel

/-- A refill of two blocks has left one in the cache. -/
theorem bounded_retention_sample : ∃ w, sampleSetup.Reachable w ∧
    ((w.caches 0).classes .b64).totalLen = 1 ∧
      ((w.contents.caches 0).classes .b64).bag.card ≤ 3 ∧
        ((w.contents.caches 0).remoteReturns .b64).pending.length < 1 := by
  obtain ⟨w, hw⟩ : ∃ w, w = sampleSetup.after (sampleCarve 0 10) sampleCarve_run := ⟨_, rfl⟩
  have hreachable : sampleSetup.Reachable w := hw ▸ Setup.after_reachable sampleCarve_run
  have ht : w.threads 0 = .idle (some (.allocated 4160)) := by
    rw [hw]
    rfl
  have howner : (w.caches 0).owner = some () := by
    rw [hw]
    rfl
  have htotal : ((w.caches 0).classes .b64).totalLen = 1 := by
    rw [hw]
    rfl
  have hconfig : (w.allocators ()).config = ⟨16384, 64, 256, 384⟩ := by
    rw [hw]
    rfl
  obtain ⟨hheld, -, hstaged, -⟩ := hreachable.bounded_retention ht howner .b64
  rw [hconfig] at hheld hstaged
  exact ⟨w, hreachable, htotal, hheld, hstaged⟩

end Code

end Orthotope
