import Orthotope.DrainBatch
import Orthotope.Frame

/-! Draining a cache.  First the staged blocks are published, then every class is taken apart batch
by batch.  The call ends because each batch makes the cache smaller; when it has ended the central
pool has exactly what the cache had, and nothing else has changed.  A block that the cache never
handed out gets its header before the pool gets the block. -/

namespace Orthotope

open ByteMemory

variable {ι κ : Type}

/-! ### Where the blocks are during a drain -/

/-- The control points of a drain. -/
def Pc.Drains : Pc ι κ Seq → Prop
  | .flush _ | .drain _ => True
  | .unstage _ resume | .publishing _ _ resume => ∃ classes, resume = .flush classes
  | .excess _ _ resume | .returning _ _ resume => ∃ classes, resume = .drain classes
  | _ => False

def Thread.Drains (a : ι) : Thread ι κ Seq → Prop
  | .idle last => last = some .drained
  | .busy b pc => b = a ∧ pc.Drains

/-- The blocks of a class in the hands of a call. -/
def Thread.handBag (c : SizeClass) : Thread ι κ Seq → Multiset Nat
  | .idle _ => 0
  | .busy _ pc =>
    match pc.blocks with
    | some (d, blocks) => if d = c then blocks else 0
    | none => 0

/-- The blocks of a class that the call, the cache and the pool have between them. -/
def View.drainBag (c : SizeClass) (v : View ι κ Seq Seq) : Multiset Nat :=
  v.thread.handBag c + (v.cache.classes c).bag + (v.cache.remoteReturns c).pending +
    v.allocator.central.freeBag c

/-- The header prefix of a block that was initialized and never requested. -/
def drainedPrefix (c : SizeClass) : AllocationHeaderPrefix :=
  ⟨headerMagic, smallTag, c.index, 0, 0, c.payloadSize, 0⟩

/-- What holds of a drain of `k` that started in `o`. -/
structure Draining (o s : World ι κ Seq Seq) (a : ι) (k : κ) : Prop where
  thread : (s.threads k).Drains a
  live : s.live = o.live
  others : ∀ j, j ≠ k → s.caches j = o.caches j ∧ s.threads j = o.threads j
  allocators : ∀ b, b ≠ a → s.allocators b = o.allocators b
  bags : ∀ c, (s.view a k).drainBag c = (o.view a k).drainBag c
  owned : ∀ c, ((s.caches k).classes c).ownedBag ≤ ((o.caches k).classes c).ownedBag
  shared : ∀ c, ((s.caches k).classes c).sharedBag ≤ ((o.caches k).classes c).sharedBag
  handed : ∀ c batch resume, s.threads k = .busy a (.returning c batch resume) →
    ∀ b ∈ batch, b ∈ ((o.caches k).classes c).freshBag → readPrefix s.mem b = drainedPrefix c

section Steps

variable {setup : Setup ι κ} {o s : World ι κ Seq Seq} {a : ι} {k : κ} {v : View ι κ Seq Seq}

theorem Resume.drains_flush {v : View ι κ Seq Seq} {resume : Resume}
    (h : ∃ classes, resume = .flush classes) : (v.resume a resume).thread.Drains a := by
  obtain ⟨classes, rfl⟩ := h
  exact ⟨rfl, trivial⟩

theorem Resume.drains_drain {v : View ι κ Seq Seq} {resume : Resume}
    (h : ∃ classes, resume = .drain classes) : (v.resume a resume).thread.Drains a := by
  obtain ⟨classes, rfl⟩ := h
  exact ⟨rfl, trivial⟩

variable [DecidableEq ι] [DecidableEq κ]

theorem Draining.update (d : Draining o s a k) (hthread : v.thread.Drains a)
    (hlive : v.live = s.live) (hbags : ∀ c, v.drainBag c = (s.view a k).drainBag c)
    (howned : ∀ c, (v.cache.classes c).ownedBag ≤ ((s.caches k).classes c).ownedBag)
    (hshared : ∀ c, (v.cache.classes c).sharedBag ≤ ((s.caches k).classes c).sharedBag)
    (hhanded : ∀ c batch resume, v.thread = .busy a (.returning c batch resume) →
      ∀ b ∈ batch, b ∈ ((o.caches k).classes c).freshBag → readPrefix v.mem b = drainedPrefix c) :
    Draining o (s.update a k v) a k := by
  constructor
  · rwa [World.update_threads_same]
  · exact hlive.trans d.live
  · intro j hj
    rw [World.update_caches_ne _ _ hj, World.update_threads_ne _ _ hj]
    exact d.others j hj
  · intro b hb
    rw [World.update_allocators_ne _ _ hb]
    exact d.allocators b hb
  · intro c
    rw [World.view_update]
    exact (hbags c).trans (d.bags c)
  · intro c
    rw [World.update_caches_same]
    exact (howned c).trans (d.owned c)
  · intro c
    rw [World.update_caches_same]
    exact (hshared c).trans (d.shared c)
  · intro c batch resume ht
    rw [World.update_threads_same] at ht
    exact hhanded c batch resume ht

/-- A transfer to the pool is done, and the drain goes on. -/
theorem Draining.resume (d : Draining o s a k) {resume : Resume}
    (hthread : (v.resume a resume).thread.Drains a) (hlive : v.live = s.live)
    (hbags : ∀ c, (v.cache.classes c).bag + (v.cache.remoteReturns c).pending +
      v.allocator.central.freeBag c = (s.view a k).drainBag c)
    (hcache : v.cache = s.caches k) : Draining o (s.update a k (v.resume a resume)) a k := by
  obtain ⟨-, hcache', halloc', -⟩ := v.resume_frame a resume
  refine d.update hthread ((View.resume_live v a resume).trans hlive) (fun c => ?_) (fun c => ?_)
    (fun c => ?_) (fun c batch resume' ht => ?_)
  · have hhand : (v.resume a resume).thread.handBag c = 0 := by cases resume <;> rfl
    rw [View.drainBag, hhand, zero_add, hcache', halloc']
    exact hbags c
  · rw [hcache', hcache]
  · rw [hcache', hcache]
  · cases resume <;> cases ht

omit [DecidableEq ι] [DecidableEq κ] in
@[simp] theorem Thread.handBag_same (b : ι) (c : SizeClass) (batch : Seq) (resume : Resume) :
    (Thread.busy b (.returning c batch resume) : Thread ι κ Seq).handBag c = batch ∧
      (Thread.busy b (.publishing c batch resume) : Thread ι κ Seq).handBag c = batch :=
  ⟨if_pos rfl, if_pos rfl⟩

omit [DecidableEq ι] [DecidableEq κ] in
@[simp] theorem Thread.handBag_ne (b : ι) {c e : SizeClass} (h : c ≠ e) (batch : Seq)
    (resume : Resume) : (Thread.busy b (.returning c batch resume) : Thread ι κ Seq).handBag e = 0 ∧
      (Thread.busy b (.publishing c batch resume) : Thread ι κ Seq).handBag e = 0 :=
  ⟨if_neg h, if_neg h⟩

/-- A block that a cache has fresh is in no other of its lists. -/
theorem Inv.fresh_only (inv : Inv setup o) (howner : (o.caches k).owner = some a) {c : SizeClass}
    {b : Nat} (hb : b ∈ ((o.caches k).classes c).freshBag) :
    b ∉ ((o.caches k).classes c).ownedBag ∧ b ∉ ((o.caches k).classes c).sharedBag := by
  have hnodup := inv.ledger.bag_nodup howner c
  rw [LocalClassCache.bag, add_assoc] at hnodup
  obtain ⟨-, hrest, hdisj⟩ := Multiset.nodup_add.mp hnodup
  obtain ⟨-, -, hdisj'⟩ := Multiset.nodup_add.mp hrest
  constructor
  · intro hmem
    exact Multiset.disjoint_left.mp hdisj hmem (Multiset.mem_add.mpr (Or.inl hb))
  · exact Multiset.disjoint_left.mp hdisj' hb

/-- Each step of a drain moves blocks between the cache, the call and the pool, and does nothing
else. -/
theorem Draining.step (invO : Inv setup o) (hownerO : (o.caches k).owner = some a)
    (inv : Inv setup s) (d : Draining o s a k) {b : ι} {pc : Pc ι κ Seq}
    (ht : s.threads k = .busy b pc) (htrans : Transition setup.debug s b k pc v) :
    Draining o (s.update b k v) a k := by
  have hdrains := d.thread
  rw [ht] at hdrains
  obtain ⟨rfl, hpc⟩ : b = a ∧ pc.Drains := hdrains
  obtain ⟨howner, -⟩ := inv.parts.thread k b _ ht
  have hhand : ∀ c, (s.view b k).thread.handBag c = (Thread.busy b pc).handBag c := fun c =>
    congrArg (Thread.handBag c) ht
  have hbag : ∀ c, (s.view b k).drainBag c = (Thread.busy b pc).handBag c +
      ((s.caches k).classes c).bag + ((s.caches k).remoteReturns c).pending +
        (s.allocators b).central.freeBag c := fun c => by
    rw [View.drainBag, hhand]
    rfl
  cases htrans with
  | flushEnd =>
    exact d.update ⟨rfl, trivial⟩ rfl (fun c => (hbag c).symm) (fun _ => le_rfl) (fun _ => le_rfl)
      fun _ _ _ h => by cases h
  | flush =>
    exact d.update ⟨rfl, _, rfl⟩ rfl (fun c => (hbag c).symm) (fun _ => le_rfl) (fun _ => le_rfl)
      fun _ _ _ h => by cases h
  | drainEnd =>
    exact d.update rfl rfl (fun c => (hbag c).symm) (fun _ => le_rfl) (fun _ => le_rfl)
      fun _ _ _ h => by cases h
  | drainNext =>
    exact d.update ⟨rfl, trivial⟩ rfl (fun c => (hbag c).symm) (fun _ => le_rfl) (fun _ => le_rfl)
      fun _ _ _ h => by cases h
  | drain =>
    exact d.update ⟨rfl, _, rfl⟩ rfl (fun c => (hbag c).symm) (fun _ => le_rfl) (fun _ => le_rfl)
      fun _ _ _ h => by cases h
  | @unstageNone c resume h =>
    refine d.resume (Resume.drains_flush hpc) rfl (fun e => ?_) rfl
    rw [hbag e]
    exact congrArg (· + _) (congrArg (· + _) (zero_add _).symm)
  | @unstage c resume h =>
    refine d.update ⟨rfl, hpc⟩ rfl (fun e => ?_) (fun _ => le_rfl) (fun _ => le_rfl)
      fun _ _ _ h => by cases h
    rw [hbag e]
    by_cases he : c = e
    · subst he
      simp only [View.drainBag, View.goto, View.setCache, (Thread.handBag_same ..).2,
        ThreadCache.setRemoteReturns_same, Multiset.coe_nil, add_zero]
      show _ = 0 + _ + _ + _
      rw [zero_add, add_comm (Multiset.ofList _)]
      rfl
    · simp only [View.drainBag, View.goto, View.setCache, (Thread.handBag_ne _ he _ _).2,
        ThreadCache.setRemoteReturns_ne _ (Ne.symm he)]
      rfl
  | @publish c batch resume central hinv only lists inbox =>
    refine d.resume (Resume.drains_flush hpc) rfl (fun e => ?_) rfl
    rw [hbag e]
    by_cases he : c = e
    · subst he
      rw [(Thread.handBag_same ..).2]
      simp only [View.setCentral, World.view, CentralPool.freeBag, inbox, lists]
      ac_rfl
    · rw [(Thread.handBag_ne _ he _ _).2, zero_add]
      simp only [View.setCentral, World.view, only.freeBag_eq (Ne.symm he)]
  | @excess c max resume m batch class_ hinv shapes hbatch drains =>
    have hdrained := drains.bag
    obtain ⟨owned, fresh, shared, hsum, howned, hfresh, hshared, rfl⟩ := drains
    have hkept : ∀ {bag : LocalClassCache Seq → Multiset Nat} {out : Seq},
        bag ((s.caches k).classes c) = (out : Multiset Nat) + bag class_ → ∀ e,
          bag (((s.caches k).setClass c class_).classes e) ≤ bag ((s.caches k).classes e) := by
      intro bag out hbag e
      by_cases he : e = c
      · subst he
        rw [ThreadCache.setClass_same, hbag]
        exact Multiset.le_add_left _ _
      · rw [ThreadCache.setClass_ne _ he]
    refine d.update ⟨rfl, hpc⟩ rfl (fun e => ?_) (hkept howned) (hkept hshared)
      fun e batch' resume' hthread b' hb' hb => ?_
    · rw [hbag e]
      by_cases he : c = e
      · subst he
        simp only [View.drainBag, View.goto, View.setCache, View.setMem, (Thread.handBag_same ..).1,
          ThreadCache.setClass_same, hdrained]
        show _ = 0 + _ + _ + _
        rw [zero_add]
        rfl
      · simp only [View.drainBag, View.goto, View.setCache, View.setMem,
          (Thread.handBag_ne _ he _ _).1, ThreadCache.setClass_ne _ (Ne.symm he)]
        rfl
    · obtain ⟨-, hpc'⟩ := Thread.busy.inj hthread
      obtain ⟨rfl, rfl, rfl⟩ := Pc.returning.inj hpc'
      obtain ⟨hnotOwned, hnotShared⟩ := invO.fresh_only hownerO hb
      have hmem : b' ∈ (owned : Multiset Nat) + fresh + shared := hsum ▸ Multiset.mem_coe.mpr hb'
      refine readPrefix_initializeAll (inv.fresh_apart (c := c) howner ?_) b' ?_
      · rw [hfresh]
        exact Multiset.le_add_right _ _
      · rcases Multiset.mem_add.mp hmem with hmem | hmem
        · rcases Multiset.mem_add.mp hmem with hmem | hmem
          · refine absurd (Multiset.mem_of_le (d.owned c) ?_) hnotOwned
            exact howned ▸ Multiset.mem_add.mpr (Or.inl hmem)
          · exact Multiset.mem_coe.mp hmem
        · refine absurd (Multiset.mem_of_le (d.shared c) ?_) hnotShared
          exact hshared ▸ Multiset.mem_add.mpr (Or.inl hmem)
  | @returnBatch c batch resume m central h =>
    refine d.resume (Resume.drains_drain hpc) rfl (fun e => ?_) rfl
    rw [hbag e]
    by_cases he : c = e
    · subst he
      rw [(Thread.handBag_same ..).1]
      simp only [View.setMem, View.setCentral, World.view, CentralPool.freeBag, h.inbox, h.bag]
      ac_rfl
    · rw [(Thread.handBag_ne _ he _ _).1, zero_add]
      simp only [View.setMem, View.setCentral, World.view, h.only.freeBag_eq (Ne.symm he)]
  | takeSlab h => rcases h with rfl | rfl <;> exact hpc.elim
  | _ => exact hpc.elim

theorem Draining.run (invO : Inv setup o) (hownerO : (o.caches k).owner = some a)
    (inv : Inv setup s) (d : Draining o s a k) {advised : Bool × Bool} {s' : World ι κ Seq Seq}
    (hstep : s.step setup.debug (.run k advised) = some s') : Draining o s' a k := by
  obtain ⟨b, pc, v, ht, rfl, -, htrans⟩ := inv.run_cases hstep
  have hdrains := d.thread
  rw [ht] at hdrains
  obtain rfl : b = a := hdrains.1
  exact d.step invO hownerO inv ht htrans

end Steps

/-! ### The call in the code -/

section Alone

variable [DecidableEq ι] [DecidableEq κ] {setup : Setup ι κ} {w w' : World ι κ FreeList Batch}
  {s : World ι κ Seq Seq} {k : κ}

/-- The rule for a call that runs alone, on its way as well as at its end. -/
theorem Refines.alone {J : World ι κ Seq Seq → Prop}
    (hJ : ∀ {s s' : World ι κ Seq Seq} {advised : Bool × Bool}, Inv setup s → J s →
      s.step setup.debug (.run k advised) = some s' → J s')
    (h : Refines w s) (inv : Inv setup s) (hs : J s) {choices : List (Bool × Bool)}
    (hruns : w.runs setup.debug (choices.map (Action.run k)) = some w') :
    ∃ s', Refines w' s' ∧ Inv setup s' ∧ J s' := by
  induction choices generalizing w s with
  | nil =>
    obtain rfl := Option.some.inj hruns
    exact ⟨s, h, inv, hs⟩
  | cons advised choices ih =>
    obtain ⟨w₁, hstep, hrest⟩ := Option.bind_eq_some_iff.mp hruns
    obtain ⟨s₁, hstep₁, h₁⟩ := h.forward inv hstep
    exact ih h₁ (inv.step hstep₁) (hJ inv hs hstep₁) hrest

end Alone

section Code

variable [DecidableEq ι] {setup : Setup ι κ} {w w₁ w' : World ι κ FreeList Batch}
  {s : World ι κ Seq Seq} {a : ι} {k : κ}

/-- What a drain of `k` has done to the rest, when it has ended in `w'`. -/
structure World.DrainedTo (w w' : World ι κ FreeList Batch) (a : ι) (k : κ) : Prop where
  empty : ∀ c, ((w'.caches k).classes c).totalLen = 0 ∧
    ((w'.caches k).remoteReturns c).pendingLen = 0
  bindable : ∀ b config, (w'.caches k).bindToAllocator b config ≠ none
  counts : ∀ c, (w'.allocators a).central.blockCounts c = (w.allocators a).central.blockCounts c +
    ((w.caches k).classes c).totalLen + ((w.caches k).remoteReturns c).pendingLen
  blocks : ∀ c, (w'.contents.allocators a).central.freeBag c =
    (w.contents.allocators a).central.freeBag c + ((w.contents.caches k).classes c).bag +
      ((w.contents.caches k).remoteReturns c).pending
  caches : ∀ j, j ≠ k → w'.caches j = w.caches j ∧ w'.contents.caches j = w.contents.caches j ∧
    w'.threads j = w.threads j
  allocators : ∀ b, b ≠ a → w'.allocators b = w.allocators b
  live : w'.live = w.live
  bytes : ∀ e ∈ w.live, ∀ y, blockStartFromUserPtr e.ptr ≤ y → y < e.ptr + e.size →
    w'.mem.byte y = w.mem.byte y

variable [DecidableEq κ]

/-- The state over sequences in which a drain has begun. -/
theorem Refines.drain_start (h : Refines w s) (inv : Inv setup s) {last : Option Outcome}
    (ht : w.threads k = .idle last) (howner : (w.caches k).owner = some a)
    (hstep : w.step setup.debug (.drain k a) = some w₁) :
    ∃ s₁, Refines w₁ s₁ ∧ s.step setup.debug (.drain k a) = some s₁ ∧ Draining s s₁ a k := by
  have ht' := h.idle_last ht
  have howner' : (s.caches k).owner = some a := (h.owner_eq k).symm.trans howner
  have hbind : (s.caches k).bindToAllocator a (s.allocators a).config = some (s.caches k) :=
    if_pos howner'
  obtain ⟨s₁, hs₁, h₁⟩ := h.forward inv hstep
  refine ⟨s₁, h₁, hs₁, ?_⟩
  have hcall : s.call k a (fun v => v.goto a (.flush SizeClass.all)) = some s₁ := hs₁
  rw [World.call_eq ht' hbind] at hcall
  obtain rfl := Option.some.inj hcall
  have hhand : ∀ c, (s.view a k).thread.handBag c = 0 := fun c => congrArg (Thread.handBag c) ht'
  constructor
  · rw [World.update_threads_same]
    exact ⟨rfl, trivial⟩
  · rfl
  · intro j hj
    exact ⟨World.update_caches_ne _ _ hj, World.update_threads_ne _ _ hj⟩
  · intro b hb
    exact World.update_allocators_ne _ _ hb
  · intro c
    rw [World.view_update, View.drainBag, View.drainBag, hhand]
    rfl
  · intro c
    rw [World.update_caches_same]
    rfl
  · intro c
    rw [World.update_caches_same]
    rfl
  · intro c batch resume hthread
    rw [World.update_threads_same] at hthread
    cases hthread

omit [DecidableEq κ] in
/-- The end of a drain, in the code. -/
theorem Refines.drained (h : Refines w s) (inv : Inv setup s) {s' : World ι κ Seq Seq}
    (h' : Refines w' s') (inv' : Inv setup s') {last : Option Outcome}
    (ht : s.threads k = .idle last) (d : Draining s s' a k)
    (ht' : s'.threads k = .idle (some .drained)) (hempty : (s'.threads k).Emptied (s'.caches k))
    (hframed : w.Framed w') : w.DrainedTo w' a k := by
  rw [ht'] at hempty
  obtain ⟨hpending, hbag⟩ : (Resume.drain []).Emptied (s'.caches k) := hempty
  have hcaches : ∀ j, w'.caches j = (s'.caches j).map FreeList.ofSeq :=
    fun j => by rw [h'.code]; rfl
  have hcaches₀ : ∀ j, w.caches j = (s.caches j).map FreeList.ofSeq := fun j => by rw [h.code]; rfl
  have hnone : ∀ c, ((s'.caches k).classes c).bag = 0 ∧
      ((s'.caches k).remoteReturns c).pending = [] :=
    fun c => ⟨hbag c List.not_mem_nil, hpending c⟩
  -- nobody holds a block of the class at either end
  have hbags : ∀ c, (s'.allocators a).central.freeBag c = (s.allocators a).central.freeBag c +
      ((s.caches k).classes c).bag + ((s.caches k).remoteReturns c).pending := by
    intro c
    have hsum := d.bags c
    have hhand : (s.view a k).thread.handBag c = 0 := congrArg (Thread.handBag c) ht
    have hhand' : (s'.view a k).thread.handBag c = 0 := congrArg (Thread.handBag c) ht'
    rw [View.drainBag, View.drainBag, hhand, hhand'] at hsum
    simp only [World.view, (hnone c).1, (hnone c).2, Multiset.coe_nil, zero_add] at hsum
    rw [hsum]
    ac_rfl
  have hlen : ∀ {s : World ι κ Seq Seq}, Inv setup s → ∀ c,
      ((s.caches k).classes c).totalLen = ((s.caches k).classes c).bag.card ∧
        ((s.caches k).remoteReturns c).pendingLen = ((s.caches k).remoteReturns c).pending.length :=
    fun inv c => ⟨((inv.parts.cache k).class_inv c).totalLen_eq, (inv.parts.cache k).returns_ok c⟩
  constructor
  · intro c
    rw [hcaches]
    show ((s'.caches k).classes c).totalLen = 0 ∧ ((s'.caches k).remoteReturns c).pendingLen = 0
    rw [(hlen inv' c).1, (hlen inv' c).2, (hnone c).1, (hnone c).2]
    exact ⟨rfl, rfl⟩
  · intro b config
    have hisEmpty : (w'.caches k).isEmpty = true := by
      rw [hcaches, ThreadCache.isEmpty_map]
      exact (inv'.parts.isEmpty_iff k).mpr hnone
    obtain ⟨cache, hbind⟩ : ∃ cache, (w'.caches k).bindToAllocator b config = some cache :=
      ThreadCache.bindToAllocator_isSome (Or.inr hisEmpty)
    rw [hbind]
    exact Option.some_ne_none cache
  · intro c
    have hcount := congrArg Multiset.card (hbags c)
    rw [Multiset.card_add, Multiset.card_add, Multiset.coe_card, ← (hlen inv c).1,
      ← (hlen inv c).2, ← ((inv.parts.allocator a).central c).blockCounts_eq,
      ← ((inv'.parts.allocator a).central c).blockCounts_eq] at hcount
    rw [h'.blockCounts_eq, h.blockCounts_eq, hcaches₀]
    exact hcount
  · intro c
    rw [h.contents_eq, h'.contents_eq]
    exact hbags c
  · intro j hj
    obtain ⟨hcache, hthread⟩ := d.others j hj
    refine ⟨?_, ?_, ?_⟩
    · rw [hcaches, hcaches₀, hcache]
    · rw [h.contents_eq, h'.contents_eq]
      exact hcache
    · rw [h'.threads_eq, h.threads_eq, hthread]
  · intro b hb
    rw [h.code, h'.code]
    exact congrArg (Allocator.map FreeList.ofSeq) (d.allocators b hb)
  · rw [h'.live_eq, h.live_eq, d.live]
  · intro e he y hlo hhi
    have he' : e ∈ s.live := h.live_eq ▸ he
    obtain ⟨hi, hblock, hle⟩ : ∃ hi, w.Block (blockStartFromUserPtr e.ptr) hi ∧
      e.ptr + e.size ≤ hi := h.live_block inv he' rfl
    by_cases hy : y < blockStartFromUserPtr e.ptr + headerSize
    · refine hframed.header e he ?_ y ⟨hlo, hy⟩
      rw [h'.live_eq, d.live]
      exact he'
    · exact hframed.payload _ hi (Or.inl hblock) y (not_lt.mp hy) (hhi.trans_le hle)

/-- A drain that runs alone ends, and leaves the cache empty and what it had with the central pool;
and each fresh block has its header when the pool gets it. -/
theorem Setup.Reachable.drain_all (h : setup.Reachable w) {last : Option Outcome}
    (ht : w.threads k = .idle last) (howner : (w.caches k).owner = some a) :
    (w.Calls setup.debug k (.drain k a) fun w' =>
      w'.threads k = .idle (some .drained) ∧ w.DrainedTo w' a k) ∧
    ∀ (choices : List (Bool × Bool)) w₁ w₂, w.step setup.debug (.drain k a) = some w₁ →
      w₁.runs setup.debug (choices.map (Action.run k)) = some w₂ →
        ∀ c blocks resume, w₂.contents.threads k = .busy a (.returning c blocks resume) →
          ∀ b ∈ blocks, b ∈ ((w.contents.caches k).classes c).freshBag →
            readPrefix w₂.mem b = drainedPrefix c := by
  obtain ⟨s, hs, hrefines⟩ := h.refines
  have inv := hs.inv
  have ht' := hrefines.idle_last ht
  have howner' : (s.caches k).owner = some a := (hrefines.owner_eq k).symm.trans howner
  constructor
  · obtain ⟨w₁, hstep, hframed⟩ := h.call_framed .drain ht
    obtain ⟨s₁, h₁, hs₁, d₁⟩ := hrefines.drain_start inv ht howner hstep
    have hdraining : w₁.Ends setup.debug k fun w' => (∃ s', Refines w' s' ∧ setup.Reachable s' ∧
        Draining s s' a k) ∧ w.Framed w' := by
      refine TotalRuns.Ends.keep hframed ?_ ⟨s₁, h₁, hs.step _ hs₁, d₁⟩
      rintro advised w₂ w₃ ⟨s₂, h₂, hs₂, d₂⟩ hstep₂
      obtain ⟨s₃, hs₃, h₃⟩ := h₂.forward hs₂.inv hstep₂
      exact ⟨s₃, h₃, hs₂.step _ hs₃, d₂.run inv howner' hs₂.inv hs₃⟩
    refine ⟨w₁, hstep, hdraining.idle.mono fun w' hend => ?_⟩
    obtain ⟨outcome, hidle, ⟨s', h', hs', d'⟩, hframed'⟩ := hend
    have hidle' := h'.idle_last hidle
    have hdrained := d'.thread
    rw [hidle'] at hdrained
    obtain rfl : outcome = some .drained := hdrained
    exact ⟨hidle, hrefines.drained inv h' hs'.inv ht' d' hidle' (hs'.emptied k) hframed'⟩
  · intro choices w₁ w₂ hstep hruns c blocks resume hreturning b hb hfresh
    obtain ⟨s₁, h₁, hs₁, d₁⟩ := hrefines.drain_start inv ht howner hstep
    obtain ⟨s₂, h₂, inv₂, d₂⟩ := h₁.alone (J := fun s₂ => Draining s s₂ a k)
      (fun inv₁ d hstep₁ => d.run inv howner' inv₁ hstep₁) (inv.step hs₁) d₁ hruns
    rw [h₂.contents_eq] at hreturning
    rw [hrefines.contents_eq] at hfresh
    obtain ⟨p, hp⟩ : ∃ p, setup.smallCell a c b ∈ s₂.own setup p :=
      ⟨.hand k, mem_own_hand hreturning rfl hb⟩
    have haligned : b % 64 = 0 := (inv₂.ledger.inArena p _ hp).aligned
    rw [(h₂.sameFields inv₂ haligned).readPrefix_eq]
    exact d₂.handed c blocks resume hreturning b hb hfresh

theorem sampleDrain_run : (sampleWorld.runs true
    (.drain 1 () :: (List.replicate 27 (true, true)).map (Action.run 1))).isSome := by
  decide +kernel

/-- Cache 1 has a block that it never handed out. -/
theorem drain_all_sample : (sampleWorld.Calls true 1 (.drain 1 ()) fun w' =>
      w'.threads 1 = .idle (some .drained) ∧ sampleWorld.DrainedTo w' () 1) ∧
    ∃ (w₂ : World Unit (Fin 2) FreeList Batch) (resume : Resume),
      w₂.contents.threads 1 = .busy () (.returning .b64 [4480] resume) ∧
      readPrefix w₂.mem 4480 = drainedPrefix .b64 := by
  obtain ⟨last, ht⟩ : ∃ last, sampleWorld.threads 1 = .idle last := ⟨_, by rfl⟩
  obtain ⟨hcalls, hhanded⟩ := sampleWorld_reachable.drain_all ht
    (show (sampleWorld.caches 1).owner = some () by decide +kernel)
  obtain ⟨w₂, hw₂⟩ : ∃ w₂, w₂ = (sampleWorld.runs true _).get sampleDrain_run := ⟨_, rfl⟩
  have hdrain : sampleWorld.runs true
      (.drain 1 () :: (List.replicate 27 (true, true)).map (Action.run 1)) = some w₂ := by
    rw [hw₂, Option.some_get]
  obtain ⟨w₁, hstep, hruns⟩ := Option.bind_eq_some_iff.mp hdrain
  obtain ⟨resume, hreturning⟩ : ∃ resume,
      w₂.contents.threads 1 = .busy () (.returning .b64 [4480] resume) := by
    rw [hw₂]
    exact ⟨_, by rfl⟩
  have hfresh : 4480 ∈ ((sampleWorld.contents.caches 1).classes .b64).freshBag := by
    decide +kernel
  exact ⟨hcalls, w₂, resume, hreturning,
    hhanded _ w₁ w₂ hstep hruns .b64 _ resume hreturning 4480 (List.mem_singleton.mpr rfl) hfresh⟩

end Code

end Orthotope
