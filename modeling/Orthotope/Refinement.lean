import Orthotope.SystemLinks

/-! The code does what the system over sequences does.  For each control point a lemma matches the
step of the code with the step over sequences; the starts of calls, the stores of clients and the
discards follow, and with them every run of the code is a run over sequences, in the memory that the
link words make. -/

namespace Orthotope

open ByteMemory LinkedChain

variable {ι κ : Type} [DecidableEq ι] [DecidableEq κ]

section Steps

variable {setup : Setup ι κ} {w : World ι κ FreeList Batch} {s : World ι κ Seq Seq} {a : ι} {k : κ}
  {c : SizeClass} {v : View ι κ Seq Seq} {m : Mem} {T : Nat → Prop} {debug : Bool}
  {advised : Bool × Bool}

/-- The step at `pc` is possible on both sides, and goes to related states. -/
def Matched (debug : Bool) (advised : Bool × Bool) (a : ι) (k : κ)
    (w : World ι κ FreeList Batch) (s : World ι κ Seq Seq) (pc : Pc ι κ Seq) : Prop :=
  ∃ v m, (s.view a k).next debug advised a k pc = some v ∧
    ((s.view a k).code w.mem).next debug advised a k (pc.map Batch.ofSeq) = some (v.code m) ∧
      Refines ((s.update a k v).code m) (s.update a k v)

/-- A step that is matched, and that writes no link word of a live block. -/
def MatchedKeeping (debug : Bool) (advised : Bool × Bool) (a : ι) (k : κ)
    (w : World ι κ FreeList Batch) (s : World ι κ Seq Seq) (pc : Pc ι κ Seq) : Prop :=
  ∃ v m, (s.view a k).next debug advised a k pc = some v ∧
    ((s.view a k).code w.mem).next debug advised a k (pc.map Batch.ofSeq) = some (v.code m) ∧
      Refines ((s.update a k v).code m) (s.update a k v) ∧ s.KeepsLive w.mem m

theorem MatchedKeeping.matched {pc : Pc ι κ Seq} (h : MatchedKeeping debug advised a k w s pc) :
    Matched debug advised a k w s pc := by
  obtain ⟨v, m, hS, hF, hrefines, -⟩ := h
  exact ⟨v, m, hS, hF, hrefines⟩

/-! ### What a step leaves -/

theorem slabBlock_update (hshapes : ∀ d, ∀ shape ∈ ((s.allocators a).central.lists d).shapes,
    shape ∈ (v.allocator.central.lists d).shapes) :
    ∀ b, s.SlabBlock b → (s.update a k v).SlabBlock b := by
  rintro b ⟨a', d, slab, hslab, hb⟩
  by_cases ha : a' = a
  · subst ha
    obtain ⟨slab', hslab', heq⟩ := List.mem_map.mp (hshapes d _ (List.mem_map_of_mem hslab))
    refine ⟨a', d, slab', by simpa using hslab', ?_⟩
    simp only [SlabRecord.shape, Prod.mk.injEq] at heq
    simpa [SlabRecord.blocks, heq.1, heq.2.2.1, heq.2.2.2] using hb
  · exact ⟨a', d, slab, by simpa [ha] using hslab, hb⟩

theorem group_update {g : Group ι κ} (hhand : g ≠ .hand k)
    (hcache : ∀ d, g = .cache k d → v.cache.classes d = (s.caches k).classes d)
    (hstaged : ∀ d, g = .staged k d → v.cache.remoteReturns d = (s.caches k).remoteReturns d)
    (hcentral : ∀ d, g = .central a d → v.allocator.central.classLists d =
      (s.allocators a).central.classLists d) : (s.update a k v).group g = s.group g := by
  cases g with
  | cache j d =>
    by_cases hj : j = k
    · subst hj
      simp [World.group, hcache d rfl]
    · simp [World.group, hj]
  | staged j d =>
    by_cases hj : j = k
    · subst hj
      simp [World.group, hstaged d rfl]
    · simp [World.group, hj]
  | central b d =>
    by_cases hb : b = a
    · subst hb
      simp [World.group, hcentral d rfl]
    · simp [World.group, hb]
  | hand j =>
    have hj : j ≠ k := fun hj => hhand (hj ▸ rfl)
    simp [World.group, hj]

/-- A step on class `c` of the central pool. -/
theorem Refines.step_central (inv : Inv setup s) (h : Refines w s)
    (hf : Follows T w.mem s.mem m v.mem)
    (hT : ∀ b, T b → b ∈ ((s.allocators a).central.classLists c).flatten ∨ s.Has setup (.hand k) b)
    (hcache : v.cache = s.caches k)
    (only : CentralPool.OnlyClass c (s.allocators a).central v.allocator.central)
    (hshapes : ∀ shape ∈ ((s.allocators a).central.lists c).shapes,
      shape ∈ (v.allocator.central.lists c).shapes)
    (hwoven : Woven m (v.allocator.central.classLists c)) (hhand : Linked m v.thread.batch) :
    Refines ((s.update a k v).code m) (s.update a k v) ∧ s.KeepsLive w.mem m := by
  refine h.step inv (.central a c) hf (fun b hb => (hT b hb).imp_left fun hb => ?_)
    (slabBlock_update fun d shape hd => ?_) (fun g hg hk => ?_) (fun l hl => ?_) hhand
  · obtain ⟨l, hl, hbl⟩ := List.mem_flatten.mp hb
    exact inv.list_has hl hbl
  · by_cases hdc : d = c
    · exact hdc ▸ hshapes shape (hdc ▸ hd)
    · rwa [only.lists d hdc]
  · refine group_update hk (fun _ _ => by rw [hcache]) (fun _ _ => by rw [hcache]) fun d hd => ?_
    have hdc : d ≠ c := fun hdc => hg (hdc ▸ hd)
    simp only [CentralPool.classLists, only.lists d hdc, only.inboxes d hdc]
  · exact hwoven.linked l (by simpa [World.group] using hl)

/-- A step on class `c` of the cache. -/
theorem Refines.step_cache (inv : Inv setup s) (h : Refines w s) {class_ : LocalClassCache Seq}
    (howner : (s.caches k).owner = some a) (hf : Follows T w.mem s.mem m v.mem)
    (hT : ∀ b, T b → b ∈ ((s.caches k).classes c).bag ∨ s.Has setup (.hand k) b)
    (hcache : v.cache = (s.caches k).setClass c class_)
    (hcentral : v.allocator.central = (s.allocators a).central)
    (hwoven : Woven m class_.lists) (hhand : Linked m v.thread.batch) :
    Refines ((s.update a k v).code m) (s.update a k v) ∧ s.KeepsLive w.mem m := by
  refine h.step inv (.cache k c) hf (fun b hb => (hT b hb).imp_left (has_cache howner))
    (slabBlock_update fun d shape hd => by rwa [hcentral]) (fun g hg hk => ?_)
      (fun l hl => ?_) hhand
  · refine group_update hk (fun d hd => ?_) (fun d _ => by rw [hcache]; rfl)
      fun d _ => by rw [hcentral]
    have hdc : d ≠ c := fun hdc => hg (hdc ▸ hd)
    rw [hcache, ThreadCache.setClass_ne _ hdc]
  · exact hwoven.linked l (by simpa [World.group, hcache] using hl)

/-- A step on the staged blocks of class `c`. -/
theorem Refines.step_staged (inv : Inv setup s) (h : Refines w s) {returns : RemoteReturns Seq}
    (hf : Follows T w.mem s.mem m v.mem)
    (hT : ∀ b, T b → b ∈ ((s.caches k).remoteReturns c).pending ∨ s.Has setup (.hand k) b)
    (hcache : v.cache = (s.caches k).setRemoteReturns c returns)
    (hcentral : v.allocator.central = (s.allocators a).central)
    (hlinked : Linked m returns.pending) (hhand : Linked m v.thread.batch) :
    Refines ((s.update a k v).code m) (s.update a k v) ∧ s.KeepsLive w.mem m := by
  refine h.step inv (.staged k c) hf (fun b hb => (hT b hb).imp_left fun hb => ?_)
    (slabBlock_update fun d shape hd => by rwa [hcentral]) (fun g hg hk => ?_)
      (fun l hl => ?_) hhand
  · exact inv.list_has (g := .staged k c) (List.mem_singleton_self _) hb
  · refine group_update hk (fun d _ => by rw [hcache]; rfl) (fun d hd => ?_)
      fun d _ => by rw [hcentral]
    have hdc : d ≠ c := fun hdc => hg (hdc ▸ hd)
    rw [hcache, ThreadCache.setRemoteReturns_ne _ hdc]
  · obtain rfl : l = returns.pending := by simpa [World.group, hcache] using hl
    exact hlinked

/-- The link words of the blocks in lists, apart from those in the hands of the call on `k`, are the
same in both memories. -/
def World.KeepsLinks (s : World ι κ Seq Seq) (k : κ) (m m' : Mem) : Prop :=
  ∀ g, g ≠ .hand k → ∀ l ∈ s.group g, ∀ b ∈ l,
    readSmallFreeListNext m' b = readSmallFreeListNext m b

/-- Stores to a cell do not reach the lists of other groups. -/
theorem Inv.keepsLink (inv : Inv setup s) {P : Nat → Prop} {m m' : Mem} (hw : WritesIn P m m')
    {q : Place ι κ} {y : Cell ι} (hy : y ∈ s.own setup q) (hP : ∀ x, P x → y.lo ≤ x ∧ x < y.hi)
    {g : Group ι κ} (hq : q.group ≠ some g) {l : List Nat} (hl : l ∈ s.group g) {b : Nat}
    (hb : b ∈ l) : readSmallFreeListNext m' b = readSmallFreeListNext m b := by
  obtain ⟨p, a, c, _, hp, hx, _, _⟩ := inv.list_place hl hb
  have hpq : p ≠ q := by
    rintro rfl
    exact hq hp
  have hapart := inv.ledger.apart.of_ne hpq hx hy
  have hsize := (setup.config a).header_payload_le_classBlockSize c
  refine readNext_congr fun x hx => hw.byte x fun hPx => ?_
  obtain ⟨h1, h2⟩ := hP x hPx
  obtain ⟨h3, h4⟩ := hx
  simp only [Cell.Apart, Setup.smallCell, headerSize] at hapart hsize
  omega

/-- Stores to a cell that is not live do not reach the link words of those that are. -/
theorem Inv.keepsLive (inv : Inv setup s) {P : Nat → Prop} {m m' : Mem} (hw : WritesIn P m m')
    {q : Place ι κ} {y : Cell ι} (hy : y ∈ s.own setup q) (hP : ∀ x, P x → y.lo ≤ x ∧ x < y.hi)
    (hq : q ≠ .client) : s.KeepsLive m m' := by
  intro e he c hc
  have hapart := inv.ledger.apart.of_ne hq.symm (Live.mem_client he hc) hy
  have hsize := (setup.config e.alloc).header_payload_le_classBlockSize c
  refine readNext_congr fun x hx => hw.byte x fun hPx => ?_
  obtain ⟨h1, h2⟩ := hP x hPx
  obtain ⟨h3, h4⟩ := hx
  simp only [Cell.Apart, Setup.smallCell, headerSize] at hapart hsize
  omega

/-- Stores to a cell that a call or a client has do not reach the lists. -/
theorem Inv.keepsLinks (inv : Inv setup s) {P : Nat → Prop} {m m' : Mem} (hw : WritesIn P m m')
    {q : Place ι κ} {y : Cell ι} (hy : y ∈ s.own setup q) (hP : ∀ x, P x → y.lo ≤ x ∧ x < y.hi)
    (hq : ∀ g, q.group = some g → g = .hand k) : s.KeepsLinks k m m' :=
  fun _ hg _ hl _ hb => inv.keepsLink hw hy hP (fun h => hg (hq _ h)) hl hb

/-- A step that leaves all lists alone, and at most drops the batch of the call. -/
theorem Refines.step_quiet (h : Refines w s) (hagree : Agree s.SlabBlock m v.mem)
    (hnext : s.KeepsLinks k w.mem m) (hcache : v.cache = s.caches k)
    (hcentral : v.allocator.central = (s.allocators a).central)
    (hthread : v.thread.batch = []) : Refines ((s.update a k v).code m) (s.update a k v) where
  code := rfl
  agree := hagree.mono (slabBlock_update fun d shape hd => by rwa [hcentral])
  linked := fun g l hl => by
    by_cases hg : g = .hand k
    · subst hg
      obtain rfl : l = [] := by simpa [World.group, hthread] using hl
      trivial
    · have hgroup : (s.update a k v).group g = s.group g :=
        group_update hg (fun d _ => by rw [hcache]) (fun d _ => by rw [hcache])
          fun d _ => by rw [hcentral]
      rw [hgroup] at hl
      exact (h.linked g l hl).congr (hnext g hg l hl)

omit [DecidableEq ι] [DecidableEq κ] in
theorem View.resume_frame (v : View ι κ Seq Seq) (a : ι) (resume : Resume) :
    (v.resume a resume).mem = v.mem ∧ (v.resume a resume).cache = v.cache ∧
      (v.resume a resume).allocator = v.allocator ∧ (v.resume a resume).thread.batch = [] := by
  cases resume <;> exact ⟨rfl, rfl, rfl, rfl⟩

omit [DecidableEq ι] [DecidableEq κ] in
theorem View.code_resume (v : View ι κ Seq Seq) (m : Mem) (a : ι) (resume : Resume) :
    (v.resume a resume).code m = (v.code m).resume a resume := by
  cases resume <;> rfl

/-! ### The control points -/

theorem Refines.refill (inv : Inv setup s) (h : Refines w s) {size : Nat}
    (ht : s.threads k = .busy a (.refill c size)) :
    MatchedKeeping debug advised a k w s (.refill c size) := by
  obtain ⟨howner, _⟩ := inv.parts.thread k a _ ht
  have hcount : 0 < ((s.caches k).classConfig c).refillCount := by
    rw [(inv.parts.cache k).table a howner]
    exact (setup.config a).refillCount_pos c
  have ok := (inv.parts.allocator a).central c
  obtain ⟨m', central, r, heq, hspec⟩ := CentralPool.takeRefill_spec ok
    (inv.ledger.inboxOk howner) inv.parts.pageSize_pos hcount advised
  obtain ⟨m₁, hrun, hwoven, hlinked, hf⟩ := CentralPool.takeRefill_map ok.inbox
    (inv.woven_central h.linked howner c) h.agree_all heq
  have hrun' : (View.code w.mem (s.view a k)).allocator.central.takeRefill
      (View.code w.mem (s.view a k)).mem advised c
        ((View.code w.mem (s.view a k)).cache.classConfig c).refillCount =
      some (m₁, central.map FreeList.ofSeq, r.map Batch.ofSeq) := hrun
  refine ⟨(((s.view a k).setMem m').setCentral central).goto a (r.pc c size), m₁, ?_, ?_,
    h.step_central inv hf (fun b hb => Or.inl hb) rfl hspec.only
      (fun shape hs => hspec.shapes ▸ hs) hwoven ?_⟩
  · simp only [View.next, World.view, heq, Option.map_some]
    cases r <;> rfl
  · simp only [Pc.map, View.next, hrun', Option.map_some]
    cases r <;> rfl
  · cases r with
    | empty => trivial
    | batch blocks => exact hlinked blocks rfl
    | slab start blockSize capacity => trivial

theorem Refines.gotBatch (inv : Inv setup s) (h : Refines w s) {size : Nat} {batch : Seq}
    (ht : s.threads k = .busy a (.gotBatch c size batch)) :
    MatchedKeeping debug advised a k w s (.gotBatch c size batch) := by
  obtain ⟨howner, _, hne⟩ := inv.parts.thread k a _ ht
  obtain ⟨class_, heq, _⟩ :=
    LocalClassCache.pushSharedBatch_spec ((inv.parts.cache k).class_inv c) batch s.mem
  have hlinked : Linked w.mem batch := h.linked (.hand k) batch (by simp [World.group, ht]; rfl)
  have hnodup : ((batch : Multiset Nat) + ((s.caches k).classes c).bag).Nodup := by
    refine Multiset.nodup_of_le ?_ (inv.ledger.blocks_nodup (c := c) howner ht rfl)
    rw [add_comm, View.stored]
    refine add_le_add_left ?_ _
    exact ((Multiset.le_add_right _ _).trans (Multiset.le_add_right _ _)).trans
      (Multiset.le_add_right _ _)
  obtain ⟨m₁, hrun, hwoven, hf⟩ := LocalClassCache.pushSharedBatch_map
    (inv.woven_cache h.linked howner c) hlinked
    (fun b hb => inv.has_linkable (has_hand ht rfl hb)) hnodup heq
  have hrun' : (View.code w.mem (s.view a k)).cache.pushSharedBatch
      (View.code w.mem (s.view a k)).mem
      c (Batch.ofSeq batch) =
        some (m₁, ((s.caches k).setClass c class_).map FreeList.ofSeq) := by
    rw [← ThreadCache.map_setClass]
    exact congrArg (Option.map _) hrun
  have hlen : batch.length ≠ 0 := fun h => hne (List.length_eq_zero_iff.mp h)
  refine ⟨((s.view a k).setCache ((s.caches k).setClass c class_)).goto a (.pop c size), m₁, ?_, ?_,
    h.step_cache inv howner hf (fun b hb => Or.inr (has_hand ht rfl hb)) rfl rfl hwoven trivial⟩
  · simp [View.next, World.view, ThreadCache.pushSharedBatch, heq, hlen, View.setMem, View.setCache,
      View.goto]
  · simp only [Pc.map, View.next, hrun', Option.map_some, batchLen_ofSeq, hlen, if_false]
    rfl

/-- A whole slab is taken in without a write. -/
theorem Refines.takeSlab (inv : Inv setup s) (h : Refines w s) {size start blockSize capacity : Nat}
    {pc : Pc ι κ Seq} (ht : s.threads k = .busy a pc)
    (hpc : pc = .gotSlab c size start blockSize capacity ∨
      pc = .registered c size start blockSize capacity) :
    MatchedKeeping debug advised a k w s pc := by
  obtain ⟨howner, hok⟩ := inv.parts.thread k a _ ht
  have hcap : capacity ≠ 0 := by
    rcases hpc with rfl | rfl <;> exact Nat.pos_iff_ne_zero.mp hok.2.2.1
  have hpush : ((s.caches k).map FreeList.ofSeq).pushOwnedSlab c start blockSize capacity =
      ((s.caches k).pushOwnedSlab c start blockSize capacity).map FreeList.ofSeq := by
    rw [ThreadCache.pushOwnedSlab, ThreadCache.pushOwnedSlab, ← ThreadCache.map_setClass]
    exact congrArg _ (LocalClassCache.pushOwnedSlab_map ..)
  refine ⟨((s.view a k).setCache ((s.caches k).pushOwnedSlab c start blockSize capacity)).goto a
    (.pop c size), w.mem, ?_, ?_, h.step_cache inv howner (Follows.refl (fun _ => False) _ _)
      (fun _ hb => hb.elim) rfl rfl (LocalClassCache.woven_pushOwnedSlab
        (inv.woven_cache h.linked howner c) start blockSize capacity) trivial⟩
  · rcases hpc with rfl | rfl <;> simp only [View.next, hcap, if_false] <;> rfl
  · have hcode : (View.code w.mem (s.view a k)).cache = (s.caches k).map FreeList.ofSeq := rfl
    rcases hpc with rfl | rfl <;>
      simp only [Pc.map, View.next, hcap, if_false, hcode, hpush] <;> rfl

/-- The control points whose step works on the arena, on the registry or on nothing. -/
def Pc.IsPlain : Pc ι κ Seq → Prop
  | .carve .. | .large .. | .largeCarve .. | .largeWritten .. | .report .. | .releasing ..
  | .flush .. | .drain .. => True
  | _ => False

omit [DecidableEq ι] [DecidableEq κ] in
theorem Transition.plain {pc : Pc ι κ Seq} (hv : Transition debug s a k pc v) (hpc : pc.IsPlain) :
    v.mem = s.mem ∧ v.cache = s.caches k ∧ v.allocator.central = (s.allocators a).central ∧
      v.thread.batch = [] := by
  cases hv with
  | takeSlab h => rcases h with rfl | rfl <;> exact hpc.elim
  | _ => first | exact hpc.elim | exact ⟨rfl, rfl, rfl, rfl⟩

theorem Refines.plain (inv : Inv setup s) (h : Refines w s) {pc : Pc ι κ Seq}
    (ht : s.threads k = .busy a pc) (hpc : pc.IsPlain)
    (hF : ((s.view a k).code w.mem).next debug advised a k (pc.map Batch.ofSeq) =
      ((s.view a k).next debug advised a k pc).map (View.code w.mem)) :
    MatchedKeeping debug advised a k w s pc := by
  obtain ⟨v, hS, htrans⟩ := next_spec inv ht
  obtain ⟨hmem, hcache, hcentral, hthread⟩ := htrans.plain hpc
  refine ⟨v, w.mem, hS, by rw [hF, hS, Option.map_some], h.step_quiet (hmem ▸ h.agree)
    (fun _ _ _ _ _ _ => rfl) hcache hcentral hthread, World.KeepsLive.refl s w.mem⟩

theorem Refines.carve (inv : Inv setup s) (h : Refines w s) {size : Nat}
    (ht : s.threads k = .busy a (.carve c size)) :
    MatchedKeeping debug advised a k w s (.carve c size) := by
  apply h.plain inv ht trivial
  have harena : ((s.view a k).code w.mem).allocator.arena = (s.view a k).allocator.arena := rfl
  have hconfig : ((s.view a k).code w.mem).allocator.config = (s.view a k).allocator.config := rfl
  simp only [Pc.map, View.next, harena, hconfig]
  rcases (s.view a k).allocator.arena.reserveBlockSpan
    ((s.view a k).allocator.config.classBlockSize c)
    ((s.view a k).allocator.config.refillCount c) with e | ⟨_ | span, arena⟩
  · cases e <;> rfl
  · rfl
  · rfl

theorem Refines.large (inv : Inv setup s) (h : Refines w s) {size blockSize : Nat}
    (ht : s.threads k = .busy a (.large size blockSize)) :
    MatchedKeeping debug advised a k w s (.large size blockSize) := by
  apply h.plain inv ht trivial
  have hlarge : ((s.view a k).code w.mem).allocator.large = (s.view a k).allocator.large := rfl
  simp only [Pc.map, View.next, hlarge, Option.map_map]
  congr 1
  funext r
  obtain ⟨found, large⟩ := r
  cases found <;> rfl

theorem Refines.largeCarve (inv : Inv setup s) (h : Refines w s) {size blockSize : Nat}
    (ht : s.threads k = .busy a (.largeCarve size blockSize)) :
    MatchedKeeping debug advised a k w s (.largeCarve size blockSize) := by
  apply h.plain inv ht trivial
  have harena : ((s.view a k).code w.mem).allocator.arena = (s.view a k).allocator.arena := rfl
  simp only [Pc.map, View.next, harena]
  rcases (s.view a k).allocator.arena.allocateBlock blockSize with e | ⟨start, arena⟩
  · cases e <;> rfl
  · rfl

theorem Refines.largeWritten (inv : Inv setup s) (h : Refines w s) {size start blockSize : Nat}
    (ht : s.threads k = .busy a (.largeWritten size start blockSize)) :
    MatchedKeeping debug advised a k w s (.largeWritten size start blockSize) := by
  apply h.plain inv ht trivial
  have hlarge : ((s.view a k).code w.mem).allocator.large = (s.view a k).allocator.large := rfl
  simp only [Pc.map, View.next, hlarge, Option.map_map]
  rfl

theorem Refines.releasing (inv : Inv setup s) (h : Refines w s) {entry : Live ι κ}
    {requestedSize usableSize : Nat}
    (ht : s.threads k = .busy a (.releasing entry requestedSize usableSize)) :
    MatchedKeeping debug advised a k w s (.releasing entry requestedSize usableSize) := by
  apply h.plain inv ht trivial
  have hlarge : ((s.view a k).code w.mem).allocator.large = (s.view a k).allocator.large := rfl
  simp only [Pc.map, View.next, hlarge, Option.map_map]
  congr 1
  funext result
  cases result <;> rfl

theorem Refines.drain (inv : Inv setup s) (h : Refines w s) {classes : List SizeClass}
    (ht : s.threads k = .busy a (.drain classes)) :
    MatchedKeeping debug advised a k w s (.drain classes) := by
  apply h.plain inv ht trivial
  cases classes with
  | nil => rfl
  | cons c classes =>
    have hlen : (((s.view a k).code w.mem).cache.classes c).totalLen =
      ((s.view a k).cache.classes c).totalLen := rfl
    simp only [Pc.map, View.next, Option.map_some, hlen]
    split <;> rfl

theorem Refines.flush (inv : Inv setup s) (h : Refines w s) {classes : List SizeClass}
    (ht : s.threads k = .busy a (.flush classes)) :
    MatchedKeeping debug advised a k w s (.flush classes) := by
  apply h.plain inv ht trivial
  cases classes <;> rfl

theorem Refines.carved (inv : Inv setup s) (h : Refines w s) {size : Nat} {span : ReservedSpan}
    (ht : s.threads k = .busy a (.carved c size span)) :
    MatchedKeeping debug advised a k w s (.carved c size span) := by
  obtain ⟨howner, hok⟩ := inv.parts.thread k a _ ht
  obtain ⟨v, hS, htrans⟩ := next_spec inv ht
  obtain ⟨n, hn⟩ : ∃ n, n = span.size / (s.allocators a).config.classBlockSize c := ⟨_, rfl⟩
  obtain ⟨m₁, hrun, hwoven, hf⟩ := CentralPool.registerSlab_map
    (inv.woven_central h.linked howner c)
    h.agree_all.pageSize advised.1 span.start ((s.allocators a).config.classBlockSize c) n
  obtain ⟨result, hresult⟩ : ∃ result, result = (s.allocators a).central.registerSlab s.mem
    advised.1 c span.start ((s.allocators a).config.classBlockSize c) n := ⟨_, rfl⟩
  have hv : v = ((((s.view a k).setMem result.1).setCentral result.2).goto a
      (.registered c size span.start ((s.allocators a).config.classBlockSize c) n)) := by
    rw [hresult, hn]
    exact (Option.some.inj hS).symm
  have hshapes : ∀ shape ∈ ((s.allocators a).central.lists c).shapes,
      shape ∈ (v.allocator.central.lists c).shapes := by
    cases htrans with
    | takeSlab h => rcases h with h | h <;> exact absurd h (by simp)
    | @register _ _ _ _ _ central _ _ hreg =>
      intro shape hshape
      show shape ∈ (central.lists c).shapes
      rw [hreg.shapes]
      exact List.mem_append.mpr (Or.inl hshape)
  rw [← hresult] at hrun hwoven hf
  subst hv
  have hrun' : ((s.view a k).code w.mem).allocator.central.registerSlab
      ((s.view a k).code w.mem).mem advised.1 c span.start
      (((s.view a k).code w.mem).allocator.config.classBlockSize c)
      (span.size / ((s.view a k).code w.mem).allocator.config.classBlockSize c) =
      (m₁, result.2.map FreeList.ofSeq) := by
    rw [← hrun, hn]
    rfl
  refine ⟨_, m₁, hS, ?_, h.step_central inv hf (fun _ hb => hb.elim) rfl ?_ hshapes hwoven trivial⟩
  · simp only [Pc.map, View.next, hrun', hn]
    rfl
  · show CentralPool.OnlyClass c (s.allocators a).central result.2
    rw [hresult]
    exact ⟨fun d hd => Function.update_of_ne hd .., fun _ _ => rfl⟩

theorem Refines.pop (inv : Inv setup s) (h : Refines w s) {size : Nat}
    (ht : s.threads k = .busy a (.pop c size)) :
    MatchedKeeping debug advised a k w s (.pop c size) := by
  obtain ⟨howner, _, hlen⟩ := inv.parts.thread k a _ ht
  obtain ⟨block, reuse, class_, heq, _⟩ :=
    LocalClassCache.popBlockUnchecked_spec ((inv.parts.cache k).class_inv c) hlen s.mem
  obtain ⟨hrun, hwoven⟩ :=
    LocalClassCache.popBlockUnchecked_map (inv.woven_cache h.linked howner c) heq
  have hrun' : ((s.view a k).code w.mem).cache.popAvailableUnchecked ((s.view a k).code w.mem).mem
      c = some (block, reuse, ((s.caches k).setClass c class_).map FreeList.ofSeq) := by
    rw [← ThreadCache.map_setClass]
    exact congrArg (Option.map _) hrun
  refine ⟨((s.view a k).setCache ((s.caches k).setClass c class_)).goto a
    (.popped c size block reuse), w.mem, ?_, ?_, h.step_cache inv howner
      (Follows.refl (fun _ => False) _ _) (fun _ hb => hb.elim) rfl rfl hwoven trivial⟩
  · simp [View.next, World.view, ThreadCache.popAvailableUnchecked, heq]
  · simp only [Pc.map, View.next, hrun', Option.map_some]
    rfl

/-- The batch that a call is about to give to the central pool is not in it. -/
theorem Inv.hand_apart (inv : Inv setup s) {pc : Pc ι κ Seq} (ht : s.threads k = .busy a pc)
    {batch : List Nat} (hpc : pc.blocks = some (c, batch)) :
    ∀ b ∈ batch, b ∉ ((s.allocators a).central.classLists c).flatten := by
  intro b hb hmem
  obtain ⟨l, hl, hbl⟩ := List.mem_flatten.mp hmem
  have hl : l ∈ s.group (.central a c) := hl
  exact inv.ledger.has_ne (by simp) (has_hand ht hpc hb) (inv.list_has hl hbl) rfl

/-! ### Header writes -/

theorem Agree.writeHeader {K : Nat → Prop} {mF mS : Mem} (h : Agree K mF mS) (size b owner : Nat)
    (reuse : BlockReuse) : Agree K (View.writeHeader debug mF c size b owner reuse)
      (View.writeHeader debug mS c size b owner reuse) := by
  have hclear : Agree K (clearSmallFreeMetadata debug mF b)
      (clearSmallFreeMetadata debug mS b) := by
    unfold clearSmallFreeMetadata
    split
    · exact h.write _ _ _
    · exact h
  cases reuse with
  | hotReuseRequestedOnly => exact hclear.write _ _ _
  | needsOwnerAndRequestedSizeRefresh => exact (hclear.write _ _ _).write _ _ _
  | needsHeaderRewrite => exact hclear.writeFields _ _ _

theorem Agree.markSmallBlockFreed {K : Nat → Prop} {mF mS : Mem} (h : Agree K mF mS) (b : Nat) :
    Agree K (markSmallBlockFreed debug mF b) (markSmallBlockFreed debug mS b) := by
  unfold Orthotope.markSmallBlockFreed
  split
  · exact h.write _ _ _
  · exact h

theorem Refines.popped (inv : Inv setup s) (h : Refines w s) {size block : Nat} {reuse : BlockReuse}
    (ht : s.threads k = .busy a (.popped c size block reuse)) :
    MatchedKeeping debug advised a k w s (.popped c size block reuse) := by
  have hcell : setup.smallCell a c block ∈ s.own setup (.hand k) :=
    mem_own_hand ht rfl (List.mem_singleton_self block)
  have hsize := (setup.config a).header_payload_le_classBlockSize c
  have hwrites := writesIn_writeHeader debug w.mem c size block (s.caches k).cacheId reuse
  have hin : ∀ x, inHeader block x → (setup.smallCell a c block).lo ≤ x ∧
      x < (setup.smallCell a c block).hi := by
    intro x hx
    refine ⟨hx.1, ?_⟩
    have := hx.2
    simp only [Setup.smallCell]
    omega
  exact ⟨_, View.writeHeader debug w.mem c size block (s.caches k).cacheId reuse, rfl, rfl,
    h.step_quiet (h.agree.writeHeader size block _ reuse)
      (inv.keepsLinks hwrites hcell hin fun g hg => (Option.some.inj hg).symm) rfl rfl rfl,
    inv.keepsLive hwrites hcell hin (by simp)⟩

theorem Refines.largeGot (inv : Inv setup s) (h : Refines w s) {size start blockSize : Nat}
    (ht : s.threads k = .busy a (.largeGot size start blockSize)) :
    MatchedKeeping debug advised a k w s (.largeGot size start blockSize) := by
  obtain ⟨_, _, hsize, hle⟩ := inv.parts.thread k a _ ht
  have hcell := mem_own_extent setup ht rfl
  by_cases hfits : blockSize - headerSize < 2 ^ 32
  · have hS : ∀ m, writeLargeToBlock m start size (blockSize - headerSize) =
        some (writeLarge m start size blockSize) := fun m => by
      rw [writeLargeToBlock_eq hsize hle, if_pos hfits]
    have hwrites : WritesIn (inHeader start) w.mem (writeLarge w.mem start size blockSize) :=
      writesIn_writeEncodedFields w.mem start _ _ _ _ _
    have hin : ∀ x, inHeader start x → (largeCell a ⟨start, blockSize⟩).lo ≤ x ∧
        x < (largeCell a ⟨start, blockSize⟩).hi := by
      intro x hx
      refine ⟨hx.1, ?_⟩
      have := hx.2
      simp only [largeCell]
      omega
    refine ⟨((s.view a k).setMem (writeLarge s.mem start size blockSize)).goto a
      (.largeWritten size start blockSize), writeLarge w.mem start size blockSize, ?_, ?_,
      h.step_quiet (h.agree.writeFields start _ _)
        (inv.keepsLinks hwrites hcell hin fun g hg => (Option.some.inj hg).symm) rfl rfl rfl,
      inv.keepsLive hwrites hcell hin (by simp)⟩
    · simp only [View.next, hS]
      rfl
    · simp only [Pc.map, View.next, hS]
      rfl
  · have hS : ∀ m, writeLargeToBlock m start size (blockSize - headerSize) = none := fun m => by
      rw [writeLargeToBlock_eq hsize hle, if_neg hfits]
    refine ⟨(s.view a k).goto a (.report size), w.mem, ?_, ?_, h.step_quiet h.agree
      (fun _ _ _ _ _ _ => rfl) rfl rfl rfl, World.KeepsLive.refl s w.mem⟩
    · simp only [View.next, hS]
    · simp only [Pc.map, View.next, hS]
      rfl

/-! ### Frees and drains -/

theorem Refines.route (inv : Inv setup s) (h : Refines w s) {block owner : Nat}
    (ht : s.threads k = .busy a (.route c block owner)) :
    MatchedKeeping debug advised a k w s (.route c block owner) := by
  obtain ⟨howner, _⟩ := inv.parts.thread k a _ ht
  have hhand : s.Has setup (.hand k) block := has_hand ht rfl (List.mem_singleton_self block)
  by_cases hid : owner = (s.caches k).cacheId
  · subst hid
    have hhome : ∀ b ∈ ((s.caches k).classes c).hotBag, ∀ slab ∈ ((s.caches k).classes c).slabs,
        slab.start ≤ b → b < slab.endAddr → b ∈ slab.blocks := by
      intro b hb
      apply inv.mem_local_slab howner (p := .hot k c)
      simpa [World.own, World.cacheCells, howner] using setup.smallCell_mem hb
    obtain ⟨class_, heq, _⟩ := LocalClassCache.pushBlock_spec
      ((inv.parts.cache k).class_inv c) block
      hhome debug s.mem
    obtain ⟨m₁, hrun, hwoven, hf⟩ := LocalClassCache.pushBlock_map
      (inv.woven_cache h.linked howner c) (inv.ledger.bag_nodup howner c)
      (fun b hb => inv.has_linkable (has_cache howner hb)) heq
    obtain ⟨cache, hcache⟩ : ∃ cache, cache = (s.caches k).setClass c class_ := ⟨_, rfl⟩
    have hrun' : ((s.view a k).code w.mem).cache.push debug ((s.view a k).code w.mem).mem c block =
        some (m₁, cache.map FreeList.ofSeq) := by
      rw [hcache, ← ThreadCache.map_setClass]
      exact congrArg (Option.map _) hrun
    have hdrain : (cache.map FreeList.ofSeq).shouldDrain c = cache.shouldDrain c := rfl
    obtain ⟨v, hv⟩ : ∃ v, v = if cache.shouldDrain c then ((s.view a k).setCache cache).goto a
      (.excess c (cache.classConfig c).drainCount .done)
        else ((s.view a k).setCache cache).finish .freed := ⟨_, rfl⟩
    refine ⟨v, m₁, ?_, ?_, ?_⟩
    · simp only [View.next, World.view, if_pos, ThreadCache.push, heq,
        Option.map_some, ← hcache, hv]
      rfl
    · have hid' : ((s.view a k).code w.mem).cache.cacheId = (s.caches k).cacheId := rfl
      simp only [Pc.map, View.next, hid', if_pos, hrun', Option.map_some, hdrain, hv]
      split <;> rfl
    · have hquiet : v.mem = s.mem ∧ v.cache = cache ∧
          v.allocator.central = (s.allocators a).central ∧ v.thread.batch = [] := by
        rw [hv]
        split <;> exact ⟨rfl, rfl, rfl, rfl⟩
      obtain ⟨hmem, hcache', hcentral, hbatch⟩ := hquiet
      have hf : Follows (fun x => x ∈ ((s.caches k).classes c).bag) w.mem s.mem m₁ v.mem := by
        rw [hmem]
        exact hf
      exact h.step_cache inv howner hf (fun b hb => Or.inl hb) (hcache'.trans hcache) hcentral
        hwoven (hbatch ▸ trivial)
  · have hlinked : Linked w.mem ((s.caches k).remoteReturns c).pending :=
      h.linked (.staged k c) _ (List.mem_singleton_self _)
    have hhas : ∀ b ∈ ((s.caches k).remoteReturns c).pending, s.Has setup (.staged k c) b :=
      fun b hb => inv.list_has (g := .staged k c) (List.mem_singleton_self _) hb
    obtain ⟨m₁, hrun, hlinked', hf⟩ := RemoteReturns.pushBlock_map hlinked s.mem
      (inv.has_linkable hhand) (fun b hb => inv.has_linkable (hhas b hb))
      fun hb => inv.ledger.has_ne (by simp) hhand (hhas block hb) rfl
    obtain ⟨returns, hreturns⟩ : ∃ returns, returns =
      (((s.caches k).remoteReturns c).pushBlock s.mem block).2 := ⟨_, rfl⟩
    rw [← hreturns] at hrun hlinked'
    obtain ⟨cache, hcache⟩ : ∃ cache, cache = (s.caches k).setRemoteReturns c returns := ⟨_, rfl⟩
    have hS : (s.caches k).pushRemoteReturn s.mem c block = (s.mem, cache) := by
      rw [hcache, hreturns]
      rfl
    have hrun' : ((s.view a k).code w.mem).cache.pushRemoteReturn ((s.view a k).code w.mem).mem c
        block = (m₁, cache.map FreeList.ofSeq) := by
      rw [hcache, ← ThreadCache.map_setRemoteReturns]
      exact congrArg (fun r => (r.1, ((s.caches k).map FreeList.ofSeq).setRemoteReturns c r.2)) hrun
    have hflush : (cache.map FreeList.ofSeq).shouldFlushRemoteReturns c =
      cache.shouldFlushRemoteReturns c := rfl
    obtain ⟨v, hv⟩ : ∃ v, v = if cache.shouldFlushRemoteReturns c then
      ((s.view a k).setCache cache).goto a (.unstage c .done)
        else ((s.view a k).setCache cache).finish .freed := ⟨_, rfl⟩
    have hquiet : v.mem = s.mem ∧ v.cache = cache ∧
        v.allocator.central = (s.allocators a).central ∧ v.thread.batch = [] := by
      rw [hv]
      split <;> exact ⟨rfl, rfl, rfl, rfl⟩
    obtain ⟨hmem, hcache', hcentral, hbatch⟩ := hquiet
    have hf : Follows (fun x => x = block) w.mem s.mem m₁ v.mem := by rwa [hmem]
    refine ⟨v, m₁, ?_, ?_, h.step_staged inv hf (fun b hb => Or.inr (hb ▸ hhand))
      (hcache'.trans hcache) hcentral hlinked' (hbatch ▸ trivial)⟩
    · simp only [View.next, World.view, if_neg hid, hS, hv]
      rfl
    · have hid' : ¬owner = ((s.view a k).code w.mem).cache.cacheId := hid
      simp only [Pc.map, View.next, if_neg hid', hrun', hflush, hv]
      split <;> rfl

theorem Refines.unstage (inv : Inv setup s) (h : Refines w s) {resume : Resume}
    (ht : s.threads k = .busy a (.unstage c resume)) :
    MatchedKeeping debug advised a k w s (.unstage c resume) := by
  obtain ⟨howner, _⟩ := inv.parts.thread k a _ ht
  have ok := (inv.parts.cache k).returns_ok c
  have hempty : (((s.view a k).code w.mem).cache.remoteReturns c).isEmpty =
    ((s.caches k).remoteReturns c).isEmpty := rfl
  by_cases hne : ((s.caches k).remoteReturns c).isEmpty = true
  · obtain ⟨hmem, hcache, halloc, hbatch⟩ := (s.view a k).resume_frame a resume
    refine ⟨(s.view a k).resume a resume, w.mem, ?_, ?_, h.step_quiet (hmem ▸ h.agree)
      (fun _ _ _ _ _ _ => rfl) hcache (congrArg _ halloc) hbatch, World.KeepsLive.refl s w.mem⟩
    · simp only [View.next, World.view, hne, if_true]
    · simp only [Pc.map, View.next, hempty, hne, if_true, View.code_resume]
  · have hnil : ((s.caches k).remoteReturns c).pending ≠ [] := fun hnil =>
      hne ((RemoteReturns.isEmpty_iff ok).mpr hnil)
    have heq := RemoteReturns.takeAllUnchecked_spec ok hnil s.mem
    have hlinked : Linked w.mem ((s.caches k).remoteReturns c).pending :=
      h.linked (.staged k c) _ (List.mem_singleton_self _)
    have hhas : ∀ b ∈ ((s.caches k).remoteReturns c).pending, s.Has setup (.staged k c) b :=
      fun b hb => inv.list_has (g := .staged k c) (List.mem_singleton_self _) hb
    obtain ⟨-, m₁, hrun, hbatch, _, _, hf⟩ := RemoteReturns.takeAllUnchecked_map hlinked
      (fun b hb => inv.has_linkable (hhas b hb)) (inv.staged_nodup howner c) heq
    have hrun' : ((s.view a k).code w.mem).cache.takeRemoteReturns ((s.view a k).code w.mem).mem c =
        some (m₁, Batch.ofSeq ((s.caches k).remoteReturns c).pending,
          ((s.caches k).setRemoteReturns c ⟨[], 0⟩).map FreeList.ofSeq) := by
      rw [← ThreadCache.map_setRemoteReturns]
      exact congrArg (Option.map _) hrun
    refine ⟨((s.view a k).setCache ((s.caches k).setRemoteReturns c ⟨[], 0⟩)).goto a
      (.publishing c ((s.caches k).remoteReturns c).pending resume), m₁, ?_, ?_,
      h.step_staged inv hf (fun b hb => Or.inl hb) rfl rfl trivial hbatch⟩
    · simp [View.next, World.view, hne, ThreadCache.takeRemoteReturns, heq, View.setMem,
        View.setCache, View.goto]
    · simp only [Pc.map, View.next, hempty, hne, hrun', Option.map_some]
      rfl

theorem Refines.publishing (inv : Inv setup s) (h : Refines w s) {batch : Seq} {resume : Resume}
    (ht : s.threads k = .busy a (.publishing c batch resume)) :
    MatchedKeeping debug advised a k w s (.publishing c batch resume) := by
  obtain ⟨howner, _⟩ := inv.parts.thread k a _ ht
  obtain ⟨central, heq, _, honly, hlists, _⟩ := CentralPool.publishRemoteBatch_spec
    (m := s.mem) ((inv.parts.allocator a).central c) batch
  have hlinked : Linked w.mem batch := h.linked (.hand k) batch (by simp [World.group, ht]; rfl)
  have hhas : ∀ b ∈ batch, s.Has setup (.hand k) b := fun b hb => has_hand ht rfl hb
  obtain ⟨-, m₁, hrun, hwoven, hf⟩ := CentralPool.publishRemoteBatch_map
    (inv.woven_central h.linked howner c) hlinked (fun b hb => inv.has_linkable (hhas b hb))
    (inv.hand_nodup howner ht rfl) (inv.hand_apart ht rfl) heq
  have hrun' : ((s.view a k).code w.mem).allocator.central.publishRemoteBatch
      ((s.view a k).code w.mem).mem c (Batch.ofSeq batch) =
        some (m₁, central.map FreeList.ofSeq) := hrun
  obtain ⟨v, hv⟩ : ∃ v, v = ((s.view a k).setCentral central).resume a resume := ⟨_, rfl⟩
  obtain ⟨hmem, hcache, halloc, hbatch⟩ := ((s.view a k).setCentral central).resume_frame a resume
  rw [← hv] at hmem hcache halloc hbatch
  have hcentral : v.allocator.central = central := congrArg _ halloc
  have hf : Follows (fun x => x ∈ batch) w.mem s.mem m₁ v.mem := hmem ▸ hf
  refine ⟨v, m₁, ?_, ?_, h.step_central inv (c := c) hf (fun b hb => Or.inr (hhas b hb)) hcache ?_
    (fun shape hs => ?_) ?_ (hbatch ▸ trivial)⟩
  · simp [View.next, World.view, heq, View.setMem, View.setCentral, hv]
  · simp only [Pc.map, View.next, hrun', Option.map_some, hv, View.code_resume]
    rfl
  · rwa [hcentral]
  · rwa [hcentral, hlists]
  · rwa [hcentral]

theorem Refines.excess (inv : Inv setup s) (h : Refines w s) {max : Nat} {resume : Resume}
    (ht : s.threads k = .busy a (.excess c max resume)) :
    MatchedKeeping debug advised a k w s (.excess c max resume) := by
  obtain ⟨howner, hmax, hlen⟩ := inv.parts.thread k a _ ht
  have hclass := (inv.parts.cache k).class_inv c
  obtain ⟨m', batch, class_, heq, _⟩ := LocalClassCache.popBatch_spec hclass hlen hmax c s.mem
  obtain ⟨m₁, hrun, hwoven, hbatch, hf⟩ := LocalClassCache.popBatch_map
    (Nat.pos_iff_ne_zero.mp hmax) hclass.sharedLen_eq (inv.woven_cache h.linked howner c)
    (inv.ledger.bag_nodup howner c) (fun b hb => inv.has_linkable (has_cache howner hb)) heq
  have hrun' : ((s.view a k).code w.mem).cache.popBatch ((s.view a k).code w.mem).mem c max =
      some (m₁, Batch.ofSeq batch, ((s.caches k).setClass c class_).map FreeList.ofSeq) := by
    rw [← ThreadCache.map_setClass]
    exact congrArg (Option.map _) hrun
  refine ⟨(((s.view a k).setMem m').setCache ((s.caches k).setClass c class_)).goto a
    (.returning c batch resume), m₁, ?_, ?_, h.step_cache inv howner hf (fun b hb => Or.inl hb) rfl
      rfl hwoven hbatch⟩
  · simp only [View.next, World.view, ThreadCache.popBatch, heq, Option.map_some]
  · simp only [Pc.map, View.next, hrun', Option.map_some]
    rfl

theorem Refines.returning (inv : Inv setup s) (h : Refines w s) {batch : Seq} {resume : Resume}
    (ht : s.threads k = .busy a (.returning c batch resume)) :
    MatchedKeeping debug advised a k w s (.returning c batch resume) := by
  obtain ⟨howner, _⟩ := inv.parts.thread k a _ ht
  have ok := (inv.parts.allocator a).central c
  obtain ⟨m', central, heq, hspec⟩ := CentralPool.returnBatch_spec ok (inv.ledger.inboxOk howner)
    inv.parts.pageSize_pos (fun b hb => inv.ledger.slab_of_mem (mem_own_hand ht rfl hb))
    (inv.returning_nodup howner ht) advised
  have hlinked : Linked w.mem batch := h.linked (.hand k) batch (by simp [World.group, ht]; rfl)
  have hhas : ∀ b ∈ batch, s.Has setup (.hand k) b := fun b hb => has_hand ht rfl hb
  obtain ⟨m₁, hrun, hwoven, hf⟩ := CentralPool.returnBatch_map ok.inbox
    (inv.woven_central h.linked howner c) h.agree_all hlinked
    (fun b hb => inv.has_linkable (hhas b hb)) (inv.hand_nodup howner ht rfl)
    (inv.hand_apart ht rfl) heq
  have hrun' : ((s.view a k).code w.mem).allocator.central.returnBatch
      ((s.view a k).code w.mem).mem advised c (Batch.ofSeq batch) =
        some (m₁, central.map FreeList.ofSeq) := hrun
  obtain ⟨v, hv⟩ : ∃ v, v = (((s.view a k).setMem m').setCentral central).resume a resume :=
    ⟨_, rfl⟩
  obtain ⟨hmem, hcache, halloc, hbatch⟩ :=
    (((s.view a k).setMem m').setCentral central).resume_frame a resume
  rw [← hv] at hmem hcache halloc hbatch
  have hcentral : v.allocator.central = central := congrArg _ halloc
  have hmem : v.mem = m' := hmem
  rw [← hmem] at hf
  refine ⟨v, m₁, ?_, ?_, h.step_central inv hf (fun b hb => hb.symm.imp_right (hhas b)) hcache ?_
    (fun shape hs => ?_) ?_ (hbatch ▸ trivial)⟩
  · simp only [View.next, World.view, heq, Option.map_some, hv]
  · simp only [Pc.map, View.next, hrun', Option.map_some, hv, View.code_resume]
    rfl
  · rw [hcentral]
    exact hspec.only
  · rwa [hcentral, hspec.shapes]
  · rwa [hcentral]

end Steps

end Orthotope
