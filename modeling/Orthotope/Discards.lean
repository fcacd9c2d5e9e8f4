import Orthotope.DrainAll
import Orthotope.KindTag
import Orthotope.Oblivious

/-! Reclaim of cold pages is invisible.  A page that the kernel may replace by zeros holds no header
that is relied on, and no byte that a client has written.  So a run with discards has the same
results and leaves the same structures as the run without them.  A slab that has become cold leaves
the pool as a whole, and each of its blocks gets its header before it is handed out or returned. -/

namespace Orthotope

open ByteMemory Ownership

variable {ι κ : Type}

/-! ### What a discarded page does not hold -/

/-- A page that has no byte of a header of a block that is live or in a list other than fresh, and
no byte that a client has written. -/
structure World.Spares (w : World ι κ Seq Seq) (page : Nat) : Prop where
  headed : ∀ b, w.Headed b → ∀ x, inHeader b x → x / w.mem.pageSize ≠ page
  live : ∀ e ∈ w.live, ∀ x, inHeader (blockStartFromUserPtr e.ptr) x → x / w.mem.pageSize ≠ page
  written : ∀ e ∈ w.live, ∀ off v, e.written off = some v →
    (e.ptr + off) / w.mem.pageSize ≠ page

section Spares

variable {setup : Setup ι κ} {w : World ι κ FreeList Batch} {s : World ι κ Seq Seq}

theorem Mem.page_ne {m : Mem} {page x : Nat} (hpage : m.lazyPage page = true)
    (hx : m.lazyAt x = false) : x / m.pageSize ≠ page := by
  rintro rfl
  exact Bool.false_ne_true (hx.symm.trans hpage)

theorem Inv.spares (inv : Inv setup s) {page : Nat} (hpage : s.mem.lazyPage page = true) :
    s.Spares page where
  headed := by
    intro b hb x hx
    obtain ⟨_, _, _, _, hformatted⟩ := inv.headed hb
    exact Mem.page_ne hpage (hformatted.resident x hx)
  live := by
    intro e he x hx
    have ok := inv.memory.entry none e he
    cases hc : SizeClass.fromRequest e.size with
    | some c => exact Mem.page_ne hpage ((ok.small c hc).formatted.resident x hx)
    | none =>
      obtain ⟨record, hrecord, -⟩ := inv.tokens.record none e he hc
      exact Mem.page_ne hpage ((ok.large hc record hrecord).resident x hx)
  written := by
    intro e he off v hv
    exact Mem.page_ne hpage ((inv.memory.entry none e he).written off v hv).2.2

theorem Refines.spares (h : Refines w s) (inv : Inv setup s) {page : Nat}
    (hpage : w.mem.lazyPage page = true) : w.contents.Spares page := by
  obtain ⟨hheaded, hlive, hwritten⟩ := inv.spares (h.agree.lazyPage page hpage)
  rw [← h.agree.pageSize] at hheaded hlive hwritten
  rw [h.contents_eq]
  exact ⟨fun b hb => hheaded b hb.of_mem, hlive, hwritten⟩

end Spares

/-! ### The run without the discards -/

def Action.isDiscard : Action ι κ → Bool
  | .discard _ => true
  | _ => false

/-- The states are the same but for memory, and what the clients have written is there in both. -/
structure World.SameBut (w w' : World ι κ FreeList Batch) : Prop where
  allocators : w'.allocators = w.allocators
  caches : w'.caches = w.caches
  threads : w'.threads = w.threads
  live : w'.live = w.live
  contents : w'.contents = { w.contents with mem := w'.mem }
  written : ∀ e ∈ w.live, ∀ off v, e.written off = some v →
    w.mem.byte (e.ptr + off) = v ∧ w'.mem.byte (e.ptr + off) = v

section Undiscarded

variable [DecidableEq ι] [DecidableEq κ] {setup : Setup ι κ} {w w' w₁ : World ι κ FreeList Batch}
  {s s' s₁ : World ι κ Seq Seq} {actions : List (Action ι κ)}

/-- What a client has written is in the memory of the code. -/
theorem Refines.written (h : Refines w s) (inv : Inv setup s) {e : Live ι κ} (he : e ∈ s.live)
    {off : Nat} {v : UInt8} (hv : e.written off = some v) : w.mem.byte (e.ptr + off) = v := by
  obtain ⟨hoff, hbyte, -⟩ := (inv.memory.entry none e he).written off v hv
  rw [← hbyte]
  refine h.agree.byte _ fun b hb hlink => ?_
  obtain ⟨a, c, slab, hslab, hmem⟩ := hb
  obtain ⟨p, hp⟩ := (inv.ledger.covered (setup.smallCell a c b) rfl).mpr
    ⟨c, slab.shape, List.mem_map_of_mem hslab, b, hmem, rfl⟩
  apply inv.store_header hp he hoff
  unfold inLink at hlink
  unfold inHeader headerSize
  omega

theorem Refines.sameBut (h : Refines w s) (inv : Inv setup s) (h' : Refines w' s')
    (inv' : Inv setup s') (halike : s.Alike s') : w.SameBut w' := by
  have hcode : s'.code w'.mem = { s.code w.mem with mem := w'.mem } := by
    unfold World.code
    rw [halike.allocators, halike.caches, halike.live, halike.threads]
  have heq : w' = { w with mem := w'.mem } := by
    conv_lhs => rw [h'.code, hcode]
    rw [h.code]
    rfl
  constructor
  · rw [heq]
  · rw [heq]
  · rw [heq]
  · rw [heq]
  · rw [h.contents_eq, h'.contents_eq]
    obtain ⟨h1, h2, h3, h4, -⟩ := halike
    cases s
    cases s'
    cases h1
    cases h2
    cases h3
    cases h4
    rfl
  · intro e he off v hv
    have he : e ∈ s.live := h.live_eq ▸ he
    exact ⟨h.written inv he hv, h'.written inv' (halike.live ▸ he) hv⟩

/-- An action other than a discard is possible in the code when it is over sequences. -/
theorem Refines.backward (h : Refines w s) (inv : Inv setup s) {action : Action ι κ}
    (hdiscard : action.isDiscard = false) (hstep : s.step setup.debug action = some s₁) :
    ∃ w₁, w.step setup.debug action = some w₁ ∧ Refines w₁ s₁ := by
  have hcall : ∀ {k : κ}, action.caller = some k →
      ∃ w₁, w.step setup.debug action = some w₁ ∧ Refines w₁ s₁ :=
    fun hk => h.start_call inv hk hstep
  cases action with
  | allocate k a size => exact hcall rfl
  | deallocate k a i expectedSize => exact hcall rfl
  | drain k a => exact hcall rfl
  | run k advised =>
    obtain ⟨a, pc, v, ht, -⟩ := inv.run_cases hstep
    have ht' : w.threads k = .busy a (pc.map Batch.ofSeq) := by
      rw [h.threads_eq, ht]
      rfl
    obtain ⟨w₁, s₂, hw₁, hs₂, hrefines⟩ := h.run setup.debug inv ht' advised
    obtain rfl := Option.some.inj (hstep.symm.trans hs₂)
    exact ⟨w₁, hw₁, hrefines⟩
  | store i offset value =>
    obtain ⟨e, he, hwrite⟩ := Option.bind_eq_some_iff.mp hstep
    split at hwrite
    · rename_i hoffset
      obtain rfl := Option.some.inj hwrite
      refine ⟨_, ?_, h.store inv he hoffset _⟩
      simp only [World.step, h.live_eq, he, Option.bind_some, hoffset, if_true]
    · cases hwrite
  | discard page => cases hdiscard

/-- Leaving out the discards leaves the rest of a run as it was. -/
theorem Refines.undiscarded (h : Refines w s) (inv : Inv setup s) (h' : Refines w' s')
    (inv' : Inv setup s') (halike : s.Alike s') (hruns : w.runs setup.debug actions = some w₁) :
    ∃ w₁', w'.runs setup.debug (actions.filter fun action => !action.isDiscard) = some w₁' ∧
      w₁.SameBut w₁' := by
  induction actions generalizing w w' s s' with
  | nil =>
    obtain rfl := Option.some.inj hruns
    exact ⟨w', rfl, h.sameBut inv h' inv' halike⟩
  | cons action actions ih =>
    obtain ⟨w₂, hstep, hrest⟩ := Option.bind_eq_some_iff.mp hruns
    obtain ⟨s₂, hs₂, h₂⟩ := h.forward inv hstep
    have inv₂ := inv.step hs₂
    by_cases hdiscard : action.isDiscard = true
    · have hfilter : (action :: actions).filter (fun action => !action.isDiscard) =
          actions.filter fun action => !action.isDiscard :=
        List.filter_cons_of_neg (by simp [hdiscard])
      rw [hfilter]
      refine ih h₂ inv₂ h' inv' ?_ hrest
      cases action with
      | discard page =>
        simp only [World.step] at hs₂
        split at hs₂
        · obtain rfl := Option.some.inj hs₂
          exact ⟨halike.allocators, halike.caches, halike.live, halike.threads, halike.pageSize⟩
        · cases hs₂
      | _ => cases hdiscard
    · have hfilter : (action :: actions).filter (fun action => !action.isDiscard) =
          action :: actions.filter fun action => !action.isDiscard :=
        List.filter_cons_of_pos (by simp [hdiscard])
      have hne : ∀ page, action ≠ .discard page := by
        rintro page rfl
        exact hdiscard rfl
      obtain ⟨s₂', hs₂', halike₂⟩ :
          ∃ s₂', s'.step setup.debug action = some s₂' ∧ s₂.Alike s₂' := by
        have hrel := inv.step_alike inv' halike hne
        rw [hs₂] at hrel
        cases hs' : s'.step setup.debug action with
        | none =>
          rw [hs'] at hrel
          cases hrel
        | some s₂' =>
          rw [hs'] at hrel
          cases hrel with
          | some halike₂ => exact ⟨s₂', rfl, halike₂⟩
      obtain ⟨w₂', hw₂', h₂'⟩ := h'.backward inv' (Bool.not_eq_true _ ▸ hdiscard) hs₂'
      obtain ⟨w₁', hruns', hsame⟩ := ih h₂ inv₂ h₂' (inv'.step hs₂') halike₂ hrest
      refine ⟨w₁', ?_, hsame⟩
      rw [hfilter, World.runs, hw₂']
      exact hruns'

end Undiscarded

/-! ### The reissue of a cold slab -/

/-- The block is on loan with its whole slab and has no header yet: the slab is in the hands of a
call, or is fresh in a cache, or the block has just been popped. -/
inductive World.Unwritten (w : World ι κ Seq Seq) (b : Nat) : Prop
  | loaned {k : κ} {a : ι} {c : SizeClass} {size start blockSize capacity : Nat}
      (ht : w.threads k = .busy a (.gotSlab c size start blockSize capacity))
      (hb : b ∈ slabBlocks start blockSize capacity)
  | fresh {k : κ} {c : SizeClass} (hb : b ∈ ((w.caches k).classes c).freshBag)
  | popped {k : κ} {a : ι} {c : SizeClass} {size : Nat}
      (ht : w.threads k = .busy a (.popped c size b .needsHeaderRewrite))

/-- The block at `b` has got its header, from the allocation that returns it or from a drain that
hands it to the pool. -/
inductive World.HeaderSet (w : World ι κ Seq Seq) (b : Nat) : Prop
  | given {k : κ} {a : ι} {c : SizeClass} {size : Nat}
      (he : ⟨a, k, userPtrFromBlockStart b, size, fun _ => none⟩ ∈ w.live)
      (hheader : readPrefix w.mem b =
        ⟨headerMagic, smallTag, c.index, 0, size, c.payloadSize, (w.caches k).cacheId⟩)
  | drained {k : κ} {a : ι} {c : SizeClass} {batch : Seq} {resume : Resume}
      (ht : w.threads k = .busy a (.returning c batch resume)) (hb : b ∈ batch)
      (hheader : readPrefix w.mem b = drainedPrefix c)

section Reissue

variable {setup : Setup ι κ} {s s' : World ι κ Seq Seq} {a : ι} {k : κ} {v : View ι κ Seq Seq}
  {b : Nat}

/-- A cold slab leaves its state by being loaned as a whole. -/
theorem Transition.cold {debug : Bool} {pc : Pc ι κ Seq} (htrans : Transition debug s a k pc v)
    {c : SizeClass} {id : Nat}
    (hcold : ((s.allocators a).central.lists c).slabState id = .fullCold) :
    (v.allocator.central.lists c).slabState id = .fullCold ∨
      ∃ size start blockSize capacity, pc = .refill c size ∧
        v.thread = .busy a (.gotSlab c size start blockSize capacity) ∧
          ((s.allocators a).central.lists c).slabStart id = start ∧
            (start, start + blockSize * capacity, blockSize, capacity) ∈
              ((s.allocators a).central.lists c).shapes := by
  have hkeeps : ∀ {d : SizeClass} {central : CentralPool Seq},
      CentralPool.OnlyClass d (s.allocators a).central central →
        ClassPool.KeepsCold ((s.allocators a).central.lists d) (central.lists d) →
          (central.lists c).slabState id = .fullCold := by
    intro d central only hkeeps
    by_cases hc : c = d
    · subst hc
      exact hkeeps id hcold
    · rwa [only.lists c hc]
  cases htrans with
  | @refill d size m central r h =>
    by_cases hc : c = d
    · subst hc
      apply (h.cold id hcold).imp_right
      rintro ⟨start, blockSize, capacity, rfl, hstart⟩
      obtain ⟨-, -, hshape⟩ := h.ofSlab start blockSize capacity rfl
      exact ⟨size, start, blockSize, capacity, rfl, rfl, hstart, hshape⟩
    · apply Or.inl
      show (central.lists c).slabState id = .fullCold
      rwa [h.only.lists c hc]
  | register hn hsize h => exact Or.inl (hkeeps h.only h.cold)
  | @unstageNone d resume =>
    rw [(View.resume_frame _ a resume).2.2.1]
    exact Or.inl hcold
  | @publish d batch resume central hinv only lists inbox =>
    rw [(View.resume_frame _ a resume).2.2.1]
    apply Or.inl
    show (central.lists c).slabState id = .fullCold
    rwa [lists]
  | @returnBatch d batch resume m central h =>
    rw [(View.resume_frame _ a resume).2.2.1]
    exact Or.inl (hkeeps h.only h.cold)
  | _ => exact Or.inl hcold

/-- What becomes of a fresh block of the cache that makes a step. -/
theorem Transition.fresh_cases (inv : Inv setup s) {pc : Pc ι κ Seq}
    (ht : s.threads k = .busy a pc) (htrans : Transition setup.debug s a k pc v) {c : SizeClass}
    (hb : b ∈ ((s.caches k).classes c).freshBag) :
    b ∈ (v.cache.classes c).freshBag ∨
      (∃ size, v.thread = .busy a (.popped c size b .needsHeaderRewrite)) ∨
      ∃ batch resume, v.thread = .busy a (.returning c batch resume) ∧ b ∈ batch ∧
        readPrefix v.mem b = drainedPrefix c := by
  obtain ⟨howner, -⟩ := inv.parts.thread k a _ ht
  have hset : ∀ {d : SizeClass} {class_ : LocalClassCache Seq},
      (d = c → b ∈ class_.freshBag) → b ∈
          (((s.caches k).setClass d class_).classes c).freshBag := by
    intro d class_ hclass
    by_cases hd : c = d
    · subst hd
      rw [ThreadCache.setClass_same]
      exact hclass rfl
    · rwa [ThreadCache.setClass_ne _ hd]
  cases htrans with
  | takeBatch hinv shapes owned fresh =>
    refine Or.inl (hset ?_)
    rintro rfl
    rwa [fresh]
  | takeSlab hpc hinv shapes owned fresh =>
    refine Or.inl (hset ?_)
    rintro rfl
    rw [fresh]
    exact Multiset.mem_add.mpr (Or.inl hb)
  | push hinv shapes fresh =>
    refine Or.inl (hset ?_)
    rintro rfl
    rwa [fresh]
  | @pop d size block reuse class_ hinv shapes takes =>
    by_cases hd : d = c
    · subst hd
      cases reuse with
      | hotReuseRequestedOnly => exact Or.inl (hset fun _ => takes.2.1 ▸ hb)
      | needsOwnerAndRequestedSizeRefresh => exact Or.inl (hset fun _ => takes.2.1 ▸ hb)
      | needsHeaderRewrite =>
        rw [takes.2.1] at hb
        rcases Multiset.mem_cons.mp hb with rfl | hb
        · exact Or.inr (Or.inl ⟨size, rfl⟩)
        · exact Or.inl (hset fun _ => hb)
    · exact Or.inl (hset fun heq => absurd heq hd)
  | @excess d max resume m batch class_ hinv shapes hbatch drains =>
    obtain ⟨owned, fresh, shared, hsum, -, hfresh, -, rfl⟩ := drains
    by_cases hd : d = c
    · subst hd
      have hapart := inv.fresh_apart howner (hfresh ▸ Multiset.le_add_right
        (fresh : Multiset Nat) _)
      rw [hfresh] at hb
      rcases Multiset.mem_add.mp hb with hb | hb
      · refine Or.inr (Or.inr ⟨batch, resume, rfl, ?_, ?_⟩)
        · rw [← Multiset.mem_coe, hsum]
          exact Multiset.mem_add.mpr (Or.inl (Multiset.mem_add.mpr (Or.inr hb)))
        · exact readPrefix_initializeAll hapart b (Multiset.mem_coe.mp hb)
      · exact Or.inl (hset fun _ => hb)
    · exact Or.inl (hset fun heq => absurd heq hd)
  | unstageNone =>
    rw [(View.resume_frame _ a _).2.1]
    exact Or.inl hb
  | publish =>
    rw [(View.resume_frame _ a _).2.1]
    exact Or.inl hb
  | returnBatch =>
    rw [(View.resume_frame _ a _).2.1]
    exact Or.inl hb
  | _ => exact Or.inl hb

variable [DecidableEq ι]

/-- Binding a cache drops no fresh block of it. -/
theorem Parts.bind_fresh (parts : Parts setup s) {config : AllocatorConfig}
    {cache : ThreadCache ι Seq} (hbind : (s.caches k).bindToAllocator a config = some cache)
    {c : SizeClass} (hb : b ∈ ((s.caches k).classes c).freshBag) :
    b ∈ (cache.classes c).freshBag := by
  rcases ThreadCache.bindToAllocator_cases hbind with rfl | hnew
  · exact hb
  · have hbag : (cache.classes c).bag = 0 := (hnew c).1 ▸ LocalClassCache.new_bag
    rw [(parts.bind_same hbind c).1] at hbag
    have hmem := Multiset.mem_of_le (LocalClassCache.freshBag_le_bag _) hb
    exact absurd (hbag ▸ hmem) (Multiset.notMem_zero b)

variable [DecidableEq κ]

/-- A block on loan stays on loan, unwritten, until its header is written. -/
theorem Transition.unwritten_cases (inv : Inv setup s) {pc : Pc ι κ Seq}
    (ht : s.threads k = .busy a pc) (htrans : Transition setup.debug s a k pc v)
    (hb : s.Unwritten b) : (s.update a k v).Unwritten b ∨ (s.update a k v).HeaderSet b := by
  obtain ⟨-, hok⟩ := inv.parts.thread k a _ ht
  cases hb with
  | @loaned j a' c size start blockSize capacity ht' hb =>
    by_cases hj : j = k
    · subst hj
      obtain ⟨rfl, rfl⟩ := Thread.busy.inj (ht.symm.trans ht')
      cases htrans with
      | takeSlab hpc hinv shapes owned fresh =>
        refine Or.inl (.fresh (k := j) (c := c) ?_)
        rcases hpc with hpc | hpc <;> cases hpc
        rw [World.update_caches_same]
        show b ∈ (((s.caches j).setClass c _).classes c).freshBag
        rw [ThreadCache.setClass_same, fresh]
        exact Multiset.mem_add.mpr (Or.inr (Multiset.mem_coe.mpr hb))
    · have hthread : (s.update a k v).threads j =
          .busy a' (.gotSlab c size start blockSize capacity) := by
        rw [World.update_threads_ne _ _ hj]
        exact ht'
      exact Or.inl (.loaned hthread hb)
  | @fresh j c hb =>
    by_cases hj : j = k
    · subst hj
      rcases htrans.fresh_cases inv ht hb with hfresh | ⟨size, hthread⟩ |
        ⟨batch, resume, hthread, hbatch, hprefix⟩
      · refine Or.inl (.fresh (k := j) (c := c) ?_)
        rwa [World.update_caches_same]
      · have hpopped : (s.update a j v).threads j =
          .busy a (.popped c size b .needsHeaderRewrite) := by
          rw [World.update_threads_same, hthread]
        exact Or.inl (.popped hpopped)
      · have hreturning : (s.update a j v).threads j = .busy a (.returning c batch resume) := by
          rw [World.update_threads_same, hthread]
        exact Or.inr (.drained hreturning hbatch hprefix)
    · refine Or.inl (.fresh (k := j) (c := c) ?_)
      rwa [World.update_caches_ne _ _ hj]
  | @popped j a' c size ht' =>
    by_cases hj : j = k
    · subst hj
      obtain ⟨rfl, rfl⟩ := Thread.busy.inj (ht.symm.trans ht')
      cases htrans with
      | give =>
        have hsize : size < 2 ^ 32 := by
          have := (SizeClass.fromRequest_spec hok).2
          have := c.payloadSize_lt
          omega
        have hid : (s.caches j).cacheId < 2 ^ 32 := by
          rw [(inv.parts.cache j).cacheId_eq]
          exact setup.cacheId_lt j
        have hmem : (⟨a, j, userPtrFromBlockStart b, size, fun _ => none⟩ : Live ι κ) ∈
            s.live ++ [⟨a, j, userPtrFromBlockStart b, size, fun _ => none⟩] :=
          List.mem_append.mpr (Or.inr (List.mem_singleton_self _))
        refine Or.inr (.given (c := c) hmem ?_)
        rw [World.update_caches_same]
        exact congrArg AllocationHeader.toAllocationHeaderPrefix (readHeader_writeSmall hsize hid)
      | takeSlab hpc => rcases hpc with hpc | hpc <;> cases hpc
    · have hthread : (s.update a k v).threads j =
          .busy a' (.popped c size b .needsHeaderRewrite) := by
        rw [World.update_threads_ne _ _ hj]
        exact ht'
      exact Or.inl (.popped hthread)

/-- What an action does to a cold slab: it leaves it cold, or takes it as a whole. -/
theorem Inv.step_cold (inv : Inv setup s) {action : Action ι κ}
    (h : s.step setup.debug action = some s') {c : SizeClass} {id : Nat}
    (hcold : ((s.allocators a).central.lists c).slabState id = .fullCold) :
    ((s'.allocators a).central.lists c).slabState id = .fullCold ∨
      ∃ k size start blockSize capacity, s.threads k = .busy a (.refill c size) ∧
        s'.threads k = .busy a (.gotSlab c size start blockSize capacity) ∧
          ((s.allocators a).central.lists c).slabStart id = start ∧
            (start, start + blockSize * capacity, blockSize, capacity) ∈
              ((s.allocators a).central.lists c).shapes := by
  rcases inv.step_cases h with ⟨k, a', pc, advised, v, -, ht, rfl, -, htrans⟩ |
    ⟨k, a', last, v, -, ht, rfl, hallocator, -⟩ | ⟨hallocators, -, -⟩
  · by_cases ha : a = a'
    · subst ha
      rw [World.update_allocators_same]
      apply (htrans.cold hcold).imp_right
      rintro ⟨size, start, blockSize, capacity, rfl, hthread, hstart, hshape⟩
      exact ⟨k, size, start, blockSize, capacity, ht,
        (World.update_threads_same ..).trans hthread, hstart, hshape⟩
    · rw [World.update_allocators_ne _ _ ha]
      exact Or.inl hcold
  · by_cases ha : a = a'
    · subst ha
      rw [World.update_allocators_same, hallocator]
      exact Or.inl hcold
    · rw [World.update_allocators_ne _ _ ha]
      exact Or.inl hcold
  · rw [hallocators]
    exact Or.inl hcold

/-- What an action does to a block on loan that has no header yet. -/
theorem Inv.step_unwritten (inv : Inv setup s) {action : Action ι κ}
    (h : s.step setup.debug action = some s') (hb : s.Unwritten b) :
    s'.Unwritten b ∨ s'.HeaderSet b := by
  rcases inv.step_cases h with ⟨k, a', pc, advised, v, -, ht, rfl, -, htrans⟩ |
    ⟨k, a', last, v, -, ht, rfl, -, hbegun⟩ | ⟨-, hcaches, hthreads⟩
  · exact htrans.unwritten_cases inv ht hb
  · -- the thread of the call was idle, and binding its cache drops no block
    apply Or.inl
    have hbusy : ∀ {j a pc}, s.threads j = .busy a pc →
        (s.update a' k v).threads j = .busy a pc := by
      intro j a pc hj
      rw [World.update_threads_ne]
      · exact hj
      · rintro rfl
        cases ht.symm.trans hj
    cases hb with
    | loaned ht' hb => exact .loaned (hbusy ht') hb
    | popped ht' => exact .popped (hbusy ht')
    | @fresh j c hb =>
      by_cases hj : j = k
      · subst hj
        refine .fresh (k := j) (c := c) ?_
        rw [World.update_caches_same]
        rcases hbegun with ⟨-, hcache, -⟩ | ⟨hbind, -⟩
        · rwa [hcache]
        · exact inv.parts.bind_fresh hbind hb
      · refine .fresh (k := j) (c := c) ?_
        rwa [World.update_caches_ne _ _ hj]
  · apply Or.inl
    cases hb with
    | loaned ht hb => exact .loaned (hthreads ▸ ht) hb
    | fresh hb => exact .fresh (hcaches ▸ hb)
    | popped ht => exact .popped (hthreads ▸ ht)

end Reissue

/-! ### Headers that are not read -/

/-- The memory with zeros for the header of the block at `b`. -/
def zeroHeader (m : Mem) (b : Nat) : Mem :=
  { m with byte := fun x => if b ≤ x ∧ x < b + headerSize then 0 else m.byte x }

theorem zeroHeader_byte_other {m : Mem} {b x : Nat} (hx : ¬inHeader b x) :
    (zeroHeader m b).byte x = m.byte x := if_neg hx

theorem zeroHeader_byte_zero {m : Mem} {b x : Nat} (hx : m.byte x = 0) :
    (zeroHeader m b).byte x = 0 := by
  show (if b ≤ x ∧ x < b + headerSize then 0 else m.byte x) = 0
  rw [hx, ite_self]

theorem zeroHeader_sameOn {m : Mem} {b lo hi : Nat} (h : hi ≤ b ∨ b + headerSize ≤ lo) :
    SameOn lo hi m (zeroHeader m b) where
  byte := by
    intro x h1 h2
    refine zeroHeader_byte_other fun hx => ?_
    obtain ⟨h3, h4⟩ := hx
    omega
  lazyAt := fun _ _ _ hlazy => hlazy

/-- A raw header may be zero. -/
theorem headerOk_zeroHeader {debug : Bool} {m : Mem} {c : SizeClass} {b : Nat} :
    HeaderOk debug (zeroHeader m b) c b .raw := by
  intro _ _
  refine Or.inl (Mem.read_zero fun i hi => ?_)
  exact if_pos ⟨by omega, by unfold headerSize; omega⟩

section Unread

variable {setup : Setup ι κ} {w : World ι κ FreeList Batch} {s : World ι κ Seq Seq} {b : Nat}

/-- A block that is on loan and has no header yet is one whose header nobody relies on. -/
theorem Inv.unwritten_place (inv : Inv setup s) (hb : s.Unwritten b) :
    ∃ p a c, s.trust setup p = some .raw ∧ setup.smallCell a c b ∈ s.own setup p := by
  cases hb with
  | @loaned k a c size start blockSize capacity ht hb =>
    refine ⟨.hand k, a, c, ?_, mem_own_hand ht rfl hb⟩
    simp only [World.trust, ht]
    rfl
  | @fresh k c hb =>
    obtain ⟨a, ha⟩ := inv.parts.mem_cacheCells hb
      ((LocalClassCache.freshBag_le_bag _).trans (Multiset.le_add_right _ _))
    exact ⟨.fresh k c, a, c, rfl, ha⟩
  | @popped k a c size ht =>
    refine ⟨.hand k, a, c, ?_, mem_own_hand ht rfl (List.mem_singleton_self b)⟩
    simp only [World.trust, ht]
    rfl

variable [DecidableEq ι] [DecidableEq κ]

theorem Ledger.place_eq (ledger : Ledger setup s) {p q : Place ι κ} {x : Cell ι}
    (hq : x ∈ s.own setup q) (hp : x ∈ s.own setup p) : q = p := by
  by_contra hne
  exact (ledger.inArena p x hp).not_apart (ledger.apart.of_ne hne hq hp)

variable {p : Place ι κ} {a : ι} {c : SizeClass}

/-- Zeros in a header that nobody relies on keep the invariant. -/
theorem Inv.zeroHeader (inv : Inv setup s) (hraw : s.trust setup p = some .raw)
    (hp : setup.smallCell a c b ∈ s.own setup p) :
    Inv setup { s with mem := zeroHeader s.mem b } := by
  have hle := inv.ledger.header_le hp rfl
  have hplace : ∀ {q z}, z ∈ s.own setup q → z ≠ setup.smallCell a c b →
      SameOn z.lo z.hi s.mem (Orthotope.zeroHeader s.mem b) := by
    intro q z hz hne
    apply zeroHeader_sameOn
    rcases inv.ledger.apart.eq_or hz hp with heq | happart
    · exact absurd heq hne
    · simp only [Cell.Apart, Setup.smallCell] at happart hle
      omega
  have hentry : ∀ {g e}, e ∈ s.entries g → ∃ hi, e.ptr + e.size ≤ hi ∧
      SameOn (blockStartFromUserPtr e.ptr) hi s.mem (Orthotope.zeroHeader s.mem b) := by
    intro g e he
    obtain ⟨q, x, hx⟩ := inv.exists_cell he
    have hne : x ≠ setup.smallCell a c b := by
      rintro rfl
      obtain rfl : q = p := inv.ledger.place_eq hx.mem hp
      rcases hx.place with rfl | rfl <;> cases hraw
    exact ⟨x.hi, hx.le_hi, hx.lo_eq ▸ hplace hx.mem hne⟩
  refine inv.of_memory rfl rfl ⟨fun q t ht z hz d hd => ?_, fun g e hg => ?_, fun j b' pc ht => ?_,
    fun b' x h1 h2 => zeroHeader_byte_zero (inv.memory.untouched b' x h1 h2)⟩
  · have hok := inv.memory.free q t ht z hz d hd
    by_cases heq : z = setup.smallCell a c b
    · subst heq
      obtain rfl : q = p := inv.ledger.place_eq hz hp
      obtain rfl : t = .raw := Option.some.inj (ht.symm.trans hraw)
      exact headerOk_zeroHeader
    · have hsame := (hplace hz heq).mono (Nat.le_refl _) (inv.ledger.header_le hz hd)
      exact hok.congr (SameFields.of_sameOn hsame rfl) fun _ => staysResident_of_sameOn hsame
  · obtain ⟨hi, hhi, hsame⟩ := hentry hg
    exact (inv.memory.entry g e hg).congr rfl (fun _ _ h => h) hhi hsame
  · refine (inv.memory.pc j b' pc ht).congr rfl (fun block hblock => ?_)
      (fun size start blockSize hpc => ?_) fun e he => ?_
    · have hne : largeCell b' block ≠ setup.smallCell a c b := fun heq => by
        cases congrArg Cell.cls heq
      exact hplace (mem_own_extent setup ht hblock) hne
    · subst hpc
      have hfits := (inv.parts.thread j b' _ ht).2.2.2.1
      omega
    · have ht : s.threads j = .busy b' pc := ht
      have hj : e ∈ s.entries (some j) := by
        simp [World.entries, ht, Thread.entries, he]
      obtain ⟨hi, hhi, hsame⟩ := hentry hj
      have ok := inv.memory.entry _ e hj
      have h1 := ok.header_le
      have h2 := ok.size_pos
      refine (SameFields.of_sameOn (hsame.mono (Nat.le_refl _) ?_) rfl).readPrefix_eq
      unfold blockStartFromUserPtr
      omega

/-- Zeros in a header that nobody relies on reach no link word of a list. -/
theorem Refines.zeroHeader (h : Refines w s) (inv : Inv setup s)
    (hraw : s.trust setup p = some .raw) (hp : setup.smallCell a c b ∈ s.own setup p) :
    Refines { w with mem := zeroHeader w.mem b } { s with mem := zeroHeader s.mem b } where
  code := by
    have := h.code
    simp only [World.code] at this ⊢
    rw [this]
  agree := by
    refine ⟨fun x hx => ?_, h.agree.lazyPage, h.agree.pageSize⟩
    by_cases hin : inHeader b x
    · exact (if_pos hin).trans (if_pos hin).symm
    · rw [zeroHeader_byte_other hin, zeroHeader_byte_other hin]
      exact h.agree.byte x hx
  linked := by
    intro g l hl
    have hl : l ∈ s.group g := by cases g <;> exact hl
    refine (h.linked g l hl).congr fun b' hb' => readNext_congr fun x hx => ?_
    obtain ⟨q, a', c', t, -, hq, htrust, hne⟩ := inv.list_place hl hb'
    have hpq : q ≠ p := by
      rintro rfl
      exact hne (Option.some.inj (htrust.symm.trans hraw))
    have happart := inv.ledger.apart.of_ne hpq hq hp
    have hle := inv.ledger.header_le hp rfl
    have hle' := inv.ledger.header_le hq rfl
    refine zeroHeader_byte_other fun hin => ?_
    obtain ⟨h1, h2⟩ := hx
    obtain ⟨h3, h4⟩ := hin
    simp only [Cell.Apart, Setup.smallCell, headerSize] at happart hle hle' h4
    omega

end Unread

/-! ### The code -/

/-- What an action does to the slabs whose pages may be discarded.  A cold slab stays cold or is
taken as a whole, and a block of a slab so taken is without a header until it gets a full one. -/
structure World.Reissues (w w' : World ι κ FreeList Batch) : Prop where
  cold : ∀ a c id, ((w.allocators a).central.lists c).slabState id = .fullCold →
    ((w'.allocators a).central.lists c).slabState id = .fullCold ∨
      ∃ k size start blockSize capacity, w.threads k = .busy a (.refill c size) ∧
        w'.threads k = .busy a (.gotSlab c size start blockSize capacity) ∧
          ((w.allocators a).central.lists c).slabStart id = start ∧
            (start, start + blockSize * capacity, blockSize, capacity) ∈
              ((w.allocators a).central.lists c).slabs.map SlabRecord.shape
  unwritten : ∀ b, w.contents.Unwritten b → w'.contents.Unwritten b ∨ w'.contents.HeaderSet b

section Code

variable {setup : Setup ι κ} {w w' : World ι κ FreeList Batch} {s s' : World ι κ Seq Seq}

theorem World.Unwritten.of_mem {m : Mem} {b : Nat} (h : ({ s with mem := m }).Unwritten b) :
    s.Unwritten b := by
  cases h with
  | loaned ht hb => exact .loaned ht hb
  | fresh hb => exact .fresh hb
  | popped ht => exact .popped ht

variable [DecidableEq ι] [DecidableEq κ]

theorem Refines.reissues (h : Refines w s) (inv : Inv setup s) (h' : Refines w' s')
    {action : Action ι κ} (hstep : s.step setup.debug action = some s') : w.Reissues w' where
  cold := by
    intro a c id hcold
    have hpool : ∀ {w : World ι κ FreeList Batch} {s : World ι κ Seq Seq}, Refines w s →
        (w.allocators a).central.lists c =
          ((s.allocators a).central.lists c).map FreeList.ofSeq := by
      intro w s h
      rw [h.code]
      rfl
    rw [hpool h, ClassPool.slabState_map] at hcold
    rw [hpool h', ClassPool.slabState_map, h.shapes_eq, hpool h, ClassPool.slabStart_map]
    apply (inv.step_cold hstep hcold).imp_right
    rintro ⟨k, size, start, blockSize, capacity, ht, ht', hstart, hshape⟩
    refine ⟨k, size, start, blockSize, capacity, ?_, ?_, hstart, hshape⟩
    · rw [h.threads_eq, ht]
      rfl
    · rw [h'.threads_eq, ht']
      rfl
  unwritten := by
    intro b hb
    rw [h.contents_eq] at hb
    have hb : s.Unwritten b := hb.of_mem
    obtain ⟨p, a, c, -, hp⟩ := inv.unwritten_place hb
    have haligned : b % 64 = 0 := (inv.ledger.inArena p _ hp).aligned
    have hfields : readPrefix w'.mem b = readPrefix s'.mem b :=
      (h'.sameFields (inv.step hstep) haligned).readPrefix_eq
    rw [h'.contents_eq]
    rcases inv.step_unwritten hstep hb with hunwritten | hset
    · apply Or.inl
      cases hunwritten with
      | loaned ht hb => exact .loaned ht hb
      | fresh hb => exact .fresh hb
      | popped ht => exact .popped ht
    · apply Or.inr
      cases hset with
      | given he heq => exact .given he (hfields.trans heq)
      | drained ht hb heq => exact .drained ht hb (hfields.trans heq)

/-- Reclaim of cold pages is invisible.  In every state of every run, a page that may be discarded
holds no header and no link word that is relied on and no byte that a client has written; the run
without its discards leads to the same state but for memory; the same goes for what follows when the
header of a block on loan that has none yet is zero; and every step reissues cold slabs as wholes,
whose blocks get full headers. -/
theorem Setup.discards_invisible (setup : Setup ι κ) (actions : List (Action ι κ))
    (w : World ι κ FreeList Batch)
    (hruns : (setup.world FreeList Batch).runs setup.debug actions = some w) :
    (∀ page, w.mem.lazyPage page = true → w.contents.Spares page) ∧
      (∃ w', (setup.world FreeList Batch).runs setup.debug
          (actions.filter fun action => !action.isDiscard) = some w' ∧ w.SameBut w') ∧
      (∀ b, w.contents.Unwritten b → ∀ later w₁, w.runs setup.debug later = some w₁ →
        ∃ w₁', ({ w with mem := zeroHeader w.mem b }).runs setup.debug
          (later.filter fun action => !action.isDiscard) = some w₁' ∧ w₁.SameBut w₁') ∧
      ∀ action w', w.step setup.debug action = some w' → w.Reissues w' := by
  obtain ⟨s, hs, h⟩ := (Setup.Reachable.initial.runs hruns).refines
  have inv := hs.inv
  refine ⟨fun page hpage => h.spares inv hpage, ?_, fun b hb later w₁ hlater => ?_,
    fun action w' hstep => ?_⟩
  · have h₀ : Refines (setup.world FreeList Batch) (setup.world Seq Seq) :=
      refines_initial setup
    have inv₀ : Inv setup (setup.world Seq Seq) := inv_initial setup
    exact h₀.undiscarded inv₀ h₀ inv₀ ⟨rfl, rfl, rfl, rfl, rfl⟩ hruns
  · rw [h.contents_eq] at hb
    obtain ⟨p, a, c, hraw, hp⟩ := inv.unwritten_place hb.of_mem
    exact h.undiscarded inv (h.zeroHeader inv hraw hp) (inv.zeroHeader hraw hp)
      ⟨rfl, rfl, rfl, rfl, rfl⟩ hlater
  · obtain ⟨s', hs', h'⟩ := h.forward inv hstep
    exact h.reissues inv h' hs'

end Code

theorem samplePage : Nat.isPowerOfTwo 128 := ⟨7, rfl⟩

/-- One allocator with an arena of seven pages, each of which is a slab of one block. -/
def sampleReclaim : Setup Unit (Fin 2) where
  debug := true
  pageSize := 128
  config := fun _ => ⟨896, 64, 128, 256⟩
  mapping := fun _ => 4096
  arena := fun _ => ⟨4096, 896, 0, 64⟩
  cacheConfig := fun _ => ⟨896, 64, 128, 256⟩
  cacheId := fun k => k.val
  pageSize_isPowerOfTwo := samplePage
  accepted := fun _ => rfl
  mapping_le := fun _ => by decide
  mapping_disjoint := fun a b h => absurd (Subsingleton.elim a b) h
  cacheId_lt := sampleCacheId_lt

/-- An action of cache 0, `n` times in a row, with the given number of steps after each. -/
def sampleRepeat (n : Nat) (action : Action Unit (Fin 2)) (steps : Nat) :
    List (Action Unit (Fin 2)) :=
  (List.replicate n (action :: List.replicate steps (.run 0 (true, true)))).flatten

/-- All seven blocks are allocated, and more allocations fail until a sweep is due; then all blocks
are freed, which returns five of them and makes the slab of the first one cold. -/
def sampleCold : List (Action Unit (Fin 2)) :=
  sampleRepeat 7 (.allocate 0 () 10) 6 ++ sampleRepeat 45 (.allocate 0 () 10) 3 ++
    sampleRepeat 2 (.deallocate 0 () 0 none) 1 ++ sampleRepeat 5 (.deallocate 0 () 0 none) 3

/-- The page of the cold slab is discarded, and all blocks are allocated again. -/
def sampleDiscard : List (Action Unit (Fin 2)) :=
  sampleCold ++ .discard 33 :: sampleRepeat 2 (.allocate 0 () 10) 2 ++
    sampleRepeat 5 (.allocate 0 () 10) 4

theorem sampleDiscard_run :
    ((sampleReclaim.world FreeList Batch).runs true sampleDiscard).any
      (fun w => w.live.map Live.ptr == [4928, 4160, 4672, 4544, 4416, 4800, 4288]) := by
  decide +kernel

theorem discards_invisible_sample : ∃ w w' : World Unit (Fin 2) FreeList Batch,
    (sampleReclaim.world FreeList Batch).runs true sampleDiscard = some w ∧
      (sampleReclaim.world FreeList Batch).runs true
        (sampleDiscard.filter fun action => !action.isDiscard) = some w' ∧ w.SameBut w' := by
  obtain ⟨w, hw, -⟩ := (Option.any_eq_true _ _).mp sampleDiscard_run
  obtain ⟨w', hw', hsame⟩ := (sampleReclaim.discards_invisible sampleDiscard w hw).2.1
  exact ⟨w, w', hw, hw', hsame⟩

end Orthotope
