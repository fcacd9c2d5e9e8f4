import Orthotope.Frame

/-! The kind tag of a block.  The prefix of a header is read as a whole before its magic number is
checked, so its kind byte is taken for a tag whatever it is.  For a block of a registered slab it is
one exactly when the header has been written at some time and its page has not been discarded since:
a slab is registered before anything is written in it. -/

namespace Orthotope

open ByteMemory Ownership

variable {ι κ : Type}

/-! ### Blocks with a header -/

/-- The byte that `read_from_user_ptr` reads as a kind tag is a declared one. -/
def ValidKindTag (m : Mem) (userPtr : Nat) : Prop :=
  (readPrefix m (blockStartFromUserPtr userPtr)).kind = smallTag ∨
    (readPrefix m (blockStartFromUserPtr userPtr)).kind = largeTag

instance validKindTagDecidable (m : Mem) (userPtr : Nat) : Decidable (ValidKindTag m userPtr) :=
  inferInstanceAs (Decidable (_ ∨ _))

/-- The blocks that a call has in its hands at such a control point are not fresh. -/
def Pc.Headed : Pc ι κ Seq → Prop
  | .gotBatch .. | .publishing .. | .returning .. | .route .. => True
  | .popped _ _ _ reuse => reuse ≠ .needsHeaderRewrite
  | _ => False

/-- The small block at `b` is live, or free in a place whose blocks are neither fresh nor in a slab
that is central in full. -/
inductive World.Headed (w : World ι κ Seq Seq) (b : Nat) : Prop
  | live {e : Live ι κ} {c : SizeClass} (he : e ∈ w.live)
      (hc : SizeClass.fromRequest e.size = some c) (hb : e.ptr = userPtrFromBlockStart b)
  | cached {k : κ} {c : SizeClass}
      (hb : b ∈ ((w.caches k).classes c).ownedBag + ((w.caches k).classes c).sharedBag)
  | staged {k : κ} {c : SizeClass} (hb : b ∈ ((w.caches k).remoteReturns c).pending)
  | pooled {a : ι} {c : SizeClass} (hb : b ∈ (w.allocators a).central.inboxBag c +
      ((w.allocators a).central.lists c).partialBag)
  | moving {k : κ} {a : ι} {pc : Pc ι κ Seq} {c : SizeClass} {blocks : List Nat}
      (ht : w.threads k = .busy a pc) (hpc : pc.blocks = some (c, blocks)) (hheaded : pc.Headed)
      (hb : b ∈ blocks)

/-- In a run of `actions` the block at `b` has had a header, and since then the page that holds its
kind tag has not been discarded. -/
def Setup.HeadKept [DecidableEq ι] [DecidableEq κ] (setup : Setup ι κ)
    (actions : List (Action ι κ)) (b : Nat) : Prop :=
  ∃ before after w, actions = before ++ after ∧
    (setup.world FreeList Batch).runs setup.debug before = some w ∧ w.contents.Headed b ∧
      ∀ page, Action.discard page ∈ after → page ≠ (b + 4) / setup.pageSize

section Sequences

variable {setup : Setup ι κ} {s s' : World ι κ Seq Seq} {a : ι} {k : κ} {b : Nat} {m m' : Mem}

theorem World.Headed.of_mem (h : ({ s with mem := m } : World ι κ Seq Seq).Headed b) :
    s.Headed b := by
  cases h with
  | live he hc hb => exact .live he hc hb
  | cached hb => exact .cached hb
  | staged hb => exact .staged hb
  | pooled hb => exact .pooled hb
  | moving ht hpc hheaded hb => exact .moving ht hpc hheaded hb

theorem Pc.Headed.trust {pc : Pc ι κ Seq} (h : pc.Headed) : pc.trust setup k ≠ .raw := by
  cases pc with
  | popped c size block reuse =>
    cases reuse with
    | needsHeaderRewrite => exact absurd rfl h
    | _ => exact Trust.noConfusion
  | gotBatch => exact Trust.noConfusion
  | publishing => exact Trust.noConfusion
  | returning => exact Trust.noConfusion
  | route => exact Trust.noConfusion
  | _ => exact h.elim

theorem HeaderOk.formatted {debug : Bool} {c : SizeClass} {t : Trust}
    (h : HeaderOk debug m c b t) (ht : t ≠ .raw) : Formatted m c b := by
  cases t with
  | raw => exact absurd rfl ht
  | shared => exact h.1
  | owned id => exact h.1

/-- Such a block is a block of a slab, and has its header. -/
theorem Inv.headed (inv : Inv setup s) (h : s.Headed b) :
    ∃ p a c, setup.smallCell a c b ∈ s.own setup p ∧ Formatted s.mem c b := by
  have hfree : ∀ {p a c} t, s.trust setup p = some t → t ≠ .raw →
      setup.smallCell a c b ∈ s.own setup p →
        ∃ p a c, setup.smallCell a c b ∈ s.own setup p ∧ Formatted s.mem c b :=
    fun t htrust hraw hp => ⟨_, _, _, hp, (inv.memory.free _ _ htrust _ hp _ rfl).formatted hraw⟩
  cases h with
  | @live e c he hc hb =>
    have hstart : blockStartFromUserPtr e.ptr = b := by
      rw [hb]
      exact Nat.add_sub_cancel ..
    have hp : setup.smallCell e.alloc c (blockStartFromUserPtr e.ptr) ∈ s.own setup .client :=
      Live.mem_client he hc
    rw [hstart] at hp
    exact ⟨.client, e.alloc, c, hp, hstart ▸ ((inv.memory.entry none e he).small c hc).formatted⟩
  | @cached k c hb =>
    have hbag : ((s.caches k).classes c).hotBag + ((s.caches k).classes c).freeBag +
        ((s.caches k).classes c).sharedBag ≤
          ((s.caches k).classes c).bag + ((s.caches k).remoteReturns c).pending := by
      refine le_trans ?_ (Multiset.le_add_right _ _)
      exact add_le_add (Multiset.le_add_right _ _) le_rfl
    rcases Multiset.mem_add.mp hb with hb | hb
    · rcases Multiset.mem_add.mp hb with hb | hb
      · obtain ⟨a, hp⟩ := inv.parts.mem_cacheCells hb
          (((Multiset.le_add_right _ _).trans (Multiset.le_add_right _ _)).trans hbag)
        exact hfree (p := .hot k c) (.owned (setup.cacheId k)) rfl Trust.noConfusion hp
      · obtain ⟨a, hp⟩ := inv.parts.mem_cacheCells hb
          (((Multiset.le_add_left _ _).trans (Multiset.le_add_right _ _)).trans hbag)
        exact hfree (p := .slabFree k c) (.owned (setup.cacheId k)) rfl Trust.noConfusion hp
    · obtain ⟨a, hp⟩ := inv.parts.mem_cacheCells hb ((Multiset.le_add_left _ _).trans hbag)
      exact hfree (p := .shared k c) .shared rfl Trust.noConfusion hp
  | @staged k c hb =>
    obtain ⟨a, hp⟩ := inv.parts.mem_cacheCells (Multiset.mem_coe.mpr hb) (Multiset.le_add_left _ _)
    exact hfree (p := .staged k c) .shared rfl Trust.noConfusion hp
  | @pooled a c hb =>
    rcases Multiset.mem_add.mp hb with hb | hb
    · exact hfree (p := .inbox a c) .shared rfl Trust.noConfusion (setup.smallCell_mem hb)
    · exact hfree (p := .partialFree a c) .shared rfl Trust.noConfusion (setup.smallCell_mem hb)
  | @moving k a pc c blocks ht hpc hheaded hb =>
    refine hfree (p := .hand k) (pc.trust setup k) ?_ hheaded.trust (mem_own_hand ht hpc hb)
    simp only [World.trust, ht, Thread.trust]

theorem validKindTag_iff : ValidKindTag m (userPtrFromBlockStart b) ↔
    (m.byte (b + 4)).toNat = smallTag ∨ (m.byte (b + 4)).toNat = largeTag := by
  have hstart : blockStartFromUserPtr (userPtrFromBlockStart b) = b := Nat.add_sub_cancel ..
  have hkind : (readPrefix m b).kind = (m.byte (b + 4)).toNat := by
    simp only [readPrefix, Mem.read]
    omega
  rw [ValidKindTag, hstart, hkind]

theorem ValidKindTag.congr (h : m'.byte (b + 4) = m.byte (b + 4)) :
    ValidKindTag m' (userPtrFromBlockStart b) ↔ ValidKindTag m (userPtrFromBlockStart b) := by
  rw [validKindTag_iff, validKindTag_iff, h]

theorem not_validKindTag (h : m.byte (b + 4) = 0) : ¬ValidKindTag m (userPtrFromBlockStart b) := by
  rw [validKindTag_iff, h]
  decide

theorem Inv.headed_valid (inv : Inv setup s) (h : s.Headed b) :
    ValidKindTag s.mem (userPtrFromBlockStart b) := by
  obtain ⟨_, _, _, _, hformatted⟩ := inv.headed h
  have hstart : blockStartFromUserPtr (userPtrFromBlockStart b) = b := Nat.add_sub_cancel ..
  apply Or.inl
  rw [hstart]
  exact hformatted.kind

/-! ### What writes a kind tag -/

theorem mark_byte {debug : Bool} {b' : Nat} (hb : b % 64 = 0) (hb' : b' % 64 = 0) :
    (markSmallBlockFreed debug m b').byte (b + 4) = m.byte (b + 4) := by
  unfold markSmallBlockFreed
  split
  · exact Mem.write_byte_outside (by omega)
  · rfl

theorem World.slabBlock_iff : s.SlabBlock b ↔
    ∃ a c, ∃ shape ∈ ((s.allocators a).central.lists c).shapes,
      b ∈ slabBlocks shape.1 shape.2.2.1 shape.2.2.2 := by
  constructor
  · rintro ⟨a, c, slab, hslab, hb⟩
    exact ⟨a, c, slab.shape, List.mem_map_of_mem hslab, hb⟩
  · rintro ⟨a, c, shape, hshape, hb⟩
    obtain ⟨slab, hslab, rfl⟩ := List.mem_map.mp hshape
    exact ⟨a, c, slab, hslab, hb⟩

/-- Only the registration of a span makes a new slab. -/
theorem Transition.shapes_cases {debug : Bool} {pc : Pc ι κ Seq} {v : View ι κ Seq Seq}
    (htrans : Transition debug s a k pc v) {c : SizeClass} {shape : Nat × Nat × Nat × Nat}
    (hshape : shape ∈ (v.allocator.central.lists c).shapes) :
    shape ∈ ((s.allocators a).central.lists c).shapes ∨
      ∃ size n span, pc = .carved c size span ∧ v.mem.byte = s.mem.byte ∧
        span.size = n * (s.allocators a).config.classBlockSize c ∧ shape = (span.start,
          span.start + (s.allocators a).config.classBlockSize c * n,
            (s.allocators a).config.classBlockSize c, n) := by
  cases htrans with
  | refill h => exact Or.inl (OnlyClass.shapes_eq h.only h.shapes c ▸ hshape)
  | @register d size n span m central hn hsize h =>
    have hcentral : shape ∈ (central.lists c).shapes := hshape
    by_cases hc : c = d
    · subst hc
      rw [h.shapes] at hcentral
      refine (List.mem_append.mp hcentral).imp_right fun hnew => ?_
      exact ⟨size, n, span, rfl, funext h.givesUp.byte, hsize, List.mem_singleton.mp hnew⟩
    · rw [h.only.lists c hc] at hcentral
      exact Or.inl hcentral
  | @unstageNone d resume =>
    rw [(View.resume_frame _ a resume).2.2.1] at hshape
    exact Or.inl hshape
  | @publish d batch resume central hinv only lists inbox =>
    rw [(View.resume_frame _ a resume).2.2.1] at hshape
    exact Or.inl (OnlyClass.shapes_eq only (congrArg (fun l => (l d).shapes) lists) c ▸ hshape)
  | @returnBatch d batch resume m central h =>
    rw [(View.resume_frame _ a resume).2.2.1] at hshape
    exact Or.inl (OnlyClass.shapes_eq h.only h.shapes c ▸ hshape)
  | _ => exact Or.inl hshape

variable [DecidableEq ι] [DecidableEq κ]

/-- A step of a call that writes the kind tag of a small block leaves it with a header. -/
theorem Transition.headed (inv : Inv setup s) {a₀ : ι} {c₀ : SizeClass} {p : Place ι κ}
    (hcell : setup.smallCell a₀ c₀ b ∈ s.own setup p) {pc : Pc ι κ Seq} {v : View ι κ Seq Seq}
    (ht : s.threads k = .busy a pc) (htrans : Transition setup.debug s a k pc v) :
    v.mem.byte (b + 4) = s.mem.byte (b + 4) ∨ (s.update a k v).Headed b := by
  obtain ⟨howner, hok⟩ := inv.parts.thread k a _ ht
  have haligned : ∀ {q x}, x ∈ s.own setup q → x.lo % 64 = 0 := fun hx =>
    (inv.ledger.inArena _ _ hx).aligned
  have hb : b % 64 = 0 := haligned hcell
  cases htrans with
  | refill h => exact Or.inl (h.givesUp.byte _)
  | register hn hsize h => exact Or.inl (h.givesUp.byte _)
  | @returnBatch c batch resume m central h =>
    rw [(View.resume_frame _ a resume).1]
    exact Or.inl (h.givesUp.byte _)
  | @publish c batch resume central =>
    rw [(View.resume_frame _ a resume).1]
    exact Or.inl rfl
  | @unstageNone c resume =>
    rw [(View.resume_frame _ a resume).1]
    exact Or.inl rfl
  | @give c size block reuse =>
    by_cases hin : inHeader block (b + 4)
    · have hblock : setup.smallCell a c block ∈ s.own setup (.hand k) :=
        mem_own_hand ht rfl (List.mem_singleton_self block)
      have hal : block % 64 = 0 := haligned hblock
      obtain rfl : b = block := by
        unfold inHeader headerSize at hin
        omega
      refine Or.inr (.live (e := ⟨a, k, userPtrFromBlockStart b, size, fun _ => none⟩) ?_ hok rfl)
      exact List.mem_append.mpr (Or.inr (List.mem_singleton_self _))
    · exact Or.inl ((writesIn_writeHeader setup.debug s.mem c size block _ reuse).byte _ hin)
  | @largeWrite size start blockSize hfits =>
    refine Or.inl ((writesIn_writeEncodedFields s.mem start _ _ _ _ _).byte _ fun hin => ?_)
    -- the large block is no block of a slab
    have hextent := mem_own_extent setup ht rfl
    have hal : start % 64 = 0 := haligned hextent
    obtain rfl : b = start := by
      unfold inHeader headerSize at hin
      omega
    have hlt := (inv.ledger.inArena _ _ hcell).lo_lt
    have hlt' := (inv.ledger.inArena _ _ hextent).lo_lt
    rcases inv.ledger.apart.eq_or hcell hextent with heq | hapart | hapart
    · cases congrArg Cell.cls heq
    · exact absurd hapart (not_le.mpr hlt)
    · exact absurd hapart (not_le.mpr hlt')
  | @excess c max resume m batch class_ hinv shapes hbatch drains =>
    obtain ⟨owned, fresh, shared, hsum, -, hfresh, -, rfl⟩ := drains
    by_cases hin : ∃ b' ∈ fresh, inHeader b' (b + 4)
    · obtain ⟨b', hb', hin⟩ := hin
      have hmem : setup.smallCell a c b' ∈ s.own setup (.fresh k c) := by
        simp only [World.own, World.cacheCells, howner]
        exact setup.smallCell_mem (by simp [hfresh, hb'])
      have hal : b' % 64 = 0 := haligned hmem
      obtain rfl : b = b' := by
        unfold inHeader headerSize at hin
        omega
      have hbatch : b ∈ batch := by
        rw [← Multiset.mem_coe, hsum]
        simp [hb']
      exact Or.inr (.moving (World.update_threads_same ..) rfl trivial hbatch)
    · exact Or.inl ((writesIn_initializeAll s.mem c fresh).byte _ hin)
  | _ => exact Or.inl rfl

/-- The headers in a slab that has just been registered are still zero. -/
theorem Transition.new_block (inv : Inv setup s) {pc : Pc ι κ Seq} {v : View ι κ Seq Seq}
    (ht : s.threads k = .busy a pc) (htrans : Transition setup.debug s a k pc v)
    (hnot : ¬s.SlabBlock b) (hb : (s.update a k v).SlabBlock b) {y : Nat} (hy : inHeader b y) :
    v.mem.byte y = 0 := by
  obtain ⟨a', c, shape, hshape, hmem⟩ := World.slabBlock_iff.mp hb
  by_cases ha : a' = a
  · subst ha
    rw [World.update_allocators_same] at hshape
    rcases htrans.shapes_cases hshape with hold | ⟨size, n, span, rfl, hbyte, hsize, rfl⟩
    · exact absurd (World.slabBlock_iff.mpr ⟨a', c, shape, hold, hmem⟩) hnot
    · rw [(inv.parts.allocator a').config_eq] at hsize hmem
      obtain ⟨hlo, hhi⟩ := slabBlocks_bounds hmem
      obtain ⟨hy1, hy2⟩ := hy
      have hle := (setup.config a').header_payload_le_classBlockSize c
      have hpc : ∀ x, span.start ≤ x → x < span.start + span.size → s.mem.byte x = 0 :=
        inv.memory.pc k a' _ ht
      rw [hbyte]
      apply hpc y (hlo.trans hy1)
      rw [hsize, Nat.mul_comm]
      simp only at hhi
      omega
  · rw [World.update_allocators_ne _ _ ha] at hshape
    exact absurd (World.slabBlock_iff.mpr ⟨a', c, shape, hshape, hmem⟩) hnot

/-- What a client stores is in no header. -/
theorem Inv.store_cell (inv : Inv setup s) {p : Place ι κ} {x : Cell ι} (hcell : x ∈ s.own setup p)
    (hheader : x.lo + headerSize ≤ x.hi) {e : Live ι κ} (he : e ∈ s.live) {offset : Nat}
    (hoffset : offset < e.size) : ¬inHeader x.lo (e.ptr + offset) := by
  rintro ⟨hlo, hhi⟩
  obtain ⟨q, z, hz⟩ : ∃ q z, CellOf setup s e q z := inv.exists_cell (g := none) he
  have hle := (inv.memory.entry none e he).header_le
  have hzlo := hz.lo_eq
  have hzhi := hz.le_hi
  unfold blockStartFromUserPtr at hzlo
  rcases inv.ledger.apart.eq_or hcell hz.mem with rfl | hapart
  · omega
  · unfold Cell.Apart at hapart
    omega

theorem Inv.store_header (inv : Inv setup s) {a₀ : ι} {c₀ : SizeClass} {p : Place ι κ}
    (hcell : setup.smallCell a₀ c₀ b ∈ s.own setup p) {e : Live ι κ}
    (he : e ∈ s.live) {offset : Nat}
    (hoffset : offset < e.size) : ¬inHeader b (e.ptr + offset) :=
  inv.store_cell hcell (inv.ledger.header_le hcell rfl) he hoffset

/-- What an action does to the memory, if it is no step of a call: it marks a block whose allocation
it frees, stores to an allocation, or discards a page. -/
theorem World.begins_mem {action : Action ι κ} {debug : Bool}
    (hrun : ∀ k advised, action ≠ .run k advised) (hstep : s.step debug action = some s') :
    s'.mem = s.mem ∨
      (∃ e ∈ s.live, s'.mem = markSmallBlockFreed debug s.mem (blockStartFromUserPtr e.ptr)) ∨
      (∃ e ∈ s.live, ∃ offset value, offset < e.size ∧
        s'.mem = s.mem.write (e.ptr + offset) 1 value) ∨
      ∃ page, action = .discard page ∧ s.mem.lazyPage page = true ∧
        s'.mem = s.mem.discard page := by
  cases action with
  | allocate k a size =>
    have hcall : s.call k a (fun v => v.startAllocate a size) = some s' := hstep
    obtain ⟨-, rfl | ⟨cache, rfl⟩⟩ := World.call_cases hcall
    · exact Or.inl rfl
    · exact Or.inl (View.startAllocate_same (a := a) ((s.view a k).setCache cache) size).1
  | drain k a =>
    have hcall : s.call k a (fun v => v.goto a (.flush SizeClass.all)) = some s' := hstep
    obtain ⟨-, rfl | ⟨cache, rfl⟩⟩ := World.call_cases hcall
    · exact Or.inl rfl
    · exact Or.inl rfl
  | deallocate k a i expectedSize =>
    obtain ⟨e, he, hcall⟩ := Option.bind_eq_some_iff.mp hstep
    obtain ⟨-, rfl | ⟨cache, rfl⟩⟩ := World.call_cases hcall
    · exact Or.inl rfl
    obtain ⟨v, hv⟩ : ∃ v, ((s.view a k).setCache cache).startFree debug a e
      (((s.view a k).setCache cache).live.eraseIdx i) expectedSize = v := ⟨_, rfl⟩
    rw [hv]
    obtain ⟨-, ⟨hsame, -⟩ | ⟨hmark, -⟩ | ⟨hsame, -⟩⟩ := View.startFree_cases hv
    · exact Or.inl hsame
    · exact Or.inr (Or.inl ⟨e, List.mem_of_getElem? he, hmark⟩)
    · exact Or.inl hsame
  | run k advised => exact absurd rfl (hrun k advised)
  | store i offset value =>
    obtain ⟨e, he, hcall⟩ := Option.bind_eq_some_iff.mp hstep
    split at hcall
    · rename_i hoffset
      obtain rfl := Option.some.inj hcall
      exact Or.inr (Or.inr (Or.inl ⟨e, List.mem_of_getElem? he, offset, _, hoffset, rfl⟩))
    · cases hcall
  | discard page =>
    simp only [World.step] at hstep
    split at hstep
    · rename_i hpage
      obtain rfl := Option.some.inj hstep
      exact Or.inr (Or.inr (Or.inr ⟨page, rfl, hpage, rfl⟩))
    · cases hstep

/-- A step that changes the kind tag of a small block leaves it with a header, unless it discards
the page. -/
theorem Inv.step_headed (inv : Inv setup s) {action : Action ι κ}
    (hstep : s.step setup.debug action = some s') (hb : s.SlabBlock b)
    (hdiscard : ∀ page, action = .discard page → page ≠ (b + 4) / setup.pageSize) :
    s'.mem.byte (b + 4) = s.mem.byte (b + 4) ∨ s'.Headed b := by
  obtain ⟨a₀, c₀, slab, hslab, hmem⟩ := hb
  obtain ⟨p, hcell⟩ := (inv.ledger.covered (setup.smallCell a₀ c₀ b) rfl).mpr
    ⟨c₀, slab.shape, List.mem_map_of_mem hslab, b, hmem, rfl⟩
  have hal : b % 64 = 0 := (inv.ledger.inArena _ _ hcell).aligned
  by_cases hrun : ∃ k advised, action = .run k advised
  · obtain ⟨k, advised, rfl⟩ := hrun
    obtain ⟨a, pc, v, ht, rfl, -, htrans⟩ := inv.run_cases hstep
    exact htrans.headed inv hcell ht
  · have hrun : ∀ k advised, action ≠ .run k advised := fun k advised heq => hrun ⟨k, advised, heq⟩
    apply Or.inl
    rcases World.begins_mem hrun hstep with hsame | ⟨e, he, hmark⟩ |
      ⟨e, he, offset, value, hoffset, hstore⟩ | ⟨page, hpage, -, hdiscarded⟩
    · rw [hsame]
    · obtain ⟨hptr, hheader, -⟩ := inv.live_placed he
      have hal' : blockStartFromUserPtr e.ptr % 64 = 0 := by
        unfold blockStartFromUserPtr headerSize at *
        omega
      rw [hmark]
      exact mark_byte hal hal'
    · have hout := inv.store_header hcell he hoffset
      unfold inHeader headerSize at hout
      rw [hstore]
      exact Mem.write_byte_outside (by omega)
    · have hother : (b + 4) / s.mem.pageSize ≠ page := by
        rw [inv.parts.pageSize_eq]
        exact (hdiscard page hpage).symm
      rw [hdiscarded]
      exact if_neg hother

/-- The kind tag of a block is zero when its slab is registered. -/
theorem Inv.step_registers (inv : Inv setup s) {action : Action ι κ}
    (hstep : s.step setup.debug action = some s') (hnot : ¬s.SlabBlock b) (hb : s'.SlabBlock b) :
    s'.mem.byte (b + 4) = 0 := by
  rcases inv.step_cases hstep with ⟨k, a, pc, advised, v, -, ht, rfl, -, htrans⟩ |
    ⟨k, a, last, v, -, -, rfl, halloc, -⟩ | ⟨hallocators, -⟩
  · exact htrans.new_block inv ht hnot hb ⟨Nat.le_add_right _ _, by unfold headerSize; omega⟩
  · refine absurd ?_ hnot
    rwa [World.SlabBlock, World.update, halloc, Function.update_eq_self] at hb
  · refine absurd ?_ hnot
    rwa [World.SlabBlock, hallocators] at hb

end Sequences

/-! ### Runs -/

section Code

variable {setup : Setup ι κ} {w w' : World ι κ FreeList Batch} {s s' : World ι κ Seq Seq} {a : ι}
  {c : SizeClass} {b : Nat} {actions : List (Action ι κ)}

theorem Refines.slabBlock (h : Refines w s) {slab : SlabRecord FreeList}
    (hslab : slab ∈ ((w.allocators a).central.lists c).slabs)
    (hb : b ∈ slabBlocks slab.start slab.blockSize slab.capacity) : s.SlabBlock b := by
  refine World.slabBlock_iff.mpr ⟨a, c, slab.shape, ?_, hb⟩
  rw [← h.shapes_eq]
  exact List.mem_map_of_mem hslab

theorem Refines.headed_iff (h : Refines w s) : w.contents.Headed b ↔ s.Headed b := by
  rw [h.contents_eq]
  constructor
  · exact World.Headed.of_mem
  · intro hheaded
    exact World.Headed.of_mem (m := s.mem) hheaded

variable [DecidableEq ι] [DecidableEq κ]

/-- A block that has once had a header is one of a slab for the rest of the run. -/
theorem Setup.HeadKept.slabBlock (h : setup.HeadKept actions b)
    (hruns : (setup.world FreeList Batch).runs setup.debug actions = some w) (hw : Refines w s) :
    s.SlabBlock b := by
  obtain ⟨before, after, w₁, rfl, hbefore, hheaded, -⟩ := h
  have hreachable : setup.Reachable w₁ := Setup.Reachable.initial.runs hbefore
  obtain ⟨s₁, hs₁, h₁⟩ := hreachable.refines
  obtain ⟨p, a, c, hp, -⟩ := hs₁.inv.headed (h₁.headed_iff.mp hheaded)
  obtain ⟨slab, hslab, hb⟩ := hs₁.inv.ledger.slab_of_mem hp
  have hafter : w₁.runs setup.debug after = some w := by
    rw [World.runs_append, hbefore] at hruns
    exact hruns
  have hshape := hreachable.slabs_stay hafter a c slab.shape (by
    rw [h₁.shapes_eq]
    exact List.mem_map_of_mem hslab)
  rw [hw.shapes_eq] at hshape
  exact World.slabBlock_iff.mpr ⟨a, c, slab.shape, hshape, hb⟩

/-- The header of a block lasts over an action that does not discard its page. -/
theorem Setup.headKept_snoc {action : Action ι κ}
    (hdiscard : ∀ page, action = .discard page → page ≠ (b + 4) / setup.pageSize)
    (hruns : (setup.world FreeList Batch).runs setup.debug (actions ++ [action]) = some w') :
    setup.HeadKept (actions ++ [action]) b ↔ setup.HeadKept actions b ∨ w'.contents.Headed b := by
  constructor
  · rintro ⟨before, after, w₁, heq, hbefore, hheaded, hkept⟩
    rcases List.eq_nil_or_concat after with rfl | ⟨after, last, rfl⟩
    · rw [List.append_nil] at heq
      rw [heq, hbefore] at hruns
      exact Or.inr (Option.some.inj hruns ▸ hheaded)
    · rw [List.concat_eq_append, ← List.append_assoc] at heq
      obtain ⟨rfl, -⟩ := List.append_inj' heq rfl
      refine Or.inl ⟨before, after, w₁, rfl, hbefore, hheaded, fun page hpage => hkept page ?_⟩
      rw [List.concat_eq_append]
      exact List.mem_append.mpr (Or.inl hpage)
  · rintro (⟨before, after, w₁, rfl, hbefore, hheaded, hkept⟩ | hheaded)
    · refine ⟨before, after ++ [action], w₁, List.append_assoc .., hbefore, hheaded, ?_⟩
      intro page hpage
      rcases List.mem_append.mp hpage with hpage | hpage
      · exact hkept page hpage
      · exact hdiscard page (List.mem_singleton.mp hpage).symm
    · refine ⟨_, [], w', (List.append_nil _).symm, hruns, hheaded, ?_⟩
      simp

/-- A discard of its page takes the header of a block. -/
theorem Setup.not_headKept_discard {page : Nat} (hpage : page = (b + 4) / setup.pageSize)
    (hheaded : ¬w'.contents.Headed b)
    (hruns : (setup.world FreeList Batch).runs setup.debug (actions ++ [.discard page]) = some w') :
    ¬setup.HeadKept (actions ++ [.discard page]) b := by
  rintro ⟨before, after, w₁, heq, hbefore, hheaded₁, hkept⟩
  rcases List.eq_nil_or_concat after with rfl | ⟨after, last, rfl⟩
  · rw [List.append_nil] at heq
    rw [heq, hbefore] at hruns
    exact hheaded (Option.some.inj hruns ▸ hheaded₁)
  · rw [List.concat_eq_append, ← List.append_assoc] at heq
    obtain ⟨-, hlast⟩ := List.append_inj' heq rfl
    refine hkept page ?_ hpage
    rw [List.concat_eq_append, List.mem_append]
    exact Or.inr (List.mem_singleton.mpr (List.singleton_inj.mp hlast))

theorem Setup.kind_tag_run
    (hruns : (setup.world FreeList Batch).runs setup.debug actions = some w) :
    ∃ s, setup.Reachable s ∧ Refines w s ∧ ∀ b, s.SlabBlock b →
      (ValidKindTag s.mem (userPtrFromBlockStart b) ↔ setup.HeadKept actions b) := by
  induction actions using List.reverseRecOn generalizing w with
  | nil =>
    obtain rfl := Option.some.inj hruns
    have hinitial : setup.Reachable (setup.world FreeList Batch) := .initial
    obtain ⟨s, hs, hrefines⟩ := hinitial.refines
    refine ⟨s, hs, hrefines, fun b hb => ?_⟩
    obtain ⟨a, c, shape, hshape, -⟩ := World.slabBlock_iff.mp hb
    rw [← hrefines.shapes_eq] at hshape
    exact absurd hshape List.not_mem_nil
  | append_singleton actions action ih =>
    have hlast := hruns
    rw [World.runs_append] at hlast
    obtain ⟨w₁, hruns₁, hrest⟩ := Option.bind_eq_some_iff.mp hlast
    obtain ⟨w₂, hstep, hend⟩ := Option.bind_eq_some_iff.mp hrest
    obtain rfl := Option.some.inj hend
    obtain ⟨s₁, hs₁, h₁, hiff⟩ := ih hruns₁
    obtain ⟨s₂, hstep₂, h₂⟩ := h₁.forward hs₁.inv hstep
    refine ⟨s₂, hs₁.step action hstep₂, h₂, fun b hb => ?_⟩
    have inv₂ := hs₁.inv.step hstep₂
    by_cases hdiscard : ∃ page, action = .discard page ∧ page = (b + 4) / setup.pageSize
    · obtain ⟨page, rfl, hpage⟩ := hdiscard
      have hzero : s₂.mem.byte (b + 4) = 0 := by
        simp only [World.step] at hstep₂
        split at hstep₂
        · obtain rfl := Option.some.inj hstep₂
          apply if_pos
          rw [hs₁.inv.parts.pageSize_eq, hpage]
        · cases hstep₂
      have hnot : ¬w₂.contents.Headed b := fun hheaded =>
        not_validKindTag hzero (inv₂.headed_valid (h₂.headed_iff.mp hheaded))
      exact iff_of_false (not_validKindTag hzero) (Setup.not_headKept_discard hpage hnot hruns)
    · have hdiscard' : ∀ page, action = .discard page → page ≠ (b + 4) / setup.pageSize :=
        fun page heq hpage => hdiscard ⟨page, heq, hpage⟩
      rw [Setup.headKept_snoc hdiscard' hruns, h₂.headed_iff]
      by_cases hb₁ : s₁.SlabBlock b
      · rw [← hiff b hb₁]
        rcases hs₁.inv.step_headed hstep₂ hb₁ hdiscard' with hsame | hheaded
        · rw [ValidKindTag.congr hsame]
          refine ⟨Or.inl, fun h => h.elim id fun hheaded => ?_⟩
          exact (ValidKindTag.congr hsame).mp (inv₂.headed_valid hheaded)
        · exact iff_of_true (inv₂.headed_valid hheaded) (Or.inr hheaded)
      · have hzero := hs₁.inv.step_registers hstep₂ hb₁ hb
        apply iff_of_false (not_validKindTag hzero)
        rintro (hkept | hheaded)
        · exact hb₁ (hkept.slabBlock hruns₁ h₁)
        · exact not_validKindTag hzero (inv₂.headed_valid hheaded)

/-- After any run, what is read as the kind tag of a block of a registered slab is one if and only
if the block has had a header in the run, in a page that has not been discarded since. -/
theorem Setup.kind_tag_iff (hruns : (setup.world FreeList Batch).runs setup.debug actions = some w)
    {slab : SlabRecord FreeList} (hslab : slab ∈ ((w.allocators a).central.lists c).slabs)
    (hb : b ∈ slabBlocks slab.start slab.blockSize slab.capacity) :
    ValidKindTag w.mem (userPtrFromBlockStart b) ↔ setup.HeadKept actions b := by
  obtain ⟨s, hs, hrefines, hiff⟩ := Setup.kind_tag_run hruns
  have hblock := hrefines.slabBlock hslab hb
  rw [← hiff b hblock, ValidKindTag, ValidKindTag]
  have hstart : blockStartFromUserPtr (userPtrFromBlockStart b) = b := Nat.add_sub_cancel ..
  rw [hstart, (hrefines.sameFields hs.inv (hs.inv.slabBlock_aligned hblock)).readPrefix_eq]

/-- The slab of cache 1 has two blocks: one is live, and the other was never handed out. -/
theorem kind_tag_iff_sample :
    sampleSetup.HeadKept sampleActions 4352 ∧ ¬sampleSetup.HeadKept sampleActions 4480 := by
  have hruns : (sampleSetup.world FreeList Batch).runs true sampleActions = some sampleWorld :=
    (Option.some_get sampleActions_run).symm
  have hslab : ∃ slab ∈ ((sampleWorld.allocators ()).central.lists .b64).slabs,
      4352 ∈ slabBlocks slab.start slab.blockSize slab.capacity ∧
        4480 ∈ slabBlocks slab.start slab.blockSize slab.capacity := by
    decide +kernel
  obtain ⟨slab, hslab, hlive, hfresh⟩ := hslab
  refine ⟨(Setup.kind_tag_iff hruns hslab hlive).mp (by decide +kernel), ?_⟩
  rw [← Setup.kind_tag_iff hruns hslab hfresh]
  decide +kernel

/-- A block of a registered slab whose kind byte is no tag. -/
theorem never_allocated_kind_tag : sampleSetup.Reachable sampleWorld ∧
    (∃ slab ∈ ((sampleWorld.allocators ()).central.lists .b64).slabs,
      4480 ∈ slabBlocks slab.start slab.blockSize slab.capacity) ∧
    (readPrefix sampleWorld.mem (blockStartFromUserPtr (userPtrFromBlockStart 4480))).kind = 0 ∧
      ¬ValidKindTag sampleWorld.mem (userPtrFromBlockStart 4480) :=
  ⟨sampleWorld_reachable, by decide +kernel, by decide +kernel, by decide +kernel⟩

end Code

end Orthotope
