import Orthotope.ProcessRefinement

/-! The memory that the shim hands out.  Whatever backend they come from, the allocations of the
program are aligned as asked and share no address, and a byte that the program has stored in one
reads back until it is stored to again or its allocation is freed: no call of any thread, no
fallback, no end of a thread and no page that the system takes back changes it. -/

namespace Orthotope

open ByteMemory

/-- Two allocations of the program share no address. -/
def Held.Clear (h h' : Held) : Prop :=
  Orthotope.Clear h.ptr h.layout.size h'.ptr h'.layout.size

theorem Held.Clear.symm {h h' : Held} (hclear : h.Clear h') : h'.Clear h := by
  unfold Held.Clear Orthotope.Clear at hclear ⊢
  omega

theorem Held.entry_of_source {h : Held} (hsource : h.source = .orthotope) :
    h.entry = some (h.ptr, h.layout.size) := by
  unfold Held.entry
  rw [hsource]

/-- The byte at an offset of an allocation is what the program has last stored there.  For a byte of
the allocator this is what the live allocation says. -/
def Held.Stores {κ L B : Type} (h : Held) (offset : Nat) (value : UInt8) (w : World Unit κ L B) :
    Prop :=
  match h.source with
  | .orthotope => ∃ e ∈ w.live, e.ptr = h.ptr ∧ e.written offset = some value
  | _ => w.mem.byte (h.ptr + offset) = value

section Stores

variable {κ L B : Type} {h : Held} {offset : Nat} {value : UInt8} {w : World Unit κ L B}

theorem Held.stores_entry (hsource : h.source = .orthotope) : h.Stores offset value w ↔
    ∃ e ∈ w.live, e.ptr = h.ptr ∧ e.written offset = some value := by
  unfold Held.Stores
  rw [hsource]

theorem Held.stores_byte {b : Nat × Layout} (hb : h.block = some b) :
    h.Stores offset value w ↔ w.mem.byte (h.ptr + offset) = value := by
  unfold Held.block at hb
  unfold Held.Stores
  cases hsource : h.source with
  | orthotope =>
    rw [hsource] at hb
    cases hb
  | system => exact Iff.rfl
  | fallback raw rawLayout => exact Iff.rfl

end Stores

namespace Process

variable {κ : Type} [DecidableEq κ]

/-- An action that frees an allocation, or stores to the byte at an offset of it. -/
def Disturbs (p : Process κ) (h : Held) (offset : Nat) : ProcessAction κ → Prop
  | .dealloc _ i _ => p.held[i]? = some h
  | .store i offset' _ => offset' = offset ∧ p.held[i]? = some h
  | _ => False

/-- A step by an action that disturbs no such byte. -/
def Spares (debug : Bool) (h : Held) (offset : Nat) (p p' : Process κ) : Prop :=
  ∃ action, ¬p.Disturbs h offset action ∧ p.step debug action = some p'

end Process

/-! ### Places -/

namespace Process.Rep

variable {κ : Type} [DecidableEq κ] {setup : Setup Unit κ} {p p' : Process κ}
  {s : World Unit κ Seq Seq} {k : κ} {h : Held} {offset : Nat} {value : UInt8}

/-- A live allocation is in the arena. -/
theorem live_inArena (rep : p.Rep setup s) {e : Live Unit κ} (he : e ∈ s.live) :
    (setup.arena ()).base ≤ e.ptr ∧
      e.ptr + e.size ≤ (setup.arena ()).base + (setup.arena ()).len := by
  obtain ⟨place, x, hx⟩ : ∃ place x, CellOf setup s e place x :=
    rep.backed.inv.exists_cell (g := none) he
  have hin := rep.backed.inv.ledger.inArena place x hx.mem
  have hnext := (rep.backed.inv.parts.allocator x.alloc).next_le
  have hlo := hx.lo_eq
  have hhi := hx.le_hi
  have hbase := hin.base_le
  have hle := hin.hi_le
  unfold blockStartFromUserPtr at hlo
  constructor
  · show (setup.arena x.alloc).base ≤ _
    omega
  · show _ ≤ (setup.arena x.alloc).base + (setup.arena x.alloc).len
    omega

/-- The live allocation behind a pointer of the allocator. -/
theorem entry_of_held (rep : p.Rep setup s) (hh : h ∈ p.held) (hsource : h.source = .orthotope) :
    ∃ e ∈ s.live, e.ptr = h.ptr ∧ e.size = h.layout.size := by
  obtain ⟨e, he, heq⟩ := List.mem_map.mp (Multiset.mem_coe.mp (rep.held_size hh hsource))
  obtain ⟨hptr, hsize⟩ := Prod.mk.inj heq
  exact ⟨e, he, hptr, hsize⟩

/-- The allocations of the allocator that the program has are apart. -/
theorem entries_clear (rep : p.Rep setup s) :
    (p.held.filterMap Held.entry).Pairwise fun x y => Orthotope.Clear x.1 x.2 y.1 y.2 := by
  obtain ⟨held, hperm, hsub⟩ := Multiset.coe_le.mp rep.live
  have hsymm : ∀ {x y : Nat × Nat}, Orthotope.Clear x.1 x.2 y.1 y.2 →
      Orthotope.Clear y.1 y.2 x.1 x.2 := by
    intro x y hxy
    unfold Orthotope.Clear at hxy ⊢
    omega
  refine hperm.pairwise (List.Pairwise.sublist hsub ?_) hsymm
  rw [List.pairwise_map]
  refine rep.backed.inv.live_apart.imp_of_mem fun {e e'} he he' hapart => ?_
  have hle := (rep.backed.inv.memory.entry none e he).header_le
  have hle' := (rep.backed.inv.memory.entry none e' he').header_le
  unfold Live.Apart blockStartFromUserPtr at hapart
  unfold Orthotope.Clear
  omega

/-- The allocations of the program are apart, whatever backends they are of. -/
theorem held_clear (rep : p.Rep setup s) : p.held.Pairwise Held.Clear := by
  have hblocks : p.held.Pairwise fun h h' => ∀ b, h.block = some b → ∀ b', h'.block = some b' →
      BlocksClear b b' := by
    rw [← List.pairwise_filterMap]
    exact rep.books.owned.symm.pairwise rep.books.apart fun h => h.symm
  have hentries : p.held.Pairwise fun h h' => ∀ x, h.entry = some x → ∀ y, h'.entry = some y →
      Orthotope.Clear x.1 x.2 y.1 y.2 := by
    rw [← List.pairwise_filterMap]
    exact rep.entries_clear
  -- a block of the system's allocator is apart from the arena, where the others are
  have hmixed : ∀ {h h' : Held} {b : Nat × Layout}, h ∈ p.held → h' ∈ p.held → h.block = some b →
      h'.source = .orthotope → h.Clear h' := by
    intro h h' b hh hh' hb hsource
    obtain ⟨hlo, hhi⟩ := (rep.books.ok h hh).within hb
    have hclear := (rep.books.block b (rep.books.mem_block hh hb)).clear
    obtain ⟨e, he, hptr, hsize⟩ := rep.entry_of_held hh' hsource
    obtain ⟨hbase, hend⟩ := rep.live_inArena he
    unfold Held.Clear
    unfold Orthotope.Clear at hclear ⊢
    omega
  refine (hblocks.and hentries).imp_of_mem fun {h h'} hh hh' hboth => ?_
  obtain ⟨hblocks, hentries⟩ := hboth
  cases hb : h.block with
  | some b =>
    cases hb' : h'.block with
    | some b' =>
      obtain ⟨hlo, hhi⟩ := (rep.books.ok h hh).within hb
      obtain ⟨hlo', hhi'⟩ := (rep.books.ok h' hh').within hb'
      have hclear := hblocks b hb b' hb'
      unfold Held.Clear
      unfold BlocksClear at hclear
      unfold Orthotope.Clear at hclear ⊢
      omega
    | none => exact hmixed hh hh' hb (Held.source_of_block hb')
  | none =>
    have hsource := Held.source_of_block hb
    cases hb' : h'.block with
    | some b' => exact (hmixed hh' hh hb' hsource).symm
    | none =>
      have hsource' := Held.source_of_block hb'
      exact hentries (h.ptr, h.layout.size) (Held.entry_of_source hsource)
        (h'.ptr, h'.layout.size) (Held.entry_of_source hsource')

/-- Where the byte of an allocation of the system's allocator is. -/
theorem byte_outside (rep : p.Rep setup s) (hh : h ∈ p.held) (hoffset : offset < h.layout.size)
    {b : Nat × Layout} (hb : h.block = some b) :
    b ∈ p.blocks ∧ b.1 ≤ h.ptr + offset ∧ h.ptr + offset < b.1 + b.2.size ∧
      ¬setup.InArenas (h.ptr + offset) := by
  have hmem := rep.books.mem_block hh hb
  obtain ⟨hlo, hhi⟩ := (rep.books.ok h hh).within hb
  have hclear := (rep.books.block b hmem).clear
  refine ⟨hmem, by omega, by omega, fun harena => ?_⟩
  obtain ⟨h1, h2⟩ := inArenas_iff.mp harena
  unfold Orthotope.Clear at hclear
  omega

/-! ### Steps -/

omit [DecidableEq κ] in
/-- A change of the memory that leaves the byte alone, if it is one of the system's allocator. -/
theorem stores_write (hstores : h.Stores offset value p.world) {m : Mem}
    (hbyte : ∀ b, h.block = some b → m.byte (h.ptr + offset) = p.world.mem.byte (h.ptr + offset)) :
    h.Stores offset value { p.world with mem := m } := by
  cases hb : h.block with
  | some b =>
    exact (Held.stores_byte hb).mpr
      ((hbyte b hb).trans ((Held.stores_byte hb).mp hstores))
  | none =>
    have hsource := Held.source_of_block hb
    obtain ⟨e, he⟩ := (Held.stores_entry hsource).mp hstores
    exact (Held.stores_entry hsource).mpr ⟨e, he⟩

/-- A step of the allocator that keeps the live allocation. -/
theorem stores_world (rep : p.Rep setup s) (hh : h ∈ p.held) (hoffset : offset < h.layout.size)
    (hstores : h.Stores offset value p.world) {action : Action Unit κ}
    {w' : World Unit κ FreeList Batch} (hstep : p.world.step setup.debug action = some w')
    (hlive : ∀ e ∈ p.world.live, e.ptr = h.ptr → e.written offset = some value →
      ∃ e' ∈ w'.live, e'.ptr = h.ptr ∧ e'.written offset = some value) :
    h.Stores offset value w' := by
  cases hb : h.block with
  | some b =>
    obtain ⟨s', -, -, hout⟩ := rep.backed.step hstep
    obtain ⟨-, -, -, hnot⟩ := rep.byte_outside hh hoffset hb
    exact (Held.stores_byte hb).mpr ((hout _ hnot).trans ((Held.stores_byte hb).mp hstores))
  | none =>
    have hsource := Held.source_of_block hb
    obtain ⟨e, he, hptr, hwritten⟩ := (Held.stores_entry hsource).mp hstores
    exact (Held.stores_entry hsource).mpr (hlive e he hptr hwritten)

/-- Neither an allocation nor a drain nor a step of a call takes anything from the clients. -/
theorem live_kept (rep : p.Rep setup s) {action : Action Unit κ} {w' : World Unit κ FreeList Batch}
    (hstep : p.world.step setup.debug action = some w')
    (hfree : ∀ k a i n, action ≠ .deallocate k a i n) (hstore : ∀ i o v, action ≠ .store i o v) :
    ∀ e ∈ p.world.live, e ∈ w'.live := by
  intro e he
  cases action with
  | allocate k a size =>
    have hcall : p.world.call k a (fun v => v.startAllocate a size) = some w' := hstep
    obtain ⟨-, rfl | ⟨cache, rfl⟩⟩ := World.call_cases hcall
    · exact he
    · rw [World.update_live, (View.startAllocate_same _ size).2.1]
      exact he
  | deallocate k a i n => exact absurd rfl (hfree k a i n)
  | drain k a =>
    have hcall : p.world.call k a (fun v => v.goto a (.flush SizeClass.all)) = some w' := hstep
    obtain ⟨-, rfl | ⟨cache, rfl⟩⟩ := World.call_cases hcall
    · exact he
    · exact he
  | run k advised =>
    obtain ⟨s', hs', backed, -⟩ := rep.backed.step hstep
    obtain ⟨a, pc, v, -, rfl, -, htrans⟩ := rep.backed.inv.run_cases hs'
    rw [backed.refines.live_eq]
    exact htrans.live_mono e (rep.backed.refines.live_eq ▸ he)
  | store i o v => exact absurd rfl (hstore i o v)
  | discard page =>
    simp only [World.step] at hstep
    split at hstep
    · obtain rfl := Option.some.inj hstep
      exact he
    · cases hstep

end Process.Rep

/-- A free takes back the allocation that it names. -/
theorem World.deallocate_live {κ : Type} [DecidableEq κ] {w w' : World Unit κ FreeList Batch}
    {debug : Bool} {k : κ} {i : Nat} {n : Option Nat} {e₀ : Live Unit κ}
    (he₀ : w.live[i]? = some e₀)
    (hstep : w.step debug (.deallocate k () i n) = some w') :
    ∀ e ∈ w.live, e ≠ e₀ → e ∈ w'.live := by
  intro e he hne
  have hcall : w.call k () (fun v => v.startFree debug () e₀ (v.live.eraseIdx i) n) = some w' := by
    rw [World.step, he₀] at hstep
    exact hstep
  have hrest : e ∈ w.live.eraseIdx i := by
    obtain ⟨pre, post, hlive, herase, -⟩ := IndexedVec.getElem?_split he₀
    rw [hlive] at he
    rw [herase]
    exact List.mem_append.mpr ((List.mem_append.mp he).imp_right fun h =>
      (List.mem_cons.mp h).resolve_left hne)
  obtain ⟨-, rfl | ⟨cache, rfl⟩⟩ := World.call_cases hcall
  · exact he
  · generalize hv : View.startFree debug () _ e₀ _ n = v
    rw [World.update_live]
    obtain ⟨-, ⟨-, hlive, -⟩ | ⟨-, hlive, -⟩ | ⟨-, hlive, -⟩⟩ := View.startFree_cases hv
    · rw [hlive]
      exact he
    · rw [hlive]
      exact hrest
    · rw [hlive]
      exact hrest

namespace Process.Rep

variable {κ : Type} [DecidableEq κ] {setup : Setup Unit κ} {p p' : Process κ}
  {s : World Unit κ Seq Seq} {k : κ} {h h' : Held} {offset offset' : Nat} {value : UInt8}

/-- Two allocations have no byte in common. -/
theorem addr_ne (rep : p.Rep setup s) (hh : h ∈ p.held) (hh' : h' ∈ p.held) (hne : h ≠ h')
    (hoffset : offset < h.layout.size) (hoffset' : offset' < h'.layout.size) :
    h.ptr + offset ≠ h'.ptr + offset' := by
  have hsymm : Std.Symm Held.Clear := ⟨fun _ _ hclear => hclear.symm⟩
  have hclear : h.Clear h' := rep.held_clear.forall hh hh' hne
  unfold Held.Clear Orthotope.Clear at hclear
  omega

/-- An allocation, of any backend. -/
theorem alloc_spares (rep : p.Rep setup s) (hh : h ∈ p.held) (hoffset : offset < h.layout.size)
    (hstores : h.Stores offset value p.world) {layout : Layout} {answer : Option Nat}
    (halloc : p.alloc setup.debug k layout answer = some p') :
    h ∈ p'.held ∧ h.Stores offset value p'.world := by
  have happend : ∀ new, h ∈ p.held ++ new := fun new => List.mem_append_left new hh
  unfold Process.alloc at halloc
  split at halloc
  · unfold Process.systemAlloc at halloc
    split at halloc
    · obtain rfl := Option.some.inj halloc
      exact ⟨hh, hstores⟩
    · split at halloc
      · obtain rfl := Option.some.inj halloc
        exact ⟨happend _, hstores⟩
      · cases halloc
  split at halloc
  · obtain ⟨w', hstep, hsettle⟩ := Option.bind_eq_some_iff.mp halloc
    obtain ⟨hworld, new, hheld⟩ := Process.settle_frame hsettle
    rw [hworld, hheld]
    exact ⟨happend new, rep.stores_world hh hoffset hstores hstep fun e he hptr hwritten =>
      ⟨e, rep.live_kept hstep nofun nofun e he, hptr, hwritten⟩⟩
  · unfold Process.fallbackAlloc at halloc
    split at halloc
    · obtain rfl := Option.some.inj halloc
      exact ⟨hh, hstores⟩
    rename_i rawLayout hlayout
    split at halloc
    · obtain rfl := Option.some.inj halloc
      exact ⟨hh, hstores⟩
    rename_i raw
    split at halloc
    · rename_i hhonours
      split at halloc
      · obtain rfl := Option.some.inj halloc
        exact ⟨hh, hstores⟩
      rename_i user huser
      obtain rfl := Option.some.inj halloc
      -- the prefix is written in the new raw block
      obtain ⟨hblock, hclear⟩ := rep.honours hhonours
      have hplaced := fallbackPlaced hlayout huser
      refine ⟨happend _, stores_write hstores fun b hb => ?_⟩
      obtain ⟨hmem, hlo, hhi, -⟩ := rep.byte_outside hh hoffset hb
      have hfront := hplaced.front
      refine (SystemFallbackPrefix.writesIn_write _ _ _).byte _ fun hin => ?_
      obtain ⟨h1, h2⟩ := hin
      obtain ⟨h3, h4⟩ := hplaced.prefix_mem (y := h.ptr + offset) (by omega) (by omega)
      have hnot := (hclear b hmem).not_both h3 h4 hlo
      omega
    · cases halloc

/-- A free of another pointer. -/
theorem dealloc_spares (rep : p.Rep setup s) (hh : h ∈ p.held) (hoffset : offset < h.layout.size)
    (hstores : h.Stores offset value p.world) {i : Nat} (hh' : p.held[i]? = some h') (hne : h ≠ h')
    {panicking : Bool}
    (hdealloc : { p with held := p.held.eraseIdx i }.dealloc setup.debug k h'.ptr h'.layout
      panicking = some p') : h ∈ p'.held ∧ h.Stores offset value p'.world := by
  have hrest : h ∈ p.held.eraseIdx i := by
    obtain ⟨pre, post, hheld, herase, -⟩ := IndexedVec.getElem?_split hh'
    rw [hheld] at hh
    rw [herase]
    exact List.mem_append.mpr ((List.mem_append.mp hh).imp_right fun h =>
      (List.mem_cons.mp h).resolve_left hne)
  have hmem' := List.mem_of_getElem? hh'
  cases hb : h'.block with
  | some b =>
    have heq := (rep.dealloc_block hh' hb setup.debug k panicking).1
    obtain rfl := Option.some.inj (heq.symm.trans hdealloc)
    exact ⟨hrest, hstores⟩
  | none =>
    have hsource := Held.source_of_block hb
    cases husable : (p.slots k).usable with
    | false =>
      have heq := rep.dealloc_unusable hh' hsource husable setup.debug panicking
      obtain rfl := Option.some.inj (heq.symm.trans hdealloc)
      cases panicking <;> exact ⟨hrest, hstores⟩
    | true =>
      obtain ⟨w', hfree, heq, -⟩ := rep.dealloc_usable hh' hsource husable panicking
      obtain rfl := Option.some.inj (heq.symm.trans hdealloc)
      refine ⟨hrest, ?_⟩
      obtain ⟨j, e₀, hfind, he₀, hptr₀, hsize₀⟩ :=
        rep.backed.inv.findIdx_live (rep.held_size hmem' hsource)
      rw [← rep.backed.refines.live_eq] at hfind he₀
      have hstep : p.world.step setup.debug (.deallocate k () j (some h'.layout.size)) =
          some w' := by
        simpa only [Process.free, hfind] using hfree
      refine rep.stores_world hh hoffset hstores hstep fun e he hptr hwritten => ?_
      refine ⟨e, World.deallocate_live he₀ hstep e he ?_, hptr, hwritten⟩
      rintro rfl
      have hpos' : 0 < h'.layout.size :=
        (selectBackend_eq_orthotope.mp ((rep.backend_of_source hmem').mp hsource).1).1
      exact rep.addr_ne hh hmem' hne (Nat.zero_lt_of_lt hoffset) hpos' (hptr.symm.trans hptr₀)

/-- A store to another byte. -/
theorem store_spares (rep : p.Rep setup s) (hh : h ∈ p.held) (hoffset : offset < h.layout.size)
    (hstores : h.Stores offset value p.world) (hh' : h' ∈ p.held)
    (hne : ¬(offset' = offset ∧ h' = h)) {value' : UInt8}
    (hstore : p.store setup.debug h' offset' value' = some p') :
    h ∈ p'.held ∧ h.Stores offset value p'.world := by
  unfold Process.store at hstore
  split at hstore
  · rename_i hoffset'
    have hbyte : h.ptr + offset ≠ h'.ptr + offset' := by
      by_cases heq : h = h'
      · subst heq
        intro haddr
        exact hne ⟨by omega, rfl⟩
      · exact rep.addr_ne hh hh' heq hoffset hoffset'
    have hwrite : ∀ b, h.block = some b →
        (p.world.mem.write (h'.ptr + offset') 1 value'.toNat).byte (h.ptr + offset) =
          p.world.mem.byte (h.ptr + offset) := fun _ _ => Mem.write_byte_outside (by omega)
    cases hsource : h'.source with
    | system =>
      rw [hsource] at hstore
      obtain rfl := Option.some.inj hstore
      exact ⟨hh, stores_write hstores hwrite⟩
    | fallback raw rawLayout =>
      rw [hsource] at hstore
      obtain rfl := Option.some.inj hstore
      exact ⟨hh, stores_write hstores hwrite⟩
    | orthotope =>
      rw [hsource] at hstore
      obtain ⟨j, hfind, hstep⟩ := Option.bind_eq_some_iff.mp hstore
      obtain ⟨w', hw', rfl⟩ := Option.map_eq_some_iff.mp hstep
      refine ⟨hh, rep.stores_world hh hoffset hstores hw' fun e he hptr hwritten => ?_⟩
      obtain ⟨hlt, hptr', -⟩ := List.findIdx?_eq_some_iff_getElem.mp hfind
      have hptr' : p.world.live[j].ptr = h'.ptr := by simpa using hptr'
      obtain ⟨e', he', hw'⟩ := Option.bind_eq_some_iff.mp hw'
      obtain rfl : p.world.live[j] = e' :=
        Option.some.inj ((List.getElem?_eq_getElem hlt).symm.trans he')
      split at hw'
      · obtain rfl := Option.some.inj hw'
        by_cases heq : e = p.world.live[j]
        · subst heq
          refine ⟨_, List.mem_set hlt _, hptr, ?_⟩
          show Function.update p.world.live[j].written offset' (some value') offset = some value
          rw [Function.update_of_ne (by omega)]
          exact hwritten
        · refine ⟨e, ?_, hptr, hwritten⟩
          obtain ⟨pre, post, hlive, -, hset⟩ := IndexedVec.getElem?_split he'
          rw [hlive] at he
          rw [hset]
          exact List.mem_append.mpr ((List.mem_append.mp he).imp_right fun h =>
            List.mem_cons_of_mem _ ((List.mem_cons.mp h).resolve_left heq))
      · cases hw'
  · cases hstore

/-- What the program has stored stays, whatever spares it. -/
theorem spares (rep : p.Rep setup s) (hh : h ∈ p.held) (hoffset : offset < h.layout.size)
    (hstores : h.Stores offset value p.world) (hspares : Process.Spares setup.debug h offset p p') :
    h ∈ p'.held ∧ h.Stores offset value p'.world := by
  obtain ⟨action, hnot, hstep⟩ := hspares
  unfold Process.step at hstep
  split at hstep
  · cases hstep
  cases action with
  | alloc k layout answer => exact rep.alloc_spares hh hoffset hstores hstep
  | dealloc k i panicking =>
    obtain ⟨h', hh', hdealloc⟩ := Option.bind_eq_some_iff.mp hstep
    refine rep.dealloc_spares hh hoffset hstores hh' ?_ hdealloc
    rintro rfl
    exact hnot hh'
  | run k advised =>
    obtain ⟨w', hw', hsettle⟩ := Option.bind_eq_some_iff.mp hstep
    obtain ⟨hworld, new, hheld⟩ := Process.settle_frame hsettle
    rw [hworld, hheld]
    exact ⟨List.mem_append_left new hh, rep.stores_world hh hoffset hstores hw'
      fun e he hptr hwritten => ⟨e, rep.live_kept hw' nofun nofun e he, hptr, hwritten⟩⟩
  | borrow k =>
    dsimp only at hstep
    split at hstep
    · obtain rfl := Option.some.inj hstep
      exact ⟨hh, hstores⟩
    · cases hstep
  | release k =>
    dsimp only at hstep
    split at hstep
    · obtain rfl := Option.some.inj hstep
      exact ⟨hh, hstores⟩
    · cases hstep
  | teardown k =>
    dsimp only at hstep
    split at hstep
    · obtain ⟨w', hw', rfl⟩ := Option.map_eq_some_iff.mp hstep
      exact ⟨hh, rep.stores_world hh hoffset hstores hw' fun e he hptr hwritten =>
        ⟨e, rep.live_kept hw' nofun nofun e he, hptr, hwritten⟩⟩
    · cases hstep
  | store i offset' value' =>
    obtain ⟨h', hh', hstore⟩ := Option.bind_eq_some_iff.mp hstep
    refine rep.store_spares hh hoffset hstores (List.mem_of_getElem? hh') ?_ hstore
    rintro ⟨rfl, rfl⟩
    exact hnot ⟨rfl, hh'⟩
  | scribble addr value' =>
    dsimp only at hstep
    split at hstep
    · rename_i hclear
      obtain rfl := Option.some.inj hstep
      refine ⟨hh, stores_write hstores fun b hb => Mem.write_byte_outside ?_⟩
      obtain ⟨hmem, hlo, hhi, -⟩ := rep.byte_outside hh hoffset hb
      have hblock := hclear.2 b hmem
      unfold Orthotope.Clear at hblock
      omega
    · cases hstep
  | discard page =>
    obtain ⟨w', hw', rfl⟩ := Option.map_eq_some_iff.mp hstep
    exact ⟨hh, rep.stores_world hh hoffset hstores hw' fun e he hptr hwritten =>
      ⟨e, rep.live_kept hw' nofun nofun e he, hptr, hwritten⟩⟩

/-- What a store leaves. -/
theorem stores_of_store (hstore : p.store setup.debug h offset value = some p') :
    p'.held = p.held ∧ offset < h.layout.size ∧ h.Stores offset value p'.world := by
  unfold Process.store at hstore
  split at hstore
  · rename_i hoffset
    have hbyte : ∀ m : Mem, (m.write (h.ptr + offset) 1 value.toNat).byte (h.ptr + offset) =
        value := fun m => (Mem.write_byte_inside (i := 0) Nat.zero_lt_one).trans (by simp)
    unfold Held.Stores
    cases hsource : h.source with
    | system =>
      rw [hsource] at hstore
      obtain rfl := Option.some.inj hstore
      exact ⟨rfl, hoffset, hbyte _⟩
    | fallback raw rawLayout =>
      rw [hsource] at hstore
      obtain rfl := Option.some.inj hstore
      exact ⟨rfl, hoffset, hbyte _⟩
    | orthotope =>
      rw [hsource] at hstore
      obtain ⟨j, hfind, hstep⟩ := Option.bind_eq_some_iff.mp hstore
      obtain ⟨w', hw', rfl⟩ := Option.map_eq_some_iff.mp hstep
      obtain ⟨hlt, hptr, -⟩ := List.findIdx?_eq_some_iff_getElem.mp hfind
      obtain ⟨e, he, hw'⟩ := Option.bind_eq_some_iff.mp hw'
      obtain rfl : p.world.live[j] = e :=
        Option.some.inj ((List.getElem?_eq_getElem hlt).symm.trans he)
      split at hw'
      · obtain rfl := Option.some.inj hw'
        exact ⟨rfl, hoffset, _, List.mem_set hlt _, by simpa using hptr,
          Function.update_self ..⟩
      · cases hw'
  · cases hstore

/-- The byte of an allocation in memory is what is stored there. -/
theorem byte_of_stores (rep : p.Rep setup s) (hstores : h.Stores offset value p.world) :
    p.world.mem.byte (h.ptr + offset) = value := by
  cases hb : h.block with
  | some b => exact (Held.stores_byte hb).mp hstores
  | none =>
    obtain ⟨e, he, hptr, hwritten⟩ := (Held.stores_entry (Held.source_of_block hb)).mp hstores
    rw [← hptr]
    exact rep.backed.refines.written rep.backed.inv (rep.backed.refines.live_eq ▸ he) hwritten

/-- Every allocation is where its layout asks for it. -/
theorem held_placed (rep : p.Rep setup s) (hh : h ∈ p.held) :
    h.ptr ≠ 0 ∧ h.ptr % h.layout.align = 0 ∧ h.ptr + h.layout.size ≤ usizeLimit := by
  obtain ⟨hne, haligned, -⟩ := rep.placed hh
  refine ⟨hne, haligned, ?_⟩
  cases hb : h.block with
  | some b =>
    have hle := (rep.books.block b (rep.books.mem_block hh hb)).le
    have hhi := ((rep.books.ok h hh).within hb).2
    omega
  | none =>
    obtain ⟨e, he, hptr, hsize⟩ := rep.entry_of_held hh (Held.source_of_block hb)
    have hend := (rep.live_inArena he).2
    have hle : (setup.arena ()).base + (setup.arena ()).len ≤ usizeLimit := setup.arena_end_le ()
    omega

end Process.Rep

/-! ### Runs -/

section Runs

variable {κ : Type} [DecidableEq κ] {setup : Setup Unit κ} {p p₁ p' : Process κ}
  {ok : Process κ → ProcessAction κ → Prop} {h : Held} {offset : Nat} {value : UInt8}

theorem Process.Rep.spares_run {s : World Unit κ Seq Seq} (rep : p.Rep setup s) (hh : h ∈ p.held)
    (hoffset : offset < h.layout.size) (hstores : h.Stores offset value p.world)
    (hrun : Relation.ReflTransGen (Process.Spares setup.debug h offset) p p') :
    ∃ s', p'.Rep setup s' ∧ h ∈ p'.held ∧ h.Stores offset value p'.world := by
  induction hrun with
  | refl => exact ⟨s, rep, hh, hstores⟩
  | tail _ hspares ih =>
    obtain ⟨s₁, rep₁, hh₁, hstores₁⟩ := ih
    obtain ⟨action, -, hstep⟩ := id hspares
    obtain ⟨s', rep'⟩ := (rep₁.step hstep).1
    exact ⟨s', rep', rep₁.spares hh₁ hoffset hstores₁ hspares⟩

theorem Process.spares_of_runs {debug : Bool} {actions : List (ProcessAction κ)}
    (hspares : ∀ action ∈ actions, ∀ p : Process κ, ¬p.Disturbs h offset action)
    (hruns : p.runs debug actions = some p') :
    Relation.ReflTransGen (Process.Spares debug h offset) p p' := by
  induction actions generalizing p with
  | nil =>
    obtain rfl := Option.some.inj hruns
    exact .refl
  | cons action actions ih =>
    obtain ⟨p₁, hstep, hrest⟩ := Option.bind_eq_some_iff.mp hruns
    exact .head ⟨action, hspares action List.mem_cons_self p, hstep⟩
      (ih (fun action' hmem => hspares action' (List.mem_cons_of_mem action hmem)) hrest)

/-- In every run of a process its allocations share no address, and each is at an address that is
not null, aligned as asked and with room for it.  A byte stored in one is there after every run that
neither frees the allocation nor stores to this byte again. -/
theorem Setup.Reaches.memory_contract (hp : setup.Reaches ok p) :
    p.held.Pairwise Held.Clear ∧
    (∀ h ∈ p.held, h.ptr ≠ 0 ∧ h.ptr % h.layout.align = 0 ∧
      h.ptr + h.layout.size ≤ usizeLimit) ∧
    ∀ i h offset value p₁ p', p.held[i]? = some h →
      p.step setup.debug (.store i offset value) = some p₁ →
        Relation.ReflTransGen (Process.Spares setup.debug h offset) p₁ p' →
          h ∈ p'.held ∧ p'.world.mem.byte (h.ptr + offset) = value := by
  obtain ⟨s, rep⟩ := hp.rep
  refine ⟨rep.held_clear, fun h hh => rep.held_placed hh,
    fun i h offset value p₁ p' hh hstep hrun => ?_⟩
  obtain ⟨s₁, rep₁⟩ := (rep.step hstep).1
  have hstore : p.store setup.debug h offset value = some p₁ := by
    unfold Process.step at hstep
    split at hstep
    · cases hstep
    · simpa only [hh, Option.bind_some] using hstep
  obtain ⟨hheld, hoffset, hstores⟩ := Process.Rep.stores_of_store hstore
  have hh₁ : h ∈ p₁.held := hheld ▸ List.mem_of_getElem? hh
  obtain ⟨s', rep', hh', hstores'⟩ := rep₁.spares_run hh₁ hoffset hstores hrun
  exact ⟨hh', rep'.byte_of_stores hstores'⟩

end Runs

/-- Thread 0 ends, which drains its cache, and thread 1 allocates. -/
def sampleLater : List (ProcessAction (Fin 2)) :=
  .teardown 0 :: List.replicate 4 (.run 0 (true, true)) ++
    [.alloc 1 sampleLayout none, .run 1 (true, true), .scribble 16 255]

theorem memory_contract_sample : ∃ h p₁ p', sampleProcess.held[0]? = some h ∧
    sampleProcess.step true (.store 0 3 42) = some p₁ ∧ p₁.runs true sampleLater = some p' ∧
      p'.slots 0 = .destroyed ∧ h ∈ p'.held ∧ p'.world.mem.byte (h.ptr + 3) = 42 := by
  have hreach : sampleSetup.Reaches (fun _ _ => True) sampleProcess :=
    sampleProcess_reached fun _ _ _ => trivial
  obtain ⟨h, hh⟩ : ∃ h, sampleProcess.held[0]? = some h := ⟨_, by rfl⟩
  have hstore : (sampleProcess.step true (.store 0 3 42)).isSome := by decide +kernel
  obtain ⟨p₁, hp₁⟩ := Option.isSome_iff_exists.mp hstore
  have hlater : (((sampleProcess.step true (.store 0 3 42)).bind fun p =>
      p.runs true sampleLater).map fun p => p.slots 0) = some .destroyed := by decide +kernel
  rw [hp₁] at hlater
  obtain ⟨p', hp', hslot⟩ := Option.map_eq_some_iff.mp hlater
  have hspares : Relation.ReflTransGen (Process.Spares true h 3) p₁ p' := by
    refine Process.spares_of_runs (fun action haction p => ?_) hp'
    simp only [sampleLater, List.cons_append, List.mem_cons, List.mem_append, List.mem_replicate,
      List.not_mem_nil, or_false] at haction
    rcases haction with rfl | ⟨-, rfl⟩ | rfl | rfl | rfl
    all_goals exact id
  exact ⟨h, p₁, p', hh, hp₁, hp', hslot, hreach.memory_contract.2.2 0 h 3 42 p₁ p' hh hp₁ hspares⟩

end Orthotope
