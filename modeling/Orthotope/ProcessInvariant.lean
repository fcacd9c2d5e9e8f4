import Orthotope.GlobalAlloc
import Orthotope.Refresh

/-! The invariant of a process that allocates through the shim.  The blocks of the system's
allocator that are handed out are apart from the arena and from each other, and are what the
pointers of the program stand for; the other pointers are live allocations of the allocator; and the
slot of a thread says what its allocator call is doing. -/

namespace Orthotope

open ByteMemory Ownership

/-! ### The books of the system's allocator -/

/-- The block of the system's allocator behind a pointer. -/
def Held.block (h : Held) : Option (Nat × Layout) :=
  match h.source with
  | .system => some (h.ptr, h.layout)
  | .fallback raw rawLayout => some (raw, rawLayout)
  | .orthotope => none

/-- The pointer and size of an allocation of the allocator. -/
def Held.entry (h : Held) : Option (Nat × Nat) :=
  match h.source with
  | .orthotope => some (h.ptr, h.layout.size)
  | _ => none

/-- A pointer is what its source makes it, and `fallback_raw_ptr` sees a fallback one as such. -/
inductive Held.Ok (m : Mem) : Held → Prop
  | system {ptr : Nat} {layout : Layout} {born : Slot} (hbackend : selectBackend layout = .system) :
      Ok m ⟨ptr, layout, .system, born⟩
  | fallback {ptr raw : Nat} {layout rawLayout : Layout} {born : Slot}
      (hbackend : selectBackend layout = .orthotope)
      (hlayout : tryFallbackLayout layout = some rawLayout)
      (hplaced : FallbackPlaced layout rawLayout raw ptr)
      (hraw : fallbackRawPtr m ptr = some raw) (hborn : born.usable = false) :
      Ok m ⟨ptr, layout, .fallback raw rawLayout, born⟩
  | orthotope {ptr : Nat} {layout : Layout} {born : Slot}
      (hbackend : selectBackend layout = .orthotope) (hborn : born.usable = true) :
      Ok m ⟨ptr, layout, .orthotope, born⟩

/-- A block as the system's allocator may hand it out. -/
structure BlockOk (base len : Nat) (block : Nat × Layout) : Prop where
  ne_zero : block.1 ≠ 0
  aligned : block.1 % block.2.align = 0
  le : block.1 + block.2.size ≤ usizeLimit
  clear : Clear block.1 block.2.size base len

/-- Two blocks share no address. -/
def BlocksClear (b b' : Nat × Layout) : Prop := Clear b.1 b.2.size b'.1 b'.2.size

theorem BlocksClear.symm {b b' : Nat × Layout} (h : BlocksClear b b') : BlocksClear b' b := by
  unfold BlocksClear Clear at h ⊢
  omega

theorem BlocksClear.not_both {b b' : Nat × Layout} (h : BlocksClear b b') {y : Nat}
    (hlo : b.1 ≤ y) (hhi : y < b.1 + b.2.size) (hlo' : b'.1 ≤ y) : b'.1 + b'.2.size ≤ y := by
  unfold BlocksClear Clear at h
  omega

/-- What is handed out is apart from the arena and from each other, and is what the pointers of the
program stand for. -/
structure Books (base len : Nat) (m : Mem) (blocks : List (Nat × Layout)) (held : List Held) :
    Prop where
  block : ∀ b ∈ blocks, BlockOk base len b
  apart : blocks.Pairwise BlocksClear
  owned : (held.filterMap Held.block).Perm blocks
  ok : ∀ h ∈ held, h.Ok m

section Books

variable {base len : Nat} {m m' : Mem} {blocks : List (Nat × Layout)} {held : List Held}

theorem Books.mem_block (books : Books base len m blocks held) {h : Held} (hh : h ∈ held)
    {b : Nat × Layout} (hb : h.block = some b) : b ∈ blocks :=
  books.owned.mem_iff.mp (List.mem_filterMap.mpr ⟨h, hh, hb⟩)

/-- The blocks of different pointers are apart. -/
theorem Books.clear (books : Books base len m blocks held) {h h' : Held} (hh : h ∈ held)
    (hh' : h' ∈ held) (hne : h ≠ h') {b b' : Nat × Layout} (hb : h.block = some b)
    (hb' : h'.block = some b') : BlocksClear b b' := by
  have hpw : (held.filterMap Held.block).Pairwise BlocksClear :=
    books.owned.symm.pairwise books.apart fun h => h.symm
  rw [List.pairwise_filterMap] at hpw
  have hsymm : Std.Symm fun x y : Held =>
      ∀ b, x.block = some b → ∀ b', y.block = some b' → BlocksClear b b' :=
    ⟨fun x y hxy b hb b' hb' => (hxy b' hb' b hb).symm⟩
  exact hpw.forall hh hh' hne b hb b' hb'

/-- The bytes in front of a fallback pointer are in its block. -/
theorem FallbackPlaced.prefix_mem {layout rawLayout : Layout} {raw ptr y : Nat}
    (h : FallbackPlaced layout rawLayout raw ptr) (hy : y < ptr)
    (hy' : ptr ≤ y + SystemFallbackPrefix.sizeOf) : raw ≤ y ∧ y < raw + rawLayout.size := by
  obtain ⟨h1, h2, -⟩ := h
  omega

/-- The allocation of a pointer lies in its block. -/
theorem Held.Ok.within {m : Mem} {h : Held} (ok : h.Ok m) {b : Nat × Layout}
    (hb : h.block = some b) : b.1 ≤ h.ptr ∧ h.ptr + h.layout.size ≤ b.1 + b.2.size := by
  cases ok with
  | system hbackend =>
    obtain rfl := Option.some.inj hb
    exact ⟨le_rfl, le_rfl⟩
  | fallback hbackend hlayout hplaced hraw hborn =>
    obtain rfl := Option.some.inj hb
    exact ⟨(Nat.le_add_right _ _).trans hplaced.front, hplaced.back⟩
  | orthotope => cases hb

/-- Changes that leave the blocks handed out alone. -/
theorem Held.Ok.congr {h : Held} (ok : h.Ok m)
    (hsame : ∀ b, h.block = some b → ∀ y, b.1 ≤ y → y < b.1 + b.2.size → y < h.ptr →
      m'.byte y = m.byte y) : h.Ok m' := by
  cases ok with
  | system hbackend => exact .system hbackend
  | fallback hbackend hlayout hplaced hraw hborn =>
    refine .fallback hbackend hlayout hplaced ?_ hborn
    rw [← hraw]
    refine fallbackRawPtr_congr fun y h1 h2 => ?_
    obtain ⟨hlo, hhi⟩ := hplaced.prefix_mem h1 h2
    exact hsame _ rfl y hlo hhi h1
  | orthotope hbackend hborn => exact .orthotope hbackend hborn

theorem Books.congr (books : Books base len m blocks held)
    (hsame : ∀ h ∈ held, ∀ b, h.block = some b → ∀ y, b.1 ≤ y → y < b.1 + b.2.size → y < h.ptr →
      m'.byte y = m.byte y) : Books base len m' blocks held :=
  ⟨books.block, books.apart, books.owned, fun h hh => (books.ok h hh).congr (hsame h hh)⟩

/-- A change to the arena only. -/
theorem Books.of_outside (books : Books base len m blocks held)
    (hsame : ∀ y, ¬(base ≤ y ∧ y < base + len) → m'.byte y = m.byte y) :
    Books base len m' blocks held := by
  refine books.congr fun h hh b hb y hlo hhi _ => hsame y ?_
  have hclear := (books.block b (books.mem_block hh hb)).clear
  unfold Clear at hclear
  omega

/-- A pointer of the system's allocator is handed out. -/
theorem Books.add (books : Books base len m blocks held) {b : Nat × Layout} {h : Held}
    (hblock : BlockOk base len b) (hclear : ∀ b' ∈ blocks, BlocksClear b b')
    (hb : h.block = some b) (ok : h.Ok m) : Books base len m (b :: blocks) (held ++ [h]) where
  block := by
    intro b' hb'
    rcases List.mem_cons.mp hb' with rfl | hb'
    · exact hblock
    · exact books.block b' hb'
  apart := List.pairwise_cons.mpr ⟨hclear, books.apart⟩
  owned := by
    rw [List.filterMap_append, List.filterMap_cons_some hb, List.filterMap_nil]
    exact (List.perm_append_singleton b _).trans (books.owned.cons b)
  ok := by
    intro h' hh'
    rcases List.mem_append.mp hh' with hh' | hh'
    · exact books.ok h' hh'
    · rwa [List.mem_singleton.mp hh']

/-- A pointer of the allocator is handed out. -/
theorem Books.addOrthotope (books : Books base len m blocks held) {h : Held}
    (hb : h.block = none) (ok : h.Ok m) : Books base len m blocks (held ++ [h]) where
  block := books.block
  apart := books.apart
  owned := by
    rw [List.filterMap_append, List.filterMap_cons_none hb, List.filterMap_nil, List.append_nil]
    exact books.owned
  ok := by
    intro h' hh'
    rcases List.mem_append.mp hh' with hh' | hh'
    · exact books.ok h' hh'
    · rwa [List.mem_singleton.mp hh']

/-- A pointer of the system's allocator is taken back. -/
theorem Books.release (books : Books base len m blocks held) {i : Nat} {h : Held}
    (hh : held[i]? = some h) {b : Nat × Layout} (hb : h.block = some b) :
    b ∈ blocks ∧ Books base len m (blocks.erase b) (held.eraseIdx i) := by
  have hmem : b ∈ blocks := books.mem_block (List.mem_of_getElem? hh) hb
  obtain ⟨pre, post, hheld, hrest, -⟩ := IndexedVec.getElem?_split hh
  refine ⟨hmem, fun b' hb' => books.block b' (List.mem_of_mem_erase hb'),
    books.apart.sublist List.erase_sublist, ?_, fun h' hh' => books.ok h' ?_⟩
  · have howned := books.owned
    rw [hheld, List.filterMap_append, List.filterMap_cons_some hb] at howned
    rw [hrest, List.filterMap_append]
    exact ((List.perm_middle.symm.trans howned).trans (List.perm_cons_erase hmem)).cons_inv
  · exact List.mem_of_mem_eraseIdx hh'

/-- A pointer of the allocator is taken back. -/
theorem Books.releaseOrthotope (books : Books base len m blocks held) {i : Nat} {h : Held}
    (hh : held[i]? = some h) (hb : h.block = none) :
    Books base len m blocks (held.eraseIdx i) := by
  obtain ⟨pre, post, hheld, hrest, -⟩ := IndexedVec.getElem?_split hh
  refine ⟨books.block, books.apart, ?_, fun h' hh' => books.ok h' (List.mem_of_mem_eraseIdx hh')⟩
  have howned := books.owned
  rw [hheld, List.filterMap_append, List.filterMap_cons_none hb, ← List.filterMap_append] at howned
  rwa [hrest]

end Books

/-! ### Calls of the one allocator -/

/-- What the slot of a thread says about its allocator call. -/
def SlotOk {κ : Type} : Slot → Thread Unit κ Seq → Prop
  | .borrowed (.allocating layout), thread =>
    selectBackend layout = .orthotope ∧ ∃ pc, thread = .busy () pc ∧ pc.request = some layout.size
  | .borrowed (.freeing _), thread => ∃ pc, thread = .busy () pc ∧ pc.Frees ()
  | .destroyed, _ => True
  | _, thread => ∃ last, thread = .idle last

/-- The pointers and sizes of what is live. -/
def World.sizes {ι κ L B : Type} (w : World ι κ L B) : Multiset (Nat × Nat) :=
  (w.live.map fun e => (e.ptr, e.size) : List (Nat × Nat))

/-- Those of the allocator's pointers that the program has. -/
def heldSizes (held : List Held) : Multiset (Nat × Nat) :=
  (held.filterMap Held.entry : List (Nat × Nat))

section Calls

variable {ι κ : Type} {setup : Setup ι κ} {s s' : World ι κ Seq Seq} {a : ι} {k : κ}
  {pc : Pc ι κ Seq} {v : View ι κ Seq Seq}

/-- How a step of an allocation goes on, or ends. -/
theorem Transition.request_cases {debug : Bool} (htrans : Transition debug s a k pc v) {size : Nat}
    (hrequest : pc.request = some size) :
    (∃ pc', v.thread = .busy a pc' ∧ pc'.request = some size ∧ v.live = s.live) ∨
      (∃ e, v.thread = .idle (some (.allocError e)) ∧ v.live = s.live) ∨
        ∃ ptr, v.thread = .idle (some (.allocated ptr)) ∧
          v.live = s.live ++ [⟨a, k, ptr, size, fun _ => none⟩] := by
  cases htrans with
  | @refill c size' m central r h =>
    refine Or.inl ⟨_, rfl, ?_, rfl⟩
    cases r <;> exact hrequest
  | takeSlab hpc =>
    refine Or.inl ⟨_, rfl, ?_, rfl⟩
    rcases hpc with rfl | rfl <;> exact hrequest
  | @give c size' block reuse =>
    obtain rfl := Option.some.inj hrequest
    exact Or.inr (Or.inr ⟨_, rfl, rfl⟩)
  | @record size' start blockSize large inv hlive hfree =>
    obtain rfl := Option.some.inj hrequest
    exact Or.inr (Or.inr ⟨_, rfl, rfl⟩)
  | carveFail => exact Or.inr (Or.inl ⟨_, rfl, rfl⟩)
  | largeFail => exact Or.inr (Or.inl ⟨_, rfl, rfl⟩)
  | report => exact Or.inr (Or.inl ⟨_, rfl, rfl⟩)
  | _ => first | exact Or.inl ⟨_, rfl, hrequest, rfl⟩ | cases hrequest

variable [DecidableEq ι] [DecidableEq κ]

/-- A step of a call takes nothing from the clients. -/
theorem Transition.sizes_le {debug : Bool} (htrans : Transition debug s a k pc v) :
    s.sizes ≤ (s.update a k v).sizes := by
  have happend : ∀ {e : Live ι κ}, v.live = s.live ++ [e] → s.sizes ≤ (s.update a k v).sizes := by
    intro e he
    simp only [World.sizes, World.update_live, he, List.map_append, ← Multiset.coe_add]
    exact Multiset.le_add_right _ _
  have hkept : v.live = s.live → s.sizes ≤ (s.update a k v).sizes := by
    intro he
    simp only [World.sizes, World.update_live, he]
    exact le_rfl
  cases htrans with
  | give => exact happend rfl
  | record => exact happend rfl
  | refuse => exact happend rfl
  | unstageNone => exact hkept (View.resume_live ..)
  | publish => exact hkept (View.resume_live ..)
  | returnBatch => exact hkept (View.resume_live ..)
  | _ => exact hkept rfl

end Calls

section Starts

variable {κ : Type} {setup : Setup Unit κ} {s s' : World Unit κ Seq Seq} {k : κ}
  {pc : Pc Unit κ Seq} {v : View Unit κ Seq Seq}

/-- How a step of a free goes on, or ends. -/
theorem Transition.frees_cases (inv : Inv setup s) (ht : s.threads k = .busy () pc)
    (htrans : Transition setup.debug s () k pc v) (hfrees : pc.Frees ()) :
    ((∃ pc', v.thread = .busy () pc' ∧ pc'.Frees ()) ∨ v.thread = .idle (some .freed)) ∧
      v.live = s.live := by
  refine ⟨?_, htrans.live_of_frees hfrees⟩
  have hthread : v.thread.Frees := frees_kept setup k inv ht hfrees htrans
  cases hv : v.thread with
  | idle last =>
    rw [hv] at hthread
    exact Or.inr (congrArg Thread.idle hthread)
  | busy b pc' =>
    rw [hv] at hthread
    exact Or.inl ⟨pc', rfl, hthread⟩

/-- With one allocator no binding is refused. -/
theorem Parts.bindable (parts : Parts setup s) (k : κ) :
    ∃ cache, (s.caches k).bindToAllocator () (s.allocators ()).config = some cache := by
  apply ThreadCache.bindToAllocator_isSome
  cases howner : (s.caches k).owner with
  | some a => exact Or.inl rfl
  | none => exact Or.inr ((parts.isEmpty_iff k).mpr ((parts.cache k).unbound howner))

variable [DecidableEq κ]

/-- An allocation on an idle thread starts, or is answered with an error. -/
theorem Parts.startAllocate (parts : Parts setup s) {last : Option Outcome}
    (ht : s.threads k = .idle last) (size : Nat) :
    ∃ v, s.step setup.debug (.allocate k () size) = some (s.update () k v) ∧ v.live = s.live ∧
      ((∃ pc, v.thread = .busy () pc ∧ pc.request = some size) ∨
        ∃ e, v.thread = .idle (some (.allocError e))) := by
  obtain ⟨cache, hbind⟩ := parts.bindable k
  have hstep : s.step setup.debug (.allocate k () size) =
      some (s.update () k (((s.view () k).setCache cache).startAllocate () size)) :=
    World.call_eq ht hbind fun v => v.startAllocate () size
  refine ⟨_, hstep, (View.startAllocate_same _ size).2.1, ?_⟩
  rcases ((s.view () k).setCache cache).startAllocate_cases () size with h | ⟨pc, h, hpc⟩
  · rw [h]
    exact Or.inr ⟨_, rfl⟩
  · rw [h]
    refine Or.inl ⟨pc, rfl, ?_⟩
    rcases hpc with ⟨c, rfl⟩ | ⟨c, rfl⟩ | ⟨blockSize, rfl⟩ | rfl <;> rfl

/-- A drain on an idle thread starts. -/
theorem Parts.startDrain (parts : Parts setup s) {last : Option Outcome}
    (ht : s.threads k = .idle last) :
    ∃ v, s.step setup.debug (.drain k ()) = some (s.update () k v) ∧ v.live = s.live := by
  obtain ⟨cache, hbind⟩ := parts.bindable k
  have hstep : s.step setup.debug (.drain k ()) =
      some (s.update () k (((s.view () k).setCache cache).goto () (.flush SizeClass.all))) :=
    World.call_eq ht hbind fun v => v.goto () (.flush SizeClass.all)
  exact ⟨_, hstep, rfl⟩

/-- A free of a live allocation with its size, on an idle thread, passes its checks. -/
theorem Inv.startFreeOf (inv : Inv setup s) {last : Option Outcome} (ht : s.threads k = .idle last)
    {i : Nat} {e : Live Unit κ} (he : s.live[i]? = some e) :
    ∃ v, s.step setup.debug (.deallocate k () i (some e.size)) = some (s.update () k v) ∧
      v.live = s.live.eraseIdx i ∧ ∃ pc, v.thread = .busy () pc ∧ pc.Frees () := by
  obtain ⟨cache, hbind⟩ := inv.parts.bindable k
  obtain ⟨v, hv⟩ : ∃ v, View.startFree setup.debug () ((s.view () k).setCache cache) e
    (s.live.eraseIdx i) (some e.size) = v := ⟨_, rfl⟩
  have hfrees : v.thread.Frees := hv ▸ inv.startFree_frees he (Or.inr rfl) setup.debug cache
  refine ⟨v, ?_, ?_⟩
  · rw [← hv]
    simp only [World.step, he, Option.bind_some, World.call_eq ht hbind]
    rfl
  · obtain ⟨-, ⟨-, -, e', hthread⟩ | ⟨-, hlive, c, owner, hthread⟩ |
      ⟨-, hlive, requested, usable, hthread⟩⟩ := View.startFree_cases hv
    · rw [hthread] at hfrees
      cases hfrees
    · rw [hthread] at hfrees
      exact ⟨hlive, _, hthread, hfrees⟩
    · rw [hthread] at hfrees
      exact ⟨hlive, _, hthread, hfrees⟩

/-- Live allocations have different pointers. -/
theorem Inv.live_eq_of_ptr (inv : Inv setup s) {e e' : Live Unit κ} (he : e ∈ s.live)
    (he' : e' ∈ s.live) (hptr : e.ptr = e'.ptr) : e = e' := by
  by_contra hne
  have hsymm : Std.Symm (@Live.Apart Unit κ) := ⟨fun _ _ h => Or.symm h⟩
  have hapart : Live.Apart e e' := inv.live_apart.forall he he' hne
  have h1 := (inv.memory.entry none e he).size_pos
  have h2 := (inv.memory.entry none e' he').size_pos
  unfold Live.Apart blockStartFromUserPtr at hapart
  omega

/-- The pointer of a live allocation is found among the live ones, with its size. -/
theorem Inv.findIdx_live (inv : Inv setup s) {ptr size : Nat} (h : (ptr, size) ∈ s.sizes) :
    ∃ i e, (s.live.findIdx? fun e => e.ptr = ptr) = some i ∧ s.live[i]? = some e ∧
      e.ptr = ptr ∧ e.size = size := by
  obtain ⟨e, he, heq⟩ := List.mem_map.mp (Multiset.mem_coe.mp h)
  obtain ⟨hptr, hsize⟩ := Prod.mk.inj heq
  cases hi : s.live.findIdx? fun e => e.ptr = ptr with
  | none =>
    have hnot := List.findIdx?_eq_none_iff.mp hi e he
    simp [hptr] at hnot
  | some i =>
    obtain ⟨hlt, hfound, -⟩ := List.findIdx?_eq_some_iff_getElem.mp hi
    have hfound : s.live[i].ptr = ptr := by simpa using hfound
    have heq : s.live[i] = e :=
      inv.live_eq_of_ptr (List.getElem_mem hlt) he (hfound.trans hptr.symm)
    exact ⟨i, e, rfl, heq ▸ List.getElem?_eq_getElem hlt, hptr, hsize⟩

omit [DecidableEq κ] in
/-- Taking an allocation back takes its pointer and size. -/
theorem sizes_erase {i : Nat} {e : Live Unit κ} (he : s.live[i]? = some e)
    (hlive : s'.live = s.live.eraseIdx i) : s.sizes = (e.ptr, e.size) ::ₘ s'.sizes := by
  obtain ⟨pre, post, hpre, hpost, -⟩ := IndexedVec.getElem?_split he
  have hpost' : s'.live = pre ++ post := hlive.trans hpost
  simp only [World.sizes, hpre, hpost', List.map_append, List.map_cons]
  exact Multiset.coe_eq_coe.mpr List.perm_middle

omit [DecidableEq κ] in
/-- Storing to an allocation leaves its pointer and size. -/
theorem sizes_set {i : Nat} {e e' : Live Unit κ} (he : s.live[i]? = some e)
    (hlive : s'.live = s.live.set i e') (hptr : e'.ptr = e.ptr) (hsize : e'.size = e.size) :
    s'.sizes = s.sizes := by
  obtain ⟨pre, post, hpre, -, hset⟩ := IndexedVec.getElem?_split he
  have hpost : s'.live = pre ++ e' :: post := hlive.trans (hset e')
  simp only [World.sizes, hpre, hpost, List.map_append, List.map_cons, hptr, hsize]

end Starts

/-! ### The invariant -/

/-- `s` is the state over sequences behind the allocator of the process. -/
structure Process.Rep {κ : Type} [DecidableEq κ] (setup : Setup Unit κ) (p : Process κ)
    (s : World Unit κ Seq Seq) : Prop where
  backed : p.world.Backed setup s
  slot : ∀ k, SlotOk (p.slots k) (s.threads k)
  books : Books (setup.arena ()).base (setup.arena ()).len p.world.mem p.blocks p.held
  live : heldSizes p.held ≤ s.sizes

/-- The free of a pointer of the allocator on a thread whose slot is not usable aborts, unless the
thread is panicking. -/
def Process.Aborts {κ : Type} (p : Process κ) : ProcessAction κ → Prop
  | .dealloc k i panicking => panicking = false ∧ (p.slots k).usable = false ∧
      ∃ h, p.held[i]? = some h ∧ selectBackend h.layout = .orthotope ∧ h.born.usable = true
  | _ => False

section Entries

variable {held : List Held} {h : Held}

theorem entries_append :
    heldSizes (held ++ [h]) = heldSizes held + (h.entry.toList : Multiset (Nat × Nat)) := by
  unfold heldSizes
  rw [List.filterMap_append, ← Multiset.coe_add]
  cases hentry : h.entry with
  | none => simp [hentry]
  | some e => simp [hentry]

theorem entries_erase {i : Nat} (hh : held[i]? = some h) :
    heldSizes held = (h.entry.toList : Multiset (Nat × Nat)) + heldSizes (held.eraseIdx i) := by
  unfold heldSizes
  obtain ⟨pre, post, hheld, hrest, -⟩ := IndexedVec.getElem?_split hh
  rw [hrest, hheld, List.filterMap_append, List.filterMap_append]
  cases hentry : h.entry with
  | none => simp [List.filterMap_cons_none hentry]
  | some e =>
    rw [List.filterMap_cons_some hentry]
    exact Multiset.coe_eq_coe.mpr List.perm_middle

end Entries

theorem inArenas_iff {κ : Type} {setup : Setup Unit κ} {y : Nat} : setup.InArenas y ↔
    (setup.arena ()).base ≤ y ∧ y < (setup.arena ()).base + (setup.arena ()).len := by
  constructor
  · rintro ⟨a, h⟩
    exact h
  · intro h
    exact ⟨(), h⟩

namespace Process.Rep

variable {κ : Type} [DecidableEq κ] {setup : Setup Unit κ} {p p' : Process κ}
  {s : World Unit κ Seq Seq} {k : κ}

theorem initial (setup : Setup Unit κ) : setup.process.Rep setup (setup.world Seq Seq) where
  backed := backed_initial setup
  slot := fun _ => ⟨none, rfl⟩
  books := ⟨nofun, List.Pairwise.nil, List.Perm.nil, nofun⟩
  live := le_rfl

theorem arena_eq (rep : p.Rep setup s) :
    p.arena.base = (setup.arena ()).base ∧ p.arena.len = (setup.arena ()).len := by
  have hsame : p.arena = (s.allocators ()).arena := by
    unfold Process.arena
    rw [rep.backed.refines.code]
    rfl
  rw [hsame, (rep.backed.inv.parts.allocator ()).arena_eq]
  exact ⟨rfl, rfl⟩

/-- What the system's allocator answers can be put in its books. -/
theorem honours (rep : p.Rep setup s) {layout : Layout} {raw : Nat} (h : p.Honours layout raw) :
    BlockOk (setup.arena ()).base (setup.arena ()).len (raw, layout) ∧
      ∀ b ∈ p.blocks, BlocksClear (raw, layout) b := by
  obtain ⟨hne, haligned, hle, hclear, hblocks⟩ := h
  rw [rep.arena_eq.1, rep.arena_eq.2] at hclear
  exact ⟨⟨hne, haligned, hle, hclear⟩, hblocks⟩

/-- A change of the memory outside the arena, and of the books with it. -/
theorem write (rep : p.Rep setup s) {addr n value : Nat}
    (hout : ∀ y, addr ≤ y → y < addr + n → ¬setup.InArenas y)
    (books : Books (setup.arena ()).base (setup.arena ()).len (p.world.mem.write addr n value)
      p.blocks p.held) :
    Process.Rep setup { p with world := { p.world with mem := p.world.mem.write addr n value } }
      { s with mem := s.mem.write addr n value } :=
  ⟨rep.backed.write hout, rep.slot, books, rep.live⟩

/-- A step of the allocator that moves the call of one thread. -/
theorem update (rep : p.Rep setup s) {w' : World Unit κ FreeList Batch} {v : View Unit κ Seq Seq}
    (backed : w'.Backed setup (s.update () k v))
    (hout : ∀ y, ¬setup.InArenas y → w'.mem.byte y = p.world.mem.byte y) (slot : Slot)
    (hslot : SlotOk slot v.thread) {held : List Held}
    (books : Books (setup.arena ()).base (setup.arena ()).len p.world.mem p.blocks held)
    (hlive : heldSizes held ≤ (s.update () k v).sizes) :
    Process.Rep setup ({ p with world := w', held }.setSlot k slot) (s.update () k v) where
  backed := backed
  slot := by
    intro j
    by_cases hj : j = k
    · subst hj
      rw [World.update_threads_same]
      simp only [Process.setSlot, Function.update_self]
      exact hslot
    · rw [World.update_threads_ne _ _ hj]
      simp only [Process.setSlot, Function.update_of_ne hj]
      exact rep.slot j
  books := by
    exact books.of_outside fun y hy => hout y (inArenas_iff.not.mpr hy)
  live := hlive

/-- A step of the allocator that moves no call, and hands out and takes back nothing. -/
theorem quiet (rep : p.Rep setup s) {action : Action Unit κ} {w' : World Unit κ FreeList Batch}
    (hcaller : action.caller = none) (hrun : ∀ k advised, action ≠ .run k advised)
    (hstep : p.world.step setup.debug action = some w')
    (hsizes : ∀ s', s.step setup.debug action = some s' → s'.sizes = s.sizes) :
    ∃ s', Process.Rep setup { p with world := w' } s' := by
  obtain ⟨s', hs', backed, hout⟩ := rep.backed.step hstep
  refine ⟨s', backed, fun k => ?_,
    rep.books.of_outside fun y hy => hout y (inArenas_iff.not.mpr hy), ?_⟩
  · have hthread : s'.threads k = s.threads k :=
      World.step_thread_ne (by rw [hcaller]; nofun) (hrun k) hs'
    rw [hthread]
    exact rep.slot k
  · rw [hsizes s' hs']
    exact rep.live

/-! ### Allocations -/

/-- A pointer of the system's allocator is handed out. -/
theorem hold_block (rep : p.Rep setup s) {b : Nat × Layout} {h : Held}
    (hblock : BlockOk (setup.arena ()).base (setup.arena ()).len b)
    (hclear : ∀ b' ∈ p.blocks, BlocksClear b b') (hb : h.block = some b) (ok : h.Ok p.world.mem) :
    Process.Rep setup ({ p with blocks := b :: p.blocks }.hold h) s where
  backed := rep.backed
  slot := rep.slot
  books := rep.books.add hblock hclear hb ok
  live := by
    have hentry : h.entry = none := by
      cases ok with
      | system => rfl
      | fallback => rfl
      | orthotope => cases hb
    show heldSizes (p.held ++ [h]) ≤ _
    rw [entries_append, hentry]
    exact (add_zero _).trans_le rep.live

theorem systemAlloc (rep : p.Rep setup s) {layout : Layout} {answer : Option Nat} {born : Slot}
    (hbackend : selectBackend layout = .system)
    (halloc : p.systemAlloc layout answer born = some p') :
    p'.Rep setup s ∧ p'.aborted = p.aborted := by
  unfold Process.systemAlloc at halloc
  split at halloc
  · obtain rfl := Option.some.inj halloc
    exact ⟨rep, rfl⟩
  · split at halloc
    · rename_i ptr hhonours
      obtain rfl := Option.some.inj halloc
      obtain ⟨hblock, hclear⟩ := rep.honours hhonours
      exact ⟨rep.hold_block hblock hclear rfl (.system hbackend), rfl⟩
    · cases halloc

/-- The prefix is written in the new raw block, which is nobody else's. -/
theorem write_prefix (rep : p.Rep setup s) {layout rawLayout : Layout} {raw user : Nat}
    (hblock : BlockOk (setup.arena ()).base (setup.arena ()).len (raw, rawLayout))
    (hclear : ∀ b ∈ p.blocks, BlocksClear (raw, rawLayout) b)
    (hplaced : FallbackPlaced layout rawLayout raw user) (prefix_ : SystemFallbackPrefix) :
    ∃ s', Process.Rep setup { p with world := { p.world with
      mem := SystemFallbackPrefix.write p.world.mem (user - SystemFallbackPrefix.sizeOf) prefix_ } }
        s' := by
  have hin : ∀ y, user - SystemFallbackPrefix.sizeOf ≤ y → y < user →
      raw ≤ y ∧ y < raw + rawLayout.size := by
    intro y h1 h2
    exact hplaced.prefix_mem h2 (by omega)
  have hout : ∀ y, user - SystemFallbackPrefix.sizeOf ≤ y → y < user → ¬setup.InArenas y := by
    intro y h1 h2 harena
    obtain ⟨h3, h4⟩ := inArenas_iff.mp harena
    obtain ⟨h5, h6⟩ := hin y h1 h2
    have hclear : Clear raw rawLayout.size _ _ := hblock.clear
    unfold Clear at hclear
    omega
  have hfront := hplaced.front
  unfold SystemFallbackPrefix.sizeOf at *
  -- three words, one after the other
  have hword : ∀ {w : World Unit κ FreeList Batch} {s : World Unit κ Seq Seq} (addr value : Nat),
      w.Backed setup s → user - 24 ≤ addr → addr + 8 ≤ user →
        World.Backed setup { w with mem := w.mem.write addr 8 value }
          { s with mem := s.mem.write addr 8 value } := by
    intro w s addr value hbacked hlo hhi
    exact hbacked.write fun y h1 h2 => hout y (by omega) (by omega)
  have hmagic := hword (user - 24) prefix_.magic rep.backed (by omega) (by omega)
  have hraw := hword (user - 24 + 8) prefix_.rawAddr hmagic (by omega) (by omega)
  have huser := hword (user - 24 + 16) prefix_.userAddr hraw (by omega) (by omega)
  refine ⟨_, huser, rep.slot, rep.books.congr fun h hh b hb y hlo hhi _ => ?_, rep.live⟩
  refine (SystemFallbackPrefix.writesIn_write p.world.mem (user - 24) prefix_).byte y fun hy => ?_
  obtain ⟨h1, h2⟩ := hy
  unfold SystemFallbackPrefix.sizeOf at h2
  obtain ⟨h3, h4⟩ := hin y h1 (by omega)
  have hnot := (hclear b (rep.books.mem_block hh hb)).not_both h3 h4 hlo
  omega

theorem fallbackAlloc (rep : p.Rep setup s) {layout : Layout} {answer : Option Nat} {born : Slot}
    (hbackend : selectBackend layout = .orthotope) (hborn : born.usable = false)
    (halloc : p.fallbackAlloc layout answer born = some p') :
    (∃ s', p'.Rep setup s') ∧ p'.aborted = p.aborted := by
  unfold Process.fallbackAlloc at halloc
  split at halloc
  · obtain rfl := Option.some.inj halloc
    exact ⟨⟨s, rep⟩, rfl⟩
  rename_i rawLayout hlayout
  split at halloc
  · obtain rfl := Option.some.inj halloc
    exact ⟨⟨s, rep⟩, rfl⟩
  rename_i raw
  split at halloc
  · rename_i hhonours
    split at halloc
    · obtain rfl := Option.some.inj halloc
      exact ⟨⟨s, rep⟩, rfl⟩
    · rename_i user huser
      obtain rfl := Option.some.inj halloc
      obtain ⟨hblock, hclear⟩ := rep.honours hhonours
      have hplaced := fallbackPlaced hlayout huser
      obtain ⟨s', rep'⟩ := rep.write_prefix hblock hclear hplaced ⟨fallbackMagic, raw, user⟩
      refine ⟨⟨s', rep'.hold_block hblock hclear rfl ?_⟩, rfl⟩
      obtain ⟨hpos, -⟩ := selectBackend_eq_orthotope.mp hbackend
      have hne := hblock.ne_zero
      have hle := hblock.le
      have hfront := hplaced.front
      have hback := hplaced.back
      simp only at hne hle
      unfold usizeLimit at hle
      exact .fallback hbackend hlayout hplaced
        (fallbackRawPtr_write (by omega) (by omega) (by omega)) hborn
  · cases halloc

/-- The call of a thread that is in progress settles nothing yet. -/
theorem settle_busy {pc : Pc Unit κ Batch} (ht : p.world.threads k = .busy () pc) :
    p.settle k = some p := by
  simp only [Process.settle, ht]

theorem threads_eq (rep : p.Rep setup s) (k : κ) :
    p.world.threads k = (s.threads k).map Batch.ofSeq := rep.backed.refines.threads_eq k

/-- A thread whose slot is usable is not in a call. -/
theorem idle_of_usable (rep : p.Rep setup s) (h : (p.slots k).usable = true) :
    ∃ last, s.threads k = .idle last := by
  have hslot := rep.slot k
  cases hs : p.slots k with
  | absent =>
    rw [hs] at hslot
    exact hslot
  | available =>
    rw [hs] at hslot
    exact hslot
  | borrowed use =>
    rw [hs] at h
    cases h
  | destroyed =>
    rw [hs] at h
    cases h

/-- An allocation that has ended. -/
theorem settle_allocating {layout : Layout} (hslot : p.slots k = .borrowed (.allocating layout)) :
    (∀ ptr, p.world.threads k = .idle (some (.allocated ptr)) →
      p.settle k = some ((p.setSlot k .available).hold ⟨ptr, layout, .orthotope, .available⟩)) ∧
    ∀ e, p.world.threads k = .idle (some (.allocError e)) →
      p.settle k = some (p.setSlot k .available) := by
  constructor
  · intro ptr ht
    simp only [Process.settle, ht, hslot]
  · intro e ht
    simp only [Process.settle, ht, hslot]

theorem alloc (rep : p.Rep setup s) {layout : Layout} {answer : Option Nat}
    (halloc : p.alloc setup.debug k layout answer = some p') :
    (∃ s', p'.Rep setup s') ∧ p'.aborted = p.aborted := by
  unfold Process.alloc at halloc
  split at halloc
  · rename_i hbackend
    obtain ⟨rep', haborted⟩ := rep.systemAlloc hbackend halloc
    exact ⟨⟨s, rep'⟩, haborted⟩
  · rename_i hbackend
    split at halloc
    · rename_i husable
      obtain ⟨w', hstep, hsettle⟩ := Option.bind_eq_some_iff.mp halloc
      obtain ⟨last, ht⟩ := rep.idle_of_usable husable
      obtain ⟨s', hs', backed, hout⟩ := rep.backed.step hstep
      obtain ⟨v, hv, hlive, hthread⟩ :=
        rep.backed.inv.parts.startAllocate ht layout.size
      obtain rfl := Option.some.inj (hs'.symm.trans hv)
      have hsizes : (s.update () k v).sizes = s.sizes := by
        simp only [World.sizes, World.update_live, hlive]
      have hmap : w'.threads k = v.thread.map Batch.ofSeq := by
        rw [backed.refines.threads_eq k, World.update_threads_same]
      rcases hthread with ⟨pc, hbusy, hrequest⟩ | ⟨e, hidle⟩
      · rw [hbusy] at hmap
        obtain rfl := Option.some.inj ((settle_busy hmap).symm.trans hsettle)
        refine ⟨⟨_, rep.update backed hout (.borrowed (.allocating layout))
          ⟨hbackend, pc, hbusy, hrequest⟩ rep.books ?_⟩, rfl⟩
        rw [hsizes]
        exact rep.live
      · rw [hidle] at hmap
        have hslot :=
          Process.setSlot_slots { p with world := w' } k (.borrowed (.allocating layout))
        obtain rfl := Option.some.inj (((settle_allocating hslot).2 e hmap).symm.trans hsettle)
        have hrep := rep.update backed hout .available ⟨_, hidle⟩ rep.books
          (hsizes ▸ rep.live)
        have heq : ({ p with world := w' }.setSlot k (.borrowed (.allocating layout))).setSlot k
            .available = { p with world := w' }.setSlot k .available := by
          simp only [Process.setSlot, Function.update_idem]
        rw [heq]
        exact ⟨⟨_, hrep⟩, rfl⟩
    · rename_i husable
      exact rep.fallbackAlloc hbackend (Bool.not_eq_true _ ▸ husable) halloc

/-! ### Steps of calls -/

theorem setSlot_self {slot : Slot} (h : p.slots k = slot) : p.setSlot k slot = p := by
  subst h
  simp only [Process.setSlot, Function.update_eq_self]

/-- A step of the allocator call of an allocation, which settles the allocation at its end. -/
theorem run_allocating (rep : p.Rep setup s) {layout : Layout}
    (hslot : p.slots k = .borrowed (.allocating layout)) {advised : Bool × Bool}
    {w' : World Unit κ FreeList Batch}
    (hstep : p.world.step setup.debug (.run k advised) = some w') :
    ∃ p', { p with world := w' }.settle k = some p' ∧ (∃ s', p'.Rep setup s') ∧
      p'.aborted = p.aborted := by
  have hslotOk := rep.slot k
  rw [hslot] at hslotOk
  have hslot' : ({ p with world := w' } : Process κ).slots k = .borrowed (.allocating layout) :=
    hslot
  obtain ⟨hbackend, pc, ht, hrequest⟩ := hslotOk
  obtain ⟨s', hs', backed, hout⟩ := rep.backed.step hstep
  obtain ⟨a, pc', v, ht', rfl, -, htrans⟩ := rep.backed.inv.run_cases hs'
  obtain ⟨rfl, rfl⟩ := Thread.busy.inj (ht.symm.trans ht')
  have hmap : w'.threads k = v.thread.map Batch.ofSeq := by
    rw [backed.refines.threads_eq k, World.update_threads_same]
  have hlive : heldSizes p.held ≤ (s.update () k v).sizes := rep.live.trans htrans.sizes_le
  rcases htrans.request_cases hrequest with ⟨pc', hbusy, hrequest', -⟩ | ⟨e, hidle, -⟩ |
    ⟨ptr, hidle, hgiven⟩
  · rw [hbusy] at hmap
    refine ⟨_, settle_busy hmap, ⟨s.update () k v, ?_⟩, rfl⟩
    have hrep := rep.update backed hout (.borrowed (.allocating layout))
      ⟨hbackend, pc', hbusy, hrequest'⟩ rep.books hlive
    rwa [setSlot_self hslot'] at hrep
  · rw [hidle] at hmap
    refine ⟨_, (settle_allocating hslot').2 e hmap, ⟨s.update () k v, ?_⟩, rfl⟩
    exact rep.update backed hout .available ⟨_, hidle⟩ rep.books hlive
  · rw [hidle] at hmap
    refine ⟨_, (settle_allocating hslot').1 ptr hmap, ⟨s.update () k v, ?_⟩, rfl⟩
    have ok : Held.Ok p.world.mem ⟨ptr, layout, .orthotope, .available⟩ := .orthotope hbackend rfl
    apply rep.update backed hout .available ⟨_, hidle⟩ (rep.books.addOrthotope rfl ok)
    have hsizes : (s.update () k v).sizes = s.sizes + ((ptr, layout.size) ::ₘ 0) := by
      simp only [World.sizes, World.update_live, hgiven, List.map_append, ← Multiset.coe_add]
      rfl
    rw [hsizes, entries_append]
    exact Multiset.add_le_add_right rep.live

/-- A step of the allocator call of a free, which makes the slot available at its end. -/
theorem run_freeing (rep : p.Rep setup s) {panicking : Bool}
    (hslot : p.slots k = .borrowed (.freeing panicking)) {advised : Bool × Bool}
    {w' : World Unit κ FreeList Batch}
    (hstep : p.world.step setup.debug (.run k advised) = some w') :
    ∃ slot, { p with world := w' }.settle k = some ({ p with world := w' }.setSlot k slot) ∧
      (∃ s', Process.Rep setup ({ p with world := w' }.setSlot k slot) s') ∧
        ((slot = .borrowed (.freeing panicking) ∧ ∃ pc, w'.threads k = .busy () pc) ∨
          slot = .available ∧ w'.threads k = .idle (some .freed)) := by
  have hslotOk := rep.slot k
  rw [hslot] at hslotOk
  have hslot' : ({ p with world := w' } : Process κ).slots k = .borrowed (.freeing panicking) :=
    hslot
  obtain ⟨pc, ht, hfrees⟩ := hslotOk
  obtain ⟨s', hs', backed, hout⟩ := rep.backed.step hstep
  obtain ⟨a, pc', v, ht', rfl, -, htrans⟩ := rep.backed.inv.run_cases hs'
  obtain ⟨rfl, rfl⟩ := Thread.busy.inj (ht.symm.trans ht')
  have hmap : w'.threads k = v.thread.map Batch.ofSeq := by
    rw [backed.refines.threads_eq k, World.update_threads_same]
  have hlive : heldSizes p.held ≤ (s.update () k v).sizes := rep.live.trans htrans.sizes_le
  obtain ⟨⟨pc', hbusy, hfrees'⟩ | hidle, -⟩ := htrans.frees_cases rep.backed.inv ht hfrees
  · rw [hbusy] at hmap
    refine ⟨.borrowed (.freeing panicking), ?_, ⟨s.update () k v, ?_⟩, Or.inl ⟨rfl, _, hmap⟩⟩
    · rw [setSlot_self hslot']
      exact settle_busy hmap
    · exact rep.update backed hout (.borrowed (.freeing panicking)) ⟨pc', hbusy, hfrees'⟩ rep.books
        hlive
  · rw [hidle] at hmap
    refine ⟨.available, ?_, ⟨s.update () k v, ?_⟩, Or.inr ⟨rfl, hmap⟩⟩
    · simp only [Process.settle, hslot, hmap]
      rfl
    · exact rep.update backed hout .available ⟨_, hidle⟩ rep.books hlive

/-- A step of the allocator call of any thread, that of the drain at its end included. -/
theorem run (rep : p.Rep setup s) {advised : Bool × Bool} {w' : World Unit κ FreeList Batch}
    (hstep : p.world.step setup.debug (.run k advised) = some w') :
    ∃ p', { p with world := w' }.settle k = some p' ∧ (∃ s', p'.Rep setup s') ∧
      p'.aborted = p.aborted := by
  obtain ⟨s', hs', backed, hout⟩ := rep.backed.step hstep
  obtain ⟨a, pc, v, ht, rfl, -, htrans⟩ := rep.backed.inv.run_cases hs'
  have hbusy : ∀ last, s.threads k ≠ .idle last := by
    intro last hidle
    cases hidle.symm.trans ht
  have hslotOk := rep.slot k
  cases hslot : p.slots k with
  | absent =>
    rw [hslot] at hslotOk
    exact absurd hslotOk.choose_spec (hbusy _)
  | available =>
    rw [hslot] at hslotOk
    exact absurd hslotOk.choose_spec (hbusy _)
  | borrowed use =>
    cases use with
    | allocating layout => exact rep.run_allocating hslot hstep
    | freeing panicking =>
      obtain ⟨slot, hsettle, hrep, -⟩ := rep.run_freeing hslot hstep
      exact ⟨_, hsettle, hrep, rfl⟩
    | other =>
      rw [hslot] at hslotOk
      exact absurd hslotOk.choose_spec (hbusy _)
  | destroyed =>
    have hslot' : ({ p with world := w' } : Process κ).slots k = .destroyed := hslot
    refine ⟨{ p with world := w' }, ?_, ⟨s.update () k v, ?_⟩, rfl⟩
    · unfold Process.settle
      split <;> simp_all
    · have hrep := rep.update backed hout .destroyed trivial rep.books
        (rep.live.trans htrans.sizes_le)
      rwa [setSlot_self hslot'] at hrep

/-! ### Frees -/

theorem held_size (rep : p.Rep setup s) {h : Held} (hh : h ∈ p.held)
    (hsource : h.source = .orthotope) : (h.ptr, h.layout.size) ∈ s.sizes := by
  refine Multiset.mem_of_le rep.live (Multiset.mem_coe.mpr (List.mem_filterMap.mpr ⟨h, hh, ?_⟩))
  unfold Held.entry
  rw [hsource]

/-- The bytes in front of a pointer of the allocator are no prefix. -/
theorem no_prefix (rep : p.Rep setup s) {ptr size : Nat} (h : (ptr, size) ∈ s.sizes) :
    ptr ≠ 0 ∧ fallbackRawPtr p.world.mem ptr = none := by
  obtain ⟨e, he, heq⟩ := List.mem_map.mp (Multiset.mem_coe.mp h)
  obtain ⟨rfl, -⟩ := Prod.mk.inj heq
  have hle := (rep.backed.inv.memory.entry none e he).header_le
  have hlive : e ∈ p.world.live := rep.backed.refines.live_eq ▸ he
  unfold headerSize at hle
  refine ⟨by omega, fallbackRawPtr_zero fun y h1 h2 => rep.backed.tail hlive ?_⟩
  unfold SystemFallbackPrefix.sizeOf at h2
  unfold inTail blockStartFromUserPtr headerSize
  omega

/-- The system's allocator gets the block back that it has handed out. -/
theorem dealloc_block (rep : p.Rep setup s) {i : Nat} {h : Held} (hh : p.held[i]? = some h)
    {b : Nat × Layout} (hb : h.block = some b) (debug : Bool) (k : κ) (panicking : Bool) :
    { p with held := p.held.eraseIdx i }.dealloc debug k h.ptr h.layout panicking =
        some { p with held := p.held.eraseIdx i, blocks := p.blocks.erase b } ∧
      Process.Rep setup { p with held := p.held.eraseIdx i, blocks := p.blocks.erase b } s := by
  obtain ⟨hmem, books⟩ := rep.books.release hh hb
  refine ⟨?_, rep.backed, rep.slot, books, ?_⟩
  · have ok := rep.books.ok h (List.mem_of_getElem? hh)
    cases ok with
    | system hbackend =>
      obtain rfl := Option.some.inj hb
      simp only [Process.dealloc, hbackend, Process.systemDealloc, if_pos hmem]
    | @fallback ptr raw layout rawLayout born hbackend hlayout hplaced hraw hborn =>
      obtain rfl := Option.some.inj hb
      have hfront := hplaced.front
      unfold SystemFallbackPrefix.sizeOf at hfront
      have hne : ptr ≠ 0 := by omega
      simp only [Process.dealloc, hbackend, if_neg hne, hraw, hlayout, Process.systemDealloc,
        if_pos hmem]
    | orthotope => cases hb
  · refine le_trans ?_ rep.live
    rw [entries_erase hh]
    exact Multiset.le_add_left _ _

/-- A pointer of the allocator that is not given back to it leaks. -/
theorem leak (rep : p.Rep setup s) {i : Nat} {h : Held} (hh : p.held[i]? = some h)
    (hsource : h.source = .orthotope) :
    Process.Rep setup { p with held := p.held.eraseIdx i } s := by
  have hb : h.block = none := by
    unfold Held.block
    rw [hsource]
  refine ⟨rep.backed, rep.slot, rep.books.releaseOrthotope hh hb, ?_⟩
  refine le_trans ?_ rep.live
  rw [entries_erase hh]
  exact Multiset.le_add_left _ _

theorem backend_of_source (rep : p.Rep setup s) {h : Held} (hh : h ∈ p.held) :
    h.source = .orthotope ↔ selectBackend h.layout = .orthotope ∧ h.born.usable = true := by
  cases rep.books.ok h hh with
  | system hbackend => simp [hbackend]
  | fallback hbackend hlayout hplaced hraw hborn => simp [hborn]
  | orthotope hbackend hborn => simp [hbackend, hborn]

/-- The allocator gets the block back that it has handed out: a free of it starts. -/
theorem dealloc_usable (rep : p.Rep setup s) {i : Nat} {h : Held} (hh : p.held[i]? = some h)
    (hsource : h.source = .orthotope) (husable : (p.slots k).usable = true) (panicking : Bool) :
    ∃ w', p.free setup.debug k h.ptr h.layout.size = some w' ∧
      { p with held := p.held.eraseIdx i }.dealloc setup.debug k h.ptr h.layout panicking =
        some ({ p with world := w', held := p.held.eraseIdx i }.setSlot k
          (.borrowed (.freeing panicking))) ∧
      ∃ s', Process.Rep setup ({ p with world := w', held := p.held.eraseIdx i }.setSlot k
        (.borrowed (.freeing panicking))) s' := by
  have hmem := List.mem_of_getElem? hh
  have hbackend := ((rep.backend_of_source hmem).mp hsource).1
  have hsize := rep.held_size hmem hsource
  obtain ⟨hne, hraw⟩ := rep.no_prefix hsize
  obtain ⟨last, ht⟩ := rep.idle_of_usable husable
  obtain ⟨j, e, hfind, he, hptr, hesize⟩ := rep.backed.inv.findIdx_live hsize
  obtain ⟨v, hstart, hlive, pc, hbusy, hfrees⟩ := rep.backed.inv.startFreeOf ht he
  obtain ⟨w', hw', -⟩ := rep.backed.refines.start_call (k := k) rep.backed.inv rfl hstart
  obtain ⟨s', hs', backed, hout⟩ := rep.backed.step hw'
  obtain rfl := Option.some.inj (hstart.symm.trans hs')
  have hmap : w'.threads k = .busy () (pc.map Batch.ofSeq) := by
    rw [backed.refines.threads_eq k, World.update_threads_same, hbusy]
    rfl
  have hfree : p.free setup.debug k h.ptr h.layout.size = some w' := by
    rw [← rep.backed.refines.live_eq] at hfind
    simp only [Process.free, hfind]
    rw [← hesize]
    exact hw'
  have hfree' : ({ p with held := p.held.eraseIdx i } : Process κ).free setup.debug k h.ptr
      h.layout.size = some w' := hfree
  refine ⟨w', hfree, ?_, s.update () k v, ?_⟩
  · simp only [Process.dealloc, hbackend, if_neg hne, hraw, husable, if_true, hfree',
      Option.bind_some]
    exact settle_busy hmap
  · have hb : h.block = none := by
      unfold Held.block
      rw [hsource]
    refine rep.update backed hout (.borrowed (.freeing panicking)) ⟨pc, hbusy, hfrees⟩
      (rep.books.releaseOrthotope hh hb) ?_
    have hentry : h.entry = some (e.ptr, e.size) := by
      unfold Held.entry
      rw [hsource, hptr, hesize]
    have hsizes : s.sizes = (e.ptr, e.size) ::ₘ (s.update () k v).sizes := sizes_erase he hlive
    have hle := rep.live
    rw [entries_erase hh, hentry, hsizes] at hle
    exact (Multiset.cons_le_cons_iff _).mp hle

/-- A free on a thread whose slot is not usable. -/
theorem dealloc_unusable (rep : p.Rep setup s) {i : Nat} {h : Held} (hh : p.held[i]? = some h)
    (hsource : h.source = .orthotope) (husable : (p.slots k).usable = false) (debug : Bool)
    (panicking : Bool) :
    { p with held := p.held.eraseIdx i }.dealloc debug k h.ptr h.layout panicking =
      some (if panicking then { p with held := p.held.eraseIdx i }
        else ({ p with held := p.held.eraseIdx i } : Process κ).abort) := by
  have hmem := List.mem_of_getElem? hh
  have hbackend := ((rep.backend_of_source hmem).mp hsource).1
  obtain ⟨hne, hraw⟩ := rep.no_prefix (rep.held_size hmem hsource)
  simp only [Process.dealloc, hbackend, if_neg hne, hraw, husable, collapseDeallocResult]
  cases panicking <;> rfl

/-- A free of any pointer of the program. -/
theorem dealloc (rep : p.Rep setup s) (haborted : p.aborted = false) {i : Nat} {h : Held}
    (hh : p.held[i]? = some h) {panicking : Bool}
    (hdealloc : { p with held := p.held.eraseIdx i }.dealloc setup.debug k h.ptr h.layout
      panicking = some p') :
    (∃ s', p'.Rep setup s') ∧ (p'.aborted = true ↔ p.Aborts (.dealloc k i panicking)) := by
  have hsource := rep.backend_of_source (List.mem_of_getElem? hh)
  have hquiet : p'.aborted = p.aborted → ¬p.Aborts (.dealloc k i panicking) →
      (p'.aborted = true ↔ p.Aborts (.dealloc k i panicking)) := by
    intro h hnot
    rw [h, haborted]
    exact iff_of_false Bool.false_ne_true hnot
  cases hb : h.block with
  | some b =>
    obtain ⟨heq, rep'⟩ := rep.dealloc_block hh hb setup.debug k panicking
    obtain rfl := Option.some.inj (heq.symm.trans hdealloc)
    refine ⟨⟨s, rep'⟩, hquiet rfl ?_⟩
    rintro ⟨-, -, h', hh', hbackend, hborn⟩
    obtain rfl := Option.some.inj (hh.symm.trans hh')
    have hsource := hsource.mpr ⟨hbackend, hborn⟩
    simp [Held.block, hsource] at hb
  | none =>
    have horthotope : h.source = .orthotope := by
      unfold Held.block at hb
      split at hb
      · cases hb
      · cases hb
      · assumption
    cases husable : (p.slots k).usable with
    | true =>
      obtain ⟨w', -, heq, rep'⟩ := rep.dealloc_usable hh horthotope husable panicking
      obtain rfl := Option.some.inj (heq.symm.trans hdealloc)
      refine ⟨rep', hquiet rfl ?_⟩
      rintro ⟨-, hnot, -⟩
      cases husable.symm.trans hnot
    | false =>
      have heq := rep.dealloc_unusable hh horthotope husable setup.debug panicking
      obtain rfl := Option.some.inj (heq.symm.trans hdealloc)
      have rep' := rep.leak hh horthotope
      cases panicking with
      | true =>
        refine ⟨⟨s, rep'⟩, hquiet rfl ?_⟩
        rintro ⟨hpanicking, -⟩
        cases hpanicking
      | false =>
        refine ⟨⟨s, rep'.backed, rep'.slot, rep'.books, rep'.live⟩, ?_⟩
        exact iff_of_true rfl ⟨rfl, husable, h, hh, hsource.mp horthotope⟩

/-! ### Stores -/

/-- A store to an allocation of the system's allocator changes no prefix: it is behind the prefix of
this allocation, and the other blocks are elsewhere. -/
theorem write_held (rep : p.Rep setup s) {h : Held} (hh : h ∈ p.held) {b : Nat × Layout}
    (hb : h.block = some b) {offset : Nat} (hoffset : offset < h.layout.size) (value : Nat) :
    ∃ s', Process.Rep setup { p with
      world := { p.world with mem := p.world.mem.write (h.ptr + offset) 1 value } } s' := by
  obtain ⟨hlo, hhi⟩ := (rep.books.ok h hh).within hb
  have hclear := (rep.books.block b (rep.books.mem_block hh hb)).clear
  refine ⟨_, rep.write (fun y h1 h2 harena => ?_)
    (rep.books.congr fun h' hh' b' hb' y h1 h2 h3 => ?_)⟩
  · obtain ⟨h3, h4⟩ := inArenas_iff.mp harena
    unfold Clear at hclear
    omega
  · apply Mem.write_byte_outside
    by_contra hin
    obtain rfl : y = h.ptr + offset := by omega
    by_cases hne : h' = h
    · subst hne
      omega
    · have hnot := (rep.books.clear hh hh' (Ne.symm hne) hb hb').not_both (y := h.ptr + offset)
        (by omega) (by omega) h1
      omega

/-- A store to memory that belongs to nobody. -/
theorem scribble (rep : p.Rep setup s) {addr value : Nat}
    (harena : Clear addr 1 p.arena.base p.arena.len)
    (hblocks : ∀ b ∈ p.blocks, Clear addr 1 b.1 b.2.size) :
    ∃ s', Process.Rep setup { p with
      world := { p.world with mem := p.world.mem.write addr 1 value } } s' := by
  rw [rep.arena_eq.1, rep.arena_eq.2] at harena
  refine ⟨_, rep.write (fun y h1 h2 hin => ?_) (rep.books.congr fun h hh b hb y h1 h2 _ => ?_)⟩
  · obtain ⟨h3, h4⟩ := inArenas_iff.mp hin
    unfold Clear at harena
    omega
  · have hclear := hblocks b (rep.books.mem_block hh hb)
    apply Mem.write_byte_outside
    unfold Clear at hclear
    omega

theorem store (rep : p.Rep setup s) {h : Held} (hh : h ∈ p.held) {offset : Nat} {value : UInt8}
    (hstore : p.store setup.debug h offset value = some p') :
    (∃ s', p'.Rep setup s') ∧ p'.aborted = p.aborted := by
  unfold Process.store at hstore
  split at hstore
  · rename_i hoffset
    cases hsource : h.source with
    | orthotope =>
      rw [hsource] at hstore
      obtain ⟨i, -, hstep⟩ := Option.bind_eq_some_iff.mp hstore
      obtain ⟨w', hw', rfl⟩ := Option.map_eq_some_iff.mp hstep
      refine ⟨rep.quiet rfl (by rintro _ _ ⟨⟩) hw' fun s' hs' => ?_, rfl⟩
      obtain ⟨e, he, hs'⟩ := Option.bind_eq_some_iff.mp hs'
      split at hs'
      · obtain rfl := Option.some.inj hs'
        exact sizes_set he rfl rfl rfl
      · cases hs'
    | system =>
      rw [hsource] at hstore
      obtain rfl := Option.some.inj hstore
      have hb : h.block = some (h.ptr, h.layout) := by
        unfold Held.block
        rw [hsource]
      exact ⟨rep.write_held hh hb hoffset _, rfl⟩
    | fallback raw rawLayout =>
      rw [hsource] at hstore
      obtain rfl := Option.some.inj hstore
      have hb : h.block = some (raw, rawLayout) := by
        unfold Held.block
        rw [hsource]
      exact ⟨rep.write_held hh hb hoffset _, rfl⟩
  · cases hstore

/-! ### Slots -/

/-- A slot that its thread borrows, or gives back, outside any call. -/
theorem reslot (rep : p.Rep setup s) (slot : Slot) (hslot : SlotOk slot (s.threads k)) :
    (p.setSlot k slot).Rep setup s where
  backed := rep.backed
  slot := by
    intro j
    by_cases hj : j = k
    · subst hj
      simp only [Process.setSlot, Function.update_self]
      exact hslot
    · simp only [Process.setSlot, Function.update_of_ne hj]
      exact rep.slot j
  books := rep.books
  live := rep.live

theorem teardown (rep : p.Rep setup s) (hslot : p.slots k = .available)
    {w' : World Unit κ FreeList Batch} (hstep : p.world.step setup.debug (.drain k ()) = some w') :
    ∃ s', Process.Rep setup ({ p with world := w' }.setSlot k .destroyed) s' := by
  obtain ⟨last, ht⟩ := rep.idle_of_usable (by rw [hslot]; rfl)
  obtain ⟨v, hstart, hlive⟩ := rep.backed.inv.parts.startDrain (k := k) ht
  obtain ⟨s', hs', backed, hout⟩ := rep.backed.step hstep
  obtain rfl := Option.some.inj (hs'.symm.trans hstart)
  refine ⟨_, rep.update backed hout .destroyed trivial rep.books ?_⟩
  have hsizes : (s.update () k v).sizes = s.sizes := by
    simp only [World.sizes, World.update_live, hlive]
  rw [hsizes]
  exact rep.live

/-! ### All actions -/

/-- The invariant is kept, and the one way to abort is the one named. -/
theorem step (rep : p.Rep setup s) {action : ProcessAction κ}
    (hstep : p.step setup.debug action = some p') :
    (∃ s', p'.Rep setup s') ∧ (p'.aborted = true ↔ p.Aborts action) := by
  unfold Process.step at hstep
  split at hstep
  · cases hstep
  rename_i haborted
  have hquiet : p'.aborted = p.aborted → ¬p.Aborts action →
      (p'.aborted = true ↔ p.Aborts action) := by
    intro h hnot
    rw [h]
    exact iff_of_false haborted hnot
  cases action with
  | alloc k layout answer =>
    obtain ⟨rep', h⟩ := rep.alloc hstep
    exact ⟨rep', hquiet h id⟩
  | dealloc k i panicking =>
    obtain ⟨h, hh, hdealloc⟩ := Option.bind_eq_some_iff.mp hstep
    exact rep.dealloc (eq_false_of_ne_true haborted) hh hdealloc
  | run k advised =>
    obtain ⟨w', hw', hsettle⟩ := Option.bind_eq_some_iff.mp hstep
    obtain ⟨p₁, heq, rep', h⟩ := rep.run hw'
    obtain rfl := Option.some.inj (heq.symm.trans hsettle)
    exact ⟨rep', hquiet h id⟩
  | borrow k =>
    dsimp only at hstep
    split at hstep
    · rename_i husable
      obtain rfl := Option.some.inj hstep
      exact ⟨⟨s, rep.reslot (.borrowed .other) (rep.idle_of_usable husable)⟩, hquiet rfl id⟩
    · cases hstep
  | release k =>
    dsimp only at hstep
    split at hstep
    · rename_i hslot
      obtain rfl := Option.some.inj hstep
      have hidle := rep.slot k
      rw [hslot] at hidle
      exact ⟨⟨s, rep.reslot .available hidle⟩, hquiet rfl id⟩
    · cases hstep
  | teardown k =>
    dsimp only at hstep
    split at hstep
    · rename_i hslot
      obtain ⟨w', hw', rfl⟩ := Option.map_eq_some_iff.mp hstep
      exact ⟨rep.teardown hslot hw', hquiet rfl id⟩
    · cases hstep
  | store i offset value =>
    obtain ⟨h, hh, hstore⟩ := Option.bind_eq_some_iff.mp hstep
    obtain ⟨rep', h'⟩ := rep.store (List.mem_of_getElem? hh) hstore
    exact ⟨rep', hquiet h' id⟩
  | scribble addr value =>
    dsimp only at hstep
    split at hstep
    · rename_i hclear
      obtain rfl := Option.some.inj hstep
      exact ⟨rep.scribble hclear.1 hclear.2, hquiet rfl id⟩
    · cases hstep
  | discard page =>
    obtain ⟨w', hw', rfl⟩ := Option.map_eq_some_iff.mp hstep
    refine ⟨rep.quiet rfl (by rintro _ _ ⟨⟩) hw' fun s' hs' => ?_, hquiet rfl id⟩
    simp only [World.step] at hs'
    split at hs'
    · obtain rfl := Option.some.inj hs'
      rfl
    · cases hs'

end Process.Rep

/-! ### Runs -/

namespace Setup.Reaches

variable {κ : Type} [DecidableEq κ] {setup : Setup Unit κ} {p p' : Process κ}
  {ok : Process κ → ProcessAction κ → Prop}

theorem rep (h : setup.Reaches ok p) : ∃ s, p.Rep setup s := by
  induction h with
  | initial => exact ⟨_, Process.Rep.initial setup⟩
  | step action _ _ hstep ih =>
    obtain ⟨s, rep⟩ := ih
    exact (rep.step hstep).1

theorem not_aborted (hok : ∀ p action, ok p action → ¬p.Aborts action) (h : setup.Reaches ok p) :
    p.aborted = false := by
  cases h with
  | initial => rfl
  | step action h hok' hstep =>
    obtain ⟨s, rep⟩ := h.rep
    exact Bool.eq_false_iff.mpr ((rep.step hstep).2.not.mpr (hok _ action hok'))

theorem runs (h : setup.Reaches ok p) {actions : List (ProcessAction κ)}
    (hok : ∀ action ∈ actions, ∀ p, ok p action)
    (hruns : p.runs setup.debug actions = some p') : setup.Reaches ok p' := by
  induction actions generalizing p with
  | nil => exact Option.some.inj hruns ▸ h
  | cons action actions ih =>
    obtain ⟨p₁, hstep, hrest⟩ := Option.bind_eq_some_iff.mp hruns
    refine ih (h.step action (hok action List.mem_cons_self p) hstep) (fun action' hmem => ?_) hrest
    exact hok action' (List.mem_cons_of_mem action hmem)

end Setup.Reaches

end Orthotope
