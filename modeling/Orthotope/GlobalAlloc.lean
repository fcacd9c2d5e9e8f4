import Orthotope.HeaderTail

/-! The `GlobalAlloc` adapter, `global_alloc.rs`, in a process of any number of threads.  Each
thread has a slot for its cache, as `THREAD_CACHE` of `lib.rs`; a request that finds the slot
unusable goes to the system's allocator, with a prefix in front of the pointer that says so.  The
allocator behind the slots is the one of `Orthotope.System`, in its steps, and the process-global
one is initialised. What the system's allocator answers is an input, as long as it honours the
layout asked for. -/

namespace Orthotope

open ByteMemory

/-! ### Layouts -/

/-- `core::alloc::Layout`: the size, rounded up to the alignment, is at most `isize::MAX`. -/
structure Layout where
  size : Nat
  align : Nat
  align_isPowerOfTwo : align.isPowerOfTwo
  size_le : size + align ≤ 2 ^ 63
  deriving DecidableEq

def Layout.fromSizeAlign (size align : Nat) : Option Layout :=
  if h : align.isPowerOfTwo ∧ size + align ≤ 2 ^ 63 then some ⟨size, align, h.1, h.2⟩ else none

inductive Backend where
  | orthotope
  | system
  deriving DecidableEq, Repr

def selectBackend (layout : Layout) : Backend :=
  if layout.size = 0 ∨ headerAlignment < layout.align then .system else .orthotope

/-! ### The fallback prefix -/

def fallbackEmpty : Nat := 0

def fallbackMagic : Nat := 0x4f52544846535953

/-- The prefix of a fallback allocation: three words, which end at the pointer handed out. -/
structure SystemFallbackPrefix where
  magic : Nat
  rawAddr : Nat
  userAddr : Nat
  deriving DecidableEq, Repr

namespace SystemFallbackPrefix

/-- `size_of::<SystemFallbackPrefix>()`. -/
def sizeOf : Nat := 24

/-- `align_of::<SystemFallbackPrefix>()`. -/
def alignOf : Nat := 8

def read (m : Mem) (addr : Nat) : SystemFallbackPrefix where
  magic := m.read addr 8
  rawAddr := m.read (addr + 8) 8
  userAddr := m.read (addr + 16) 8

def write (m : Mem) (addr : Nat) (p : SystemFallbackPrefix) : Mem :=
  ((m.write addr 8 p.magic).write (addr + 8) 8 p.rawAddr).write (addr + 16) 8 p.userAddr

end SystemFallbackPrefix

def fallbackRawPtr (m : Mem) (ptr : Nat) : Option Nat :=
  if ptr < SystemFallbackPrefix.sizeOf then none
  else if ptr - SystemFallbackPrefix.sizeOf = fallbackEmpty then none
  else
    let p := SystemFallbackPrefix.read m (ptr - SystemFallbackPrefix.sizeOf)
    if p.magic ≠ fallbackMagic ∨ p.userAddr ≠ ptr then none else some p.rawAddr

def fallbackAlignment (layout : Layout) : Nat :=
  if SystemFallbackPrefix.alignOf < layout.align then layout.align
  else SystemFallbackPrefix.alignOf

def tryFallbackLayout (layout : Layout) : Option Layout :=
  ((checkedAdd layout.size SystemFallbackPrefix.sizeOf).bind fun size =>
    checkedAdd size (fallbackAlignment layout - 1)).bind fun size =>
      Layout.fromSizeAlign size (fallbackAlignment layout)

/-- The three outcomes of a free are the answer of the allocator, a slot that is not usable, and an
allocator that could not be initialised. -/
def collapseDeallocResult (panicking : Bool)
    (result : Except InitError (Option (Except FreeError Unit))) : Except FreeError Unit :=
  match result with
  | .ok (some (.error e)) => .error e
  | .ok (some (.ok ())) => .ok ()
  | .ok none => if panicking then .ok () else .error .globalInitFailed
  | .error _ => .error .globalInitFailed

/-! ### The process -/

/-- What a slot is borrowed for: an allocation or a free of the shim, whose call is in progress, or
another use of `try_with_thread_cache`. -/
inductive Use where
  | allocating (layout : Layout)
  | freeing (panicking : Bool)
  | other
  deriving DecidableEq

/-- The slot of a thread for its cache. -/
inductive Slot where
  | absent
  | available
  | borrowed (use : Use)
  | destroyed
  deriving DecidableEq

/-- `try_with_thread_cache` runs its closure: the slot is still there, and nobody has borrowed
it. -/
def Slot.usable : Slot → Bool
  | .absent | .available => true
  | .borrowed _ | .destroyed => false

/-- Where an allocation comes from. -/
inductive Source where
  | system
  | fallback (raw : Nat) (rawLayout : Layout)
  | orthotope
  deriving DecidableEq

/-- A pointer that `alloc` has returned for a layout.  `source` and `born`, the slot that the
allocation found, are for the statements only. -/
structure Held where
  ptr : Nat
  layout : Layout
  source : Source
  born : Slot
  deriving DecidableEq

/-- The blocks of the system's allocator that are handed out, with their layouts, and the pointers
that the program has. -/
structure Process (κ : Type) where
  world : World Unit κ FreeList Batch
  slots : κ → Slot
  blocks : List (Nat × Layout)
  held : List Held
  aborted : Bool

/-- A call of the shim, a step of the allocator call of a thread, another use of the slot of a
thread and its end, the end of a thread, a store of the program to an allocation, a store to memory
that belongs to none, and a discard of a page.  `answer` is what the system's allocator returns if
it is asked, `panicking` is `thread::panicking()`, and `i` is the place of the pointer among those
held. -/
inductive ProcessAction (κ : Type) where
  | alloc (k : κ) (layout : Layout) (answer : Option Nat)
  | dealloc (k : κ) (i : Nat) (panicking : Bool)
  | run (k : κ) (advised : Bool × Bool)
  | borrow (k : κ)
  | release (k : κ)
  | teardown (k : κ)
  | store (i offset : Nat) (value : UInt8)
  | scribble (addr : Nat) (value : UInt8)
  | discard (page : Nat)

/-- Two ranges that share no address. -/
def Clear (lo n lo' n' : Nat) : Prop := n = 0 ∨ n' = 0 ∨ lo + n ≤ lo' ∨ lo' + n' ≤ lo

instance clearDecidable (lo n lo' n' : Nat) : Decidable (Clear lo n lo' n') :=
  inferInstanceAs (Decidable (_ ∨ _))

namespace Process

variable {κ : Type} (p : Process κ)

def arena : Arena := (p.world.allocators ()).arena

/-- `process::abort`. -/
def abort : Process κ := { p with aborted := true }

def hold (h : Held) : Process κ := { p with held := p.held ++ [h] }

/-- What the system's allocator may answer to a request: memory of its own, aligned as asked, that
does not wrap around the address space. -/
def Honours (layout : Layout) (raw : Nat) : Prop :=
  raw ≠ 0 ∧ raw % layout.align = 0 ∧ raw + layout.size ≤ usizeLimit ∧
    Clear raw layout.size p.arena.base p.arena.len ∧
      ∀ block ∈ p.blocks, Clear raw layout.size block.1 block.2.size

instance honoursDecidable (layout : Layout) (raw : Nat) : Decidable (p.Honours layout raw) :=
  inferInstanceAs (Decidable (_ ∧ _))

/-- `System.dealloc`, which is undefined for a pointer and layout that are not of a block. -/
def systemDealloc (ptr : Nat) (layout : Layout) : Option (Process κ) :=
  if (ptr, layout) ∈ p.blocks then some { p with blocks := p.blocks.erase (ptr, layout) } else none

/-- `alloc` of a layout that is delegated. -/
def systemAlloc (layout : Layout) (answer : Option Nat) (born : Slot) : Option (Process κ) :=
  match answer with
  | none => some p
  | some ptr =>
    if p.Honours layout ptr then
      some ({ p with blocks := (ptr, layout) :: p.blocks }.hold ⟨ptr, layout, .system, born⟩)
    else none

def fallbackAlloc (layout : Layout) (answer : Option Nat) (born : Slot) : Option (Process κ) :=
  match tryFallbackLayout layout with
  | none => some p
  | some rawLayout =>
    match answer with
    | none => some p
    | some raw =>
      if p.Honours rawLayout raw then
        match alignUpChecked (raw + SystemFallbackPrefix.sizeOf) (fallbackAlignment layout) with
        -- the raw block goes back at once
        | none => some p
        | some user =>
          some ({ p with
            world := { p.world with
              mem := SystemFallbackPrefix.write p.world.mem (user - SystemFallbackPrefix.sizeOf)
                ⟨fallbackMagic, raw, user⟩ }
            blocks := (raw, rawLayout) :: p.blocks }.hold
              ⟨user, layout, .fallback raw rawLayout, born⟩)
      else none

variable [DecidableEq κ]

def setSlot (k : κ) (slot : Slot) : Process κ :=
  { p with slots := Function.update p.slots k slot }

/-- The end of `alloc` or `dealloc` on thread `k`, when its allocator call has ended.  A panic
inside the shim has no defined behaviour. -/
def settle (k : κ) : Option (Process κ) :=
  match p.world.threads k, p.slots k with
  | .idle (some .panicked), .borrowed _ => none
  | .idle (some outcome), .borrowed (.allocating layout) =>
    let p := p.setSlot k .available
    match outcome with
    | .allocated ptr => some (p.hold ⟨ptr, layout, .orthotope, .available⟩)
    | _ => some p
  | .idle (some outcome), .borrowed (.freeing panicking) =>
    let p := p.setSlot k .available
    let result : Except FreeError Unit := match outcome with
      | .freeError e => .error e
      | _ => .ok ()
    match collapseDeallocResult panicking (.ok (some result)) with
    | .ok () => some p
    | .error _ => some p.abort
  | _, _ => some p

/-- `deallocate_with_size_checked` on thread `k`: a free of the pointer, which is among the live
ones or not. -/
def free (debug : Bool) (k : κ) (ptr size : Nat) : Option (World Unit κ FreeList Batch) :=
  match p.world.live.findIdx? fun e => e.ptr = ptr with
  | some i => p.world.step debug (.deallocate k () i (some size))
  | none => p.world.deallocatePtr debug k () ptr (some size)

/-- `alloc` on thread `k`. -/
def alloc (debug : Bool) (k : κ) (layout : Layout) (answer : Option Nat) : Option (Process κ) :=
  match selectBackend layout with
  | .system => p.systemAlloc layout answer (p.slots k)
  | .orthotope =>
    if (p.slots k).usable then
      (p.world.step debug (.allocate k () layout.size)).bind fun world =>
        ({ p with world }.setSlot k (.borrowed (.allocating layout))).settle k
    else p.fallbackAlloc layout answer (p.slots k)

/-- `dealloc` on thread `k`. -/
def dealloc (debug : Bool) (k : κ) (ptr : Nat) (layout : Layout) (panicking : Bool) :
    Option (Process κ) :=
  match selectBackend layout with
  | .system => p.systemDealloc ptr layout
  | .orthotope =>
    if ptr = 0 then some p
    else
      match fallbackRawPtr p.world.mem ptr with
      | some raw =>
        match tryFallbackLayout layout with
        | none => some p.abort
        | some rawLayout => p.systemDealloc raw rawLayout
      | none =>
        if (p.slots k).usable then
          (p.free debug k ptr layout.size).bind fun world =>
            ({ p with world }.setSlot k (.borrowed (.freeing panicking))).settle k
        else
          match collapseDeallocResult panicking (.ok none) with
          | .ok () => some p
          | .error _ => some p.abort

/-- A store of one byte by the program to an allocation that it holds. -/
def store (debug : Bool) (h : Held) (offset : Nat) (value : UInt8) : Option (Process κ) :=
  if offset < h.layout.size then
    match h.source with
    | .orthotope =>
      (p.world.live.findIdx? fun e => e.ptr = h.ptr).bind fun i =>
        (p.world.step debug (.store i offset value)).map fun world => { p with world }
    | _ => some { p with world := { p.world with
        mem := p.world.mem.write (h.ptr + offset) 1 value.toNat } }
  else none

/-- One action.  An action that is not possible in this state has no result, and neither has a step
that is undefined; after an abort nothing is possible. -/
def step (debug : Bool) (action : ProcessAction κ) : Option (Process κ) :=
  if p.aborted then none
  else
    match action with
    | .alloc k layout answer => p.alloc debug k layout answer
    | .dealloc k i panicking =>
      p.held[i]?.bind fun h =>
        { p with held := p.held.eraseIdx i }.dealloc debug k h.ptr h.layout panicking
    | .run k advised =>
      (p.world.step debug (.run k advised)).bind fun world => { p with world }.settle k
    | .borrow k => if (p.slots k).usable then some (p.setSlot k (.borrowed .other)) else none
    | .release k => if p.slots k = .borrowed .other then some (p.setSlot k .available) else none
    -- only a slot that has been used registers a destructor, which drains the cache
    | .teardown k =>
      if p.slots k = .available then
        (p.world.step debug (.drain k ())).map fun world => { p with world }.setSlot k .destroyed
      else none
    | .store i offset value => p.held[i]?.bind fun h => p.store debug h offset value
    | .scribble addr value =>
      if Clear addr 1 p.arena.base p.arena.len ∧
          ∀ block ∈ p.blocks, Clear addr 1 block.1 block.2.size then
        some { p with world := { p.world with mem := p.world.mem.write addr 1 value.toNat } }
      else none
    | .discard page => (p.world.step debug (.discard page)).map fun world => { p with world }

def runs (debug : Bool) : Process κ → List (ProcessAction κ) → Option (Process κ)
  | p, [] => some p
  | p, action :: actions => (p.step debug action).bind fun p => runs debug p actions

end Process

namespace Setup

variable {κ : Type} [DecidableEq κ] (setup : Setup Unit κ)

/-- The process before its first allocation. -/
def process : Process κ where
  world := setup.world FreeList Batch
  slots := fun _ => .absent
  blocks := []
  held := []
  aborted := false

/-- The states that actions lead to which are all of the given kind where they happen. -/
inductive Reaches (ok : Process κ → ProcessAction κ → Prop) : Process κ → Prop
  | initial : Reaches ok setup.process
  | step {p p' : Process κ} (action : ProcessAction κ) (h : Reaches ok p) (hok : ok p action)
      (hstep : p.step setup.debug action = some p') : Reaches ok p'

end Setup

@[simp] theorem Process.setSlot_slots {κ : Type} [DecidableEq κ] (p : Process κ) (k : κ)
    (slot : Slot) : (p.setSlot k slot).slots k = slot := Function.update_self ..

/-! ### Layouts and prefixes -/

section Layouts

variable {layout rawLayout : Layout} {raw user : Nat}

theorem selectBackend_eq_orthotope :
    selectBackend layout = .orthotope ↔ 0 < layout.size ∧ layout.align ≤ headerAlignment := by
  unfold selectBackend
  split
  · simp only [reduceCtorEq, false_iff]
    omega
  · simp only [true_iff]
    omega

theorem dvd_of_isPowerOfTwo_le {m n : Nat} (hm : m.isPowerOfTwo) (hn : n.isPowerOfTwo)
    (h : m ≤ n) : m ∣ n := by
  obtain ⟨i, rfl⟩ := hm
  obtain ⟨j, rfl⟩ := hn
  exact Nat.pow_dvd_pow 2 ((Nat.pow_le_pow_iff_right (by omega)).mp h)

theorem fallbackAlignment_ge (layout : Layout) :
    SystemFallbackPrefix.alignOf ≤ fallbackAlignment layout := by
  unfold fallbackAlignment
  split <;> omega

/-- The alignment of a fallback block serves the layout as well. -/
theorem dvd_fallbackAlignment (layout : Layout) : layout.align ∣ fallbackAlignment layout := by
  unfold fallbackAlignment
  split
  · exact Nat.dvd_refl _
  · have h8 : Nat.isPowerOfTwo SystemFallbackPrefix.alignOf := ⟨3, rfl⟩
    exact dvd_of_isPowerOfTwo_le layout.align_isPowerOfTwo h8 (by omega)

theorem Layout.fromSizeAlign_eq_some {size align : Nat}
    (h : fromSizeAlign size align = some layout) :
    layout.size = size ∧ layout.align = align := by
  unfold fromSizeAlign at h
  split at h
  · obtain rfl := Option.some.inj h
    exact ⟨rfl, rfl⟩
  · cases h

theorem checkedAdd_eq_some {a b sum : Nat} (h : checkedAdd a b = some sum) : sum = a + b := by
  unfold checkedAdd at h
  split at h
  · exact (Option.some.inj h).symm
  · cases h

/-- The raw layout has room for the prefix, and for any shift to an aligned address. -/
theorem tryFallbackLayout_eq_some (h : tryFallbackLayout layout = some rawLayout) :
    rawLayout.size = layout.size + SystemFallbackPrefix.sizeOf + (fallbackAlignment layout - 1) ∧
      rawLayout.align = fallbackAlignment layout := by
  obtain ⟨size, hsize, h⟩ := Option.bind_eq_some_iff.mp h
  obtain ⟨front, hfront, hsize⟩ := Option.bind_eq_some_iff.mp hsize
  obtain ⟨h1, h2⟩ := Layout.fromSizeAlign_eq_some h
  rw [checkedAdd_eq_some hsize, checkedAdd_eq_some hfront] at h1
  exact ⟨h1, h2⟩

/-- Where a fallback pointer lies in its raw block. -/
structure FallbackPlaced (layout rawLayout : Layout) (raw user : Nat) : Prop where
  front : raw + SystemFallbackPrefix.sizeOf ≤ user
  back : user + layout.size ≤ raw + rawLayout.size
  aligned : user % layout.align = 0

theorem fallbackPlaced (hlayout : tryFallbackLayout layout = some rawLayout)
    (huser : alignUpChecked (raw + SystemFallbackPrefix.sizeOf) (fallbackAlignment layout) =
      some user) : FallbackPlaced layout rawLayout raw user := by
  obtain rfl := alignUpChecked_eq_some huser
  have hpos : 0 < fallbackAlignment layout := by
    have := fallbackAlignment_ge layout
    unfold SystemFallbackPrefix.alignOf at this
    omega
  obtain ⟨hsize, -⟩ := tryFallbackLayout_eq_some hlayout
  refine ⟨le_alignUp _ _, ?_, ?_⟩
  · have hlt : alignUp (raw + SystemFallbackPrefix.sizeOf) (fallbackAlignment layout) <
      raw + SystemFallbackPrefix.sizeOf + fallbackAlignment layout := alignUp_lt hpos
    omega
  · exact Nat.mod_eq_zero_of_dvd ((dvd_fallbackAlignment layout).trans (dvd_alignUp hpos))

end Layouts

section Prefixes

variable {m m' : Mem} {addr ptr raw : Nat}

theorem SystemFallbackPrefix.read_congr
    (h : ∀ y, addr ≤ y → y < addr + sizeOf → m'.byte y = m.byte y) :
    read m' addr = read m addr := by
  unfold sizeOf at h
  have hword : ∀ off, off + 8 ≤ 24 → m'.read (addr + off) 8 = m.read (addr + off) 8 :=
    fun off hoff => Mem.read_congr fun i hi => h _ (by omega) (by omega)
  unfold read
  rw [hword 8 (by omega), hword 16 (by omega)]
  have hfirst : m'.read addr 8 = m.read addr 8 := hword 0 (by omega)
  rw [hfirst]

theorem SystemFallbackPrefix.read_write {p : SystemFallbackPrefix} (hmagic : p.magic < 2 ^ 64)
    (hraw : p.rawAddr < 2 ^ 64) (huser : p.userAddr < 2 ^ 64) : read (write m addr p) addr = p := by
  simp (disch := omega) only [read, write, Mem.read_write_disjoint, Mem.read_write_same]

theorem SystemFallbackPrefix.writesIn_write (m : Mem) (addr : Nat) (p : SystemFallbackPrefix) :
    WritesIn (fun y => addr ≤ y ∧ y < addr + sizeOf) m (write m addr p) := by
  unfold write sizeOf
  refine (WritesIn.write fun y h1 h2 => ?_).trans
    ((WritesIn.write fun y h1 h2 => ?_).trans (WritesIn.write fun y h1 h2 => ?_))
  · omega
  · omega
  · omega

/-- What `fallback_raw_ptr` finds depends on the bytes in front of the pointer. -/
theorem fallbackRawPtr_congr
    (h : ∀ y, y < ptr → ptr ≤ y + SystemFallbackPrefix.sizeOf → m'.byte y = m.byte y) :
    fallbackRawPtr m' ptr = fallbackRawPtr m ptr := by
  unfold fallbackRawPtr
  split
  · rfl
  · rw [SystemFallbackPrefix.read_congr fun y h1 h2 => h y (by omega) (by omega)]

/-- The prefix of a fallback allocation leads back to its raw pointer. -/
theorem fallbackRawPtr_write (hptr : SystemFallbackPrefix.sizeOf < ptr) (hlt : ptr < 2 ^ 64)
    (hraw : raw < 2 ^ 64) :
    fallbackRawPtr (SystemFallbackPrefix.write m (ptr - SystemFallbackPrefix.sizeOf)
      ⟨fallbackMagic, raw, ptr⟩) ptr = some raw := by
  have hmagic : fallbackMagic < 2 ^ 64 := by decide
  have h1 : ¬ptr < SystemFallbackPrefix.sizeOf := by omega
  have h2 : ¬ptr - SystemFallbackPrefix.sizeOf = fallbackEmpty := by
    unfold fallbackEmpty
    omega
  have hread : SystemFallbackPrefix.read (SystemFallbackPrefix.write m
      (ptr - SystemFallbackPrefix.sizeOf) ⟨fallbackMagic, raw, ptr⟩)
        (ptr - SystemFallbackPrefix.sizeOf) = ⟨fallbackMagic, raw, ptr⟩ :=
    SystemFallbackPrefix.read_write hmagic hraw hlt
  simp [fallbackRawPtr, h1, h2, hread]

/-- Zeros in front of a pointer are no prefix. -/
theorem fallbackRawPtr_zero
    (h : ∀ y, y < ptr → ptr ≤ y + SystemFallbackPrefix.sizeOf → m.byte y = 0) :
    fallbackRawPtr m ptr = none := by
  unfold fallbackRawPtr
  split
  · rfl
  · split
    · rfl
    · rename_i hle _
      have hmagic : m.read (ptr - SystemFallbackPrefix.sizeOf) 8 = 0 :=
        Mem.read_zero fun i hi => h _ (by unfold SystemFallbackPrefix.sizeOf at *; omega) (by omega)
      have hne : (SystemFallbackPrefix.read m (ptr - SystemFallbackPrefix.sizeOf)).magic ≠
          fallbackMagic := by
        simp only [SystemFallbackPrefix.read, hmagic]
        decide
      exact if_pos (Or.inl hne)

end Prefixes

end Orthotope
