import Orthotope.LocalCache
import Orthotope.Lib.BagSum

/-! The local cache over plain sequences.  Its blocks form four bags: the hot block, the reclaimed
blocks of its slabs, their fresh blocks and the shared list.  `LocalClassCache.Inv` ties counters,
indices and availability to these, and each operation is given by what it moves between them. -/

namespace Orthotope

open ByteMemory IndexedVec BagSum

/-- The block starts of a slab, from the first one on. -/
def slabBlocks (start blockSize capacity : Nat) : List Nat :=
  (List.range capacity).map fun i => start + i * blockSize

@[simp] theorem length_slabBlocks (start blockSize capacity : Nat) :
    (slabBlocks start blockSize capacity).length = capacity := by
  simp [slabBlocks]

theorem mem_slabBlocks {start blockSize capacity b : Nat} :
    b ∈ slabBlocks start blockSize capacity ↔ ∃ i < capacity, b = start + i * blockSize := by
  simp [slabBlocks, eq_comm]

theorem slabBlocks_nodup {start blockSize : Nat} (h : 0 < blockSize) (capacity : Nat) :
    (slabBlocks start blockSize capacity).Nodup := by
  refine List.Nodup.map (fun i j hij => ?_) List.nodup_range
  exact Nat.eq_of_mul_eq_mul_right h (by simpa using hij)

/-- A block lies in its slab as a whole. -/
theorem slabBlocks_bounds {start blockSize capacity b : Nat}
    (h : b ∈ slabBlocks start blockSize capacity) :
    start ≤ b ∧ b + blockSize ≤ start + blockSize * capacity := by
  obtain ⟨i, hi, rfl⟩ := mem_slabBlocks.mp h
  refine ⟨by omega, ?_⟩
  calc start + i * blockSize + blockSize = start + blockSize * (i + 1) := by ring
    _ ≤ start + blockSize * capacity := by
      have := Nat.mul_le_mul_left blockSize (show i + 1 ≤ capacity from hi)
      omega

/-- The header writes of a drain that takes fresh blocks. -/
def initializeAll (m : Mem) (c : SizeClass) (blocks : List Nat) : Mem :=
  blocks.foldl (fun m b => initializeSmallToBlockUnchecked m b c) m

/-! ### One slab -/

namespace LocalSlab

/-- The part of a record that is fixed when the slab is carved. -/
def shape {L : Type} (slab : LocalSlab L) : Nat × Nat × Nat × Nat :=
  (slab.start, slab.endAddr, slab.blockSize, slab.capacity)

def blocks {L : Type} (slab : LocalSlab L) : List Nat :=
  slabBlocks slab.start slab.blockSize slab.capacity

/-- The blocks that were never handed out since the slab was loaned. -/
def freshBlocks {L : Type} (slab : LocalSlab L) : List Nat := slab.blocks.drop slab.nextFresh

structure Ok (slab : LocalSlab (List Nat)) : Prop where
  end_eq : slab.endAddr = slab.start + slab.blockSize * slab.capacity
  blockSize_pos : 0 < slab.blockSize
  nextFresh_le : slab.nextFresh ≤ slab.capacity
  free_mem : ∀ b ∈ slab.free, b ∈ slab.blocks

variable {slab : LocalSlab (List Nat)} {m : Mem}

theorem length_freshBlocks {L : Type} (slab : LocalSlab L) :
    slab.freshBlocks.length = slab.capacity - slab.nextFresh := by
  simp [freshBlocks, blocks]

theorem hasAvailableBlocks_iff :
    slab.hasAvailableBlocks = true ↔ slab.free ≠ [] ∨ slab.freshBlocks ≠ [] := by
  have hlen := slab.length_freshBlocks
  simp only [hasAvailableBlocks, Bool.or_eq_true, decide_eq_true_eq, seq_isEmpty, Bool.not_eq_true',
    List.isEmpty_eq_false_iff]
  rw [← List.length_pos_iff (l := slab.freshBlocks), hlen]
  constructor
  · rintro (h | h)
    · exact Or.inr (by omega)
    · exact Or.inl h
  · rintro (h | h)
    · exact Or.inr h
    · exact Or.inl (by omega)

theorem freshBlocks_eq_cons (h : slab.nextFresh < slab.capacity) :
    slab.freshBlocks = (slab.start + slab.nextFresh * slab.blockSize) ::
      ({ slab with nextFresh := slab.nextFresh + 1 } : LocalSlab (List Nat)).freshBlocks := by
  have hlt : slab.nextFresh < slab.blocks.length := by simpa [blocks] using h
  rw [freshBlocks, List.drop_eq_getElem_cons hlt]
  simp [freshBlocks, blocks, slabBlocks]

/-- A slab that has a block gives up a reclaimed one, else its first fresh one. -/
theorem popBlockUnchecked_spec (ok : slab.Ok) (h : slab.hasAvailableBlocks = true) :
    ∃ block reuse slab', slab.popBlockUnchecked m = some (block, reuse, slab') ∧ slab'.Ok ∧
      slab'.shape = slab.shape ∧ slab'.availableSlot = slab.availableSlot ∧
      ((reuse = .hotReuseRequestedOnly ∧ slab.free = block :: slab'.free ∧
          slab'.freshBlocks = slab.freshBlocks) ∨
        (reuse = .needsHeaderRewrite ∧ slab'.free = slab.free ∧
          slab.freshBlocks = block :: slab'.freshBlocks)) := by
  cases hf : slab.free with
  | cons b rest =>
    refine ⟨b, .hotReuseRequestedOnly, { slab with free := rest }, by simp [popBlockUnchecked, hf],
      ⟨ok.end_eq, ok.blockSize_pos, ok.nextFresh_le, fun x hx => ok.free_mem x ?_⟩, rfl, rfl,
      Or.inl ⟨rfl, rfl, rfl⟩⟩
    simp [hf, hx]
  | nil =>
    have hlt : slab.nextFresh < slab.capacity := by
      simpa [hasAvailableBlocks, hf] using h
    refine ⟨_, .needsHeaderRewrite, { slab with nextFresh := slab.nextFresh + 1 },
      by simp [popBlockUnchecked, hf], ⟨ok.end_eq, ok.blockSize_pos, hlt, ok.free_mem⟩, rfl, rfl,
      Or.inr ⟨rfl, hf, freshBlocks_eq_cons hlt⟩⟩

theorem drainReclaimed_eq (n : Nat) (free list : List Nat) (h : n ≤ free.length) :
    drainReclaimed m n free list = some (m, free.drop n, (free.take n).reverse ++ list) := by
  induction n generalizing free list with
  | zero => simp [drainReclaimed]
  | succ n ih =>
    cases free with
    | nil => simp at h
    | cons b free => simp [drainReclaimed, ih free (b :: list) (by simpa using h)]

theorem slabBlocks_succ (block blockSize n : Nat) : slabBlocks block blockSize (n + 1) =
    block :: slabBlocks (block + blockSize) blockSize n := by
  simp only [slabBlocks, List.range_succ_eq_map, List.map_cons, List.map_map, Nat.zero_mul,
    Nat.add_zero, List.cons.injEq, true_and]
  refine List.map_congr_left fun i _ => ?_
  simp only [Function.comp_apply, Nat.succ_mul]
  omega

theorem drainFresh_eq (c : SizeClass) (blockSize n block : Nat) (list : List Nat) :
    drainFresh m c blockSize n block list =
      (initializeAll m c (slabBlocks block blockSize n),
        (slabBlocks block blockSize n).reverse ++ list) := by
  induction n generalizing m block list with
  | zero => simp [drainFresh, slabBlocks, initializeAll]
  | succ n ih => simp [drainFresh, ih, slabBlocks_succ, initializeAll]

/-- The first `n` fresh blocks and the ones behind them. -/
theorem freshBlocks_split {n : Nat} (h : n ≤ slab.capacity - slab.nextFresh) :
    slab.freshBlocks = slabBlocks (slab.start + slab.nextFresh * slab.blockSize) slab.blockSize n ++
      ({ slab with nextFresh := slab.nextFresh + n } : LocalSlab (List Nat)).freshBlocks := by
  rw [← List.take_append_drop n slab.freshBlocks]
  congr 1
  · refine List.ext_getElem (by simp [freshBlocks, blocks]; omega) fun i h1 h2 => ?_
    simp only [freshBlocks, blocks, slabBlocks, List.getElem_take, List.getElem_drop,
      List.getElem_map, List.getElem_range, Nat.add_mul]
    omega
  · simp [freshBlocks, blocks, List.drop_drop]

/-- A drain of up to `max` blocks takes reclaimed blocks first and initializes the fresh ones it
takes. -/
theorem popBatch_spec (ok : slab.Ok) (h : slab.hasAvailableBlocks = true) {max : Nat}
    (hmax : 0 < max) (c : SizeClass) :
    ∃ reclaimed fresh slab', slab.popBatch m max c =
        some (initializeAll m c fresh, fresh.reverse ++ reclaimed.reverse, slab') ∧
      slab'.Ok ∧ slab'.shape = slab.shape ∧ slab'.availableSlot = slab.availableSlot ∧
      slab.free = reclaimed ++ slab'.free ∧ slab.freshBlocks = fresh ++ slab'.freshBlocks ∧
      0 < (fresh ++ reclaimed).length ∧ (fresh ++ reclaimed).length ≤ max := by
  let r := min slab.free.length max
  let f := min (max - r) (slab.capacity - slab.nextFresh)
  let fresh := slabBlocks (slab.start + slab.nextFresh * slab.blockSize) slab.blockSize f
  have hav : 0 < slab.free.length ∨ slab.nextFresh < slab.capacity := by
    rw [hasAvailableBlocks_iff, ← List.length_pos_iff, ← List.length_pos_iff,
      length_freshBlocks] at h
    omega
  have hpos : 0 < r + f := by omega
  refine ⟨slab.free.take r, fresh,
    { slab with free := slab.free.drop r, nextFresh := slab.nextFresh + f },
    ?_, ⟨ok.end_eq, ok.blockSize_pos, ?_, fun b hb => ok.free_mem b (List.mem_of_mem_drop hb)⟩,
    rfl, rfl, (List.take_append_drop r slab.free).symm, freshBlocks_split (Nat.min_le_right _ _),
    ?_, ?_⟩
  · have hlen : (fresh.reverse ++ (slab.free.take r).reverse).length = r + f := by
      simp [fresh, r, f]
      omega
    have hne : fresh.reverse ++ (slab.free.take r).reverse ≠ [] := by
      rw [← List.length_pos_iff, hlen]
      exact hpos
    have hred := drainReclaimed_eq (m := m) r slab.free [] (Nat.min_le_left _ _)
    have htake := List.take_of_length_le (Nat.le_of_eq hlen)
    simp only [popBatch, seq_len, seq_empty]
    rw [show min slab.free.length max = r from rfl, hred]
    simp only [Option.bind_some, drainFresh_eq, List.append_nil, seq_popBatchUnchecked]
    rw [show min (max - r) (slab.capacity - slab.nextFresh) = f from rfl,
      show slabBlocks (slab.start + slab.nextFresh * slab.blockSize) slab.blockSize f = fresh
        from rfl, htake, if_neg (not_or.mpr ⟨hne, by omega⟩)]
    rfl
  · have := ok.nextFresh_le
    simp only [f]
    omega
  · simp [fresh, r, f]
    omega
  · simp [fresh, r, f]
    omega

end LocalSlab

/-! ### The bags of a class cache -/

namespace LocalClassCache

variable (cache : LocalClassCache (List Nat))

def hotBag : Multiset Nat := (cache.hotBlock.toList : Multiset Nat)

def freeBag : Multiset Nat := total (fun slab => (slab.free : Multiset Nat)) cache.slabs

def freshBag : Multiset Nat := total (fun slab => (slab.freshBlocks : Multiset Nat)) cache.slabs

def sharedBag : Multiset Nat := (cache.shared : Multiset Nat)

/-- The blocks whose header still names this cache. -/
def ownedBag : Multiset Nat := cache.hotBag + cache.freeBag

def bag : Multiset Nat := cache.ownedBag + cache.freshBag + cache.sharedBag

def shapes : List (Nat × Nat × Nat × Nat) := cache.slabs.map LocalSlab.shape

theorem hotBag_le_bag : cache.hotBag ≤ cache.bag := by
  rw [bag, ownedBag, add_assoc, add_assoc]
  exact Multiset.le_add_right _ _

theorem freeBag_le_bag : cache.freeBag ≤ cache.bag := by
  rw [bag, ownedBag, add_comm cache.hotBag, add_assoc, add_assoc]
  exact Multiset.le_add_right _ _

theorem freshBag_le_bag : cache.freshBag ≤ cache.bag := by
  rw [bag, add_comm cache.ownedBag, add_assoc]
  exact Multiset.le_add_right _ _

theorem sharedBag_le_bag : cache.sharedBag ≤ cache.bag := Multiset.le_add_left _ _

/-- Slab `id` is listed as available exactly when it has a block. -/
def ListedRight (id : Nat) : Prop :=
  ∀ slab, cache.slabs[id]? = some slab →
    (slab.availableSlot.isSome = true ↔ slab.hasAvailableBlocks = true)

/-- The invariant, with the availability of the slabs in `P` left open: an operation changes a slab
first and relists it afterwards. -/
structure InvExcept (P : Nat → Prop) : Prop where
  slab_ok : ∀ slab ∈ cache.slabs, slab.Ok
  sharedLen_eq : cache.sharedLen = cache.shared.length
  totalLen_eq : cache.totalLen = cache.bag.card
  slots : Slots cache.availableSlabs cache.availableSlot
  listed : ∀ id, ¬P id → cache.ListedRight id
  index : SortedIndex cache.slabStart cache.slabs.length cache.slabsByStart
  recent_lt : ∀ id, cache.recentSlab = some id → id < cache.slabs.length

def Inv : Prop := cache.InvExcept fun _ => False

variable {cache} {cache' : LocalClassCache (List Nat)} {P : Nat → Prop}

theorem Inv.except (inv : cache.Inv) (P : Nat → Prop) : cache.InvExcept P :=
  { inv with listed := fun id _ => inv.listed id not_false }

theorem new_inv : (new : LocalClassCache (List Nat)).Inv where
  slab_ok := by simp [new]
  sharedLen_eq := by simp [new]
  totalLen_eq := by simp [new, bag, ownedBag, hotBag, freeBag, freshBag, sharedBag]
  slots := Slots.nil fun id => by simp [new, availableSlot]
  listed := by simp [new, ListedRight]
  index := SortedIndex.nil _
  recent_lt := by simp [new]

@[simp] theorem new_bag : (new : LocalClassCache (List Nat)).bag = 0 := by
  simp [new, bag, ownedBag, hotBag, freeBag, freshBag, sharedBag]

/-! ### Relisting a slab -/

/-- `cache'` differs from `cache` in the availability lists only. -/
structure SameBut (cache cache' : LocalClassCache (List Nat)) : Prop where
  hot : cache'.hotBlock = cache.hotBlock
  slabs : cache'.slabs.map (fun slab => { slab with availableSlot := none }) =
    cache.slabs.map fun slab => { slab with availableSlot := none }
  byStart : cache'.slabsByStart = cache.slabsByStart
  recent : cache'.recentSlab = cache.recentSlab
  shared : cache'.shared = cache.shared
  sharedLen : cache'.sharedLen = cache.sharedLen
  totalLen : cache'.totalLen = cache.totalLen

namespace SameBut

theorem refl (cache : LocalClassCache (List Nat)) : SameBut cache cache :=
  ⟨rfl, rfl, rfl, rfl, rfl, rfl, rfl⟩

theorem trans {c₁ c₂ c₃ : LocalClassCache (List Nat)} (h : SameBut c₁ c₂) (h' : SameBut c₂ c₃) :
    SameBut c₁ c₃ :=
  ⟨h'.hot.trans h.hot, h'.slabs.trans h.slabs, h'.byStart.trans h.byStart,
    h'.recent.trans h.recent, h'.shared.trans h.shared, h'.sharedLen.trans h.sharedLen,
    h'.totalLen.trans h.totalLen⟩

theorem getElem? (h : SameBut cache cache') (id : Nat) {slab' : LocalSlab (List Nat)}
    (hid : cache'.slabs[id]? = some slab') : ∃ slab, cache.slabs[id]? = some slab ∧
      ({ slab' with availableSlot := none } : LocalSlab (List Nat)) =
        { slab with availableSlot := none } := by
  have := congrArg (fun l => l[id]?) h.slabs
  simp only [List.getElem?_map, hid, Option.map_some] at this
  cases hs : cache.slabs[id]? with
  | none => simp [hs] at this
  | some slab => exact ⟨slab, rfl, by simpa [hs] using this⟩

/-- A quantity that does not depend on the slot has the same values. -/
theorem map_eq {γ : Type} (h : SameBut cache cache') {f : LocalSlab (List Nat) → γ}
    (hf : ∀ slab, f { slab with availableSlot := none } = f slab) :
    cache'.slabs.map f = cache.slabs.map f := by
  have := congrArg (List.map f) h.slabs
  simpa [List.map_map, Function.comp_def, hf] using this

theorem apply_eq {γ : Type} (h : SameBut cache cache') {id : Nat}
    {slab slab' : LocalSlab (List Nat)} (hid' : cache'.slabs[id]? = some slab')
    (hid : cache.slabs[id]? = some slab) {f : LocalSlab (List Nat) → γ}
    (hf : ∀ slab, f { slab with availableSlot := none } = f slab) : f slab' = f slab := by
  have := congrArg (fun l => l[id]?) (h.map_eq hf)
  simpa [List.getElem?_map, hid, hid'] using this

theorem freeBag (h : SameBut cache cache') : cache'.freeBag = cache.freeBag := by
  simp only [LocalClassCache.freeBag, total, h.map_eq (f := fun slab => (slab.free : Multiset Nat))
    fun _ => rfl]

theorem freshBag (h : SameBut cache cache') : cache'.freshBag = cache.freshBag := by
  simp only [LocalClassCache.freshBag, total,
    h.map_eq (f := fun slab => (slab.freshBlocks : Multiset Nat)) fun _ => rfl]

theorem hotBag (h : SameBut cache cache') : cache'.hotBag = cache.hotBag := by
  simp only [LocalClassCache.hotBag, h.hot]

theorem sharedBag (h : SameBut cache cache') : cache'.sharedBag = cache.sharedBag := by
  simp only [LocalClassCache.sharedBag, h.shared]

theorem ownedBag (h : SameBut cache cache') : cache'.ownedBag = cache.ownedBag := by
  simp only [LocalClassCache.ownedBag, h.hotBag, h.freeBag]

theorem bag (h : SameBut cache cache') : cache'.bag = cache.bag := by
  simp only [LocalClassCache.bag, h.ownedBag, h.freshBag, h.sharedBag]

theorem shapes (h : SameBut cache cache') : cache'.shapes = cache.shapes :=
  h.map_eq fun _ => rfl

theorem length (h : SameBut cache cache') : cache'.slabs.length = cache.slabs.length := by
  simpa using congrArg List.length h.slabs

theorem slabStart (h : SameBut cache cache') (id : Nat) :
    cache'.slabStart id = cache.slabStart id := by
  have := congrArg (fun l => l[id]?) (h.map_eq (f := LocalSlab.start) fun _ => rfl)
  simp only [List.getElem?_map] at this
  simp only [LocalClassCache.slabStart, this]

/-- The invariant goes over to `cache'`, once its own lists are right. -/
theorem invExcept {Q : Nat → Prop} (h : SameBut cache cache') (inv : cache.InvExcept P)
    (hslots : Slots cache'.availableSlabs cache'.availableSlot)
    (hlisted : ∀ id, ¬Q id → cache'.ListedRight id) : cache'.InvExcept Q where
  slab_ok := by
    intro slab' hslab'
    obtain ⟨id, hid⟩ := List.mem_iff_getElem?.mp hslab'
    obtain ⟨slab, hs, heq⟩ := h.getElem? id hid
    have ok := inv.slab_ok slab (List.mem_of_getElem? hs)
    have ok' : ({ slab with availableSlot := none } : LocalSlab (List Nat)).Ok :=
      ⟨ok.end_eq, ok.blockSize_pos, ok.nextFresh_le, ok.free_mem⟩
    rw [← heq] at ok'
    exact ⟨ok'.end_eq, ok'.blockSize_pos, ok'.nextFresh_le, ok'.free_mem⟩
  sharedLen_eq := by rw [h.sharedLen, h.shared, inv.sharedLen_eq]
  totalLen_eq := by rw [h.totalLen, h.bag, inv.totalLen_eq]
  slots := hslots
  listed := hlisted
  index := by
    rw [h.byStart, h.length]
    exact inv.index.congr fun i _ => h.slabStart i
  recent_lt := by
    rw [h.recent, h.length]
    exact inv.recent_lt

end SameBut

theorem sameBut_setAvailableSlot (cache : LocalClassCache (List Nat)) (id : Nat)
    (slot : Option Nat) (ids : List Nat) :
    SameBut cache { cache.setAvailableSlot id slot with availableSlabs := ids } := by
  refine ⟨rfl, ?_, rfl, rfl, rfl, rfl, rfl⟩
  refine List.ext_getElem? fun j => ?_
  simp only [setAvailableSlot, List.getElem?_map, List.getElem?_modify]
  cases cache.slabs[j]? with
  | none => simp
  | some slab =>
    by_cases hj : id = j <;> simp [hj]

theorem availableSlot_setAvailableSlot (cache : LocalClassCache (List Nat)) {id : Nat}
    (hid : id < cache.slabs.length) (slot : Option Nat) (j : Nat) :
    (cache.setAvailableSlot id slot).availableSlot j =
      if j = id then slot else cache.availableSlot j := by
  simp only [availableSlot, setAvailableSlot, List.getElem?_modify]
  by_cases hj : j = id
  · subst hj
    simp [List.getElem?_eq_getElem hid]
  · simp [hj, Ne.symm hj]

theorem lt_length_of_slot {id i : Nat} (h : cache.availableSlot id = some i) :
    id < cache.slabs.length := by
  by_contra hc
  simp [availableSlot, List.getElem?_eq_none (Nat.le_of_not_lt hc)] at h

theorem slot_eq_of_getElem? {id : Nat} {slab : LocalSlab (List Nat)}
    (h : cache.slabs[id]? = some slab) : cache.availableSlot id = slab.availableSlot := by
  simp [availableSlot, h]

/-- What relisting a slab leaves: only the lists change, and only slab `id` changes its side. -/
structure Relists (id : Nat) (on : Bool) (cache cache' : LocalClassCache (List Nat)) : Prop where
  same : SameBut cache cache'
  slots : Slots cache'.availableSlabs cache'.availableSlot
  isSome : ∀ j, (cache'.availableSlot j).isSome =
    if j = id then on else (cache.availableSlot j).isSome

theorem relists_markSlabAvailable (hs : Slots cache.availableSlabs cache.availableSlot) {id : Nat}
    (hid : id < cache.slabs.length) : Relists id true cache (cache.markSlabAvailable id) := by
  unfold markSlabAvailable
  split
  · rename_i hsome
    exact ⟨SameBut.refl _, hs, fun j => by by_cases hj : j = id <;> simp [hj, hsome]⟩
  · rename_i hnone
    have hnone' : cache.availableSlot id = none := by simpa using hnone
    have hget := cache.availableSlot_setAvailableSlot hid (some cache.availableSlabs.length)
    refine ⟨sameBut_setAvailableSlot _ _ _ _, (hs.push hnone').congr fun j => ?_, fun j => ?_⟩
    · exact (hget j).trans (by by_cases hj : j = id <;> simp [hj])
    · exact (congrArg Option.isSome (hget j)).trans (by by_cases hj : j = id <;> simp [hj])

theorem relists_markSlabUnavailable (hs : Slots cache.availableSlabs cache.availableSlot)
    (id : Nat) : Relists id false cache (cache.markSlabUnavailable id) := by
  unfold markSlabUnavailable
  split
  · rename_i hnone
    exact ⟨SameBut.refl _, hs, fun j => by by_cases hj : j = id <;> simp [hj, hnone]⟩
  · rename_i slot hslot
    have hid := lt_length_of_slot hslot
    have hrem := hs.swapRemove hslot
    have hget := cache.availableSlot_setAvailableSlot hid none
    simp only
    split
    · rename_i moved hmoved
      -- the moved entry was listed, at the end, and is not the removed one
      have hmoved_slot := (hrem slot moved).mp hmoved
      have hne : moved ≠ id := by
        rintro rfl
        simp at hmoved_slot
      have hmem : moved ∈ cache.availableSlabs :=
        mem_of_mem_swapRemove (List.mem_of_getElem? hmoved)
      obtain ⟨i, hi⟩ := hs.mem_iff.mp hmem
      have hmid := lt_length_of_slot hi
      let mid : LocalClassCache (List Nat) := { cache.setAvailableSlot id none with
        availableSlabs := swapRemove cache.availableSlabs slot }
      have hlen : moved < mid.slabs.length := by
        simpa [mid, setAvailableSlot] using hmid
      have hget' := mid.availableSlot_setAvailableSlot hlen (some slot)
      have hall : ∀ j, (mid.setAvailableSlot moved (some slot)).availableSlot j =
          if j = id then none else if (swapRemove cache.availableSlabs slot)[slot]? = some j
            then some slot else cache.availableSlot j := by
        intro j
        rw [hget' j, hmoved]
        by_cases hj : j = moved
        · subst hj
          simp [hne]
        · have hmj : ¬moved = j := fun h => hj h.symm
          simp only [hj, if_false, Option.some_inj, hmj]
          exact hget j
      refine ⟨(sameBut_setAvailableSlot _ _ _ _).trans (sameBut_setAvailableSlot mid moved _ _),
        hrem.congr hall, fun j => ?_⟩
      rw [hall j, hmoved]
      by_cases hj : j = id
      · simp [hj]
      · by_cases hjm : moved = j
        · subst hjm
          simp [hne, hi]
        · simp [hj, hjm]
    · rename_i hgone
      refine ⟨sameBut_setAvailableSlot _ _ _ _, hrem.congr fun j => ?_, fun j => ?_⟩
      · rw [hgone]
        exact (hget j).trans (by by_cases hj : j = id <;> simp [hj])
      · exact (congrArg Option.isSome (hget j)).trans (by by_cases hj : j = id <;> simp [hj])

/-- Relisting slab `id` leaves its availability open and that of the others right. -/
theorem Relists.invExcept {id : Nat} {on : Bool} (h : Relists id on cache cache')
    (inv : cache.InvExcept fun j => j = id) : cache'.InvExcept fun j => j = id := by
  refine h.same.invExcept inv h.slots fun j hj slab' hid' => ?_
  obtain ⟨slab, hid, _⟩ := h.same.getElem? j hid'
  have hsome := h.isSome j
  rw [slot_eq_of_getElem? hid', slot_eq_of_getElem? hid, if_neg hj] at hsome
  rw [h.same.apply_eq hid' hid (f := LocalSlab.hasAvailableBlocks) fun _ => rfl, hsome]
  exact inv.listed j hj slab hid

/-- Relisting slab `id` on the side where it belongs completes the invariant. -/
theorem Relists.inv {id : Nat} {on : Bool} (h : Relists id on cache cache')
    (inv : cache.InvExcept fun j => j = id)
    (hon : ∀ slab, cache.slabs[id]? = some slab → slab.hasAvailableBlocks = on) : cache'.Inv := by
  refine { h.invExcept inv with listed := fun j _ => ?_ }
  by_cases hj : j = id
  · subst hj
    intro slab' hid'
    obtain ⟨slab, hid, _⟩ := h.same.getElem? j hid'
    have hsome := h.isSome j
    rw [slot_eq_of_getElem? hid', if_pos rfl] at hsome
    rw [h.same.apply_eq hid' hid (f := LocalSlab.hasAvailableBlocks) fun _ => rfl, hsome,
      hon slab hid]
  · exact (h.invExcept inv).listed j hj

/-! ### Changing one slab -/

/-- Replaces slab `id`, which becomes the recent one. -/
def setSlab (cache : LocalClassCache (List Nat)) (id : Nat) (slab : LocalSlab (List Nat))
    (recentSlab : Option Nat) (totalLen : Nat) : LocalClassCache (List Nat) :=
  { cache with slabs := cache.slabs.set id slab, recentSlab, totalLen }

section SetSlab

variable {id len : Nat} {recent : Option Nat} {slab slab' : LocalSlab (List Nat)}

theorem setSlab_freeBag (slab' : LocalSlab (List Nat)) (recent : Option Nat) (len : Nat)
    (hid : cache.slabs[id]? = some slab) :
    (cache.setSlab id slab' recent len).freeBag + (slab.free : Multiset Nat) =
      cache.freeBag + (slab'.free : Multiset Nat) :=
  total_set hid

theorem setSlab_freshBag (slab' : LocalSlab (List Nat)) (recent : Option Nat) (len : Nat)
    (hid : cache.slabs[id]? = some slab) :
    (cache.setSlab id slab' recent len).freshBag + (slab.freshBlocks : Multiset Nat) =
      cache.freshBag + (slab'.freshBlocks : Multiset Nat) :=
  total_set hid

theorem setSlab_shapes (hid : cache.slabs[id]? = some slab) (hshape : slab'.shape = slab.shape) :
    (cache.setSlab id slab' recent len).shapes = cache.shapes := by
  have hlt : id < cache.slabs.length := (List.getElem?_eq_some_iff.mp hid).1
  refine List.ext_getElem? fun j => ?_
  simp only [shapes, setSlab, List.getElem?_map]
  by_cases hj : id = j
  · subst hj
    simp [List.getElem?_set_self hlt, hid, hshape]
  · rw [List.getElem?_set_ne hj]

theorem setSlab_invExcept (inv : cache.InvExcept fun j => j = id)
    (hid : cache.slabs[id]? = some slab) (ok : slab'.Ok) (hshape : slab'.shape = slab.shape)
    (hslot : slab'.availableSlot = slab.availableSlot)
    (hrecent : ∀ j, recent = some j → j < cache.slabs.length)
    (hlen : len = (cache.setSlab id slab' recent len).bag.card) :
    (cache.setSlab id slab' recent len).InvExcept fun j => j = id := by
  have hlt : id < cache.slabs.length := (List.getElem?_eq_some_iff.mp hid).1
  have hother : ∀ j, j ≠ id → (cache.slabs.set id slab')[j]? = cache.slabs[j]? := fun j hj =>
    List.getElem?_set_ne (Ne.symm hj)
  have hslots : ∀ j, (cache.setSlab id slab' recent len).availableSlot j =
      cache.availableSlot j := by
    intro j
    by_cases hj : j = id
    · subst hj
      simp [availableSlot, setSlab, hid, hslot, List.getElem?_set_self hlt]
    · simp only [availableSlot, setSlab, hother j hj]
  refine ⟨fun x hx => ?_, inv.sharedLen_eq, hlen, inv.slots.congr hslots, fun j hj x hx => ?_, ?_,
    ?_⟩
  · rcases List.mem_or_eq_of_mem_set hx with hx | rfl
    · exact inv.slab_ok x hx
    · exact ok
  · apply inv.listed j hj x
    rw [← hother j hj]
    exact hx
  · simp only [setSlab, List.length_set]
    refine inv.index.congr fun j _ => ?_
    by_cases hj : j = id
    · subst hj
      have hstart : slab'.start = slab.start := congrArg Prod.fst hshape
      simp [slabStart, hid, hstart, List.getElem?_set_self hlt]
    · simp only [slabStart, hother j hj]
  · simpa [setSlab] using hrecent

/-- After slab `id` changed, relisting it completes the invariant; so does leaving it listed when it
was and still has blocks. -/
theorem setSlab_listed (h : (cache.setSlab id slab' recent len).InvExcept fun j => j = id)
    (hid : cache.slabs[id]? = some slab) (hsome : slab'.availableSlot.isSome = true)
    (hav : slab'.hasAvailableBlocks = true) : (cache.setSlab id slab' recent len).Inv := by
  have hlt : id < cache.slabs.length := (List.getElem?_eq_some_iff.mp hid).1
  refine ⟨h.slab_ok, h.sharedLen_eq, h.totalLen_eq, h.slots, fun j _ x hx => ?_, h.index,
    h.recent_lt⟩
  by_cases hj : j = id
  · subst hj
    simp only [setSlab, List.getElem?_set_self hlt, Option.some_inj] at hx
    subst hx
    simp [hsome, hav]
  · exact h.listed j hj x hx

end SetSlab

/-! ### The operations -/

/-- A slab listed as available has a block and its record. -/
theorem Inv.available (inv : cache.Inv) {id : Nat} (h : id ∈ cache.availableSlabs) :
    ∃ slab, cache.slabs[id]? = some slab ∧ slab.hasAvailableBlocks = true ∧
      slab.availableSlot.isSome = true := by
  obtain ⟨i, hi⟩ := inv.slots.mem_iff.mp h
  obtain ⟨slab, hslab⟩ := Option.isSome_iff_exists.mp
    (show (cache.slabs[id]?).isSome = true by simp [lt_length_of_slot hi])
  have hsome : slab.availableSlot.isSome = true := by
    rw [← slot_eq_of_getElem? hslab, hi]
    rfl
  exact ⟨slab, hslab, (inv.listed id not_false slab hslab).mp hsome, hsome⟩

/-- Without a listed slab, nothing is held by the slabs. -/
theorem Inv.none_available (inv : cache.Inv) (h : cache.availableSlabs = []) :
    cache.freeBag = 0 ∧ cache.freshBag = 0 := by
  have hall : ∀ slab ∈ cache.slabs, slab.free = [] ∧ slab.freshBlocks = [] := by
    intro slab hslab
    obtain ⟨id, hid⟩ := List.mem_iff_getElem?.mp hslab
    have hnone : slab.availableSlot = none := by
      rw [← slot_eq_of_getElem? hid]
      by_contra hc
      obtain ⟨i, hi⟩ := Option.ne_none_iff_exists'.mp hc
      have := inv.slots.mem_iff.mpr ⟨i, hi⟩
      simp [h] at this
    have hno := mt (inv.listed id not_false slab hid).mpr (by simp [hnone])
    rw [LocalSlab.hasAvailableBlocks_iff] at hno
    push Not at hno
    exact hno
  exact ⟨total_eq_zero.mpr fun slab h => by simp [(hall slab h).1],
    total_eq_zero.mpr fun slab h => by simp [(hall slab h).2]⟩

/-- The bags after taking `block`: the kind of reuse says which bag it came from. -/
def Takes (reuse : BlockReuse) (block : Nat) (cache cache' : LocalClassCache (List Nat)) : Prop :=
  match reuse with
  | .hotReuseRequestedOnly => cache.ownedBag = block ::ₘ cache'.ownedBag ∧
      cache'.freshBag = cache.freshBag ∧ cache'.sharedBag = cache.sharedBag
  | .needsOwnerAndRequestedSizeRefresh => cache'.ownedBag = cache.ownedBag ∧
      cache'.freshBag = cache.freshBag ∧ cache.sharedBag = block ::ₘ cache'.sharedBag
  | .needsHeaderRewrite => cache'.ownedBag = cache.ownedBag ∧
      cache.freshBag = block ::ₘ cache'.freshBag ∧ cache'.sharedBag = cache.sharedBag

theorem Takes.bag {reuse : BlockReuse} {block : Nat} (h : Takes reuse block cache cache') :
    cache.bag = block ::ₘ cache'.bag := by
  cases reuse <;> obtain ⟨h1, h2, h3⟩ := h <;> simp [LocalClassCache.bag, h1, h2, h3]

theorem setSlab_takes {id len block : Nat} {reuse : BlockReuse} {slab slab' : LocalSlab (List Nat)}
    {recent : Option Nat} (hid : cache.slabs[id]? = some slab)
    (h : (reuse = .hotReuseRequestedOnly ∧ slab.free = block :: slab'.free ∧
          slab'.freshBlocks = slab.freshBlocks) ∨
        (reuse = .needsHeaderRewrite ∧ slab'.free = slab.free ∧
          slab.freshBlocks = block :: slab'.freshBlocks)) :
    Takes reuse block cache (cache.setSlab id slab' recent len) := by
  have hfree := setSlab_freeBag slab' recent len hid
  have hfresh := setSlab_freshBag slab' recent len hid
  rcases h with ⟨rfl, h1, h2⟩ | ⟨rfl, h1, h2⟩
  · rw [h2] at hfresh
    rw [h1, ← Multiset.cons_coe, Multiset.add_cons, ← Multiset.cons_add] at hfree
    refine ⟨?_, add_right_cancel hfresh, rfl⟩
    rw [ownedBag, ownedBag, ← add_right_cancel hfree, Multiset.add_cons]
    rfl
  · rw [h1] at hfree
    rw [h2, ← Multiset.cons_coe, Multiset.add_cons, ← Multiset.cons_add] at hfresh
    refine ⟨?_, (add_right_cancel hfresh).symm, rfl⟩
    rw [ownedBag, ownedBag, add_right_cancel hfree]
    rfl

/-- A class cache that holds a block gives one up, in the order hot block, slabs, shared list. -/
theorem popBlockUnchecked_spec (inv : cache.Inv) (h : cache.totalLen ≠ 0) (m : Mem) :
    ∃ block reuse cache', cache.popBlockUnchecked m = some (block, reuse, cache') ∧ cache'.Inv ∧
      cache'.shapes = cache.shapes ∧ Takes reuse block cache cache' := by
  have hcard := inv.totalLen_eq
  cases hhot : cache.hotBlock with
  | some b =>
    let rest := { cache with hotBlock := none, totalLen := cache.totalLen - 1 }
    have htakes : Takes .hotReuseRequestedOnly b cache rest := by
      refine ⟨?_, rfl, rfl⟩
      simp only [rest, ownedBag, hotBag, hhot, Option.toList_some, Multiset.coe_singleton,
        Option.toList_none, Multiset.coe_nil, Multiset.singleton_add, zero_add]
      rfl
    refine ⟨b, .hotReuseRequestedOnly, rest, by simp [popBlockUnchecked, hhot, rest], ?_, rfl,
      htakes⟩
    rw [htakes.bag, Multiset.card_cons] at hcard
    exact ⟨inv.slab_ok, inv.sharedLen_eq, show cache.totalLen - 1 = rest.bag.card by omega,
      inv.slots, inv.listed, inv.index, inv.recent_lt⟩
  | none =>
    cases hlast : cache.availableSlabs.getLast? with
    | some id =>
      obtain ⟨slab, hid, hav, hsome⟩ := inv.available (List.mem_of_getLast? hlast)
      have hlt : id < cache.slabs.length := (List.getElem?_eq_some_iff.mp hid).1
      obtain ⟨block, reuse, slab', hpop, ok, hshape, hslot, hbags⟩ :=
        LocalSlab.popBlockUnchecked_spec (m := m) (inv.slab_ok slab (List.mem_of_getElem? hid)) hav
      let mid := cache.setSlab id slab' (some id) (cache.totalLen - 1)
      have htakes : Takes reuse block cache mid := setSlab_takes hid hbags
      rw [htakes.bag, Multiset.card_cons] at hcard
      have hinv : mid.InvExcept fun j => j = id :=
        setSlab_invExcept (inv.except _) hid ok hshape hslot (by simp [hlt])
          (show _ = mid.bag.card by omega)
      have hgot : mid.slabs[id]? = some slab' := List.getElem?_set_self hlt
      have hrun : cache.popBlockUnchecked m = some (block, reuse,
          if slab'.hasAvailableBlocks then mid else mid.markSlabUnavailable id) := by
        simp [popBlockUnchecked, hhot, hlast, hid, hpop, mid, setSlab]
      by_cases hav' : slab'.hasAvailableBlocks = true
      · rw [if_pos hav'] at hrun
        exact ⟨block, reuse, mid, hrun, setSlab_listed hinv hid (hslot ▸ hsome) hav',
          setSlab_shapes hid hshape, htakes⟩
      · rw [if_neg hav'] at hrun
        have hrel := relists_markSlabUnavailable hinv.slots id
        refine ⟨block, reuse, _, hrun, hrel.inv hinv fun x hx => ?_,
          hrel.same.shapes.trans (setSlab_shapes hid hshape), ?_⟩
        · rw [hgot] at hx
          rw [← Option.some.inj hx]
          simpa using hav'
        · simpa [Takes, hrel.same.ownedBag, hrel.same.freshBag, hrel.same.sharedBag] using htakes
    | none =>
      obtain ⟨h1, h2⟩ := inv.none_available (List.getLast?_eq_none_iff.mp hlast)
      cases hshared : cache.shared with
      | nil =>
        rw [bag, ownedBag, h1, h2, hotBag, hhot, sharedBag, hshared] at hcard
        simp at hcard
        omega
      | cons b rest =>
        let left := { cache with
          shared := rest
          sharedLen := cache.sharedLen - 1
          totalLen := cache.totalLen - 1 }
        have htakes : Takes .needsOwnerAndRequestedSizeRefresh b cache left :=
          ⟨rfl, rfl, by simp [sharedBag, hshared, left]⟩
        refine ⟨b, .needsOwnerAndRequestedSizeRefresh, left,
          by simp [popBlockUnchecked, hhot, hlast, hshared, left], ?_, rfl, htakes⟩
        rw [htakes.bag, Multiset.card_cons] at hcard
        have hlen := inv.sharedLen_eq
        rw [hshared, List.length_cons] at hlen
        exact ⟨inv.slab_ok, show cache.sharedLen - 1 = rest.length by omega,
          show cache.totalLen - 1 = left.bag.card by omega, inv.slots, inv.listed, inv.index,
          inv.recent_lt⟩

/-- The lookup finds only slabs that contain the block. -/
theorem contains_of_homeSlab {L : Type} {cache : LocalClassCache L} {debug : Bool} {block id : Nat}
    (h : cache.homeSlab debug block = some id) :
    ∃ slab, cache.slabs[id]? = some slab ∧ slab.contains debug block = true := by
  have hc : ((cache.slabs[id]?.map fun slab => slab.contains debug block).getD false) = true := by
    unfold homeSlab at h
    split at h
    · rename_i id' hrecent
      obtain rfl : id' = id := by simpa using h
      exact (Option.filter_eq_some_iff.mp hrecent).2
    · unfold findSlab at h
      simp only at h
      split at h
      · simp at h
      · exact (Option.filter_eq_some_iff.mp h).2
  cases hs : cache.slabs[id]? with
  | none => simp [hs] at hc
  | some slab => exact ⟨slab, rfl, by simpa [hs] using hc⟩

theorem homeSlab_contains {debug : Bool} {block id : Nat}
    (h : cache.homeSlab debug block = some id) :
    ∃ slab, cache.slabs[id]? = some slab ∧ slab.start ≤ block ∧ block < slab.endAddr := by
  obtain ⟨slab, hid, hc⟩ := contains_of_homeSlab h
  simp only [LocalSlab.contains, Bool.and_eq_true, decide_eq_true_eq] at hc
  exact ⟨slab, hid, hc.1.1, hc.1.2⟩

/-- A block spilled from the hot slot goes to the slab it lies in, or to the shared list. -/
theorem pushSpilledBlock_spec (inv : cache.Inv) {block : Nat}
    (hhome : ∀ slab ∈ cache.slabs, slab.start ≤ block → block < slab.endAddr → block ∈ slab.blocks)
    (debug : Bool) (m : Mem) :
    ∃ cache', { cache with totalLen := cache.totalLen + 1 }.pushSpilledBlock debug m block =
        some (m, cache') ∧ cache'.Inv ∧ cache'.shapes = cache.shapes ∧
      cache'.hotBlock = cache.hotBlock ∧ cache'.freshBag = cache.freshBag ∧
      ((cache'.freeBag = block ::ₘ cache.freeBag ∧ cache'.sharedBag = cache.sharedBag) ∨
        (cache'.freeBag = cache.freeBag ∧ cache'.sharedBag = block ::ₘ cache.sharedBag)) := by
  have hcard := inv.totalLen_eq
  have hsame : { cache with totalLen := cache.totalLen + 1 }.homeSlab debug block =
      cache.homeSlab debug block := rfl
  cases hfind : cache.homeSlab debug block with
  | none =>
    refine ⟨{ cache with
        totalLen := cache.totalLen + 1
        shared := block :: cache.shared
        sharedLen := cache.sharedLen + 1 }, by simp [pushSpilledBlock, hsame, hfind],
      ⟨inv.slab_ok, ?_, ?_, inv.slots, inv.listed, inv.index, inv.recent_lt⟩, rfl, rfl, rfl,
      Or.inr ⟨rfl, rfl⟩⟩
    · simp [inv.sharedLen_eq]
    · simp only [bag, sharedBag, ← Multiset.cons_coe, Multiset.add_cons,
        Multiset.card_cons] at hcard ⊢
      rw [hcard]
      rfl
  | some id =>
    obtain ⟨slab, hid, hlo, hhi⟩ := homeSlab_contains hfind
    have hmem := List.mem_of_getElem? hid
    have hlt : id < cache.slabs.length := (List.getElem?_eq_some_iff.mp hid).1
    have ok := inv.slab_ok slab hmem
    let slab' : LocalSlab (List Nat) := { slab with free := block :: slab.free }
    have ok' : slab'.Ok := by
      refine ⟨ok.end_eq, ok.blockSize_pos, ok.nextFresh_le, fun b hb => ?_⟩
      rcases List.mem_cons.mp hb with rfl | hb
      · exact hhome slab hmem hlo hhi
      · exact ok.free_mem b hb
    let mid := cache.setSlab id slab' (some id) (cache.totalLen + 1)
    have hfree : mid.freeBag = block ::ₘ cache.freeBag := by
      have h := setSlab_freeBag slab' (some id) (cache.totalLen + 1) hid
      rw [show slab'.free = block :: slab.free from rfl, ← Multiset.cons_coe, Multiset.add_cons,
        ← Multiset.cons_add] at h
      exact add_right_cancel h
    have hfresh : mid.freshBag = cache.freshBag := by
      have h := setSlab_freshBag slab' (some id) (cache.totalLen + 1) hid
      rw [show slab'.freshBlocks = slab.freshBlocks from rfl] at h
      exact add_right_cancel h
    have hbag : mid.bag = block ::ₘ cache.bag := by
      simp only [bag, ownedBag, hfree, hfresh, Multiset.add_cons, Multiset.cons_add]
      rfl
    have hinv : mid.InvExcept fun j => j = id :=
      setSlab_invExcept (inv.except _) hid ok' rfl rfl (by simp [hlt])
        (show _ = mid.bag.card by rw [hbag, Multiset.card_cons, hcard])
    have hgot : mid.slabs[id]? = some slab' := List.getElem?_set_self hlt
    have hav : slab'.hasAvailableBlocks = true := by
      simp [LocalSlab.hasAvailableBlocks, slab']
    have hrun : { cache with totalLen := cache.totalLen + 1 }.pushSpilledBlock debug m block =
        some (m, if !slab.hasAvailableBlocks then mid.markSlabAvailable id else mid) := by
      simp [pushSpilledBlock, hsame, hfind, hid, LocalSlab.pushBlock, mid, setSlab, slab']
    by_cases hwas : slab.hasAvailableBlocks = true
    · have hsome := (inv.listed id not_false slab hid).mpr hwas
      refine ⟨mid, by simpa [hwas] using hrun, setSlab_listed hinv hid hsome hav,
        setSlab_shapes hid rfl, rfl, hfresh, Or.inl ⟨hfree, rfl⟩⟩
    · have hrel := relists_markSlabAvailable hinv.slots
        (show id < mid.slabs.length by simpa [mid, setSlab] using hlt)
      refine ⟨mid.markSlabAvailable id, by simpa [hwas] using hrun, hrel.inv hinv fun x hx => ?_,
        hrel.same.shapes.trans (setSlab_shapes hid rfl), hrel.same.hot,
        hrel.same.freshBag.trans hfresh, Or.inl
          ⟨hrel.same.freeBag.trans hfree, hrel.same.sharedBag⟩⟩
      rw [hgot] at hx
      rw [← Option.some.inj hx]
      exact hav

/-- The pushed block becomes the hot one; the block it displaces goes to its slab or to the shared
list. -/
theorem pushBlock_spec (inv : cache.Inv) (block : Nat)
    (hhome : ∀ b ∈ cache.hotBag, ∀ slab ∈ cache.slabs, slab.start ≤ b → b < slab.endAddr →
      b ∈ slab.blocks) (debug : Bool) (m : Mem) :
    ∃ cache', cache.pushBlock debug m block = some (m, cache') ∧ cache'.Inv ∧
      cache'.shapes = cache.shapes ∧ cache'.hotBlock = some block ∧
      cache'.freshBag = cache.freshBag ∧
      ∃ spilled : Multiset Nat, cache'.ownedBag + spilled = block ::ₘ cache.ownedBag ∧
        cache'.sharedBag = spilled + cache.sharedBag := by
  have hcard := inv.totalLen_eq
  cases hhot : cache.hotBlock with
  | none =>
    let left := { cache with hotBlock := some block, totalLen := cache.totalLen + 1 }
    have howned : left.ownedBag = block ::ₘ cache.ownedBag := by
      simp only [left, ownedBag, hotBag, hhot, Option.toList_some, Multiset.coe_singleton,
        Option.toList_none, Multiset.coe_nil, Multiset.singleton_add, zero_add]
      rfl
    refine ⟨left, by simp [pushBlock, hhot, left],
      ⟨inv.slab_ok, inv.sharedLen_eq, ?_, inv.slots, inv.listed, inv.index, inv.recent_lt⟩, rfl,
      rfl, rfl, 0, by simpa using howned, by simp [sharedBag, left]⟩
    show cache.totalLen + 1 = left.bag.card
    rw [bag, howned, hcard]
    simp only [bag, Multiset.cons_add, Multiset.card_cons]
    rfl
  | some previousHot =>
    let swapped := { cache with hotBlock := some block }
    have hswap : swapped.ownedBag + {previousHot} = block ::ₘ cache.ownedBag := by
      simp only [swapped, ownedBag, hotBag, hhot, Option.toList_some, Multiset.coe_singleton]
      rw [← Multiset.singleton_add, add_right_comm, add_assoc]
      rfl
    have hinv : swapped.Inv := by
      refine ⟨inv.slab_ok, inv.sharedLen_eq, ?_, inv.slots, inv.listed, inv.index, inv.recent_lt⟩
      have h1 := congrArg Multiset.card hswap
      simp only [Multiset.card_add, Multiset.card_singleton, Multiset.card_cons] at h1
      show cache.totalLen = swapped.bag.card
      rw [hcard, bag, bag, Multiset.card_add, Multiset.card_add, Multiset.card_add,
        Multiset.card_add, show swapped.ownedBag.card = cache.ownedBag.card by omega]
      rfl
    obtain ⟨cache', hrun, hinv', hshapes, hhot', hfresh, hbags⟩ :=
      pushSpilledBlock_spec hinv
        (hhome previousHot (by simp [hotBag, hhot])) debug m
    refine ⟨cache', by simpa [pushBlock, hhot] using hrun, hinv', hshapes, hhot', hfresh, ?_⟩
    have hhotBag : cache'.hotBag = swapped.hotBag := by simp only [hotBag, hhot']
    rcases hbags with ⟨h1, h2⟩ | ⟨h1, h2⟩
    · refine ⟨0, ?_, by rw [h2, zero_add]; rfl⟩
      rw [add_zero, ownedBag, hhotBag, h1, Multiset.add_cons, ← hswap, ← Multiset.singleton_add]
      exact add_comm _ _
    · refine ⟨{previousHot}, ?_, by rw [h2, Multiset.singleton_add]; rfl⟩
      rw [ownedBag, hhotBag, h1]
      exact hswap

theorem pushSharedBatch_spec (inv : cache.Inv) (batch : List Nat) (m : Mem) :
    ∃ cache', cache.pushSharedBatch m batch = some (m, cache') ∧ cache'.Inv ∧
      cache'.shapes = cache.shapes ∧ cache'.ownedBag = cache.ownedBag ∧
      cache'.freshBag = cache.freshBag ∧
        cache'.sharedBag = (batch : Multiset Nat) + cache.sharedBag := by
  have hcard := inv.totalLen_eq
  let left := { cache with
    shared := batch ++ cache.shared
    sharedLen := cache.sharedLen + batch.length
    totalLen := cache.totalLen + batch.length }
  have hshared : left.sharedBag = (batch : Multiset Nat) + cache.sharedBag := by
    simp [sharedBag, left]
  refine ⟨left, by simp [pushSharedBatch, left], ⟨inv.slab_ok, ?_, ?_, inv.slots, inv.listed,
    inv.index, inv.recent_lt⟩, rfl, rfl, rfl, hshared⟩
  · simp [left, inv.sharedLen_eq, Nat.add_comm]
  · show cache.totalLen + batch.length = left.bag.card
    rw [bag, hshared, hcard, bag]
    simp only [Multiset.card_add, Multiset.coe_card]
    show _ = left.ownedBag.card + left.freshBag.card + _
    rw [show left.ownedBag = cache.ownedBag from rfl, show left.freshBag = cache.freshBag from rfl]
    omega

theorem markSlabAvailable_totalLen (cache : LocalClassCache (List Nat)) (id : Nat) :
    (cache.markSlabAvailable id).totalLen = cache.totalLen := by
  unfold markSlabAvailable
  split <;> rfl

theorem markSlabAvailable_with (cache : LocalClassCache (List Nat)) (id : Nat) (r : Option Nat)
    (t : Nat) : { cache.markSlabAvailable id with recentSlab := r, totalLen := t } =
      { cache with recentSlab := r, totalLen := t }.markSlabAvailable id := by
  have hslot : { cache with recentSlab := r, totalLen := t }.availableSlot id =
      cache.availableSlot id := rfl
  unfold markSlabAvailable
  rw [hslot]
  split <;> rfl

/-- `mid` is `cache` with the blocks of a slab added as fresh ones, at record `id`, which is not
relisted yet. -/
structure Gains (start blockSize capacity id : Nat) (cache mid : LocalClassCache (List Nat)) :
    Prop where
  inv : mid.InvExcept fun j => j = id
  available : ∃ slab, mid.slabs[id]? = some slab ∧ slab.hasAvailableBlocks = true
  hot : mid.hotBlock = cache.hotBlock
  free : mid.freeBag = cache.freeBag
  fresh : mid.freshBag = cache.freshBag + (slabBlocks start blockSize capacity : Multiset Nat)
  shared : mid.sharedBag = cache.sharedBag
  shapes : ∀ shape ∈ mid.shapes, shape ∈ cache.shapes ∨
    shape = (start, start + blockSize * capacity, blockSize, capacity)

/-- A slab whose blocks are all fresh has one, and the count of a cache that gained it is right. -/
theorem hasAvailableBlocks_of_fresh {slab : LocalSlab (List Nat)} {start blockSize capacity : Nat}
    (hc : 0 < capacity) (h : slab.freshBlocks = slabBlocks start blockSize capacity) :
    slab.hasAvailableBlocks = true := by
  rw [LocalSlab.hasAvailableBlocks_iff, h, ← List.length_pos_iff, ← List.length_pos_iff,
    length_slabBlocks]
  exact Or.inr hc

theorem card_bag_of_gain {mid : LocalClassCache (List Nat)} {start blockSize capacity : Nat}
    (inv : cache.Inv) (hhot : mid.hotBag = cache.hotBag) (hfree : mid.freeBag = cache.freeBag)
    (hfresh : mid.freshBag =
      cache.freshBag + (slabBlocks start blockSize capacity : Multiset Nat))
    (hshared : mid.sharedBag = cache.sharedBag) :
    cache.totalLen + capacity = mid.bag.card := by
  rw [inv.totalLen_eq, bag, bag, ownedBag, ownedBag, hhot, hfree, hfresh, hshared]
  simp only [Multiset.card_add, Multiset.coe_card, length_slabBlocks]
  omega

/-- A slab that the cache knows, and whose record is used up, is reset. -/
theorem gains_known (inv : cache.Inv) {start blockSize capacity id : Nat} (hc : 0 < capacity)
    {slab : LocalSlab (List Nat)} (hid : cache.slabs[id]? = some slab)
    (hshape : slab.shape = (start, start + blockSize * capacity, blockSize, capacity))
    (hfree : slab.free = []) (hfresh : slab.freshBlocks = []) :
    ∃ mid, Gains start blockSize capacity id cache mid ∧
      { cache.markSlabUnavailable id with
        slabs := (cache.markSlabUnavailable id).slabs.modify id LocalSlab.reset
        recentSlab := some id
        totalLen := (cache.markSlabUnavailable id).totalLen + capacity } = mid := by
  have hlt : id < cache.slabs.length := (List.getElem?_eq_some_iff.mp hid).1
  have hrel := relists_markSlabUnavailable inv.slots id
  have hlt₁ : id < (cache.markSlabUnavailable id).slabs.length := by rwa [hrel.same.length]
  obtain ⟨slab₁, hid₁⟩ : ∃ slab₁, (cache.markSlabUnavailable id).slabs[id]? = some slab₁ :=
    ⟨_, List.getElem?_eq_getElem hlt₁⟩
  have hoff := hrel.invExcept (inv.except _)
  have hshape₁ := (hrel.same.apply_eq hid₁ hid (f := LocalSlab.shape) fun _ => rfl).trans hshape
  have hfree₁ := (hrel.same.apply_eq hid₁ hid (f := LocalSlab.free) fun _ => rfl).trans hfree
  have hfresh₁ :=
    (hrel.same.apply_eq hid₁ hid (f := LocalSlab.freshBlocks) fun _ => rfl).trans hfresh
  have hslot₁ : slab₁.availableSlot = none := by
    have := hrel.isSome id
    rw [slot_eq_of_getElem? hid₁, if_pos rfl] at this
    simpa using this
  have hblocks : slab₁.reset.freshBlocks = slabBlocks start blockSize capacity := by
    simp only [LocalSlab.shape, Prod.mk.injEq] at hshape₁
    simp [LocalSlab.freshBlocks, LocalSlab.blocks, LocalSlab.reset, hshape₁.1, hshape₁.2.2.1,
      hshape₁.2.2.2]
  have ok₁ := hoff.slab_ok slab₁ (List.mem_of_getElem? hid₁)
  have ok : slab₁.reset.Ok :=
    ⟨ok₁.end_eq, ok₁.blockSize_pos, Nat.zero_le _, by simp [LocalSlab.reset]⟩
  let mid := (cache.markSlabUnavailable id).setSlab id slab₁.reset (some id)
    ((cache.markSlabUnavailable id).totalLen + capacity)
  have hf : mid.freeBag = cache.freeBag := by
    have h := setSlab_freeBag slab₁.reset (some id)
      ((cache.markSlabUnavailable id).totalLen + capacity) hid₁
    rw [hfree₁, hrel.same.freeBag, show slab₁.reset.free = [] from rfl] at h
    exact add_right_cancel h
  have hfr : mid.freshBag =
      cache.freshBag + (slabBlocks start blockSize capacity : Multiset Nat) := by
    have h := setSlab_freshBag slab₁.reset (some id)
      ((cache.markSlabUnavailable id).totalLen + capacity) hid₁
    rw [hfresh₁, hrel.same.freshBag, hblocks, Multiset.coe_nil, add_zero] at h
    exact h
  have hmod : (cache.markSlabUnavailable id).slabs.modify id LocalSlab.reset =
      (cache.markSlabUnavailable id).slabs.set id slab₁.reset := by
    rw [List.modify_eq_set_getElem?, hid₁]
    rfl
  refine ⟨mid, ⟨?_, ⟨slab₁.reset, List.getElem?_set_self hlt₁,
    hasAvailableBlocks_of_fresh hc hblocks⟩,
    hrel.same.hot, hf, hfr, hrel.same.sharedBag, fun shape hs => ?_⟩, ?_⟩
  · refine setSlab_invExcept hoff hid₁ ok rfl (by simp [LocalSlab.reset, hslot₁])
      (by simpa using hlt₁) ?_
    rw [hrel.same.totalLen]
    exact (card_bag_of_gain inv hrel.same.hotBag hf hfr hrel.same.sharedBag :
      cache.totalLen + capacity = mid.bag.card)
  · have hshapes : mid.shapes = cache.shapes :=
      (setSlab_shapes hid₁ (show slab₁.reset.shape = slab₁.shape from rfl)).trans hrel.same.shapes
    exact Or.inl (hshapes ▸ hs)
  · rw [hmod]
    rfl

/-- A slab with a start that the cache does not know gets a record of its own. -/
theorem gains_new (inv : cache.Inv) {start blockSize capacity slot : Nat} (hb : 0 < blockSize)
    (hc : 0 < capacity)
    (hsearch : binarySearchByKey cache.slabStart start cache.slabsByStart = .error slot) :
    Gains start blockSize capacity cache.slabs.length cache
      { cache with
        slabs := cache.slabs ++ [LocalSlab.new start blockSize capacity]
        slabsByStart := cache.slabsByStart.insertIdx slot cache.slabs.length
        recentSlab := some cache.slabs.length
        totalLen := cache.totalLen + capacity } := by
  let slab : LocalSlab (List Nat) := LocalSlab.new start blockSize capacity
  let mid := { cache with
    slabs := cache.slabs ++ [slab]
    slabsByStart := cache.slabsByStart.insertIdx slot cache.slabs.length
    recentSlab := some cache.slabs.length
    totalLen := cache.totalLen + capacity }
  have hblocks : slab.freshBlocks = slabBlocks start blockSize capacity := by
    simp [slab, LocalSlab.freshBlocks, LocalSlab.blocks, LocalSlab.new]
  have ok : slab.Ok := ⟨rfl, hb, Nat.zero_le _, by simp [slab, LocalSlab.new]⟩
  have hf : mid.freeBag = cache.freeBag := by
    simp [mid, freeBag, slab, LocalSlab.new]
  have hfr : mid.freshBag =
      cache.freshBag + (slabBlocks start blockSize capacity : Multiset Nat) := by
    simp [mid, freshBag, hblocks]
  have hget : ∀ j, j ≠ cache.slabs.length → mid.slabs[j]? = cache.slabs[j]? := by
    intro j hj
    rcases Nat.lt_or_gt_of_ne hj with h | h
    · exact List.getElem?_append_left h
    · rw [List.getElem?_eq_none (by simp [mid]; omega), List.getElem?_eq_none (by omega)]
  have hgot : mid.slabs[cache.slabs.length]? = some slab := by simp [mid]
  have hslot : ∀ j, mid.availableSlot j = cache.availableSlot j := by
    intro j
    by_cases hj : j = cache.slabs.length
    · subst hj
      simp [availableSlot, hgot, slab, LocalSlab.new]
    · simp only [availableSlot, hget j hj]
  have hcard : cache.totalLen + capacity = mid.bag.card := card_bag_of_gain inv rfl hf hfr rfl
  refine ⟨⟨fun x hx => ?_, inv.sharedLen_eq, hcard, inv.slots.congr hslot,
    fun j hj x hx => ?_, ?_, ?_⟩,
    ⟨slab, hgot, hasAvailableBlocks_of_fresh hc hblocks⟩, rfl, hf, hfr, rfl, fun shape hs => ?_⟩
  · rcases List.mem_append.mp hx with hx | hx
    · exact inv.slab_ok x hx
    · rw [List.mem_singleton.mp hx]
      exact ok
  · apply inv.listed j not_false x
    rw [← hget j hj]
    exact hx
  · rw [show mid.slabs.length = cache.slabs.length + 1 by simp [mid]]
    refine (inv.index.search_error hsearch).2 mid.slabStart (fun j hj => ?_) ?_
    · simp only [slabStart, hget j (Nat.ne_of_lt hj)]
    · simp [slabStart, hgot, slab, LocalSlab.new]
  · intro j hj
    have hj : cache.slabs.length = j := Option.some.inj hj
    simp [← hj]
  · have hs : shape ∈ cache.shapes ++ [slab.shape] := by
      simpa [mid, shapes] using hs
    rcases List.mem_append.mp hs with hs | hs
    · exact Or.inl hs
    · exact Or.inr (List.mem_singleton.mp hs)

/-- A slab none of whose blocks the cache holds, and whose record if there is one has its shape,
adds its blocks as fresh ones. -/
theorem pushOwnedSlab_spec (inv : cache.Inv) {start blockSize capacity : Nat} (hb : 0 < blockSize)
    (hc : 0 < capacity)
    (hold : ∀ slab ∈ cache.slabs, slab.start = start →
      slab.shape = (start, start + blockSize * capacity, blockSize, capacity) ∧
        slab.free = [] ∧ slab.freshBlocks = []) :
    ∃ cache', cache.pushOwnedSlab start blockSize capacity = cache' ∧ cache'.Inv ∧
      cache'.ownedBag = cache.ownedBag ∧
      cache'.freshBag = cache.freshBag + (slabBlocks start blockSize capacity : Multiset Nat) ∧
      cache'.sharedBag = cache.sharedBag ∧
      ∀ shape ∈ cache'.shapes, shape ∈ cache.shapes ∨
        shape = (start, start + blockSize * capacity, blockSize, capacity) := by
  suffices hmid : ∃ id mid, Gains start blockSize capacity id cache mid ∧
      cache.pushOwnedSlab start blockSize capacity = markSlabAvailable mid id by
    obtain ⟨id, mid, h, hrun⟩ := hmid
    obtain ⟨slab, hid, hav⟩ := h.available
    have hrel := relists_markSlabAvailable h.inv.slots (List.getElem?_eq_some_iff.mp hid).1
    refine ⟨_, hrun, hrel.inv h.inv fun x hx => ?_, ?_, hrel.same.freshBag.trans h.fresh,
      hrel.same.sharedBag.trans h.shared, ?_⟩
    · rw [hid] at hx
      rwa [← Option.some.inj hx]
    · rw [hrel.same.ownedBag, ownedBag, ownedBag, h.free, hotBag, hotBag, h.hot]
    · rw [hrel.same.shapes]
      exact h.shapes
  cases hsearch : binarySearchByKey cache.slabStart start cache.slabsByStart with
  | ok slot =>
    obtain ⟨id, hslot, hstart⟩ := SortedIndex.search_ok hsearch
    have hlt : id < cache.slabs.length := (inv.index.mem id).mp (List.mem_of_getElem? hslot)
    obtain ⟨slab, hid⟩ : ∃ slab, cache.slabs[id]? = some slab :=
      ⟨_, List.getElem?_eq_getElem hlt⟩
    have hkey : slab.start = start := by simpa [slabStart, hid] using hstart
    obtain ⟨hshape, hfree, hfresh⟩ := hold slab (List.mem_of_getElem? hid) hkey
    obtain ⟨mid, hgains, hmid⟩ := gains_known inv hc hid hshape hfree hfresh
    refine ⟨id, mid, hgains, ?_⟩
    rw [← hmid]
    simp only [pushOwnedSlab, hsearch, hslot, Option.getD_some, markSlabAvailable_with,
      markSlabAvailable_totalLen]
  | error slot =>
    refine ⟨_, _, gains_new inv hb hc hsearch, ?_⟩
    simp only [pushOwnedSlab, hsearch, markSlabAvailable_with, markSlabAvailable_totalLen]

/-- A drain takes the blocks of `batch` out of the cache, and initializes those that were fresh. -/
def Drains (c : SizeClass) (m m' : Mem) (batch : List Nat)
    (cache cache' : LocalClassCache (List Nat)) : Prop :=
  ∃ owned fresh shared : List Nat, (batch : Multiset Nat) = owned + fresh + shared ∧
    cache.ownedBag = (owned : Multiset Nat) + cache'.ownedBag ∧
    cache.freshBag = (fresh : Multiset Nat) + cache'.freshBag ∧
    cache.sharedBag = (shared : Multiset Nat) + cache'.sharedBag ∧ m' = initializeAll m c fresh

theorem Drains.bag {c : SizeClass} {m m' : Mem} {batch : List Nat}
    (h : Drains c m m' batch cache cache') : cache.bag = (batch : Multiset Nat) + cache'.bag := by
  obtain ⟨owned, fresh, shared, hb, h1, h2, h3, _⟩ := h
  rw [LocalClassCache.bag, LocalClassCache.bag, h1, h2, h3, hb]
  ac_rfl

theorem Drains.card {c : SizeClass} {m m' : Mem} {batch : List Nat}
    (h : Drains c m m' batch cache cache') : cache'.bag.card = cache.bag.card - batch.length := by
  have := congrArg Multiset.card h.bag
  simp only [Multiset.card_add, Multiset.coe_card] at this
  omega

theorem setSlab_drains {c : SizeClass} {id len : Nat} {recent : Option Nat}
    {slab slab' : LocalSlab (List Nat)} {reclaimed fresh : List Nat} {m : Mem}
    (hid : cache.slabs[id]? = some slab) (hfree : slab.free = reclaimed ++ slab'.free)
    (hfresh : slab.freshBlocks = fresh ++ slab'.freshBlocks) :
    Drains c m (initializeAll m c fresh) (fresh.reverse ++ reclaimed.reverse) cache
      (cache.setSlab id slab' recent len) := by
  have h1 := setSlab_freeBag slab' recent len hid
  have h2 := setSlab_freshBag slab' recent len hid
  rw [hfree, ← Multiset.coe_add, ← add_assoc] at h1
  rw [hfresh, ← Multiset.coe_add, ← add_assoc] at h2
  refine ⟨reclaimed, fresh, [], ?_, ?_, ?_, rfl, rfl⟩
  · rw [← Multiset.coe_add, Multiset.coe_reverse, Multiset.coe_reverse, add_comm]
    exact (add_zero _).symm
  · rw [ownedBag, ← add_right_cancel h1, ownedBag, ← add_assoc, add_comm]
    rfl
  · rw [← add_right_cancel h2, add_comm]

/-- A class cache that holds a block gives up to `max` of them from one source: the shared list, a
slab or the hot slot. -/
theorem popBatch_spec (inv : cache.Inv) (h : cache.totalLen ≠ 0) {max : Nat} (hmax : 0 < max)
    (c : SizeClass) (m : Mem) :
    ∃ m' batch cache', cache.popBatch m max c = some (m', batch, cache') ∧ cache'.Inv ∧
      cache'.shapes = cache.shapes ∧ batch ≠ [] ∧ batch.length ≤ max ∧
      Drains c m m' batch cache cache' := by
  have hcard := inv.totalLen_eq
  by_cases hshared : cache.sharedLen = 0
  · have hnil : cache.shared = [] := by
      rw [← List.length_eq_zero_iff, ← inv.sharedLen_eq, hshared]
    cases hlast : cache.availableSlabs.getLast? with
    | some id =>
      obtain ⟨slab, hid, hav, hsome⟩ := inv.available (List.mem_of_getLast? hlast)
      have hlt : id < cache.slabs.length := (List.getElem?_eq_some_iff.mp hid).1
      obtain ⟨reclaimed, fresh, slab', hpop, ok, hshape, hslot, hfree, hfresh, hpos, hle⟩ :=
        LocalSlab.popBatch_spec (m := m) (inv.slab_ok slab (List.mem_of_getElem? hid)) hav hmax c
      let batch := fresh.reverse ++ reclaimed.reverse
      have hlen : batch.length = (fresh ++ reclaimed).length := by simp [batch]
      let mid := cache.setSlab id slab' cache.recentSlab (cache.totalLen - batch.length)
      have hdrains : Drains c m (initializeAll m c fresh) batch cache mid :=
        setSlab_drains hid hfree hfresh
      have hinv : mid.InvExcept fun j => j = id :=
        setSlab_invExcept (inv.except _) hid ok hshape hslot inv.recent_lt
          (show _ = mid.bag.card by rw [hdrains.card, hcard])
      have hrun : cache.popBatch m max c = some (initializeAll m c fresh, batch,
          if slab'.hasAvailableBlocks then mid else mid.markSlabUnavailable id) := by
        simp [popBatch, hshared, hlast, hid, hpop, mid, setSlab, batch]
      have hne : batch ≠ [] := by
        rw [← List.length_pos_iff, hlen]
        exact hpos
      by_cases hav' : slab'.hasAvailableBlocks = true
      · rw [if_pos hav'] at hrun
        exact ⟨_, batch, mid, hrun, setSlab_listed hinv hid (hslot ▸ hsome) hav',
          setSlab_shapes hid hshape, hne, hlen ▸ hle, hdrains⟩
      · rw [if_neg hav'] at hrun
        have hrel := relists_markSlabUnavailable hinv.slots id
        refine ⟨_, batch, _, hrun, hrel.inv hinv fun x hx => ?_,
          hrel.same.shapes.trans (setSlab_shapes hid hshape), hne, hlen ▸ hle, ?_⟩
        · have hgot : mid.slabs[id]? = some slab' := List.getElem?_set_self hlt
          rw [hgot] at hx
          rw [← Option.some.inj hx]
          simpa using hav'
        · simpa [Drains, hrel.same.ownedBag, hrel.same.freshBag, hrel.same.sharedBag]
            using hdrains
    | none =>
      obtain ⟨h1, h2⟩ := inv.none_available (List.getLast?_eq_none_iff.mp hlast)
      cases hhot : cache.hotBlock with
      | none =>
        rw [bag, ownedBag, h1, h2, hotBag, hhot, sharedBag, hnil] at hcard
        exact absurd (by simpa using hcard) h
      | some b =>
        let left := { cache with hotBlock := none, totalLen := cache.totalLen - 1 }
        have hdrains : Drains c m m [b] cache left := by
          refine ⟨[b], [], [], by simp, ?_, by simp [left, freshBag], by simp [left, sharedBag],
            rfl⟩
          simp [left, ownedBag, hotBag, hhot, freeBag]
        refine ⟨m, [b], left, by simp [popBatch, hshared, hlast, hhot, left],
          ⟨inv.slab_ok, inv.sharedLen_eq, ?_, inv.slots, inv.listed, inv.index, inv.recent_lt⟩, rfl,
          by simp, hmax, hdrains⟩
        show cache.totalLen - 1 = left.bag.card
        rw [hdrains.card, hcard]
        rfl
  · have hne : cache.shared ≠ [] := by
      rw [← List.length_pos_iff, ← inv.sharedLen_eq]
      omega
    let batch := cache.shared.take max
    let left := { cache with
      shared := cache.shared.drop max
      sharedLen := cache.sharedLen - batch.length
      totalLen := cache.totalLen - batch.length }
    have hdrains : Drains c m m batch cache left := by
      refine ⟨[], [], batch, by simp, by simp [left, ownedBag, hotBag, freeBag],
        by simp [left, freshBag], ?_, rfl⟩
      simp [left, sharedBag, batch]
    refine ⟨m, batch, left, ?_, ⟨inv.slab_ok, ?_, ?_, inv.slots, inv.listed, inv.index,
      inv.recent_lt⟩, rfl, ?_, ?_, hdrains⟩
    · simp [popBatch, hshared, hne, Nat.pos_iff_ne_zero.mp hmax, left, batch]
    · simp [left, batch, inv.sharedLen_eq]
      omega
    · show cache.totalLen - batch.length = left.bag.card
      rw [hdrains.card, hcard]
    · simp [batch, hne, Nat.pos_iff_ne_zero.mp hmax]
    · simp [batch]

end LocalClassCache

end Orthotope
