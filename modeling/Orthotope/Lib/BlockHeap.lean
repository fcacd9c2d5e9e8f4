import Mathlib.Data.Set.Pairwise.Basic
import Mathlib.Data.Set.Insert

/-! Heaps of blocks.  A heap is a set of blocks, each with its place, its size and what has been
stored in it; it moves by single operations, as a sequential allocator would.  A history is the list
of operations that led to a heap.  What a heap is like after a history, the blocks and what is in
them, can be said in terms of the history alone. -/

namespace BlockHeap

variable {V : Type}

structure Block (V : Type) where
  ptr : Nat
  size : Nat
  data : Nat → Option V

/-- Two blocks that share no address. -/
def Block.Apart (b b' : Block V) : Prop := b.ptr + b.size ≤ b'.ptr ∨ b'.ptr + b'.size ≤ b.ptr

inductive Op (V : Type) where
  | alloc (ptr size : Nat)
  | free (ptr : Nat)
  | store (ptr offset : Nat) (value : V)
  deriving DecidableEq

abbrev Heap (V : Type) := Set (Block V)

def Block.fresh (ptr size : Nat) : Block V := ⟨ptr, size, fun _ => none⟩

def Block.store (b : Block V) (offset : Nat) (value : V) : Block V :=
  { b with data := Function.update b.data offset (some value) }

/-- One operation: an allocation returns an aligned block apart from all others with nothing stored
in it, a free takes a block away, and a store changes one byte of one block. -/
inductive Step (alignment : Nat) : Heap V → Op V → Heap V → Prop
  | alloc {h : Heap V} {ptr size : Nat} (hptr : alignment ∣ ptr) (hsize : 0 < size)
      (hapart : ∀ b ∈ h, b.Apart (Block.fresh ptr size)) :
      Step alignment h (.alloc ptr size) (insert (Block.fresh ptr size) h)
  | free {h : Heap V} {b : Block V} (hb : b ∈ h) : Step alignment h (.free b.ptr) (h \ {b})
  | store {h : Heap V} {b : Block V} {offset : Nat} {value : V} (hb : b ∈ h)
      (hoffset : offset < b.size) :
      Step alignment h (.store b.ptr offset value) (insert (b.store offset value) (h \ {b}))

/-- The operations, in their order, lead from one heap to another. -/
inductive Runs (alignment : Nat) (h₀ : Heap V) : List (Op V) → Heap V → Prop
  | refl : Runs alignment h₀ [] h₀
  | snoc {ops : List (Op V)} {op : Op V} {h h' : Heap V} (hruns : Runs alignment h₀ ops h)
      (hstep : Step alignment h op h') : Runs alignment h₀ (ops ++ [op]) h'

variable {alignment : Nat} {h h' h₀ : Heap V} {ops : List (Op V)} {op : Op V} {b b' : Block V}

theorem Runs.trans {ops' : List (Op V)} (hruns : Runs alignment h₀ ops h)
    (hruns' : Runs alignment h ops' h') : Runs alignment h₀ (ops ++ ops') h' := by
  induction hruns' with
  | refl =>
    rw [List.append_nil]
    exact hruns
  | snoc _ hstep ih =>
    rw [← List.append_assoc]
    exact ih.snoc hstep

/-- The blocks of a heap are apart, and none is empty. -/
structure Ok (h : Heap V) : Prop where
  pos : ∀ b ∈ h, 0 < b.size
  apart : h.Pairwise Block.Apart

theorem Block.Apart.symm (hapart : b.Apart b') : b'.Apart b := Or.symm hapart

theorem Block.Apart.ptr_ne (hapart : b.Apart b') (hb : 0 < b.size) (hb' : 0 < b'.size) :
    b.ptr ≠ b'.ptr := by
  unfold Block.Apart at hapart
  omega

namespace Ok

theorem empty : Ok (∅ : Heap V) := ⟨fun _ hb => hb.elim, Set.pairwise_empty _⟩

/-- A pointer is that of one block. -/
theorem eq_of_ptr (ok : Ok h) (hb : b ∈ h) (hb' : b' ∈ h) (hptr : b.ptr = b'.ptr) : b = b' := by
  by_contra hne
  exact (ok.apart hb hb' hne).ptr_ne (ok.pos b hb) (ok.pos b' hb') hptr

theorem ptr_ne (ok : Ok h) (hb : b ∈ h) (hb' : b' ∈ h \ {b}) : b'.ptr ≠ b.ptr := fun heq =>
  hb'.2 (ok.eq_of_ptr hb'.1 hb heq)

theorem mono (ok : Ok h) (hsub : h' ⊆ h) : Ok h' :=
  ⟨fun b hb => ok.pos b (hsub hb), ok.apart.mono hsub⟩

theorem insert (ok : Ok h) (hpos : 0 < b.size) (hapart : ∀ b' ∈ h, b'.Apart b) :
    Ok (Insert.insert b h) := by
  refine ⟨fun b' hb' => ?_, ok.apart.insert fun b' hb' _ => ?_⟩
  · rcases Set.mem_insert_iff.mp hb' with rfl | hb'
    · exact hpos
    · exact ok.pos b' hb'
  · exact ⟨(hapart b' hb').symm, hapart b' hb'⟩

theorem step (ok : Ok h) (hstep : Step alignment h op h') : Ok h' := by
  cases hstep with
  | alloc hptr hsize hapart => exact ok.insert hsize hapart
  | free hb => exact ok.mono Set.sdiff_subset
  | @store b offset value hb hoffset =>
    refine (ok.mono Set.sdiff_subset).insert (ok.pos b hb) fun b' hb' => ?_
    have hapart : b'.Apart b := ok.apart hb'.1 hb hb'.2
    exact hapart

theorem runs (ok : Ok h₀) (hruns : Runs alignment h₀ ops h) : Ok h := by
  induction hruns with
  | refl => exact ok
  | snoc _ hstep ih => exact ih.step hstep

end Ok

/-! ### Histories -/

/-- The block at `ptr` after one more operation. -/
def apply (ptr : Nat) (block? : Option (Block V)) : Op V → Option (Block V)
  | .alloc p size => if p = ptr then some (.fresh p size) else block?
  | .free p => if p = ptr then none else block?
  | .store p offset value => if p = ptr then block?.map (·.store offset value) else block?

end BlockHeap
