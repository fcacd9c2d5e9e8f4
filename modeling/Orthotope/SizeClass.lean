import Mathlib.Order.Basic
import Mathlib.Algebra.Order.Ring.Nat
import Mathlib.Data.Nat.ModEq

/-! Size classes, configuration and errors: `size_class.rs`, `config.rs` and `error.rs`.  A `usize`
is a natural number, with the checks of the source where it makes them; `checkedAdd` is its
`checked_add` on a 64-bit target. -/

namespace Orthotope

/-- One more than the largest `usize`. -/
def usizeLimit : Nat := 2 ^ 64

def checkedAdd (a b : Nat) : Option Nat := if a + b < usizeLimit then some (a + b) else none

/-- Bytes reserved for allocator metadata at the start of every block. -/
def headerSize : Nat := 64

/-- Alignment required for allocation headers and block starts. -/
def headerAlignment : Nat := 64

/-- Default block-start alignment used for class sizing. -/
def blockAlignment : Nat := 64

/-- Failures while constructing an allocator instance.  A mapping that the system refuses does not
occur here: the address of the mapping is an input of `Arena.new`. -/
inductive InitError where
  | invalidConfig (reason : String)
  deriving DecidableEq, Repr

/-- Failures that can occur while allocating memory. -/
inductive AllocError where
  | zeroSize
  | globalInitFailed
  | outOfMemory (requested remaining : Nat)
  deriving DecidableEq, Repr

/-- Detectable failures while freeing memory. -/
inductive FreeError where
  | globalInitFailed
  | foreignPointer
  | sizeMismatch (provided recorded : Nat)
  | doubleFree
  | alreadyFreedOrUnknownLarge
  | corruptHeader
  deriving DecidableEq, Repr

/-- Fixed small-allocation classes. -/
inductive SizeClass where
  | b64 | b256 | b4K | b6K | b8K | b16K | b32K | b64K | b128K | b256K | b1M | b16M
  deriving DecidableEq, Repr

namespace SizeClass

/-- All size classes in ascending order. -/
def all : List SizeClass :=
  [b64, b256, b4K, b6K, b8K, b16K, b32K, b64K, b128K, b256K, b1M, b16M]

/-- The arms of the `match` of `from_request`: first and last request size, and the class. -/
def requestRanges : List (Nat × Nat × SizeClass) :=
  [(1, 64, b64), (65, 256, b256), (257, 4096, b4K), (4097, 6144, b6K), (6145, 8192, b8K),
    (8193, 16384, b16K), (16385, 32768, b32K), (32769, 65536, b64K), (65537, 131072, b128K),
    (131073, 262144, b256K), (262145, 1048576, b1M), (1048577, 16777216, b16M)]

/-- Maps a request size to its small-allocation class, or `none` for zero and large requests. -/
def fromRequest (size : Nat) : Option SizeClass :=
  (requestRanges.find? fun r => r.1 ≤ size && size ≤ r.2.1).map fun r => r.2.2

/-- The maximum user payload size, in bytes. -/
def payloadSize : SizeClass → Nat
  | b64 => 64
  | b256 => 256
  | b4K => 4096
  | b6K => 6 * 1024
  | b8K => 8192
  | b16K => 16384
  | b32K => 32768
  | b64K => 65536
  | b128K => 131072
  | b256K => 262144
  | b1M => 1048576
  | b16M => 16777216

/-- The stable dense array index of the class. -/
def index : SizeClass → Nat
  | b64 => 0
  | b256 => 1
  | b4K => 2
  | b6K => 3
  | b8K => 4
  | b16K => 5
  | b32K => 6
  | b64K => 7
  | b128K => 8
  | b256K => 9
  | b1M => 10
  | b16M => 11

end SizeClass

/-- `align_up` of `size_class.rs`: unchecked. -/
def alignUp (value alignment : Nat) : Nat :=
  if value % alignment = 0 then value else value + (alignment - value % alignment)

/-- `align_up` of `arena.rs` and `global_alloc.rs`, and `align_up_checked` of `allocator.rs`: no
result when the rounded value leaves the address space. -/
def alignUpChecked (value alignment : Nat) : Option Nat :=
  if value % alignment = 0 then some value
  else checkedAdd value (alignment - value % alignment)

def effectiveBlockAlignment (alignment : Nat) : Nat :=
  if alignment < blockAlignment then blockAlignment else alignment

namespace SizeClass

/-- The full allocator block size for this class using `alignment`. -/
def blockSizeForAlignment (c : SizeClass) (alignment : Nat) : Nat :=
  alignUp (c.payloadSize + headerSize) (effectiveBlockAlignment alignment)

/-- The largest request still handled by the small-allocation path. -/
def maxSmallRequest : Nat := payloadSize b16M

end SizeClass

/-- Arena capacity, alignment, and small-object cache sizing. -/
structure AllocatorConfig where
  arenaSize : Nat
  alignment : Nat
  refillTargetBytes : Nat
  localCacheTargetBytes : Nat
  deriving DecidableEq, Repr

namespace AllocatorConfig

variable (config : AllocatorConfig) (c : SizeClass)

def classBlockSize : Nat := c.blockSizeForAlignment config.alignment

/-- The refill batch size, in blocks. -/
def refillCount : Nat :=
  let count := config.refillTargetBytes / config.classBlockSize c
  if count = 0 then 1 else count

/-- The local per-class block limit before a drain is triggered. -/
def localLimit : Nat :=
  let limit := config.localCacheTargetBytes / config.classBlockSize c
  if limit < 2 then 2 else limit

/-- The number of blocks drained per class when the local limit is exceeded. -/
def drainCount : Nat :=
  let count := config.refillCount c / 2
  if count = 0 then 1 else count

end AllocatorConfig

/-! ### Rounding -/

theorem le_alignUp (value alignment : Nat) : value ≤ alignUp value alignment := by
  unfold alignUp
  split <;> omega

theorem dvd_alignUp {value alignment : Nat} (h : 0 < alignment) :
    alignment ∣ alignUp value alignment := by
  unfold alignUp
  split
  · exact Nat.dvd_of_mod_eq_zero ‹_›
  · apply Nat.dvd_of_mod_eq_zero
    have hlt := Nat.mod_lt value h
    have hsum : value + (alignment - value % alignment) =
        alignment * (value / alignment) + alignment := by
      have := Nat.div_add_mod value alignment
      omega
    rw [hsum, Nat.mul_add_mod_self_left, Nat.mod_self]

theorem alignUp_lt {value alignment : Nat} (h : 0 < alignment) :
    alignUp value alignment < value + alignment := by
  unfold alignUp
  have := Nat.mod_lt value h
  split <;> omega

theorem alignUp_of_dvd {value alignment : Nat} (h : alignment ∣ value) :
    alignUp value alignment = value :=
  if_pos (Nat.mod_eq_zero_of_dvd h)

/-- Rounding up gives the least multiple that is not smaller. -/
theorem alignUp_le_iff {value alignment m : Nat} (h : 0 < alignment) (hm : alignment ∣ m) :
    alignUp value alignment ≤ m ↔ value ≤ m := by
  constructor
  · exact (le_alignUp value alignment).trans
  · intro hle
    have hdvd : alignment ∣ alignUp value alignment := dvd_alignUp h
    have hlt : alignUp value alignment < value + alignment := alignUp_lt h
    obtain ⟨i, hi⟩ := hdvd
    obtain ⟨j, rfl⟩ := hm
    rw [hi] at hlt ⊢
    have hij : alignment * i < alignment * (j + 1) := by
      rw [Nat.mul_succ]
      omega
    exact Nat.mul_le_mul_left alignment (Nat.le_of_lt_succ (Nat.lt_of_mul_lt_mul_left hij))

theorem alignUpChecked_eq_some {value alignment result : Nat}
    (h : alignUpChecked value alignment = some result) : result = alignUp value alignment := by
  simp only [alignUpChecked, checkedAdd] at h
  unfold alignUp
  split at h
  · rw [if_pos ‹_›]
    exact (Option.some.inj h).symm
  · rw [if_neg ‹_›]
    split at h
    · exact (Option.some.inj h).symm
    · simp at h

theorem alignUpChecked_of_lt {value alignment : Nat} (h : alignUp value alignment < usizeLimit) :
    alignUpChecked value alignment = some (alignUp value alignment) := by
  unfold alignUp at h
  unfold alignUpChecked checkedAdd alignUp
  split
  · rfl
  · rw [if_neg ‹_›] at h
    rw [if_pos h]

/-! ### Classes -/

namespace SizeClass

theorem requestRanges_payload : ∀ r ∈ requestRanges, 0 < r.1 ∧ r.2.1 = r.2.2.payloadSize := by
  decide

theorem fromRequest_spec {size : Nat} {c : SizeClass} (h : fromRequest size = some c) :
    0 < size ∧ size ≤ c.payloadSize := by
  obtain ⟨r, hr, rfl⟩ := Option.map_eq_some_iff.mp h
  obtain ⟨hpos, hpay⟩ := requestRanges_payload r (List.mem_of_find?_eq_some hr)
  have hin := List.find?_some hr
  simp only [Bool.and_eq_true, decide_eq_true_eq] at hin
  omega

theorem fromRequest_eq_none {size : Nat} :
    fromRequest size = none ↔ size = 0 ∨ maxSmallRequest < size := by
  simp only [fromRequest, Option.map_eq_none_iff, List.find?_eq_none, requestRanges,
    List.forall_mem_cons, maxSmallRequest, payloadSize, Bool.and_eq_true, decide_eq_true_eq,
    List.not_mem_nil, false_imp_iff, implies_true, and_true]
  omega

theorem payloadSize_pos (c : SizeClass) : 0 < c.payloadSize := by cases c <;> decide

theorem payloadSize_lt (c : SizeClass) : c.payloadSize < 2 ^ 32 := by cases c <;> decide

theorem index_lt (c : SizeClass) : c.index < 12 := by cases c <;> decide

theorem mem_all (c : SizeClass) : c ∈ all := by cases c <;> decide

end SizeClass

namespace AllocatorConfig

variable (config : AllocatorConfig) (c : SizeClass)

theorem effectiveBlockAlignment_pos (alignment : Nat) : 0 < effectiveBlockAlignment alignment := by
  unfold effectiveBlockAlignment blockAlignment
  split <;> omega

/-- A class block holds its header and the largest request of the class. -/
theorem header_payload_le_classBlockSize :
    c.payloadSize + headerSize ≤ config.classBlockSize c :=
  le_alignUp _ _

theorem classBlockSize_pos : 0 < config.classBlockSize c := by
  have := config.header_payload_le_classBlockSize c
  unfold headerSize at this
  omega

theorem dvd_classBlockSize (h : headerAlignment ≤ config.alignment) :
    config.alignment ∣ config.classBlockSize c := by
  have he : effectiveBlockAlignment config.alignment = config.alignment :=
    if_neg (by unfold headerAlignment at h; unfold blockAlignment; omega)
  unfold classBlockSize SizeClass.blockSizeForAlignment
  rw [he]
  exact dvd_alignUp (he ▸ effectiveBlockAlignment_pos config.alignment)

theorem refillCount_pos : 0 < config.refillCount c := by
  unfold refillCount
  simp only
  split
  · exact Nat.one_pos
  · exact Nat.pos_of_ne_zero ‹_›

theorem drainCount_pos : 0 < config.drainCount c := by
  unfold drainCount
  simp only
  split <;> omega

theorem two_le_localLimit : 2 ≤ config.localLimit c := by
  unfold localLimit
  simp only
  split <;> omega

end AllocatorConfig

end Orthotope
