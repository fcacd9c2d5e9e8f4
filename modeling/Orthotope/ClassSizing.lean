import Orthotope.ThreadCache
import Mathlib.Order.Bounds.Basic

/-! Class sizing for configurations that nobody has validated.  The programs are those of
`size_class.rs` and `config.rs` in machine arithmetic, where an overflow or a division by zero has
no result.  They have one for every alignment, so the numbers that a cache is made with are those of
the definitions over naturals; and the three tables of the classes agree on every request. -/

namespace Orthotope

/-- Number of fixed small-request classes. -/
def numClasses : Nat := 12

/-! ### Machine arithmetic -/

namespace Usize

/-- `a + b`, which overflows past the largest `usize`. -/
def add (a b : Nat) : Option Nat := checkedAdd a b

def sub (a b : Nat) : Option Nat := if b ≤ a then some (a - b) else none

def rem (a b : Nat) : Option Nat := if b = 0 then none else some (a % b)

def div (a b : Nat) : Option Nat := if b = 0 then none else some (a / b)

def alignUp (value alignment : Nat) : Option Nat :=
  (rem value alignment).bind fun remainder =>
    if remainder = 0 then some value else (sub alignment remainder).bind (add value)

def blockSizeForAlignment (c : SizeClass) (alignment : Nat) : Option Nat :=
  (add c.payloadSize headerSize).bind fun value =>
    alignUp value (effectiveBlockAlignment alignment)

def classBlockSize (config : AllocatorConfig) (c : SizeClass) : Option Nat :=
  blockSizeForAlignment c config.alignment

def refillCount (config : AllocatorConfig) (c : SizeClass) : Option Nat :=
  (classBlockSize config c).bind fun size =>
    (div config.refillTargetBytes size).map fun count => if count = 0 then 1 else count

def localLimit (config : AllocatorConfig) (c : SizeClass) : Option Nat :=
  (classBlockSize config c).bind fun size =>
    (div config.localCacheTargetBytes size).map fun limit => if limit < 2 then 2 else limit

def drainCount (config : AllocatorConfig) (c : SizeClass) : Option Nat :=
  (refillCount config c).bind fun count =>
    (div count 2).map fun count => if count = 0 then 1 else count

/-- An entry of the table. -/
def classConfig (config : AllocatorConfig) (c : SizeClass) : Option ClassCacheConfig :=
  (refillCount config c).bind fun refillCount =>
    (localLimit config c).bind fun localLimit =>
      (drainCount config c).map fun drainCount => ⟨refillCount, localLimit, drainCount⟩

/-- The `while` loop of `class_config_table`.  An index out of bounds has no result. -/
def fillTable (config : AllocatorConfig) (index : Nat) (entries : List ClassCacheConfig) :
    Option (List ClassCacheConfig) :=
  if index < numClasses then
    (SizeClass.all[index]?).bind fun c =>
      (classConfig config c).bind fun entry =>
        if index < entries.length then fillTable config (index + 1) (entries.set index entry)
        else none
  else some entries
termination_by numClasses - index

def classConfigTable (config : AllocatorConfig) : Option (List ClassCacheConfig) :=
  fillTable config 0 (List.replicate numClasses ⟨0, 0, 0⟩)

end Usize

/-! ### Every configuration has its table -/

section Total

variable {config : AllocatorConfig} {c : SizeClass}

/-- The unchecked addition of `align_up` stays in range: past a large alignment it comes to the
alignment itself. -/
theorem Usize.alignUp_eq {value alignment : Nat} (hpos : 0 < alignment)
    (halignment : alignment < usizeLimit) (hvalue : value + value ≤ usizeLimit) :
    Usize.alignUp value alignment = some (Orthotope.alignUp value alignment) := by
  have hmod := Nat.mod_lt value hpos
  have hlt : Orthotope.alignUp value alignment < usizeLimit := by
    unfold Orthotope.alignUp
    by_cases hsmall : value < alignment
    · rw [Nat.mod_eq_of_lt hsmall]
      split <;> omega
    · split <;> omega
  unfold Usize.alignUp Usize.rem
  rw [if_neg (Nat.pos_iff_ne_zero.mp hpos), Option.bind_some]
  unfold Orthotope.alignUp at hlt ⊢
  by_cases hzero : value % alignment = 0
  · rw [if_pos hzero, if_pos hzero]
  · rw [if_neg hzero] at hlt ⊢
    rw [if_neg hzero, Usize.sub, if_pos (Nat.le_of_lt hmod), Option.bind_some]
    exact if_pos hlt

theorem Usize.classBlockSize_eq (h : config.alignment < usizeLimit) :
    Usize.classBlockSize config c = some (config.classBlockSize c) := by
  have hpayload := c.payloadSize_lt
  have hsum : c.payloadSize + headerSize + (c.payloadSize + headerSize) ≤ usizeLimit := by
    unfold headerSize usizeLimit
    omega
  have heffective : effectiveBlockAlignment config.alignment < usizeLimit := by
    unfold effectiveBlockAlignment blockAlignment
    split
    · decide
    · exact h
  have hadd : Usize.add c.payloadSize headerSize = some (c.payloadSize + headerSize) :=
    if_pos (by unfold headerSize usizeLimit; omega)
  rw [Usize.classBlockSize, Usize.blockSizeForAlignment, hadd, Option.bind_some]
  exact Usize.alignUp_eq (AllocatorConfig.effectiveBlockAlignment_pos _) heffective hsum

theorem Usize.div_eq {a b : Nat} (h : 0 < b) : Usize.div a b = some (a / b) :=
  if_neg (Nat.pos_iff_ne_zero.mp h)

theorem Usize.classConfig_eq (h : config.alignment < usizeLimit) :
    Usize.classConfig config c = some (Orthotope.classConfigTable config c) := by
  have hsize := config.classBlockSize_pos c
  have hrefill : Usize.refillCount config c = some (config.refillCount c) := by
    rw [Usize.refillCount, Usize.classBlockSize_eq h, Option.bind_some, Usize.div_eq hsize]
    rfl
  have hlimit : Usize.localLimit config c = some (config.localLimit c) := by
    rw [Usize.localLimit, Usize.classBlockSize_eq h, Option.bind_some, Usize.div_eq hsize]
    rfl
  have hdrain : Usize.drainCount config c = some (config.drainCount c) := by
    rw [Usize.drainCount, hrefill, Option.bind_some, Usize.div_eq (by decide)]
    rfl
  rw [Usize.classConfig, hrefill, hlimit, hdrain]
  rfl

/-- Each turn of the loop fills one more entry. -/
theorem Usize.fillTable_eq (h : config.alignment < usizeLimit) (n : Nat) :
    ∀ (index : Nat) (entries : List ClassCacheConfig), index + n = numClasses →
      entries.length = numClasses →
      (∀ (i : Nat) (c : SizeClass), i < index → SizeClass.all[i]? = some c →
        entries[i]? = some (Orthotope.classConfigTable config c)) →
      ∃ table, Usize.fillTable config index entries = some table ∧ table.length = numClasses ∧
        ∀ (i : Nat) (c : SizeClass), SizeClass.all[i]? = some c →
          table[i]? = some (Orthotope.classConfigTable config c) := by
  induction n with
  | zero =>
    intro index entries hindex hlength hfilled
    refine ⟨entries, ?_, hlength, fun i c hc => hfilled i c ?_ hc⟩
    · rw [Usize.fillTable, if_neg (by omega)]
    · have hi : i < SizeClass.all.length := (List.getElem?_eq_some_iff.mp hc).1
      have hall : SizeClass.all.length = numClasses := rfl
      omega
  | succ n ih =>
    intro index entries hindex hlength hfilled
    have hlt : index < SizeClass.all.length := by
      show index < numClasses
      omega
    obtain ⟨c, hc⟩ : ∃ c, SizeClass.all[index]? = some c := ⟨_, List.getElem?_eq_getElem hlt⟩
    obtain ⟨table, htable, hspec⟩ := ih (index + 1)
      (entries.set index (Orthotope.classConfigTable config c)) (by omega)
      (by rw [List.length_set, hlength]) (by
        intro i d hi hd
        by_cases heq : i = index
        · subst heq
          obtain rfl := Option.some.inj (hc.symm.trans hd)
          exact List.getElem?_set_self (by omega)
        · rw [List.getElem?_set_ne (Ne.symm heq)]
          exact hfilled i d (by omega) hd)
    refine ⟨table, ?_, hspec⟩
    rw [Usize.fillTable, if_pos (by omega), hc, Option.bind_some, Usize.classConfig_eq h,
      Option.bind_some, if_pos (by omega)]
    exact htable

/-- The index of a class is its place in the list of all classes. -/
theorem SizeClass.all_index (c : SizeClass) : all[c.index]? = some c := by cases c <;> rfl

theorem Usize.classConfigTable_eq (h : config.alignment < usizeLimit) :
    ∃ table, Usize.classConfigTable config = some table ∧ table.length = numClasses ∧
      ∀ c : SizeClass, table[c.index]? = some (Orthotope.classConfigTable config c) := by
  obtain ⟨table, htable, hlength, hspec⟩ := Usize.fillTable_eq h numClasses 0
    (List.replicate numClasses ⟨0, 0, 0⟩) rfl rfl (fun i c hi => absurd hi (Nat.not_lt_zero i))
  exact ⟨table, htable, hlength, fun c => hspec c.index c c.all_index⟩

end Total

/-! ### The sizes -/

namespace AllocatorConfig

variable (config : AllocatorConfig) (c : SizeClass)

theorem effectiveBlockAlignment_eq (alignment : Nat) :
    effectiveBlockAlignment alignment = max alignment 64 := by
  unfold effectiveBlockAlignment blockAlignment
  split <;> omega

theorem isLeast_classBlockSize :
    IsLeast {m | max config.alignment 64 ∣ m ∧ c.payloadSize + headerSize ≤ m}
      (config.classBlockSize c) := by
  have hpos := effectiveBlockAlignment_pos config.alignment
  rw [← effectiveBlockAlignment_eq]
  constructor
  · exact ⟨dvd_alignUp hpos, le_alignUp _ _⟩
  · rintro m ⟨hdvd, hle⟩
    exact (alignUp_le_iff hpos hdvd).mpr hle

theorem drainCount_le_refillCount : config.drainCount c ≤ config.refillCount c := by
  have := config.refillCount_pos c
  unfold drainCount
  simp only
  split <;> omega

end AllocatorConfig

/-! ### Requests -/

namespace SizeClass

/-- The arms of `from_request` follow on each other: a request that comes after an arm is larger
than every payload up to it. -/
theorem requestRanges_least : ∀ r ∈ requestRanges, ∀ d : SizeClass,
    d.payloadSize < r.1 ∨ r.2.1 ≤ d.payloadSize := by
  intro r hr d
  revert r
  cases d <;> decide

theorem fromRequest_least {size : Nat} {c d : SizeClass} (h : fromRequest size = some c)
    (hd : size ≤ d.payloadSize) : c.payloadSize ≤ d.payloadSize := by
  obtain ⟨r, hr, rfl⟩ := Option.map_eq_some_iff.mp h
  have hmem := List.mem_of_find?_eq_some hr
  obtain ⟨-, hpayload⟩ := requestRanges_payload r hmem
  have hin := List.find?_some hr
  simp only [Bool.and_eq_true, decide_eq_true_eq] at hin
  rcases requestRanges_least r hmem d with hlt | hle
  · omega
  · omega

theorem payloadSize_le_max (c : SizeClass) : c.payloadSize ≤ maxSmallRequest := by
  cases c <;> decide

theorem payloadSize_injective {c d : SizeClass} (h : c.payloadSize = d.payloadSize) : c = d := by
  cases c <;> cases d <;> first | rfl | (simp [payloadSize] at h)

theorem fromRequest_none_iff {size : Nat} :
    fromRequest size = none ↔ size = 0 ∨ ∀ d : SizeClass, d.payloadSize < size := by
  rw [fromRequest_eq_none]
  refine or_congr_right ⟨fun h d => ?_, fun h => h b16M⟩
  exact Nat.lt_of_le_of_lt d.payloadSize_le_max h

theorem fromRequest_some_iff {size : Nat} {c : SizeClass} : fromRequest size = some c ↔
    0 < size ∧ size ≤ c.payloadSize ∧
      ∀ d : SizeClass, size ≤ d.payloadSize → c.payloadSize ≤ d.payloadSize := by
  constructor
  · intro h
    obtain ⟨hpos, hle⟩ := fromRequest_spec h
    exact ⟨hpos, hle, fun d hd => fromRequest_least h hd⟩
  · rintro ⟨hpos, hle, hleast⟩
    cases h : fromRequest size with
    | none =>
      rcases fromRequest_none_iff.mp h with hzero | hlarge
      · omega
      · have := hlarge c
        omega
    | some d =>
      have hd := (fromRequest_spec h).2
      have heq := Nat.le_antisymm (fromRequest_least h hle) (hleast d hd)
      rw [payloadSize_injective heq]

end SizeClass

/-- Class sizing is total and consistent for every configuration with an alignment that a `usize`
can have. -/
theorem AllocatorConfig.class_sizing (config : AllocatorConfig)
    (h : config.alignment < usizeLimit) :
    (∃ table, Usize.classConfigTable config = some table ∧ table.length = numClasses ∧
      ∀ c : SizeClass, table[c.index]? = some (classConfigTable config c)) ∧
    (∀ c, Usize.classBlockSize config c = some (config.classBlockSize c) ∧
      IsLeast {m | max config.alignment 64 ∣ m ∧ c.payloadSize + headerSize ≤ m}
        (config.classBlockSize c) ∧
      1 ≤ config.refillCount c ∧ 2 ≤ config.localLimit c ∧
        1 ≤ config.drainCount c ∧ config.drainCount c ≤ config.refillCount c) ∧
    ∀ size,
      (∀ c, SizeClass.fromRequest size = some c ↔ 0 < size ∧ size ≤ c.payloadSize ∧
        ∀ d : SizeClass, size ≤ d.payloadSize → c.payloadSize ≤ d.payloadSize) ∧
      (SizeClass.fromRequest size = none ↔ size = 0 ∨ ∀ d : SizeClass, d.payloadSize < size) ∧
      ∀ c, SizeClass.fromRequest size = some c → headerSize + size ≤ config.classBlockSize c := by
  refine ⟨Usize.classConfigTable_eq h, fun c => ?_, fun size => ?_⟩
  · exact ⟨Usize.classBlockSize_eq h, config.isLeast_classBlockSize c, config.refillCount_pos c,
      config.two_le_localLimit c, config.drainCount_pos c, config.drainCount_le_refillCount c⟩
  · refine ⟨fun c => SizeClass.fromRequest_some_iff, SizeClass.fromRequest_none_iff,
      fun c hc => ?_⟩
    have hle := (SizeClass.fromRequest_spec hc).2
    have hblock := config.header_payload_le_classBlockSize c
    omega

/-- The largest alignment of all, which no allocator accepts. -/
theorem class_sizing_sample :
    ∃ table, Usize.classConfigTable ⟨0, usizeLimit - 1, 0, 0⟩ = some table ∧
      table.length = numClasses ∧
      ∀ c : SizeClass, table[c.index]? = some (classConfigTable ⟨0, usizeLimit - 1, 0, 0⟩ c) :=
  (AllocatorConfig.class_sizing ⟨0, usizeLimit - 1, 0, 0⟩ (by decide)).1

example : Usize.classBlockSize ⟨0, usizeLimit - 1, 0, 0⟩ .b64 = some (usizeLimit - 1) := by decide

end Orthotope
