import Mathlib.Data.UInt
import Mathlib.Algebra.Order.Ring.Nat
import Mathlib.Tactic.Ring

/-! A byte-addressed memory with little-endian words and lazily reclaimed pages.  A page that has
been given up with `advise` may be replaced by zeros until the next write to it, so the memory
records which pages are in that state.  The lemmas say what a write changes: its own bytes, and the
reclaimable mark of the pages it touches. -/

namespace ByteMemory

/-- The bytes of an address space, its page size, and the pages (by number) that have been advised
as free and not been written since. -/
structure Mem where
  byte : Nat → UInt8
  pageSize : Nat
  lazyPage : Nat → Bool

namespace Mem

variable (m : Mem)

/-- Memory that reads as zero everywhere. -/
def zero (pageSize : Nat) : Mem := ⟨fun _ => 0, pageSize, fun _ => false⟩

/-- The page that holds `x` may be discarded. -/
def lazyAt (x : Nat) : Bool := m.lazyPage (x / m.pageSize)

/-- The little-endian word of `n` bytes at `a`. -/
def read (a : Nat) : Nat → Nat
  | 0 => 0
  | n + 1 => (m.byte a).toNat + 256 * read (a + 1) n

/-- Page `k` has a byte in `[a, a + n)`. -/
def pageMeets (k a n : Nat) : Bool := k * m.pageSize < a + n && a < (k + 1) * m.pageSize

/-- Stores the `n` low bytes of `v` at `a`.  The pages written cannot be discarded any more. -/
def write (a n v : Nat) : Mem :=
  { m with
    byte := fun x => if a ≤ x ∧ x < a + n then UInt8.ofNat (v / 256 ^ (x - a)) else m.byte x
    lazyPage := fun k => m.lazyPage k && !m.pageMeets k a n }

/-- Marks every whole page inside `[a, a + n)` as reclaimable. -/
def advise (a n : Nat) : Mem :=
  { m with
    lazyPage := fun k =>
      m.lazyPage k || (a ≤ k * m.pageSize && (k + 1) * m.pageSize ≤ a + n) }

/-- Replaces page `k` by zeros. -/
def discard (k : Nat) : Mem :=
  { m with byte := fun x => if x / m.pageSize = k then 0 else m.byte x }

variable {m}

@[simp] theorem write_pageSize (a n v : Nat) : (m.write a n v).pageSize = m.pageSize := rfl

@[simp] theorem advise_pageSize (a n : Nat) : (m.advise a n).pageSize = m.pageSize := rfl

@[simp] theorem advise_byte (a n : Nat) : (m.advise a n).byte = m.byte := rfl

@[simp] theorem discard_pageSize (k : Nat) : (m.discard k).pageSize = m.pageSize := rfl

@[simp] theorem discard_lazyAt (k x : Nat) : (m.discard k).lazyAt x = m.lazyAt x := rfl

theorem write_byte_outside {a n v x : Nat} (h : x < a ∨ a + n ≤ x) :
    (m.write a n v).byte x = m.byte x := by
  have : ¬(a ≤ x ∧ x < a + n) := by omega
  simp [write, this]

theorem write_byte_inside {a n v i : Nat} (h : i < n) :
    (m.write a n v).byte (a + i) = UInt8.ofNat (v / 256 ^ i) := by
  simp [write, h]

theorem div_mul_le_self_lt {x p : Nat} (hp : 0 < p) :
    x / p * p ≤ x ∧ x < (x / p + 1) * p :=
  ⟨Nat.div_mul_le_self x p, Nat.lt_mul_of_div_lt (Nat.lt_succ_self _) hp⟩

/-- A write takes every byte it stores off the reclaimable pages. -/
theorem write_lazyAt_inside (hp : 0 < m.pageSize) {a n v x : Nat} (h1 : a ≤ x) (h2 : x < a + n) :
    (m.write a n v).lazyAt x = false := by
  obtain ⟨hlo, hhi⟩ := div_mul_le_self_lt (x := x) hp
  have h3 : x / m.pageSize * m.pageSize < a + n := by omega
  have h4 : a < (x / m.pageSize + 1) * m.pageSize := by omega
  simp [lazyAt, write, pageMeets, h3, h4]

theorem write_lazyAt_le {a n v x : Nat} (h : (m.write a n v).lazyAt x = true) :
    m.lazyAt x = true := by
  simp only [lazyAt, write, Bool.and_eq_true] at h
  exact h.1

/-- Advising a range makes only the bytes of whole pages inside it reclaimable. -/
theorem advise_lazyAt (hp : 0 < m.pageSize) {a n x : Nat} (h : (m.advise a n).lazyAt x = true) :
    m.lazyAt x = true ∨ (a ≤ x ∧ x < a + n) := by
  simp only [lazyAt, advise, Bool.or_eq_true, Bool.and_eq_true, decide_eq_true_eq] at h
  obtain ⟨hlo, hhi⟩ := div_mul_le_self_lt (x := x) hp
  rcases h with h | ⟨h1, h2⟩
  · exact Or.inl h
  · exact Or.inr ⟨by omega, by omega⟩

theorem discard_byte_other {k x : Nat} (h : x / m.pageSize ≠ k) :
    (m.discard k).byte x = m.byte x := by
  simp [discard, h]

/-- A discard of a reclaimable page spares the bytes that are not reclaimable. -/
theorem discard_byte_of_lazyAt {k x : Nat} (hk : m.lazyPage k = true) (h : m.lazyAt x = false) :
    (m.discard k).byte x = m.byte x := by
  apply discard_byte_other
  rintro rfl
  exact Bool.false_ne_true (h.symm.trans hk)

theorem discard_byte_eq_or (m : Mem) (k x : Nat) :
    (m.discard k).byte x = m.byte x ∨ (m.discard k).byte x = 0 := by
  by_cases h : x / m.pageSize = k
  · exact Or.inr (by simp [discard, h])
  · exact Or.inl (discard_byte_other h)

/-- A piece of a page that is aligned to its own size is discarded as a whole. -/
theorem discard_byte_piece {k b n : Nat} (hn : n ∣ m.pageSize) (hb : n ∣ b) :
    (∀ i < n, (m.discard k).byte (b + i) = 0) ∨
      ∀ i < n, (m.discard k).byte (b + i) = m.byte (b + i) := by
  have hpage : ∀ i < n, (b + i) / m.pageSize = b / m.pageSize := by
    intro i hi
    obtain ⟨p, hp⟩ := hn
    obtain ⟨q, rfl⟩ := hb
    have hpos : 0 < n := by omega
    rw [hp, ← Nat.div_div_eq_div_mul, ← Nat.div_div_eq_div_mul, Nat.mul_add_div hpos,
      Nat.div_eq_of_lt hi, Nat.mul_div_cancel_left _ hpos, Nat.add_zero]
  by_cases h : b / m.pageSize = k
  · exact Or.inl fun i hi => by simp [discard, hpage i hi, h]
  · exact Or.inr fun i hi => discard_byte_other (by rwa [hpage i hi])

theorem read_congr {m m' : Mem} {a n : Nat}
    (h : ∀ i < n, m'.byte (a + i) = m.byte (a + i)) : m'.read a n = m.read a n := by
  induction n generalizing a with
  | zero => rfl
  | succ n ih =>
    have h0 : m'.byte a = m.byte a := by simpa using h 0 (by omega)
    have hrest : m'.read (a + 1) n = m.read (a + 1) n := ih fun i hi => by
      have := h (i + 1) (by omega)
      rwa [show a + (i + 1) = a + 1 + i by omega] at this
    simp only [read, h0, hrest]

theorem read_write_disjoint {a n b k v : Nat} (h : a + n ≤ b ∨ b + k ≤ a) :
    (m.write b k v).read a n = m.read a n :=
  read_congr fun i hi => write_byte_outside (by omega)

theorem read_bytes (m : Mem) (a n v : Nat)
    (h : ∀ i < n, m.byte (a + i) = UInt8.ofNat (v / 256 ^ i)) : m.read a n = v % 256 ^ n := by
  induction n generalizing a v with
  | zero => simp [read, Nat.mod_one]
  | succ n ih =>
    have h0 : m.byte a = UInt8.ofNat v := by simpa using h 0 (by omega)
    have hrest : m.read (a + 1) n = v / 256 % 256 ^ n := ih (a + 1) (v / 256) fun i hi => by
      have := h (i + 1) (by omega)
      rw [show a + (i + 1) = a + 1 + i by omega] at this
      rw [this, Nat.div_div_eq_div_mul, pow_succ', Nat.mul_comm]
    rw [read, h0, hrest, UInt8.toNat_ofNat', pow_succ' 256, Nat.mod_mul]

theorem read_write_mod (a n v : Nat) : (m.write a n v).read a n = v % 256 ^ n :=
  read_bytes _ a n v fun _ hi => write_byte_inside hi

/-- A word that fits its width reads back as it was stored. -/
theorem read_write_same {a n v : Nat} (h : v < 256 ^ n) : (m.write a n v).read a n = v := by
  rw [read_write_mod, Nat.mod_eq_of_lt h]

/-- Words of equal width and value have the same bytes. -/
theorem bytes_of_read {m m' : Mem} {a n : Nat} (h : m'.read a n = m.read a n) :
    ∀ i < n, m'.byte (a + i) = m.byte (a + i) := by
  induction n generalizing a with
  | zero => intro i hi; omega
  | succ n ih =>
    simp only [read] at h
    have h0 := (m.byte a).toNat_lt
    have h0' := (m'.byte a).toNat_lt
    intro i hi
    cases i with
    | zero => exact UInt8.toNat_inj.mp (by simp only [Nat.add_zero]; omega)
    | succ i =>
      rw [show a + (i + 1) = a + 1 + i by omega]
      exact ih (by omega) i (by omega)

theorem read_zero {m : Mem} {a n : Nat} (h : ∀ i < n, m.byte (a + i) = 0) : m.read a n = 0 := by
  induction n generalizing a with
  | zero => rfl
  | succ n ih =>
    have h0 : m.byte a = 0 := by simpa using h 0 (by omega)
    have hrest : m.read (a + 1) n = 0 := ih fun i hi => by
      have := h (i + 1) (by omega)
      rwa [show a + (i + 1) = a + 1 + i by omega] at this
    simp [read, h0, hrest]

end Mem

/-- `m'` has the bytes of `m` on `[lo, hi)`, and no more of them are reclaimable. -/
structure SameOn (lo hi : Nat) (m m' : Mem) : Prop where
  byte : ∀ x, lo ≤ x → x < hi → m'.byte x = m.byte x
  lazyAt : ∀ x, lo ≤ x → x < hi → m'.lazyAt x = true → m.lazyAt x = true

namespace SameOn

variable {lo hi : Nat} {m m' : Mem}

theorem mono {lo' hi' : Nat} (h : SameOn lo hi m m') (hlo : lo ≤ lo') (hhi : hi' ≤ hi) :
    SameOn lo' hi' m m' :=
  ⟨fun x h1 h2 => h.byte x (by omega) (by omega), fun x h1 h2 => h.lazyAt x (by omega) (by omega)⟩

end SameOn

/-- The step from `m` to `m'` writes only inside `W`, a set of addresses, and makes no page
reclaimable. -/
structure WritesIn (W : Nat → Prop) (m m' : Mem) : Prop where
  byte : ∀ x, ¬W x → m'.byte x = m.byte x
  lazyAt : ∀ x, m'.lazyAt x = true → m.lazyAt x = true
  pageSize : m'.pageSize = m.pageSize

namespace WritesIn

variable {W W' : Nat → Prop} {m m₁ m₂ m' : Mem}

theorem refl (W : Nat → Prop) (m : Mem) : WritesIn W m m :=
  ⟨fun _ _ => rfl, fun _ h => h, rfl⟩

theorem trans (h : WritesIn W m m₁) (h' : WritesIn W m₁ m₂) : WritesIn W m m₂ :=
  ⟨fun x hx => (h'.byte x hx).trans (h.byte x hx), fun x hx => h.lazyAt x (h'.lazyAt x hx),
    h'.pageSize.trans h.pageSize⟩

theorem mono (h : WritesIn W m m') (hW : ∀ x, W x → W' x) : WritesIn W' m m' :=
  ⟨fun x hx => h.byte x fun hw => hx (hW x hw), h.lazyAt, h.pageSize⟩

theorem write {a n v : Nat} (h : ∀ x, a ≤ x → x < a + n → W x) : WritesIn W m (m.write a n v) := by
  refine ⟨fun x hx => Mem.write_byte_outside ?_, fun _ => Mem.write_lazyAt_le, rfl⟩
  by_contra hc
  exact hx (h x (by omega) (by omega))

theorem sameOn (h : WritesIn W m m') {lo hi : Nat} (hW : ∀ x, lo ≤ x → x < hi → ¬W x) :
    SameOn lo hi m m' :=
  ⟨fun x h1 h2 => h.byte x (hW x h1 h2), fun x _ _ => h.lazyAt x⟩

end WritesIn

/-- The step from `m` to `m'` writes nothing, and makes at most bytes of `A` reclaimable. -/
structure GivesUp (A : Nat → Prop) (m m' : Mem) : Prop where
  byte : ∀ x, m'.byte x = m.byte x
  lazyAt : ∀ x, m'.lazyAt x = true → m.lazyAt x = true ∨ A x
  pageSize : m'.pageSize = m.pageSize

namespace GivesUp

variable {A A' : Nat → Prop} {m m₁ m₂ m' : Mem}

theorem refl (A : Nat → Prop) (m : Mem) : GivesUp A m m :=
  ⟨fun _ => rfl, fun _ h => Or.inl h, rfl⟩

theorem trans (h : GivesUp A m m₁) (h' : GivesUp A m₁ m₂) : GivesUp A m m₂ :=
  ⟨fun x => (h'.byte x).trans (h.byte x), fun x hx => (h'.lazyAt x hx).elim (h.lazyAt x) Or.inr,
    h'.pageSize.trans h.pageSize⟩

theorem mono (h : GivesUp A m m') (hA : ∀ x, A x → A' x) : GivesUp A' m m' :=
  ⟨h.byte, fun x hx => (h.lazyAt x hx).imp_right (hA x), h.pageSize⟩

theorem advise (hp : 0 < m.pageSize) {a n : Nat} (h : ∀ x, a ≤ x → x < a + n → A x) :
    GivesUp A m (m.advise a n) :=
  ⟨fun _ => rfl, fun x hx => (Mem.advise_lazyAt hp hx).imp_right fun hx => h x hx.1 hx.2, rfl⟩

end GivesUp

/-- The step from `m` to `m'` writes only inside `W` and makes at most bytes of `A` reclaimable. -/
structure Changes (W A : Nat → Prop) (m m' : Mem) : Prop where
  byte : ∀ x, ¬W x → m'.byte x = m.byte x
  lazyAt : ∀ x, m'.lazyAt x = true → m.lazyAt x = true ∨ A x
  pageSize : m'.pageSize = m.pageSize

namespace Changes

variable {W A : Nat → Prop} {m m' : Mem}

theorem refl (m : Mem) : Changes (fun _ => False) (fun _ => False) m m :=
  ⟨fun _ _ => rfl, fun _ h => Or.inl h, rfl⟩

theorem sameOn (h : Changes W A m m') {lo hi : Nat} (hW : ∀ x, lo ≤ x → x < hi → ¬W x)
    (hA : ∀ x, lo ≤ x → x < hi → ¬A x) : SameOn lo hi m m' :=
  ⟨fun x h1 h2 => h.byte x (hW x h1 h2),
    fun x h1 h2 hx => (h.lazyAt x hx).resolve_right (hA x h1 h2)⟩

end Changes

theorem WritesIn.changes {W : Nat → Prop} {m m' : Mem} (h : WritesIn W m m') :
    Changes W (fun _ => False) m m' :=
  ⟨h.byte, fun x hx => Or.inl (h.lazyAt x hx), h.pageSize⟩

theorem GivesUp.changes {A : Nat → Prop} {m m' : Mem} (h : GivesUp A m m') :
    Changes (fun _ => False) A m m' :=
  ⟨fun x _ => h.byte x, h.lazyAt, h.pageSize⟩

end ByteMemory
