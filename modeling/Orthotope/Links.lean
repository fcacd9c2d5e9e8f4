import Orthotope.FreeList
import Orthotope.Lib.LinkedChain

/-! Intrusive lists against plain sequences.  `FreeList.ofSeq` and `Batch.ofSeq` are the code's list
and chain for a sequence of blocks, and they are right in a memory in which the link words of the
blocks form a chain.  The code's operations then compute what the operations on sequences do, and
differ from them only in the link words that they write. -/

namespace Orthotope

open ByteMemory LinkedChain

/-- An address that a link word can hold, of a block whose link word overlaps no other. -/
structure Linkable (b : Nat) : Prop where
  aligned : b % 64 = 0
  pos : 0 < b
  lt : b < 2 ^ 64

/-- The link words in `m` lead through the blocks of `l`. -/
abbrev Linked (m : Mem) (l : List Nat) : Prop := Chain (readSmallFreeListNext m) l

/-! ### Link words -/

section Words

variable {m : Mem} {b b' : Nat} {next : Option Nat}

theorem readNext_congr {m' : Mem} (h : ∀ x, inLink b x → m'.byte x = m.byte x) :
    readSmallFreeListNext m' b = readSmallFreeListNext m b := by
  have : m'.read (b + 24) 8 = m.read (b + 24) 8 :=
    Mem.read_congr fun i hi => h _ ⟨by omega, by omega⟩
  simp only [readSmallFreeListNext, this]

theorem readNext_write (h : ∀ n, next = some n → Linkable n) :
    readSmallFreeListNext (writeSmallFreeListNext m b next) b = next := by
  have hlt : next.getD 0 < 256 ^ 8 := by
    cases next with
    | none => exact Nat.pow_pos (by omega)
    | some n =>
      have := (h n rfl).lt
      rw [show (256 : Nat) = 2 ^ 8 from rfl, ← Nat.pow_mul]
      exact this
  unfold readSmallFreeListNext writeSmallFreeListNext
  rw [Mem.read_write_same hlt]
  cases next with
  | none => rfl
  | some n => exact if_neg (Nat.pos_iff_ne_zero.mp (h n rfl).pos)

theorem Linkable.apart (hb : Linkable b) (hb' : Linkable b') (hne : b' ≠ b) :
    b' + 64 ≤ b ∨ b + 64 ≤ b' := by
  have h1 := hb.aligned
  have h2 := hb'.aligned
  omega

theorem readNext_write_ne (hb : Linkable b) (hb' : Linkable b') (hne : b' ≠ b) :
    readSmallFreeListNext (writeSmallFreeListNext m b next) b' = readSmallFreeListNext m b' := by
  have := hb.apart hb' hne
  refine readNext_congr fun x hx => Mem.write_byte_outside ?_
  obtain ⟨h1, h2⟩ := hx
  omega

end Words

/-! ### Two memories that differ in link words -/

/-- `mF` has the bytes of `mS` outside of the link words of the blocks in `K`, and no more of its
pages can be discarded. -/
structure Agree (K : Nat → Prop) (mF mS : Mem) : Prop where
  byte : ∀ x, (∀ b, K b → ¬inLink b x) → mF.byte x = mS.byte x
  lazyPage : ∀ k, mF.lazyPage k = true → mS.lazyPage k = true
  pageSize : mF.pageSize = mS.pageSize

namespace Agree

variable {K K' : Nat → Prop} {mF mS : Mem}

theorem refl (K : Nat → Prop) (m : Mem) : Agree K m m := ⟨fun _ _ => rfl, fun _ h => h, rfl⟩

theorem mono (h : Agree K mF mS) (hK : ∀ b, K b → K' b) : Agree K' mF mS :=
  ⟨fun x hx => h.byte x fun b hb => hx b (hK b hb), h.lazyPage, h.pageSize⟩

theorem lazyAt (h : Agree K mF mS) {x : Nat} (hx : mF.lazyAt x = true) : mS.lazyAt x = true := by
  unfold Mem.lazyAt at hx ⊢
  rw [← h.pageSize]
  exact h.lazyPage _ hx

/-- The same store to both. -/
theorem write (h : Agree K mF mS) (a n v : Nat) : Agree K (mF.write a n v) (mS.write a n v) where
  byte := fun x hx => by
    by_cases hin : a ≤ x ∧ x < a + n
    · simp [Mem.write, hin]
    · simp only [Mem.write, hin, if_false]
      exact h.byte x hx
  lazyPage := fun k hk => by
    simp only [Mem.write, Mem.pageMeets, Bool.and_eq_true, h.pageSize] at hk ⊢
    exact ⟨h.lazyPage k hk.1, hk.2⟩
  pageSize := h.pageSize

/-- A store to a link word of one side. -/
theorem writeNext (h : Agree K mF mS) {b : Nat} (hb : K b) (next : Option Nat) :
    Agree K (writeSmallFreeListNext mF b next) mS where
  byte := fun x hx => by
    refine (Mem.write_byte_outside ?_).trans (h.byte x hx)
    have := hx b hb
    unfold inLink at this
    omega
  lazyPage := fun k hk => by
    simp only [writeSmallFreeListNext, Mem.write, Bool.and_eq_true] at hk
    exact h.lazyPage k hk.1
  pageSize := h.pageSize

theorem advise (h : Agree K mF mS) (a n : Nat) : Agree K (mF.advise a n) (mS.advise a n) where
  byte := h.byte
  lazyPage := fun k hk => by
    simp only [Mem.advise, Bool.or_eq_true, h.pageSize] at hk ⊢
    exact hk.imp_left (h.lazyPage k)
  pageSize := h.pageSize

theorem discard (h : Agree K mF mS) (k : Nat) : Agree K (mF.discard k) (mS.discard k) where
  byte := fun x hx => by
    simp only [Mem.discard, h.pageSize]
    split
    · rfl
    · exact h.byte x hx
  lazyPage := h.lazyPage
  pageSize := h.pageSize

theorem writeFields (h : Agree K mF mS) (b : Nat) (layout : List (Nat × Nat)) (values : List Nat) :
    Agree K (writeFields b layout values mF) (Orthotope.writeFields b layout values mS) := by
  induction layout generalizing values mF mS with
  | nil => exact h
  | cons field layout ih =>
    cases values with
    | nil => exact h
    | cons v values => exact ih (h.write _ _ _) values

end Agree

/-! ### Steps on both sides -/

/-- A step takes the two memories from `mF` and `mS` to `mF'` and `mS'`, and of the link words on
the first side writes at most those of blocks in `T`. -/
structure Follows (T : Nat → Prop) (mF mS mF' mS' : Mem) : Prop where
  agree : ∀ K : Nat → Prop, (∀ b, T b → K b) → Agree K mF mS → Agree K mF' mS'
  next : ∀ b, Linkable b → ¬T b → readSmallFreeListNext mF' b = readSmallFreeListNext mF b

namespace Follows

variable {T T' : Nat → Prop} {mF mS mF₁ mS₁ mF₂ mS₂ : Mem}

theorem refl (T : Nat → Prop) (mF mS : Mem) : Follows T mF mS mF mS :=
  ⟨fun _ _ h => h, fun _ _ _ => rfl⟩

theorem trans (h : Follows T mF mS mF₁ mS₁) (h' : Follows T mF₁ mS₁ mF₂ mS₂) :
    Follows T mF mS mF₂ mS₂ :=
  ⟨fun K hK ha => h'.agree K hK (h.agree K hK ha),
    fun b hb hT => (h'.next b hb hT).trans (h.next b hb hT)⟩

theorem mono (h : Follows T mF mS mF₁ mS₁) (hT : ∀ b, T b → T' b) : Follows T' mF mS mF₁ mS₁ :=
  ⟨fun K hK => h.agree K fun b hb => hK b (hT b hb),
    fun b hb hn => h.next b hb fun ht => hn (hT b ht)⟩

theorem writeNext {b : Nat} (hT : T b) (hb : Linkable b) (next : Option Nat) :
    Follows T mF mS (writeSmallFreeListNext mF b next) mS :=
  ⟨fun _ hK ha => ha.writeNext (hK b hT) next,
    fun _ hb' hn => readNext_write_ne hb hb' fun heq => hn (heq ▸ hT)⟩

/-- A header write that both sides make. -/
theorem writeEncodedFields {b : Nat} (hT : T b) (hb : Linkable b)
    (kind classIndex requested usable owner : Nat) :
    Follows T mF mS (writeEncodedFields mF b kind classIndex requested usable owner)
      (Orthotope.writeEncodedFields mS b kind classIndex requested usable owner) := by
  refine ⟨fun _ _ ha => ha.writeFields b _ _, fun _ hb' hn => readNext_congr fun x hx => ?_⟩
  apply (writesIn_writeEncodedFields mF b kind classIndex requested usable owner).byte x
  rintro ⟨h1, h2⟩
  have := hb.apart hb' fun heq => hn (heq ▸ hT)
  obtain ⟨h3, h4⟩ := hx
  unfold headerSize at h2
  omega

theorem advise (a n : Nat) : Follows T mF mS (mF.advise a n) (mS.advise a n) :=
  ⟨fun _ _ ha => ha.advise a n, fun _ _ _ => rfl⟩

theorem pageSize (h : Follows T mF mS mF₁ mS₁) (ha : Agree (fun _ => True) mF mS) :
    mF₁.pageSize = mS₁.pageSize :=
  (h.agree _ (fun _ _ => trivial) ha).pageSize

/-- Lists that the step does not write stay linked. -/
theorem linked (h : Follows T mF mS mF₁ mS₁) {l : List Nat} (hl : Linked mF l)
    (hgood : ∀ b ∈ l, Linkable b) (hT : ∀ b ∈ l, ¬T b) : Linked mF₁ l :=
  hl.congr fun b hb => h.next b (hgood b hb) (hT b hb)

end Follows

/-! ### The operations -/

def FreeList.ofSeq (l : List Nat) : FreeList := ⟨l.head?, l.length⟩

def Batch.ofSeq (l : List Nat) : Batch := ⟨l.head?, l.getLast?, l.length⟩

@[simp] theorem len_ofSeq (l : List Nat) : BlockList.len (FreeList.ofSeq l) = l.length := rfl

@[simp] theorem isEmpty_ofSeq (l : List Nat) :
    BlockList.isEmpty (FreeList.ofSeq l) = l.isEmpty := by
  cases l <;> rfl

@[simp] theorem ofSeq_nil : FreeList.ofSeq [] = BlockList.empty := rfl

@[simp] theorem batch_ofSeq_nil : Batch.ofSeq [] = BlockStore.emptyBatch FreeList := rfl

@[simp] theorem batchLen_ofSeq (l : List Nat) :
    BlockStore.batchLen FreeList (Batch.ofSeq l) = l.length := rfl

@[simp] theorem batchIsEmpty_ofSeq (l : List Nat) :
    BlockStore.batchIsEmpty FreeList (Batch.ofSeq l) = l.isEmpty := by
  cases l <;> rfl

section Operations

variable {mF : Mem} (mS : Mem) {l batch : List Nat} {T : Nat → Prop}

theorem linkable_head (h : ∀ b ∈ l, Linkable b) : ∀ n, l.head? = some n → Linkable n :=
  fun n hn => h n (List.mem_of_mem_head? hn)

theorem linked_writeNext {b : Nat} (hb : Linkable b) (hgood : ∀ x ∈ l, Linkable x)
    (next : Option Nat) : ∀ x ∈ l, x ≠ b → readSmallFreeListNext
      (writeSmallFreeListNext mF b next) x = readSmallFreeListNext mF x :=
  fun x hx hne => readNext_write_ne hb (hgood x hx) hne

theorem pushBlock_ofSeq {b : Nat} (hl : Linked mF l) (hb : Linkable b)
    (hgood : ∀ x ∈ l, Linkable x) (hnew : b ∉ l) (hT : T b) :
    ∃ mF', BlockStore.pushBlock mF (FreeList.ofSeq l) b = (mF', FreeList.ofSeq (b :: l)) ∧
      Linked mF' (b :: l) ∧ Follows T mF mS mF' mS :=
  ⟨_, rfl, hl.cons (linked_writeNext hb hgood _) hnew (readNext_write (linkable_head hgood)),
    Follows.writeNext hT hb _⟩

theorem popBlockUnchecked_ofSeq {b : Nat} (hl : Linked mF (b :: l)) :
    BlockStore.popBlockUnchecked mF (FreeList.ofSeq (b :: l)) =
      some (b, FreeList.ofSeq l) := by
  show some (b, FreeList.mk (readSmallFreeListNext mF b) _) = _
  rw [hl.1]
  rfl

theorem pushBatch_ofSeq (hl : Linked mF l) (hbatch : Linked mF batch)
    (hgood : ∀ x ∈ batch ++ l, Linkable x) (hnodup : (batch ++ l).Nodup)
    (hT : ∀ b ∈ batch, T b) :
    ∃ mF', BlockStore.pushBatch mF (FreeList.ofSeq l) (Batch.ofSeq batch) =
        some (mF', FreeList.ofSeq (batch ++ l)) ∧
      Linked mF' (batch ++ l) ∧ Follows T mF mS mF' mS := by
  cases hlast : batch.getLast? with
  | none =>
    obtain rfl := List.getLast?_eq_none_iff.mp hlast
    exact ⟨mF, rfl, hl, Follows.refl _ _ _⟩
  | some x =>
    have hmem : x ∈ batch := List.mem_of_getLast? hlast
    have hx := hgood x (List.mem_append.mpr (Or.inl hmem))
    have hgood' : ∀ b ∈ l, Linkable b := fun b hb => hgood b (List.mem_append.mpr (Or.inr hb))
    refine ⟨writeSmallFreeListNext mF x l.head?, ?_, ?_, Follows.writeNext (hT x hmem) hx _⟩
    · cases batch with
      | nil => cases hlast
      | cons b batch =>
        simp only [BlockStore.pushBatch, FreeList.pushBatch, FreeList.ofSeq, Batch.ofSeq, hlast,
          List.length_append, List.head?_cons, List.cons_append, List.length_cons]
        rw [if_neg (by omega), Nat.add_comm l.length, Nat.add_right_comm]
    · exact hbatch.append hl hlast hnodup (linked_writeNext hx hgood _)
        (readNext_write (linkable_head hgood'))

theorem walk_eq_follow (m : Mem) (n b : Nat) :
    FreeList.walk m n b = follow (readSmallFreeListNext m) n b := by
  induction n generalizing b with
  | zero => rfl
  | succ n ih =>
    simp only [FreeList.walk, follow]
    congr 1
    funext b'
    exact ih b'

theorem popBatchUnchecked_ofSeq {max : Nat} (hl : Linked mF l) (hne : l ≠ []) (hmax : max ≠ 0)
    (hgood : ∀ x ∈ l, Linkable x) (hnodup : l.Nodup) (hT : ∀ b ∈ l.take max, T b) :
    ∃ mF', BlockStore.popBatchUnchecked mF (FreeList.ofSeq l) max =
        some (mF', Batch.ofSeq (l.take max), FreeList.ofSeq (l.drop max)) ∧
      Linked mF' (l.take max) ∧ Linked mF' (l.drop max) ∧ Follows T mF mS mF' mS := by
  have htake : l.take max ≠ [] := by simp [hne, hmax]
  obtain ⟨x, hx⟩ := List.getLast?_isSome.mpr htake |> Option.isSome_iff_exists.mp
  have hmem : x ∈ l.take max := List.mem_of_getLast? hx
  have hgoodx := hgood x (List.mem_of_mem_take hmem)
  have hsplit : Linked mF (l.take max ++ l.drop max) := by rwa [List.take_append_drop]
  have hgood' : ∀ b ∈ l.take max ++ l.drop max, Linkable b := by rwa [List.take_append_drop]
  obtain ⟨h1, h2⟩ := hsplit.cut hx (by rwa [List.take_append_drop])
    (linked_writeNext hgoodx hgood' none) (readNext_write nofun)
  refine ⟨writeSmallFreeListNext mF x none, ?_, h1, h2, Follows.writeNext (hT x hmem) hgoodx _⟩
  cases l with
  | nil => exact absurd rfl hne
  | cons b l =>
    have hlen : min max (b :: l).length - 1 < (b :: l).length := by
      simp only [List.length_cons]
      omega
    have hwalk : FreeList.walk mF (min max (b :: l).length - 1) b = some x := by
      rw [walk_eq_follow, hl.follow_eq hlen, ← hx, List.getLast?_eq_getElem?, List.length_take,
        List.getElem?_take_of_lt (by simp only [List.length_cons]; omega)]
    have hnext := hsplit.next_getLast hx
    have hhead : ((b :: l).take max).head? = some b := by
      rw [List.head?_take, if_neg hmax, List.head?_cons]
    have hlen' : (b :: l).length - min max (b :: l).length = (b :: l).length - max := by omega
    show FreeList.popBatchUnchecked mF (FreeList.ofSeq (b :: l)) max = _
    simp only [FreeList.popBatchUnchecked, FreeList.ofSeq, Batch.ofSeq, List.head?_cons, hwalk,
      hnext, hx, hhead, List.length_take, List.length_drop, hlen']

theorem batchPopBlockUnchecked_ofSeq {b : Nat} (hl : Linked mF (b :: batch)) :
    BlockStore.batchPopBlockUnchecked FreeList mF (Batch.ofSeq (b :: batch)) =
      some (b, Batch.ofSeq batch) := by
  show some (b, Batch.mk (readSmallFreeListNext mF b) _ _) = _
  rw [hl.1]
  cases batch with
  | nil => rfl
  | cons b' batch => simp [Batch.ofSeq]

end Operations

/-! ### Several lists -/

/-- A family of lists without common blocks, each of them linked. -/
structure Woven (m : Mem) (lists : List (List Nat)) : Prop where
  linked : ∀ l ∈ lists, Linked m l
  nodup : lists.flatten.Nodup
  linkable : ∀ b ∈ lists.flatten, Linkable b

namespace Woven

variable {m m' : Mem} {lists : List (List Nat)} {T : Nat → Prop} {mS mS' : Mem}

theorem follows (h : Woven m lists) (hf : Follows T m mS m' mS')
    (hT : ∀ b ∈ lists.flatten, ¬T b) : Woven m' lists where
  linked := fun l hl => hf.linked (h.linked l hl)
    (fun b hb => h.linkable b (List.mem_flatten.mpr ⟨l, hl, hb⟩))
    fun b hb => hT b (List.mem_flatten.mpr ⟨l, hl, hb⟩)
  nodup := h.nodup
  linkable := h.linkable

/-- One of the lists is replaced, by a step that writes links of its blocks and of blocks that are
in none of the lists. -/
theorem set (h : Woven m lists) {i : Nat} {old new : List Nat} (hi : lists[i]? = some old)
    (hf : Follows T m mS m' mS') (hT : ∀ b, T b → b ∈ old ∨ b ∉ lists.flatten)
    (hnew : Linked m' new) (hnodup : new.Nodup) (hlinkable : ∀ b ∈ new, Linkable b)
    (hsub : ∀ b ∈ new, b ∈ old ∨ b ∉ lists.flatten) : Woven m' (lists.set i new) := by
  obtain ⟨hlt, rfl⟩ := List.getElem?_eq_some_iff.mp hi
  obtain ⟨hnd, hdisj⟩ := List.nodup_flatten.mp h.nodup
  -- the other lists share no block with the one replaced
  have hother : ∀ j (hj : j < lists.length), i ≠ j → ∀ b ∈ lists[j], b ∉ lists[i] := by
    intro j hj hne b hb hbi
    rcases Nat.lt_or_gt_of_ne hne with hij | hij
    · exact List.pairwise_iff_getElem.mp hdisj i j hlt hj hij hbi hb
    · exact List.pairwise_iff_getElem.mp hdisj j i hj hlt hij hb hbi
  have hflat : ∀ j (hj : j < lists.length), ∀ b ∈ lists[j], b ∈ lists.flatten := fun j hj b hb =>
    List.mem_flatten.mpr ⟨_, List.getElem_mem hj, hb⟩
  have hmem : ∀ l ∈ lists.set i new,
      l = new ∨ ∃ j, ∃ hj : j < lists.length, i ≠ j ∧ l = lists[j] := by
    intro l hl
    obtain ⟨j, hj, rfl⟩ := List.mem_iff_getElem.mp hl
    rw [List.length_set] at hj
    by_cases hij : i = j
    · subst hij
      exact Or.inl (List.getElem_set_self ..)
    · exact Or.inr ⟨j, hj, hij, List.getElem_set_ne hij ..⟩
  refine ⟨fun l hl => ?_, List.nodup_flatten.mpr ⟨fun l hl => ?_, ?_⟩, fun b hb => ?_⟩
  · rcases hmem l hl with rfl | ⟨j, hj, hij, rfl⟩
    · exact hnew
    · refine hf.linked (h.linked _ (List.getElem_mem hj))
        (fun b hb => h.linkable b (hflat j hj b hb)) fun b hb ht => ?_
      exact (hT b ht).elim (hother j hj hij b hb) fun hn => hn (hflat j hj b hb)
  · rcases hmem l hl with rfl | ⟨j, hj, _, rfl⟩
    · exact hnodup
    · exact hnd _ (List.getElem_mem hj)
  · have hfresh : ∀ j (hj : j < lists.length), i ≠ j → ∀ b ∈ lists[j], b ∉ new := by
      intro j hj hij b hb hbn
      exact (hsub b hbn).elim (hother j hj hij b hb) fun hn => hn (hflat j hj b hb)
    rw [List.pairwise_iff_getElem]
    intro j k hj hk hjk
    rw [List.length_set] at hj hk
    rw [List.getElem_set, List.getElem_set]
    split
    · split
      · omega
      · exact fun b hbn hbk => hfresh k hk ‹_› b hbk hbn
    · split
      · exact fun b hbj hbn => hfresh j hj ‹_› b hbj hbn
      · exact List.pairwise_iff_getElem.mp hdisj j k hj hk hjk
  · obtain ⟨l, hl, hbl⟩ := List.mem_flatten.mp hb
    rcases hmem l hl with rfl | ⟨j, hj, _, rfl⟩
    · exact hlinkable b hbl
    · exact h.linkable b (hflat j hj b hbl)

/-- One of the lists loses blocks, without a write. -/
theorem shrink (h : Woven m lists) {i : Nat} {old new : List Nat} (hi : lists[i]? = some old)
    (hnew : Linked m new) (hsub : new.Sublist old) : Woven m (lists.set i new) := by
  have hmem : old ∈ lists := List.mem_of_getElem? hi
  have hold : old.Nodup := (List.nodup_flatten.mp h.nodup).1 old hmem
  exact h.set hi (Follows.refl (fun _ => False) m m) (fun _ h => h.elim) hnew (hsub.nodup hold)
    (fun b hb => h.linkable b (List.mem_flatten.mpr ⟨old, hmem, hsub.subset hb⟩))
    fun b hb => Or.inl (hsub.subset hb)

theorem append_nil (h : Woven m lists) : Woven m (lists ++ [[]]) := by
  refine ⟨fun l hl => ?_, by simpa using h.nodup, by simpa using h.linkable⟩
  rcases List.mem_append.mp hl with hl | hl
  · exact h.linked l hl
  · rw [List.mem_singleton.mp hl]
    trivial

/-- A block that is in none of the lists is pushed on one of them. -/
theorem push (h : Woven m lists) (mS : Mem) {i b : Nat} {old : List Nat}
    (hi : lists[i]? = some old) (hb : Linkable b) (hnew : b ∉ lists.flatten) :
    ∃ m', BlockStore.pushBlock m (FreeList.ofSeq old) b = (m', FreeList.ofSeq (b :: old)) ∧
      Woven m' (lists.set i (b :: old)) ∧ Follows (fun x => x = b) m mS m' mS := by
  have hold : old ∈ lists := List.mem_of_getElem? hi
  have hmem : ∀ x ∈ old, x ∈ lists.flatten := fun x hx => List.mem_flatten.mpr ⟨old, hold, hx⟩
  have hnot : b ∉ old := fun hb => hnew (hmem b hb)
  have hgood : ∀ x ∈ old, Linkable x := fun x hx => h.linkable x (hmem x hx)
  obtain ⟨m', heq, hlinked, hf⟩ := pushBlock_ofSeq (T := fun x => x = b) mS (h.linked old hold) hb
    hgood hnot rfl
  refine ⟨m', heq, h.set hi hf (fun x hx => Or.inr (hx ▸ hnew)) hlinked
    (List.nodup_cons.mpr ⟨hnot, (List.nodup_flatten.mp h.nodup).1 old hold⟩) ?_ ?_, hf⟩
  · exact List.forall_mem_cons.mpr ⟨hb, hgood⟩
  · exact List.forall_mem_cons.mpr ⟨Or.inr hnew, fun x hx => Or.inl hx⟩

/-- A detached chain is pushed on one of the lists. -/
theorem pushBatch (h : Woven m lists) (mS : Mem) {i : Nat} {old batch : List Nat}
    (hi : lists[i]? = some old) (hlinked : Linked m batch) (hgood : ∀ b ∈ batch, Linkable b)
    (hnodup : batch.Nodup) (hnew : ∀ b ∈ batch, b ∉ lists.flatten) :
    ∃ m', BlockStore.pushBatch m (FreeList.ofSeq old) (Batch.ofSeq batch) =
        some (m', FreeList.ofSeq (batch ++ old)) ∧
      Woven m' (lists.set i (batch ++ old)) ∧ Follows (fun x => x ∈ batch) m mS m' mS := by
  have hold : old ∈ lists := List.mem_of_getElem? hi
  have hmem : ∀ x ∈ old, x ∈ lists.flatten := fun x hx => List.mem_flatten.mpr ⟨old, hold, hx⟩
  have hgood' : ∀ x ∈ batch ++ old, Linkable x := fun x hx =>
    (List.mem_append.mp hx).elim (hgood x) fun hx => h.linkable x (hmem x hx)
  have hnd : (batch ++ old).Nodup := List.nodup_append.mpr ⟨hnodup,
    (List.nodup_flatten.mp h.nodup).1 old hold,
    fun x hx y hy hxy => hnew x hx (hxy ▸ hmem y hy)⟩
  obtain ⟨m', heq, hlinked', hf⟩ := pushBatch_ofSeq (T := fun x => x ∈ batch) mS
    (h.linked old hold) hlinked hgood' hnd fun _ hb => hb
  refine ⟨m', heq, h.set hi hf (fun x hx => Or.inr (hnew x hx)) hlinked' hnd hgood' ?_, hf⟩
  exact fun x hx => (List.mem_append.mp hx).symm.imp_right (hnew x)

/-- Up to `max` blocks are detached from one of the lists. -/
theorem popBatch (h : Woven m lists) (mS : Mem) {i max : Nat} {old : List Nat}
    (hi : lists[i]? = some old) (hne : old ≠ []) (hmax : max ≠ 0) :
    ∃ m', BlockStore.popBatchUnchecked m (FreeList.ofSeq old) max =
        some (m', Batch.ofSeq (old.take max), FreeList.ofSeq (old.drop max)) ∧
      Woven m' (lists.set i (old.drop max)) ∧ Linked m' (old.take max) ∧
      Follows (fun x => x ∈ old) m mS m' mS := by
  have hold : old ∈ lists := List.mem_of_getElem? hi
  have hgood : ∀ x ∈ old, Linkable x := fun x hx =>
    h.linkable x (List.mem_flatten.mpr ⟨old, hold, hx⟩)
  have hnd : old.Nodup := (List.nodup_flatten.mp h.nodup).1 old hold
  obtain ⟨m', heq, htake, hdrop, hf⟩ := popBatchUnchecked_ofSeq (T := fun x => x ∈ old) mS
    (h.linked old hold) hne hmax hgood hnd fun _ hb => List.mem_of_mem_take hb
  exact ⟨m', heq, h.set hi hf (fun _ hx => Or.inl hx) hdrop (hnd.sublist (List.drop_sublist _ _))
    (fun x hx => hgood x (List.mem_of_mem_drop hx)) fun x hx => Or.inl (List.mem_of_mem_drop hx),
    htake, hf⟩

end Woven

/-! ### Reading lists -/

/-- The first `n` blocks of the chain from `head` on. -/
def readChain (m : Mem) : (n : Nat) → (head : Option Nat) → List Nat
  | n + 1, some b => b :: readChain m n (readSmallFreeListNext m b)
  | _, _ => []

def FreeList.blocks (m : Mem) (l : FreeList) : List Nat := readChain m l.len l.head

def Batch.blocks (m : Mem) (batch : Batch) : List Nat := readChain m batch.len batch.head

theorem readChain_linked {m : Mem} {l : List Nat} (h : Linked m l) :
    readChain m l.length l.head? = l := by
  induction l with
  | nil => rfl
  | cons b l ih =>
    show b :: readChain m l.length (readSmallFreeListNext m b) = b :: l
    rw [h.1, ih h.2]

theorem FreeList.blocks_ofSeq {m : Mem} {l : List Nat} (h : Linked m l) :
    (FreeList.ofSeq l).blocks m = l := readChain_linked h

theorem Batch.blocks_ofSeq {m : Mem} {l : List Nat} (h : Linked m l) :
    (Batch.ofSeq l).blocks m = l := readChain_linked h

/-- A free list whose links lead through `l` and end there. -/
def FreeList.Holds (m : Mem) (list : FreeList) (l : List Nat) : Prop :=
  list = FreeList.ofSeq l ∧ Linked m l

/-- A chain of distinct blocks that ends with its tail. -/
def Batch.Detached (m : Mem) (batch : Batch) : Prop :=
  batch = Batch.ofSeq (batch.blocks m) ∧ Linked m (batch.blocks m) ∧ (batch.blocks m).Nodup

end Orthotope
