import Orthotope.Links

/-! Any number of free lists and detached batches over one store of link words.  The code's
operations refine those on sequences: as long as a pushed block is detached, an unchecked pop finds
a block and a batch is used once, every list and every batch is the sequence that it would be
without links. -/

namespace Orthotope

open ByteMemory LinkedChain

/-- A call on one of the lists `ι` or batches `β`.  A pop stores the batch that it detaches under a
name, and a push takes the batch with that name away. -/
inductive ListCall (ι β : Type) where
  | pushBlock (i : ι) (block : Nat)
  | popBlock (i : ι)
  | popBlockUnchecked (i : ι)
  | pushBatch (i : ι) (j : β)
  | popBatch (i : ι) (max : Nat) (j : β)
  | popBatchUnchecked (i : ι) (max : Nat) (j : β)
  | batchPopBlockUnchecked (j : β)
  | fromSingle (block : Nat) (j : β)

/-! ### The code -/

structure LinkStore (ι β : Type) where
  mem : Mem
  lists : ι → FreeList
  batches : β → Option Batch

namespace LinkStore

variable {ι β : Type}

/-- Empty lists and no batch, over a memory with any contents. -/
def new (m : Mem) : LinkStore ι β := ⟨m, fun _ => BlockList.empty, fun _ => none⟩

variable [DecidableEq ι]

def setList (s : LinkStore ι β) (i : ι) (list : FreeList) : LinkStore ι β :=
  { s with lists := Function.update s.lists i list }

variable [DecidableEq β]

def setBatch (s : LinkStore ι β) (j : β) (batch : Option Batch) : LinkStore ι β :=
  { s with batches := Function.update s.batches j batch }

/-- One call, with the block that it answers; a call that would be undefined has no result. -/
def step (s : LinkStore ι β) : ListCall ι β → Option (Option Nat × LinkStore ι β)
  | .pushBlock i block =>
    let (m, list) := FreeList.pushBlock s.mem (s.lists i) block
    some (none, { s with mem := m }.setList i list)
  | .popBlock i =>
    (FreeList.popBlock s.mem (s.lists i)).map fun (block, list) => (block, s.setList i list)
  | .popBlockUnchecked i =>
    (FreeList.popBlockUnchecked s.mem (s.lists i)).map fun (block, list) =>
      (some block, s.setList i list)
  | .pushBatch i j =>
    (s.batches j).bind fun batch =>
      (FreeList.pushBatch s.mem (s.lists i) batch).map fun (m, list) =>
        (none, ({ s with mem := m }.setList i list).setBatch j none)
  | .popBatch i max j =>
    (FreeList.popBatch s.mem (s.lists i) max).map fun (m, batch, list) =>
      (none, ({ s with mem := m }.setList i list).setBatch j (some batch))
  | .popBatchUnchecked i max j =>
    (FreeList.popBatchUnchecked s.mem (s.lists i) max).map fun (m, batch, list) =>
      (none, ({ s with mem := m }.setList i list).setBatch j (some batch))
  | .batchPopBlockUnchecked j =>
    (s.batches j).bind fun batch =>
      (Batch.popBlockUnchecked s.mem batch).map fun (block, batch) =>
        (some block, s.setBatch j (some batch))
  | .fromSingle block j =>
    let (m, batch) := Batch.fromSingle s.mem block
    some (none, { s with mem := m }.setBatch j (some batch))

/-- The calls one after the other, with their answers. -/
def runs (s : LinkStore ι β) : List (ListCall ι β) → Option (List (Option Nat) × LinkStore ι β)
  | [] => some ([], s)
  | call :: calls => (s.step call).bind fun (answer, s) =>
      (s.runs calls).map fun (answers, s) => (answer :: answers, s)

end LinkStore

/-! ### Sequences -/

/-- The same lists and batches as plain sequences of blocks. -/
structure Sequences (ι β : Type) where
  lists : ι → List Nat
  batches : β → Option (List Nat)

namespace Sequences

variable {ι β : Type}

def new : Sequences ι β := ⟨fun _ => [], fun _ => none⟩

def blocks (σ : Sequences ι β) : ι ⊕ β → List Nat
  | .inl i => σ.lists i
  | .inr j => (σ.batches j).getD []

/-- The block is in no list and in no batch. -/
def Detached (σ : Sequences ι β) (block : Nat) : Prop := ∀ x, block ∉ σ.blocks x

/-- The preconditions of the calls. -/
def Allows (σ : Sequences ι β) : ListCall ι β → Prop
  | .pushBlock _ block | .fromSingle block _ => Linkable block ∧ σ.Detached block
  | .popBlock _ | .popBatch _ _ _ => True
  | .popBlockUnchecked i => σ.lists i ≠ []
  | .pushBatch _ j => (σ.batches j).isSome
  | .popBatchUnchecked i max _ => σ.lists i ≠ [] ∧ max ≠ 0
  | .batchPopBlockUnchecked j => ∃ block batch, σ.batches j = some (block :: batch)

variable [DecidableEq ι]

def setList (σ : Sequences ι β) (i : ι) (list : List Nat) : Sequences ι β :=
  { σ with lists := Function.update σ.lists i list }

variable [DecidableEq β]

def setBatch (σ : Sequences ι β) (j : β) (batch : Option (List Nat)) : Sequences ι β :=
  { σ with batches := Function.update σ.batches j batch }

/-- What each call does to the sequences, and what it answers. -/
def step (σ : Sequences ι β) : ListCall ι β → Option Nat × Sequences ι β
  | .pushBlock i block => (none, σ.setList i (block :: σ.lists i))
  | .popBlock i | .popBlockUnchecked i => ((σ.lists i).head?, σ.setList i (σ.lists i).tail)
  | .pushBatch i j => (none, (σ.setList i ((σ.batches j).getD [] ++ σ.lists i)).setBatch j none)
  | .popBatch i max j | .popBatchUnchecked i max j =>
    (none, (σ.setList i ((σ.lists i).drop max)).setBatch j (some ((σ.lists i).take max)))
  | .batchPopBlockUnchecked j =>
    (((σ.batches j).getD []).head?, σ.setBatch j (some ((σ.batches j).getD []).tail))
  | .fromSingle block j => (none, σ.setBatch j (some [block]))

/-- Every call of the run meets its precondition. -/
def Respects (σ : Sequences ι β) : List (ListCall ι β) → Prop
  | [] => True
  | call :: calls => σ.Allows call ∧ (σ.step call).2.Respects calls

def runs (σ : Sequences ι β) : List (ListCall ι β) → List (Option Nat) × Sequences ι β
  | [] => ([], σ)
  | call :: calls =>
    let (answer, σ) := σ.step call
    let (answers, σ) := σ.runs calls
    (answer :: answers, σ)

end Sequences

/-! ### The refinement -/

section Refinement

variable {ι β : Type}

/-- The store holds the sequences: every list and batch has the head, tail and length of its
sequence, and the links lead through it, without a block in two places. -/
structure LinkStore.Denotes (s : LinkStore ι β) (σ : Sequences ι β) : Prop where
  lists : ∀ i, s.lists i = FreeList.ofSeq (σ.lists i)
  batches : ∀ j, s.batches j = (σ.batches j).map Batch.ofSeq
  family : Family (readSmallFreeListNext s.mem) σ.blocks
  linkable : ∀ x, ∀ b ∈ σ.blocks x, Linkable b

namespace LinkStore.Denotes

variable {s s' : LinkStore ι β} {σ σ' : Sequences ι β}

/-- Some of the lists and batches are replaced, by a step that writes no link of the others. -/
theorem change (h : s.Denotes σ) (changed : ι ⊕ β → Prop)
    (hlists : ∀ i, s'.lists i = FreeList.ofSeq (σ'.lists i))
    (hbatches : ∀ j, s'.batches j = (σ'.batches j).map Batch.ofSeq)
    (hsame : ∀ x, ¬changed x → σ'.blocks x = σ.blocks x)
    (hnext : ∀ x, ¬changed x → ∀ b ∈ σ.blocks x,
      readSmallFreeListNext s'.mem b = readSmallFreeListNext s.mem b)
    (hnew : ∀ x, changed x → Linked s'.mem (σ'.blocks x) ∧ (σ'.blocks x).Nodup ∧
      ∀ b ∈ σ'.blocks x, Linkable b ∧ ∀ y, ¬changed y → b ∉ σ.blocks y)
    (hdisjoint : ∀ x y, changed x → changed y → x ≠ y → (σ'.blocks x).Disjoint (σ'.blocks y)) :
    s'.Denotes σ' where
  lists := hlists
  batches := hbatches
  family := h.family.change changed hsame hnext (fun x hx => (hnew x hx).1)
    (fun x hx => (hnew x hx).2.1) (fun x hx b hb => ((hnew x hx).2.2 b hb).2) hdisjoint
  linkable := by
    intro x b hb
    by_cases hx : changed x
    · exact ((hnew x hx).2.2 b hb).1
    · rw [hsame x hx] at hb
      exact h.linkable x b hb

variable [DecidableEq ι]

theorem setList_eq (h : s.Denotes σ) (m : Mem) (i : ι) (list : List Nat) (i' : ι) :
    (({ s with mem := m }).setList i (FreeList.ofSeq list)).lists i' =
      FreeList.ofSeq ((σ.setList i list).lists i') := by
  show Function.update s.lists i _ i' = FreeList.ofSeq (Function.update σ.lists i list i')
  by_cases hi : i' = i
  · subst hi
    rw [Function.update_self, Function.update_self]
  · rw [Function.update_of_ne hi, Function.update_of_ne hi]
    exact h.lists i'

variable [DecidableEq β]

omit [DecidableEq ι] in
theorem setBatch_eq (h : s.Denotes σ) (m : Mem) (j : β) (batch : Option (List Nat)) (j' : β) :
    (({ s with mem := m }).setBatch j (batch.map Batch.ofSeq)).batches j' =
      ((σ.setBatch j batch).batches j').map Batch.ofSeq := by
  show Function.update s.batches j _ j' = (Function.update σ.batches j batch j').map Batch.ofSeq
  by_cases hj : j' = j
  · subst hj
    rw [Function.update_self, Function.update_self]
  · rw [Function.update_of_ne hj, Function.update_of_ne hj]
    exact h.batches j'

omit [DecidableEq β] in
/-- A list is replaced. -/
theorem change_list (h : s.Denotes σ) {i : ι} {m : Mem} {list : List Nat} {T : Nat → Prop}
    (hf : Follows T s.mem s.mem m s.mem) (hT : ∀ x, x ≠ .inl i → ∀ b ∈ σ.blocks x, ¬T b)
    (hlinked : Linked m list) (hnodup : list.Nodup)
    (hnew : ∀ b ∈ list, Linkable b ∧ ∀ y, y ≠ .inl i → b ∉ σ.blocks y) :
    ({ s with mem := m }.setList i (FreeList.ofSeq list)).Denotes (σ.setList i list) := by
  have hself : (σ.setList i list).blocks (.inl i) = list := Function.update_self ..
  refine h.change (fun x => x = .inl i) (h.setList_eq m i list) h.batches (fun x hx => ?_)
    (fun x hx b hb => hf.next b (h.linkable x b hb) (hT x hx b hb)) ?_ ?_
  · cases x with
    | inl i' =>
      have hi : i' ≠ i := fun heq => hx (heq ▸ rfl)
      exact Function.update_of_ne hi ..
    | inr j => rfl
  · intro x hx
    subst hx
    rw [hself]
    exact ⟨hlinked, hnodup, hnew⟩
  · intro x y hx hy hne
    exact absurd (hx.trans hy.symm) hne

omit [DecidableEq ι] in
/-- A batch is replaced. -/
theorem change_batch (h : s.Denotes σ) {j : β} {m : Mem} {batch : List Nat} {T : Nat → Prop}
    (hf : Follows T s.mem s.mem m s.mem) (hT : ∀ x, x ≠ .inr j → ∀ b ∈ σ.blocks x, ¬T b)
    (hlinked : Linked m batch) (hnodup : batch.Nodup)
    (hnew : ∀ b ∈ batch, Linkable b ∧ ∀ y, y ≠ .inr j → b ∉ σ.blocks y) :
    ({ s with mem := m }.setBatch j (some (Batch.ofSeq batch))).Denotes
      (σ.setBatch j (some batch)) := by
  have hself : (σ.setBatch j (some batch)).blocks (.inr j) = batch := by
    show (Function.update σ.batches j (some batch) j).getD [] = batch
    rw [Function.update_self]
    rfl
  refine h.change (fun x => x = .inr j) h.lists (h.setBatch_eq m j (some batch)) (fun x hx => ?_)
    (fun x hx b hb => hf.next b (h.linkable x b hb) (hT x hx b hb)) ?_ ?_
  · cases x with
    | inl i => rfl
    | inr j' =>
      have hj : j' ≠ j := fun heq => hx (heq ▸ rfl)
      show (Function.update σ.batches j (some batch) j').getD [] = _
      rw [Function.update_of_ne hj]
      rfl
  · intro x hx
    subst hx
    rw [hself]
    exact ⟨hlinked, hnodup, hnew⟩
  · intro x y hx hy hne
    exact absurd (hx.trans hy.symm) hne

/-- A list and a batch are replaced, by parts of what they and nobody else had. -/
theorem change_both (h : s.Denotes σ) {i : ι} {j : β} {m : Mem} {list : List Nat}
    (batch : Option (List Nat)) {T : Nat → Prop} (hf : Follows T s.mem s.mem m s.mem)
    (hT : ∀ b, T b → b ∈ σ.lists i ∨ b ∈ σ.blocks (.inr j)) (hlist : Linked m list)
    (hbatch : Linked m (batch.getD [])) (hnodup : (batch.getD [] ++ list).Nodup)
    (hsub : ∀ b ∈ batch.getD [] ++ list, b ∈ σ.lists i ∨ b ∈ σ.blocks (.inr j)) :
    (({ s with mem := m }.setList i (FreeList.ofSeq list)).setBatch j
      (batch.map Batch.ofSeq)).Denotes ((σ.setList i list).setBatch j batch) := by
  have hinl : ((σ.setList i list).setBatch j batch).blocks (.inl i) = list :=
    Function.update_self ..
  have hinr : ((σ.setList i list).setBatch j batch).blocks (.inr j) = batch.getD [] := by
    show (Function.update σ.batches j batch j).getD [] = _
    rw [Function.update_self]
  obtain ⟨hnd, hnd', hdisjoint⟩ := List.nodup_append.mp hnodup
  -- the blocks at hand are in no other list or batch
  have hother : ∀ b, b ∈ σ.lists i ∨ b ∈ σ.blocks (.inr j) →
      Linkable b ∧ ∀ y, ¬(y = .inl i ∨ y = .inr j) → b ∉ σ.blocks y := by
    intro b hb
    rcases hb with hb | hb
    · exact ⟨h.linkable (.inl i) b hb, fun y hy hby =>
        h.family.disjoint (.inl i) y (fun heq => hy (Or.inl heq.symm)) hb hby⟩
    · exact ⟨h.linkable (.inr j) b hb, fun y hy hby =>
        h.family.disjoint (.inr j) y (fun heq => hy (Or.inr heq.symm)) hb hby⟩
  refine h.change (fun x => x = .inl i ∨ x = .inr j) (h.setList_eq m i list)
    (h.setBatch_eq m j batch) (fun x hx => ?_) (fun x hx b hb => ?_) (fun x hx => ?_)
    fun x y hx hy hne => ?_
  · cases x with
    | inl i' =>
      have hi : i' ≠ i := fun heq => hx (Or.inl (heq ▸ rfl))
      exact Function.update_of_ne hi ..
    | inr j' =>
      have hj : j' ≠ j := fun heq => hx (Or.inr (heq ▸ rfl))
      show (Function.update σ.batches j batch j').getD [] = _
      rw [Function.update_of_ne hj]
      rfl
  · exact hf.next b (h.linkable x b hb) fun ht => (hother b (hT b ht)).2 x hx hb
  · rcases hx with rfl | rfl
    · rw [hinl]
      exact ⟨hlist, hnd', fun b hb => hother b (hsub b (List.mem_append_right _ hb))⟩
    · rw [hinr]
      exact ⟨hbatch, hnd, fun b hb => hother b (hsub b (List.mem_append_left _ hb))⟩
  · have hapart : (batch.getD []).Disjoint list := fun b hb hb' => hdisjoint b hb b hb' rfl
    rcases hx with rfl | rfl <;> rcases hy with rfl | rfl
    · exact absurd rfl hne
    · rw [hinl, hinr]
      exact hapart.symm
    · rw [hinl, hinr]
      exact hapart
    · exact absurd rfl hne

/-- A pop of a batch splits a list. -/
theorem popBatchUnchecked (h : s.Denotes σ) {i : ι} {max : Nat} (hne : σ.lists i ≠ [])
    (hmax : max ≠ 0) (j : β) : ∃ m, FreeList.popBatchUnchecked s.mem (s.lists i) max =
        some (m, Batch.ofSeq ((σ.lists i).take max), FreeList.ofSeq ((σ.lists i).drop max)) ∧
      (({ s with mem := m }.setList i (FreeList.ofSeq ((σ.lists i).drop max))).setBatch j
        (some (Batch.ofSeq ((σ.lists i).take max)))).Denotes
          ((σ.setList i ((σ.lists i).drop max)).setBatch j (some ((σ.lists i).take max))) := by
  have hnodup : (σ.lists i).Nodup := h.family.nodup (.inl i)
  obtain ⟨m, hpop, htake, hdrop, hf⟩ := popBatchUnchecked_ofSeq (T := fun b => b ∈ σ.lists i) s.mem
    (h.family.chain (.inl i)) hne hmax (h.linkable (.inl i)) hnodup
      fun b hb => List.mem_of_mem_take hb
  have hsplit : (σ.lists i).take max ++ (σ.lists i).drop max = σ.lists i :=
    List.take_append_drop ..
  refine ⟨m, ?_, h.change_both (some ((σ.lists i).take max)) hf (fun b hb => Or.inl hb)
    hdrop htake ?_ ?_⟩
  · rw [h.lists]
    exact hpop
  · rw [Option.getD_some, hsplit]
    exact hnodup
  · rw [Option.getD_some, hsplit]
    exact fun b hb => Or.inl hb

omit [DecidableEq β] in
/-- A pop takes the first block of a list. -/
theorem popBlockUnchecked (h : s.Denotes σ) {i : ι} {block : Nat} {rest : List Nat}
    (hl : σ.lists i = block :: rest) :
    FreeList.popBlockUnchecked s.mem (s.lists i) = some (block, FreeList.ofSeq rest) ∧
      (s.setList i (FreeList.ofSeq rest)).Denotes (σ.setList i rest) := by
  have hlinked : Linked s.mem (block :: rest) := hl ▸ h.family.chain (.inl i)
  have hnodup : (block :: rest).Nodup := hl ▸ h.family.nodup (.inl i)
  have hmem : ∀ b ∈ rest, b ∈ σ.lists i := fun b hb => hl ▸ List.mem_cons_of_mem block hb
  refine ⟨?_, h.change_list (Follows.refl (fun _ => False) s.mem s.mem) (fun _ _ _ _ hf => hf)
    hlinked.2 (List.nodup_cons.mp hnodup).2 fun b hb => ⟨h.linkable (.inl i) b (hmem b hb),
      fun y hy hby => h.family.disjoint (.inl i) y (Ne.symm hy) (hmem b hb) hby⟩⟩
  rw [h.lists, hl]
  exact popBlockUnchecked_ofSeq hlinked

/-- One call.  The code answers what the sequences answer, and holds what they become. -/
theorem step (h : s.Denotes σ) {call : ListCall ι β} (hallows : σ.Allows call) :
    ∃ s', s.step call = some ((σ.step call).1, s') ∧ s'.Denotes (σ.step call).2 := by
  have hstill : Follows (fun _ => False) s.mem s.mem s.mem s.mem := Follows.refl _ _ _
  cases call with
  | pushBlock i block =>
    obtain ⟨hlinkable, hdetached⟩ := hallows
    obtain ⟨m, hpush, hlinked, hf⟩ := pushBlock_ofSeq (T := fun b => b = block) s.mem
      (h.family.chain (.inl i)) hlinkable (h.linkable (.inl i)) (hdetached (.inl i)) rfl
    have hpush : FreeList.pushBlock s.mem (FreeList.ofSeq (σ.lists i)) block =
      (m, FreeList.ofSeq (block :: σ.lists i)) := hpush
    refine ⟨{ s with mem := m }.setList i (FreeList.ofSeq (block :: σ.lists i)), ?_,
      h.change_list hf (fun x _ b hb heq => hdetached x (heq ▸ hb)) hlinked
        (List.nodup_cons.mpr ⟨hdetached (.inl i), h.family.nodup (.inl i)⟩) fun b hb => ?_⟩
    · simp only [LinkStore.step, h.lists, hpush]
      rfl
    · rcases List.mem_cons.mp hb with rfl | hb
      · exact ⟨hlinkable, fun y _ => hdetached y⟩
      · exact ⟨h.linkable (.inl i) b hb, fun y hy hby =>
          h.family.disjoint (.inl i) y (Ne.symm hy) hb hby⟩
  | popBlock i =>
    cases hl : σ.lists i with
    | nil =>
      have hpop : FreeList.popBlock s.mem (s.lists i) = some (none, FreeList.ofSeq []) := by
        rw [h.lists, hl]
        rfl
      refine ⟨s.setList i (FreeList.ofSeq []), ?_, ?_⟩
      · simp only [LinkStore.step, hpop, Sequences.step, hl]
        rfl
      · simp only [Sequences.step, hl]
        exact h.change_list hstill (fun _ _ _ _ hf => hf) trivial List.nodup_nil
          fun b hb => absurd hb List.not_mem_nil
    | cons block rest =>
      obtain ⟨hunchecked, hdenotes⟩ := h.popBlockUnchecked hl
      have hlen : (s.lists i).len ≠ 0 := by
        rw [h.lists, hl]
        exact Nat.succ_ne_zero _
      refine ⟨s.setList i (FreeList.ofSeq rest), ?_, ?_⟩
      · simp only [LinkStore.step, FreeList.popBlock, if_neg hlen, hunchecked, Sequences.step, hl]
        rfl
      · simp only [Sequences.step, hl]
        exact hdenotes
  | popBlockUnchecked i =>
    obtain ⟨block, rest, hl⟩ := List.exists_cons_of_ne_nil hallows
    obtain ⟨hunchecked, hdenotes⟩ := h.popBlockUnchecked hl
    refine ⟨s.setList i (FreeList.ofSeq rest), ?_, ?_⟩
    · simp only [LinkStore.step, hunchecked, Sequences.step, hl]
      rfl
    · simp only [Sequences.step, hl]
      exact hdenotes
  | pushBatch i j =>
    obtain ⟨batch, hbatch⟩ := Option.isSome_iff_exists.mp hallows
    have hblocks : σ.blocks (.inr j) = batch := by
      show (σ.batches j).getD [] = batch
      rw [hbatch]
      rfl
    have hlinked : Linked s.mem batch := hblocks ▸ h.family.chain (.inr j)
    have hdisjoint : (σ.blocks (.inr j)).Disjoint (σ.lists i) :=
      h.family.disjoint (.inr j) (.inl i) Sum.inr_ne_inl
    rw [hblocks] at hdisjoint
    have hgood : ∀ b ∈ batch ++ σ.lists i, Linkable b := by
      intro b hb
      rcases List.mem_append.mp hb with hb | hb
      · exact h.linkable (.inr j) b (hblocks ▸ hb)
      · exact h.linkable (.inl i) b hb
    have hnodup : (batch ++ σ.lists i).Nodup := List.nodup_append.mpr
      ⟨hblocks ▸ h.family.nodup (.inr j), h.family.nodup (.inl i),
        fun b hb b' hb' heq => hdisjoint hb (heq ▸ hb')⟩
    obtain ⟨m, hpush, hlinked', hf⟩ := pushBatch_ofSeq (T := fun b => b ∈ batch) s.mem
      (h.family.chain (.inl i)) hlinked hgood hnodup fun b hb => hb
    have hpush : FreeList.pushBatch s.mem (FreeList.ofSeq (σ.lists i)) (Batch.ofSeq batch) =
      some (m, FreeList.ofSeq (batch ++ σ.lists i)) := hpush
    refine ⟨({ s with mem := m }.setList i (FreeList.ofSeq (batch ++ σ.lists i))).setBatch j none,
      ?_, ?_⟩
    · simp only [LinkStore.step, h.batches, hbatch, Option.map_some, Option.bind_some, h.lists,
        hpush]
      rfl
    · simp only [Sequences.step, hbatch, Option.getD_some]
      refine h.change_both none hf (fun b hb => Or.inr (hblocks ▸ hb)) hlinked' trivial hnodup
        fun b hb => ?_
      have hb : b ∈ batch ++ σ.lists i := hb
      rw [hblocks]
      exact (List.mem_append.mp hb).symm
  | popBatch i max j =>
    by_cases hnone : max = 0 ∨ σ.lists i = []
    · have hempty : max = 0 ∨ (s.lists i).len = 0 := by
        refine hnone.imp id fun hl => ?_
        rw [h.lists, hl]
        rfl
      have htake : (σ.lists i).take max = [] := by
        rcases hnone with rfl | hl
        · rfl
        · rw [hl, List.take_nil]
      have hdrop : (σ.lists i).drop max = σ.lists i := by
        rcases hnone with rfl | hl
        · rfl
        · rw [hl, List.drop_nil]
      refine ⟨(s.setList i (s.lists i)).setBatch j (some FreeList.emptyBatch), ?_, ?_⟩
      · simp only [LinkStore.step, FreeList.popBatch, if_pos hempty]
        rfl
      · simp only [Sequences.step, htake, hdrop, h.lists]
        exact h.change_both (some []) hstill (fun _ hf => hf.elim) (h.family.chain (.inl i))
          trivial (h.family.nodup (.inl i)) fun b hb => Or.inl hb
    · obtain ⟨hmax, hne⟩ := not_or.mp hnone
      obtain ⟨m, hpop, hdenotes⟩ := h.popBatchUnchecked hne hmax j
      have hlen : ¬(max = 0 ∨ (s.lists i).len = 0) := by
        rw [h.lists]
        exact not_or.mpr ⟨hmax, fun hzero => hne (List.length_eq_zero_iff.mp hzero)⟩
      refine ⟨_, ?_, hdenotes⟩
      simp only [LinkStore.step, FreeList.popBatch, if_neg hlen, hpop]
      rfl
  | popBatchUnchecked i max j =>
    obtain ⟨m, hpop, hdenotes⟩ := h.popBatchUnchecked hallows.1 hallows.2 j
    refine ⟨_, ?_, hdenotes⟩
    simp only [LinkStore.step, hpop]
    rfl
  | batchPopBlockUnchecked j =>
    obtain ⟨block, batch, hbatch⟩ := hallows
    have hblocks : σ.blocks (.inr j) = block :: batch := by
      show (σ.batches j).getD [] = _
      rw [hbatch]
      rfl
    have hlinked : Linked s.mem (block :: batch) := hblocks ▸ h.family.chain (.inr j)
    have hnodup : (block :: batch).Nodup := hblocks ▸ h.family.nodup (.inr j)
    have hmem : ∀ b ∈ batch, b ∈ σ.blocks (.inr j) :=
      fun b hb => hblocks ▸ List.mem_cons_of_mem block hb
    have hpop : Batch.popBlockUnchecked s.mem (Batch.ofSeq (block :: batch)) =
      some (block, Batch.ofSeq batch) := batchPopBlockUnchecked_ofSeq hlinked
    refine ⟨s.setBatch j (some (Batch.ofSeq batch)), ?_, ?_⟩
    · simp only [LinkStore.step, h.batches, hbatch, Option.map_some, Option.bind_some, hpop,
        Sequences.step, Option.getD_some]
      rfl
    · simp only [Sequences.step, hbatch, Option.getD_some]
      exact h.change_batch hstill (fun _ _ _ _ hf => hf) hlinked.2 (List.nodup_cons.mp hnodup).2
        fun b hb => ⟨h.linkable (.inr j) b (hmem b hb),
          fun y hy hby => h.family.disjoint (.inr j) y (Ne.symm hy) (hmem b hb) hby⟩
  | fromSingle block j =>
    obtain ⟨hlinkable, hdetached⟩ := hallows
    have hf : Follows (fun b => b = block) s.mem s.mem
        (writeSmallFreeListNext s.mem block none) s.mem :=
      Follows.writeNext (T := fun b => b = block) rfl hlinkable none
    have hlinked : Linked (writeSmallFreeListNext s.mem block none) [block] :=
      ⟨readNext_write fun n hn => (by cases hn), trivial⟩
    refine ⟨_, rfl, h.change_batch hf (fun x _ b hb heq => hdetached x (heq ▸ hb)) hlinked
      (List.nodup_singleton block) fun b hb => ?_⟩
    obtain rfl := List.mem_singleton.mp hb
    exact ⟨hlinkable, fun y _ => hdetached y⟩

theorem runs (h : s.Denotes σ) {calls : List (ListCall ι β)} (hrespects : σ.Respects calls) :
    ∃ s', s.runs calls = some ((σ.runs calls).1, s') ∧ s'.Denotes (σ.runs calls).2 := by
  induction calls generalizing s σ with
  | nil => exact ⟨s, rfl, h⟩
  | cons call calls ih =>
    obtain ⟨hallows, hrest⟩ := hrespects
    obtain ⟨s₁, hstep, h₁⟩ := h.step hallows
    obtain ⟨s', hruns, h'⟩ := ih h₁ hrest
    refine ⟨s', ?_, h'⟩
    simp only [LinkStore.runs, hstep, Option.bind_some, hruns, Option.map_some]
    rfl

end LinkStore.Denotes

theorem LinkStore.new_denotes (m : Mem) :
    (LinkStore.new m : LinkStore ι β).Denotes Sequences.new where
  lists _ := rfl
  batches _ := rfl
  family := by
    have hnone : ∀ x, (Sequences.new : Sequences ι β).blocks x = [] := by
      intro x
      cases x <;> rfl
    refine ⟨fun x => ?_, fun x => ?_, fun x y _ b hb _ => ?_⟩
    · rw [hnone]
      trivial
    · rw [hnone]
      exact List.nodup_nil
    · rw [hnone] at hb
      cases hb
  linkable x b hb := by cases x <;> cases hb

/-- What a list or a batch of the code looks like that denotes `l`: its links lead from the head
through `l` and end there. -/
structure Traces (m : Mem) (head : Option Nat) (len : Nat) (l : List Nat) : Prop where
  blocks : readChain m len head = l
  len_eq : len = l.length
  head_eq : head = l.head?
  linked : Linked m l
  nodup : l.Nodup
  isEmpty_iff : head.isNone = true ↔ len = 0

theorem Traces.of_linked {m : Mem} {l : List Nat} (hlinked : Linked m l) (hnodup : l.Nodup) :
    Traces m l.head? l.length l := by
  refine ⟨readChain_linked hlinked, rfl, rfl, hlinked, hnodup, ?_⟩
  cases l <;> simp

variable [DecidableEq ι] [DecidableEq β]

/-- Intrusive lists are sequences.  In a run that meets the preconditions no call is undefined,
every call answers what it would on sequences, and in the end every list and every batch is linked
through its sequence; no block is in two of them. -/
theorem LinkStore.refines_sequences (m : Mem) {calls : List (ListCall ι β)}
    (h : Sequences.new.Respects calls) :
    ∃ s : LinkStore ι β, (LinkStore.new m).runs calls = some ((Sequences.new.runs calls).1, s) ∧
      (∀ i, Traces s.mem (s.lists i).head (s.lists i).len ((Sequences.new.runs calls).2.lists i)) ∧
      (∀ j batch, (Sequences.new.runs calls).2.batches j = some batch → ∃ b, s.batches j = some b ∧
        Traces s.mem b.head b.len batch ∧ b.tail = batch.getLast?) ∧
      (∀ j, (Sequences.new.runs calls).2.batches j = none → s.batches j = none) ∧
      ∀ x y, x ≠ y → ((Sequences.new.runs calls).2.blocks x).Disjoint
        ((Sequences.new.runs calls).2.blocks y) := by
  obtain ⟨s, hruns, hdenotes⟩ := (LinkStore.new_denotes m).runs h
  refine ⟨s, hruns, fun i => ?_, fun j batch hbatch => ?_, fun j hnone => ?_,
    hdenotes.family.disjoint⟩
  · rw [hdenotes.lists]
    exact .of_linked (hdenotes.family.chain (.inl i)) (hdenotes.family.nodup (.inl i))
  · have hblocks : (Sequences.new.runs calls).2.blocks (.inr j) = batch := by
      show ((Sequences.new.runs calls).2.batches j).getD [] = batch
      rw [hbatch]
      rfl
    refine ⟨Batch.ofSeq batch, by rw [hdenotes.batches, hbatch]; rfl, ?_, rfl⟩
    have hlinked := hdenotes.family.chain (.inr j)
    have hnodup := hdenotes.family.nodup (.inr j)
    rw [hblocks] at hlinked hnodup
    exact .of_linked hlinked hnodup
  · rw [hdenotes.batches, hnone]
    rfl

/-- Three blocks go through two lists by way of a batch, over a memory whose link words are
stale. -/
def sampleCalls : List (ListCall Bool Bool) :=
  [.pushBlock true 64, .pushBlock true 128, .pushBlock true 192, .popBatch true 2 false,
    .fromSingle 256 true, .pushBatch false true, .pushBatch false false, .popBlock false,
    .pushBlock true 192]

theorem LinkStore.refines_sequences_sample :
    ∃ s : LinkStore Bool Bool, (LinkStore.new ((Mem.zero 4096).write 88 8 192)).runs sampleCalls =
        some ([none, none, none, none, none, none, none, some 192, none], s) ∧
      Traces s.mem (s.lists true).head (s.lists true).len [192, 64] ∧
      Traces s.mem (s.lists false).head (s.lists false).len [128, 256] := by
  have h : (Sequences.new : Sequences Bool Bool).Respects sampleCalls := by
    have hlinkable : Linkable 64 ∧ Linkable 128 ∧ Linkable 192 ∧ Linkable 256 := by
      refine ⟨?_, ?_, ?_, ?_⟩ <;> constructor <;> decide
    obtain ⟨h64, h128, h192, h256⟩ := hlinkable
    refine ⟨⟨h64, ?_⟩, ⟨h128, ?_⟩, ⟨h192, ?_⟩, trivial, ⟨h256, ?_⟩, rfl, rfl, trivial, ⟨h192, ?_⟩,
      trivial⟩
    all_goals
      refine Sum.forall.mpr ?_
      decide
  obtain ⟨s, hruns, hlists, -⟩ := LinkStore.refines_sequences ((Mem.zero 4096).write 88 8 192) h
  exact ⟨s, hruns, hlists true, hlists false⟩

end Refinement

end Orthotope
