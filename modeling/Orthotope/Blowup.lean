import Orthotope.ClassBooks
import Orthotope.Capacity

/-! Bounded blowup.  A call asks the arena for blocks of a class only after it has found neither its
cache nor the central pool with one, and then for a refill at most.  So the arena never gives out
more blocks of a class than were live at once at some time, and a constant for each cache, whatever
the threads do in between. -/

namespace Orthotope

open ByteMemory AgentSums

variable {ι κ : Type}

/-! ### Runs on which something holds throughout -/

section Under

variable [DecidableEq ι] [DecidableEq κ] {L B : Type} [BlockStore L B]

/-- The states that runs lead to on which `P` holds throughout. -/
inductive Setup.ReachableUnder (setup : Setup ι κ) (P : World ι κ L B → Prop) :
    World ι κ L B → Prop
  | initial (hP : P (setup.world L B)) : ReachableUnder setup P (setup.world L B)
  | step {w w' : World ι κ L B} (action : Action ι κ) (h : ReachableUnder setup P w)
      (hstep : w.step setup.debug action = some w') (hP : P w') : ReachableUnder setup P w'

variable {setup : Setup ι κ} {P : World ι κ L B → Prop} {w w' : World ι κ L B}

theorem Setup.ReachableUnder.reachable (h : setup.ReachableUnder P w) : setup.Reachable w := by
  induction h with
  | initial hP => exact .initial
  | step action _ hstep _ ih => exact ih.step action hstep

theorem Setup.ReachableUnder.runs (h : setup.ReachableUnder P w) {actions : List (Action ι κ)}
    (hall : ∀ taken ∈ actions.inits, ∀ w', w.runs setup.debug taken = some w' → P w')
    (hruns : w.runs setup.debug actions = some w') : setup.ReachableUnder P w' := by
  induction actions generalizing w with
  | nil => exact Option.some.inj hruns ▸ h
  | cons action actions ih =>
    obtain ⟨w₁, hstep, hrest⟩ := Option.bind_eq_some_iff.mp hruns
    have htaken : ∀ taken ∈ actions.inits, ∀ w', w₁.runs setup.debug taken = some w' → P w' := by
      intro taken hmem w' hw'
      refine hall (action :: taken) ?_ w' ?_
      · rw [List.mem_inits] at hmem ⊢
        exact (List.prefix_cons_inj action).mpr hmem
      · simp only [World.runs, hstep, Option.bind_some, hw']
    exact ih (h.step action hstep (htaken [] (by simp) w₁ rfl)) htaken hrest

/-- What the states over sequences stand for keeps to what they keep to. -/
theorem Setup.ReachableUnder.refines {P : World ι κ FreeList Batch → Prop}
    {Q : World ι κ Seq Seq → Prop} {w : World ι κ FreeList Batch}
    (hPQ : ∀ w s, Refines w s → P w → Q s) (h : setup.ReachableUnder P w) :
    ∃ s : World ι κ Seq Seq, setup.ReachableUnder Q s ∧ Refines w s := by
  induction h with
  | initial hP =>
    exact ⟨_, .initial (hPQ _ _ (refines_initial setup) hP), refines_initial setup⟩
  | step action _ hstep hP ih =>
    obtain ⟨s, hs, hrefines⟩ := ih
    obtain ⟨s', hstep', hrefines'⟩ := hrefines.forward hs.reachable.inv hstep
    exact ⟨s', hs.step action hstep' (hPQ _ _ hrefines' hP), hrefines'⟩

end Under

/-! ### Pledges -/

variable [DecidableEq ι]

/-- How many blocks of a class the call may still add to its slabs, when a refill is of `r`. -/
def Thread.pledge {B : Type} (a : ι) (c : SizeClass) (r : Nat) : Thread ι κ B → Nat
  | .busy b (.carve d _) | .busy b (.carved d _ _) => if b = a ∧ d = c then r else 0
  | _ => 0

section Pledges

variable {setup : Setup ι κ} {s s' : World ι κ Seq Seq} {a b : ι} {k : κ} {c : SizeClass} {r : Nat}

theorem Thread.pledge_le {B : Type} (thread : Thread ι κ B) : thread.pledge a c r ≤ r := by
  unfold Thread.pledge
  split
  · split <;> omega
  · split <;> omega
  · exact Nat.zero_le r

theorem Thread.Begun.pledge {cache : ThreadCache ι Seq} {thread : Thread ι κ Seq}
    (h : thread.Begun cache b) : thread.pledge a c r = 0 := by
  cases h <;> rfl

/-- A step adds what its call has pledged at most, and pledges something only when it has found the
pool without a block. -/
theorem Transition.pledge_cases {debug : Bool} {pc : Pc ι κ Seq} {v : View ι κ Seq Seq}
    (inv : Inv setup s) (ret : Retention setup s) (ht : s.threads k = .busy b pc)
    (htrans : Transition debug s b k pc v) (c : SizeClass) :
    (v.allocator.central.lists c).capacity + v.thread.pledge b c ((setup.config b).refillCount c) ≤
        ((s.allocators b).central.lists c).capacity +
          (Thread.busy b pc).pledge b c ((setup.config b).refillCount c) ∨
      v.allocator.central.freeBag c = 0 := by
  have hresume : ∀ (v : View ι κ Seq Seq) (resume : Resume),
      (v.resume b resume).thread.pledge b c ((setup.config b).refillCount c) = 0 := by
    intro v resume
    cases resume <;> rfl
  by_cases hcarved : ∃ d size span, pc = .carved d size span
  · obtain ⟨d, size, span, rfl⟩ := hcarved
    cases htrans with
    | takeSlab hat => rcases hat with hat | hat <;> cases hat
    | @register _ _ n _ m central hn hsize h =>
      apply Or.inl
      show (central.lists c).capacity + 0 ≤ _
      by_cases hd : d = c
      · subst hd
        -- the call has reserved a refill at most
        obtain ⟨howner, -⟩ := inv.parts.thread k b _ ht
        have hrefill := (ret.cache k b howner).refill
        rw [ht] at hrefill
        have hle := hrefill.2
        rw [hsize, (inv.parts.allocator b).config_eq] at hle
        have hn := Nat.le_of_mul_le_mul_right hle ((setup.config b).classBlockSize_pos d)
        have hcapacity : (central.lists d).capacity =
            ((s.allocators b).central.lists d).capacity + n := by
          rw [ClassPool.capacity_eq, h.shapes, List.map_append, List.sum_append,
            ← ClassPool.capacity_eq]
          rfl
        simp only [Thread.pledge, and_self, if_true]
        omega
      · rw [h.only.lists c (Ne.symm hd)]
        omega
  · have hcapacity := htrans.capacity_eq (fun d size span h => hcarved ⟨d, size, span, h⟩) c
    rw [hcapacity]
    cases htrans with
    | @refill d size m central refill h =>
      cases refill with
      | empty =>
        by_cases hd : d = c
        · subst hd
          apply Or.inr
          show central.freeBag d = 0
          rw [CentralPool.freeBag, h.inbox, h.ofEmpty rfl, add_zero]
        · refine Or.inl (Nat.add_le_add_left (Nat.le_of_eq ?_) _)
          simp [View.goto, CentralRefill.pc, Thread.pledge, hd]
      | batch blocks => exact Or.inl (Nat.le_refl _)
      | slab start blockSize capacity => exact Or.inl (Nat.le_refl _)
    | takeSlab hat => rcases hat with rfl | rfl <;> exact Or.inl (Nat.le_refl _)
    | register => exact absurd ⟨_, _, _, rfl⟩ hcarved
    | carve h hn hsize => exact Or.inl (Nat.le_refl _)
    | push _ _ _ _ _ hthread => rcases hthread with rfl | ⟨-, rfl⟩ <;> exact Or.inl (Nat.le_refl _)
    | stage _ hthread => rcases hthread with rfl | rfl <;> exact Or.inl (Nat.le_refl _)
    | unstageNone _ => rw [hresume]; exact Or.inl (Nat.le_add_right _ _)
    | publish => rw [hresume]; exact Or.inl (Nat.le_add_right _ _)
    | returnBatch => rw [hresume]; exact Or.inl (Nat.le_add_right _ _)
    | _ => exact Or.inl (Nat.le_add_right _ _)

variable [Fintype κ]

/-- What all calls may still add to the slabs of a class. -/
def World.pledges (setup : Setup ι κ) (s : World ι κ Seq Seq) (a : ι)
    (c : SizeClass) (k : κ) : Nat :=
  (s.threads k).pledge a c ((setup.config a).refillCount c)

variable [DecidableEq κ]

/-- A step adds no more than had been pledged, or has found the pool without a block. -/
theorem Inv.pledges_step (inv : Inv setup s) (ret : Retention setup s) {action : Action ι κ}
    (hstep : s.step setup.debug action = some s') (a : ι) (c : SizeClass) :
    ((s'.allocators a).central.lists c).capacity + ∑ k, s'.pledges setup a c k ≤
        ((s.allocators a).central.lists c).capacity + ∑ k, s.pledges setup a c k ∨
      (s'.allocators a).central.freeBag c = 0 := by
  have inv' := inv.step hstep
  unfold World.pledges
  rcases inv.step_cases hstep with ⟨k, b, pc, advised, v, -, ht, rfl, -, htrans⟩ |
    ⟨k, b, last, v, -, ht, rfl, hallocator, hbegin⟩ | ⟨hallocators, -, hthreads⟩
  · have hmove := s.sum_threads b k v fun thread =>
      thread.pledge a c ((setup.config a).refillCount c)
    rw [ht] at hmove
    by_cases hb : a = b
    · subst hb
      rw [World.update_allocators_same]
      refine (htrans.pledge_cases inv ret ht c).imp_left fun hle => ?_
      omega
    · -- calls of other allocators have pledged nothing here
      have hother : ∀ thread : Thread ι κ Seq, (∀ b' pc', thread = .busy b' pc' → b' = b) →
          thread.pledge a c ((setup.config a).refillCount c) = 0 := by
        intro thread hthread
        unfold Thread.pledge
        split
        · rw [if_neg]
          rintro ⟨rfl, -⟩
          exact hb (hthread _ _ rfl)
        · rw [if_neg]
          rintro ⟨rfl, -⟩
          exact hb (hthread _ _ rfl)
        · rfl
      have hv := hother v.thread fun b' pc' hthread => inv.busy_alloc inv' ht htrans hthread
      rw [hv] at hmove
      rw [World.update_allocators_ne _ _ hb]
      exact Or.inl (by omega)
  · have hmove := s.sum_threads b k v fun thread =>
      thread.pledge a c ((setup.config a).refillCount c)
    have hnew : v.thread.pledge a c ((setup.config a).refillCount c) = 0 := by
      rcases hbegin with ⟨-, -, hthread⟩ | ⟨-, hthread⟩
      · rw [hthread]
        rfl
      · exact hthread.pledge
    have hsame : ((s.update b k v).allocators a).central = (s.allocators a).central := by
      by_cases hb : a = b
      · subst hb
        rw [World.update_allocators_same, hallocator]
      · rw [World.update_allocators_ne _ _ hb]
    rw [hnew] at hmove
    rw [hsame]
    exact Or.inl (by omega)
  · rw [hallocators, hthreads]
    exact Or.inl (Nat.le_refl _)

/-- What was carved, and what calls may still add, is bounded. -/
def World.Bounded (setup : Setup ι κ) (s : World ι κ Seq Seq) (a : ι) (c : SizeClass) (n : Nat) :
    Prop :=
  Pledged (n + Fintype.card κ * (setup.config a).custodyLimit c)
    (Fintype.card κ * (setup.config a).refillCount c)
    ((s.allocators a).central.lists c).capacity (s.pledges setup a c)

theorem World.Bounded.step {n : Nat} (h : s.Bounded setup a c n) (hr : setup.Reachable s)
    {action : Action ι κ} (hstep : s.step setup.debug action = some s')
    (hlive : (s'.liveBlocks a c).length ≤ n) : s'.Bounded setup a c n := by
  have hreach := hr.step action hstep
  refine Pledged.step h (sum_le_card_mul fun k => Thread.pledge_le _) ?_
  refine (hr.inv.pledges_step hr.retention hstep a c).imp_right fun hpool => ?_
  -- when the pool has no block, what was carved is live or in custody
  have hsum := sum_le_card_mul fun k => hreach.custody_le a k c
  rw [hreach.inv.capacity_eq a c, hpool, Multiset.card_zero]
  omega

theorem Setup.ReachableUnder.bounded {n : Nat}
    (h : setup.ReachableUnder (fun s => (s.liveBlocks a c).length ≤ n) s) :
    s.Bounded setup a c n := by
  induction h with
  | initial hP =>
    exact Pledged.of_stock (sum_le_card_mul fun k => Thread.pledge_le _) (Nat.zero_le _)
  | step action h hstep hP ih => exact ih.step h.reachable hstep hP

end Pledges

section Code

variable [DecidableEq κ] [Fintype κ] {setup : Setup ι κ} {w : World ι κ FreeList Batch} {a : ι}
  {c : SizeClass}

/-- If no more than `n` blocks of a class are ever live at once, then no more than `n`, and for each
cache what it may keep and a refill, are ever carved for the class. -/
theorem Setup.ReachableUnder.bounded_blowup {n : Nat}
    (h : setup.ReachableUnder (fun w => (w.liveBlocks a c).length ≤ n) w) :
    ((w.allocators a).central.lists c).capacity ≤ n + Fintype.card κ *
      (max ((setup.config a).localLimit c) ((setup.config a).refillCount c) +
        (setup.config a).drainCount c + (setup.config a).refillCount c) := by
  obtain ⟨s, hs, hrefines⟩ := h.refines
    (Q := fun s => (s.liveBlocks a c).length ≤ n) fun w s hrefines hw => by
      rw [World.liveBlocks, ← hrefines.live_eq]
      exact hw
  have hbound := hs.bounded.stock_le
  have hcapacity : ((w.allocators a).central.lists c).capacity =
      ((s.allocators a).central.lists c).capacity := by
    rw [hrefines.code]
    exact ClassPool.capacity_map ..
  have hlimit : (setup.config a).custodyLimit c =
      max ((setup.config a).localLimit c) ((setup.config a).refillCount c) +
        (setup.config a).drainCount c := rfl
  rw [hcapacity, ← hlimit, Nat.mul_add]
  omega

/-- One block at a time is live while cache 0 allocates a block, frees it and drains. -/
theorem sampleDrained_live : ∀ taken ∈ sampleDrained.inits,
    ((sampleSetup.world FreeList Batch).runs true taken).all
      (fun w => (w.liveBlocks () .b64).length ≤ 1) = true := by
  decide +kernel

/-- The refill of two blocks that it has made is well within the bound. -/
theorem bounded_blowup_sample : ∃ w : World Unit (Fin 2) FreeList Batch,
    sampleSetup.ReachableUnder (fun w => (w.liveBlocks () .b64).length ≤ 1) w ∧
      ((w.allocators ()).central.lists .b64).capacity = 2 ∧
        ((w.allocators ()).central.lists .b64).capacity ≤ 1 + 2 * (3 + 1 + 2) := by
  obtain ⟨w, hw⟩ : ∃ w, w = sampleSetup.after sampleDrained sampleDrained_run := ⟨_, rfl⟩
  have hruns : (sampleSetup.world FreeList Batch).runs true sampleDrained = some w := by
    rw [hw]
    exact (Option.some_get sampleDrained_run).symm
  have hunder : sampleSetup.ReachableUnder (fun w => (w.liveBlocks () .b64).length ≤ 1) w := by
    refine Setup.ReachableUnder.runs (.initial (Nat.zero_le _)) (fun taken hmem w' hw' => ?_) hruns
    have hw' : (sampleSetup.world FreeList Batch).runs true taken = some w' := hw'
    have hall := sampleDrained_live taken hmem
    rw [hw'] at hall
    exact of_decide_eq_true hall
  have hcapacity : ((w.allocators ()).central.lists .b64).capacity = 2 := by
    rw [hw]
    decide +kernel
  exact ⟨w, hunder, hcapacity, hunder.bounded_blowup⟩

end Code

end Orthotope
