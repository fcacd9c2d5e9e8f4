import Orthotope.ProcessRefinement
import Orthotope.Blowup

/-! Threads that come and go.  A thread has a cache from its first allocation or free on, and at the
end of the thread its cache is drained; so what the arena gives out is bounded by what is live and
by the threads with a cache that are there at once, however many there have been. -/

namespace Orthotope

open ByteMemory AgentSums

/-! ### Slots -/

section Drains

variable {ι κ : Type}

theorem drains_kept (setup : Setup ι κ) (k : κ) (a : ι) :
    KeptByCall setup k (Thread.Drains a) := by
  intro s b pc v inv ht hdrains htrans
  obtain ⟨rfl, h⟩ := hdrains
  cases htrans with
  | flushEnd => exact ⟨rfl, trivial⟩
  | flush => exact ⟨rfl, _, rfl⟩
  | drainEnd => rfl
  | drainNext => exact ⟨rfl, trivial⟩
  | drain => exact ⟨rfl, _, rfl⟩
  | unstage => exact ⟨rfl, h⟩
  | excess => exact ⟨rfl, h⟩
  | unstageNone => exact Resume.drains_flush h
  | publish => exact Resume.drains_flush h
  | returnBatch => exact Resume.drains_drain h
  | takeSlab hpc => rcases hpc with rfl | rfl <;> exact h.elim
  | _ => exact h.elim

end Drains

section Slots

variable {κ : Type} {setup : Setup Unit κ} {p p' : Process κ} {s s' t : World Unit κ Seq Seq}
  {j k : κ} {action : ProcessAction κ}

theorem Process.passes_caller {i : Nat} {panicking : Bool} {call : Action Unit κ}
    (h : p.passes (.dealloc j i panicking) = some call) : call.caller = some j := by
  obtain ⟨h', -, h⟩ := Option.bind_eq_some_iff.mp h
  split at h
  · obtain ⟨idx, -, rfl⟩ := Option.map_eq_some_iff.mp h
    rfl
  · cases h

/-- A thread whose slot is absent has not used its cache yet, and one whose slot is destroyed has
been drained or is being drained. -/
structure SlotsTell (slots : κ → Slot) (s : World Unit κ Seq Seq) : Prop where
  absent : ∀ k, slots k = .absent → (s.caches k).owner = none
  destroyed : ∀ k, slots k = .destroyed → (s.threads k).Drains ()

/-- What an action makes of a slot. -/
inductive SlotStep (p : Process κ) (action : ProcessAction κ) (k : κ) : Slot → Prop
  | same (hcaller : ∀ call, p.passes action = some call → call.caller ≠ some k) :
      SlotStep p action k (p.slots k)
  | available : SlotStep p action k .available
  | borrowed (use : Use) : SlotStep p action k (.borrowed use)
  | destroyed (hpasses : p.passes action = some (.drain k ())) : SlotStep p action k .destroyed

theorem SlotStep.of_none (hpasses : p.passes action = none) : SlotStep p action k (p.slots k) :=
  .same fun call hcall => by cases hpasses.symm.trans hcall

variable [DecidableEq κ]

theorem Process.setSlot_ne {slot : Slot} (h : k ≠ j) : (p.setSlot j slot).slots k = p.slots k :=
  Function.update_of_ne h ..

theorem Process.settle_slots (h : p.settle j = some p') (k : κ) :
    p'.slots k = p.slots k ∨ k = j ∧ p'.slots k = .available := by
  have hset : (p.setSlot j .available).slots k = p.slots k ∨
      k = j ∧ (p.setSlot j .available).slots k = .available := by
    by_cases hk : k = j
    · subst hk
      exact Or.inr ⟨rfl, Process.setSlot_slots ..⟩
    · exact Or.inl (Process.setSlot_ne hk)
  rcases Process.settle_cases h with rfl | rfl | rfl | ⟨ptr, layout, rfl⟩
  · exact Or.inl rfl
  · exact hset
  · exact hset
  · exact hset

namespace Process.Rep

/-- A call of the shim on `j` that goes on, or ends at once. -/
theorem slotStep_settle {q : Process κ} {use : Use} (hslots : q.slots = p.slots)
    (hcaller : ∀ call, p.passes action = some call → call.caller = some j)
    (hsettle : (q.setSlot j (.borrowed use)).settle j = some p') (k : κ) :
    SlotStep p action k (p'.slots k) := by
  rcases Process.settle_slots hsettle k with heq | ⟨-, heq⟩
  · by_cases hk : k = j
    · subst hk
      rw [heq, Process.setSlot_slots]
      exact .borrowed use
    · rw [heq, Process.setSlot_ne hk, hslots]
      refine .same fun call hcall heq => hk ?_
      exact Option.some.inj (heq.symm.trans (hcaller call hcall))
  · rw [heq]
    exact .available

theorem alloc_slot {layout : Layout} {answer : Option Nat} {debug : Bool}
    (halloc : p.alloc debug j layout answer = some p') (k : κ) :
    SlotStep p (.alloc j layout answer) k (p'.slots k) := by
  unfold Process.alloc at halloc
  split at halloc
  · rename_i hbackend
    have hpasses : p.passes (.alloc j layout answer) = none := by simp [Process.passes, hbackend]
    rw [Process.systemAlloc_slots halloc]
    exact .of_none hpasses
  split at halloc
  · rename_i hbackend husable
    obtain ⟨w', -, hsettle⟩ := Option.bind_eq_some_iff.mp halloc
    refine slotStep_settle (p := p) (q := { p with world := w' }) rfl
      (fun call hcall => ?_) hsettle k
    simp only [Process.passes, hbackend, husable, and_self, if_true] at hcall
    obtain rfl := Option.some.inj hcall
    rfl
  · rename_i husable
    have hpasses : p.passes (.alloc j layout answer) = none := by simp [Process.passes, husable]
    rw [Process.fallbackAlloc_slots halloc]
    exact .of_none hpasses

theorem dealloc_slot (rep : p.Rep setup s) {i : Nat} {h : Held} (hh : p.held[i]? = some h)
    {panicking : Bool} (hdealloc : { p with held := p.held.eraseIdx i }.dealloc setup.debug j h.ptr
      h.layout panicking = some p') (k : κ) :
    SlotStep p (.dealloc j i panicking) k (p'.slots k) := by
  cases hb : h.block with
  | some b =>
    have heq := (rep.dealloc_block hh hb setup.debug j panicking).1
    obtain rfl := Option.some.inj (heq.symm.trans hdealloc)
    have hsource : h.source ≠ .orthotope := by
      intro hsource
      simp [Held.block, hsource] at hb
    exact .of_none (by simp [Process.passes, hh, hsource])
  | none =>
    have hsource := Held.source_of_block hb
    cases husable : (p.slots j).usable with
    | false =>
      have heq := rep.dealloc_unusable hh hsource husable setup.debug panicking
      obtain rfl := Option.some.inj (heq.symm.trans hdealloc)
      have hnone : p.passes (.dealloc j i panicking) = none := by
        simp [Process.passes, hh, husable]
      cases panicking <;> exact .of_none hnone
    | true =>
      obtain ⟨w', -, heq, -⟩ := rep.dealloc_usable hh hsource husable panicking
      obtain rfl := Option.some.inj (heq.symm.trans hdealloc)
      by_cases hk : k = j
      · subst hk
        rw [Process.setSlot_slots]
        exact .borrowed _
      · rw [Process.setSlot_ne hk]
        refine .same fun call hcall heq => hk ?_
        exact Option.some.inj (heq.symm.trans (Process.passes_caller hcall))

theorem slot_step (rep : p.Rep setup s) (hstep : p.step setup.debug action = some p') (k : κ) :
    SlotStep p action k (p'.slots k) := by
  unfold Process.step at hstep
  split at hstep
  · cases hstep
  cases action with
  | alloc j layout answer => exact alloc_slot hstep k
  | dealloc j i panicking =>
    obtain ⟨h, hh, hdealloc⟩ := Option.bind_eq_some_iff.mp hstep
    exact rep.dealloc_slot hh hdealloc k
  | run j advised =>
    obtain ⟨w', -, hsettle⟩ := Option.bind_eq_some_iff.mp hstep
    rcases Process.settle_slots hsettle k with heq | ⟨-, heq⟩
    · rw [heq]
      refine .same fun call hcall => ?_
      obtain rfl := Option.some.inj hcall
      exact nofun
    · rw [heq]
      exact .available
  | borrow j =>
    dsimp only at hstep
    split at hstep
    · obtain rfl := Option.some.inj hstep
      by_cases hk : k = j
      · subst hk
        rw [Process.setSlot_slots]
        exact .borrowed _
      · rw [Process.setSlot_ne hk]
        exact .of_none rfl
    · cases hstep
  | release j =>
    dsimp only at hstep
    split at hstep
    · obtain rfl := Option.some.inj hstep
      by_cases hk : k = j
      · subst hk
        rw [Process.setSlot_slots]
        exact .available
      · rw [Process.setSlot_ne hk]
        exact .of_none rfl
    · cases hstep
  | teardown j =>
    dsimp only at hstep
    split at hstep
    · obtain ⟨w', -, rfl⟩ := Option.map_eq_some_iff.mp hstep
      by_cases hk : k = j
      · subst hk
        rw [Process.setSlot_slots]
        exact .destroyed rfl
      · rw [Process.setSlot_ne hk]
        refine .same fun call hcall heq => hk ?_
        obtain rfl := Option.some.inj hcall
        exact (Option.some.inj heq).symm
    · cases hstep
  | store i offset value =>
    obtain ⟨h, hh, hstore⟩ := Option.bind_eq_some_iff.mp hstep
    have hslots : p'.slots = p.slots := by
      unfold Process.store at hstore
      split at hstore
      · split at hstore
        · obtain ⟨idx, -, hmap⟩ := Option.bind_eq_some_iff.mp hstore
          obtain ⟨w', -, rfl⟩ := Option.map_eq_some_iff.mp hmap
          rfl
        · obtain rfl := Option.some.inj hstore
          rfl
      · cases hstore
    rw [hslots]
    refine .same fun call hcall => ?_
    obtain ⟨h', -, hcall⟩ := Option.bind_eq_some_iff.mp hcall
    split at hcall
    · obtain ⟨idx, -, rfl⟩ := Option.map_eq_some_iff.mp hcall
      exact nofun
    · cases hcall
  | scribble addr value =>
    dsimp only at hstep
    split at hstep
    · obtain rfl := Option.some.inj hstep
      exact .of_none rfl
    · cases hstep
  | discard page =>
    obtain ⟨w', -, rfl⟩ := Option.map_eq_some_iff.mp hstep
    exact .of_none rfl

end Process.Rep

open Process.Rep in
omit [DecidableEq κ] in
/-- What the slots say is still so when the allocator does nothing. -/
theorem SlotsTell.silent (tell : SlotsTell p.slots s') (hpasses : p.passes action = none)
    (hslot : ∀ k, SlotStep p action k (p'.slots k)) : SlotsTell p'.slots s' where
  absent := by
    intro k habsent
    have h := hslot k
    generalize p'.slots k = slot at h habsent
    cases h with
    | same => exact tell.absent k habsent
    | _ => cases habsent
  destroyed := by
    intro k hdestroyed
    have h := hslot k
    generalize p'.slots k = slot at h hdestroyed
    cases h with
    | same => exact tell.destroyed k hdestroyed
    | destroyed hdrain => cases hpasses.symm.trans hdrain
    | _ => cases hdestroyed

/-- And when it makes a step. -/
theorem SlotsTell.call (mirrors : Process.Rep.Mirrors setup p s s') (tell : SlotsTell p.slots s')
    {call : Action Unit κ} (hpasses : p.passes action = some call)
    (hcall : s'.step setup.debug call = some t) (hslot : ∀ k, SlotStep p action k (p'.slots k)) :
    SlotsTell p'.slots t where
  absent := by
    intro k habsent
    have h := hslot k
    generalize p'.slots k = slot at h habsent
    cases h with
    | same hcaller =>
      obtain ⟨last, hidle⟩ : ∃ last, s'.threads k = .idle last := by
        have hok := mirrors.rep.slot k
        rw [habsent, ← mirrors.alike.threads] at hok
        exact hok
      have hrun : ∀ advised, call ≠ .run k advised := by
        rintro advised rfl
        simp [World.step, hidle] at hcall
      rw [(World.step_ne (hcaller call hpasses) hrun hcall).2]
      exact tell.absent k habsent
    | _ => cases habsent
  destroyed := by
    intro k hdestroyed
    have h := hslot k
    generalize p'.slots k = slot at h hdestroyed
    cases h with
    | same hcaller =>
      have hdrains := tell.destroyed k hdestroyed
      by_cases hrun : ∃ advised, call = .run k advised
      · obtain ⟨advised, rfl⟩ := hrun
        obtain ⟨a, pc, v, ht, rfl, -, htrans⟩ := mirrors.reachable.inv.run_cases hcall
        rw [ht] at hdrains
        rw [World.update_threads_same]
        exact drains_kept setup k () mirrors.reachable.inv ht hdrains htrans
      · rw [(World.step_ne (hcaller call hpasses) (fun advised h => hrun ⟨advised, h⟩) hcall).1]
        exact hdrains
    | destroyed hdrain =>
      obtain rfl := Option.some.inj (hpasses.symm.trans hdrain)
      have hcall : s'.call k () (fun v => v.goto () (.flush SizeClass.all)) = some t := hcall
      obtain ⟨⟨last, hidle⟩, -⟩ := World.call_cases hcall
      obtain ⟨cache, hbind⟩ := mirrors.reachable.inv.parts.bindable k
      obtain rfl := Option.some.inj ((World.call_eq hidle hbind _).symm.trans hcall)
      rw [World.update_threads_same]
      exact ⟨rfl, trivial⟩
    | _ => cases hdestroyed

end Slots

/-! ### The bound -/

/-- The thread has used its cache, for an allocation or a free, and is not drained yet at its
end. -/
def Process.serves {κ : Type} (p : Process κ) (k : κ) : Bool :=
  match p.slots k with
  | .absent => false
  | .destroyed => (p.world.threads k).last?.isNone
  | _ => true

/-- No more than `n` blocks of a class are live, and no more than `m` threads are there. -/
def Process.Within {κ : Type} [Fintype κ] (p : Process κ) (c : SizeClass) (n m : Nat) : Prop :=
  (p.world.liveBlocks () c).length ≤ n ∧
    (Finset.univ.filter fun k => p.serves k = true).card ≤ m

section Bound

variable {κ : Type} [DecidableEq κ] {setup : Setup Unit κ} {p p' : Process κ}
  {s s' : World Unit κ Seq Seq} {k : κ} {c : SizeClass} {n m : Nat}

/-- A thread that is not there has no block, and its cache none. -/
theorem SlotsTell.holds_nothing (mirrors : Process.Rep.Mirrors setup p s s')
    (tell : SlotsTell p.slots s') (hk : p.serves k = false) :
    s'.custody () c k = 0 ∧ s'.pledges setup () c k = 0 := by
  have hthread : p.world.threads k = (s'.threads k).map Batch.ofSeq := by
    rw [mirrors.rep.threads_eq k, mirrors.alike.threads]
  have hidle : ∀ {last}, s'.threads k = .idle last → s'.pledges setup () c k = 0 := by
    intro last ht
    unfold World.pledges
    rw [ht]
    rfl
  unfold Process.serves at hk
  cases hslot : p.slots k with
  | absent =>
    have hok := mirrors.rep.slot k
    rw [hslot, ← mirrors.alike.threads] at hok
    obtain ⟨last, ht⟩ := hok
    refine ⟨?_, hidle ht⟩
    unfold World.custody
    rw [tell.absent k hslot]
    rfl
  | destroyed =>
    have hdrains := tell.destroyed k hslot
    rw [hslot] at hk
    cases ht : s'.threads k with
    | busy a pc =>
      rw [hthread, ht] at hk
      cases hk
    | idle last =>
      obtain rfl : last = some .drained := by
        rw [ht] at hdrains
        exact hdrains
      refine ⟨?_, hidle ht⟩
      have hempty := mirrors.reachable.emptied k
      rw [ht] at hempty
      obtain ⟨hpending, hbag⟩ : (Resume.drain []).Emptied (s'.caches k) := hempty
      unfold World.custody
      split
      · rw [ThreadCache.custody, hpending c, hbag c List.not_mem_nil, ht]
        rfl
      · rfl
  | available =>
    rw [hslot] at hk
    cases hk
  | borrowed use =>
    rw [hslot] at hk
    cases hk

variable [Fintype κ]

/-- What the threads that are there may still add to the slabs of a class. -/
theorem SlotsTell.pledges_le (mirrors : Process.Rep.Mirrors setup p s s')
    (tell : SlotsTell p.slots s') (within : p.Within c n m) :
    ∑ k, s'.pledges setup () c k ≤ m * (setup.config ()).refillCount c :=
  (sum_le_card_filter_mul (fun _ => Thread.pledge_le _)
    fun _ hk => (tell.holds_nothing mirrors hk).2).trans (Nat.mul_le_mul_right _ within.2)

/-- When the pool has no block, what was carved is live or with the threads that are there. -/
theorem SlotsTell.capacity_le (mirrors : Process.Rep.Mirrors setup p s s')
    (tell : SlotsTell p.slots s') (within : p.Within c n m)
    (hpool : (s'.allocators ()).central.freeBag c = 0) :
    ((s'.allocators ()).central.lists c).capacity ≤
      n + m * (setup.config ()).custodyLimit c := by
  have hcustody : ∑ k, (s'.custody () c k).card ≤ m * (setup.config ()).custodyLimit c := by
    refine (sum_le_card_filter_mul (fun k => mirrors.reachable.custody_le () k c)
      fun k hk => ?_).trans (Nat.mul_le_mul_right _ within.2)
    rw [(tell.holds_nothing mirrors hk).1]
    rfl
  have hlive : (s'.liveBlocks () c).length ≤ n := by
    have hsame : s'.live = p.world.live := by
      rw [mirrors.alike.live, mirrors.rep.backed.refines.live_eq]
    rw [World.liveBlocks, hsame]
    exact within.1
  rw [mirrors.reachable.inv.capacity_eq () c, hpool, Multiset.card_zero]
  omega

theorem Setup.Reaches.churn (hp : setup.Reaches (fun p _ => p.Within c n m) p) :
    ∃ s s', Process.Rep.Mirrors setup p s s' ∧ SlotsTell p.slots s' ∧
      (p.Within c n m → Pledged (n + m * (setup.config ()).custodyLimit c)
        (m * (setup.config ()).refillCount c)
        ((s'.allocators ()).central.lists c).capacity (s'.pledges setup () c)) := by
  induction hp with
  | initial =>
    have mirrors := Process.Rep.mirrors_initial setup
    have tell : SlotsTell setup.process.slots (setup.world Seq Seq) := ⟨fun _ _ => rfl, nofun⟩
    exact ⟨_, _, mirrors, tell, fun within =>
      Pledged.of_stock (tell.pledges_le mirrors within) (Nat.zero_le _)⟩
  | @step p p' action _ within hstep ih =>
    obtain ⟨s, s', mirrors, tell, hpledged⟩ := ih
    have hslot := fun k => mirrors.rep.slot_step hstep k
    rcases mirrors.step hstep with ⟨hnone, t, mirrors'⟩ |
      ⟨call, t, t', hcall, -, ht', mirrors'⟩
    · exact ⟨t, s', mirrors', tell.silent hnone hslot, fun _ => hpledged within⟩
    · have tell' := tell.call mirrors hcall ht' hslot
      refine ⟨t, t', mirrors', tell', fun within' => ?_⟩
      apply Pledged.step (hpledged within) (tell'.pledges_le mirrors' within')
      exact (mirrors.reachable.inv.pledges_step mirrors.reachable.retention ht' () c).imp_right
        fun hpool => tell'.capacity_le mirrors' within' hpool

/-- If no more than `n` blocks of a class are ever live at once, and no more than `m` threads that
have used their caches are ever there at once, then no more than `n`, and for each of `m` threads
what a cache may keep and a refill, are ever carved for the class, however many threads come and
go. -/
theorem Setup.Reaches.bounded_churn (hp : setup.Reaches (fun p _ => p.Within c n m) p)
    (within : p.Within c n m) :
    ((p.world.allocators ()).central.lists c).capacity ≤ n + m *
      (max ((setup.config ()).localLimit c) ((setup.config ()).refillCount c) +
        (setup.config ()).drainCount c + (setup.config ()).refillCount c) := by
  obtain ⟨s, s', mirrors, -, hpledged⟩ := hp.churn
  have hbound := (hpledged within).stock_le
  have hcapacity : ((p.world.allocators ()).central.lists c).capacity =
      ((s'.allocators ()).central.lists c).capacity := by
    rw [mirrors.rep.backed.refines.code, mirrors.alike.allocators]
    exact ClassPool.capacity_map ..
  have hlimit : (setup.config ()).custodyLimit c =
      max ((setup.config ()).localLimit c) ((setup.config ()).refillCount c) +
        (setup.config ()).drainCount c := rfl
  rw [hcapacity, ← hlimit, Nat.mul_add]
  omega

end Bound

/-! ### A run -/

section Sample

variable {κ : Type} [DecidableEq κ] {setup : Setup Unit κ} {p p' : Process κ}

/-- Runs actions as long as a check of the state succeeds. -/
def Process.runsWhile (ok : Process κ → Bool) (debug : Bool) (p : Process κ) :
    List (ProcessAction κ) → Option (Process κ)
  | [] => some p
  | action :: actions =>
    if ok p then (p.step debug action).bind fun p' => p'.runsWhile ok debug actions else none

theorem Setup.Reaches.runsWhile {ok : Process κ → Bool}
    (hp : setup.Reaches (fun p _ => ok p = true) p) {actions : List (ProcessAction κ)}
    (hruns : p.runsWhile ok setup.debug actions = some p') :
    setup.Reaches (fun p _ => ok p = true) p' := by
  induction actions generalizing p with
  | nil =>
    obtain rfl := Option.some.inj hruns
    exact hp
  | cons action actions ih =>
    unfold Process.runsWhile at hruns
    split at hruns
    · rename_i hok
      obtain ⟨q, hstep, hruns⟩ := Option.bind_eq_some_iff.mp hruns
      exact ih (hp.step action hok hstep) hruns
    · cases hruns

instance [Fintype κ] (p : Process κ) (c : SizeClass) (n m : Nat) : Decidable (p.Within c n m) :=
  inferInstanceAs (Decidable (_ ∧ _))

end Sample

/-- Thread 0 allocates a block, frees it and ends; then thread 1 allocates one. -/
def sampleChurn : List (ProcessAction (Fin 2)) :=
  .alloc 0 sampleLayout none :: List.replicate 6 (.run 0 (true, true)) ++
    .dealloc 0 0 false :: .run 0 (true, true) ::
    .teardown 0 :: List.replicate 44 (.run 0 (true, true)) ++
    .alloc 1 sampleLayout none :: List.replicate 4 (.run 1 (true, true))

theorem sampleChurn_run : (sampleSetup.process.runsWhile (fun p => decide (p.Within .b64 1 1)) true
    sampleChurn).isSome := by
  decide +kernel

/-- One thread is there at a time, and thread 1 has its block from the slab that thread 0 had
carved. -/
theorem bounded_churn_sample : ∃ p : Process (Fin 2),
    sampleSetup.Reaches (fun p _ => p.Within .b64 1 1) p ∧ p.held.map (fun h => h.ptr) = [4160] ∧
      (∀ k, p.slots k ≠ .absent) ∧ ((p.world.allocators ()).central.lists .b64).capacity = 2 ∧
        ((p.world.allocators ()).central.lists .b64).capacity ≤ 1 + 1 * (3 + 1 + 2) := by
  obtain ⟨p, hp⟩ : ∃ p, p = Option.get _ sampleChurn_run := ⟨_, rfl⟩
  have hreach : sampleSetup.Reaches (fun p _ => p.Within .b64 1 1) p := by
    have hruns : sampleSetup.process.runsWhile (fun p => decide (p.Within .b64 1 1)) true
        sampleChurn = some p := by
      rw [hp]
      exact (Option.some_get sampleChurn_run).symm
    have hinitial : sampleSetup.Reaches (fun p _ => decide (p.Within .b64 1 1) = true)
        sampleSetup.process := .initial
    simpa only [decide_eq_true_eq] using hinitial.runsWhile hruns
  have hend : p.held.map (fun h => h.ptr) = [4160] ∧ (∀ k, p.slots k ≠ .absent) ∧
      ((p.world.allocators ()).central.lists .b64).capacity = 2 ∧ p.Within .b64 1 1 := by
    rw [hp]
    decide +kernel
  obtain ⟨hptr, hslots, hcapacity, within⟩ := hend
  exact ⟨p, hreach, hptr, hslots, hcapacity, hreach.bounded_churn within⟩

end Orthotope
