import Orthotope.Routing

/-! The allocator behind the shim.  In a process the system's allocator hands out memory of its own,
the program stores there, and the system takes pages back; none of this reaches the allocator.  What
it does is what it does on its own for the calls that the shim passes on to it, so whatever holds of
it in all its runs holds of it in every process. -/

namespace Orthotope

open ByteMemory

/-- Only the allocations of the allocator have no block of the system's. -/
theorem Held.source_of_block {h : Held} (hb : h.block = none) : h.source = .orthotope := by
  unfold Held.block at hb
  split at hb
  · cases hb
  · cases hb
  · assumption

namespace Process

variable {κ : Type}

/-- What the system answers leaves the slots as they are. -/
theorem systemAlloc_slots {p p' : Process κ} {layout : Layout} {answer : Option Nat} {born : Slot}
    (h : p.systemAlloc layout answer born = some p') : p'.slots = p.slots := by
  unfold systemAlloc at h
  split at h
  · obtain rfl := Option.some.inj h
    rfl
  · split at h
    · obtain rfl := Option.some.inj h
      rfl
    · cases h

theorem fallbackAlloc_slots {p p' : Process κ} {layout : Layout} {answer : Option Nat} {born : Slot}
    (h : p.fallbackAlloc layout answer born = some p') : p'.slots = p.slots := by
  unfold fallbackAlloc at h
  split at h
  · obtain rfl := Option.some.inj h
    rfl
  split at h
  · obtain rfl := Option.some.inj h
    rfl
  split at h
  · split at h
    · obtain rfl := Option.some.inj h
      rfl
    · obtain rfl := Option.some.inj h
      rfl
  · cases h

/-- The place of a pointer among what is live. -/
def liveIdx? (p : Process κ) (ptr : Nat) : Option Nat :=
  p.world.live.findIdx? fun e => e.ptr = ptr

/-- What an action of the process is to the allocator: a call that the shim passes on, a step of a
call, the drain at the end of a thread, or a store to an allocation of the allocator. -/
def passes (p : Process κ) : ProcessAction κ → Option (Action Unit κ)
  | .alloc k layout _ =>
    if selectBackend layout = .orthotope ∧ (p.slots k).usable then
      some (.allocate k () layout.size) else none
  | .dealloc k i _ => p.held[i]?.bind fun h =>
    if h.source = .orthotope ∧ (p.slots k).usable then
      (p.liveIdx? h.ptr).map fun j => .deallocate k () j (some h.layout.size)
    else none
  | .run k advised => some (.run k advised)
  | .teardown k => some (.drain k ())
  | .store i offset value => p.held[i]?.bind fun h =>
    if h.source = .orthotope then (p.liveIdx? h.ptr).map fun j => .store j offset value else none
  | .borrow _ | .release _ | .scribble .. | .discard _ => none

variable [DecidableEq κ]

/-- What the allocator sees of a run. -/
def calls (p : Process κ) (debug : Bool) (actions : List (ProcessAction κ)) :
    List (Action Unit κ) :=
  StepSystem.trace (fun action (p : Process κ) => p.step debug action) Process.passes actions p

theorem runs_eq {p : Process κ} {debug : Bool} {actions : List (ProcessAction κ)} :
    p.runs debug actions =
      StepSystem.runs (fun action (p : Process κ) => p.step debug action) actions p := by
  induction actions generalizing p with
  | nil => rfl
  | cons action actions ih => simp only [runs, StepSystem.runs, ih]

/-- How the end of an allocator call is dealt with: the call goes on, or the cache is available
again, and then the program gets a block, or is aborted for its free, or neither. -/
theorem settle_cases {p p' : Process κ} {k : κ} (h : p.settle k = some p') :
    p' = p ∨ p' = p.setSlot k .available ∨ p' = (p.setSlot k .available).abort ∨
      ∃ ptr layout, p' = (p.setSlot k .available).hold ⟨ptr, layout, .orthotope, .available⟩ := by
  unfold settle at h
  split at h
  · cases h
  · -- the end of an allocation
    dsimp only at h
    split at h
    · exact Or.inr (Or.inr (Or.inr ⟨_, _, (Option.some.inj h).symm⟩))
    · exact Or.inr (Or.inl (Option.some.inj h).symm)
  · -- the end of a free
    dsimp only at h
    split at h
    · exact Or.inr (Or.inl (Option.some.inj h).symm)
    · exact Or.inr (Or.inr (Or.inl (Option.some.inj h).symm))
  · exact Or.inl (Option.some.inj h).symm

/-- The end of an allocator call only hands out. -/
theorem settle_frame {p p' : Process κ} {k : κ} (h : p.settle k = some p') :
    p'.world = p.world ∧ ∃ new, p'.held = p.held ++ new := by
  rcases settle_cases h with rfl | rfl | rfl | ⟨ptr, layout, rfl⟩
  · exact ⟨rfl, [], (List.append_nil _).symm⟩
  · exact ⟨rfl, [], (List.append_nil _).symm⟩
  · exact ⟨rfl, [], (List.append_nil _).symm⟩
  · exact ⟨rfl, [_], rfl⟩

end Process

namespace Process.Rep

variable {κ : Type} [DecidableEq κ] {setup : Setup Unit κ} {p p' : Process κ}
  {s s' : World Unit κ Seq Seq} {k : κ}

/-- The state behind a process is determined but for the memory. -/
theorem of_backed (rep : p.Rep setup s) (backed : p.world.Backed setup s') : p.Rep setup s' := by
  have hsame := rep.backed.refines.contents_eq.symm.trans backed.refines.contents_eq
  obtain ⟨-, -, -, hthreads, hlive⟩ := World.mk.inj hsame
  refine ⟨backed, fun k => hthreads ▸ rep.slot k, rep.books, ?_⟩
  have hsizes : s'.sizes = s.sizes := by
    simp only [World.sizes, hlive]
  exact hsizes ▸ rep.live

/-- The memory changes, and nothing else that the allocator has. -/
def Unseen (setup : Setup Unit κ) (s : World Unit κ Seq Seq) (w' : World Unit κ FreeList Batch) :
    Prop :=
  ∃ m : Mem, w'.Backed setup { s with mem := m } ∧ m.pageSize = s.mem.pageSize

theorem unseen_same (rep : p.Rep setup s) : Unseen setup s p.world :=
  ⟨s.mem, rep.backed, rfl⟩

theorem unseen_write (rep : p.Rep setup s) {addr n value : Nat}
    (hout : ∀ y, addr ≤ y → y < addr + n → ¬setup.InArenas y) :
    Unseen setup s { p.world with mem := p.world.mem.write addr n value } :=
  ⟨_, rep.backed.write hout, rfl⟩

/-- The prefix of a fallback allocation is outside the arena. -/
theorem unseen_prefix (rep : p.Rep setup s) {layout rawLayout : Layout} {raw user : Nat}
    (hblock : BlockOk (setup.arena ()).base (setup.arena ()).len (raw, rawLayout))
    (hplaced : FallbackPlaced layout rawLayout raw user) (prefix_ : SystemFallbackPrefix) :
    Unseen setup s { p.world with
      mem := SystemFallbackPrefix.write p.world.mem
          (user - SystemFallbackPrefix.sizeOf) prefix_ } := by
  have hout : ∀ y, user - SystemFallbackPrefix.sizeOf ≤ y → y < user → ¬setup.InArenas y := by
    intro y h1 h2 harena
    obtain ⟨h3, h4⟩ := inArenas_iff.mp harena
    obtain ⟨h5, h6⟩ := hplaced.prefix_mem h2 (by omega)
    have hclear : Clear raw rawLayout.size _ _ := hblock.clear
    unfold Clear at hclear
    omega
  have hfront := hplaced.front
  unfold SystemFallbackPrefix.sizeOf at *
  have hword : ∀ {m : Mem} {w : World Unit κ FreeList Batch} (addr value : Nat),
      w.Backed setup { s with mem := m } → user - 24 ≤ addr → addr + 8 ≤ user →
        World.Backed setup { w with mem := w.mem.write addr 8 value }
          { s with mem := m.write addr 8 value } := by
    intro m w addr value hbacked hlo hhi
    exact hbacked.write fun y h1 h2 => hout y (by omega) (by omega)
  have hmagic := hword (user - 24) prefix_.magic rep.backed (by omega) (by omega)
  have hraw := hword (user - 24 + 8) prefix_.rawAddr hmagic (by omega) (by omega)
  have huser := hword (user - 24 + 16) prefix_.userAddr hraw (by omega) (by omega)
  exact ⟨_, huser, rfl⟩

/-- A step of the process is the step of the allocator that the shim passes on, or leaves all but
the memory alone. -/
inductive Seen (setup : Setup Unit κ) (p : Process κ) (s : World Unit κ Seq Seq)
    (action : ProcessAction κ) (w' : World Unit κ FreeList Batch) : Prop
  | silent (hpasses : p.passes action = none) (h : Unseen setup s w')
  | call {call : Action Unit κ} (hpasses : p.passes action = some call)
      (hdiscard : call.isDiscard = false) (hstep : p.world.step setup.debug call = some w')

theorem alloc_seen (rep : p.Rep setup s) {layout : Layout} {answer : Option Nat}
    (halloc : p.alloc setup.debug k layout answer = some p') :
    Seen setup p s (.alloc k layout answer) p'.world := by
  unfold Process.alloc at halloc
  split at halloc
  · rename_i hbackend
    have hpasses : p.passes (.alloc k layout answer) = none := by simp [Process.passes, hbackend]
    unfold Process.systemAlloc at halloc
    split at halloc
    · obtain rfl := Option.some.inj halloc
      exact .silent hpasses rep.unseen_same
    · split at halloc
      · obtain rfl := Option.some.inj halloc
        exact .silent hpasses rep.unseen_same
      · cases halloc
  rename_i hbackend
  split at halloc
  · rename_i husable
    obtain ⟨w', hstep, hsettle⟩ := Option.bind_eq_some_iff.mp halloc
    rw [(Process.settle_frame hsettle).1]
    exact .call (by simp [Process.passes, hbackend, husable]) rfl hstep
  rename_i husable
  have hpasses : p.passes (.alloc k layout answer) = none := by simp [Process.passes, husable]
  unfold Process.fallbackAlloc at halloc
  split at halloc
  · obtain rfl := Option.some.inj halloc
    exact .silent hpasses rep.unseen_same
  rename_i rawLayout hlayout
  split at halloc
  · obtain rfl := Option.some.inj halloc
    exact .silent hpasses rep.unseen_same
  rename_i raw
  split at halloc
  · rename_i hhonours
    split at halloc
    · obtain rfl := Option.some.inj halloc
      exact .silent hpasses rep.unseen_same
    · rename_i user huser
      obtain rfl := Option.some.inj halloc
      exact .silent hpasses (rep.unseen_prefix (rep.honours hhonours).1
        (fallbackPlaced hlayout huser) _)
  · cases halloc

theorem dealloc_seen (rep : p.Rep setup s) {i : Nat} {h : Held} (hh : p.held[i]? = some h)
    {panicking : Bool} (hdealloc : { p with held := p.held.eraseIdx i }.dealloc setup.debug k h.ptr
      h.layout panicking = some p') : Seen setup p s (.dealloc k i panicking) p'.world := by
  cases hb : h.block with
  | some b =>
    have heq := (rep.dealloc_block hh hb setup.debug k panicking).1
    obtain rfl := Option.some.inj (heq.symm.trans hdealloc)
    have hsource : h.source ≠ .orthotope := by
      intro hsource
      simp [Held.block, hsource] at hb
    exact .silent (by simp [Process.passes, hh, hsource]) rep.unseen_same
  | none =>
    have hsource := Held.source_of_block hb
    cases husable : (p.slots k).usable with
    | false =>
      have heq := rep.dealloc_unusable hh hsource husable setup.debug panicking
      obtain rfl := Option.some.inj (heq.symm.trans hdealloc)
      refine .silent (by simp [Process.passes, hh, husable]) ?_
      cases panicking <;> exact rep.unseen_same
    | true =>
      obtain ⟨w', hfree, heq, -⟩ := rep.dealloc_usable hh hsource husable panicking
      obtain rfl := Option.some.inj (heq.symm.trans hdealloc)
      obtain ⟨j, -, hfind, -⟩ :=
        rep.backed.inv.findIdx_live (rep.held_size (List.mem_of_getElem? hh) hsource)
      rw [← rep.backed.refines.live_eq] at hfind
      have hidx : p.liveIdx? h.ptr = some j := hfind
      have hpasses : p.passes (.dealloc k i panicking) =
          some (.deallocate k () j (some h.layout.size)) := by
        simp [Process.passes, hh, hsource, husable, hidx]
      have hstep : p.world.step setup.debug (.deallocate k () j (some h.layout.size)) =
          some w' := by
        simpa only [Process.free, hfind] using hfree
      exact .call hpasses rfl hstep

theorem store_seen (rep : p.Rep setup s) {i offset : Nat} {value : UInt8} {h : Held}
    (hh : p.held[i]? = some h) (hstore : p.store setup.debug h offset value = some p') :
    Seen setup p s (.store i offset value) p'.world := by
  unfold Process.store at hstore
  split at hstore
  · rename_i hoffset
    have hwrite : ∀ b, h.block = some b → Unseen setup s
        { p.world with mem := p.world.mem.write (h.ptr + offset) 1 value.toNat } := by
      intro b hb
      refine rep.unseen_write fun y h1 h2 harena => ?_
      obtain ⟨h3, h4⟩ := inArenas_iff.mp harena
      have hmem := List.mem_of_getElem? hh
      obtain ⟨hlo, hhi⟩ := (rep.books.ok h hmem).within hb
      have hclear := (rep.books.block b (rep.books.mem_block hmem hb)).clear
      unfold Clear at hclear
      omega
    have hb : ∀ source, h.source = source → source ≠ .orthotope → ∃ b, h.block = some b := by
      rintro source hsource hne
      unfold Held.block
      rw [hsource]
      cases source with
      | system => exact ⟨_, rfl⟩
      | fallback raw rawLayout => exact ⟨_, rfl⟩
      | orthotope => exact absurd rfl hne
    cases hsource : h.source with
    | orthotope =>
      rw [hsource] at hstore
      obtain ⟨j, hfind, hstep⟩ := Option.bind_eq_some_iff.mp hstore
      obtain ⟨w', hw', rfl⟩ := Option.map_eq_some_iff.mp hstep
      have hidx : p.liveIdx? h.ptr = some j := hfind
      exact .call (by simp [Process.passes, hh, hsource, hidx]) rfl hw'
    | system =>
      obtain ⟨b, hb⟩ := hb _ hsource nofun
      rw [hsource] at hstore
      obtain rfl := Option.some.inj hstore
      exact .silent (by simp [Process.passes, hh, hsource]) (hwrite b hb)
    | fallback raw rawLayout =>
      obtain ⟨b, hb⟩ := hb _ hsource nofun
      rw [hsource] at hstore
      obtain rfl := Option.some.inj hstore
      exact .silent (by simp [Process.passes, hh, hsource]) (hwrite b hb)
  · cases hstore

theorem step_seen (rep : p.Rep setup s) {action : ProcessAction κ}
    (hstep : p.step setup.debug action = some p') : Seen setup p s action p'.world := by
  unfold Process.step at hstep
  split at hstep
  · cases hstep
  cases action with
  | alloc k layout answer => exact rep.alloc_seen hstep
  | dealloc k i panicking =>
    obtain ⟨h, hh, hdealloc⟩ := Option.bind_eq_some_iff.mp hstep
    exact rep.dealloc_seen hh hdealloc
  | run k advised =>
    obtain ⟨w', hw', hsettle⟩ := Option.bind_eq_some_iff.mp hstep
    rw [(Process.settle_frame hsettle).1]
    exact .call rfl rfl hw'
  | borrow k =>
    dsimp only at hstep
    split at hstep
    · obtain rfl := Option.some.inj hstep
      exact .silent rfl rep.unseen_same
    · cases hstep
  | release k =>
    dsimp only at hstep
    split at hstep
    · obtain rfl := Option.some.inj hstep
      exact .silent rfl rep.unseen_same
    · cases hstep
  | teardown k =>
    dsimp only at hstep
    split at hstep
    · obtain ⟨w', hw', rfl⟩ := Option.map_eq_some_iff.mp hstep
      exact .call rfl rfl hw'
    · cases hstep
  | store i offset value =>
    obtain ⟨h, hh, hstore⟩ := Option.bind_eq_some_iff.mp hstep
    exact rep.store_seen hh hstore
  | scribble addr value =>
    dsimp only at hstep
    split at hstep
    · rename_i hclear
      obtain rfl := Option.some.inj hstep
      refine .silent rfl (rep.unseen_write fun y h1 h2 hin => ?_)
      obtain ⟨h3, h4⟩ := inArenas_iff.mp hin
      have harena := hclear.1
      rw [rep.arena_eq.1, rep.arena_eq.2] at harena
      unfold Clear at harena
      omega
    · cases hstep
  | discard page =>
    obtain ⟨w', hw', rfl⟩ := Option.map_eq_some_iff.mp hstep
    obtain ⟨s', hs', backed, -⟩ := rep.backed.step hw'
    simp only [World.step] at hs'
    split at hs'
    · obtain rfl := Option.some.inj hs'
      exact .silent rfl ⟨_, backed, rfl⟩
    · cases hs'

/-- `s` is the state over sequences behind a process, and `s'` one of the allocator on its own that
differs from it in the memory only. -/
structure Mirrors (setup : Setup Unit κ) (p : Process κ) (s s' : World Unit κ Seq Seq) : Prop where
  rep : p.Rep setup s
  reachable : setup.Reachable s'
  alike : s.Alike s'

theorem mirrors_initial (setup : Setup Unit κ) :
    Mirrors setup setup.process (setup.world Seq Seq) (setup.world Seq Seq) :=
  ⟨Process.Rep.initial setup, .initial, ⟨rfl, rfl, rfl, rfl, rfl⟩⟩

/-- The allocator on its own makes the steps that the shim passes on, as the memory decides
nothing. -/
theorem Mirrors.step (h : Mirrors setup p s s') {action : ProcessAction κ}
    (hstep : p.step setup.debug action = some p') :
    (p.passes action = none ∧ ∃ t, Mirrors setup p' t s') ∨
      ∃ call t t', p.passes action = some call ∧ call.isDiscard = false ∧
        s'.step setup.debug call = some t' ∧ Mirrors setup p' t t' := by
  obtain ⟨rep, hreach, halike⟩ := h
  obtain ⟨t, rep'⟩ := (rep.step hstep).1
  cases rep.step_seen hstep with
  | silent hpasses hunseen =>
    obtain ⟨m, backed, hpage⟩ := hunseen
    refine Or.inl ⟨hpasses, _, rep'.of_backed backed, hreach, ?_⟩
    exact ⟨halike.allocators, halike.caches, halike.live, halike.threads,
      halike.pageSize.trans hpage.symm⟩
  | @call call hpasses hdiscard hcall =>
    obtain ⟨s₁, hs₁, backed, -⟩ := rep.backed.step hcall
    have hne : ∀ page, call ≠ .discard page := by
      rintro page rfl
      cases hdiscard
    have hrel := rep.backed.inv.step_alike hreach.inv halike hne
    rw [hs₁] at hrel
    cases hs' : s'.step setup.debug call with
    | none =>
      rw [hs'] at hrel
      cases hrel
    | some s₁' =>
      rw [hs'] at hrel
      cases hrel with
      | some halike₁ =>
        exact Or.inr ⟨call, s₁, s₁', hpasses, hdiscard, hs', rep'.of_backed backed,
          hreach.step call hs', halike₁⟩

end Process.Rep

section Runs

variable {κ : Type} [DecidableEq κ] {setup : Setup Unit κ} {p p' : Process κ}
  {actions : List (ProcessAction κ)}

open Process.Rep

/-- The allocator of a process has the structures, the calls in progress and the live allocations
that it has on its own after the calls that the shim passes on, and the program finds in both
memories what it has stored: fallback allocations, other memory and the pages that the system takes
back are nothing to it. -/
theorem Setup.process_refines (setup : Setup Unit κ)
    (hruns : setup.process.runs setup.debug actions = some p) :
    ∃ w, (setup.world FreeList Batch).runs setup.debug
        (setup.process.calls setup.debug actions) = some w ∧ p.world.SameBut w := by
  rw [Process.runs_eq] at hruns
  obtain ⟨w, hw, s, s', hmirrors, hrefines⟩ := StepSystem.runs_simulate
    (R := fun p w => ∃ s s', Mirrors setup p s s' ∧ Refines w s') hruns
    ⟨_, _, mirrors_initial setup, refines_initial setup⟩ fun action p p' w hrel hstep => by
      obtain ⟨s, s', hmirrors, hrefines⟩ := hrel
      rcases hmirrors.step hstep with ⟨hnone, t, hmirrors'⟩ |
        ⟨call, t, t', hcall, hdiscard, ht', hmirrors'⟩
      · refine ⟨fun _ => ⟨t, s', hmirrors', hrefines⟩, fun call hcall => ?_⟩
        cases hnone.symm.trans hcall
      · refine ⟨fun hnone => ?_, fun call' hcall' => ?_⟩
        · cases hcall.symm.trans hnone
        · obtain rfl := Option.some.inj (hcall.symm.trans hcall')
          obtain ⟨w', hw', hrefines'⟩ := hrefines.backward hmirrors.reachable.inv hdiscard ht'
          exact ⟨w', hw', t, t', hmirrors', hrefines'⟩
  rw [← World.runs_eq] at hw
  have backed := hmirrors.rep.backed
  exact ⟨w, hw, backed.refines.sameBut backed.inv hrefines hmirrors.reachable.inv hmirrors.alike⟩

end Runs

theorem sampleAlign_isPowerOfTwo : Nat.isPowerOfTwo 8 := ⟨3, rfl⟩

theorem sampleSize_le : 10 + 8 ≤ 2 ^ 63 := by decide

def sampleLayout : Layout := ⟨10, 8, sampleAlign_isPowerOfTwo, sampleSize_le⟩

/-- What the allocator sees of three allocations, of which it serves the first. -/
theorem process_refines_sample :
    sampleSetup.process.calls true sampleAllocs =
      .allocate 0 () 10 :: List.replicate 6 (.run 0 (true, true)) ∧
    ∃ w, (sampleSetup.world FreeList Batch).runs true
        (.allocate 0 () 10 :: List.replicate 6 (.run 0 (true, true))) = some w ∧
      sampleProcess.world.SameBut w := by
  have hcalls : sampleSetup.process.calls true sampleAllocs =
      .allocate 0 () 10 :: List.replicate 6 (.run 0 (true, true)) := by rfl
  have hrefines := sampleSetup.process_refines (Option.some_get sampleAllocs_run).symm
  have hdebug : sampleSetup.debug = true := rfl
  rw [hdebug, hcalls] at hrefines
  exact ⟨hcalls, hrefines⟩

end Orthotope
