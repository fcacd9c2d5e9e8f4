import Orthotope.ProcessInvariant

/-! Where the shim sends its frees.  A pointer is recognised by the bytes in front of it, which
belong to the header of a block or to the prefix of a fallback allocation; so it goes back to the
backend that it came from, and if its thread can use its cache, no free aborts. -/

namespace Orthotope

open ByteMemory

namespace Process

variable {κ : Type}

/-- A free of a layout that the allocator serves finds the slot of its thread usable. -/
def Finds (p : Process κ) : ProcessAction κ → Prop
  | .dealloc k i _ =>
    ∀ h, p.held[i]? = some h → selectBackend h.layout = .orthotope → (p.slots k).usable = true
  | _ => True

/-- What a pointer of the program is, by the backend that it came from. -/
def Placed (p : Process κ) (h : Held) : Prop :=
  match h.source with
  | .system => selectBackend h.layout = .system ∧ (h.ptr, h.layout) ∈ p.blocks
  | .fallback raw rawLayout => selectBackend h.layout = .orthotope ∧ (raw, rawLayout) ∈ p.blocks ∧
      tryFallbackLayout h.layout = some rawLayout ∧ fallbackRawPtr p.world.mem h.ptr = some raw ∧
        raw + SystemFallbackPrefix.sizeOf ≤ h.ptr ∧
          h.ptr + h.layout.size ≤ raw + rawLayout.size
  | .orthotope => selectBackend h.layout = .orthotope ∧ fallbackRawPtr p.world.mem h.ptr = none ∧
      (∀ y, inTail (blockStartFromUserPtr h.ptr) y → p.world.mem.byte y = 0) ∧
        ∃ e ∈ p.world.live, e.ptr = h.ptr ∧ e.size = h.layout.size

variable [DecidableEq κ]

/-- What the free of a pointer makes of the process: the system's allocator gets back the block that
it has handed out for it, or a free of the allocator is in progress. -/
def Released (p : Process κ) (debug : Bool) (k : κ) (i : Nat) (h : Held) (panicking : Bool)
    (p' : Process κ) : Prop :=
  match h.source with
  | .system => p' = { p with
      held := p.held.eraseIdx i, blocks := p.blocks.erase (h.ptr, h.layout) }
  | .fallback raw rawLayout => p' = { p with
      held := p.held.eraseIdx i, blocks := p.blocks.erase (raw, rawLayout) }
  | .orthotope => ∃ world, p.free debug k h.ptr h.layout.size = some world ∧
      p' = { p with world, held := p.held.eraseIdx i }.setSlot k (.borrowed (.freeing panicking))

/-- The call of the shim on `k` ends in a state of `P` if no other action comes between its
steps. -/
def Ends (debug : Bool) (k : κ) (P : Process κ → Prop) : Process κ → Prop :=
  TotalRuns.Ends (fun advised p => p.step debug (.run k advised))
    (fun p => p.slots k = .available) P

end Process

namespace Process.Rep

variable {κ : Type} [DecidableEq κ] {setup : Setup Unit κ} {p p' : Process κ}
  {s : World Unit κ Seq Seq} {k : κ}

/-- What is known of every pointer of the program. -/
theorem placed (rep : p.Rep setup s) {h : Held} (hh : h ∈ p.held) :
    h.ptr ≠ 0 ∧ h.ptr % h.layout.align = 0 ∧ p.Placed h := by
  have ok := rep.books.ok h hh
  have hblock : ∀ b, h.block = some b → b ∈ p.blocks := fun b hb => rep.books.mem_block hh hb
  have hsize : h.source = .orthotope → (h.ptr, h.layout.size) ∈ s.sizes := rep.held_size hh
  cases ok with
  | system hbackend =>
    have hmem := hblock _ rfl
    have hok := rep.books.block _ hmem
    exact ⟨hok.ne_zero, hok.aligned, hbackend, hmem⟩
  | fallback hbackend hlayout hplaced hraw hborn =>
    have hfront := hplaced.front
    have hpos : 0 < SystemFallbackPrefix.sizeOf := by decide
    have hne : _ ≠ 0 := Nat.ne_of_gt (hpos.trans_le ((Nat.le_add_left _ _).trans hfront))
    exact ⟨hne, hplaced.aligned, hbackend, hblock _ rfl, hlayout, hraw, hfront, hplaced.back⟩
  | @orthotope ptr layout born hbackend hborn =>
    have hsize := hsize rfl
    obtain ⟨hne, hraw⟩ := rep.no_prefix hsize
    obtain ⟨e, he, heq⟩ := List.mem_map.mp (Multiset.mem_coe.mp hsize)
    obtain ⟨rfl, hesize⟩ := Prod.mk.inj heq
    have hlive : e ∈ p.world.live := rep.backed.refines.live_eq ▸ he
    have haligned := rep.backed.inv.live_aligned he
    have hle := (rep.backed.inv.memory.entry none e he).header_le
    -- the alignment asked for divides that of every block
    obtain ⟨-, halign⟩ := selectBackend_eq_orthotope.mp hbackend
    have hpow : Nat.isPowerOfTwo headerAlignment := ⟨6, rfl⟩
    have hdvd := dvd_of_isPowerOfTwo_le layout.align_isPowerOfTwo hpow halign
    have hptr : headerAlignment ∣ e.ptr := by
      unfold blockStartFromUserPtr headerSize at *
      unfold headerAlignment
      omega
    exact ⟨hne, Nat.mod_eq_zero_of_dvd (hdvd.trans hptr), hbackend, hraw,
      fun y hy => rep.backed.tail hlive hy, e, hlive, rfl, hesize⟩

/-- A free sends every pointer back to where it came from. -/
theorem released (rep : p.Rep setup s) (haborted : p.aborted = false) {i : Nat} {h : Held}
    (hh : p.held[i]? = some h) {panicking : Bool} (hfinds : p.Finds (.dealloc k i panicking)) :
    ∃ p', p.step setup.debug (.dealloc k i panicking) = some p' ∧
      p.Released setup.debug k i h panicking p' := by
  have hstep : p.step setup.debug (.dealloc k i panicking) =
      { p with held := p.held.eraseIdx i }.dealloc setup.debug k h.ptr h.layout panicking := by
    simp only [Process.step, haborted, hh, Option.bind_some]
    rfl
  rw [hstep]
  unfold Released
  cases hsource : h.source with
  | system =>
    have hb : h.block = some (h.ptr, h.layout) := by
      unfold Held.block
      rw [hsource]
    exact ⟨_, (rep.dealloc_block hh hb setup.debug k panicking).1, rfl⟩
  | fallback raw rawLayout =>
    have hb : h.block = some (raw, rawLayout) := by
      unfold Held.block
      rw [hsource]
    exact ⟨_, (rep.dealloc_block hh hb setup.debug k panicking).1, rfl⟩
  | orthotope =>
    have hbackend := ((rep.backend_of_source (List.mem_of_getElem? hh)).mp hsource).1
    obtain ⟨w', hfree, hdealloc, -⟩ :=
      rep.dealloc_usable hh hsource (hfinds h hh hbackend) panicking
    exact ⟨_, hdealloc, w', hfree, rfl⟩

/-- A free of the allocator ends, without an error. -/
theorem freeing_ends (rep : p.Rep setup s) (haborted : p.aborted = false) {panicking : Bool}
    (hslot : p.slots k = .borrowed (.freeing panicking)) :
    p.Ends setup.debug k fun p' => p'.world.threads k = .idle (some .freed) ∧
      p'.aborted = false ∧ p'.blocks = p.blocks ∧ p'.held = p.held := by
  have hslotOk := rep.slot k
  rw [hslot] at hslotOk
  obtain ⟨pc, ht, hfrees⟩ := hslotOk
  have hfrees' : (s.threads k).Frees := ht ▸ hfrees
  have hends := rep.backed.refines.ends rep.backed.inv
    (rep.backed.inv.ends_keeps (frees_kept setup k) hfrees')
  have hsim : p.Ends setup.debug k fun p' => ∃ w, (p'.world = w ∧ (∃ s, p'.Rep setup s) ∧
      p'.aborted = false ∧ p'.blocks = p.blocks ∧ p'.held = p.held ∧
        (p'.slots k = .borrowed (.freeing panicking) ∨
          p'.slots k = .available ∧ w.threads k = .idle (some .freed))) ∧
      ∃ s', Refines w s' ∧ Inv setup s' ∧ (s'.threads k).Frees := by
    refine TotalRuns.Ends.simulate hends (fun p' w advised w' hrel hstep => ?_)
      (fun p' w hrel hidle => ?_) ⟨rfl, ⟨s, rep⟩, haborted, rfl, rfl, Or.inl hslot⟩
    · obtain ⟨rfl, ⟨s', rep'⟩, haborted', hblocks, hheld, hslot' | ⟨-, hidle⟩⟩ := hrel
      · obtain ⟨slot, hsettle, rep'', hcases⟩ := rep'.run_freeing hslot' hstep
        have hnext : p'.step setup.debug (.run k advised) =
            some ({ p' with world := w' }.setSlot k slot) := by
          rw [Process.step, if_neg (by simp [haborted'])]
          simp only [hstep, Option.bind_some]
          exact hsettle
        refine ⟨_, hnext, rfl, rep'', haborted', hblocks, hheld, ?_⟩
        rw [Process.setSlot_slots]
        exact hcases.imp (fun h => h.1) id
      · simp [World.step, hidle] at hstep
    · obtain ⟨rfl, ⟨s', rep'⟩, -, -, -, hslot' | ⟨havailable, -⟩⟩ := hrel
      · have hbusy := rep'.slot k
        rw [hslot'] at hbusy
        obtain ⟨pc', ht', -⟩ := hbusy
        obtain ⟨outcome, hidle⟩ := hidle
        rw [rep'.threads_eq k, ht'] at hidle
        cases hidle
      · exact havailable
  refine TotalRuns.Ends.mono (TotalRuns.Ends.with_stopped hsim) fun p' hend => ?_
  obtain ⟨hstopped, w, ⟨rfl, -, haborted', hblocks, hheld, hslot' | ⟨-, hidle⟩⟩, -⟩ := hend
  · rw [hslot'] at hstopped
    cases hstopped
  · exact ⟨hidle, haborted', hblocks, hheld⟩

end Process.Rep

section Runs

variable {κ : Type} {setup : Setup Unit κ} {p : Process κ}

theorem Process.Finds.not_aborts {action : ProcessAction κ} (h : p.Finds action) :
    ¬p.Aborts action := by
  cases action with
  | dealloc k i panicking =>
    rintro ⟨-, husable, entry, hentry, hbackend, -⟩
    cases (h entry hentry hbackend).symm.trans husable
  | _ => exact id

theorem Process.finds_of_ne {action : ProcessAction κ}
    (h : ∀ k i panicking, action ≠ .dealloc k i panicking) : p.Finds action := by
  cases action with
  | dealloc k i panicking => exact absurd rfl (h k i panicking)
  | _ => trivial

variable [DecidableEq κ]

/-- In every run in which each free finds the slot of its thread usable, nothing aborts, every
pointer is aligned and recognised as what it is, its free gives the block back to the backend that
it came from, and frees of the allocator end well. -/
theorem routing_agreement (hp : setup.Reaches Process.Finds p) :
    p.aborted = false ∧
    (∀ h ∈ p.held, h.ptr ≠ 0 ∧ h.ptr % h.layout.align = 0 ∧ p.Placed h) ∧
    (∀ k i panicking h, p.held[i]? = some h → p.Finds (.dealloc k i panicking) →
      ∃ p', p.step setup.debug (.dealloc k i panicking) = some p' ∧
        p.Released setup.debug k i h panicking p' ∧ p'.aborted = false) ∧
    ∀ k panicking, p.slots k = .borrowed (.freeing panicking) →
      p.Ends setup.debug k fun p' => p'.world.threads k = .idle (some .freed) ∧
        p'.aborted = false ∧ p'.blocks = p.blocks ∧ p'.held = p.held := by
  obtain ⟨s, rep⟩ := hp.rep
  have haborted : p.aborted = false := hp.not_aborted fun _ _ hok => hok.not_aborts
  refine ⟨haborted, fun h hh => rep.placed hh, fun k i panicking h hh hfinds => ?_,
    fun k panicking hslot => rep.freeing_ends haborted hslot⟩
  obtain ⟨p', hstep, hreleased⟩ := rep.released haborted hh hfinds
  have hp' : setup.Reaches Process.Finds p' := hp.step _ hfinds hstep
  exact ⟨p', hstep, hreleased, hp'.not_aborted fun _ _ hok => hok.not_aborts⟩

end Runs

/-! ### A run -/

/-- A pointer of each backend, all on thread 0: of the allocator, of the fallback while the cache is
borrowed, and of the system for a layout without bytes. -/
def sampleAllocs : List (ProcessAction (Fin 2)) :=
  .alloc 0 ⟨10, 8, ⟨3, rfl⟩, by decide⟩ none :: List.replicate 6 (.run 0 (true, true)) ++
    [.borrow 0, .alloc 0 ⟨30, 16, ⟨4, rfl⟩, by decide⟩ (some 65536), .release 0,
      .alloc 0 ⟨0, 1, ⟨0, rfl⟩, by decide⟩ (some 131072)]

theorem sampleAllocs_run : (sampleSetup.process.runs true sampleAllocs).isSome := by
  decide +kernel

def sampleProcess : Process (Fin 2) :=
  (sampleSetup.process.runs true sampleAllocs).get sampleAllocs_run

theorem sampleProcess_reached {ok : Process (Fin 2) → ProcessAction (Fin 2) → Prop}
    (hok : ∀ p action, (∀ k i panicking, action ≠ .dealloc k i panicking) → ok p action) :
    sampleSetup.Reaches ok sampleProcess := by
  refine Setup.Reaches.initial.runs (fun action haction p => hok p action ?_)
    (Option.some_get sampleAllocs_run).symm
  simp only [sampleAllocs, List.cons_append, List.mem_cons, List.mem_append, List.mem_replicate,
    List.not_mem_nil, or_false] at haction
  rcases haction with rfl | ⟨-, rfl⟩ | rfl | rfl | rfl | rfl
  all_goals rintro _ _ _ ⟨⟩

/-- The layout that the system's allocator is asked for by the fallback for 30 bytes. -/
def sampleRawLayout : Layout := ⟨69, 16, ⟨4, rfl⟩, by decide⟩

/-- Thread 1 frees what thread 0 has allocated through the fallback, and then what it has from the
allocator. -/
theorem routing_agreement_sample :
    sampleProcess.held.map (fun h => (h.ptr, h.layout.size)) =
      [(4160, 10), (65568, 30), (131072, 0)] ∧
    ∃ p p', sampleProcess.step true (.dealloc 1 1 false) = some p ∧
      p.blocks = sampleProcess.blocks.erase (65536, sampleRawLayout) ∧
      p.step true (.dealloc 1 0 false) = some p' ∧
      p'.Ends true 1 fun p'' => p''.world.threads 1 = .idle (some .freed) := by
  have hreach : sampleSetup.Reaches Process.Finds sampleProcess :=
    sampleProcess_reached fun _ _ h => Process.finds_of_ne h
  obtain ⟨h, hh, hsource⟩ : ∃ h, sampleProcess.held[1]? = some h ∧
    h.source = .fallback 65536 sampleRawLayout := ⟨_, by rfl, by rfl⟩
  obtain ⟨h₀, hh₀, hsource₀⟩ : ∃ h, sampleProcess.held[0]? = some h ∧ h.source = .orthotope :=
    ⟨_, by rfl, by rfl⟩
  have husable : (sampleProcess.slots 1).usable = true := by decide +kernel
  have hfinds : sampleProcess.Finds (.dealloc 1 1 false) := fun _ _ _ => husable
  obtain ⟨p, hstep, hreleased, -⟩ :=
    (routing_agreement hreach).2.2.1 1 1 false h hh hfinds
  have hp := hreach.step _ hfinds hstep
  unfold Process.Released at hreleased
  rw [hsource] at hreleased
  subst hreleased
  have hfinds' : Process.Finds { sampleProcess with
      held := sampleProcess.held.eraseIdx 1
      blocks := sampleProcess.blocks.erase (65536, sampleRawLayout) } (.dealloc 1 0 false) :=
    fun _ _ _ => husable
  have hh' : (sampleProcess.held.eraseIdx 1)[0]? = some h₀ := by
    rwa [List.getElem?_eraseIdx_of_lt (by decide)]
  obtain ⟨p', hstep', hreleased', -⟩ := (routing_agreement hp).2.2.1 1 0 false h₀ hh' hfinds'
  have hp' := hp.step _ hfinds' hstep'
  unfold Process.Released at hreleased'
  rw [hsource₀] at hreleased'
  obtain ⟨world, -, rfl⟩ := hreleased'
  refine ⟨by decide +kernel, _, _, hstep, rfl, hstep', ?_⟩
  have hends := (routing_agreement hp').2.2.2 1 false (Process.setSlot_slots _ 1 _)
  exact hends.mono fun _ hend => hend.1

end Orthotope
