import Orthotope.ArenaRace
import Orthotope.Failure

/-! The arena has no padding.  Whatever the allocator reserves, spans of class blocks or large
blocks, is a multiple of the alignment, so the cursor stands at an aligned place in every reachable
state and rounding it does nothing: each span begins where the one before it ends, and a span of
class blocks takes as many of them as are wanted and fit. -/

namespace Orthotope

variable {ι κ : Type}

/-! ### Large blocks in progress -/

section Large

variable {setup : Setup ι κ}

/-- The block that a large allocation is about to look for is its header and its request, rounded
up. -/
def Thread.WantsWhole {B : Type} (setup : Setup ι κ) : Thread ι κ B → Prop
  | .busy a (.large size blockSize) | .busy a (.largeCarve size blockSize) =>
    blockSize = alignUp (headerSize + size) (setup.config a).alignment
  | _ => True

theorem wantsWhole_kept (setup : Setup ι κ) (k : κ) :
    KeptByCall setup k (Thread.WantsWhole setup) := by
  intro s a pc v inv ht hwants htrans
  have hresume : ∀ (v : View ι κ Seq Seq) (resume : Resume),
      (v.resume a resume).thread.WantsWhole setup := by
    intro v resume
    cases resume with
    | _ => trivial
  cases htrans with
  | @refill c size' m central r h => cases r <;> trivial
  | push _ _ _ _ _ hthread => rcases hthread with rfl | ⟨-, rfl⟩ <;> trivial
  | stage _ hthread => rcases hthread with rfl | rfl <;> trivial
  | largeMiss h => exact hwants
  | unstageNone _ => exact hresume _ _
  | publish => exact hresume _ _
  | returnBatch => exact hresume _ _
  | _ => trivial

theorem wantsWhole_fromStart (setup : Setup ι κ) : FromStart setup (Thread.WantsWhole setup) where
  idle _ := trivial
  allocate a v size hconfig := by
    unfold View.startAllocate
    split
    · trivial
    · split
      · split
        · trivial
        · rename_i blockSize hblock
          show blockSize = alignUp (headerSize + size) (setup.config a).alignment
          rw [← hconfig]
          exact largeBlockSize_eq hblock
      · split <;> trivial
  free debug a v entry rest expectedSize := by
    unfold View.startFree
    split <;> trivial
  drain _ := trivial
  kept k := wantsWhole_kept setup k

end Large

/-! ### The cursor -/

section Cursor

variable {setup : Setup ι κ} {s s' : World ι κ Seq Seq} {a : ι} {k : κ}

/-- The cursor of every arena is aligned. -/
def World.Unpadded {L B : Type} (setup : Setup ι κ) (s : World ι κ L B) : Prop :=
  ∀ a, (setup.config a).alignment ∣ (s.allocators a).arena.next

theorem Parts.alignUp_of_unpadded (parts : Parts setup s) (h : s.Unpadded setup) (a : ι) :
    alignUp (s.allocators a).arena.next (s.allocators a).arena.alignment =
      (s.allocators a).arena.next := by
  apply alignUp_of_dvd
  rw [(parts.allocator a).arena_eq]
  show (setup.arena a).alignment ∣ _
  rw [(setup.arenaFacts a).alignment_eq]
  exact h a

/-- A reservation of whole alignments leaves the cursor aligned. -/
theorem Parts.dvd_next (parts : Parts setup s) (h : s.Unpadded setup) {span : ReservedSpan}
    {arena : Arena} (hreserves : Arena.Reserves (s.allocators a).arena span arena)
    (hsize : (setup.config a).alignment ∣ span.size) :
    (setup.config a).alignment ∣ arena.next := by
  rw [hreserves.next_eq]
  show _ ∣ alignUp _ _ + span.size
  rw [parts.alignUp_of_unpadded h a]
  exact Nat.dvd_add (h a) hsize

theorem Transition.dvd_next (inv : Inv setup s) (h : s.Unpadded setup) {pc : Pc ι κ Seq}
    {v : View ι κ Seq Seq} (hwants : (Thread.busy a pc).WantsWhole setup)
    (htrans : Transition setup.debug s a k pc v) :
    (setup.config a).alignment ∣ v.allocator.arena.next := by
  have facts := setup.arenaFacts a
  have hresume : ∀ (v : View ι κ Seq Seq) (r : Resume), (v.resume a r).allocator = v.allocator :=
    fun v r => (v.resume_frame a r).2.2.1
  cases htrans with
  | carve hreserves hn hsize =>
    apply inv.parts.dvd_next h hreserves
    rw [hsize, (inv.parts.allocator a).config_eq]
    exact ((setup.config a).dvd_classBlockSize _ facts.header_le).mul_left _
  | largeReserve hreserves =>
    apply inv.parts.dvd_next h hreserves
    have hpos : 0 < (setup.config a).alignment := by
      have := facts.header_le
      unfold headerAlignment at this
      omega
    rw [show _ = alignUp _ _ from hwants]
    exact dvd_alignUp hpos
  | unstageNone _ => rw [hresume]; exact h a
  | publish => rw [hresume]; exact h a
  | returnBatch => rw [hresume]; exact h a
  | _ => exact h a

variable [DecidableEq ι] [DecidableEq κ]

theorem Setup.Reachable.unpadded (h : setup.Reachable s) : s.Unpadded setup := by
  induction h with
  | initial =>
    intro a
    show _ ∣ (setup.arena a).next
    rw [(setup.arenaFacts a).next_eq]
    exact dvd_zero _
  | @step s s' action hr hstep ih =>
    intro b
    rcases hr.inv.step_cases hstep with ⟨k, a, pc, advised, v, -, ht, rfl, -, htrans⟩ |
      ⟨k, a, last, v, -, -, rfl, hallocator, -⟩ | ⟨hallocators, -, -⟩
    · by_cases hb : b = a
      · subst hb
        rw [World.update_allocators_same]
        have hwants := (wantsWhole_fromStart setup).reachable hr k
        rw [ht] at hwants
        exact htrans.dvd_next hr.inv ih hwants
      · rw [World.update_allocators_ne _ _ hb]
        exact ih b
    · by_cases hb : b = a
      · subst hb
        rw [World.update_allocators_same, hallocator]
        exact ih b
      · rw [World.update_allocators_ne _ _ hb]
        exact ih b
    · rw [hallocators]
      exact ih b

/-- The span begins at the cursor as it stands, which moves to its end. -/
structure Arena.Appends (arena : Arena) (span : ReservedSpan) (arena' : Arena) : Prop where
  start_eq : span.start = arena.base + arena.next
  arena_eq : arena' = { arena with next := arena.next + span.size }
  fits : arena.next + span.size ≤ arena.len

omit [DecidableEq ι] [DecidableEq κ] in
theorem Parts.appends (parts : Parts setup s) (h : s.Unpadded setup) {span : ReservedSpan}
    {arena : Arena} (hreserves : Arena.Reserves (s.allocators a).arena span arena) :
    Arena.Appends (s.allocators a).arena span arena := by
  obtain ⟨hstart, hnext, hfits, -⟩ := hreserves
  rw [parts.alignUp_of_unpadded h a] at hstart hnext hfits
  exact ⟨hstart, hnext, hfits⟩

/-- The span or block that a call has just reserved. -/
def Thread.reservation {B : Type} : Thread ι κ B → Option ReservedSpan
  | .busy _ (.carved _ _ span) => some span
  | .busy _ (.largeGot _ start blockSize) => some ⟨start, blockSize⟩
  | _ => none

omit [DecidableEq ι] [DecidableEq κ] in
theorem Transition.reservation (parts : Parts setup s) (h : s.Unpadded setup) {pc : Pc ι κ Seq}
    {v : View ι κ Seq Seq} (htrans : Transition setup.debug s a k pc v) :
    v.allocator.arena = (s.allocators a).arena ∨ ∃ span, v.thread.reservation = some span ∧
      Arena.Appends (s.allocators a).arena span v.allocator.arena := by
  have hresume : ∀ (v : View ι κ Seq Seq) (r : Resume), (v.resume a r).allocator = v.allocator :=
    fun v r => (v.resume_frame a r).2.2.1
  cases htrans with
  | carve hreserves hn hsize => exact Or.inr ⟨_, rfl, parts.appends h hreserves⟩
  | largeReserve hreserves => exact Or.inr ⟨_, rfl, parts.appends h hreserves⟩
  | unstageNone _ => rw [hresume]; exact Or.inl rfl
  | publish => rw [hresume]; exact Or.inl rfl
  | returnBatch => rw [hresume]; exact Or.inl rfl
  | _ => exact Or.inl rfl

/-- An action leaves an arena alone, or reserves what lies behind its cursor. -/
theorem Inv.reservation (inv : Inv setup s) (h : s.Unpadded setup) {action : Action ι κ}
    (hstep : s.step setup.debug action = some s') (a : ι) :
    (s'.allocators a).arena = (s.allocators a).arena ∨
      ∃ k span, (s'.threads k).reservation = some span ∧
        Arena.Appends (s.allocators a).arena span (s'.allocators a).arena := by
  rcases inv.step_cases hstep with ⟨k, b, pc, advised, v, -, ht, rfl, -, htrans⟩ |
    ⟨k, b, last, v, -, -, rfl, hallocator, -⟩ | ⟨hallocators, -, -⟩
  · by_cases hb : a = b
    · subst hb
      rw [World.update_allocators_same]
      refine (htrans.reservation inv.parts h).imp id fun hspan => ?_
      obtain ⟨span, hthread, happends⟩ := hspan
      exact ⟨k, span, by rw [World.update_threads_same, hthread], happends⟩
    · rw [World.update_allocators_ne _ _ hb]
      exact Or.inl rfl
  · by_cases hb : a = b
    · subst hb
      rw [World.update_allocators_same, hallocator]
      exact Or.inl rfl
    · rw [World.update_allocators_ne _ _ hb]
      exact Or.inl rfl
  · rw [hallocators]
    exact Or.inl rfl

omit [DecidableEq ι] [DecidableEq κ] in
theorem Inv.arena_valid (inv : Inv setup s) (a : ι) : (s.allocators a).arena.Valid := by
  have hparts := inv.parts.allocator a
  obtain ⟨-, hnew⟩ := setup.arena_new a
  exact ⟨_, _, _, hnew, hparts.arena_eq, hparts.next_le⟩

end Cursor

/-! ### The code -/

section Code

variable [DecidableEq ι] [DecidableEq κ] {setup : Setup ι κ} {w w' : World ι κ FreeList Batch}
  {s : World ι κ Seq Seq} {a : ι} {k : κ}

/-- The step of a refill that reserves from the arena. -/
theorem carve_step {debug : Bool} {advised : Bool × Bool} {c : SizeClass} {size blockSize n : Nat}
    (valid : (w.allocators a).arena.Valid) (ht : w.threads k = .busy a (.carve c size))
    (hsize : blockSize = (w.allocators a).config.classBlockSize c)
    (hn : n = (w.allocators a).arena.fittingBlocks blockSize
      ((w.allocators a).config.refillCount c))
    (hstep : w.step debug (.run k advised) = some w') :
    if (w.allocators a).arena.room < blockSize then
      w'.threads k = .busy a (.report size) ∧ (w'.allocators a).arena = (w.allocators a).arena
    else
      w'.threads k = .busy a (.carved c size ((w.allocators a).arena.nextSpan (n * blockSize))) ∧
        (w'.allocators a).arena = (w.allocators a).arena.reserved (n * blockSize) := by
  have hres := valid.reserveBlockSpan_eq ((w.allocators a).config.classBlockSize_pos c)
    ((w.allocators a).config.refillCount_pos c)
  rw [← hsize, ← hn] at hres
  simp only [World.step, ht, View.next, World.view, ← hsize, hres] at hstep
  by_cases hroom : (w.allocators a).arena.room < blockSize
  · rw [if_pos hroom]
    simp only [if_pos hroom] at hstep
    obtain rfl := Option.some.inj hstep
    exact ⟨World.update_threads_same .., by rw [World.update_allocators_same]; rfl⟩
  · rw [if_neg hroom]
    simp only [if_neg hroom] at hstep
    obtain rfl := Option.some.inj hstep
    exact ⟨World.update_threads_same .., by rw [World.update_allocators_same]; rfl⟩

theorem Refines.unpadded (h : Refines w s) (hs : setup.Reachable s) (a : ι) :
    alignUp (w.allocators a).arena.next (w.allocators a).arena.alignment =
      (w.allocators a).arena.next := by
  rw [h.arena_eq]
  exact hs.inv.parts.alignUp_of_unpadded hs.unpadded a

/-- Reserving a span of blocks is greedy and exact.  A call that runs alone takes as many of the
wanted blocks as fit behind the rounded cursor, and none only if not one fits; for one block it does
what `reserve_span` does.  In every run of the allocator the cursor is aligned, every reservation
begins at it, and a refill registers as many blocks as it has reserved. -/
theorem span_reservation {arena : Arena} (valid : arena.Valid) {blockSize targetBlocks n : Nat}
    (hsize : 0 < blockSize) (htarget : 0 < targetBlocks)
    (hn : n = min targetBlocks
      ((arena.len - alignUp arena.next arena.alignment) / blockSize)) :
    (∀ (race race' : ArenaRace κ) (k : κ) (answer : ReserveAnswer), race.arena = arena →
      race.Alone k (.reserveBlockSpan blockSize targetBlocks) answer race' →
        if arena.len - alignUp arena.next arena.alignment < blockSize then
          answer = .none ∧ race'.arena = arena
        else
          1 ≤ n ∧ answer = .reserved ⟨arena.base + alignUp arena.next arena.alignment,
            n * blockSize⟩ ∧
          race'.arena = { arena with next := alignUp arena.next arena.alignment + n * blockSize }) ∧
    (∀ (race : ArenaRace κ) (k : κ) (last : Option ReserveAnswer), race.threads k = .idle last →
      ∃ answer race', race.Alone k (.reserveBlockSpan blockSize targetBlocks) answer race') ∧
    (∀ (span : ReservedSpan) (arena' : Arena),
      arena.reserveBlockSpan blockSize 1 = .ok (some span, arena') ↔
        arena.reserveSpan blockSize = .ok (span, arena')) ∧
    ∀ (setup : Setup ι κ) (w : World ι κ FreeList Batch), setup.Reachable w → ∀ a : ι,
      alignUp (w.allocators a).arena.next (w.allocators a).arena.alignment =
        (w.allocators a).arena.next ∧
      (∀ action w', w.step setup.debug action = some w' →
        (w'.allocators a).arena = (w.allocators a).arena ∨
          ∃ k span, (w'.threads k).reservation = some span ∧
            Arena.Appends (w.allocators a).arena span (w'.allocators a).arena) ∧
      (∀ k c size advised w', w.threads k = .busy a (.carve c size) →
        w.step setup.debug (.run k advised) = some w' →
          if (w.allocators a).arena.remaining < (w.allocators a).config.classBlockSize c then
            w'.threads k = .busy a (.report size) ∧ (w'.allocators a).arena = (w.allocators a).arena
          else ∃ span, w'.threads k = .busy a (.carved c size span) ∧
            span.start = (w.allocators a).arena.base + (w.allocators a).arena.next ∧
            (w'.allocators a).arena.next = (w.allocators a).arena.next + span.size ∧
            span.size / (w.allocators a).config.classBlockSize c =
              min ((w.allocators a).config.refillCount c) ((w.allocators a).arena.remaining /
                (w.allocators a).config.classBlockSize c) ∧
            span.size % (w.allocators a).config.classBlockSize c = 0) := by
  refine ⟨fun race race' k answer harena halone => ?_, fun race k last hidle =>
    ArenaRace.exists_alone hidle _, fun span arena' => valid.reserveBlockSpan_one hsize,
    fun setup w h a => ?_⟩
  · have hattempt := halone.attempt_eq
    rw [harena] at hattempt
    simp only [ReserveCall.attempt, valid.reserveBlockSpan_eq hsize htarget] at hattempt
    have hfit : arena.fittingBlocks blockSize targetBlocks = n := hn.symm
    rw [hfit] at hattempt
    show if arena.room < blockSize then _ else _
    by_cases hroom : arena.room < blockSize
    · rw [if_pos hroom] at hattempt
      obtain ⟨hanswer, hrest⟩ := Prod.mk.inj hattempt
      rw [if_pos hroom]
      exact ⟨hanswer.symm, hrest.symm⟩
    · rw [if_neg hroom] at hattempt
      obtain ⟨hanswer, hrest⟩ := Prod.mk.inj hattempt
      rw [if_neg hroom]
      exact ⟨hfit ▸ Arena.fittingBlocks_pos hsize htarget hroom, hanswer.symm, hrest.symm⟩
  · obtain ⟨s, hs, hrefines⟩ := h.refines
    have hround := hrefines.unpadded hs a
    have hvalid : (w.allocators a).arena.Valid := by
      rw [hrefines.arena_eq]
      exact hs.inv.arena_valid a
    refine ⟨hround, fun action w' hstep => ?_, fun k c size advised w' ht hstep => ?_⟩
    · obtain ⟨s', hstep', hrefines'⟩ := hrefines.forward hs.inv hstep
      rw [hrefines.arena_eq, hrefines'.arena_eq]
      refine (hs.inv.reservation hs.unpadded hstep' a).imp id fun hspan => ?_
      obtain ⟨k, span, hthread, happends⟩ := hspan
      refine ⟨k, span, ?_, happends⟩
      rw [hrefines'.threads_eq k, ← hthread]
      cases s'.threads k with
      | idle last => rfl
      | busy b pc => cases pc <;> rfl
    · have hcarve := carve_step hvalid ht rfl rfl hstep
      have hpos := (w.allocators a).config.classBlockSize_pos c
      unfold Arena.nextSpan Arena.reserved Arena.fittingBlocks Arena.room at hcarve
      rw [hround] at hcarve
      unfold Arena.remaining
      split at hcarve
      · rw [if_pos ‹_›]
        exact hcarve
      · rw [if_neg ‹_›]
        refine ⟨_, hcarve.1, rfl, ?_, ?_, ?_⟩
        · rw [hcarve.2]
        · exact Nat.mul_div_cancel _ hpos
        · exact Nat.mul_mod_left _ _

/-- A call whose first exchange fails for no reason, in an arena whose cursor is not aligned. -/
def sampleAlone : List (RaceAction (Fin 2)) :=
  [.load 1, .exchange 1 true, .load 1, .exchange 1 false]

theorem sampleFirstRefill_run : ((sampleSetup.world FreeList Batch).runs true
    [.allocate 0 () 10, .run 0 (true, true)]).isSome := by
  decide +kernel

theorem span_reservation_sample :
    (∃ race : ArenaRace (Fin 2), (ArenaRace.start ⟨4032, 1024, 100, 64⟩).Alone 1
        (.reserveBlockSpan 128 9) (.reserved ⟨4160, 896⟩) race ∧ race.arena.next = 1024) ∧
    ∃ w : World Unit (Fin 2) FreeList Batch, sampleSetup.Reachable w ∧
      alignUp (w.allocators ()).arena.next (w.allocators ()).arena.alignment =
        (w.allocators ()).arena.next := by
  have hnew : Arena.new ⟨1024, 64, 0, 0⟩ 4000 = .ok ⟨4032, 1024, 0, 64⟩ := by rfl
  have valid : Arena.Valid ⟨4032, 1024, 100, 64⟩ := ⟨_, _, _, hnew, rfl, by decide⟩
  obtain ⟨halone, -, -, hreachable⟩ := @span_reservation Unit (Fin 2) _ _ _ valid 128 9 7
    (by decide) (by decide) (by decide)
  constructor
  · obtain ⟨race, hrace⟩ : ∃ race, StepSystem.runs ArenaRace.step
        (.call 1 (.reserveBlockSpan 128 9) :: sampleAlone)
        (ArenaRace.start ⟨4032, 1024, 100, 64⟩) = some race :=
      Option.isSome_iff_exists.mp (by decide +kernel)
    have hthread : (StepSystem.runs ArenaRace.step
        (.call 1 (.reserveBlockSpan 128 9) :: sampleAlone)
        (ArenaRace.start ⟨4032, 1024, 100, 64⟩)).map (fun race => race.threads 1) =
          some (.idle (some (.reserved ⟨4160, 896⟩))) := by decide +kernel
    rw [hrace] at hthread
    have hcalls : ∀ action ∈ sampleAlone, ArenaRace.goesOn (1 : Fin 2) action := by
      simp [sampleAlone, ArenaRace.goesOn]
    have hcall : (ArenaRace.start ⟨4032, 1024, 100, 64⟩).Alone (1 : Fin 2)
        (.reserveBlockSpan 128 9) (.reserved ⟨4160, 896⟩) race :=
      ⟨sampleAlone, hcalls, hrace, Option.some.inj hthread⟩
    have hdone := halone _ race 1 _ rfl hcall
    rw [if_neg (by decide)] at hdone
    exact ⟨race, hcall, congrArg Arena.next hdone.2.2⟩
  · have hw : sampleSetup.Reachable (sampleSetup.after _ sampleFirstRefill_run) :=
      Setup.after_reachable sampleFirstRefill_run
    exact ⟨_, hw, (hreachable sampleSetup _ hw ()).1⟩

end Code

end Orthotope
