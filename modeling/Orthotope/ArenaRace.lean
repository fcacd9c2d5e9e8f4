import Orthotope.Arena
import Orthotope.Lib.StepSystem

/-! Reservations that race.  A call loads the cursor, computes a span from the value it has seen,
and commits it with a compare-exchange that fails when the cursor has moved, or for no reason at
all; then it starts again.  Calls of any number of threads interleave at these loads and exchanges.
A call that commits does in that moment what `Arena` does in one step, and a call that fails does so
in the moment of its last load. -/

namespace Orthotope

open StepSystem

/-- A call of one of the three reservation procedures. -/
inductive ReserveCall where
  | reserveSpan (size : Nat)
  | allocateBlock (size : Nat)
  | reserveBlockSpan (blockSize targetBlocks : Nat)
  deriving DecidableEq, Repr

/-- What a call returns: `reserved` is `Ok` with a span (its start, for `allocate_block`), `none` is
`Ok(None)` and `error` is `Err`. -/
inductive ReserveAnswer where
  | reserved (span : ReservedSpan)
  | none
  | error (e : AllocError)
  deriving DecidableEq, Repr

namespace ReserveCall

/-- The call returns before it has loaded the cursor. -/
def isZero : ReserveCall → Bool
  | reserveSpan size | allocateBlock size => size == 0
  | reserveBlockSpan blockSize targetBlocks => blockSize == 0 || targetBlocks == 0

/-- What the call computes from the cursor of `arena`: the answer, and the arena in which it has
been committed. -/
def attempt (arena : Arena) : ReserveCall → ReserveAnswer × Arena
  | reserveSpan size =>
    match arena.reserveSpan size with
    | .ok (span, arena) => (.reserved span, arena)
    | .error e => (.error e, arena)
  | allocateBlock size =>
    match arena.allocateBlock size with
    | .ok (start, arena) => (.reserved ⟨start, size⟩, arena)
    | .error e => (.error e, arena)
  | reserveBlockSpan blockSize targetBlocks =>
    match arena.reserveBlockSpan blockSize targetBlocks with
    | .ok (some span, arena) => (.reserved span, arena)
    | .ok (Option.none, arena) => (.none, arena)
    | .error e => (.error e, arena)

end ReserveCall

/-- Where a thread is: between calls, about to load the cursor, or about to exchange the value
`current` that it has loaded for `finish`, to return `span`. -/
inductive RaceThread where
  | idle (last : Option ReserveAnswer)
  | loading (call : ReserveCall)
  | exchanging (call : ReserveCall) (current finish : Nat) (span : ReservedSpan)
  deriving DecidableEq, Repr

/-- The cursor that the threads share, with the rest of the arena, and the spans returned so far. -/
structure ArenaRace (κ : Type) where
  arena : Arena
  threads : κ → RaceThread
  returned : List ReservedSpan

/-- `spurious` decides whether a compare-exchange that could succeed fails nevertheless. -/
inductive RaceAction (κ : Type) where
  | call (k : κ) (call : ReserveCall)
  | load (k : κ)
  | exchange (k : κ) (spurious : Bool)

namespace ArenaRace

variable {κ : Type} [DecidableEq κ]

def start (arena : Arena) : ArenaRace κ := ⟨arena, fun _ => .idle none, []⟩

def setThread (race : ArenaRace κ) (k : κ) (thread : RaceThread) : ArenaRace κ :=
  { race with threads := Function.update race.threads k thread }

@[simp] theorem setThread_same (race : ArenaRace κ) (k : κ) (thread : RaceThread) :
    (race.setThread k thread).threads k = thread := Function.update_self ..

theorem setThread_ne (race : ArenaRace κ) {j k : κ} (h : j ≠ k) (thread : RaceThread) :
    (race.setThread k thread).threads j = race.threads j := Function.update_of_ne h ..

def step : RaceAction κ → ArenaRace κ → Option (ArenaRace κ)
  | .call k call, race =>
    match race.threads k with
    | .idle _ => some (race.setThread k
        (if call.isZero then .idle (some (.error .zeroSize)) else .loading call))
    | _ => none
  | .load k, race =>
    match race.threads k with
    | .loading call =>
      let current := race.arena.next
      some (race.setThread k
        (match call.attempt { race.arena with next := current } with
        | (.reserved span, arena) => .exchanging call current arena.next span
        | (answer, _) => .idle (some answer)))
    | _ => none
  | .exchange k spurious, race =>
    match race.threads k with
    | .exchanging call current finish span =>
      if race.arena.next = current ∧ spurious = false then
        some { race.setThread k (.idle (some (.reserved span))) with
          arena := { race.arena with next := finish }
          returned := span :: race.returned }
      else some (race.setThread k (.loading call))
    | _ => none

end ArenaRace

/-! ### One attempt -/

namespace ReserveCall

variable {arena arena' : Arena} {call : ReserveCall} {span : ReservedSpan}

/-- An attempt that reserves nothing leaves the arena alone. -/
theorem attempt_other {answer : ReserveAnswer} (h : call.attempt arena = (answer, arena'))
    (hanswer : ∀ span, answer ≠ .reserved span) : arena' = arena := by
  cases call with
  | reserveSpan size =>
    simp only [attempt] at h
    split at h
    · exact absurd (Prod.mk.inj h).1.symm (hanswer _)
    · exact (Prod.mk.inj h).2.symm
  | allocateBlock size =>
    simp only [attempt] at h
    split at h
    · exact absurd (Prod.mk.inj h).1.symm (hanswer _)
    · exact (Prod.mk.inj h).2.symm
  | reserveBlockSpan blockSize targetBlocks =>
    simp only [attempt] at h
    split at h
    · exact absurd (Prod.mk.inj h).1.symm (hanswer _)
    · rename_i hnone
      obtain rfl := (Prod.mk.inj h).2
      exact Arena.reserveBlockSpan_none hnone
    · exact (Prod.mk.inj h).2.symm

theorem attempt_zero (h : call.isZero = true) (arena : Arena) :
    call.attempt arena = (.error .zeroSize, arena) := by
  cases call with
  | reserveSpan size =>
    have hsize : size = 0 := by simpa [isZero] using h
    simp [attempt, Arena.reserveSpan, hsize]
  | allocateBlock size =>
    have hsize : size = 0 := by simpa [isZero] using h
    simp [attempt, Arena.allocateBlock, Arena.reserveSpan, hsize]
  | reserveBlockSpan blockSize targetBlocks =>
    have hzero : blockSize = 0 ∨ targetBlocks = 0 := by simpa [isZero] using h
    simp [attempt, Arena.reserveBlockSpan, hzero]

theorem attempt_reserved (h : call.attempt arena = (.reserved span, arena')) :
    Arena.Reserves arena span arena' := by
  cases call with
  | reserveSpan size =>
    simp only [attempt] at h
    split at h
    · rename_i hr
      obtain ⟨hspan, rfl⟩ := Prod.mk.inj h
      obtain rfl := ReserveAnswer.reserved.inj hspan
      exact (Arena.reserveSpan_ok hr).1
    · cases (Prod.mk.inj h).1
  | allocateBlock size =>
    simp only [attempt] at h
    split at h
    · rename_i hr
      obtain ⟨hspan, rfl⟩ := Prod.mk.inj h
      obtain rfl := ReserveAnswer.reserved.inj hspan
      exact Arena.allocateBlock_ok hr
    · cases (Prod.mk.inj h).1
  | reserveBlockSpan blockSize targetBlocks =>
    simp only [attempt] at h
    split at h
    · rename_i hr
      obtain ⟨hspan, rfl⟩ := Prod.mk.inj h
      obtain rfl := ReserveAnswer.reserved.inj hspan
      exact (Arena.reserveBlockSpan_ok hr).1
    · cases (Prod.mk.inj h).1
    · cases (Prod.mk.inj h).1

end ReserveCall

/-! ### Races -/

namespace RaceThread

/-- The call in progress. -/
def pending : RaceThread → Option ReserveCall
  | idle _ => none
  | loading call | exchanging call _ _ _ => some call

end RaceThread

def RaceAction.thread {κ : Type} : RaceAction κ → κ
  | call k _ | load k | exchange k _ => k

namespace ArenaRace

variable {κ : Type} [DecidableEq κ] {arena : Arena} {race race' : ArenaRace κ}

/-- `arena` is the arena in which no call has been made yet. -/
structure Inv (arena : Arena) (race : ArenaRace κ) : Prop where
  arena_eq : race.arena = { arena with next := race.arena.next }
  next_le : race.arena.next ≤ arena.len
  placed : ∀ span ∈ race.returned, arena.alignment ∣ span.start ∧ arena.base ≤ span.start ∧
    span.start + span.size ≤ arena.base + race.arena.next
  apart : race.returned.Pairwise fun span earlier => earlier.start + earlier.size ≤ span.start
  recorded : ∀ k span, race.threads k = .idle (some (.reserved span)) → span ∈ race.returned
  attempted : ∀ k call current finish span, race.threads k = .exchanging call current finish span →
    call.attempt { arena with next := current } =
      (.reserved span, { arena with next := finish })

/-- What an action does. -/
inductive Moves (race : ArenaRace κ) : RaceAction κ → ArenaRace κ → Prop
  | refuse {k : κ} {call : ReserveCall} (hzero : call.isZero = true) :
      Moves race (.call k call) (race.setThread k (.idle (some (.error .zeroSize))))
  | start {k : κ} {call : ReserveCall} : Moves race (.call k call)
    (race.setThread k (.loading call))
  | load {k : κ} {call : ReserveCall} {span : ReservedSpan} {arena' : Arena}
      (ht : race.threads k = .loading call)
      (h : call.attempt race.arena = (.reserved span, arena')) :
      Moves race (.load k)
        (race.setThread k (.exchanging call race.arena.next arena'.next span))
  | fail {k : κ} {call : ReserveCall} {answer : ReserveAnswer} {arena' : Arena}
      (ht : race.threads k = .loading call) (h : call.attempt race.arena = (answer, arena'))
      (hanswer : ∀ span, answer ≠ .reserved span) :
      Moves race (.load k) (race.setThread k (.idle (some answer)))
  | commit {k : κ} {spurious : Bool} {call : ReserveCall} {finish : Nat} {span : ReservedSpan}
      (ht : race.threads k = .exchanging call race.arena.next finish span) :
      Moves race (.exchange k spurious)
        { race.setThread k (.idle (some (.reserved span))) with
          arena := { race.arena with next := finish }
          returned := span :: race.returned }
  | retry {k : κ} {spurious : Bool} {call : ReserveCall} {current finish : Nat}
      {span : ReservedSpan} (ht : race.threads k = .exchanging call current finish span) :
      Moves race (.exchange k spurious) (race.setThread k (.loading call))

theorem step_moves {action : RaceAction κ} (h : step action race = some race') :
    Moves race action race' := by
  cases action with
  | call k call =>
    simp only [step] at h
    split at h
    · split at h <;> obtain rfl := Option.some.inj h
      · exact .refuse ‹_›
      · exact .start
    · cases h
  | load k =>
    simp only [step] at h
    split at h
    · rename_i call ht
      split at h <;> obtain rfl := Option.some.inj h
      · rename_i hattempt
        exact .load ht hattempt
      · rename_i answer arena' hanswer hattempt
        exact .fail ht hattempt hanswer
    · cases h
  | exchange k spurious =>
    simp only [step] at h
    split at h
    · rename_i call current finish span ht
      split at h <;> obtain rfl := Option.some.inj h
      · rename_i hnext
        exact .commit (hnext.1 ▸ ht)
      · exact .retry ht
    · cases h

omit [DecidableEq κ] in
theorem Inv.start {config : AllocatorConfig} {mapping : Nat}
    (hnew : Arena.new config mapping = .ok arena) :
    Inv arena (ArenaRace.start (κ := κ) arena) := by
  obtain ⟨-, -, -, -, -, -, hnext, -⟩ := Arena.new_spec hnew
  refine ⟨rfl, ?_, nofun, List.Pairwise.nil, nofun, nofun⟩
  show arena.next ≤ arena.len
  omega

/-- A thread moves without a change of the cursor. -/
theorem Inv.setThread (inv : Inv arena race) {k : κ} {thread : RaceThread}
    (hidle : ∀ span, thread ≠ .idle (some (.reserved span)))
    (hexchange : ∀ call current finish span, thread = .exchanging call current finish span →
      call.attempt { arena with next := current } =
        (.reserved span, { arena with next := finish })) :
    Inv arena (race.setThread k thread) where
  arena_eq := inv.arena_eq
  next_le := inv.next_le
  placed := inv.placed
  apart := inv.apart
  recorded := fun j span ht => by
    by_cases hj : j = k
    · subst hj
      rw [setThread_same] at ht
      exact absurd ht (hidle span)
    · rw [setThread_ne _ hj] at ht
      exact inv.recorded j span ht
  attempted := fun j call current finish span ht => by
    by_cases hj : j = k
    · subst hj
      rw [setThread_same] at ht
      exact hexchange call current finish span ht
    · rw [setThread_ne _ hj] at ht
      exact inv.attempted j call current finish span ht

theorem Inv.commit (inv : Inv arena race) (hdvd : arena.alignment ∣ arena.base)
    (hpos : 0 < arena.alignment) {k : κ} {call : ReserveCall} {finish : Nat} {span : ReservedSpan}
    (ht : race.threads k = .exchanging call race.arena.next finish span) :
    Inv arena { race.setThread k (.idle (some (.reserved span))) with
      arena := { race.arena with next := finish }
      returned := span :: race.returned } := by
  have hreserves := ReserveCall.attempt_reserved (inv.attempted k call _ finish span ht)
  have hstart := hreserves.start_eq
  have hfits := hreserves.fits
  have hfinish : finish = alignUp race.arena.next arena.alignment + span.size :=
    congrArg Arena.next hreserves.next_eq
  have hle := le_alignUp race.arena.next arena.alignment
  have hround : arena.alignment ∣ alignUp race.arena.next arena.alignment := dvd_alignUp hpos
  simp only at hstart hfits
  refine ⟨?_, ?_, ?_, ?_, ?_, ?_⟩
  · show { race.arena with next := finish } = { arena with next := finish }
    rw [inv.arena_eq]
  · show finish ≤ arena.len
    omega
  · intro earlier hmem
    show _ ∧ _ ∧ earlier.start + earlier.size ≤ arena.base + finish
    rcases List.mem_cons.mp hmem with rfl | hmem
    · refine ⟨?_, ?_, ?_⟩
      · rw [hstart]
        exact Nat.dvd_add hdvd hround
      · omega
      · omega
    · obtain ⟨h1, h2, h3⟩ := inv.placed earlier hmem
      exact ⟨h1, h2, by omega⟩
  · refine List.pairwise_cons.mpr ⟨fun earlier hmem => ?_, inv.apart⟩
    have := (inv.placed earlier hmem).2.2
    omega
  · intro j other hj
    by_cases hjk : j = k
    · subst hjk
      rw [setThread_same] at hj
      obtain rfl : span = other := by simpa using hj
      exact List.mem_cons_self
    · rw [setThread_ne _ hjk] at hj
      exact List.mem_cons_of_mem _ (inv.recorded j other hj)
  · intro j call' current finish' span' hj
    by_cases hjk : j = k
    · subst hjk
      simp at hj
    · rw [setThread_ne _ hjk] at hj
      exact inv.attempted j call' current finish' span' hj

theorem Inv.step (inv : Inv arena race) (hdvd : arena.alignment ∣ arena.base)
    (hpos : 0 < arena.alignment) {action : RaceAction κ}
    (h : ArenaRace.step action race = some race') : Inv arena race' := by
  cases step_moves h with
  | refuse _ => exact inv.setThread nofun nofun
  | start => exact inv.setThread nofun nofun
  | @load k call span arena' ht hattempt =>
    refine inv.setThread nofun fun call' current finish span' heq => ?_
    obtain ⟨rfl, rfl, rfl, rfl⟩ := RaceThread.exchanging.inj heq
    have hnext := (ReserveCall.attempt_reserved hattempt).next_eq
    rw [← inv.arena_eq, hattempt, hnext, inv.arena_eq]
  | fail ht _ hanswer =>
    exact inv.setThread (fun span heq => hanswer span (by simpa using heq)) nofun
  | commit ht => exact inv.commit hdvd hpos ht
  | retry ht => exact inv.setThread nofun nofun

/-- A step never moves the cursor back. -/
theorem Inv.next_mono (inv : Inv arena race) {action : RaceAction κ}
    (h : ArenaRace.step action race = some race') : race.arena.next ≤ race'.arena.next := by
  cases step_moves h with
  | @commit k spurious call finish span ht =>
    have hreserves := ReserveCall.attempt_reserved (inv.attempted _ _ _ _ _ ht)
    have hfinish : finish = alignUp race.arena.next arena.alignment + span.size :=
      congrArg Arena.next hreserves.next_eq
    have hle := le_alignUp race.arena.next arena.alignment
    show race.arena.next ≤ finish
    omega
  | _ => exact le_refl _

/-- A step that moves the cursor returns a span. -/
theorem returns_of_next_ne {action : RaceAction κ} (h : ArenaRace.step action race = some race')
    (hne : race'.arena.next ≠ race.arena.next) :
    ∃ span, race'.threads action.thread = .idle (some (.reserved span)) := by
  cases step_moves h with
  | @commit k spurious call finish span ht =>
    exact ⟨span, Function.update_self ..⟩
  | _ => exact absurd rfl hne

/-- A thread that makes no call stays between calls. -/
theorem idle_step {k : κ} {last : Option ReserveAnswer} {action : RaceAction κ}
    (hcall : ∀ call, action ≠ .call k call) (ht : race.threads k = .idle last)
    (h : ArenaRace.step action race = some race') : race'.threads k = .idle last := by
  by_cases hk : action.thread = k
  · subst hk
    cases step_moves h with
    | refuse _ => exact absurd rfl (hcall _)
    | start => exact absurd rfl (hcall _)
    | load hl _ => cases hl.symm.trans ht
    | fail hl _ _ => cases hl.symm.trans ht
    | commit he => cases he.symm.trans ht
    | retry he => cases he.symm.trans ht
  · cases step_moves h with
    | _ => exact (Function.update_of_ne (Ne.symm hk) ..).trans ht

/-- Every call returns what the same procedure of `Arena` returns in the step in which it returns,
and the cursor moves as it does there. -/
theorem Inv.answers (inv : Inv arena race) {action : RaceAction κ}
    (h : ArenaRace.step action race = some race') {answer : ReserveAnswer}
    (hanswer : race'.threads action.thread = .idle (some answer)) :
    ∃ call, (action = .call action.thread call ∨
        (race.threads action.thread).pending = some call) ∧
      call.attempt race.arena = (answer, race'.arena) := by
  cases step_moves h with
  | @refuse k call hzero =>
    refine ⟨call, Or.inl rfl, ?_⟩
    obtain rfl : .error .zeroSize = answer := by simpa [RaceAction.thread] using hanswer
    exact ReserveCall.attempt_zero hzero race.arena
  | start => simp [RaceAction.thread] at hanswer
  | load ht hattempt => simp [RaceAction.thread] at hanswer
  | @fail k call answer' arena' ht hattempt hother =>
    obtain rfl : answer' = answer := by simpa [RaceAction.thread] using hanswer
    obtain rfl := ReserveCall.attempt_other hattempt hother
    exact ⟨call, Or.inr (by simp [RaceAction.thread, ht, RaceThread.pending]), hattempt⟩
  | @commit k spurious call finish span ht =>
    obtain rfl : .reserved span = answer := by simpa [RaceAction.thread] using hanswer
    refine ⟨call, Or.inr (by simp [RaceAction.thread, ht, RaceThread.pending]), ?_⟩
    have hattempt := inv.attempted k call _ finish span ht
    rw [← inv.arena_eq] at hattempt
    rw [hattempt, inv.arena_eq]
  | retry ht => simp [RaceAction.thread] at hanswer

/-! ### A call alone -/

/-- `k` goes on with a call that it has started. -/
def goesOn (k : κ) : RaceAction κ → Prop
  | .load j | .exchange j _ => j = k
  | .call _ _ => False

/-- Thread `k` makes `call` and nobody else acts until it has returned `answer`, in `race'`. -/
def Alone (race : ArenaRace κ) (k : κ) (call : ReserveCall) (answer : ReserveAnswer)
    (race' : ArenaRace κ) : Prop :=
  ∃ actions, (∀ action ∈ actions, goesOn k action) ∧
    runs ArenaRace.step (.call k call :: actions) race = some race' ∧
      race'.threads k = .idle (some answer)

/-- How far `k` has come alone with a call that it started when the arena was `arena`. -/
inductive Halfway (arena : Arena) (k : κ) (call : ReserveCall) (race : ArenaRace κ) : Prop
  | loading (harena : race.arena = arena) (ht : race.threads k = .loading call)
  | exchanging {finish : Nat} {span : ReservedSpan} (harena : race.arena = arena)
      (ht : race.threads k = .exchanging call arena.next finish span)
      (h : call.attempt arena = (.reserved span, { arena with next := finish }))
  | returned {answer : ReserveAnswer} (ht : race.threads k = .idle (some answer))
      (h : call.attempt arena = (answer, race.arena))

theorem Halfway.step {k : κ} {call : ReserveCall} (h : Halfway arena k call race)
    {action : RaceAction κ} (hk : goesOn k action)
    (hstep : ArenaRace.step action race = some race') : Halfway arena k call race' := by
  cases step_moves hstep with
  | refuse _ => exact hk.elim
  | start => exact hk.elim
  | @load j call' span arena' ht hattempt =>
    obtain rfl : j = k := hk
    cases h with
    | loading harena ht' =>
      obtain rfl := RaceThread.loading.inj (ht.symm.trans ht')
      subst harena
      refine .exchanging rfl (setThread_same ..) ?_
      rw [hattempt, (ReserveCall.attempt_reserved hattempt).next_eq]
    | exchanging harena ht' _ => cases ht.symm.trans ht'
    | returned ht' _ => cases ht.symm.trans ht'
  | @fail j call' answer arena' ht hattempt hanswer =>
    obtain rfl : j = k := hk
    cases h with
    | loading harena ht' =>
      obtain rfl := RaceThread.loading.inj (ht.symm.trans ht')
      subst harena
      refine .returned (setThread_same ..) ?_
      rw [hattempt, ReserveCall.attempt_other hattempt hanswer]
      rfl
    | exchanging harena ht' _ => cases ht.symm.trans ht'
    | returned ht' _ => cases ht.symm.trans ht'
  | @commit j spurious call' finish span ht =>
    obtain rfl : j = k := hk
    cases h with
    | loading harena ht' => cases ht.symm.trans ht'
    | exchanging harena ht' hattempt =>
      obtain ⟨rfl, -, rfl, rfl⟩ := RaceThread.exchanging.inj (ht.symm.trans ht')
      subst harena
      exact .returned (Function.update_self ..) hattempt
    | returned ht' _ => cases ht.symm.trans ht'
  | @retry j spurious call' current finish span ht =>
    obtain rfl : j = k := hk
    cases h with
    | loading harena ht' => cases ht.symm.trans ht'
    | exchanging harena ht' _ =>
      obtain ⟨rfl, -, -, -⟩ := RaceThread.exchanging.inj (ht.symm.trans ht')
      exact .loading harena (setThread_same ..)
    | returned ht' _ => cases ht.symm.trans ht'

/-- However often the exchange fails for no reason, a call alone does in the end what the procedure
of `Arena` does. -/
theorem Alone.attempt_eq {k : κ} {call : ReserveCall} {answer : ReserveAnswer}
    (h : race.Alone k call answer race') : call.attempt race.arena = (answer, race'.arena) := by
  obtain ⟨actions, honly, hruns, ht⟩ := h
  obtain ⟨race₁, hstart, hrest⟩ := Option.bind_eq_some_iff.mp hruns
  have hhalf : Halfway race.arena k call race₁ := by
    cases step_moves hstart with
    | refuse hzero => exact .returned (setThread_same ..) (ReserveCall.attempt_zero hzero _)
    | start => exact .loading rfl (setThread_same ..)
  have hend := runs_invariant hrest hhalf fun action hmem _ _ hhalf hstep =>
    hhalf.step (honly action hmem) hstep
  cases hend with
  | loading _ ht' => cases ht.symm.trans ht'
  | exchanging _ ht' _ => cases ht.symm.trans ht'
  | returned ht' hattempt =>
    obtain rfl : answer = _ := Option.some.inj (RaceThread.idle.inj (ht.symm.trans ht'))
    exact hattempt

theorem step_load {k : κ} {call : ReserveCall} (ht : race.threads k = .loading call) :
    ArenaRace.step (.load k) race = some (race.setThread k
      (match call.attempt race.arena with
      | (.reserved span, arena) => .exchanging call race.arena.next arena.next span
      | (answer, _) => .idle (some answer))) := by
  simp only [ArenaRace.step, ht]

/-- A call alone can return, from any state. -/
theorem exists_alone {k : κ} {last : Option ReserveAnswer} (hidle : race.threads k = .idle last)
    (call : ReserveCall) : ∃ answer race', race.Alone k call answer race' := by
  have hstart : ArenaRace.step (.call k call) race = some (race.setThread k
      (if call.isZero then .idle (some (.error .zeroSize)) else .loading call)) := by
    simp only [ArenaRace.step, hidle]
  cases hzero : call.isZero with
  | true =>
    rw [hzero] at hstart
    exact ⟨_, _, [], by simp, runs_cons hstart, setThread_same ..⟩
  | false =>
    rw [hzero] at hstart
    obtain ⟨race₁, hrace₁⟩ : ∃ race₁, race₁ = race.setThread k (.loading call) := ⟨_, rfl⟩
    have hstart : ArenaRace.step (.call k call) race = some race₁ := by
      rw [hrace₁]
      exact hstart
    have ht : race₁.threads k = .loading call := by
      rw [hrace₁]
      exact setThread_same ..
    have hload := step_load ht
    obtain ⟨r, hr⟩ : ∃ r, r = call.attempt race₁.arena := ⟨_, rfl⟩
    rw [← hr] at hload
    obtain ⟨answer, arena'⟩ := r
    cases answer with
    | reserved span =>
      have hexchange : ArenaRace.step (.exchange k false) (race₁.setThread k
          (.exchanging call race₁.arena.next arena'.next span)) =
          some { race₁.setThread k (.exchanging call race₁.arena.next arena'.next span) |>.setThread
              k (.idle (some (.reserved span))) with
            arena := { race₁.arena with next := arena'.next }
            returned := span :: race₁.returned } := by
        simp only [ArenaRace.step, setThread_same]
        exact if_pos ⟨rfl, trivial⟩
      exact ⟨_, _, [.load k, .exchange k false], by simp [goesOn],
        (runs_cons hstart).trans ((runs_cons hload).trans (runs_cons hexchange)),
        Function.update_self ..⟩
    | none =>
      exact ⟨_, _, [.load k], by simp [goesOn], (runs_cons hstart).trans (runs_cons hload),
        setThread_same ..⟩
    | error e =>
      exact ⟨_, _, [.load k], by simp [goesOn], (runs_cons hstart).trans (runs_cons hload),
        setThread_same ..⟩

section Runs

variable {config : AllocatorConfig} {mapping : Nat}

theorem reaches_inv (hnew : Arena.new config mapping = .ok arena)
    (h : Reaches ArenaRace.step (ArenaRace.start arena) race) : Inv arena race := by
  obtain ⟨hpos, -, -, -, hbase, -, -, hal⟩ := Arena.new_spec hnew
  have hdvd : arena.alignment ∣ arena.base := by
    rw [hal, hbase]
    exact dvd_alignUp hpos
  exact h.invariant (Inv.start hnew) fun action _ _ inv hstep => inv.step hdvd (by omega) hstep

/-- A call that returned no span has not moved the cursor. -/
theorem failed_call {k : κ} {call : ReserveCall} {actions : List (RaceAction κ)}
    (honly : ∀ c, .call k c ∉ actions)
    (hruns : runs ArenaRace.step (.call k call :: actions) race = some race')
    {answer : ReserveAnswer} (ht : race'.threads k = .idle (some answer))
    (hanswer : ∀ span, answer ≠ .reserved span) {before after : List (RaceAction κ)}
    {action : RaceAction κ} (hsplit : .call k call :: actions = before ++ action :: after)
    (hk : action.thread = k) {race₁ race₂ : ArenaRace κ}
    (hbefore : runs ArenaRace.step before race = some race₁)
    (hstep : ArenaRace.step action race₁ = some race₂) :
    race₂.arena.next = race₁.arena.next := by
  by_contra hne
  obtain ⟨span, hspan⟩ := returns_of_next_ne hstep hne
  rw [hk] at hspan
  -- the thread is idle from this step on, so the call has returned the span
  have hafter : ∀ c, .call k c ∉ after := by
    intro c hc
    cases before with
    | nil =>
      obtain ⟨-, rfl⟩ := List.cons.inj hsplit
      exact honly c hc
    | cons b before =>
      obtain ⟨-, rfl⟩ := List.cons.inj hsplit
      exact honly c (by simp [hc])
  have hrest : runs ArenaRace.step after race₂ = some race' := by
    rw [hsplit, runs_append, hbefore] at hruns
    simpa [runs, hstep] using hruns
  have hidle : race'.threads k = .idle (some (.reserved span)) :=
    runs_invariant (I := fun race : ArenaRace κ => race.threads k = .idle (some (.reserved span)))
      hrest hspan fun a ha _ _ hi hs => idle_step (fun c hc => hafter c (hc ▸ ha)) hi hs
  rw [hidle] at ht
  obtain rfl : .reserved span = answer := by simpa using ht
  exact hanswer span rfl

/-- However the loads and exchanges of any number of calls interleave, the spans that they return
are aligned, lie in the arena and are disjoint; the cursor only grows, up to the size of the arena,
and not in a call that fails; and in no state has a call to round it that would overflow, or an
error to return from `reserve_block_span` with arguments that are not zero. -/
theorem reservations (hnew : Arena.new config mapping = .ok arena)
    (h : Reaches ArenaRace.step (ArenaRace.start arena) race) :
    (∀ k span, race.threads k = .idle (some (.reserved span)) → span ∈ race.returned) ∧
    (∀ span ∈ race.returned, config.alignment ∣ span.start ∧ arena.base ≤ span.start ∧
      span.start + span.size ≤ arena.base + arena.len) ∧
    (race.returned.Pairwise fun span span' =>
      span.start + span.size ≤ span'.start ∨ span'.start + span'.size ≤ span.start) ∧
    race.arena.next ≤ arena.len ∧
    (∀ actions race', runs ArenaRace.step actions race = some race' →
      race.arena.next ≤ race'.arena.next) ∧
    (∀ k call actions race' answer, (∀ c, .call k c ∉ actions) →
      runs ArenaRace.step (.call k call :: actions) race = some race' →
      race'.threads k = .idle (some answer) → (∀ span, answer ≠ .reserved span) →
      ∀ before action after race₁ race₂, .call k call :: actions = before ++ action :: after →
        action.thread = k → runs ArenaRace.step before race = some race₁ →
        ArenaRace.step action race₁ = some race₂ → race₂.arena.next = race₁.arena.next) ∧
    alignUpChecked race.arena.next race.arena.alignment ≠ none ∧
    ∀ blockSize targetBlocks, 0 < blockSize → 0 < targetBlocks →
      ∃ answer, race.arena.reserveBlockSpan blockSize targetBlocks = .ok answer := by
  obtain ⟨-, -, -, -, -, -, -, hal⟩ := Arena.new_spec hnew
  have inv := reaches_inv hnew h
  have harena : race.arena.alignment = arena.alignment := by rw [inv.arena_eq]
  refine ⟨inv.recorded, fun span hspan => ?_, inv.apart.imp Or.inr, inv.next_le,
    fun actions race' hruns => ?_,
    fun k call actions race' answer honly hruns ht hanswer before action
      after race₁ race₂ hsplit hk hbefore hstep =>
        failed_call honly hruns ht hanswer hsplit hk hbefore hstep, ?_,
    fun blockSize targetBlocks hsize htarget => ?_⟩
  · obtain ⟨h1, h2, h3⟩ := inv.placed span hspan
    have hnext := inv.next_le
    exact ⟨hal ▸ h1, h2, by omega⟩
  · have hreach := reaches_runs hruns
    clear hruns
    induction hreach with
    | refl => exact le_refl _
    | step action hr hstep ih =>
      exact ih.trans ((reaches_inv hnew (h.trans hr)).next_mono hstep)
  · rw [harena, Arena.alignUpChecked_next hnew inv.next_le]
    simp
  · rw [inv.arena_eq]
    exact (Arena.reserveBlockSpan_total hnew inv.next_le hsize htarget).imp fun _ h => h.1

/-- Two threads race: the first exchange of the second one fails because the cursor has moved, and
the next one spuriously. -/
def sampleRace : List (RaceAction (Fin 2)) :=
  [.call 0 (.reserveSpan 100), .call 1 (.reserveBlockSpan 128 4), .load 0, .load 1,
    .exchange 0 false, .exchange 1 false, .load 1, .exchange 1 true, .load 1, .exchange 1 false]

theorem reservations_sample : ∃ arena race, Arena.new ⟨1024, 64, 0, 0⟩ 4000 = .ok arena ∧
    runs ArenaRace.step sampleRace (ArenaRace.start arena) = some race ∧
    race.returned = [⟨4160, 512⟩, ⟨4032, 100⟩] ∧ race.arena.next ≤ arena.len := by
  obtain ⟨race, hrace⟩ : ∃ race, runs ArenaRace.step sampleRace
      (ArenaRace.start ⟨4032, 1024, 0, 64⟩) = some race :=
    Option.isSome_iff_exists.mp (by decide +kernel)
  have hnew : Arena.new ⟨1024, 64, 0, 0⟩ 4000 = .ok ⟨4032, 1024, 0, 64⟩ := by rfl
  refine ⟨_, race, hnew, hrace, ?_, (reservations hnew (reaches_runs hrace)).2.2.2.1⟩
  have hreturned : (runs ArenaRace.step sampleRace
      (ArenaRace.start ⟨4032, 1024, 0, 64⟩)).map ArenaRace.returned =
        some [⟨4160, 512⟩, ⟨4032, 100⟩] := by decide +kernel
  rw [hrace] at hreturned
  exact Option.some.inj hreturned

end Runs

end ArenaRace

end Orthotope
