import Orthotope.ArenaRace
import Orthotope.Lib.Linearization

/-! Progress and order of reservations that race.  A call goes round its loop again only when
another call has returned a span since its last load, or when its exchange has failed for no reason.
 Every span takes a step of the alignment off the arena, so a call is overtaken a bounded number of
times. And the calls return what the procedures of `Arena` return one after the other. -/

namespace Orthotope

open StepSystem Linearization

/-- A load or an exchange of `k`. -/
def RaceAction.movesOf {κ : Type} [DecidableEq κ] (k : κ) : RaceAction κ → Bool
  | call _ _ => false
  | load j | exchange j _ => j = k

/-- An exchange of `k` that fails whatever the cursor is. -/
def RaceAction.spuriousOf {κ : Type} [DecidableEq κ] (k : κ) : RaceAction κ → Bool
  | call _ _ | load _ => false
  | exchange j spurious => j = k && spurious

namespace RaceThread

/-- The steps that a call has left if the cursor moves no more.  When it has returned a span, they
are two, since its own span counts among those returned. -/
def stepsLeft (next : Nat) : RaceThread → Nat
  | idle (some (.reserved _)) => 2
  | idle _ => 0
  | loading _ => 2
  | exchanging _ current _ _ => if current = next then 1 else 3

/-- The number of spans that the last call has returned. -/
def spans : RaceThread → Nat
  | idle (some (.reserved _)) => 1
  | _ => 0

variable {next next' : Nat}

theorem stepsLeft_le (thread : RaceThread) :
    thread.stepsLeft next' ≤ thread.stepsLeft next + 2 := by
  cases thread with
  | idle last =>
    have heq : (idle last).stepsLeft next' = (idle last).stepsLeft next := by
      rcases last with _ | answer
      · rfl
      · cases answer <;> rfl
    rw [heq]
    exact Nat.le_add_right _ 2
  | loading call => exact Nat.le_add_right _ 2
  | exchanging call current finish span =>
    simp only [stepsLeft]
    split <;> split <;> omega

theorem stepsLeft_idle {answer : ReserveAnswer} (h : ∀ span, answer ≠ .reserved span) :
    (idle (some answer)).stepsLeft next = 0 := by
  cases answer with
  | reserved span => exact absurd rfl (h span)
  | none => rfl
  | error e => rfl

theorem spans_le (next : Nat) (thread : RaceThread) : 2 * thread.spans ≤ thread.stepsLeft next := by
  unfold spans
  split
  · exact Nat.le_refl _
  · exact Nat.zero_le _

end RaceThread

namespace ArenaRace

variable {κ : Type} [DecidableEq κ] {arena : Arena} {race race' : ArenaRace κ} {k : κ}

/-- What the call of `k` has left. -/
def stepsLeft (k : κ) (race : ArenaRace κ) : Nat := (race.threads k).stepsLeft race.arena.next

@[simp] theorem stepsLeft_setThread (race : ArenaRace κ) (k : κ) (thread : RaceThread) :
    (race.setThread k thread).stepsLeft k = thread.stepsLeft race.arena.next := by
  rw [stepsLeft, setThread_same]
  rfl

theorem stepsLeft_setThread_ne (race : ArenaRace κ) {j k : κ} (h : j ≠ k) (thread : RaceThread) :
    (race.setThread k thread).stepsLeft j = race.stepsLeft j := by
  rw [stepsLeft, setThread_ne race h]
  rfl

@[simp] theorem returned_setThread (race : ArenaRace κ) (k : κ) (thread : RaceThread) :
    (race.setThread k thread).returned = race.returned := rfl

/-- An exchange that fails has been overtaken, or fails for no reason. -/
theorem retry_cause {spurious : Bool} {call : ReserveCall}
    {current finish : Nat} {span : ReservedSpan}
    (ht : race.threads k = .exchanging call current finish span)
    (h : ArenaRace.step (.exchange k spurious) race = some (race.setThread k (.loading call))) :
    current ≠ race.arena.next ∨ spurious = true := by
  by_contra hnot
  obtain ⟨hcurrent, hspurious⟩ := not_or.mp hnot
  simp only [ArenaRace.step, ht] at h
  rw [if_pos ⟨(not_not.mp hcurrent).symm, Bool.not_eq_true _ ▸ hspurious⟩] at h
  have hthread := congrArg (fun race => race.threads k) (Option.some.inj h)
  simp at hthread

/-- What a step does to the steps that the call of `k` has left: its own steps use them up, and a
span that is returned or an exchange that fails for no reason adds two. -/
theorem step_stepsLeft {action : RaceAction κ} (hcall : ∀ call, action ≠ .call k call)
    (h : ArenaRace.step action race = some race') :
    (if action.movesOf k then 1 else 0) + race'.stepsLeft k + 2 * race.returned.length ≤
      race.stepsLeft k + 2 * race'.returned.length +
        2 * (if action.spuriousOf k then 1 else 0) := by
  have hthread : ∀ {thread}, race.threads k = thread →
      race.stepsLeft k = thread.stepsLeft race.arena.next := fun ht => ht ▸ rfl
  cases step_moves h with
  | @refuse j call hzero =>
    have hj : k ≠ j := fun hj => hcall call (hj ▸ rfl)
    simp [stepsLeft_setThread_ne race hj, RaceAction.movesOf]
  | @start j call =>
    have hj : k ≠ j := fun hj => hcall call (hj ▸ rfl)
    simp [stepsLeft_setThread_ne race hj, RaceAction.movesOf]
  | @load j call span arena' ht hattempt =>
    by_cases hj : k = j
    · subst hj
      simp [hthread ht, RaceAction.movesOf, RaceThread.stepsLeft]
    · simp [stepsLeft_setThread_ne race hj, RaceAction.movesOf, Ne.symm hj]
  | @fail j call answer arena' ht hattempt hanswer =>
    by_cases hj : k = j
    · subst hj
      rw [stepsLeft_setThread, RaceThread.stepsLeft_idle hanswer, hthread ht]
      simp [RaceAction.movesOf, RaceAction.spuriousOf, RaceThread.stepsLeft]
    · simp [stepsLeft_setThread_ne race hj, RaceAction.movesOf, Ne.symm hj]
  | @commit j spurious call finish span ht =>
    by_cases hj : k = j
    · subst hj
      have hleft : stepsLeft k { race.setThread k (.idle (some (.reserved span))) with
          arena := { race.arena with next := finish }
          returned := span :: race.returned } = 2 := by simp [stepsLeft, RaceThread.stepsLeft]
      rw [hleft, hthread ht]
      simp [RaceAction.movesOf, RaceThread.stepsLeft]
      omega
    · have hleft : stepsLeft k { race.setThread j (.idle (some (.reserved span))) with
          arena := { race.arena with next := finish }
          returned := span :: race.returned } = (race.threads k).stepsLeft finish := by
        simp [stepsLeft, setThread_ne race hj]
      have hle : (race.threads k).stepsLeft finish ≤ race.stepsLeft k + 2 :=
        RaceThread.stepsLeft_le _
      rw [hleft]
      simp [RaceAction.movesOf, Ne.symm hj]
      omega
  | @retry j spurious call current finish span ht =>
    by_cases hj : k = j
    · subst hj
      rw [stepsLeft_setThread, hthread ht]
      rcases retry_cause ht h with hcurrent | rfl
      · simp [RaceAction.movesOf, RaceThread.stepsLeft, hcurrent]
      · have hpos : 1 ≤ (RaceThread.exchanging call current finish span).stepsLeft
            race.arena.next := by
          simp only [RaceThread.stepsLeft]
          split <;> omega
        have hloading : (RaceThread.loading call).stepsLeft race.arena.next = 2 := rfl
        simp [RaceAction.movesOf, RaceAction.spuriousOf, hloading]
        omega
    · simp [stepsLeft_setThread_ne race hj, RaceAction.movesOf, Ne.symm hj]

/-- Each span that is returned takes a step of the alignment off the arena. -/
theorem Inv.step_spans (inv : Inv arena race) (hpos : 0 < arena.alignment) {action : RaceAction κ}
    (h : ArenaRace.step action race = some race') :
    alignUp race.arena.next arena.alignment + race'.returned.length * arena.alignment ≤
      alignUp race'.arena.next arena.alignment + race.returned.length * arena.alignment := by
  cases step_moves h with
  | @commit j spurious call finish span ht =>
    have hreserves := ReserveCall.attempt_reserved (inv.attempted _ _ _ _ _ ht)
    have hfinish : finish = alignUp race.arena.next arena.alignment + span.size :=
      congrArg Arena.next hreserves.next_eq
    have hspan := hreserves.pos
    have hround : arena.alignment ∣ alignUp race.arena.next arena.alignment := dvd_alignUp hpos
    have hgap : alignUp race.arena.next arena.alignment + arena.alignment ≤
        alignUp finish arena.alignment := by
      obtain ⟨i, hi⟩ := hround
      obtain ⟨j, hj⟩ : arena.alignment ∣ alignUp finish arena.alignment := dvd_alignUp hpos
      have hle := le_alignUp finish arena.alignment
      have hij : arena.alignment * i < arena.alignment * j := by omega
      rw [hi, hj, ← Nat.mul_succ]
      exact Nat.mul_le_mul_left _ (Nat.lt_of_mul_lt_mul_left hij)
    show _ + (race.returned.length + 1) * _ ≤ alignUp finish _ + _
    rw [Nat.succ_mul]
    omega
  | _ => exact Nat.le_refl _

/-- A span that the call of `k` has returned is one of those returned since it began. -/
theorem step_returned {n : Nat} {action : RaceAction κ} (hcall : ∀ call, action ≠ .call k call)
    (h : ArenaRace.step action race = some race')
    (hn : n + (race.threads k).spans ≤ race.returned.length ∧ race.threads k ≠ .idle none) :
    n + (race'.threads k).spans ≤ race'.returned.length ∧ race'.threads k ≠ .idle none := by
  obtain ⟨hle, hne⟩ := hn
  by_cases hk : action.thread = k
  · subst hk
    cases step_moves h with
    | refuse _ => exact absurd rfl (hcall _)
    | start => exact absurd rfl (hcall _)
    | load ht hattempt =>
      refine ⟨?_, by simp [RaceAction.thread]⟩
      simp only [RaceAction.thread, setThread_same, RaceThread.spans, returned_setThread]
      omega
    | @fail k call answer arena' ht hattempt hanswer =>
      refine ⟨?_, by simp [RaceAction.thread]⟩
      have hspans := RaceThread.spans_le 0 (.idle (some answer))
      rw [RaceThread.stepsLeft_idle hanswer] at hspans
      simp only [RaceAction.thread, setThread_same, returned_setThread]
      omega
    | @commit k spurious call finish span ht =>
      refine ⟨?_, by simp [RaceAction.thread]⟩
      simp only [RaceAction.thread, setThread_same, RaceThread.spans, List.length_cons]
      omega
    | retry ht =>
      refine ⟨?_, by simp [RaceAction.thread]⟩
      simp only [RaceAction.thread, setThread_same, RaceThread.spans, returned_setThread]
      omega
  · have hthread : race'.threads k = race.threads k := by
      cases step_moves h with
      | _ => exact Function.update_of_ne (Ne.symm hk) ..
    have hreturned : race.returned.length ≤ race'.returned.length := by
      cases step_moves h with
      | commit ht => exact Nat.le_succ _
      | _ => exact Nat.le_refl _
    rw [hthread]
    exact ⟨hle.trans hreturned, hne⟩

/-- A call that has not returned can go on. -/
theorem exists_moves (k : κ) (race : ArenaRace κ) : (∃ last, race.threads k = .idle last) ∨
    ∃ action race', action.movesOf k = true ∧ action.spuriousOf k = false ∧
      ArenaRace.step action race = some race' := by
  cases ht : race.threads k with
  | idle last => exact Or.inl ⟨last, rfl⟩
  | loading call =>
    exact Or.inr ⟨.load k, _, decide_eq_true rfl, rfl, step_load ht⟩
  | exchanging call current finish span =>
    have hsome : (ArenaRace.step (.exchange k false) race).isSome := by
      simp only [ArenaRace.step, ht]
      split <;> rfl
    obtain ⟨race', hstep⟩ := Option.isSome_iff_exists.mp hsome
    exact Or.inr ⟨.exchange k false, race', decide_eq_true rfl, Bool.and_false _, hstep⟩

section Runs

variable {config : AllocatorConfig} {mapping : Nat}

/-- A call that others race with takes two steps, two for each span that others are returned
meanwhile, and two for each exchange that fails for no reason; the others are returned at most as
many spans as there are steps of the alignment left in the arena; and until it has returned, the
call can go on. -/
theorem reservation_progress (hnew : Arena.new config mapping = .ok arena)
    (h : Reaches ArenaRace.step (ArenaRace.start arena) race) {call : ReserveCall}
    {actions : List (RaceAction κ)} (honly : ∀ c, .call k c ∉ actions)
    (hruns : runs ArenaRace.step (.call k call :: actions) race = some race') :
    (∃ others, race'.returned.length =
        race.returned.length + others + (race'.threads k).spans ∧
      actions.countP (RaceAction.movesOf k) ≤
        2 + 2 * others + 2 * actions.countP (RaceAction.spuriousOf k) ∧
      others * config.alignment < arena.len - race.arena.next + config.alignment) ∧
    ((∃ answer, race'.threads k = .idle (some answer)) ∨
      ∃ action race'', action.movesOf k = true ∧ action.spuriousOf k = false ∧
        ArenaRace.step action race' = some race'') := by
  obtain ⟨hpos, -, -, -, hbase, -, -, hal⟩ := Arena.new_spec hnew
  obtain ⟨race₁, hstart, hrest⟩ := Option.bind_eq_some_iff.mp hruns
  -- the start of the call
  obtain ⟨hreturned, hleft, hfresh⟩ : race₁.returned = race.returned ∧ race₁.stepsLeft k ≤ 2 ∧
      (race.returned.length + (race₁.threads k).spans ≤ race₁.returned.length ∧
        race₁.threads k ≠ .idle none) := by
    cases step_moves hstart with
    | refuse _ => exact ⟨rfl, by simp [RaceThread.stepsLeft], by simp [RaceThread.spans]⟩
    | start => exact ⟨rfl, by simp [RaceThread.stepsLeft], by simp [RaceThread.spans]⟩
  have hcall : ∀ action ∈ actions, ∀ c, action ≠ .call k c :=
    fun action hmem c heq => honly c (heq ▸ hmem)
  obtain ⟨-, hcount⟩ := runs_charge_le (I := fun _ => True) (p := RaceAction.movesOf k)
    (q := RaceAction.spuriousOf k) (n := 2) (f := ArenaRace.stepsLeft k)
    (g := fun race => 2 * race.returned.length) hrest trivial
    fun action hmem _ _ _ hstep => ⟨trivial, step_stepsLeft (hcall action hmem) hstep⟩
  obtain ⟨hspans, hidle⟩ := runs_invariant hrest hfresh
    fun action hmem _ _ hn hstep => step_returned (hcall action hmem) hstep hn
  have hgrowth := runs_invariant (I := fun s => Inv arena s ∧
      alignUp race.arena.next arena.alignment + s.returned.length * arena.alignment ≤
        alignUp s.arena.next arena.alignment + race.returned.length * arena.alignment)
    hruns ⟨reaches_inv hnew h, Nat.le_refl _⟩ fun action _ s s' hs hstep =>
      ⟨hs.1.step (by rw [hal, hbase]; exact dvd_alignUp hpos) (by omega) hstep, by
        have := hs.1.step_spans (by omega) hstep
        have := hs.2
        omega⟩
  obtain ⟨inv', hgrowth⟩ := hgrowth
  have hlast : 2 * (race'.threads k).spans ≤ race'.stepsLeft k := RaceThread.spans_le ..
  refine ⟨⟨race'.returned.length - race.returned.length - (race'.threads k).spans,
      by omega, ?_, ?_⟩,
    (exists_moves k race').imp_left fun hlast => ?_⟩
  · rw [hreturned] at hcount
    omega
  · rw [← hal]
    have hround : alignUp race'.arena.next arena.alignment < race'.arena.next + arena.alignment :=
      alignUp_lt (by omega)
    have hold := le_alignUp race.arena.next arena.alignment
    have hnext := inv'.next_le
    have hmul : (race'.returned.length - race.returned.length - (race'.threads k).spans) *
        arena.alignment + race.returned.length * arena.alignment ≤
          race'.returned.length * arena.alignment := by
      rw [← Nat.add_mul]
      exact Nat.mul_le_mul_right _ (by omega)
    omega
  · obtain ⟨last, hlast⟩ := hlast
    cases last with
    | none => exact absurd hlast hidle
    | some answer => exact ⟨answer, hlast⟩

/-- Of the call of the second thread in `sampleRace`, which goes round three times. -/
theorem reservation_progress_sample :
    ∃ arena race race', Arena.new ⟨1024, 64, 0, 0⟩ 4000 = .ok arena ∧
    runs ArenaRace.step [.call 0 (.reserveSpan 100), .load 0] (ArenaRace.start arena) = some race ∧
    runs ArenaRace.step (.call 1 (.reserveBlockSpan 128 4) :: sampleRace.drop 3) race = some race' ∧
    ∃ others, race'.returned.length = race.returned.length + others + (race'.threads 1).spans := by
  obtain ⟨race, hrace⟩ : ∃ race, runs ArenaRace.step [.call 0 (.reserveSpan 100), .load 0]
      (ArenaRace.start (κ := Fin 2) ⟨4032, 1024, 0, 64⟩) = some race :=
    Option.isSome_iff_exists.mp (by decide +kernel)
  obtain ⟨race', hrace'⟩ : ∃ race', runs ArenaRace.step
      (.call 1 (.reserveBlockSpan 128 4) :: sampleRace.drop 3) race = some race' := by
    apply Option.isSome_iff_exists.mp
    have hruns : ((runs ArenaRace.step [.call 0 (.reserveSpan 100), .load 0]
        (ArenaRace.start (κ := Fin 2) ⟨4032, 1024, 0, 64⟩)).bind (runs ArenaRace.step
          (.call 1 (.reserveBlockSpan 128 4) :: sampleRace.drop 3))).isSome := by decide +kernel
    rwa [hrace] at hruns
  have hnew : Arena.new ⟨1024, 64, 0, 0⟩ 4000 = .ok ⟨4032, 1024, 0, 64⟩ := by rfl
  obtain ⟨⟨others, hothers, -⟩, -⟩ := reservation_progress hnew (reaches_runs hrace)
    (fun c hc => by simp [sampleRace] at hc) hrace'
  exact ⟨_, race, race', hnew, hrace, hrace', others, hothers⟩

end Runs

end ArenaRace

/-! ### Order -/

def RaceAction.starts {κ : Type} : RaceAction κ → Option ReserveCall
  | call _ c => some c
  | load _ | exchange _ _ => none

/-- A call takes effect when it returns. -/
def RaceThread.phase : RaceThread → Phase ReserveCall ReserveAnswer
  | idle last => .idle last
  | loading call | exchanging call _ _ _ => .pending call

/-- The effect of the procedures of `Arena`, each in one step. -/
def ReserveCall.Does (call : ReserveCall) (arena : Arena) (answer : ReserveAnswer)
    (arena' : Arena) : Prop :=
  call.attempt arena = (answer, arena')

namespace ArenaRace

/-- The loops of any number of threads, as a way to carry out these procedures. -/
def implementation (κ : Type) [DecidableEq κ] :
    Implementation (RaceAction κ) (ArenaRace κ) κ ReserveCall ReserveAnswer where
  step := ArenaRace.step
  thread := fun action => some action.thread
  starts := fun _ => RaceAction.starts
  phase := fun race k => (race.threads k).phase

variable {κ : Type} [DecidableEq κ] {arena : Arena} {race race' : ArenaRace κ}

theorem Inv.lawful (inv : Inv arena race) {action : RaceAction κ}
    (h : ArenaRace.step action race = some race') :
    (implementation κ).Lawful ReserveCall.Does ArenaRace.arena race race' action where
  own := by
    intro k hk
    obtain rfl : action.thread = k := Option.some.inj hk
    cases step_moves h with
    | @refuse k call hzero =>
      have hphase : (race.setThread k (.idle (some (.error .zeroSize)))).threads k =
        .idle (some (.error .zeroSize)) := setThread_same ..
      show Phase.Does _ (.pending call) _ (RaceThread.phase (ArenaRace.threads _ k)) _
      rw [hphase]
      exact .answers (ReserveCall.attempt_zero hzero race.arena)
    | @start k call =>
      show Phase.Does _ (.pending call) _ (RaceThread.phase (ArenaRace.threads _ k)) _
      rw [setThread_same]
      exact .stay _ _
    | @load k call span arena' ht hattempt =>
      show Phase.Does _ (race.threads k).phase _ (RaceThread.phase (ArenaRace.threads _ k)) _
      rw [setThread_same, ht]
      exact .stay _ _
    | @fail k call answer arena' ht hattempt hanswer =>
      obtain rfl := ReserveCall.attempt_other hattempt hanswer
      show Phase.Does _ (race.threads k).phase _ (RaceThread.phase (ArenaRace.threads _ k)) _
      rw [setThread_same, ht]
      exact .answers hattempt
    | @commit k spurious call finish span ht =>
      show Phase.Does _ (race.threads k).phase _
        (RaceThread.phase (Function.update race.threads k _ k)) _
      rw [Function.update_self, ht]
      have hattempt := inv.attempted k call _ finish span ht
      rw [← inv.arena_eq] at hattempt
      refine .answers ?_
      show call.attempt race.arena = (_, { race.arena with next := finish })
      rw [hattempt, inv.arena_eq]
    | @retry k spurious call current finish span ht =>
      show Phase.Does _ (race.threads k).phase _ (RaceThread.phase (ArenaRace.threads _ k)) _
      rw [setThread_same, ht]
      exact .stay _ _
  others := by
    intro k hk
    apply congrArg RaceThread.phase
    have hne : k ≠ action.thread := fun heq => hk (congrArg some heq.symm)
    cases step_moves h with
    | _ => exact Function.update_of_ne hne ..
  elsewhere := nofun

/-- However the loads and exchanges of any number of threads interleave, and however often exchanges
fail, the calls take effect one after the other as the procedures of `Arena` do, each of them
between its start and its end, with the answer that it returns. -/
theorem reservations_linearizable {config : AllocatorConfig} {mapping : Nat}
    (hnew : Arena.new config mapping = .ok arena) :
    (implementation κ).Linearizable ReserveCall.Does ArenaRace.arena
      (Reaches ArenaRace.step (ArenaRace.start arena)) :=
  Implementation.linearizable fun action _ _ h hstep =>
    ⟨h.step action hstep, (reaches_inv hnew h).lawful hstep⟩

/-- In `sampleRace` the first call of the second thread takes effect after that of the first one. -/
theorem reservations_linearizable_sample :
    ∃ arena race, Arena.new ⟨1024, 64, 0, 0⟩ 4000 = .ok arena ∧
    runs ArenaRace.step sampleRace (ArenaRace.start arena) = some race ∧
    Sequential ReserveCall.Does arena
      [(.reserveSpan 100, .reserved ⟨4032, 100⟩),
        (.reserveBlockSpan 128 4, .reserved ⟨4160, 512⟩)] race.arena := by
  obtain ⟨race, hrace⟩ : ∃ race, runs ArenaRace.step sampleRace
      (ArenaRace.start ⟨4032, 1024, 0, 64⟩) = some race :=
    Option.isSome_iff_exists.mp (by decide +kernel)
  have hnew : Arena.new ⟨1024, 64, 0, 0⟩ 4000 = .ok ⟨4032, 1024, 0, 64⟩ := by rfl
  have hsequential := (reservations_linearizable (κ := Fin 2) hnew).sequential .refl hrace
  have hhistory : ((implementation (Fin 2)).history sampleRace
      (ArenaRace.start ⟨4032, 1024, 0, 64⟩)).map Prod.snd =
        [(.reserveSpan 100, .reserved ⟨4032, 100⟩),
          (.reserveBlockSpan 128 4, .reserved ⟨4160, 512⟩)] := by
    decide +kernel
  rw [hhistory] at hsequential
  exact ⟨_, race, hnew, hrace, hsequential⟩

end ArenaRace

end Orthotope
