import Orthotope.Routing

/-! Frees of a thread that is going away.  Once the slot of a thread is destroyed, `alloc` still
serves it, from the fallback; but `dealloc` takes a slot that is gone for one that is busy, and
aborts on a pointer that any thread has obtained through its cache.  No other lawful free aborts. -/

namespace Orthotope

namespace Process

variable {κ : Type} {p : Process κ} {action : ProcessAction κ}

/-- While a call has the slot of its thread, the thread frees the tables of the allocator only, and
these have been allocated where the slot was not usable either. -/
def Lawful (p : Process κ) : ProcessAction κ → Prop
  | .dealloc k i _ => ∀ use, p.slots k = .borrowed use → ∀ h, p.held[i]? = some h →
      selectBackend h.layout = .orthotope → h.born.usable = false
  | _ => True

/-- A thread whose slot is destroyed, if it is not panicking, frees only what the system's allocator
serves, and pointers for which the slot was not usable either. -/
def AvoidsTeardown (p : Process κ) : ProcessAction κ → Prop
  | .dealloc k i panicking => p.slots k = .destroyed → panicking = false →
      ∀ h, p.held[i]? = some h → selectBackend h.layout = .orthotope → h.born.usable = false
  | _ => True

theorem lawful_of_ne (h : ∀ k i panicking, action ≠ .dealloc k i panicking) : p.Lawful action := by
  cases action with
  | dealloc k i panicking => exact absurd rfl (h k i panicking)
  | _ => trivial

/-- A lawful action aborts exactly if it does not avoid the teardown. -/
theorem Lawful.aborts_iff (lawful : p.Lawful action) :
    p.Aborts action ↔ ¬p.AvoidsTeardown action := by
  cases action with
  | dealloc k i panicking =>
    constructor
    · rintro ⟨hpanicking, husable, h, hh, hbackend, hborn⟩ havoids
      cases hslot : p.slots k with
      | absent =>
        rw [hslot] at husable
        cases husable
      | available =>
        rw [hslot] at husable
        cases husable
      | borrowed use => cases hborn.symm.trans (lawful use hslot h hh hbackend)
      | destroyed => cases hborn.symm.trans (havoids hslot hpanicking h hh hbackend)
    · intro hnot
      simp only [AvoidsTeardown, Classical.not_imp, not_forall] at hnot
      obtain ⟨hslot, hpanicking, h, hh, hbackend, hborn⟩ := hnot
      refine ⟨hpanicking, ?_, h, hh, hbackend, eq_true_of_ne_false hborn⟩
      rw [hslot]
      rfl
  | _ => exact iff_of_false id (not_not_intro trivial)

end Process

theorem Process.not_aborted_of_step {κ : Type} [DecidableEq κ] {p p' : Process κ} {debug : Bool}
    {action : ProcessAction κ} (h : p.step debug action = some p') : p.aborted = false := by
  unfold Process.step at h
  split at h
  · cases h
  · exact eq_false_of_ne_true ‹_›

section Runs

variable {κ : Type} [DecidableEq κ] {setup : Setup Unit κ} {p p' : Process κ}

/-- A lawful run has not aborted if and only if all its actions avoid the teardown, and its next
action aborts if and only if it does not. -/
theorem abort_free_iff (hp : setup.Reaches Process.Lawful p) :
    (p.aborted = false ↔
      setup.Reaches (fun p action => p.Lawful action ∧ p.AvoidsTeardown action) p) ∧
    ∀ action p', p.Lawful action → p.step setup.debug action = some p' →
      (p'.aborted = false ↔ p.AvoidsTeardown action) := by
  have hnext : ∀ {p : Process κ} {action p'}, setup.Reaches Process.Lawful p → p.Lawful action →
      p.step setup.debug action = some p' → (p'.aborted = false ↔ p.AvoidsTeardown action) := by
    intro p action p' hp lawful hstep
    obtain ⟨s, rep⟩ := hp.rep
    rw [← Bool.not_eq_true, (rep.step hstep).2, lawful.aborts_iff, not_not]
  refine ⟨⟨fun haborted => ?_, fun h => h.not_aborted fun p action hok => ?_⟩,
    fun action p' lawful hstep => hnext hp lawful hstep⟩
  · induction hp with
    | initial => exact .initial
    | @step p p' action hp lawful hstep ih =>
      have hbefore : p.aborted = false := Process.not_aborted_of_step hstep
      exact (ih hbefore).step action ⟨lawful, (hnext hp lawful hstep).mp haborted⟩ hstep
  · exact hok.1.aborts_iff.not.mpr (not_not_intro hok.2)

end Runs

/-! ### A run -/

/-- Thread 0 ends: its slot is destroyed, and its cache drained. -/
def sampleTeardown : List (ProcessAction (Fin 2)) :=
  .teardown 0 :: List.replicate 41 (.run 0 (true, true))

theorem sampleTeardown_run : (sampleProcess.runs true sampleTeardown).isSome := by
  decide +kernel

def sampleTornDown : Process (Fin 2) :=
  (sampleProcess.runs true sampleTeardown).get sampleTeardown_run

theorem sampleTornDown_reached : sampleSetup.Reaches Process.Lawful sampleTornDown := by
  have hreach : sampleSetup.Reaches Process.Lawful sampleProcess :=
    sampleProcess_reached fun _ _ h => Process.lawful_of_ne h
  refine hreach.runs (fun action haction p => ?_) (Option.some_get sampleTeardown_run).symm
  simp only [sampleTeardown, List.mem_cons, List.mem_replicate] at haction
  rcases haction with rfl | ⟨-, rfl⟩ <;> trivial

/-- Thread 1 can free what thread 0 has obtained through its cache. -/
theorem abort_free_iff_sample : ∃ p', sampleTornDown.step true (.dealloc 1 0 false) = some p' ∧
    p'.aborted = false := by
  have hsome : (sampleTornDown.step true (.dealloc 1 0 false)).isSome := by decide +kernel
  obtain ⟨p', hstep⟩ := Option.isSome_iff_exists.mp hsome
  have hslot : sampleTornDown.slots 1 = .absent := by decide +kernel
  have lawful : sampleTornDown.Lawful (.dealloc 1 0 false) := by
    intro use huse
    rw [hslot] at huse
    cases huse
  have havoids : sampleTornDown.AvoidsTeardown (.dealloc 1 0 false) := by
    intro hdestroyed
    rw [hslot] at hdestroyed
    cases hdestroyed
  exact ⟨p', hstep, ((abort_free_iff sampleTornDown_reached).2 _ p' lawful hstep).mpr havoids⟩

/-- Thread 0 itself aborts if one of its later destructors frees it. -/
theorem teardown_aborts : ¬∀ p, sampleSetup.Reaches Process.Lawful p → p.aborted = false := by
  intro hall
  have hslot : sampleTornDown.slots 0 = .destroyed := by decide +kernel
  have lawful : sampleTornDown.Lawful (.dealloc 0 0 false) := by
    intro use huse
    rw [hslot] at huse
    cases huse
  have haborts : (sampleTornDown.step true (.dealloc 0 0 false)).map Process.aborted =
    some true := by decide +kernel
  obtain ⟨p', hstep, haborted⟩ := Option.map_eq_some_iff.mp haborts
  cases haborted.symm.trans (hall p' (sampleTornDown_reached.step _ lawful hstep))

end Orthotope
