/-! Runs that must end.  A step function takes a choice that its caller does not control; `Ends`
says that the run from a state stops whatever is chosen, and stops in a state of a given set.  It is
the weakest precondition of the whole run, for total correctness. -/

namespace TotalRuns

variable {C S T : Type} {step : C → S → Option S} {stopped P Q : S → Prop} {s : S}

inductive Ends (step : C → S → Option S) (stopped P : S → Prop) : S → Prop
  | stop {s : S} (hstop : stopped s) (hp : P s) : Ends step stopped P s
  | step {s : S} (next : C → S) (h : ∀ c, step c s = some (next c))
      (rest : ∀ c, Ends step stopped P (next c)) : Ends step stopped P s

theorem Ends.mono (h : Ends step stopped P s) (hpq : ∀ s, P s → Q s) : Ends step stopped Q s := by
  induction h with
  | stop hstop hp => exact .stop hstop (hpq _ hp)
  | step next h _ ih => exact .step next h ih

theorem Ends.with_stopped (h : Ends step stopped P s) :
    Ends step stopped (fun s => stopped s ∧ P s) s := by
  induction h with
  | stop hstop hp => exact .stop hstop ⟨hstop, hp⟩
  | step next h _ ih => exact .step next h ih

/-- Two things that hold at the end hold there together, as a stopped state does not step. -/
theorem Ends.and [Inhabited C] (h : Ends step stopped P s) (h' : Ends step stopped Q s)
    (hstop : ∀ c s, stopped s → step c s = none) : Ends step stopped (fun s => P s ∧ Q s) s := by
  induction h with
  | stop hs hp =>
    cases h' with
    | stop _ hq => exact .stop hs ⟨hp, hq⟩
    | step next h _ => exact absurd (hstop default _ hs) (by simp [h])
  | step next h _ ih =>
    cases h' with
    | stop hs _ => exact absurd (hstop default _ hs) (by simp [h])
    | step next' h' rest' =>
      refine .step next h fun c => ih c ?_
      have heq : next' c = next c := Option.some.inj ((h' c).symm.trans (h c))
      exact heq ▸ rest' c

/-- The rule for one step. -/
theorem Ends.of_step (h : ∀ c, ∃ s', step c s = some s' ∧ Ends step stopped P s') :
    Ends step stopped P s :=
  .step (fun c => (h c).choose) (fun c => (h c).choose_spec.1) fun c => (h c).choose_spec.2

/-- The rule for a run: an invariant under which every state has stopped in `P`, or steps to a state
of the invariant with a smaller measure. -/
theorem Ends.of_measure {I : S → Prop} (μ : S → Nat)
    (hstep : ∀ s, I s → (stopped s ∧ P s) ∨
      ∀ c, ∃ s', step c s = some s' ∧ I s' ∧ μ s' < μ s) (hs : I s) :
    Ends step stopped P s := by
  obtain ⟨n, hn⟩ : ∃ n, μ s < n := ⟨_, Nat.lt_succ_self _⟩
  induction n generalizing s with
  | zero => exact absurd hn (Nat.not_lt_zero _)
  | succ n ih =>
    rcases hstep s hs with ⟨hstop, hp⟩ | hnext
    · exact .stop hstop hp
    · refine .of_step fun c => ?_
      obtain ⟨s', hs', hi, hlt⟩ := hnext c
      exact ⟨s', hs', ih hi (Nat.lt_of_lt_of_le hlt (Nat.le_of_lt_succ hn))⟩

/-- What is kept by every step holds at the end as well. -/
theorem Ends.keep {I : S → Prop} (h : Ends step stopped P s)
    (hI : ∀ c s s', I s → step c s = some s' → I s') (hs : I s) :
    Ends step stopped (fun s => I s ∧ P s) s := by
  induction h with
  | stop hstop hp => exact .stop hstop ⟨hs, hp⟩
  | step next h _ ih => exact .step next h fun c => ih c (hI c _ _ hs (h c))

/-- A run goes through every other run that matches it step by step. -/
theorem Ends.simulate {step' : C → T → Option T} {stopped' : T → Prop} {R : T → S → Prop} {t : T}
    (h : Ends step stopped P s)
    (hstep : ∀ t s c s', R t s → step c s = some s' → ∃ t', step' c t = some t' ∧ R t' s')
    (hstop : ∀ t s, R t s → stopped s → stopped' t) (hR : R t s) :
    Ends step' stopped' (fun t => ∃ s, R t s ∧ P s) t := by
  induction h generalizing t with
  | stop hs hp => exact .stop (hstop _ _ hR hs) ⟨_, hR, hp⟩
  | step next h _ ih =>
    refine .of_step fun c => ?_
    obtain ⟨t', ht', hR'⟩ := hstep _ _ c _ hR (h c)
    exact ⟨t', ht', ih c hR'⟩

/-- Every run that has stopped is one of those that `Ends` speaks of. -/
theorem Ends.of_run [Inhabited C] (h : Ends step stopped P s)
    (hstop : ∀ c s, stopped s → step c s = none)
    {cs : List C} {s' : S} (hrun : cs.foldlM (fun s c => step c s) s = some s')
    (hs' : stopped s') : P s' := by
  induction h generalizing cs with
  | stop hs hp =>
    cases cs with
    | nil =>
      obtain rfl := Option.some.inj hrun
      exact hp
    | cons c cs =>
      rw [List.foldlM_cons, hstop c _ hs] at hrun
      cases hrun
  | @step s next h _ ih =>
    cases cs with
    | nil =>
      obtain rfl := Option.some.inj hrun
      exact absurd (h default) (by simp [hstop default _ hs'])
    | cons c cs =>
      rw [List.foldlM_cons, h c] at hrun
      exact ih c hrun

/-- One of the runs that `Ends` speaks of, with the choices it made. -/
theorem Ends.exists_run [Inhabited C] (h : Ends step stopped P s) :
    ∃ cs : List C, ∃ s', cs.foldlM (fun s c => step c s) s = some s' ∧ stopped s' ∧ P s' := by
  induction h with
  | stop hstop hp => exact ⟨[], _, rfl, hstop, hp⟩
  | step next h _ ih =>
    obtain ⟨cs, s', hrun, hstop, hp⟩ := ih default
    refine ⟨default :: cs, s', ?_, hstop, hp⟩
    rw [List.foldlM_cons, h default]
    exact hrun

end TotalRuns
