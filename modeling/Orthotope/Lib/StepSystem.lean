import Mathlib.Algebra.GroupWithZero.Nat

/-! Systems that move by actions.  `step a s` is the state after action `a`, or nothing when the
action is not possible in `s`; the states reached are those that some sequence of actions leads to.
The rules say what a property of single steps gives for whole runs. -/

namespace StepSystem

variable {A S : Type} {step : A → S → Option S} {s₀ s s' : S}

inductive Reaches (step : A → S → Option S) (s₀ : S) : S → Prop
  | refl : Reaches step s₀ s₀
  | step {s s' : S} (a : A) (h : Reaches step s₀ s) (hstep : step a s = some s') :
      Reaches step s₀ s'

/-- The actions one after the other. -/
def runs (step : A → S → Option S) : List A → S → Option S
  | [], s => some s
  | a :: as, s => (step a s).bind (runs step as)

theorem runs_cons {a : A} {as : List A} (h : step a s = some s') :
    runs step (a :: as) s = runs step as s' := by
  rw [runs, h]
  rfl

/-- The rule for invariants. -/
theorem Reaches.invariant {I : S → Prop} (h : Reaches step s₀ s) (h₀ : I s₀)
    (hstep : ∀ a s s', I s → step a s = some s' → I s') : I s := by
  induction h with
  | refl => exact h₀
  | step a _ hs ih => exact hstep a _ _ ih hs

theorem Reaches.trans (h : Reaches step s₀ s) (h' : Reaches step s s') : Reaches step s₀ s' := by
  induction h' with
  | refl => exact h
  | step a _ hs ih => exact ih.step a hs

theorem reaches_runs {as : List A} (h : runs step as s = some s') : Reaches step s s' := by
  induction as generalizing s with
  | nil =>
    obtain rfl := Option.some.inj h
    exact .refl
  | cons a as ih =>
    obtain ⟨s₁, hs, hrest⟩ := Option.bind_eq_some_iff.mp h
    exact (Reaches.refl.step a hs).trans (ih hrest)

theorem runs_append {as bs : List A} :
    runs step (as ++ bs) s = (runs step as s).bind (runs step bs) := by
  induction as generalizing s with
  | nil => rfl
  | cons a as ih =>
    simp only [List.cons_append, runs, Option.bind_assoc]
    congr 1
    funext s₁
    exact ih

/-- The rule for a property that a part of the actions keeps. -/
theorem runs_invariant {I : S → Prop} {as : List A} (h : runs step as s = some s') (hs : I s)
    (hstep : ∀ a ∈ as, ∀ s s', I s → step a s = some s' → I s') : I s' := by
  induction as generalizing s with
  | nil =>
    obtain rfl := Option.some.inj h
    exact hs
  | cons a as ih =>
    obtain ⟨s₁, h₁, hrest⟩ := Option.bind_eq_some_iff.mp h
    exact ih hrest (hstep a List.mem_cons_self _ _ hs h₁) fun b hb =>
      hstep b (List.mem_cons_of_mem a hb)

/-- A run as another system sees it, to which some of the actions are nothing. -/
def trace {A' : Type} (step : A → S → Option S) (project : S → A → Option A') :
    List A → S → List A'
  | [], _ => []
  | a :: as, s => (project s a).toList ++ (step a s).elim [] (trace step project as)

theorem trace_cons {A' : Type} {project : S → A → Option A'} {a : A} {as : List A}
    (h : step a s = some s') :
    trace step project (a :: as) s = (project s a).toList ++ trace step project as s' := by
  simp only [trace, h, Option.elim_some]

/-- Two systems in which related states do the same, and show the same of it. -/
theorem trace_congr {A' T : Type} {step' : A → T → Option T} {project : S → A → Option A'}
    {project' : T → A → Option A'} {R : S → T → Prop} {as : List A} {t : T}
    (h : runs step as s = some s') (hR : R s t)
    (hstep : ∀ a s s' t, R s t → step a s = some s' →
      project s a = project' t a ∧ ∃ t', step' a t = some t' ∧ R s' t') :
    trace step project as s = trace step' project' as t := by
  induction as generalizing s t with
  | nil => rfl
  | cons a as ih =>
    obtain ⟨s₁, h₁, hrest⟩ := Option.bind_eq_some_iff.mp h
    obtain ⟨hproject, t₁, ht₁, hR₁⟩ := hstep a s s₁ t hR h₁
    rw [trace_cons h₁, trace_cons ht₁, hproject, ih hrest hR₁]

/-- The rule for what shows in a trace. -/
theorem forall_mem_trace {A' : Type} {project : S → A → Option A'} {I : S → Prop} {P : A' → Prop}
    {as : List A} (h : runs step as s = some s') (hs : I s)
    (hstep : ∀ a s s', I s → step a s = some s' →
      I s' ∧ ∀ a', project s a = some a' → P a') :
    ∀ a' ∈ trace step project as s, P a' := by
  induction as generalizing s with
  | nil => exact fun _ hmem => absurd hmem List.not_mem_nil
  | cons a as ih =>
    obtain ⟨s₁, h₁, hrest⟩ := Option.bind_eq_some_iff.mp h
    obtain ⟨hs₁, hshows⟩ := hstep a s s₁ hs h₁
    intro a' hmem
    rw [trace_cons h₁] at hmem
    rcases List.mem_append.mp hmem with hmem | hmem
    · exact hshows a' (Option.mem_toList.mp hmem)
    · exact ih hrest hs₁ a' hmem

/-- The rule for an account, which a run fills from `g` and empties by what it shows. -/
theorem runs_account {project : S → A → Option Nat} {I : S → Prop} {f g : S → Nat} {as : List A}
    (h : runs step as s = some s') (hs : I s)
    (hstep : ∀ a s s', I s → step a s = some s' →
      I s' ∧ f s' + (project s a).toList.sum + g s = f s + g s') :
    I s' ∧ f s' + (trace step project as s).sum + g s = f s + g s' := by
  induction as generalizing s with
  | nil =>
    obtain rfl := Option.some.inj h
    exact ⟨hs, rfl⟩
  | cons a as ih =>
    obtain ⟨s₁, h₁, hrest⟩ := Option.bind_eq_some_iff.mp h
    obtain ⟨hs₁, hsum⟩ := hstep a s s₁ hs h₁
    obtain ⟨hs', hsums⟩ := ih hrest hs₁
    rw [trace_cons h₁, List.sum_append]
    exact ⟨hs', by omega⟩

/-- The rule for simulations.  What the other system does not see leaves the two related. -/
theorem runs_simulate {A' S' : Type} {step' : A' → S' → Option S'} {project : S → A → Option A'}
    {R : S → S' → Prop} {as : List A} {t : S} {u : S'} (h : runs step as s = some t) (hs : R s u)
    (hstep : ∀ a s s' u, R s u → step a s = some s' →
      (project s a = none → R s' u) ∧
        ∀ a', project s a = some a' → ∃ u', step' a' u = some u' ∧ R s' u') :
    ∃ u', runs step' (trace step project as s) u = some u' ∧ R t u' := by
  induction as generalizing s u with
  | nil =>
    obtain rfl := Option.some.inj h
    exact ⟨u, rfl, hs⟩
  | cons a as ih =>
    obtain ⟨s₁, h₁, hrest⟩ := Option.bind_eq_some_iff.mp h
    obtain ⟨hsilent, hseen⟩ := hstep a s s₁ u hs h₁
    simp only [trace, h₁, Option.elim_some]
    cases hproject : project s a with
    | none => exact ih hrest (hsilent hproject)
    | some a' =>
      obtain ⟨u₁, hu₁, hrel⟩ := hseen a' hproject
      obtain ⟨u', hu', ht⟩ := ih hrest hrel
      refine ⟨u', ?_, ht⟩
      rw [Option.toList_some, List.singleton_append, runs_cons hu₁]
      exact hu'

/-- The rule for a potential that pays for the actions in `p`.  What fills it up again is the growth
of `g`, and `n` for each action in `q`. -/
theorem runs_charge_le {I : S → Prop} {f g : S → Nat} {p q : A → Bool} {n : Nat} {as : List A}
    (h : runs step as s = some s') (hs : I s)
    (hstep : ∀ a ∈ as, ∀ s s', I s → step a s = some s' →
      I s' ∧ (if p a then 1 else 0) + f s' + g s ≤ f s + g s' + n * (if q a then 1 else 0)) :
    I s' ∧ as.countP p + f s' + g s ≤ f s + g s' + n * as.countP q := by
  induction as generalizing s with
  | nil =>
    obtain rfl := Option.some.inj h
    exact ⟨hs, by simp⟩
  | cons a as ih =>
    obtain ⟨s₁, h₁, hrest⟩ := Option.bind_eq_some_iff.mp h
    obtain ⟨hs₁, hle⟩ := hstep a List.mem_cons_self _ _ hs h₁
    obtain ⟨hs', hcount⟩ := ih hrest hs₁ fun b hb => hstep b (List.mem_cons_of_mem a hb)
    rw [List.countP_cons, List.countP_cons, Nat.mul_add]
    exact ⟨hs', by omega⟩

/-- When nothing fills it up, it bounds how many of these actions there are in a run. -/
theorem runs_count_le {I : S → Prop} {f : S → Nat} {p : A → Bool} {as : List A}
    (h : runs step as s = some s') (hs : I s)
    (hstep : ∀ a ∈ as, ∀ s s', I s → step a s = some s' →
      I s' ∧ f s' + (if p a then 1 else 0) ≤ f s) : I s' ∧ as.countP p + f s' ≤ f s := by
  have hcharge := runs_charge_le (g := fun _ => 0) (n := 0) (p := p) (q := fun _ => false)
    (f := f) h hs fun a ha s s' hI hs => by
      obtain ⟨hI', hle⟩ := hstep a ha s s' hI hs
      exact ⟨hI', by omega⟩
  exact ⟨hcharge.1, by omega⟩

end StepSystem
