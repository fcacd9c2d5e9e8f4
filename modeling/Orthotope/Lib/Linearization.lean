import Orthotope.Lib.StepSystem

/-! Objects that several threads work on in small steps.  An operation is called, takes effect in
one step, and is answered, in this step or later.  Such a system is linearizable when the
operations, in the order in which they take effect, are a run of the object on which each of them is
one step, and each call takes effect once, between its start and its end, with the answer that it
gets. -/

namespace Linearization

open StepSystem

/-- How far a thread has come with an operation: it has none to do, the operation has not taken
effect, or it has, and will be answered so. -/
inductive Phase (O R : Type) where
  | idle (last : Option R)
  | pending (op : O)
  | done (op : O) (answer : R)

namespace Phase

variable {O R X : Type}

/-- The operation that takes effect between two phases. -/
def effect : Phase O R → Phase O R → Option (O × R)
  | pending op, done _ answer | pending op, idle (some answer) => some (op, answer)
  | _, _ => none

/-- What has taken effect for a call of `op` that has come so far. -/
def Tells (op : O) (ops : List (O × R)) : Phase O R → Prop
  | idle none => False
  | idle (some answer) => ops = [(op, answer)]
  | pending op' => op' = op ∧ ops = []
  | done op' answer => op' = op ∧ ops = [(op, answer)]

@[simp] theorem effect_self (phase : Phase O R) : phase.effect phase = none := by
  cases phase <;> rfl

variable {op : O} {ops : List (O × R)} {phase phase' : Phase O R}

/-- What a step is to an object with the value `x`, on which operations have the given effect. -/
inductive Does (effect : O → X → R → X → Prop) : Phase O R → X → Phase O R → X → Prop
  | stay (phase : Phase O R) (x : X) : Does effect phase x phase x
  | takes {op : O} {answer : R} {x x' : X} (h : effect op x answer x') :
      Does effect (pending op) x (done op answer) x'
  | answers {op : O} {answer : R} {x x' : X} (h : effect op x answer x') :
      Does effect (pending op) x (idle (some answer)) x'
  | returns (op : O) (answer : R) (x : X) :
      Does effect (done op answer) x (idle (some answer)) x

variable {effect : O → X → R → X → Prop} {x x' : X}

theorem Tells.does (h : phase.Tells op ops) (hdoes : Does effect phase x phase' x') :
    phase'.Tells op (ops ++ (phase.effect phase').toList) := by
  cases hdoes with
  | stay => rwa [effect_self, Option.toList_none, List.append_nil]
  | takes | answers =>
    obtain ⟨rfl, rfl⟩ := h
    trivial
  | returns =>
    obtain ⟨rfl, rfl⟩ := h
    rfl

theorem Does.silent (h : Does effect phase x phase' x') (hnone : phase.effect phase' = none) :
    x' = x := by
  cases h with
  | stay | returns => rfl
  | takes | answers => cases hnone

theorem Does.takes_effect {answer : R} (h : Does effect phase x phase' x')
    (hsome : phase.effect phase' = some (op, answer)) : effect op x answer x' := by
  cases h with
  | stay =>
    rw [effect_self] at hsome
    cases hsome
  | returns => cases hsome
  | takes h | answers h =>
    obtain ⟨rfl, rfl⟩ := Prod.mk.inj (Option.some.inj hsome)
    exact h

end Phase

/-- A system whose threads carry out operations `O` with answers `R`.  Actions without a thread
belong to the surroundings. -/
structure Implementation (A S T O R : Type) where
  step : A → S → Option S
  thread : A → Option T
  starts : S → A → Option O
  phase : S → T → Phase O R

/-- The operations one after the other, each of them in one step. -/
inductive Sequential {O R X : Type} (effect : O → X → R → X → Prop) : X → List (O × R) → X → Prop
  | nil (x : X) : Sequential effect x [] x
  | cons {op : O} {answer : R} {x x' x'' : X} {ops : List (O × R)}
      (h : effect op x answer x') (hrest : Sequential effect x' ops x'') :
      Sequential effect x ((op, answer) :: ops) x''

namespace Implementation

variable {A S T O R X : Type} (M : Implementation A S T O R)

/-- The phase in which an action finds its thread: a call is pending when it starts. -/
def before (s : S) (a : A) (k : T) : Phase O R := (M.starts s a).elim (M.phase s k) Phase.pending

/-- The operation that takes effect in a step, and whose it is. -/
def commit (s : S) (a : A) : Option (T × O × R) :=
  (M.thread a).bind fun k => (M.step a s).bind fun s' =>
    ((M.before s a k).effect (M.phase s' k)).map fun e => (k, e)

/-- The operations that take effect in a run, in this order. -/
def history (as : List A) (s : S) : List (T × O × R) := trace M.step M.commit as s

/-- Those of one thread. -/
def historyOf [DecidableEq T] (k : T) (as : List A) (s : S) : List (O × R) :=
  ((M.history as s).filter fun e => e.1 = k).map Prod.snd

/-- A step changes the value as the phases of its thread tell, and no other phase. -/
structure Lawful (effect : O → X → R → X → Prop) (value : S → X) (s s' : S) (a : A) : Prop where
  own : ∀ k, M.thread a = some k →
    (M.before s a k).Does effect (value s) (M.phase s' k) (value s')
  others : ∀ k, M.thread a ≠ some k → M.phase s' k = M.phase s k
  elsewhere : M.thread a = none → value s' = value s

/-- The runs from the given states are those of an object with the given value, on which an
operation has the given effect. -/
structure Linearizable [DecidableEq T] (effect : O → X → R → X → Prop) (value : S → X)
    (I : S → Prop) : Prop where
  sequential : ∀ {as s s'}, I s → runs M.step as s = some s' →
    Sequential effect (value s) ((M.history as s).map Prod.snd) (value s')
  answered : ∀ {a as s s' k op}, I s → runs M.step (a :: as) s = some s' → M.thread a = some k →
    M.starts s a = some op → (∀ b ∈ as, M.thread b = some k → ∀ t, M.starts t b = none) →
    (M.phase s' k).Tells op (M.historyOf k (a :: as) s)

variable {M} {s s' : S} {a : A} {as : List A} {k : T}

theorem history_cons (h : M.step a s = some s') :
    M.history (a :: as) s = (M.commit s a).toList ++ M.history as s' := by
  rw [history, trace, h]
  rfl

theorem commit_of_thread (h : M.step a s = some s') (hk : M.thread a = some k) :
    M.commit s a = ((M.before s a k).effect (M.phase s' k)).map fun e => (k, e) := by
  rw [commit, hk, h]
  rfl

theorem commit_eq_some (h : M.step a s = some s') {e : T × O × R} (he : M.commit s a = some e) :
    M.thread a = some e.1 ∧ (M.before s a e.1).effect (M.phase s' e.1) = some e.2 := by
  obtain ⟨k, hk, hcommit⟩ := Option.bind_eq_some_iff.mp he
  rw [h] at hcommit
  obtain ⟨op, hop, rfl⟩ := Option.map_eq_some_iff.mp hcommit
  exact ⟨hk, hop⟩

theorem Lawful.value_eq {effect : O → X → R → X → Prop} {value : S → X}
    (law : M.Lawful effect value s s' a) (h : M.step a s = some s')
    (hnone : M.commit s a = none) : value s' = value s := by
  cases hk : M.thread a with
  | none => exact law.elsewhere hk
  | some k =>
    rw [commit_of_thread h hk, Option.map_eq_none_iff] at hnone
    exact (law.own k hk).silent hnone

section Rules

variable [DecidableEq T] {effect : O → X → R → X → Prop} {value : S → X} {I : S → Prop}

theorem historyOf_cons (h : M.step a s = some s') :
    M.historyOf k (a :: as) s =
      (((M.commit s a).toList.filter fun e => e.1 = k).map Prod.snd) ++ M.historyOf k as s' := by
  rw [historyOf, history_cons h, List.filter_append, List.map_append]
  rfl

theorem commit_filter (h : M.step a s = some s') (hk : M.thread a = some k) :
    ((M.commit s a).toList.filter fun e => e.1 = k).map Prod.snd =
      ((M.before s a k).effect (M.phase s' k)).toList := by
  rw [commit_of_thread h hk]
  cases (M.before s a k).effect (M.phase s' k) with
  | none => rfl
  | some e => simp

theorem commit_filter_ne (h : M.step a s = some s') (hk : M.thread a ≠ some k) :
    ((M.commit s a).toList.filter fun e => e.1 = k).map Prod.snd = [] := by
  cases hc : M.commit s a with
  | none => rfl
  | some e =>
    have hne : e.1 ≠ k := fun heq => hk (heq ▸ (commit_eq_some h hc).1)
    simp [hne]

/-- The phase of a thread goes on from what it tells, as long as the thread starts nothing else. -/
theorem tells_runs {op : O} {ops : List (O × R)} (hs : I s)
    (hlaw : ∀ a s s', I s → M.step a s = some s' → I s' ∧ M.Lawful effect value s s' a)
    (htells : (M.phase s k).Tells op ops) (hruns : runs M.step as s = some s')
    (hothers : ∀ b ∈ as, M.thread b = some k → ∀ t, M.starts t b = none) :
    (M.phase s' k).Tells op (ops ++ M.historyOf k as s) := by
  induction as generalizing s ops with
  | nil =>
    obtain rfl := Option.some.inj hruns
    rwa [historyOf, history, trace, List.filter_nil, List.map_nil, List.append_nil]
  | cons b as ih =>
    obtain ⟨s₁, hstep, hrest⟩ := Option.bind_eq_some_iff.mp hruns
    obtain ⟨hs₁, law⟩ := hlaw b s s₁ hs hstep
    have hothers' := fun b' hb => hothers b' (List.mem_cons_of_mem b hb)
    rw [historyOf_cons hstep, ← List.append_assoc]
    refine ih hs₁ ?_ hrest hothers'
    by_cases hk : M.thread b = some k
    · have hdoes := law.own k hk
      have hbefore : M.before s b k = M.phase s k := by
        rw [before, hothers b List.mem_cons_self hk s]
        rfl
      rw [commit_filter hstep hk]
      rw [hbefore] at hdoes ⊢
      exact htells.does hdoes
    · rw [commit_filter_ne hstep hk, List.append_nil, law.others k hk]
      exact htells

/-- The rule for linearizability. -/
theorem linearizable
    (hlaw : ∀ a s s', I s → M.step a s = some s' → I s' ∧ M.Lawful effect value s s' a) :
    M.Linearizable effect value I where
  sequential := by
    intro as s s' hs hruns
    induction as generalizing s with
    | nil =>
      obtain rfl := Option.some.inj hruns
      exact .nil _
    | cons a as ih =>
      obtain ⟨s₁, hstep, hrest⟩ := Option.bind_eq_some_iff.mp hruns
      obtain ⟨hs₁, law⟩ := hlaw a s s₁ hs hstep
      have hseq := ih hs₁ hrest
      rw [history_cons hstep]
      cases hcommit : M.commit s a with
      | none =>
        rw [← law.value_eq hstep hcommit]
        exact hseq
      | some e =>
        obtain ⟨k, op, answer⟩ := e
        obtain ⟨hk, heffect⟩ := commit_eq_some hstep hcommit
        exact .cons ((law.own k hk).takes_effect heffect) hseq
  answered := by
    intro a as s s' k op hs hruns hk hop hothers
    obtain ⟨s₁, hstep, hrest⟩ := Option.bind_eq_some_iff.mp hruns
    obtain ⟨hs₁, law⟩ := hlaw a s s₁ hs hstep
    have hbefore : M.before s a k = .pending op := by
      rw [before, hop]
      rfl
    have hdoes := law.own k hk
    have htells : (Phase.pending op : Phase O R).Tells op [] := ⟨rfl, rfl⟩
    rw [historyOf_cons hstep, commit_filter hstep hk]
    rw [hbefore] at hdoes ⊢
    exact tells_runs hs₁ hlaw (htells.does hdoes) hrest hothers

end Rules

end Implementation

end Linearization
