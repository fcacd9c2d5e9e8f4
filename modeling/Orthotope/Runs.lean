import Orthotope.Simulation
import Orthotope.Lib.StepSystem
import Orthotope.Lib.TotalRuns

/-! Runs of the system: actions one after the other, and a call that is made while nobody else does
anything.  Such a call ends, whatever the sweeps on its way are answered; what it ends in is settled
over sequences and carried over to the code. -/

namespace Orthotope

open ByteMemory

variable {ι κ : Type}

namespace World

variable [DecidableEq ι] [DecidableEq κ] {L B : Type} [BlockStore L B]

/-- The actions one after the other. -/
def runs (debug : Bool) (w : World ι κ L B) : List (Action ι κ) → Option (World ι κ L B)
  | [] => some w
  | action :: actions => (w.step debug action).bind fun w => w.runs debug actions

theorem runs_eq {debug : Bool} {w : World ι κ L B} {actions : List (Action ι κ)} :
    w.runs debug actions =
      StepSystem.runs (fun action (w : World ι κ L B) => w.step debug action) actions w := by
  induction actions generalizing w with
  | nil => rfl
  | cons action actions ih => simp only [runs, StepSystem.runs, ih]

/-- The call in progress on `k` ends in a state of `P` if no other action comes between its steps,
whatever its sweeps are answered. -/
def Ends (debug : Bool) (k : κ) (P : World ι κ L B → Prop) : World ι κ L B → Prop :=
  TotalRuns.Ends (fun advised w => w.step debug (.run k advised))
    (fun w => ∃ outcome, w.threads k = .idle outcome) P

/-- The call that `action` starts on `k` can start, and ends in a state of `P` if it is alone. -/
def Calls (debug : Bool) (k : κ) (action : Action ι κ) (P : World ι κ L B → Prop)
    (w : World ι κ L B) : Prop :=
  ∃ w', w.step debug action = some w' ∧ w'.Ends debug k P

theorem Ends.mono {debug : Bool} {k : κ} {P Q : World ι κ L B → Prop} {w : World ι κ L B}
    (h : w.Ends debug k P) (hpq : ∀ w, P w → Q w) : w.Ends debug k Q :=
  TotalRuns.Ends.mono h hpq

/-- At the end the thread is idle. -/
theorem Ends.idle {debug : Bool} {k : κ} {P : World ι κ L B → Prop} {w : World ι κ L B}
    (h : w.Ends debug k P) :
    w.Ends debug k fun w => ∃ outcome, w.threads k = .idle outcome ∧ P w :=
  TotalRuns.Ends.mono (TotalRuns.Ends.with_stopped h) fun _ ⟨⟨outcome, ht⟩, hp⟩ => ⟨outcome, ht, hp⟩

theorem Calls.idle {debug : Bool} {k : κ} {action : Action ι κ} {P : World ι κ L B → Prop}
    {w : World ι κ L B} (h : w.Calls debug k action P) :
    w.Calls debug k action fun w => ∃ outcome, w.threads k = .idle outcome ∧ P w :=
  h.imp fun _ h => ⟨h.1, h.2.idle⟩

/-- An idle thread has no step to take. -/
theorem step_run_idle {debug : Bool} {k : κ} (advised : Bool × Bool) (w : World ι κ L B)
    (h : ∃ outcome, w.threads k = .idle outcome) : w.step debug (.run k advised) = none := by
  obtain ⟨outcome, ht⟩ := h
  simp only [World.step, ht]

theorem Calls.and {debug : Bool} {k : κ} {action : Action ι κ} {P Q : World ι κ L B → Prop}
    {w : World ι κ L B} (h : w.Calls debug k action P) (h' : w.Calls debug k action Q) :
    w.Calls debug k action fun w => P w ∧ Q w := by
  obtain ⟨w₁, hstep, hends⟩ := h
  obtain ⟨w₂, hstep', hends'⟩ := h'
  obtain rfl := Option.some.inj (hstep.symm.trans hstep')
  exact ⟨w₁, hstep, TotalRuns.Ends.and hends hends' step_run_idle⟩

/-- Some end of the call. -/
theorem Calls.exists_end {debug : Bool} {k : κ} {action : Action ι κ} {P : World ι κ L B → Prop}
    {w : World ι κ L B} (h : w.Calls debug k action P) : ∃ w', P w' := by
  obtain ⟨w₁, -, hends⟩ := h
  obtain ⟨-, w', -, -, hp⟩ := TotalRuns.Ends.exists_run hends
  exact ⟨w', hp⟩

theorem runs_map_run {debug : Bool} {k : κ} {w : World ι κ L B} {choices : List (Bool × Bool)} :
    w.runs debug (choices.map (Action.run k)) =
      choices.foldlM (fun w advised => w.step debug (.run k advised)) w := by
  induction choices generalizing w with
  | nil => rfl
  | cons advised choices ih =>
    rw [List.map_cons, runs, List.foldlM_cons]
    exact congrArg _ (funext fun w' => ih)

/-- Every end of the call. -/
theorem Calls.of_runs {debug : Bool} {k : κ} {action : Action ι κ} {P : World ι κ L B → Prop}
    {w w' : World ι κ L B} (h : w.Calls debug k action P) {choices : List (Bool × Bool)}
    (hruns : w.runs debug (action :: choices.map (Action.run k)) = some w')
    (hidle : ∃ outcome, w'.threads k = .idle outcome) : P w' := by
  obtain ⟨w₁, hstep, hends⟩ := h
  obtain ⟨w₂, hstep', hrest⟩ := Option.bind_eq_some_iff.mp hruns
  obtain rfl := Option.some.inj (hstep.symm.trans hstep')
  exact TotalRuns.Ends.of_run hends step_run_idle (runs_map_run.symm.trans hrest) hidle

theorem Calls.mono {debug : Bool} {k : κ} {action : Action ι κ} {P Q : World ι κ L B → Prop}
    {w : World ι κ L B} (h : w.Calls debug k action P) (hpq : ∀ w, P w → Q w) :
    w.Calls debug k action Q :=
  h.imp fun _ h => ⟨h.1, h.2.mono hpq⟩

end World

theorem World.runs_append [DecidableEq ι] [DecidableEq κ] {L B : Type} [BlockStore L B]
    {debug : Bool} {w : World ι κ L B}
    {actions actions' : List (Action ι κ)} : w.runs debug (actions ++ actions') =
      (w.runs debug actions).bind fun w => w.runs debug actions' := by
  induction actions generalizing w with
  | nil => rfl
  | cons action actions ih =>
    simp only [List.cons_append, World.runs, Option.bind_assoc]
    congr 1
    funext w₁
    exact ih

/-! ### Beginnings of calls -/

/-- What an allocation begins with. -/
theorem View.startAllocate_cases {L B : Type} (v : View ι κ L B) (a : ι) (size : Nat) :
    v.startAllocate a size = v.finish (.allocError .zeroSize) ∨
      ∃ pc, v.startAllocate a size = v.goto a pc ∧
        ((∃ c, pc = .refill c size) ∨ (∃ c, pc = .pop c size) ∨
          (∃ blockSize, pc = .large size blockSize) ∨ pc = .report size) := by
  unfold View.startAllocate
  split
  · exact Or.inl rfl
  · split
    · split
      · exact Or.inr ⟨_, rfl, Or.inr (Or.inr (Or.inr rfl))⟩
      · exact Or.inr ⟨_, rfl, Or.inr (Or.inr (Or.inl ⟨_, rfl⟩))⟩
    · rename_i c _
      cases v.cache.needsRefill c with
      | true => exact Or.inr ⟨_, rfl, Or.inl ⟨c, rfl⟩⟩
      | false => exact Or.inr ⟨_, rfl, Or.inr (Or.inl ⟨c, rfl⟩)⟩

section Begin

variable {L B : Type} [BlockStore L B] {w w' : World ι κ L B} {debug : Bool} {a : ι} {k : κ}

/-- The thread of a call that has just begun on `cache`. -/
inductive Thread.Begun (cache : ThreadCache ι L) (a : ι) : Thread ι κ B → Prop
  | answered {outcome : Outcome} (h : outcome ≠ .drained) : Begun cache a (.idle (some outcome))
  | refill {c : SizeClass} {size : Nat} (h : cache.needsRefill c = true)
      (hc : SizeClass.fromRequest size = some c) : Begun cache a (.busy a (.refill c size))
  | pop {c : SizeClass} {size : Nat} (h : cache.needsRefill c = false)
      (hc : SizeClass.fromRequest size = some c) : Begun cache a (.busy a (.pop c size))
  | large {size blockSize : Nat} (hc : SizeClass.fromRequest size = none) :
      Begun cache a (.busy a (.large size blockSize))
  | report {size : Nat} (hc : SizeClass.fromRequest size = none) :
      Begun cache a (.busy a (.report size))
  | route {c : SizeClass} {block owner : Nat} : Begun cache a (.busy a (.route c block owner))
  | releasing {entry : Live ι κ} {requestedSize usableSize : Nat} :
      Begun cache a (.busy a (.releasing entry requestedSize usableSize))
  | flush : Begun cache a (.busy a (.flush SizeClass.all))

/-- What a call begins with: the allocator is as it was, and the cache is the bound one. -/
structure View.Begun (v v' : View ι κ L B) (a : ι) : Prop where
  allocator : v'.allocator = v.allocator
  cache : v'.cache = v.cache
  thread : v'.thread.Begun v.cache a

omit [BlockStore L B] in
theorem View.startAllocate_begun (v : View ι κ L B) (size : Nat) :
    v.Begun (v.startAllocate a size) a := by
  unfold View.startAllocate
  split
  · exact ⟨rfl, rfl, .answered nofun⟩
  · split
    · split
      · exact ⟨rfl, rfl, .report ‹_›⟩
      · exact ⟨rfl, rfl, .large ‹_›⟩
    · rename_i c hc
      refine ⟨rfl, rfl, ?_⟩
      cases hneeds : v.cache.needsRefill c with
      | true => exact .refill hneeds hc
      | false => exact .pop hneeds hc

omit [BlockStore L B] in
theorem View.startFree_begun (v : View ι κ L B) (entry : Live ι κ) (rest : List (Live ι κ))
    (expectedSize : Option Nat) : v.Begun (v.startFree debug a entry rest expectedSize) a := by
  unfold View.startFree
  split
  · exact ⟨rfl, rfl, .answered nofun⟩
  · exact ⟨rfl, rfl, .route⟩
  · exact ⟨rfl, rfl, .releasing⟩

variable [DecidableEq ι] [DecidableEq κ]

/-- What an action does that is not a step of a call: it begins a call, or moves no call at all. -/
theorem World.step_begins {action : Action ι κ} (hrun : ∀ k advised, action ≠ .run k advised)
    (h : w.step debug action = some w') :
    (∃ k a last v, action.caller = some k ∧ w.threads k = .idle last ∧ w' = w.update a k v ∧
      v.allocator = w.allocators a ∧
        ((w.caches k).bindToAllocator a (w.allocators a).config = none ∧ v.cache = w.caches k ∧
            v.thread = .idle (some .panicked) ∨
          (w.caches k).bindToAllocator a (w.allocators a).config = some v.cache ∧
            v.thread.Begun v.cache a)) ∨
    w'.allocators = w.allocators ∧ w'.caches = w.caches ∧ w'.threads = w.threads := by
  have hcall : ∀ {k : κ} {a : ι} {start : View ι κ L B → View ι κ L B},
      (∀ v : View ι κ L B, v.Begun (start v) a) → w.call k a start = some w' →
      ∃ last v, w.threads k = .idle last ∧ w' = w.update a k v ∧ v.allocator = w.allocators a ∧
        ((w.caches k).bindToAllocator a (w.allocators a).config = none ∧ v.cache = w.caches k ∧
            v.thread = .idle (some .panicked) ∨
          (w.caches k).bindToAllocator a (w.allocators a).config = some v.cache ∧
            v.thread.Begun v.cache a) := by
    intro k a start hstart hc
    unfold World.call at hc
    split at hc
    · cases hc
    · rename_i last ht
      split at hc
      · rename_i hbind
        obtain rfl := Option.some.inj hc
        exact ⟨last, _, ht, rfl, rfl, Or.inl ⟨hbind, rfl, rfl⟩⟩
      · rename_i cache hbind
        obtain rfl := Option.some.inj hc
        have hb := hstart ((w.view a k).setCache cache)
        refine ⟨last, _, ht, rfl, hb.allocator, Or.inr ⟨?_, ?_⟩⟩
        · rw [hb.cache]
          exact hbind
        · rw [hb.cache]
          exact hb.thread
  cases action with
  | allocate k a size =>
    have h : w.call k a (fun v => v.startAllocate a size) = some w' := h
    obtain ⟨last, v, hv⟩ := hcall (fun v => v.startAllocate_begun size) h
    exact Or.inl ⟨k, a, last, v, rfl, hv⟩
  | deallocate k a i expectedSize =>
    obtain ⟨entry, -, h⟩ := Option.bind_eq_some_iff.mp h
    obtain ⟨last, v, hv⟩ := hcall (fun v => v.startFree_begun entry _ expectedSize) h
    exact Or.inl ⟨k, a, last, v, rfl, hv⟩
  | drain k a =>
    have h : w.call k a (fun v => v.goto a (.flush SizeClass.all)) = some w' := h
    have hstart : ∀ v : View ι κ L B, v.Begun (v.goto a (.flush SizeClass.all)) a :=
      fun v => ⟨rfl, rfl, .flush⟩
    obtain ⟨last, v, hv⟩ := hcall hstart h
    exact Or.inl ⟨k, a, last, v, rfl, hv⟩
  | run k advised => exact absurd rfl (hrun k advised)
  | store i offset value =>
    obtain ⟨entry, -, h⟩ := Option.bind_eq_some_iff.mp h
    split at h
    · obtain rfl := Option.some.inj h
      exact Or.inr ⟨rfl, rfl, rfl⟩
    · cases h
  | discard page =>
    simp only [World.step] at h
    split at h
    · obtain rfl := Option.some.inj h
      exact Or.inr ⟨rfl, rfl, rfl⟩
    · cases h

end Begin

/-- What a step of a call in progress does. -/
theorem Inv.run_cases [DecidableEq ι] [DecidableEq κ] {setup : Setup ι κ}
    {s s' : World ι κ Seq Seq} (inv : Inv setup s) {k : κ}
    {advised : Bool × Bool} (h : s.step setup.debug (.run k advised) = some s') :
    ∃ a pc v, s.threads k = .busy a pc ∧ s' = s.update a k v ∧
      (s.view a k).next setup.debug advised a k pc = some v ∧
        Transition setup.debug s a k pc v := by
  cases ht : s.threads k with
  | idle last => simp [World.step, ht] at h
  | busy a pc =>
    simp only [World.step, ht] at h
    obtain ⟨v, hv, rfl⟩ := Option.map_eq_some_iff.mp h
    have htrans := inv.transition ht hv
    exact ⟨a, pc, v, rfl, rfl, hv, htrans⟩

/-- What an action does: it takes a call a step on, begins one, or moves no call at all. -/
theorem Inv.step_cases [DecidableEq ι] [DecidableEq κ] {setup : Setup ι κ}
    {s s' : World ι κ Seq Seq} (inv : Inv setup s)
    {action : Action ι κ} (h : s.step setup.debug action = some s') :
    (∃ k a pc advised v, action = .run k advised ∧ s.threads k = .busy a pc ∧
      s' = s.update a k v ∧ (s.view a k).next setup.debug advised a k pc = some v ∧
        Transition setup.debug s a k pc v) ∨
    (∃ k a last v, action.caller = some k ∧ s.threads k = .idle last ∧ s' = s.update a k v ∧
      v.allocator = s.allocators a ∧
        ((s.caches k).bindToAllocator a (s.allocators a).config = none ∧ v.cache = s.caches k ∧
            v.thread = .idle (some .panicked) ∨
          (s.caches k).bindToAllocator a (s.allocators a).config = some v.cache ∧
            v.thread.Begun v.cache a)) ∨
    s'.allocators = s.allocators ∧ s'.caches = s.caches ∧ s'.threads = s.threads := by
  by_cases hrun : ∃ k advised, action = .run k advised
  · obtain ⟨k, advised, rfl⟩ := hrun
    obtain ⟨a, pc, v, ht, hs', hv, htrans⟩ := inv.run_cases h
    exact Or.inl ⟨k, a, pc, advised, v, rfl, ht, hs', hv, htrans⟩
  · exact Or.inr (World.step_begins (fun k advised heq => hrun ⟨k, advised, heq⟩) h)

section Reach

variable [DecidableEq ι] [DecidableEq κ] {setup : Setup ι κ} {L B : Type} [BlockStore L B]
  {w : World ι κ L B}

theorem Setup.Reachable.runs (h : setup.Reachable w) {actions : List (Action ι κ)}
    {w' : World ι κ L B} (hruns : w.runs setup.debug actions = some w') : setup.Reachable w' := by
  induction actions generalizing w with
  | nil => exact Option.some.inj hruns ▸ h
  | cons action actions ih =>
    obtain ⟨w₁, hstep, hrest⟩ := Option.bind_eq_some_iff.mp hruns
    exact ih (h.step action hstep) hrest

theorem Setup.Reachable.ends (h : setup.Reachable w) {k : κ} {P : World ι κ L B → Prop}
    (hends : w.Ends setup.debug k P) :
    w.Ends setup.debug k fun w' => setup.Reachable w' ∧ P w' :=
  TotalRuns.Ends.keep hends (fun advised _ _ hr hstep => hr.step (.run k advised) hstep) h

end Reach

section Refine

variable {setup : Setup ι κ} {w : World ι κ FreeList Batch} {s : World ι κ Seq Seq} {k : κ}

theorem Refines.idle (h : Refines w s) (hidle : ∃ outcome, s.threads k = .idle outcome) :
    ∃ outcome, w.threads k = .idle outcome := by
  obtain ⟨outcome, ht⟩ := hidle
  refine ⟨outcome, ?_⟩
  rw [h.threads_eq, ht]
  rfl

variable [DecidableEq ι] [DecidableEq κ]

/-- A run of the code is a run over sequences. -/
theorem Refines.runs_forward (inv : Inv setup s) (h : Refines w s) {actions : List (Action ι κ)}
    {w' : World ι κ FreeList Batch} (hruns : w.runs setup.debug actions = some w') :
    ∃ s', s.runs setup.debug actions = some s' ∧ Refines w' s' := by
  induction actions generalizing w s with
  | nil =>
    obtain rfl := Option.some.inj hruns
    exact ⟨s, rfl, h⟩
  | cons action actions ih =>
    obtain ⟨w₁, hstep, hrest⟩ := Option.bind_eq_some_iff.mp hruns
    obtain ⟨s₁, hstep₁, h₁⟩ := h.forward inv hstep
    obtain ⟨s', hruns', h'⟩ := ih (inv.step hstep₁) h₁ hrest
    exact ⟨s', Option.bind_eq_some_iff.mpr ⟨s₁, hstep₁, hruns'⟩, h'⟩

/-- What a call over sequences ends in is what the call of the code stands for at its end. -/
theorem Refines.ends (h : Refines w s) (inv : Inv setup s) {P : World ι κ Seq Seq → Prop}
    (hends : s.Ends setup.debug k P) :
    w.Ends setup.debug k fun w' => ∃ s', Refines w' s' ∧ P s' := by
  have hsim : w.Ends setup.debug k fun w' => ∃ s', (Refines w' s' ∧ Inv setup s') ∧ P s' := by
    refine TotalRuns.Ends.simulate hends (fun w s advised s' hrel hstep => ?_)
      (fun w s hrel hidle => hrel.1.idle hidle) ⟨h, inv⟩
    obtain ⟨hr, hi⟩ := hrel
    cases ht : s.threads k with
    | idle outcome => simp [World.step, ht] at hstep
    | busy a pc =>
      have ht' : w.threads k = .busy a (pc.map Batch.ofSeq) := by
        rw [hr.threads_eq, ht]
        rfl
      obtain ⟨w', s₁, hw, hs, hr'⟩ := hr.run setup.debug hi ht' advised
      obtain rfl := Option.some.inj (hs.symm.trans hstep)
      exact ⟨w', hw, hr', hi.step hstep⟩
  refine hsim.mono fun w' hend => ?_
  obtain ⟨s', hrel, hp⟩ := hend
  exact ⟨s', hrel.1, hp⟩

theorem Refines.calls (h : Refines w s) (inv : Inv setup s) {action : Action ι κ}
    (hcall : action.caller = some k) {P : World ι κ Seq Seq → Prop}
    (hcalls : s.Calls setup.debug k action P) :
    w.Calls setup.debug k action fun w' => ∃ s', Refines w' s' ∧ P s' := by
  obtain ⟨s₁, hstep, hends⟩ := hcalls
  obtain ⟨r, hr⟩ : ∃ r, r = w.step setup.debug action := ⟨_, rfl⟩
  have hrel := h.starts setup.debug inv hcall
  rw [hstep, ← hr] at hrel
  cases hrel with
  | some hrefines => exact ⟨_, hr.symm, hrefines.ends (inv.step hstep) hends⟩

end Refine

/-- The state that the actions lead to, when they are possible. -/
def Setup.after [DecidableEq ι] [DecidableEq κ] (setup : Setup ι κ) (actions : List (Action ι κ))
    (h : ((setup.world FreeList Batch).runs setup.debug actions).isSome) :
    World ι κ FreeList Batch :=
  ((setup.world FreeList Batch).runs setup.debug actions).get h

section After

variable [DecidableEq ι] [DecidableEq κ] {setup : Setup ι κ} {actions : List (Action ι κ)}
  (h : ((setup.world FreeList Batch).runs setup.debug actions).isSome)

theorem Setup.after_reachable : setup.Reachable (setup.after actions h) :=
  Setup.Reachable.initial.runs (Option.some_get h).symm

theorem Setup.after_runs {actions' : List (Action ι κ)}
    (h' : ((setup.world FreeList Batch).runs setup.debug (actions ++ actions')).isSome) :
    (setup.after actions h).runs setup.debug actions' =
        some (setup.after (actions ++ actions') h') := by
  have hruns : (setup.world FreeList Batch).runs setup.debug (actions ++ actions') =
      ((setup.world FreeList Batch).runs setup.debug actions).bind fun w =>
        w.runs setup.debug actions' := World.runs_append
  rw [← Option.some_get h] at hruns
  rw [Setup.after, Setup.after, Option.some_get h', hruns]
  rfl

theorem Setup.after_step {action : Action ι κ}
    (h' : ((setup.world FreeList Batch).runs setup.debug (actions ++ [action])).isSome) :
    (setup.after actions h).step setup.debug action =
        some (setup.after (actions ++ [action]) h') := by
  have hruns := setup.after_runs h h'
  simpa [World.runs] using hruns

end After

/-! ### A concrete system -/

/-- How the last call ended, when there is none in progress. -/
def Thread.last? {B : Type} : Thread ι κ B → Option (Option Outcome)
  | .idle last => some last
  | .busy .. => none

theorem Thread.eq_idle {B : Type} {thread : Thread ι κ B} {last : Option Outcome}
    (h : thread.last? = some last) : thread = .idle last := by
  cases thread with
  | idle last' => rw [Option.some.inj h]
  | busy a pc => cases h

theorem samplePageSize : Nat.isPowerOfTwo 4096 := ⟨12, rfl⟩

theorem sampleCacheId_lt (k : Fin 2) : k.val < 2 ^ 32 := by omega

/-- The samples have two caches, which are written `0` and `1`. -/
instance sampleCaches : NeZero 2 := ⟨Nat.succ_ne_zero 1⟩

/-- One allocator with an arena of four pages, and two caches, in a debug build. -/
def sampleSetup : Setup Unit (Fin 2) where
  debug := true
  pageSize := 4096
  config := fun _ => ⟨16384, 64, 256, 384⟩
  mapping := fun _ => 4096
  arena := fun _ => ⟨4096, 16384, 0, 64⟩
  cacheConfig := fun _ => ⟨16384, 64, 256, 384⟩
  cacheId := fun k => k.val
  pageSize_isPowerOfTwo := samplePageSize
  accepted := fun _ => rfl
  mapping_le := fun _ => by decide
  mapping_disjoint := fun a b h => absurd (Subsingleton.elim a b) h
  cacheId_lt := sampleCacheId_lt

/-- The steps of an allocation of `size` by cache `k` that finds the cache and the pool empty. -/
def sampleCarve (k : Fin 2) (size : Nat) : List (Action Unit (Fin 2)) :=
  .allocate k () size :: List.replicate 6 (.run k (true, true))

/-- Two live allocations of cache 0, and one of cache 1 on which cache 0 has begun a free. -/
def sampleActions : List (Action Unit (Fin 2)) :=
  sampleCarve 0 10 ++ [.allocate 0 () 20, .run 0 (true, true), .run 0 (true, true)] ++
    sampleCarve 1 30 ++ [.store 0 3 7, .deallocate 0 () 2 none]

theorem sampleActions_run :
    ((sampleSetup.world FreeList Batch).runs true sampleActions).isSome := by
  decide +kernel

def sampleWorld : World Unit (Fin 2) FreeList Batch :=
  ((sampleSetup.world FreeList Batch).runs true sampleActions).get sampleActions_run

theorem sampleWorld_reachable : sampleSetup.Reachable sampleWorld :=
  Setup.Reachable.initial.runs (Option.some_get sampleActions_run).symm

example : sampleWorld.live.map (fun e => (e.ptr, e.size)) = [(4160, 10), (4288, 20)] := by
  decide +kernel

end Orthotope
