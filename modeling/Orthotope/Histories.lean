import Orthotope.Discards
import Orthotope.RejectedFrees
import Orthotope.Refresh
import Orthotope.WaitFree
import Orthotope.Lib.BlockHeap

/-! The allocator as a heap of blocks.  A call takes effect at one of its own steps, between its
start and its end: an allocation when it returns its block, a small free once its checks have
passed, and a large free when it takes the record out of the registry.  So every run, however its
calls interleave, has a history of single operations of a sequential heap, and each call has the one
operation in it that it answers for. -/

namespace Orthotope

open ByteMemory BlockHeap

variable {ι κ : Type}

def Live.block (e : Live ι κ) : Block UInt8 := ⟨e.ptr, e.size, e.written⟩

def Live.store (e : Live ι κ) (offset : Nat) (value : UInt8) : Live ι κ :=
  { e with written := Function.update e.written offset (some value) }

/-- The allocation that a free of a large block has taken from its client and not released yet. -/
def Thread.releasing? {B : Type} : Thread ι κ B → Option (Live ι κ)
  | .busy _ (.releasing entry _ _) => some entry
  | _ => none

/-- The allocation is live, or its free has not taken effect yet. -/
def World.Holds {L B : Type} (w : World ι κ L B) (e : Live ι κ) : Prop :=
  e ∈ w.live ∨ ∃ k, (w.threads k).releasing? = some e

/-- The heap operation that takes effect with a step of a call. -/
def Thread.commit {B : Type} : Thread ι κ B → Thread ι κ B → Option (Op UInt8)
  | .busy _ (.popped _ size _ _), .idle (some (.allocated ptr)) => some (.alloc ptr size)
  | .busy _ (.largeWritten size _ _), .idle (some (.allocated ptr)) => some (.alloc ptr size)
  | .busy _ (.releasing entry _ _), .idle (some .freed) => some (.free entry.ptr)
  | _, _ => none

/-- The heap operation that takes effect between two states, one action apart. -/
def World.commit {L B : Type} (w w' : World ι κ L B) : Action ι κ → Option (Op UInt8)
  | .run k _ => (w.threads k).commit (w'.threads k)
  | .deallocate k _ i _ =>
    match w.live[i]?, w'.threads k with
    | some entry, .busy _ (.route ..) => some (.free entry.ptr)
    | _, _ => none
  | .store i offset value => w.live[i]?.map fun entry => .store entry.ptr offset value
  | .allocate .. | .drain .. | .discard .. => none

/-- The operations that take effect during a run, by the actions that `by_` selects. -/
def World.history [DecidableEq ι] [DecidableEq κ] {L B : Type} [BlockStore L B]
    (by_ : Action ι κ → Bool) (debug : Bool)
    (w : World ι κ L B) : List (Action ι κ) → List (Op UInt8)
  | [] => []
  | action :: actions =>
    match w.step debug action with
    | none => []
    | some w' => (if by_ action then (w.commit w' action).toList else []) ++
        w'.history by_ debug actions

/-! ### Allocations are apart -/

section Apart

variable {setup : Setup ι κ} {s s' : World ι κ Seq Seq} {a : ι} {k : κ} {e e' : Live ι κ}

variable [DecidableEq ι] [DecidableEq κ]

end Apart

/-! ### What a step does to the heap -/

section Steps

variable [DecidableEq κ] {setup : Setup ι κ} {s s' : World ι κ Seq Seq} {a : ι} {k : κ}
  {e e' : Live ι κ} {v : View ι κ Seq Seq}

variable [DecidableEq ι]

theorem World.history_cons {L B : Type} [BlockStore L B] {by_ : Action ι κ → Bool} {debug : Bool}
    {w w' : World ι κ L B} {action : Action ι κ} {actions : List (Action ι κ)}
    (h : w.step debug action = some w') : w.history by_ debug (action :: actions) =
      (if by_ action then (w.commit w' action).toList else []) ++
        w'.history by_ debug actions := by
  rw [World.history, h]

end Steps

/-! ### What a call answers for -/

/-- The action belongs to a call on `k`. -/
def Action.of [DecidableEq κ] (k : κ) : Action ι κ → Bool
  | .allocate j _ _ | .deallocate j _ _ _ | .drain j _ | .run j _ => j = k
  | .store .. | .discard .. => false

/-- The heap operations of a call that ended with the given answer, when `live` was live before
it. -/
inductive Answers (live : List (Live ι κ)) : Action ι κ → Outcome → List (Op UInt8) → Prop
  | allocated {k : κ} {a : ι} {size ptr : Nat} :
      Answers live (.allocate k a size) (.allocated ptr) [.alloc ptr size]
  | allocError {k : κ} {a : ι} {size : Nat} {e : AllocError} :
      Answers live (.allocate k a size) (.allocError e) []
  | freed {k : κ} {a : ι} {i : Nat} {expectedSize : Option Nat} {entry : Live ι κ}
      (hentry : live[i]? = some entry) :
      Answers live (.deallocate k a i expectedSize) .freed [.free entry.ptr]
  | freeError {k : κ} {a : ι} {i : Nat} {expectedSize : Option Nat} {e : FreeError} :
      Answers live (.deallocate k a i expectedSize) (.freeError e) []
  | drained {k : κ} {a : ι} : Answers live (.drain k a) .drained []
  | panicked {start : Action ι κ} : Answers live start .panicked []

/-- The heap operations of a call so far, by how far it has come. -/
inductive Progress (live : List (Live ι κ)) :
    Action ι κ → Thread ι κ Seq → List (Op UInt8) → Prop
  | allocating {k : κ} {a b : ι} {size : Nat} {pc : Pc ι κ Seq} (h : pc.request = some size) :
      Progress live (.allocate k a size) (.busy b pc) []
  | freeing {k : κ} {a b : ι} {i : Nat} {expectedSize : Option Nat} {entry : Live ι κ}
      {pc : Pc ι κ Seq} (hentry : live[i]? = some entry) (h : pc.FreesSmall) :
      Progress live (.deallocate k a i expectedSize) (.busy b pc) [.free entry.ptr]
  | releasing {k : κ} {a b : ι} {i requestedSize usableSize : Nat} {expectedSize : Option Nat}
      {entry : Live ι κ} (hentry : live[i]? = some entry) :
      Progress live (.deallocate k a i expectedSize)
        (.busy b (.releasing entry requestedSize usableSize)) []
  | draining {k : κ} {a b : ι} {pc : Pc ι κ Seq} (h : pc.Drains) :
      Progress live (.drain k a) (.busy b pc) []
  | ended {start : Action ι κ} {outcome : Outcome} {ops : List (Op UInt8)}
      (h : Answers live start outcome ops) : Progress live start (.idle (some outcome)) ops

section Answers

variable {setup : Setup ι κ} {s s' : World ι κ Seq Seq} {a b : ι} {k : κ} {debug : Bool}
  {v : View ι κ Seq Seq} {pc : Pc ι κ Seq} {live : List (Live ι κ)} {start : Action ι κ}
  {ops : List (Op UInt8)}

theorem Progress.transition_allocate {j : κ} {size : Nat} (h : pc.request = some size)
    (htrans : Transition debug s a k pc v) : Progress live (.allocate j b size) v.thread
      ((Thread.busy a pc).commit v.thread).toList := by
  cases htrans with
  | @refill c n m central r _ => cases r <;> exact .allocating h
  | takeSlab hpc => rcases hpc with rfl | rfl <;> exact .allocating h
  | carveFail => exact .ended .allocError
  | largeFail => exact .ended .allocError
  | report => exact .ended .allocError
  | give =>
    obtain rfl := Option.some.inj h
    exact .ended .allocated
  | record =>
    obtain rfl := Option.some.inj h
    exact .ended .allocated
  | takeBatch | carve | carveNone | register | pop | largeReuse | largeMiss | largeReserve
  | largeWrite | largeUnwritable => exact .allocating h
  | _ => cases h

theorem Progress.transition_free {j : κ} {i : Nat} {expectedSize : Option Nat} {entry : Live ι κ}
    (hentry : live[i]? = some entry) (h : pc.FreesSmall) (htrans : Transition debug s a k pc v) :
    Progress live (.deallocate j b i expectedSize) v.thread
      ([.free entry.ptr] ++ ((Thread.busy a pc).commit v.thread).toList) := by
  have hresume : ∀ (v : View ι κ Seq Seq) (resume : Resume), resume = .done →
      (v.resume a resume).thread = .idle (some .freed) := fun v resume h => by
    rw [h]
    rfl
  cases htrans with
  | push _ _ _ _ _ hthread =>
    rcases hthread with rfl | ⟨-, rfl⟩
    · exact .ended (.freed hentry)
    · exact .freeing hentry rfl
  | stage _ hthread =>
    rcases hthread with rfl | rfl
    · exact .ended (.freed hentry)
    · exact .freeing hentry rfl
  | unstage _ => exact .freeing hentry h
  | excess => exact .freeing hentry h
  | unstageNone _ =>
    rw [hresume _ _ h]
    exact .ended (.freed hentry)
  | publish =>
    rw [hresume _ _ h]
    exact .ended (.freed hentry)
  | returnBatch =>
    rw [hresume _ _ h]
    exact .ended (.freed hentry)
  | takeSlab hpc => rcases hpc with rfl | rfl <;> exact h.elim
  | _ => exact h.elim

theorem Progress.transition_drain {j : κ} (h : pc.Drains) (htrans : Transition debug s a k pc v) :
    Progress live (.drain j b) v.thread ((Thread.busy a pc).commit v.thread).toList := by
  cases htrans with
  | flushEnd => exact .draining trivial
  | flush => exact .draining ⟨_, rfl⟩
  | drainEnd => exact .ended .drained
  | drainNext => exact .draining trivial
  | drain => exact .draining ⟨_, rfl⟩
  | unstage => exact .draining h
  | excess => exact .draining h
  | unstageNone =>
    obtain ⟨classes, rfl⟩ := h
    exact .draining trivial
  | publish =>
    obtain ⟨classes, rfl⟩ := h
    exact .draining trivial
  | returnBatch =>
    obtain ⟨classes, rfl⟩ := h
    exact .draining trivial
  | takeSlab hpc => rcases hpc with rfl | rfl <;> exact h.elim
  | _ => exact h.elim

/-- A step of a call adds the operation that takes effect with it. -/
theorem Progress.transition (h : Progress live start (.busy a pc) ops)
    (htrans : Transition debug s a k pc v) :
    Progress live start v.thread (ops ++ ((Thread.busy a pc).commit v.thread).toList) := by
  cases h with
  | allocating hrequest => exact Progress.transition_allocate hrequest htrans
  | freeing hentry hfrees => exact Progress.transition_free hentry hfrees htrans
  | releasing hentry =>
    cases htrans with
    | takeSlab hpc => rcases hpc with hpc | hpc <;> cases hpc
    | release => exact .ended (.freed hentry)
    | refuse => exact .ended .freeError
  | draining hdrains => exact Progress.transition_drain hdrains htrans

variable [DecidableEq ι] [DecidableEq κ]

theorem Progress.of_start (hcaller : start.caller = some k)
    (hstep : s.step debug start = some s') :
    Progress s.live start (s'.threads k) (s.commit s' start).toList := by
  cases start with
  | allocate j a size =>
    obtain rfl : j = k := Option.some.inj hcaller
    have hcall : s.call j a (fun v => v.startAllocate a size) = some s' := hstep
    obtain ⟨-, rfl | ⟨cache, rfl⟩⟩ := World.call_cases hcall
    · rw [World.update_threads_same]
      exact .ended .panicked
    · rw [World.update_threads_same]
      show Progress _ _ _ []
      rcases ((s.view a j).setCache cache).startAllocate_cases a size with h | ⟨pc, h, hpc⟩
      · rw [h]
        exact .ended .allocError
      · rw [h]
        rcases hpc with ⟨c, rfl⟩ | ⟨c, rfl⟩ | ⟨blockSize, rfl⟩ | rfl <;> exact .allocating rfl
  | deallocate j a i expectedSize =>
    obtain rfl : j = k := Option.some.inj hcaller
    obtain ⟨entry, he, hcall⟩ := Option.bind_eq_some_iff.mp hstep
    obtain ⟨-, rfl | ⟨cache, rfl⟩⟩ := World.call_cases hcall
    · simp only [World.commit, he, World.update_threads_same, View.finish]
      exact .ended .panicked
    · generalize hv : View.startFree debug a ((s.view a j).setCache cache) entry
        (((s.view a j).setCache cache).live.eraseIdx i) expectedSize = v
      obtain ⟨-, ⟨-, -, e, hthread⟩ | ⟨-, -, c, owner, hthread⟩ |
        ⟨-, -, requested, usable, hthread⟩⟩ := View.startFree_cases hv
      · simp only [World.commit, he, World.update_threads_same, hthread]
        exact .ended .freeError
      · simp only [World.commit, he, World.update_threads_same, hthread]
        exact .freeing he trivial
      · simp only [World.commit, he, World.update_threads_same, hthread]
        exact .releasing he
  | drain j a =>
    obtain rfl : j = k := Option.some.inj hcaller
    have hcall : s.call j a (fun v => v.goto a (.flush SizeClass.all)) = some s' := hstep
    obtain ⟨-, rfl | ⟨cache, rfl⟩⟩ := World.call_cases hcall
    · rw [World.update_threads_same]
      exact .ended .panicked
    · rw [World.update_threads_same]
      exact .draining trivial
  | run j advised => cases hcaller
  | store i offset value => cases hcaller
  | discard page => cases hcaller

/-- What others do adds nothing to the operations of a call. -/
theorem Progress.runs (inv : Inv setup s) (h : Progress live start (s.threads k) ops)
    {actions : List (Action ι κ)} (hothers : ∀ action ∈ actions, action.caller ≠ some k)
    (hruns : s.runs setup.debug actions = some s') :
    Progress live start (s'.threads k)
      (ops ++ s.history (Action.of k) setup.debug actions) := by
  induction actions generalizing s ops with
  | nil =>
    obtain rfl := Option.some.inj hruns
    rw [World.history, List.append_nil]
    exact h
  | cons action actions ih =>
    obtain ⟨s₁, hstep, hrest⟩ := Option.bind_eq_some_iff.mp hruns
    have hcaller := hothers action List.mem_cons_self
    rw [World.history_cons hstep, ← List.append_assoc]
    refine ih (inv.step hstep) ?_ (fun b hb => hothers b (List.mem_cons_of_mem action hb)) hrest
    by_cases hrun : ∃ advised, action = .run k advised
    · obtain ⟨advised, rfl⟩ := hrun
      obtain ⟨a, pc, v, ht, rfl, -, htrans⟩ := inv.run_cases hstep
      have hof : Action.of k (.run k advised : Action ι κ) = true := decide_eq_true rfl
      rw [if_pos hof, World.commit, ht, World.update_threads_same]
      exact (ht ▸ h).transition htrans
    · have hne : ∀ advised, action ≠ .run k advised := fun advised heq => hrun ⟨advised, heq⟩
      have hof : Action.of k action = false := by
        cases action with
        | run j advised => exact decide_eq_false fun hj => hne advised (hj ▸ rfl)
        | allocate j a size => exact decide_eq_false fun hj => hcaller (hj ▸ rfl)
        | deallocate j a i expectedSize => exact decide_eq_false fun hj => hcaller (hj ▸ rfl)
        | drain j a => exact decide_eq_false fun hj => hcaller (hj ▸ rfl)
        | store i offset value => rfl
        | discard page => rfl
      rw [hof, World.step_thread_ne hcaller hne hstep]
      simpa using h

end Answers

/-! ### Histories of the code -/

section Code

variable {setup : Setup ι κ} {w w' : World ι κ FreeList Batch} {s s' : World ι κ Seq Seq} {a : ι}
  {k : κ} {actions : List (Action ι κ)}

theorem Thread.commit_map (thread thread' : Thread ι κ Seq) :
    (thread.map Batch.ofSeq).commit (thread'.map Batch.ofSeq) = thread.commit thread' := by
  cases thread with
  | idle last => rfl
  | busy a pc =>
    cases thread' with
    | idle last =>
      cases last with
      | none => cases pc <;> rfl
      | some outcome => cases outcome <;> cases pc <;> rfl
    | busy b pc' => cases pc <;> rfl

theorem Refines.commit_eq (h : Refines w s) (h' : Refines w' s') (action : Action ι κ) :
    w.commit w' action = s.commit s' action := by
  cases action with
  | run k advised =>
    simp only [World.commit]
    rw [h.threads_eq, h'.threads_eq, Thread.commit_map]
  | deallocate k a i expectedSize =>
    simp only [World.commit]
    rw [h.live_eq, h'.threads_eq]
    cases s.live[i]? with
    | none => rfl
    | some entry =>
      cases s'.threads k with
      | idle last => rfl
      | busy b pc => cases pc <;> rfl
  | store i offset value =>
    simp only [World.commit]
    rw [h.live_eq]
  | _ => rfl

variable [DecidableEq ι] [DecidableEq κ]

theorem Refines.history_eq (inv : Inv setup s) (h : Refines w s) (by_ : Action ι κ → Bool)
    (hruns : w.runs setup.debug actions = some w') :
    w.history by_ setup.debug actions = s.history by_ setup.debug actions := by
  induction actions generalizing w s with
  | nil => rfl
  | cons action actions ih =>
    obtain ⟨w₁, hstep, hrest⟩ := Option.bind_eq_some_iff.mp hruns
    obtain ⟨s₁, hstep₁, h₁⟩ := h.forward inv hstep
    rw [World.history_cons hstep, World.history_cons hstep₁, h.commit_eq h₁,
      ih (inv.step hstep₁) h₁ hrest]

/-- Every call has one heap operation at most, between its start and its end, and it is the one that
its answer reports: so the order in which the operations take effect is one in which the calls could
have been made one after the other. -/
theorem Setup.Reachable.commits_answer (h : setup.Reachable w) {start : Action ι κ}
    (hcaller : start.caller = some k) (hothers : ∀ action ∈ actions, action.caller ≠ some k)
    (hruns : w.runs setup.debug (start :: actions) = some w') :
    (∃ outcome, w'.threads k = .idle (some outcome) ∧ Answers w.live start outcome
      (w.history (Action.of k) setup.debug (start :: actions))) ∨
    (∃ a pc, w'.threads k = .busy a pc) ∧
      (w.history (Action.of k) setup.debug (start :: actions)).length ≤ 1 := by
  obtain ⟨s, hs, hrefines⟩ := h.refines
  obtain ⟨s', hruns', hrefines'⟩ := Refines.runs_forward hs.inv hrefines hruns
  rw [Refines.history_eq hs.inv hrefines _ hruns]
  obtain ⟨s₁, hstep, hrest⟩ := Option.bind_eq_some_iff.mp hruns'
  have hof : Action.of k start = true := by
    cases start with
    | allocate j a size => exact decide_eq_true (Option.some.inj hcaller)
    | deallocate j a i expectedSize => exact decide_eq_true (Option.some.inj hcaller)
    | drain j a => exact decide_eq_true (Option.some.inj hcaller)
    | _ => cases hcaller
  have hprogress := (Progress.of_start hcaller hstep).runs (hs.inv.step hstep) hothers hrest
  rw [World.history_cons hstep, if_pos hof, hrefines.live_eq, hrefines'.threads_eq]
  generalize (s.commit s₁ start).toList ++ s₁.history (Action.of k) setup.debug actions = ops
    at hprogress ⊢
  cases ht : s'.threads k with
  | idle last =>
    rw [ht] at hprogress
    cases hprogress with
    | ended hanswers => exact Or.inl ⟨_, rfl, hanswers⟩
  | busy a pc =>
    refine Or.inr ⟨⟨a, _, rfl⟩, ?_⟩
    rw [ht] at hprogress
    cases hprogress with
    | freeing _ _ => exact Nat.le_refl 1
    | _ => exact Nat.zero_le 1

/-- Cache 0 answers for its own allocation, whatever cache 1 allocates in the meantime. -/
theorem commits_answer_sample : ∃ w' : World Unit (Fin 2) FreeList Batch,
    (sampleSetup.world FreeList Batch).runs sampleSetup.debug
      (.allocate 0 () 10 :: sampleInterleaved) = some w' ∧
    ∃ outcome, w'.threads 0 = .idle (some outcome) ∧
      Answers [] (.allocate 0 () 10 : Action Unit (Fin 2)) outcome [.alloc 4160 10] := by
  obtain ⟨w', hw'⟩ : ∃ w', (sampleSetup.world FreeList Batch).runs sampleSetup.debug
    (.allocate 0 () 10 :: sampleInterleaved) = some w' :=
      Option.isSome_iff_exists.mp sampleInterleaved_run
  have hinitial : sampleSetup.Reachable (sampleSetup.world FreeList Batch) := .initial
  have hhistory : (sampleSetup.world FreeList Batch).history (Action.of 0) sampleSetup.debug
      (.allocate 0 () 10 :: sampleInterleaved) = [.alloc 4160 10] := by decide +kernel
  have hanswer := hinitial.commits_answer rfl sampleInterleaved_others hw'
  rw [hhistory] at hanswer
  rcases hanswer with hended | ⟨⟨a, pc, hbusy⟩, -⟩
  · exact ⟨w', hw', hended⟩
  · have hidle : (((sampleSetup.world FreeList Batch).runs sampleSetup.debug
        (.allocate 0 () 10 :: sampleInterleaved)).bind fun w => (w.threads 0).last?).isSome := by
      decide +kernel
    rw [hw'] at hidle
    simp only [Option.bind_some, hbusy] at hidle
    cases hidle

end Code

end Orthotope
