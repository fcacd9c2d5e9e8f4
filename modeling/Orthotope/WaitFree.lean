import Orthotope.Termination

/-! Calls among others.  A call takes a bounded number of its own steps, however the steps of other
threads come in between: six for an allocation, three for a free, and for a drain three for each
block of the cache and fifty for the classes.  None of these steps is ever undefined. -/

namespace Orthotope

open ByteMemory

variable {ι κ : Type}

/-- A bound on the steps that follow a transfer, when the cache has `total` blocks. -/
def Resume.stepsLeft (total : Nat) : Resume → Nat
  | .done => 0
  | .flush classes => 3 * total + 14 + 3 * classes.length
  | .drain classes => 3 * total + 1 + classes.length

/-- A bound on the steps that are left of a call, when its cache has `total` blocks.  A transfer to
the pool takes a block at least, which pays for the three steps of the next one. -/
def Pc.stepsLeft {B : Type} (total : Nat) : Pc ι κ B → Nat
  | .refill .. => 6
  | .carve .. => 5
  | .carved .. | .large .. => 4
  | .gotBatch .. | .gotSlab .. | .registered .. | .largeCarve .. | .route .. => 3
  | .pop .. | .largeGot .. => 2
  | .popped .. | .largeWritten .. | .report .. | .releasing .. => 1
  | .flush classes => (Resume.flush classes).stepsLeft total
  | .drain classes => (Resume.drain classes).stepsLeft total
  | .unstage _ resume => resume.stepsLeft total + 2
  | .publishing _ _ resume => resume.stepsLeft total + 1
  | .excess _ _ .done => 2
  | .excess _ _ resume => resume.stepsLeft total - 1
  | .returning _ _ resume => resume.stepsLeft total + 1

def Thread.stepsLeft {B : Type} (total : Nat) : Thread ι κ B → Nat
  | .idle _ => 0
  | .busy _ pc => pc.stepsLeft total

/-- A bound on the steps that are left of the call in progress on `k`. -/
def World.stepsLeft {L B : Type} (w : World ι κ L B) (k : κ) : Nat :=
  (w.threads k).stepsLeft (w.caches k).total

/-- The most steps of the call that an action starts on a cache with `total` blocks. -/
def Action.callSteps (total : Nat) : Action ι κ → Nat
  | .allocate .. => 6
  | .deallocate .. => 3
  | .drain .. => 3 * total + 50
  | .run .. | .store .. | .discard .. => 0

/-- The action is a step of the call in progress on `k`. -/
def Action.runs [DecidableEq κ] (k : κ) : Action ι κ → Bool
  | .run j _ => j = k
  | _ => false

section Rank

variable {setup : Setup ι κ} {s s' : World ι κ Seq Seq} {a : ι} {k : κ} {debug : Bool}
  {pc : Pc ι κ Seq} {v : View ι κ Seq Seq}

theorem View.stepsLeft_resume (v : View ι κ Seq Seq) (a : ι) (resume : Resume) (total : Nat) :
    (v.resume a resume).thread.stepsLeft total = resume.stepsLeft total := by
  cases resume <;> rfl

/-- A step brings a call closer to its end. -/
theorem Transition.stepsLeft_lt (inv : Inv setup s) (h : Transition debug s a k pc v) :
    v.thread.stepsLeft v.cache.total < pc.stepsLeft (s.caches k).total := by
  have hresume : ∀ (v : View ι κ Seq Seq) (r : Resume), (v.resume a r).cache = v.cache :=
    fun v r => (v.resume_frame a r).2.1
  cases h with
  | @refill c size m central r h =>
    cases r <;> simp [Thread.stepsLeft, View.goto, CentralRefill.pc, Pc.stepsLeft]
  | takeSlab hpc => rcases hpc with rfl | rfl <;> simp [Thread.stepsLeft, View.goto, Pc.stepsLeft]
  | push _ _ _ _ _ hthread =>
    rcases hthread with rfl | ⟨-, rfl⟩ <;> simp [Thread.stepsLeft, Pc.stepsLeft]
  | stage _ hthread =>
    rcases hthread with rfl | rfl <;> simp [Thread.stepsLeft, Pc.stepsLeft, Resume.stepsLeft]
  | @unstageNone c resume _ =>
    rw [View.stepsLeft_resume, hresume]
    show _ < resume.stepsLeft _ + 2
    exact Nat.lt_add_of_pos_right (by decide)
  | @publish c batch resume central _ _ _ _ =>
    rw [View.stepsLeft_resume, hresume]
    exact Nat.lt_succ_self _
  | @returnBatch c batch resume m central _ =>
    rw [View.stepsLeft_resume, hresume]
    exact Nat.lt_succ_self _
  | @excess c max resume m batch class_ hinv shapes hbatch drains =>
    -- the blocks of the batch are no longer in the cache
    have hlen := drains.card
    rw [← hinv.totalLen_eq, ← ((inv.parts.cache k).class_inv c).totalLen_eq] at hlen
    have htotal := (s.caches k).total_setClass c class_
    have hpos := List.length_pos_iff.mpr hbatch
    have hle : batch.length ≤ ((s.caches k).classes c).totalLen := by
      rw [((inv.parts.cache k).class_inv c).totalLen_eq, drains.bag]
      simp
    show resume.stepsLeft ((s.caches k).setClass c class_).total + 1 < _
    cases resume with
    | done => simp [Pc.stepsLeft, Resume.stepsLeft]
    | flush classes =>
      simp only [Pc.stepsLeft, Resume.stepsLeft]
      omega
    | drain classes =>
      simp only [Pc.stepsLeft, Resume.stepsLeft]
      omega
  | flushEnd =>
    have : SizeClass.all.length = 12 := by decide
    simp only [View.goto, World.view, Thread.stepsLeft, Pc.stepsLeft, Resume.stepsLeft,
      List.length_nil]
    omega
  | flush =>
    simp only [View.goto, World.view, Thread.stepsLeft, Pc.stepsLeft, Resume.stepsLeft,
      List.length_cons]
    omega
  | drainEnd =>
    simp only [View.finish, Thread.stepsLeft, Pc.stepsLeft, Resume.stepsLeft]
    omega
  | drainNext =>
    simp only [View.goto, World.view, Thread.stepsLeft, Pc.stepsLeft, Resume.stepsLeft,
      List.length_cons]
    omega
  | drain _ =>
    simp only [View.goto, World.view, Thread.stepsLeft, Pc.stepsLeft, Resume.stepsLeft,
      List.length_cons]
    omega
  | unstage _ => exact Nat.lt_succ_self _
  | _ => simp [Thread.stepsLeft, Pc.stepsLeft, View.goto, View.finish]

variable [DecidableEq ι] [DecidableEq κ]

theorem Inv.stepsLeft_pos (inv : Inv setup s) (ht : s.threads k = .busy a pc) :
    0 < s.stepsLeft k := by
  obtain ⟨v, -, htrans⟩ : ∃ v, (s.view a k).next setup.debug (false, false) a k pc = some v ∧
    Transition setup.debug s a k pc v := next_spec inv ht
  rw [World.stepsLeft, ht]
  exact Nat.zero_lt_of_lt (htrans.stepsLeft_lt inv)

/-- What others do leaves the steps of a call alone, and its own use them up. -/
theorem Inv.runs_stepsLeft (inv : Inv setup s) {actions : List (Action ι κ)}
    (hcaller : ∀ action ∈ actions, action.caller ≠ some k)
    (hruns : s.runs setup.debug actions = some s') :
    Inv setup s' ∧ actions.countP (Action.runs k) + s'.stepsLeft k ≤ s.stepsLeft k := by
  rw [World.runs_eq] at hruns
  refine StepSystem.runs_count_le (I := Inv setup) (f := fun s => s.stepsLeft k) hruns inv
    fun action haction s s' inv hstep => ?_
  refine ⟨inv.step hstep, ?_⟩
  by_cases hrun : ∃ advised, action = .run k advised
  · obtain ⟨advised, rfl⟩ := hrun
    obtain ⟨a, pc, v, ht, rfl, -, htrans⟩ := inv.run_cases hstep
    have hlt := htrans.stepsLeft_lt inv
    have hown : Action.runs k (.run k advised : Action ι κ) = true := decide_eq_true rfl
    have hold : s.stepsLeft k = pc.stepsLeft (s.caches k).total := by
      rw [World.stepsLeft, ht]
      rfl
    rw [hown, if_pos rfl, hold, World.stepsLeft, World.update_threads_same,
      World.update_caches_same]
    exact hlt
  · have hne : ∀ advised, action ≠ .run k advised := fun advised heq => hrun ⟨advised, heq⟩
    obtain ⟨hthread, hcache⟩ := World.step_ne (hcaller action haction) hne hstep
    have hown : Action.runs k action = false := by
      cases action with
      | run j advised => exact decide_eq_false fun hj => hne advised (hj ▸ rfl)
      | _ => rfl
    rw [hown, World.stepsLeft, World.stepsLeft, hthread, hcache]
    exact Nat.le_refl _

end Rank

/-! ### The calls of the code -/

section Calls

variable {setup : Setup ι κ} {w w₁ w' : World ι κ FreeList Batch} {s : World ι κ Seq Seq} {a : ι}
  {k : κ}

theorem Refines.stepsLeft_eq (h : Refines w s) (k : κ) : w.stepsLeft k = s.stepsLeft k := by
  have htotal : (w.caches k).total = (s.caches k).total := by
    rw [h.code]
    rfl
  rw [World.stepsLeft, World.stepsLeft, htotal, h.threads_eq]
  cases s.threads k with
  | idle last => rfl
  | busy a pc =>
    show (pc.map Batch.ofSeq).stepsLeft _ = pc.stepsLeft _
    cases pc with
    | excess c max resume => cases resume <;> rfl
    | _ => rfl

variable [DecidableEq ι] [DecidableEq κ]

theorem World.call_stepsLeft {L B : Type} [BlockStore L B] {w w' : World ι κ L B}
    (bound : Nat → Nat) {start : View ι κ L B → View ι κ L B} (hcall : w.call k a start = some w')
    (hstart : ∀ v, (start v).thread.stepsLeft (start v).cache.total ≤ bound (start v).cache.total) :
    w'.stepsLeft k ≤ bound (w'.caches k).total := by
  unfold World.call at hcall
  split at hcall
  · cases hcall
  · split at hcall
    · obtain rfl := Option.some.inj hcall
      rw [World.stepsLeft, World.update_threads_same]
      exact Nat.zero_le _
    · obtain rfl := Option.some.inj hcall
      rw [World.stepsLeft, World.update_threads_same, World.update_caches_same]
      exact hstart _

/-- A call starts with the steps of its kind. -/
theorem World.step_callSteps {L B : Type} [BlockStore L B] {w w' : World ι κ L B} {debug : Bool}
    {start : Action ι κ} (hcaller : start.caller = some k) (hstep : w.step debug start = some w') :
    w'.stepsLeft k ≤ start.callSteps (w'.caches k).total := by
  cases start with
  | allocate j a size =>
    obtain rfl : j = k := Option.some.inj hcaller
    have hcall : w.call j a (fun v => v.startAllocate a size) = some w' := hstep
    refine World.call_stepsLeft (fun _ => 6) hcall fun v => ?_
    show (v.startAllocate a size).thread.stepsLeft _ ≤ 6
    rcases v.startAllocate_cases a size with h | ⟨pc, h, hpc⟩
    · rw [h]
      exact Nat.zero_le 6
    · rw [h]
      rcases hpc with ⟨c, rfl⟩ | ⟨c, rfl⟩ | ⟨blockSize, rfl⟩ | rfl <;>
        simp [View.goto, Thread.stepsLeft, Pc.stepsLeft]
  | deallocate j a i expectedSize =>
    obtain rfl : j = k := Option.some.inj hcaller
    obtain ⟨entry, -, hcall⟩ := Option.bind_eq_some_iff.mp hstep
    refine World.call_stepsLeft (fun _ => 3) hcall fun v => ?_
    show (v.startFree debug a entry _ expectedSize).thread.stepsLeft _ ≤ 3
    unfold View.startFree
    split <;> simp [View.finish, View.goto, Thread.stepsLeft, Pc.stepsLeft]
  | drain j a =>
    obtain rfl : j = k := Option.some.inj hcaller
    have hcall : w.call j a (fun v => v.goto a (.flush SizeClass.all)) = some w' := hstep
    refine World.call_stepsLeft (fun total => 3 * total + 50) hcall fun v => ?_
    show (Resume.flush SizeClass.all).stepsLeft _ ≤ _
    exact Nat.le_refl _
  | run j advised => cases hcaller
  | store i offset value => cases hcaller
  | discard page => cases hcaller

/-- A call takes a bounded number of steps of its own, whatever others do in between, and none of
them is undefined. -/
theorem Setup.Reachable.wait_free (h : setup.Reachable w) {start : Action ι κ}
    (hcaller : start.caller = some k) (hstart : w.step setup.debug start = some w₁)
    {actions : List (Action ι κ)} (hothers : ∀ action ∈ actions, action.caller ≠ some k)
    (hruns : w₁.runs setup.debug actions = some w') :
    actions.countP (Action.runs k) ≤ start.callSteps (w₁.caches k).total ∧
      (actions.countP (Action.runs k) = start.callSteps (w₁.caches k).total →
        ∃ outcome, w'.threads k = .idle outcome) ∧
      ∀ a pc, w'.threads k = .busy a pc → ∀ advised,
        ∃ w'', w'.step setup.debug (.run k advised) = some w'' := by
  obtain ⟨s₁, hs₁, hrefines₁⟩ := (h.step start hstart).refines
  obtain ⟨s', hruns', hrefines'⟩ := Refines.runs_forward hs₁.inv hrefines₁ hruns
  obtain ⟨inv', hcount⟩ := hs₁.inv.runs_stepsLeft hothers hruns'
  have hbegin := World.step_callSteps hcaller hstart
  rw [hrefines₁.stepsLeft_eq k] at hbegin
  refine ⟨by omega, fun heq => ?_, fun a pc ht advised => ?_⟩
  · have hzero : w'.stepsLeft k = 0 := by
      rw [hrefines'.stepsLeft_eq k]
      omega
    cases ht : w'.threads k with
    | idle outcome => exact ⟨outcome, rfl⟩
    | busy a pc =>
      obtain ⟨pc', ht', -⟩ := hrefines'.busy ht
      rw [hrefines'.stepsLeft_eq k] at hzero
      exact absurd hzero (Nat.ne_of_gt (inv'.stepsLeft_pos ht'))
  · obtain ⟨w'', -, hstep, -⟩ := hrefines'.run setup.debug inv' ht advised
    exact ⟨w'', hstep⟩

/-- The steps of an allocation of cache 0, with a whole allocation of cache 1 in between. -/
def sampleInterleaved : List (Action Unit (Fin 2)) :=
  List.replicate 3 (.run 0 (true, true)) ++ sampleCarve 1 20 ++
    List.replicate 3 (.run 0 (true, true))

theorem sampleInterleaved_run : ((sampleSetup.world FreeList Batch).runs true
    (.allocate 0 () 10 :: sampleInterleaved)).isSome := by
  decide +kernel

theorem sampleInterleaved_others : ∀ action ∈ sampleInterleaved, action.caller ≠ some 0 := by
  decide +kernel

/-- The first allocation of cache 0 takes its six steps, while cache 1 makes one of its own. -/
theorem wait_free_sample : ∃ w₁ w' : World Unit (Fin 2) FreeList Batch,
    (sampleSetup.world FreeList Batch).step sampleSetup.debug (.allocate 0 () 10) = some w₁ ∧
      w₁.runs sampleSetup.debug sampleInterleaved = some w' ∧
      sampleInterleaved.countP (Action.runs 0) = 6 ∧
      Action.callSteps (w₁.caches 0).total (.allocate 0 () 10 : Action Unit (Fin 2)) = 6 ∧
      ∃ outcome, w'.threads 0 = .idle outcome := by
  obtain ⟨w', hw'⟩ := Option.isSome_iff_exists.mp sampleInterleaved_run
  obtain ⟨w₁, hstart, hrest⟩ := Option.bind_eq_some_iff.mp hw'
  have hinitial : sampleSetup.Reachable (sampleSetup.world FreeList Batch) := .initial
  have hcount : sampleInterleaved.countP (Action.runs 0) = 6 := by decide +kernel
  have hidle := (hinitial.wait_free rfl hstart sampleInterleaved_others hrest).2.1 hcount
  exact ⟨w₁, w', hstart, hrest, hcount, rfl, hidle⟩

end Calls

end Orthotope
