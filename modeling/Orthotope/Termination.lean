import Orthotope.Runs

/-! Every call ends.  The rank of a control point bounds the steps that are left: a transfer to the
central pool takes at least one block from the cache, so a drain is bounded by the number of blocks
that the cache has.  From it comes the rule for calls that run alone. -/

namespace Orthotope

open ByteMemory

variable {ι κ : Type}

/-- The number of blocks of a cache, over all classes. -/
def ThreadCache.total {L : Type} (cache : ThreadCache ι L) : Nat :=
  (SizeClass.all.map fun c => (cache.classes c).totalLen).sum

def Resume.rank : Resume → Nat
  | .done => 1
  | .flush classes => 20 + 4 * classes.length
  | .drain classes => 1 + classes.length

/-- A bound on the steps of a call, when its cache has `total` blocks. -/
def Pc.rank {B : Type} (total : Nat) : Pc ι κ B → Nat
  | .refill .. => 9
  | .carve .. => 8
  | .large .. => 7
  | .carved .. | .largeCarve .. => 6
  | .registered .. | .largeGot .. => 5
  | .gotBatch .. | .gotSlab .. | .largeWritten .. => 4
  | .pop .. => 3
  | .popped .. => 2
  | .report .. | .releasing .. => 1
  | .route .. => 4 * total + 20
  | .flush classes => 4 * total + (Resume.flush classes).rank
  | .drain classes => 4 * total + (Resume.drain classes).rank
  | .unstage _ resume => 4 * total + resume.rank + 2
  | .publishing _ _ resume => 4 * total + resume.rank + 1
  | .excess _ _ resume => 4 * total + resume.rank - 1
  | .returning _ _ resume => 4 * total + resume.rank + 2

def Thread.rank {B : Type} (total : Nat) : Thread ι κ B → Nat
  | .idle _ => 0
  | .busy _ pc => pc.rank total

def View.rank {L B : Type} (v : View ι κ L B) : Nat := v.thread.rank v.cache.total

theorem ThreadCache.total_setClass {L : Type} (cache : ThreadCache ι L) (c : SizeClass)
    (class_ : LocalClassCache L) : (cache.setClass c class_).total + (cache.classes c).totalLen =
      cache.total + class_.totalLen := by
  cases c <;> simp [total, SizeClass.all, setClass, Function.update_apply] <;> omega

theorem Resume.rank_pos (resume : Resume) : 0 < resume.rank := by
  cases resume <;> simp [rank]

theorem View.rank_resume (v : View ι κ Seq Seq) (a : ι) (resume : Resume) :
    (v.resume a resume).rank ≤ 4 * v.cache.total + resume.rank := by
  cases resume with
  | done => exact Nat.zero_le _
  | flush classes => exact Nat.le_refl _
  | drain classes => exact Nat.le_refl _

section Rank

variable {setup : Setup ι κ} {s : World ι κ Seq Seq} {a : ι} {k : κ} {debug : Bool}
  {pc : Pc ι κ Seq} {v : View ι κ Seq Seq}

/-- A step brings a call closer to its end. -/
theorem Transition.rank_lt (inv : Inv setup s) (h : Transition debug s a k pc v) :
    v.rank < pc.rank (s.caches k).total := by
  cases h with
  | @refill c size m central r h =>
    cases r <;> simp [View.rank, Thread.rank, View.goto, CentralRefill.pc, Pc.rank]
  | takeSlab hpc => rcases hpc with rfl | rfl <;> simp [View.rank, Thread.rank, View.goto, Pc.rank]
  | @push c block class_ spilled thread hinv shapes fresh owned shared hthread =>
    have hbag : class_.bag = block ::ₘ ((s.caches k).classes c).bag := by
      calc class_.bag = (class_.ownedBag + spilled) + ((s.caches k).classes c).freshBag +
            ((s.caches k).classes c).sharedBag := by
            rw [LocalClassCache.bag, fresh, shared]
            ac_rfl
        _ = block ::ₘ ((s.caches k).classes c).bag := by
            rw [owned, LocalClassCache.bag, Multiset.cons_add, Multiset.cons_add]
    have hlen : class_.totalLen = ((s.caches k).classes c).totalLen + 1 := by
      rw [hinv.totalLen_eq, ((inv.parts.cache k).class_inv c).totalLen_eq, hbag, Multiset.card_cons]
    have htotal := (s.caches k).total_setClass c class_
    rcases hthread with rfl | ⟨-, rfl⟩
    · simp [View.rank, Thread.rank, Pc.rank]
    · simp only [View.rank, Thread.rank, Pc.rank, View.setCache, Resume.rank]
      omega
  | stage howner hthread =>
    rcases hthread with rfl | rfl
    · simp [View.rank, Thread.rank, Pc.rank]
    · simp only [View.rank, Thread.rank, Pc.rank, View.setCache, Resume.rank]
      show 4 * (s.caches k).total + 1 + 2 < _
      omega
  | drain _ =>
    simp only [View.rank, Thread.rank, Pc.rank, View.goto, Resume.rank, World.view]
    omega
  | unstageNone _ =>
    have := (s.view a k).rank_resume a ‹Resume›
    simp only [Pc.rank]
    exact Nat.lt_of_le_of_lt this (by simp [World.view])
  | publish _ _ _ _ =>
    have := ((s.view a k).setCentral ‹_›).rank_resume a ‹Resume›
    simp only [Pc.rank]
    exact Nat.lt_of_le_of_lt this (by simp [World.view, View.setCentral])
  | returnBatch _ =>
    have := (((s.view a k).setMem ‹_›).setCentral ‹_›).rank_resume a ‹Resume›
    simp only [Pc.rank]
    exact Nat.lt_of_le_of_lt this (by simp [World.view, View.setCentral, View.setMem])
  | @excess c max resume m batch class_ hinv shapes hbatch drains =>
    have hlen := drains.card
    rw [← hinv.totalLen_eq, ← ((inv.parts.cache k).class_inv c).totalLen_eq] at hlen
    have htotal := (s.caches k).total_setClass c class_
    have hpos := List.length_pos_iff.mpr hbatch
    have hle : batch.length ≤ ((s.caches k).classes c).totalLen := by
      rw [((inv.parts.cache k).class_inv c).totalLen_eq, drains.bag]
      simp
    have := resume.rank_pos
    simp only [View.rank, Thread.rank, Pc.rank, View.goto, View.setCache]
    omega
  | flushEnd =>
    have : SizeClass.all.length = 12 := by decide
    simp only [View.rank, Thread.rank, Pc.rank, View.goto, Resume.rank, World.view]
    omega
  | flush =>
    simp only [View.rank, Thread.rank, Pc.rank, View.goto, Resume.rank,
      World.view, List.length_cons]
    omega
  | unstage _ =>
    simp only [View.rank, Thread.rank, Pc.rank, View.goto]
    exact Nat.lt_succ_self _
  | _ => simp [View.rank, Thread.rank, Pc.rank, View.goto, View.finish, Resume.rank, World.view]

variable [DecidableEq ι] [DecidableEq κ]

/-- The rule for a call that runs alone: what its steps keep holds when it has ended, and it
ends. -/
theorem Inv.ends_next {J : World ι κ Seq Seq → Prop}
    (hJ : ∀ {s : World ι κ Seq Seq} {a : ι} {pc : Pc ι κ Seq} {v : View ι κ Seq Seq}
      {advised : Bool × Bool}, Inv setup s → J s → s.threads k = .busy a pc →
        (s.view a k).next setup.debug advised a k pc = some v →
          Transition setup.debug s a k pc v → J (s.update a k v))
    (inv : Inv setup s) (h : J s) :
    s.Ends setup.debug k fun s' => Inv setup s' ∧ J s' := by
  refine TotalRuns.Ends.of_measure (I := fun s => Inv setup s ∧ J s)
    (fun s => (s.threads k).rank (s.caches k).total) (fun s hs => ?_) ⟨inv, h⟩
  obtain ⟨inv, h⟩ := hs
  cases ht : s.threads k with
  | idle outcome => exact Or.inl ⟨⟨outcome, rfl⟩, inv, h⟩
  | busy a pc =>
    refine Or.inr fun advised => ?_
    obtain ⟨v, hv, htrans⟩ : ∃ v, (s.view a k).next setup.debug advised a k pc = some v ∧
      Transition setup.debug s a k pc v := next_spec inv ht
    have hstep : s.step setup.debug (.run k advised) = some (s.update a k v) := by
      simp only [World.step, ht, hv, Option.map_some]
    refine ⟨_, hstep, ⟨inv.step hstep, hJ inv h ht hv htrans⟩, ?_⟩
    rw [World.update_threads_same, World.update_caches_same]
    exact htrans.rank_lt inv

theorem Inv.ends {J : World ι κ Seq Seq → Prop}
    (hJ : ∀ {s : World ι κ Seq Seq} {a : ι} {pc : Pc ι κ Seq} {v : View ι κ Seq Seq}, Inv setup s →
      J s → s.threads k = .busy a pc → Transition setup.debug s a k pc v → J (s.update a k v))
    (inv : Inv setup s) (h : J s) :
    s.Ends setup.debug k fun s' => Inv setup s' ∧ J s' :=
  inv.ends_next (fun inv h ht _ htrans => hJ inv h ht htrans) h

end Rank

/-! ### Calls among others -/

section Threads

variable [DecidableEq ι] [DecidableEq κ] {L B : Type} [BlockStore L B] {w w' : World ι κ L B}
  {k : κ} {debug : Bool}

/-- Nobody but the cache's own call moves its thread or the cache. -/
theorem World.step_ne {action : Action ι κ} (hcaller : action.caller ≠ some k)
    (hrun : ∀ advised, action ≠ .run k advised) (h : w.step debug action = some w') :
    w'.threads k = w.threads k ∧ w'.caches k = w.caches k := by
  by_cases hr : ∃ j advised, action = .run j advised
  · obtain ⟨j, advised, rfl⟩ := hr
    have hj : j ≠ k := fun hj => hrun advised (hj ▸ rfl)
    simp only [World.step] at h
    split at h
    · cases h
    · obtain ⟨v, -, rfl⟩ := Option.map_eq_some_iff.mp h
      exact ⟨World.update_threads_ne _ _ hj.symm, World.update_caches_ne _ _ hj.symm⟩
  · rcases World.step_begins (fun j advised heq => hr ⟨j, advised, heq⟩) h with
      ⟨j, a, last, v, hj, -, rfl, -⟩ | ⟨-, hcaches, hthreads⟩
    · have hjk : k ≠ j := fun hk => hcaller (hk ▸ hj)
      exact ⟨World.update_threads_ne _ _ hjk, World.update_caches_ne _ _ hjk⟩
    · rw [hthreads, hcaches]
      exact ⟨rfl, rfl⟩

theorem World.step_thread_ne {action : Action ι κ} (hcaller : action.caller ≠ some k)
    (hrun : ∀ advised, action ≠ .run k advised) (h : w.step debug action = some w') :
    w'.threads k = w.threads k :=
  (World.step_ne hcaller hrun h).1

end Threads

section Among

variable {setup : Setup ι κ} {s s' : World ι κ Seq Seq} {k : κ}

/-- What each step of a call keeps of where the call is. -/
def KeptByCall (setup : Setup ι κ) (k : κ) (T : Thread ι κ Seq → Prop) : Prop :=
  ∀ {s : World ι κ Seq Seq} {a : ι} {pc : Pc ι κ Seq} {v : View ι κ Seq Seq}, Inv setup s →
    s.threads k = .busy a pc → T (.busy a pc) → Transition setup.debug s a k pc v → T v.thread

/-- What each step of a call keeps of where the call is and of its cache. -/
def KeptByNext (setup : Setup ι κ) (k : κ) (K : Thread ι κ Seq → ThreadCache ι Seq → Prop) : Prop :=
  ∀ {s : World ι κ Seq Seq} {a : ι} {pc : Pc ι κ Seq} {v : View ι κ Seq Seq}
    {advised : Bool × Bool},
    Inv setup s → s.threads k = .busy a pc → K (.busy a pc) (s.caches k) →
      (s.view a k).next setup.debug advised a k pc = some v → K v.thread v.cache

variable {T : Thread ι κ Seq → Prop} {K : Thread ι κ Seq → ThreadCache ι Seq → Prop}

variable [DecidableEq ι] [DecidableEq κ]

theorem KeptByCall.next (hT : KeptByCall setup k T) :
    KeptByNext setup k fun thread _ => T thread := by
  intro s a pc v advised inv ht h hv
  have htrans := inv.transition ht hv
  exact hT inv ht h htrans

theorem Inv.step_keeps_next (hK : KeptByNext setup k K) (inv : Inv setup s)
    (h : K (s.threads k) (s.caches k)) {action : Action ι κ} (hcaller : action.caller ≠ some k)
    (hstep : s.step setup.debug action = some s') : K (s'.threads k) (s'.caches k) := by
  by_cases hrun : ∃ advised, action = .run k advised
  · obtain ⟨advised, rfl⟩ := hrun
    obtain ⟨a, pc, v, ht, rfl, hv, -⟩ := inv.run_cases hstep
    rw [World.update_threads_same, World.update_caches_same]
    exact hK inv ht (ht ▸ h) hv
  · obtain ⟨hthread, hcache⟩ :=
      World.step_ne hcaller (fun advised heq => hrun ⟨advised, heq⟩) hstep
    rw [hthread, hcache]
    exact h

theorem Inv.step_keeps (hT : KeptByCall setup k T) (inv : Inv setup s) (h : T (s.threads k))
    {action : Action ι κ} (hcaller : action.caller ≠ some k)
    (hstep : s.step setup.debug action = some s') : T (s'.threads k) :=
  inv.step_keeps_next (K := fun thread _ => T thread) hT.next h hcaller hstep

theorem Inv.ends_keeps (hT : KeptByCall setup k T) (inv : Inv setup s) (h : T (s.threads k)) :
    s.Ends setup.debug k fun s' => Inv setup s' ∧ T (s'.threads k) := by
  refine inv.ends (J := fun s => T (s.threads k)) (fun inv h ht htrans => ?_) h
  rw [World.update_threads_same]
  exact hT inv ht (ht ▸ h) htrans

end Among

/-! ### Threads of reachable states -/

section Threads

variable {setup : Setup ι κ} {s s' : World ι κ Seq Seq} {k : κ}

/-- What holds of a call from its start on. -/
structure FromStart (setup : Setup ι κ) (T : Thread ι κ Seq → Prop) : Prop where
  idle : ∀ last, T (.idle last)
  allocate : ∀ a (v : View ι κ Seq Seq) size, v.allocator.config = setup.config a →
    T (v.startAllocate a size).thread
  free : ∀ debug a (v : View ι κ Seq Seq) entry rest expectedSize,
    T (v.startFree debug a entry rest expectedSize).thread
  drain : ∀ a, T (.busy a (.flush SizeClass.all))
  kept : ∀ k, KeptByCall setup k T

variable {T : Thread ι κ Seq → Prop}

variable [DecidableEq ι] [DecidableEq κ]

theorem FromStart.call (hT : FromStart setup T) {a : ι}
    {start : View ι κ Seq Seq → View ι κ Seq Seq}
    (hstart : ∀ cache, T (start ((s.view a k).setCache cache)).thread)
    (hcall : s.call k a start = some s') : T (s'.threads k) := by
  unfold World.call at hcall
  split at hcall
  · cases hcall
  · split at hcall
    · obtain rfl := Option.some.inj hcall
      rw [World.update_threads_same]
      exact hT.idle _
    · obtain rfl := Option.some.inj hcall
      rw [World.update_threads_same]
      exact hstart _

theorem FromStart.step (hT : FromStart setup T) (inv : Inv setup s) (h : T (s.threads k))
    {action : Action ι κ} (hstep : s.step setup.debug action = some s') : T (s'.threads k) := by
  by_cases hcaller : action.caller = some k
  · cases action with
    | allocate j a size =>
      obtain rfl : j = k := Option.some.inj hcaller
      have hcall : s.call j a (fun v => v.startAllocate a size) = some s' := hstep
      exact hT.call (fun cache => hT.allocate a _ size (inv.parts.allocator a).config_eq) hcall
    | deallocate j a i expectedSize =>
      obtain rfl : j = k := Option.some.inj hcaller
      obtain ⟨entry, -, hcall⟩ := Option.bind_eq_some_iff.mp hstep
      exact hT.call (fun cache => hT.free setup.debug a _ entry _ expectedSize) hcall
    | drain j a =>
      obtain rfl : j = k := Option.some.inj hcaller
      have hcall : s.call j a (fun v => v.goto a (.flush SizeClass.all)) = some s' := hstep
      exact hT.call (fun cache => hT.drain a) hcall
    | run j advised => cases hcaller
    | store i offset value => cases hcaller
    | discard page => cases hcaller
  · exact inv.step_keeps (hT.kept k) h hcaller hstep

/-- The rule for what holds of every call in progress in every reachable state. -/
theorem FromStart.reachable (hT : FromStart setup T) (h : setup.Reachable s) (k : κ) :
    T (s.threads k) := by
  induction h with
  | initial => exact hT.idle _
  | step action hr hstep ih => exact hT.step hr.inv ih hstep

end Threads

section Calls

variable [DecidableEq ι] [DecidableEq κ] {setup : Setup ι κ} {w w' : World ι κ FreeList Batch}
  {s : World ι κ Seq Seq} {k : κ}

/-- The rule for a call that others come in between: whatever they do, what its steps keep holds as
long as the call lasts. -/
theorem Refines.along_next {K : Thread ι κ Seq → ThreadCache ι Seq → Prop}
    (hK : KeptByNext setup k K) (inv : Inv setup s) (h : Refines w s)
    (hk : K (s.threads k) (s.caches k)) {actions : List (Action ι κ)}
    (hcaller : ∀ action ∈ actions, action.caller ≠ some k)
    (hruns : w.runs setup.debug actions = some w') :
    ∃ s', Refines w' s' ∧ Inv setup s' ∧ K (s'.threads k) (s'.caches k) := by
  induction actions generalizing w s with
  | nil =>
    obtain rfl := Option.some.inj hruns
    exact ⟨s, h, inv, hk⟩
  | cons action actions ih =>
    obtain ⟨w₁, hstep, hrest⟩ := Option.bind_eq_some_iff.mp hruns
    obtain ⟨s₁, hstep', h₁⟩ := h.forward inv hstep
    have hk₁ := inv.step_keeps_next hK hk (hcaller action List.mem_cons_self) hstep'
    exact ih (inv.step hstep') h₁ hk₁
      (fun b hb => hcaller b (List.mem_cons_of_mem action hb)) hrest

theorem Refines.along {T : Thread ι κ Seq → Prop} (hT : KeptByCall setup k T) (inv : Inv setup s)
    (h : Refines w s) (ht : T (s.threads k)) {actions : List (Action ι κ)}
    (hcaller : ∀ action ∈ actions, action.caller ≠ some k)
    (hruns : w.runs setup.debug actions = some w') :
    ∃ s', Refines w' s' ∧ Inv setup s' ∧ T (s'.threads k) :=
  h.along_next (K := fun thread _ => T thread) hT.next inv ht hcaller hruns

/-- If nothing comes in between from some point on, it ends, and then still holds. -/
theorem Refines.among {T : Thread ι κ Seq → Prop} (hT : KeptByCall setup k T) (inv : Inv setup s)
    (h : Refines w s) (ht : T (s.threads k)) {actions : List (Action ι κ)}
    (hcaller : ∀ action ∈ actions, action.caller ≠ some k)
    (hruns : w.runs setup.debug actions = some w') :
    w'.Ends setup.debug k fun w' => ∃ s', Refines w' s' ∧ Inv setup s' ∧ T (s'.threads k) := by
  obtain ⟨s', h', inv', ht'⟩ := h.along hT inv ht hcaller hruns
  exact h'.ends inv' (inv'.ends_keeps hT ht')

/-- A call in progress ends if no other action comes between its steps. -/
theorem Setup.Reachable.call_ends (h : setup.Reachable w) :
    w.Ends setup.debug k setup.Reachable := by
  obtain ⟨s, hs, hrefines⟩ := h.refines
  have hends : s.Ends setup.debug k fun s' => Inv setup s' ∧ True :=
    hs.inv.ends (J := fun _ => True) (fun _ _ _ _ => trivial) trivial
  exact (h.ends (hrefines.ends hs.inv hends)).mono fun _ hw => hw.1

theorem Setup.Reachable.calls (h : setup.Reachable w) {action : Action ι κ}
    {P : World ι κ FreeList Batch → Prop} (hcalls : w.Calls setup.debug k action P) :
    w.Calls setup.debug k action fun w' => setup.Reachable w' ∧ P w' := by
  obtain ⟨w₁, hstep, hends⟩ := hcalls
  exact ⟨w₁, hstep, (h.step action hstep).ends hends⟩

end Calls

end Orthotope
