import Orthotope.Frees

/-! The header of a small block when it is handed out.  A reused block keeps most of its header, and
which fields are written again depends on where the block was.  In each case the result is the
header that a full write makes. -/

namespace Orthotope

open ByteMemory Ownership

variable {ι κ : Type}

/-- The size that a call has been asked for, as long as it allocates. -/
def Pc.request {B : Type} : Pc ι κ B → Option Nat
  | .refill _ size | .gotBatch _ size _ | .gotSlab _ size _ _ _ | .carve _ size | .carved _ size _
  | .registered _ size _ _ _ | .pop _ size | .popped _ size _ _ | .large size _ | .largeCarve size _
  | .largeGot size _ _ | .largeWritten size _ _ | .report size => some size
  | _ => none

/-- The call in progress, if there is one, is an allocation of `size`. -/
def Thread.Requests {B : Type} (size : Nat) : Thread ι κ B → Prop
  | .idle _ => True
  | .busy _ pc => pc.request = some size

theorem requests_kept (setup : Setup ι κ) (k : κ) (size : Nat) :
    KeptByCall setup k (Thread.Requests size) := by
  intro s a pc v inv ht hrequest htrans
  cases htrans with
  | @refill c size' m central r h => cases r <;> exact hrequest
  | takeSlab hpc => rcases hpc with rfl | rfl <;> exact hrequest
  | push _ _ _ _ _ _ => cases hrequest
  | stage _ _ => cases hrequest
  | unstageNone _ => cases hrequest
  | publish => cases hrequest
  | returnBatch => cases hrequest
  | _ => first | exact hrequest | trivial

/-- An allocation requests its size from its start on. -/
theorem View.startAllocate_requests {L B : Type} (a : ι) (v : View ι κ L B) (size : Nat) :
    (v.startAllocate a size).thread.Requests size := by
  rcases v.startAllocate_cases a size with h | ⟨pc, h, hpc⟩
  · rw [h]
    trivial
  · rw [h]
    rcases hpc with ⟨c, rfl⟩ | ⟨c, rfl⟩ | ⟨blockSize, rfl⟩ | rfl <;> rfl

section Header

variable {m : Mem} {c : SizeClass} {b size id : Nat}

theorem LiveSmall.readPrefix_eq (h : LiveSmall m c b size id) :
    readPrefix m b = (encodedHeader smallTag c.index size c.payloadSize
        id).toAllocationHeaderPrefix := by
  have h1 : m.read b 4 = headerMagic := h.formatted.magic
  have h2 : m.read (b + 4) 1 = smallTag := h.formatted.kind
  have h3 : m.read (b + 5) 1 = c.index := h.formatted.classIndex
  have h4 : m.read (b + 6) 2 = 0 := h.formatted.reserved
  have h5 : m.read (b + 12) 4 = c.payloadSize := h.formatted.usableSize
  have h6 : m.read (b + 8) 4 = size := h.requestedSize
  have h7 : m.read (b + 16) 4 = id := h.ownerCacheId
  exact (AllocationHeaderPrefix.mk.injEq ..).mpr ⟨h1, h2, h3, h4, h6, h5, h7⟩

theorem writeSmallToBlock_eq (hsize : SizeClass.fromRequest size = some c) :
    writeSmallToBlock m b c size id = some (writeSmallToBlockUnchecked m b c size id) := by
  obtain ⟨hpos, hle⟩ := SizeClass.fromRequest_spec hsize
  have hlt := c.payloadSize_lt
  have h1 : ¬(size = 0 ∨ c.payloadSize < size) := by omega
  have h2 : (fitsU32 size && fitsU32 c.payloadSize) = true := by
    simp only [fitsU32, Bool.and_eq_true, decide_eq_true_eq]
    omega
  simp only [writeSmallToBlock, encodeSmallFields, h1, if_false, h2, if_true]
  rfl

end Header

section Code

variable {setup : Setup ι κ} {w₀ w₁ w w' : World ι κ FreeList Batch} {s : World ι κ Seq Seq} {a : ι}
  {k : κ} {c : SizeClass} {b size : Nat}

/-- What is relied on in a header over sequences can be relied on in the code. -/
theorem Refines.headerOk (inv : Inv setup s) (h : Refines w s) {debug : Bool} {t : Trust}
    (hal : b % 64 = 0) (hok : HeaderOk debug s.mem c b t) : HeaderOk debug w.mem c b t :=
  hok.congr (h.sameFields inv hal) fun _ => StaysResident.of_le fun _ _ hlazy =>
    h.agree.lazyAt hlazy

/-- The block that an allocation is about to hand out gets the header of a live one. -/
theorem Refines.liveSmall_popped (inv : Inv setup s) (h : Refines w s) {reuse : BlockReuse}
    (ht : s.threads k = .busy a (.popped c size b reuse)) :
    LiveSmall (View.writeHeader setup.debug w.mem c size b (w.caches k).cacheId reuse) c b size
      (w.caches k).cacheId := by
  obtain ⟨-, hc⟩ := inv.parts.thread k a _ ht
  have hc : SizeClass.fromRequest size = some c := hc
  obtain ⟨-, hle⟩ := SizeClass.fromRequest_spec hc
  have hlt := c.payloadSize_lt
  have hid : (w.caches k).cacheId = setup.cacheId k := by
    rw [h.code]
    exact (inv.parts.cache k).cacheId_eq
  have hcell : setup.smallCell a c b ∈ s.own setup (.hand k) :=
    mem_own_hand ht rfl (List.mem_singleton_self b)
  have hal := (inv.ledger.inArena _ _ hcell).aligned
  have htrust : s.trust setup (.hand k) = some (reuse.trust (setup.cacheId k)) := by
    cases reuse <;> simp [World.trust, Thread.trust, ht, Pc.trust, BlockReuse.trust]
  have hok := h.headerOk inv hal (inv.memory.free _ _ htrust _ hcell c rfl)
  have hpage : 0 < w.mem.pageSize := h.agree.pageSize ▸ inv.parts.pageSize_pos
  rw [hid]
  exact liveSmall_writeHeader hpage (by omega) (setup.cacheId_lt k) hok

/-- The step that ends a small allocation is the one that writes the header. -/
theorem Inv.popped_of_allocated (inv : Inv setup s) {pc : Pc ι κ Seq} {v : View ι κ Seq Seq}
    (ht : s.threads k = .busy a pc) (htrans : Transition setup.debug s a k pc v)
    (hrequest : pc.request = some size) (hc : SizeClass.fromRequest size = some c)
    (hret : v.thread = .idle (some (.allocated (userPtrFromBlockStart b)))) :
    ∃ reuse, pc = .popped c size b reuse := by
  have hptr : ∀ {b' : Nat}, userPtrFromBlockStart b' = userPtrFromBlockStart b → b' = b := by
    intro b' heq
    unfold userPtrFromBlockStart at heq
    omega
  cases htrans with
  | @give d size' block reuse =>
    obtain rfl : size' = size := Option.some.inj hrequest
    obtain ⟨-, hd⟩ := inv.parts.thread k a _ ht
    obtain rfl : d = c := Option.some.inj (Eq.trans (Eq.symm hd) hc)
    have heq : userPtrFromBlockStart block = userPtrFromBlockStart b := by
      simpa [View.finish] using hret
    obtain rfl := hptr heq
    exact ⟨reuse, rfl⟩
  | @record size' start blockSize large _ _ _ =>
    obtain rfl : size' = size := Option.some.inj hrequest
    obtain ⟨-, hnone, -⟩ := inv.parts.thread k a _ ht
    cases (Eq.trans (Eq.symm hnone) hc)
  | push _ _ _ _ _ _ => cases hrequest
  | stage _ _ => cases hrequest
  | unstageNone _ => cases hrequest
  | publish => cases hrequest
  | returnBatch => cases hrequest
  | takeSlab hpc => cases hret
  | _ => cases hret

variable [DecidableEq ι] [DecidableEq κ]

/-- When an allocation of a small size returns, the prefix and the freed marker of the header are
those that `write_small_to_block` would have made of the memory, whichever fields were written. -/
theorem Setup.Reachable.header_as_written (h : setup.Reachable w₀)
    (hc : SizeClass.fromRequest size = some c)
    (hcall : w₀.step setup.debug (.allocate k a size) = some w₁) {actions : List (Action ι κ)}
    (hcaller : ∀ action ∈ actions, action.caller ≠ some k)
    (hruns : w₁.runs setup.debug actions = some w) {advised : Bool × Bool}
    (hstep : w.step setup.debug (.run k advised) = some w')
    (hret : w'.threads k = .idle (some (.allocated (userPtrFromBlockStart b)))) :
    ∃ m, writeSmallToBlock w.mem b c size (w.caches k).cacheId = some m ∧
      readPrefix w'.mem b = readPrefix m b ∧ w'.mem.read (b + 32) 8 = m.read (b + 32) 8 := by
  obtain ⟨s₀, hs₀, hrefines₀⟩ := h.refines
  obtain ⟨s₁, hcall', hrefines₁⟩ := hrefines₀.forward hs₀.inv hcall
  have hrequest₁ : (s₁.threads k).Requests size := by
    have hcall' : s₀.call k a (fun v => v.startAllocate a size) = some s₁ := hcall'
    unfold World.call at hcall'
    split at hcall'
    · cases hcall'
    · split at hcall' <;> obtain rfl := Option.some.inj hcall'
      · rw [World.update_threads_same]
        trivial
      · rw [World.update_threads_same]
        exact View.startAllocate_requests ..
  obtain ⟨s, hrefines, inv, hrequest⟩ := hrefines₁.along (requests_kept setup k size)
    (hs₀.inv.step hcall') hrequest₁ hcaller hruns
  cases ht : w.threads k with
  | idle last => simp [World.step, ht] at hstep
  | busy d pc =>
    obtain ⟨pc', hpc', rfl⟩ := hrefines.busy ht
    obtain ⟨s', hstep', hrefines'⟩ := hrefines.forward inv hstep
    simp only [World.step, hpc'] at hstep'
    obtain ⟨v, hv, rfl⟩ := Option.map_eq_some_iff.mp hstep'
    have htrans := inv.transition hpc' hv
    have hret' := hrefines'.idle_last hret
    rw [World.update_threads_same] at hret'
    rw [hpc'] at hrequest
    obtain ⟨reuse, rfl⟩ := inv.popped_of_allocated hpc' htrans hrequest hc hret'
    have hlive := hrefines.liveSmall_popped inv hpc'
    have hmem : w'.mem = View.writeHeader setup.debug w.mem c size b
        (w.caches k).cacheId reuse := by
      simp only [World.step, ht] at hstep
      obtain rfl := Option.some.inj hstep
      rfl
    obtain ⟨-, hle⟩ := SizeClass.fromRequest_spec hc
    have hlt := c.payloadSize_lt
    have hid : (w.caches k).cacheId < 2 ^ 32 := by
      rw [hrefines.code]
      exact (inv.parts.cache k).cacheId_eq ▸ setup.cacheId_lt k
    have hfull : readHeader (writeSmallToBlockUnchecked w.mem b c size (w.caches k).cacheId) b =
        encodedHeader smallTag c.index size c.payloadSize (w.caches k).cacheId :=
      readHeader_writeSmall (by omega) hid
    refine ⟨_, writeSmallToBlock_eq hc, ?_, ?_⟩
    · rw [hmem, hlive.readPrefix_eq]
      exact (congrArg AllocationHeader.toAllocationHeaderPrefix hfull).symm
    · rw [hmem]
      exact hlive.marker.trans (congrArg AllocationHeader.smallFreeMarker hfull).symm

/-- Cache 0 allocates a block and frees it into its hot slot. -/
def sampleFreed : List (Action Unit (Fin 2)) :=
  sampleCarve 0 10 ++ [.deallocate 0 () 0 none, .run 0 (true, true)]

/-- The block comes back from the hot slot, and only its requested size is written. -/
theorem header_as_written_sample : ∃ w w' : World Unit (Fin 2) FreeList Batch, ∃ m : Mem,
    w.threads 0 = .busy () (.popped .b64 33 4096 .hotReuseRequestedOnly) ∧
      w.step true (.run 0 (true, true)) = some w' ∧
      writeSmallToBlock w.mem 4096 .b64 33 (w.caches 0).cacheId = some m ∧
      readPrefix w'.mem 4096 = readPrefix m 4096 ∧
      w'.mem.read (4096 + 32) 8 = m.read (4096 + 32) 8 := by
  have h₀ : ((sampleSetup.world FreeList Batch).runs true sampleFreed).isSome := by decide +kernel
  have h₁ : ((sampleSetup.world FreeList Batch).runs true
      (sampleFreed ++ [.allocate 0 () 33])).isSome := by decide +kernel
  have h₂ : ((sampleSetup.world FreeList Batch).runs true
      (sampleFreed ++ [.allocate 0 () 33] ++ [.run 0 (true, true)])).isSome := by decide +kernel
  have h₃ : ((sampleSetup.world FreeList Batch).runs true
      (sampleFreed ++ [.allocate 0 () 33] ++ [.run 0 (true, true)] ++
        [.run 0 (true, true)])).isSome := by decide +kernel
  have hret : (sampleSetup.after _ h₃).threads 0 =
      .idle (some (.allocated (userPtrFromBlockStart 4096))) := by rfl
  obtain ⟨m, hm⟩ := (sampleSetup.after_reachable h₀).header_as_written
    (show SizeClass.fromRequest 33 = some .b64 from rfl) (sampleSetup.after_step h₀ h₁)
    (by simp [Action.caller]) (sampleSetup.after_runs h₁ h₂) (sampleSetup.after_step h₂ h₃) hret
  exact ⟨_, _, m, by rfl, sampleSetup.after_step h₂ h₃, hm⟩

end Code

end Orthotope
