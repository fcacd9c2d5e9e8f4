import Orthotope.Frees

/-! Frees that are refused.  The two entry points differ in one check of the size; every check comes
before the first change, so a free that answers an error has changed nothing.  The results hold in
any state, reachable or not. -/

namespace Orthotope

open ByteMemory

variable {ι κ : Type} [DecidableEq ι] [DecidableEq κ]

/-! ### The checks -/

section Checks

variable {L : Type} {allocator : Allocator L} {debug : Bool} {m : Mem} {ptr : Nat}

/-- A pointer decodes to the prefix in front of it, or is refused as corrupt. -/
theorem decodeHeader_cases (m : Mem) (ptr : Nat) : decodeHeader m ptr = .error .corruptHeader ∨
    ∃ kind, decodeHeader m ptr = .ok (readPrefix m (blockStartFromUserPtr ptr), kind) := by
  unfold decodeHeader
  split
  · exact Or.inl rfl
  · split
    · exact Or.inl rfl
    · cases hvalid : validatePrefix (readPrefix m (blockStartFromUserPtr ptr)) with
      | error e =>
        obtain rfl := validatePrefix_error hvalid
        exact Or.inl (by simp only [readFromUserPtr, hvalid])
      | ok kind => exact Or.inr ⟨kind, by simp only [readFromUserPtr, hvalid]⟩

/-- The size check is the last one, and the only one that the entry points do not share. -/
theorem checkFree_some (expectedSize : Nat) : allocator.checkFree debug m ptr (some expectedSize) =
    match allocator.checkFree debug m ptr none with
    | .error e => .error e
    | .ok route =>
      if expectedSize = (readPrefix m (blockStartFromUserPtr ptr)).requestedSize then .ok route
      else .error (.sizeMismatch expectedSize
        (readPrefix m (blockStartFromUserPtr ptr)).requestedSize) := by
  rcases decodeHeader_cases m ptr with hdecode | ⟨kind, hdecode⟩
  · simp only [Allocator.checkFree, hdecode]
  · simp only [Allocator.checkFree, hdecode, Allocator.deallocateDecodedWithExpectedSize,
      Allocator.deallocateDecoded, validateExpectedSize]
    cases kind with
    | small c =>
      cases allocator.validateSmallBlockForFree debug m ptr with
      | error e => rfl
      | ok block =>
        simp only
        by_cases hsize : expectedSize = (readPrefix m (blockStartFromUserPtr ptr)).requestedSize
        · rw [if_neg (not_not_intro hsize), if_pos hsize]
        · rw [if_pos hsize, if_neg hsize]
    | large =>
      simp only
      by_cases hsize : expectedSize = (readPrefix m (blockStartFromUserPtr ptr)).requestedSize
      · rw [if_neg (not_not_intro hsize), if_pos hsize]
      · rw [if_pos hsize, if_neg hsize]

theorem checkFree_recorded {recorded : Nat}
    (h : (readPrefix m (blockStartFromUserPtr ptr)).requestedSize = recorded) :
    allocator.checkFree debug m ptr (some recorded) = allocator.checkFree debug m ptr none := by
  rw [checkFree_some, h]
  cases allocator.checkFree debug m ptr none with
  | error e => rfl
  | ok route => exact if_pos rfl

theorem checkFree_sized {route : FreeRoute} {recorded expected : Nat}
    (h : allocator.checkFree debug m ptr none = .ok route)
    (hrecorded : (readPrefix m (blockStartFromUserPtr ptr)).requestedSize = recorded)
    (hne : expected ≠ recorded) :
    allocator.checkFree debug m ptr (some expected) =
      .error (.sizeMismatch expected recorded) := by
  rw [checkFree_some, h, hrecorded]
  exact if_neg hne

/-- What the checks answer without a size: they fail in decoding, or on a small block. -/
theorem checkFree_none_error {e : FreeError} (h : allocator.checkFree debug m ptr none = .error e) :
    decodeHeader m ptr = .error .corruptHeader ∧ e = .corruptHeader ∨
      (∃ decoded, decodeHeader m ptr = .ok decoded) ∧ (e = .foreignPointer ∨ e = .doubleFree) := by
  rcases decodeHeader_cases m ptr with hdecode | ⟨kind, hdecode⟩
  · simp only [Allocator.checkFree, hdecode] at h
    exact Or.inl ⟨hdecode, (Except.error.inj h).symm⟩
  · refine Or.inr ⟨⟨_, hdecode⟩, ?_⟩
    simp only [Allocator.checkFree, hdecode, Allocator.deallocateDecoded] at h
    cases kind with
    | large => cases h
    | small c =>
      simp only [Allocator.validateSmallBlockForFree] at h
      split at h
      · rename_i hsmall
        obtain rfl := Except.error.inj h
        split at hsmall
        · exact Or.inl (Except.error.inj hsmall).symm
        · split at hsmall
          · exact Or.inr (Except.error.inj hsmall).symm
          · cases hsmall
      · cases h

theorem checkFree_of_corrupt (h : decodeHeader m ptr = .error .corruptHeader) :
    allocator.checkFree debug m ptr none = .error .corruptHeader := by
  simp only [Allocator.checkFree, h]

end Checks

/-! ### The calls -/

section Calls

variable {L B : Type} [BlockStore L B] {debug : Bool} {w w₁ w' : World ι κ L B} {a : ι} {k : κ}
  {ptr : Nat} {expectedSize : Option Nat}

/-- A free of `ptr` that nothing comes in between of answers `result` and leads to `w'`. -/
def World.FreeReturns (debug : Bool) (w : World ι κ L B) (k : κ) (a : ι) (ptr : Nat)
    (expectedSize : Option Nat) (result : Outcome) (w' : World ι κ L B) : Prop :=
  ∃ (w₁ : World ι κ L B) (choices : List (Bool × Bool)),
    w.deallocatePtr debug k a ptr expectedSize = some w₁ ∧
      w₁.runs debug (choices.map (Action.run k)) = some w' ∧ w'.threads k = .idle (some result)

/-- What a free leaves alone when it is refused. -/
structure World.Untouched (w w' : World ι κ L B) : Prop where
  mem : w'.mem = w.mem
  allocators : w'.allocators = w.allocators
  caches : w'.caches = w.caches

/-- The call is a free of a small block that has passed its checks. -/
def Pc.FreesSmall : Pc ι κ B → Prop
  | .route .. => True
  | .unstage _ resume | .publishing _ _ resume | .excess _ _ resume | .returning _ _ resume =>
    resume = .done
  | _ => False

def Thread.FreesSmall : Thread ι κ B → Prop
  | .idle last => last = some .freed
  | .busy _ pc => pc.FreesSmall

omit [DecidableEq ι] [DecidableEq κ] in
/-- A small block that has passed the checks is freed, if the call comes to an end. -/
theorem View.next_freesSmall {advised : Bool × Bool} {v v' : View ι κ L B} {pc : Pc ι κ B}
    (h : pc.FreesSmall) (hv : v.next debug advised a k pc = some v') : v'.thread.FreesSmall := by
  cases pc with
  | route c block owner =>
    simp only [View.next] at hv
    split at hv
    · obtain ⟨⟨m, cache⟩, -, rfl⟩ := Option.map_eq_some_iff.mp hv
      dsimp only
      split <;> rfl
    · obtain rfl := Option.some.inj hv
      split <;> rfl
  | unstage c resume =>
    obtain rfl : resume = .done := h
    simp only [View.next] at hv
    split at hv
    · obtain rfl := Option.some.inj hv
      rfl
    · obtain ⟨⟨m, batch, cache⟩, -, rfl⟩ := Option.map_eq_some_iff.mp hv
      rfl
  | publishing c batch resume =>
    obtain rfl : resume = .done := h
    obtain ⟨⟨m, central⟩, -, rfl⟩ := Option.map_eq_some_iff.mp hv
    rfl
  | excess c max resume =>
    obtain rfl : resume = .done := h
    obtain ⟨⟨m, batch, cache⟩, -, rfl⟩ := Option.map_eq_some_iff.mp hv
    rfl
  | returning c batch resume =>
    obtain rfl : resume = .done := h
    obtain ⟨⟨m, central⟩, -, rfl⟩ := Option.map_eq_some_iff.mp hv
    rfl
  | _ => exact h.elim

theorem World.runs_freesSmall {choices : List (Bool × Bool)} (h : (w.threads k).FreesSmall)
    (hruns : w.runs debug (choices.map (Action.run k)) = some w') :
    (w'.threads k).FreesSmall := by
  induction choices generalizing w with
  | nil =>
    obtain rfl := Option.some.inj hruns
    exact h
  | cons advised choices ih =>
    obtain ⟨w₁, hstep, hrest⟩ := Option.bind_eq_some_iff.mp hruns
    refine ih ?_ hrest
    cases ht : w.threads k with
    | idle last => simp [World.step, ht] at hstep
    | busy a pc =>
      simp only [World.step, ht] at hstep
      obtain ⟨v, hv, rfl⟩ := Option.map_eq_some_iff.mp hstep
      rw [World.update_threads_same]
      rw [ht] at h
      exact View.next_freesSmall h hv

/-- A thread between calls does not run. -/
theorem World.runs_idle {last : Option Outcome} {choices : List (Bool × Bool)}
    (ht : w.threads k = .idle last)
    (hruns : w.runs debug (choices.map (Action.run k)) = some w') : w' = w := by
  cases choices with
  | nil => exact (Option.some.inj hruns).symm
  | cons advised choices =>
    obtain ⟨w₁, hstep, -⟩ := Option.bind_eq_some_iff.mp hruns
    simp [World.step, ht] at hstep

/-- The start of a free by a bound cache. -/
theorem World.deallocatePtr_eq {last : Option Outcome} (ht : w.threads k = .idle last)
    (howner : (w.caches k).owner = some a) :
    w.deallocatePtr debug k a ptr expectedSize =
      some (w.update a k ((w.view a k).startFree debug a ⟨a, k, ptr, 0, fun _ => none⟩ w.live
        expectedSize)) :=
  World.call_eq ht (if_pos howner) fun v =>
    v.startFree debug a ⟨a, k, ptr, 0, fun _ => none⟩ v.live expectedSize

omit [DecidableEq ι] [DecidableEq κ] [BlockStore L B] in
theorem World.Untouched.trans {w₂ : World ι κ L B} (h : w.Untouched w₁) (h' : w₁.Untouched w₂) :
    w.Untouched w₂ :=
  ⟨h'.mem.trans h.mem, h'.allocators.trans h.allocators, h'.caches.trans h.caches⟩

omit [BlockStore L B] in
theorem World.Untouched.update {v : View ι κ L B} (hmem : v.mem = w.mem)
    (hallocator : v.allocator = w.allocators a) (hcache : v.cache = w.caches k) :
    w.Untouched (w.update a k v) where
  mem := hmem
  allocators := by
    rw [World.update, hallocator]
    exact Function.update_eq_self ..
  caches := by
    rw [World.update, hcache]
    exact Function.update_eq_self ..

theorem validateAndRelease_error {state : LargeObjectState} {requested usable : Nat} {e : FreeError}
    (h : state.validateAndReleaseLiveAllocation ptr requested usable = some (.error e)) :
    e = .corruptHeader ∨ e = .alreadyFreedOrUnknownLarge := by
  unfold LargeObjectState.validateAndReleaseLiveAllocation at h
  split at h
  · exact Or.inr (Except.error.inj (Option.some.inj h)).symm
  · split at h
    · exact Or.inl (Except.error.inj (Option.some.inj h)).symm
    · split at h <;> cases h

/-- A release is one step, and changes nothing when the registry refuses it. -/
theorem World.release_returns {entry : Live ι κ} {requested usable : Nat}
    (ht : w.threads k = .busy a (.releasing entry requested usable)) {choices : List (Bool × Bool)}
    (hruns : w.runs debug (choices.map (Action.run k)) = some w') {result : Outcome}
    (hresult : w'.threads k = .idle (some result)) :
    result = .freed ∨ (result = .freeError .corruptHeader ∨
      result = .freeError .alreadyFreedOrUnknownLarge) ∧ w.Untouched w' := by
  cases choices with
  | nil =>
    obtain rfl := Option.some.inj hruns
    cases ht.symm.trans hresult
  | cons advised choices =>
    obtain ⟨w₁, hstep, hrest⟩ := Option.bind_eq_some_iff.mp hruns
    simp only [World.step, ht] at hstep
    obtain ⟨v, hv, rfl⟩ := Option.map_eq_some_iff.mp hstep
    obtain ⟨answer, hanswer, rfl⟩ := Option.map_eq_some_iff.mp hv
    cases answer with
    | ok large =>
      obtain rfl := World.runs_idle (World.update_threads_same ..) hrest
      rw [World.update_threads_same] at hresult
      exact Or.inl (Option.some.inj (Thread.idle.inj hresult)).symm
    | error e =>
      obtain rfl := World.runs_idle (World.update_threads_same ..) hrest
      rw [World.update_threads_same] at hresult
      obtain rfl := Option.some.inj (Thread.idle.inj hresult)
      refine Or.inr ⟨?_, .update rfl rfl rfl⟩
      exact (validateAndRelease_error hanswer).imp (congrArg Outcome.freeError)
        (congrArg Outcome.freeError)

/-- What a free answers: the error of its checks at once; `freed`, if it is of a small block that
has passed them; and what the registry says of a large one. -/
theorem World.FreeReturns.cases {last : Option Outcome} (ht : w.threads k = .idle last)
    (howner : (w.caches k).owner = some a) {result : Outcome}
    (h : w.FreeReturns debug k a ptr expectedSize result w') :
    (∃ e, (w.allocators a).checkFree debug w.mem ptr expectedSize = .error e ∧
      result = .freeError e ∧ w.Untouched w') ∨
    (∃ route, (w.allocators a).checkFree debug w.mem ptr expectedSize = .ok route) ∧
      (result = .freed ∨ (result = .freeError .corruptHeader ∨
        result = .freeError .alreadyFreedOrUnknownLarge) ∧ w.Untouched w') := by
  obtain ⟨w₁, choices, hstart, hruns, hresult⟩ := h
  rw [World.deallocatePtr_eq ht howner] at hstart
  obtain rfl := Option.some.inj hstart
  have hcheck : (w.view a k).allocator.checkFree debug (w.view a k).mem ptr expectedSize =
    (w.allocators a).checkFree debug w.mem ptr expectedSize := rfl
  cases hroute : (w.allocators a).checkFree debug w.mem ptr expectedSize with
  | error e =>
    rw [hroute] at hcheck
    simp only [View.startFree, hcheck] at hruns
    have hidle : (w.update a k ((w.view a k).finish (.freeError e))).threads k =
      .idle (some (.freeError e)) := World.update_threads_same ..
    obtain rfl := World.runs_idle hidle hruns
    refine Or.inl ⟨e, rfl, ?_, .update rfl rfl rfl⟩
    rw [hidle] at hresult
    exact (Option.some.inj (Thread.idle.inj hresult)).symm
  | ok route =>
    rw [hroute] at hcheck
    refine Or.inr ⟨⟨route, rfl⟩, ?_⟩
    cases route with
    | small c block owner =>
      simp only [View.startFree, hcheck] at hruns
      have hsmall : (w'.threads k).FreesSmall := by
        refine World.runs_freesSmall ?_ hruns
        rw [World.update_threads_same]
        trivial
      rw [hresult] at hsmall
      exact Or.inl (Option.some.inj hsmall)
    | large requested usable =>
      simp only [View.startFree, hcheck] at hruns
      have hbusy := World.release_returns (World.update_threads_same ..) hruns hresult
      refine hbusy.imp id fun hrefused => ⟨hrefused.1, World.Untouched.trans ?_ hrefused.2⟩
      exact .update rfl rfl rfl

theorem World.FreeReturns.untouched {last : Option Outcome} {e : FreeError}
    (ht : w.threads k = .idle last) (howner : (w.caches k).owner = some a)
    (h : w.FreeReturns debug k a ptr expectedSize (.freeError e) w') : w.Untouched w' := by
  rcases h.cases ht howner with ⟨-, -, -, huntouched⟩ | ⟨-, hfreed | ⟨-, huntouched⟩⟩
  · exact huntouched
  · cases hfreed
  · exact huntouched

omit [DecidableEq ι] [DecidableEq κ] [BlockStore L B] in
/-- The checks decide the start of a free. -/
theorem startFree_congr {v : View ι κ L B} {entry : Live ι κ} {live : List (Live ι κ)}
    {size size' : Option Nat} (h : v.allocator.checkFree debug v.mem entry.ptr size =
      v.allocator.checkFree debug v.mem entry.ptr size') :
    v.startFree debug a entry live size = v.startFree debug a entry live size' := by
  simp only [View.startFree, h]

/-- An error of the checks is the answer, and the only one. -/
theorem World.FreeReturns.of_error {last : Option Outcome} {e : FreeError}
    (ht : w.threads k = .idle last) (howner : (w.caches k).owner = some a)
    (h : (w.allocators a).checkFree debug w.mem ptr expectedSize = .error e) :
    ∃ w', w.FreeReturns debug k a ptr expectedSize (.freeError e) w' := by
  have hcheck : (w.view a k).allocator.checkFree debug (w.view a k).mem ptr expectedSize =
    .error e := h
  refine ⟨_, _, [], World.deallocatePtr_eq ht howner, rfl, ?_⟩
  rw [World.update_threads_same]
  simp only [View.startFree, hcheck]
  rfl

theorem World.FreeReturns.of_check_error {last : Option Outcome} {e : FreeError}
    (ht : w.threads k = .idle last) (howner : (w.caches k).owner = some a)
    (herror : (w.allocators a).checkFree debug w.mem ptr expectedSize = .error e) {result : Outcome}
    (h : w.FreeReturns debug k a ptr expectedSize result w') : result = .freeError e := by
  rcases h.cases ht howner with ⟨e', he, hresult, -⟩ | ⟨⟨route, hroute⟩, -⟩
  · obtain rfl := Except.error.inj (herror.symm.trans he)
    exact hresult
  · cases herror.symm.trans hroute

/-- The frees of `ptr` that answer an error change nothing.  With the recorded size as the expected
one the two entry points make the same call.  With another size the checked one answers an error:
that of decoding, of a foreign pointer or of a double free if the unchecked one does so, and
otherwise that the size does not match. -/
theorem rejected_frees {last : Option Outcome} {recorded : Nat} (ht : w.threads k = .idle last)
    (howner : (w.caches k).owner = some a)
    (hrecorded : (readPrefix w.mem (blockStartFromUserPtr ptr)).requestedSize = recorded) :
    (∀ expectedSize e w', w.FreeReturns debug k a ptr expectedSize (.freeError e) w' →
      w.Untouched w') ∧
    w.deallocatePtr debug k a ptr (some recorded) = w.deallocatePtr debug k a ptr none ∧
    ∀ expected, expected ≠ recorded → ∃ e,
      (∃ w', w.FreeReturns debug k a ptr (some expected) (.freeError e) w') ∧
      (∀ result w', w.FreeReturns debug k a ptr (some expected) result w' → result = .freeError e) ∧
      ((∃ w', w.FreeReturns debug k a ptr none (.freeError e) w') ∧
          (decodeHeader w.mem ptr = .error .corruptHeader ∧ e = .corruptHeader ∨
            e = .foreignPointer ∨ e = .doubleFree) ∨
        e = .sizeMismatch expected recorded ∧ (∃ decoded, decodeHeader w.mem ptr = .ok decoded) ∧
          ∀ e' w', w.FreeReturns debug k a ptr none (.freeError e') w' →
            e' ≠ .foreignPointer ∧ e' ≠ .doubleFree) := by
  refine ⟨?_, ?_, ?_⟩
  · intro expectedSize e w' h
    exact h.untouched ht howner
  · rw [World.deallocatePtr_eq ht howner, World.deallocatePtr_eq ht howner,
      startFree_congr (checkFree_recorded hrecorded)]
  · intro expected hne
    cases hcheck : (w.allocators a).checkFree debug w.mem ptr none with
    | error e =>
      have hsized : (w.allocators a).checkFree debug w.mem ptr (some expected) = .error e := by
        rw [checkFree_some, hcheck]
      refine ⟨e, World.FreeReturns.of_error ht howner hsized,
        fun result w' h => h.of_check_error ht howner hsized, Or.inl ⟨?_, ?_⟩⟩
      · exact World.FreeReturns.of_error ht howner hcheck
      · rcases checkFree_none_error hcheck with hcorrupt | ⟨-, hsmall⟩
        · exact Or.inl hcorrupt
        · exact Or.inr hsmall
    | ok route =>
      have hsized := checkFree_sized hcheck hrecorded hne
      refine ⟨_, World.FreeReturns.of_error ht howner hsized,
        fun result w' h => h.of_check_error ht howner hsized, Or.inr ⟨rfl, ?_, ?_⟩⟩
      · rcases decodeHeader_cases w.mem ptr with hcorrupt | ⟨kind, hdecode⟩
        · rw [checkFree_of_corrupt hcorrupt] at hcheck
          cases hcheck
        · exact ⟨_, hdecode⟩
      · intro e' w' h
        rcases h.cases ht howner with ⟨e, he, -, -⟩ | ⟨-, hfreed | ⟨hrefused, -⟩⟩
        · cases hcheck.symm.trans he
        · cases hfreed
        · rcases hrefused with hrefused | hrefused <;>
            · obtain rfl := Outcome.freeError.inj hrefused
              constructor <;> intro hcontra <;> cases hcontra

/-- Cache 1 frees an allocation of 10 bytes as one of 11. -/
theorem rejected_frees_sample : ∃ e w', sampleWorld.FreeReturns true 1 () 4160 (some 11)
    (.freeError e) w' ∧ sampleWorld.Untouched w' := by
  have ht : ∃ last, sampleWorld.threads 1 = .idle last := ⟨_, by rfl⟩
  obtain ⟨last, ht⟩ := ht
  have howner : (sampleWorld.caches 1).owner = some () := by decide +kernel
  have hrecorded : (readPrefix sampleWorld.mem (blockStartFromUserPtr 4160)).requestedSize =
      10 := by
    decide +kernel
  obtain ⟨huntouched, -, hsized⟩ :=
    @rejected_frees Unit (Fin 2) _ _ FreeList Batch _ true sampleWorld () 1 4160 last 10 ht howner
      hrecorded
  obtain ⟨e, ⟨w', hreturns⟩, -, -⟩ := hsized 11 (by decide)
  exact ⟨e, w', hreturns, huntouched _ _ _ hreturns⟩

end Calls

end Orthotope
