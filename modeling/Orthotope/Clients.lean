import Orthotope.Calls

/-! The allocations in the hands of the clients.  Each of them lies in a cell of its own, so a store
changes nothing that anybody else relies on; and a discard changes no byte that has been written
since its page was given up.  This completes the actions of a run. -/

namespace Orthotope

open ByteMemory Ownership

variable {ι κ : Type}

/-- Two allocations that share no byte, their headers included. -/
def Live.Apart (e e' : Live ι κ) : Prop :=
  e.ptr + e.size ≤ blockStartFromUserPtr e'.ptr ∨ e'.ptr + e'.size ≤ blockStartFromUserPtr e.ptr

section Entries

variable {setup : Setup ι κ} {w : World ι κ Seq Seq}

/-- The cell of an allocation that is live or on its way to be released. -/
structure CellOf (setup : Setup ι κ) (w : World ι κ Seq Seq) (entry : Live ι κ) (p : Place ι κ)
    (x : Cell ι) : Prop where
  place : p = .client ∨ p = .largeLive entry.alloc
  mem : x ∈ w.own setup p
  alloc_eq : x.alloc = entry.alloc
  lo_eq : x.lo = blockStartFromUserPtr entry.ptr
  le_hi : entry.ptr + entry.size ≤ x.hi

theorem Inv.cellOf_small (inv : Inv setup w) {entry : Live ι κ} (hmem : entry ∈ w.live)
    {c : SizeClass} (hc : SizeClass.fromRequest entry.size = some c) :
    CellOf setup w entry .client
      (setup.smallCell entry.alloc c (blockStartFromUserPtr entry.ptr)) := by
  have ok := inv.memory.entry none entry hmem
  have h1 := ok.header_le
  have h2 := (SizeClass.fromRequest_spec hc).2
  have h3 := (setup.config entry.alloc).header_payload_le_classBlockSize c
  refine ⟨Or.inl rfl, Live.mem_client hmem hc, rfl, rfl, ?_⟩
  show _ ≤ entry.ptr - headerSize + (setup.config entry.alloc).classBlockSize c
  omega

theorem Inv.cellOf_large (inv : Inv setup w) {entry : Live ι κ} {record : LargeAllocationRecord}
    (hrecord : (entry.ptr, record) ∈ (w.allocators entry.alloc).large.live)
    (hreq : record.requestedSize = entry.size) :
    CellOf setup w entry (.largeLive entry.alloc)
      (largeCell entry.alloc (LargeObjectState.recordBlock record)) := by
  have hok := (inv.parts.allocator entry.alloc).large.live_ok _ hrecord
  have h1 := hok.key
  have h2 := hok.usable_eq
  have h3 := hok.requested_le
  have h4 := hok.header_le
  simp only at h1 h2 h3 h4
  refine ⟨Or.inr rfl, mem_largeLive hrecord, rfl, ?_, ?_⟩
  · show record.blockAddr = entry.ptr - headerSize
    omega
  · show _ ≤ record.blockAddr + record.blockSize
    omega

theorem Inv.exists_cell (inv : Inv setup w) {g : Option κ} {entry : Live ι κ}
    (hg : entry ∈ w.entries g) : ∃ p x, CellOf setup w entry p x := by
  cases hc : SizeClass.fromRequest entry.size with
  | none =>
    obtain ⟨record, hrecord, hreq⟩ := inv.tokens.record g entry hg hc
    exact ⟨_, _, inv.cellOf_large hrecord hreq⟩
  | some c =>
    cases g with
    | none => exact ⟨_, _, inv.cellOf_small hg hc⟩
    | some j =>
      obtain ⟨b, requested, usable, ht⟩ := mem_entries_some hg
      cases hc.symm.trans (inv.parts.thread j b _ ht).2

theorem CellOf.apart {entry entry' : Live ι κ} {p p' : Place ι κ} {x x' : Cell ι}
    (h : CellOf setup w entry p x) (h' : CellOf setup w entry' p' x') (hx : x.Apart x') :
    entry.Apart entry' := by
  unfold Cell.Apart at hx
  rw [h.lo_eq, h'.lo_eq] at hx
  exact hx.imp (fun hx => h.le_hi.trans hx) fun hx => h'.le_hi.trans hx

variable [DecidableEq ι] [DecidableEq κ]

/-- Large allocations with different tokens are apart. -/
theorem Inv.large_apart (inv : Inv setup w) {g g' : Option κ} {entry entry' : Live ι κ}
    (hg : entry ∈ w.entries g) (hg' : entry' ∈ w.entries g')
    (hc : SizeClass.fromRequest entry.size = none) (hc' : SizeClass.fromRequest entry'.size = none)
    (hne : (entry.alloc, entry.ptr) ≠ (entry'.alloc, entry'.ptr)) : entry.Apart entry' := by
  obtain ⟨record, hrecord, hreq⟩ := inv.tokens.record g entry hg hc
  obtain ⟨record', hrecord', hreq'⟩ := inv.tokens.record g' entry' hg' hc'
  have h := inv.cellOf_large hrecord hreq
  have h' := inv.cellOf_large hrecord' hreq'
  apply h.apart h'
  by_cases ha : entry.alloc = entry'.alloc
  · have hpw := inv.ledger.apart.holder (.largeLive entry.alloc)
    simp only [World.own, LargeObjectState.liveBag, Multiset.map_coe,
      Multiset.pairwise_coe_iff_pairwise, List.pairwise_map] at hpw
    rw [← ha] at hrecord' ⊢
    refine hpw.forall hrecord hrecord' fun heq => hne ?_
    rw [ha, (Prod.mk.inj heq).1]
  · exact inv.ledger.apart.of_ne (by simpa using ha) h.mem h'.mem

theorem Inv.live_apart (inv : Inv setup w) : w.live.Pairwise Live.Apart := by
  have hclient := inv.ledger.apart.holder .client
  have htokens := inv.tokens.apart.holder none
  simp only [World.own, World.tokens, Multiset.pairwise_coe_iff_pairwise, List.pairwise_filterMap,
    List.pairwise_map, List.pairwise_filter] at hclient htokens
  refine (hclient.and htokens).imp_of_mem fun {e e'} he he' hend => ?_
  obtain ⟨h, h'⟩ := hend
  cases hc : SizeClass.fromRequest e.size with
  | none =>
    cases hc' : SizeClass.fromRequest e'.size with
    | none =>
      have hmem : e ∈ w.entries none := he
      have hmem' : e' ∈ w.entries none := he'
      exact inv.large_apart hmem hmem' hc hc' (h' (by simp [hc]) (by simp [hc']))
    | some c' =>
      obtain ⟨record, hrecord, hreq⟩ := inv.tokens.record none e he hc
      have h1 := inv.cellOf_large hrecord hreq
      have h2 := inv.cellOf_small he' hc'
      exact h1.apart h2 (inv.ledger.apart.of_ne (by simp) h1.mem h2.mem)
  | some c =>
    have h1 := inv.cellOf_small he hc
    cases hc' : SizeClass.fromRequest e'.size with
    | none =>
      obtain ⟨record, hrecord, hreq⟩ := inv.tokens.record none e' he' hc'
      have h2 := inv.cellOf_large hrecord hreq
      exact h1.apart h2 (inv.ledger.apart.of_ne (by simp) h1.mem h2.mem)
    | some c' =>
      have h2 := inv.cellOf_small he' hc'
      exact h1.apart h2 (h _ (by simp [Live.smallCell?, hc]) _ (by simp [Live.smallCell?, hc']))

/-- What a call is about to release is apart from what is live. -/
theorem Inv.releasing_apart (inv : Inv setup w) {j : κ} {entry entry' : Live ι κ}
    (hmem : entry ∈ w.live) (hj : entry' ∈ w.entries (some j)) : entry.Apart entry' := by
  obtain ⟨b, requested, usable, ht⟩ := mem_entries_some hj
  have hc' : SizeClass.fromRequest entry'.size = none := (inv.parts.thread j b _ ht).2
  cases hc : SizeClass.fromRequest entry.size with
  | none =>
    have h1 : (entry.alloc, entry.ptr) ∈ w.tokens none := mem_tokens hmem hc
    have h2 : (entry'.alloc, entry'.ptr) ∈ w.tokens (some j) := mem_tokens hj hc'
    exact inv.large_apart (g := none) hmem hj hc hc' (inv.tokens.apart.of_ne (by simp) h1 h2)
  | some c =>
    have h1 := inv.cellOf_small hmem hc
    obtain ⟨record, hrecord, hreq⟩ := inv.tokens.record (some j) entry' hj hc'
    have h2 := inv.cellOf_large hrecord hreq
    exact h1.apart h2 (inv.ledger.apart.of_ne (by simp) h1.mem h2.mem)

end Entries

/-! ### Stores and discards -/

section Environment

variable {setup : Setup ι κ} {w : World ι κ Seq Seq}

/-- The memory and what the clients have stored change; who has what does not. -/
theorem Inv.of_memory (inv : Inv setup w) {m : Mem} {live : List (Live ι κ)}
    (hpage : m.pageSize = w.mem.pageSize)
    (hlive : live.map (fun e => (e.alloc, e.ptr, e.size)) =
      w.live.map fun e => (e.alloc, e.ptr, e.size))
    (memory' : Memory setup { w with mem := m, live }) : Inv setup { w with mem := m, live } := by
  have hcells : live.filterMap (Live.smallCell? setup) =
      w.live.filterMap (Live.smallCell? setup) := by
    have hfactor : (Live.smallCell? setup : Live ι κ → Option (Cell ι)) =
        (fun e : ι × Nat × Nat => (SizeClass.fromRequest e.2.2).map fun c =>
          setup.smallCell e.1 c (blockStartFromUserPtr e.2.1)) ∘
            fun e : Live ι κ => (e.alloc, e.ptr, e.size) := rfl
    rw [hfactor, ← List.filterMap_map, hlive, List.filterMap_map]
  have hown : (({ w with mem := m, live } : World ι κ Seq Seq)).own setup = w.own setup := by
    funext p
    cases p with
    | client => simp only [World.own, hcells]
    | _ => rfl
  have htokens : ({ w with mem := m, live } : World ι κ Seq Seq).tokens = w.tokens := by
    funext g
    cases g with
    | none =>
      have hfactor : ∀ l : List (Live ι κ),
          (l.filter fun e => (SizeClass.fromRequest e.size).isNone).map
            (fun e => (e.alloc, e.ptr)) =
            ((l.map fun e => (e.alloc, e.ptr, e.size)).filter
              fun e => (SizeClass.fromRequest e.2.2).isNone).map fun e => (e.1, e.2.1) := by
        intro l
        rw [List.filter_map, List.map_map]
        rfl
      simp only [World.tokens, hfactor, hlive]
    | some j => rfl
  refine ⟨⟨hpage.trans inv.parts.pageSize_eq, inv.parts.allocator, inv.parts.cache,
    inv.parts.home, inv.parts.thread⟩, ⟨hown ▸ inv.ledger.apart, fun x hx => ?_, fun p x hx => ?_⟩,
    ⟨htokens ▸ inv.tokens.apart, fun g entry hg hc => ?_⟩, memory'⟩
  · rw [hown]
    exact inv.ledger.covered x hx
  · have h := inv.ledger.inArena p x (hown ▸ hx)
    exact ⟨h.base_le, h.lo_lt, h.hi_le, h.dvd_lo⟩
  · cases g with
    | none =>
      have hin : (entry.alloc, entry.ptr, entry.size) ∈
          w.live.map fun e => (e.alloc, e.ptr, e.size) :=
        hlive ▸ List.mem_map_of_mem (f := fun e : Live ι κ => (e.alloc, e.ptr, e.size)) hg
      obtain ⟨old, hold, heq⟩ := List.mem_map.mp hin
      obtain ⟨h1, h2, h3⟩ : old.alloc = entry.alloc ∧ old.ptr = entry.ptr ∧
          old.size = entry.size := by simpa using heq
      rw [← h1, ← h2, ← h3]
      exact inv.tokens.record none old hold (h3 ▸ hc)
    | some j => exact inv.tokens.record (some j) entry hg hc

section Store

variable {offset : Nat} {value : UInt8} {entry : Live ι κ}

theorem writesIn_store (m : Mem) (entry : Live ι κ) (offset : Nat) (value : UInt8) :
    WritesIn (fun y => y = entry.ptr + offset) m (m.write (entry.ptr + offset) 1 value.toNat) :=
  WritesIn.write fun y h1 h2 => by omega

/-- A client's store is to the cell of the allocation. -/
theorem Inv.store_cellOf (inv : Inv setup w) (hmem : entry ∈ w.live) (hoff : offset < entry.size) :
    ∃ p x, CellOf setup w entry p x ∧ x.lo ≤ entry.ptr + offset ∧ entry.ptr + offset < x.hi := by
  have hle := (inv.memory.entry none entry hmem).header_le
  obtain ⟨p, x, hx⟩ := inv.exists_cell (g := none) hmem
  have hhi := hx.le_hi
  refine ⟨p, x, hx, ?_, by omega⟩
  rw [hx.lo_eq, blockStartFromUserPtr]
  omega

/-- A store leaves the other allocations alone. -/
theorem Live.Apart.store {e : Live ι κ} (h : entry.Apart e) (hle : headerSize ≤ entry.ptr)
    (he : headerSize ≤ e.ptr) (hoff : offset < entry.size) (m : Mem) (value : UInt8) :
    SameOn (blockStartFromUserPtr e.ptr) (e.ptr + e.size) m
      (m.write (entry.ptr + offset) 1 value.toNat) := by
  refine (writesIn_store m entry offset value).sameOn fun y h3 h4 h5 => ?_
  unfold Live.Apart blockStartFromUserPtr at h
  unfold blockStartFromUserPtr at h3
  omega

/-- The header of the allocation is in front of the byte stored. -/
theorem EntryOk.store (ok : EntryOk setup w entry) (hp : 0 < w.mem.pageSize)
    (hoff : offset < entry.size) (live : List (Live ι κ)) :
    EntryOk setup { w with mem := w.mem.write (entry.ptr + offset) 1 value.toNat, live }
      { entry with written := Function.update entry.written offset (some value) } := by
  have hw := writesIn_store w.mem entry offset value
  have hle := ok.header_le
  have hheader : SameOn (blockStartFromUserPtr entry.ptr)
      (blockStartFromUserPtr entry.ptr + headerSize) w.mem
        (w.mem.write (entry.ptr + offset) 1 value.toNat) := by
    refine hw.sameOn fun y h3 h4 h5 => ?_
    unfold blockStartFromUserPtr at h4
    omega
  have hfields := SameFields.of_sameOn hheader hw.pageSize
  have hres := staysResident_of_sameOn hheader
  refine ⟨ok.size_pos, hle, fun c hc => (ok.small c hc).congr hfields hres,
    fun hc record hrecord => (ok.large hc record hrecord).congr hfields hres, fun off v hv => ?_⟩
  by_cases ho : off = offset
  · subst ho
    obtain rfl : value = v := by simpa using hv
    refine ⟨hoff, ?_, ?_⟩
    · have := Mem.write_byte_inside (m := w.mem) (a := entry.ptr + off) (v := value.toNat)
        (show 0 < 1 by omega)
      simpa using this
    · exact Mem.write_lazyAt_inside hp (Nat.le_refl _) (Nat.lt_succ_self _)
  · simp only [Function.update_of_ne ho] at hv
    obtain ⟨h1, h2, h3⟩ := ok.written off v hv
    refine ⟨h1, (hw.byte _ (by simpa using ho)).trans h2, ?_⟩
    rw [← Bool.not_eq_true] at h3 ⊢
    exact fun h => h3 (hw.lazyAt _ h)

variable [DecidableEq ι] [DecidableEq κ]

/-- A store leaves the cells alone that no client has. -/
theorem Inv.store_place (inv : Inv setup w) (hmem : entry ∈ w.live) (hoff : offset < entry.size)
    (value : UInt8) {q : Place ι κ} {z : Cell ι} (hz : z ∈ w.own setup q) (h1 : q ≠ .client)
    (h2 : ∀ a, q ≠ .largeLive a) :
    SameOn z.lo z.hi w.mem (w.mem.write (entry.ptr + offset) 1 value.toNat) := by
  obtain ⟨p, x, hx, hlo, hhi⟩ := inv.store_cellOf hmem hoff
  have hne : p ≠ q := by
    rcases hx.place with h | h
    · exact fun heq => h1 (heq ▸ h)
    · exact fun heq => h2 _ (heq ▸ h)
  have hapart : x.hi ≤ z.lo ∨ z.hi ≤ x.lo := inv.ledger.apart.of_ne hne hx.mem hz
  exact (writesIn_store w.mem entry offset value).sameOn fun y h3 h4 h5 => by omega

/-- A client's store reaches its own payload only. -/
theorem Inv.store (inv : Inv setup w) {i : Nat} (hentry : w.live[i]? = some entry)
    (hoff : offset < entry.size) :
    Inv setup { w with
      mem := w.mem.write (entry.ptr + offset) 1 value.toNat
      live := w.live.set i
        { entry with written := Function.update entry.written offset (some value) } } := by
  obtain ⟨pre, post, hlive, -, hset⟩ := IndexedVec.getElem?_split hentry
  rw [hset]
  have hmem : entry ∈ w.live := by simp [hlive]
  have ok := inv.memory.entry none entry hmem
  have hw := writesIn_store w.mem entry offset value
  have hother : ∀ {h : Option κ} {e : Live ι κ}, e ∈ w.entries h → entry.Apart e →
      SameOn (blockStartFromUserPtr e.ptr) (e.ptr + e.size) w.mem
        (w.mem.write (entry.ptr + offset) 1 value.toNat) := fun he hapart =>
    hapart.store ok.header_le (inv.memory.entry _ _ he).header_le hoff w.mem value
  refine inv.of_memory hw.pageSize (by simp [hlive]) ⟨fun q t ht z hz c hc => ?_,
    fun g e hg => ?_, fun j b pc ht => ?_, fun b y h1 h2 => ?_⟩
  · have h1 : q ≠ .client := by
      rintro rfl
      cases ht
    have h2 : ∀ a, q ≠ .largeLive a := by
      rintro a rfl
      cases ht
    have hz' : z ∈ w.own setup q := by
      cases q with
      | client => exact absurd rfl h1
      | _ => exact hz
    have ht' : w.trust setup q = some t := by
      cases q <;> exact ht
    have hheader := (inv.store_place hmem hoff value hz' h1 h2).mono (Nat.le_refl _)
      (inv.ledger.header_le hz' hc)
    exact (inv.memory.free q t ht' z hz' c hc).congr (SameFields.of_sameOn hheader hw.pageSize)
      fun _ => staysResident_of_sameOn hheader
  · have hkept : ∀ {h : Option κ} {e : Live ι κ}, e ∈ w.entries h → entry.Apart e →
        EntryOk setup { w with
          mem := w.mem.write (entry.ptr + offset) 1 value.toNat
          live := pre ++ { entry with
            written := Function.update entry.written offset (some value) } :: post } e := by
      intro h e he hapart
      exact (inv.memory.entry h e he).congr hw.pageSize (fun _ _ h => h) (Nat.le_refl _)
        (hother he hapart)
    cases g with
    | some j => exact hkept (h := some j) hg (inv.releasing_apart hmem hg)
    | none =>
      have hpw := inv.live_apart
      rw [hlive, List.pairwise_append, List.pairwise_cons] at hpw
      obtain ⟨_, ⟨hpost, _⟩, hpre⟩ := hpw
      have hin : ∀ e, e ∈ pre ∨ e ∈ post → e ∈ w.entries none := by
        intro e he
        simp only [World.entries, hlive, List.mem_append, List.mem_cons]
        tauto
      rcases List.mem_append.mp hg with he | he
      · exact hkept (hin e (Or.inl he)) (Or.symm (hpre e he entry List.mem_cons_self))
      rcases List.mem_cons.mp he with rfl | he
      · exact ok.store inv.parts.pageSize_pos hoff _
      · exact hkept (hin e (Or.inr he)) (hpost e he)
  · refine (inv.memory.pc j b pc ht).congr hw.pageSize (fun block hblock => ?_)
      (fun size start blockSize hpc => ?_) fun e he => ?_
    · exact inv.store_place hmem hoff value (mem_own_extent setup ht hblock) (by simp) (by simp)
    · subst hpc
      have := (inv.parts.thread j b _ ht).2.2.2.1
      omega
    · have hj : e ∈ w.entries (some j) := by
        have ht' : w.threads j = .busy b pc := ht
        simp [World.entries, ht', Thread.entries, he]
      have hsame := hother hj (inv.releasing_apart hmem hj)
      have hok := inv.memory.entry _ e hj
      have h1 := hok.header_le
      have h2 := hok.size_pos
      refine (SameFields.of_sameOn (hsame.mono (Nat.le_refl _) ?_) hw.pageSize).readPrefix_eq
      unfold blockStartFromUserPtr
      omega
  · obtain ⟨p, x, hx, hlo, hhi⟩ := inv.store_cellOf hmem hoff
    refine (hw.byte y fun hy => ?_).trans (inv.memory.untouched b y h1 h2)
    exact inv.ledger.not_mem_untouched inv.parts hx.mem h1 h2 ⟨hy ▸ hlo, hy ▸ hhi⟩

end Store

/-- A discard takes no byte that has been written since its page was given up. -/
theorem Inv.discard (inv : Inv setup w) {page : Nat} (hpage : w.mem.lazyPage page = true) :
    Inv setup { w with mem := w.mem.discard page } := by
  have hzero : ∀ x, w.mem.byte x = 0 → (w.mem.discard page).byte x = 0 := fun x hx =>
    (Mem.discard_byte_eq_or w.mem page x).elim (fun h => h.trans hx) id
  have hlarge : ∀ {g : Option κ} {entry : Live ι κ}, entry ∈ w.entries g →
      SizeClass.fromRequest entry.size = none →
        SameFields (blockStartFromUserPtr entry.ptr) w.mem (w.mem.discard page) := by
    intro g entry hg hc
    obtain ⟨record, hrecord, _⟩ := inv.tokens.record g entry hg hc
    exact sameFields_discard hpage ((inv.memory.entry g entry hg).large hc record hrecord).resident
  refine inv.of_memory rfl rfl ⟨fun p t ht x hx c hc => ?_, fun g entry hg => ?_,
    fun j b pc ht => ?_, fun b x h1 h2 => hzero x (inv.memory.untouched b x h1 h2)⟩
  · exact (inv.memory.free p t ht x hx c hc).discard (inv.ledger.inArena p x hx).aligned hpage
  · have ok := inv.memory.entry g entry hg
    refine ⟨ok.size_pos, ok.header_le, fun c hc => ?_, fun hc record hrecord => ?_,
      fun off v hv => ?_⟩
    · have h := ok.small c hc
      exact h.congr (sameFields_discard hpage h.formatted.resident) staysResident_discard
    · exact (ok.large hc record hrecord).congr (hlarge hg hc) staysResident_discard
    · obtain ⟨h1, h2, h3⟩ := ok.written off v hv
      exact ⟨h1, (Mem.discard_byte_of_lazyAt hpage h3).trans h2, h3⟩
  · have hpc := inv.memory.pc j b pc ht
    cases pc with
    | carved c size span => exact fun x h1 h2 => hzero x (hpc x h1 h2)
    | largeWritten size start blockSize =>
      exact LiveLarge.congr hpc (sameFields_discard hpage hpc.resident) staysResident_discard
    | releasing entry requested usable =>
      have hmem : entry ∈ w.entries (some j) := by
        have ht' : w.threads j = .busy b (.releasing entry requested usable) := ht
        simp [World.entries, Thread.entries, Pc.entry, ht']
      have heq := (hlarge hmem (inv.parts.thread j b _ ht).2).readPrefix_eq
      exact ⟨heq ▸ hpc.1, heq ▸ hpc.2⟩
    | _ => trivial

end Environment

/-! ### Runs -/

section Runs

variable (setup : Setup ι κ)

theorem own_initial (p : Place ι κ) : (setup.world Seq Seq).own setup p = 0 := by
  cases p <;> rfl

theorem tokens_initial (g : Option κ) : (setup.world Seq Seq).tokens g = 0 := by
  cases g <;> rfl

theorem entries_initial (g : Option κ) : (setup.world Seq Seq).entries g = [] := by
  cases g <;> rfl

theorem parts_initial : Parts setup (setup.world Seq Seq) where
  pageSize_eq := rfl
  allocator := fun a => ⟨rfl, rfl,
    by rw [Setup.world, (setup.arenaFacts a).next_eq]; exact Nat.zero_le _,
    fun c => ⟨ClassPool.new_inv, RemoteReturns.new_ok⟩, fun _ _ h => (by cases h),
    LargeObjectState.new_inv⟩
  cache := fun k => ⟨rfl, fun _ => LocalClassCache.new_inv, fun _ => RemoteReturns.new_ok,
    fun _ c => ⟨LocalClassCache.new_bag, rfl⟩, fun _ h => by cases h⟩
  home := fun _ _ h => by cases h
  thread := fun _ _ _ h => by cases h

theorem inv_initial : Inv setup (setup.world Seq Seq) where
  parts := parts_initial setup
  ledger := by
    have hnone : ∀ p x, x ∉ (setup.world Seq Seq).own setup p := by
      intro p x
      rw [own_initial]
      exact Multiset.notMem_zero x
    exact ⟨Apart.of_empty (own_initial setup),
      fun x _ => ⟨fun ⟨p, hx⟩ => absurd hx (hnone p x), fun ⟨c, s, hs, _⟩ => by cases hs⟩,
      fun p x hx => absurd hx (hnone p x)⟩
  tokens := by
    refine ⟨Apart.of_empty (tokens_initial setup), fun g entry hg => ?_⟩
    rw [entries_initial] at hg
    cases hg
  memory := by
    refine ⟨fun p t _ x hx => ?_, fun g entry hg => ?_, fun _ _ _ h => (by cases h),
      fun _ _ _ _ => rfl⟩
    · rw [own_initial] at hx
      exact absurd hx (Multiset.notMem_zero x)
    · rw [entries_initial] at hg
      cases hg

variable {setup} {w w' : World ι κ Seq Seq}

variable [DecidableEq ι] [DecidableEq κ]

theorem Inv.step (inv : Inv setup w) {action : Action ι κ}
    (h : w.step setup.debug action = some w') : Inv setup w' := by
  cases action with
  | allocate k a size =>
    have h : w.call k a (fun v => v.startAllocate a size) = some w' := h
    exact inv.call h fun inv ht howner _ => inv.startAllocate ht howner size
  | deallocate k a i expectedSize =>
    obtain ⟨entry, hentry, h⟩ := Option.bind_eq_some_iff.mp h
    refine inv.call h fun {w₁ outcome} inv₁ ht howner hlive => ?_
    exact inv₁.startFree ht howner (hlive ▸ hentry) expectedSize
  | drain k a =>
    have h : w.call k a (fun v => v.goto a (.flush SizeClass.all)) = some w' := h
    exact inv.call h fun inv ht howner _ => inv.goto ht howner trivial rfl rfl rfl
  | run k advised =>
    simp only [World.step] at h
    split at h
    · cases h
    · rename_i a pc ht
      obtain ⟨v, hv, trans⟩ : ∃ v, (w.view a k).next setup.debug advised a k pc = some v ∧
        Transition setup.debug w a k pc v := next_spec inv ht
      rw [hv] at h
      obtain rfl := Option.some.inj h
      exact trans.inv inv ht
  | store i offset value =>
    obtain ⟨entry, hentry, h⟩ := Option.bind_eq_some_iff.mp h
    split at h
    · obtain rfl := Option.some.inj h
      exact inv.store hentry ‹_›
    · cases h
  | discard page =>
    simp only [World.step] at h
    split at h
    · obtain rfl := Option.some.inj h
      exact inv.discard ‹_›
    · cases h

theorem Setup.Reachable.inv (h : setup.Reachable w) : Inv setup w := by
  induction h with
  | initial => exact inv_initial setup
  | step action _ hstep ih => exact ih.step hstep

end Runs

end Orthotope
