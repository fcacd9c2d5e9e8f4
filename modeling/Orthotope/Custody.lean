import Orthotope.Headers
import Orthotope.Preservation

/-! Every transition keeps the memory in line with the places of the blocks.  A step writes only in
cells of the places it touches, and gives up only pages of blocks whose headers nobody relies on, so
what the memory says elsewhere stays. -/

namespace Orthotope

open ByteMemory Ownership

variable {ι κ : Type}

/-- What the headers of the stored blocks that a view shows say, in memory `m`. -/
structure Promises (setup : Setup ι κ) (m : Mem) (k : κ) (c : SizeClass)
    (v : View ι κ Seq Seq) : Prop where
  owned : ∀ b ∈ (v.cache.classes c).ownedBag,
    HeaderOk setup.debug m c b (.owned (setup.cacheId k))
  fresh : ∀ b ∈ (v.cache.classes c).freshBag, HeaderOk setup.debug m c b .raw
  shared : ∀ b ∈ (v.cache.classes c).sharedBag, HeaderOk setup.debug m c b .shared
  staged : ∀ b ∈ (v.cache.remoteReturns c).pending, HeaderOk setup.debug m c b .shared
  partialFree : ∀ b ∈ (v.allocator.central.lists c).partialBag,
    HeaderOk setup.debug m c b .shared
  full : ∀ b ∈ (v.allocator.central.lists c).fullBag, HeaderOk setup.debug m c b .raw
  inbox : ∀ b ∈ v.allocator.central.inboxBag c, HeaderOk setup.debug m c b .shared

/-- What the headers of the blocks in the hands of a call say. -/
def HandOk (setup : Setup ι κ) (m : Mem) (k : κ) (thread : Thread ι κ Seq) : Prop :=
  ∀ a pc c blocks, thread = .busy a pc → pc.blocks = some (c, blocks) →
    ∀ b ∈ blocks, HeaderOk setup.debug m c b (pc.trust setup k)

section Update

variable {setup : Setup ι κ} {w : World ι κ Seq Seq} {a : ι} {k : κ} {c : SizeClass}
  {v : View ι κ Seq Seq}

theorem Memory.promises (memory : Memory setup w) (howner : (w.caches k).owner = some a)
    (c : SizeClass) : Promises setup w.mem k c (w.view a k) := by
  have hcache : ∀ {p : Place ι κ} {s : Multiset Nat} {t : Trust},
      w.own setup p = w.cacheCells setup k c s → w.trust setup p = some t →
      ∀ b ∈ s, HeaderOk setup.debug w.mem c b t := by
    intro p s t hp ht b hb
    refine memory.free p t ht (setup.smallCell a c b) ?_ c rfl
    rw [hp, World.cacheCells, howner]
    exact setup.smallCell_mem hb
  have hcentral : ∀ {p : Place ι κ} {s : Multiset Nat} {t : Trust},
      w.own setup p = setup.smallCells a c s → w.trust setup p = some t →
      ∀ b ∈ s, HeaderOk setup.debug w.mem c b t := by
    intro p s t hp ht b hb
    refine memory.free p t ht (setup.smallCell a c b) ?_ c rfl
    rw [hp]
    exact setup.smallCell_mem hb
  refine ⟨fun b hb => ?_, hcache (p := .fresh k c) rfl rfl, hcache (p := .shared k c) rfl rfl,
    fun b hb => hcache (p := .staged k c) rfl rfl b (Multiset.mem_coe.mpr hb),
    hcentral (p := .partialFree a c) rfl rfl, hcentral (p := .full a c) rfl rfl,
    hcentral (p := .inbox a c) rfl rfl⟩
  rcases Multiset.mem_add.mp hb with hb | hb
  · exact hcache (p := .hot k c) rfl rfl b hb
  · exact hcache (p := .slabFree k c) rfl rfl b hb

theorem Memory.handOk (memory : Memory setup w) (k : κ) :
    HandOk setup w.mem k (w.threads k) := by
  intro a pc c blocks ht hpc b hb
  refine memory.free (.hand k) (pc.trust setup k) ?_ _ (mem_own_hand ht hpc hb) c rfl
  simp only [World.trust, ht, Thread.trust]

variable [DecidableEq ι] [DecidableEq κ]

/-- The promises of the touched places are all that a step has to keep. -/
theorem Promises.free {m : Mem} (h : Promises setup m k c v) {p : Place ι κ}
    (hp : p ∈ touched k a c) (hne : p ≠ .hand k) {t : Trust}
    (ht : (w.update a k v).trust setup p = some t)
    {x : Cell ι} (hx : x ∈ (w.update a k v).own setup p) {d : SizeClass} (hd : x.cls = some d) :
    HeaderOk setup.debug m d x.lo t := by
  have hcells : ∀ {b : ι} {s : Multiset Nat}, x ∈ setup.smallCells b c s →
      ∃ y ∈ s, x.lo = y ∧ d = c := by
    intro b s hx
    obtain ⟨y, hy, rfl⟩ := setup.mem_smallCells.mp hx
    exact ⟨y, hy, rfl, (Option.some.inj hd).symm⟩
  have hcache : ∀ {s : Multiset Nat}, x ∈ (w.update a k v).cacheCells setup k c s →
      ∃ y ∈ s, x.lo = y ∧ d = c := by
    intro s hx
    unfold World.cacheCells at hx
    split at hx
    · simp at hx
    · exact hcells hx
  have hsome : ∀ {t' : Trust}, (w.update a k v).trust setup p = some t' → t' = t :=
    fun h => Option.some.inj (h.symm.trans ht)
  unfold touched at hp
  simp only [Finset.mem_insert, Finset.mem_singleton] at hp
  rcases hp with rfl | rfl | rfl | rfl | rfl | rfl | rfl | rfl | rfl | rfl | rfl | rfl
  · cases ht
  · obtain ⟨y, hy, hlo, rfl⟩ := hcache hx
    obtain rfl := hsome rfl
    rw [World.update_caches_same] at hy
    exact hlo ▸ h.owned y (Multiset.mem_add.mpr (Or.inl hy))
  · obtain ⟨y, hy, hlo, rfl⟩ := hcache hx
    obtain rfl := hsome rfl
    rw [World.update_caches_same] at hy
    exact hlo ▸ h.owned y (Multiset.mem_add.mpr (Or.inr hy))
  · obtain ⟨y, hy, hlo, rfl⟩ := hcache hx
    obtain rfl := hsome rfl
    rw [World.update_caches_same] at hy
    exact hlo ▸ h.fresh y hy
  · obtain ⟨y, hy, hlo, rfl⟩ := hcache hx
    obtain rfl := hsome rfl
    rw [World.update_caches_same] at hy
    exact hlo ▸ h.shared y hy
  · obtain ⟨y, hy, hlo, rfl⟩ := hcache hx
    obtain rfl := hsome rfl
    rw [World.update_caches_same] at hy
    exact hlo ▸ h.staged y (Multiset.mem_coe.mp hy)
  · obtain ⟨y, hy, hlo, rfl⟩ := hcells hx
    obtain rfl := hsome rfl
    rw [World.update_allocators_same] at hy
    exact hlo ▸ h.partialFree y hy
  · obtain ⟨y, hy, hlo, rfl⟩ := hcells hx
    obtain rfl := hsome rfl
    rw [World.update_allocators_same] at hy
    exact hlo ▸ h.full y hy
  · obtain ⟨y, hy, hlo, rfl⟩ := hcells hx
    obtain rfl := hsome rfl
    rw [World.update_allocators_same] at hy
    exact hlo ▸ h.inbox y hy
  · cases ht
  · cases ht
  · exact absurd rfl hne

theorem HandOk.free {m : Mem} (h : HandOk setup m k v.thread) {t : Trust}
    (ht : (w.update a k v).trust setup (.hand k) = some t) {x : Cell ι}
    (hx : x ∈ (w.update a k v).own setup (.hand k)) {d : SizeClass} (hd : x.cls = some d) :
    HeaderOk setup.debug m d x.lo t := by
  simp only [World.own, World.trust, World.update_threads_same] at hx ht
  cases hthread : v.thread with
  | idle => simp [hthread, Thread.cells] at hx
  | busy b pc =>
    simp only [hthread, Thread.cells, Pc.cells, Thread.trust] at hx ht
    obtain rfl := Option.some.inj ht
    rcases Multiset.mem_add.mp hx with hx | hx
    · split at hx
      · rename_i e blocks hpc
        obtain ⟨y, hy, rfl⟩ := setup.mem_smallCells.mp hx
        obtain rfl := Option.some.inj hd
        exact h b pc _ blocks hthread hpc y (Multiset.mem_coe.mp hy)
      · simp at hx
    · split at hx
      · rw [Multiset.mem_singleton.mp hx] at hd
        cases hd
      · simp at hx

/-- A step writes in the cells that pass through the hands of its call, and gives up pages of blocks
that it leaves raw. -/
structure Discipline (setup : Setup ι κ) (w : World ι κ Seq Seq) (a : ι) (k : κ) (c : SizeClass)
    (v : View ι κ Seq Seq) (W A : Nat → Prop) : Prop where
  changes : Changes W A w.mem v.mem
  written : ∀ y, W y → ∃ z, (z ∈ w.own setup (.hand k) ∨
    z ∈ (w.update a k v).own setup (.hand k)) ∧ z.lo ≤ y ∧ y < z.hi
  givenUp : ∀ y, A y → ∃ p ∈ touched k a c, (w.update a k v).trust setup p = some .raw ∧
    ∃ z ∈ (w.update a k v).own setup p, z.lo ≤ y ∧ y < z.hi

theorem Discipline.still (hmem : v.mem = w.mem) :
    Discipline setup w a k c v (fun _ => False) fun _ => False :=
  ⟨hmem ▸ Changes.refl _, fun _ h => h.elim, fun _ h => h.elim⟩

variable {W A : Nat → Prop}

omit [DecidableEq ι] [DecidableEq κ] in
/-- The header of a small block lies in its cell. -/
theorem Ledger.header_le (ledger : Ledger setup w) {q : Place ι κ} {x : Cell ι} {d : SizeClass}
    (hx : x ∈ w.own setup q) (hd : x.cls = some d) : x.lo + headerSize ≤ x.hi := by
  obtain ⟨e, s, _, b, _, heq⟩ := (ledger.covered x (by rw [hd]; rfl)).mp ⟨q, hx⟩
  have := (setup.config x.alloc).header_payload_le_classBlockSize e
  have hpos := e.payloadSize_pos
  rw [heq]
  show b + headerSize ≤ b + (setup.config x.alloc).classBlockSize e
  omega

omit [DecidableEq ι] [DecidableEq κ] in
theorem Live.mem_client {entry : Live ι κ} (hmem : entry ∈ w.live)
    (hc : SizeClass.fromRequest entry.size = some c) :
    setup.smallCell entry.alloc c (blockStartFromUserPtr entry.ptr) ∈ w.own setup .client := by
  refine Multiset.mem_coe.mpr (List.mem_filterMap.mpr ⟨entry, hmem, ?_⟩)
  simp [Live.smallCell?, hc]

omit [DecidableEq ι] [DecidableEq κ] in
theorem mem_largeLive {ptr : Nat} {record : LargeAllocationRecord} {b : ι}
    (h : (ptr, record) ∈ (w.allocators b).large.live) :
    largeCell b (LargeObjectState.recordBlock record) ∈ w.own setup (.largeLive b) :=
  Multiset.mem_map_of_mem _ (Multiset.mem_coe.mpr (List.mem_map_of_mem h))

omit [DecidableEq ι] [DecidableEq κ] in
/-- What the memory says about an allocation stays, while its cell keeps its bytes. -/
theorem EntryOk.congr {w' : World ι κ Seq Seq} {entry : Live ι κ} (ok : EntryOk setup w entry)
    (hpage : w'.mem.pageSize = w.mem.pageSize)
    (hregistry : SizeClass.fromRequest entry.size = none → ∀ record,
      (entry.ptr, record) ∈ (w'.allocators entry.alloc).large.live →
        (entry.ptr, record) ∈ (w.allocators entry.alloc).large.live) {hi : Nat}
    (hhi : entry.ptr + entry.size ≤ hi)
    (hsame : SameOn (blockStartFromUserPtr entry.ptr) hi w.mem w'.mem) :
    EntryOk setup w' entry := by
  have hle := ok.header_le
  unfold blockStartFromUserPtr at hsame
  have hheader := hsame.mono (Nat.le_refl _)
    (show entry.ptr - headerSize + headerSize ≤ hi by omega)
  have hfields := SameFields.of_sameOn hheader hpage
  have hres := staysResident_of_sameOn hheader
  refine ⟨ok.size_pos, hle, fun c hc => (ok.small c hc).congr hfields hres,
    fun hc record hrecord => (ok.large hc record (hregistry hc record hrecord)).congr hfields hres,
    fun off v hoff => ?_⟩
  obtain ⟨hlt, hbyte, hlazy⟩ := ok.written off v hoff
  refine ⟨hlt, (hsame.byte _ (by omega) (by omega)).trans hbyte, ?_⟩
  rw [← Bool.not_eq_true] at hlazy ⊢
  exact fun h => hlazy (hsame.lazyAt _ (by omega) (by omega) h)

/-- A cell that is in other places than the hands of the call keeps its bytes, and no more of them
can be discarded if the place is not raw. -/
theorem Discipline.sameOn (d : Discipline setup w a k c v W A) (ledger : Ledger setup w)
    (ledger' : Ledger setup (w.update a k v)) {q : Place ι κ} {x : Cell ι} (hq : q ≠ .hand k)
    (hraw : q ∉ touched k a c ∨ (w.update a k v).trust setup q ≠ some .raw)
    (hx : x ∈ w.own setup q) (hx' : x ∈ (w.update a k v).own setup q) :
    SameOn x.lo x.hi w.mem v.mem := by
  refine d.changes.sameOn (fun y h1 h2 hW => ?_) fun y h1 h2 hA => ?_
  · obtain ⟨z, hz, h3, h4⟩ := d.written y hW
    have : z.Apart x := hz.elim (fun hz => ledger.apart.of_ne hq.symm hz hx)
      fun hz => ledger'.apart.of_ne hq.symm hz hx'
    unfold Cell.Apart at this
    omega
  · obtain ⟨p, hp, htrust, z, hz, h3, h4⟩ := d.givenUp y hA
    have hne : p ≠ q := by
      rintro rfl
      exact hraw.elim (fun h => h hp) fun h => h htrust
    have := ledger'.apart.of_ne hne hz hx'
    unfold Cell.Apart at this
    omega

theorem hand_mem_touched : (.hand k : Place ι κ) ∈ touched k a c := by simp [touched]

/-- The registry of a step adds pointers that no allocation has. -/
theorem Tokens.record_kept (tokens : Tokens w)
    (hregistry : ∀ ptr record, (ptr, record) ∈ v.allocator.large.live →
      (ptr, record) ∈ (w.allocators a).large.live ∨ ∀ e ∈ (w.allocators a).large.live, e.1 ≠ ptr)
    {g : Option κ} {entry : Live ι κ} (hg : entry ∈ w.entries g)
    (hc : SizeClass.fromRequest entry.size = none) (record : LargeAllocationRecord)
    (hrecord : (entry.ptr, record) ∈ ((w.update a k v).allocators entry.alloc).large.live) :
    (entry.ptr, record) ∈ (w.allocators entry.alloc).large.live := by
  by_cases ha : entry.alloc = a
  · rw [ha, World.update_allocators_same] at hrecord
    rw [ha]
    refine (hregistry _ _ hrecord).resolve_right fun hfresh => ?_
    obtain ⟨old, hold, _⟩ := tokens.record g entry hg hc
    exact hfresh _ (ha ▸ hold) rfl
  · rwa [World.update_allocators_ne _ _ ha] at hrecord

/-- An allocation that is neither new nor released keeps what the memory says about it. -/
theorem Discipline.entryOk (d : Discipline setup w a k c v W A) (inv : Inv setup w)
    (parts' : Parts setup (w.update a k v)) (ledger' : Ledger setup (w.update a k v))
    (tokens' : Tokens (w.update a k v))
    (hregistry : ∀ ptr record, (ptr, record) ∈ v.allocator.large.live →
      (ptr, record) ∈ (w.allocators a).large.live ∨ ∀ e ∈ (w.allocators a).large.live, e.1 ≠ ptr)
    {g h : Option κ} {entry : Live ι κ} (hg : entry ∈ w.entries g)
    (hh : entry ∈ (w.update a k v).entries h) : EntryOk setup (w.update a k v) entry := by
  have ok := inv.memory.entry g entry hg
  have hle := ok.header_le
  have hpage : (w.update a k v).mem.pageSize = w.mem.pageSize := d.changes.pageSize
  cases hc : SizeClass.fromRequest entry.size with
  | some e =>
    -- a small allocation is live before and after, since calls only hold large ones
    have hsmall : ∀ {w : World ι κ Seq Seq} {g : Option κ}, Parts setup w → entry ∈ w.entries g →
        entry ∈ w.live := by
      intro w g parts hg
      cases g with
      | none => exact hg
      | some j =>
        obtain ⟨b, requested, usable, ht⟩ := mem_entries_some hg
        cases hc.symm.trans (parts.thread j b _ ht).2
    have hsame := d.sameOn inv.ledger ledger' (q := .client) (by simp) (Or.inr fun h => by cases h)
      (Live.mem_client (hsmall inv.parts hg) hc) (Live.mem_client (hsmall parts' hh) hc)
    have hsize := (SizeClass.fromRequest_spec hc)
    have hblock := (setup.config entry.alloc).header_payload_le_classBlockSize e
    refine ok.congr hpage (fun hn => by cases hc.symm.trans hn) ?_ hsame
    show _ ≤ entry.ptr - headerSize + (setup.config entry.alloc).classBlockSize e
    omega
  | none =>
    have hkept := inv.tokens.record_kept hregistry hg hc (k := k)
    obtain ⟨record, hrecord, hreq⟩ := tokens'.record h entry hh hc
    have hsame : SameOn record.blockAddr (record.blockAddr + record.blockSize) w.mem v.mem :=
      d.sameOn inv.ledger ledger' (q := .largeLive entry.alloc) (by simp)
        (Or.inr fun h => by cases h)
        (mem_largeLive (hkept record hrecord)) (mem_largeLive hrecord)
    have hok := (parts'.allocator entry.alloc).large.live_ok _ hrecord
    have h1 := hok.key
    have h2 := hok.usable_eq
    have h3 := hok.requested_le
    have h4 := hok.header_le
    simp only at h1 h2 h3 h4
    have hlo : blockStartFromUserPtr entry.ptr = record.blockAddr := by
      unfold blockStartFromUserPtr
      omega
    exact ok.congr hpage (fun _ => hkept) (by omega) (hlo ▸ hsame)

omit [DecidableEq κ] in
/-- The bytes behind the cursor of an arena are in no cell. -/
theorem Ledger.not_mem_untouched (ledger : Ledger setup w) (parts : Parts setup w) {p : Place ι κ}
    {z : Cell ι} (hz : z ∈ w.own setup p) {b : ι} {y : Nat}
    (hlo : (setup.arena b).base + (w.allocators b).arena.next ≤ y)
    (hhi : y < (setup.arena b).base + (setup.arena b).len) : ¬(z.lo ≤ y ∧ y < z.hi) := by
  rintro ⟨h1, h2⟩
  have hin := ledger.inArena p z hz
  have h3 := hin.base_le
  have h4 := hin.hi_le
  by_cases hb : z.alloc = b
  · rw [hb] at h4
    omega
  · have := setup.arenas_disjoint hb
    have := (parts.allocator z.alloc).next_le
    omega

omit [DecidableEq ι] [DecidableEq κ] in
/-- What the memory says to a call in progress stays, while the extent and the allocation in its
hands keep their bytes. -/
theorem PcMemory.congr {m m' : Mem} {pc : Pc ι κ Seq} (h : PcMemory m pc)
    (hpage : m'.pageSize = m.pageSize)
    (hextent : ∀ block, pc.extent = some block →
      SameOn block.blockAddr (block.blockAddr + block.blockSize) m m')
    (hfits : ∀ size start blockSize, pc = .largeWritten size start blockSize →
      headerSize ≤ blockSize)
    (hentry : ∀ entry, pc.entry = some entry →
      readPrefix m' (blockStartFromUserPtr entry.ptr) =
        readPrefix m (blockStartFromUserPtr entry.ptr)) : PcMemory m' pc := by
  cases pc with
  | carved c size span =>
    intro x h1 h2
    exact ((hextent _ rfl).byte x h1 h2).trans (h x h1 h2)
  | largeWritten size start blockSize =>
    have hheader := (hextent _ rfl).mono (Nat.le_refl _)
      (Nat.add_le_add_left (hfits size start blockSize rfl) start)
    exact LiveLarge.congr h (SameFields.of_sameOn hheader hpage) (staysResident_of_sameOn hheader)
  | releasing entry requested usable =>
    have heq := hentry entry rfl
    exact ⟨heq ▸ h.1, heq ▸ h.2⟩
  | _ => trivial

/-- A step that keeps its promises, and otherwise writes and gives up only what it may, keeps the
memory in line. -/
theorem Discipline.memory (d : Discipline setup w a k c v W A) (inv : Inv setup w)
    (t : Touches w a k c v) (parts' : Parts setup (w.update a k v))
    (ledger' : Ledger setup (w.update a k v)) (tokens' : Tokens (w.update a k v))
    (hregistry : ∀ ptr record, (ptr, record) ∈ v.allocator.large.live →
      (ptr, record) ∈ (w.allocators a).large.live ∨ ∀ e ∈ (w.allocators a).large.live, e.1 ≠ ptr)
    (hfree : ∀ p ∈ touched k a c, ∀ u, (w.update a k v).trust setup p = some u →
      ∀ x ∈ (w.update a k v).own setup p, ∀ e, x.cls = some e →
        HeaderOk setup.debug v.mem e x.lo u)
    (hentry : ∀ entry, entry ∈ v.live ∨ entry ∈ v.thread.entries →
      (∃ g, entry ∈ w.entries g) ∨ EntryOk setup (w.update a k v) entry)
    (hpc : ∀ b pc, v.thread = .busy b pc → PcMemory v.mem pc) : Memory setup (w.update a k v) := by
  have hpage : v.mem.pageSize = w.mem.pageSize := d.changes.pageSize
  have hentries : ∀ h, ∀ entry ∈ (w.update a k v).entries h,
      EntryOk setup (w.update a k v) entry := by
    intro h entry hmem
    have hcases : (∃ g, entry ∈ w.entries g) ∨ EntryOk setup (w.update a k v) entry := by
      cases h with
      | none => exact hentry entry (Or.inl hmem)
      | some j =>
        by_cases hj : j = k
        · subst hj
          exact hentry entry (Or.inr (by simpa [World.entries] using hmem))
        · exact Or.inl ⟨some j, by rwa [entries_update_ne hj] at hmem⟩
    rcases hcases with ⟨g, hg⟩ | hok
    · exact d.entryOk inv parts' ledger' tokens' hregistry hg hmem
    · exact hok
  refine ⟨fun p u hu x hx e he => ?_, hentries, fun j b pc hbusy => ?_, fun b y h1 h2 => ?_⟩
  · by_cases hp : p ∈ touched k a c
    · exact hfree p hp u hu x hx e he
    · have hx' : x ∈ w.own setup p := by rwa [t.own_eq p hp] at hx
      have hu' : w.trust setup p = some u := by
        rw [← hu]
        cases p with
        | hand j =>
          have hj : j ≠ k := fun hj => hp (hj ▸ hand_mem_touched)
          simp [World.trust, hj]
        | _ => rfl
      have hne : p ≠ .hand k := fun h => hp (h ▸ hand_mem_touched)
      have hheader := (d.sameOn inv.ledger ledger' hne (Or.inl hp) hx' hx).mono (Nat.le_refl _)
        (ledger'.header_le hx he)
      exact (inv.memory.free p u hu' x hx' e he).congr (SameFields.of_sameOn hheader hpage)
        fun _ => staysResident_of_sameOn hheader
  · by_cases hj : j = k
    · subst hj
      rw [World.update_threads_same] at hbusy
      exact hpc b pc hbusy
    · have hbusy' := hbusy
      rw [World.update_threads_ne _ _ hj] at hbusy
      have hp : (.hand j : Place ι κ) ∉ touched k a c := by simp [touched, hj]
      refine (inv.memory.pc j b pc hbusy).congr hpage (fun block hblock => ?_)
        (fun size start blockSize hpc => ?_) fun entry hentry => ?_
      · have hext := mem_own_extent setup hbusy hblock
        exact d.sameOn inv.ledger ledger' (by simpa using hj) (Or.inl hp) hext
          (by rwa [t.own_eq _ hp])
      · subst hpc
        have := (inv.parts.thread j b _ hbusy).2.2.2.1
        omega
      · have hg : entry ∈ w.entries (some j) := by
          simp [World.entries, hbusy, Thread.entries, hentry]
        have hh : entry ∈ (w.update a k v).entries (some j) := by
          rwa [entries_update_ne hj]
        obtain ⟨b', requested, usable, hthread⟩ := mem_entries_some hg
        have hsize : SizeClass.fromRequest entry.size = none :=
          (inv.parts.thread j b' _ hthread).2
        obtain ⟨record, hrecord, _⟩ := tokens'.record (some j) entry hh hsize
        have hold := inv.tokens.record_kept hregistry hg hsize (k := k) record hrecord
        rw [((inv.memory.entry _ entry hg).large hsize record hold).fields_eq]
        exact ((hentries (some j) entry hh).large hsize record hrecord).fields_eq
  · have hnext := t.next_le_update b
    have hW : ¬W y := by
      intro hW
      obtain ⟨z, hz | hz, hin⟩ := d.written y hW
      · exact inv.ledger.not_mem_untouched inv.parts hz (by omega) h2 hin
      · exact ledger'.not_mem_untouched parts' hz h1 h2 hin
    exact (d.changes.byte y hW).trans (inv.memory.untouched b y (by omega) h2)

/-- A step that writes nothing keeps the memory in line, if the blocks it moves are relied on no
more than before. -/
theorem Inv.memory_quiet (inv : Inv setup w) (d : Discipline setup w a k c v (fun _ => False) A)
    (t : Touches w a k c v) (parts' : Parts setup (w.update a k v))
    (ledger' : Ledger setup (w.update a k v)) (tokens' : Tokens (w.update a k v))
    (hregistry : ∀ ptr record, (ptr, record) ∈ v.allocator.large.live →
      (ptr, record) ∈ (w.allocators a).large.live ∨ ∀ e ∈ (w.allocators a).large.live, e.1 ≠ ptr)
    (promises : Promises setup w.mem k c v) (hand : HandOk setup w.mem k v.thread)
    (hentry : ∀ entry, entry ∈ v.live ∨ entry ∈ v.thread.entries →
      (∃ g, entry ∈ w.entries g) ∨ EntryOk setup (w.update a k v) entry)
    (hpc : ∀ b pc, v.thread = .busy b pc → PcMemory v.mem pc) : Memory setup (w.update a k v) := by
  refine d.memory inv t parts' ledger' tokens' hregistry (fun p hp u hu x hx e he => ?_) hentry hpc
  have hok : HeaderOk setup.debug w.mem e x.lo u := by
    by_cases hne : p = .hand k
    · subst hne
      exact hand.free hu hx he
    · exact promises.free hp hne hu hx he
  refine hok.congr ⟨fun y _ _ => d.changes.byte y id, d.changes.pageSize⟩
    fun hne => StaysResident.of_le fun y hy hlazy => ?_
  refine (d.changes.lazyAt y hlazy).resolve_right fun hA => ?_
  obtain ⟨q, _, hraw, z, hz, h1, h2⟩ := d.givenUp y hA
  have hqp : q ≠ p := by
    rintro rfl
    exact hne (Option.some.inj (hu.symm.trans hraw))
  have hapart : z.hi ≤ x.lo ∨ x.hi ≤ z.lo := ledger'.apart.of_ne hqp hz hx
  have hle := ledger'.header_le hx he
  have hlo := hy.1
  have hhi := hy.2
  omega

/-- A step that leaves the caches and the pool alone keeps the promises outside of its hands. -/
theorem Discipline.free_stay (d : Discipline setup w a k c v W fun _ => False) (inv : Inv setup w)
    (ledger' : Ledger setup (w.update a k v)) (hcache : v.cache = w.caches k)
    (hcentral : v.allocator.central = (w.allocators a).central) :
    ∀ p ∈ touched k a c, p ≠ .hand k → ∀ u, (w.update a k v).trust setup p = some u →
      ∀ x ∈ (w.update a k v).own setup p, ∀ e, x.cls = some e →
        HeaderOk setup.debug v.mem e x.lo u := by
  intro p hp hne u hu x hx e he
  have hown : x ∈ w.own setup p := by
    unfold touched at hp
    simp only [Finset.mem_insert, Finset.mem_singleton] at hp
    rcases hp with rfl | rfl | rfl | rfl | rfl | rfl | rfl | rfl | rfl | rfl | rfl | rfl
    case inl | inr.inr.inr.inr.inr.inr.inr.inr.inr.inl |
      inr.inr.inr.inr.inr.inr.inr.inr.inr.inr.inl => cases hu
    case inr.inr.inr.inr.inr.inr.inr.inr.inr.inr.inr => exact absurd rfl hne
    all_goals simpa [World.own, World.cacheCells, hcache, hcentral] using hx
  have hu' : w.trust setup p = some u := by
    rw [← hu]
    cases p with
    | hand j =>
      have hj : j ≠ k := fun hj => hne (by rw [hj])
      simp [World.trust, hj]
    | _ => rfl
  have hsame : SameOn x.lo x.hi w.mem v.mem := by
    refine d.changes.sameOn (fun y h1 h2 hW => ?_) fun _ _ _ => id
    obtain ⟨z, hz, h3, h4⟩ := d.written y hW
    have : z.Apart x := hz.elim (fun hz => inv.ledger.apart.of_ne hne.symm hz hown)
      fun hz => ledger'.apart.of_ne hne.symm hz hx
    unfold Cell.Apart at this
    omega
  have hheader := hsame.mono (Nat.le_refl _) (ledger'.header_le hx he)
  exact (inv.memory.free p u hu' x hown e he).congr
    (SameFields.of_sameOn hheader d.changes.pageSize) fun _ => staysResident_of_sameOn hheader

end Update

/-! ### The transitions -/

section Steps

variable {setup : Setup ι κ} {w : World ι κ Seq Seq} {a : ι} {k : κ} {c : SizeClass}
  {v : View ι κ Seq Seq}

theorem pcMemory_idle {m : Mem} {outcome : Option Outcome} (b : ι) (pc : Pc ι κ Seq)
    (h : Thread.idle outcome = .busy b pc) : PcMemory m pc := by cases h

theorem pcMemory_busy {m : Mem} {pc : Pc ι κ Seq} (h : PcMemory m pc) (b : ι) (pc' : Pc ι κ Seq)
    (heq : Thread.busy a pc = .busy b pc') : PcMemory m pc' := by
  obtain ⟨_, rfl⟩ := Thread.busy.inj heq
  exact h

theorem pcMemory_resume {m : Mem} (v : View ι κ Seq Seq) (resume : Resume) (b : ι)
    (pc : Pc ι κ Seq) (h : (v.resume a resume).thread = .busy b pc) : PcMemory m pc := by
  cases resume with
  | done => cases h
  | flush classes =>
    obtain ⟨_, rfl⟩ := Thread.busy.inj h
    trivial
  | drain classes =>
    obtain ⟨_, rfl⟩ := Thread.busy.inj h
    trivial

/-- No block is in the hands of a call that has none. -/
theorem HandOk.none {m : Mem} {pc : Pc ι κ Seq} (hpc : pc.blocks = none) :
    HandOk setup m k (.busy a pc) := by
  intro b pc' d blocks heq hblocks
  obtain ⟨_, rfl⟩ := Thread.busy.inj heq
  cases hpc.symm.trans hblocks

theorem HandOk.idle {m : Mem} (outcome : Option Outcome) : HandOk setup m k (.idle outcome) :=
  fun _ _ _ _ h => by cases h

theorem HandOk.resume {m : Mem} (v : View ι κ Seq Seq) (resume : Resume) :
    HandOk setup m k (v.resume a resume).thread := by
  cases resume with
  | done => exact HandOk.idle _
  | flush classes => exact HandOk.none rfl
  | drain classes => exact HandOk.none rfl

theorem HandOk.some {m : Mem} {pc : Pc ι κ Seq} {blocks : List Nat}
    (hpc : pc.blocks = Option.some (c, blocks))
    (h : ∀ x ∈ blocks, HeaderOk setup.debug m c x (pc.trust setup k)) :
    HandOk setup m k (.busy a pc) := by
  intro b pc' d blocks' heq hblocks
  obtain ⟨_, rfl⟩ := Thread.busy.inj heq
  obtain ⟨rfl, rfl⟩ := Prod.mk.inj (Option.some.inj (hpc.symm.trans hblocks))
  exact h

/-- The blocks in the hands of the call, as far as their place is relied on. -/
theorem HandOk.of_blocks {m : Mem} {pc : Pc ι κ Seq} (h : HandOk setup m k (.busy a pc))
    {blocks : List Nat} {t : Trust} (hpc : pc.blocks = Option.some (c, blocks))
    (htrust : t.Le (pc.trust setup k)) : ∀ b ∈ blocks, HeaderOk setup.debug m c b t :=
  fun b hb => (h a pc c blocks rfl hpc b hb).weaken htrust

variable [DecidableEq ι] [DecidableEq κ]

theorem same_entries (hlive : v.live = w.live) (hentries : v.thread.entries = []) :
    ∀ entry, entry ∈ v.live ∨ entry ∈ v.thread.entries →
      (∃ g, entry ∈ w.entries g) ∨ EntryOk setup (w.update a k v) entry := by
  intro entry h
  rw [hentries, hlive] at h
  exact Or.inl ⟨none, h.resolve_right List.not_mem_nil⟩

section Promises

variable {m : Mem}

omit [DecidableEq ι] [DecidableEq κ] in
theorem Promises.setClass (h : Promises setup m k c (w.view a k)) {class_ : LocalClassCache Seq}
    (hcache : v.cache = (w.caches k).setClass c class_)
    (hcentral : v.allocator.central = (w.allocators a).central)
    (howned : ∀ b ∈ class_.ownedBag, HeaderOk setup.debug m c b (.owned (setup.cacheId k)))
    (hfresh : ∀ b ∈ class_.freshBag, HeaderOk setup.debug m c b .raw)
    (hshared : ∀ b ∈ class_.sharedBag, HeaderOk setup.debug m c b .shared) :
    Promises setup m k c v where
  owned := by rwa [hcache, ThreadCache.setClass_same]
  fresh := by rwa [hcache, ThreadCache.setClass_same]
  shared := by rwa [hcache, ThreadCache.setClass_same]
  staged := by rw [hcache]; exact h.staged
  partialFree := by rw [hcentral]; exact h.partialFree
  full := by rw [hcentral]; exact h.full
  inbox := by rw [hcentral]; exact h.inbox

omit [DecidableEq ι] [DecidableEq κ] in
theorem Promises.setReturns (h : Promises setup m k c (w.view a k)) {returns : RemoteReturns Seq}
    (hcache : v.cache = (w.caches k).setRemoteReturns c returns)
    (hcentral : v.allocator.central = (w.allocators a).central)
    (hstaged : ∀ b ∈ returns.pending, HeaderOk setup.debug m c b .shared) :
    Promises setup m k c v where
  owned := by rw [hcache]; exact h.owned
  fresh := by rw [hcache]; exact h.fresh
  shared := by rw [hcache]; exact h.shared
  staged := by rwa [hcache, ThreadCache.setRemoteReturns_same]
  partialFree := by rw [hcentral]; exact h.partialFree
  full := by rw [hcentral]; exact h.full
  inbox := by rw [hcentral]; exact h.inbox

omit [DecidableEq ι] [DecidableEq κ] in
theorem Promises.setCentral (h : Promises setup m k c (w.view a k)) {central : CentralPool Seq}
    (hcache : v.cache = w.caches k) (hcentral : v.allocator.central = central)
    (hpart : ∀ b ∈ (central.lists c).partialBag, HeaderOk setup.debug m c b .shared)
    (hfull : ∀ b ∈ (central.lists c).fullBag, HeaderOk setup.debug m c b .raw)
    (hinbox : ∀ b ∈ central.inboxBag c, HeaderOk setup.debug m c b .shared) :
    Promises setup m k c v where
  owned := by rw [hcache]; exact h.owned
  fresh := by rw [hcache]; exact h.fresh
  shared := by rw [hcache]; exact h.shared
  staged := by rw [hcache]; exact h.staged
  partialFree := by rwa [hcentral]
  full := by rwa [hcentral]
  inbox := by rwa [hcentral]

omit [DecidableEq ι] [DecidableEq κ] in
theorem Promises.stay (h : Promises setup m k c (w.view a k)) (hcache : v.cache = w.caches k)
    (hcentral : v.allocator.central = (w.allocators a).central) :
    Promises setup m k c v :=
  h.setCentral hcache hcentral h.partialFree h.full h.inbox

omit [DecidableEq ι] [DecidableEq κ] in
/-- Blocks that the pool and its inbox hold, and blocks that are relied on as far as these, are raw
at least. -/
theorem Promises.pool_raw (h : Promises setup m k c (w.view a k)) {b : Nat}
    (hb : b ∈ (w.allocators a).central.inboxBag c + ((w.allocators a).central.lists c).bag) :
    HeaderOk setup.debug m c b .raw := by
  rcases Multiset.mem_add.mp hb with hb | hb
  · exact (h.inbox b hb).weaken trivial
  · rcases Multiset.mem_add.mp hb with hb | hb
    · exact (h.partialFree b hb).weaken trivial
    · exact h.full b hb

omit [DecidableEq ι] [DecidableEq κ] in
theorem Promises.pool_shared (h : Promises setup m k c (w.view a k)) {b : Nat}
    (hb : b ∈ (w.allocators a).central.inboxBag c +
      ((w.allocators a).central.lists c).partialBag) : HeaderOk setup.debug m c b .shared :=
  (Multiset.mem_add.mp hb).elim (h.inbox b) (h.partialFree b)

end Promises

/-- A byte of a slab lies in one of its blocks. -/
theorem exists_block {start blockSize n y : Nat} (hlo : start ≤ y)
    (hhi : y < start + blockSize * n) :
    ∃ b ∈ slabBlocks start blockSize n, b ≤ y ∧ y < b + blockSize := by
  have hpos : 0 < blockSize := by
    rcases Nat.eq_zero_or_pos blockSize with rfl | h
    · omega
    · exact h
  refine ⟨start + (y - start) / blockSize * blockSize, mem_slabBlocks.mpr ⟨_, ?_, rfl⟩, ?_, ?_⟩
  · rw [Nat.div_lt_iff_lt_mul hpos, Nat.mul_comm]
    omega
  · have := Nat.div_mul_le_self (y - start) blockSize
    omega
  · have := Nat.lt_mul_of_div_lt (Nat.lt_succ_self ((y - start) / blockSize)) hpos
    rw [Nat.succ_mul] at this
    omega

omit [DecidableEq ι] [DecidableEq κ] in
/-- A byte that a sweep gives up lies in a raw block. -/
theorem AllocatorOk.exists_raw {allocator : Allocator Seq} (ok : AllocatorOk setup a allocator)
    {raw : Multiset Nat} {y : Nat}
    (h : ClassPool.InSlabOf raw (allocator.central.lists c).shapes y) :
    ∃ b ∈ raw, (setup.smallCell a c b).lo ≤ y ∧ y < (setup.smallCell a c b).hi := by
  obtain ⟨s, hs, hlo, hhi, hall⟩ := h
  have hsize := ok.blockSize_eq c s hs
  obtain ⟨slab, hslab, rfl⟩ := List.mem_map.mp hs
  have hend := ((ok.central c).pool.slab_ok slab hslab).end_eq
  obtain ⟨b, hb, h1, h2⟩ := exists_block (n := slab.capacity) (show slab.start ≤ y from hlo)
    (show y < slab.start + slab.blockSize * slab.capacity from hend ▸ hhi)
  refine ⟨b, hall b hb, h1, ?_⟩
  show y < b + (setup.config a).classBlockSize c
  rw [← hsize]
  exact h2

/-- A step that moves blocks, and neither writes nor gives up pages. -/
theorem Inv.memory_move (inv : Inv setup w) (t : Touches w a k c v)
    (parts' : Parts setup (w.update a k v)) (ledger' : Ledger setup (w.update a k v))
    (tokens' : Tokens (w.update a k v)) (hmem : v.mem = w.mem) (hlive : v.live = w.live)
    (hentries : v.thread.entries = [])
    (hlarge : v.allocator.large.live = (w.allocators a).large.live)
    (promises : Promises setup w.mem k c v) (hand : HandOk setup w.mem k v.thread)
    (hpc : ∀ b pc, v.thread = .busy b pc → PcMemory v.mem pc) : Memory setup (w.update a k v) :=
  inv.memory_quiet (Discipline.still hmem) t parts' ledger' tokens'
    (fun _ _ h => Or.inl (hlarge ▸ h)) promises hand (same_entries hlive hentries) hpc

/-- A step that gives up pages of full slabs, or of the slab it takes out of the pool. -/
theorem Inv.memory_giveUp (inv : Inv setup w) (t : Touches w a k c v)
    (parts' : Parts setup (w.update a k v)) (ledger' : Ledger setup (w.update a k v))
    (tokens' : Tokens (w.update a k v)) (hlive : v.live = w.live)
    (hentries : v.thread.entries = [])
    (hlarge : v.allocator.large.live = (w.allocators a).large.live) {raw : Multiset Nat}
    (hgives : GivesUp (ClassPool.InSlabOf raw (v.allocator.central.lists c).shapes) w.mem v.mem)
    (hraw : ∀ b ∈ raw, b ∈ (v.allocator.central.lists c).fullBag ∨
      v.thread.trust setup k = .raw ∧ setup.smallCell a c b ∈ v.thread.cells setup)
    (promises : Promises setup w.mem k c v) (hand : HandOk setup w.mem k v.thread)
    (hpc : ∀ b pc, v.thread = .busy b pc → PcMemory v.mem pc) : Memory setup (w.update a k v) := by
  have ok : AllocatorOk setup a v.allocator := by simpa using parts'.allocator a
  refine inv.memory_quiet ⟨hgives.changes, fun _ h => h.elim, fun y hy => ?_⟩ t parts' ledger'
    tokens' (fun _ _ h => Or.inl (hlarge ▸ h)) promises hand (same_entries hlive hentries) hpc
  obtain ⟨b, hb, h1, h2⟩ := ok.exists_raw hy
  rcases hraw b hb with hfull | ⟨htrust, hcell⟩
  · refine ⟨.full a c, by simp [touched], rfl, setup.smallCell a c b, ?_, h1, h2⟩
    simpa [World.own] using setup.smallCell_mem hfull
  · exact ⟨.hand k, hand_mem_touched, by simp [World.trust, htrust], setup.smallCell a c b,
      by simpa [World.own] using hcell, h1, h2⟩

theorem Transition.memory_refill {size : Nat} {m : Mem} {central : CentralPool Seq}
    {r : CentralRefill Seq} (inv : Inv setup w) (ht : w.threads k = .busy a (.refill c size))
    (h : CentralPool.Refilled c w.mem m (w.allocators a).central central r) :
    Memory setup (w.update a k ((((w.view a k).setMem m).setCentral central).goto a
      (r.pc c size))) := by
  obtain ⟨howner, _⟩ := inv.parts.thread k a _ ht
  have trans : Transition setup.debug w a k (.refill c size) _ := Transition.refill h
  have P := inv.memory.promises howner c
  have hbag : ∀ b, b ∈ (r.blocks : Multiset Nat) + (central.lists c).bag →
      HeaderOk setup.debug w.mem c b .raw := fun b hb => P.pool_raw (h.bag ▸ hb)
  have hfull : ∀ b ∈ (central.lists c).fullBag, HeaderOk setup.debug w.mem c b .raw :=
    fun b hb => hbag b (by simp [ClassPool.bag, hb])
  have hinbox : ∀ b ∈ central.inboxBag c, HeaderOk setup.debug w.mem c b .shared :=
    fun b hb => by simp [h.inbox] at hb
  refine inv.memory_giveUp (touches_central howner h.only rfl rfl) (trans.parts inv ht)
    (trans.ledger inv ht) (trans.tokens inv ht) rfl ?_ rfl h.givesUp ?_
    (P.setCentral rfl rfl (fun b hb => P.pool_shared (Multiset.mem_of_le h.partialBag hb))
      hfull hinbox) ?_ ?_
  · cases r <;> rfl
  · intro b hb
    cases r with
    | empty => exact Or.inl hb
    | batch blocks => exact Or.inl hb
    | slab start blockSize capacity =>
      refine (Multiset.mem_add.mp hb).symm.imp_right fun hb => ⟨rfl, ?_⟩
      show _ ∈ (Thread.busy a _).cells setup
      rw [cells_of_blocks rfl rfl]
      exact setup.smallCell_mem hb
  · cases r with
    | empty => exact HandOk.none rfl
    | batch blocks =>
      refine HandOk.some rfl fun b hb => P.pool_shared ?_
      exact Multiset.mem_of_le (h.ofBatch blocks rfl).2 (by simp [hb])
    | slab start blockSize capacity =>
      exact HandOk.some rfl fun b hb => hbag b (by simp [CentralRefill.blocks, hb])
  · cases r <;> exact pcMemory_busy (a := a) trivial

theorem Transition.memory_register {size n : Nat} {span : ReservedSpan} {m : Mem}
    {central : CentralPool Seq} (inv : Inv setup w)
    (ht : w.threads k = .busy a (.carved c size span)) (hn : 0 < n)
    (hsize : span.size = n * (w.allocators a).config.classBlockSize c)
    (h : CentralPool.Registered c w.mem m (w.allocators a).central central span.start
      ((w.allocators a).config.classBlockSize c) n) :
    Memory setup (w.update a k ((((w.view a k).setMem m).setCentral central).goto a
      (.registered c size span.start ((w.allocators a).config.classBlockSize c) n))) := by
  obtain ⟨howner, _⟩ := inv.parts.thread k a _ ht
  have trans : Transition setup.debug w a k (.carved c size span) _ :=
    Transition.register hn hsize h
  have P := inv.memory.promises howner c
  have hzero : ∀ x, span.start ≤ x → x < span.start + span.size → w.mem.byte x = 0 :=
    inv.memory.pc k a _ ht
  have hinbox : ∀ b ∈ central.inboxBag c, HeaderOk setup.debug w.mem c b .shared := by
    intro b hb
    rw [CentralPool.inboxBag, h.inbox] at hb
    exact P.inbox b hb
  refine inv.memory_giveUp (touches_central howner h.only rfl rfl) (trans.parts inv ht)
    (trans.ledger inv ht) (trans.tokens inv ht) rfl rfl rfl h.givesUp (fun b hb => Or.inl hb)
    (P.setCentral rfl rfl (fun b hb => P.partialFree b (h.partialBag ▸ hb))
      (fun b hb => P.full b (h.fullBag ▸ hb)) hinbox) (HandOk.some rfl fun b hb => ?_)
    (pcMemory_busy (a := a) trivial)
  -- nothing was ever written to the span
  intro _ _
  obtain ⟨hlo, hhi⟩ := slabBlocks_bounds hb
  have hpay := (w.allocators a).config.header_payload_le_classBlockSize c
  rw [Nat.mul_comm, ← hsize] at hhi
  refine Or.inl (Mem.read_zero fun i hi => hzero _ (by omega) ?_)
  unfold headerSize at hpay
  omega

theorem Transition.memory_return {batch : Seq} {resume : Resume} {m : Mem}
    {central : CentralPool Seq} (inv : Inv setup w)
    (ht : w.threads k = .busy a (.returning c batch resume))
    (h : CentralPool.Returned c w.mem m (w.allocators a).central central batch) :
    Memory setup (w.update a k ((((w.view a k).setMem m).setCentral central).resume a resume)) := by
  obtain ⟨howner, _⟩ := inv.parts.thread k a _ ht
  have trans : Transition setup.debug w a k (.returning c batch resume) _ :=
    Transition.returnBatch h
  have P := inv.memory.promises howner c
  have hand : HandOk setup w.mem k (.busy a (.returning c batch resume)) :=
    ht ▸ inv.memory.handOk k
  have hbatch : ∀ b ∈ (batch : Multiset Nat), HeaderOk setup.debug w.mem c b .shared :=
    fun b hb => hand.of_blocks rfl (t := .shared) trivial b (Multiset.mem_coe.mp hb)
  have hpart : ∀ b ∈ (central.lists c).partialBag, HeaderOk setup.debug w.mem c b .shared :=
    fun b hb => (Multiset.mem_add.mp (Multiset.mem_of_le h.partialBag hb)).elim
      (hbatch b) P.pool_shared
  have hfull : ∀ b ∈ (central.lists c).fullBag, HeaderOk setup.debug w.mem c b .raw := by
    intro b hb
    have hb' : b ∈ (central.lists c).bag := by simp [ClassPool.bag, hb]
    rw [h.bag] at hb'
    exact (Multiset.mem_add.mp hb').elim (fun hb => (hbatch b hb).weaken trivial) P.pool_raw
  have hinbox : ∀ b ∈ central.inboxBag c, HeaderOk setup.debug w.mem c b .shared :=
    fun b hb => by simp [h.inbox] at hb
  have hgives := h.givesUp
  obtain ⟨v, hv⟩ : ∃ v, v = (((w.view a k).setMem m).setCentral central).resume a resume :=
    ⟨_, rfl⟩
  have hcentral : v.allocator = { w.allocators a with central } := by
    rw [hv]
    cases resume <;> rfl
  have hcache : v.cache = w.caches k := by
    rw [hv]
    cases resume <;> rfl
  have hmem : v.mem = m := by
    rw [hv]
    cases resume <;> rfl
  rw [← hv] at trans ⊢
  refine inv.memory_giveUp (touches_central howner h.only hcentral hcache) (trans.parts inv ht)
    (trans.ledger inv ht) (trans.tokens inv ht) ?_ (hv ▸ entries_resume _ resume)
    (by rw [hcentral]) (by rw [hcentral, hmem]; exact hgives) (fun b hb => Or.inl hb)
    (P.setCentral hcache (by rw [hcentral]) hpart hfull hinbox) (hv ▸ HandOk.resume _ resume)
    (hv ▸ pcMemory_resume _ resume)
  rw [hv]
  cases resume <;> rfl

theorem Transition.memory_publish {batch : Seq} {resume : Resume} {central : CentralPool Seq}
    (inv : Inv setup w) (ht : w.threads k = .busy a (.publishing c batch resume))
    (hinv : central.Inv c) (only : CentralPool.OnlyClass c (w.allocators a).central central)
    (hlists : central.lists = (w.allocators a).central.lists)
    (hinbox : central.inboxBag c = (batch : Multiset Nat) + (w.allocators a).central.inboxBag c) :
    Memory setup (w.update a k (((w.view a k).setCentral central).resume a resume)) := by
  obtain ⟨howner, _⟩ := inv.parts.thread k a _ ht
  have trans : Transition setup.debug w a k (.publishing c batch resume) _ :=
    Transition.publish hinv only hlists hinbox
  have P := inv.memory.promises howner c
  have hand : HandOk setup w.mem k (.busy a (.publishing c batch resume)) :=
    ht ▸ inv.memory.handOk k
  have hin : ∀ b ∈ central.inboxBag c, HeaderOk setup.debug w.mem c b .shared := by
    intro b hb
    rw [hinbox] at hb
    exact (Multiset.mem_add.mp hb).elim
      (fun hb => hand.of_blocks rfl (t := .shared) trivial b (Multiset.mem_coe.mp hb)) (P.inbox b)
  obtain ⟨v, hv⟩ : ∃ v, v = ((w.view a k).setCentral central).resume a resume := ⟨_, rfl⟩
  have hcentral : v.allocator = { w.allocators a with central } := by
    rw [hv]
    cases resume <;> rfl
  have hcache : v.cache = w.caches k := by
    rw [hv]
    cases resume <;> rfl
  rw [← hv] at trans ⊢
  refine inv.memory_move (touches_central howner only hcentral hcache) (trans.parts inv ht)
    (trans.ledger inv ht) (trans.tokens inv ht) ?_ ?_ (hv ▸ entries_resume _ resume)
    (by rw [hcentral]) (P.setCentral hcache (by rw [hcentral])
      (fun b hb => P.partialFree b (hlists ▸ hb)) (fun b hb => P.full b (hlists ▸ hb)) hin)
    (hv ▸ HandOk.resume _ resume) (hv ▸ pcMemory_resume _ resume)
  · rw [hv]
    cases resume <;> rfl
  · rw [hv]
    cases resume <;> rfl

omit [DecidableEq ι] [DecidableEq κ] in
theorem Pc.popped_trust (size block : Nat) (reuse : BlockReuse) :
    (Pc.popped c size block reuse : Pc ι κ Seq).trust setup k = reuse.trust (setup.cacheId k) := by
  cases reuse <;> rfl

theorem Transition.memory_give {size block : Nat} {reuse : BlockReuse} (inv : Inv setup w)
    (ht : w.threads k = .busy a (.popped c size block reuse)) :
    Memory setup (w.update a k ((((w.view a k).setMem
      (View.writeHeader setup.debug w.mem c size block (w.caches k).cacheId reuse)).addLive
        ⟨a, k, userPtrFromBlockStart block, size, fun _ => none⟩).finish
          (.allocated (userPtrFromBlockStart block)))) := by
  obtain ⟨howner, hsize⟩ := inv.parts.thread k a _ ht
  have hsize : SizeClass.fromRequest size = some c := hsize
  have trans : Transition setup.debug w a k (.popped c size block reuse) _ := Transition.give
  have hheader := inv.memory.handOk k a _ c [block] ht rfl block (by simp)
  rw [Pc.popped_trust] at hheader
  have hcell : setup.smallCell a c block ∈ w.own setup (.hand k) :=
    mem_own_hand ht rfl (by simp)
  have hle := inv.ledger.header_le hcell rfl
  have hlive : LiveSmall
      (View.writeHeader setup.debug w.mem c size block (w.caches k).cacheId reuse) c block size
        (setup.cacheId k) := by
    rw [(inv.parts.cache k).cacheId_eq]
    refine liveSmall_writeHeader inv.parts.pageSize_pos ?_ (setup.cacheId_lt k) hheader
    have := (SizeClass.fromRequest_spec hsize).2
    have := c.payloadSize_lt
    omega
  obtain ⟨v, hv⟩ : ∃ v, v = (((w.view a k).setMem
      (View.writeHeader setup.debug w.mem c size block (w.caches k).cacheId reuse)).addLive
        ⟨a, k, userPtrFromBlockStart block, size, fun _ => none⟩).finish
          (.allocated (userPtrFromBlockStart block)) := ⟨_, rfl⟩
  have hmem : v.mem =
      View.writeHeader setup.debug w.mem c size block (w.caches k).cacheId reuse := by
    rw [hv]
    rfl
  have hidle : v.thread = .idle (some (.allocated (userPtrFromBlockStart block))) := by
    rw [hv]
    rfl
  rw [← hv] at trans ⊢
  have d : Discipline setup w a k c v (inHeader block) fun _ => False := by
    refine ⟨hmem ▸ (writesIn_writeHeader ..).changes, fun y hy => ?_, fun _ h => h.elim⟩
    have h1 := hy.1
    have h2 := hy.2
    refine ⟨setup.smallCell a c block, Or.inl hcell, h1, ?_⟩
    simp only [Setup.smallCell] at hle ⊢
    omega
  have ledger' := trans.ledger inv ht
  refine d.memory inv
    (touches_allocator howner (hv ▸ rfl) (hv ▸ rfl) (by rw [hv]; exact Nat.le_refl _))
    (trans.parts inv ht) ledger' (trans.tokens inv ht)
    (fun _ _ h => Or.inl (by simpa [hv, View.finish, View.addLive,
      View.setMem, World.view] using h))
    (fun p hp u hu x hx e he => ?_) (fun entry hentry => ?_) (fun b pc h => ?_)
  · by_cases hne : p = .hand k
    · subst hne
      simp [World.own, hidle, Thread.cells] at hx
    · exact d.free_stay inv ledger' (hv ▸ rfl) (hv ▸ rfl) p hp hne u hu x hx e he
  · have hentry' : entry ∈
        w.live ++ [⟨a, k, userPtrFromBlockStart block, size, fun _ => none⟩] := by
      simpa [hv, View.finish, View.addLive, View.setMem, World.view, Thread.entries] using hentry
    rcases List.mem_append.mp hentry' with hmem' | hmem'
    · exact Or.inl ⟨none, hmem'⟩
    · obtain rfl := List.mem_singleton.mp hmem'
      refine Or.inr ⟨(SizeClass.fromRequest_spec hsize).1, Nat.le_add_left _ _, fun e he => ?_,
        fun hn => (by cases hsize.symm.trans hn), fun _ _ h => by cases h⟩
      obtain rfl := Option.some.inj (hsize.symm.trans he)
      rw [World.update_mem, hmem]
      simpa [blockStartFromUserPtr, userPtrFromBlockStart] using hlive
  · rw [hidle] at h
    cases h

omit [DecidableEq ι] [DecidableEq κ] in
/-- The headers of blocks that a cache has fresh share no byte. -/
theorem Inv.fresh_apart (inv : Inv setup w)
    (howner : (w.caches k).owner = some a) {fresh : List Nat}
    (hle : (fresh : Multiset Nat) ≤ ((w.caches k).classes c).freshBag) :
    fresh.Pairwise fun b b' => b + headerSize ≤ b' ∨ b' + headerSize ≤ b := by
  have hcells : setup.smallCells a c (fresh : Multiset Nat) ≤ w.own setup (.fresh k c) := by
    simp only [World.own, World.cacheCells, howner]
    exact Multiset.map_le_map hle
  have hsize : ∀ b ∈ fresh, b + headerSize ≤ (setup.smallCell a c b).hi := by
    intro b hb
    exact inv.ledger.header_le (Multiset.mem_of_le hcells (setup.smallCell_mem hb)) rfl
  have hpw := pairwise_mono hcells (inv.ledger.apart.holder (.fresh k c))
  rw [Setup.smallCells, Multiset.map_coe, Multiset.pairwise_coe_iff_pairwise,
    List.pairwise_map] at hpw
  refine hpw.imp_of_mem fun {b b'} hb hb' h => ?_
  have h1 := hsize b hb
  have h2 := hsize b' hb'
  exact h.imp (fun h => h1.trans h) fun h => h2.trans h

theorem Transition.memory_excess {max : Nat} {resume : Resume} {m : Mem} {batch : Seq}
    {class_ : LocalClassCache Seq} (inv : Inv setup w)
    (ht : w.threads k = .busy a (.excess c max resume)) (hinv : class_.Inv)
    (hshapes : class_.shapes = ((w.caches k).classes c).shapes) (hbatch : batch ≠ [])
    (drains : LocalClassCache.Drains c w.mem m batch ((w.caches k).classes c) class_) :
    Memory setup (w.update a k ((((w.view a k).setMem m).setCache
      ((w.caches k).setClass c class_)).goto a (.returning c batch resume))) := by
  obtain ⟨howner, _⟩ := inv.parts.thread k a _ ht
  have trans : Transition setup.debug w a k (.excess c max resume) _ :=
    Transition.excess hinv hshapes hbatch drains
  have P := inv.memory.promises howner c
  obtain ⟨owned, fresh, shared, hsum, howned, hfresh, hshared, rfl⟩ := drains
  obtain ⟨v, hv⟩ : ∃ v, v = (((w.view a k).setMem (initializeAll w.mem c fresh)).setCache
      ((w.caches k).setClass c class_)).goto a (.returning c batch resume) := ⟨_, rfl⟩
  have hmem : v.mem = initializeAll w.mem c fresh := hv ▸ rfl
  have hthread : v.thread = .busy a (.returning c batch resume) := hv ▸ rfl
  rw [← hv] at trans ⊢
  have ledger' := trans.ledger inv ht
  have hw := writesIn_initializeAll w.mem c fresh
  have hcell : ∀ b ∈ batch, setup.smallCell a c b ∈ (w.update a k v).own setup (.hand k) :=
    fun b hb => mem_own_hand (by rw [World.update_threads_same, hthread]) rfl hb
  have hmemFresh : ∀ b ∈ fresh, b ∈ batch := fun b hb => by
    have : b ∈ (batch : Multiset Nat) := by simp [hsum, hb]
    exact Multiset.mem_coe.mp this
  have hcached : ∀ {s : Multiset Nat} {p : Place ι κ} {b : Nat},
      w.own setup p = w.cacheCells setup k c s → b ∈ s → setup.smallCell a c b ∈ w.own setup p := by
    intro s p b hp hb
    rw [hp, World.cacheCells, howner]
    exact setup.smallCell_mem hb
  have hmemOld : ∀ b ∈ fresh, setup.smallCell a c b ∈ w.own setup (.fresh k c) :=
    fun b hb => hcached rfl (by simp [hfresh, hb])
  have hsize : ∀ b ∈ fresh, b + headerSize ≤ (setup.smallCell a c b).hi :=
    fun b hb => inv.ledger.header_le (hmemOld b hb) rfl
  have hapart := inv.fresh_apart howner (hfresh ▸ Multiset.le_add_right (fresh : Multiset Nat) _)
  have d : Discipline setup w a k c v (fun x => ∃ b ∈ fresh, inHeader b x) fun _ => False := by
    refine ⟨hmem ▸ hw.changes, fun y hy => ?_, fun _ h => h.elim⟩
    obtain ⟨b, hb, hlo, hhi⟩ := hy
    have := hsize b hb
    exact ⟨_, Or.inr (hcell b (hmemFresh b hb)), hlo, by omega⟩
  -- the headers of other blocks are elsewhere than the written ones
  have hheaders : ∀ {x : Cell ι} {e : SizeClass} {u : Trust}, x.lo + headerSize ≤ x.hi →
      (∀ b ∈ fresh, (setup.smallCell a c b).Apart x) → HeaderOk setup.debug w.mem e x.lo u →
        HeaderOk setup.debug v.mem e x.lo u := by
    intro x e u hle hx hok
    rw [hmem]
    refine hok.initializeAll fun b hb => ?_
    have h1 := hsize b hb
    exact (hx b hb).imp (fun h => h1.trans h) fun h => hle.trans h
  have hother : ∀ {p : Place ι κ} {b : Nat} {t : Trust}, p ≠ .fresh k c →
      setup.smallCell a c b ∈ w.own setup p → HeaderOk setup.debug w.mem c b t →
        HeaderOk setup.debug v.mem c b t := by
    intro p b t hp hb hok
    exact hheaders (x := setup.smallCell a c b) (inv.ledger.header_le hb rfl)
      (fun b' hb' => inv.ledger.apart.of_ne hp.symm (hmemOld b' hb') hb) hok
  have hand : HandOk setup v.mem k v.thread := by
    rw [hthread]
    refine HandOk.some rfl fun b hb => ?_
    have hb' : b ∈ (owned : Multiset Nat) + fresh + shared := hsum ▸ Multiset.mem_coe.mpr hb
    rcases Multiset.mem_add.mp hb' with hb' | hb'
    · rcases Multiset.mem_add.mp hb' with hb' | hb'
      · have hold : b ∈ ((w.caches k).classes c).ownedBag :=
          howned ▸ Multiset.mem_add.mpr (Or.inl hb')
        have hok := (P.owned b hold).weaken (show Trust.shared.Le _ from trivial)
        rcases Multiset.mem_add.mp hold with hold | hold
        · exact hother (p := .hot k c) (by simp) (hcached rfl hold) hok
        · exact hother (p := .slabFree k c) (by simp) (hcached rfl hold) hok
      · rw [hmem]
        exact headerOk_initializeAll inv.parts.pageSize_pos hapart b (Multiset.mem_coe.mp hb')
    · have hold : b ∈ ((w.caches k).classes c).sharedBag :=
        hshared ▸ Multiset.mem_add.mpr (Or.inl hb')
      exact hother (p := .shared k c) (by simp) (hcached rfl hold) (P.shared b hold)
  have promises : Promises setup w.mem k c v := P.setClass (hv ▸ rfl) (hv ▸ rfl)
    (fun b hb => P.owned b (howned ▸ Multiset.mem_add.mpr (Or.inr hb)))
    (fun b hb => P.fresh b (hfresh ▸ Multiset.mem_add.mpr (Or.inr hb)))
    fun b hb => P.shared b (hshared ▸ Multiset.mem_add.mpr (Or.inr hb))
  have hcache : v.cache = (w.caches k).setClass c class_ := hv ▸ rfl
  have t : Touches w a k c v := touches_class howner (hv ▸ rfl) hcache
  refine d.memory inv t (trans.parts inv ht) ledger' (trans.tokens inv ht)
    (fun _ _ h => Or.inl (by rwa [hv] at h)) (fun p hp u hu x hx e he => ?_)
    (same_entries (hv ▸ rfl) (hv ▸ rfl)) (by rw [hthread]; exact pcMemory_busy trivial)
  by_cases hne : p = .hand k
  · subst hne
    exact hand.free hu hx he
  · exact hheaders (ledger'.header_le hx he)
      (fun b hb => ledger'.apart.of_ne (Ne.symm hne) (hcell b (hmemFresh b hb)) hx)
      (promises.free hp hne hu hx he)

theorem Transition.memory_largeWrite {size start blockSize : Nat} (inv : Inv setup w)
    (ht : w.threads k = .busy a (.largeGot size start blockSize))
    (hfits : blockSize - headerSize < 2 ^ 32) :
    Memory setup (w.update a k (((w.view a k).setMem (writeLarge w.mem start size blockSize)).goto a
      (.largeWritten size start blockSize))) := by
  obtain ⟨howner, _, hsize, hle⟩ := inv.parts.thread k a _ ht
  have trans : Transition setup.debug w a k (.largeGot size start blockSize) _ :=
    Transition.largeWrite hfits
  have hcell : largeCell a ⟨start, blockSize⟩ ∈ w.own setup (.hand k) := mem_own_extent setup ht rfl
  have hw : WritesIn (inHeader start) w.mem (writeLarge w.mem start size blockSize) :=
    writesIn_writeEncodedFields ..
  have hlive : LiveLarge (writeLarge w.mem start size blockSize) start size
      (blockSize - headerSize) :=
    liveLarge_write inv.parts.pageSize_pos (by omega) hfits
  obtain ⟨v, hv⟩ : ∃ v, v = ((w.view a k).setMem (writeLarge w.mem start size blockSize)).goto a
      (.largeWritten size start blockSize) := ⟨_, rfl⟩
  have hmem : v.mem = writeLarge w.mem start size blockSize := hv ▸ rfl
  have hthread : v.thread = .busy a (.largeWritten size start blockSize) := hv ▸ rfl
  have halloc : v.allocator = w.allocators a := hv ▸ rfl
  have hcache : v.cache = w.caches k := hv ▸ rfl
  rw [← hv] at trans ⊢
  have ledger' := trans.ledger inv ht
  -- any class serves: the step touches no list of small blocks
  have d : Discipline setup w a k .b64 v (inHeader start) fun _ => False := by
    refine ⟨hmem ▸ hw.changes, fun y hy => ⟨_, Or.inl hcell, hy.1, ?_⟩, fun _ h => h.elim⟩
    have hhi := hy.2
    show y < start + blockSize
    omega
  have t : Touches w a k .b64 v :=
    touches_allocator howner (by rw [halloc]) hcache (by rw [halloc])
  refine d.memory inv t (trans.parts inv ht) ledger' (trans.tokens inv ht)
    (fun _ _ h => Or.inl (halloc ▸ h)) (fun p hp u hu x hx e he => ?_)
    (same_entries (hv ▸ rfl) (by rw [hthread]; rfl)) ?_
  · by_cases hne : p = .hand k
    · subst hne
      have hand : HandOk setup v.mem k v.thread := hthread ▸ HandOk.none rfl
      exact hand.free hu hx he
    · exact d.free_stay inv ledger' hcache (by rw [halloc]) p hp hne u hu x hx e he
  · rw [hthread, hmem]
    exact pcMemory_busy hlive

theorem Transition.memory_record {size start blockSize : Nat} {large : LargeObjectState}
    (inv : Inv setup w) (ht : w.threads k = .busy a (.largeWritten size start blockSize))
    (hinv : large.Inv)
    (hlive : large.live = (start + headerSize,
      ⟨start, blockSize, size, blockSize - headerSize⟩) :: (w.allocators a).large.live)
    (hfree : large.freeBag = (w.allocators a).large.freeBag) :
    Memory setup (w.update a k ((((w.view a k).setLarge large).addLive
      ⟨a, k, userPtrFromBlockStart start, size, fun _ => none⟩).finish
        (.allocated (userPtrFromBlockStart start)))) := by
  obtain ⟨howner, hsize, hpos, _⟩ := inv.parts.thread k a _ ht
  have trans : Transition setup.debug w a k (.largeWritten size start blockSize) _ :=
    Transition.record hinv hlive hfree
  have hheader : LiveLarge w.mem start size (blockSize - headerSize) := inv.memory.pc k a _ ht
  have hfresh : ∀ e ∈ (w.allocators a).large.live, e.1 ≠ start + headerSize :=
    inv.extent_unregistered ht rfl
  have P := inv.memory.promises howner .b64
  obtain ⟨v, hv⟩ : ∃ v, v = (((w.view a k).setLarge large).addLive
      ⟨a, k, userPtrFromBlockStart start, size, fun _ => none⟩).finish
        (.allocated (userPtrFromBlockStart start)) := ⟨_, rfl⟩
  have hmem : v.mem = w.mem := hv ▸ rfl
  have hlarge : v.allocator.large = large := hv ▸ rfl
  have hidle : v.thread = .idle (some (.allocated (userPtrFromBlockStart start))) := hv ▸ rfl
  have hcentral : v.allocator.central = (w.allocators a).central := hv ▸ rfl
  have hcache : v.cache = w.caches k := hv ▸ rfl
  have t : Touches w a k .b64 v :=
    touches_allocator howner hcentral hcache (by rw [hv]; exact Nat.le_refl _)
  have hentries : v.live = w.live ++ [⟨a, k, userPtrFromBlockStart start, size, fun _ => none⟩] :=
    hv ▸ rfl
  rw [← hv] at trans ⊢
  refine inv.memory_quiet (Discipline.still hmem) t (trans.parts inv ht) (trans.ledger inv ht)
    (trans.tokens inv ht) (fun ptr record h => ?_) (P.stay hcache hcentral)
    (hidle ▸ HandOk.idle _) (fun entry hentry => ?_) (hidle ▸ pcMemory_idle)
  · rw [hlarge, hlive] at h
    rcases List.mem_cons.mp h with h | h
    · obtain ⟨rfl, _⟩ := Prod.mk.inj h
      exact Or.inr hfresh
    · exact Or.inl h
  · rw [hidle, hentries] at hentry
    have hentry := hentry.resolve_right List.not_mem_nil
    rcases List.mem_append.mp hentry with hmem' | hmem'
    · exact Or.inl ⟨none, hmem'⟩
    · obtain rfl := List.mem_singleton.mp hmem'
      refine Or.inr ⟨hpos, Nat.le_add_left _ _, fun e he => (by cases hsize.symm.trans he),
        fun _ record hrecord => ?_, fun _ _ h => by cases h⟩
      rw [World.update_allocators_same, hlarge, hlive] at hrecord
      rcases List.mem_cons.mp hrecord with h | h
      · obtain ⟨_, rfl⟩ := Prod.mk.inj h
        rw [World.update_mem, hmem]
        simpa [blockStartFromUserPtr, userPtrFromBlockStart] using hheader
      · exact absurd rfl (hfresh _ h)

/-- A step that leaves the caches, the pool and the memory alone. -/
theorem Transition.memory_stay {pc : Pc ι κ Seq} (inv : Inv setup w)
    (ht : w.threads k = .busy a pc) (trans : Transition setup.debug w a k pc v)
    (hmem : v.mem = w.mem) (hcache : v.cache = w.caches k)
    (hcentral : v.allocator.central = (w.allocators a).central)
    (hnext : (w.allocators a).arena.next ≤ v.allocator.arena.next)
    (hregistry : ∀ e ∈ v.allocator.large.live, e ∈ (w.allocators a).large.live)
    (hand : HandOk setup w.mem k v.thread)
    (hentry : ∀ entry, entry ∈ v.live ∨ entry ∈ v.thread.entries → ∃ g, entry ∈ w.entries g)
    (hpc : ∀ b pc, v.thread = .busy b pc → PcMemory v.mem pc) : Memory setup (w.update a k v) := by
  obtain ⟨howner, _⟩ := inv.parts.thread k a pc ht
  -- any class serves
  have t : Touches w a k .b64 v := touches_allocator howner hcentral hcache hnext
  exact inv.memory_quiet (Discipline.still hmem) t (trans.parts inv ht) (trans.ledger inv ht)
    (trans.tokens inv ht) (fun _ _ h => Or.inl (hregistry _ h))
    ((inv.memory.promises howner .b64).stay hcache hcentral) hand
    (fun entry h => Or.inl (hentry entry h)) hpc

/-- A step that only goes on to another control point with empty hands, or ends the call. -/
theorem Transition.memory_goto {pc : Pc ι κ Seq} {thread : Thread ι κ Seq} (inv : Inv setup w)
    (ht : w.threads k = .busy a pc)
    (trans : Transition setup.debug w a k pc { w.view a k with thread })
    (hand : HandOk setup w.mem k thread) (hentries : thread.entries = [])
    (hpc : ∀ b pc, thread = .busy b pc → PcMemory w.mem pc) :
    Memory setup (w.update a k { w.view a k with thread }) := by
  refine trans.memory_stay inv ht rfl rfl rfl (Nat.le_refl _) (fun _ h => h) hand
    (fun entry h => ⟨none, ?_⟩) hpc
  rw [hentries] at h
  exact h.resolve_right List.not_mem_nil

/-- A step that changes one class of the cache. -/
theorem Transition.memory_class {pc : Pc ι κ Seq} {class_ : LocalClassCache Seq}
    {thread : Thread ι κ Seq} (inv : Inv setup w) (ht : w.threads k = .busy a pc)
    (trans : Transition setup.debug w a k pc
      { (w.view a k).setCache ((w.caches k).setClass c class_) with thread })
    (howned : ∀ b ∈ class_.ownedBag, HeaderOk setup.debug w.mem c b (.owned (setup.cacheId k)))
    (hfresh : ∀ b ∈ class_.freshBag, HeaderOk setup.debug w.mem c b .raw)
    (hshared : ∀ b ∈ class_.sharedBag, HeaderOk setup.debug w.mem c b .shared)
    (hand : HandOk setup w.mem k thread) (hentries : thread.entries = [])
    (hpc : ∀ b pc, thread = .busy b pc → PcMemory w.mem pc) :
    Memory setup (w.update a k
      { (w.view a k).setCache ((w.caches k).setClass c class_) with thread }) := by
  obtain ⟨howner, _⟩ := inv.parts.thread k a pc ht
  exact inv.memory_move (touches_class howner rfl rfl) (trans.parts inv ht) (trans.ledger inv ht)
    (trans.tokens inv ht) rfl rfl hentries rfl
    ((inv.memory.promises howner c).setClass rfl rfl howned hfresh hshared) hand hpc

/-- A step that changes the staged frees of one class. -/
theorem Transition.memory_returns {pc : Pc ι κ Seq} {returns : RemoteReturns Seq}
    {thread : Thread ι κ Seq} (inv : Inv setup w) (ht : w.threads k = .busy a pc)
    (trans : Transition setup.debug w a k pc
      { (w.view a k).setCache ((w.caches k).setRemoteReturns c returns) with thread })
    (hstaged : ∀ b ∈ returns.pending, HeaderOk setup.debug w.mem c b .shared)
    (hand : HandOk setup w.mem k thread) (hentries : thread.entries = [])
    (hpc : ∀ b pc, thread = .busy b pc → PcMemory w.mem pc) :
    Memory setup (w.update a k
      { (w.view a k).setCache ((w.caches k).setRemoteReturns c returns) with thread }) := by
  obtain ⟨howner, _⟩ := inv.parts.thread k a pc ht
  exact inv.memory_move (touches_returns howner rfl rfl) (trans.parts inv ht)
    (trans.ledger inv ht) (trans.tokens inv ht) rfl rfl hentries rfl
    ((inv.memory.promises howner c).setReturns rfl rfl hstaged) hand hpc

theorem Transition.memory {pc : Pc ι κ Seq} (inv : Inv setup w) (ht : w.threads k = .busy a pc)
    (trans : Transition setup.debug w a k pc v) : Memory setup (w.update a k v) := by
  obtain ⟨howner, hok⟩ := inv.parts.thread k a pc ht
  have P := inv.memory.promises howner
  have hand : HandOk setup w.mem k (.busy a pc) := ht ▸ inv.memory.handOk k
  cases trans with
  | refill h => exact memory_refill inv ht h
  | @takeBatch c size batch class_ hinv hshapes howned hfresh hshared hbatch =>
    refine memory_class inv ht (takeBatch hinv hshapes howned hfresh hshared hbatch)
      (howned ▸ (P c).owned) (hfresh ▸ (P c).fresh) (fun b hb => ?_) (HandOk.none rfl) rfl
      (pcMemory_busy trivial)
    rw [hshared] at hb
    exact (Multiset.mem_add.mp hb).elim (fun hb => hand.of_blocks rfl (t := .shared) trivial b
      (Multiset.mem_coe.mp hb)) ((P c).shared b)
  | @takeSlab c size start blockSize capacity class_ _ hpc hinv hshapes howned hfresh hshared
      hcap =>
    refine memory_class inv ht (takeSlab hpc hinv hshapes howned hfresh hshared hcap)
      (howned ▸ (P c).owned) (fun b hb => ?_) (hshared ▸ (P c).shared) (HandOk.none rfl) rfl
      (pcMemory_busy trivial)
    rw [hfresh] at hb
    refine (Multiset.mem_add.mp hb).elim ((P c).fresh b) fun hb => ?_
    rcases hpc with rfl | rfl
    · exact hand.of_blocks rfl (t := .raw) trivial b (Multiset.mem_coe.mp hb)
    · exact hand.of_blocks rfl (t := .raw) trivial b (Multiset.mem_coe.mp hb)
  | @carve c size n span arena h hn hsize =>
    refine (carve h hn hsize).memory_stay inv ht rfl rfl rfl ?_ (fun _ h => h) (HandOk.none rfl)
      (fun entry h => ⟨none, h.resolve_right List.not_mem_nil⟩) (pcMemory_busy fun x h1 h2 => ?_)
    · exact h.next_le
    · have heq := (inv.parts.allocator a).arena_eq
      have hstart := h.start_eq
      have hfits := h.fits
      have hle := le_alignUp (w.allocators a).arena.next (w.allocators a).arena.alignment
      have hbase : (w.allocators a).arena.base = (setup.arena a).base := by rw [heq]
      have hlen : (w.allocators a).arena.len = (setup.arena a).len := by rw [heq]
      exact inv.memory.untouched a x (by omega) (by omega)
  | carveNone =>
    exact memory_goto inv ht carveNone (HandOk.none rfl) rfl (pcMemory_busy trivial)
  | carveFail => exact memory_goto inv ht carveFail (HandOk.idle _) rfl pcMemory_idle
  | register hn hsize h => exact memory_register inv ht hn hsize h
  | @pop c size block reuse class_ hinv hshapes htakes =>
    have hblock : HeaderOk setup.debug w.mem c block (reuse.trust (setup.cacheId k)) ∧
        (∀ b ∈ class_.ownedBag, HeaderOk setup.debug w.mem c b (.owned (setup.cacheId k))) ∧
        (∀ b ∈ class_.freshBag, HeaderOk setup.debug w.mem c b .raw) ∧
        ∀ b ∈ class_.sharedBag, HeaderOk setup.debug w.mem c b .shared := by
      obtain ⟨h1, h2, h3⟩ := (⟨(P c).owned, (P c).fresh, (P c).shared⟩ : _ ∧ _ ∧ _)
      simp only [World.view] at h1 h2 h3
      cases reuse with
      | hotReuseRequestedOnly =>
        obtain ⟨e1, e2, e3⟩ := htakes
        rw [e1] at h1
        exact ⟨h1 block (by simp), fun b hb => h1 b (by simp [hb]), e2 ▸ h2, e3 ▸ h3⟩
      | needsOwnerAndRequestedSizeRefresh =>
        obtain ⟨e1, e2, e3⟩ := htakes
        rw [e3] at h3
        exact ⟨h3 block (by simp), e1 ▸ h1, e2 ▸ h2, fun b hb => h3 b (by simp [hb])⟩
      | needsHeaderRewrite =>
        obtain ⟨e1, e2, e3⟩ := htakes
        rw [e2] at h2
        exact ⟨h2 block (by simp), e1 ▸ h1, fun b hb => h2 b (by simp [hb]), e3 ▸ h3⟩
    obtain ⟨hblock, howned, hfresh, hshared⟩ := hblock
    refine memory_class inv ht (pop hinv hshapes htakes) howned hfresh hshared
      (HandOk.some rfl fun b hb => ?_) rfl (pcMemory_busy trivial)
    obtain rfl := List.mem_singleton.mp hb
    rwa [Pc.popped_trust]
  | give => exact memory_give inv ht
  | @largeReuse size blockSize block large hinv hlive hfree hle =>
    exact (largeReuse hinv hlive hfree hle).memory_stay inv ht rfl rfl rfl (Nat.le_refl _)
      (fun e h => hlive ▸ h) (HandOk.none rfl)
      (fun entry h => ⟨none, h.resolve_right List.not_mem_nil⟩) (pcMemory_busy trivial)
  | largeMiss h =>
    exact memory_goto inv ht (largeMiss h) (HandOk.none rfl) rfl (pcMemory_busy trivial)
  | @largeReserve size blockSize start arena h =>
    exact (largeReserve h).memory_stay inv ht rfl rfl rfl h.next_le
      (fun _ h => h) (HandOk.none rfl)
      (fun entry h => ⟨none, h.resolve_right List.not_mem_nil⟩) (pcMemory_busy trivial)
  | largeFail => exact memory_goto inv ht largeFail (HandOk.idle _) rfl pcMemory_idle
  | largeWrite h => exact memory_largeWrite inv ht h
  | largeUnwritable h =>
    exact memory_goto inv ht (largeUnwritable h) (HandOk.none rfl) rfl (pcMemory_busy trivial)
  | record hinv hlive hfree => exact memory_record inv ht hinv hlive hfree
  | report => exact memory_goto inv ht report (HandOk.idle _) rfl pcMemory_idle
  | @push c block class_ spilled thread hinv hshapes hfresh howned hshared hthread =>
    have hblock : HeaderOk setup.debug w.mem c block (.owned (setup.cacheId k)) := by
      rw [← (inv.parts.cache k).cacheId_eq]
      exact hand a _ c [block] rfl rfl block (by simp)
    have howned' : ∀ b ∈ class_.ownedBag + spilled,
        HeaderOk setup.debug w.mem c b (.owned (setup.cacheId k)) := by
      rw [howned]
      intro b hb
      exact (Multiset.mem_cons.mp hb).elim (fun h => h ▸ hblock) ((P c).owned b)
    refine memory_class inv ht (push hinv hshapes hfresh howned hshared hthread)
      (fun b hb => howned' b (Multiset.mem_add.mpr (Or.inl hb))) (hfresh ▸ (P c).fresh)
      (fun b hb => ?_) ?_ ?_ ?_
    · rw [hshared] at hb
      exact (Multiset.mem_add.mp hb).elim
        (fun hb => (howned' b (Multiset.mem_add.mpr (Or.inr hb))).weaken trivial) ((P c).shared b)
    · rcases hthread with rfl | ⟨_, rfl⟩
      · exact HandOk.idle _
      · exact HandOk.none rfl
    · rcases hthread with rfl | ⟨_, rfl⟩ <;> rfl
    · rcases hthread with rfl | ⟨_, rfl⟩
      · exact pcMemory_idle
      · exact pcMemory_busy trivial
  | @stage c block owner thread hid hthread =>
    have hblock : HeaderOk setup.debug w.mem c block .shared :=
      hand.of_blocks rfl (t := .shared) trivial block (by simp)
    refine memory_returns inv ht (stage hid hthread) (fun b hb => ?_) ?_ ?_ ?_
    · exact (List.mem_cons.mp hb).elim (fun h => h ▸ hblock) ((P c).staged b)
    · rcases hthread with rfl | rfl
      · exact HandOk.idle _
      · exact HandOk.none rfl
    · rcases hthread with rfl | rfl <;> rfl
    · rcases hthread with rfl | rfl
      · exact pcMemory_idle
      · exact pcMemory_busy trivial
  | @release entry requested usable large record ha hinv hrecord hlive hliveBag hfreeBag =>
    exact (release ha hinv hrecord hlive hliveBag hfreeBag).memory_stay inv ht rfl rfl rfl
      (Nat.le_refl _) (fun e h => ((hlive e).mp h).1) (HandOk.idle _)
      (fun entry h => ⟨none, h.resolve_right List.not_mem_nil⟩) pcMemory_idle
  | @refuse entry requested usable ha =>
    refine (refuse ha).memory_stay inv ht rfl rfl rfl (Nat.le_refl _) (fun _ h => h)
      (HandOk.idle _) (fun other h => ?_) pcMemory_idle
    rcases List.mem_append.mp (h.resolve_right List.not_mem_nil) with h | h
    · exact ⟨none, h⟩
    · obtain rfl := List.mem_singleton.mp h
      exact ⟨some k, by simp [World.entries, ht, Thread.entries, Pc.entry]⟩
  | flushEnd => exact memory_goto inv ht flushEnd (HandOk.none rfl) rfl (pcMemory_busy trivial)
  | flush => exact memory_goto inv ht flush (HandOk.none rfl) rfl (pcMemory_busy trivial)
  | drainEnd => exact memory_goto inv ht drainEnd (HandOk.idle _) rfl pcMemory_idle
  | drainNext h =>
    exact memory_goto inv ht (drainNext h) (HandOk.none rfl) rfl (pcMemory_busy trivial)
  | drain h => exact memory_goto inv ht (drain h) (HandOk.none rfl) rfl (pcMemory_busy trivial)
  | @unstageNone c resume h =>
    have hthread : (w.view a k).resume a resume =
        { w.view a k with thread := ((w.view a k).resume a resume).thread } := by
      cases resume <;> rfl
    rw [hthread]
    exact memory_goto inv ht (hthread ▸ unstageNone h) (HandOk.resume _ resume)
      (entries_resume _ resume) (pcMemory_resume _ resume)
  | @unstage c resume h =>
    exact memory_returns inv ht (unstage h) (fun b hb => by cases hb)
      (HandOk.some rfl fun b hb => (P c).staged b hb) rfl (pcMemory_busy trivial)
  | publish hinv only hlists hinbox => exact memory_publish inv ht hinv only hlists hinbox
  | excess hinv hshapes hbatch drains => exact memory_excess inv ht hinv hshapes hbatch drains
  | returnBatch h => exact memory_return inv ht h

theorem Transition.inv {pc : Pc ι κ Seq} (inv : Inv setup w) (ht : w.threads k = .busy a pc)
    (trans : Transition setup.debug w a k pc v) : Inv setup (w.update a k v) :=
  ⟨trans.parts inv ht, trans.ledger inv ht, trans.tokens inv ht, trans.memory inv ht⟩

end Steps

end Orthotope
