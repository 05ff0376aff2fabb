import Mathlib.Data.List.Perm.Subperm
import RemoteUpdate.Proofs.Session.Catalog
import RemoteUpdate.Proofs.Session.Footprint

/-!
# Room in the pointer block

The pointers of a good block are distinct, and each refers to an entry that is not protected. So a block with
as many slots as a partition table has entries always has room for one more, as long as one entry is protected:
whatever has been created, removed, enabled and disabled before, any slot can be put on top. No operation
takes slots away from the block, so this holds after every run of operations.
-/

namespace RemoteUpdate.Session

open FlashPlan (Reachable)

variable {ρ : Type} {c : Session ρ} {cells : ByteArray} {t : PartitionTable} {b b' : PointerBlock}
  {e : PartitionEntry} {changes : List FlashChange} {s : SessionState ρ EmulatedFlash} {slot : ℕ}

/-! ### Counting -/

theorem length_listed_le (t : PartitionTable) : t.listed.length ≤ maxPartitions := by
  rw [PartitionTable.length_listed]
  exact Nat.min_le_right ..

/-- There are fewer pointers than entries if one of the entries is protected. -/
theorem Boots.length_lt (h : Boots t b) (he : e ∈ t.listed) (hk : e.isProtected = true) :
    b.priorities.length < t.listed.length := by
  have hsub : b.priorities ⊆ (t.listed.filter fun f => !f.isProtected).map PartitionEntry.offset := by
    intro p hp
    obtain ⟨f, hf, ho, hu⟩ := h.bootable p hp
    refine List.mem_map.mpr ⟨f, List.mem_filter.mpr ⟨hf, ?_⟩, ho⟩
    rw [hu]
    rfl
  have hle := (h.distinct.subperm hsub).length_le
  rw [List.length_map] at hle
  refine Nat.lt_of_le_of_lt hle (List.length_filter_lt_length_iff_exists.mpr ⟨e, he, ?_⟩)
  rw [hk]
  decide

/-! ### Blocks with room -/

/-- The cells store good tables, a pointer block with as many slots as a partition table has entries, and a
protected entry where the device begins. -/
structure Roomy (c : Session ρ) (cells : ByteArray) (t : PartitionTable) (b : PointerBlock) : Prop extends
    Stores c cells t (some b) where
  slots : maxPartitions ≤ b.slotCount.toNat
  first : ∃ e ∈ t.listed, e.isProtected = true ∧ e.offset = 0

/-- Any slot that may be changed can be put on top of the block, and of any block with the same header that
boots from the table. -/
theorem Roomy.placeable (h : Roomy c cells t b) (hcap : cells.size < UInt64.size) (he : e ∈ t.listed)
    (hu : e.isProtected = false) (hb : Boots t b') (hf : b.Frames b') : ¬ b'.Unplaceable e.offset := by
  obtain ⟨e₀, he₀, hk, ho⟩ := h.first
  have hroom := Nat.lt_of_lt_of_le (hb.length_lt he₀ hk) (length_listed_le t)
  have hsize : maxPartitions ≤ b'.size := by
    refine Nat.le_min.mpr ⟨?_, by decide⟩
    rw [hf.slotCount_eq]
    exact h.slots
  rw [PointerBlock.unplaceable_iff_priorities, PointerBlock.isPointer_eq_false_iff]
  rintro ((hzero | herased) | hnone | ⟨hfull, -⟩)
  · -- the entry where the device begins is protected
    obtain rfl := h.directory.eq_of_offset he he₀ (hzero.trans ho.symm)
    rw [hk] at hu
    cases hu
  · exact h.directory.toListing.offset_ne_erased he hcap herased
  · have : 0 < maxPartitions := by decide
    omega
  · omega

/-- An operation leaves room. -/
theorem Plans.roomy {op : SlotOperation} {r : Except UpdateError Unit} (hc : Compact c)
    (hplan : Plans c cells op changes r) (h : Roomy c cells t b) :
    ∃ t' b', Roomy c (afterAll changes cells) t' b' := by
  obtain ⟨hcare, hslots⟩ := hplan.careful hc h.guarded
  obtain ⟨t', b', ht', hb', hn⟩ := hslots maxPartitions (by decide) (h.slotted h.slots)
  have hkept : ∀ e ∈ t.listed, e.isProtected = true → e ∈ t'.listed := by
    obtain ⟨t₁, ht₁, hsucceeds⟩ := (hplan.orderly hc h.guarded.orderly List.prefix_rfl).2 t' ht'
    obtain rfl := Option.some.inj (h.table.symm.trans ht₁)
    refine hsucceeds.kept fun e he => ?_
    obtain ⟨slot, -, hopen⟩ := Option.bind_eq_some_iff.mp he
    exact (of_openSlot? h.table hopen).2
  obtain ⟨e₀, he₀, hk, ho⟩ := h.first
  have hstores := hcare.guarded_after.stores ht'
  rw [hb'] at hstores
  exact ⟨t', b', hstores, hn, e₀, hkept e₀ he₀ hk, hk, ho⟩

/-- The device stores tables with room, does not fail, and has 64-bit addresses. -/
structure Ready (c : Session ρ) (f : EmulatedFlash) : Prop where
  roomy : ∃ t b, Roomy c f.cells t b
  working : f.failing = false
  addressed : f.cells.size < UInt64.size

theorem Ready.perform (hc : Compact c) (op : SlotOperation) (h : Ready c s.flash) :
    ∃ r s', Ends (c.perform op) s r s' ∧ Ready c s'.flash := by
  obtain ⟨t, b, hroomy⟩ := h.roomy
  obtain ⟨changes, r, t₁, b₁, hperf, hplan⟩ := perform_follows c s op
  have hcare : Careful c changes s.flash.cells := (hplan.careful hc hroomy.guarded).1
  obtain ⟨s', hends, hcells, hf'⟩ := ends_of_careful hperf hcare h.working
  refine ⟨r, s', hends, ?_, hf', ?_⟩
  · rw [hcells]
    exact hplan.roomy hc hroomy
  · rw [hcells, hcare.size_after]
    exact h.addressed

theorem Ready.performAll (hc : Compact c) (ops : List SlotOperation) (h : Ready c s.flash) :
    ∃ s', Returns (c.performAll ops) s () s' ∧ Ready c s'.flash := by
  induction ops generalizing s with
  | nil => exact ⟨s, Returns.pure () s, h⟩
  | cons op ops ih =>
    obtain ⟨r, s₁, hends, h₁⟩ := h.perform hc op
    obtain ⟨s', hrest, hs'⟩ := ih h₁
    exact ⟨s', performAll_cons hends hrest, hs'⟩

theorem slotCount_empty (n : ℕ) : (PointerBlock.empty n).slotCount.toNat = min n maxPointers :=
  UInt32.toNat_ofNat_of_lt' (Nat.lt_of_le_of_lt (Nat.min_le_right ..) (by decide))

/-- A device formatted with a plan of the standard layout is ready, if the plan has a slot for every entry of
a partition table. -/
theorem ready_of_format {p : FlashPlan} {f f' : EmulatedFlash} {n : ℕ} (hs : Standard c)
    (hp : Reachable f.cells.size p) (hblock : p.block = .empty n) (hn : maxPartitions ≤ n)
    (hf : f.failing = false) (hcap : f.cells.size < UInt64.size) (hformat : Ends p.format f (.ok ()) f') :
    Ready c f' := by
  obtain ⟨hstores, hsize⟩ := stores_of_format (f := f) hs hp hformat
  obtain ⟨hlarge, -⟩ := slice_of_format (f := f) hp hformat
  obtain ⟨-, hall⟩ := hp.sound hlarge
  obtain ⟨e, he, hm⟩ := hall ("BOOT_INFO", 0x0, 0x10000) (by decide)
  obtain ⟨hends, hf'⟩ := ends_formatted hp hlarge hf
  obtain ⟨-, rfl⟩ := hformat.unique hends
  refine ⟨⟨p.table, p.block, hstores, ?_, e, he, ?_, hm.2.1⟩, hf', ?_⟩
  · have hmax : maxPartitions ≤ maxPointers := by decide
    rw [hblock, slotCount_empty]
    omega
  · have : PartitionEntry.isProtected { flags := PartitionEntry.reservedFlag } = true := by decide
    rw [← this]
    exact PartitionEntry.isProtected_congr hm.2.2.2
  · have : (formatted p f).cells.size = f.cells.size := hsize
    omega

/-! ### What there is room for -/

/-- The slot may be changed, and the image fits it and passes the checks of its kind. -/
def Programmable (c : Session ρ) (cells : ByteArray) (kind : ImageKind) (slot : ℕ) (image : List UInt8) :
    Prop :=
  image ≠ [] ∧ c.passes kind image = true ∧
    ∃ e, c.openSlot? cells slot = some e ∧ image.length ≤ e.length.toNat

theorem Stores.slot?_of_open (h : Stores c cells t (some b)) (hslot : c.openSlot? cells slot = some e) :
    (catalogOf t b).slot? slot = some e := by
  unfold openSlot? at hslot
  rw [h.table] at hslot
  exact hslot

/-- A slot that may be changed can be put on top, and is then the first to boot. -/
theorem Ready.enables (hc : Compact c) (h : Ready c s.flash)
    (hslot : c.openSlot? s.flash.cells slot = some e) :
    ∃ s₁ s₂, Ends (c.enableSlot slot) s (.ok ()) s₁ ∧ Ends (c.slotPriority slot) s₁ (.ok 1) s₂ := by
  obtain ⟨t, b, hroomy⟩ := h.roomy
  have hs := hroomy.toStores
  have hfound := hs.slot?_of_open hslot
  obtain ⟨he, hu⟩ := Catalog.slot?_eq_some_iff.mp hfound
  have hmem := List.mem_of_getElem? he
  have hcan : (catalogOf t b).Bootable e.offset :=
    (bootable_iff hs (hs.directory.toListing.offset_ne_erased hmem h.addressed)).mpr
      (hroomy.placeable h.addressed hmem hu (hs.boots b rfl) (.refl b))
  have henable := realizes_enable hc hs h.working h.addressed slot
  rw [Catalog.edit?, hfound, Option.bind_some, if_pos hcan] at henable
  obtain ⟨s₁, hends, hwell, hk, -⟩ := henable
  obtain ⟨t₁, b₁, hs₁, hk₁⟩ := hwell.catalog hk
  obtain ⟨s₂, hprio, -⟩ := (answers hs₁).priority slot
  rw [hk₁] at hprio
  dsimp only at hprio
  rw [show (catalogOf t b).entries[slot]? = some e from he] at hprio
  refine ⟨s₁, s₂, hends, ?_⟩
  unfold Catalog.rank at hprio
  simpa [orNotFound] using hprio

/-- An image that fits a slot that may be changed and passes is put there. -/
theorem Ready.programs (hc : Compact c) (h : Ready c s.flash) {kind : ImageKind} {image : List UInt8}
    (hcan : Programmable c s.flash.cells kind slot image) :
    ∃ s', Ends (c.programSlot kind slot image) s (.ok ()) s' := by
  obtain ⟨t, b, hroomy⟩ := h.roomy
  have hs := hroomy.toStores
  obtain ⟨hne, hpass, e, hslot, hle⟩ := hcan
  have hopen := hs.open (hs.slot?_of_open hslot)
  have hmem := List.mem_of_getElem? hopen.entry
  obtain ⟨b', hperf⟩ := performs_programSlot (s := s) kind hopen hne hle hpass
  have hplan := Plans.programmed kind hopen hne hle
  have hun : ¬ (b.disable e.offset).2.Unplaceable e.offset :=
    hroomy.placeable h.addressed hmem hopen.mutable ((hs.boots b rfl).disable e.offset)
      (b.frames_disable e.offset)
  have hresult : contentResult s.flash.cells.size e
      (if kind = .raw then .ok () else placementResult ((b.disable e.offset).2.enable e.offset).1) = .ok () := by
    rw [contentResult, ofEntry_of_inside (hs.directory.inside e hmem), placementResult_enable hun, ite_self]
  have hperf : Performs _ s _ (contentResult s.flash.cells.size e _) t b' := hperf
  rw [hresult] at hperf
  obtain ⟨s', hends, -⟩ := ends_of_careful hperf (hplan.careful hc hroomy.guarded).1 h.working
  exact ⟨s', hends⟩

theorem refuses_program {kind : ImageKind} {image : List UInt8}
    (hno : ¬ Programmable c s.flash.cells kind slot image) :
    ∃ failure s', Ends (c.programSlot kind slot image) s (.error failure) s' := by
  rcases programSlot_cases c s kind slot image with
    ⟨t, b, e, hopen, hne, hle, hpass⟩ | ⟨failure, t, b, hstop⟩
  · exact absurd ⟨hne, hpass, e, hopen.openSlot?, hle⟩ hno
  · exact ⟨failure, _, hstop⟩

/-! ### Every slot can be the first to boot -/

/-- Pointers never run out. On a device formatted with the standard layout, with partitions of the device added
and a slot in the pointer block for every entry of a partition table, that does not fail: after every run of
operations any slot that may be changed can be enabled and is then the first to boot, and an image that fits
such a slot and passes is programmed, so that no image is refused because the block is full. -/
theorem pointers_never_run_out (c : Session ρ) (hs : Standard c) (hc : Compact c) (p : FlashPlan) (n : ℕ)
    (f f' : EmulatedFlash) (hp : Reachable f.cells.size p) (hblock : p.block = .empty n)
    (hn : maxPartitions ≤ n) (hf : f.failing = false) (hcap : f.cells.size < UInt64.size)
    (hformat : Ends p.format f (.ok ()) f') (ops : List SlotOperation) (s : SessionState ρ EmulatedFlash)
    (hflash : s.flash = f') :
    ∃ s', Returns (c.performAll ops) s () s' ∧ (∃ t, c.storedTable? s'.flash.cells = some t) ∧
      (∀ slot e, c.openSlot? s'.flash.cells slot = some e →
        ∃ s₁ s₂, Ends (c.enableSlot slot) s' (.ok ()) s₁ ∧ Ends (c.slotPriority slot) s₁ (.ok 1) s₂) ∧
      ∀ kind slot image, ∃ r s₁, Ends (c.programSlot kind slot image) s' r s₁ ∧
        (r = .ok () ↔ Programmable c s'.flash.cells kind slot image) := by
  subst hflash
  have hready := ready_of_format hs hp hblock hn hf hcap hformat
  obtain ⟨s', hrun, h'⟩ := hready.performAll hc ops
  refine ⟨s', hrun, ?_, fun slot e hslot => h'.enables hc hslot, fun kind slot image => ?_⟩
  · obtain ⟨t, b, hroomy⟩ := h'.roomy
    exact ⟨t, hroomy.table⟩
  · by_cases hcan : Programmable c s'.flash.cells kind slot image
    · obtain ⟨s₁, hends⟩ := h'.programs hc hcan
      exact ⟨_, s₁, hends, iff_of_true rfl hcan⟩
    · obtain ⟨failure, s₁, hends⟩ := refuses_program hcan
      exact ⟨_, s₁, hends, iff_of_false nofun hcan⟩

/-- The slots that may be changed are those of the catalog. -/
theorem openSlot?_of_catalog {k : Catalog} (h : c.catalog? cells = some k) :
    c.openSlot? cells slot = k.slot? slot := by
  obtain ⟨t, ht, hk⟩ := Option.bind_eq_some_iff.mp h
  obtain ⟨b, -, rfl⟩ := Option.map_eq_some_iff.mp hk
  rw [openSlot?, ht]
  rfl

theorem block_plain : FlashPlan.plain.block = .empty maxPointers := by
  obtain ⟨n, hn⟩ := ((reachable_plain _).sound le_rfl).1.slots
  have hcount : FlashPlan.plain.block.slotCount.toNat = maxPointers := by decide +kernel
  rw [hn, slotCount_empty] at hcount
  rw [hn, PointerBlock.empty, hcount, PointerBlock.empty, Nat.min_self]

/-- A slot that has been added, enabled and disabled again is enabled once more. -/
theorem pointers_never_run_out_plain :
    Reachable (EmulatedFlash.blank 0x140000).cells.size .plain ∧
      FlashPlan.plain.block = .empty maxPointers ∧
      ∃ s' s₁ s₂, Returns (plainSession.performAll [.create "APP" 0x120000 0x1000, .enable 6, .disable 6])
          plainState () s' ∧
        Ends (plainSession.enableSlot 6) s' (.ok ()) s₁ ∧ Ends (plainSession.slotPriority 6) s₁ (.ok 1) s₂ := by
  have hblock := block_plain
  have hcap : (EmulatedFlash.blank 0x140000).cells.size < UInt64.size := by
    rw [size_blank]
    decide
  have hformat := (ends_formatted (reachable_plain _) standardSize_le_blank rfl).1
  refine ⟨reachable_plain _, hblock, ?_⟩
  obtain ⟨s', hrun, -, henable, -⟩ := pointers_never_run_out plainSession standard_plainSession
    compact_plainSession .plain maxPointers (.blank 0x140000) plainFlash (reachable_plain _) hblock
    (by decide) rfl hcap hformat [.create "APP" 0x120000 0x1000, .enable 6, .disable 6] plainState rfl
  obtain ⟨s'', hrun', -, hcatalog⟩ := performAll_after (s := plainState) (k := plainCatalog)
    compact_plainSession [.create "APP" 0x120000 0x1000, .enable 6, .disable 6] wellFormed_plainFlash
    stores_plainFlash.catalog?_eq failing_plainFlash (by rw [plainState, size_plainFlash]; decide)
  obtain ⟨-, rfl⟩ := hrun'.unique hrun
  have hsize : plainState.flash.cells.size = 0x140000 := size_plainFlash
  rw [hsize] at hcatalog
  have hslot : plainSession.openSlot? s''.flash.cells 6 =
      some (Catalog.newEntry "APP" 0x120000 0x1000) := by
    rw [openSlot?_of_catalog hcatalog]
    decide +kernel
  obtain ⟨s₁, s₂, h₁, h₂⟩ := henable 6 _ hslot
  exact ⟨s'', s₁, s₂, hrun, h₁, h₂⟩

end RemoteUpdate.Session
