import RemoteUpdate.Proofs.Session.Refusals
import RemoteUpdate.Proofs.Session.Stages

/-!
# What a slot holds

Verifying a slot tells the first position at which it differs from an image. A slot that has been programmed
holds the image and is erased behind it, and the stored pointer block has been changed in nothing but where it
has the slot.
-/

namespace RemoteUpdate.Session

open KeepsCells (cells)

variable {ρ φ : Type} {c : Session ρ} {t : PartitionTable} {b b' : PointerBlock} {e : PartitionEntry}
  {bytes : ByteArray} {size slot : ℕ} {site : Copy → UInt64} {image : List UInt8}

/-! ### Verifying -/

def slotBytes (bytes : ByteArray) (e : PartitionEntry) : List UInt8 :=
  Cells.slice bytes e.offset.toNat e.length.toNat

/-- What verifying a slot ends with, by its bytes. -/
structure Verdict (bytes : ByteArray) (e : PartitionEntry) (image : List UInt8)
    (r : Except UpdateError Unit) : Prop where
  longer : r = .error .invalidArgument ↔ e.length.toNat < image.length
  same : r = .ok () ↔ image <+: slotBytes bytes e
  otherwise : image.length ≤ e.length.toNat → ¬ image <+: slotBytes bytes e →
    ∃ i, r = .error (.verifyMismatch i) ∧ FirstDiffers (slotBytes bytes e) image i

theorem length_slotBytes_le (bytes : ByteArray) (e : PartitionEntry) :
    (slotBytes bytes e).length ≤ e.length.toNat := by
  rw [slotBytes, Cells.length_slice]
  exact Nat.min_le_left _ _

theorem verdict_of_longer (h : e.length.toNat < image.length) :
    Verdict bytes e image (.error .invalidArgument) where
  longer := iff_of_true rfl h
  same := iff_of_false nofun fun hp =>
    Nat.not_le.mpr h (hp.length_le.trans (length_slotBytes_le bytes e))
  otherwise hle _ := absurd hle (Nat.not_le.mpr h)

theorem verdict_of_comparison (hin : e.top ≤ bytes.size) (hle : image.length ≤ e.length.toNat) :
    Verdict bytes e image
      (comparison 0 (firstDifference (Cells.slice bytes e.offset.toNat image.length) image)) := by
  have hfront : (slotBytes bytes e).take image.length =
      Cells.slice bytes e.offset.toNat image.length := Cells.take_slice bytes _ _ hle
  have hlength : (Cells.slice bytes e.offset.toNat image.length).length = image.length := by
    unfold PartitionEntry.top at hin
    rw [Cells.length_slice]
    omega
  have hfits : image <+: slotBytes bytes e ↔
      Cells.slice bytes e.offset.toNat image.length = image := by
    rw [List.prefix_iff_eq_take, hfront, eq_comm]
  cases hd : firstDifference (Cells.slice bytes e.offset.toNat image.length) image with
  | none =>
    have hsame := hfits.mpr (firstDifference_eq_none hlength hd)
    exact ⟨iff_of_false nofun (Nat.not_lt.mpr hle), iff_of_true rfl hsame, fun _ hno => absurd hsame hno⟩
  | some i =>
    have hno : ¬ image <+: slotBytes bytes e := by
      intro hp
      rw [hfits.mp hp, firstDifference_self] at hd
      cases hd
    refine ⟨iff_of_false nofun (Nat.not_lt.mpr hle), iff_of_false nofun hno, fun _ _ => ?_⟩
    obtain ⟨hinside, hdiffers, hbefore⟩ := firstDifference_eq_some hd
    -- up to the end of the image, its slot begins with what was read
    have hread {j : ℕ} (hj : j < image.length) :
        (Cells.slice bytes e.offset.toNat image.length)[j]? = (slotBytes bytes e)[j]? := by
      rw [← hfront, List.getElem?_take_of_lt hj]
    rw [hread hinside] at hdiffers
    refine ⟨0 + i, rfl, ?_⟩
    rw [Nat.zero_add]
    exact ⟨hinside, hdiffers, fun j hj => hread (hj.trans hinside) ▸ hbefore j hj⟩

/-- A listed slot whose range is within the device is compared with an image that passes. -/
theorem ends_verifySlot [FlashDevice φ] [KeepsCells φ] {s : SessionState ρ φ} (kind : ImageKind)
    (ht : c.storedTable? (cells s.flash) = some t) (he : t.listed[slot]? = some e)
    (hin : e.top ≤ (cells s.flash).size) (hpass : c.passes kind image = true) :
    ∃ r, Ends (c.verifySlot kind slot image) s r { s with table := t } ∧
      Verdict (cells s.flash) e image r := by
  have hentry := ends_slotEntry slot { s with table := t }
  rw [PartitionTable.entry_eq_ok_iff.mpr he] at hentry
  have hcheck := ends_checkImage c kind image { s with table := t }
  rw [if_pos hpass] at hcheck
  have hpart := ends_slotPartition e { s with table := t }
  rw [ofEntry_of_inside hin] at hpart
  have hload := (ends_loadTable ht).discard_ok
  by_cases hlong : e.length.toNat < image.length
  · refine ⟨.error .invalidArgument, hload.bind (hentry.bind ?_), verdict_of_longer hlong⟩
    rw [if_pos hlong]
    exact (Ends.throw _ _).bind_error
  · have hle := Nat.not_lt.mp hlong
    refine ⟨_, hload.bind (hentry.bind ?_), verdict_of_comparison hin hle⟩
    rw [if_neg hlong]
    refine hcheck.bind (hpart.bind (ends_compare_pieces ?_ ?_))
    · rwa [Nat.zero_add]
    · exact (Nat.add_le_add_left hle _).trans hin

/-! ### Programming -/

/-- The device stores the tables. -/
structure Shows (c : Session ρ) (bytes : ByteArray) (t : PartitionTable) (b : PointerBlock) : Prop where
  table : c.storedTable? bytes = some t
  block : c.storedBlock? bytes t = some b

/-- The changes are within the device, and leave it with these tables. -/
def Leaves (c : Session ρ) (changes : List FlashChange) (bytes : ByteArray) (t : PartitionTable)
    (b : PointerBlock) : Prop :=
  (∀ change ∈ changes, change.Fits bytes) ∧ Shows c (afterAll changes bytes) t b

theorem Leaves.append {changes rest : List FlashChange} (h : Leaves c changes bytes t b)
    (h' : Leaves c rest (afterAll changes bytes) t b') : Leaves c (changes ++ rest) bytes t b' := by
  refine ⟨List.forall_mem_append.mpr ⟨h.1, fun change hm => (h'.1 change hm).of_size ?_⟩, ?_⟩
  · exact (size_afterAll h.1).symm
  · rw [afterAll_append]
    exact h'.2

theorem slotBytes_beside {changes : List FlashChange} (h : Directory c bytes.size t)
    (he : e ∈ t.listed) (hu : e.isProtected = false) (hfit : ∀ change ∈ changes, change.Fits bytes)
    (hside : ∀ change ∈ changes, Beside c t none change) :
    slotBytes (afterAll changes bytes) e = slotBytes bytes e :=
  slice_afterAll_apart hfit fun change hm =>
    (hside change hm).apart (fun _ hp => h.window_apart (List.mem_cons_of_mem _ hp) he hu) nofun

/-- A slot into which an image has been put holds it, and is erased behind it. -/
theorem slotBytes_imageChanges (hin : e.top ≤ bytes.size) (hle : image.length ≤ e.length.toNat) :
    slotBytes (afterAll (imageChanges e image) bytes) e =
      image ++ List.replicate (e.length.toNat - image.length) Cells.erasedByte := by
  have herase : (FlashChange.erase e.offset.toNat e.length.toNat).Fits bytes := hin
  have hwrite : (FlashChange.write e.offset.toNat image).Fits
      ((FlashChange.erase e.offset.toNat e.length.toNat).on bytes) := by
    refine FlashChange.Fits.of_size ?_ (FlashChange.size_on herase)
    exact (Nat.add_le_add_left hle _).trans hin
  have hfront := FlashChange.slice_on hwrite
  have hblank := congrArg (List.drop image.length) (FlashChange.slice_on herase)
  have hback := FlashChange.slice_on_apart hwrite (a := e.offset.toNat + image.length)
    (n := e.length.toNat - image.length) (.inl le_rfl)
  rw [slotBytes, ← List.take_append_drop image.length (Cells.slice _ _ _), Cells.take_slice _ _ _ hle,
    Cells.drop_slice, ← List.drop_replicate]
  exact congrArg₂ _ hfront (hback.trans ((Cells.drop_slice _ _ _ _).symm.trans hblank))

namespace Shows

variable (hc : Compact c) (hs : Sited c bytes.size t site) (h : Shows c bytes t b)
include hc hs h

theorem save (hv : b'.verifies = true) : Leaves c (c.blockChanges t b') bytes t b' := by
  obtain ⟨hm, hheld⟩ := meets_save (P := fun _ _ => True) .block .blockBackup hs rfl b'.length_encode rfl
    trivial trivial trivial trivial
  rw [← blockChanges_eq hc hs] at hm hheld
  refine ⟨hm.fits, ?_, ?_⟩
  · rw [storedTable?_eq hs.table, hheld, saved_other _ (by decide) (by decide), ← storedTable?_eq hs.table]
    exact h.table
  · rw [storedBlock?_eq hs.block, hheld, saved_first _ (by decide)]
    exact blockIn?_encode hv

theorem disable (p : UInt64) : Leaves c (c.disableChanges t b p) bytes t (b.disable p).2 := by
  unfold disableChanges
  cases hd : (b.disable p).1 with
  | true =>
    have hv := (Option.filter_eq_some_iff.mp ((storedBlock?_eq hs.block).symm.trans h.block)).2
    exact h.save hc hs (verifies_of_defect?_eq hv PointerBlock.defect?_disable)
  | false =>
    rw [PointerBlock.disable_of_not_changed hd]
    exact ⟨by simp, h⟩

theorem enable {p : UInt64} (hput : b.enable p = (.ok true, b')) :
    Leaves c (c.enableChanges t b p) bytes t b' := by
  have hv := (Option.filter_eq_some_iff.mp ((storedBlock?_eq hs.block).symm.trans h.block)).2
  unfold enableChanges
  rw [hput]
  exact h.save hc hs (verifies_of_defect?_eq hv (PointerBlock.enable_changed hput).2.1)

omit hc in
theorem put (he : e ∈ t.listed) (hu : e.isProtected = false) (hle : image.length ≤ e.length.toNat) :
    Leaves c (imageChanges e image) bytes t b := by
  rw [show imageChanges e image = replaceChanges e.offset e.length.toNat image from rfl]
  have hinside : ∀ change ∈ replaceChanges e.offset e.length.toNat image,
      change.Inside e.offset.toNat e.length.toNat := inside_replaceChanges hle
  obtain ⟨hm, hheld⟩ := meets_slot (P := fun _ _ => True) hs rfl he hu hinside fun _ => trivial
  refine ⟨hm.fits, ?_, ?_⟩
  · rw [storedTable?_eq hs.table, hheld, ← storedTable?_eq hs.table]
    exact h.table
  · rw [storedBlock?_eq hs.block, hheld, ← storedBlock?_eq hs.block]
    exact h.block

end Shows

/-- What is left after programming a slot. -/
structure Programmed (c : Session ρ) (bytes : ByteArray) (t : PartitionTable) (e : PartitionEntry)
    (kind : ImageKind) (image : List UInt8) : Prop where
  /-- The slot holds the image, and is erased behind it. -/
  contents : slotBytes bytes e =
    image ++ List.replicate (e.length.toNat - image.length) Cells.erasedByte
  /-- The slot is the first to boot, or is not booted if the image is raw. -/
  booted : ∃ b, Shows c bytes t b ∧
    if kind = .raw then e.offset ∉ b.priorities else b.priorities.head? = some e.offset

/-- Programming that succeeds puts a slot on top that has been taken out before. -/
theorem enable_of_placed (h : placementResult ((b.disable e.offset).2.enable e.offset).1 = .ok ()) :
    ∃ b', (b.disable e.offset).2.enable e.offset = (.ok true, b') := by
  obtain ⟨b', hb'⟩ := mem_putOnTop_disable h
  unfold PointerBlock.putOnTop at hb'
  split at hb'
  next hok => exact ⟨_, Prod.ext hok rfl⟩
  next => cases hb'

/-- The changes of programming an open slot are within the device, and if all are made and the pointer block
takes the slot they leave it programmed. -/
theorem Open.programmed (kind : ImageKind) (h : c.Open bytes slot t b e) (hc : Compact c)
    (hs : Sited c bytes.size t site) (hle : image.length ≤ e.length.toNat)
    (hr : contentResult bytes.size e (if kind = .raw then .ok ()
      else placementResult ((b.disable e.offset).2.enable e.offset).1) = .ok ()) {changes : List FlashChange}
    (hchanges : changes = c.disableChanges t b e.offset ++
      contentChanges bytes.size e fun p => [.erase p.base p.length, .write p.base image] ++
        if kind = .raw then [] else c.enableChanges t (b.disable e.offset).2 e.offset) :
    (∀ change ∈ changes, change.Fits bytes) ∧ Programmed c (afterAll changes bytes) t e kind image := by
  have he := List.mem_of_getElem? h.entry
  have hin := hs.toListing.inside e he
  have hpart := ofEntry_of_inside hin
  rw [contentResult, hpart] at hr
  rw [contentChanges, hpart] at hchanges
  dsimp only at hr hchanges
  have hshows : Shows c bytes t b := ⟨h.table, h.block⟩
  have hout := hshows.disable hc hs e.offset
  have hsize := size_afterAll hout.1
  have hboth := hout.append (hout.2.put (hsize.symm ▸ hs) he h.mutable hle)
  have hsize' := size_afterAll hboth.1
  have hcontents : slotBytes (afterAll (c.disableChanges t b e.offset ++ imageChanges e image) bytes) e =
      image ++ List.replicate (e.length.toNat - image.length) Cells.erasedByte := by
    rw [afterAll_append]
    exact slotBytes_imageChanges (hsize.symm ▸ hin) hle
  -- a raw image is not booted, so only for the others the block is saved once more
  by_cases hk : kind = .raw
  · have hall : changes = c.disableChanges t b e.offset ++ imageChanges e image := by
      rw [hchanges, if_pos hk, List.append_nil]
      rfl
    rw [hall]
    refine ⟨hboth.1, hcontents, _, hboth.2, ?_⟩
    rw [if_pos hk]
    exact not_mem_disable _
  · rw [if_neg hk] at hr
    obtain ⟨b', hplaced⟩ := enable_of_placed hr
    have htop := hboth.2.enable hc (hsize'.symm ▸ hs) hplaced
    have hall : changes = (c.disableChanges t b e.offset ++ imageChanges e image) ++
        c.enableChanges t (b.disable e.offset).2 e.offset := by
      rw [hchanges, if_neg hk, List.append_assoc]
      rfl
    rw [hall]
    refine ⟨(hboth.append htop).1, ?_, b', (hboth.append htop).2, ?_⟩
    · rw [afterAll_append, slotBytes_beside (hsize'.symm ▸ hs.toDirectory) he h.mutable htop.1
        (beside_enableChanges hc t _ _ _)]
      exact hcontents
    · rw [if_neg hk, (PointerBlock.enable_changed hplaced).1]
      rfl

section Device

variable [FlashDevice φ] [KeepsCells φ] {s : SessionState ρ φ}

/-- A call that programs a slot comes to an end, and if it succeeds it leaves a listed slot programmed. -/
theorem ends_programSlot (hc : Compact c) (kind : ImageKind) (slot : ℕ) (image : List UInt8)
    (ht : c.storedTable? (cells s.flash) = some t) (hd : Directory c (cells s.flash).size t) :
    ∃ r s', Ends (c.programSlot kind slot image) s r s' ∧
      (r = .ok () → ∃ e, t.listed[slot]? = some e ∧ Programmed c (cells s'.flash) t e kind image) := by
  obtain ⟨site, hs⟩ := hd.sited
  rcases programSlot_cases c s kind slot image with
    ⟨t', b, e, hopen, hne, hle, hpass⟩ | ⟨failure, t', b, hstop⟩
  · obtain rfl := Option.some.inj (ht.symm.trans hopen.table)
    obtain ⟨b', hp⟩ := performs_programSlot kind hopen hne hle hpass
    obtain ⟨front, r, s', -, hends, hcells, hall⟩ := hp.front
    refine ⟨r, s', hends, fun hr => ⟨e, hopen.entry, ?_⟩⟩
    obtain ⟨rfl, hplanned⟩ := hall () hr
    rw [hcells]
    exact (hopen.programmed kind hc hs hle hplanned rfl).2
  · obtain ⟨front, r, s', -, hends, -, hall⟩ := hstop.front
    exact ⟨r, s', hends, fun hr => absurd (hall () hr).2 nofun⟩

/-- **Programming and verifying agree with the bytes of the device.** Let the stored partition table be one
that can be used. Verifying a listed slot whose range is within the device fails as an invalid argument
exactly if the image is longer than the slot, succeeds exactly if the slot begins with the image, and otherwise
fails with the first position at which they differ; an image that is not raw is to pass the verifier. And if
the table is a good directory, programming a slot comes to an end, and if it succeeds the slot holds exactly
the image and then erased bytes; it is the first to boot, or not booted at all if the image is raw. -/
theorem slots_hold_images (c : Session ρ) (s : SessionState ρ φ) {t : PartitionTable}
    (ht : c.storedTable? (cells s.flash) = some t) (kind : ImageKind) (slot : ℕ) (image : List UInt8) :
    (∀ e, t.listed[slot]? = some e → e.top ≤ (cells s.flash).size → c.passes kind image = true →
      ∃ r, Ends (c.verifySlot kind slot image) s r { s with table := t } ∧
        Verdict (cells s.flash) e image r) ∧
    (Compact c → Directory c (cells s.flash).size t →
      ∃ r s', Ends (c.programSlot kind slot image) s r s' ∧
        (r = .ok () → ∃ e, t.listed[slot]? = some e ∧
          Programmed c (cells s'.flash) t e kind image)) :=
  ⟨fun _ he hin hpass => ends_verifySlot kind ht he hin hpass,
    fun hc hd => ends_programSlot hc kind slot image ht hd⟩

end Device

/-- A device that does not fail takes an image that passes and fits, if the pointer block takes the slot. -/
theorem Open.takes {s : SessionState ρ EmulatedFlash} (kind : ImageKind)
    (h : c.Open s.flash.cells slot t b e) (hc : Compact c) (hd : Directory c s.flash.cells.size t)
    (hne : image ≠ []) (hle : image.length ≤ e.length.toNat) (hpass : c.passes kind image = true)
    (hun : ¬ b.Unplaceable e.offset) (hf : s.flash.failing = false) :
    ∃ s', Ends (c.programSlot kind slot image) s (.ok ()) s' := by
  obtain ⟨site, hs⟩ := hd.sited
  have hplaced : placementResult ((b.disable e.offset).2.enable e.offset).1 = .ok () := by
    cases hp : placementResult ((b.disable e.offset).2.enable e.offset).1 with
    | ok => rfl
    | error failure =>
      exact absurd (PointerBlock.unplaceable_disable_iff.mp (placementResult_eq_error_iff.mp hp).1) hun
  have hr : contentResult s.flash.cells.size e (if kind = .raw then .ok ()
      else placementResult ((b.disable e.offset).2.enable e.offset).1) = .ok () := by
    rw [contentResult, ofEntry_of_inside (hs.toListing.inside e (List.mem_of_getElem? h.entry)), hplaced]
    exact ite_self _
  obtain ⟨b', hp⟩ := performs_programSlot (s := s) kind h hne hle hpass
  obtain ⟨f', hplay, -⟩ := EmulatedFlash.playAll_of_fits (h.programmed kind hc hs hle hr rfl).1 hf
  have hends : ∃ s', Ends (c.programSlot kind slot image) s (contentResult s.flash.cells.size e
      (if kind = .raw then .ok () else placementResult ((b.disable e.offset).2.enable e.offset).1)) s' :=
    ⟨_, hp.ends_of_ok hplay⟩
  rwa [hr] at hends

def slotState : SessionState Unit EmulatedFlash where
  channel := { registers := () }
  flash := slotFlash

theorem flash_slotState : slotState.flash = slotFlash := rfl

theorem cells_slotState : cells slotState.flash = slotFlash.cells := by
  have heq (f : EmulatedFlash) : cells f = f.cells := rfl
  rw [heq, flash_slotState]

/-- The shortest image that passes is compared with an erased slot, and put there. -/
theorem slots_hold_images_firmware : ∃ e, slotPlan.table.listed[6]? = some e ∧
    (∃ r, Ends (plainSession.verifySlot .application 6 firmwareImage) slotState r
        { slotState with table := slotPlan.table } ∧ Verdict slotFlash.cells e firmwareImage r) ∧
    ∃ s', Ends (plainSession.programSlot .application 6 firmwareImage) slotState (.ok ()) s' ∧
      Programmed plainSession s'.flash.cells slotPlan.table e .application firmwareImage := by
  obtain ⟨e, hopen, hput⟩ := open_slotFlash
  have hinside := sited_slotFlash.toListing.inside e (List.mem_of_getElem? hopen.entry)
  have hlength : slotPlan.table.listed[6]?.map PartitionEntry.length = some 0x1000 := by decide +kernel
  have hle : firmwareImage.length ≤ e.length.toNat := by
    rw [hopen.entry] at hlength
    have hlength : e.length = 0x1000 := Option.some.inj hlength
    rw [hlength]
    decide
  have hpass : plainSession.passes .application firmwareImage = true := by decide
  have hun : ¬ slotPlan.block.Unplaceable e.offset := by
    intro hun
    have := placementResult_eq_error_iff.mpr ⟨hun, rfl⟩
    rw [hput] at this
    cases this
  obtain ⟨s', hends⟩ := Open.takes (s := slotState) .application hopen compact_plainSession
    sited_slotFlash.toDirectory (by decide) hle hpass hun failing_slotFlash
  have ht : plainSession.storedTable? (cells slotState.flash) = some slotPlan.table := by
    rw [cells_slotState]
    exact hopen.table
  obtain ⟨hverify, hprogram⟩ := slots_hold_images plainSession slotState ht .application 6 firmwareImage
  rw [cells_slotState] at hverify hprogram
  refine ⟨e, hopen.entry, hverify e hopen.entry hinside hpass, s', hends, ?_⟩
  obtain ⟨r, s'', hends', hafter⟩ := hprogram compact_plainSession sited_slotFlash.toDirectory
  obtain ⟨rfl, rfl⟩ := hends'.unique hends
  obtain ⟨f, hf, hprogrammed⟩ := hafter rfl
  obtain rfl := Option.some.inj (hopen.entry.symm.trans hf)
  exact hprogrammed

end RemoteUpdate.Session
