import RemoteUpdate.Proofs.Session.Copies
import RemoteUpdate.Proofs.Table.BootOrder

/-!
# Refused images

An image is refused before anything is changed if its slot cannot be opened, or if it does not fit the slot
or does not pass. What is left to refuse comes last: the pointer block may have no place for the slot, and by
then the image is in it.
-/

namespace RemoteUpdate

namespace PointerBlock

variable {b : PointerBlock} {p : UInt64}

/-- There is nothing to take out if the pointer has no place. -/
theorem not_changed_of_unplaceable (h : b.Unplaceable p) : (b.disable p).1 = false := by
  by_contra hc
  obtain ⟨hp, hmem⟩ := changed_iff.mp (by simpa using hc)
  rcases unplaceable_iff.mp h with hno | hnil | ⟨-, hout⟩
  · rw [hp] at hno
    cases hno
  · rw [hnil] at hmem
    cases hmem
  · exact hout hmem

/-- Taking a pointer out makes room for it. -/
theorem unplaceable_disable_iff : (b.disable p).2.Unplaceable p ↔ b.Unplaceable p := by
  cases hc : (b.disable p).1 with
  | false => rw [disable_of_not_changed hc]
  | true =>
    obtain ⟨hp, hmem⟩ := changed_iff.mp hc
    refine iff_of_false (fun h => ?_) fun h => ?_
    · rcases unplaceable_iff.mp h with hno | hnil | ⟨hfull, -⟩
      · rw [hp] at hno
        cases hno
      · rw [slots_of_changed hc, List.map_eq_nil_iff] at hnil
        rw [hnil] at hmem
        cases hmem
      · exact ((all_isPointer_disable hp).mp hfull).2 hmem
    · rw [not_changed_of_unplaceable h] at hc
      cases hc

end PointerBlock

namespace Session

open FlashPlan (formatChanges fits_formatChanges inside_formatChanges)

variable {ρ φ : Type} {c : Session ρ} {kind : ImageKind} {slot : ℕ} {image : List UInt8}
  {e : PartitionEntry}

/-- An image that may be programmed, into a slot that then has no place in the pointer block. -/
structure Unbootable (c : Session ρ) (cells : ByteArray) (kind : ImageKind) (slot : ℕ)
    (image : List UInt8) (e : PartitionEntry) : Prop where
  /-- The slot can be opened, and the stored pointer block cannot take it. -/
  placeless : ∃ t b, c.Open cells slot t b e ∧ b.Unplaceable e.offset
  booted : kind ≠ .raw
  nonempty : image ≠ []
  fits : image.length ≤ e.length.toNat
  passes : c.passes kind image = true
  inside : e.top ≤ cells.size

/-- The changes that put an image into a slot. -/
def imageChanges (e : PartitionEntry) (image : List UInt8) : List FlashChange :=
  [.erase e.offset.toNat e.length.toNat, .write e.offset.toNat image]

/-- Enabling is refused for want of a place. -/
theorem placementResult_eq_error_iff {b : PointerBlock} {p : UInt64} {failure : UpdateError} :
    placementResult (b.enable p).1 = .error failure ↔
      b.Unplaceable p ∧ failure = .invalidArgument := by
  rcases PointerBlock.enable_answer b p with ⟨hun, e, he⟩ | ⟨hun, -, he⟩ | ⟨hun, -, he⟩
  · have : e.toUpdateError = .invalidArgument := by cases e <;> rfl
    rw [he, placementResult, this]
    simp [hun, eq_comm]
  · simp [he, placementResult, hun]
  · simp [he, placementResult, hun]

theorem imageChanges_eq {capacity : ℕ} {t : PartitionTable} {b : PointerBlock} {p : FlashPartition}
    (hp : FlashPartition.ofEntry capacity e = .ok p) (hun : b.Unplaceable e.offset) :
    (c.disableChanges t b e.offset ++
      contentChanges capacity e fun p => [.erase p.base p.length, .write p.base image] ++
        if kind = .raw then [] else c.enableChanges t (b.disable e.offset).2 e.offset) =
      imageChanges e image := by
  have hsame := PointerBlock.not_changed_of_unplaceable hun
  obtain ⟨failure, hfail⟩ := PointerBlock.enable_eq_error_iff.mpr hun
  obtain ⟨hbase, hlength, -⟩ := ofEntry_eq_ok hp
  have hdisable : c.disableChanges t b e.offset = [] := by
    rw [disableChanges, hsame]
    rfl
  have henable : c.enableChanges t (b.disable e.offset).2 e.offset = [] := by
    rw [PointerBlock.disable_of_not_changed hsame, enableChanges, hfail]
  rw [hdisable, henable, ite_self, contentChanges, hp, List.nil_append]
  dsimp only
  rw [hbase, hlength]
  rfl

variable [FlashDevice φ] [KeepsCells φ] {s : SessionState ρ φ}

/-- An image for a slot without a place is put into the slot before it is refused. -/
theorem Unbootable.performs (h : Unbootable c (cells s.flash) kind slot image e) :
    ∃ t b, Performs (c.programSlot kind slot image) s (imageChanges e image)
      (.error .invalidArgument) t b := by
  obtain ⟨t, b, hopen, hun⟩ := h.placeless
  obtain ⟨b', hp⟩ := performs_programSlot kind hopen h.nonempty h.fits h.passes
  have hpart := ofEntry_of_inside h.inside
  have hresult := placementResult_eq_error_iff.mpr
    ⟨PointerBlock.unplaceable_disable_iff.mpr hun, rfl⟩
  rw [imageChanges_eq hpart hun, contentResult, hpart, if_neg h.booted, hresult] at hp
  exact ⟨t, b', hp⟩

omit [FlashDevice φ] [KeepsCells φ] in
theorem Unbootable.imageChanges_fit {cells : ByteArray} (h : Unbootable c cells kind slot image e) :
    ∀ change ∈ imageChanges e image, change.Fits cells := by
  have hin : e.offset.toNat + e.length.toNat ≤ cells.size := h.inside
  intro change hc
  rcases List.mem_cons.mp hc with rfl | hc
  · exact hin
  · rw [List.mem_singleton.mp hc]
    exact (Nat.add_le_add_left h.fits _).trans hin

/-- A device that does not fail has the image afterwards. -/
theorem Unbootable.ends {s : SessionState ρ EmulatedFlash}
    (h : Unbootable c s.flash.cells kind slot image e) (hf : s.flash.failing = false) :
    ∃ s', Ends (c.programSlot kind slot image) s (.error .invalidArgument) s' ∧
      Cells.slice s'.flash.cells e.offset.toNat image.length = image := by
  obtain ⟨t, b, hp⟩ := h.performs (s := s)
  obtain ⟨f', hplay, -⟩ := EmulatedFlash.playAll_of_fits h.imageChanges_fit hf
  refine ⟨_, hp.ends_of_ok hplay, ?_⟩
  have hcells : f'.cells = afterAll (imageChanges e image) s.flash.cells := (cells_playAll hplay).2
  have hfits : ∀ change ∈ replaceChanges e.offset e.length.toNat image ++ [],
      change.Fits s.flash.cells := by
    rw [List.append_nil]
    exact h.imageChanges_fit
  have hslice := slice_replaceChanges [] hfits (by simp)
  rw [List.append_nil] at hslice
  rw [hcells]
  exact hslice

/-- **A refused image leaves the flash alone**, unless the slot then has no place in the pointer block. For
every content of the device, slot, image and verifier: if programming fails for another reason than that a call
of the device failed, no byte has changed, or else the image passed, the stored pointer block cannot take the
slot, and exactly the image was put into the slot. -/
theorem programSlot_refused (c : Session ρ) (s : SessionState ρ φ) (kind : ImageKind) (slot : ℕ)
    (image : List UInt8) : ∃ r s', Ends (c.programSlot kind slot image) s r s' ∧
      ∀ failure, r = .error failure → (∀ fault, failure ≠ .flash fault) →
        cells s'.flash = cells s.flash ∨
          failure = .invalidArgument ∧ ∃ e, Unbootable c (cells s.flash) kind slot image e ∧
            cells s'.flash = afterAll (imageChanges e image) (cells s.flash) := by
  rcases programSlot_cases c s kind slot image with
    ⟨t, b, e, hopen, hne, hle, hpass⟩ | ⟨failure, t, b, hstop⟩
  · obtain ⟨b', hp⟩ := performs_programSlot kind hopen hne hle hpass
    rcases hplay : (playAll _).outcome s.flash with ⟨fault | ⟨⟨⟩⟩, f⟩
    · unfold Performs at hp
      rw [hplay] at hp
      obtain ⟨t', b'', hends⟩ := hp
      refine ⟨_, _, hends, fun failure hr hno => ?_⟩
      exact absurd (Except.error.inj hr).symm (hno fault)
    · refine ⟨_, _, hp.ends_of_ok hplay, fun failure hr hno => ?_⟩
      unfold contentResult at hr
      cases hpart : FlashPartition.ofEntry (cells s.flash).size e with
      | error fault =>
        rw [hpart] at hr
        exact absurd (Except.error.inj hr).symm (hno fault)
      | ok p =>
        rw [hpart] at hr
        -- past the writes only the pointer can still be refused, and a raw image has none
        by_cases hk : kind = .raw
        · rw [if_pos hk] at hr
          cases hr
        · rw [if_neg hk] at hr
          obtain ⟨hun, rfl⟩ := placementResult_eq_error_iff.mp hr
          have hun := PointerBlock.unplaceable_disable_iff.mp hun
          rw [imageChanges_eq hpart hun] at hplay
          obtain ⟨-, -, hin⟩ := ofEntry_eq_ok hpart
          exact .inr ⟨rfl, e, ⟨⟨t, b, hopen, hun⟩, hk, hne, hle, hpass, hin⟩, (cells_playAll hplay).2⟩
  · exact ⟨_, _, hstop, fun _ _ _ => .inl rfl⟩

/-! ### A block without a free slot -/

/-- The standard plan with a slot, and a pointer block whose one slot is taken by another image. -/
def fullPlan : FlashPlan :=
  { slotPlan with block := (PointerBlock.empty 1).withSlots [0x130000] }

def fullFlash : EmulatedFlash := formatted fullPlan (.blank 0x140000)

def fullState : SessionState Unit EmulatedFlash where
  channel := { registers := () }
  flash := fullFlash

/-- The shortest image that passes. -/
def firmwareImage : List UInt8 := Table.word32 Verifier.imageMagic

theorem cells_fullFlash : fullFlash.failing = false ∧
    fullFlash.cells = afterAll (formatChanges fullPlan) (EmulatedFlash.blank 0x140000).cells :=
  (cells_formatted standardSize_le_blank rfl).2

theorem unbootable_fullFlash : ∃ e, e.offset = 0x120000 ∧ e.length = 0x1000 ∧
    Unbootable plainSession fullFlash.cells .application 6 firmwareImage e := by
  have hfit := fits_formatChanges fullPlan standardSize_le_blank
  have hheld := slice_formatChanges hfit
  rw [← cells_fullFlash.2] at hheld
  have hentry : slotPlan.table.listed[6]?.map (fun e => (e.offset, e.length, e.isProtected)) =
      some (0x120000, 0x1000, false) := by decide +kernel
  have hplace : placeOf? slotPlan.table "CPB0" = some 0x110000 := by decide +kernel
  have htaken : fullPlan.block.slotCount = 1 ∧ fullPlan.block.pointers.get ⟨0, by decide⟩ = 0x130000 := by
    decide +kernel
  obtain ⟨e, he, hfields⟩ := Option.map_eq_some_iff.mp hentry
  simp only [Prod.mk.injEq] at hfields
  obtain ⟨ho, hl, hu⟩ := hfields
  have hopen : plainSession.Open fullFlash.cells 6 slotPlan.table fullPlan.block e := by
    refine ⟨?_, ?_, he, hu⟩
    · exact storedTable?_of_encode (by decide +kernel)
        (hheld (0x100000, fullPlan.table.encode) (by simp [formatTables]))
    · exact storedBlock?_of_encode hplace (by decide +kernel)
        (hheld (0x110000, fullPlan.block.encode) (by simp [formatTables]))
  have hun : fullPlan.block.Unplaceable e.offset := by
    refine .inr (.inr (.inr fun k hk => ?_))
    rw [htaken.1] at hk
    obtain rfl : k = ⟨0, by decide⟩ := Fin.ext (Nat.lt_one_iff.mp hk)
    rw [htaken.2, ho]
    decide
  refine ⟨e, ho, hl, ⟨⟨_, _, hopen, hun⟩, by decide, by decide, ?_, by decide, ?_⟩⟩
  · rw [hl]
    decide
  · rw [cells_fullFlash.2, size_afterAll hfit, size_blank, PartitionEntry.top, ho, hl]
    decide

theorem slice_fullFlash : Cells.slice fullFlash.cells 0x120000 4 =
    List.replicate 4 Cells.erasedByte := by
  have hapart : ∀ change ∈ formatChanges fullPlan,
      Cells.Apart change.address change.length 0x120000 4 := by
    intro change hc
    exact .inl (inside_formatChanges fullPlan change hc).2
  rw [cells_fullFlash.2, slice_afterAll_apart (fits_formatChanges fullPlan standardSize_le_blank) hapart,
    EmulatedFlash.blank, Cells.slice_eq, Cells.toList_filled, List.drop_replicate, List.take_replicate]
  rfl

/-- An image is refused as an invalid argument by a device that does not fail, and is in its slot. -/
theorem refused_image_in_slot :
    fullFlash.failing = false ∧
      ∃ s', Ends (plainSession.programSlot .application 6 firmwareImage) fullState
          (.error .invalidArgument) s' ∧
        s'.flash.cells ≠ fullFlash.cells ∧
        Cells.slice s'.flash.cells 0x120000 4 = firmwareImage := by
  obtain ⟨e, ho, -, hun⟩ := unbootable_fullFlash
  obtain ⟨s', hends, hafter⟩ := hun.ends (s := fullState) cells_fullFlash.1
  rw [ho] at hafter
  refine ⟨cells_fullFlash.1, s', hends, fun hsame => ?_, hafter⟩
  rw [hsame] at hafter
  exact absurd (slice_fullFlash.symm.trans hafter) (by decide)

end Session

end RemoteUpdate
