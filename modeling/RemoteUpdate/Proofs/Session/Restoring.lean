import RemoteUpdate.Proofs.Mailbox.Soundness
import RemoteUpdate.Proofs.Session.BootSelection
import RemoteUpdate.Proofs.Session.Conclusion
import RemoteUpdate.Proofs.Table.Layout

/-!
# Backups of the tables

A caller may keep a copy of the partition table or of the pointer block outside the device and put it back
later. What has been exported can be restored, whatever has been done in between: both copies in flash hold the
bytes of the backup then, and what is loaded is what was exported. Bytes that come from elsewhere are restored
exactly if they could be loaded from flash, and bytes that are not restored leave flash alone (`Restores`).
-/

namespace RemoteUpdate

variable {ρ φ α : Type}

/-! ### Bytes that can be loaded -/

section Codec

variable {encode : α → List UInt8} {decode : List UInt8 → Except UpdateError α}
  {LaidOut : α → List UInt8 → Prop} {bytes : List UInt8}

/-- Bytes after those of the table do not matter. -/
theorem Table.ExactCodec.decode_take (h : ExactCodec encode decode LaidOut) (hb : tableSize ≤ bytes.length) :
    decode (bytes.take tableSize) = decode bytes := by
  have hlength : tableSize ≤ (bytes.take tableSize).length := by
    rw [List.length_take]
    omega
  have happend := h.decode_append _ (bytes.drop tableSize) hlength
  rw [List.take_append_drop] at happend
  exact happend.symm

theorem Table.ExactCodec.long (h : ExactCodec encode decode LaidOut) {a : α} (hd : decode bytes = .ok a) :
    tableSize ≤ bytes.length :=
  ((h.decode_eq_ok_iff bytes a).mp hd).1

end Codec

namespace Session

variable {c : Session ρ} {bytes : List UInt8} {t : PartitionTable} {b : PointerBlock}

theorem tableIn?_take (h : tableSize ≤ bytes.length) : tableIn? (bytes.take tableSize) = tableIn? bytes := by
  unfold tableIn?
  rw [PartitionTable.exactCodec.decode_take h]

theorem blockIn?_take (h : tableSize ≤ bytes.length) : blockIn? (bytes.take tableSize) = blockIn? bytes := by
  unfold blockIn?
  rw [PointerBlock.exactCodec.decode_take h]

/-- Bytes that hold a usable partition table begin with its bytes. -/
theorem encode_tableIn? (h : tableIn? bytes = some t) :
    t.encode = bytes.take tableSize ∧ tableSize ≤ bytes.length ∧ t.verifies = true := by
  obtain ⟨hd, hv⟩ := tableIn?_eq_some h
  exact ⟨PartitionTable.exactCodec.encode_decode _ _ hd, PartitionTable.exactCodec.long hd, hv⟩

theorem encode_blockIn? (h : blockIn? bytes = some b) :
    b.encode = bytes.take tableSize ∧ tableSize ≤ bytes.length ∧ b.verifies = true := by
  obtain ⟨hd, hv⟩ := blockIn?_eq_some h
  exact ⟨PointerBlock.exactCodec.encode_decode _ _ hd, PointerBlock.exactCodec.long hd, hv⟩

/-! ### What restoring does -/

section Restoring

variable [FlashDevice φ] {s : SessionState ρ φ}

omit [FlashDevice φ] in
/-- What cannot be read, or is found unusable, is refused before anything is done. -/
theorem ends_refused {β : Type} {read : Except UpdateError α} {usable : α → Bool} {check : α → SessionM ρ φ α}
    (hcheck : ∀ a s, Ends (check a) s (if usable a then .ok a else .error .corruptMetadata) s)
    (h : read.toOption.filter usable = none) (rest : α → SessionM ρ φ β) (s : SessionState ρ φ) :
    ∃ e, Ends (require read >>= fun a => check a >>= rest) s (.error e) s := by
  have hrequire := ends_require read s
  cases read with
  | error e => exact ⟨e, hrequire.bind_error⟩
  | ok a =>
    have hverify := hcheck a s
    have hno : usable a = false := by simpa [Except.toOption] using h
    rw [hno] at hverify
    exact ⟨_, hrequire.bind hverify.bind_error⟩

theorem ends_restoreTable_refused (h : tableIn? bytes = none) (c : Session ρ) (s : SessionState ρ φ) :
    ∃ e, Ends (c.restoreTable bytes) s (.error e) s :=
  ends_refused ends_verifiedTable h _ s

theorem ends_restoreBlock_refused (h : blockIn? bytes = none) (c : Session ρ) (s : SessionState ρ φ) :
    ∃ e, Ends (c.restoreBlock bytes) s (.error e) s :=
  ends_refused ends_verifiedBlock h _ s

theorem performs_restoreTable (h : tableIn? bytes = some t) (c : Session ρ) (s : SessionState ρ φ) :
    Performs (c.restoreTable bytes) s (c.tableChanges t) (.ok ()) t s.block := by
  obtain ⟨hd, hv⟩ := tableIn?_eq_some h
  have hrequire : Ends (require (PartitionTable.decode bytes) : SessionM ρ φ PartitionTable) s (.ok t) s := by
    rw [hd]
    exact ends_require _ s
  have hverify := ends_verifiedTable t s
  rw [hv, if_pos rfl] at hverify
  refine Performs.after_same hrequire (Performs.after_same hverify ?_)
  refine Performs.after (t := t) (b := s.block) (Ends.modify _ s) ?_
  exact Performs.after_same (ends_log _ _) (performs_saveTable c { s with table := t })

theorem performs_restoreBlock [KeepsCells φ] (h : blockIn? bytes = some b)
    (ht : c.storedTable? (cells s.flash) = some t) {place : UInt64}
    (hp : placeOf? t c.layout.blockName = some place) :
    Performs (c.restoreBlock bytes) s (c.blockChanges t b) (.ok ()) t b := by
  obtain ⟨hd, hv⟩ := blockIn?_eq_some h
  have hrequire : Ends (require (PointerBlock.decode bytes) : SessionM ρ φ PointerBlock) s (.ok b) s := by
    rw [hd]
    exact ends_require _ s
  have hverify := ends_verifiedBlock b s
  rw [hv, if_pos rfl] at hverify
  refine Performs.after_same hrequire (Performs.after_same hverify ?_)
  refine Performs.after (t := t) (b := s.block) (ends_loadTable ht).discard_ok ?_
  refine Performs.after (t := t) (b := b) (Ends.modify _ _) ?_
  refine Performs.after_same (ends_log _ _) ?_
  have hsave := performs_saveBlock c { s with table := t, block := b }
  dsimp only at hsave
  rw [hp] at hsave
  exact hsave

end Restoring

/-! ### Windows -/

/-- Two windows, each with room for a table and for what is erased before it is written, are within the device
and share no byte. -/
structure Windows (size space : ℕ) (first second : UInt64) : Prop where
  firstInside : first.toNat + max space tableSize ≤ size
  secondInside : second.toNat + max space tableSize ≤ size
  apart : Cells.Apart first.toNat (max space tableSize) second.toNat (max space tableSize)

variable {size space : ℕ} {first second : UInt64} {bytes : List UInt8} {cells : ByteArray}

theorem Windows.symm (h : Windows size space first second) : Windows size space second first :=
  ⟨h.secondInside, h.firstInside, h.apart.symm⟩

/-- Putting a table into a window changes nothing outside the window. -/
theorem inside_window (offset : UInt64) (space : ℕ) (hb : bytes.length = tableSize) :
    ∀ change ∈ replaceChanges offset space bytes, change.Inside offset.toNat (max space tableSize) := by
  intro change hchange
  rcases List.mem_cons.mp hchange with rfl | hchange
  · exact ⟨le_rfl, Nat.add_le_add_left (le_max_left ..) _⟩
  · obtain rfl := List.mem_singleton.mp hchange
    have hlength : (FlashChange.write offset.toNat bytes).length = tableSize := hb
    refine ⟨le_rfl, ?_⟩
    rw [hlength]
    exact Nat.add_le_add_left (le_max_right ..) _

/-- A table that has been put into one window and then into the other is in both. -/
theorem Windows.copied (h : Windows cells.size space first second) (hb : bytes.length = tableSize) :
    (∀ change ∈ replaceChanges first space bytes ++ replaceChanges second space bytes, change.Fits cells) ∧
      Cells.slice (afterAll (replaceChanges first space bytes ++ replaceChanges second space bytes) cells)
        first.toNat tableSize = bytes ∧
      Cells.slice (afterAll (replaceChanges first space bytes ++ replaceChanges second space bytes) cells)
        second.toNat tableSize = bytes := by
  have inside := inside_window first space hb
  have inside' := inside_window second space hb
  have hfit : ∀ change ∈ replaceChanges first space bytes ++ replaceChanges second space bytes,
      change.Fits cells := by
    intro change hchange
    unfold FlashChange.Fits
    rcases List.mem_append.mp hchange with hchange | hchange
    · exact (inside change hchange).2.trans h.firstInside
    · exact (inside' change hchange).2.trans h.secondInside
  -- the second copy is written into a window of its own, so the first is still there at the end
  have hlater : ∀ change ∈ replaceChanges second space bytes,
      Cells.Apart change.address change.length first.toNat bytes.length := by
    intro change hchange
    refine (inside' change hchange).apart ?_
    have hapart := h.apart
    unfold Cells.Apart at hapart ⊢
    omega
  have hfits : ∀ change ∈ replaceChanges first space bytes, change.Fits cells :=
    fun change hchange => hfit change (List.mem_append_left _ hchange)
  refine ⟨hfit, ?_, ?_⟩
  · have hslice := slice_replaceChanges (replaceChanges second space bytes) hfit hlater
    rwa [hb] at hslice
  · have hfits' : ∀ change ∈ replaceChanges second space bytes ++ [],
        change.Fits (afterAll (replaceChanges first space bytes) cells) := by
      intro change hchange
      rw [List.append_nil] at hchange
      exact (hfit change (List.mem_append_right _ hchange)).afterAll hfits
    have hslice := slice_replaceChanges [] hfits' nofun
    rwa [List.append_nil, hb, ← afterAll_append] at hslice

/-! ### A device without faults -/

/-- No call fails on the device, which has so many bytes. -/
def Faultless (size : ℕ) (f : EmulatedFlash) : Prop :=
  f.failing = false ∧ f.cells.size = size

theorem lasting_faultless (size : ℕ) : Lasting (Faultless size) where
  read address length f h := by
    rw [KeepsCells.read_eq]
    exact h
  play change f h := by
    rw [EmulatedFlash.outcome_play]
    split
    next hfit =>
      rw [if_neg (by simp [h.1])]
      exact ⟨h.1, (FlashChange.size_on hfit).trans h.2⟩
    next => exact h

/-! ### Loading and exporting -/

/-- The program succeeds. -/
def Passes (x : SessionM ρ φ α) (s : SessionState ρ φ) : Prop :=
  ∃ a t, Ends x s (.ok a) t

theorem not_passes {x : SessionM ρ φ α} {s t : SessionState ρ φ} {e : UpdateError}
    (h : Ends x s (.error e) t) : ¬ Passes x s := by
  rintro ⟨a, u, h'⟩
  cases (h.unique h').1

theorem ends_fitting (room : ℕ) (bytes : List UInt8) (s : SessionState ρ φ) :
    Ends (fitting room bytes) s (if bytes.length ≤ room then .ok bytes else .error .invalidArgument) s := by
  unfold fitting
  split
  · exact Ends.pure _ s
  · exact Ends.throw _ s

section Loading

variable [FlashDevice φ] [KeepsCells φ] {s saved : SessionState ρ φ} {room : ℕ}

theorem passes_loadTable_iff :
    Passes c.loadTable s ↔ (c.storedTable? (KeepsCells.cells s.flash)).isSome := by
  rcases c.loadTable_cases s with ⟨t, ht, h⟩ | ⟨hnone, e, h⟩
  · rw [ht]
    exact iff_of_true ⟨_, _, h⟩ rfl
  · rw [hnone]
    exact iff_of_false (not_passes h) Bool.false_ne_true

theorem passes_loadBlock_iff :
    Passes c.loadBlock s ↔ (c.storedBlock? (KeepsCells.cells s.flash) s.table).isSome := by
  rcases c.loadBlock_cases s with ⟨b, hb, h⟩ | ⟨hnone, e, h⟩
  · rw [hb]
    exact iff_of_true ⟨_, _, h⟩ rfl
  · rw [hnone]
    exact iff_of_false (not_passes h) Bool.false_ne_true

theorem table_exported (h : Ends (c.exportTable room) s (.ok bytes) saved) :
    ∃ t, Ends c.loadTable s (.ok t) { s with table := t } ∧ tableIn? bytes = some t := by
  unfold exportTable at h
  rcases c.loadTable_cases s with ⟨t, ht, hload⟩ | ⟨-, e, hload⟩
  · refine ⟨t, hload, ?_⟩
    have hexport := (h.unique (hload.bind (ends_fitting room t.encode _))).1
    split at hexport
    · obtain rfl := Except.ok.inj hexport
      exact tableIn?_encode (encode_tableIn? ht).2.2
    · cases hexport
  · cases (h.unique hload.bind_error).1

theorem block_exported (h : Ends (c.exportBlock room) s (.ok bytes) saved) :
    ∃ t b, Ends c.load s (.ok ()) { s with table := t, block := b } ∧ blockIn? bytes = some b := by
  unfold exportBlock at h
  rcases c.loadTable_cases s with ⟨t, ht, htable⟩ | ⟨-, e, htable⟩
  · rcases c.loadBlock_cases { s with table := t } with ⟨b, hb, hblock⟩ | ⟨-, e, hblock⟩
    · refine ⟨t, b, htable.discard_ok.bind hblock.discard_ok, ?_⟩
      have hexport := (h.unique (htable.discard_ok.bind (hblock.bind (ends_fitting room b.encode _)))).1
      split at hexport
      · obtain rfl := Except.ok.inj hexport
        obtain ⟨place, -, hfound⟩ := Option.bind_eq_some_iff.mp hb
        exact blockIn?_encode (encode_blockIn? hfound).2.2
      · cases hexport
    · cases (h.unique (htable.discard_ok.bind hblock.bind_error)).1
  · cases (h.unique htable.discard_error.bind_error).1

end Loading

/-! ### Restoring -/

/-- The bytes are in the window of the partition table that counts. -/
def HoldsTable (c : Session ρ) (bytes : List UInt8) (u : SessionState ρ EmulatedFlash) : Prop :=
  Cells.slice u.flash.cells c.tableOffsets.1.toNat tableSize = bytes

/-- The bytes are in the window where the loaded partition table lists the pointer block. -/
def HoldsBlock (c : Session ρ) (bytes : List UInt8) (u : SessionState ρ EmulatedFlash) : Prop :=
  ∃ place, placeOf? u.table c.layout.blockName = some place ∧
    Cells.slice u.flash.cells place.toNat tableSize = bytes

/-- The partition table in flash can be used, and lists the copies of the pointer block in windows of the
device. -/
def Lists (c : Session ρ) (cells : ByteArray) (first second : UInt64) : Prop :=
  ∃ t, c.storedTable? cells = some t ∧ placeOf? t c.layout.blockName = some first ∧
    placeOf? t c.layout.backupName = some second ∧ Windows cells.size c.layout.blockSpace first second

/-- There are such states, and the program succeeds from all of them. -/
def WouldPass (x : SessionM ρ EmulatedFlash α) (H : SessionState ρ EmulatedFlash → Prop) : Prop :=
  (∃ u, H u) ∧ ∀ u, H u → Passes x u

variable {s : SessionState ρ EmulatedFlash}

/-- There is a device that holds the bytes there. -/
theorem exists_holding (place : UInt64) (hb : bytes.length = tableSize) :
    ∃ f : EmulatedFlash, Cells.slice f.cells place.toNat tableSize = bytes := by
  let change := FlashChange.write place.toNat bytes
  have hlength : change.length = tableSize := hb
  have hfit : change.Fits (Cells.filled Cells.erasedByte (place.toNat + tableSize)) := by
    unfold FlashChange.Fits
    rw [Cells.size_filled, hlength]
    exact le_rfl
  have hslice := FlashChange.slice_on hfit
  rw [hlength] at hslice
  exact ⟨{ cells := change.on _ }, hslice⟩

theorem table_restored (h : tableIn? bytes = some t) (hf : s.flash.failing = false)
    (hw : Windows s.flash.cells.size c.layout.tableSpace c.tableOffsets.1 c.tableOffsets.2) :
    ∃ restored, Ends (c.restoreTable bytes) s (.ok ()) restored ∧
      Cells.slice restored.flash.cells c.tableOffsets.1.toNat tableSize = bytes.take tableSize ∧
      Cells.slice restored.flash.cells c.tableOffsets.2.toNat tableSize = bytes.take tableSize ∧
      Ends c.loadTable restored (.ok t) restored := by
  obtain ⟨hencode, -, hv⟩ := encode_tableIn? h
  obtain ⟨hfit, hsecond, hfirst⟩ := hw.symm.copied t.length_encode
  obtain ⟨f, hends, hcells, -⟩ := (performs_restoreTable h c s).ends_of_fits hf hfit
  have hcells' : f.cells = afterAll (replaceChanges c.tableOffsets.2 c.layout.tableSpace t.encode ++
      replaceChanges c.tableOffsets.1 c.layout.tableSpace t.encode) s.flash.cells := hcells
  rw [← hcells'] at hfirst hsecond
  refine ⟨_, hends, hfirst.trans hencode, hsecond.trans hencode, ?_⟩
  exact ends_loadTable (s := { s with flash := f, table := t }) (storedTable?_of_encode hv hfirst)

theorem block_restored {first second : UInt64} (h : blockIn? bytes = some b) (hf : s.flash.failing = false)
    (hl : Lists c s.flash.cells first second) :
    ∃ restored, Ends (c.restoreBlock bytes) s (.ok ()) restored ∧
      Cells.slice restored.flash.cells first.toNat tableSize = bytes.take tableSize ∧
      Cells.slice restored.flash.cells second.toNat tableSize = bytes.take tableSize ∧
      Ends c.loadBlock restored (.ok b) restored := by
  obtain ⟨t, ht, hfirst, hsecond, hw⟩ := hl
  obtain ⟨hencode, -, hv⟩ := encode_blockIn? h
  obtain ⟨hfit, hslice, hslice'⟩ := hw.copied b.length_encode
  have hchanges : c.blockChanges t b = replaceChanges first c.layout.blockSpace b.encode ++
      replaceChanges second c.layout.blockSpace b.encode := by
    unfold blockChanges blockPlaces
    rw [hfirst, hsecond]
    simp
  have hperforms := performs_restoreBlock (s := s) h ht hfirst
  rw [hchanges] at hperforms
  obtain ⟨f, hends, hcells, -⟩ := hperforms.ends_of_fits hf hfit
  rw [← hcells] at hslice hslice'
  have hstored : c.storedBlock? f.cells t = some b := storedBlock?_of_encode hfirst hv hslice
  refine ⟨_, hends, hslice.trans hencode, hslice'.trans hencode, ?_⟩
  exact ends_loadBlock (s := { s with flash := f, table := t, block := b }) hstored

/-- Where the windows of the table fit, bytes are restored exactly if they hold a usable table. -/
theorem passes_restoreTable_iff (hf : s.flash.failing = false)
    (hw : Windows s.flash.cells.size c.layout.tableSpace c.tableOffsets.1 c.tableOffsets.2) :
    Passes (c.restoreTable bytes) s ↔ (tableIn? bytes).isSome := by
  cases h : tableIn? bytes with
  | some t =>
    obtain ⟨restored, hends, -⟩ := table_restored h hf hw
    exact iff_of_true ⟨_, _, hends⟩ rfl
  | none =>
    obtain ⟨e, hends⟩ := ends_restoreTable_refused h c s
    exact iff_of_false (not_passes hends) Bool.false_ne_true

theorem passes_restoreBlock_iff {first second : UInt64} (hf : s.flash.failing = false)
    (hl : Lists c s.flash.cells first second) :
    Passes (c.restoreBlock bytes) s ↔ (blockIn? bytes).isSome := by
  cases h : blockIn? bytes with
  | some b =>
    obtain ⟨restored, hends, -⟩ := block_restored h hf hl
    exact iff_of_true ⟨_, _, hends⟩ rfl
  | none =>
    obtain ⟨e, hends⟩ := ends_restoreBlock_refused h c s
    exact iff_of_false (not_passes hends) Bool.false_ne_true

/-- If a program decides whether what states of a kind hold can be used, and what can be used is held by
some state, then it would pass exactly where it can be used. -/
theorem wouldPass_iff {x : SessionM ρ EmulatedFlash α} {H : SessionState ρ EmulatedFlash → Prop}
    {long usable : Prop} (hlong : usable → long) (hheld : usable → ∃ u, H u)
    (hpasses : long → ∀ u, H u → (Passes x u ↔ usable)) : long ∧ WouldPass x H ↔ usable := by
  constructor
  · rintro ⟨hl, ⟨u, hu⟩, hall⟩
    exact (hpasses hl u hu).mp (hall u hu)
  · intro h
    exact ⟨hlong h, hheld h, fun u hu => (hpasses (hlong h) u hu).mpr h⟩

/-- Bytes hold a usable table if a device on which they are in the first window would pass a load. -/
theorem wouldPass_loadTable_iff (channel : Channel ρ) :
    tableSize ≤ bytes.length ∧ WouldPass c.loadTable (HoldsTable c (bytes.take tableSize)) ↔
      (tableIn? bytes).isSome := by
  have hlong (h : (tableIn? bytes).isSome) : tableSize ≤ bytes.length := by
    obtain ⟨t, ht⟩ := Option.isSome_iff_exists.mp h
    exact (encode_tableIn? ht).2.1
  refine wouldPass_iff hlong (fun h => ?_) fun hb u hu => ?_
  · obtain ⟨flash, hflash⟩ := exists_holding c.tableOffsets.1 (List.length_take_of_le (hlong h))
    exact ⟨{ channel, flash }, hflash⟩
  · have hstored : c.storedTable? u.flash.cells = tableIn? (bytes.take tableSize) := congrArg tableIn? hu
    rw [passes_loadTable_iff, ← tableIn?_take hb, ← hstored]
    rfl

theorem wouldPass_loadBlock_iff {first second : UInt64} (channel : Channel ρ)
    (hl : Lists c cells first second) :
    tableSize ≤ bytes.length ∧ WouldPass c.loadBlock (HoldsBlock c (bytes.take tableSize)) ↔
      (blockIn? bytes).isSome := by
  have hlong (h : (blockIn? bytes).isSome) : tableSize ≤ bytes.length := by
    obtain ⟨b, hb⟩ := Option.isSome_iff_exists.mp h
    exact (encode_blockIn? hb).2.1
  obtain ⟨t, -, hfirst, -, -⟩ := hl
  refine wouldPass_iff hlong (fun h => ?_) fun hb u hu => ?_
  · obtain ⟨flash, hflash⟩ := exists_holding first (List.length_take_of_le (hlong h))
    exact ⟨{ channel, flash, table := t }, first, hfirst, hflash⟩
  · obtain ⟨place, hplace, hslice⟩ := hu
    have hstored : c.storedBlock? u.flash.cells u.table = blockIn? (bytes.take tableSize) := by
      unfold storedBlock?
      rw [hplace, Option.bind_some, hslice]
      rfl
    rw [passes_loadBlock_iff, ← blockIn?_take hb, ← hstored]
    rfl

/-! ### Backups -/

/-- What backups of the two tables are good for. A buffer that has been filled by an export can be restored
later, in whatever state the session is and whatever is called before. -/
structure Restores [RegisterBlock ρ] (I : ρ → Prop) (c : Session ρ) : Prop where
  /-- The partition table comes back, in both windows. -/
  tableBack {φ : Type} [FlashDevice φ] [KeepsCells φ] {s saved : SessionState ρ φ} {buffer : List UInt8} :
    Ends (c.exportTable buffer.length) s (.ok (buffer.take tableSize)) saved →
    ∀ {size : ℕ} {u : SessionState ρ EmulatedFlash} (calls : List SessionCall), OnDevices I (Faultless size) u →
    Windows size c.layout.tableSpace c.tableOffsets.1 c.tableOffsets.2 →
    ∃ t records later restored, Ends c.loadTable s (.ok t) { s with table := t } ∧
      Returns (c.callAll calls) u records later ∧ Ends (c.restoreTable buffer) later (.ok ()) restored ∧
      Cells.slice restored.flash.cells c.tableOffsets.1.toNat tableSize = buffer.take tableSize ∧
      Cells.slice restored.flash.cells c.tableOffsets.2.toNat tableSize = buffer.take tableSize ∧
      Ends c.loadTable restored (.ok t) restored
  /-- The pointer block comes back, in both windows that the partition table in flash lists then. -/
  blockBack {φ : Type} [FlashDevice φ] [KeepsCells φ] {s saved : SessionState ρ φ} {buffer : List UInt8} :
    Ends (c.exportBlock buffer.length) s (.ok (buffer.take tableSize)) saved →
    ∀ {size : ℕ} {u : SessionState ρ EmulatedFlash} (calls : List SessionCall), OnDevices I (Faultless size) u →
    ∃ t b records later, Ends c.load s (.ok ()) { s with table := t, block := b } ∧
      Returns (c.callAll calls) u records later ∧
      ∀ first second, Lists c later.flash.cells first second →
        ∃ restored, Ends (c.restoreBlock buffer) later (.ok ()) restored ∧
          Cells.slice restored.flash.cells first.toNat tableSize = buffer.take tableSize ∧
          Cells.slice restored.flash.cells second.toNat tableSize = buffer.take tableSize ∧
          Ends c.loadBlock restored (.ok b) restored
  /-- Bytes are restored exactly if a device that holds them would pass a load. -/
  tableAccepted {s : SessionState ρ EmulatedFlash} (bytes : List UInt8) : s.flash.failing = false →
    Windows s.flash.cells.size c.layout.tableSpace c.tableOffsets.1 c.tableOffsets.2 →
    (Passes (c.restoreTable bytes) s ↔
      tableSize ≤ bytes.length ∧ WouldPass c.loadTable (HoldsTable c (bytes.take tableSize)))
  blockAccepted {s : SessionState ρ EmulatedFlash} {first second : UInt64} (bytes : List UInt8) :
    s.flash.failing = false → Lists c s.flash.cells first second →
    (Passes (c.restoreBlock bytes) s ↔
      tableSize ≤ bytes.length ∧ WouldPass c.loadBlock (HoldsBlock c (bytes.take tableSize)))
  /-- Bytes that are not restored there are refused on every device, and nothing is done to it. -/
  tableRefused {s : SessionState ρ EmulatedFlash} {bytes : List UInt8} : s.flash.failing = false →
    Windows s.flash.cells.size c.layout.tableSpace c.tableOffsets.1 c.tableOffsets.2 →
    ¬ Passes (c.restoreTable bytes) s →
    ∀ {φ : Type} [FlashDevice φ] (u : SessionState ρ φ), ∃ e, Ends (c.restoreTable bytes) u (.error e) u
  blockRefused {s : SessionState ρ EmulatedFlash} {first second : UInt64} {bytes : List UInt8} :
    s.flash.failing = false → Lists c s.flash.cells first second → ¬ Passes (c.restoreBlock bytes) s →
    ∀ {φ : Type} [FlashDevice φ] (u : SessionState ρ φ), ∃ e, Ends (c.restoreBlock bytes) u (.error e) u

/-- Backups can be restored, whatever the register block answers in between. -/
theorem backups_restored [RegisterBlock ρ] {I : ρ → Prop} (hI : Responsive I) (c : Session ρ)
    (hcommand : c.mailbox.commandRing.capacity ≠ 0) (hresponse : c.mailbox.responseRing.capacity ≠ 0) :
    Restores I c where
  tableBack {φ _ _ s saved buffer} hexport {size u} calls hu hw := by
    obtain ⟨t, hload, htable⟩ := table_exported hexport
    obtain ⟨records, later, hcalls, -, hf, hsize⟩ :=
      returns_callAll hI hcommand hresponse (lasting_faultless size) calls hu
    have hlong : tableSize ≤ buffer.length := by
      have hlength := (encode_tableIn? htable).2.1
      rw [List.length_take] at hlength
      omega
    -- the calls in between change the device and not the buffer, which still begins with the table
    rw [tableIn?_take hlong] at htable
    obtain ⟨restored, hrestored⟩ := table_restored (c := c) htable hf (hsize.symm ▸ hw)
    exact ⟨t, records, later, restored, hload, hcalls, hrestored⟩
  blockBack {φ _ _ s saved buffer} hexport {size u} calls hu := by
    obtain ⟨t, b, hload, hblock⟩ := block_exported hexport
    obtain ⟨records, later, hcalls, -, hf, -⟩ :=
      returns_callAll hI hcommand hresponse (lasting_faultless size) calls hu
    have hlong : tableSize ≤ buffer.length := by
      have hlength := (encode_blockIn? hblock).2.1
      rw [List.length_take] at hlength
      omega
    rw [blockIn?_take hlong] at hblock
    exact ⟨t, b, records, later, hload, hcalls, fun first second hl => block_restored hblock hf hl⟩
  tableAccepted {s} bytes hf hw := by
    rw [passes_restoreTable_iff hf hw, wouldPass_loadTable_iff s.channel]
  blockAccepted {s first second} bytes hf hl := by
    rw [passes_restoreBlock_iff hf hl, wouldPass_loadBlock_iff s.channel hl]
  tableRefused {s bytes} hf hw hno := by
    intro φ _ u
    rw [passes_restoreTable_iff hf hw, Option.not_isSome_iff_eq_none] at hno
    exact ends_restoreTable_refused hno c u
  blockRefused {s first second bytes} hf hl hno := by
    intro φ _ u
    rw [passes_restoreBlock_iff hf hl, Option.not_isSome_iff_eq_none] at hno
    exact ends_restoreBlock_refused hno c u

/-- The emulated device manager serves every access. -/
theorem responsive_emulated : Responsive EmulatedSdm.Sound where
  read offset {s} hs := ⟨_, s, (Returns.get s).bind (.pure _ s), hs⟩
  write offset value {s} hs := by
    obtain ⟨_, t, hwrite, ht, -⟩ := keeps_writeRegister offset value s hs
    exact ⟨t, hwrite, ht⟩
  delay _ {s} hs := ⟨_, EmulatedSdm.returns_tick hs, (EmulatedSdm.advances_ticked hs).sound⟩

/-- The tables of the standard layout are restored from a buffer of one byte more than they fill, after a slot
has been deleted and the pointer block forgotten. -/
theorem backups_restored_plain : ∃ records later restored,
    Returns (hostSession.callAll [.deleteSlot 0, .createEmptyBlock]) hostState records later ∧
      Ends (hostSession.restoreTable (FlashPlan.plain.table.encode ++ [7])) later (.ok ()) restored ∧
      Cells.slice restored.flash.cells 0x100000 tableSize = FlashPlan.plain.table.encode ∧
      Cells.slice restored.flash.cells 0x108000 tableSize = FlashPlan.plain.table.encode ∧
      Ends hostSession.loadTable restored (.ok FlashPlan.plain.table) restored := by
  have hrestores := backups_restored responsive_emulated hostSession (by decide) (by decide)
  have hlength : FlashPlan.plain.table.encode.length = tableSize := FlashPlan.plain.table.length_encode
  have htake : (FlashPlan.plain.table.encode ++ [7]).take tableSize = FlashPlan.plain.table.encode := by
    rw [← hlength, List.take_left]
  have hload := ends_loadTable (s := hostState) stores_hostState.table
  have hexport : Ends (hostSession.exportTable (FlashPlan.plain.table.encode ++ [7]).length) hostState
      (.ok ((FlashPlan.plain.table.encode ++ [7]).take tableSize))
      { hostState with table := FlashPlan.plain.table } := by
    have hfitting := ends_fitting (FlashPlan.plain.table.encode ++ [7]).length FlashPlan.plain.table.encode
      ({ hostState with table := FlashPlan.plain.table } : SessionState EmulatedSdm EmulatedFlash)
    rw [if_pos (by simp)] at hfitting
    rw [htake]
    exact hload.bind hfitting
  have hdevices : OnDevices EmulatedSdm.Sound (Faultless 0x140000) hostState := by
    refine ⟨Mailbox.sound_fresh, ?_⟩
    rw [flash_hostState]
    exact ⟨failing_plainFlash, size_plainFlash⟩
  obtain ⟨t, records, later, restored, hloaded, hcalls, hrestored, hfirst, hsecond, hagain⟩ :=
    hrestores.tableBack hexport [.deleteSlot 0, .createEmptyBlock] hdevices
      ⟨by decide, by decide, by decide⟩
  obtain ⟨h, -⟩ := hload.unique hloaded
  obtain rfl := Except.ok.inj h
  rw [htake] at hfirst hsecond
  exact ⟨records, later, restored, hcalls, hrestored, hfirst, hsecond, hagain⟩

end Session

end RemoteUpdate
