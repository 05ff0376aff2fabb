import RemoteUpdate.Proofs.Host.Mirroring

/-!
# What stays in the file of a device

A file that is opened as a device is filled up with erased cells. Whatever is read, written or erased from then
on, the file holds what the device holds, and a call that is refused or fails changes neither. Opened again with
as much room or more, the file is the same device with erased cells behind it.
-/

namespace RemoteUpdate.FileFlash

variable {store : FileStore} {l : FileLocation} {path : String} {f : FileFlash} {change : FlashChange}
  {found : ByteArray} {capacity : ℕ}

/-! ### Calls of a device -/

/-- What can be done with a device. -/
inductive Call where
  | read (address length : ℕ)
  | change (change : FlashChange)
  /-- Writes and erases are made to fail, or to work again. -/
  | inject (failing : Bool)

namespace Call

/-- Makes the call. Only a read gives bytes. -/
def perform : Call → FlashM FileFlash (List UInt8)
  | .read address length => FlashDevice.read address length
  | .change change => do
    change.play
    return []
  | .inject failing => do
    modify fun f => { f with flash := f.flash.setFailing failing }
    return []

/-- How the call fails, unless it succeeds: its range is looked at first. -/
def fault? (flash : EmulatedFlash) : Call → Option FlashFault
  | .read address length => if address + length ≤ flash.cells.size then none else some .size
  | .change change =>
    if change.Fits flash.cells then if flash.failing then some .failed else none else some .size
  | .inject _ => none

def answer (flash : EmulatedFlash) : Call → List UInt8
  | .read address length => Cells.slice flash.cells address length
  | .change _ | .inject _ => []

/-- The device in memory after a call that succeeds. -/
def on (flash : EmulatedFlash) : Call → EmulatedFlash
  | .read .. => flash
  | .change change => flash.changed change
  | .inject failing => flash.setFailing failing

end Call

def after (calls : List Call) (f : FileFlash) : FileFlash :=
  calls.foldl (fun f call => (call.perform.outcome f).2) f

theorem outcome_play_failed (hfits : change.Fits f.flash.cells) (hf : f.flash.failing = true) :
    change.play.outcome f = (.error .failed, f) := by
  refine outcome_play_of_error ?_
  rw [outcome_onCells, EmulatedFlash.outcome_play, if_pos hfits, if_pos hf]

/-- A call that fails leaves everything alone. -/
theorem outcome_perform_error {call : Call} {fault : FlashFault} (h : call.fault? f.flash = some fault) :
    call.perform.outcome f = (.error fault, f) := by
  cases call with
  | read address length =>
    simp only [Call.fault?] at h
    show (FlashDevice.read address length).outcome f = _
    rw [outcome_read]
    split at h
    next hin => cases h
    next hout => rw [if_neg hout, Option.some.inj h]
  | change change =>
    simp only [Call.fault?] at h
    refine outcome_bind_error ?_
    split at h
    next hfits =>
      split at h
      next hfailing => rw [outcome_play_failed hfits hfailing, Option.some.inj h]
      next => cases h
    next hout => rw [outcome_play_error hout, Option.some.inj h]
  | inject failing => cases h

/-! ### The file of a device -/

/-- The device is in the file at this location and holds what the file holds. All other files are as in the
store. -/
structure KeptIn (store : FileStore) (l : FileLocation) (f : FileFlash) : Prop where
  location : f.location = some l
  start : f.store.workingDirectory = store.workingDirectory
  file : f.store.node l = .file f.flash.cells
  others : ∀ l', l' ≠ l → f.store.node l' = store.node l'

namespace KeptIn

theorem changed (h : KeptIn store l f) (hfits : change.Fits f.flash.cells) :
    KeptIn store l (f.changed change) := by
  have hstart : change.address ≤ f.flash.cells.size := Nat.le_trans (Nat.le_add_right _ _) hfits
  have hopen : f.store.Open l := FileStore.open_of_file h.file
  have hstore : (f.changed change).store = f.store.put l (change.on f.flash.cells) := by
    unfold FileFlash.changed FlashChange.on
    rw [h.location]
    exact FileStore.patch_file h.file hstart _
  refine ⟨h.location, ?_, ?_, fun l' hne => ?_⟩
  · rw [hstore]
    exact h.start
  · rw [hstore, FileStore.node_put hopen, if_pos rfl]
    rfl
  · rw [hstore, FileStore.node_put hopen, if_neg hne, h.others l' hne]

/-- A call that succeeds does to the file what it does to the device in memory. -/
theorem perform_ok {call : Call} (h : KeptIn store l f) (hfault : call.fault? f.flash = none) :
    ∃ f', call.perform.outcome f = (.ok (call.answer f.flash), f') ∧ f'.flash = call.on f.flash ∧
      f'.flash.cells.size = f.flash.cells.size ∧ KeptIn store l f' := by
  cases call with
  | read address length =>
    simp only [Call.fault?] at hfault
    split at hfault
    next hin =>
      refine ⟨f, ?_, rfl, rfl, h⟩
      show (FlashDevice.read address length).outcome f = _
      rw [outcome_read, if_pos hin]
      rfl
    next => cases hfault
  | change change =>
    simp only [Call.fault?] at hfault
    split at hfault
    next hfits =>
      split at hfault
      next => cases hfault
      next hworks =>
        exact ⟨f.changed change, outcome_bind_ok (outcome_play_ok hfits (Bool.eq_false_iff.mpr hworks)),
          rfl, change.size_on hfits, h.changed hfits⟩
    next => cases hfault
  | inject failing => exact ⟨{ f with flash := f.flash.setFailing failing }, rfl, rfl, rfl,
      h.location, h.start, h.file, h.others⟩

/-- Whatever a call does, the device stays in its file, as large as it was. -/
theorem perform (h : KeptIn store l f) (call : Call) :
    KeptIn store l (call.perform.outcome f).2 ∧
      (call.perform.outcome f).2.flash.cells.size = f.flash.cells.size := by
  cases hfault : call.fault? f.flash with
  | some fault =>
    rw [outcome_perform_error hfault]
    exact ⟨h, rfl⟩
  | none =>
    obtain ⟨f', houtcome, -, hsize, h'⟩ := h.perform_ok hfault
    rw [houtcome]
    exact ⟨h', hsize⟩

theorem after (h : KeptIn store l f) (calls : List Call) :
    KeptIn store l (f.after calls) ∧ (f.after calls).flash.cells.size = f.flash.cells.size := by
  induction calls generalizing f with
  | nil => exact ⟨h, rfl⟩
  | cons call calls ih =>
    obtain ⟨hcall, hsize⟩ := h.perform call
    obtain ⟨hcalls, hsizes⟩ := ih hcall
    exact ⟨hcalls, hsizes.trans hsize⟩

theorem leads (h : KeptIn store l f) (hpath : store.locateNew path = .ok l)
    (hl : store.node l ≠ .directory) : f.store.locateNew path = .ok l := by
  refine (FileStore.locateNew_eq_ok hpath).2 ⟨h.start.symm, fun l' => ?_⟩
  by_cases hne : l' = l
  · rw [hne, h.file]
    exact ⟨fun hdir => absurd hdir hl, nofun⟩
  · rw [h.others l' hne]

end KeptIn

/-- A file that is not too long is opened as a device that holds the file and erased cells behind it. -/
theorem open_ok (hpath : store.locateNew path = .ok l)
    (hfound : store.node l = .file found ∨ store.node l = .missing ∧ found = .empty)
    (hsize : found.size ≤ capacity) : ∃ f, open? store path capacity = .ok f ∧ f.flash.failing = false ∧
      f.flash.cells.data.toList = found.data.toList ++ List.replicate (capacity - found.size) 0xff ∧
      f.flash.cells.size = capacity ∧ KeptIn store l f := by
  have hopen : store.Open l := open_of_found hpath hfound
  refine ⟨_, open_eq hpath hfound hsize, rfl, ?_, ?_, rfl, rfl, ?_, fun l' hne => ?_⟩
  · rw [ByteArray.data_append, Array.toList_append, Cells.toList_filled]
    rfl
  · rw [ByteArray.size_append, Cells.size_filled, Nat.add_sub_cancel' hsize]
  · rw [FileStore.node_put hopen, if_pos rfl]
  · rw [FileStore.node_put hopen, if_neg hne]

theorem open_tooLarge (hpath : store.locateNew path = .ok l)
    (hfound : store.node l = .file found ∨ store.node l = .missing ∧ found = .empty)
    (hsize : capacity < found.size) :
    open? store path capacity = .error (.tooLarge found.size capacity) := by
  unfold open?
  rw [hpath]
  simp only [bind, Except.bind]
  obtain hnode | ⟨-, rfl⟩ := hfound
  · rw [hnode]
    simp only
    rw [if_pos hsize]
  · cases hsize

/-! ### Runs of calls -/

/-- What is to be said of a device of so many bytes whenever its file, at the end of a path, is looked at: the
file holds what the device in memory holds, and is the same device when it is opened again. -/
structure Persists (store : FileStore) (path : String) (l : FileLocation) (capacity : ℕ) (g : FileFlash) :
    Prop where
  size : g.flash.cells.size = capacity
  file : g.store.node l = .file g.flash.cells
  others : ∀ l', l' ≠ l → g.store.node l' = store.node l'
  /-- A call that is refused or fails changes nothing. -/
  refused : ∀ (call : Call) (fault : FlashFault), call.fault? g.flash = some fault →
    call.perform.outcome g = (.error fault, g)
  /-- Another call does what it does to a device in memory. -/
  done : ∀ call : Call, call.fault? g.flash = none →
    ∃ g', call.perform.outcome g = (.ok (call.answer g.flash), g') ∧ g'.flash = call.on g.flash
  /-- Opened again, with as much room or more. -/
  reopened : ∀ capacity', capacity ≤ capacity' → ∃ h, open? g.store path capacity' = .ok h ∧
    h.flash.cells.data.toList =
      g.flash.cells.data.toList ++ List.replicate (capacity' - capacity) 0xff ∧
    h.store.node l = .file h.flash.cells

theorem KeptIn.persists (h : KeptIn store l f) (hpath : store.locateNew path = .ok l)
    (hl : store.node l ≠ .directory) (hsize : f.flash.cells.size = capacity) :
    Persists store path l capacity f where
  size := hsize
  file := h.file
  others := h.others
  refused _ _ := outcome_perform_error
  done _ hfault := by
    obtain ⟨f', houtcome, hflash, -, -⟩ := h.perform_ok hfault
    exact ⟨f', houtcome, hflash⟩
  reopened capacity' hroom := by
    subst hsize
    obtain ⟨g, hopen, -, hcells, -, hkept⟩ := open_ok (h.leads hpath hl) (.inl h.file) hroom
    exact ⟨g, hopen, hcells, hkept.file⟩

/-- **A device in a file persists**: a file of any length, or one that is missing, is opened as a device that
holds the file and then erased cells, unless it is longer than the device. After any calls, refused, failing or
not, the file holds what the device holds, and so does the device that is opened again. -/
theorem open_persists (hpath : store.locateNew path = .ok l)
    (hfound : store.node l = .file found ∨ store.node l = .missing ∧ found = .empty) (capacity : ℕ) :
    (capacity < found.size → open? store path capacity = .error (.tooLarge found.size capacity)) ∧
    (found.size ≤ capacity → ∃ f, open? store path capacity = .ok f ∧ f.flash.failing = false ∧
      f.flash.cells.data.toList = found.data.toList ++ List.replicate (capacity - found.size) 0xff ∧
      ∀ calls, Persists store path l capacity (f.after calls)) := by
  refine ⟨open_tooLarge hpath hfound, fun hsize => ?_⟩
  obtain ⟨f, hopen, hworks, hcells, hfull, hkept⟩ := open_ok hpath hfound hsize
  have hl : store.node l ≠ .directory := by
    obtain hnode | ⟨hnode, -⟩ := hfound <;>
    · rw [hnode]
      nofun
  refine ⟨f, hopen, hworks, hcells, fun calls => ?_⟩
  obtain ⟨hcalls, hsame⟩ := hkept.after calls
  exact hcalls.persists hpath hl (hsame.trans hfull)

def shortImage : FileStore where
  files := [(["flash.bin"], ⟨#[0x12, 0x34]⟩), (["other.bin"], ⟨#[0x56]⟩)]

theorem open_persists_shortImage : ∃ f, open? shortImage "flash.bin" 0x200002 = .ok f ∧
    f.flash.failing = false ∧
    f.flash.cells.data.toList = [0x12, 0x34] ++ List.replicate 0x200000 0xff ∧
    ∀ calls, Persists shortImage "flash.bin" ["flash.bin"] 0x200002 (f.after calls) :=
  have hfound : shortImage.node ["flash.bin"] = .file ⟨#[0x12, 0x34]⟩ := rfl
  (open_persists rfl (.inl hfound) 0x200002).2 (by decide)

end RemoteUpdate.FileFlash
