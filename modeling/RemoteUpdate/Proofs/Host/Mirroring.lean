import RemoteUpdate.Host.FileFlash
import RemoteUpdate.Proofs.Flash.Changes
import RemoteUpdate.Proofs.Host.Files

/-!
# A device in a file and a device in memory

A device that is kept in a file and a device in memory with the same cells are alike to every program: a call
fails on both or on neither, reads the same from both, and afterwards both hold the same, and so does the file.
-/

namespace RemoteUpdate.FileFlash

variable {f g : FileFlash} {l : FileLocation} {change : FlashChange}

/-- The device after a change that succeeds. -/
def changed (f : FileFlash) (change : FlashChange) : FileFlash :=
  { f with
    flash := f.flash.changed change
    store := f.location.elim f.store (f.store.patch · change.address ⟨change.bytes.toArray⟩) }

theorem outcome_onCells {α : Type} (x : FlashM EmulatedFlash α) (f : FileFlash) :
    (onCells x).outcome f = ((x.outcome f.flash).1, { f with flash := (x.outcome f.flash).2 }) :=
  outcome_focus _ _ x f

/-- A change is made to the cells and then to the file. -/
theorem outcome_play_ok (hfits : change.Fits f.flash.cells) (hf : f.flash.failing = false) :
    change.play.outcome f = (.ok (), f.changed change) := by
  have hcells : (onCells change.play).outcome f =
      (.ok (), { f with flash := f.flash.changed change }) := by
    rw [outcome_onCells, EmulatedFlash.outcome_play, if_pos hfits, if_neg (by rw [hf]; decide)]
  cases change with
  | erase address length =>
    refine (outcome_bind_ok hcells).trans ?_
    rw [EmulatedFlash.filled_eq]
    rfl
  | write address bytes => exact outcome_bind_ok hcells

theorem outcome_play_of_error {fault : FlashFault}
    (hcells : (onCells change.play).outcome f = (.error fault, f)) :
    change.play.outcome f = (.error fault, f) := by
  cases change with
  | erase address length => exact outcome_bind_error hcells
  | write address bytes => exact outcome_bind_error hcells

theorem outcome_play_error (hfits : ¬ change.Fits f.flash.cells) :
    change.play.outcome f = (.error .size, f) := by
  refine outcome_play_of_error ?_
  rw [outcome_onCells, EmulatedFlash.outcome_play, if_neg hfits]

theorem outcome_read (f : FileFlash) (address length : ℕ) : (FlashDevice.read address length).outcome f =
    (if address + length ≤ f.flash.cells.size then .ok (Cells.slice f.flash.cells address length)
      else .error .size, f) := by
  have hread := outcome_onCells (FlashDevice.read address length) f
  have hcells := EmulatedFlash.outcome_read f.flash address length
  refine hread.trans ?_
  exact congrArg (fun r => (r.1, { f with flash := r.2 })) hcells

/-- The device `f` is in the file at this location, next to the files that are next to the device `g`, which is
in memory only. Both hold the same and work. -/
structure Mirrors (l : FileLocation) (f g : FileFlash) : Prop where
  location : f.location = some l
  memory : g.location = none
  cells : f.flash.cells = g.flash.cells
  works : f.flash.failing = false ∧ g.flash.failing = false
  store : f.store.Adds l g.flash.cells g.store

/-- The program ends with the same result on two devices, which mirror each other afterwards. The files next to
the second one are as they were, and so is its size. -/
structure Mirrored (l : FileLocation) (x : FlashM FileFlash Unit) (f g : FileFlash)
    (r : Except FlashFault Unit) (f' g' : FileFlash) : Prop where
  first : x.outcome f = (r, f')
  second : x.outcome g = (r, g')
  mirrors : Mirrors l f' g'
  store : g'.store = g.store
  size : g'.flash.cells.size = g.flash.cells.size

namespace Mirrors

theorem capacity (h : Mirrors l f g) : FlashDevice.capacity f = FlashDevice.capacity g :=
  congrArg ByteArray.size h.cells

theorem changed (h : Mirrors l f g) (hfits : change.Fits g.flash.cells) :
    Mirrors l (f.changed change) (g.changed change) where
  location := h.location
  memory := h.memory
  cells := congrArg change.on h.cells
  works := h.works
  store := by
    have hstart : change.address ≤ g.flash.cells.size := Nat.le_trans (Nat.le_add_right _ _) hfits
    unfold FileFlash.changed
    rw [h.location, h.memory]
    exact h.store.patch hstart

/-- A change that fits is made to both devices, and another one to none. -/
theorem play (h : Mirrors l f g) (change : FlashChange) : ∃ r f' g',
    Mirrored l change.play f g r f' g' ∧ (change.Fits g.flash.cells → r = .ok ()) := by
  by_cases hfits : change.Fits g.flash.cells
  · refine ⟨.ok (), _, _, ⟨outcome_play_ok (h.cells ▸ hfits) h.works.1, outcome_play_ok hfits h.works.2,
      h.changed hfits, ?_, change.size_on hfits⟩, fun _ => rfl⟩
    unfold FileFlash.changed
    rw [h.memory]
    rfl
  · exact ⟨.error .size, f, g, ⟨outcome_play_error (h.cells ▸ hfits), outcome_play_error hfits, h, rfl, rfl⟩,
      fun h => absurd h hfits⟩

theorem playList (h : Mirrors l f g) (changes : List FlashChange) : ∃ r f' g',
    Mirrored l (playAll changes) f g r f' g' ∧
      ((∀ change ∈ changes, change.Fits g.flash.cells) → r = .ok ()) := by
  induction changes generalizing f g with
  | nil => exact ⟨.ok (), f, g, ⟨rfl, rfl, h, rfl, rfl⟩, fun _ => rfl⟩
  | cons change changes ih =>
    obtain ⟨r, f₁, g₁, hplay, hok⟩ := h.play change
    rw [playAll]
    cases r with
    | error fault =>
      refine ⟨_, f₁, g₁, ⟨outcome_bind_error hplay.first, outcome_bind_error hplay.second, hplay.mirrors,
        hplay.store, hplay.size⟩, fun hfits => ?_⟩
      exact hok (hfits change List.mem_cons_self)
    | ok _ =>
      obtain ⟨r, f', g', hrest, hoks⟩ := ih hplay.mirrors
      refine ⟨r, f', g', ⟨(outcome_bind_ok hplay.first).trans hrest.first,
        (outcome_bind_ok hplay.second).trans hrest.second, hrest.mirrors, hrest.store.trans hplay.store,
        hrest.size.trans hplay.size⟩, fun hfits => hoks fun other ho => ?_⟩
      exact (hfits other (List.mem_cons_of_mem _ ho)).of_size hplay.size

theorem read (h : Mirrors l f g) (address length : ℕ) : ∃ r,
    (FlashDevice.read address length).outcome f = (r, f) ∧
      (FlashDevice.read address length).outcome g = (r, g) := by
  refine ⟨_, outcome_read f address length, ?_⟩
  rw [outcome_read, h.cells]

end Mirrors

/-! ### Opening a device -/

variable {store : FileStore} {path : String} {found : ByteArray} {capacity : ℕ}

/-- Erased cells written to the end of a file, however many and in however many chunks, are appended to it. -/
theorem fillUp_end (h : store.Open l) (found : ByteArray) (remaining : ℕ) :
    fillUp (store.put l found) l found.size remaining =
      store.put l (found ++ Cells.filled Cells.erasedByte remaining) := by
  induction remaining using Nat.strongRecOn generalizing found with
  | ind remaining ih =>
    unfold fillUp
    split
    next hnone => rw [hnone, Cells.filled, if_pos rfl, ByteArray.append_empty]
    next hsome =>
      have hchunk : 0 < fillChunk := by decide
      have hfile : (store.put l found).node l = .file found := by rw [FileStore.node_put h, if_pos rfl]
      have hrest := ih (remaining - min remaining fillChunk) (by omega)
        (found ++ Cells.filled Cells.erasedByte (min remaining fillChunk))
      rw [ByteArray.size_append, Cells.size_filled, ByteArray.append_assoc, Cells.filled_append,
        Nat.add_sub_cancel' (Nat.min_le_left _ _)] at hrest
      dsimp only
      rw [FileStore.patch_end hfile, FileStore.put_put, hrest]

/-- A path leads to a place for a file if there is a file or nothing at its end. -/
theorem open_of_found (hpath : store.locateNew path = .ok l)
    (hfound : store.node l = .file found ∨ store.node l = .missing ∧ found = .empty) : store.Open l := by
  obtain hnode | ⟨hnode, -⟩ := hfound
  · exact FileStore.open_of_file hnode
  · refine FileStore.open_of_locate (FileStore.locateNew_eq_ok hpath).1 ?_
    rintro rfl
    cases hnode.symm.trans FileStore.node_sink

/-- A file that is not too long is filled up with erased cells. -/
theorem open_eq (hpath : store.locateNew path = .ok l)
    (hfound : store.node l = .file found ∨ store.node l = .missing ∧ found = .empty)
    (hsize : found.size ≤ capacity) : open? store path capacity = .ok {
      flash := { cells := found ++ Cells.filled Cells.erasedByte (capacity - found.size) }
      store := store.put l (found ++ Cells.filled Cells.erasedByte (capacity - found.size))
      location := some l } := by
  have hopen : store.Open l := open_of_found hpath hfound
  have hread : (store.put l (found ++ Cells.filled Cells.erasedByte (capacity - found.size))).readFront l
      capacity = .ok (found ++ Cells.filled Cells.erasedByte (capacity - found.size)) := by
    have hfull : (found ++ Cells.filled Cells.erasedByte (capacity - found.size)).size = capacity := by
      rw [ByteArray.size_append, Cells.size_filled, Nat.add_sub_cancel' hsize]
    unfold FileStore.readFront
    rw [FileStore.node_put hopen, if_pos rfl]
    generalize found ++ Cells.filled Cells.erasedByte (capacity - found.size) = full at hfull ⊢
    dsimp only
    rw [if_pos (Nat.le_of_eq hfull.symm), ← hfull, ByteArray.extract_zero_size]
  unfold open?
  rw [hpath]
  simp only [bind, Except.bind]
  obtain hnode | ⟨hnode, rfl⟩ := hfound <;>
  · rw [hnode]
    simp only
    rw [if_neg (Nat.not_lt.mpr hsize), fillUp_end hopen, hread]

theorem open_missing (hpath : store.locateNew path = .ok l) (hmissing : store.node l = .missing)
    (capacity : ℕ) : ∃ f, open? store path capacity = .ok f ∧ Mirrors l f (inMemory store capacity) := by
  have hsink : l ≠ FileStore.sinkLocation := by
    rintro rfl
    cases hmissing.symm.trans FileStore.node_sink
  refine ⟨_, open_eq hpath (.inr ⟨hmissing, rfl⟩) (Nat.zero_le _), ?_⟩
  have hblank : ByteArray.empty ++ Cells.filled Cells.erasedByte (capacity - ByteArray.empty.size) =
      (inMemory store capacity).flash.cells := ByteArray.empty_append
  rw [hblank]
  exact ⟨rfl, rfl, rfl, ⟨rfl, rfl⟩, FileStore.adds_put
    (FileStore.open_of_locate (FileStore.locateNew_eq_ok hpath).1 hsink) hmissing _⟩

/-- A device whose file holds what another device holds mirrors it. -/
theorem open_file (hpath : store.locateNew path = .ok l) (hstore : store.Adds l g.flash.cells g.store)
    (hmemory : g.location = none) (hworks : g.flash.failing = false) :
    ∃ f, open? store path g.flash.cells.size = .ok f ∧ Mirrors l f g := by
  refine ⟨_, open_eq hpath (.inl hstore.file) (Nat.le_refl _), ?_⟩
  have hfull : g.flash.cells ++ Cells.filled Cells.erasedByte (g.flash.cells.size - g.flash.cells.size) =
      g.flash.cells := by
    rw [Nat.sub_self, Cells.filled, if_pos rfl, ByteArray.append_empty]
  rw [hfull]
  exact ⟨rfl, hmemory, rfl, ⟨rfl, hworks⟩, hstore.put _⟩

end RemoteUpdate.FileFlash
