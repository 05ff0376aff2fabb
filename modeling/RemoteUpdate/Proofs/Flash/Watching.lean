import Mathlib.Logic.Relation
import RemoteUpdate.Flash.Faults
import RemoteUpdate.Proofs.Flash.Changes

/-!
# A device that is watched

`WatchedFlash` lets every call through to a device and remembers which calls were made, those that fail
included. `OnlyRead` says that all calls made of a device were reads, and `FixedCapacity` says of a device that
it always keeps as many bytes.
-/

namespace RemoteUpdate

variable {φ α : Type}

/-- A call of a flash device, and the range it addresses. -/
structure FlashAccess where
  call : FlashCall
  address : ℕ
  length : ℕ
deriving DecidableEq, Repr

/-- A flash device, and the calls made so far, oldest first. -/
structure WatchedFlash (φ : Type) where
  device : φ
  accesses : List FlashAccess := []

namespace WatchedFlash

def record (a : FlashAccess) (x : FlashM φ α) : FlashM (WatchedFlash φ) α := do
  modify fun w => { w with accesses := w.accesses ++ [a] }
  x.focus device fun device w => { w with device }

theorem outcome_record (a : FlashAccess) (x : FlashM φ α) (w : WatchedFlash φ) :
    (record a x).outcome w = ((x.outcome w.device).1, ⟨(x.outcome w.device).2, w.accesses ++ [a]⟩) := rfl

end WatchedFlash

instance [FlashDevice φ] : FlashDevice (WatchedFlash φ) where
  capacity w := FlashDevice.capacity w.device
  read address length := WatchedFlash.record ⟨.read, address, length⟩ (FlashDevice.read address length)
  write address bytes := WatchedFlash.record ⟨.write, address, bytes.length⟩ (FlashDevice.write address bytes)
  erase address length := WatchedFlash.record ⟨.erase, address, length⟩ (FlashDevice.erase address length)

/-! ### Reads -/

section Reads

variable [FlashDevice φ]

/-- One device is what a single read leaves of another, whether the read succeeds or fails. -/
def ReadOnce (f g : φ) : Prop :=
  ∃ address length, g = ((FlashDevice.read address length).outcome f).2

/-- One device is what some reads leave of another. -/
abbrev OnlyRead : φ → φ → Prop :=
  Relation.ReflTransGen ReadOnce

theorem OnlyRead.keeps {γ : Type} {contents : φ → γ} {f g : φ}
    (hread : ∀ f address length, contents ((FlashDevice.read address length).outcome f).2 = contents f)
    (h : OnlyRead f g) : contents g = contents f := by
  induction h with
  | refl => rfl
  | tail _ hone ih =>
    obtain ⟨address, length, rfl⟩ := hone
    rw [hread, ih]

theorem OnlyRead.watched {w w' : WatchedFlash φ} (h : OnlyRead w w') : OnlyRead w.device w'.device ∧
    ∃ accesses, w'.accesses = w.accesses ++ accesses ∧ ∀ a ∈ accesses, a.call = .read := by
  induction h with
  | refl => exact ⟨.refl, [], (List.append_nil _).symm, by simp⟩
  | tail _ hone ih =>
    obtain ⟨address, length, rfl⟩ := hone
    obtain ⟨hdevice, accesses, hlog, hreads⟩ := ih
    refine ⟨hdevice.tail ⟨address, length, rfl⟩, accesses ++ [⟨.read, address, length⟩], ?_, ?_⟩
    · rw [← List.append_assoc, ← hlog]
      rfl
    · exact List.forall_mem_append.mpr ⟨hreads, List.forall_mem_singleton.mpr rfl⟩

/-- What no read of a device changes, no read through a layer of faults changes. -/
theorem FaultyFlash.read_keeps {γ : Type} {contents : φ → γ}
    (hread : ∀ f address length, contents ((FlashDevice.read address length).outcome f).2 = contents f)
    (f : FaultyFlash φ) (address length : ℕ) :
    contents ((FlashDevice.read address length).outcome f).2.device = contents f.device := by
  -- showing stuck cells comes after the read
  have hsame : ((FlashDevice.read address length).outcome f).2 =
      ((guarded .read (FlashDevice.read address length)).outcome f).2 := by
    rcases hg : (guarded .read (FlashDevice.read address length)).outcome f with ⟨fault | bytes, g⟩
    · exact congrArg Prod.snd (outcome_bind_error hg)
    · exact (congrArg Prod.snd (outcome_bind_ok hg)).trans rfl
  rw [hsame, guarded, outcome_bind_ok (outcome_get f)]
  rcases takeFault .read f.planned with ⟨_ | fault, planned⟩
  · exact hread f.device address length
  · rfl

/-- Where no read is planned to fail and no cell is stuck, reads get through. -/
theorem FaultyFlash.outcome_read {f : FaultyFlash φ} {g : φ} {bytes : List UInt8} {address length : ℕ}
    (hplanned : takeFault .read f.planned = (none, f.planned)) (hstuck : f.stuck = [])
    (h : (FlashDevice.read address length).outcome f.device = (.ok bytes, g)) :
    (FlashDevice.read address length).outcome f = (.ok bytes, { f with device := g }) := by
  have hguarded : (guarded .read (FlashDevice.read address length)).outcome f =
      (.ok bytes, { f with device := g }) := by
    rw [guarded, outcome_bind_ok (outcome_get f), hplanned]
    exact congrArg (fun r => (r.1, { f with device := r.2 })) h
  refine (outcome_bind_ok hguarded).trans ?_
  show (Except.ok (showStuck f.stuck address bytes), _) = _
  rw [hstuck]
  rfl

end Reads

/-! ### Devices of one size -/

/-- No call changes how many bytes the device keeps. -/
class FixedCapacity (φ : Type) [FlashDevice φ] : Prop where
  read (f : φ) (address length : ℕ) :
    FlashDevice.capacity ((FlashDevice.read address length).outcome f).2 = FlashDevice.capacity f
  write (f : φ) (address : ℕ) (bytes : List UInt8) :
    FlashDevice.capacity ((FlashDevice.write address bytes).outcome f).2 = FlashDevice.capacity f
  erase (f : φ) (address length : ℕ) :
    FlashDevice.capacity ((FlashDevice.erase address length).outcome f).2 = FlashDevice.capacity f

/-- A device that changes only by the changes that are made to it keeps as many bytes. -/
theorem KeepsCells.capacity_play [FlashDevice φ] [KeepsCells φ] (change : FlashChange) (f : φ) :
    FlashDevice.capacity (change.play.outcome f).2 = FlashDevice.capacity f := by
  rw [KeepsCells.capacity_eq, KeepsCells.capacity_eq]
  rcases hp : (change.play : FlashM φ Unit).outcome f with ⟨fault | ⟨⟨⟩⟩, f'⟩
  · rw [KeepsCells.of_error hp]
  · obtain ⟨hfits, hcells⟩ := KeepsCells.of_ok hp
    rw [hcells, FlashChange.size_on hfits]

instance [FlashDevice φ] [KeepsCells φ] : FixedCapacity φ where
  read f address length := by rw [KeepsCells.read_eq]
  write f address bytes := KeepsCells.capacity_play (.write address bytes) f
  erase f address length := KeepsCells.capacity_play (.erase address length) f

end RemoteUpdate
