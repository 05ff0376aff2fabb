import RemoteUpdate.Proofs.Flash.Changes

/-!
# Calls that tear what they address

`TornFlash` is a device on which a call that fails, to read, to write or to erase, leaves any bytes in the
range that it addresses. Nothing outside that range is lost.
-/

namespace RemoteUpdate

variable {α : Type}

/-- The cells are as many as before, and the same outside a range. -/
structure TornIn (a n : ℕ) (cells cells' : ByteArray) : Prop where
  size : cells'.size = cells.size
  outside : ∀ b k, Cells.Apart a n b k → Cells.slice cells' b k = Cells.slice cells b k

theorem TornIn.refl (a n : ℕ) (cells : ByteArray) : TornIn a n cells cells :=
  ⟨rfl, fun _ _ _ => rfl⟩

namespace Cells

/-- The cells with other bytes in a range, given by their addresses. -/
def torn (cells : ByteArray) (a n : ℕ) (residue : ℕ → UInt8) : ByteArray :=
  ⟨.ofFn fun i : Fin cells.size => if a ≤ i ∧ i < a + n then residue i else cells[i]⟩

theorem tornIn_torn (cells : ByteArray) (a n : ℕ) (residue : ℕ → UInt8) :
    TornIn a n cells (torn cells a n residue) := by
  refine ⟨Array.size_ofFn, fun b k hd => List.ext_getElem? fun i => ?_⟩
  rw [slice_eq, slice_eq, List.getElem?_take, List.getElem?_take]
  split
  next hi =>
    have hout : ¬ (a ≤ b + i ∧ b + i < a + n) := by
      unfold Apart at hd
      omega
    rw [List.getElem?_drop, List.getElem?_drop, Array.getElem?_toList, Array.getElem?_toList, torn,
      Array.getElem?_ofFn]
    simp only [hout, if_false]
    split
    next hlt => exact (Array.getElem?_eq_getElem hlt).symm
    next hge => exact (Array.getElem?_eq_none (Nat.not_lt.mp hge)).symm
  next => rfl

end Cells

/-- A device on which calls fail by a schedule and tear the range that they address. -/
structure TornFlash where
  device : EmulatedFlash
  /-- How each call fails, if it does, and what it leaves in its range. Calls are counted from zero. -/
  schedule : ℕ → Option (FlashFault × (ℕ → UInt8))
  /-- How many calls have been made. -/
  calls : ℕ := 0

namespace TornFlash

/-- The device with one more call counted. -/
def counting (f : TornFlash) : TornFlash :=
  { f with calls := f.calls + 1 }

/-- The device with a range torn. -/
def tearing (f : TornFlash) (a n : ℕ) (residue : ℕ → UInt8) : TornFlash :=
  { f with device := { f.device with cells := Cells.torn f.device.cells a n residue } }

/-- Makes a call that addresses a range, unless the schedule says otherwise. -/
def attempt (a n : ℕ) (x : FlashM EmulatedFlash α) : FlashM TornFlash α := do
  let f ← get
  match f.schedule f.calls with
  | some (fault, residue) =>
    set (f.counting.tearing a n residue)
    throw fault
  | none =>
    set f.counting
    x.focus device fun device f => { f with device }

instance : FlashDevice TornFlash where
  capacity f := FlashDevice.capacity f.device
  read a n := attempt a n (FlashDevice.read a n)
  write a bytes := attempt a bytes.length (FlashDevice.write a bytes)
  erase a n := attempt a n (FlashDevice.erase a n)

theorem outcome_attempt (f : TornFlash) (a n : ℕ) (x : FlashM EmulatedFlash α) :
    (attempt a n x).outcome f = match f.schedule f.calls with
      | some (fault, residue) => (.error fault, f.counting.tearing a n residue)
      | none => ((x.outcome f.device).1, { f.counting with device := (x.outcome f.device).2 }) := by
  unfold attempt
  refine (outcome_bind_ok (outcome_get f)).trans ?_
  cases f.schedule f.calls with
  | some cut => rfl
  | none => rfl

/-- A range is read and nothing changes, or it is torn. -/
theorem read_cases (f : TornFlash) (a n : ℕ) : ∃ r f', (FlashDevice.read a n).outcome f = (r, f') ∧
    match r with
    | .ok bytes => bytes = Cells.slice f.device.cells a n ∧ f'.device.cells = f.device.cells
    | .error _ => TornIn a n f.device.cells f'.device.cells := by
  have h := outcome_attempt f a n (FlashDevice.read a n)
  refine ⟨_, _, h, ?_⟩
  cases f.schedule f.calls with
  | some cut => exact Cells.tornIn_torn _ _ _ _
  | none =>
    dsimp only
    rw [show (FlashDevice.read a n : FlashM EmulatedFlash _).outcome f.device = _ from
      EmulatedFlash.outcome_read f.device a n]
    split
    next heq =>
      split at heq
      · exact ⟨(Except.ok.inj heq).symm, rfl⟩
      · cases heq
    next => exact .refl _ _ _

theorem play_cases (f : TornFlash) (change : FlashChange) : ∃ r f', change.play.outcome f = (r, f') ∧
    match r with
    | .ok _ => change.Fits f.device.cells ∧ f'.device.cells = change.on f.device.cells
    | .error _ => TornIn change.address change.length f.device.cells f'.device.cells := by
  have hp : change.play.outcome f =
      (attempt change.address change.length change.play).outcome f := by
    cases change <;> rfl
  refine ⟨_, _, hp.trans (outcome_attempt f _ _ _), ?_⟩
  cases f.schedule f.calls with
  | some cut => exact Cells.tornIn_torn _ _ _ _
  | none =>
    rcases ho : change.play.outcome f.device with ⟨fault | ⟨⟨⟩⟩, g⟩
    · have hcells : g.cells = f.device.cells := KeepsCells.of_error ho
      show TornIn _ _ f.device.cells g.cells
      rw [hcells]
      exact .refl _ _ _
    · exact KeepsCells.of_ok ho

end TornFlash

end RemoteUpdate
