import RemoteUpdate.Flash.Emulated
import RemoteUpdate.Proofs.Flash.Cells

/-!
# Changes of a flash device

What programs do to a device is a list of `FlashChange`s, each of which erases or writes one range.
A device keeps cells if its calls do to them what they should, or fail and leave them alone: so does
the emulated device, and so does `ScheduledFlash`, which makes calls fail by a schedule and remembers
which cells each of them found. What `Meets` says of a list of changes holds of every such call.
-/

namespace RemoteUpdate

variable {φ ψ α β : Type}

/-! ### Outcomes -/

/-- What a program on a device gives, and the device afterwards. -/
def FlashM.outcome (x : FlashM φ α) (f : φ) : Except FlashFault α × φ := x.run.run f

theorem outcome_get (f : φ) : (get : FlashM φ φ).outcome f = (.ok f, f) := rfl

theorem outcome_set (f g : φ) : (set g : FlashM φ PUnit).outcome f = (.ok ⟨⟩, g) := rfl

theorem outcome_bind_ok {x : FlashM φ α} {g : α → FlashM φ β} {f f' : φ} {a : α}
    (h : x.outcome f = (.ok a, f')) : (x >>= g).outcome f = (g a).outcome f' := by
  unfold FlashM.outcome at h ⊢
  simp only [ExceptT.run_bind, StateT.run_bind, h]
  rfl

theorem outcome_bind_error {x : FlashM φ α} {g : α → FlashM φ β} {f f' : φ} {fault : FlashFault}
    (h : x.outcome f = (.error fault, f')) : (x >>= g).outcome f = (.error fault, f') := by
  unfold FlashM.outcome at h ⊢
  simp only [ExceptT.run_bind, StateT.run_bind, h]
  rfl

theorem outcome_focus (get : ψ → φ) (set : φ → ψ → ψ) (x : FlashM φ α) (t : ψ) :
    (x.focus get set).outcome t = ((x.outcome (get t)).1, set (x.outcome (get t)).2 t) := rfl

/-! ### Changes -/

/-- One change of the cells of a device. -/
inductive FlashChange where
  /-- Erases a range. -/
  | erase (address length : ℕ)
  /-- Replaces the bytes from an address on. -/
  | write (address : ℕ) (bytes : List UInt8)

namespace FlashChange

/-- First address of the range. -/
def address : FlashChange → ℕ
  | erase address _ | write address _ => address

def length : FlashChange → ℕ
  | erase _ length => length
  | write _ bytes => bytes.length

def bytes : FlashChange → List UInt8
  | erase _ length => List.replicate length Cells.erasedByte
  | write _ bytes => bytes

theorem length_bytes (change : FlashChange) : change.bytes.length = change.length := by
  cases change <;> simp [bytes, length]

def on (change : FlashChange) (cells : ByteArray) : ByteArray :=
  Cells.patch cells change.address ⟨change.bytes.toArray⟩

/-- The range is one of the device. -/
def Fits (change : FlashChange) (cells : ByteArray) : Prop :=
  change.address + change.length ≤ cells.size

instance (change : FlashChange) (cells : ByteArray) : Decidable (change.Fits cells) :=
  inferInstanceAs (Decidable (_ ≤ _))

/-- The change stays within a range. -/
def Inside (change : FlashChange) (a n : ℕ) : Prop :=
  a ≤ change.address ∧ change.address + change.length ≤ a + n

variable {change : FlashChange} {cells : ByteArray} {a n : ℕ}

theorem Inside.apart {b k : ℕ} (h : change.Inside a n) (hd : Cells.Apart a n b k) :
    Cells.Apart change.address change.length b k := by
  obtain ⟨hlow, hhigh⟩ := h
  unfold Cells.Apart at hd ⊢
  omega

theorem Fits.of_size {other : ByteArray} (h : change.Fits cells) (hs : other.size = cells.size) :
    change.Fits other := by
  unfold Fits at h ⊢
  rwa [hs]

theorem size_on (h : change.Fits cells) : (change.on cells).size = cells.size := by
  refine Cells.size_patch ?_
  show change.address + change.bytes.length ≤ _
  rwa [length_bytes]

theorem slice_on (h : change.Fits cells) :
    Cells.slice (change.on cells) change.address change.length = change.bytes := by
  have hs : (⟨change.bytes.toArray⟩ : ByteArray).size = change.length := change.length_bytes
  have h' : change.address + (⟨change.bytes.toArray⟩ : ByteArray).size ≤ cells.size := by rwa [hs]
  have := Cells.slice_patch_self h'
  rwa [hs] at this

theorem slice_on_apart (h : change.Fits cells) (hd : Cells.Apart change.address change.length a n) :
    Cells.slice (change.on cells) a n = Cells.slice cells a n := by
  have hs : (⟨change.bytes.toArray⟩ : ByteArray).size = change.length := change.length_bytes
  exact Cells.slice_patch_apart (by rwa [hs]) (by rwa [hs])

/-- Makes the change. -/
def play [FlashDevice φ] : FlashChange → FlashM φ Unit
  | erase address length => FlashDevice.erase address length
  | write address bytes => FlashDevice.write address bytes

end FlashChange

/-- Makes the changes in order, up to the first that fails. -/
def playAll [FlashDevice φ] : List FlashChange → FlashM φ Unit
  | [] => pure ()
  | change :: rest => do
    change.play
    playAll rest

def afterAll (changes : List FlashChange) (cells : ByteArray) : ByteArray :=
  changes.foldl (fun cells change => change.on cells) cells

theorem afterAll_append (changes rest : List FlashChange) (cells : ByteArray) :
    afterAll (changes ++ rest) cells = afterAll rest (afterAll changes cells) :=
  List.foldl_append

theorem size_afterAll {changes : List FlashChange} {cells : ByteArray}
    (h : ∀ change ∈ changes, change.Fits cells) : (afterAll changes cells).size = cells.size := by
  induction changes generalizing cells with
  | nil => rfl
  | cons change changes ih =>
    have hsize := FlashChange.size_on (h change List.mem_cons_self)
    exact (ih fun other ho => (h other (List.mem_cons_of_mem _ ho)).of_size hsize).trans hsize

theorem FlashChange.Fits.afterAll {changes : List FlashChange} {change : FlashChange}
    {cells : ByteArray} (h : change.Fits cells) (hfit : ∀ other ∈ changes, other.Fits cells) :
    change.Fits (afterAll changes cells) :=
  h.of_size (size_afterAll hfit)

theorem slice_afterAll_apart {changes : List FlashChange} {cells : ByteArray} {a n : ℕ}
    (h : ∀ change ∈ changes, change.Fits cells)
    (hd : ∀ change ∈ changes, Cells.Apart change.address change.length a n) :
    Cells.slice (afterAll changes cells) a n = Cells.slice cells a n := by
  induction changes generalizing cells with
  | nil => rfl
  | cons change changes ih =>
    have hfit := h change List.mem_cons_self
    refine (ih ?_ fun other ho => hd other (List.mem_cons_of_mem _ ho)).trans
      (FlashChange.slice_on_apart hfit (hd change List.mem_cons_self))
    exact fun other ho => (h other (List.mem_cons_of_mem _ ho)).of_size (FlashChange.size_on hfit)

section PlayAll

variable [FlashDevice φ] {changes rest : List FlashChange} {f f' : φ} {fault : FlashFault}

theorem playAll_append_ok (h : (playAll changes).outcome f = (.ok (), f')) :
    (playAll (changes ++ rest)).outcome f = (playAll rest).outcome f' := by
  induction changes generalizing f with
  | nil =>
    obtain ⟨-, rfl⟩ := Prod.mk.inj h
    rfl
  | cons change changes ih =>
    rw [List.cons_append, playAll]
    rw [playAll] at h
    rcases hp : (change.play : FlashM φ Unit).outcome f with ⟨r | ⟨⟨⟩⟩, g⟩
    · rw [outcome_bind_error hp] at h
      cases h
    · rw [outcome_bind_ok hp] at h ⊢
      exact ih h

theorem playAll_append_error (h : (playAll changes).outcome f = (.error fault, f')) :
    (playAll (changes ++ rest)).outcome f = (.error fault, f') := by
  induction changes generalizing f with
  | nil => cases h
  | cons change changes ih =>
    rw [List.cons_append, playAll]
    rw [playAll] at h
    rcases hp : (change.play : FlashM φ Unit).outcome f with ⟨r | ⟨⟨⟩⟩, g⟩
    · rw [outcome_bind_error hp] at h ⊢
      exact h
    · rw [outcome_bind_ok hp] at h ⊢
      exact ih h

end PlayAll

/-! ### Devices that keep cells -/

/-- A device whose calls do what they should to its cells, or fail and leave them alone. -/
class KeepsCells (φ : Type) [FlashDevice φ] where
  /-- The cells of the device. -/
  cells : φ → ByteArray
  capacity_eq (f : φ) : FlashDevice.capacity f = (cells f).size
  read_eq (f : φ) (address length : ℕ) : (FlashDevice.read address length).outcome f =
    (if address + length ≤ (cells f).size then .ok (Cells.slice (cells f) address length)
      else .error .size, f)
  of_ok {f f' : φ} {change : FlashChange} (h : change.play.outcome f = (.ok (), f')) :
    change.Fits (cells f) ∧ cells f' = change.on (cells f)
  of_error {f f' : φ} {change : FlashChange} {fault : FlashFault}
    (h : change.play.outcome f = (.error fault, f')) : cells f' = cells f

export KeepsCells (cells)

/-- Changes that all succeed are within the device and are made to its cells. -/
theorem cells_playAll [FlashDevice φ] [KeepsCells φ] {changes : List FlashChange} {f f' : φ}
    (h : (playAll changes).outcome f = (.ok (), f')) :
    (∀ change ∈ changes, change.Fits (cells f)) ∧ cells f' = afterAll changes (cells f) := by
  induction changes generalizing f with
  | nil =>
    obtain ⟨-, rfl⟩ := Prod.mk.inj h
    exact ⟨by simp, rfl⟩
  | cons change changes ih =>
    rw [playAll] at h
    rcases hp : (change.play : FlashM φ Unit).outcome f with ⟨r | ⟨⟨⟩⟩, g⟩
    · rw [outcome_bind_error hp] at h
      cases h
    · rw [outcome_bind_ok hp] at h
      obtain ⟨hfit, hcells⟩ := KeepsCells.of_ok hp
      obtain ⟨hrest, hafter⟩ := ih h
      refine ⟨?_, by rw [hafter, hcells]; rfl⟩
      intro other ho
      rcases List.mem_cons.mp ho with rfl | ho
      · exact hfit
      · exact (hrest other ho).of_size (by rw [hcells, FlashChange.size_on hfit])

/-- Some of the first changes are made, and all of them if none fails. -/
theorem playAll_front [FlashDevice φ] [KeepsCells φ] (changes : List FlashChange) (f : φ) :
    ∃ front, front <+: changes ∧ cells ((playAll changes).outcome f).2 = afterAll front (cells f) ∧
      (((playAll changes).outcome f).1 = .ok () → front = changes) := by
  induction changes generalizing f with
  | nil => exact ⟨[], List.prefix_rfl, rfl, fun _ => rfl⟩
  | cons change changes ih =>
    rw [playAll]
    rcases hp : (change.play : FlashM φ Unit).outcome f with ⟨fault | ⟨⟨⟩⟩, g⟩
    · rw [outcome_bind_error hp]
      exact ⟨[], List.nil_prefix, KeepsCells.of_error hp, nofun⟩
    · rw [outcome_bind_ok hp]
      obtain ⟨front, hfront, hcells, hall⟩ := ih g
      refine ⟨change :: front, List.prefix_cons_inj change |>.mpr hfront, ?_, fun h => ?_⟩
      · rw [hcells, (KeepsCells.of_ok hp).2]
        rfl
      · rw [hall h]

theorem size_playAll [FlashDevice φ] [KeepsCells φ] {changes : List FlashChange} {f f' : φ}
    (h : (playAll changes).outcome f = (.ok (), f')) : (cells f').size = (cells f).size := by
  obtain ⟨hfit, hcells⟩ := cells_playAll h
  rw [hcells, size_afterAll hfit]

/-! ### The emulated device -/

namespace EmulatedFlash

/-- The device after a change that succeeds. -/
def changed (f : EmulatedFlash) (change : FlashChange) : EmulatedFlash :=
  { f with
    cells := change.on f.cells
    writes := match change with
      | .write .. => f.writes + 1
      | .erase .. => f.writes
    erases := match change with
      | .write .. => f.erases
      | .erase .. => f.erases + 1 }

theorem outcome_checkRange_ok {f : EmulatedFlash} {a n : ℕ} (h : a + n ≤ f.cells.size) :
    (checkRange a n).outcome f = (.ok (), f) := by
  unfold checkRange
  refine (outcome_bind_ok (outcome_get f)).trans ?_
  rw [if_pos h]
  rfl

theorem outcome_checkRange_error {f : EmulatedFlash} {a n : ℕ} (h : ¬ a + n ≤ f.cells.size) :
    (checkRange a n).outcome f = (.error .size, f) := by
  unfold checkRange
  refine (outcome_bind_ok (outcome_get f)).trans ?_
  rw [if_neg h]
  rfl

theorem outcome_store (f : EmulatedFlash) (a : ℕ) (bytes : ByteArray) :
    (store a bytes).outcome f = if f.failing then (.error .failed, f)
      else (.ok (), { f with cells := Cells.patch f.cells a bytes }) := by
  unfold store
  refine (outcome_bind_ok (outcome_get f)).trans ?_
  cases hf : f.failing <;> rfl

theorem filled_eq (n : ℕ) : Cells.filled Cells.erasedByte n =
    ⟨(List.replicate n Cells.erasedByte).toArray⟩ := by
  rw [← Cells.toList_filled, Array.toArray_toList]

/-- A call is refused for its range, fails, or makes its change. -/
theorem outcome_play (f : EmulatedFlash) (change : FlashChange) : change.play.outcome f =
    if change.Fits f.cells then
      if f.failing then (.error .failed, f) else (.ok (), f.changed change)
    else (.error .size, f) := by
  by_cases hr : change.Fits f.cells
  · have hs := outcome_store f change.address ⟨change.bytes.toArray⟩
    rw [if_pos hr]
    cases hf : f.failing with
    | true =>
      rw [hf, if_pos rfl] at hs
      cases change with
      | erase a n =>
        refine (outcome_bind_ok (outcome_checkRange_ok hr)).trans (outcome_bind_error ?_)
        rwa [filled_eq]
      | write a bytes => exact (outcome_bind_ok (outcome_checkRange_ok hr)).trans (outcome_bind_error hs)
    | false =>
      rw [if_neg (by rw [hf]; decide)] at hs
      cases change with
      | erase a n =>
        refine (outcome_bind_ok (outcome_checkRange_ok hr)).trans ?_
        rw [filled_eq]
        exact outcome_bind_ok hs
      | write a bytes =>
        exact (outcome_bind_ok (outcome_checkRange_ok hr)).trans (outcome_bind_ok hs)
  · rw [if_neg hr]
    cases change with
    | erase a n => exact outcome_bind_error (outcome_checkRange_error hr)
    | write a bytes => exact outcome_bind_error (outcome_checkRange_error hr)

theorem outcome_read (f : EmulatedFlash) (address length : ℕ) :
    (EmulatedFlash.read address length).outcome f =
      (if address + length ≤ f.cells.size then .ok (Cells.slice f.cells address length)
        else .error .size, f) := by
  unfold EmulatedFlash.read
  by_cases hr : address + length ≤ f.cells.size
  · rw [outcome_bind_ok (outcome_checkRange_ok hr), if_pos hr]
    rfl
  · rw [outcome_bind_error (outcome_checkRange_error hr), if_neg hr]

/-- A device that does not fail makes all changes of its own range. -/
theorem playAll_of_fits {changes : List FlashChange} {f : EmulatedFlash}
    (h : ∀ change ∈ changes, change.Fits f.cells) (hf : f.failing = false) :
    ∃ f', (playAll changes).outcome f = (.ok (), f') ∧ f'.failing = false := by
  -- a change keeps the size, so the later ones fit as they did at the start
  induction changes generalizing f with
  | nil => exact ⟨f, rfl, hf⟩
  | cons change changes ih =>
    have hfit := h change List.mem_cons_self
    have hp : change.play.outcome f = (.ok (), f.changed change) := by
      rw [outcome_play, if_pos hfit, if_neg (by simp [hf])]
    obtain ⟨f', hplay, hf'⟩ := ih (f := f.changed change)
      (fun other ho => (h other (List.mem_cons_of_mem _ ho)).of_size (FlashChange.size_on hfit)) hf
    refine ⟨f', ?_, hf'⟩
    rw [playAll, outcome_bind_ok hp, hplay]

instance : KeepsCells EmulatedFlash where
  cells := EmulatedFlash.cells
  capacity_eq _ := rfl
  read_eq := outcome_read
  of_ok {f f' change} h := by
    rw [outcome_play] at h
    split at h
    next hr =>
      split at h
      · cases h
      · obtain ⟨-, rfl⟩ := Prod.mk.inj h
        exact ⟨hr, rfl⟩
    · cases h
  of_error {f f' change fault} h := by
    rw [outcome_play] at h
    split at h
    · split at h
      · obtain ⟨-, rfl⟩ := Prod.mk.inj h
        rfl
      · cases h
    · obtain ⟨-, rfl⟩ := Prod.mk.inj h
      rfl

end EmulatedFlash

/-! ### A device with a schedule of faults -/

/-- An emulated device that makes writes and erases fail by a schedule. -/
structure ScheduledFlash where
  device : EmulatedFlash
  /-- How each call fails, if it does. Calls are counted from zero. -/
  schedule : ℕ → Option FlashFault
  /-- The calls so far, latest first, each with the cells that it found. -/
  calls : List (ByteArray × FlashChange) := []

namespace ScheduledFlash

/-- The device with one more call remembered. -/
def noting (f : ScheduledFlash) (change : FlashChange) : ScheduledFlash :=
  { f with calls := (f.device.cells, change) :: f.calls }

/-- Makes a change, unless the schedule says otherwise. -/
def attempt (change : FlashChange) : FlashM ScheduledFlash Unit := do
  let f ← get
  set (f.noting change)
  match f.schedule f.calls.length with
  | some fault => throw fault
  | none => change.play.focus device fun device f => { f with device }

instance : FlashDevice ScheduledFlash where
  capacity f := FlashDevice.capacity f.device
  read address length := (FlashDevice.read address length).focus device fun device f => { f with device }
  write address bytes := attempt (.write address bytes)
  erase address length := attempt (.erase address length)

/-- A call is remembered; then it fails by the schedule, or the device makes it. -/
theorem outcome_play (f : ScheduledFlash) (change : FlashChange) : change.play.outcome f =
    match f.schedule f.calls.length with
    | some fault => (.error fault, f.noting change)
    | none => ((change.play.outcome f.device).1,
        { f.noting change with device := (change.play.outcome f.device).2 }) := by
  have hp : change.play.outcome f = (attempt change).outcome f := by
    cases change <;> rfl
  rw [hp]
  unfold attempt
  refine (outcome_bind_ok (outcome_get f)).trans ((outcome_bind_ok (outcome_set f _)).trans ?_)
  cases f.schedule f.calls.length with
  | some fault => rfl
  | none => rfl

/-- If the schedule lets them through, all changes of its own range are made. -/
theorem playAll_of_fits {changes : List FlashChange} {f : ScheduledFlash}
    (h : ∀ change ∈ changes, change.Fits f.device.cells) (hf : f.device.failing = false)
    (hs : ∀ k < changes.length, f.schedule (f.calls.length + k) = none) :
    ∃ f', (playAll changes).outcome f = (.ok (), f') ∧ f'.device.failing = false ∧
      f'.schedule = f.schedule ∧ f'.calls.length = f.calls.length + changes.length := by
  induction changes generalizing f with
  | nil => exact ⟨f, rfl, hf, rfl, rfl⟩
  | cons change changes ih =>
    have hfit := h change List.mem_cons_self
    have hnow : f.schedule f.calls.length = none := hs 0 (Nat.succ_pos _)
    have hp : change.play.outcome f =
        (.ok (), { f.noting change with device := f.device.changed change }) := by
      rw [outcome_play, hnow, EmulatedFlash.outcome_play, if_pos hfit,
        if_neg (by simp [hf])]
    obtain ⟨f', hplay, hf', hschedule, hcalls⟩ :=
      ih (f := { f.noting change with device := f.device.changed change })
        (fun other ho => (h other (List.mem_cons_of_mem _ ho)).of_size (FlashChange.size_on hfit)) hf
        fun k hk => by
          have := hs (k + 1) (Nat.succ_lt_succ hk)
          rwa [Nat.add_comm k 1, ← Nat.add_assoc] at this
    refine ⟨f', ?_, hf', hschedule, ?_⟩
    · rw [playAll, outcome_bind_ok hp, hplay]
    · rw [hcalls, List.length_cons]
      show f.calls.length + 1 + changes.length = _
      omega

instance : KeepsCells ScheduledFlash where
  cells f := f.device.cells
  capacity_eq _ := rfl
  read_eq f address length := by
    have hp : (FlashDevice.read address length).outcome f =
        ((FlashDevice.read address length).focus device fun device f => { f with device }).outcome f := rfl
    rw [hp, outcome_focus, KeepsCells.read_eq f.device]
    rfl
  of_ok {f f' change} h := by
    rw [outcome_play] at h
    split at h
    · cases h
    · obtain ⟨hr, rfl⟩ := Prod.mk.inj h
      exact KeepsCells.of_ok (f := f.device) (Prod.ext hr rfl)
  of_error {f f' change fault} h := by
    rw [outcome_play] at h
    split at h
    · obtain ⟨-, rfl⟩ := Prod.mk.inj h
      rfl
    · obtain ⟨hr, rfl⟩ := Prod.mk.inj h
      exact KeepsCells.of_error (f := f.device) (Prod.ext hr rfl)

/-- If the schedule lets the first changes through and then makes one fail, the first are made. -/
theorem playAll_cut {front rest : List FlashChange} {change : FlashChange} {f : ScheduledFlash}
    {fault : FlashFault} (h : ∀ change ∈ front, change.Fits f.device.cells)
    (hf : f.device.failing = false)
    (hs : ∀ k < front.length, f.schedule (f.calls.length + k) = none)
    (hcut : f.schedule (f.calls.length + front.length) = some fault) :
    ∃ f', (playAll (front ++ change :: rest)).outcome f = (.error fault, f') ∧
      f'.device.failing = false ∧ f'.schedule = f.schedule ∧
      f'.calls.length = f.calls.length + front.length + 1 ∧
      f'.calls.head? = some (f'.device.cells, change) ∧
      f'.device.cells = afterAll front f.device.cells := by
  obtain ⟨g, hplay, hg, hschedule, hcalls⟩ := playAll_of_fits h hf hs
  have hcells : g.device.cells = afterAll front f.device.cells := (cells_playAll hplay).2
  have hp : change.play.outcome g = (.error fault, g.noting change) := by
    rw [outcome_play, hschedule, hcalls, hcut]
  refine ⟨g.noting change, ?_, hg, hschedule, ?_, rfl, hcells⟩
  · rw [playAll_append_ok hplay, playAll, outcome_bind_error hp]
  · rw [← hcalls]
    rfl

theorem cells_eq (f : ScheduledFlash) : cells f = f.device.cells := rfl

end ScheduledFlash

/-! ### What each call finds -/

/-- The changes are within the device, and `J` holds of each of them and the cells that it finds. -/
def Meets (J : FlashChange → ByteArray → Prop) : List FlashChange → ByteArray → Prop
  | [], _ => True
  | change :: rest, cells => J change cells ∧ change.Fits cells ∧ Meets J rest (change.on cells)

namespace Meets

variable {J K : FlashChange → ByteArray → Prop} {changes rest : List FlashChange} {cells : ByteArray}

theorem append (h : Meets J changes cells) (h' : Meets J rest (afterAll changes cells)) :
    Meets J (changes ++ rest) cells := by
  induction changes generalizing cells with
  | nil => exact h'
  | cons change changes ih => exact ⟨h.1, h.2.1, ih h.2.2 h'⟩

theorem fits (h : Meets J changes cells) : ∀ change ∈ changes, change.Fits cells := by
  induction changes generalizing cells with
  | nil => simp
  | cons change rest ih =>
    obtain ⟨-, hfit, hrest⟩ := h
    intro other ho
    rcases List.mem_cons.mp ho with rfl | ho
    · exact hfit
    · exact (ih hrest other ho).of_size (FlashChange.size_on hfit).symm

/-- Whichever of the changes fail, `J` holds of the calls that are made, and the device is left as the last
of them finds it or as all changes leave it. -/
theorem playAll {f : ScheduledFlash} (h : Meets J changes f.device.cells) :
    ∃ r f', (RemoteUpdate.playAll changes).outcome f = (r, f') ∧
      f'.device.cells.size = f.device.cells.size ∧
      (∀ call ∈ f'.calls, call ∈ f.calls ∨ J call.2 call.1) ∧
      (f'.device.cells = afterAll changes f.device.cells ∨
        ∃ change, f'.calls.head? = some (f'.device.cells, change) ∧ J change f'.device.cells) := by
  induction changes generalizing f with
  | nil => exact ⟨_, f, rfl, rfl, fun call hc => .inl hc, .inl rfl⟩
  | cons change changes ih =>
    obtain ⟨hnow, hfit, hrest⟩ := h
    have hcalls : (change.play.outcome f).2.calls = (f.device.cells, change) :: f.calls := by
      rw [ScheduledFlash.outcome_play]
      cases f.schedule f.calls.length <;> rfl
    have hnoted : ∀ call ∈ (f.device.cells, change) :: f.calls, call ∈ f.calls ∨ J call.2 call.1 := by
      intro call hcall
      rcases List.mem_cons.mp hcall with rfl | hcall
      · exact .inr hnow
      · exact .inl hcall
    rw [RemoteUpdate.playAll]
    -- a call that fails changes nothing and is the last one made
    rcases hp : change.play.outcome f with ⟨fault | ⟨⟨⟩⟩, g⟩
    · rw [hp] at hcalls
      have hcells : g.device.cells = f.device.cells := KeepsCells.of_error hp
      refine ⟨_, g, outcome_bind_error hp, by rw [hcells], fun call hcall => hnoted call (hcalls ▸ hcall),
        .inr ?_⟩
      exact ⟨change, by rw [hcalls, hcells]; rfl, by rwa [hcells]⟩
    · rw [hp] at hcalls
      have hcells : g.device.cells = change.on f.device.cells := (KeepsCells.of_ok hp).2
      rw [← hcells] at hrest
      obtain ⟨r, f', hplay, hsize, hall, hend⟩ := ih hrest
      refine ⟨r, f', (outcome_bind_ok hp).trans hplay, ?_, fun call hcall => ?_, ?_⟩
      · rw [hsize, hcells, FlashChange.size_on hfit]
      · rcases hall call hcall with hold | hj
        · exact hnoted call (hcalls ▸ hold)
        · exact .inr hj
      · rw [hcells] at hend
        exact hend

end Meets

end RemoteUpdate
