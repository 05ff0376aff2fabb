import RemoteUpdate.Proofs.Flash.Watching
import RemoteUpdate.Proofs.Session.Calls
import RemoteUpdate.Proofs.Session.WellFormedness

/-!
# Refused calls change nothing

A call that changes the tables or erases a slot works in two parts. The first only reads, and may refuse
(`Quiet`); once the second has begun, nothing but the device can fail it (`Commits`). So a call that is refused
has changed nothing (`Atomic`), whatever the device holds and however its calls fail: what the second part
needs, a place for the pointer block and the listed entry, has been found in the first.
-/

namespace RemoteUpdate

/-- Calls that change the tables, or erase a slot. -/
def SessionCall.editsMetadata : SessionCall → Bool
  | .createSlot .. | .deleteSlot _ | .renameSlot .. | .enableSlot _ | .disableSlot _ | .eraseSlot _
  | .restoreTable _ | .restoreBlock _ | .createEmptyBlock => true
  | _ => false

namespace Session

variable {ρ φ α β : Type}

/-- The program failed, but no call of the device did. -/
def Refused (r : Except UpdateError α) : Prop :=
  ∃ failure, r = .error failure ∧ ∀ fault, failure ≠ .flash fault

/-- From `s` the program comes to an end; it has only read the device, and if it succeeds then as `Q` says. -/
def Quiet [FlashDevice φ] (x : SessionM ρ φ α) (s : SessionState ρ φ) (Q : α → SessionState ρ φ → Prop) : Prop :=
  ∃ r s', Ends x s r s' ∧ OnlyRead s.flash s'.flash ∧ ∀ a, r = .ok a → Q a s'

/-- From `s` the program comes to an end; it fails only if a call of the device does, and if it succeeds then
as `Q` says. -/
def Commits (x : SessionM ρ φ α) (s : SessionState ρ φ) (Q : α → SessionState ρ φ → Prop) : Prop :=
  ∃ r s', Ends x s r s' ∧ ¬ Refused r ∧ ∀ a, r = .ok a → Q a s'

/-- From `s` the program comes to an end; if it is refused, it has only read the device. -/
def Atomic [FlashDevice φ] (x : SessionM ρ φ α) (s : SessionState ρ φ) : Prop :=
  ∃ r s', Ends x s r s' ∧ (Refused r → OnlyRead s.flash s'.flash)

variable {c : Session ρ} {s s' : SessionState ρ φ} {x : SessionM ρ φ α} {f : α → SessionM ρ φ β}
  {r : Except UpdateError α} {Q : α → SessionState ρ φ → Prop} {R : β → SessionState ρ φ → Prop}

theorem not_refused_ok (a : α) : ¬ Refused (.ok a : Except UpdateError α) := by
  rintro ⟨failure, h, -⟩
  cases h

theorem not_refused_flash (r : Except FlashFault α) : ¬ Refused (r.mapError .flash) := by
  rintro ⟨failure, h, hno⟩
  cases r with
  | ok a => cases h
  | error fault => exact hno fault (Except.error.inj h).symm

/-! ### Programs that only read -/

section Quiet

variable [FlashDevice φ]

namespace Quiet

theorem of_ends (h : Ends x s r s') (hflash : s'.flash = s.flash) (hq : ∀ a, r = .ok a → Q a s') :
    Quiet x s Q :=
  ⟨r, s', h, hflash ▸ .refl, hq⟩

theorem bind (h : Quiet x s Q) (hf : ∀ a s', Q a s' → Quiet (f a) s' R) : Quiet (x >>= f) s R := by
  obtain ⟨r, s', hends, hread, hq⟩ := h
  cases r with
  | error failure => exact ⟨_, s', hends.bind_error, hread, nofun⟩
  | ok a =>
    obtain ⟨r, s'', hends', hread', hq'⟩ := hf a s' (hq a rfl)
    exact ⟨r, s'', hends.bind hends', hread.trans hread', hq'⟩

theorem mono {Q' : α → SessionState ρ φ → Prop} (h : Quiet x s Q) (hq : ∀ a s', Q a s' → Q' a s') :
    Quiet x s Q' := by
  obtain ⟨r, s', hends, hread, h⟩ := h
  exact ⟨r, s', hends, hread, fun a ha => hq a s' (h a ha)⟩

theorem after {a : α} (h : Ends x s (.ok a) s) (hf : Quiet (f a) s R) : Quiet (x >>= f) s R := by
  obtain ⟨r, s', hends, hrest⟩ := hf
  exact ⟨r, s', h.bind hends, hrest⟩

protected theorem discard {P : SessionState ρ φ → Prop} (h : Quiet x s fun _ => P) :
    Quiet (discard x) s fun _ => P := by
  rw [Functor.discard, map_const, Function.comp_apply, map_eq_pure_bind]
  exact h.bind fun a s' hp => of_ends (Ends.pure () s') rfl fun _ _ => hp

theorem logFailure (e : SessionEvent) (h : Quiet x s Q) : Quiet (Session.logFailure e x) s Q := by
  obtain ⟨r, s', hends, hrest⟩ := h
  exact ⟨r, s', ends_logFailure hends, hrest⟩

theorem read (address length : ℕ) : Quiet (onFlash (FlashDevice.read address length)) s
    fun _ s' => s'.table = s.table :=
  ⟨_, _, ends_onFlash _ s, .single ⟨address, length, rfl⟩, fun _ _ => rfl⟩

theorem loadTable (c : Session ρ) (s : SessionState ρ φ) :
    Quiet c.loadTable s fun t s' => s'.table = t := by
  have hread : Quiet (do
      let bytes ← onFlash <| FlashDevice.read c.tableOffsets.1.toNat tableSize
      verifiedTable (← require (PartitionTable.decode bytes)) : SessionM ρ φ _) s fun _ _ => True := by
    refine (read _ _).bind fun bytes s₁ _ => ?_
    refine (of_ends (Q := fun _ _ => True) (ends_require _ s₁) rfl fun _ _ => trivial).bind fun t s₂ _ => ?_
    exact of_ends (ends_verifiedTable t s₂) rfl fun _ _ => trivial
  refine (hread.logFailure _).bind fun t s' _ => ?_
  exact of_ends ((Ends.modify _ s').bind (Ends.pure t _)) rfl fun t' h => Except.ok.inj h

/-- A pointer block is loaded from a place that the scratch partition table lists. -/
theorem loadBlock (c : Session ρ) (s : SessionState ρ φ) : Quiet c.loadBlock s
    fun _ s' => (placeOf? s'.table c.layout.blockName).isSome = true := by
  have hplace := ends_blockOffset c s
  unfold Session.loadBlock
  cases hp : placeOf? s.table c.layout.blockName with
  | none =>
    rw [hp] at hplace
    exact of_ends hplace.bind_error rfl nofun
  | some offset =>
    rw [hp] at hplace
    -- what comes after the place is known leaves the partition table
    have hkeep {γ : Type} {y : SessionM ρ φ γ} {s₁ s₂ : SessionState ρ φ} {r : Except UpdateError γ}
        (h : Ends y s₁ r s₂) (hflash : s₂.flash = s₁.flash) (htable : s₂.table = s₁.table)
        (hs : s₁.table = s.table) : Quiet y s₁ fun _ s' => s'.table = s.table :=
      of_ends h hflash fun _ _ => htable.trans hs
    refine after hplace (mono (Q := fun _ s' => s'.table = s.table) ?_ fun _ s' h => by simp [h, hp])
    refine (read _ _).bind fun bytes s₁ h₁ => (hkeep (ends_require _ s₁) rfl rfl h₁).bind fun b s₂ h₂ => ?_
    refine (logFailure _ (hkeep (ends_verifiedBlock b s₂) rfl rfl h₂)).bind fun b s₃ h₃ => ?_
    exact hkeep ((Ends.modify _ s₃).bind (Ends.pure b _)) rfl rfl h₃

/-- Once both tables are loaded, the pointer block has a place. -/
theorem load (c : Session ρ) (s : SessionState ρ φ) : Quiet c.load s
    fun _ s' => (placeOf? s'.table c.layout.blockName).isSome = true :=
  ((loadTable c s).mono fun _ _ _ => trivial).discard.bind fun _ s' _ => (loadBlock c s').discard

end Quiet

end Quiet

/-! ### Programs that fail only with the device -/

namespace Commits

theorem of_ok {a : α} (h : Ends x s (.ok a) s') (hq : Q a s') : Commits x s Q :=
  ⟨_, s', h, not_refused_ok a, fun _ ha => Except.ok.inj ha ▸ hq⟩

theorem mono {Q' : α → SessionState ρ φ → Prop} (h : Commits x s Q) (hq : ∀ a s', Q a s' → Q' a s') :
    Commits x s Q' := by
  obtain ⟨r, s', hends, hsure, h⟩ := h
  exact ⟨r, s', hends, hsure, fun a ha => hq a s' (h a ha)⟩

theorem bind (h : Commits x s Q) (hf : ∀ a s', Q a s' → Commits (f a) s' R) : Commits (x >>= f) s R := by
  obtain ⟨r, s', hends, hsure, hq⟩ := h
  cases r with
  | error failure =>
    refine ⟨_, s', hends.bind_error, ?_, nofun⟩
    rintro ⟨other, h, hno⟩
    exact hsure ⟨other, congrArg _ (Except.error.inj h), hno⟩
  | ok a =>
    obtain ⟨r, s'', hends', hrest⟩ := hf a s' (hq a rfl)
    exact ⟨r, s'', hends.bind hends', hrest⟩

theorem after {a : α} (h : Ends x s (.ok a) s') (hf : Commits (f a) s' R) : Commits (x >>= f) s R := by
  obtain ⟨r, s'', hends, hrest⟩ := hf
  exact ⟨r, s'', h.bind hends, hrest⟩

theorem onFlash (x : FlashM φ α) : Commits (Session.onFlash x) s fun _ s' => s'.table = s.table :=
  ⟨_, _, ends_onFlash x s, not_refused_flash _, fun _ _ => rfl⟩

variable [FlashDevice φ]

theorem replace (offset : UInt64) (space : ℕ) (bytes : List UInt8) :
    Commits (Session.replace offset space bytes) s fun _ s' => s'.table = s.table :=
  (onFlash _).bind fun _ _ h => (onFlash _).mono fun _ _ h' => h'.trans h

theorem saveTable : Commits c.saveTable s fun _ _ => True := by
  refine after (Ends.get s) ((replace _ _ _).bind fun _ _ _ => (replace _ _ _).bind fun _ s₂ _ => ?_)
  exact of_ok (ends_log _ s₂) trivial

theorem saveBlock (hp : (placeOf? s.table c.layout.blockName).isSome = true) :
    Commits c.saveBlock s fun _ s' => s'.table = s.table := by
  have hplace := ends_blockOffset c s
  obtain ⟨offset, hp⟩ := Option.isSome_iff_exists.mp hp
  rw [hp] at hplace
  refine after hplace (after (Ends.get s) ((replace _ _ _).bind fun _ s₁ h₁ => ?_))
  refine after (ends_partitionOffset? _ s₁) ?_
  cases placeOf? s₁.table c.layout.backupName with
  | none => exact of_ok (ends_log _ s₁) h₁
  | some backup => exact (replace _ _ _).bind fun _ s₂ h₂ => of_ok (ends_log _ s₂) (h₂.trans h₁)

theorem disablePointer (hp : (placeOf? s.table c.layout.blockName).isSome = true) (slot : ℕ)
    (e : PartitionEntry) : Commits (c.disablePointer slot e) s fun _ s' => s'.table = s.table := by
  refine after (Ends.get s) ?_
  rcases s.block.disable e.offset with ⟨_ | _, block⟩
  · exact of_ok (Ends.pure () s) rfl
  · refine after (Ends.modify _ s) ((saveBlock (s := { s with block }) hp).bind fun _ s₁ h₁ => ?_)
    exact of_ok (ends_log _ s₁) h₁

end Commits

/-! ### Programs that are atomic -/

variable [FlashDevice φ]

namespace Atomic

theorem of_commits (h : Commits x s fun _ _ => True) : Atomic x s := by
  obtain ⟨r, s', hends, hsure, -⟩ := h
  exact ⟨r, s', hends, fun hr => absurd hr hsure⟩

theorem of_ends (h : Ends x s r s') (hflash : s'.flash = s.flash) : Atomic x s :=
  ⟨r, s', h, fun _ => hflash ▸ .refl⟩

theorem after (h : Quiet x s Q) (hf : ∀ a s', Q a s' → Atomic (f a) s') : Atomic (x >>= f) s := by
  obtain ⟨r, s', hends, hread, hq⟩ := h
  cases r with
  | error failure => exact ⟨_, s', hends.bind_error, fun _ => hread⟩
  | ok a =>
    obtain ⟨r, s'', hends', h'⟩ := hf a s' (hq a rfl)
    exact ⟨r, s'', hends.bind hends', fun hr => hread.trans (h' hr)⟩

theorem need (h : Ends x s r s') (hflash : s'.flash = s.flash) (hf : ∀ a, r = .ok a → Atomic (f a) s') :
    Atomic (x >>= f) s :=
  after (Quiet.of_ends (Q := fun a s₁ => r = .ok a ∧ s₁ = s') h hflash fun _ ha => ⟨ha, rfl⟩)
    fun a _ ⟨ha, hs⟩ => hs ▸ hf a ha

/-- Both tables are loaded and the slot is opened, or the program is refused. -/
theorem opened {slot : ℕ} {work : PartitionEntry → SessionM ρ φ Unit}
    (hwork : ∀ e s', s'.table.listed[slot]? = some e →
      (placeOf? s'.table c.layout.blockName).isSome = true → Atomic (work e) s') :
    Atomic (do c.load; work (← mutableEntry slot)) s := by
  refine after (Quiet.load c s) fun _ s₁ hp => ?_
  rcases mutableEntry_cases slot s₁ with ⟨e, he, -, hopen⟩ | ⟨failure, hopen⟩
  · exact need hopen rfl fun e' h' => Except.ok.inj h' ▸ hwork e s₁ he hp
  · exact need hopen rfl nofun

theorem saveBlock : Atomic c.saveBlock s := by
  cases hp : placeOf? s.table c.layout.blockName with
  | none =>
    have hplace := ends_blockOffset c s
    rw [hp] at hplace
    exact need hplace rfl nofun
  | some offset => exact of_commits ((Commits.saveBlock (by rw [hp]; rfl)).mono fun _ _ _ => trivial)

end Atomic

/-! ### Calls -/

theorem atomic_createSlot (c : Session ρ) (name : String) (offset : UInt64) (size : UInt32)
    (s : SessionState ρ φ) : Atomic (c.createSlot name offset size) s := by
  refine Atomic.after (Quiet.loadTable c s) fun t s₁ _ => ?_
  refine Atomic.need (ends_require _ s₁) rfl fun e _ => ?_
  dsimp only
  split
  · exact Atomic.need (Ends.throw _ s₁) rfl nofun
  · split
    · exact Atomic.need (Ends.throw _ s₁) rfl nofun
    · refine Atomic.need (Ends.get s₁) rfl fun s₂ hs₂ => ?_
      refine Atomic.need (ends_require _ s₁) rfl fun top _ => ?_
      split
      · exact Atomic.need (Ends.throw _ s₁) rfl nofun
      · refine Atomic.need (ends_require _ s₁) rfl fun meets _ => ?_
        cases meets with
        | some i => exact Atomic.need (ends_log _ s₁) rfl fun _ _ => Atomic.need (Ends.throw _ s₁) rfl nofun
        | none =>
          refine Atomic.need (ends_require _ s₁) rfl fun pushed _ => Atomic.of_commits ?_
          refine Commits.after (Ends.modify _ s₁) (Commits.saveTable.bind fun _ s₂ _ => ?_)
          exact Commits.of_ok ((ends_log _ s₂).bind (Ends.pure _ s₂)) trivial

/-- The entry that is listed when the slot is opened is listed when it is removed. -/
theorem atomic_deleteSlot (c : Session ρ) (slot : ℕ) (s : SessionState ρ φ) :
    Atomic (c.deleteSlot slot) s := by
  refine Atomic.opened fun e s₁ he hp => Atomic.of_commits ?_
  refine (Commits.disablePointer hp slot e).bind fun _ s₂ h₂ => Commits.after (Ends.get s₂) ?_
  obtain ⟨t, ht⟩ := PartitionTable.remove_of_listed (h₂ ▸ he)
  have hremoved := ends_require (s₂.table.remove slot) s₂
  rw [ht] at hremoved ⊢
  refine Commits.after hremoved (Commits.after (Ends.modify _ s₂) (Commits.saveTable.bind fun _ s₃ _ => ?_))
  exact Commits.of_ok (ends_log _ s₃) trivial

theorem atomic_renameSlot (c : Session ρ) (slot : ℕ) (name : String) (s : SessionState ρ φ) :
    Atomic (c.renameSlot slot name) s := by
  refine Atomic.after (Quiet.loadTable c s) fun t s₁ _ => ?_
  have hedit (e : PartitionEntry) : Atomic (do
      let table ← require (t.modifyEntry slot (·.rename name))
      modify fun s => { s with table }
      c.saveTable
      log (.slotRenamed slot e.nameText name)) s₁ := by
    refine Atomic.need (ends_require _ s₁) rfl fun t' _ => Atomic.of_commits ?_
    refine Commits.after (Ends.modify _ s₁) (Commits.saveTable.bind fun _ s₂ _ => ?_)
    exact Commits.of_ok (ends_log _ s₂) trivial
  rcases mutableEntry_cases slot s₁ with ⟨e, -, -, hopen⟩ | ⟨failure, hopen⟩
  · refine Atomic.need hopen rfl fun e' _ => ?_
    cases t.findName? name with
    | none => exact hedit e'
    | some other =>
      dsimp only
      split
      · exact Atomic.need (Ends.throw _ s₁) rfl nofun
      · exact hedit e'
  · exact Atomic.need hopen rfl nofun

/-- A pointer that has no place in the block is found out before the block is saved. -/
theorem atomic_enableSlot (c : Session ρ) (slot : ℕ) (s : SessionState ρ φ) :
    Atomic (c.enableSlot slot) s := by
  refine Atomic.opened fun e s₁ _ hp => Atomic.need (Ends.get s₁) rfl fun s₂ hs₂ => ?_
  obtain rfl := Except.ok.inj hs₂
  rcases s₁.block.enable e.offset with ⟨failure | placed, block⟩
  · refine Atomic.need (Ends.modify _ s₁) rfl fun _ _ => ?_
    cases failure with
    | full => exact Atomic.need (ends_log _ _) rfl fun _ _ => Atomic.of_ends (Ends.throw _ _) rfl
    | noSlot => exact Atomic.of_ends (Ends.throw _ _) rfl
  · refine Atomic.of_commits (Commits.after (Ends.modify _ s₁) ?_)
    cases placed with
    | false => exact Commits.of_ok (Ends.pure () _) trivial
    | true =>
      refine (Commits.saveBlock (s := { s₁ with block }) hp).bind fun _ s₂ _ => ?_
      exact Commits.of_ok (ends_log _ s₂) trivial

theorem atomic_disableSlot (c : Session ρ) (slot : ℕ) (s : SessionState ρ φ) :
    Atomic (c.disableSlot slot) s :=
  Atomic.opened fun e _ _ hp =>
    Atomic.of_commits ((Commits.disablePointer hp slot e).mono fun _ _ _ => trivial)

theorem atomic_eraseSlot (c : Session ρ) (slot : ℕ) (s : SessionState ρ φ) :
    Atomic (c.eraseSlot slot) s := by
  refine Atomic.opened fun e s₁ _ hp => Atomic.of_commits ?_
  refine (Commits.disablePointer hp slot e).bind fun _ s₂ _ => ?_
  -- a range that does not fit the device counts as a failure of the device
  have hpart : Commits (slotPartition e) s₂ fun _ _ => True :=
    ⟨_, s₂, (Ends.get s₂).bind (ends_require _ s₂), not_refused_flash _, fun _ _ => trivial⟩
  refine hpart.bind fun p s₃ _ => (Commits.onFlash _).bind fun _ s₄ _ => ?_
  exact Commits.of_ok (ends_log _ s₄) trivial

theorem atomic_restoreTable (c : Session ρ) (bytes : List UInt8) (s : SessionState ρ φ) :
    Atomic (c.restoreTable bytes) s := by
  refine Atomic.need (ends_require _ s) rfl fun t _ => Atomic.need (ends_verifiedTable t s) rfl fun t _ => ?_
  refine Atomic.need (Ends.modify _ s) rfl fun _ _ => Atomic.need (ends_log _ _) rfl fun _ _ => ?_
  exact Atomic.of_commits Commits.saveTable

theorem atomic_replaceBlock (c : Session ρ) (block : PointerBlock) (event : SessionEvent) (s : SessionState ρ φ) :
    Atomic (do
      discard c.loadTable
      modify fun s => { s with block }
      log event
      c.saveBlock) s := by
  refine Atomic.after ((Quiet.loadTable c s).mono fun _ _ _ => trivial).discard fun _ s₁ _ => ?_
  refine Atomic.need (Ends.modify _ s₁) rfl fun _ _ => Atomic.need (ends_log _ _) rfl fun _ _ => ?_
  exact Atomic.saveBlock

theorem atomic_restoreBlock (c : Session ρ) (bytes : List UInt8) (s : SessionState ρ φ) :
    Atomic (c.restoreBlock bytes) s := by
  refine Atomic.need (ends_require _ s) rfl fun b _ => Atomic.need (ends_verifiedBlock b s) rfl fun b _ => ?_
  exact atomic_replaceBlock c b _ s

theorem atomic_createEmptyBlock (c : Session ρ) (s : SessionState ρ φ) : Atomic c.createEmptyBlock s :=
  atomic_replaceBlock c _ _ s

theorem atomic_call [RegisterBlock ρ] (c : Session ρ) {k : SessionCall} (hk : k.editsMetadata = true)
    (s : SessionState ρ φ) : Atomic (c.call k) s := by
  cases k with
  | createSlot name offset size => exact atomic_createSlot c name offset size s
  | deleteSlot slot => exact atomic_deleteSlot c slot s
  | renameSlot slot name => exact atomic_renameSlot c slot name s
  | enableSlot slot => exact atomic_enableSlot c slot s
  | disableSlot slot => exact atomic_disableSlot c slot s
  | eraseSlot slot => exact atomic_eraseSlot c slot s
  | restoreTable bytes => exact atomic_restoreTable c bytes s
  | restoreBlock bytes => exact atomic_restoreBlock c bytes s
  | createEmptyBlock => exact atomic_createEmptyBlock c s
  | _ => cases hk

/-- Refused calls change nothing. Whatever the device holds, whatever is asked for and however the calls of the
device fail: if a call that changes the tables or erases a slot is refused, every call that it made of the
device was a read, and the contents are what they were. -/
theorem refused_changes_nothing [RegisterBlock ρ] {γ : Type} (contents : φ → γ)
    (hread : ∀ f address length, contents ((FlashDevice.read address length).outcome f).2 = contents f)
    (c : Session ρ) (k : SessionCall) (hk : k.editsMetadata = true) (s : SessionState ρ (WatchedFlash φ)) :
    ∃ r s', Ends (c.call k) s r s' ∧ (Refused r →
      (∃ accesses, s'.flash.accesses = s.flash.accesses ++ accesses ∧ ∀ a ∈ accesses, a.call = .read) ∧
      contents s'.flash.device = contents s.flash.device) := by
  obtain ⟨r, s', hends, hatomic⟩ := atomic_call c hk s
  refine ⟨r, s', hends, fun hr => ?_⟩
  obtain ⟨hdevice, haccesses⟩ := (hatomic hr).watched
  exact ⟨haccesses, hdevice.keeps hread⟩

/-! ### A device that cannot be erased -/

def brittleSession : Session ScriptedBlock where
  mailbox := {}
  layout := {}
  tableOffsets := (0x100000, 0x108000)

/-- A device behind a layer that makes the first erase fail, with the calls made of it so far. -/
def brittleFlash (device : EmulatedFlash) (accesses : List FlashAccess) :
    WatchedFlash (FaultyFlash EmulatedFlash) where
  device := { device, planned := [⟨.erase, 0, .failed⟩] }
  accesses := accesses

theorem read_brittleFlash (device : EmulatedFlash) (accesses : List FlashAccess) {address length : ℕ}
    (hfits : address + length ≤ device.cells.size) :
    (FlashDevice.read address length).outcome (brittleFlash device accesses) =
      (.ok (Cells.slice device.cells address length),
        brittleFlash device (accesses ++ [⟨.read, address, length⟩])) := by
  have hread : (FlashDevice.read address length).outcome device =
      (.ok (Cells.slice device.cells address length), device) := by
    rw [KeepsCells.read_eq]
    exact congrArg (·, device) (if_pos hfits)
  have hfaulty := FaultyFlash.outcome_read (f := (brittleFlash device accesses).device) rfl rfl hread
  refine (WatchedFlash.outcome_record _ _ _).trans ?_
  rw [hfaulty]
  rfl

def brittleState : SessionState ScriptedBlock (WatchedFlash (FaultyFlash EmulatedFlash)) where
  channel := { registers := {} }
  flash := brittleFlash plainFlash []

/-- The reads that load both tables. -/
def loadingReads : List FlashAccess :=
  [⟨.read, 0x100000, tableSize⟩, ⟨.read, 0x110000, tableSize⟩]

def loadedState : SessionState ScriptedBlock (WatchedFlash (FaultyFlash EmulatedFlash)) where
  channel := { registers := {} }
  flash := brittleFlash plainFlash loadingReads
  table := FlashPlan.plain.table
  block := FlashPlan.plain.block

theorem ends_load_brittleState : Ends brittleSession.load brittleState (.ok ()) loadedState := by
  have hstores : Stores brittleSession plainFlash.cells FlashPlan.plain.table
      (some FlashPlan.plain.block) :=
    (stores_formatted ⟨rfl, rfl, rfl⟩ (reachable_plain _) standardSize_le_blank rfl).1
  have hplace : placeOf? FlashPlan.plain.table brittleSession.layout.blockName = some 0x110000 :=
    (reachable_plain 0x140000).places.2.1
  obtain ⟨htable, hverifies⟩ := tableIn?_eq_some hstores.table
  have hblock := hstores.block
  rw [storedBlock?, hplace, Option.bind_some] at hblock
  obtain ⟨hblock, hverifies'⟩ := blockIn?_eq_some hblock
  have hfits (address : ℕ) (h : address + tableSize ≤ 0x140000) :
      address + tableSize ≤ plainFlash.cells.size := by
    rwa [size_plainFlash]
  have hfirst := ends_loadTable_of_read (c := brittleSession) (s := brittleState)
    (read_brittleFlash plainFlash [] (hfits _ (by decide))) htable hverifies
  have hsecond := ends_loadBlock_of_read (c := brittleSession)
    (s := { brittleState with
      flash := brittleFlash plainFlash [⟨.read, 0x100000, tableSize⟩]
      table := FlashPlan.plain.table }) hplace
    (read_brittleFlash plainFlash _ (hfits _ (by decide))) hblock hverifies'
  exact hfirst.discard_ok.bind hsecond.discard_ok

/-- A protected slot is not deleted. By then both tables have been loaded, and nothing else was asked of the
device. -/
theorem refused_changes_nothing_protected : ∃ s',
    Ends (brittleSession.call (.deleteSlot 0)) brittleState (.error .invalidArgument) s' ∧
      s'.flash.accesses = loadingReads ∧
      (∃ accesses, s'.flash.accesses = brittleState.flash.accesses ++ accesses ∧
        ∀ a ∈ accesses, a.call = .read) ∧
      s'.flash.device.device.cells = plainFlash.cells := by
  have hread (f : FaultyFlash EmulatedFlash) (address length : ℕ) :
      ((FlashDevice.read address length).outcome f).2.device.cells = f.device.cells :=
    FaultyFlash.read_keeps (fun f address length => by rw [KeepsCells.read_eq]) f address length
  obtain ⟨r, s', hends, hatomic⟩ := refused_changes_nothing (fun f => f.device.cells) hread
    brittleSession (.deleteSlot 0) rfl brittleState
  have hprotected : FlashPlan.plain.table.listed[0]?.map PartitionEntry.isProtected = some true := by
    decide +kernel
  obtain ⟨e, he, hp⟩ := Option.map_eq_some_iff.mp hprotected
  have hrefused : Ends (brittleSession.deleteSlot 0) brittleState (.error .invalidArgument) loadedState :=
    ends_load_brittleState.bind (ends_mutableEntry_protected (s := loadedState) he hp).bind_error
  obtain ⟨rfl, rfl⟩ := hends.unique hrefused
  obtain ⟨haccesses, hcells⟩ := hatomic ⟨.invalidArgument, rfl, nofun⟩
  exact ⟨_, hends, rfl, haccesses, hcells⟩

end Session

end RemoteUpdate
