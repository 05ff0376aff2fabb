import RemoteUpdate.Proofs.Mailbox.Calls
import RemoteUpdate.Proofs.Session.Calls
import RemoteUpdate.Proofs.Session.Effects

/-!
# What calls are made of

Every call of a session is put together from a few parts: looks at the scratch copies and at how large the
flash device is, changes of the copies, reads, writes and erases of the device, requests of the device manager,
log entries and failures. What holds of the parts, and of what is put together from parts of which it holds,
holds of every call (`Composes`). One such thing is that a program comes to an end with a result: whatever the
flash device holds and answers, and whatever the device manager answers, every call succeeds or fails, and none
is aborted.
-/

namespace RemoteUpdate

namespace Session

variable {ρ φ α β : Type} [RegisterBlock ρ] [FlashDevice φ]

/-- What holds of the parts that calls are made of, and of everything put together from such parts. -/
structure Composes (c : Session ρ) (P : ∀ {α : Type}, SessionM ρ φ α → Prop) : Prop where
  pure {α : Type} (a : α) : P (pure a)
  throw {α : Type} (e : UpdateError) : P (throw e : SessionM ρ φ α)
  bind {α β : Type} {x : SessionM ρ φ α} {f : α → SessionM ρ φ β} : P x → (∀ a, P (f a)) → P (x >>= f)
  tryCatch {α : Type} {x : SessionM ρ φ α} {handle : UpdateError → SessionM ρ φ α} :
    P x → (∀ e, P (handle e)) → P (tryCatch x handle)
  /-- A program may look at the copies and at how large the device is. -/
  look {α : Type} {f : SessionState ρ φ → SessionM ρ φ α}
    (same : ∀ s t, s.table = t.table → s.block = t.block →
      FlashDevice.capacity s.flash = FlashDevice.capacity t.flash → f s = f t) :
    (∀ s, P (f s)) → P (get >>= f)
  setTable (table : PartitionTable) : P (modify fun s => { s with table })
  setBlock (block : PointerBlock) : P (modify fun s => { s with block })
  log (e : SessionEvent) : P (log e)
  read (address length : ℕ) : P (onFlash (FlashDevice.read address length))
  write (address : ℕ) (bytes : List UInt8) : P (onFlash (FlashDevice.write address bytes))
  erase (address length : ℕ) : P (onFlash (FlashDevice.erase address length))
  updateStatus : P (onMailbox c.mailbox.updateStatus)
  notifyStage (value : UInt32) : P (onMailbox (c.mailbox.notifyStage value))
  deviceInfo : P (onMailbox c.mailbox.deviceInfo)
  requestUpdate (offset : UInt64) : P (onMailbox (c.mailbox.requestUpdate offset))

namespace Composes

variable {c : Session ρ} {P : ∀ {α : Type}, SessionM ρ φ α → Prop} (h : Composes c P)
include h

/-! ### Parts of calls -/

protected theorem discard {x : SessionM ρ φ α} (hx : P x) : P (discard x) := by
  rw [Functor.discard, map_const, Function.comp_apply, map_eq_pure_bind]
  exact h.bind hx fun _ => h.pure ()

theorem require (r : Except UpdateError α) : P (Session.require r) := by
  cases r with
  | error e => exact h.throw e
  | ok a => exact h.pure a

theorem found (o : Option α) : P (Session.found o) := by
  cases o with
  | none => exact h.throw _
  | some a => exact h.pure a

/-- Nothing comes after a failure. -/
theorem throw_bind (e : UpdateError) (f : α → SessionM ρ φ β) : P (MonadExcept.throw e >>= f) := by
  have hf : (MonadExcept.throw e >>= f : SessionM ρ φ β) = MonadExcept.throw e := rfl
  rw [hf]
  exact h.throw e

theorem logFailure (e : SessionEvent) {x : SessionM ρ φ α} (hx : P x) : P (Session.logFailure e x) :=
  h.tryCatch hx fun _ => h.bind (h.log e) fun _ => h.throw _

theorem verifiedTable (t : PartitionTable) : P (Session.verifiedTable t) := by
  unfold Session.verifiedTable
  split
  · exact h.pure t
  · exact h.bind (h.log _) fun _ => h.throw _

theorem verifiedBlock (b : PointerBlock) : P (Session.verifiedBlock b) := by
  unfold Session.verifiedBlock
  split
  · exact h.pure b
  · exact h.bind (h.log _) fun _ => h.throw _

theorem fitting (room : ℕ) (bytes : List UInt8) : P (Session.fitting room bytes) := by
  unfold Session.fitting
  split
  · exact h.pure bytes
  · exact h.throw _

theorem lookTable {f : SessionState ρ φ → SessionM ρ φ α} (same : ∀ s t, s.table = t.table → f s = f t)
    (hf : ∀ s, P (f s)) : P (get >>= f) :=
  h.look (fun s t ht _ _ => same s t ht) hf

theorem lookBlock {f : SessionState ρ φ → SessionM ρ φ α} (same : ∀ s t, s.block = t.block → f s = f t)
    (hf : ∀ s, P (f s)) : P (get >>= f) :=
  h.look (fun s t _ hb _ => same s t hb) hf

theorem lookCapacity {f : SessionState ρ φ → SessionM ρ φ α}
    (same : ∀ s t, FlashDevice.capacity s.flash = FlashDevice.capacity t.flash → f s = f t)
    (hf : ∀ s, P (f s)) : P (get >>= f) :=
  h.look (fun s t _ _ hc => same s t hc) hf

theorem partitionOffset? (name : String) : P (Session.partitionOffset? name) :=
  h.lookTable (fun _ _ ht => by rw [ht]) fun _ => h.pure _

theorem blockOffset : P c.blockOffset := by
  refine h.bind (h.partitionOffset? _) fun o => ?_
  cases o with
  | none => exact h.bind (h.log _) fun _ => h.throw _
  | some offset => exact h.pure offset

theorem slotEntry (slot : ℕ) : P (Session.slotEntry slot) :=
  h.lookTable (fun _ _ ht => by rw [ht]) fun _ => h.require _

theorem mutableEntry (slot : ℕ) : P (Session.mutableEntry slot) := by
  refine h.bind (h.slotEntry slot) fun e => ?_
  dsimp only
  split
  · exact h.bind (h.log _) fun _ => h.throw _
  · exact h.pure e

theorem checkImage (kind : ImageKind) (image : List UInt8) : P (c.checkImage kind image) := by
  have check (valid : Bool) : P (do
      unless valid do
        Session.log .imageRejected
        MonadExcept.throw .invalidArgument : SessionM ρ φ Unit) := by
    cases valid with
    | true => exact h.pure ()
    | false => exact h.bind (h.log _) fun _ => h.throw _
  cases kind with
  | application => exact check (c.verifier.accepts image)
  | factoryUpdate => exact check (c.verifier.acceptsFactory image)
  | raw => exact check true

theorem notifyAction (action : UInt32) : P (c.notifyAction action) := by
  refine h.bind h.updateStatus fun status => ?_
  dsimp only
  split
  · exact h.bind (h.log _) fun _ => h.throw_bind _ _
  · exact h.notifyStage _

/-- An access of a partition is refused, or one of the device. -/
theorem onPartition (p : FlashPartition) (offset length : ℕ) {x : ℕ → FlashM φ α}
    (hx : ∀ address, P (onFlash (x address))) : P (onFlash (p.locate offset length >>= x)) := by
  unfold FlashPartition.locate
  split
  · exact hx (p.base + offset)
  · exact h.throw (.flash .size)

theorem loadTable : P c.loadTable := by
  refine h.bind (h.logFailure _ ?_) fun t => h.bind (h.setTable t) fun _ => h.pure t
  exact h.bind (h.read _ _) fun _ => h.bind (h.require _) fun t => h.verifiedTable t

theorem loadBlock : P c.loadBlock := by
  refine h.bind h.blockOffset fun _ => h.bind (h.read _ _) fun _ => h.bind (h.require _) fun b => ?_
  exact h.bind (h.logFailure _ (h.verifiedBlock b)) fun b => h.bind (h.setBlock b) fun _ => h.pure b

theorem load : P c.load :=
  h.bind (h.discard h.loadTable) fun _ => h.discard h.loadBlock

theorem replace (offset : UInt64) (space : ℕ) (bytes : List UInt8) :
    P (Session.replace offset space bytes) :=
  h.bind (h.erase _ _) fun _ => h.write _ _

theorem saveTable : P c.saveTable :=
  h.lookTable (fun _ _ ht => by rw [ht]) fun _ =>
    h.bind (h.replace _ _ _) fun _ => h.bind (h.replace _ _ _) fun _ => h.log _

theorem saveBlock : P c.saveBlock := by
  refine h.bind h.blockOffset fun _ => h.lookBlock (fun _ _ hb => by rw [hb]) fun _ => ?_
  refine h.bind (h.replace _ _ _) fun _ => ?_
  refine h.bind (h.partitionOffset? _) fun backup => ?_
  cases backup with
  | none => exact h.log _
  | some _ => exact h.bind (h.replace _ _ _) fun _ => h.log _

theorem slotPartition (e : PartitionEntry) : P (Session.slotPartition e) :=
  h.lookCapacity (fun _ _ hc => by rw [hc]) fun _ => h.require _

theorem compare (p : FlashPartition) (offset : ℕ) (expected : List UInt8) :
    P (Session.compare p offset expected) := by
  induction offset, expected using Session.compare.induct with
  | case1 offset expected hnil =>
    rw [Session.compare, if_pos hnil]
    exact h.pure ()
  | case2 offset expected hne ih =>
    rw [Session.compare, if_neg hne]
    refine h.bind (h.onPartition p _ _ fun _ => h.read _ _) fun got => ?_
    split
    · exact h.bind (h.log _) fun _ => h.throw _
    · exact ih

theorem disablePointer (slot : ℕ) (e : PartitionEntry) : P (c.disablePointer slot e) := by
  refine h.lookBlock (fun _ _ hb => by rw [hb]) fun s => ?_
  rcases s.block.disable e.offset with ⟨_ | _, block⟩
  · exact h.pure ()
  · exact h.bind (h.setBlock block) fun _ => h.bind h.saveBlock fun _ => h.log _

theorem enablePointer (slot : ℕ) (e : PartitionEntry) : P (c.enablePointer slot e) := by
  refine h.lookBlock (fun _ _ hb => by rw [hb]) fun s => ?_
  rcases s.block.enable e.offset with ⟨(_ | _) | _ | _, block⟩
  · exact h.bind (h.setBlock block) fun _ => h.throw _
  · exact h.bind (h.setBlock block) fun _ => h.bind (h.log _) fun _ => h.throw _
  · exact h.bind (h.setBlock block) fun _ => h.pure ()
  · exact h.bind (h.setBlock block) fun _ => h.bind h.saveBlock fun _ => h.log _

/-! ### Calls -/

theorem createSlot (name : String) (offset : UInt64) (size : UInt32) :
    P (c.createSlot name offset size) := by
  refine h.bind h.loadTable fun table => h.bind (h.require _) fun e => ?_
  dsimp only
  split
  · exact h.throw_bind _ _
  split
  · exact h.throw_bind _ _
  refine h.lookCapacity (fun _ _ hc => by rw [hc]) fun s => h.bind (h.require _) fun top => ?_
  split
  · exact h.throw_bind _ _
  refine h.bind (h.require _) fun other => ?_
  cases other with
  | some i => exact h.bind (h.log _) fun _ => h.throw_bind _ _
  | none =>
    refine h.bind (h.require _) fun (slot, table) => ?_
    exact h.bind (h.setTable table) fun _ => h.bind h.saveTable fun _ => h.bind (h.log _) fun _ => h.pure slot

theorem deleteSlot (slot : ℕ) : P (c.deleteSlot slot) := by
  refine h.bind h.load fun _ => h.bind (h.mutableEntry slot) fun e => ?_
  refine h.bind (h.disablePointer slot e) fun _ => h.lookTable (fun _ _ ht => by rw [ht]) fun s => ?_
  refine h.bind (h.require _) fun (_, table) => ?_
  exact h.bind (h.setTable table) fun _ => h.bind h.saveTable fun _ => h.log _

theorem renameSlot (slot : ℕ) (name : String) : P (c.renameSlot slot name) := by
  refine h.bind h.loadTable fun table => h.bind (h.mutableEntry slot) fun e => ?_
  have edit : P (do
      let table ← Session.require (table.modifyEntry slot (·.rename name))
      modify fun s => { s with table }
      c.saveTable
      Session.log (.slotRenamed slot e.nameText name) : SessionM ρ φ Unit) :=
    h.bind (h.require _) fun table => h.bind (h.setTable table) fun _ => h.bind h.saveTable fun _ => h.log _
  dsimp only
  split
  · split
    · exact h.throw_bind _ _
    · exact edit
  · exact edit

theorem eraseSlot (slot : ℕ) : P (c.eraseSlot slot) :=
  h.bind h.load fun _ => h.bind (h.mutableEntry slot) fun e => h.bind (h.disablePointer slot e) fun _ =>
    h.bind (h.slotPartition e) fun p => h.bind (h.onPartition p _ _ fun _ => h.erase _ _) fun _ => h.log _

theorem programSlot (kind : ImageKind) (slot : ℕ) (image : List UInt8) :
    P (c.programSlot kind slot image) := by
  refine h.bind h.load fun _ => h.bind (h.mutableEntry slot) fun e => ?_
  dsimp only
  split
  · exact h.throw_bind _ _
  refine h.bind (h.checkImage kind image) fun _ => h.bind (h.disablePointer slot e) fun _ => ?_
  refine h.bind (h.slotPartition e) fun p => h.bind (h.onPartition p _ _ fun _ => h.erase _ _) fun _ => ?_
  refine h.bind (h.onPartition p _ _ fun _ => h.write _ _) fun _ => ?_
  refine h.bind (h.compare p 0 image) fun _ => h.bind (h.log _) fun _ => ?_
  split
  · exact h.pure ()
  · exact h.enablePointer slot e

theorem verifySlot (kind : ImageKind) (slot : ℕ) (image : List UInt8) :
    P (c.verifySlot kind slot image) := by
  refine h.bind (h.discard h.loadTable) fun _ => h.bind (h.slotEntry slot) fun e => ?_
  dsimp only
  split
  · exact h.throw_bind _ _
  · exact h.bind (h.checkImage kind image) fun _ => h.bind (h.slotPartition e) fun p => h.compare p 0 image

theorem listing : P c.listing := by
  refine h.bind ?_ fun (status, offset) => h.look (fun _ _ ht hb _ => by rw [ht, hb]) fun s => h.pure _
  exact h.bind h.updateStatus fun status => h.bind h.load fun _ => h.bind h.blockOffset fun _ => h.pure _

theorem restoreTable (bytes : List UInt8) : P (c.restoreTable bytes) :=
  h.bind (h.require _) fun t => h.bind (h.verifiedTable t) fun t => h.bind (h.setTable t) fun _ =>
    h.bind (h.log _) fun _ => h.saveTable

theorem restoreBlock (bytes : List UInt8) : P (c.restoreBlock bytes) :=
  h.bind (h.require _) fun b => h.bind (h.verifiedBlock b) fun b => h.bind (h.discard h.loadTable) fun _ =>
    h.bind (h.setBlock b) fun _ => h.bind (h.log _) fun _ => h.saveBlock

theorem createEmptyBlock : P c.createEmptyBlock :=
  h.bind (h.discard h.loadTable) fun _ => h.bind (h.setBlock _) fun _ => h.bind (h.log _) fun _ => h.saveBlock

theorem loadSlot (slot : ℕ) : P (c.loadSlot slot) :=
  h.bind (h.discard h.loadTable) fun _ => h.bind (h.mutableEntry slot) fun _ => h.bind (h.log _) fun _ =>
    h.requestUpdate _

theorem loadFactory : P c.loadFactory :=
  h.bind (h.discard h.loadTable) fun _ => h.bind (h.partitionOffset? _) fun o => h.bind (h.found o) fun _ =>
    h.bind (h.log _) fun _ => h.requestUpdate _

theorem runningFactory : P c.runningFactory :=
  h.bind h.updateStatus fun _ => h.bind (h.discard h.loadTable) fun _ =>
    h.bind (h.partitionOffset? _) fun o => h.bind (h.found o) fun _ => h.pure _

/-- Every call is put together from the parts. -/
theorem call (k : SessionCall) : P (c.call k) := by
  cases k with
  | slotCount => exact h.bind h.loadTable fun t => h.pure t.size
  | slotByName name => exact h.bind h.loadTable fun t => h.found _
  | slotInfo slot =>
    exact h.bind h.load fun _ => h.bind (h.slotEntry slot) fun e =>
      h.lookBlock (fun _ _ hb => by rw [hb]) fun _ => h.pure _
  | slotSize slot =>
    exact h.bind (h.discard h.loadTable) fun _ => h.bind (h.slotEntry slot) fun e => h.pure e.length
  | slotPriority slot =>
    exact h.bind h.load fun _ => h.bind (h.slotEntry slot) fun e =>
      h.lookBlock (fun _ _ hb => by rw [hb]) fun _ => h.pure _
  | createSlot name offset size => exact h.createSlot name offset size
  | deleteSlot slot => exact h.deleteSlot slot
  | renameSlot slot name => exact h.renameSlot slot name
  | enableSlot slot =>
    exact h.bind h.load fun _ => h.bind (h.mutableEntry slot) fun e => h.enablePointer slot e
  | disableSlot slot =>
    exact h.bind h.load fun _ => h.bind (h.mutableEntry slot) fun e => h.disablePointer slot e
  | eraseSlot slot => exact h.eraseSlot slot
  | programSlot kind slot image => exact h.programSlot kind slot image
  | verifySlot kind slot image => exact h.verifySlot kind slot image
  | loadSlot slot => exact h.loadSlot slot
  | loadFactory => exact h.loadFactory
  | runningFactory => exact h.runningFactory
  | list => exact h.listing
  | loadTable => exact h.loadTable
  | load => exact h.load
  | exportTable room => exact h.bind h.loadTable fun t => h.fitting room _
  | exportBlock room =>
    exact h.bind (h.discard h.loadTable) fun _ => h.bind h.loadBlock fun b => h.fitting room _
  | restoreTable bytes => exact h.restoreTable bytes
  | restoreBlock bytes => exact h.restoreBlock bytes
  | createEmptyBlock => exact h.createEmptyBlock
  | status => exact h.updateStatus
  | notify stage => exact h.notifyStage _
  | notifyAction action => exact h.notifyAction action
  | clearError => exact h.bind (h.notifyAction _) fun _ => h.log _
  | resetRetries => exact h.bind (h.notifyAction _) fun _ => h.log _
  | deviceInfo => exact h.deviceInfo
  | update offset => exact h.requestUpdate offset

end Composes

end Session

end RemoteUpdate
