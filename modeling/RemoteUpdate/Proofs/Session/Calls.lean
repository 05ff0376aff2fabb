import Mathlib.Data.Nat.Notation
import RemoteUpdate.Proofs.Runs
import RemoteUpdate.Session.Slots
import RemoteUpdate.Session.Status

/-!
# Calls

A caller may ask a session for many things one after the other, and whether one call succeeds or fails the
next one may be made. Between two calls a session keeps scratch copies of both tables. No call depends on
what they hold: whatever the device holds and however its calls fail, two sessions that differ in nothing
else answer alike, log alike, and leave the device and the device manager alike.

Programs are judged by the copies that two states are known to share. A load makes the states share what it
has loaded; once both copies are shared the states are the same, and nothing is left to show.
-/

namespace RemoteUpdate

/-- What a caller may ask a session for. -/
inductive SessionCall where
  | slotCount
  | slotByName (name : String)
  | slotInfo (slot : ℕ)
  | slotSize (slot : ℕ)
  | slotPriority (slot : ℕ)
  | createSlot (name : String) (offset : UInt64) (size : UInt32)
  | deleteSlot (slot : ℕ)
  | renameSlot (slot : ℕ) (name : String)
  | enableSlot (slot : ℕ)
  | disableSlot (slot : ℕ)
  | eraseSlot (slot : ℕ)
  | programSlot (kind : Session.ImageKind) (slot : ℕ) (image : List UInt8)
  | verifySlot (kind : Session.ImageKind) (slot : ℕ) (image : List UInt8)
  | loadSlot (slot : ℕ)
  | loadFactory
  | runningFactory
  | list
  | loadTable
  | load
  | exportTable (room : ℕ)
  | exportBlock (room : ℕ)
  | restoreTable (bytes : List UInt8)
  | restoreBlock (bytes : List UInt8)
  | createEmptyBlock
  | status
  | notify (stage : UInt32)
  | notifyAction (action : UInt32)
  | clearError
  | resetRetries
  | deviceInfo
  | update (offset : UInt64)

/-- The status and both tables, as they are listed. -/
structure SessionListing where
  status : UpdateStatus
  tableOffsets : UInt64 × UInt64
  blockOffset : UInt64
  table : PartitionTable
  block : PointerBlock

/-- What a call returns if it succeeds. -/
def SessionCall.Value : SessionCall → Type
  | .slotCount | .slotByName _ | .slotPriority _ | .createSlot .. => ℕ
  | .slotInfo _ => Session.SlotInfo
  | .slotSize _ => UInt32
  | .runningFactory => Bool
  | .list => SessionListing
  | .loadTable => PartitionTable
  | .exportTable _ | .exportBlock _ => List UInt8
  | .status => UpdateStatus
  | .deviceInfo => DeviceInfo
  | _ => Unit

/-- A call that has been answered, and what the device manager and the device were left like. -/
structure Answered (ρ φ : Type) where
  call : SessionCall
  result : Except UpdateError call.Value
  channel : Channel ρ
  flash : φ

namespace Session

variable {ρ φ α β : Type}

section Definitions

variable [RegisterBlock ρ] [FlashDevice φ]

def listing (c : Session ρ) : SessionM ρ φ SessionListing := do
  let (status, blockOffset) ← c.survey
  let s ← get
  return { status, tableOffsets := c.tableOffsets, blockOffset, table := s.table, block := s.block }

def call (c : Session ρ) : (k : SessionCall) → SessionM ρ φ k.Value
  | .slotCount => c.slotCount
  | .slotByName name => c.slotByName name
  | .slotInfo slot => c.slotInfo slot
  | .slotSize slot => c.slotSize slot
  | .slotPriority slot => c.slotPriority slot
  | .createSlot name offset size => c.createSlot name offset size
  | .deleteSlot slot => c.deleteSlot slot
  | .renameSlot slot name => c.renameSlot slot name
  | .enableSlot slot => c.enableSlot slot
  | .disableSlot slot => c.disableSlot slot
  | .eraseSlot slot => c.eraseSlot slot
  | .programSlot kind slot image => c.programSlot kind slot image
  | .verifySlot kind slot image => c.verifySlot kind slot image
  | .loadSlot slot => c.loadSlot slot
  | .loadFactory => c.loadFactory
  | .runningFactory => c.runningFactory
  | .list => c.listing
  | .loadTable => c.loadTable
  | .load => c.load
  | .exportTable room => c.exportTable room
  | .exportBlock room => c.exportBlock room
  | .restoreTable bytes => c.restoreTable bytes
  | .restoreBlock bytes => c.restoreBlock bytes
  | .createEmptyBlock => c.createEmptyBlock
  | .status => c.status
  | .notify stage => c.notify stage
  | .notifyAction action => c.notifyAction action
  | .clearError => c.clearError
  | .resetRetries => c.resetRetries
  | .deviceInfo => c.deviceInfo
  | .update offset => c.update offset

def callAll (c : Session ρ) :
    List SessionCall → StateT (SessionState ρ φ) LogM (List (Answered ρ φ))
  | [] => pure []
  | k :: rest => do
    let result ← (c.call k).run
    let s ← get
    let others ← c.callAll rest
    return { call := k, result, channel := s.channel, flash := s.flash } :: others

end Definitions

/-! ### States that differ in scratch copies -/

/-- Which scratch copies two states share. -/
inductive Shared where
  | neither
  | table
  | both

/-- Two states that differ at most in scratch copies that they need not share. -/
def Alike : Shared → SessionState ρ φ → SessionState ρ φ → Prop
  | .neither, s, t => ∃ table block, t = { s with table, block }
  | .table, s, t => ∃ block, t = { s with block }
  | .both, s, t => t = s

namespace Alike

variable {k : Shared} {s t : SessionState ρ φ}

theorem neither (h : Alike k s t) : Alike .neither s t := by
  cases k with
  | neither => exact h
  | table =>
    obtain ⟨block, rfl⟩ := h
    exact ⟨s.table, block, rfl⟩
  | both =>
    obtain rfl : t = s := h
    exact ⟨t.table, t.block, rfl⟩

theorem channel (h : Alike k s t) : t.channel = s.channel := by
  obtain ⟨table, block, rfl⟩ := h.neither
  rfl

theorem flash (h : Alike k s t) : t.flash = s.flash := by
  obtain ⟨table, block, rfl⟩ := h.neither
  rfl

theorem table (h : Alike .table s t) : t.table = s.table := by
  obtain ⟨block, rfl⟩ := h
  rfl

theorem map (h : Alike k s t) (g : SessionState ρ φ → SessionState ρ φ)
    (hg : ∀ s table block, g { s with table, block } = { g s with table, block }) :
    Alike k (g s) (g t) := by
  cases k with
  | neither =>
    obtain ⟨table, block, rfl⟩ := h
    exact ⟨table, block, hg s table block⟩
  | table =>
    obtain ⟨block, rfl⟩ := h
    have htable := congrArg SessionState.table (hg s s.table s.block)
    refine ⟨block, (hg s s.table block).trans ?_⟩
    exact congrArg (fun table => { g s with table, block }) htable.symm
  | both =>
    obtain rfl : t = s := h
    rfl

end Alike

/-- Two runs from states that are alike: both are aborted, or both end with the same result and the same log.
The states that they leave share these copies if the runs succeed. -/
inductive Agree (k : Shared) : (x y : Option ((Except UpdateError α × SessionState ρ φ) × Log)) → Prop where
  | aborted : Agree k none none
  | failed {s t : SessionState ρ φ} (e : UpdateError) (log : Log) (h : Alike .neither s t) :
    Agree k (some ((.error e, s), log)) (some ((.error e, t), log))
  | succeeded {s t : SessionState ρ φ} (a : α) (log : Log) (h : Alike k s t) :
    Agree k (some ((.ok a, s), log)) (some ((.ok a, t), log))

/-- From states that share the copies `k` the program runs alike, and if it succeeds it leaves states that
share the copies `k'`. -/
def Forgets (k k' : Shared) (x : SessionM ρ φ α) : Prop :=
  ∀ s t log, Alike k s t → Agree k' (x.run s log) (x.run t log)

namespace Forgets

variable {k k' k'' : Shared} {x : SessionM ρ φ α} {f : α → SessionM ρ φ β}

theorem run_bind (x : SessionM ρ φ α) (f : α → SessionM ρ φ β) (s : SessionState ρ φ) (log : Log) :
    (x >>= f).run s log = (x.run s log).bind fun r =>
      match r with
      | ((.error e, s'), log') => some ((.error e, s'), log')
      | ((.ok a, s'), log') => (f a).run s' log' := by
  show ((x.run s log).bind _) = _
  congr 1
  funext ⟨⟨r, s'⟩, log'⟩
  cases r <;> rfl

theorem bind (h : Forgets k k' x) (hf : ∀ a, Forgets k' k'' (f a)) : Forgets k k'' (x >>= f) := by
  intro s t log hst
  have hx := h s t log hst
  rw [run_bind, run_bind]
  generalize x.run s log = p, x.run t log = q at hx
  cases hx with
  | aborted => exact .aborted
  | failed e log' h => exact .failed e log' h
  | succeeded a log' h => exact hf a _ _ log' h

theorem pure (a : α) : Forgets k k (Pure.pure a : SessionM ρ φ α) :=
  fun _ _ log h => .succeeded a log h

theorem throw (e : UpdateError) : Forgets k k' (throw e : SessionM ρ φ α) :=
  fun _ _ log h => .failed e log h.neither

theorem throw_bind (e : UpdateError) : Forgets k k' (MonadExcept.throw e >>= f) :=
  fun _ _ log h => .failed e log h.neither

protected theorem discard (h : Forgets k k' x) : Forgets k k' (discard x) := by
  rw [discard, map_const, Function.comp_apply, map_eq_pure_bind]
  exact h.bind fun _ => pure ()

theorem of_both (x : SessionM ρ φ α) : Forgets .both .both x := by
  intro s t log hst
  obtain rfl : t = s := hst
  rcases x.run t log with _ | ⟨⟨_ | _, t'⟩, log'⟩
  · exact .aborted
  · exact .failed _ log' ⟨t'.table, t'.block, rfl⟩
  · exact .succeeded _ log' (show t' = t' from rfl)

theorem neither (h : Forgets k k' x) : Forgets k .neither x := by
  intro s t log hst
  have hx := h s t log hst
  generalize x.run s log = p, x.run t log = q at hx ⊢
  cases hx with
  | aborted => exact .aborted
  | failed e log' h => exact .failed e log' h
  | succeeded a log' h => exact .succeeded a log' h.neither

theorem look {f : SessionState ρ φ → SessionM ρ φ α} (hf : ∀ s t, Alike k s t → f t = f s)
    (h : ∀ s, Forgets k k' (f s)) : Forgets k k' (MonadState.get >>= f) := by
  intro s t log hst
  show Agree k' ((f s).run s log) ((f t).run t log)
  rw [hf s t hst]
  exact h s s t log hst

theorem log (e : SessionEvent) : Forgets k k (Session.log e : SessionM ρ φ Unit) :=
  fun _ _ log h => .succeeded () (log.push (.session e)) h

theorem require (r : Except UpdateError α) : Forgets k k (Session.require r : SessionM ρ φ α) := by
  cases r with
  | error e => exact throw e
  | ok a => exact pure a

theorem found (o : Option α) : Forgets k k (Session.found o : SessionM ρ φ α) := by
  cases o with
  | none => exact throw _
  | some a => exact pure a

theorem logFailure (e : SessionEvent) (h : Forgets k k' x) : Forgets k k' (Session.logFailure e x) := by
  have run_logFailure : ∀ (s : SessionState ρ φ) (log : Log), (Session.logFailure e x).run s log =
      (x.run s log).bind fun r => match r with
        | ((.error failure, s'), log') => some ((.error failure, s'), log'.push (.session e))
        | ((.ok a, s'), log') => some ((.ok a, s'), log') := by
    intro s log
    show ((x.run s log).bind _) = _
    congr 1
    funext ⟨⟨r, s'⟩, log'⟩
    cases r <;> rfl
  intro s t log hst
  have hx := h s t log hst
  rw [run_logFailure, run_logFailure]
  generalize x.run s log = p, x.run t log = q at hx
  cases hx with
  | aborted => exact .aborted
  | failed failure log' h => exact .failed failure _ h
  | succeeded a log' h => exact .succeeded a log' h

/-- A program that runs on what is not scratch. -/
theorem of_focus {τ : Type} {part : SessionState ρ φ → τ} {put : τ → SessionState ρ φ → SessionState ρ φ}
    {y : StateT τ LogM (Except UpdateError α)} (hpart : ∀ s t, Alike k s t → part t = part s)
    (hput : ∀ s t p, Alike k s t → Alike k (put p s) (put p t)) :
    Forgets k k (ExceptT.mk (focus part put y)) := by
  have run_focus : ∀ s log, (ExceptT.mk (focus part put y) : SessionM ρ φ α).run s log =
      (y (part s) log).bind fun r => some ((r.1.1, put r.1.2 s), r.2) := fun _ _ => rfl
  intro s t log hst
  rw [run_focus, run_focus, hpart s t hst]
  rcases y (part s) log with _ | ⟨⟨_ | _, p⟩, log'⟩
  · exact .aborted
  · exact .failed _ log' (hput s t p hst).neither
  · exact .succeeded _ log' (hput s t p hst)

theorem onFlash (x : FlashM φ α) : Forgets k k (Session.onFlash x : SessionM ρ φ α) :=
  of_focus (fun _ _ h => h.flash) fun _ _ flash h =>
    h.map (fun s => { s with flash }) fun _ _ _ => rfl

theorem onMailbox (x : MailboxM ρ α) : Forgets k k (Session.onMailbox x : SessionM ρ φ α) := by
  have onMailbox_eq : (Session.onMailbox x : SessionM ρ φ α) =
      ExceptT.mk (focus SessionState.channel (fun channel s => { s with channel }) do
        return (← Channel.onRegisters x.run).mapError .ofMailbox) := by
    funext s log
    show ((Channel.onRegisters x.run s.channel log).bind _).bind _ =
      ((Channel.onRegisters x.run s.channel log).bind _).bind _
    rw [Option.bind_assoc, Option.bind_assoc]
    rfl
  rw [onMailbox_eq]
  exact of_focus (fun _ _ h => h.channel) fun _ _ channel h =>
    h.map (fun s => { s with channel }) fun _ _ _ => rfl

/-! #### Copies that are replaced -/

theorem setTable (table : PartitionTable) : Forgets .neither .table
    (modify fun s => { s with table } : SessionM ρ φ Unit) := by
  rintro s _ log ⟨table', block, rfl⟩
  exact .succeeded () log ⟨block, rfl⟩

theorem resetTable (table : PartitionTable) : Forgets .table .table
    (modify fun s => { s with table } : SessionM ρ φ Unit) := by
  rintro s _ log ⟨block, rfl⟩
  exact .succeeded () log ⟨block, rfl⟩

theorem setBlock (block : PointerBlock) : Forgets .table .both
    (modify fun s => { s with block } : SessionM ρ φ Unit) := by
  rintro s _ log ⟨block', rfl⟩
  exact .succeeded () log (show _ = _ from rfl)

/-! #### Parts of calls -/

theorem verifiedTable (t : PartitionTable) : Forgets k k (Session.verifiedTable t : SessionM ρ φ _) := by
  unfold Session.verifiedTable
  split
  · exact pure t
  · exact (log _).bind fun _ => throw _

theorem verifiedBlock (b : PointerBlock) : Forgets k k (Session.verifiedBlock b : SessionM ρ φ _) := by
  unfold Session.verifiedBlock
  split
  · exact pure b
  · exact (log _).bind fun _ => throw _

theorem fitting (room : ℕ) (bytes : List UInt8) :
    Forgets k k (Session.fitting room bytes : SessionM ρ φ _) := by
  unfold Session.fitting
  split
  · exact pure bytes
  · exact throw _

theorem partitionOffset? (name : String) :
    Forgets .table .table (Session.partitionOffset? name : SessionM ρ φ _) := by
  rintro s _ log ⟨block, rfl⟩
  exact .succeeded _ log ⟨block, rfl⟩

theorem blockOffset (c : Session ρ) : Forgets .table .table (c.blockOffset : SessionM ρ φ _) := by
  refine (partitionOffset? c.layout.blockName).bind fun o => ?_
  cases o with
  | none => exact (log _).bind fun _ => throw _
  | some offset => exact pure offset

theorem slotEntry (slot : ℕ) : Forgets .table .table (Session.slotEntry slot : SessionM ρ φ _) :=
  look (fun _ _ h => by rw [h.table]) fun _ => require _

theorem mutableEntry (slot : ℕ) : Forgets .table .table (Session.mutableEntry slot : SessionM ρ φ _) := by
  refine (slotEntry slot).bind fun e => ?_
  dsimp only
  split
  · exact (log _).bind fun _ => throw_bind _
  · exact pure e

theorem checkImage (c : Session ρ) (kind : ImageKind) (image : List UInt8) :
    Forgets k k (c.checkImage kind image : SessionM ρ φ Unit) := by
  have check (valid : Bool) : Forgets k k (do
      unless valid do
        Session.log .imageRejected
        MonadExcept.throw .invalidArgument : SessionM ρ φ Unit) := by
    cases valid with
    | true => exact pure ()
    | false => exact (log _).bind fun _ => throw _
  cases kind with
  | application => exact check (c.verifier.accepts image)
  | factoryUpdate => exact check (c.verifier.acceptsFactory image)
  | raw => exact check true

variable [FlashDevice φ]

theorem loadTable (c : Session ρ) : Forgets .neither .table (c.loadTable : SessionM ρ φ _) := by
  refine (logFailure _ ?_).bind fun t => (setTable t).bind fun _ => pure t
  exact (onFlash _).bind fun _ => (require _).bind fun t => verifiedTable t

theorem loadBlock (c : Session ρ) : Forgets .table .both (c.loadBlock : SessionM ρ φ _) := by
  refine (blockOffset c).bind fun offset => (onFlash _).bind fun bytes => (require _).bind fun b => ?_
  refine (logFailure _ (verifiedBlock b)).bind fun b => (setBlock b).bind fun _ => ?_
  exact pure b

theorem load (c : Session ρ) : Forgets .neither .both (c.load : SessionM ρ φ _) :=
  (loadTable c).discard.bind fun _ => (loadBlock c).discard

theorem replace (offset : UInt64) (space : ℕ) (bytes : List UInt8) :
    Forgets k k (Session.replace offset space bytes : SessionM ρ φ _) :=
  (onFlash _).bind fun _ => onFlash _

theorem saveTable (c : Session ρ) : Forgets .table .table (c.saveTable : SessionM ρ φ _) :=
  look (fun _ _ h => by rw [h.table]) fun _ =>
    (replace _ _ _).bind fun _ => (replace _ _ _).bind fun _ => log _

theorem slotPartition (e : PartitionEntry) : Forgets k k (Session.slotPartition e : SessionM ρ φ _) :=
  look (fun _ _ h => by rw [h.flash]) fun _ => require _

theorem compare (p : FlashPartition) (offset : ℕ) (expected : List UInt8) :
    Forgets k k (Session.compare p offset expected : SessionM ρ φ Unit) := by
  induction offset, expected using Session.compare.induct with
  | case1 offset expected hnil =>
    rw [Session.compare, if_pos hnil]
    exact pure ()
  | case2 offset expected hne ih =>
    rw [Session.compare, if_neg hne]
    refine (onFlash _).bind fun got => ?_
    split
    · exact (log _).bind fun _ => throw _
    · exact ih

/-! #### Calls -/

theorem createSlot (c : Session ρ) (name : String) (offset : UInt64) (size : UInt32) :
    Forgets .neither .table (c.createSlot name offset size : SessionM ρ φ _) := by
  refine (loadTable c).bind fun table => (require _).bind fun e => ?_
  dsimp only
  split
  · exact throw_bind _
  split
  · exact throw_bind _
  refine look (fun _ _ h => by rw [h.flash]) fun s => (require _).bind fun top => ?_
  split
  · exact throw_bind _
  refine (require _).bind fun meets => ?_
  cases meets with
  | some i => exact (log _).bind fun _ => throw_bind _
  | none =>
    refine (require _).bind fun (slot, table) => ?_
    exact (resetTable table).bind fun _ => (saveTable c).bind fun _ => (log _).bind fun _ => pure slot

theorem renameSlot (c : Session ρ) (slot : ℕ) (name : String) :
    Forgets .neither .table (c.renameSlot slot name : SessionM ρ φ _) := by
  refine (loadTable c).bind fun table => (mutableEntry slot).bind fun e => ?_
  have edit : Forgets .table .table (do
      let table ← Session.require (table.modifyEntry slot (·.rename name))
      modify fun s => { s with table }
      c.saveTable
      Session.log (.slotRenamed slot e.nameText name) : SessionM ρ φ Unit) :=
    (require _).bind fun table => (resetTable table).bind fun _ => (saveTable c).bind fun _ => log _
  dsimp only
  split
  · split
    · exact throw_bind _
    · exact edit
  · exact edit

theorem verifySlot (c : Session ρ) (kind : ImageKind) (slot : ℕ) (image : List UInt8) :
    Forgets .neither .table (c.verifySlot kind slot image : SessionM ρ φ Unit) := by
  refine (loadTable c).discard.bind fun _ => (slotEntry slot).bind fun e => ?_
  dsimp only
  split
  · exact throw_bind _
  · exact (checkImage c kind image).bind fun _ => (slotPartition e).bind fun p => compare p 0 image

theorem restoreTable (c : Session ρ) (bytes : List UInt8) :
    Forgets .neither .table (c.restoreTable bytes : SessionM ρ φ _) :=
  (require _).bind fun t => (verifiedTable t).bind fun t => (setTable t).bind fun _ =>
    (log _).bind fun _ => saveTable c

theorem restoreBlock (c : Session ρ) (bytes : List UInt8) :
    Forgets .neither .both (c.restoreBlock bytes : SessionM ρ φ _) :=
  (require _).bind fun b => (verifiedBlock b).bind fun b => (loadTable c).discard.bind fun _ =>
    (setBlock b).bind fun _ => of_both _

theorem createEmptyBlock (c : Session ρ) :
    Forgets .neither .both (c.createEmptyBlock : SessionM ρ φ _) :=
  (loadTable c).discard.bind fun _ => (setBlock _).bind fun _ => of_both _

variable [RegisterBlock ρ]

omit [FlashDevice φ] in
theorem notifyAction (c : Session ρ) (action : UInt32) :
    Forgets k k (c.notifyAction action : SessionM ρ φ _) := by
  refine (onMailbox _).bind fun status => ?_
  dsimp only
  split
  · exact (log _).bind fun _ => throw_bind _
  · exact onMailbox _

/-- No call depends on scratch copies. -/
theorem call (c : Session ρ) (k : SessionCall) :
    Forgets .neither .neither (c.call k : SessionM ρ φ k.Value) := by
  -- a call loads what it reads of the copies, so they need not be shared where it starts
  cases k with
  | slotCount => exact ((loadTable c).bind fun t => pure t.size).neither
  | slotByName name => exact ((loadTable c).bind fun t => found _).neither
  | slotInfo slot => exact ((load c).bind fun _ => of_both _).neither
  | slotSize slot =>
    exact ((loadTable c).discard.bind fun _ => (slotEntry slot).bind fun e => pure e.length).neither
  | slotPriority slot => exact ((load c).bind fun _ => of_both _).neither
  | createSlot name offset size => exact (createSlot c name offset size).neither
  | deleteSlot slot => exact ((load c).bind fun _ => of_both _).neither
  | renameSlot slot name => exact (renameSlot c slot name).neither
  | enableSlot slot => exact ((load c).bind fun _ => of_both _).neither
  | disableSlot slot => exact ((load c).bind fun _ => of_both _).neither
  | eraseSlot slot => exact ((load c).bind fun _ => of_both _).neither
  | programSlot kind slot image => exact ((load c).bind fun _ => of_both _).neither
  | verifySlot kind slot image => exact (verifySlot c kind slot image).neither
  | loadSlot slot =>
    exact ((loadTable c).discard.bind fun _ => (mutableEntry slot).bind fun e =>
      (log _).bind fun _ => onMailbox _).neither
  | loadFactory =>
    exact ((loadTable c).discard.bind fun _ => (partitionOffset? _).bind fun o =>
      (found o).bind fun _ => (log _).bind fun _ => onMailbox _).neither
  | runningFactory =>
    exact ((onMailbox _).bind fun status => (loadTable c).discard.bind fun _ =>
      (partitionOffset? _).bind fun o => (found o).bind fun offset => pure _).neither
  | list =>
    refine ((Forgets.bind ?_ fun _ => of_both _)).neither
    exact (onMailbox _).bind fun status => (load c).bind fun _ => of_both _
  | loadTable => exact (loadTable c).neither
  | load => exact (load c).neither
  | exportTable room => exact ((loadTable c).bind fun t => fitting room _).neither
  | exportBlock room =>
    exact ((loadTable c).discard.bind fun _ => (loadBlock c).bind fun b => fitting room _).neither
  | restoreTable bytes => exact (restoreTable c bytes).neither
  | restoreBlock bytes => exact (restoreBlock c bytes).neither
  | createEmptyBlock => exact (createEmptyBlock c).neither
  | status => exact onMailbox _
  | notify stage => exact onMailbox _
  | notifyAction action => exact notifyAction c action
  | clearError => exact (notifyAction c _).bind fun _ => log _
  | resetRetries => exact (notifyAction c _).bind fun _ => log _
  | deviceInfo => exact onMailbox _
  | update offset => exact onMailbox _

end Forgets

/-! ### Runs -/

/-- What a run of calls shows: how each call was answered, and what is logged. -/
def shown (r : (List (Answered ρ φ) × SessionState ρ φ) × Log) : List (Answered ρ φ) × Log :=
  (r.1.1, r.2)

variable [RegisterBlock ρ] [FlashDevice φ]

theorem callAll_cons (c : Session ρ) (k : SessionCall) (rest : List SessionCall)
    (s : SessionState ρ φ) (log : Log) : (c.callAll (k :: rest) s log).map shown =
      ((c.call k).run s log).bind fun ((result, t), log') => ((c.callAll rest t log').map shown).map
        fun (others, log'') => ({ call := k, result, channel := t.channel, flash := t.flash } :: others, log'') := by
  show (((c.call k).run s log).bind _).map shown = _
  rw [Option.map_bind]
  congr 1
  funext ⟨⟨result, t⟩, log'⟩
  show ((c.callAll rest t log').bind _).map shown = ((c.callAll rest t log').map shown).map _
  cases c.callAll rest t log' <;> rfl

/-- Runs of the same calls from states that differ at most in scratch copies show the same. -/
theorem Alike.callAll {c : Session ρ} {calls : List SessionCall} {s t : SessionState ρ φ} {log : Log}
    (h : Alike .neither s t) : (c.callAll calls s log).map shown = (c.callAll calls t log).map shown := by
  induction calls generalizing s t log with
  | nil => rfl
  | cons k rest ih =>
    have hcall := Forgets.call c k s t log h
    rw [callAll_cons, callAll_cons]
    generalize (c.call k).run s log = p, (c.call k).run t log = q at hcall
    cases hcall with
    | aborted => rfl
    | failed e log' h' => simp only [Option.bind_some, h'.channel, h'.flash, ih h']
    | succeeded a log' h' => simp only [Option.bind_some, h'.channel, h'.flash, ih h']

/-- Sessions carry no hidden state: whatever the device holds and however it fails, runs of the same calls
from scratch copies that differ are both aborted, or answer every call alike, leave the device manager and
the device alike after every call, and log the same. -/
theorem callAll_forgets (c : Session ρ) (calls : List SessionCall) (s : SessionState ρ φ) (log : Log)
    (table table' : PartitionTable) (block block' : PointerBlock) :
    (c.callAll calls { s with table, block } log).map shown =
      (c.callAll calls { s with table := table', block := block' } log).map shown :=
  Alike.callAll ⟨table', block', rfl⟩

end Session
end RemoteUpdate
