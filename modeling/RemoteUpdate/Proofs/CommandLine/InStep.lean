import RemoteUpdate.CommandLine.Execute
import RemoteUpdate.Proofs.Flash.Formatting
import RemoteUpdate.Proofs.Host.Mirroring
import RemoteUpdate.Proofs.Mailbox.Reporting
import RemoteUpdate.Proofs.Session.Composition

/-!
# Benches in step

Two benches are in step if one has its device in a file, the other has one in memory that holds the same, and both
have a device manager that reports what it did when it was switched on. Whatever else the device managers remember,
and whatever scratch copies the sessions keep, a request ends the same way on both: with the same text, or with a
failure. Afterwards the benches are in step again.

Calls are followed in two strides: from the same scratch copies they go the same way, part by part; and no call
depends on the scratch copies.
-/

namespace RemoteUpdate.CommandLine

open Mailbox (Always)
open Session (Composes SlotInfo Alike)

/-- Where the file of a device is, how large the device is, and which files were there at first. -/
structure Setting where
  files : FileStore
  location : FileLocation
  capacity : ℕ

/-- The request names no file, or another one than that of the device. -/
def Setting.Spares (p : Setting) (request : Request) : Prop :=
  ∀ file, request.file? = some file → p.files.locate file ≠ .ok p.location

variable {p : Setting} {s t : Bench} {c : Session EmulatedSdm} {α β : Type}

/-- The bench `s` has its device in the file, the bench `t` has its device in memory, and both devices hold the
same. -/
structure InStep (p : Setting) (s t : Bench) : Prop where
  managers : s.channel.registers.AsNew ∧ t.channel.registers.AsNew
  device : s.flash.Mirrors p.location t.flash
  size : t.flash.flash.cells.size = p.capacity
  tree : p.files.SameTree t.flash.store

/-- Both benches keep the same scratch copies too. -/
structure Twins (p : Setting) (s t : Bench) : Prop extends InStep p s t where
  table : s.table = t.table
  block : s.block = t.block

/-- It does not matter which scratch copies are kept. -/
theorem InStep.scratch (h : InStep p s t) (table table' : PartitionTable) (block block' : PointerBlock) :
    InStep p { s with table, block } { t with table := table', block := block' } :=
  ⟨h.managers, h.device, h.size, h.tree⟩

theorem InStep.mirrored {x : FlashM FileFlash Unit} {r : Except FlashFault Unit} {f g : FileFlash}
    (h : InStep p s t) (hx : FileFlash.Mirrored p.location x s.flash t.flash r f g) :
    InStep p { s with flash := f } { t with flash := g } :=
  ⟨h.managers, hx.mirrors, hx.size.trans h.size, hx.store ▸ h.tree⟩

/-! ### Programs of a session -/

/-- The program ends the same way on twins, and they stay twins. -/
def Parallel (p : Setting) (x : SessionM EmulatedSdm FileFlash α) : Prop :=
  ∀ s t, Twins p s t → ∃ r s' t', Ends x s r s' ∧ Ends x t r t' ∧ Twins p s' t'

namespace Parallel

variable {x : SessionM EmulatedSdm FileFlash α} {f : α → SessionM EmulatedSdm FileFlash β}

theorem of_ends {r : Except UpdateError α} (h : ∀ s, Ends x s r s) : Parallel p x :=
  fun s t hst => ⟨r, s, t, h s, h t, hst⟩

theorem bind (hx : Parallel p x) (hf : ∀ a, Parallel p (f a)) : Parallel p (x >>= f) := by
  intro s t h
  obtain ⟨r, s', t', hs, ht, h'⟩ := hx s t h
  cases r with
  | error e => exact ⟨.error e, s', t', hs.bind_error, ht.bind_error, h'⟩
  | ok a =>
    obtain ⟨r, s'', t'', hs', ht', h''⟩ := hf a s' t' h'
    exact ⟨r, s'', t'', hs.bind hs', ht.bind ht', h''⟩

theorem tryCatch {handle : UpdateError → SessionM EmulatedSdm FileFlash α} (hx : Parallel p x)
    (hhandle : ∀ e, Parallel p (handle e)) : Parallel p (tryCatch x handle) := by
  intro s t h
  obtain ⟨r, s', t', hs, ht, h'⟩ := hx s t h
  cases r with
  | ok a => exact ⟨.ok a, s', t', hs.tryCatch_ok, ht.tryCatch_ok, h'⟩
  | error e =>
    obtain ⟨r, s'', t'', hs', ht', h''⟩ := hhandle e s' t' h'
    exact ⟨r, s'', t'', hs.tryCatch_error hs', ht.tryCatch_error ht', h''⟩

/-- Twins cannot be told apart by their scratch copies or by how large their devices are. -/
theorem look {f : Bench → SessionM EmulatedSdm FileFlash α}
    (same : ∀ s t : Bench, s.table = t.table → s.block = t.block →
      FlashDevice.capacity s.flash = FlashDevice.capacity t.flash → f s = f t)
    (hf : ∀ s, Parallel p (f s)) : Parallel p (get >>= f) := by
  intro s t h
  obtain ⟨r, s', t', hs, ht, h'⟩ := hf s s t h
  rw [same s t h.table h.block h.device.capacity] at ht
  exact ⟨r, s', t', (Ends.get s).bind hs, (Ends.get t).bind ht, h'⟩

theorem read (address length : ℕ) :
    Parallel p (Session.onFlash (FlashDevice.read address length)) := by
  intro s t h
  obtain ⟨r, hfirst, hsecond⟩ := h.device.read address length
  have hs := Session.ends_onFlash (FlashDevice.read address length) s
  have ht := Session.ends_onFlash (FlashDevice.read address length) t
  rw [hfirst] at hs
  rw [hsecond] at ht
  exact ⟨_, s, t, hs, ht, h⟩

theorem play (change : FlashChange) : Parallel p (Session.onFlash change.play) := by
  intro s t h
  obtain ⟨r, f, g, hplay, -⟩ := h.device.play change
  have hs := Session.ends_onFlash change.play s
  have ht := Session.ends_onFlash change.play t
  rw [hplay.first] at hs
  rw [hplay.second] at ht
  exact ⟨_, _, _, hs, ht, h.toInStep.mirrored hplay, h.table, h.block⟩

/-- A request that the device managers always answer in the same way. -/
theorem onMailbox {x : MailboxM EmulatedSdm α} {r : Except MailboxError α} (hx : Always x r) :
    Parallel p (Session.onMailbox x) := by
  intro s t h
  obtain ⟨sdm, hs, hsdm⟩ := hx _ h.managers.1
  obtain ⟨sdm', ht, hsdm'⟩ := hx _ h.managers.2
  exact ⟨_, _, _, Session.ends_onMailbox hs, Session.ends_onMailbox ht,
    ⟨⟨hsdm, hsdm'⟩, h.device, h.size, h.tree⟩, h.table, h.block⟩

end Parallel

/-- Going the same way is handed on from the parts of a call to the call. -/
theorem composes_parallel (hmailbox : c.mailbox = Mailbox.host {}) :
    Composes c fun x : SessionM EmulatedSdm FileFlash _ => Parallel p x where
  pure a := .of_ends (Ends.pure a)
  throw e := .of_ends (Ends.throw e)
  bind hx hf := hx.bind hf
  tryCatch hx hhandle := hx.tryCatch hhandle
  look same hf := .look same hf
  setTable table s t h :=
    ⟨_, _, _, Ends.modify _ s, Ends.modify _ t, h.scratch table table s.block t.block, rfl, h.block⟩
  setBlock block s t h :=
    ⟨_, _, _, Ends.modify _ s, Ends.modify _ t, h.scratch s.table t.table block block, h.table, rfl⟩
  log e := .of_ends (Session.ends_log e)
  read := .read
  write address bytes := .play (.write address bytes)
  erase address length := .play (.erase address length)
  updateStatus := by
    obtain ⟨status, hstatus⟩ := Mailbox.always_updateStatus
    exact hmailbox ▸ .onMailbox hstatus
  notifyStage value := hmailbox ▸ .onMailbox (Mailbox.always_notifyStage value)
  deviceInfo := by
    obtain ⟨info, hinfo⟩ := Mailbox.always_deviceInfo
    exact hmailbox ▸ .onMailbox hinfo
  requestUpdate offset := hmailbox ▸ .onMailbox (Mailbox.always_requestUpdate offset)

/-- A call ends the same way on benches in step, whatever scratch copies they keep. -/
theorem InStep.call (hmailbox : c.mailbox = Mailbox.host {}) (h : InStep p s t) (k : SessionCall) :
    ∃ r s' t', Ends (c.call k) s r s' ∧ Ends (c.call k) t r t' ∧ InStep p s' t' := by
  have hcall : Parallel p (c.call k) := (composes_parallel hmailbox).call k
  -- the copies of `s` on both benches, and the copies of `t` on both
  obtain ⟨r, s', u, hs, hu, h'⟩ := hcall s { t with table := s.table, block := s.block }
    ⟨h.scratch s.table s.table s.block s.block, rfl, rfl⟩
  obtain ⟨r', _, t', -, ht, -⟩ := hcall { s with table := t.table, block := t.block } t
    ⟨h.scratch t.table t.table t.block t.block, rfl, rfl⟩
  have halike : Alike .neither { t with table := s.table, block := s.block } t := ⟨t.table, t.block, rfl⟩
  have hagree := Session.Forgets.call c k _ _ #[] halike
  obtain ⟨_, hrun⟩ := hu #[]
  obtain ⟨_, hrun'⟩ := ht #[]
  rw [hrun, hrun'] at hagree
  cases hagree with
  | failed e _ hafter =>
    obtain ⟨table, block, rfl⟩ := hafter
    exact ⟨_, s', _, hs, ht, h'.scratch s'.table table s'.block block⟩
  | succeeded a _ hafter =>
    obtain ⟨table, block, rfl⟩ := hafter
    exact ⟨_, s', _, hs, ht, h'.scratch s'.table table s'.block block⟩

/-! ### Requests -/

theorem toOption_context {ε : Type} (message : ε → String) (what : String) (r : Except ε α) :
    (context message what r).toOption = r.toOption := by
  cases r <;> rfl

theorem ends_readFile (path : String) (s : Bench) : Ends (readFile path) s
    ((context FileError.message ("failed to read " ++ path) (s.flash.store.read path)).map
      fun contents => contents.data.toList) s :=
  fun log => ⟨log, rfl⟩

theorem ends_written {path : String} {bytes : List UInt8} {r : Except FileError FileStore}
    (h : s.flash.store.write path ⟨bytes.toArray⟩ = r) :
    Ends (ExceptT.mk (pure (context FileError.message ("failed to write " ++ path)
      (s.flash.store.write path ⟨bytes.toArray⟩))) : RunM FileStore) s
      (context FileError.message ("failed to write " ++ path) r) s := by
  rw [h]
  exact Returns.pure _ s

theorem ends_writeFile_error {path : String} {bytes : List UInt8} {e : FileError}
    (h : s.flash.store.write path ⟨bytes.toArray⟩ = .error e) :
    Ends (writeFile path bytes) s (.error ("failed to write " ++ path ++ ": " ++ e.message)) s :=
  (Ends.get s).bind (ends_written h).bind_error

theorem ends_writeFile_ok {path : String} {bytes : List UInt8} {store : FileStore}
    (h : s.flash.store.write path ⟨bytes.toArray⟩ = .ok store) :
    Ends (writeFile path bytes) s (.ok ()) { s with flash := { s.flash with store } } :=
  (Ends.get s).bind ((ends_written h).bind (Ends.modify _ s))

def slotChanges (slots : ℕ) : List FlashChange :=
  FlashPlan.formatChanges (FlashPlan.plain.withSlots slots)

theorem ends_format {slots : ℕ} (h : ¬ (slots = 0 ∨ maxPointers < slots)) (s : Bench) :
    Ends (format slots) s
      ((((playAll (slotChanges slots)).outcome s.flash).1.mapError .flash).mapError UpdateError.message)
      { s with flash := ((playAll (slotChanges slots)).outcome s.flash).2 } := by
  have hreachable : FlashPlan.Reachable s.flash.flash.cells.size (FlashPlan.plain.withSlots slots) :=
    .withSlots slots (.standard FlashPlan.standard_eq)
  have hplan (s : Bench) : Ends (inSession (Session.require FlashPlan.standard)) s (.ok .plain) s := by
    rw [FlashPlan.standard_eq]
    exact fun log => ⟨log, rfl⟩
  have hflash : Returns (focus SessionState.flash (fun flash b => { b with flash })
      (FlashPlan.plain.withSlots slots).format.run) s _
      { s with flash := ((playAll (slotChanges slots)).outcome s.flash).2 } :=
    Returns.focus (hreachable.writes_format s.flash)
  unfold format
  rw [if_neg h]
  exact (hplan s).bind (Returns.bind hflash (Returns.pure _ _))

/-- The program ends with the same value on benches in step, or fails on both, and they stay in step. -/
def Agrees (p : Setting) (x : RunM α) : Prop :=
  ∀ s t, InStep p s t → ∃ r r' s' t', Ends x s r s' ∧ Ends x t r' t' ∧ r.toOption = r'.toOption ∧
    InStep p s' t'

namespace Agrees

variable {x : RunM α} {f : α → RunM β}

theorem pure (a : α) : Agrees p (pure a : RunM α) :=
  fun s t h => ⟨.ok a, .ok a, s, t, Ends.pure a s, Ends.pure a t, rfl, h⟩

theorem throw (e : String) : Agrees p (throw e : RunM α) :=
  fun s t h => ⟨.error e, .error e, s, t, Ends.throw e s, Ends.throw e t, rfl, h⟩

theorem bind (hx : Agrees p x) (hf : ∀ a, Agrees p (f a)) : Agrees p (x >>= f) := by
  intro s t h
  obtain ⟨r, r', s', t', hs, ht, hsame, h'⟩ := hx s t h
  cases r with
  | error e =>
    cases r' with
    | ok a => cases hsame
    | error e' => exact ⟨_, _, s', t', hs.bind_error, ht.bind_error, rfl, h'⟩
  | ok a =>
    cases r' with
    | error e' => cases hsame
    | ok a' =>
      obtain rfl : a = a' := Option.some.inj hsame
      obtain ⟨r, r', s'', t'', hs', ht', hsame', h''⟩ := hf a s' t' h'
      exact ⟨r, r', s'', t'', hs.bind hs', ht.bind ht', hsame', h''⟩

theorem call (hmailbox : c.mailbox = Mailbox.host {}) (k : SessionCall) : Agrees p (inSession (c.call k)) := by
  intro s t h
  obtain ⟨r, s', t', hs, ht, h'⟩ := h.call hmailbox k
  exact ⟨_, _, s', t', Returns.bind hs (Returns.pure _ s'), Returns.bind ht (Returns.pure _ t'), rfl, h'⟩

theorem readFile {path : String} (hpath : p.files.locate path ≠ .ok p.location) :
    Agrees p (readFile path) := by
  intro s t h
  refine ⟨_, _, s, t, ends_readFile path s, ends_readFile path t, ?_, h⟩
  have hread := h.device.store.read fun hlocate => hpath (h.tree.symm.locate hlocate)
  have hmap (r : Except String ByteArray) : (r.map fun contents => contents.data.toList).toOption =
      r.toOption.map fun contents => contents.data.toList := by
    cases r <;> rfl
  rw [hmap, hmap, toOption_context, toOption_context, hread]

theorem writeFile {path : String} (hpath : p.files.locate path ≠ .ok p.location) (bytes : List UInt8) :
    Agrees p (writeFile path bytes) := by
  intro s t h
  have hwrite := h.device.store.write (fun hlocate => hpath (h.tree.symm.locate hlocate)) ⟨bytes.toArray⟩
  obtain ⟨e, e', hs, ht⟩ | ⟨store, store', hs, ht, hadds, htree⟩ := hwrite
  · exact ⟨_, _, s, t, ends_writeFile_error hs, ends_writeFile_error ht, rfl, h⟩
  · refine ⟨_, _, _, _, ends_writeFile_ok hs, ends_writeFile_ok ht, rfl, ?_⟩
    exact ⟨h.managers, ⟨h.device.location, h.device.memory, h.device.cells, h.device.works, hadds⟩, h.size,
      h.tree.trans htree⟩

theorem format (slots : ℕ) : Agrees p (format slots) := by
  by_cases hslots : slots = 0 ∨ maxPointers < slots
  · unfold CommandLine.format
    rw [if_pos hslots]
    exact throw _
  · intro s t h
    obtain ⟨r, f, g, hplay, -⟩ := h.device.playList (slotChanges slots)
    have hs := ends_format hslots s
    have ht := ends_format hslots t
    rw [hplay.first] at hs
    rw [hplay.second] at ht
    exact ⟨_, _, _, _, hs, ht, rfl, h.mirrored hplay⟩

theorem inSession_bind (x : SessionM EmulatedSdm FileFlash α) (f : α → SessionM EmulatedSdm FileFlash β) :
    inSession (x >>= f) = inSession x >>= fun a => inSession (f a) := by
  funext s log
  show ((x.run s log).bind _).bind _ = ((x.run s log).bind _).bind _
  rcases x.run s log with _ | ⟨⟨_ | _, _⟩, _⟩ <;> rfl

/-- What is listed is printed from what one call returns. -/
theorem execute_list (c : Session EmulatedSdm) : CommandLine.execute c .list = (do
    let listing ← inSession c.listing
    return listLines listing.status listing.tableOffsets listing.blockOffset listing.table listing.block) := by
  unfold Session.listing
  rw [inSession_bind, bind_assoc]
  rfl

/-- A request that does not name the file of the device. -/
theorem execute (hmailbox : c.mailbox = Mailbox.host {}) {request : Request} (hfile : p.Spares request) :
    Agrees p (execute c request) := by
  have asked (k : SessionCall) (lines : k.Value → List String) : Agrees p (do
      let value ← inSession (c.call k)
      return lines value) := (call hmailbox k).bind fun _ => pure _
  -- a request is one call whose value is shown, unless a file is read or written on the way
  cases request with
  | format slots => exact (format slots).bind fun _ => pure _
  | list =>
    rw [execute_list]
    exact asked .list _
  | update offset => exact asked (.update offset) _
  | slotCount => exact asked .slotCount _
  | slotByName name => exact asked (.slotByName name) _
  | slotInfo slot => exact asked (.slotInfo slot) _
  | slotSize slot => exact asked (.slotSize slot) _
  | slotPriority slot => exact asked (.slotPriority slot) _
  | eraseSlot slot => exact asked (.eraseSlot slot) _
  | programSlot kind slot image =>
    exact (readFile (hfile image rfl)).bind fun bytes => asked (.programSlot kind slot bytes) _
  | verifySlot kind slot image =>
    exact (readFile (hfile image rfl)).bind fun bytes => asked (.verifySlot kind slot bytes) _
  | enableSlot slot => exact asked (.enableSlot slot) _
  | disableSlot slot => exact asked (.disableSlot slot) _
  | loadSlot slot => exact asked (.loadSlot slot) _
  | loadFactory => exact asked .loadFactory _
  | renameSlot slot name => exact asked (.renameSlot slot name) _
  | deleteSlot slot => exact asked (.deleteSlot slot) _
  | createSlot name offset size => exact asked (.createSlot name offset size) _
  | status => exact asked .status _
  | notify stage => exact asked (.notify stage) _
  | clearError => exact asked .clearError _
  | resetRetries => exact asked .resetRetries _
  | decisionVersions => exact asked .deviceInfo _
  | decisionStates => exact asked .deviceInfo _
  | maxRetry => exact asked .deviceInfo _
  | createEmptyBlock => exact asked .createEmptyBlock _
  | restoreBlock file =>
    exact (readFile (hfile file rfl)).bind fun bytes => asked (.restoreBlock bytes) _
  | saveBlock file =>
    exact (call hmailbox (.exportBlock tableSize)).bind fun bytes =>
      (writeFile (hfile file rfl) bytes).bind fun _ => pure _
  | restoreTable file =>
    exact (readFile (hfile file rfl)).bind fun bytes => asked (.restoreTable bytes) _
  | saveTable file =>
    exact (call hmailbox (.exportTable tableSize)).bind fun bytes =>
      (writeFile (hfile file rfl) bytes).bind fun _ => pure _
  | runningFactory => exact asked .runningFactory _

end Agrees

end RemoteUpdate.CommandLine
