import RemoteUpdate.Proofs.Mailbox.Calls
import RemoteUpdate.Proofs.Session.Composition

/-!
# Calls come to an end

Whatever the flash device holds and answers, and whatever a register block answers that serves every access,
every call of a session succeeds or fails: no call is aborted, and none waits for ever.
-/

namespace RemoteUpdate

/-- From every state with the invariant the program succeeds or fails, and keeps the invariant. -/
def Concludes {σ ε α : Type} (I : σ → Prop) (x : ExceptT ε (StateT σ LogM) α) : Prop :=
  ∀ s, I s → ∃ r t, Ends x s r t ∧ I t

namespace Concludes

variable {σ ε α β : Type} {I : σ → Prop} {x : ExceptT ε (StateT σ LogM) α}
  {f : α → ExceptT ε (StateT σ LogM) β}

theorem pure (a : α) : Concludes I (Pure.pure a : ExceptT ε (StateT σ LogM) α) :=
  fun s hs => ⟨.ok a, s, Ends.pure a s, hs⟩

theorem throw (e : ε) : Concludes I (throw e : ExceptT ε (StateT σ LogM) α) :=
  fun s hs => ⟨.error e, s, Ends.throw e s, hs⟩

theorem bind (hx : Concludes I x) (hf : ∀ a, Concludes I (f a)) : Concludes I (x >>= f) := by
  intro s hs
  obtain ⟨r, t, hends, ht⟩ := hx s hs
  cases r with
  | error e => exact ⟨.error e, t, hends.bind_error, ht⟩
  | ok a =>
    obtain ⟨r, u, hends', hu⟩ := hf a t ht
    exact ⟨r, u, hends.bind hends', hu⟩

theorem tryCatch {handle : ε → ExceptT ε (StateT σ LogM) α} (hx : Concludes I x)
    (hhandle : ∀ e, Concludes I (handle e)) : Concludes I (tryCatch x handle) := by
  intro s hs
  obtain ⟨r, t, hends, ht⟩ := hx s hs
  cases r with
  | ok a => exact ⟨.ok a, t, hends.tryCatch_ok, ht⟩
  | error e =>
    obtain ⟨r, u, hends', hu⟩ := hhandle e t ht
    exact ⟨r, u, hends.tryCatch_error hends', hu⟩

protected theorem discard (hx : Concludes I x) : Concludes I (discard x) := by
  rw [Functor.discard, map_const, Function.comp_apply, map_eq_pure_bind]
  exact hx.bind fun _ => pure ()

end Concludes

namespace Mailbox

variable {ρ : Type} [RegisterBlock ρ] {I : ρ → Prop} {m : Mailbox ρ}

omit [RegisterBlock ρ] in
theorem concludes_log (e : MailboxEvent) : Concludes I (liftM (m.log e) : MailboxM ρ Unit) :=
  fun s hs => ⟨.ok (), s, Ends.lift (Returns.emit _ s), hs⟩

variable (hI : Responsive I) (hcommand : m.commandRing.capacity ≠ 0) (hresponse : m.responseRing.capacity ≠ 0)
include hI hcommand hresponse

/-- A request is answered, or given up. -/
theorem concludes_request {n : ℕ} (command : Command) (arguments : List UInt32) (buffer : Vector UInt32 n) :
    Concludes I (m.request command arguments buffer) := by
  have hsend : Concludes I (liftM (m.send command.opcode arguments false buffer) : MailboxM ρ _) := by
    intro s hs
    have hrests : Errand.Rests (outset false) := .inl rfl
    obtain ⟨a, t, -, hreturns, ht, -⟩ := undertakes_send hI hcommand hresponse command.opcode arguments false
      buffer hrests (.inl rfl) s hs
    exact ⟨.ok a, t, Ends.lift hreturns, ht⟩
  refine hsend.bind fun (result, buffer) => ?_
  cases result with
  | error e => exact Concludes.throw e
  | ok count => exact Concludes.pure (count, buffer)

theorem concludes_order (command : Command) (arguments : List UInt32) :
    Concludes I (m.order command arguments) :=
  (concludes_request hI hcommand hresponse command arguments noData).discard

theorem concludes_updateStatus : Concludes I m.updateStatus :=
  (concludes_request hI hcommand hresponse _ _ _).bind fun _ =>
    (concludes_log _).bind fun _ => Concludes.pure _

theorem concludes_notifyStage (value : UInt32) : Concludes I (m.notifyStage value) :=
  concludes_order hI hcommand hresponse _ _

theorem concludes_requestUpdate (offset : UInt64) : Concludes I (m.requestUpdate offset) :=
  (concludes_log _).bind fun _ => concludes_order hI hcommand hresponse _ _

omit [RegisterBlock ρ] hI hcommand hresponse in
theorem concludes_expectWords (expected actual : ℕ) : Concludes I (m.expectWords expected actual) := by
  unfold expectWords
  split
  · exact Concludes.throw _
  · exact Concludes.pure ()

theorem concludes_deviceInfo : Concludes I m.deviceInfo :=
  (concludes_request hI hcommand hresponse _ _ _).bind fun _ =>
    (concludes_expectWords _ _).bind fun _ => Concludes.pure _

theorem concludes_subpartitionTable : Concludes I m.subpartitionTable :=
  (concludes_request hI hcommand hresponse _ _ _).bind fun _ =>
    (concludes_expectWords _ _).bind fun _ => Concludes.pure _

end Mailbox

namespace Session

variable {ρ φ : Type} [RegisterBlock ρ] {I : ρ → Prop}

/-- An invariant of the register block and one of the flash device, whatever else the session holds. -/
def OnDevices {φ : Type} (I : ρ → Prop) (J : φ → Prop) (s : SessionState ρ φ) : Prop :=
  I s.channel.registers ∧ J s.flash

/-- An invariant of the register block, whatever else the session holds. -/
def OnRegisters (I : ρ → Prop) (s : SessionState ρ φ) : Prop :=
  I s.channel.registers

omit [RegisterBlock ρ] in
theorem concludes_onRegisters {α : Type} {x : SessionM ρ φ α}
    (hx : Concludes (OnDevices I fun _ => True) x) : Concludes (OnRegisters I) x := by
  intro s hs
  obtain ⟨r, t, hends, ht, -⟩ := hx s ⟨hs, trivial⟩
  exact ⟨r, t, hends, ht⟩

omit [RegisterBlock ρ] in
theorem concludes_onMailbox {α : Type} {J : φ → Prop} {x : MailboxM ρ α} (hx : Concludes I x) :
    Concludes (OnDevices I J) (onMailbox x : SessionM ρ φ α) := by
  intro s hs
  obtain ⟨r, registers, hends, ht⟩ := hx _ hs.1
  exact ⟨_, _, ends_onMailbox hends, ht, hs.2⟩

/-- However an access to the flash device ends, the invariant is kept. -/
structure Lasting [FlashDevice φ] (J : φ → Prop) : Prop where
  read : ∀ (address length : ℕ) {f : φ}, J f → J ((FlashDevice.read address length).outcome f).2
  play : ∀ (change : FlashChange) {f : φ}, J f → J (change.play.outcome f).2

/-- Everything that a session can be asked for comes to an end. -/
structure Operable (I : ρ → Prop) (c : Session ρ) (φ : Type) [FlashDevice φ] : Prop where
  /-- A session is opened, whatever layout it has. -/
  start (layout : Layout) : Concludes (fun channel => I channel.registers) (Session.start c.mailbox layout)
  call (k : SessionCall) : Concludes (OnRegisters I) (c.call k : SessionM ρ φ k.Value)
  loadBlock : Concludes (OnRegisters I) (c.loadBlock : SessionM ρ φ PointerBlock)
  saveTable : Concludes (OnRegisters I) (c.saveTable : SessionM ρ φ Unit)
  saveBlock : Concludes (OnRegisters I) (c.saveBlock : SessionM ρ φ Unit)
  blockOffset : Concludes (OnRegisters I) (c.blockOffset : SessionM ρ φ UInt64)

variable {c : Session ρ} (hI : Responsive I) (hcommand : c.mailbox.commandRing.capacity ≠ 0)
  (hresponse : c.mailbox.responseRing.capacity ≠ 0)
include hI hcommand hresponse

/-- Coming to an end is handed on from the parts of a program to the whole. -/
theorem composes_concludes [FlashDevice φ] {J : φ → Prop} (hJ : Lasting J) :
    Composes c fun x : SessionM ρ φ _ => Concludes (OnDevices I J) x where
  pure a := .pure a
  throw e := .throw e
  bind hx hf := hx.bind hf
  tryCatch hx hhandle := hx.tryCatch hhandle
  look _ hf := Concludes.bind (fun s hs => ⟨.ok s, s, Ends.get s, hs⟩) hf
  setTable _ s hs := ⟨.ok (), _, Ends.modify _ s, hs⟩
  setBlock _ s hs := ⟨.ok (), _, Ends.modify _ s, hs⟩
  log e s hs := ⟨.ok (), s, ends_log e s, hs⟩
  read address length s hs := ⟨_, _, ends_onFlash _ s, hs.1, hJ.read address length hs.2⟩
  write address bytes s hs := ⟨_, _, ends_onFlash _ s, hs.1, hJ.play (.write address bytes) hs.2⟩
  erase address length s hs := ⟨_, _, ends_onFlash _ s, hs.1, hJ.play (.erase address length) hs.2⟩
  updateStatus := concludes_onMailbox (Mailbox.concludes_updateStatus hI hcommand hresponse)
  notifyStage value := concludes_onMailbox (Mailbox.concludes_notifyStage hI hcommand hresponse value)
  deviceInfo := concludes_onMailbox (Mailbox.concludes_deviceInfo hI hcommand hresponse)
  requestUpdate offset := concludes_onMailbox (Mailbox.concludes_requestUpdate hI hcommand hresponse offset)

theorem returns_callAll [FlashDevice φ] {J : φ → Prop} (hJ : Lasting J) (calls : List SessionCall)
    {s : SessionState ρ φ} (hs : OnDevices I J s) :
    ∃ records t, Returns (c.callAll calls) s records t ∧ OnDevices I J t := by
  induction calls generalizing s with
  | nil => exact ⟨[], s, .pure _ s, hs⟩
  | cons k calls ih =>
    obtain ⟨r, t, hcall, ht⟩ := (composes_concludes hI hcommand hresponse hJ).call k s hs
    obtain ⟨records, u, hcalls, hu⟩ := ih ht
    exact ⟨_, u, Returns.bind hcall <| (Returns.get t).bind <| hcalls.bind (.pure _ u), hu⟩

theorem concludes_start (layout : Layout) :
    Concludes (fun channel => I channel.registers) (start c.mailbox layout) := by
  have hask : Concludes (fun channel : Channel ρ => I channel.registers) (ExceptT.mk do
      let result ← Channel.onRegisters c.mailbox.subpartitionTable.run
      return result.mapError UpdateError.ofMailbox) := by
    intro s hs
    obtain ⟨r, registers, hends, ht⟩ := Mailbox.concludes_subpartitionTable hI hcommand hresponse _ hs
    exact ⟨_, _, Returns.bind (Returns.focus hends) (Returns.pure _ _), ht⟩
  refine hask.bind fun words => ?_
  split
  · refine Concludes.bind (fun s hs => ⟨.ok (), s, ?_, hs⟩) fun _ => Concludes.pure _
    exact fun logged => ⟨logged.push _, rfl⟩
  · exact Concludes.throw _

theorem operable [FlashDevice φ] : Operable I c φ :=
  have h := composes_concludes (φ := φ) hI hcommand hresponse (J := fun _ => True) ⟨fun _ _ => id, fun _ => id⟩
  ⟨concludes_start hI hcommand hresponse, fun k => concludes_onRegisters (h.call k),
    concludes_onRegisters h.loadBlock, concludes_onRegisters h.saveTable, concludes_onRegisters h.saveBlock,
    concludes_onRegisters h.blockOffset⟩

end Session

end RemoteUpdate
