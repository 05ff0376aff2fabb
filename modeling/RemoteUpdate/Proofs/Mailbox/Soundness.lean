import RemoteUpdate.Proofs.Mailbox.Invariants

/-!
# Runs of the driver

What holds of every run, whatever is asked of the driver and whatever goes wrong: no run is aborted, and
the cursors stay in their rings.
-/

namespace RemoteUpdate

open EmulatedSdm

/-! ### Registers -/

namespace EmulatedSdm

variable {s : EmulatedSdm}

def accepted (s : EmulatedSdm) : EmulatedSdm :=
  let s := { s with urgentCount := s.urgentCount + 1 }
  let s := if s.urgent = Command.restart.opcode then
      { s with partialCommand := none, outbox := [], countdown := none, interrupts := 0 }
    else s
  let s := { s with urgent := 0 }
  let s := if s.acknowledgeFrozen then s
    else { s with status := s.status ^^^ urgentAcknowledge }
  s.raiseDoorbell

theorem returns_acceptUrgent (s : EmulatedSdm) : Returns acceptUrgent s () s.accepted := by
  unfold acceptUrgent
  exact (Returns.get s).bind <| (Returns.emit _ s).bind (.set _ _)

theorem Sound.accepted (hs : s.Sound) : s.accepted.Sound := by
  unfold EmulatedSdm.accepted
  apply Sound.raiseDoorbell
  simp only
  split <;> split <;>
    exact ⟨hs.map, hs.cin, hs.cout, hs.rin, hs.rout, hs.commandCells, hs.responseCells⟩

theorem returns_onDoorbell_urgent (hu : s.urgent ≠ 0) : Returns onDoorbell s () s.accepted := by
  unfold onDoorbell
  refine (Returns.get s).bind ?_
  rw [if_pos hu]
  exact returns_acceptUrgent s

theorem returns_doorbell (hs : s.Sound) : ∃ t, Returns onDoorbell s () t ∧ t.Sound := by
  by_cases hu : s.urgent = 0
  · exact ⟨_, returns_onDoorbell hs hu, (advances_rung hs).sound⟩
  · exact ⟨_, returns_onDoorbell_urgent hu, hs.accepted⟩

end EmulatedSdm

/-- Whatever is written to whatever register, the cursors stay in their rings. -/
theorem keeps_writeRegister (offset value : UInt32) :
    Keeps Sound (writeRegister offset value) Whatever := by
  unfold writeRegister
  refine Keeps.get fun s hs => ?_
  split
  next =>
    -- the host's cursor of the command ring
    rw [hs.whenSlotted_command]
    refine ⟨_, _, (Returns.orAbort _ s).bind (.set _ _), ?_, trivial⟩
    exact ⟨hs.map, Ring.wrap_lt (by have := hs.cin; omega) _, hs.cout, hs.rin, hs.rout,
      hs.commandCells, hs.responseCells⟩
  split
  next =>
    -- the host's cursor of the response ring
    rw [hs.whenSlotted_response]
    have hturned : EmulatedSdm.Sound { s with rout := s.responseRing.wrap value.toNat } :=
      ⟨hs.map, hs.cin, hs.cout, hs.rin, Ring.wrap_lt (by have := hs.rout; omega) _,
        hs.commandCells, hs.responseCells⟩
    exact ⟨_, _, (Returns.orAbort _ s).bind <| (Returns.set _ _).bind (returns_publish hturned),
      (published_spec hturned).1, trivial⟩
  iterate 3
    split
    next =>
      exact ⟨_, _, .set _ _, ⟨hs.map, hs.cin, hs.cout, hs.rin, hs.rout, hs.commandCells,
        hs.responseCells⟩, trivial⟩
  split
  next =>
    split
    next =>
      obtain ⟨t, ht, hsound⟩ := returns_doorbell hs
      exact ⟨_, t, ht, hsound, trivial⟩
    next => exact ⟨_, s, .pure _ s, hs, trivial⟩
  split
  next =>
    refine ⟨_, _, .set _ _, ⟨hs.map, hs.cin, hs.cout, hs.rin, hs.rout, ?_, hs.responseCells⟩, trivial⟩
    rw [Array.size_setIfInBounds]
    exact hs.commandCells
  next => exact ⟨_, s, .emit _ s, hs, trivial⟩

namespace Mailbox

/-- Neither time nor the collecting of responses breaks soundness. -/
theorem steady_sound : Steady Sound where
  sound h := h
  ticked h := (advances_ticked h).sound
  cleared h := ⟨h.map, h.cin, h.cout, h.rin, h.rout, h.commandCells, h.responseCells⟩
  turned {s rout} h hrout := by
    have hturned : Sound { s with rout } :=
      ⟨h.map, h.cin, h.cout, h.rin, hrout, h.commandCells, h.responseCells⟩
    exact (published_spec hturned).1

variable (timing : Timing)

theorem keeps_write (offset value : UInt32) :
    Keeps Sound ((host timing).write offset value) Whatever :=
  keeps_writeRegister offset value

/-! ### Sending -/

theorem tries_writeWord (cin : Nat) (word : UInt32) :
    Tries Sound ((host timing).writeWord cin word) Whatever := by
  have loop : ∀ polls rung, Tries Sound (writeWord.go (host timing) cin word polls rung) Whatever := by
    intro polls
    induction polls with
    | zero =>
      intro rung
      unfold writeWord.go
      exact (Tries.lift (keeps_log timing Sound _)).bind fun _ _ => .throw _
    | succ polls ih =>
      intro rung
      unfold writeWord.go
      refine (Tries.lift (keeps_read timing Sound _)).bind fun cout _ => ?_
      refine (Tries.lift (keeps_orAbort Sound _)).bind fun full _ => ?_
      cases full with
      | true =>
        have wait := (Tries.lift (steady_sound.delay timing timing.interval)).bind fun _ _ => ih true
        cases rung with
        | true => exact wait
        | false => exact (Tries.lift (keeps_write timing _ _)).bind fun _ _ => wait
      | false =>
        refine (Tries.lift (keeps_write timing _ _)).bind fun _ _ => ?_
        exact (Tries.lift (keeps_write timing _ _)).bind fun _ _ => .pure trivial
  exact loop _ _

theorem tries_writeWords (cin : Nat) (words : List UInt32) :
    Tries Sound ((host timing).writeWords cin words) Whatever := by
  induction words generalizing cin with
  | nil => exact .pure trivial
  | cons word words ih => exact (tries_writeWord timing cin word).bind fun next _ => ih next

theorem tries_sendCommand (opcode : UInt32) (indirect : Bool) (arguments : List UInt32) :
    Tries Sound ((host timing).sendCommand opcode indirect arguments) Whatever := by
  have send : ∀ header : CommandHeader, Tries Sound (do
      let cin ← (host timing).cursor (host timing).commandRing (host timing).map.commandIn
      discard <| (host timing).writeWords cin (header.word :: arguments)
      (host timing).write (host timing).map.doorbellToSdm 1
      (host timing).log (.commandSent opcode arguments.length)) Whatever := by
    intro header
    refine (Tries.lift (keeps_commandCursor timing Sound)).bind fun cin _ => ?_
    refine (tries_writeWords timing cin _).discard.bind fun _ _ => ?_
    exact (Tries.lift (keeps_write timing _ _)).bind fun _ _ => .lift (keeps_log timing Sound _)
  unfold sendCommand
  split
  · exact (Tries.throw (Q := Whatever) _).bind fun _ _ => send _
  · exact send _

/-! ### Whole calls -/

theorem tries_sendUrgent (opcode : UInt32) : Tries Sound ((host timing).sendUrgent opcode) (· = 0) := by
  refine (Tries.lift (keeps_read timing Sound _)).bind fun before _ => ?_
  refine (Tries.lift (keeps_write timing _ _)).bind fun _ _ => ?_
  refine (Tries.lift (keeps_write timing _ _)).bind fun _ _ => ?_
  refine (steady_sound.waitDoorbell timing _).bind fun _ _ => ?_
  refine (Tries.lift (keeps_read timing Sound _)).bind fun after _ => ?_
  have acknowledged := (Tries.lift (keeps_log timing Sound (.urgentAcknowledged opcode))).bind
    fun _ _ => Tries.pure (Q := (· = 0)) rfl
  simp only
  split
  · refine (Tries.lift (keeps_log timing Sound _)).bind fun _ _ => ?_
    exact (Tries.throw (Q := Whatever) _).bind fun _ _ => acknowledged
  · exact acknowledged

theorem keeps_attempt (opcode : UInt32) (arguments : List UInt32) (urgent : Bool) (room : Nat) :
    Keeps Sound ((host timing).attempt opcode arguments urgent room) (Plausible timing) := by
  cases urgent with
  | true =>
    unfold attempt
    refine (tries_sendUrgent timing opcode).run.bind fun r hr => .pure ?_
    rintro - count hcount
    exact hr count hcount
  | false => exact steady_sound.attempt timing (tries_sendCommand timing opcode false arguments) room

theorem keeps_send {n : Nat} (opcode : UInt32) (arguments : List UInt32) (urgent : Bool)
    (buffer : Vector UInt32 n) : Keeps Sound ((host timing).send opcode arguments urgent buffer)
      fun (r, _) => timing.dataPolls = 0 → ∀ count, r = .ok count → count = 0 :=
  steady_sound.send timing (keeps_attempt timing opcode arguments urgent n) buffer

theorem tries_init : Tries Sound (host timing).init Whatever := by
  refine (Tries.lift (keeps_write timing _ _)).bind fun _ _ => ?_
  refine (Tries.lift (keeps_write timing _ _)).bind fun _ _ => ?_
  refine (Tries.lift (keeps_write timing _ _)).bind fun _ _ => ?_
  refine (Tries.lift (keeps_send timing _ _ _ _)).bind fun (result, _) _ => ?_
  cases result with
  | error e => exact .throw e
  | ok _ => exact .lift (keeps_write timing _ _)

/-! ### Runs -/

/-- What may go wrong with a device manager. -/
inductive Fault where
  | strays (count : Nat)
  | busy (count : Nat)
  | lostDoorbells (count : UInt32)
  | failures (opcode code : UInt32) (count : Nat)
  | consumeDelay (ticks : Nat)

def Fault.inject : Fault → EmulatedSdm → EmulatedSdm
  | .strays count => injectStrays count
  | .busy count => injectBusy count
  | .lostDoorbells count => dropDoorbells count
  | .failures opcode code count => failNext opcode code count
  | .consumeDelay ticks => fun s => { s with consumeDelay := ticks }

/-- One step in the life of a mailbox. -/
inductive Step where
  | init
  | send (opcode : UInt32) (arguments : List UInt32) (room : Nat)
  | fault (f : Fault)

/-- The step is taken, whatever comes of it. -/
def Step.perform (timing : Timing) : Step → RegisterM EmulatedSdm Unit
  | .init => discard (host timing).init.run
  | .send opcode arguments room =>
    discard ((host timing).send opcode arguments false (Vector.replicate room 0))
  | .fault f => modify f.inject

def performAll (timing : Timing) : List Step → RegisterM EmulatedSdm Unit
  | [] => pure ()
  | step :: steps => do
    step.perform timing
    performAll timing steps

theorem sound_fresh : (fresh {}).Sound :=
  ⟨rfl, by decide, by decide, by decide, by decide, rfl, rfl⟩

theorem Fault.keeps_inject (f : Fault) {s : EmulatedSdm} (hs : s.Sound) : (f.inject s).Sound := by
  cases f <;> exact ⟨hs.map, hs.cin, hs.cout, hs.rin, hs.rout, hs.commandCells, hs.responseCells⟩

theorem Step.keeps_perform (step : Step) : Keeps Sound (step.perform timing) Whatever := by
  cases step with
  | init => exact (tries_init timing).run.discard
  | send opcode arguments room => exact (keeps_send timing opcode arguments false _).discard
  | fault f =>
    intro s hs
    exact ⟨_, _, .modify _ s, f.keeps_inject hs, trivial⟩

/-- No run is aborted, and no run gets the cursors out of their rings. -/
theorem keeps_performAll (steps : List Step) : Keeps Sound (performAll timing steps) Whatever := by
  induction steps with
  | nil => exact .pure trivial
  | cons step steps ih => exact (step.keeps_perform timing).bind fun _ _ => ih

end Mailbox

end RemoteUpdate
