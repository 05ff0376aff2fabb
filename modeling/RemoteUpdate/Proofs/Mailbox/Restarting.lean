import RemoteUpdate.Proofs.Mailbox.Attribution

/-!
# Restarting the mailbox

What the driver does to bring the mailbox into a known state: an urgent restart ends what the device manager
is busy with, but leaves both rings as they are. The next call takes the first response that is addressed to
the host, so it gets its answer unless something that was left comes to such a response. If the response ring
was left full, no answer is ever announced.
-/

namespace RemoteUpdate

namespace EmulatedSdm

variable {s : EmulatedSdm} {opcode : UInt32} {arguments : List UInt32}

/-! ### Nothing goes wrong -/

/-- Nothing is asked to go wrong. -/
structure Faultless (s : EmulatedSdm) : Prop where
  doorbells : s.lostDoorbells = some 0
  strays : s.strays = 0
  busy : s.busy = 0
  failures : ∀ f ∈ s.failures, f.remaining = 0
  consumeDelay : s.consumeDelay = 0
  acknowledges : s.acknowledgeFrozen = false

instance (s : EmulatedSdm) : Decidable s.Faultless :=
  decidable_of_iff (s.lostDoorbells = some 0 ∧ s.strays = 0 ∧ s.busy = 0 ∧
      (∀ f ∈ s.failures, f.remaining = 0) ∧ s.consumeDelay = 0 ∧ s.acknowledgeFrozen = false)
    ⟨fun ⟨hdoorbells, hstrays, hbusy, hfailures, hdelay, hacknowledges⟩ =>
        ⟨hdoorbells, hstrays, hbusy, hfailures, hdelay, hacknowledges⟩,
      fun h => ⟨h.doorbells, h.strays, h.busy, h.failures, h.consumeDelay, h.acknowledges⟩⟩

/-- What is in the registers, and which words of a command have come, is no fault. -/
theorem Faultless.registers (h : s.Faultless) (urgent interrupts status doorbell : UInt32)
    (partialCommand : Option LoggedCommand) :
    EmulatedSdm.Faultless { s with urgent, interrupts, status, doorbell, partialCommand } :=
  ⟨h.doorbells, h.strays, h.busy, h.failures, h.consumeDelay, h.acknowledges⟩

theorem takeFailure_eq_none {failures : List PlannedFailure} (h : ∀ f ∈ failures, f.remaining = 0) :
    takeFailure opcode failures = none := by
  induction failures with
  | nil => rfl
  | cons f failures ih =>
    obtain ⟨hf, hrest⟩ := List.forall_mem_cons.mp h
    rw [takeFailure, if_neg (by omega), ih hrest]
    rfl

/-- A command is answered by carrying it out. -/
theorem Faultless.replied (h : s.Faultless) (c : LoggedCommand) : replied c s =
    ((handled c.header.opcode c.arguments s).1, (handled c.header.opcode c.arguments s).2.1.value,
      (handled c.header.opcode c.arguments s).2.2) := by
  unfold EmulatedSdm.replied
  rw [if_neg (by rw [h.busy]; omega), takeFailure_eq_none h.failures]

/-- Carrying out a command never asks for another attempt. -/
theorem code_handled (opcode : UInt32) (arguments : List UInt32) (s : EmulatedSdm) :
    (handled opcode arguments s).2.1 ∈ [ResponseCode.ok, .error, .invalidCommand] := by
  unfold handled
  split
  case h_6 => split <;> simp
  all_goals simp

theorem final_handled (opcode : UInt32) (arguments : List UInt32) (s : EmulatedSdm) (count : Nat)
    (e : MailboxError) (h : resultOfCode (handled opcode arguments s).2.1.value count = .error e) :
    ¬ e.isTransient := by
  have hmember := code_handled opcode arguments s
  generalize (handled opcode arguments s).2.1 = code at hmember h
  simp only [List.mem_cons, List.not_mem_nil, or_false] at hmember
  rcases hmember with rfl | rfl | rfl <;> cases h <;> decide

theorem Faultless.code_answer (h : s.Faultless) (hopcode : opcode ≤ maxOpcode) :
    (answer (.fromHost opcode arguments) s).header.code = (handled opcode arguments s).2.1.value := by
  have hheader : (LoggedCommand.fromHost opcode arguments).header.opcode = opcode :=
    CommandHeader.opcode_make hopcode
  have hmember := code_handled opcode arguments s
  rw [EmulatedSdm.code_answer, h.replied, hheader]
  show (handled opcode arguments s).2.1.value &&& _ = _
  generalize (handled opcode arguments s).2.1 = code at hmember
  simp only [List.mem_cons, List.not_mem_nil, or_false] at hmember
  rcases hmember with rfl | rfl | rfl <;> decide

theorem Faultless.data_answer (h : s.Faultless) (hopcode : opcode ≤ maxOpcode) :
    (answer (.fromHost opcode arguments) s).data = (handled opcode arguments s).2.2 := by
  have hheader : (LoggedCommand.fromHost opcode arguments).header.opcode = opcode :=
    CommandHeader.opcode_make hopcode
  show (EmulatedSdm.replied _ s).2.2 = _
  rw [h.replied, hheader]
  rfl

theorem handled_faults (opcode : UInt32) (arguments : List UInt32) (s : EmulatedSdm) :
    (handled opcode arguments s).1.busy = s.busy ∧ (handled opcode arguments s).1.failures = s.failures := by
  unfold handled
  split
  all_goals try exact ⟨rfl, rfl⟩
  cases h : s.pendingUpdate <;> simp [rebooted, h]

theorem Faultless.executed (h : s.Faultless) (c : LoggedCommand) : (executed c s).Faultless := by
  obtain ⟨hbusy, hfailures⟩ := handled_faults c.header.opcode c.arguments s
  refine ⟨h.doorbells, rfl, ?_, ?_, h.consumeDelay, h.acknowledges⟩
  · show (EmulatedSdm.replied c s).1.busy = 0
    rw [h.replied]
    exact hbusy.trans h.busy
  · show ∀ f ∈ (EmulatedSdm.replied c s).1.failures, f.remaining = 0
    rw [h.replied]
    exact hfailures ▸ h.failures

theorem Faultless.responses (h : s.Faultless) (c : LoggedCommand) : responses c s = [answer c s] := by
  rw [EmulatedSdm.responses, h.strays]
  rfl

/-- A word adds no more than an answer to the outbox. -/
theorem Faultless.absorbed (h : s.Faultless) (word : UInt32) : (s.absorb word).Faultless ∧
    (s.absorb word).outbox.length ≤ s.outbox.length + (1 + updateStatusWords) := by
  unfold EmulatedSdm.absorb
  simp only
  split
  · exact ⟨h.registers _ _ _ _ _, by simp⟩
  · have hwhole : EmulatedSdm.Faultless { s with partialCommand := none } := h.registers _ _ _ _ _
    refine ⟨hwhole.executed _, ?_⟩
    have hlength : (answer (extended word s.partialCommand) { s with partialCommand := none }).data.length ≤
        updateStatusWords := length_replied _ _
    show (s.outbox ++ Response.wire (EmulatedSdm.responses _ _)).length ≤ _
    rw [hwhole.responses, List.length_append, Response.wire_cons, Response.wire_nil, List.append_nil,
      List.length_cons]
    omega

theorem Faultless.absorbedAll (h : s.Faultless) (words : List UInt32) : (words.foldl absorb s).Faultless ∧
    (words.foldl absorb s).outbox.length ≤ s.outbox.length + words.length * (1 + updateStatusWords) := by
  induction words generalizing s with
  | nil => exact ⟨h, by simp⟩
  | cons word words ih =>
    obtain ⟨hone, hlength⟩ := h.absorbed word
    obtain ⟨hall, hlength'⟩ := ih hone
    refine ⟨hall, ?_⟩
    rw [List.foldl_cons, List.length_cons, Nat.succ_mul]
    omega

theorem Faultless.caughtUp (h : s.Faultless) : s.caughtUp.Faultless ∧
    s.caughtUp.outbox.length ≤ s.queue.length + s.commandWords.length * (1 + updateStatusWords) := by
  have hbehind : (s.behind blank s.responseWords).Faultless :=
    ⟨rfl, h.strays, h.busy, h.failures, rfl, rfl⟩
  exact hbehind.absorbedAll s.commandWords

/-! ### Restarts -/

/-- The device manager after the driver has restarted it: what it was busy with is gone, and the rings are as
they were. -/
def restarted (s : EmulatedSdm) : EmulatedSdm :=
  { s with
    urgent := 0
    interrupts := Interrupt.all
    status := s.status ^^^ urgentAcknowledge
    doorbell := 0
    partialCommand := none
    outbox := []
    countdown := none
    urgentCount := s.urgentCount + 1 }

theorem Sound.registers (hs : s.Sound) (urgent interrupts status doorbell : UInt32) :
    EmulatedSdm.Sound { s with urgent, interrupts, status, doorbell } :=
  ⟨hs.map, hs.cin, hs.cout, hs.rin, hs.rout, hs.commandCells, hs.responseCells⟩

theorem Sound.restarted (hs : s.Sound) : s.restarted.Sound :=
  ⟨hs.map, hs.cin, hs.cout, hs.rin, hs.rout, hs.commandCells, hs.responseCells⟩

theorem Faultless.restarted (h : s.Faultless) : s.restarted.Faultless :=
  ⟨h.doorbells, h.strays, h.busy, h.failures, h.consumeDelay, h.acknowledges⟩

theorem acknowledge_xor (status : UInt32) :
    status &&& urgentAcknowledge ≠ (status ^^^ urgentAcknowledge) &&& urgentAcknowledge := by
  intro h
  have hbit := congrArg (fun word : UInt32 => word.toBitVec.getLsbD 8) h
  simp [urgentAcknowledge] at hbit

end EmulatedSdm

open EmulatedSdm

namespace Mailbox

variable {timing : Timing} {s t : EmulatedSdm} {later : List Response} {r : Response} {opcode : UInt32}
  {arguments : List UInt32} {room count : Nat}

/-! ### Bringing the mailbox into a known state -/

section Init

variable (hs : s.Sound)
include hs

theorem readRegister_status : s.readRegister ({} : RegisterMap).status = s.status := by
  simp [readRegister, hs.map]

theorem returns_interrupts (interrupts : UInt32) :
    Returns (writeRegister ({} : RegisterMap).interrupts interrupts) s () { s with interrupts } := by
  unfold writeRegister
  refine (Returns.get s).bind ?_
  simp only [hs.map]
  exact .set _ _

theorem returns_urgent (urgent : UInt32) :
    Returns (writeRegister ({} : RegisterMap).urgent urgent) s () { s with urgent } := by
  unfold writeRegister
  refine (Returns.get s).bind ?_
  simp only [hs.map]
  exact .set _ _

theorem returns_ring_restart (h : s.Faultless) (hu : s.urgent = Command.restart.opcode) :
    Returns (writeRegister ({} : RegisterMap).doorbellToSdm 1) s ()
      { s.restarted with interrupts := 0, doorbell := 1 } := by
  have haccepted : s.accepted = { s.restarted with interrupts := 0, doorbell := 1 } := by
    have hmoves : ¬ s.acknowledgeFrozen = true := by rw [h.acknowledges]; decide
    unfold accepted
    simp only [hu, if_true]
    rw [if_neg hmoves, raiseDoorbell_eq (by exact h.doorbells)]
    rfl
  rw [← haccepted]
  unfold writeRegister
  refine (Returns.get s).bind ?_
  simp only [hs.map]
  exact returns_onDoorbell_urgent (by rw [hu]; decide)

theorem returns_waitDoorbell {budget : Nat} (hraised : s.Raised) (hbudget : 0 < budget) :
    Ends ((host timing).waitDoorbell budget) s (.ok ()) { s with doorbell := 0 } := by
  obtain ⟨budget, rfl⟩ : ∃ b, budget = b + 1 := ⟨budget - 1, by omega⟩
  have hdoorbell := returns_takeDoorbell timing hs
  rw [if_pos hraised, decide_eq_true hraised] at hdoorbell
  unfold waitDoorbell
  exact (Ends.lift hdoorbell).bind (.pure () _)

theorem ends_sendUrgent_restart (h : s.Faultless) (hpolls : 0 < timing.doorbellPolls) :
    Ends ((host timing).sendUrgent Command.restart.opcode) s (.ok 0)
      { s.restarted with interrupts := 0 } := by
  have hasked : EmulatedSdm.Sound { s with urgent := Command.restart.opcode } := hs.registers _ _ _ _
  have hring := returns_ring_restart hasked (h.registers _ _ _ _ _) rfl
  have hbefore := returns_read timing ({} : RegisterMap).status s
  rw [readRegister_status hs] at hbefore
  have hafter := returns_read timing ({} : RegisterMap).status { s.restarted with interrupts := 0 }
  rw [readRegister_status (hs.restarted.registers _ _ _ _)] at hafter
  have hwait : Ends ((host timing).waitDoorbell timing.doorbellPolls)
      { s.restarted with interrupts := 0, doorbell := 1 } (.ok ()) { s.restarted with interrupts := 0 } :=
    returns_waitDoorbell (hs.restarted.registers _ _ _ _) (show (1 : UInt32) &&& 1 ≠ 0 by decide) hpolls
  unfold sendUrgent
  refine (Ends.lift hbefore).bind <| (Ends.lift (returns_urgent hs _)).bind <|
    (Ends.lift hring).bind <| hwait.bind <| (Ends.lift hafter).bind ?_
  have hmoved : s.status &&& urgentAcknowledge ≠ s.restarted.status &&& urgentAcknowledge :=
    acknowledge_xor s.status
  simp only
  rw [if_neg hmoved]
  exact (Ends.lift (returns_log timing _ _)).bind (.pure 0 _)

omit hs in
theorem send_urgent (buffer : Vector UInt32 room)
    (h : Ends ((host timing).sendUrgent opcode) s (.ok count) t) :
    Returns ((host timing).send opcode arguments true buffer) s (.ok count, overlay buffer []) t := by
  have hattempt : Returns ((host timing).attempt opcode arguments true room) s
      { result := .ok count } t := Returns.bind h (.pure _ t)
  unfold send send.go
  exact hattempt.bind (.pure _ t)

/-- The driver restarts a device manager with which nothing goes wrong. -/
theorem ends_init (h : s.Faultless) (hpolls : 0 < timing.doorbellPolls) :
    Ends (host timing).init s (.ok ()) s.restarted := by
  have hknown : EmulatedSdm.Sound { s with interrupts := Interrupt.all, urgent := 0, doorbell := 0 } :=
    hs.registers _ _ _ _
  have hrestart : Returns ((host timing).send Command.restart.opcode [] true noData)
      { s with interrupts := Interrupt.all, urgent := 0, doorbell := 0 } (.ok 0, noData)
      { s.restarted with interrupts := 0 } :=
    send_urgent noData (ends_sendUrgent_restart hknown (h.registers _ _ _ _ _) hpolls)
  have hinterrupts : EmulatedSdm.Sound { s with interrupts := Interrupt.all } := hs.registers _ _ _ _
  have hurgent : EmulatedSdm.Sound { s with interrupts := Interrupt.all, urgent := 0 } := hs.registers _ _ _ _
  unfold init
  refine (Ends.lift (returns_interrupts hs _)).bind <| (Ends.lift (returns_urgent hinterrupts _)).bind <|
    (Ends.lift (returns_clear hurgent)).bind <| (Ends.lift hrestart).bind ?_
  exact .lift (returns_interrupts (hs.restarted.registers _ _ _ _) Interrupt.all)

end Init

/-! ### The call after that -/

/-- Nothing goes wrong, the device manager is not waiting, and the response ring is not full. Once it has seen
what is in the command ring, no part of a command is left, and these are the responses to be taken. -/
structure Leaves (left : List Response) (s : EmulatedSdm) : Prop where
  sound : s.Sound
  faultless : s.Faultless
  urgent : s.urgent = 0
  stopped : s.countdown = none
  published : s.outbox = []
  room : 0 < s.room
  whole : s.caughtUp.partialCommand = none
  words : s.caughtUp.outbox = Response.wire left

/-- There are fewer responses than words that fit into the rings, or are drawn by what fits into them. -/
theorem Leaves.length_lt {left : List Response} (h : Leaves left s) : left.length <
    ({} : RegisterMap).responseSlots + ({} : RegisterMap).commandSlots * (1 + updateStatusWords) := by
  have hresponses := Ring.free_add_pending (r := s.responseRing) (by have := h.sound.rin; omega) s.rin s.rout
  rw [Ring.usable, h.sound.responseCapacity] at hresponses
  have hqueue : s.queue.length = s.responseRing.pending s.rin s.rout := by
    rw [queue, h.published, List.append_nil]
    exact Ring.length_contents
  have hcommands := h.sound.commandRoom
  have hlength := Response.length_le_wire left
  rw [← h.words] at hlength
  have hcaught := h.faultless.caughtUp.2
  have hwords : s.commandWords.length * (1 + updateStatusWords) ≤ 31 * (1 + updateStatusWords) :=
    Nat.mul_le_mul_right _ (by omega)
  show left.length < 16 + 32 * (1 + updateStatusWords)
  omega

section First

variable {left q : List Response} (h : Leaves left s) (hopcode : opcode ≤ maxOpcode)
  (harguments : arguments.length ≤ maxArguments) (hpatient : timing.Patient 0)
include h hopcode harguments hpatient

/-- A command that is sent now is answered at once, behind what was left. -/
theorem sendCommand_prompt : ∃ t, Ends ((host timing).sendCommand opcode false arguments) s (.ok ()) t ∧
    t.caughtUp = executed (.fromHost opcode arguments) s.caughtUp ∧ t.urgent = 0 ∧
    Ripe (left ++ [answer (.fromHost opcode arguments) s.caughtUp]) t ∧ t.Raised := by
  have hwhole : (LoggedCommand.fromHost opcode arguments).Whole := LoggedCommand.whole_fromHost harguments
  have hprompt := h.faultless.consumeDelay
  have halert : s.Alert := ⟨h.faultless.doorbells, .inr h.room⟩
  have htimely : s.Timely := by
    intro c hc
    rw [h.stopped] at hc
    exact nomatch hc
  have hpatient' : timing.Patient s.consumeDelay := by
    rw [hprompt]
    exact hpatient
  obtain ⟨t, hends, hsent, hwords⟩ :=
    sendCommand_through h.sound h.urgent htimely hopcode harguments (.inl hpatient')
  have hadv := advances_rung hsent.sound
  have hcaught : t.caughtUp = executed (.fromHost opcode arguments) s.caughtUp := by
    rw [hsent.caughtUp, absorb_words h.whole hwhole]
  have houtbox : t.caughtUp.outbox =
      Response.wire (left ++ [answer (.fromHost opcode arguments) s.caughtUp]) := by
    rw [hcaught, ← h.faultless.caughtUp.1.responses, Response.wire_append, ← h.words]
    rfl
  have hbefore : t.queue.length ≤ (Response.wire left).length := by
    rw [← h.words]
    rcases hsent.seen with ⟨-, hqueue, -⟩ | ⟨front, hfront, hqueue, -⟩
    · obtain ⟨rs, hrs⟩ := outbox_caughtUp s
      rw [hqueue, hrs, List.length_append]
      omega
    · obtain ⟨p, hpart⟩ := absorb_part h.whole hwhole hfront hwords
      rw [hqueue, hpart]
  refine ⟨t.rung, hends, hadv.caughtUp.trans hcaught, hadv.urgent.trans (hsent.urgent.trans h.urgent),
    ripe_rung hsent.sound (hsent.timely htimely) (hsent.alert halert) (hsent.consumeDelay.trans hprompt)
      houtbox fun heq => ?_⟩
  -- the answer is not among what was waiting
  rw [heq, Response.wire_append, List.length_append, Response.wire_cons, List.length_cons] at hbefore
  omega

variable (hsplit : left ++ [answer (.fromHost opcode arguments) s.caughtUp] = q ++ r :: later)
  (hq : ∀ r ∈ q, ¬ r.Answers) (hr : r.Answers)
  (hpolls : q.length < timing.doorbellPolls) (hdata : 0 < timing.dataPolls)
include hsplit hq hr hpolls hdata

/-- An attempt ends with the first response that answers, be it one that was left or the answer to the
command. -/
theorem attempt_first (room : Nat) :
    ∃ t, Returns ((host timing).attempt opcode arguments false room) s (answeredBy r room) t ∧
      Idle t ∧ t.queue = Response.wire later ∧ t.log = s.caughtUp.log.push (.fromHost opcode arguments) := by
  obtain ⟨u, hsend, hcaught, hurgent, hripe, hraised⟩ := sendCommand_prompt h hopcode harguments hpatient
  rw [hsplit] at hripe
  obtain ⟨t, hcollect, hfinished, hleft⟩ := collect_front_raised opcode room timing.doorbellPolls hdata hq
    hr hripe hraised (.inl rfl) hpolls
  have hpartial : u.caughtUp.partialCommand = none := by
    rw [hcaught]
    exact (executed_partialCommand _ _).trans h.whole
  obtain ⟨hidle, hlog⟩ := hfinished.settles hurgent hpartial
  refine ⟨t, attempt_sent hsend hcollect, hidle, hleft.queue, ?_⟩
  rw [hlog, hcaught]
  rfl

theorem send_first {result : Except MailboxError Nat} (buffer : Vector UInt32 room)
    (hresult : result = resultOfCode r.header.code (min room r.data.length))
    (hfinal : ∀ e, result = .error e → ¬ e.isTransient) :
    ∃ t, Returns ((host timing).send opcode arguments false buffer) s
        (result, overlay buffer (r.data.take room)) t ∧
      Idle t ∧ t.queue = Response.wire later ∧ t.log = s.caughtUp.log.push (.fromHost opcode arguments) := by
  obtain ⟨t, hattempt, hrest⟩ := attempt_first h hopcode harguments hpatient hsplit hq hr hpolls hdata room
  refine ⟨t, ?_, hrest⟩
  have hend : (answeredBy r room).result = result := (result_answeredBy r room).trans hresult.symm
  cases result with
  | ok count => exact send_ok hattempt hend
  | error e => exact send_fails hattempt hend (hfinal e rfl)

end First

/-! ### Whatever happened before -/

/-- What the host may ask of the driver, and what may go wrong in between. -/
inductive Call where
  | init
  | send (opcode : UInt32) (arguments : List UInt32) (urgent : Bool) (room : Nat)
  | sendOnly (opcode : UInt32) (indirect : Bool) (arguments : List UInt32)
  | wait
  | receive (room : Nat)
  | drain (limit : Nat)
  | fault (f : Fault)
  | freeze (frozen : Bool)

namespace Call

/-- The call is made, whatever comes of it. -/
def perform (timing : Timing) : Call → RegisterM EmulatedSdm Unit
  | .init => discard (host timing).init.run
  | .send opcode arguments urgent room =>
    discard ((host timing).send opcode arguments urgent (Vector.replicate room 0))
  | .sendOnly opcode indirect arguments => discard ((host timing).sendCommand opcode indirect arguments).run
  | .wait => discard (host timing).waitResponse.run
  | .receive room => discard ((host timing).receive room)
  | .drain limit => discard ((host timing).drain limit)
  | .fault f => modify f.inject
  | .freeze frozen => modify fun s => { s with acknowledgeFrozen := frozen }

def run (timing : Timing) : List Call → RegisterM EmulatedSdm Unit
  | [] => pure ()
  | call :: calls => do
    call.perform timing
    run timing calls

theorem keeps_perform (timing : Timing) (call : Call) : Keeps Sound (call.perform timing) Whatever := by
  cases call with
  | init => exact (tries_init timing).run.discard
  | send opcode arguments urgent room => exact (keeps_send timing opcode arguments urgent _).discard
  | sendOnly opcode indirect arguments =>
    exact (tries_sendCommand timing opcode indirect arguments).run.discard
  | wait => exact (steady_sound.waitResponse timing).run.discard
  | receive room => exact (steady_sound.receive timing room).discard
  | drain limit => exact (steady_sound.drain timing limit).discard
  | fault f => exact fun s hs => ⟨_, _, .modify _ s, f.keeps_inject hs, trivial⟩
  | freeze frozen =>
    exact fun s hs => ⟨_, _, .modify _ s, ⟨hs.map, hs.cin, hs.cout, hs.rin, hs.rout, hs.commandCells,
      hs.responseCells⟩, trivial⟩

/-- No run is aborted, and no run gets the cursors out of their rings. -/
theorem keeps_run (timing : Timing) (calls : List Call) : Keeps Sound (run timing calls) Whatever := by
  induction calls with
  | nil => exact .pure trivial
  | cons call calls ih => exact (call.keeps_perform timing).bind fun _ _ => ih

theorem sound_run {calls : List Call} (hrun : Returns (run timing calls) (fresh {}) () s) : s.Sound := by
  obtain ⟨_, t, hreturns, hsound, -⟩ := keeps_run timing calls (fresh {}) sound_fresh
  obtain rfl : s = t := (hrun.unique hreturns).2
  exact hsound

end Call

/-! ### Recovery -/

/-- The driver polls often enough for a device manager without delay, and for all that may come of what is in
the rings. -/
structure Ample (timing : Timing) : Prop where
  patient : timing.Patient 0
  doorbells : ({} : RegisterMap).responseSlots + ({} : RegisterMap).commandSlots * (1 + updateStatusWords) ≤
    timing.doorbellPolls
  data : 0 < timing.dataPolls

theorem ample_default : Ample {} :=
  ⟨by decide, by decide, by decide⟩

theorem leaves_restarted {left : List Response} (hs : s.Sound) (h : s.Faultless) (hroom : 0 < s.room)
    (hwhole : s.restarted.caughtUp.partialCommand = none)
    (hleft : s.restarted.caughtUp.outbox = Response.wire left) : Leaves left s.restarted :=
  ⟨hs.restarted, h.restarted, rfl, rfl, rfl, hroom, hwhole, hleft⟩

/-- Whatever was asked of the driver and whatever went wrong: once nothing goes wrong any more, the mailbox
can be brought into a known state. If the response ring is not full then, and all that is left in the rings is
whole and comes to responses to others, the next call gets what its command comes to. -/
theorem init_recovers {calls : List Call} {left : List Response}
    (hrun : Returns (Call.run timing calls) (fresh {}) () s) (h : s.Faultless) (hroom : 0 < s.room)
    (hwhole : s.restarted.caughtUp.partialCommand = none)
    (hleft : s.restarted.caughtUp.outbox = Response.wire left) (hstrangers : ∀ r ∈ left, ¬ r.Answers)
    (htiming : Ample timing) (hopcode : opcode ≤ maxOpcode) (harguments : arguments.length ≤ maxArguments)
    (buffer : Vector UInt32 room) :
    ∃ code data buffer' t, (handled opcode arguments s.restarted.caughtUp).2 = (code, data) ∧
      Ends (host timing).init s (.ok ()) s.restarted ∧
      Returns ((host timing).send opcode arguments false buffer) s.restarted
        (resultOfCode code.value (min room data.length), buffer') t ∧
      (∀ i (hi : i < room), buffer'[i] = data.getD i buffer[i]) ∧
      t.log = s.restarted.caughtUp.log.push (.fromHost opcode arguments) ∧ Idle t ∧ t.queue = [] := by
  have hs := Call.sound_run hrun
  have hleaves := leaves_restarted hs h hroom hwhole hleft
  have hpolls := hleaves.length_lt.trans_le htiming.doorbells
  have hcode : (answer (.fromHost opcode arguments) s.restarted.caughtUp).header.code =
      (handled opcode arguments s.restarted.caughtUp).2.1.value := h.restarted.caughtUp.1.code_answer hopcode
  have hdata : (answer (.fromHost opcode arguments) s.restarted.caughtUp).data =
      (handled opcode arguments s.restarted.caughtUp).2.2 := h.restarted.caughtUp.1.data_answer hopcode
  -- the responses left behind come first, and the answer to the command is the last of them
  have hsplit : left ++ [answer (.fromHost opcode arguments) s.restarted.caughtUp] =
      left ++ answer (.fromHost opcode arguments) s.restarted.caughtUp :: [] := rfl
  obtain ⟨t, hsend, hidle, hqueue, hlog⟩ := send_first hleaves hopcode harguments htiming.patient hsplit
    hstrangers (answers_answer opcode arguments s.restarted.caughtUp) hpolls htiming.data buffer
    (by rw [hcode, hdata]) (final_handled opcode arguments s.restarted.caughtUp _)
  refine ⟨_, _, _, t, rfl, ends_init hs h (by omega), hsend, fun i hi => ?_, hlog, hidle, hqueue⟩
  rw [getElem_overlay buffer _ hi, hdata]
  simp [List.getD_eq_getElem?_getD, hi]

/-- Strays that have been left in the response ring, with one slot free. -/
def straying : List Call :=
  [.sendOnly 2 false [], .fault (.strays 7), .sendOnly 90 false [], .init, .drain 1]

/-- The next call gets its nine words. -/
theorem init_recovers_straying : ∃ s buffer t,
    Returns (Call.run {} straying) (fresh {}) () s ∧ s.room = 1 ∧
      Ends (host {}).init s (.ok ()) s.restarted ∧
      Returns ((host {}).send 91 [] false (Vector.replicate 9 0)) s.restarted (.ok 9, buffer) t := by
  obtain ⟨_, s, hrun, -, -⟩ := Call.keeps_run {} straying (fresh {}) sound_fresh
  obtain ⟨h, hroom, hwhole, hleft, hok, hnine⟩ := hrun.tested (P := fun _ s => s.Faultless ∧ s.room = 1 ∧
      s.restarted.caughtUp.partialCommand = none ∧
      s.restarted.caughtUp.outbox = Response.wire (.replicate 7 (stray (.fromHost 90 []))) ∧
      (handled 91 [] s.restarted.caughtUp).2.1 = .ok ∧ (handled 91 [] s.restarted.caughtUp).2.2.length = 9)
    (by decide +kernel)
  have hstrangers : ∀ r ∈ List.replicate 7 (stray (.fromHost 90 [])), ¬ r.Answers := by
    intro r hr
    rw [List.eq_of_mem_replicate hr]
    exact not_answers_stray 90 []
  obtain ⟨code, data, buffer, t, hhandled, hinit, hsend, -⟩ := init_recovers hrun h (by omega) hwhole hleft
    hstrangers
    ample_default (show 91 ≤ maxOpcode by decide) (show ([] : List UInt32).length ≤ maxArguments by decide)
    (Vector.replicate 9 0)
  rw [hhandled] at hok hnine
  obtain rfl : code = .ok := hok
  obtain hnine : data.length = 9 := hnine
  rw [hnine] at hsend
  exact ⟨s, buffer, t, hrun, hroom, hinit, hsend⟩

/-- If a response that was left answers, the next call takes it for its own, and the answer to the command is
left in turn. -/
theorem init_leaves_answer {q : List Response} (hs : s.Sound) (h : s.Faultless)
    (hroom : 0 < s.room) (hwhole : s.restarted.caughtUp.partialCommand = none)
    (hleft : s.restarted.caughtUp.outbox = Response.wire (q ++ r :: later)) (hq : ∀ r ∈ q, ¬ r.Answers)
    (hr : r.Answers) {result : Except MailboxError Nat}
    (hresult : result = resultOfCode r.header.code (min room r.data.length))
    (hfinal : ∀ e, result = .error e → ¬ e.isTransient) (htiming : Ample timing)
    (hopcode : opcode ≤ maxOpcode) (harguments : arguments.length ≤ maxArguments)
    (buffer : Vector UInt32 room) :
    ∃ t, Ends (host timing).init s (.ok ()) s.restarted ∧
      Returns ((host timing).send opcode arguments false buffer) s.restarted
        (result, overlay buffer (r.data.take room)) t ∧
      t.queue = Response.wire (later ++ [answer (.fromHost opcode arguments) s.restarted.caughtUp]) := by
  have hleaves := leaves_restarted hs h hroom hwhole hleft
  have hpolls := hleaves.length_lt.trans_le htiming.doorbells
  rw [List.length_append] at hpolls
  have hsplit : (q ++ r :: later) ++ [answer (.fromHost opcode arguments) s.restarted.caughtUp] =
      q ++ r :: (later ++ [answer (.fromHost opcode arguments) s.restarted.caughtUp]) := by
    rw [List.append_assoc, List.cons_append]
  obtain ⟨t, hsend, -, hqueue, -⟩ := send_first hleaves hopcode harguments htiming.patient hsplit hq hr
    (by omega) htiming.data buffer hresult hfinal
  exact ⟨t, ends_init hs h (by omega), hsend, hqueue⟩

/-- A response that nobody waited for survives the restart, and the next call returns its four words for the
nine of its own answer. -/
theorem stale_answer : ∃ s buffer t,
    Returns (Call.run {} [.sendOnly 90 false []]) (fresh {}) () s ∧ s.Faultless ∧
      Ends (host {}).init s (.ok ()) s.restarted ∧
      Returns ((host {}).send 91 [] false (Vector.replicate 9 0)) s.restarted (.ok 4, buffer) t ∧
      buffer.toList.take 4 = (answer (.fromHost 90 []) (fresh {})).data ∧
      (handled 91 [] s.restarted).2.1 = .ok ∧ (handled 91 [] s.restarted).2.2.length = 9 := by
  obtain ⟨_, s, hrun, hs, -⟩ := Call.keeps_run {} [.sendOnly 90 false []] (fresh {}) sound_fresh
  obtain ⟨h, hroom, hwhole, hleft, hok, hnine⟩ := hrun.tested (P := fun _ s => s.Faultless ∧ 0 < s.room ∧
      s.restarted.caughtUp.partialCommand = none ∧
      s.restarted.caughtUp.outbox = Response.wire ([] ++ answer (.fromHost 90 []) (fresh {}) :: []) ∧
      (handled 91 [] s.restarted).2.1 = .ok ∧ (handled 91 [] s.restarted).2.2.length = 9)
    (by decide +kernel)
  have hresult : (.ok 4 : Except MailboxError Nat) =
      resultOfCode (answer (.fromHost 90 []) (fresh {})).header.code
        (min 9 (answer (.fromHost 90 []) (fresh {})).data.length) := by decide
  obtain ⟨t, hinit, hsend, -⟩ := init_leaves_answer hs h hroom hwhole hleft (by simp)
    (answers_answer 90 [] (fresh {})) hresult (by simp) ample_default (show 91 ≤ maxOpcode by decide)
    (show ([] : List UInt32).length ≤ maxArguments by decide) (Vector.replicate 9 0)
  exact ⟨s, _, t, hrun, h, hinit, hsend, by decide, hok, hnine⟩

/-! ### Full rings -/

/-- The driver reads responses once it has heard a doorbell, and there is no room for a response to be
announced by one. -/
structure Wedged (s : EmulatedSdm) : Prop where
  sound : s.Sound
  urgent : s.urgent = 0
  countdown : s.countdown ≠ some 0
  muted : s.Muted

theorem wedged_restarted (hs : s.Sound) (hfull : s.room = 0) : Wedged s.restarted where
  sound := hs.restarted
  urgent := rfl
  countdown h := nomatch h
  muted := ⟨not_raised_cleared s.restarted, hfull⟩

namespace Wedged

theorem advances (h : Wedged s) (h' : Advances s t) : Wedged t :=
  ⟨h'.sound, h'.urgent.trans h.urgent, h'.clock.ne_zero h.countdown, h'.muted h.muted⟩

theorem sent {words : List UInt32} (h : Wedged s) (h' : Sent words s t) : Wedged t :=
  ⟨h'.sound, h'.urgent.trans h.urgent, h'.clock.ne_zero h.countdown, h'.muted h.muted⟩

theorem inject (h : Wedged s) (f : Fault) : Wedged (f.inject s) := by
  have hs := f.keeps_inject h.sound
  obtain ⟨-, hurgent, hcountdown, hmuted⟩ := h
  cases f <;> exact ⟨hs, hurgent, hcountdown, hmuted⟩

theorem collect (h : Wedged s) (timing : Timing) (opcode : UInt32) (room budget : Nat) :
    ∃ t, Returns ((host timing).collect opcode room budget none) s missed t ∧ Wedged t := by
  induction budget generalizing s with
  | zero => exact ⟨s, collect_timeout h.sound (.inl rfl), h⟩
  | succ budget ih =>
    obtain ⟨t, hrest, ht⟩ := ih (h.advances (advances_ticked h.sound))
    exact ⟨t, collect_ticked h.sound (.inl rfl) h.muted.1 hrest, ht⟩

section Send

variable (h : Wedged s) (timing : Timing)
include h

/-- The command may get through and be carried out, but nothing is heard of it. -/
theorem attempt (hopcode : opcode ≤ maxOpcode) (harguments : arguments.length ≤ maxArguments) (room : Nat) :
    ∃ t, Returns ((host timing).attempt opcode arguments false room) s missed t ∧ Wedged t := by
  obtain ⟨r, t, hwrite, hcases⟩ := writeWords_sent timing h.sound h.urgent h.countdown
    (LoggedCommand.fromHost opcode arguments).words
  rcases hcases with ⟨rfl, hsent, -⟩ | ⟨rfl, -, front, rest, -, -, hsent⟩
  · have ht := h.sent hsent
    have hsend := sendCommand_ok h.sound hopcode harguments ht.urgent ht.sound hwrite
    obtain ⟨u, hcollect, hu⟩ :=
      (ht.advances (advances_rung ht.sound)).collect timing opcode room timing.doorbellPolls
    exact ⟨u, attempt_sent hsend hcollect, hu⟩
  · exact ⟨t, attempt_failed (sendCommand_error h.sound hopcode harguments hwrite), h.sent hsent⟩

theorem send_timeout (hopcode : opcode ≤ maxOpcode) (harguments : arguments.length ≤ maxArguments)
    (more number : Nat) (buffer : Vector UInt32 room) :
    ∃ buffer' t, Returns (send.go (host timing) opcode arguments false more number buffer) s
      (.error .timeout, buffer') t ∧ Wedged t := by
  refine returns_go_missed (I := Wedged) (fun s hs => ?_) more number buffer h
  obtain ⟨t, hattempt, ht⟩ := hs.attempt timing hopcode harguments room
  exact ⟨t, hattempt, ht.sound, ht.advances (advances_ticked ht.sound)⟩

theorem send (opcode : UInt32) (arguments : List UInt32) (buffer : Vector UInt32 room) :
    ∃ e buffer' t, Returns ((host timing).send opcode arguments false buffer) s (.error e, buffer') t ∧
      Wedged t := by
  by_cases hvalid : maxOpcode < opcode ∨ maxArguments < arguments.length
  · exact ⟨_, _, s, send_fails (attempt_failed (sendCommand_invalid s hvalid)) rfl (by decide), h⟩
  · obtain ⟨hopcode, harguments⟩ := valid_iff.mp hvalid
    exact ⟨_, h.send_timeout timing hopcode harguments _ 1 buffer⟩

/-- It stays so whatever else is sent and whatever goes wrong. -/
theorem performAll {steps : List Step} (hsteps : .init ∉ steps) :
    ∃ t, Returns (performAll timing steps) s () t ∧ Wedged t := by
  induction steps generalizing s with
  | nil => exact ⟨s, .pure () s, h⟩
  | cons step steps ih =>
    obtain ⟨hstep, hsteps⟩ := List.ne_and_not_mem_of_not_mem_cons hsteps
    have hperform : ∃ t, Returns (step.perform timing) s () t ∧ Wedged t := by
      cases step with
      | init => exact absurd rfl hstep
      | send opcode arguments room =>
        obtain ⟨e, buffer', t, hsend, ht⟩ :=
          h.send timing opcode arguments (Vector.replicate room 0)
        exact ⟨t, hsend.discard, ht⟩
      | fault f => exact ⟨_, .modify _ s, h.inject f⟩
    obtain ⟨t, hone, ht⟩ := hperform
    obtain ⟨u, hrest, hu⟩ := ih ht hsteps
    exact ⟨u, hone.bind hrest, hu⟩

end Send

end Wedged

/-- If the response ring is full, the driver restarts the device manager and reports success, and from then on
every command times out. -/
theorem init_wedges {calls : List Call} (hrun : Returns (Call.run timing calls) (fresh {}) () s)
    (h : s.Faultless) (hfull : s.room = 0) (hpolls : 0 < timing.doorbellPolls) :
    Ends (host timing).init s (.ok ()) s.restarted ∧
      ∀ {room : Nat} (steps : List Step) (opcode : UInt32) (arguments : List UInt32)
        (buffer : Vector UInt32 room), .init ∉ steps → opcode ≤ maxOpcode →
        arguments.length ≤ maxArguments → ∃ t buffer' u,
          Returns (performAll timing steps) s.restarted () t ∧
            Returns ((host timing).send opcode arguments false buffer) t (.error .timeout, buffer') u := by
  have hs := Call.sound_run hrun
  refine ⟨ends_init hs h hpolls, fun steps opcode arguments buffer hsteps hopcode harguments => ?_⟩
  obtain ⟨t, hperform, ht⟩ := (wedged_restarted hs hfull).performAll timing hsteps
  obtain ⟨buffer', u, hsend, -⟩ := ht.send_timeout timing hopcode harguments _ 1 buffer
  exact ⟨t, buffer', u, hperform, hsend⟩

/-- Two polls for room are enough for a device manager without delay. -/
def quick : Timing :=
  { commandPolls := 2 }

theorem ample_quick : Ample quick :=
  ⟨by decide, by decide, by decide⟩

def strangerSync : LoggedCommand :=
  ⟨.make 3 2 0 false 2, []⟩

/-- The next header goes for the argument that a long command lacks, and the arguments that follow it draw
responses to a stranger. These fill the response ring when the first response has been taken. -/
def crammed : List Call :=
  [.fault (.consumeDelay 5), .sendOnly 93 false (.replicate 31 0), .fault (.consumeDelay 0),
    .sendOnly 4 false (.replicate 15 strangerSync.header.word), .receive 1]

/-- All that is left are whole responses to others, but they fill the ring. -/
theorem room_needed : ∃ s, Ample quick ∧ Returns (Call.run quick crammed) (fresh {}) () s ∧ s.Faultless ∧ s.room = 0 ∧
    s.restarted.caughtUp.partialCommand = none ∧
    s.restarted.caughtUp.outbox = Response.wire (.replicate 15 (answer strangerSync (fresh {}))) ∧
    ¬ (answer strangerSync (fresh {})).Answers ∧ Ends (host quick).init s (.ok ()) s.restarted ∧
    ∃ buffer t, Returns ((host quick).send 91 [] false (Vector.replicate 9 0)) s.restarted
      (.error .timeout, buffer) t := by
  obtain ⟨_, s, hrun, -, -⟩ := Call.keeps_run quick crammed (fresh {}) sound_fresh
  obtain ⟨h, hfull, hwhole, hleft⟩ := hrun.tested (P := fun _ s => s.Faultless ∧ s.room = 0 ∧
      s.restarted.caughtUp.partialCommand = none ∧
      s.restarted.caughtUp.outbox = Response.wire (.replicate 15 (answer strangerSync (fresh {}))))
    (by decide +kernel)
  obtain ⟨hinit, hwedged⟩ := init_wedges hrun h hfull (by decide)
  obtain ⟨t, buffer, u, hnone, hsend⟩ :=
    hwedged [] 91 [] (Vector.replicate 9 0) List.not_mem_nil (by decide) (by decide)
  obtain rfl : s.restarted = t := (hnone.unique (.pure () _)).2.symm
  exact ⟨s, ample_quick, hrun, h, hfull, hwhole, hleft, by decide +kernel, hinit, buffer, u, hsend⟩

/-! ### Parts of commands and of responses -/

/-- A run, a restart and a call, with the state before the restart. -/
def runThenRestart (timing : Timing) (calls : List Call) (opcode : UInt32) (room : Nat) :
    RegisterM EmulatedSdm (EmulatedSdm × Except MailboxError Nat × Vector UInt32 room) := do
  Call.run timing calls
  let s ← get
  discard (host timing).init.run
  let answer ← (host timing).send opcode [] false (Vector.replicate room 0)
  return (s, answer)

/-- All three come to an end if the run leaves no fault, and what is decidable about them is found out by
running them. -/
theorem tested_runThenRestart (timing : Timing) (calls : List Call) (opcode : UInt32)
    (hpolls : 0 < timing.doorbellPolls)
    (P : EmulatedSdm → Except MailboxError Nat → Vector UInt32 room → EmulatedSdm → Prop)
    [∀ s r buffer t, Decidable (P s r buffer t)]
    (hcalls : ((Call.run timing calls (fresh {}) #[]).map fun x => decide x.1.2.Faultless) = some true)
    (hP : ((runThenRestart timing calls opcode room (fresh {}) #[]).map fun x =>
      decide (P x.1.1.1 x.1.1.2.1 x.1.1.2.2 x.1.2)) = some true) :
    ∃ s r buffer t, Returns (Call.run timing calls) (fresh {}) () s ∧ s.Faultless ∧
      Ends (host timing).init s (.ok ()) s.restarted ∧
      Returns ((host timing).send opcode [] false (Vector.replicate room 0)) s.restarted (r, buffer) t ∧
      P s r buffer t := by
  obtain ⟨_, s, hrun, hs, -⟩ := Call.keeps_run timing calls (fresh {}) sound_fresh
  have h : s.Faultless := hrun.tested (P := fun _ s => s.Faultless) hcalls
  have hinit := ends_init hs h hpolls
  obtain ⟨⟨r, buffer⟩, t, hsend, -, -⟩ :=
    keeps_send timing opcode [] false (Vector.replicate room 0) s.restarted hs.restarted
  have hall : Returns (runThenRestart timing calls opcode room) (fresh {}) (s, r, buffer) t :=
    hrun.bind <| (Returns.get s).bind <| (Returns.discard hinit).bind <| hsend.bind (.pure _ t)
  exact ⟨s, r, buffer, t, hrun, h, hinit, hsend, hall.tested (P := fun x t => P x.1 x.2.1 x.2.2 t) hP⟩

/-- The device manager still waits for the last argument of a command that the driver gave up, and takes the
next header for it. -/
theorem whole_command_needed : ∃ s buffer t, Ample quick ∧
    Returns (Call.run quick [.fault (.consumeDelay 5), .sendOnly 93 false (.replicate 31 7),
      .fault (.consumeDelay 0)]) (fresh {}) () s ∧ s.Faultless ∧ 0 < s.room ∧
      s.restarted.caughtUp.outbox = Response.wire [] ∧ Ends (host quick).init s (.ok ()) s.restarted ∧
      Returns ((host quick).send 91 [] false (Vector.replicate 9 0)) s.restarted (.ok 0, buffer) t ∧
      t.log.toList = [⟨(LoggedCommand.fromHost 93 (.replicate 31 7)).header,
        .replicate 30 7 ++ [(LoggedCommand.fromHost 91 []).header.word]⟩] := by
  obtain ⟨s, r, buffer, t, hrun, h, hinit, hsend, rfl, hroom, hleft, hlog⟩ :=
    tested_runThenRestart quick [.fault (.consumeDelay 5), .sendOnly 93 false (.replicate 31 7),
      .fault (.consumeDelay 0)] 91 (by decide)
      (fun s r (_ : Vector UInt32 9) t => r = .ok 0 ∧ 0 < s.room ∧ s.restarted.caughtUp.outbox = Response.wire [] ∧
        t.log.toList = [⟨(LoggedCommand.fromHost 93 (.replicate 31 7)).header,
          .replicate 30 7 ++ [(LoggedCommand.fromHost 91 []).header.word]⟩])
      (by decide +kernel) (by decide +kernel)
  exact ⟨s, buffer, t, ample_quick, hrun, h, hroom, hleft, hinit, hsend, hlog⟩

/-- A restart withdraws the words of an answer that have not been published, and the header that has been
claims the next answer for its data. -/
theorem whole_responses_needed : ∃ s buffer t,
    Returns (Call.run {} [.fault (.strays 7), .sendOnly 90 false [], .init, .drain 1]) (fresh {}) () s ∧
      s.Faultless ∧ 0 < s.room ∧ s.restarted.caughtUp.partialCommand = none ∧
      s.restarted.caughtUp.outbox = Response.wire (.replicate 6 (stray (.fromHost 90 []))) ++
        [(answer (.fromHost 90 []) (fresh {})).header.word] ∧
      Ends (host {}).init s (.ok ()) s.restarted ∧
      Returns ((host {}).send 91 [] false (Vector.replicate 9 0)) s.restarted (.ok 4, buffer) t ∧
      buffer.toList.take 4 = (answer (.fromHost 91 []) s.restarted).words.take 4 := by
  obtain ⟨s, r, buffer, t, hrun, h, hinit, hsend, rfl, hroom, hwhole, hleft, hbuffer⟩ :=
    tested_runThenRestart {} [.fault (.strays 7), .sendOnly 90 false [], .init, .drain 1] 91 (by decide)
      (fun s r (buffer : Vector UInt32 9) _ => r = .ok 4 ∧ 0 < s.room ∧
        s.restarted.caughtUp.partialCommand = none ∧
        s.restarted.caughtUp.outbox = Response.wire (.replicate 6 (stray (.fromHost 90 []))) ++
          [(answer (.fromHost 90 []) (fresh {})).header.word] ∧
        buffer.toList.take 4 = (answer (.fromHost 91 []) s.restarted).words.take 4)
      (by decide +kernel) (by decide +kernel)
  exact ⟨s, buffer, t, hrun, h, hroom, hwhole, hleft, hinit, hsend, hbuffer⟩

end Mailbox

end RemoteUpdate
