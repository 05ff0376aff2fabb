import RemoteUpdate.Proofs.Mailbox.Headers
import RemoteUpdate.Proofs.Runs
import RemoteUpdate.Sdm.Firmware

/-!
# What the device manager answers

Execution of a command as a function of the state: `executed` adds the command to the log and its
responses, stray ones first, to the outbox. What is answered depends on nothing that belongs to the
rings, nor on a command that is still coming in.
-/

namespace RemoteUpdate

namespace EmulatedSdm

/-! ### Handling -/

/-- The device manager after a command has been carried out, with the code and the data of the answer. -/
def handled (opcode : UInt32) (arguments : List UInt32) (s : EmulatedSdm) :
    EmulatedSdm × ResponseCode × List UInt32 :=
  match Command.ofOpcode? opcode, arguments with
  | some .restart, _ => (s, .ok, [])
  | some .configStatus, _ | some .reconfigStatus, _ => (s, .ok, s.configStatus.toList)
  | some .qspiOpen, _ => ({ s with controllerOpen := true }, .ok, [])
  | some .qspiClose, _ => ({ s with controllerOpen := false }, .ok, [])
  | some .qspiDirect, _ => (s, if s.controllerOpen then (.ok, [s.referenceClock]) else (.error, []))
  | some .reboot, _ => (rebooted s, .ok, [])
  | some .subpartitionTable, _ => (s, .ok, s.subpartitions.toList)
  | some .updateStatus, _ => (s, .ok, s.updateStatus.toWords.toList.take s.statusWords)
  | some .update, low :: high :: _ =>
    ({ s with pendingUpdate := some (joinWords low high) }, .ok, [])
  | some .stageNotify, value :: _ => (notified value s, .ok, [])
  | some .update, _ | some .stageNotify, _ => (s, .error, [])
  | some .deviceInfo, _ => (s, .ok, s.deviceInfo.toWords.toList)
  | none, _ => (s, .invalidCommand, [])

theorem returns_handle (opcode : UInt32) (arguments : List UInt32) (s : EmulatedSdm) :
    Returns (handle opcode arguments) s (handled opcode arguments s).2
      (handled opcode arguments s).1 := by
  unfold handle handled
  cases Command.ofOpcode? opcode with
  | none => exact (Returns.emit _ s).bind (.pure _ s)
  | some command =>
    cases command
    case qspiDirect =>
      refine (Returns.get s).bind ?_
      simp only
      split <;> exact .pure _ s
    case update =>
      match arguments with
      | [] | [_] => exact (Returns.emit _ s).bind (.pure _ s)
      | _ :: _ :: _ => exact (Returns.modify _ s).bind (.pure _ _)
    case stageNotify =>
      match arguments with
      | [] => exact (Returns.emit _ s).bind (.pure _ s)
      | _ :: _ => exact (Returns.modify _ s).bind (.pure _ _)
    all_goals first
      | exact .pure _ s
      | exact (Returns.modify _ s).bind (.pure _ _)

/-- No answer carries more words than the update status. -/
theorem length_handled (opcode : UInt32) (arguments : List UInt32) (s : EmulatedSdm) :
    (handled opcode arguments s).2.2.length ≤ updateStatusWords := by
  unfold handled
  split
  case h_6 => split <;> simp [updateStatusWords]
  all_goals first
    | exact Nat.zero_le _
    | exact (List.length_take_le' ..).trans Vector.length_toList.le
    | exact Vector.length_toList.le.trans (by decide)

/-- Code and data of the answer to a command, and the state after it but for the log, the outbox and
the strays: an injected busy answer or failure takes the place of execution. -/
def replied (c : LoggedCommand) (s : EmulatedSdm) : EmulatedSdm × UInt32 × List UInt32 :=
  if 0 < s.busy then ({ s with busy := s.busy - 1 }, ResponseCode.deviceBusy.value, [])
  else
    match takeFailure c.header.opcode s.failures with
    | some (code, failures) => ({ s with failures }, code, [])
    | none =>
      let (t, code, data) := handled c.header.opcode c.arguments s
      (t, code.value, data)

theorem length_replied (c : LoggedCommand) (s : EmulatedSdm) :
    (replied c s).2.2.length ≤ updateStatusWords := by
  unfold replied
  split
  · simp
  · split
    · simp
    · exact length_handled _ _ s

def answer (c : LoggedCommand) (s : EmulatedSdm) : Response where
  header := ResponseHeader.make c.header.client c.header.transaction (replied c s).2.2.length
    (replied c s).2.1
  data := (replied c s).2.2
  whole := by
    have := length_replied c s
    rw [ResponseHeader.length_make (by unfold updateStatusWords at this; omega)]

theorem code_answer (c : LoggedCommand) (s : EmulatedSdm) :
    (answer c s).header.code = (replied c s).2.1 &&& HeaderField.code.mask :=
  ResponseHeader.code_make

/-- A stray response in front of the answer to a command. -/
def stray (c : LoggedCommand) : Response where
  header :=
    let h := CommandHeader.make c.header.client ((c.header.transaction + 1) &&& 0xf) 0 false 0
    ResponseHeader.make h.client h.transaction 1 ResponseCode.ok.value
  data := [0xdeadbeef]
  whole := by rw [ResponseHeader.length_make (by omega)]; rfl

def responses (c : LoggedCommand) (s : EmulatedSdm) : List Response :=
  List.replicate s.strays (stray c) ++ [answer c s]

/-! ### What does not matter for an answer -/

/-- The device manager with the mailbox of another one, and another log, other strays and another
outbox. -/
def dressed (s d : EmulatedSdm) (log : Array LoggedCommand) (strays : Nat) (outbox : List UInt32) :
    EmulatedSdm :=
  { s with
    map := d.map
    cin := d.cin
    rout := d.rout
    urgent := d.urgent
    interrupts := d.interrupts
    cout := d.cout
    rin := d.rin
    status := d.status
    doorbell := d.doorbell
    commandCells := d.commandCells
    responseCells := d.responseCells
    consumeDelay := d.consumeDelay
    countdown := d.countdown
    lostDoorbells := d.lostDoorbells
    acknowledgeFrozen := d.acknowledgeFrozen
    overflowDoorbells := d.overflowDoorbells
    urgentCount := d.urgentCount
    log
    strays
    outbox }

/-- The device manager after it has executed a command. -/
def executed (c : LoggedCommand) (s : EmulatedSdm) : EmulatedSdm :=
  (replied c s).1.dressed s (s.log.push c) 0 (s.outbox ++ Response.wire (responses c s))

section Dressed

variable (d : EmulatedSdm) (log : Array LoggedCommand) (strays : Nat) (outbox : List UInt32)

theorem handled_dressed (opcode : UInt32) (arguments : List UInt32) (s : EmulatedSdm) :
    handled opcode arguments (s.dressed d log strays outbox) =
      ((handled opcode arguments s).1.dressed d log strays outbox,
        (handled opcode arguments s).2) := by
  unfold handled
  split
  all_goals try rfl
  cases h : s.pendingUpdate <;> simp [rebooted, dressed, h]

theorem replied_dressed (c : LoggedCommand) (s : EmulatedSdm) :
    replied c (s.dressed d log strays outbox) =
      ((replied c s).1.dressed d log strays outbox, (replied c s).2) := by
  have busy : (s.dressed d log strays outbox).busy = s.busy := rfl
  have failures : (s.dressed d log strays outbox).failures = s.failures := rfl
  unfold replied
  rw [busy, failures, handled_dressed]
  split
  · rfl
  · split <;> rfl

theorem answer_dressed (c : LoggedCommand) (s : EmulatedSdm) :
    answer c (s.dressed d log strays outbox) = answer c s := by
  simp [answer, replied_dressed]

end Dressed

theorem handled_partial (opcode : UInt32) (arguments : List UInt32) (s : EmulatedSdm)
    (partialCommand : Option LoggedCommand) :
    handled opcode arguments { s with partialCommand } =
      ({ (handled opcode arguments s).1 with partialCommand }, (handled opcode arguments s).2) := by
  unfold handled
  split
  all_goals try rfl
  cases h : s.pendingUpdate <;> simp [rebooted, h]

theorem executed_partial (c : LoggedCommand) (s : EmulatedSdm)
    (partialCommand : Option LoggedCommand) :
    executed c { s with partialCommand } = { executed c s with partialCommand } := by
  have hreplied : replied c { s with partialCommand } =
      ({ (replied c s).1 with partialCommand }, (replied c s).2) := by
    have busy : EmulatedSdm.busy { s with partialCommand } = s.busy := rfl
    have failures : EmulatedSdm.failures { s with partialCommand } = s.failures := rfl
    unfold replied
    rw [busy, failures, handled_partial]
    split
    · rfl
    · split <;> rfl
  simp only [executed, responses, answer, hreplied]
  rfl

/-! ### Execution -/

theorem repeat_respondStray (c : LoggedCommand) (n : Nat) (s : EmulatedSdm) :
    n.repeat (respondStray c.header) s =
      { s with outbox := s.outbox ++ Response.wire (.replicate n (stray c)) } := by
  induction n with
  | zero => simp [Nat.repeat]
  | succ n ih =>
    rw [Nat.repeat, ih, List.replicate_succ', Response.wire_append, ← List.append_assoc]
    rfl

/-- The state in which a command is answered: it is logged, and the strays are out. -/
def announced (c : LoggedCommand) (s : EmulatedSdm) : EmulatedSdm :=
  s.dressed s (s.log.push c) 0 (s.outbox ++ Response.wire (.replicate s.strays (stray c)))

theorem respond_replied (c : LoggedCommand) (s : EmulatedSdm) :
    respond c.header (replied c (announced c s)).2.1 (replied c (announced c s)).2.2
      (replied c (announced c s)).1 = executed c s := by
  unfold announced
  rw [replied_dressed]
  simp [executed, responses, respond, dressed, answer]

theorem returns_execute (c : LoggedCommand) (s : EmulatedSdm) :
    Returns (execute c) s () (executed c s) := by
  have strays_first : ({ s.strays.repeat (respondStray c.header) { s with log := s.log.push c } with
      strays := 0 } : EmulatedSdm) = announced c s := by
    rw [repeat_respondStray]
    rfl
  unfold execute
  refine (Returns.emit _ s).bind <| (Returns.modify _ s).bind <|
    .bind (a := ()) (t := announced c s) ?_ ?_
  · rw [← strays_first]
    exact .modify _ _
  · rw [← respond_replied]
    generalize announced c s = t
    refine (Returns.get t).bind ?_
    unfold replied
    split
    · exact .set _ _
    · cases takeFailure c.header.opcode t.failures with
      | some plan => exact .set _ _
      | none => exact (returns_handle _ _ t).bind (.modify _ _)

end EmulatedSdm

end RemoteUpdate
