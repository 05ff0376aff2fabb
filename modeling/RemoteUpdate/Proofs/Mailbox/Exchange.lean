import RemoteUpdate.Proofs.Mailbox.Answering

/-!
# One exchange

A command that is sent while the mailbox is idle is executed once, and its answer is what the sender gets,
whatever responses to others are in the way.
-/

namespace RemoteUpdate

namespace EmulatedSdm

variable {c : LoggedCommand} {s t : EmulatedSdm} {rs : List Response}

/-- The host is not sending anything, and the device manager has nothing to consume. -/
structure Idle (s : EmulatedSdm) : Prop where
  sound : s.Sound
  empty : s.cin = s.cout
  whole : s.partialCommand = none
  urgent : s.urgent = 0
  stopped : s.countdown = none

theorem Idle.timely (h : Idle s) : s.Timely := by
  intro c hc
  rw [h.stopped] at hc
  exact nomatch hc

theorem Idle.commandWords (h : Idle s) : s.commandWords = [] :=
  h.sound.commandWords_eq_nil.mpr h.empty

theorem executed_partialCommand (c : LoggedCommand) (s : EmulatedSdm) :
    (executed c s).partialCommand = s.partialCommand := by
  have h := congrArg EmulatedSdm.partialCommand (executed_partial c s s.partialCommand)
  exact h

/-- What an idle device manager becomes when the words of a command are sent to it. -/
theorem Idle.caughtUp_command (h : Idle s) (hc : c.Whole) :
    c.words.foldl absorb s.caughtUp = (executed c s).behind blank s.responseWords := by
  rw [caughtUp_of_empty h.commandWords, absorbAll_behind, absorb_words h.whole hc]

theorem Idle.outbox_command (h : Idle s) (hc : c.Whole) (hqueue : s.queue = Response.wire rs) :
    (c.words.foldl absorb s.caughtUp).outbox = Response.wire (rs ++ responses c s) := by
  rw [h.caughtUp_command hc, Response.wire_append, ← hqueue, queue, List.append_assoc]
  rfl

/-- As long as words of a command are in the ring, nothing has come of it. -/
theorem Idle.queue_command (h : Idle s) (hc : c.Whole) (hsent : Sent c.words s t)
    (hwords : t.commandWords ≠ []) : t.queue = s.queue := by
  rcases hsent.seen with ⟨-, hqueue, -⟩ | ⟨front, hfront, hqueue, -⟩
  · exact hqueue
  · have hpartial : s.caughtUp.partialCommand = none := by
      rw [caughtUp_of_empty h.commandWords]
      exact h.whole
    obtain ⟨p, hpart⟩ := absorb_part hpartial hc hfront hwords
    rw [hqueue, hpart, (settled_of_empty h.commandWords).1]

theorem Finished.settles {words : List UInt32} (h : Finished words s t) (hu : s.urgent = 0)
    (hp : s.caughtUp.partialCommand = none) : Idle t ∧ t.log = s.caughtUp.log := by
  have hcaught := caughtUp_of_empty h.empty
  refine ⟨⟨h.sound, h.sound.commandWords_eq_nil.mp h.empty, ?_, h.urgent.trans hu, h.stopped⟩, ?_⟩
  · rw [h.caughtUp, hcaught] at hp
    exact hp
  · rw [h.caughtUp, hcaught]
    rfl

theorem Finished.idle {words : List UInt32} (h : Finished words s t) (hu : s.urgent = 0)
    (hp : s.caughtUp.partialCommand = none) (hall : s.caughtUp.outbox = words) :
    Idle t ∧ t.queue = [] ∧ t.log = s.caughtUp.log := by
  obtain ⟨hidle, hlog⟩ := h.settles hu hp
  refine ⟨hidle, ?_, hlog⟩
  rw [h.caughtUp] at hall
  rw [(settled_of_empty h.empty).1]
  simpa using List.append_cancel_left (hall.trans (List.append_nil words).symm)

end EmulatedSdm

open EmulatedSdm

theorem getElem_overlay {n : Nat} (buffer : Vector UInt32 n) (words : List UInt32) {i : Nat}
    (hi : i < n) : (overlay buffer words)[i] = words.getD i buffer[i] := by
  simp [overlay]

theorem overlay_nil {n : Nat} (buffer : Vector UInt32 n) : overlay buffer [] = buffer :=
  Vector.ext fun i hi => by simp [getElem_overlay]

theorem overlay_take {n : Nat} (buffer : Vector UInt32 n) (words : List UInt32) :
    overlay buffer (words.take n) = overlay buffer words := by
  refine Vector.ext fun i hi => ?_
  rw [getElem_overlay buffer _ hi, getElem_overlay buffer _ hi]
  simp [List.getD_eq_getElem?_getD, hi]

namespace Mailbox

/-- The words of an answer count as far as there is room. -/
theorem result_answeredBy (r : Response) (room : Nat) :
    (answeredBy r room).result = resultOfCode r.header.code (min room r.data.length) := by
  show resultOfCode _ (r.data.take room).length = _
  rw [List.length_take]

theorem overlay_answeredBy (r : Response) {n : Nat} (buffer : Vector UInt32 n) :
    overlay buffer (answeredBy r n).copied = overlay buffer r.data :=
  overlay_take buffer r.data

theorem ends_request_of_send {ρ : Type} [RegisterBlock ρ] {m : Mailbox ρ} {command : Command}
    {arguments : List UInt32} {n : Nat} {buffer buffer' : Vector UInt32 n} {r : Except MailboxError Nat}
    {x y : ρ} (h : Returns (m.send command.opcode arguments false buffer) x (r, buffer') y) :
    Ends (m.request command arguments buffer) x (r.map fun count => (count, buffer')) y := by
  unfold request
  refine (Ends.lift h).bind ?_
  unfold request.liftExcept
  cases r with
  | ok count => exact Ends.bind (Returns.pure _ y) (Ends.pure _ y)
  | error e => exact Ends.bind_error (Returns.pure _ y)

variable {timing : Timing} {s t : EmulatedSdm} {strays : List Response} {opcode : UInt32}
  {arguments : List UInt32}

/-- A patient driver, or one with room for all of its command, gets it into the ring, and rings for it. -/
theorem sendCommand_through (hs : s.Sound) (hu : s.urgent = 0) (ht : s.Timely) (hopcode : opcode ≤ maxOpcode)
    (harguments : arguments.length ≤ maxArguments)
    (hthrough : timing.Patient s.consumeDelay ∨ 0 < timing.commandPolls ∧
      (LoggedCommand.fromHost opcode arguments).words.length ≤ s.commandRoom) :
    ∃ t, Ends ((host timing).sendCommand opcode false arguments) s (.ok ()) t.rung ∧
      Sent (LoggedCommand.fromHost opcode arguments).words s t ∧ t.commandWords ≠ [] := by
  obtain ⟨r, t, hends, hcases⟩ := writeWords_sent timing hs hu ht.ne_zero
    (LoggedCommand.fromHost opcode arguments).words
  rcases hcases with ⟨rfl, hsent, hin⟩ | ⟨rfl, himpatient, -⟩
  · exact ⟨t, sendCommand_ok hs hopcode harguments (hsent.urgent.trans hu) hsent.sound hends, hsent,
      hin (.inr (List.cons_ne_nil _ _))⟩
  · rcases hthrough with hpatient | ⟨hpolls, hroom⟩
    · exact absurd (hpatient.outlasts ht) himpatient
    · obtain ⟨u, hends', -⟩ := writeWords_room hs hpolls hroom
      exact nomatch (Returns.unique hends hends').1

/-- A device manager without delay answers as soon as the doorbell is rung. -/
theorem ripe_rung {rs : List Response} (hs : t.Sound) (ht : t.Timely) (ha : t.Alert)
    (hdelay : t.consumeDelay = 0) (hall : t.caughtUp.outbox = Response.wire rs)
    (hmore : t.queue ≠ Response.wire rs) : Ripe rs t.rung ∧ t.rung.Raised := by
  have hadv := advances_rung hs
  obtain ⟨hempty, -, hpublished, hraised⟩ := rung_at_once hs hdelay
  have hstopped : t.rung.countdown = none := by
    rw [Option.eq_none_iff_forall_ne_some]
    intro c hc
    have hclock := hadv.timely ht c hc
    rw [hadv.consumeDelay, hdelay] at hclock
    omega
  refine ⟨⟨hadv.sound, (hadv.alert ha).1, ?_, hpublished, hempty, hstopped⟩, hraised ha ?_⟩
  · rw [(settled_of_empty hempty).1, hadv.caughtUp, hall]
  · rw [hall]
    exact hmore.symm

/-- Sending a command to an idle mailbox brings the answer on its way. -/
theorem sendCommand_idle (h : Idle s) (ha : s.Alert) (hqueue : s.queue = Response.wire strays)
    (hopcode : opcode ≤ maxOpcode) (harguments : arguments.length ≤ maxArguments)
    (hpasses : timing.Passes s.consumeDelay (LoggedCommand.fromHost opcode arguments).words.length) :
    ∃ t, Ends ((host timing).sendCommand opcode false arguments) s (.ok ()) t ∧
      t.caughtUp = (executed (.fromHost opcode arguments) s).behind blank s.responseWords ∧
      t.urgent = 0 ∧ t.Alert ∧
      (Ripe (strays ++ responses (.fromHost opcode arguments) s) t ∧ t.Raised ∨
        ∃ c, c + 1 ≤ s.consumeDelay ∧
          Due (c + 1) strays (responses (.fromHost opcode arguments) s) t) := by
  have hwhole : (LoggedCommand.fromHost opcode arguments).Whole :=
    LoggedCommand.whole_fromHost harguments
  have hroom := commandRoom_of_empty h.sound h.commandWords
  obtain ⟨t, hends, hsent, hwords⟩ := sendCommand_through h.sound h.urgent h.timely hopcode harguments
    (hpasses.imp_right fun ⟨hpolls, hlength⟩ => ⟨hpolls, hlength.trans hroom.ge⟩)
  have hadv := advances_rung hsent.sound
  have hbefore : t.queue = Response.wire strays := (h.queue_command hwhole hsent hwords).trans hqueue
  have houtbox : t.caughtUp.outbox = Response.wire (strays ++ responses (.fromHost opcode arguments) s) := by
    rw [hsent.caughtUp, h.outbox_command hwhole hqueue]
  have hmore : responses (.fromHost opcode arguments) s ≠ [] := by simp [responses]
  have halert := hsent.alert ha
  refine ⟨t.rung, hends, ?_, hadv.urgent.trans (hsent.urgent.trans h.urgent), hadv.alert halert, ?_⟩
  · rw [hadv.caughtUp, hsent.caughtUp, h.caughtUp_command hwhole]
  · -- without a delay the ring is answered at once, otherwise the clock runs from now on
    by_cases hdelay : t.consumeDelay = 0
    · refine .inl (ripe_rung hsent.sound (hsent.timely h.timely) halert hdelay houtbox fun heq => ?_)
      rw [hbefore] at heq
      exact hmore (by simpa using Response.wire_injective heq)
    · obtain ⟨-, hsame, hcount⟩ := rung_delayed hdelay
      obtain ⟨hpos, hle⟩ := hadv.timely (hsent.timely h.timely) _ hcount
      obtain ⟨c, hc⟩ : ∃ c, t.countdown.getD t.consumeDelay = c + 1 :=
        ⟨t.countdown.getD t.consumeDelay - 1, by omega⟩
      rw [hc] at hcount hle
      exact .inr ⟨c, hle.trans (hadv.consumeDelay.trans hsent.consumeDelay).le, hadv.sound, (hadv.alert halert).1, hsame.trans hbefore,
        hadv.caughtUp ▸ houtbox, hmore, hcount⟩

theorem attempt_sent {a : Attempt} {u : EmulatedSdm} {room : Nat}
    (hsend : Ends ((host timing).sendCommand opcode false arguments) s (.ok ()) u)
    (hcollect : Returns ((host timing).collect opcode room timing.doorbellPolls none) u a t) :
    Returns ((host timing).attempt opcode arguments false room) s a t := by
  unfold attempt
  exact Returns.bind hsend hcollect

theorem attempt_failed {e : MailboxError} {room : Nat}
    (hsend : Ends ((host timing).sendCommand opcode false arguments) s (.error e) t) :
    Returns ((host timing).attempt opcode arguments false room) s { result := .error e } t := by
  unfold attempt
  exact Returns.bind hsend (.pure _ t)

/-- The default timing is patient with every delay that its doorbell checks allow for. -/
theorem patient_default {delay : Nat} (h : delay + 4 ≤ ({} : Timing).doorbellPolls) :
    ({} : Timing).Patient delay := by
  change delay + 4 ≤ 1000 at h
  show max delay 1 < 1000
  omega

/-- An exchange with an idle mailbox passes over the responses to others and takes the answer. -/
theorem attempt_idle (h : Idle s) (ha : s.Alert) {strays : List Response}
    (hqueue : s.queue = Response.wire strays) (hstrays : ∀ r ∈ strays, ¬ r.Answers)
    (hopcode : opcode ≤ maxOpcode) (harguments : arguments.length ≤ maxArguments)
    (hbudget : strays.length + s.strays + s.consumeDelay + 4 ≤ timing.doorbellPolls)
    (hpasses : timing.Passes s.consumeDelay (LoggedCommand.fromHost opcode arguments).words.length)
    (hdata : 0 < timing.dataPolls) (room : Nat) :
    ∃ t, Returns ((host timing).attempt opcode arguments false room) s
        (answeredBy (answer (.fromHost opcode arguments) s) room) t ∧
      t.log = s.log.push (.fromHost opcode arguments) ∧ Idle t ∧ t.queue = [] ∧ t.Alert := by
  let c := LoggedCommand.fromHost opcode arguments
  have hwhole : c.Whole := LoggedCommand.whole_fromHost harguments
  have hanswer : (answer c s).Answers := answers_answer opcode arguments s
  have hnew : ∀ r ∈ List.replicate s.strays (stray c), ¬ r.Answers := by
    intro r hr
    rw [List.eq_of_mem_replicate hr]
    exact not_answers_stray opcode arguments
  obtain ⟨u, hsend, hcaught, hurgent, halert, hcases⟩ :=
    sendCommand_idle h ha hqueue hopcode harguments hpasses
  -- the answer is out before the doorbell is looked at, or the SDM still has to get to the command
  have hcollect : ∃ t, Returns ((host timing).collect opcode room timing.doorbellPolls none) u
      (answeredBy (answer c s) room) t ∧ Finished (Response.wire (strays ++ responses c s)) u t := by
    rcases hcases with ⟨hripe, hraised⟩ | ⟨d, hd, hdue⟩
    · have hall : ∀ r ∈ strays ++ List.replicate s.strays (stray c), ¬ r.Answers := by
        intro r hr
        rcases List.mem_append.mp hr with hr | hr
        · exact hstrays r hr
        · exact hnew r hr
      rw [responses, ← List.append_assoc] at hripe ⊢
      exact collect_ripe_raised opcode room timing.doorbellPolls hdata hall hanswer hripe hraised
        (.inl rfl) (by rw [List.length_append, List.length_replicate]; omega)
    · exact collect_due opcode room hdata hstrays hnew hanswer timing.doorbellPolls hdue halert
        (by rw [List.length_replicate]; omega)
  obtain ⟨t, hreturns, hfinished⟩ := hcollect
  have houtbox : u.caughtUp.outbox = Response.wire (strays ++ responses c s) := by
    rw [hcaught, ← h.caughtUp_command hwhole, h.outbox_command hwhole hqueue]
  have hpartial : u.caughtUp.partialCommand = none := by
    rw [hcaught]
    exact (executed_partialCommand c s).trans h.whole
  obtain ⟨hidle, hempty, hlog⟩ := hfinished.idle hurgent hpartial houtbox
  refine ⟨t, attempt_sent hsend hreturns, ?_, hidle, hempty,
    alert_of_empty hidle.sound hfinished.lost hempty⟩
  rw [hlog, hcaught]
  rfl

/-- One exchange with an idle mailbox: the command is executed once, the sender gets the code and the data
of the answer, and the mailbox is idle again with nothing left to read. -/
theorem attempt_answered {n : Nat} (timing : Timing) (s : EmulatedSdm) (strays : List Response)
    (opcode : UInt32) (arguments : List UInt32) (buffer : Vector UInt32 n) (h : Idle s) (ha : s.Alert)
    (hqueue : s.queue = Response.wire strays) (hstrays : ∀ r ∈ strays, ¬ r.Answers)
    (hopcode : opcode ≤ maxOpcode) (harguments : arguments.length ≤ maxArguments)
    (hbudget : strays.length + s.strays + s.consumeDelay + 4 ≤ timing.doorbellPolls)
    (hpatient : timing.Patient s.consumeDelay) (hdata : 0 < timing.dataPolls) :
    ∃ (c : LoggedCommand) (a : Attempt) (t : EmulatedSdm),
      c = .fromHost opcode arguments ∧ c.header.opcode = opcode ∧ c.arguments = arguments ∧
      Returns ((host timing).attempt opcode arguments false n) s a t ∧ t.log = s.log.push c ∧
      a.result = resultOfCode (answer c s).header.code (min n (answer c s).data.length) ∧
      (∀ i (hi : i < n), (overlay buffer a.copied)[i] =
        if hj : i < (answer c s).data.length then (answer c s).data[i] else buffer[i]) ∧
      Idle t ∧ t.queue = [] ∧ t.Alert := by
  let c := LoggedCommand.fromHost opcode arguments
  obtain ⟨t, hattempt, hlog, hidle, hempty, halert⟩ :=
    attempt_idle h ha hqueue hstrays hopcode harguments hbudget (.inl hpatient) hdata n
  refine ⟨c, answeredBy (answer c s) n, t, rfl, CommandHeader.opcode_make hopcode, rfl, hattempt, hlog,
    result_answeredBy _ n, ?_, hidle, hempty, halert⟩
  intro i hi
  simp only [overlay_answeredBy, getElem_overlay buffer _ hi, List.getD_eq_getElem?_getD]
  split
  next hj => simp [hj]
  next hj => simp [hj]

/-- A device manager with a response to somebody else that it has not published, two strays to come and
three ticks of delay. -/
def crowded : EmulatedSdm :=
  { (fresh {}) with outbox := [0], strays := 2, consumeDelay := 3 }

theorem idle_crowded : Idle crowded :=
  ⟨⟨rfl, by decide, by decide, by decide, by decide, rfl, rfl⟩, rfl, rfl, rfl, rfl⟩

/-- The partition table request gets its four words through, of which two fit. -/
theorem attempt_answered_crowded : ∃ a t,
    Returns ((host {}).attempt 90 [] false 2) crowded a t ∧ t.log.size = 1 ∧
      (overlay #v[7, 7] a.copied)[1] = 0x100000 := by
  obtain ⟨c, a, t, rfl, -, -, hreturns, hlog, hresult, hbuffer, -⟩ :=
    attempt_answered {} crowded [⟨⟨0⟩, [], rfl⟩] 90 [] #v[7, 7] idle_crowded
      ⟨rfl, .inr (by decide)⟩ (by decide) (by decide) (by decide) (by decide) (by decide)
      (patient_default (by decide)) (by decide)
  refine ⟨a, t, hreturns, by rw [hlog]; rfl, ?_⟩
  rw [hbuffer 1 (by omega)]
  rfl

end Mailbox

end RemoteUpdate
